import ArenaHash.Proofs.Table.Room

/-!
# Insertions that are attempted again

An attempt that is denied leaves the table as it was, or redistributed once the array was granted
that it had asked for: `Primed` says so, with the number of arrays granted so far. The array that
was granted is large enough for the next attempt (`Redistributed.due?_eq_none`). So two attempts
that are not denied, one at once and one after others that were, link the new node in tables that
are `Alike`, and leave tables that differ in no more than the block of the new node (`Twin`).
-/

namespace ArenaHash

namespace Pool

variable {s : Shape} {α A : Type}

/-- The inline slot that is handed out next, if one is left. -/
def nextInline? (p : Pool s α A) : Option Nat :=
  p.freeList.or (if p.untouched < s.capacity then some p.untouched else none)

theorem nextInline?_congr {p p' : Pool s α A} (h : p'.books = p.books) :
    p'.nextInline? = p.nextInline? := by
  have hfree : p'.freeList = p.freeList := congrArg (fun books => books.1) h
  have huntouched : p'.untouched = p.untouched := congrArg (fun books => books.2.1) h
  rw [nextInline?, nextInline?, hfree, huntouched]

theorem index?_alloc [Allocator A] {p p' : Pool s α A} {heap heap' : Heap A} {q : Ref}
    (h : p.alloc heap = (.ok q, p', heap')) : q.index? = p.nextInline? := by
  have hcases := p.allocation heap
  rw [h] at hcases
  unfold nextInline?
  cases hcases with
  | reuse hf => rw [hf]; rfl
  | touch hf hlt => rw [hf, if_pos hlt]; rfl
  | spill hf hle => rw [hf, if_neg (Nat.not_lt.mpr hle)]; rfl

end Pool

/-- What a cell is like wherever its overflow block is. -/
def Cell.imprint {T : Type} (c : Cell T) : Option Nat × Option (T × Option UInt64) :=
  (c.ref.index?, some (c.entry, c.hash))

namespace Table

variable {s : Shape} {T A : Type} {t t' u u' : Table s T A}

/-- The nodes of a bucket, front to back: for each the inline slot that it is in, unless it is in an
overflow block, and its contents. -/
def imprint (t : Table s T A) (i : Nat) : List (Option Nat × Option (T × Option UInt64)) :=
  (t.chain i).map fun q => (q.index?, t.contentAt q)

/-- Two tables with the same nodes in the same chains. -/
structure Alike (t u : Table s T A) : Prop where
  bucketCount : u.bucketCount = t.bucketCount
  growth : u.growth = t.growth
  chain : ∀ i, u.chain i = t.chain i
  contentAt : ∀ q, u.contentAt q = t.contentAt q
  books : u.nodes.books = t.nodes.books

/-- Two tables that differ in no more than where their overflow blocks are. -/
structure Twin (t u : Table s T A) : Prop where
  bucketCount : u.bucketCount = t.bucketCount
  growth : u.growth = t.growth
  size : u.size = t.size
  imprint : ∀ i, u.imprint i = t.imprint i

theorem Alike.refl (t : Table s T A) : t.Alike t := ⟨rfl, rfl, fun _ => rfl, fun _ => rfl, rfl⟩

theorem Redistributed.alike {hasher : Ref → T → UInt64} {count : Nat}
    (h : t.Redistributed hasher count u) (h' : t.Redistributed hasher count u') : u.Alike u' where
  bucketCount := h'.bucketCount.trans h.bucketCount.symm
  growth := h'.growth.trans h.growth.symm
  chain i := (h'.chain i).trans (h.chain i).symm
  contentAt q := (h'.contentAt q).trans (h.contentAt q).symm
  books := h'.books.trans h.books.symm

variable [Allocator A] {heap heap' later later' : Heap A} {rows rows' : Rows T}
  {others others' : List (Loan A)}

namespace Stores

theorem imprint_eq (h : t.Stores heap rows [] others) (i : Nat) :
    t.imprint i = (rows i).map Cell.imprint := by
  rw [imprint, h.chain_eq, List.map_map]
  refine List.map_congr_left fun c hc => ?_
  rw [Function.comp_apply, h.contentAt_eq hc]
  rfl

/-- A row is read off its chain. -/
theorem row_eq (h : t.Stores heap rows [] others) (i : Nat) :
    rows i = (t.chain i).filterMap fun q =>
      (t.contentAt q).map fun content => ⟨q, content.1, content.2⟩ := by
  rw [h.chain_eq, List.filterMap_map]
  refine List.filterMap_some.symm.trans (List.filterMap_congr fun c hc => ?_)
  rw [Function.comp_apply, h.contentAt_eq hc]
  rfl

end Stores

theorem Alike.rows_eq (h : t.Alike u) (ht : t.Stores heap rows [] others)
    (hu : u.Stores heap' rows' [] others') : rows' = rows := by
  funext i
  rw [ht.row_eq, hu.row_eq, h.chain]
  simp only [h.contentAt]

/-- The same change to one row of both. -/
theorem Alike.twin (h : t.Alike u) (hplan : t.SamePlan t') (hplan' : u.SamePlan u') {i : Nat}
    {cs cs' : List (Cell T)} (ht : t'.Stores later (rows.put i cs) [] others)
    (hu : u'.Stores later' (rows.put i cs') [] others')
    (hcs : cs'.map Cell.imprint = cs.map Cell.imprint) : t'.Twin u' := by
  have hcount : u'.bucketCount = t'.bucketCount :=
    hplan'.bucketCount.trans (h.bucketCount.trans hplan.bucketCount.symm)
  have hrows : ∀ j, (rows.put i cs' j).map Cell.imprint = (rows.put i cs j).map Cell.imprint := by
    intro j
    by_cases hj : j = i
    · rw [hj, Rows.put_self, Rows.put_self, hcs]
    · rw [Rows.put_of_ne _ hj, Rows.put_of_ne _ hj]
  refine ⟨hcount, hplan'.growth.trans (h.growth.trans hplan.growth.symm), ?_, fun j => ?_⟩
  · have hlengths : ∀ j, (rows.put i cs' j).length = (rows.put i cs j).length := fun j => by
      simpa using congrArg List.length (hrows j)
    rw [hu.size_eq, ht.size_eq, hcount]
    simp only [Rows.all, List.append_nil, List.length_flatMap, hlengths]
  · rw [ht.imprint_eq, hu.imprint_eq, hrows]

/-! ## The new node -/

section

variable {hash : UInt64} {entry : T} {q q' : Ref}

theorem index?_newNode {node : Node T} (hr : t.newNode node heap = (.ok q, t', later)) :
    q.index? = t.nodes.nextInline? := by
  unfold newNode at hr
  split at hr
  · cases hr
  · next ha =>
    cases hr
    exact Pool.index?_alloc ha

theorem index?_linkFront (hr : t.linkFront hash entry heap = (.ok q, t', later)) :
    q.index? = t.nodes.nextInline? := by
  unfold linkFront at hr
  simp only at hr
  split at hr
  · cases hr
  · next hn =>
    cases hr
    exact index?_newNode hn

theorem index?_linkAfter {first : Ref}
    (hr : t.linkAfter first hash entry heap = (.ok q, t', later)) :
    q.index? = t.nodes.nextInline? := by
  unfold linkAfter at hr
  split at hr
  · cases hr
  · next hn =>
    cases hr
    exact index?_newNode hn

omit [Allocator A] in
theorem Shape.imprint_cell (hindex : q'.index? = q.index?) :
    (s.cell q' hash entry).imprint = (s.cell q hash entry).imprint := by
  unfold Cell.imprint cell
  rw [hindex]

variable (h : t.Alike u) (ht : t.Stores heap rows [] others)
  (hu : u.Stores heap' rows' [] others')
include h ht hu

theorem Alike.linkFront (hr : t.linkFront hash entry heap = (.ok q, t', later))
    (hr' : u.linkFront hash entry heap' = (.ok q', u', later')) : t'.Twin u' := by
  obtain rfl := h.rows_eq ht hu
  have hbucket : u.bucketOf hash = t.bucketOf hash := by rw [bucketOf, h.bucketCount, bucketOf]
  have hindex : q'.index? = q.index? :=
    (index?_linkFront hr').trans ((Pool.nextInline?_congr h.books).trans (index?_linkFront hr).symm)
  have hplan := SamePlan.linkFront t hash entry heap
  have hplan' := SamePlan.linkFront u hash entry heap'
  rw [hr] at hplan
  rw [hr'] at hplan'
  obtain ⟨hs, -⟩ := ht.linkFront_ok hr
  obtain ⟨hs', -⟩ := hu.linkFront_ok hr'
  rw [hbucket] at hs'
  exact h.twin hplan hplan' hs hs' (by simp only [List.map_cons, Shape.imprint_cell hindex])

theorem Alike.linkAfter {c : Cell T} {i : Nat} {pre post : List (Cell T)}
    (hrow : rows i = pre ++ c :: post)
    (hr : t.linkAfter c.ref hash entry heap = (.ok q, t', later))
    (hr' : u.linkAfter c.ref hash entry heap' = (.ok q', u', later')) : t'.Twin u' := by
  obtain rfl := h.rows_eq ht hu
  have hindex : q'.index? = q.index? :=
    (index?_linkAfter hr').trans ((Pool.nextInline?_congr h.books).trans (index?_linkAfter hr).symm)
  have hplan := SamePlan.linkAfter t c.ref hash entry heap
  have hplan' := SamePlan.linkAfter u c.ref hash entry heap'
  rw [hr] at hplan
  rw [hr'] at hplan'
  obtain ⟨hs, -⟩ := ht.linkAfter_ok hrow hr
  obtain ⟨hs', -⟩ := hu.linkAfter_ok hrow hr'
  exact h.twin hplan hplan' hs hs' (by
    simp only [List.map_append, List.map_cons, Shape.imprint_cell hindex])

/-- Lookups stop at the same node. -/
theorem Alike.find?_eq (test : T → Bool) : u.find? hash test = t.find? hash test := by
  obtain rfl := h.rows_eq ht hu
  have hbucket : u.bucketOf hash = t.bucketOf hash := by rw [bucketOf, h.bucketCount, bucketOf]
  rw [ht.find?_eq, hu.find?_eq, hbucket]

end

/-! ## Attempts -/

/-- What attempts that were denied leave of `t`, and how many arrays they were granted. -/
inductive Primed (t : Table s T A) (hasher : Ref → T → UInt64) : Nat → Table s T A → Prop where
  | asBefore : Primed t hasher 0 t
  | grown {count : Nat} {u : Table s T A} (due : t.due? = some count)
    (redistributed : t.Redistributed hasher count u) : Primed t hasher 1 u

variable {hasher : Ref → T → UInt64} {n : Nat}

section

variable (hload : t.growth.maxLoad = Growth.defaultLoad)
include hload

/-- Room is made in the same way, whether the array was granted before or is granted now. -/
theorem Primed.room_alike (h : t.Primed hasher n u) {room room' : Table s T A}
    (hr : Room t hasher heap (.ok (), room, later))
    (hr' : Room u hasher heap' (.ok (), room', later')) : room.Alike room' := by
  cases h with
  | asBefore =>
    cases hr with
    | enough due =>
      cases hr' with
      | enough => exact .refl _
      | grown due' => exact absurd (due.symm.trans due') nofun
    | grown due redistributed =>
      cases hr' with
      | enough due' => exact absurd (due.symm.trans due') nofun
      | grown due' redistributed' =>
        obtain rfl := Option.some.inj (due.symm.trans due')
        exact redistributed.alike redistributed'
  | grown due redistributed =>
    have hnone := redistributed.due?_eq_none (Growth.isPositive_of_default hload) due
    cases hr' with
    | grown due' => exact absurd (hnone.symm.trans due') nofun
    | enough =>
      cases hr with
      | enough due' => exact absurd (due.symm.trans due') nofun
      | grown due' redistributed' =>
        obtain rfl := Option.some.inj (due.symm.trans due')
        exact redistributed'.alike redistributed

variable (h : t.Primed hasher n u) (ht : t.Tuned) (hu : u.Tuned)
  (hs : t.Stores heap rows [] others) (hs' : u.Stores heap' rows' [] others') {hash : UInt64}
  {entry : T} {q q' : Ref}
include h ht hu hs hs'

theorem Primed.insertFront (hr : t.insertFront hash entry hasher heap = (.ok q, t', later))
    (hr' : u.insertFront hash entry hasher heap' = (.ok q', u', later')) : t'.Twin u' := by
  have hroom := ht.room hs hasher
  have hroom' := hu.room hs' hasher
  unfold Table.insertFront at hr hr'
  rcases hm : t.makeRoom hasher heap with ⟨e | _, room, middle⟩ <;> rw [hm] at hr hroom
  · cases hr
  rcases hm' : u.makeRoom hasher heap' with ⟨e | _, room', middle'⟩ <;> rw [hm'] at hr' hroom'
  · cases hr'
  obtain ⟨_, hstores, -⟩ := hs.makeRoom_ok hm
  obtain ⟨_, hstores', -⟩ := hs'.makeRoom_ok hm'
  exact (h.room_alike hload hroom hroom').linkFront hstores hstores' hr hr'

theorem Primed.insertBeside {test : T → Bool}
    (hr : t.insertBeside hash entry test hasher heap = (.ok q, t', later))
    (hr' : u.insertBeside hash entry test hasher heap' = (.ok q', u', later')) : t'.Twin u' := by
  have hroom := ht.room hs hasher
  have hroom' := hu.room hs' hasher
  unfold Table.insertBeside at hr hr'
  rcases hm : t.makeRoom hasher heap with ⟨e | _, room, middle⟩ <;> rw [hm] at hr hroom
  · cases hr
  rcases hm' : u.makeRoom hasher heap' with ⟨e | _, room', middle'⟩ <;> rw [hm'] at hr' hroom'
  · cases hr'
  obtain ⟨rooms, hstores, -⟩ := hs.makeRoom_ok hm
  obtain ⟨_, hstores', -⟩ := hs'.makeRoom_ok hm'
  have halike := h.room_alike hload hroom hroom'
  simp only [halike.find?_eq hstores hstores'] at hr'
  simp only [hstores.find?_eq] at hr hr'
  cases hf : (rooms (room.bucketOf hash)).find? (Cell.isMatch hash test) with
  | none =>
    rw [hf] at hr hr'
    exact halike.linkFront hstores hstores' hr hr'
  | some c =>
    rw [hf] at hr hr'
    obtain ⟨-, pre, post, hrow, -⟩ := List.find?_eq_some_iff_append.mp hf
    exact halike.linkAfter hstores hstores' hrow hr hr'

end

end Table

end ArenaHash
