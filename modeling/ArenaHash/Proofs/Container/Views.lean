import ArenaHash.Proofs.Container.Resizing
import ArenaHash.Proofs.Container.SelfCheck
import ArenaHash.Proofs.Table.Unrefused

/-!
# What can be seen of a container

The view of a container is its hash builder, its number of buckets, its growth plan and its entries
in walking order; it has no slots, no free slots and no memory. Operations on views say what the
operations on containers answer and leave as long as no request is refused, which is what
`View.Agrees` states of each of them. So two containers with equal views behave alike, however their
entries are spread over inline and overflow memory.
-/

namespace ArenaHash

open Keyed (hasKey)

section

variable {α β : Type} {p q : α → Bool} {x : α}

/-- Beside the first match counts only what is kept, if the matches are. -/
theorem filter_besideFirst_of_imp (hpq : ∀ y, p y → q y) (hx : q x) (l : List α) :
    (besideFirst p x l).filter q = besideFirst p x (l.filter q) := by
  rcases besideFirst_cases p x l with ⟨hnone, heq⟩ | ⟨pre, y, post, rfl, hpre, hy, heq⟩
  · have hnone' : (l.filter q).find? p = none :=
      List.find?_eq_none.mpr fun y hy => by simpa using hnone y (List.mem_of_mem_filter hy)
    rw [heq, List.filter_cons_of_pos hx, besideFirst_of_none hnone']
  · have hpre' : ∀ z ∈ pre.filter q, !p z := fun z hz => hpre z (List.mem_of_mem_filter hz)
    rw [heq, List.filter_append, List.filter_cons_of_pos (hpq y hy), List.filter_cons_of_pos hx,
      List.filter_append, List.filter_cons_of_pos (hpq y hy), besideFirst_of_first hpre' hy]

theorem map_besideFirst {p : β → Bool} (g : α → β) (x : α) (l : List α) :
    (besideFirst (fun y => p (g y)) x l).map g = besideFirst p (g x) (l.map g) := by
  rcases besideFirst_cases (fun y => p (g y)) x l with
    ⟨hnone, heq⟩ | ⟨pre, y, post, rfl, hpre, hy, heq⟩
  · have hnone' : (l.map g).find? p = none :=
      List.find?_eq_none.mpr (List.forall_mem_map.mpr fun y hy => by simpa using hnone y hy)
    rw [heq, besideFirst_of_none hnone']
    rfl
  · have hpre' : ∀ z ∈ pre.map g, !p z := List.forall_mem_map.mpr hpre
    rw [heq, List.map_append, List.map_append, List.map_cons, List.map_cons, List.map_cons,
      besideFirst_of_first hpre' hy]

end

@[ext]
structure View (K V S : Type) where
  builder : S
  bucketCount : Nat
  growth : Growth
  /-- In walking order. -/
  entries : List (K × V)

def Keyed.view {s : Table.Shape} {K V A S : Type} (c : Keyed s K V A S) : View K V S where
  builder := c.builder
  bucketCount := c.table.bucketCount
  growth := c.table.growth
  entries := c.toList

/-! ## Operations on views -/

namespace View

variable {K V S ρ : Type} (s : Table.Shape) (f : S → K → UInt64) (v : View K V S)

/-- The bucket of a key. -/
def bucketOf (k : K) : Nat := (f v.builder k).toNat % v.bucketCount

/-- The entries of a bucket, front to back. -/
def row (i : Nat) : List (K × V) := v.entries.filter fun e => v.bucketOf f e.1 == i

/-- Lists the entries bucket by bucket. -/
def spread : View K V S := { v with entries := (List.range v.bucketCount).flatMap (v.row f) }

/-- The bucket count that one more entry asks for. -/
def due? : Option Nat :=
  if s.overflow then (v.growth.advise v.bucketCount v.entries.length 1).1 else none

/-- Makes room for one more entry. -/
def makeRoom : View K V S :=
  { v with
    bucketCount := (v.due? s).getD v.bucketCount
    growth := (v.due? s).elim v.growth v.growth.retarget }

/-- What a common call does to bucket count and growth plan. -/
def replan : Keyed.Call K V ρ → View K V S
  | .renew | .abandon => { v with bucketCount := s.buckets, growth := v.growth.retarget s.buckets }
  | .setMaxLoad maxLoad =>
    { v with
      growth :=
        if s.overflow then (v.growth.setMaxLoad? maxLoad v.bucketCount).getD v.growth
        else v.growth }
  | _ => v

/-- Whether the bucket of an entry is not before a position. -/
def ahead (position : Nat) (e : K × V) : Bool := position ≤ v.bucketOf f e.1

/-- Takes out the first entry at or after a position. -/
def pop (position : Nat) : (Option (K × V) × Nat) × View K V S :=
  match v.entries.find? (v.ahead f position) with
  | some e =>
    ((some e, v.bucketOf f e.1), { v with entries := v.entries.eraseP (v.ahead f position) })
  | none => ((none, max position v.bucketCount), v)

variable [BEq K]

/-- Adds an entry beside the first one with its key, or in front of its bucket if there is none,
unless all slots are in use. -/
def add (e : K × V) (answer : ρ) : Except MemoryError ρ × View K V S :=
  match s.denial v.entries.length none with
  | some full => (.error full, v)
  | none =>
    (.ok answer,
      spread f { v.makeRoom s with entries := besideFirst (hasKey e.1) e v.entries })

/-- The first entry with a key and those with the key right after it. -/
def equalRun (k : K) : List (K × V) :=
  ((v.row f (v.bucketOf f k)).dropWhile (!hasKey k ·)).takeWhile (hasKey k)

def common (call : Keyed.Call K V ρ) : ρ × View K V S :=
  ((call.onList v.entries).1, { v.replan s call with entries := (call.onList v.entries).2 })

def keep (k : K) (x : V) : Except MemoryError Bool × View K V S :=
  match v.entries.find? (hasKey k) with
  | some _ => (.ok false, v)
  | none => v.add s f (k, x) true

def map : Map.Call K V ρ → ρ × View K V S
  | .insert k x =>
    match v.entries.find? (hasKey k) with
    | some (_, old) =>
      (.ok (some old), { v with entries := changeFirst (hasKey k) (fun e => (e.1, x)) v.entries })
    | none => v.add s f (k, x) none
  | .insertIfNew k x g =>
    match v.entries.find? (hasKey k) with
    | some (_, old) =>
      (.ok (some old, false),
        { v with entries := changeFirst (hasKey k) (fun e => (e.1, g e.2)) v.entries })
    | none => v.add s f (k, g x) (some x, true)
  | .replace k x =>
    match v.entries.find? (hasKey k) with
    | some old =>
      (.ok (some old), { v with entries := changeFirst (hasKey k) (fun _ => (k, x)) v.entries })
    | none => v.add s f (k, x) none
  | .count k => ((v.entries.any (hasKey k)).toNat, v)
  | .common call => v.common s call

def multimap : Multimap.Call K V ρ → ρ × View K V S
  | .insert k x => v.add s f (k, x) ()
  | .count k => ((v.entries.filter (hasKey k)).length, v)
  | .equalRun k => (v.equalRun f k, v)
  | .eraseAll k =>
    ((v.entries.filter (hasKey k)).length, { v with entries := v.entries.filter (!hasKey k ·) })
  | .common call => v.common s call

/-- An operation on a container answers and leaves what the one on its view says. -/
def Agrees {s : Table.Shape} {A : Type} (expected : ρ × View K V S)
    (out : ρ × Keyed s K V A S × Heap A) : Prop :=
  out.1 = expected.1 ∧ out.2.1.view = expected.2

end View

namespace Keyed

variable {s : Table.Shape} {K V A S : Type} [Allocator A] {f : S → K → UInt64}
  {c c' : Keyed s K V A S} {heap heap' : Heap A} {rows rows' : Rows (K × V)}
  {others : List (Loan A)}

namespace Placed

/-! ## Reading views -/

theorem length_entries (h : c.Placed f heap rows others) : c.view.entries.length = c.table.size :=
  h.size_eq.symm

theorem row_eq (h : c.Placed f heap rows others) (i : Nat) :
    (rows i).map Cell.entry = c.view.row f i := by
  rw [View.row, view, h.toList_eq, List.filter_map]
  exact congrArg (List.map Cell.entry) (h.filter_bucket i).symm

/-- Where growth puts entries follows from the new bucket count. -/
theorem row_regrouped (h : c.Placed f heap rows others) {count' : Nat}
    (hre : Rows.Regrouped (c.hasher (.ofFun f)) rows rows' c.table.bucketCount count') (i : Nat) :
    (rows' i).map Cell.entry = View.row f { c.view with bucketCount := count' } i := by
  rcases hre with ⟨rfl, rfl⟩ | rfl
  · exact h.row_eq i
  · rw [View.row, view, h.toList_eq, List.filter_map]
    refine congrArg (List.map Cell.entry) (List.filter_congr fun d hd => ?_)
    obtain ⟨j, -, hd⟩ := rows.mem_all.mp hd
    have hhash : d.hashBy (c.hasher (.ofFun f)) = f c.builder d.entry.1 :=
      h.placed.hashBy_eq (fun _ _ => rfl) hd
    rw [hhash]
    rfl

/-- What is in the chain of a bucket, links aside. -/
theorem chain_view (h : c.Placed f heap rows others) (i : Nat) :
    (c.table.chain i).map c.table.contentAt =
      (c.view.row f i).map fun e => some (e, s.caching.keep (f c.builder e.1)) := by
  rw [h.stores.chain_eq, ← h.row_eq, List.map_map, List.map_map]
  refine List.map_congr_left fun d hd => ?_
  obtain ⟨next, hn⟩ := (h.stores.chains i).carries hd
  have hhash : d.hash = s.caching.keep (f c.builder d.entry.1) := (h.placed i d hd).1
  simp [Table.contentAt, Table.node?, hn, Node.content, hhash]

theorem walk_view (h : c.Placed f heap rows others) (limit : Nat) :
    c.walk limit c.cursor = c.view.entries.take limit := by
  have hwalk : c.walk limit c.cursor = ((rows.all c.table.bucketCount).map Cell.entry).take limit :=
    Keyed.walk_eq h.stores (fun _ hc => hc) h.stores.ahead
  rw [hwalk, view, h.toList_eq]

section

variable [BEq K] (hf : Hashing.Faithful f) (h : c.Placed f heap rows others) (k : K)
include hf h

/-- The cells that a lookup of all entries with a key stops at. -/
theorem exists_run : ∃ run : List (Cell (K × V)),
    c.table.equalRun (f c.builder k) (hasKey k) = run.map Cell.ref ∧
      (c.runCursor (.ofFun f) k).Ahead c.table run ∧
      run.map Cell.entry = c.view.equalRun f k ∧ ∀ d ∈ run, d ∈ rows.all c.table.bucketCount := by
  have hmatch : ∀ d ∈ rows (c.bucketOf (.ofFun f) k),
      c.isFor (.ofFun f) k d = hasKey k d.entry := fun d hd => h.isFor_eq hf hd
  refine ⟨_, h.stores.equalRun_eq _ _, h.stores.runAhead (f c.builder k) (hasKey k), ?_, ?_⟩
  · have hrow : c.view.row f (c.view.bucketOf f k) =
        (rows (c.bucketOf (.ofFun f) k)).map Cell.entry := (h.row_eq _).symm
    rw [View.equalRun, hrow, List.dropWhile_map, List.takeWhile_map]
    refine congrArg (List.map Cell.entry) ?_
    refine (takeWhile_congr fun d hd => hmatch d ((List.dropWhile_sublist _).mem hd)).trans ?_
    exact congrArg _ (dropWhile_congr fun d hd => congrArg (!·) (hmatch d hd))
  · intro d hd
    exact h.stores.mem_all ((List.dropWhile_sublist _).mem ((List.takeWhile_sublist _).mem hd))

theorem equalRun_view : c.equalRun (.ofFun f) k = c.view.equalRun f k := by
  obtain ⟨run, hrefs, -, hview, hmem⟩ := h.exists_run hf k
  rw [equalRun, Hashing.key_ofFun, hrefs, ← hview,
    h.stores.entries_eq fun d hd => List.mem_append_left _ (hmem d hd)]

theorem walkRun_view (limit : Nat) :
    c.walkRun limit (c.runCursor (.ofFun f) k) = (c.view.equalRun f k).take limit := by
  obtain ⟨run, -, hahead, hview, hmem⟩ := h.exists_run hf k
  rw [← hview]
  exact Keyed.walkRun_eq h.stores hmem hahead

end

end Placed

/-! ## Calls that do not insert -/

theorem Becomes.view {l : List (K × V)} (h : c.Becomes f rows others l c' heap' rows')
    (hplan : c.table.SamePlan c'.table) : c'.view = { c.view with entries := l } :=
  View.ext h.builder hplan.bucketCount hplan.growth h.toList

theorem replan_of_releases {ρ : Type} (v : View K V S) {call : Call K V ρ}
    (hc : call.replans = false) : v.replan s call = v := by
  cases call with
  | renew | abandon | setMaxLoad => cases hc
  | _ => rfl

variable [BEq K]

theorem Placed.plan_perform (h : c.Placed f heap rows others) {ρ : Type} (call : Call K V ρ) :
    (Keyed.perform (.ofFun f) c heap call).2.1.table.bucketCount =
        (c.view.replan s call).bucketCount ∧
      (Keyed.perform (.ofFun f) c heap call).2.1.table.growth =
        (c.view.replan s call).growth := by
  cases hc : call.replans with
  | false =>
    have hplan := perform_releases (.ofFun f) c heap hc
    rw [replan_of_releases _ hc]
    exact ⟨hplan.bucketCount, hplan.growth⟩
  | true =>
    cases call with
    | renew =>
      have hclear := (Table.Releases.clear c.table heap).growth
      exact ⟨h.stores.renew.keeps.bucketCount_eq rfl, congrArg (·.retarget s.buckets) hclear⟩
    | abandon => exact ⟨h.stores.abandon.keeps.bucketCount_eq rfl, rfl⟩
    | setMaxLoad maxLoad =>
      refine ⟨c.table.bucketCount_setMaxLoad maxLoad, ?_⟩
      simp only [Keyed.perform, setMaxLoad, Table.setMaxLoad, View.replan, view]
      split
      · split
        · next hg => rw [hg]; rfl
        · next hg => rw [hg]; rfl
      · rfl
    | _ => cases hc

omit [BEq K] in
theorem replan_builder {ρ : Type} (v : View K V S) (call : Call K V ρ) :
    (v.replan s call).builder = v.builder := by
  cases call <;> rfl

section

variable (hf : Hashing.Faithful f) (h : c.Placed f heap rows others)
include hf h

theorem Placed.agrees_common {ρ : Type} (call : Call K V ρ) :
    View.Agrees (c.view.common s call) (Keyed.perform (.ofFun f) c heap call) := by
  obtain ⟨hcount, hgrowth⟩ := h.plan_perform call
  obtain ⟨c', heap', rows', hrun, hc⟩ := h.perform hf call
  rw [hrun] at hcount hgrowth ⊢
  exact ⟨rfl, View.ext (hc.builder.trans (replan_builder c.view call).symm) hcount hgrowth hc.toList⟩

theorem Placed.agrees_eraseAll (k : K) :
    View.Agrees (c.view.multimap s f (.eraseAll k)) (c.eraseAll (.ofFun f) k heap) := by
  have hplan := (Table.Releases.eraseUpTo (f c.builder k) (hasKey k) c.table.size c.table
    heap).toSamePlan
  obtain ⟨c', heap', rows', hrun, hc⟩ := h.becomes_eraseAll hf k
  have htable : c'.table = (c.eraseAll (.ofFun f) k heap).2.1.table := by rw [hrun]
  rw [hrun]
  exact ⟨rfl, hc.view (htable ▸ hplan)⟩

end

omit [BEq K] in
theorem Placed.agrees_pop (h : c.Placed f heap rows others) (position : Nat) :
    View.Agrees (c.view.pop f position)
      (((c.pop position heap).1, (c.pop position heap).2.1), (c.pop position heap).2.2) := by
  have hbehind : ∀ j, (position ≤ j → rows j = []) → ∀ d ∈ rows j,
      ¬c.view.ahead f position d.entry = true := by
    intro j hj d hd hahead
    have hbucket : c.view.bucketOf f d.entry.1 = j := h.bucketOf_entry hd
    rw [View.ahead, hbucket, decide_eq_true_iff] at hahead
    rw [hj hahead] at hd
    cases hd
  have hplan := (Table.Releases.pop c.table position heap).toSamePlan
  unfold View.pop
  rcases h.pop_cases position with
    ⟨hrun, hpast⟩ | ⟨i, cell, right, d, later, rows', hrun, hc, hle, hbetween, hlist, hb⟩
  · have hnone : c.view.entries.find? (c.view.ahead f position) = none := by
      rw [view, h.toList_eq, List.find?_eq_none, List.forall_mem_map]
      intro d hd
      obtain ⟨j, -, hd⟩ := rows.mem_all.mp hd
      exact hbehind j (hpast j) d hd
    rw [hrun, hnone]
    exact ⟨rfl, rfl⟩
  · have hbucket : c.view.bucketOf f cell.entry.1 = i := h.bucketOf_entry hc
    have hahead : c.view.ahead f position cell.entry = true := by
      rw [View.ahead, hbucket]
      exact decide_eq_true hle
    have hleft : ∀ e ∈ (rows.before i).map Cell.entry, ¬c.view.ahead f position e = true := by
      rw [List.forall_mem_map]
      intro d hd
      obtain ⟨j, hj, hd⟩ := List.mem_flatMap.mp hd
      exact hbehind j (fun hp => hbetween j hp (List.mem_range.mp hj)) d hd
    have hentries : c.view.entries = _ := hlist
    have hsome : c.view.entries.find? (c.view.ahead f position) = some cell.entry := by
      rw [hentries, List.find?_append, List.find?_eq_none.mpr hleft, Option.none_or,
        List.find?_cons_of_pos hahead]
    have hrest : c.view.entries.eraseP (c.view.ahead f position) =
        (rows.before i).map Cell.entry ++ right := by
      rw [hentries, List.eraseP_append_right _ hleft, List.eraseP_cons_of_pos hahead]
    have htable : d.table = (c.table.pop position heap).2.2.1 :=
      congrArg (fun out => out.2.2.1.table) hrun.symm
    simp only [hrun, hsome, hbucket, hrest]
    exact ⟨rfl, hb.view (htable ▸ hplan)⟩

/-! ## Insertions -/

section

variable (h : c.Placed f heap rows others) {k : K} {v : V}
include h

omit [BEq K] in
theorem Placed.due?_view : c.view.due? s = c.table.due? := by
  unfold View.due? Table.due?
  rw [h.length_entries]
  rfl

/-- A new entry is in the row of its key, beside the first entry with its key. -/
theorem Placed.view_added (hf : Hashing.Faithful f) {t' : Table s (K × V) A}
    {cs : List (Cell (K × V))}
    (hcount : t'.bucketCount = c.table.due?.getD c.table.bucketCount)
    (hgrowth : t'.growth = c.table.due?.elim c.table.growth c.table.growth.retarget)
    (hre : Rows.Regrouped (c.hasher (.ofFun f)) rows rows' c.table.bucketCount t'.bucketCount)
    (hs : t'.Stores heap' (rows'.put (t'.bucketOf (f c.builder k)) cs) [] others)
    (hcs : cs.map Cell.entry = besideFirst (hasKey k) (k, v)
      ((rows' (t'.bucketOf (f c.builder k))).map Cell.entry)) :
    view { c with table := t' } = View.spread f { c.view.makeRoom s with
      entries := besideFirst (hasKey k) (k, v) c.toList } := by
  have hrow := h.row_regrouped hre
  have hcount' : t'.bucketCount = (c.view.makeRoom s).bucketCount := by
    rw [hcount, View.makeRoom, h.due?_view]
    rfl
  have hlist : t'.toList = (List.range t'.bucketCount).flatMap fun i =>
      ((rows'.put (t'.bucketOf (f c.builder k)) cs) i).map Cell.entry := by
    rw [hs.toList_eq, Rows.all, List.map_flatMap]
  refine View.ext rfl hcount' ?_ ?_
  · simp only [View.spread, View.makeRoom, h.due?_view]
    exact hgrowth
  · simp only [View.spread]
    rw [← hcount']
    refine hlist.trans (List.flatMap_congr fun i _ => ?_)
    change _ = (besideFirst (hasKey k) (k, v) c.toList).filter fun e =>
      (f c.builder e.1).toNat % t'.bucketCount == i
    by_cases hi : i = t'.bucketOf (f c.builder k)
    · subst hi
      rw [Rows.put_self, hcs, hrow]
      refine (filter_besideFirst_of_imp (fun e he => ?_) ?_ _).symm
      · have hhash : f c.builder e.1 = f c.builder k := hf _ _ _ he
        exact beq_iff_eq.mpr (congrArg t'.bucketOf hhash)
      · exact beq_self_eq_true (t'.bucketOf (f c.builder k))
    · rw [rows'.put_of_ne hi, hrow]
      refine (filter_besideFirst_of_not ?_ _).symm
      rw [Bool.not_eq_true_eq_eq_false, beq_eq_false_iff_ne]
      exact Ne.symm hi

variable (hf : Hashing.Faithful f)
include hf

/-- If no entry has the key the new one comes first in its row. -/
theorem Placed.view_front (hmiss : ∀ e ∈ c.toList, !hasKey k e) {t' : Table s (K × V) A} {q : Ref}
    (hcount : t'.bucketCount = c.table.due?.getD c.table.bucketCount)
    (hgrowth : t'.growth = c.table.due?.elim c.table.growth c.table.growth.retarget)
    (hre : Rows.Regrouped (c.hasher (.ofFun f)) rows rows' c.table.bucketCount t'.bucketCount)
    (hs : t'.Stores heap' (rows'.put (t'.bucketOf (f c.builder k))
      (s.cell q (f c.builder k) (k, v) :: rows' (t'.bucketOf (f c.builder k)))) [] others) :
    view { c with table := t' } = View.spread f { c.view.makeRoom s with
      entries := besideFirst (hasKey k) (k, v) c.toList } := by
  refine h.view_added hf hcount hgrowth hre hs ?_
  rw [h.row_regrouped hre, besideFirst_of_none]
  · rw [List.map_cons, h.row_regrouped hre]
    rfl
  · rw [List.find?_eq_none]
    intro e he
    simpa using hmiss e (List.mem_of_mem_filter he)

variable (ht : c.table.Tuned)
include ht

theorem Placed.agrees_insertBeside
    (hr : heap.refusalSince (Multimap.insert (.ofFun f) c k v heap).2.2 = none) :
    View.Agrees (c.view.add s f (k, v) ()) (Multimap.insert (.ofFun f) c k v heap) := by
  have hi := ht.insertBeside_unrefused h.stores (f c.builder k) (k, v) (c.hasher (.ofFun f))
    (hasKey k) hr
  unfold Multimap.insert View.add
  rw [Hashing.key_ofFun, h.length_entries]
  generalize c.table.insertBeside (f c.builder k) (k, v) (hasKey k) (c.hasher (.ofFun f)) heap =
    result at hi
  cases hi with
  | full full =>
    rw [full]
    exact ⟨rfl, rfl⟩
  | @done rows' q t' later granted hcount hgrowth hre hs =>
    rw [granted]
    refine ⟨rfl, h.view_added hf hcount hgrowth hre hs ?_⟩
    have hplaced := h.placed.regrouped (fun _ _ => rfl) hre
    rw [besideFirst_congr fun d hd => hplaced.isMatch_eq hf hd]
    exact map_besideFirst Cell.entry _ _

variable (hmiss : ∀ e ∈ c.toList, !hasKey k e)
  (hr : heap.refusalSince (Map.add (.ofFun f) c k v heap).2.2 = none)
include hmiss hr

theorem Placed.agrees_add {ρ : Type} (answer : ρ) :
    View.Agrees (c.view.add s f (k, v) answer)
      ((Map.add (.ofFun f) c k v heap).1.map fun _ => answer,
        (Map.add (.ofFun f) c k v heap).2) := by
  have hi := ht.insertFront_unrefused h.stores (f c.builder k) (k, v) (c.hasher (.ofFun f)) hr
  unfold Map.add View.add
  rw [Hashing.key_ofFun, h.length_entries]
  generalize c.table.insertFront (f c.builder k) (k, v) (c.hasher (.ofFun f)) heap = result at hi
  cases hi with
  | full full =>
    rw [full]
    exact ⟨rfl, rfl⟩
  | done granted hcount hgrowth hre hs =>
    rw [granted]
    exact ⟨rfl, h.view_front hf hmiss hcount hgrowth hre hs⟩

/-- The value of the new entry is changed where it was put. -/
theorem Placed.agrees_addAndChange (g : V → V) :
    View.Agrees (c.view.add s f (k, g v) (some v, true))
      (match Map.add (.ofFun f) c k v heap with
      | (.ok q, m, later) => (.ok ((m.modifyAt q g).1, true), (m.modifyAt q g).2, later)
      | (.error e, m, later) => (.error e, m, later)) := by
  have hi := ht.insertFront_unrefused h.stores (f c.builder k) (k, v) (c.hasher (.ofFun f)) hr
  unfold Map.add View.add
  rw [Hashing.key_ofFun, h.length_entries]
  generalize c.table.insertFront (f c.builder k) (k, v) (c.hasher (.ofFun f)) heap = result at hi
  cases hi with
  | full full =>
    rw [full]
    exact ⟨rfl, rfl⟩
  | @done rows' q t' later granted hcount hgrowth hre hs =>
    rw [granted]
    have hmem : s.cell q (f c.builder k) (k, v) ∈ rows'.put (t'.bucketOf (f c.builder k))
        (s.cell q (f c.builder k) (k, v) :: rows' (t'.bucketOf (f c.builder k)))
        (t'.bucketOf (f c.builder k)) := by
      rw [Rows.put_self]
      exact List.mem_cons_self
    have hmod := modifyAt_eq (c := { c with table := t' }) hs hmem g
    have hq : (s.cell q (f c.builder k) (k, v)).ref = q := rfl
    rw [hq] at hmod
    simp only [hmod]
    exact ⟨rfl, h.view_front hf hmiss hcount hgrowth hre (hs.setEntry_front (k, g v))⟩

end

/-! ## Calls -/

section

variable (hf : Hashing.Faithful f) (h : c.Placed f heap rows others)
include hf h

/-- The view knows the entry that a lookup finds. -/
theorem Placed.find?_view (k : K) :
    (∀ e ∈ c.toList, !hasKey k e) ∧ c.find? (.ofFun f) k = none ∧ c.locate? (.ofFun f) k = none ∧
        c.view.entries.find? (hasKey k) = none ∨
      ∃ pre cell post, c.Hit f rows k pre cell post ∧
        c.view.entries.find? (hasKey k) = some cell.entry := by
  rcases h.hit_or_miss hf k with ⟨hmiss, hfind, hl⟩ | ⟨pre, cell, post, hit⟩
  · have hnone : c.view.entries.find? (hasKey k) = none :=
      List.find?_eq_none.mpr fun e he => by simpa using hmiss e he
    exact .inl ⟨hmiss, hfind, hl, hnone⟩
  · exact .inr ⟨pre, cell, post, hit, hit.find?_toList h⟩

/-- A present entry is overwritten where it is. -/
theorem Hit.view_set {k : K} {pre post : List (Cell (K × V))} {cell : Cell (K × V)}
    (hit : c.Hit f rows k pre cell post) {g : K × V → K × V} (hg : (g cell.entry).1 == k) :
    view { c with table := c.table.setEntry cell.ref (g cell.entry) } =
      { c.view with entries := changeFirst (Keyed.hasKey k) g c.view.entries } := by
  have hlist : c.view.entries = _ := hit.toList_eq h
  have hset := (hit.set h hf (g cell.entry) hg).2
  rw [← changeFirst_of_first hit.hasKey hit.left_unmatched, ← hlist] at hset
  exact View.ext rfl rfl rfl hset

variable (ht : c.table.Tuned)
include ht

/-- Adding a key as key sets do. -/
theorem Placed.agrees_keep (k : K) (v : V)
    (hr : heap.refusalSince (Map.insertIfNew (.ofFun f) c k v heap).2.2 = none) :
    View.Agrees (c.view.keep s f k v)
      ((Map.insertIfNew (.ofFun f) c k v heap).1.map Prod.snd,
        (Map.insertIfNew (.ofFun f) c k v heap).2) := by
  unfold Map.insertIfNew View.keep at *
  rcases h.find?_view hf k with ⟨hmiss, hfind, -, hnone⟩ | ⟨pre, cell, post, hit, hsome⟩
  · simp only [hfind, hnone] at hr ⊢
    have hadd := h.agrees_add hf ht hmiss hr true
    generalize Map.add (.ofFun f) c k v heap = result at hadd ⊢
    obtain ⟨_ | q, m, later⟩ := result <;> exact hadd
  · simp only [hit.find?, hsome]
    exact ⟨rfl, rfl⟩

theorem Placed.agrees_insert (k : K) (v : V)
    (hr : heap.refusalSince (Map.insert (.ofFun f) c k v heap).2.2 = none) :
    View.Agrees (c.view.map s f (.insert k v)) (Map.insert (.ofFun f) c k v heap) := by
  unfold Map.insert View.map at *
  rcases h.find?_view hf k with ⟨hmiss, -, hl, hnone⟩ | ⟨pre, cell, post, hit, hsome⟩
  · simp only [hl, hnone] at hr ⊢
    exact h.agrees_add hf ht hmiss hr none
  · simp only [hit.locate?, hsome]
    exact ⟨rfl, hit.view_set hf h (g := fun e => (e.1, v)) hit.hasKey⟩

theorem Placed.agrees_insertIfNew (k : K) (v : V) (g : V → V)
    (hr : heap.refusalSince (Map.perform (.ofFun f) c heap (.insertIfNew k v g)).2.2 = none) :
    View.Agrees (c.view.map s f (.insertIfNew k v g))
      (Map.perform (.ofFun f) c heap (.insertIfNew k v g)) := by
  rw [insertIfNew_heap] at hr
  unfold Map.insertIfNew at hr
  unfold Map.perform Map.insertIfNew View.map
  rcases h.find?_view hf k with ⟨hmiss, hfind, -, hnone⟩ | ⟨pre, cell, post, hit, hsome⟩
  · simp only [hfind, hnone] at hr ⊢
    have hadd := h.agrees_addAndChange hf ht hmiss hr g
    generalize Map.add (.ofFun f) c k v heap = result at hadd ⊢
    obtain ⟨_ | q, m, later⟩ := result <;> exact hadd
  · have hc : cell ∈ rows (c.bucketOf (.ofFun f) k) := by simp [hit.row]
    simp only [hit.find?, hsome, modifyAt_eq h.stores hc]
    exact ⟨rfl, hit.view_set hf h (g := fun e => (e.1, g e.2)) hit.hasKey⟩

variable [EquivBEq K]

theorem Placed.agrees_replace (k : K) (v : V)
    (hr : heap.refusalSince (Map.replace (.ofFun f) c k v heap).2.2 = none) :
    View.Agrees (c.view.map s f (.replace k v)) (Map.replace (.ofFun f) c k v heap) := by
  unfold Map.replace View.map at *
  rcases h.find?_view hf k with ⟨hmiss, -, hl, hnone⟩ | ⟨pre, cell, post, hit, hsome⟩
  · simp only [hl, hnone] at hr ⊢
    exact h.agrees_add hf ht hmiss hr none
  · simp only [hit.locate?, hsome]
    exact ⟨rfl, hit.view_set hf h (g := fun _ => (k, v)) BEq.rfl⟩

theorem Placed.agrees_map {ρ : Type} (call : Map.Call K V ρ)
    (hr : heap.refusalSince (Map.perform (.ofFun f) c heap call).2.2 = none) :
    View.Agrees (c.view.map s f call) (Map.perform (.ofFun f) c heap call) := by
  cases call with
  | insert k v => exact h.agrees_insert hf ht k v hr
  | insertIfNew k v g => exact h.agrees_insertIfNew hf ht k v g hr
  | replace k v => exact h.agrees_replace hf ht k v hr
  | count k => exact ⟨congrArg Bool.toNat (h.contains_eq hf k), rfl⟩
  | common call => exact h.agrees_common hf call

omit [EquivBEq K] in
theorem Placed.agrees_multimap {ρ : Type} (call : Multimap.Call K V ρ)
    (hr : heap.refusalSince (Multimap.perform (.ofFun f) c heap call).2.2 = none) :
    View.Agrees (c.view.multimap s f call) (Multimap.perform (.ofFun f) c heap call) := by
  cases call with
  | insert k v => exact h.agrees_insertBeside hf ht hr
  | count k => exact ⟨h.count_eq hf k, rfl⟩
  | equalRun k => exact ⟨h.equalRun_view hf k, rfl⟩
  | eraseAll k => exact h.agrees_eraseAll hf k
  | common call => exact h.agrees_common hf call

end

end Keyed

end ArenaHash
