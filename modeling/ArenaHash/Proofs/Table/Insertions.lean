import ArenaHash.Proofs.Table.Regroup
import Mathlib.Data.List.TakeWhile

/-!
# Insertions

An insertion makes room, so the rows may be regrouped first; then it adds one cell, in front of
its row or right after the first match there. It fails only if a slot or a larger array is denied,
and a failed one adds nothing. `Shape.denial` says when: a table that may overflow is denied what
its allocator refuses, one that may not is denied a slot once all are in use.
-/

namespace ArenaHash

/-- Puts `x` right after the first element that passes the test, or else at the front. -/
def besideFirst {α : Type} (p : α → Bool) (x : α) (l : List α) : List α :=
  match l.dropWhile (!p ·) with
  | [] => x :: l
  | y :: r => l.takeWhile (!p ·) ++ y :: x :: r

section

variable {α : Type} {p : α → Bool}

theorem besideFirst_of_none {l : List α} (h : l.find? p = none) (x : α) :
    besideFirst p x l = x :: l := by
  have hdrop : l.dropWhile (!p ·) = [] := by
    rw [List.dropWhile_eq_nil_iff]
    simpa using h
  simp [besideFirst, hdrop]

theorem besideFirst_of_first {pre : List α} (hpre : ∀ y ∈ pre, !p y) {y : α} (hy : p y) (x : α)
    (post : List α) : besideFirst p x (pre ++ y :: post) = pre ++ y :: x :: post := by
  have hdrop : (pre ++ y :: post).dropWhile (!p ·) = y :: post := by
    rw [List.dropWhile_append_of_pos hpre]
    simp [hy]
  have htake : (pre ++ y :: post).takeWhile (!p ·) = pre := by
    rw [List.takeWhile_append_of_pos hpre]
    simp [hy]
  simp [besideFirst, hdrop, htake]

/-- Either no element passes and a new one goes to the front, or it goes after the first one. -/
theorem besideFirst_cases (p : α → Bool) (x : α) (l : List α) :
    (∀ y ∈ l, !p y) ∧ besideFirst p x l = x :: l ∨
      ∃ pre y post, l = pre ++ y :: post ∧ (∀ z ∈ pre, !p z) ∧ p y ∧
        besideFirst p x l = pre ++ y :: x :: post := by
  cases hf : l.find? p with
  | none =>
    exact .inl ⟨fun y hy => by simpa using List.find?_eq_none.mp hf y hy, besideFirst_of_none hf x⟩
  | some y =>
    obtain ⟨hy, pre, post, rfl, hpre⟩ := List.find?_eq_some_iff_append.mp hf
    exact .inr ⟨pre, y, post, rfl, hpre, hy, besideFirst_of_first hpre hy x post⟩

theorem besideFirst_perm (p : α → Bool) (x : α) (l : List α) :
    (besideFirst p x l).Perm (x :: l) := by
  rcases besideFirst_cases p x l with ⟨-, heq⟩ | ⟨pre, y, post, rfl, -, -, heq⟩
  · rw [heq]
  · rw [heq]
    have hfront : (pre ++ y :: x :: post).Perm (y :: x :: (pre ++ post)) :=
      List.perm_middle.trans (List.perm_middle.cons y)
    exact hfront.trans ((List.Perm.swap x y _).trans (List.perm_middle.symm.cons x))

end

namespace Table

/-- Why a table with `size` entries is denied one more, if it is, given the refusal that its
allocator answered with. -/
def Shape.denial (s : Shape) (size : Nat) (refusal : Option MemoryError) : Option MemoryError :=
  if s.overflow then refusal
  else if size = s.capacity then some (.full s.capacity) else none

variable {s : Shape} {T A : Type} [Allocator A] {t t' : Table s T A} {heap heap' : Heap A}
  {rows : Rows T} {loose : List (Cell T)} {others : List (Loan A)} {hasher : Ref → T → UInt64}
  {hash : UInt64} {entry : T} {q : Ref} {e : MemoryError}

/-- A denied slot leaves the table as it is. -/
theorem Stores.newNode_error (h : t.Stores heap rows loose others) {node : Node T}
    (hn : t.newNode node heap = (.error e, t', heap')) :
    t' = t ∧ t.Stores heap' rows loose others ∧
      ∃ r, heap.Continues heap' r ∧ s.denial t.size r = some e := by
  obtain ⟨rfl, hl, hwhy⟩ := h.keeps.newNode_error hn
  refine ⟨rfl, h.rebase hl, ?_⟩
  rcases hwhy with ⟨ho, hc⟩ | ⟨ho, rfl, hsize, rfl⟩
  · exact ⟨some e, hc, by simp [Shape.denial, ho]⟩
  · have hfull : t'.size = s.capacity := h.keeps.size.trans hsize
    exact ⟨none, .refl _, by simp [Shape.denial, ho, hfull]⟩

theorem Shape.denial_eq_none {size : Nat} (h : s.overflow = false → size < s.capacity) :
    s.denial size none = none := by
  unfold denial
  split
  · rfl
  · next ho => exact if_neg (Nat.ne_of_lt (h (by simpa using ho)))

/-- The cell of a new entry. -/
def Shape.cell (s : Shape) (q : Ref) (hash : UInt64) (entry : T) : Cell T :=
  ⟨q, entry, s.caching.keep hash⟩

theorem Shape.isMatch_cell (s : Shape) (q : Ref) (hash : UInt64) (entry : T) (test : T → Bool) :
    (s.cell q hash entry).isMatch hash test = test entry := by
  cases hcaching : s.caching <;> simp [Cell.isMatch, cell, hcaching, Caching.keep]

theorem Stores.linkFront_ok (h : t.Stores heap rows [] others)
    (hr : t.linkFront hash entry heap = (.ok q, t', heap')) :
    t'.Stores heap' (rows.put (t.bucketOf hash) (s.cell q hash entry :: rows (t.bucketOf hash)))
        [] others ∧
      t'.bucketCount = t.bucketCount ∧ heap.Continues heap' none ∧
      s.denial t.size none = none := by
  unfold Table.linkFront at hr
  simp only at hr
  split at hr
  · cases hr
  · next q' t₁ later hn =>
    cases hr
    obtain ⟨hs, hseg, hb, hc, hsize⟩ := h.newNode_ok hn
    have hcount : t₁.bucketCount = t.bucketCount := congrArg Buckets.count hb
    have hi : t.bucketOf hash < t₁.bucketCount := hcount ▸ h.bucketOf_lt hash
    have hfront := hseg (fun c hc => h.mem_cells hc)
      (h.chains (t.bucketOf hash))
    refine ⟨hs.setHead hi hfront ?_, ?_, hc, Shape.denial_eq_none hsize⟩
    · rw [List.append_nil]
      exact (List.perm_append_singleton _ _).symm
    · rw [bucketCount_setHead, hcount]

theorem Stores.linkFront_error (h : t.Stores heap rows [] others)
    (hr : t.linkFront hash entry heap = (.error e, t', heap')) :
    t' = t ∧ t.Stores heap' rows [] others ∧
      ∃ r, heap.Continues heap' r ∧ s.denial t.size r = some e := by
  unfold Table.linkFront at hr
  simp only at hr
  split at hr
  · next e' t₁ later hn =>
    cases hr
    exact h.newNode_error hn
  · cases hr

theorem Stores.linkAfter_ok (h : t.Stores heap rows [] others) {i : Nat}
    {pre post : List (Cell T)} {c : Cell T} (hrow : rows i = pre ++ c :: post)
    (hr : t.linkAfter c.ref hash entry heap = (.ok q, t', heap')) :
    t'.Stores heap' (rows.put i (pre ++ c :: s.cell q hash entry :: post)) [] others ∧
      t'.bucketCount = t.bucketCount ∧ heap.Continues heap' none ∧
      s.denial t.size none = none := by
  unfold Table.linkAfter at hr
  split at hr
  · cases hr
  · next q' t₁ later hn =>
    cases hr
    obtain ⟨hs, hseg, hb, hc, hsize⟩ := h.newNode_ok hn
    have hpost : ∀ d ∈ post, d ∈ rows.all t.bucketCount ++ [] := fun d hd =>
      h.mem_cells (i := i) (by simp [hrow, hd])
    have hchain := h.chains i
    rw [hrow] at hchain
    have hafter := hseg hpost hchain.next_eq
    refine ⟨hs.setNext hrow hafter ?_, ?_, hc, Shape.denial_eq_none hsize⟩
    · rw [List.append_nil]
      exact (List.perm_append_singleton _ _).symm
    · rw [bucketCount_setNext]
      exact congrArg Buckets.count hb

theorem Stores.linkAfter_error (h : t.Stores heap rows [] others) {c : Cell T}
    (hr : t.linkAfter c.ref hash entry heap = (.error e, t', heap')) :
    t' = t ∧ t.Stores heap' rows [] others ∧
      ∃ r, heap.Continues heap' r ∧ s.denial t.size r = some e := by
  unfold Table.linkAfter at hr
  split at hr
  · next e' t₁ later hn =>
    cases hr
    exact h.newNode_error hn
  · cases hr

/-! ## Insertions as a whole -/

/-- What an insertion comes to, if it turns a row `l` into `add q l`. -/
inductive Inserted (t : Table s T A) (heap : Heap A) (rows : Rows T) (others : List (Loan A))
    (hash : UInt64) (hasher : Ref → T → UInt64) (add : Ref → List (Cell T) → List (Cell T)) :
    Except MemoryError Ref × Table s T A × Heap A → Prop where
  | done {rows' : Rows T} {q : Ref} {t' : Table s T A} {heap' : Heap A}
    (regrouped : Rows.Regrouped hasher rows rows' t.bucketCount t'.bucketCount)
    (stores : t'.Stores heap'
      (rows'.put (t'.bucketOf hash) (add q (rows' (t'.bucketOf hash)))) [] others)
    (continues : heap.Continues heap' none) (granted : s.denial t.size none = none) :
    Inserted t heap rows others hash hasher add (.ok q, t', heap')
  | denied {rows' : Rows T} {e : MemoryError} {t' : Table s T A} {heap' : Heap A}
    (regrouped : Rows.Regrouped hasher rows rows' t.bucketCount t'.bucketCount)
    (stores : t'.Stores heap' rows' [] others) {r : Option MemoryError}
    (continues : heap.Continues heap' r) (denied : s.denial t.size r = some e) :
    Inserted t heap rows others hash hasher add (.error e, t', heap')

/-- Making room does not change how many entries there are. -/
theorem Stores.size_regrouped {rows' : Rows T} (h : t.Stores heap rows [] others)
    (h' : t'.Stores heap' rows' [] others)
    (hr : Rows.Regrouped hasher rows rows' t.bucketCount t'.bucketCount) : t'.size = t.size := by
  rw [h'.size_eq, h.size_eq, List.append_nil, List.append_nil]
  exact (hr.perm h'.bucketCount_pos).length_eq

section Room

-- `room` is the table after it made room.
variable {room : Table s T A} {later : Heap A} {rows' : Rows T}
  (h : t.Stores heap rows [] others) (hs : room.Stores later rows' [] others)
  (hre : Rows.Regrouped hasher rows rows' t.bucketCount room.bucketCount)
  (hc : heap.Continues later none) {add : Ref → List (Cell T) → List (Cell T)}
include h hs hre hc

theorem Inserted.linkFront
    (hadd : ∀ q, add q (rows' (room.bucketOf hash)) =
      s.cell q hash entry :: rows' (room.bucketOf hash)) :
    Inserted t heap rows others hash hasher add (room.linkFront hash entry later) := by
  have hsize := h.size_regrouped hs hre
  rcases hl : room.linkFront hash entry later with ⟨e | q, t', heap'⟩
  · obtain ⟨rfl, hs', r, hc', hd⟩ := hs.linkFront_error hl
    exact .denied hre hs' (hc.trans hc') (by rw [← hsize, Option.or_none]; exact hd)
  · obtain ⟨hs', hcount, hc', hd⟩ := hs.linkFront_ok hl
    have hbucket : t'.bucketOf hash = room.bucketOf hash := by rw [bucketOf, hcount]; rfl
    refine .done (hcount ▸ hre) ?_ (hc.trans hc') (hsize ▸ hd)
    rw [hbucket, hadd]
    exact hs'

theorem Inserted.linkAfter {pre post : List (Cell T)} {c : Cell T}
    (hrow : rows' (room.bucketOf hash) = pre ++ c :: post)
    (hadd : ∀ q, add q (pre ++ c :: post) = pre ++ c :: s.cell q hash entry :: post) :
    Inserted t heap rows others hash hasher add (room.linkAfter c.ref hash entry later) := by
  have hsize := h.size_regrouped hs hre
  rcases hl : room.linkAfter c.ref hash entry later with ⟨e | q, t', heap'⟩
  · obtain ⟨rfl, hs', r, hc', hd⟩ := hs.linkAfter_error hl
    exact .denied hre hs' (hc.trans hc') (by rw [← hsize, Option.or_none]; exact hd)
  · obtain ⟨hs', hcount, hc', hd⟩ := hs.linkAfter_ok hrow hl
    have hbucket : t'.bucketOf hash = room.bucketOf hash := by rw [bucketOf, hcount]; rfl
    refine .done (hcount ▸ hre) ?_ (hc.trans hc') (hsize ▸ hd)
    rw [hbucket, hrow, hadd]
    exact hs'

end Room

theorem Stores.insertFront (h : t.Stores heap rows [] others) (hash : UInt64)
    (entry : T) (hasher : Ref → T → UInt64) :
    Inserted t heap rows others hash hasher (fun q cs => s.cell q hash entry :: cs)
      (t.insertFront hash entry hasher heap) := by
  unfold Table.insertFront
  split
  · next e room later hm =>
    obtain ⟨hs, hcount, ho, hc⟩ := h.makeRoom_error hm
    exact .denied (.inl ⟨rfl, hcount⟩) hs hc (by simp [Shape.denial, ho])
  · next room later hm =>
    obtain ⟨rows', hs, hre, hc⟩ := h.makeRoom_ok hm
    exact .linkFront h hs hre hc fun _ => rfl

theorem Stores.insertBeside (h : t.Stores heap rows [] others) (hash : UInt64)
    (entry : T) (test : T → Bool) (hasher : Ref → T → UInt64) :
    Inserted t heap rows others hash hasher
      (fun q cs => besideFirst (Cell.isMatch hash test) (s.cell q hash entry) cs)
      (t.insertBeside hash entry test hasher heap) := by
  unfold Table.insertBeside
  split
  · next e room later hm =>
    obtain ⟨hs, hcount, ho, hc⟩ := h.makeRoom_error hm
    exact .denied (.inl ⟨rfl, hcount⟩) hs hc (by simp [Shape.denial, ho])
  · next room later hm =>
    obtain ⟨rows', hs, hre, hc⟩ := h.makeRoom_ok hm
    rw [hs.find?_eq]
    cases hf : (rows' (room.bucketOf hash)).find? (Cell.isMatch hash test) with
    | none => exact .linkFront h hs hre hc fun q => besideFirst_of_none hf _
    | some c =>
      obtain ⟨hm, pre, post, hrow, hpre⟩ := List.find?_eq_some_iff_append.mp hf
      exact .linkAfter h hs hre hc hrow fun q => besideFirst_of_first hpre hm _ _

end Table

end ArenaHash
