import ArenaHash.Memory.Lender
import ArenaHash.Proofs.Table.Renewal

/-!
# One bucket array after the other

An array with a sentinel is asked for with one request of exactly its size, or not at all if no
block is so large (`HeapRow.Exact`), and it is returned with the size that it was asked for with.

A `History` is what becomes of bucket arrays under any writes, growing and shrinking, while others
use the heap; an array may be kept for a while before it is put in force. A step keeps the arrays
sound and the account even: the arrays put in force are, in order, those handed back and then the
one in force (`Kept.step`). So nothing that was written shows after the array in force has changed,
and each array is handed back once, when it gives way to the next one or to the inline array.
-/

namespace ArenaHash

/-! ## Sizes -/

namespace Layout

variable {element : Layout} {count n unit : Nat}

theorem roundUp_lt (n : Nat) (h : 0 < unit) : roundUp n unit < n + unit := by
  have hle := Nat.div_mul_le_self (n + unit - 1) unit
  unfold roundUp
  omega

theorem le_roundUp (n : Nat) (h : 0 < unit) : n ≤ roundUp n unit := by
  have hlt := Nat.lt_div_mul_add (a := n + unit - 1) h
  unfold roundUp
  omega

/-- Below a multiple of the unit there is room for one more of them, or the number is rounded up to
that multiple. -/
theorem roundUp_lt_iff (h : 0 < unit) {limit : Nat} (hdvd : unit ∣ limit) :
    roundUp n unit < limit ↔ n + unit ≤ limit := by
  refine ⟨fun hlt => ?_, fun hle => (roundUp_lt n h).trans_le hle⟩
  have hmultiple : unit ∣ roundUp n unit := Nat.dvd_mul_left _ _
  have hgap : unit ≤ limit - roundUp n unit :=
    Nat.le_of_dvd (Nat.sub_pos_of_lt hlt) (Nat.dvd_sub hdvd hmultiple)
  have hle := le_roundUp n h
  omega

/-- Alignments are powers of two. -/
def Proper (l : Layout) : Prop := ∃ k < 64, l.align = 2 ^ k

/-- The size, rounded up to the alignment, is a signed word. -/
def Fits (l : Layout) : Prop := roundUp l.size l.align < 2 ^ 63

theorem array?_eq_row_iff (h : element.Proper) :
    element.array? count = some (element.row count) ↔
      count < 2 ^ 64 ∧ (element.row count).Fits := by
  obtain ⟨k, hk, halign⟩ := h
  have hpos : 0 < element.align := halign ▸ Nat.two_pow_pos k
  have hdvd : element.align ∣ 2 ^ 63 := halign ▸ Nat.pow_dvd_pow 2 (by omega)
  have hlimit : sizeLimit = 2 ^ 63 := Nat.one_shiftLeft 63
  have hword : count ≤ maxWord ↔ count < 2 ^ 64 := Nat.lt_succ_iff.symm
  have hfits : (element.row count).Fits ↔ element.size * count + element.align ≤ sizeLimit := by
    rw [hlimit]
    exact roundUp_lt_iff hpos hdvd
  rw [hfits, ← hword, array?, row]
  split <;> simp_all

theorem array?_eq_none_iff (h : element.Proper) :
    element.array? count = none ↔ ¬ (count < 2 ^ 64 ∧ (element.row count).Fits) := by
  rw [← array?_eq_row_iff h]
  cases ha : element.array? count with
  | none => simp
  | some layout => simp [array?_eq_row ha]

end Layout

/-! ## Heads -/

namespace HeadRow

variable {P : Type}

theorem length_heads (r : HeadRow P) : r.heads.length = r.count := by
  simp [heads, toList, count]

theorem heads_empty (n : Nat) : (empty n : HeadRow P).heads = .replicate n none := by
  simp [heads, toList, empty, count]

end HeadRow

namespace HeapRow

variable {P A : Type} [Allocator A] {slot : Layout}

/-- The number of the block and the number of heads. -/
def mark (r : HeapRow P) : Block × Nat := (r.block, r.row.count)

/-- What it comes to that an array of `count` heads is asked for. -/
structure Exact (P : Type) (slot : Layout) (count : Nat) (lender : A) (heap : Heap A) : Prop where
  /-- Nothing is asked for if there is no such block. -/
  refused : (alloc slot count lender heap : Except MemoryError (HeapRow P) × Heap A) =
      (.error (.refused (Allocator.name lender) maxWord slot.align), heap) ↔
    ¬ (count + 1 < 2 ^ 64 ∧ (slot.row (count + 1)).Fits)
  /-- Otherwise a block for the heads and the sentinel is, and if it is served all are empty. -/
  requested : count + 1 < 2 ^ 64 → (slot.row (count + 1)).Fits →
    (alloc slot count lender heap : Except MemoryError (HeapRow P) × Heap A) =
      ((heap.request lender (slot.row (count + 1))).1.map (⟨·, .empty count⟩),
        (heap.request lender (slot.row (count + 1))).2)
  empty : (HeadRow.empty count : HeadRow P).toList = .replicate (count + 1) none
  /-- What is returned is as large. -/
  released : count + 1 < 2 ^ 64 → (slot.row (count + 1)).Fits → ∀ r : HeapRow P,
    r.row.count = count → ∀ (lender' : A) (later : Heap A),
      r.release slot lender' later = later.giveBack lender' r.block (slot.row (count + 1))

theorem exact (P : Type) (h : slot.Proper) (count : Nat) (lender : A) (heap : Heap A) :
    Exact P slot count lender heap where
  refused := by
    rw [← Layout.array?_eq_none_iff h]
    constructor
    · intro hr
      cases ha : slot.array? (count + 1) with
      | none => rfl
      | some layout =>
        -- A request leaves its mark on the heap.
        rw [alloc_eq ha] at hr
        have hevents := congrArg (fun out => out.2.events.length) hr
        rcases heap.request_cases lender layout with hc | hc <;> simp [hc] at hevents
    · intro ha
      simp only [alloc, ha, tooLarge]
  requested hcount hfits := alloc_eq ((Layout.array?_eq_row_iff h).mpr ⟨hcount, hfits⟩) lender heap
  empty := by simp [HeadRow.toList, HeadRow.empty]
  released hcount hfits r hr lender' later := by
    simp only [release, hr, (Layout.array?_eq_row_iff h).mpr ⟨hcount, hfits⟩]

end HeapRow

/-! ## Histories -/

namespace Buckets

variable {P A : Type} {slot : Layout} {n : Nat}

/-- What is done to bucket arrays, or to the heap they come from. -/
inductive Edit (P A : Type) where
  | set (index : Nat) (head : Option P)
  /-- Writes every head; `none` clears them. -/
  | fill (head : Option P)
  /-- Asks for an array of `count` heads. -/
  | alloc (count : Nat) (lender : A)
  /-- Puts one of the spare arrays in force. -/
  | install (index : Nat)
  | shrink
  /-- Something else is asked for. -/
  | request (lender : A) (layout : Layout)
  | giveBack (lender : A) (block : Block) (layout : Layout)

/-- An array has two heads or more. -/
def Edit.Allowed : Edit P A → Prop
  | alloc count _ => 2 ≤ count
  | _ => True

/-- Bucket arrays, the heap, and which arrays were put in force and handed back so far, in order. -/
structure History (P A : Type) where
  buckets : Buckets P
  heap : Heap A
  /-- The arrays that were served and never put in force. -/
  spare : List (HeapRow P) := []
  installed : List (Block × Nat) := []
  handedBack : List (Block × Nat) := []

namespace History

/-- Changes the buckets and notes the array that is handed back. -/
def replace (h : History P A) (change : Option (HeapRow P) × Buckets P) : History P A :=
  { h with
    buckets := change.2
    handedBack := h.handedBack ++ change.1.toList.map HeapRow.mark }

def step [Allocator A] (slot : Layout) (h : History P A) : Edit P A → History P A
  | .set index head => { h with buckets := h.buckets.setHead index head }
  | .fill head => { h with buckets := h.buckets.modifyRow (·.fill head) }
  | .alloc count lender =>
    match HeapRow.alloc slot count lender h.heap with
    | (.error _, heap) => { h with heap }
    | (.ok fresh, heap) => { h with heap, spare := fresh :: h.spare }
  | .install index =>
    match h.spare[index]? with
    | none => h
    | some fresh =>
      { h.replace (h.buckets.grow fresh) with
        spare := h.spare.eraseIdx index
        installed := h.installed ++ [fresh.mark] }
  | .shrink => h.replace h.buckets.shrink
  | .request lender layout => { h with heap := (h.heap.request lender layout).2 }
  | .giveBack lender block layout => { h with heap := h.heap.giveBack lender block layout }

def run [Allocator A] (slot : Layout) (h : History P A) (edits : List (Edit P A)) : History P A :=
  edits.foldl (step slot) h

/-- The blocks of the arrays that were served. -/
def blocks (h : History P A) : List Block :=
  h.spare.map HeapRow.block ++ h.installed.map Prod.fst

/-- The arrays put in force, in order, are those handed back and the one in force. -/
structure Kept (slot : Layout) (n : Nat) (h : History P A) : Prop where
  sound : h.buckets.Sound slot n
  spare : ∀ r ∈ h.spare, ∃ count ≥ 2, r.row = .empty count ∧
    slot.array? (count + 1) = some (slot.row (count + 1))
  installed : h.installed = h.handedBack ++ h.buckets.grown.toList.map HeapRow.mark
  nodup : h.blocks.Nodup
  block_lt : ∀ b ∈ h.blocks, b < h.heap.nextBlock

variable {h : History P A}

theorem kept_new (slot : Layout) (n : Nat) (heap : Heap A) :
    ({ buckets := .new n, heap } : History P A).Kept slot n where
  sound := .new slot n
  spare := by simp
  installed := rfl
  nodup := .nil
  block_lt := by simp [blocks]

/-- Writes leave the array in force where it is. -/
theorem Kept.write (hk : h.Kept slot n) {f : HeadRow P → HeadRow P}
    (hcount : ∀ r, (f r).count = r.count)
    (hsentinel : ∀ r, r.sentinelEmpty = true → (f r).sentinelEmpty = true) :
    Kept slot n { h with buckets := h.buckets.modifyRow f } := by
  have hmarks : (h.buckets.modifyRow f).grown.toList.map HeapRow.mark =
      h.buckets.grown.toList.map HeapRow.mark := by
    unfold modifyRow
    cases hg : h.buckets.grown with
    | none => simp
    | some r => simp [HeapRow.mark, hcount]
  exact { hk with
    sound := hk.sound.modifyRow hcount hsentinel
    installed := hk.installed.trans (by rw [hmarks]) }

theorem Kept.onHeap (hk : h.Kept slot n) {heap : Heap A}
    (hle : h.heap.nextBlock ≤ heap.nextBlock) : Kept slot n { h with heap } :=
  { hk with block_lt := fun b hb => (hk.block_lt b hb).trans_le hle }

/-- The spare array that is put in force hands back the one before it. -/
theorem Kept.install (hk : h.Kept slot n) {index : Nat} {fresh : HeapRow P}
    (hfresh : h.spare[index]? = some fresh) :
    Kept slot n
      { h.replace (h.buckets.grow fresh) with
        spare := h.spare.eraseIdx index
        installed := h.installed ++ [fresh.mark] } := by
  obtain ⟨hindex, hget⟩ := List.getElem?_eq_some_iff.mp hfresh
  obtain ⟨count, h2, hrow, ha⟩ := hk.spare fresh (List.mem_of_getElem? hfresh)
  have hperm : h.spare.Perm (fresh :: h.spare.eraseIdx index) :=
    hget ▸ (List.getElem_cons_eraseIdx_perm hindex).symm
  -- The block moves from the spare arrays to those put in force.
  have hblocks : h.blocks.Perm ((h.spare.eraseIdx index).map HeapRow.block ++
      (h.installed ++ [fresh.mark]).map Prod.fst) := by
    refine ((hperm.map HeapRow.block).append_right _).trans ?_
    rw [List.map_append, ← List.append_assoc]
    exact (List.perm_append_singleton _ _).symm
  exact
    { sound := hk.sound.grow h2 hrow ha
      spare := fun r hr => hk.spare r (List.mem_of_mem_eraseIdx hr)
      installed := congrArg (· ++ [fresh.mark]) hk.installed
      nodup := hblocks.nodup_iff.mp hk.nodup
      block_lt := fun b hb => hk.block_lt b (hblocks.mem_iff.mpr hb) }

theorem Kept.shrink (hk : h.Kept slot n) : (h.replace h.buckets.shrink).Kept slot n :=
  { hk with
    sound := hk.sound.shrink
    installed := hk.installed.trans (List.append_nil _).symm }

variable [Allocator A]

theorem Kept.alloc (hk : h.Kept slot n) {count : Nat} (h2 : 2 ≤ count) (lender : A) :
    (h.step slot (.alloc count lender)).Kept slot n := by
  rcases hr : (HeapRow.alloc slot count lender h.heap : Except MemoryError (HeapRow P) × Heap A)
    with ⟨e | fresh, heap⟩ <;> simp only [History.step, hr]
  · refine hk.onHeap ?_
    cases ha : slot.array? (count + 1) with
    | none =>
      simp only [HeapRow.alloc, ha] at hr
      cases hr
      exact Nat.le_refl _
    | some layout =>
      have hle := h.heap.nextBlock_request_le lender (slot.row (count + 1))
      rwa [HeapRow.request_of_alloc_error ha hr] at hle
  · obtain ⟨hrow, ha, hreq⟩ := HeapRow.request_of_alloc_ok hr
    rcases h.heap.request_cases lender (slot.row (count + 1)) with hc | hc <;> rw [hc] at hreq
    · -- The block is a new one.
      cases fresh with
      | mk block row =>
        cases hreq
        exact
          { hk with
            spare := List.forall_mem_cons.mpr ⟨⟨count, h2, hrow, ha⟩, hk.spare⟩
            nodup := hk.nodup.cons fun hb => Nat.lt_irrefl _ (hk.block_lt _ hb)
            block_lt := List.forall_mem_cons.mpr
              ⟨Nat.lt_succ_self _, fun b hb => Nat.lt_succ_of_lt (hk.block_lt b hb)⟩ }
    · cases hreq

theorem Kept.step (hk : h.Kept slot n) {edit : Edit P A} (ha : edit.Allowed) :
    (h.step slot edit).Kept slot n := by
  cases edit with
  | set index head =>
    exact hk.write (HeadRow.count_setHead · index head)
      fun _ hs => HeadRow.sentinelEmpty_setHead hs index head
  | fill head =>
    exact hk.write (HeadRow.count_fill · head) fun _ hs => HeadRow.sentinelEmpty_fill hs head
  | alloc count lender => exact hk.alloc ha lender
  | install index =>
    cases hfresh : h.spare[index]? with
    | none => simpa only [History.step, hfresh] using hk
    | some fresh => simpa only [History.step, hfresh] using hk.install hfresh
  | shrink => exact hk.shrink
  | request lender layout => exact hk.onHeap (Heap.nextBlock_request_le _ _ _)
  | giveBack lender block layout => exact hk.onHeap (Nat.le_refl _)

theorem Kept.run {edits : List (Edit P A)} (hk : h.Kept slot n)
    (ha : ∀ edit ∈ edits, edit.Allowed) : (h.run slot edits).Kept slot n := by
  induction edits generalizing h with
  | nil => exact hk
  | cons edit edits ih =>
    obtain ⟨hedit, hedits⟩ := List.forall_mem_cons.mp ha
    exact ih (hk.step hedit) hedits

/-- What shows of bucket arrays, and what becomes of each of them. -/
structure Exact (slot : Layout) (n : Nat) (h : History P A) : Prop where
  sentinelEmpty : h.buckets.sentinelEmpty = true
  length_heads : h.buckets.row.heads.length = h.buckets.count
  inline : h.buckets.grown = none → h.buckets.count = n
  /-- The array in force was put in force last, and it will be returned with its size. -/
  grown : ∀ r, h.buckets.grown = some r →
    h.installed.getLast? = some (r.block, h.buckets.count) ∧
      ∀ (lender : A) (heap : Heap A), r.release slot lender heap =
        heap.giveBack lender r.block (slot.row (h.buckets.count + 1))
  installed : h.installed = h.handedBack ++ h.buckets.grown.toList.map HeapRow.mark
  /-- No block is handed back twice. -/
  nodup : (h.installed.map Prod.fst).Nodup
  /-- An array is empty when it is put in force, and hands back the one before it. -/
  grow : ∀ fresh ∈ h.spare, (h.buckets.grow fresh).1 = h.buckets.grown ∧
    (h.buckets.grow fresh).2.row.heads = .replicate fresh.row.count none
  /-- The inline array is empty when it is back. -/
  shrink : h.buckets.shrink.1 = h.buckets.grown ∧
    h.buckets.shrink.2.row.heads = .replicate n none

omit [Allocator A] in
theorem Kept.exact (hk : h.Kept slot n) : h.Exact slot n where
  sentinelEmpty := hk.sound.sentinelEmpty
  length_heads := HeadRow.length_heads _
  inline hg := by
    rw [count, row, hg]
    exact hk.sound.inline_count
  grown r hg := by
    have hcount : h.buckets.count = r.row.count := by rw [count, row, hg]
    have ha := (hk.sound.grown r hg).2.2
    rw [hk.installed, hg, hcount]
    refine ⟨by simp [HeapRow.mark], fun lender heap => ?_⟩
    simp only [HeapRow.release, ha]
  installed := hk.installed
  nodup := (List.nodup_append.mp hk.nodup).2.1
  grow fresh hfresh := by
    obtain ⟨count, -, hrow, -⟩ := hk.spare fresh hfresh
    refine ⟨rfl, ?_⟩
    change fresh.row.heads = _
    rw [hrow, HeadRow.heads_empty, HeadRow.count_empty]
  shrink := by
    refine ⟨rfl, ?_⟩
    rw [hk.sound.shrink_eq]
    exact HeadRow.heads_empty n

end History

/-- Whatever is written, and however often the array in force changes, the sentinel is empty, no
head shows after a change, and each array is handed back once, when the array in force changes the
next time. An array is asked for with one request of its size if there are blocks so large. -/
theorem succession_exact [Allocator A] :
    (∀ (slot : Layout) (n : Nat) (heap : Heap A) (edits : List (Edit P A)),
      (∀ edit ∈ edits, edit.Allowed) →
        (History.run slot { buckets := .new n, heap } edits).Exact slot n) ∧
    ∀ (slot : Layout), slot.Proper → ∀ (count : Nat) (lender : A) (heap : Heap A),
      HeapRow.Exact P slot count lender heap :=
  ⟨fun slot n heap _ ha => ((History.kept_new slot n heap).run ha).exact,
    fun _ h count lender heap => HeapRow.exact P h count lender heap⟩

/-- The array that was served second is put in force first. Both are written to, as was the inline
array. An array of `maxWord` heads is refused: its slots cannot be counted. -/
theorem succession_exact_regrown :
    let slot : Layout := ⟨16, 8⟩
    let heap : Heap Lender := { serves := fun _ _ _ => true }
    let edits : List (Edit Nat Lender) :=
      [.fill (some 9), .alloc 5 .plain, .alloc 11 .plain, .install 0, .set 2 (some 7), .install 0,
        .fill (some 1), .shrink]
    let h := History.run slot { buckets := .new 3, heap } edits
    (∀ edit ∈ edits, edit.Allowed) ∧ h.Exact slot 3 ∧
      h.installed = [(1, 11), (0, 5)] ∧ h.handedBack = h.installed ∧
      slot.Proper ∧ HeapRow.Exact Nat slot maxWord .plain heap := by
  intro slot heap edits h
  have ha : ∀ edit ∈ edits, edit.Allowed := by simp [edits, Edit.Allowed]
  have hslot : slot.Proper := ⟨3, by decide, rfl⟩
  exact ⟨ha, succession_exact.1 slot 3 heap edits ha, by decide +kernel, by decide +kernel, hslot,
    succession_exact.2 slot hslot maxWord .plain heap⟩

end Buckets

end ArenaHash
