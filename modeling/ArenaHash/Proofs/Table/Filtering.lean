import ArenaHash.Proofs.Table.Redistribution

/-!
# What a filter leaves

A filter sees the entries in walking order, each of them once, and its state goes from one to the
next (`answers`). `Filtered` says what that comes to for the nodes: `verdict q` is the entry that is
left in the slot `q`, or `none` if the node went. The chains lose the rejected nodes and nothing
else about them changes; the slots of these nodes are returned in walking order.
-/

namespace ArenaHash

/-- What a filter leaves of entries that it sees one after the other, and its state afterwards. -/
def answers {σ T : Type} (keep : σ → T → Bool × T × σ) : σ → List T → List (Option T) × σ
  | state, [] => ([], state)
  | state, entry :: l =>
    let (kept, entry, state) := keep state entry
    let (rest, state) := answers keep state l
    ((if kept then some entry else none) :: rest, state)

section

variable {σ T : Type} {keep : σ → T → Bool × T × σ}

theorem length_answers (state : σ) (l : List T) : (answers keep state l).1.length = l.length := by
  induction l generalizing state with
  | nil => rfl
  | cons entry l ih => exact congrArg Nat.succ (ih _)

theorem answers_append (state : σ) (l m : List T) :
    answers keep state (l ++ m) =
      ((answers keep state l).1 ++ (answers keep (answers keep state l).2 m).1,
        (answers keep (answers keep state l).2 m).2) := by
  induction l generalizing state with
  | nil => rfl
  | cons entry l ih => simp only [List.cons_append, answers, ih]

end

/-- Each element is looked up next to its own image. -/
theorem map_lookup_zip {α β : Type} [BEq α] [LawfulBEq α] :
    ∀ {l : List α} {m : List β}, l.Nodup → l.length = m.length →
      l.map (fun a => (l.zip m).lookup a) = m.map some
  | [], [], _, _ => rfl
  | a :: l, b :: m, hn, hlength => by
    obtain ⟨ha, hn⟩ := List.nodup_cons.mp hn
    rw [List.map_cons, List.zip_cons_cons, List.lookup_cons_self, List.map_cons,
      ← map_lookup_zip hn (Nat.succ.inj hlength)]
    refine congrArg _ (List.map_congr_left fun x hx => ?_)
    have hne : (x == a) = false := beq_false_of_ne (ne_of_mem_of_not_mem hx ha)
    rw [List.lookup_cons, hne]

namespace Table

variable {s : Shape} {T A σ : Type} {keep : σ → T → Bool × T × σ}

/-- What is left in each slot, given what is left of all entries in walking order. -/
def fatesAlong (t : Table s T A) (outcomes : List (Option T)) (q : Ref) : Option T :=
  ((t.refs.zip outcomes).lookup q).join

/-- A cell with the entry that is left in its slot, if any. -/
def judged (verdict : Ref → Option T) (c : Cell T) : Option (Cell T) :=
  (verdict c.ref).map fun entry => { c with entry }

section

variable {verdict : Ref → Option T}

theorem map_ref_judged (cs : List (Cell T)) :
    (cs.filterMap (judged verdict)).map Cell.ref =
      (cs.map Cell.ref).filter fun q => (verdict q).isSome := by
  induction cs with
  | nil => rfl
  | cons c cs ih =>
    cases hv : verdict c.ref with
    | none => simpa [judged, hv] using ih
    | some entry => simpa [judged, hv] using ih

/-- What a filter does to cells follows from what it answers about their entries. -/
theorem keepCells_judged {state : σ} {cs : List (Cell T)}
    (hv : cs.map (fun c => verdict c.ref) = (answers keep state (cs.map Cell.entry)).1) :
    keepCells keep state cs =
        ((answers keep state (cs.map Cell.entry)).2, cs.filterMap (judged verdict)) ∧
      droppedRefs keep state cs = (cs.map Cell.ref).filter fun q => (verdict q).isNone := by
  induction cs generalizing state with
  | nil => exact ⟨rfl, rfl⟩
  | cons c cs ih =>
    obtain ⟨kept, entry, state', hkeep⟩ :
        ∃ kept entry state', keep state c.entry = (kept, entry, state') := ⟨_, _, _, rfl⟩
    simp only [List.map_cons, answers, hkeep, List.cons.injEq] at hv ⊢
    obtain ⟨hc, hv⟩ := hv
    obtain ⟨hcells, hdropped⟩ := ih hv
    cases kept <;> simp [keepCells, droppedRefs, hkeep, hcells, hdropped, judged, hc]

/-- Row by row, a filter leaves what is left of the cells. -/
theorem keepRows_judged {state : σ} {rows : Rows T} {is : List Nat} (hn : is.Nodup)
    (hv : (is.flatMap rows).map (fun c => verdict c.ref) =
      (answers keep state ((is.flatMap rows).map Cell.entry)).1) {i : Nat} (hi : i ∈ is) :
    (keepRows keep state rows is).2 i = (rows i).filterMap (judged verdict) := by
  induction is generalizing state rows with
  | nil => cases hi
  | cons j is ih =>
    obtain ⟨hj, hn⟩ := List.nodup_cons.mp hn
    rw [List.flatMap_cons, List.map_append, List.map_append, answers_append] at hv
    obtain ⟨hrow, hrest⟩ := List.append_inj hv (by simp [length_answers])
    obtain ⟨hcells, -⟩ := keepCells_judged hrow
    rcases List.mem_cons.mp hi with rfl | hi
    · refine (keepRows_of_notMem _ _ hj).trans ((Rows.put_self _ _ _).trans ?_)
      rw [hcells]
    · have hput : is.flatMap (rows.put j (keepCells keep state (rows j)).2) = is.flatMap rows :=
        Rows.flatMap_put hj _
      have hne : i ≠ j := ne_of_mem_of_not_mem hi hj
      have hstate : (keepCells keep state (rows j)).1 = _ := congrArg Prod.fst hcells
      refine (ih hn ?_ hi).trans (congrArg _ (rows.put_of_ne hne _))
      rw [hput, hstate]
      exact hrest

end

variable [Allocator A] {t : Table s T A} {heap : Heap A} {rows : Rows T} {others : List (Loan A)}

structure Filtered (t : Table s T A) (heap : Heap A) (keep : σ → T → Bool × T × σ) (state : σ)
    (verdict : Ref → Option T) (out : σ × Table s T A × Heap A) : Prop where
  /-- Every node is visited once, in walking order, with what earlier visits left of the state. -/
  visits : (t.refs.map verdict, out.1) = answers keep state t.toList
  chain : ∀ i, out.2.1.chain i = (t.chain i).filter fun q => (verdict q).isSome
  contentAt : ∀ q ∈ t.refs, ∀ entry, verdict q = some entry →
    out.2.1.contentAt q = (t.contentAt q).map fun content => (entry, content.2)
  size : out.2.1.size + (t.refs.filter fun q => (verdict q).isNone).length = t.size
  returned : t.Returned heap (t.refs.filter fun q => (verdict q).isNone) out.2.1 out.2.2
  plan : t.SamePlan out.2.1

theorem Stores.nodup_refs (h : t.Stores heap rows [] others) : t.refs.Nodup := by
  rw [h.refs_eq]
  simpa using h.nodup

theorem Stores.map_fatesAlong (h : t.Stores heap rows [] others) {outcomes : List (Option T)}
    (hlength : outcomes.length = t.toList.length) :
    t.refs.map (t.fatesAlong outcomes) = outcomes := by
  have hsame : t.toList.length = t.refs.length := by
    rw [h.toList_eq, h.refs_eq, List.length_map, List.length_map]
  have hlookup := map_lookup_zip h.nodup_refs (hlength.trans hsame).symm
  have hjoin := congrArg (List.map Option.join) hlookup
  rw [List.map_map, List.map_map] at hjoin
  exact hjoin.trans (by simp [Function.comp_def])

theorem Stores.filteredAlong (h : t.Stores heap rows [] others) (keep : σ → T → Bool × T × σ)
    (state : σ) :
    t.Filtered heap keep state (t.fatesAlong (answers keep state t.toList).1)
      (t.filter keep state heap) := by
  have hverdict : t.refs.map (t.fatesAlong (answers keep state t.toList).1) = _ :=
    h.map_fatesAlong (length_answers state t.toList)
  generalize t.fatesAlong (answers keep state t.toList).1 = verdict at hverdict ⊢
  rw [h.refs_eq, h.toList_eq] at hverdict
  have hv : (rows.all t.bucketCount).map (fun c => verdict c.ref) =
      (answers keep state ((rows.all t.bucketCount).map Cell.entry)).1 := by
    rw [← hverdict, List.map_map]
    rfl
  obtain ⟨hcells, hdropped⟩ := keepCells_judged hv
  obtain ⟨t', heap', hrun, hs, hcount, hreturned⟩ := h.filter keep state
  have hplan := (Releases.filter keep t state heap).toSamePlan
  have hkeep := Prod.mk.inj (keepRows_eq keep state rows (List.nodup_range (n := t.bucketCount)))
  have hrow : ∀ i, (keepRows keep state rows (List.range t.bucketCount)).2 i =
      (rows i).filterMap (judged verdict) := by
    intro i
    by_cases hi : i ∈ List.range t.bucketCount
    · exact keepRows_judged List.nodup_range hv hi
    · have hnil : rows i = [] := h.row_eq_nil (by simpa using hi)
      rw [keepRows_of_notMem _ _ hi, hnil, List.filterMap_nil]
  have hsize : t.refs.length = t.size := by
    rw [h.refs_eq, h.size_eq, List.append_nil, List.length_map]
  rw [hdropped, ← h.refs_eq] at hreturned
  rw [hrun] at hplan ⊢
  refine ⟨?_, ?_, ?_, ?_, hreturned, hplan⟩
  · rw [h.refs_eq, hverdict, h.toList_eq, hkeep.1]
    exact Prod.ext rfl (congrArg Prod.fst hcells)
  · intro i
    rw [hs.chain_eq, h.chain_eq, hrow, map_ref_judged]
  · intro q hq entry hentry
    rw [h.refs_eq] at hq
    obtain ⟨c, hc, rfl⟩ := List.mem_map.mp hq
    obtain ⟨i, hi, hci⟩ := rows.mem_all.mp hc
    have hleft : { c with entry } ∈ (keepRows keep state rows (List.range t.bucketCount)).2 i := by
      rw [hrow]
      exact List.mem_filterMap.mpr ⟨c, hci, by simp [judged, hentry]⟩
    rw [hs.contentAt_eq hleft, h.contentAt_eq hci]
    rfl
  · rw [hreturned.size]
    exact Nat.sub_add_cancel (hsize ▸ List.length_filter_le _ _)

theorem Stores.filtered (h : t.Stores heap rows [] others) (keep : σ → T → Bool × T × σ)
    (state : σ) : ∃ verdict, t.Filtered heap keep state verdict (t.filter keep state heap) :=
  ⟨_, h.filteredAlong keep state⟩

end Table

end ArenaHash
