import ArenaHash.Proofs.Container.Fates
import ArenaHash.Proofs.Pool.Contents
import ArenaHash.Proofs.System.Redistribution

/-!
# Entries stay where they are

As long as no action removes it, an entry of a container in a reachable system is in the slot where
it was put. It is read there through the same handle, with the same stored hash, and it changes as
actions say that come to it, whatever is done to other entries, to the bucket array or to other
containers. Some of these actions may fail, and containers may change places. The same holds one
level below: a live slot of a pool holds what was last written into it.
-/

namespace ArenaHash

open Keyed (hasKey)

/-- Only entries with a key are addressed by the key. -/
theorem Keyed.hasKey_of_addressed {s : Table.Shape} {K V A S : Type} [BEq K] {H : Hashing S K}
    {c : Keyed s K V A S} {k : K} {q : Ref} (hq : q ∈ c.found H k ∨ q ∈ c.matching H k) :
    ∃ e, c.table.entryAt? q = some e ∧ hasKey k e := by
  have hmatch : c.table.matchesAt (H.key c.builder k) (hasKey k) q = true := by
    rcases hq with hq | hq
    · exact List.find?_some (Option.mem_toList.mp hq)
    · exact (List.mem_filter.mp hq).2
  unfold Table.matchesAt Table.isMatch at hmatch
  obtain ⟨n, hn, htest⟩ := (Option.any_eq_true _ _).mp hmatch
  rw [Bool.and_eq_true] at htest
  exact ⟨n.entry, by rw [Table.entryAt?, hn]; rfl, htest.2⟩

/-! ## Fates under actions -/

section Fates

variable {F : Profile} {A : Type} [Allocator A]

namespace Item

def fate (item : Item F) (c : F.Container A) : Ref → Option (F.Key × F.Value) :=
  match item.manner with
  | .overwrite => c.table.fateOf (c.found item.hashing item.key) fun e => some (e.1, item.value)
  | .keep | .beside => c.table.entryAt?

/-- Each item addresses what the ones before have left, up to the first that fails. -/
def fates (c : F.Container A) (heap : Heap A) : List (Item F) → Ref → Option (F.Key × F.Value)
  | [] => c.table.entryAt?
  | item :: items =>
    match Item.insert c item heap with
    | (.ok (), c', later) => fates c' later items
    | (.error _, _, _) => item.fate c

end Item

/-- The first node in the buckets from a position on. -/
def Table.front? {s : Table.Shape} {T : Type} (t : Table s T A) (position : Nat) : Option Ref :=
  (List.range' position (t.bucketCount - position)).findSome? t.buckets.head

def Action.fate (c : F.Container A) (heap : Heap A) :
    Action F A → Ref → Option (F.Key × F.Value)
  | map H call => call.fate H c
  | multimap H call => call.fate H c
  | extend items => Item.fates c heap items
  | pop position => c.table.fateOf (c.table.front? position).toList fun _ => none
  | setDelegate _ => c.table.entryAt?

theorem Table.Stores.fared_pop {s : Table.Shape} {T : Type} {t : Table s T A} {heap : Heap A}
    {rows : Rows T} {others : List (Loan A)} (h : t.Stores heap rows [] others) (position : Nat) :
    t.Fared (t.fateOf (t.front? position).toList fun _ => none)
      (t.pop position heap).2.2.1 := by
  have hfront : t.front? position = ((List.range' position (t.bucketCount - position)).findSome?
      fun i => (t.buckets.head i).map (i, ·)).map Prod.snd := by
    rw [List.map_findSome?]
    simp only [Option.map_map, Function.comp_def, Option.map_id']
    rfl
  unfold Table.pop
  simp only [hfront]
  cases hf : (List.range' position (t.bucketCount - position)).findSome? fun i =>
      (t.buckets.head i).map (i, ·) with
  | none => exact h.fared_missed _
  | some found =>
    obtain ⟨i, -, hi⟩ := List.exists_of_findSome?_eq_some hf
    obtain ⟨q, hhead, rfl⟩ := Option.map_eq_some_iff.mp hi
    obtain ⟨c, cs, hrow, rfl⟩ : ∃ c cs, rows i = c :: cs ∧ c.ref = q := by
      rw [h.head_eq] at hhead
      cases hr : rows i with
      | nil =>
        rw [hr] at hhead
        cases hhead
      | cons c cs =>
        rw [hr] at hhead
        exact ⟨c, cs, rfl, Option.some.inj hhead⟩
    have hrow' : rows i = [] ++ c :: cs := hrow
    exact h.fared_removed hrow' (h.unlink hrow') (bucketCount_unlink t i none c.ref heap)

variable {c : F.Container A} {heap : Heap A} {rows : Rows (F.Key × F.Value)}
  {others : List (Loan A)} (h : c.table.Stores heap rows [] others)
include h

theorem Item.isSome_fate (item : Item F) {q : Ref} (hq : q ∈ c.table.refs) :
    (item.fate c q).isSome := by
  have hentry := h.isSome_entryAt? hq
  unfold Item.fate
  cases item.manner with
  | overwrite => exact Table.isSome_fateOf hentry fun _ => rfl
  | keep | beside => exact hentry

theorem Item.insert_fared (item : Item F) :
    c.table.Fared (item.fate c) (Item.insert c item heap).2.1.table := by
  unfold Item.insert Item.fate
  cases item.manner with
  | overwrite => exact Map.perform_fared item.hashing h (.insert item.key item.value)
  | keep =>
    obtain ⟨result, t', heap', hadd, hi⟩ := Map.add_inserted item.hashing h item.key item.value
    rcases Keyed.found_cases item.hashing h item.key with ⟨hf, -⟩ | ⟨_, _, _, _, -, hf, -⟩
    · simp only [Map.insertIfNew, hf, hadd]
      exact (hi.fared h fun _ _ => .refl _).1
    · simp only [Map.insertIfNew, hf]
      exact h.fared_refl h rfl
  | beside => exact Multimap.perform_fared item.hashing h (.insert item.key item.value)

theorem insertMany_fared (items : List (Item F)) :
    c.table.Fared (Item.fates c heap items)
      (Keyed.insertMany Item.insert c items heap).2.1.table := by
  induction items generalizing c heap rows with
  | nil => exact h.fared_refl h rfl
  | cons item items ih =>
    have hfared := item.insert_fared h
    obtain ⟨rows', hs⟩ := item.insert_stores h
    unfold Keyed.insertMany Item.fates
    rcases hi : Item.insert c item heap with ⟨e | _, c', heap'⟩ <;> rw [hi] at hfared hs
    · exact hfared
    · exact hfared.trans (fun _ hq => item.isSome_fate h hq) (ih hs)

theorem Action.run_fared (action : Action F A) :
    c.table.Fared (action.fate c heap) (action.run c heap).1.table := by
  cases action with
  | map H call => exact Map.perform_fared H h call
  | multimap H call => exact Multimap.perform_fared H h call
  | extend items => exact insertMany_fared h items
  | pop position => exact h.fared_pop position
  | setDelegate delegate =>
    exact h.fared_refl (h.setDelegate delegate) (Table.bucketCount_setDelegate c.table delegate)

end Fates

namespace System

variable {F : Profile} {A : Type} [Allocator A]

/-- A step is about the container `C`: it is an action on it, an assignment to it, or its end. -/
inductive Concerns : System A → (Σ F : Profile, F.Container A) → System A → Prop where
  | act {pre post : List (Σ F : Profile, F.Container A)} {heap : Heap A} {lost : List (Loan A)}
    {F : Profile} {c : F.Container A} (action : Action F A) :
    Concerns ⟨pre ++ ⟨F, c⟩ :: post, heap, lost⟩ ⟨F, c⟩
      ⟨pre ++ ⟨F, (action.run c heap).1⟩ :: post, (action.run c heap).2,
        action.abandoned c ++ lost⟩
  | assign {pre post : List (Σ F : Profile, F.Container A)} {heap heap' : Heap A}
    {lost : List (Loan A)} {F : Profile} {target source copy : F.Container A}
    (hs : ⟨F, source⟩ ∈ pre ++ post) (h : source.copy heap = (.ok copy, heap')) :
    Concerns ⟨pre ++ ⟨F, target⟩ :: post, heap, lost⟩ ⟨F, target⟩
      ⟨pre ++ ⟨F, copy⟩ :: post, target.dispose heap', lost⟩
  | drop {pre post : List (Σ F : Profile, F.Container A)} {heap : Heap A} {lost : List (Loan A)}
    {F : Profile} {c : F.Container A} :
    Concerns ⟨pre ++ ⟨F, c⟩ :: post, heap, lost⟩ ⟨F, c⟩ ⟨pre ++ post, c.dispose heap, lost⟩

/-- A step leaves the containers as they are that it is not about. -/
theorem Step.spares {w w' : System A} (h : Step w w') {C : Σ F : Profile, F.Container A}
    (hC : C ∈ w.containers) : C ∈ w'.containers ∨ Concerns w C w' := by
  cases h with
  | build F builder delegate => exact .inl (List.mem_cons_of_mem _ hC)
  | collect | copy => exact .inl (List.mem_cons_of_mem _ hC)
  | collectFailed | copyFailed => exact .inl hC
  | act action =>
    rcases List.mem_cons.mp (List.perm_middle.mem_iff.mp hC) with rfl | hother
    · exact .inr (.act action)
    · exact .inl (List.perm_middle.mem_iff.mpr (List.mem_cons_of_mem _ hother))
  | copyFrom hs h =>
    rcases List.mem_cons.mp (List.perm_middle.mem_iff.mp hC) with rfl | hother
    · exact .inr (.assign hs h)
    · exact .inl (List.perm_middle.mem_iff.mpr (List.mem_cons_of_mem _ hother))
  | swap =>
    simp only [List.mem_append, List.mem_cons] at hC ⊢
    exact .inl (by tauto)
  | drop =>
    rcases List.mem_cons.mp (List.perm_middle.mem_iff.mp hC) with rfl | hother
    · exact .inr .drop
    · exact .inl hother

/-- `c` is a container of the reachable system `w`. The entry in its slot `q` was there, with the
stored hash `hash`, when it was first looked at, has not been removed since, and is `entry` after
all that was done to it. -/
inductive Resident (q : Ref) (hash : Option UInt64) :
    System A → F.Container A → F.Key × F.Value → Prop where
  | here {w : System A} {c : F.Container A} {entry : F.Key × F.Value} (h : Reachable w)
    (hc : ⟨F, c⟩ ∈ w.containers) (hq : q ∈ c.table.refs)
    (hcontent : c.table.contentAt q = some (entry, hash)) : Resident q hash w c entry
  | act {pre post : List (Σ F : Profile, F.Container A)} {heap : Heap A} {lost : List (Loan A)}
    {c : F.Container A} {entry entry' : F.Key × F.Value} (action : Action F A)
    (h : Resident q hash ⟨pre ++ ⟨F, c⟩ :: post, heap, lost⟩ c entry)
    (hstays : action.fate c heap q = some entry') :
    Resident q hash ⟨pre ++ ⟨F, (action.run c heap).1⟩ :: post, (action.run c heap).2,
      action.abandoned c ++ lost⟩ (action.run c heap).1 entry'
  /-- Something is done to others, or `c` changes places with one of them. -/
  | others {w w' : System A} {c : F.Container A} {entry : F.Key × F.Value}
    (h : Resident q hash w c entry) (hs : Step w w') (hothers : ¬ Concerns w ⟨F, c⟩ w') :
    Resident q hash w' c entry

theorem Reachable.fared {w : System A} (h : Reachable w) :
    ∀ C ∈ w.containers, ∀ action : Action C.1 A,
      C.2.table.Fared (action.fate C.2 w.heap) (action.run C.2 w.heap).1.table := by
  rintro ⟨F, c⟩ hC action
  obtain ⟨Cs, heap, lost⟩ := w
  obtain ⟨pre, post, rfl⟩ := List.append_of_mem hC
  obtain ⟨rows, hs⟩ := h.sound.focus
  exact action.run_fared hs

namespace Resident

variable {q : Ref} {hash : Option UInt64} {w : System A} {c : F.Container A}
  {entry : F.Key × F.Value}

theorem mem (h : Resident q hash w c entry) : ⟨F, c⟩ ∈ w.containers := by
  induction h with
  | here _ hc _ _ => exact hc
  | act => simp
  | others _ hs hothers ih => exact (hs.spares ih).resolve_right hothers

theorem reachable (h : Resident q hash w c entry) : Reachable w := by
  induction h with
  | here h => exact h
  | act action _ _ ih => exact ih.step (.act action)
  | others _ hs _ ih => exact ih.step hs

theorem stays (h : Resident q hash w c entry) :
    q ∈ c.table.refs ∧ c.table.contentAt q = some (entry, hash) := by
  induction h with
  | here _ _ hq hcontent => exact ⟨hq, hcontent⟩
  | act action h hstays ih =>
    obtain ⟨hq, hcontent⟩ := ih
    obtain ⟨hq', hcontent'⟩ := (h.reachable.fared _ h.mem action).stays q hq _ hstays
    exact ⟨hq', by rw [hcontent', hcontent]; rfl⟩
  | others _ _ _ ih => exact ih

end Resident

/-- An action does to each entry what its fate is, a call by key comes to entries with that key
only, and what is done to one container leaves the others as they are. Over any run, an entry that
has not been removed is in its slot, as the actions left it that came to it. And a live slot of a
pool holds what was last written into it. -/
theorem entries_undisturbed :
    (∀ w : System A, Reachable w → ∀ C ∈ w.containers,
      (∀ action : Action C.1 A,
        C.2.table.Fared (action.fate C.2 w.heap) (action.run C.2 w.heap).1.table) ∧
      (∀ (H : Hashing C.1.Builder C.1.Key) (k : C.1.Key),
        ∀ q, q ∈ C.2.found H k ∨ q ∈ C.2.matching H k →
          ∃ e, C.2.table.entryAt? q = some e ∧ hasKey k e) ∧
      ∀ w', Step w w' → C ∈ w'.containers ∨ Concerns w C w') ∧
    (∀ (F : Profile) (q : Ref) (hash : Option UInt64) (w : System A) (c : F.Container A)
      (entry : F.Key × F.Value), Resident q hash w c entry →
        ⟨F, c⟩ ∈ w.containers ∧ q ∈ c.table.refs ∧ c.table.contentAt q = some (entry, hash)) ∧
    ∀ (s : Pool.Shape) (α : Type) (p : Pool s α A) (r : StackBump A) (last : Ref → Option α)
      (heap : Heap A), Pool.Written p r last heap →
        ∀ q ∈ r.live, ∀ v, last q = some v → p.read q = some v := by
  refine ⟨fun w h C hC => ⟨h.fared C hC, fun H k q hq => ?_, fun w' hs => hs.spares hC⟩, ?_, ?_⟩
  · exact Keyed.hasKey_of_addressed hq
  · intro F q hash w c entry h
    exact ⟨h.mem, h.stays⟩
  · intro s α p r last heap h
    exact h.read

/-- What becomes of a container with six entries under three hashes, and of the heap. -/
def settled : List (Action oneSlot Lender) → oneSlot.Container Lender × Heap Lender
  | [] => (Action.extend ([1, 6, 1, 2, 6, 1].map fun k : Nat =>
      ⟨.beside, .ofFun fun _ k => .ofNat k, k, (0 : Nat)⟩)).run (.new () .plain)
        { serves := fun _ _ _ => true }
  | action :: actions => action.run (settled actions).1 (settled actions).2

/-- Two more entries, one of them beside others. -/
def addTwo : Action oneSlot Lender :=
  .extend ([1, 8].map fun k : Nat => ⟨.beside, .ofFun fun _ k => .ofNat k, k, (0 : Nat)⟩)

def setOne : Action oneSlot Lender :=
  .map (.ofFun fun _ k => .ofNat k) (.insert (1 : Nat) (5 : Nat))

def pairOf (key value : Nat) : oneSlot.Key × oneSlot.Value := (key, value)

theorem resident_settled :
    Resident (.inline 0) (some 1)
      ⟨[] ++ [⟨oneSlot, (settled [setOne, addTwo]).1⟩], (settled [setOne, addTwo]).2, []⟩
      (settled [setOne, addTwo]).1 (pairOf 1 5) := by
  have hfilled : Resident (.inline 0) (some 1)
      ⟨[] ++ [⟨oneSlot, (settled []).1⟩], (settled []).2, []⟩ (settled []).1 (pairOf 1 0) :=
    .here reachable_crowded List.mem_cons_self (by decide +kernel) (by rfl)
  have hgrown : Resident (.inline 0) (some 1)
      ⟨[] ++ [⟨oneSlot, (settled [addTwo]).1⟩], (settled [addTwo]).2, []⟩ (settled [addTwo]).1
      (pairOf 1 0) :=
    hfilled.act addTwo (by rfl)
  exact hgrown.act setOne (by rfl)

/-- The first entry of a container outlives the growth of its bucket array and gets a new value. The
first slot of a pool outlives the return of the one next to it. -/
theorem undisturbed_settled :
    let p : Pool ⟨2, true, ⟨8, 8⟩⟩ Nat Lender := .new .plain
    let heap : Heap Lender := { serves := fun _ _ _ => true }
    let p := ((p.alloc heap).2.1.alloc heap).2.1
    let p := ((p.write (.inline 0) 5).write (.inline 1) 6).free (.inline 1) heap
    (settled []).1.table.bucketCount = 7 ∧ (settled [addTwo]).1.table.bucketCount = 17 ∧
      (settled []).1.table.contentAt (.inline 0) = some (pairOf 1 0, some 1) ∧
      (settled [setOne, addTwo]).1.table.contentAt (.inline 0) = some (pairOf 1 5, some 1) ∧
      p.1.read (.inline 1) = none ∧ p.1.read (.inline 0) = some 5 := by
  have hpool := ((Pool.Written.new (s := ⟨2, true, ⟨8, 8⟩⟩) (α := Nat) Lender.plain
    (Heap.lends_nil fun _ _ _ => true)).alloc).alloc
  have hwritten := (hpool.write (q := .inline 0) (by decide) 5).write (q := .inline 1) (by decide) 6
  exact ⟨by decide +kernel, by decide +kernel, by rfl,
    (entries_undisturbed.2.1 _ _ _ _ _ _ resident_settled).2.2, by rfl,
    entries_undisturbed.2.2 _ _ _ _ _ _ (hwritten.free (q := .inline 1) (by decide)) (.inline 0)
      (by decide) 5 (by rfl)⟩

end System

end ArenaHash
