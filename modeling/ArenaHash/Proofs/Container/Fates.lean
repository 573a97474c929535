import ArenaHash.Proofs.Container.Storage
import ArenaHash.Proofs.Table.Fates

/-!
# What calls do to single entries

Every call has a fate for each entry (`Call.fate`), read off the container that it is performed on.
A call under a key addresses the entry that a lookup of the key stops at, or if it removes all,
those in the key's chain that match; a filter and a walk that changes values come to all entries,
and what empties the container spares none. Other entries are as they were, and insertions that find
no entry to address change none, however much they make the bucket array grow and whether they fail
or not. None of this depends on the hashes.
-/

namespace ArenaHash

namespace Keyed

variable {s : Table.Shape} {K V A S : Type}

section

variable [BEq K] (H : Hashing S K) (c : Keyed s K V A S)

/-- The slot that a lookup of a key stops at. -/
def found (k : K) : List Ref := (c.find? H k).toList

/-- The slots of all entries that match in the chain of a key. -/
def matching (k : K) : List Ref :=
  (c.table.chain (c.bucketOf H k)).filter (c.table.matchesAt (H.key c.builder k) (hasKey k))

def Call.fate {ρ : Type} : Call K V ρ → Ref → Option (K × V)
  | .get _ | .getEntry _ | .contains _ | .setMaxLoad _ => c.table.entryAt?
  | .modify k f => c.table.fateOf (c.found H k) fun e => some (e.1, f e.2)
  | .erase k => c.table.fateOf (c.found H k) fun _ => none
  | .filter keep state => c.table.fatesAlong (answers (keepEntry keep) state c.toList).1
  | .change changes => c.table.fatesAlong ((changeList changes c.toList).2.map some)
  | .clear | .renew | .abandon => fun _ => none

end

variable [BEq K] [Allocator A] {c : Keyed s K V A S} {heap : Heap A} {rows : Rows (K × V)}
  {others : List (Loan A)} (H : Hashing S K) (h : c.table.Stores heap rows [] others)
include h

/-- A lookup that finds nothing, or the cell that it stops at. -/
theorem found_cases (k : K) :
    c.find? H k = none ∧ c.locate? H k = none ∧ c.found H k = [] ∨
      ∃ i pre cell post, rows i = pre ++ cell :: post ∧ c.find? H k = some cell.ref ∧
        c.locate? H k = some (cell.ref, cell.entry) ∧ c.found H k = [cell.ref] := by
  rcases lookup_cases H h k with ⟨-, hf, hl⟩ | ⟨pre, cell, post, hrow, -, -, hf, hl⟩
  · exact .inl ⟨hf, hl, by rw [found, hf]; rfl⟩
  · exact .inr ⟨_, pre, cell, post, hrow, hf, hl, by rw [found, hf]; rfl⟩

theorem perform_fared {ρ : Type} (call : Call K V ρ) :
    c.table.Fared (call.fate H c) (perform H c heap call).2.1.table := by
  have hsame := h.fared_refl h rfl
  cases call with
  | get k | getEntry k | contains k => exact hsame
  | modify k f =>
    unfold perform modify Call.fate
    rcases found_cases H h k with ⟨hf, -, hk⟩ | ⟨i, pre, cell, post, hrow, hf, -, hk⟩
    · simp only [hf, hk]
      exact h.fared_missed _
    · simp only [hf, hk, modifyAt_eq h (show cell ∈ rows i by simp [hrow])]
      exact h.fared_edited hrow rfl (h.setEntry hrow _) rfl
  | erase k =>
    unfold Call.fate
    rcases lookup_cases H h k with ⟨hnone, hf, -⟩ | ⟨pre, cell, post, hrow, hpre, hc, hf, -⟩
    · simp only [perform, erase, h.erase_of_none hnone, found, hf, Option.toList_none]
      exact h.fared_missed _
    · obtain ⟨t', heap', hrun, hs, hcount, -⟩ := h.erase_of_first hrow hpre hc
      simp only [perform, erase, hrun, found, hf, Option.toList_some]
      exact h.fared_removed hrow hs hcount
  | filter keep state => exact (h.filteredAlong (keepEntry keep) state).fared
  | change changes =>
    obtain ⟨c', rows', after', hrun, -, hcount, hs, hall, hentries, -, hplace⟩ :=
      changeAlong_stores changes h (List.nil_append _).symm h.ahead
    rw [List.nil_append] at hall
    rw [← hall] at hentries hplace
    simp only [perform, cursor, hrun, Call.fate, toList, h.toList_eq, ← hentries]
    exact h.fared_changed hs hcount hplace
  | clear =>
    obtain ⟨t', heap', hrun, hs, -⟩ := h.clear
    simp only [perform, clear, hrun]
    exact hs.fared_emptied
  | renew => exact h.renew.fared_emptied
  | abandon => exact h.abandon.fared_emptied
  | setMaxLoad maxLoad =>
    exact h.fared_refl (h.setMaxLoad maxLoad) (Table.bucketCount_setMaxLoad c.table maxLoad)

end Keyed

namespace Map

variable {s : Table.Shape} {K V A S : Type} [BEq K]

def Call.fate (H : Hashing S K) (m : Map s K V A S) {ρ : Type} : Call K V ρ → Ref → Option (K × V)
  | .insert k v => m.table.fateOf (m.found H k) fun e => some (e.1, v)
  | .insertIfNew k _ f => m.table.fateOf (m.found H k) fun e => some (e.1, f e.2)
  | .replace k v => m.table.fateOf (m.found H k) fun _ => some (k, v)
  | .count _ => m.table.entryAt?
  | .common call => call.fate H m

variable [Allocator A] {m : Map s K V A S} {heap : Heap A} {rows : Rows (K × V)}
  {others : List (Loan A)} (H : Hashing S K) (h : m.table.Stores heap rows [] others)
include h

theorem perform_fared {ρ : Type} (call : Call K V ρ) :
    m.table.Fared (call.fate H m) (perform H m heap call).2.1.table := by
  cases call with
  | insert k v =>
    obtain ⟨result, t', heap', hadd, hi⟩ := add_inserted H h k v
    unfold perform insert Call.fate
    rcases Keyed.found_cases H h k with ⟨-, hl, hk⟩ | ⟨i, pre, cell, post, hrow, -, hl, hk⟩
    · simp only [hl, hk, hadd]
      exact (hi.fared h fun _ _ => .refl _).1.congr fun _ _ => Table.fateOf_of_notMem nofun
    · simp only [hl, hk]
      exact h.fared_edited hrow rfl (h.setEntry hrow _) rfl
  | insertIfNew k v f =>
    obtain ⟨result, t', heap', hadd, hi⟩ := add_inserted H h k v
    obtain ⟨hfared, hnew⟩ := hi.fared h fun _ _ => .refl _
    unfold perform insertIfNew Call.fate
    rcases Keyed.found_cases H h k with ⟨hf, -, hk⟩ | ⟨i, pre, cell, post, hrow, hf, -, hk⟩
    · simp only [hf, hk, hadd]
      cases result with
      | error e => exact hfared.congr fun _ _ => Table.fateOf_of_notMem nofun
      | ok q =>
        obtain ⟨rows', i, hs, c, hc, rfl⟩ :=
          hi.mem_row (fun q cs => ⟨_, List.mem_cons_self, rfl⟩) rfl
        obtain ⟨pre, post, hrow⟩ := List.append_of_mem hc
        simp only [Except.map, Keyed.modifyAt_eq (c := { m with table := t' }) hs hc]
        -- The slot that is changed then held no entry before.
        have hedited :
            t'.Fared (t'.fateOf [c.ref] fun e => some (e.1, f e.2)) (t'.setEntry c.ref _) :=
          hs.fared_edited hrow rfl (hs.setEntry hrow _) rfl
        have hothers := h.fared_others hfared
          (fun r hr => by simpa using ne_of_mem_of_not_mem hr (hnew _ rfl)) hedited
        exact hothers.congr fun _ _ => Table.fateOf_of_notMem nofun
    · simp only [hf, hk, Keyed.modifyAt_eq h (show cell ∈ rows i by simp [hrow])]
      exact h.fared_edited hrow rfl (h.setEntry hrow _) rfl
  | replace k v =>
    obtain ⟨result, t', heap', hadd, hi⟩ := add_inserted H h k v
    unfold perform replace Call.fate
    rcases Keyed.found_cases H h k with ⟨-, hl, hk⟩ | ⟨i, pre, cell, post, hrow, -, hl, hk⟩
    · simp only [hl, hk, hadd]
      exact (hi.fared h fun _ _ => .refl _).1.congr fun _ _ => Table.fateOf_of_notMem nofun
    · simp only [hl, hk]
      exact h.fared_edited hrow rfl (h.setEntry hrow _) rfl
  | count k => exact h.fared_refl h rfl
  | common call => exact Keyed.perform_fared H h call

end Map

namespace Multimap

variable {s : Table.Shape} {K V A S : Type} [BEq K]

def Call.fate (H : Hashing S K) (m : Multimap s K V A S) {ρ : Type} :
    Call K V ρ → Ref → Option (K × V)
  | .insert _ _ | .count _ | .equalRun _ => m.table.entryAt?
  | .eraseAll k => m.table.fateOf (m.matching H k) fun _ => none
  | .common call => call.fate H m

variable [Allocator A] {m : Multimap s K V A S} {heap : Heap A} {rows : Rows (K × V)}
  {others : List (Loan A)} (H : Hashing S K) (h : m.table.Stores heap rows [] others)
include h

theorem perform_fared {ρ : Type} (call : Call K V ρ) :
    m.table.Fared (call.fate H m) (perform H m heap call).2.1.table := by
  cases call with
  | insert k v =>
    exact ((h.insertBeside _ _ _ _).fared h fun _ _ => besideFirst_perm _ _ _).1
  | count k | equalRun k => exact h.fared_refl h rfl
  | eraseAll k => exact h.fared_eraseAll _ _
  | common call => exact Keyed.perform_fared H h call

end Multimap

end ArenaHash
