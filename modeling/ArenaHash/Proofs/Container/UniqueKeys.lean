import ArenaHash.Proofs.Container.Lists
import Mathlib.Data.List.Perm.Basic

/-!
# Lists with unequal keys

Entries with unequal keys may be listed in any order: what is found under a key, erased or changed
does not depend on it.
-/

namespace ArenaHash

open Keyed (hasKey hasKey_cases)

def UniqueKeys {K V : Type} [BEq K] (l : List (K × V)) : Prop :=
  l.Pairwise fun a b => (a.1 == b.1) = false

section

variable {K V : Type} [BEq K] {l l' left right : List (K × V)} {e : K × V} {k : K}

theorem UniqueKeys.sublist (h : UniqueKeys l) (hs : (l'.map Prod.fst).Sublist (l.map Prod.fst)) :
    UniqueKeys l' := by
  have hkeys : (l.map Prod.fst).Pairwise fun a b => (a == b) = false := List.pairwise_map.mpr h
  exact List.pairwise_map.mp (hkeys.sublist hs)

variable [EquivBEq K]

theorem UniqueKeys.perm (h : UniqueKeys l) (hp : l.Perm l') : UniqueKeys l' :=
  (hp.pairwise_iff fun hab => by rwa [BEq.comm]).mp h

theorem uniqueKeys_middle : UniqueKeys (left ++ e :: right) ↔
    (∀ d ∈ left ++ right, (e.1 == d.1) = false) ∧ UniqueKeys (left ++ right) := by
  rw [UniqueKeys, List.pairwise_middle fun hab => by rwa [BEq.comm], List.pairwise_cons]
  rfl

/-- Of two entries with a key neither can be left out. -/
theorem UniqueKeys.eq_of_hasKey (h : UniqueKeys l) {a b : K × V} (ha : a ∈ l) (hb : b ∈ l)
    (hka : hasKey k a) (hkb : hasKey k b) : a = b := by
  obtain ⟨left, right, rfl⟩ := List.append_of_mem ha
  apply Classical.byContradiction
  intro hne
  have hb' : b ∈ left ++ right := by
    rcases List.mem_append.mp hb with hb | hb
    · exact List.mem_append_left _ hb
    · exact List.mem_append_right _ ((List.mem_cons.mp hb).resolve_left (Ne.symm hne))
  have hdiffer := (uniqueKeys_middle.mp h).1 b hb'
  rw [show (a.1 == b.1) = true from BEq.trans hka (BEq.symm hkb)] at hdiffer
  cases hdiffer

theorem UniqueKeys.find?_perm (h : UniqueKeys l) (hp : l.Perm l') (k : K) :
    l.find? (hasKey k) = l'.find? (hasKey k) := by
  rcases hasKey_cases k l' with hnone | ⟨left, e, right, rfl, hk, hleft⟩
  · have hl : l.find? (hasKey k) = none :=
      List.find?_eq_none.mpr fun e he => by simpa using hnone e (hp.mem_iff.mp he)
    rw [hl, eq_comm]
    exact List.find?_eq_none.mpr fun e he => by simpa using hnone e he
  · have hfirst : (left ++ e :: right).find? (hasKey k) = some e :=
      List.find?_eq_some_iff_append.mpr ⟨hk, left, right, rfl, hleft⟩
    rw [hfirst]
    cases hf : l.find? (hasKey k) with
    | none =>
      have he := List.find?_eq_none.mp hf e (hp.mem_iff.mpr (by simp))
      exact absurd hk he
    | some d =>
      have hd : d ∈ left ++ e :: right := hp.mem_iff.mp (List.mem_of_find?_eq_some hf)
      rw [(h.perm hp).eq_of_hasKey hd (by simp) (List.find?_some hf) hk]

theorem UniqueKeys.eraseP_perm (h : UniqueKeys l) (hp : l.Perm l') (k : K) :
    (l.eraseP (hasKey k)).Perm (l'.eraseP (hasKey k)) := by
  refine hp.eraseP _ (h.imp ?_)
  intro a b hab hka hkb
  rw [show _ = true from BEq.trans hka (BEq.symm hkb)] at hab
  cases hab

theorem UniqueKeys.changeFirst_perm (h : UniqueKeys l) (hp : l.Perm l') (k : K)
    (g : K × V → K × V) : (changeFirst (hasKey k) g l).Perm (changeFirst (hasKey k) g l') := by
  rcases hasKey_cases k l with hnone | ⟨left, e, right, rfl, hk, hleft⟩
  · rw [changeFirst_of_none hnone,
      changeFirst_of_none fun e he => hnone e (hp.mem_iff.mpr he)]
    exact hp
  · rcases hasKey_cases k l' with hnone | ⟨left', e', right', rfl, hk', hleft'⟩
    · have he := hnone e (hp.mem_iff.mp (by simp))
      simp [hk] at he
    · obtain rfl : e = e' :=
        h.eq_of_hasKey (by simp) (hp.mem_iff.mpr (by simp)) hk hk'
      rw [changeFirst_of_first hk hleft, changeFirst_of_first hk' hleft']
      have hrest : (left ++ right).Perm (left' ++ right') :=
        (List.perm_middle.symm.trans (hp.trans List.perm_middle)).cons_inv
      exact List.perm_middle.trans ((hrest.cons _).trans List.perm_middle.symm)

/-- The key of an entry may be exchanged for an equal one. -/
theorem UniqueKeys.changeFirst (h : UniqueKeys l) (k : K) {g : K × V → K × V}
    (hg : ∀ e, hasKey k e → (g e).1 == k) : UniqueKeys (changeFirst (hasKey k) g l) := by
  rcases hasKey_cases k l with hnone | ⟨left, e, right, rfl, hk, hleft⟩
  · rwa [changeFirst_of_none hnone]
  · rw [changeFirst_of_first hk hleft]
    obtain ⟨hdiffer, hrest⟩ := uniqueKeys_middle.mp h
    refine uniqueKeys_middle.mpr ⟨?_, hrest⟩
    intro d hd
    rw [BEq.congr_left (BEq.trans (hg e hk) (BEq.symm hk))]
    exact hdiffer d hd

theorem UniqueKeys.cons (h : UniqueKeys l) (hnone : l.find? (hasKey k) = none) (v : V) :
    UniqueKeys ((k, v) :: l) := by
  refine List.pairwise_cons.mpr ⟨?_, h⟩
  intro e he
  rw [BEq.comm]
  simpa [hasKey] using List.find?_eq_none.mp hnone e he

end

/-! ## Calls on such lists -/

namespace Keyed

variable {K V ρ : Type} [BEq K] {l l' : List (K × V)}

theorem keys_changeFirst (k : K) (g : V → V) : ∀ l : List (K × V),
    (changeFirst (hasKey k) (fun e => (e.1, g e.2)) l).map Prod.fst = l.map Prod.fst
  | [] => rfl
  | e :: l => by
    unfold changeFirst
    split
    · rfl
    · rw [List.map_cons, List.map_cons, keys_changeFirst k g l]

omit [BEq K] in
theorem keys_keepList {σ : Type} (keep : σ → K → V → Bool × V × σ) (state : σ)
    (l : List (K × V)) : ((keepList keep state l).2.map Prod.fst).Sublist (l.map Prod.fst) := by
  induction l generalizing state with
  | nil => exact List.Sublist.refl _
  | cons e l ih =>
    have hrest := ih (keep state e.1 e.2).2.2
    simp only [keepList, List.map_cons]
    by_cases hk : (keep state e.1 e.2).1
    · simp only [hk, if_true, List.map_cons]
      exact hrest.cons_cons e.1
    · simp only [hk, if_false, Bool.false_eq_true]
      exact hrest.cons e.1

omit [BEq K] in
theorem keys_changeList : ∀ (changes : List (V → V)) (l : List (K × V)),
    (changeList changes l).2.map Prod.fst = l.map Prod.fst
  | [], [] => rfl
  | [], _ :: _ => rfl
  | _ :: _, [] => rfl
  | g :: gs, (k, v) :: l => by
    simp only [changeList, List.map_cons, keys_changeList gs l]

/-- No call adds a key. -/
theorem Call.keys_onList (call : Call K V ρ) (l : List (K × V)) :
    ((call.onList l).2.map Prod.fst).Sublist (l.map Prod.fst) := by
  cases call with
  | modify k g =>
    rw [onList, keys_changeFirst]
  | erase k => exact List.eraseP_sublist.map _
  | filter keep state => exact keys_keepList keep state l
  | change changes =>
    rw [onList, keys_changeList]
  | clear | renew | abandon => exact List.nil_sublist _
  | get | getEntry | contains | setMaxLoad => exact List.Sublist.refl _

/-- Whether what a call does depends on the order of the entries. -/
def Call.visits : Call K V ρ → Bool
  | .filter _ _ => true
  | .change _ => true
  | _ => false

theorem Call.onList_perm [EquivBEq K] (call : Call K V ρ) (hv : call.visits = false)
    (h : UniqueKeys l) (hp : l.Perm l') :
    (call.onList l).1 = (call.onList l').1 ∧ (call.onList l).2.Perm (call.onList l').2 := by
  cases call with
  | get k | getEntry k => exact ⟨by simp only [onList, h.find?_perm hp], hp⟩
  | contains k => exact ⟨hp.any_eq, hp⟩
  | modify k g => exact ⟨by simp only [onList, h.find?_perm hp], h.changeFirst_perm hp k _⟩
  | erase k => exact ⟨h.find?_perm hp k, h.eraseP_perm hp k⟩
  | filter | change => cases hv
  | clear | renew | abandon => exact ⟨rfl, .refl _⟩
  | setMaxLoad => exact ⟨rfl, hp⟩

end Keyed

end ArenaHash
