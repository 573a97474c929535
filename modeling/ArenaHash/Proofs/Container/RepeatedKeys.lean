import ArenaHash.Proofs.Container.Lists

/-!
# Lists with repeated keys

`Together p l`: the elements that pass the test are next to each other. It survives what is done to
the chains of a multimap: elements go, whole lists without matches come before or after, and a new
element is put right after one that the test cannot tell from it. `push` is what the last of these
does to the matches alone.
-/

namespace ArenaHash

open Keyed (hasKey hasKey_cases)

section

variable {α β : Type} {p q : α → Bool} {l l' : List α} {x y : α}

def Together (p : α → Bool) (l : List α) : Prop :=
  ∃ left run right, l = left ++ run ++ right ∧ (∀ x ∈ left, !p x) ∧ (∀ x ∈ run, p x) ∧
    ∀ x ∈ right, !p x

namespace Together

theorem of_none (h : ∀ x ∈ l, !p x) : Together p l := ⟨l, [], [], by simp, h, nofun, nofun⟩

theorem sublist (h : Together p l) (hs : l'.Sublist l) : Together p l' := by
  obtain ⟨left, run, right, rfl, hleft, hrun, hright⟩ := h
  obtain ⟨front, right', rfl, hfront, hr⟩ := List.sublist_append_iff.mp hs
  obtain ⟨left', run', rfl, hl, hm⟩ := List.sublist_append_iff.mp hfront
  exact ⟨left', run', right', rfl, fun x hx => hleft x (hl.mem hx),
    fun x hx => hrun x (hm.mem hx), fun x hx => hright x (hr.mem hx)⟩

theorem around (h : Together p l) {before after : List α} (hb : ∀ x ∈ before, !p x)
    (ha : ∀ x ∈ after, !p x) : Together p (before ++ l ++ after) := by
  obtain ⟨left, run, right, rfl, hleft, hrun, hright⟩ := h
  refine ⟨before ++ left, run, right ++ after, by simp, ?_, hrun, ?_⟩
  · exact fun x hx => (List.mem_append.mp hx).elim (hb x) (hleft x)
  · exact fun x hx => (List.mem_append.mp hx).elim (hright x) (ha x)

end Together

/-- An element in front is together with the rest if it does not pass, or is the only one that
passes, or the next one passes too. -/
theorem together_cons :
    Together p (x :: l) ↔ Together p l ∧ (p x → (∀ y ∈ l, !p y) ∨ ∃ y ∈ l.head?, p y) := by
  constructor
  · rintro ⟨left, run, right, heq, hleft, hrun, hright⟩
    cases left with
    | cons z left =>
      obtain ⟨rfl, rfl⟩ := List.cons.inj heq
      have hx : p x = false := by simpa using hleft x List.mem_cons_self
      exact ⟨⟨left, run, right, rfl, fun y hy => hleft y (List.mem_cons_of_mem x hy), hrun,
        hright⟩, fun hp => by simp [hx] at hp⟩
    | nil =>
      cases run with
      | nil =>
        subst heq
        exact ⟨.of_none fun y hy => hright y (List.mem_cons_of_mem x hy),
          fun _ => .inl fun y hy => hright y (List.mem_cons_of_mem x hy)⟩
      | cons z run =>
        obtain ⟨rfl, rfl⟩ := List.cons.inj heq
        have hrest : ∀ y ∈ run, p y := fun y hy => hrun y (List.mem_cons_of_mem x hy)
        refine ⟨⟨[], run, right, rfl, nofun, hrest, hright⟩, fun _ => ?_⟩
        cases run with
        | nil => exact .inl hright
        | cons y run => exact .inr ⟨y, rfl, hrest y List.mem_cons_self⟩
  · rintro ⟨⟨left, run, right, rfl, hleft, hrun, hright⟩, hx⟩
    by_cases hp : p x
    · rcases hx hp with hnone | ⟨y, hy, hpy⟩
      · exact ⟨[], [x], _, rfl, nofun, by simpa using hp, hnone⟩
      · -- The next element passes, so there is nothing before the run.
        cases left with
        | nil => exact ⟨[], x :: run, right, rfl, nofun, by simpa [hp] using hrun, hright⟩
        | cons z left =>
          obtain rfl : z = y := by simpa using hy
          have hz := hleft z List.mem_cons_self
          simp [hpy] at hz
    · refine ⟨x :: left, run, right, rfl, ?_, hrun, hright⟩
      simpa [hp] using hleft

namespace Together

/-- A new element right after one that the test cannot tell from it. -/
theorem beside (hxy : p x = p y) {pre post : List α} (h : Together p (pre ++ y :: post)) :
    Together p (pre ++ y :: x :: post) := by
  induction pre with
  | nil =>
    obtain ⟨hpost, hy⟩ := together_cons.mp h
    exact together_cons.mpr ⟨together_cons.mpr ⟨hpost, by rwa [hxy]⟩,
      fun hp => .inr ⟨x, rfl, hxy.trans hp⟩⟩
  | cons z pre ih =>
    rw [List.cons_append] at h ⊢
    obtain ⟨hrest, hz⟩ := together_cons.mp h
    refine together_cons.mpr ⟨ih hrest, ?_⟩
    intro hp
    rcases hz hp with hnone | hhead
    · refine .inl ?_
      intro w hw
      simp only [List.mem_append, List.mem_cons] at hw hnone
      rcases hw with hw | rfl | rfl | hw
      · exact hnone w (.inl hw)
      · exact hnone w (.inr (.inl rfl))
      · rw [hxy]
        exact hnone y (.inr (.inl rfl))
      · exact hnone w (.inr (.inr hw))
    · cases pre <;> exact .inr hhead

/-- What passes is one stretch of the list. -/
theorem stretch (h : Together p l) :
    ∃ left right, l = left ++ l.filter p ++ right ∧ ∀ x ∈ left ++ right, !p x := by
  obtain ⟨left, run, right, rfl, hleft, hrun, hright⟩ := h
  have hl : left.filter p = [] := by simpa [List.filter_eq_nil_iff] using hleft
  have hr : right.filter p = [] := by simpa [List.filter_eq_nil_iff] using hright
  refine ⟨left, right, ?_, fun x hx => (List.mem_append.mp hx).elim (hleft x) (hright x)⟩
  simp only [List.filter_append, hl, hr, List.filter_eq_self.mpr hrun, List.nil_append,
    List.append_nil]

/-- The first run of matches has them all. -/
theorem takeWhile_dropWhile (h : Together p l) : (l.dropWhile (!p ·)).takeWhile p = l.filter p := by
  obtain ⟨left, right, heq, hnone⟩ := h.stretch
  have hleft : ∀ x ∈ left, !p x := fun x hx => hnone x (List.mem_append_left _ hx)
  have hright : ∀ x ∈ right, !p x := fun x hx => hnone x (List.mem_append_right _ hx)
  have hrun : ∀ x ∈ l.filter p, p x := fun x hx => List.of_mem_filter hx
  generalize l.filter p = run at heq hrun ⊢
  rw [heq, List.append_assoc, List.dropWhile_append_of_pos hleft]
  cases run with
  | nil =>
    rw [List.nil_append, List.dropWhile_eq_nil_iff.mpr hright]
    rfl
  | cons y run =>
    have hy : p y := hrun y List.mem_cons_self
    have htake : right.takeWhile p = [] := by
      cases right with
      | nil => rfl
      | cons z right =>
        have hz := hright z List.mem_cons_self
        exact List.takeWhile_cons_of_neg (by simpa using hz)
    rw [List.cons_append, List.dropWhile_cons_of_neg (by simp [hy]), ← List.cons_append,
      List.takeWhile_append_of_pos hrun, htake, List.append_nil]

end Together

theorem together_map {g : β → α} {l : List β} :
    Together p (l.map g) ↔ Together (fun b => p (g b)) l := by
  constructor
  · rintro ⟨left, run, right, heq, hleft, hrun, hright⟩
    obtain ⟨front, right, rfl, hfront, rfl⟩ := List.map_eq_append_iff.mp heq
    obtain ⟨left, run, rfl, rfl, rfl⟩ := List.map_eq_append_iff.mp hfront
    exact ⟨left, run, right, rfl, fun b hb => hleft _ (List.mem_map_of_mem hb),
      fun b hb => hrun _ (List.mem_map_of_mem hb), fun b hb => hright _ (List.mem_map_of_mem hb)⟩
  · rintro ⟨left, run, right, rfl, hleft, hrun, hright⟩
    exact ⟨left.map g, run.map g, right.map g, by simp, by simpa using hleft,
      by simpa using hrun, by simpa using hright⟩

/-- Puts an element right after the first one. -/
def push (x : α) : List α → List α
  | [] => [x]
  | y :: l => y :: x :: l

theorem mem_besideFirst (h : y ∈ besideFirst p x l) : y = x ∨ y ∈ l :=
  List.mem_cons.mp ((besideFirst_perm p x l).mem_iff.mp h)

theorem besideFirst_congr (h : ∀ y ∈ l, p y = q y) (x : α) :
    besideFirst p x l = besideFirst q x l := by
  have hdrop : l.dropWhile (!p ·) = l.dropWhile (!q ·) :=
    dropWhile_congr fun y hy => by simp [h y hy]
  have htake : l.takeWhile (!p ·) = l.takeWhile (!q ·) :=
    takeWhile_congr fun y hy => by simp [h y hy]
  rw [besideFirst, besideFirst, hdrop, htake]

theorem map_push (g : α → β) (x : α) : ∀ l : List α, (push x l).map g = push (g x) (l.map g)
  | [] => rfl
  | _ :: _ => rfl

/-- Among the matches the new one comes second. -/
theorem filter_besideFirst (hx : p x) (l : List α) :
    (besideFirst p x l).filter p = push x (l.filter p) := by
  rcases besideFirst_cases p x l with ⟨hnone, heq⟩ | ⟨pre, y, post, rfl, hpre, hy, heq⟩
  · have hl : l.filter p = [] := by simpa [List.filter_eq_nil_iff] using hnone
    rw [heq, List.filter_cons_of_pos hx, hl]
    rfl
  · have hl : pre.filter p = [] := by simpa [List.filter_eq_nil_iff] using hpre
    rw [heq]
    simp [hl, hx, hy, push]

theorem filter_besideFirst_of_not (hx : !q x) (l : List α) :
    (besideFirst p x l).filter q = l.filter q := by
  have hx : q x = false := by simpa using hx
  rcases besideFirst_cases p x l with ⟨-, heq⟩ | ⟨pre, y, post, rfl, -, -, heq⟩
  · simp [heq, hx]
  · rw [heq]
    simp [List.filter_cons, hx]

/-- A new element beside the first one that passes `p` keeps those together that pass `q`, if it is
like the element it is put beside. -/
theorem Together.besideFirst (h : Together q l) (hnone : (∀ y ∈ l, !p y) → q x → ∀ y ∈ l, !q y)
    (hlike : ∀ y ∈ l, p y → q x = q y) : Together q (besideFirst p x l) := by
  rcases besideFirst_cases p x l with ⟨hn, heq⟩ | ⟨pre, y, post, rfl, -, hy, heq⟩
  · rw [heq]
    exact together_cons.mpr ⟨h, fun hq => .inl (hnone hn hq)⟩
  · rw [heq]
    exact h.beside (hlike y (by simp) hy)

end

/-! ## Runs -/

/-- The entries of each key, in order. -/
abbrev Runs (K V : Type) := K → List (K × V)

namespace Runs

variable {K V ρ : Type} [BEq K]

/-- The runs of a list. -/
def ofList (l : List (K × V)) : Runs K V := fun k => l.filter (hasKey k)

/-- Changes the run of one key. -/
def change (R : Runs K V) (k : K) (g : List (K × V) → List (K × V)) : Runs K V := fun k' =>
  if k' == k then g (R k') else R k'

/-- Keeps of each run what `keep` accepts, with the values it leaves. -/
def retain (keep : K → V → Bool × V) (R : Runs K V) : Runs K V := fun k =>
  (R k).filterMap fun e => if (keep e.1 e.2).1 then some (e.1, (keep e.1 e.2).2) else none

/-- What a common call answers and does; `order` is the order in which a visitor comes by. -/
def common (order : List (K × V)) (R : Runs K V) : Keyed.Call K V ρ → ρ × Runs K V
  | .get k => ((R k).head?.map Prod.snd, R)
  | .getEntry k => ((R k).head?, R)
  | .contains k => (!(R k).isEmpty, R)
  | .modify k g => ((R k).head?.map Prod.snd, R.change k (List.modifyHead fun e => (e.1, g e.2)))
  | .erase k => ((R k).head?, R.change k List.tail)
  | .filter keep state =>
    let (state, kept) := keepList keep state order
    (state, ofList kept)
  | .change changes =>
    let (entries, changed) := changeList changes order
    (entries, ofList changed)
  | .clear => ((), fun _ => [])
  | .renew => ((), fun _ => [])
  | .abandon => ((), fun _ => [])
  | .setMaxLoad _ => ((), R)

theorem hasKey_congr [EquivBEq K] {k k' : K} (h : k' == k) :
    (hasKey k' : K × V → Bool) = hasKey k :=
  funext fun _ => BEq.congr_right h

section

variable [EquivBEq K] {left right : List (K × V)} {e : K × V} {k : K}
  (he : hasKey k e) (hleft : ∀ d ∈ left, !hasKey k d)
include he hleft

/-- The first entry with a key is the first of the key's run, and in no other run. -/
theorem ofList_first : ofList (left ++ e :: right) =
    (ofList (left ++ right)).change k (e :: ·) := by
  have hl : left.filter (hasKey k) = [] := by simpa [List.filter_eq_nil_iff] using hleft
  funext k'
  unfold change
  split
  · next hk => simp [ofList, hasKey_congr hk, hl, he]
  · next hk =>
    have hne : hasKey k' e = false := by
      rw [← Bool.not_eq_true]
      exact fun hk' => hk (BEq.trans (BEq.symm hk') he)
    simp [ofList, hne]

theorem ofList_erase : ofList (left ++ right) =
    (ofList (left ++ e :: right)).change k List.tail := by
  rw [ofList_first he hleft]
  funext k'
  unfold change
  split <;> rfl

theorem ofList_modify (g : K × V → K × V) (hg : hasKey k (g e)) :
    ofList (left ++ g e :: right) =
      (ofList (left ++ e :: right)).change k (List.modifyHead g) := by
  rw [ofList_first he hleft, ofList_first hg hleft]
  funext k'
  unfold change
  split <;> rfl

end

/-- A run that is empty stays empty if nothing is to be done about empty runs. -/
theorem change_of_none [EquivBEq K] {l : List (K × V)} {k : K} (h : ∀ e ∈ l, !hasKey k e)
    {g : List (K × V) → List (K × V)} (hg : g [] = []) : (ofList l).change k g = ofList l := by
  have hl : l.filter (hasKey k) = [] := by simpa [List.filter_eq_nil_iff] using h
  funext k'
  unfold change
  split
  · next hk => simp [ofList, hasKey_congr hk, hl, hg]
  · rfl

theorem ofList_eraseAll [EquivBEq K] (l : List (K × V)) (k : K) :
    ofList (l.filter (!hasKey k ·)) = (ofList l).change k fun _ => [] := by
  funext k'
  unfold change ofList
  rw [List.filter_filter]
  split
  · next hk => simp [hasKey_congr hk]
  · next hk =>
    apply List.filter_congr
    intro e _
    cases he : hasKey k' e with
    | false => rfl
    | true =>
      have hne : hasKey k e = false := by
        rw [← Bool.not_eq_true]
        exact fun hk' => hk (BEq.trans (BEq.symm he) hk')
      rw [hne]
      rfl

/-- A filter without a state treats each run on its own. -/
theorem ofList_retain (keep : K → V → Bool × V) (l : List (K × V)) :
    ofList (keepList (fun _ k v => ((keep k v).1, (keep k v).2, ())) () l).2 =
      (ofList l).retain keep := by
  rw [keepList_retain]
  funext k
  unfold ofList retain
  rw [List.filter_filterMap, List.filterMap_filter]
  apply List.filterMap_congr
  intro e _
  cases hk : (keep e.1 e.2).1 with
  | false => simp
  | true =>
    simp only [if_true, Option.filter_some]
    rfl

/-- Calls on a list are calls on its runs. -/
theorem common_ofList [EquivBEq K] (call : Keyed.Call K V ρ) (l : List (K × V)) :
    common l (ofList l) call = ((call.onList l).1, ofList (call.onList l).2) := by
  have hhead : ∀ k, (ofList l k).head? = l.find? (hasKey k) := fun k => List.head?_filter
  cases call with
  | get k | getEntry k => simp only [common, hhead, Keyed.Call.onList]
  | contains k =>
    have hany : (!(l.filter (hasKey k)).isEmpty) = l.any (hasKey k) := by
      rcases hasKey_cases k l with hnone | ⟨left, e, right, rfl, he, hleft⟩
      · have hl : l.filter (hasKey k) = [] := by simpa [List.filter_eq_nil_iff] using hnone
        rw [hl, eq_comm]
        exact List.any_eq_false.mpr fun e he => by simpa using hnone e he
      · simp [he]
    simp only [common, Keyed.Call.onList, ofList, hany]
  | modify k g =>
    simp only [common, hhead, Keyed.Call.onList]
    rcases hasKey_cases k l with hnone | ⟨left, e, right, rfl, he, hleft⟩
    · rw [change_of_none hnone rfl, changeFirst_of_none hnone]
    · have hmodify : ofList (left ++ (e.1, g e.2) :: right) = _ :=
        ofList_modify he hleft (fun e => (e.1, g e.2)) he
      rw [changeFirst_of_first he hleft, hmodify]
  | erase k =>
    simp only [common, hhead, Keyed.Call.onList]
    rcases hasKey_cases k l with hnone | ⟨left, e, right, rfl, he, hleft⟩
    · have hnot : ∀ e ∈ l, ¬hasKey k e = true := fun e he => by simpa using hnone e he
      rw [change_of_none hnone rfl, List.eraseP_of_forall_not hnot]
    · have hnot : ∀ e ∈ left, ¬hasKey k e = true := fun e he => by simpa using hleft e he
      rw [List.eraseP_append_right _ hnot, List.eraseP_cons_of_pos he,
        ← ofList_erase he hleft]
  | filter | change | setMaxLoad => rfl
  | clear | renew | abandon => rfl

end Runs

end ArenaHash
