import ArenaHash.Proofs.Container.Equality
import ArenaHash.Proofs.Container.Filling

/-!
# Building in any order

Growth depends on how many entries there are and not on which, and an entry's bucket on its key. So
two containers that are built from the same items in different orders have equally many buckets with
equally many entries in each, and compare equal, while a walk may list the entries in different
orders.
-/

namespace ArenaHash

open Keyed (hasKey)

/-! ## Lists with the same entries -/

section

variable {K V : Type} [BEq K] [EquivBEq K] {l l' : List (K × V)}

theorem UniqueKeys.nodup (h : UniqueKeys l) : l.Nodup := by
  refine h.imp fun {a b} hab heq => ?_
  rw [heq, BEq.rfl] at hab
  cases hab

/-- An entry is there if and only if a lookup of its key finds it. -/
theorem UniqueKeys.mem_iff (h : UniqueKeys l) (e : K × V) :
    e ∈ l ↔ l.find? (hasKey e.1) = some e := by
  refine ⟨fun he => ?_, List.mem_of_find?_eq_some⟩
  cases hfind : l.find? (hasKey e.1) with
  | none => exact absurd BEq.rfl (List.find?_eq_none.mp hfind e he)
  | some d =>
    have hd : hasKey e.1 d = true := List.find?_some hfind
    rw [h.eq_of_hasKey (List.mem_of_find?_eq_some hfind) he hd BEq.rfl]

/-- Lists with unequal keys have the same entries if lookups cannot tell them apart. -/
theorem UniqueKeys.perm_of_find? (h : UniqueKeys l) (h' : UniqueKeys l')
    (hfind : ∀ k, l.find? (hasKey k) = l'.find? (hasKey k)) : l.Perm l' := by
  refine (List.perm_ext_iff_of_nodup h.nodup h'.nodup).mpr fun e => ?_
  rw [h.mem_iff, h'.mem_iff, hfind]

theorem sameBindings_of_perm [BEq V] (h : UniqueKeys l) (hp : l.Perm l')
    (hrefl : ∀ e ∈ l, e.2 == e.2) : SameBindings l l' where
  keys _ := hp.any_eq
  values e he d hd hk := by
    rw [h.eq_of_hasKey he (hp.mem_iff.mpr hd) BEq.rfl hk]
    exact hrefl d (hp.mem_iff.mpr hd)

/-- Items with unequal keys are all there. -/
theorem Reflects.perm {ref items : List (K × V)} (h : Reflects ref items) (href : UniqueKeys ref)
    (hitems : UniqueKeys items) : ref.Perm items := by
  refine href.perm_of_find? hitems fun k => ?_
  have hstored := h.stored k
  have hvalue := h.value k
  rw [← hitems.find?_perm items.reverse_perm.symm k] at hvalue
  cases hr : ref.find? (hasKey k) <;> cases hi : items.find? (hasKey k) <;>
    simp only [hr, hi, Option.map_some, Option.map_none, reduceCtorEq, Option.some.injEq]
      at hstored hvalue ⊢
  exact Prod.ext hstored hvalue

end

namespace Keyed

variable {s : Table.Shape} {K V A S ι : Type}

/-- Two containers that compare equal and have equally many buckets and entries, in all and in each
bucket. -/
structure Matches (eq : Keyed s K V A S → Keyed s K V A S → Bool) (c d : Keyed s K V A S) :
    Prop where
  equal : eq c d = true
  equal_back : eq d c = true
  size : c.size = d.size
  bucketCount : c.table.bucketCount = d.table.bucketCount
  chainLength : ∀ i, c.table.chainLength i = d.table.chainLength i

/-- Built from the two lists, they match. -/
def BuildMatching [Allocator A] (insert : Insertion ι (Keyed s K V A S) A)
    (eq : Keyed s K V A S → Keyed s K V A S → Bool) (builder : S) (delegate delegate' : A)
    (heap heap' : Heap A) (items items' : List ι) : Prop :=
  ∃ c later d later', ofList insert builder delegate items heap = (.ok c, later) ∧
    ofList insert builder delegate' items' heap' = (.ok d, later') ∧ Matches eq c d

variable [BEq K] [Allocator A] {f : S → K → UInt64} {c d : Keyed s K V A S}
  {heap heap' later later' : Heap A} {builder : S} {delegate delegate' : A}

omit [BEq K] in
/-- While nothing is refused and there is overflow memory, building succeeds. -/
theorem exists_built (ho : s.overflow = true) {insert : Insertion ι (Keyed s K V A S) A}
    {slots : List ι → Nat} {P : Keyed s K V A S → Heap A → List ι → Prop}
    (hfills : ∀ {c heap before} (x : ι), P c heap before →
      c.Fills insert (fun items => s.shortage (slots items)) P before x heap)
    (hP : P (.new builder delegate) heap []) (items : List ι) :
    ∃ c later, insertMany insert (.new builder delegate) items heap = (.ok (), c, later) ∧
      ofList insert builder delegate items heap = (.ok c, later) ∧ P c later items := by
  have hnone : ∀ n, s.shortage n = none := fun n => by simp [Table.Shape.shortage, ho]
  obtain ⟨done, rest, c, later, h⟩ := exists_filled hfills items hP (hnone _)
  rcases h.stop with ⟨rfl, hall⟩ | ⟨x, tail, e, -, hshort, -⟩
  · have hitems : items = done := by rw [h.split, List.append_nil]
    refine ⟨c, later, hall, by rw [ofList, hall], hitems ▸ h.holds⟩
  · rw [hnone] at hshort
    cases hshort

variable [EquivBEq K]

theorem Ongoing.matches {eq : Keyed s K V A S → Keyed s K V A S → Bool} (hf : Hashing.Faithful f)
    (hc : Ongoing f (.new builder delegate) c later)
    (hd : Ongoing f (.new builder delegate') d later') (hperm : c.toList.Perm d.toList)
    (hcd : eq c d = true) (hdc : eq d c = true) : Matches eq c d := by
  obtain ⟨rows, others, hp⟩ := hc.reached.placed hf
  obtain ⟨rows', others', hp'⟩ := hd.reached.placed hf
  have hsize : c.size = d.size := by rw [hp.size_eq, hp'.size_eq, hperm.length_eq]
  have hcount : c.table.bucketCount = d.table.bucketCount :=
    congrArg Table.Scale.bucketCount (hc.scale_eq hd rfl hsize)
  have hbuilder : c.builder = d.builder := hc.builder.trans hd.builder.symm
  have hbucket : ∀ k, c.bucketOf (.ofFun f) k = d.bucketOf (.ofFun f) k := fun k => by
    simp only [bucketOf, Table.bucketOf, Hashing.key_ofFun, hbuilder, hcount]
  refine ⟨hcd, hdc, hsize, hcount, fun i => ?_⟩
  rw [hp.inPlace.chainLength, hp'.inPlace.chainLength, hperm.countP_eq]
  simp only [hbucket]

end Keyed

section

variable {s : Table.Shape} {K V A S : Type} [BEq K]

theorem KeySet.uniqueKeys_entries {keys : List K} (h : keys.Pairwise fun a b => (a == b) = false) :
    UniqueKeys (entries keys) := List.pairwise_map.mpr h

variable [EquivBEq K] [Allocator A] {f : S → K → UInt64}

/-- Items with unequal keys are all there. -/
theorem Map.Holding.perm {c₀ c : Map s K V A S} {heap : Heap A} {items : List (K × V)}
    (h : Holding f c₀ c heap items) (hitems : UniqueKeys items) : c.toList.Perm items := by
  obtain ⟨-, ref, hm, hr⟩ := h
  exact hm.perm.trans (hr.perm hm.unique hitems)

/-! ## Building once -/

section

variable (hf : Hashing.Faithful f) (ho : s.overflow = true) (builder : S) (delegate : A)
  {heap : Heap A} {others : List (Loan A)} (hl : heap.Lends others) (hg : heap.Generous)
include hf ho hl hg

theorem Map.exists_built (items : List (K × V)) :
    ∃ c later, Keyed.ofList (insertion (s := s) (.ofFun f)) builder delegate items heap =
        (.ok c, later) ∧
      Reached f c later ∧ Holding f (.new builder delegate) c later items := by
  have hnew : Reached f (.new builder delegate : Map s K V A S) heap := .new builder delegate hl
  obtain ⟨c, later, hrun, hc, hholding⟩ := Keyed.exists_built ho (counted hf _).fills
    (hnew.holding hf fun _ => hg) items
  have hreached := hnew.insertMany (fun x h => h.insertion x) items
  rw [hrun] at hreached
  exact ⟨c, later, hc, hreached, hholding⟩

theorem KeySet.exists_built (items : List K) :
    ∃ c later, Keyed.ofList (insertion (s := s) (.ofFun f)) builder delegate items heap =
        (.ok c, later) ∧
      Map.Reached f c later ∧ Holding f (.new builder delegate) c later items := by
  have hnew : Map.Reached f (.new builder delegate : KeySet s K A S) heap :=
    .new builder delegate hl
  obtain ⟨c, later, hrun, hc, hholding⟩ := Keyed.exists_built ho (counted hf _).fills
    (hnew.holding_keys hf fun _ => hg) items
  have hstep : ∀ {m : KeySet s K A S} {heap : Heap A} (k : K), Map.Reached f m heap →
      Map.Reached f (insertion (.ofFun f) m k heap).2.1 (insertion (.ofFun f) m k heap).2.2 :=
    fun k h => h.keep k ()
  have hreached := hnew.insertMany hstep items
  rw [hrun] at hreached
  exact ⟨c, later, hc, hreached, hholding⟩

theorem Multimap.exists_built (items : List (K × V)) :
    ∃ c later R, Keyed.ofList (insertion (s := s) (.ofFun f)) builder delegate items heap =
        (.ok c, later) ∧
      Run f c later R ∧ Holding f (.new builder delegate) c later items := by
  have hnew : Keyed.Reached f (.new builder delegate : Multimap s K V A S) heap :=
    .new builder delegate hl
  obtain ⟨c, later, hrun, hc, hholding⟩ := Keyed.exists_built ho (counted hf _).fills
    (hnew.holding hf fun _ => hg) items
  obtain ⟨_, _, -, hcrun, -⟩ := (Run.start builder delegate hl).insertMany hf items
  rw [hrun] at hcrun
  exact ⟨c, later, _, hc, hcrun, hholding⟩

theorem KeyBag.exists_built (items : List K) :
    ∃ c later R, Keyed.ofList (insertion (s := s) (.ofFun f)) builder delegate items heap =
        (.ok c, later) ∧
      Run f c later R ∧ Holding f (.new builder delegate) c later items := by
  have hnew : Keyed.Reached f (.new builder delegate : KeyBag s K A S) heap :=
    .new builder delegate hl
  obtain ⟨c, later, hrun, hc, hholding⟩ := Keyed.exists_built ho (counted hf _).fills
    (hnew.holding_keys hf fun _ => hg) items
  obtain ⟨_, _, -, hcrun, -⟩ := (Run.start builder delegate hl).insertMany hf items
  rw [hrun] at hcrun
  exact ⟨c, later, _, hc, hcrun, hholding⟩

end

/-! ## Building twice -/

/-- With overflow memory and allocators that refuse nothing, building succeeds and the result does
not depend on the order of the items, as far as sizes, buckets and equality tell. Values of maps
have to equal themselves, and no two items of a map or a key set may have equal keys; otherwise the
last value and the first key depend on the order. -/
theorem building_ignores_order (hf : Hashing.Faithful f) (ho : s.overflow = true) (builder : S)
    (delegate delegate' : A) {heap heap' : Heap A} {others others' : List (Loan A)}
    (hl : heap.Lends others) (hl' : heap'.Lends others') (hg : heap.Generous)
    (hg' : heap'.Generous) :
    (∀ [BEq V] (items items' : List (K × V)), items.Perm items' → UniqueKeys items →
      (∀ e ∈ items, e.2 == e.2) →
        Keyed.BuildMatching (Map.insertion (s := s) (.ofFun f)) (Map.beq (.ofFun f)) builder
          delegate delegate' heap heap' items items') ∧
      (∀ items items' : List K, items.Perm items' →
        (items.Pairwise fun a b => (a == b) = false) →
          Keyed.BuildMatching (KeySet.insertion (s := s) (.ofFun f)) (KeySet.beq (.ofFun f)) builder
            delegate delegate' heap heap' items items') ∧
      (∀ [BEq V] (items items' : List (K × V)), items.Perm items' →
        Keyed.BuildMatching (Multimap.insertion (s := s) (.ofFun f)) (Multimap.beq (.ofFun f))
          builder delegate delegate' heap heap' items items') ∧
      ∀ items items' : List K, items.Perm items' →
        Keyed.BuildMatching (KeyBag.insertion (s := s) (.ofFun f)) (KeyBag.beq (.ofFun f)) builder
          delegate delegate' heap heap' items items' := by
  refine ⟨?_, ?_, ?_, ?_⟩
  · intro _ items items' hp hitems hrefl
    obtain ⟨c, later, hc, hr, hh⟩ := Map.exists_built hf ho builder delegate hl hg items
    obtain ⟨d, later', hd, hr', hh'⟩ := Map.exists_built hf ho builder delegate' hl' hg' items'
    have hci : c.toList.Perm items := hh.perm hitems
    have hcd : c.toList.Perm d.toList := (hci.trans hp).trans (hh'.perm (hitems.perm hp)).symm
    have hreflc : ∀ e ∈ c.toList, e.2 == e.2 := fun e he => hrefl e (hci.mem_iff.mp he)
    have hrefld : ∀ e ∈ d.toList, e.2 == e.2 := fun e he => hreflc e (hcd.mem_iff.mpr he)
    refine ⟨c, later, d, later', hc, hd, hh.1.matches hf hh'.1 hcd ?_ ?_⟩
    · exact (Map.beq_iff hf hr hr').mpr (sameBindings_of_perm (hr.models hf).unique hcd hreflc)
    · exact (Map.beq_iff hf hr' hr).mpr
        (sameBindings_of_perm (hr'.models hf).unique hcd.symm hrefld)
  · intro items items' hp hitems
    obtain ⟨c, later, hc, hr, hh⟩ := KeySet.exists_built hf ho builder delegate hl hg items
    obtain ⟨d, later', hd, hr', hh'⟩ := KeySet.exists_built hf ho builder delegate' hl' hg' items'
    have hunique := KeySet.uniqueKeys_entries hitems
    have hentries : (KeySet.entries items).Perm (KeySet.entries items') := hp.map _
    have hcd : c.toList.Perm d.toList := ((Map.Holding.perm hh hunique).trans hentries).trans
      (Map.Holding.perm hh' (hunique.perm hentries)).symm
    refine ⟨c, later, d, later', hc, hd, hh.1.matches hf hh'.1 hcd ?_ ?_⟩
    · exact (KeySet.beq_iff hf hr hr').mpr fun _ => hcd.any_eq
    · exact (KeySet.beq_iff hf hr' hr).mpr fun _ => hcd.symm.any_eq
  · intro _ items items' hp
    obtain ⟨c, later, R, hc, hr, hh⟩ := Multimap.exists_built hf ho builder delegate hl hg items
    obtain ⟨d, later', R', hd, hr', hh'⟩ :=
      Multimap.exists_built hf ho builder delegate' hl' hg' items'
    have hcd : c.toList.Perm d.toList := (hh.2.trans hp).trans hh'.2.symm
    refine ⟨c, later, d, later', hc, hd, hh.1.matches hf hh'.1 hcd ?_ ?_⟩
    · exact (Multimap.beq_iff hf hr hr').mpr ⟨hcd.length_eq, fun e _ => hcd.count_eq e⟩
    · exact (Multimap.beq_iff hf hr' hr).mpr ⟨hcd.symm.length_eq, fun e _ => hcd.symm.count_eq e⟩
  · intro items items' hp
    obtain ⟨c, later, R, hc, hr, hh⟩ := KeyBag.exists_built hf ho builder delegate hl hg items
    obtain ⟨d, later', R', hd, hr', hh'⟩ :=
      KeyBag.exists_built hf ho builder delegate' hl' hg' items'
    have hcd : c.toList.Perm d.toList := (hh.2.trans (hp.map _)).trans hh'.2.symm
    refine ⟨c, later, d, later', hc, hd, hh.1.matches hf hh'.1 hcd ?_ ?_⟩
    · exact (KeyBag.beq_iff hf hr hr').mpr fun _ => hcd.countP_eq _
    · exact (KeyBag.beq_iff hf hr' hr).mpr fun _ => hcd.symm.countP_eq _

end

/-- The later of two keys in one bucket is listed first, but both maps match. -/
theorem lax_maps_match :
    let heap : Heap Lender := { serves := fun _ _ _ => true }
    let insert : Keyed.Insertion _ (Map .lax Nat Char Lender Unit) Lender :=
      Map.insertion (.ofFun hashByParity)
    (Keyed.insertMany insert (.new () .plain) [(1, 'a'), (3, 'b')] heap).2.1.toList =
        [(3, 'b'), (1, 'a')] ∧
      (Keyed.insertMany insert (.new () .default) [(3, 'b'), (1, 'a')] heap).2.1.toList =
        [(1, 'a'), (3, 'b')] ∧
      Keyed.BuildMatching insert (Map.beq (.ofFun hashByParity)) () .plain .default heap heap
        [(1, 'a'), (3, 'b')] [(3, 'b'), (1, 'a')] := by
  have hl := Heap.lends_nil fun (_ : List (Event Lender)) _ _ => true
  have h := (building_ignores_order (s := .lax) (V := Char) faithful_hashByParity rfl () .plain
    .default hl hl (fun _ _ _ => rfl) fun _ _ _ => rfl).1
  exact ⟨by decide +kernel, by decide +kernel,
    h _ _ (List.Perm.swap _ _ _) (by simp [UniqueKeys]) (by decide)⟩

end ArenaHash
