import ArenaHash.Proofs.Caching.Requests
import ArenaHash.Proofs.Container.Plans

/-!
# Containers without hashes

A container has stored the hash of each key under its present builder, if any (`Placed`), so no
lookup and no growth tells it from `c.bare`. Every call answers alike on both and leaves containers
and heaps that correspond again.
-/

namespace ArenaHash

theorem Matches.imp {s : Table.Shape} {ρ τ X Y A : Type} {R : ρ → ρ → Prop} {Q : τ → τ → Prop}
    {bare : X → Y} {out : ρ × X × Heap A} {out' : ρ × Y × Heap A} (h : Matches s R bare out out')
    {g : ρ → τ} (hg : ∀ a b, R a b → Q (g a) (g b)) :
    Matches s Q bare (g out.1, out.2) (g out'.1, out'.2) := ⟨hg _ _ h.answer, h.follows⟩

namespace Keyed

variable {s : Table.Shape} {K V A S : Type}

def bare (c : Keyed s K V A S) : Keyed s.bare K V A S := ⟨c.table.bare, c.builder⟩

theorem bare_new (builder : S) (delegate : A) :
    (new builder delegate : Keyed s K V A S).bare = new builder delegate := by
  unfold new bare
  rw [Table.bare_new]

section Reading

variable (c : Keyed s K V A S)

theorem toList_bare : c.bare.toList = c.toList := c.table.toList_bare

theorem next?_bare (cursor : Cursor) : c.bare.next? cursor = c.next? cursor := by
  have hentry : c.table.bare.entryAt? = c.table.entryAt? := funext c.table.entryAt?_bare
  unfold next? bare
  simp only [Table.step?_bare, hentry]

theorem walk_bare (limit : Nat) (cursor : Cursor) :
    c.bare.walk limit cursor = c.walk limit cursor := by
  induction limit generalizing cursor with
  | zero => rfl
  | succ limit ih => simp only [walk, next?_bare, ih]

theorem setEntry_bare (q : Ref) (entry : K × V) :
    ({ c.bare with table := c.bare.table.setEntry q entry } : Keyed s.bare K V A S) =
      bare { c with table := c.table.setEntry q entry } :=
  congrArg (fun table => (⟨table, c.builder⟩ : Keyed s.bare K V A S))
    (c.table.setEntry_bare q entry)

theorem modifyAt_bare (q : Ref) (g : V → V) :
    c.bare.modifyAt q g = ((c.modifyAt q g).1, (c.modifyAt q g).2.bare) := by
  unfold modifyAt
  simp only [bare, Table.entryAt?_bare, Table.setEntry_bare]
  split <;> rfl

theorem changeNext?_bare (cursor : Cursor) (g : V → V) :
    c.bare.changeNext? cursor g =
      (c.changeNext? cursor g).map fun (entry, c, cursor) => (entry, c.bare, cursor) := by
  unfold changeNext? bare
  simp only [Table.step?_bare, Table.entryAt?_bare, Table.setEntry_bare]
  rcases cursor.step? c.table with _ | ⟨q, next⟩
  · rfl
  · rw [Option.bind_some, Option.bind_some]
    cases c.table.entryAt? q <;> rfl

theorem changeAlong_bare (changes : List (V → V)) (c : Keyed s K V A S) (cursor : Cursor) :
    changeAlong changes c.bare cursor =
      ((changeAlong changes c cursor).1, (changeAlong changes c cursor).2.bare) := by
  induction changes generalizing c cursor with
  | nil => rfl
  | cons g changes ih =>
    unfold changeAlong
    rw [changeNext?_bare]
    rcases c.changeNext? cursor g with _ | ⟨entry, c', next⟩
    · rfl
    · simp only [Option.map_some, ih]

theorem setMaxLoad_bare (maxLoad : Binary32) :
    c.bare.setMaxLoad maxLoad = (c.setMaxLoad maxLoad).bare :=
  congrArg (fun table => (⟨table, c.builder⟩ : Keyed s.bare K V A S))
    (c.table.setMaxLoad_bare maxLoad)

theorem setDelegate_bare [Allocator A] (delegate : A) : c.bare.setDelegate delegate =
    ((c.setDelegate delegate).1, (c.setDelegate delegate).2.bare) :=
  congrArg (fun out => (out.1, (⟨out.2, c.builder⟩ : Keyed s.bare K V A S)))
    (c.table.setDelegate_bare delegate)

end Reading

/-! ## Lookups -/

section Lookup

variable [Allocator A] {c : Keyed s K V A S} {heap : Heap A} {rows : Rows (K × V)}
  {others : List (Loan A)} {f : S → K → UInt64} (h : c.Placed f heap rows others)
include h

theorem Placed.knows : c.table.Knows (c.hasher (.ofFun f)) c.table.refs := by
  intro q hq
  rw [h.stores.refs_eq] at hq
  obtain ⟨cell, hc, rfl⟩ := List.mem_map.mp hq
  obtain ⟨i, -, hi⟩ := rows.mem_all.mp hc
  obtain ⟨next, hn⟩ := (h.stores.chains i).carries hi
  have hnode : c.table.node? cell.ref = some ⟨cell.entry, next, cell.hash⟩ := hn
  have hhash : cell.hashBy (c.hasher (.ofFun f)) = f c.builder cell.entry.1 :=
    h.placed.hashBy_eq (fun _ _ => rfl) hi
  rw [h.stores.hashAt_eq (List.mem_append_left _ hc), hhash, Table.hashAt, Table.node?_bare, hnode]
  rfl

variable [BEq K] (hf : Hashing.Faithful f) (k : K)
include hf

theorem Placed.sees : c.table.Sees (f c.builder k) (hasKey k) := by
  intro i q hq
  rw [h.stores.chain_eq] at hq
  obtain ⟨cell, hc, rfl⟩ := List.mem_map.mp hq
  obtain ⟨next, hn⟩ := (h.stores.chains i).carries hc
  have hnode : c.table.node? cell.ref = some ⟨cell.entry, next, cell.hash⟩ := hn
  have hmatch : c.table.matchesAt (f c.builder k) (hasKey k) cell.ref = hasKey k cell.entry :=
    (h.stores.matches_row _ _ i cell hc).trans (h.isFor_eq hf hc)
  rw [hmatch, Table.matchesAt, Table.node?_bare, hnode]
  rfl

/-- Growth leaves every hash as it was stored. -/
theorem Placed.sees_room (room : Table s (K × V) A) (later : Heap A)
    (hr : c.table.makeRoom (c.hasher (.ofFun f)) heap = (.ok (), room, later)) :
    room.Sees (f c.builder k) (hasKey k) := by
  obtain ⟨rows', hs, hre, -⟩ := h.stores.makeRoom_ok hr
  have hp : Placed f { c with table := room } later rows' others :=
    ⟨hs, h.placed.regrouped (fun _ _ => rfl) hre⟩
  exact hp.sees hf k

theorem Placed.find?_bare : c.bare.find? (.ofFun f) k = c.find? (.ofFun f) k :=
  (h.sees hf k).find?_bare

theorem Placed.locate?_bare : c.bare.locate? (.ofFun f) k = c.locate? (.ofFun f) k := by
  have hentry : c.bare.table.entryAt? = c.table.entryAt? := funext c.table.entryAt?_bare
  rw [locate?, locate?, h.find?_bare hf, hentry]

theorem Placed.getPair?_bare : c.bare.getPair? (.ofFun f) k = c.getPair? (.ofFun f) k := by
  rw [getPair?, getPair?, h.locate?_bare hf]

theorem Placed.get?_bare : c.bare.get? (.ofFun f) k = c.get? (.ofFun f) k :=
  congrArg (Option.map Prod.snd) (h.getPair?_bare hf k)

theorem Placed.contains_bare : c.bare.contains (.ofFun f) k = c.contains (.ofFun f) k := by
  rw [contains, contains, h.find?_bare hf]

theorem Placed.count_bare : c.bare.count (.ofFun f) k = c.count (.ofFun f) k :=
  (h.sees hf k).count_bare

theorem Placed.equalRun_bare : c.bare.equalRun (.ofFun f) k = c.equalRun (.ofFun f) k := by
  have hentry : c.table.bare.entryAt? = c.table.entryAt? := funext c.table.entryAt?_bare
  have hrun : c.table.bare.equalRun (f c.builder k) (hasKey k) =
      c.table.equalRun (f c.builder k) (hasKey k) := (h.sees hf k).equalRun_bare
  unfold equalRun bare
  rw [hentry]
  exact congrArg _ hrun

theorem Placed.modify_bare (g : V → V) : c.bare.modify (.ofFun f) k g =
    ((c.modify (.ofFun f) k g).1, (c.modify (.ofFun f) k g).2.bare) := by
  unfold modify
  rw [h.find?_bare hf]
  split
  · exact modifyAt_bare c _ g
  · rfl

end Lookup

/-! ## Comparisons -/

section Comparison

variable [Allocator A] [BEq K] {f : S → K → UInt64} {heap heap' : Heap A}
  {others others' : List (Loan A)} (hf : Hashing.Faithful f)
include hf

theorem mapBeq_bare [BEq V] (a : Keyed s K V A S) {b : Keyed s K V A S} {rows : Rows (K × V)}
    (hb : b.Placed f heap rows others) :
    Map.beq (.ofFun f) a.bare b.bare = Map.beq (.ofFun f) a b := by
  unfold Map.beq
  simp only [toList_bare, hb.get?_bare hf]
  rfl

theorem multimapBeq_bare [BEq V] {a b : Keyed s K V A S} {rows rows' : Rows (K × V)}
    (ha : a.Placed f heap rows others) (hb : b.Placed f heap' rows' others') :
    Multimap.beq (.ofFun f) a.bare b.bare = Multimap.beq (.ofFun f) a b := by
  unfold Multimap.beq Multimap.getAll
  simp only [toList_bare, ha.equalRun_bare hf, hb.equalRun_bare hf]
  rfl

theorem keySetBeq_bare (a : Keyed s K Unit A S) {b : Keyed s K Unit A S} {rows : Rows (K × Unit)}
    (hb : b.Placed f heap rows others) :
    KeySet.beq (.ofFun f) a.bare b.bare = KeySet.beq (.ofFun f) a b := by
  unfold KeySet.beq
  simp only [toList_bare, hb.contains_bare hf]
  rfl

theorem keyBagBeq_bare {a b : Keyed s K Unit A S} {rows rows' : Rows (K × Unit)}
    (ha : a.Placed f heap rows others) (hb : b.Placed f heap' rows' others') :
    KeyBag.beq (.ofFun f) a.bare b.bare = KeyBag.beq (.ofFun f) a b := by
  unfold KeyBag.beq
  simp only [toList_bare, ha.count_bare hf, hb.count_bare hf]
  rfl

end Comparison

/-! ## Insertions only add events -/

section Before

variable [Allocator A] [BEq K] (H : Hashing S K) (c : Keyed s K V A S) (k : K) (v : V)
  (heap : Heap A)

omit [BEq K] in
theorem before_add : heap.Before (Map.add H c k v heap).2.2 :=
  (c.table.before_makeRoom _ heap).trans (c.table.before_insertFront _ _ _ heap)

theorem before_insert : heap.Before (Map.insert H c k v heap).2.2 := by
  unfold Map.insert
  split
  · exact .refl heap
  · exact before_add H c k v heap

theorem before_insertIfNew : heap.Before (Map.insertIfNew H c k v heap).2.2 := by
  unfold Map.insertIfNew
  split
  · exact .refl heap
  · exact before_add H c k v heap

theorem before_insertEqual : heap.Before (Multimap.insert H c k v heap).2.2 :=
  (c.table.before_makeRoom _ heap).trans (c.table.before_insertBeside _ _ _ _ heap)

omit [Allocator A] [BEq K] in
theorem before_insertMany {ι C : Type} {insert : Insertion ι C A}
    (hb : ∀ c x (heap : Heap A), heap.Before (insert c x heap).2.2) (items : List ι) (c : C)
    (heap : Heap A) : heap.Before (insertMany insert c items heap).2.2 := by
  induction items generalizing c heap with
  | nil => exact .refl heap
  | cons x items ih =>
    have hx := hb c x heap
    unfold insertMany
    rcases hi : insert c x heap with ⟨_ | _, c', later⟩ <;> rw [hi] at hx
    · exact hx
    · exact hx.trans (ih c' later)

omit [Allocator A] [BEq K] in
theorem before_insertRest {ι C : Type} {insert : Insertion ι C A}
    (hb : ∀ c x (heap : Heap A), heap.Before (insert c x heap).2.2) (x : ι) (items : List ι)
    (c : C) (heap : Heap A) :
    (insert c x heap).2.2.Before (insertMany insert c (x :: items) heap).2.2 := by
  unfold insertMany
  rcases insert c x heap with ⟨_ | _, c', later⟩
  · exact .refl later
  · exact before_insertMany hb items c' later

end Before

/-! ## Calls -/

section Calls

variable {A : Type} {builder : S}

theorem ofTables {out : Table s (K × V) A × Heap A} {out' : Table s.bare (K × V) A × Heap A}
    (h : Follows s Table.bare out out') (builder : S) :
    Follows s bare ((⟨out.1, builder⟩ : Keyed s K V A S), out.2) (⟨out'.1, builder⟩, out'.2) :=
  ⟨congrArg (fun table => (⟨table, builder⟩ : Keyed s.bare K V A S)) h.state, h.heap⟩

theorem matches_ofTables {ρ : Type} {R : ρ → ρ → Prop} {out : ρ × Table s (K × V) A × Heap A}
    {out' : ρ × Table s.bare (K × V) A × Heap A} (h : Matches s R Table.bare out out')
    (builder : S) : Matches s R bare (out.1, (⟨out.2.1, builder⟩ : Keyed s K V A S), out.2.2)
      (out'.1, ⟨out'.2.1, builder⟩, out'.2.2) :=
  ⟨h.answer, ofTables h.follows builder⟩

variable [Allocator A] [BEq K] {c : Keyed s K V A S} {heap heap' : Heap A} {rows : Rows (K × V)}
  {others : List (Loan A)} {f : S → K → UInt64} (hk : heap.Alike s heap')
  (hf : Hashing.Faithful f) (h : c.Placed f heap rows others)
include hk hf h

theorem Placed.perform_matches {ρ : Type} (call : Call K V ρ) :
    Matches s Eq bare (Keyed.perform (.ofFun f) c heap call)
      (Keyed.perform (.ofFun f) c.bare heap' call) := by
  cases call with
  | get k => exact ⟨(h.get?_bare hf k).symm, rfl, hk⟩
  | getEntry k => exact ⟨(h.getPair?_bare hf k).symm, rfl, hk⟩
  | contains k => exact ⟨(h.contains_bare hf k).symm, rfl, hk⟩
  | modify k g =>
    simp only [Keyed.perform, h.modify_bare hf k g]
    exact ⟨rfl, rfl, hk⟩
  | erase k => exact matches_ofTables (c.table.erase_matches hk (h.sees hf k)) c.builder
  | filter keep state =>
    exact matches_ofTables (c.table.filter_matches hk (keepEntry keep) state) c.builder
  | change changes =>
    have hc := changeAlong_bare changes c c.cursor
    exact ⟨congrArg Prod.fst hc.symm, congrArg Prod.snd hc, hk⟩
  | clear => exact ⟨rfl, ofTables (c.table.clear_follows hk) c.builder⟩
  | renew => exact ⟨rfl, ofTables (c.table.renew_follows hk) c.builder⟩
  | abandon => exact ⟨rfl, ofTables (c.table.abandon_follows hk) c.builder⟩
  | setMaxLoad maxLoad => exact ⟨rfl, c.setMaxLoad_bare maxLoad, hk⟩

/-! ### Calls on maps -/

omit [BEq K] hf in
theorem Placed.add_matches (k : K) (v : V)
    (hsame : (Map.add (.ofFun f) c k v heap).2.2.SameDecisions
      (Map.add (.ofFun f) c.bare k v heap').2.2) :
    Matches s (AlikeAnswer s) bare (Map.add (.ofFun f) c k v heap)
      (Map.add (.ofFun f) c.bare k v heap') :=
  matches_ofTables (Table.insertFront_matches hk h.knows hsame) c.builder

theorem Placed.insert_matches (k : K) (v : V)
    (hsame : (Map.insert (.ofFun f) c k v heap).2.2.SameDecisions
      (Map.insert (.ofFun f) c.bare k v heap').2.2) :
    Matches s (AlikeAnswer s) bare (Map.insert (.ofFun f) c k v heap)
      (Map.insert (.ofFun f) c.bare k v heap') := by
  revert hsame
  unfold Map.insert
  rw [h.locate?_bare hf]
  split
  · exact fun _ => ⟨.ok _, c.setEntry_bare _ _, hk⟩
  · exact fun hsame => (h.add_matches hk k v hsame).imp fun _ _ ha => ha.map _

theorem Placed.replace_matches (k : K) (v : V)
    (hsame : (Map.replace (.ofFun f) c k v heap).2.2.SameDecisions
      (Map.replace (.ofFun f) c.bare k v heap').2.2) :
    Matches s (AlikeAnswer s) bare (Map.replace (.ofFun f) c k v heap)
      (Map.replace (.ofFun f) c.bare k v heap') := by
  revert hsame
  unfold Map.replace
  rw [h.locate?_bare hf]
  split
  · exact fun _ => ⟨.ok _, c.setEntry_bare _ _, hk⟩
  · exact fun hsame => (h.add_matches hk k v hsame).imp fun _ _ ha => ha.map _

theorem Placed.insertIfNew_matches (k : K) (v : V)
    (hsame : (Map.insertIfNew (.ofFun f) c k v heap).2.2.SameDecisions
      (Map.insertIfNew (.ofFun f) c.bare k v heap').2.2) :
    Matches s (AlikeAnswer s) bare (Map.insertIfNew (.ofFun f) c k v heap)
      (Map.insertIfNew (.ofFun f) c.bare k v heap') := by
  revert hsame
  unfold Map.insertIfNew
  rw [h.find?_bare hf]
  split
  · exact fun _ => ⟨.ok _, rfl, hk⟩
  · exact fun hsame => (h.add_matches hk k v hsame).imp fun _ _ ha => ha.map _

end Calls

end Keyed

/-- How the answers to a call compare. -/
def Map.Call.Answers {K V ρ : Type} (s : Table.Shape) : Map.Call K V ρ → ρ → ρ → Prop
  | .insert _ _ | .insertIfNew _ _ _ | .replace _ _ => AlikeAnswer s
  | .count _ | .common _ => Eq

def Multimap.Call.Answers {K V ρ : Type} (s : Table.Shape) : Multimap.Call K V ρ → ρ → ρ → Prop
  | .insert _ _ => AlikeAnswer s
  | .count _ | .equalRun _ | .eraseAll _ | .common _ => Eq

namespace Keyed

section

variable {s : Table.Shape} {K V A S : Type} [Allocator A] [BEq K] {c : Keyed s K V A S}
  {heap heap' : Heap A} {rows : Rows (K × V)} {others : List (Loan A)} {f : S → K → UInt64}
  (hk : heap.Alike s heap') (hf : Hashing.Faithful f) (h : c.Placed f heap rows others)
include hk hf h

theorem Placed.map_matches {ρ : Type} (call : Map.Call K V ρ)
    (hsame : (Map.perform (.ofFun f) c heap call).2.2.SameDecisions
      (Map.perform (.ofFun f) c.bare heap' call).2.2) :
    Matches s (call.Answers s) bare (Map.perform (.ofFun f) c heap call)
      (Map.perform (.ofFun f) c.bare heap' call) := by
  cases call with
  | insert k v => exact h.insert_matches hk hf k v hsame
  | replace k v => exact h.replace_matches hk hf k v hsame
  | insertIfNew k v g =>
    rw [insertIfNew_heap, insertIfNew_heap] at hsame
    rcases (h.insertIfNew_matches hk hf k v hsame).cases with
      ⟨⟨q, isNew⟩, c', later, later', ho, ho', hk'⟩ | ⟨e, e', c', later, later', ho, ho', he, hk'⟩
    · simp only [Map.perform, ho, ho', modifyAt_bare]
      exact ⟨.ok _, rfl, hk'⟩
    · simp only [Map.perform, ho, ho']
      exact ⟨.error he, rfl, hk'⟩
  | count k => exact ⟨congrArg Bool.toNat (h.contains_bare hf k).symm, rfl, hk⟩
  | common call => exact h.perform_matches hk hf call

/-- What is left after each removal is again placed. -/
theorem Placed.eraseUpTo_matches (k : K) (limit : Nat) :
    Matches s Eq Table.bare (Table.eraseUpTo (f c.builder k) (hasKey k) limit c.table heap)
      (Table.eraseUpTo (f c.builder k) (hasKey k) limit c.table.bare heap') := by
  induction limit generalizing c rows heap heap' with
  | zero => exact ⟨rfl, rfl, hk⟩
  | succ limit ih =>
    obtain ⟨ha, hstate, hh⟩ := c.table.erase_matches hk (h.sees hf k)
    unfold Table.eraseUpTo
    generalize c.table.bare.erase (f c.builder k) (hasKey k) heap' = out' at ha hstate hh ⊢
    obtain ⟨r, t', later'⟩ := out'
    rcases h.hit_or_miss hf k with ⟨-, hfind, -⟩ | ⟨pre, cell, post, hit⟩
    · have htable : c.table.erase (f c.builder k) (hasKey k) heap = (none, c.table, heap) :=
        congrArg (fun out => (out.1, out.2.1.table, out.2.2)) (h.erase_of_miss hfind)
      rw [htable] at ha hstate hh ⊢
      subst ha hstate
      exact ⟨rfl, rfl, hh⟩
    · obtain ⟨c', later, hrun, hbuilder, hp, -⟩ := hit.erase h hf
      have htable : c.table.erase (f c.builder k) (hasKey k) heap =
          (some cell.entry, c'.table, later) :=
        congrArg (fun out => (out.1, out.2.1.table, out.2.2)) hrun
      rw [htable] at ha hstate hh ⊢
      subst ha hstate
      have hrest := ih hh hp
      rw [hbuilder] at hrest
      exact hrest.imp fun _ _ hn => congrArg (· + 1) hn

theorem Placed.eraseAll_matches (k : K) :
    Matches s Eq bare (c.eraseAll (.ofFun f) k heap) (c.bare.eraseAll (.ofFun f) k heap') :=
  matches_ofTables (h.eraseUpTo_matches hk hf k c.table.size) c.builder

theorem Placed.multimap_matches {ρ : Type} (call : Multimap.Call K V ρ)
    (hsame : (Multimap.perform (.ofFun f) c heap call).2.2.SameDecisions
      (Multimap.perform (.ofFun f) c.bare heap' call).2.2) :
    Matches s (call.Answers s) bare (Multimap.perform (.ofFun f) c heap call)
      (Multimap.perform (.ofFun f) c.bare heap' call) := by
  cases call with
  | insert k v =>
    have hi := Table.insertBeside_matches hk h.knows (h.sees_room hf k) hsame
    exact (matches_ofTables hi c.builder).imp fun _ _ ha => ha.map _
  | count k => exact ⟨(h.count_bare hf k).symm, rfl, hk⟩
  | equalRun k => exact ⟨(h.equalRun_bare hf k).symm, rfl, hk⟩
  | eraseAll k => exact h.eraseAll_matches hk hf k
  | common call => exact h.perform_matches hk hf call

omit [BEq K] hf h in
theorem pop_matches (c : Keyed s K V A S) (position : Nat) :
    (c.bare.pop position heap').1 = (c.pop position heap).1 ∧
      Matches s Eq bare (c.pop position heap).2 (c.bare.pop position heap').2 := by
  obtain ⟨ha, hm⟩ := c.table.pop_matches hk position
  exact ⟨ha, matches_ofTables hm c.builder⟩

omit [BEq K] hf h in
theorem copy_alike (c : Keyed s K V A S)
    (hsame : (c.copy heap).2.SameDecisions (c.bare.copy heap').2) :
    AlikeOutcome s ((c.copy heap).1.map bare, (c.copy heap).2) (c.bare.copy heap') := by
  rw [copy_heap, copy_heap] at hsame
  have hc : AlikeOutcome s ((c.table.copy heap).1.map Table.bare, (c.table.copy heap).2)
    (c.bare.table.copy heap') := Table.copy_alike hk c.table hsame
  unfold copy
  rcases hc.cases with ⟨t, later, later', ho, ho', hk'⟩ | ⟨e, e', later, later', ho, ho', he, hk'⟩
  · simp only [ho, ho']
    exact ⟨.ok _, hk'⟩
  · simp only [ho, ho']
    exact ⟨.error he, hk'⟩

end

end Keyed

/-! ### Calls on key sets and key bags -/

def KeySet.Call.Answers {K ρ : Type} (s : Table.Shape) : KeySet.Call K ρ → ρ → ρ → Prop
  | .insert _ | .replace _ => AlikeAnswer s
  | .get _ | .contains _ | .count _ | .take _ | .filter _ _ | .clear | .renew | .abandon
  | .setMaxLoad _ => Eq

def KeyBag.Call.Answers {K ρ : Type} (s : Table.Shape) : KeyBag.Call K ρ → ρ → ρ → Prop
  | .insert _ => AlikeAnswer s
  | .get _ | .getAll _ | .contains _ | .count _ | .take _ | .eraseAll _ | .filter _ _ | .clear
  | .renew | .abandon | .setMaxLoad _ => Eq

namespace Keyed

section

variable {s : Table.Shape} {K A S : Type} [Allocator A] [BEq K] {m : Keyed s K Unit A S}
  {heap heap' : Heap A} {rows : Rows (K × Unit)} {others : List (Loan A)} {f : S → K → UInt64}
  (hk : heap.Alike s heap') (hf : Hashing.Faithful f) (h : m.Placed f heap rows others)
include hk hf h

theorem Placed.keySet_matches {ρ : Type} (call : KeySet.Call K ρ)
    (hsame : (KeySet.perform (.ofFun f) m heap call).2.2.SameDecisions
      (KeySet.perform (.ofFun f) m.bare heap' call).2.2) :
    Matches s (call.Answers s) bare (KeySet.perform (.ofFun f) m heap call)
      (KeySet.perform (.ofFun f) m.bare heap' call) := by
  cases call with
  | insert k => exact (h.insertIfNew_matches hk hf k () hsame).imp fun _ _ ha => ha.map _
  | replace k => exact (h.replace_matches hk hf k () hsame).imp fun _ _ ha => ha.map _
  | get k =>
    exact (h.perform_matches hk hf (.getEntry k)).imp fun _ _ ha =>
      congrArg (Option.map Prod.fst) ha
  | contains k => exact h.perform_matches hk hf (.contains k)
  | count k => exact h.map_matches hk hf (.count k) hsame
  | take k =>
    exact (h.perform_matches hk hf (.erase k)).imp fun _ _ ha =>
      congrArg (Option.map Prod.fst) ha
  | filter keep state => exact h.perform_matches hk hf (.filter (KeySet.keepKey keep) state)
  | clear => exact h.perform_matches hk hf .clear
  | renew => exact h.perform_matches hk hf .renew
  | abandon => exact h.perform_matches hk hf .abandon
  | setMaxLoad maxLoad => exact h.perform_matches hk hf (.setMaxLoad maxLoad)

theorem Placed.keyBag_matches {ρ : Type} (call : KeyBag.Call K ρ)
    (hsame : (KeyBag.perform (.ofFun f) m heap call).2.2.SameDecisions
      (KeyBag.perform (.ofFun f) m.bare heap' call).2.2) :
    Matches s (call.Answers s) bare (KeyBag.perform (.ofFun f) m heap call)
      (KeyBag.perform (.ofFun f) m.bare heap' call) := by
  rw [KeyBag.perform_eq, KeyBag.perform_eq] at *
  refine (h.multimap_matches hk hf call.onEntries.2.1 hsame).imp fun a b hab => ?_
  cases call with
  | insert k => exact hab
  | _ => exact congrArg _ hab

end

end Keyed

end ArenaHash
