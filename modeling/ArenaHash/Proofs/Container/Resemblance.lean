import ArenaHash.Proofs.Container.Calls
import ArenaHash.Proofs.Table.Resemblance

/-!
# Containers over used slots

What holds of tables that resemble each other holds of containers: with one builder, and hashes that
may change from call to call, every call answers the same, does the same to the heap and leaves
containers that resemble each other.
-/

namespace ArenaHash.Keyed

variable {s : Table.Shape} {K V A S : Type}

structure Resembles (c d : Keyed s K V A S) : Prop where
  table : c.table.Resembles d.table
  builder : d.builder = c.builder

namespace Resembles

variable {c d : Keyed s K V A S}

/-! ## Reading -/

section Reading

theorem toList_eq (h : c.Resembles d) : d.toList = c.toList := h.table.toList_eq

theorem size_eq (h : c.Resembles d) : d.size = c.size :=
  (congrArg Table.size h.table.same).trans rfl

theorem next?_eq (h : c.Resembles d) {cursor : Cursor} (hc : cursor.Within c.table.nodes) :
    d.next? cursor = c.next? cursor := by
  obtain ⟨hstep, hwithin⟩ := h.table.step?_eq hc
  unfold next?
  rw [hstep]
  rcases hs : cursor.step? c.table with _ | ⟨q, cursor'⟩
  · rfl
  · simp only [Option.bind_some, h.table.entryAt?_eq (hwithin q cursor' hs).1]

theorem walkFrom_eq (h : c.Resembles d) (limit : Nat) {cursor : Cursor}
    (hc : cursor.Within c.table.nodes) : d.walk limit cursor = c.walk limit cursor := by
  induction limit generalizing cursor with
  | zero => rfl
  | succ limit ih =>
    unfold walk
    rw [h.next?_eq hc]
    split
    · next entry cursor' hnext =>
      obtain ⟨⟨q, c'⟩, hs, hentry⟩ := Option.bind_eq_some_iff.mp hnext
      obtain ⟨e, -, hpair⟩ := Option.map_eq_some_iff.mp hentry
      cases hpair
      rw [ih ((h.table.step?_eq hc).2 q _ hs).2]
    · rfl

theorem walk_eq (h : c.Resembles d) (limit : Nat) :
    d.walk limit d.cursor = c.walk limit c.cursor := by
  have hcursor : d.cursor = c.cursor := h.table.cursor_eq
  rw [hcursor]
  exact h.walkFrom_eq limit h.table.within_cursor

theorem nextInRun?_eq (h : c.Resembles d) {cursor : RunCursor}
    (hc : ∀ q ∈ cursor.next, c.table.nodes.Owns q) :
    d.nextInRun? cursor = c.nextInRun? cursor := by
  obtain ⟨hstep, howns⟩ := h.table.runStep?_eq hc
  unfold nextInRun?
  rw [hstep]
  rcases hs : cursor.step? c.table with _ | ⟨q, cursor'⟩
  · rfl
  · simp only [Option.bind_some, h.table.entryAt?_eq (howns q cursor' hs).1]

theorem walkRunFrom_eq (h : c.Resembles d) (limit : Nat) {cursor : RunCursor}
    (hc : ∀ q ∈ cursor.next, c.table.nodes.Owns q) :
    d.walkRun limit cursor = c.walkRun limit cursor := by
  induction limit generalizing cursor with
  | zero => rfl
  | succ limit ih =>
    unfold walkRun
    rw [h.nextInRun?_eq hc]
    split
    · next entry cursor' hnext =>
      obtain ⟨⟨q, c'⟩, hs, hentry⟩ := Option.bind_eq_some_iff.mp hnext
      obtain ⟨e, -, hpair⟩ := Option.map_eq_some_iff.mp hentry
      cases hpair
      rw [ih ((h.table.runStep?_eq hc).2 q _ hs).2]
    · rfl

end Reading

/-! ## Lookups -/

section Lookup

variable [BEq K] (H : Hashing S K) (k : K)

theorem find?_eq (h : c.Resembles d) : d.find? H k = c.find? H k := by
  rw [find?, find?, h.builder, h.table.find?_eq]

theorem locate?_eq (h : c.Resembles d) : d.locate? H k = c.locate? H k := by
  rw [locate?, locate?, h.find?_eq]
  rcases hf : c.find? H k with _ | q
  · rfl
  · rw [Option.bind_some, Option.bind_some, h.table.entryAt?_eq (h.table.owns_find? hf)]

variable {H k} in
theorem owns_locate? (h : c.Resembles d) {q : Ref} {entry : K × V}
    (hl : c.locate? H k = some (q, entry)) : c.table.nodes.Owns q := by
  obtain ⟨r, hf, hentry⟩ := Option.bind_eq_some_iff.mp hl
  obtain ⟨e, -, hpair⟩ := Option.map_eq_some_iff.mp hentry
  cases hpair
  exact h.table.owns_find? hf

theorem getPair?_eq (h : c.Resembles d) : d.getPair? H k = c.getPair? H k := by
  rw [getPair?, getPair?, h.locate?_eq]

theorem get?_eq (h : c.Resembles d) : d.get? H k = c.get? H k := by
  rw [get?, get?, h.getPair?_eq]

theorem contains_eq (h : c.Resembles d) : d.contains H k = c.contains H k := by
  rw [contains, contains, h.find?_eq]

theorem count_eq (h : c.Resembles d) : d.count H k = c.count H k := by
  rw [count, count, h.builder, h.table.count_eq]

theorem equalRun_eq (h : c.Resembles d) : d.equalRun H k = c.equalRun H k := by
  rw [equalRun, equalRun, h.builder, h.table.equalRun_eq]
  exact List.filterMap_congr fun q hq => h.table.entryAt?_eq (h.table.owns_equalRun hq)

omit [BEq K] in
theorem bucketOf_eq (h : c.Resembles d) : d.bucketOf H k = c.bucketOf H k := by
  rw [bucketOf, bucketOf, h.builder, h.table.bucketOf_eq]

omit [BEq K] in
theorem hasher_eq (h : c.Resembles d) : d.hasher H = c.hasher H := by
  unfold hasher
  rw [h.builder]

omit [BEq K] in
theorem check_eq (h : c.Resembles d) : d.check H = c.check H := by
  rw [check, check, h.hasher_eq, h.table.check_eq]

theorem walkRun_eq (h : c.Resembles d) (limit : Nat) :
    d.walkRun limit (d.runCursor H k) = c.walkRun limit (c.runCursor H k) := by
  have hcursor : d.runCursor H k = c.runCursor H k := by
    rw [runCursor, runCursor, h.builder, h.table.runCursor_eq]
  rw [hcursor]
  exact h.walkRunFrom_eq limit fun q hq => h.table.owns_find? hq

end Lookup

/-! ## Comparing -/

section

variable [BEq K] (H : Hashing S K)

theorem mapBeq_eq [BEq V] (h : c.Resembles d) (e : Keyed s K V A S) :
    Map.beq H d e = Map.beq H c e ∧ Map.beq H e d = Map.beq H e c := by
  unfold Map.beq
  simp only [h.size_eq, h.toList_eq, h.get?_eq, and_self]

theorem multimapBeq_eq [BEq V] (h : c.Resembles d) (e : Keyed s K V A S) :
    Multimap.beq H d e = Multimap.beq H c e ∧ Multimap.beq H e d = Multimap.beq H e c := by
  unfold Multimap.beq Multimap.getAll
  simp only [h.size_eq, h.toList_eq, h.equalRun_eq, and_self]

end

/-! ## Changes in place -/

theorem setEntry (h : c.Resembles d) {q : Ref} (hq : c.table.nodes.Owns q) (entry : K × V) :
    Resembles { c with table := c.table.setEntry q entry }
      { d with table := d.table.setEntry q entry } :=
  ⟨h.table.setEntry hq entry, h.builder⟩

theorem modifyAt (h : c.Resembles d) {q : Ref} (hq : c.table.nodes.Owns q) (f : V → V) :
    (d.modifyAt q f).1 = (c.modifyAt q f).1 ∧ (c.modifyAt q f).2.Resembles (d.modifyAt q f).2 := by
  unfold Keyed.modifyAt
  rw [h.table.entryAt?_eq hq]
  split
  · exact ⟨rfl, h.setEntry hq _⟩
  · exact ⟨rfl, h⟩

theorem changeAlong (h : c.Resembles d) (changes : List (V → V)) {cursor : Cursor}
    (hc : cursor.Within c.table.nodes) :
    (changeAlong changes d cursor).1 = (changeAlong changes c cursor).1 ∧
      (changeAlong changes c cursor).2.Resembles (changeAlong changes d cursor).2 := by
  induction changes generalizing c d cursor with
  | nil => exact ⟨rfl, h⟩
  | cons f fs ih =>
    obtain ⟨hstep, hwithin⟩ := h.table.step?_eq hc
    unfold Keyed.changeAlong changeNext?
    rw [hstep]
    rcases hs : cursor.step? c.table with _ | ⟨q, cursor'⟩
    · exact ⟨rfl, h⟩
    · obtain ⟨hq, hc'⟩ := hwithin q cursor' hs
      simp only [Option.bind_some, h.table.entryAt?_eq hq]
      rcases c.table.entryAt? q with _ | ⟨k, v⟩
      · exact ⟨rfl, h⟩
      · have hle : c.table.nodes.untouched ≤ (c.table.setEntry q (k, f v)).nodes.untouched :=
          (c.table.nodes.untouched_modify q _).ge
        obtain ⟨ha, hrest⟩ := ih (h.setEntry hq (k, f v)) (hc'.of_le hle)
        simp only [Option.map_some]
        exact ⟨congrArg _ ha, hrest⟩

/-! ## Calls -/

theorem ofTables {out out' : Table s (K × V) A × Heap A} (h : Echoes Table.Resembles out out')
    (builder : S) :
    Echoes Resembles ((⟨out.1, builder⟩ : Keyed s K V A S), out.2) (⟨out'.1, builder⟩, out'.2) :=
  ⟨⟨h.state, rfl⟩, h.heap⟩

theorem repeats_ofTables {ρ : Type} {out out' : ρ × Table s (K × V) A × Heap A}
    (h : Repeats Table.Resembles out out') (builder : S) :
    Repeats Resembles (out.1, (⟨out.2.1, builder⟩ : Keyed s K V A S), out.2.2)
      (out'.1, ⟨out'.2.1, builder⟩, out'.2.2) :=
  ⟨h.answer, ofTables h.echoes builder⟩

section Calls

variable [BEq K] [Allocator A] (H : Hashing S K) (heap : Heap A)

omit [Allocator A] in
theorem modify (h : c.Resembles d) (k : K) (f : V → V) :
    (d.modify H k f).1 = (c.modify H k f).1 ∧ (c.modify H k f).2.Resembles (d.modify H k f).2 := by
  unfold Keyed.modify
  rw [h.find?_eq]
  split
  · next q hf => exact h.modifyAt (h.table.owns_find? hf) f
  · exact ⟨rfl, h⟩

theorem perform (h : c.Resembles d) {ρ : Type} (call : Call K V ρ) :
    Repeats Resembles (Keyed.perform H c heap call) (Keyed.perform H d heap call) := by
  obtain ⟨u, b⟩ := d
  obtain rfl : b = c.builder := h.builder
  cases call with
  | get k => exact ⟨h.get?_eq H k, h, rfl⟩
  | getEntry k => exact ⟨h.getPair?_eq H k, h, rfl⟩
  | contains k => exact ⟨h.contains_eq H k, h, rfl⟩
  | modify k f =>
    obtain ⟨ha, hstate⟩ := h.modify H k f
    exact ⟨ha, hstate, rfl⟩
  | erase k => exact repeats_ofTables (h.table.erase heap _ _) c.builder
  | filter keep state => exact repeats_ofTables (h.table.filter heap _ state) c.builder
  | change changes =>
    obtain ⟨ha, hstate⟩ := h.changeAlong changes h.table.within_cursor
    simp only [Keyed.perform, cursor, h.table.cursor_eq]
    exact ⟨ha, hstate, rfl⟩
  | clear => exact ⟨rfl, ofTables (h.table.clear heap) c.builder⟩
  | renew => exact ⟨rfl, ofTables (h.table.renew heap) c.builder⟩
  | abandon => exact ⟨rfl, ofTables (h.table.abandon heap) c.builder⟩
  | setMaxLoad maxLoad => exact ⟨rfl, ⟨h.table.setMaxLoad maxLoad, rfl⟩, rfl⟩

omit [BEq K] in
theorem add (h : c.Resembles d) (k : K) (v : V) :
    Repeats Resembles (Map.add H c k v heap) (Map.add H d k v heap) := by
  unfold Map.add
  rw [h.hasher_eq, h.builder]
  exact repeats_ofTables (h.table.insertFront heap _ _ _) c.builder

theorem insert (h : c.Resembles d) (k : K) (v : V) :
    Repeats Resembles (Map.insert H c k v heap) (Map.insert H d k v heap) := by
  unfold Map.insert
  rw [h.locate?_eq]
  split
  · next q _ _ hl => exact ⟨rfl, h.setEntry (h.owns_locate? hl) _, rfl⟩
  · exact (h.add H heap k v).map _

theorem replace (h : c.Resembles d) (k : K) (v : V) :
    Repeats Resembles (Map.replace H c k v heap) (Map.replace H d k v heap) := by
  unfold Map.replace
  rw [h.locate?_eq]
  split
  · next q _ hl => exact ⟨rfl, h.setEntry (h.owns_locate? hl) _, rfl⟩
  · exact (h.add H heap k v).map _

theorem insertIfNew (h : c.Resembles d) (k : K) (v : V) :
    Repeats Resembles (Map.insertIfNew H c k v heap) (Map.insertIfNew H d k v heap) := by
  unfold Map.insertIfNew
  rw [h.find?_eq]
  split
  · exact ⟨rfl, h, rfl⟩
  · exact (h.add H heap k v).map _

theorem owns_insertIfNew (h : c.Resembles d) {k : K} {v : V} {q : Ref} {isNew : Bool}
    {m : Keyed s K V A S} {later : Heap A}
    (hr : Map.insertIfNew H c k v heap = (.ok (q, isNew), m, later)) :
    m.table.nodes.Owns q := by
  unfold Map.insertIfNew Map.add at hr
  split at hr
  · next hf =>
    cases hr
    exact h.table.owns_find? hf
  · rcases hi : c.table.insertFront (H.key c.builder k) (k, v) (c.hasher H) heap with
      ⟨_ | p, t', middle⟩ <;> simp only [hi] at hr <;> cases hr
    exact h.table.owns_insertFront hi

theorem map_perform (h : c.Resembles d) {ρ : Type} (call : Map.Call K V ρ) :
    Repeats Resembles (Map.perform H c heap call) (Map.perform H d heap call) := by
  cases call with
  | insert k v => exact h.insert H heap k v
  | insertIfNew k v f =>
    obtain ⟨a, m, m', later, ho, ho', hm⟩ := (h.insertIfNew H heap k v).elim
    simp only [Map.perform, ho, ho']
    rcases a with e | ⟨q, isNew⟩
    · exact ⟨rfl, hm, rfl⟩
    · obtain ⟨ha, hstate⟩ := hm.modifyAt (h.owns_insertIfNew H heap ho) f
      exact ⟨congrArg (fun v => Except.ok (v, isNew)) ha, hstate, rfl⟩
  | replace k v => exact h.replace H heap k v
  | count k => exact ⟨congrArg Bool.toNat (h.contains_eq H k), h, rfl⟩
  | common call => exact h.perform H heap call

theorem insertEqual (h : c.Resembles d) (k : K) (v : V) :
    Repeats Resembles (Multimap.insert H c k v heap) (Multimap.insert H d k v heap) := by
  unfold Multimap.insert
  rw [h.hasher_eq, h.builder]
  exact (repeats_ofTables (h.table.insertBeside heap _ _ _ _) c.builder).map _

theorem multimap_perform (h : c.Resembles d) {ρ : Type} (call : Multimap.Call K V ρ) :
    Repeats Resembles (Multimap.perform H c heap call) (Multimap.perform H d heap call) := by
  cases call with
  | insert k v => exact h.insertEqual H heap k v
  | count k => exact ⟨h.count_eq H k, h, rfl⟩
  | equalRun k => exact ⟨h.equalRun_eq H k, h, rfl⟩
  | eraseAll k =>
    have hbuilder := h.builder
    obtain ⟨u, b⟩ := d
    cases hbuilder
    exact repeats_ofTables (h.table.eraseAll heap _ _) c.builder
  | common call => exact h.perform H heap call

end Calls

section

variable [Allocator A] (heap : Heap A)

theorem pop (h : c.Resembles d) (position : Nat) :
    (d.pop position heap).1 = (c.pop position heap).1 ∧
      Repeats Resembles (c.pop position heap).2 (d.pop position heap).2 := by
  obtain ⟨ha, hrest⟩ := h.table.pop heap position
  have hbuilder := h.builder
  obtain ⟨u, b⟩ := d
  cases hbuilder
  exact ⟨ha, repeats_ofTables hrest c.builder⟩

theorem dispose_eq (h : c.Resembles d) : d.dispose heap = c.dispose heap := h.table.dispose_eq heap

theorem copy_eq (h : c.Resembles d) : d.copy heap = c.copy heap := by
  unfold copy
  rw [h.table.copy_eq]
  split
  · rw [h.builder]
  · rfl

omit heap in
theorem setDelegate (h : c.Resembles d) (delegate : A) :
    (d.setDelegate delegate).1 = (c.setDelegate delegate).1 ∧
      (c.setDelegate delegate).2.Resembles (d.setDelegate delegate).2 := by
  obtain ⟨ha, hstate⟩ := h.table.setDelegate delegate
  exact ⟨ha, hstate, h.builder⟩

end

end Resembles

end ArenaHash.Keyed
