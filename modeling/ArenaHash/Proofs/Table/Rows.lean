import ArenaHash.Proofs.Pool.Live
import ArenaHash.Table.Basic
import Mathlib.Data.List.Basic

/-!
# Rows of cells

A cell is a node with its place: handle, entry and stored hash, but no link. `Segment nodes h cs t`
says that the links lead from `h` through exactly the cells `cs` and then to `t`; a chain is a
segment that ends in `none`, so it is finite, and what a bounded walk reads of it is known.
`Rows` gives each bucket its chain of cells, and `all` lists them in bucket order.
-/

namespace ArenaHash

structure Cell (T : Type) where
  ref : Ref
  entry : T
  hash : Option UInt64

namespace Cell

variable {T : Type}

/-- Whether a cell is one that is looked for. -/
def isMatch (hash : UInt64) (test : T → Bool) (c : Cell T) : Bool :=
  c.hash.all (· == hash) && test c.entry

/-- The stored hash, or else the hash computed from the entry. -/
def hashBy (hasher : Ref → T → UInt64) (c : Cell T) : UInt64 := c.hash.getD (hasher c.ref c.entry)

/-- What a change of its entry leaves of a cell. -/
def place (c : Cell T) : Ref × Option UInt64 := (c.ref, c.hash)

end Cell

/-! ## Segments of chains -/

namespace Pool

variable {p : Shape} {T A : Type}

/-- The node in a slot is that of a cell, whatever its link. -/
def Carries (nodes : Pool p (Node T) A) (c : Cell T) : Prop :=
  ∃ next, nodes.read c.ref = some ⟨c.entry, next, c.hash⟩

def Segment (nodes : Pool p (Node T) A) : Option Ref → List (Cell T) → Option Ref → Prop
  | head, [], tail => head = tail
  | head, c :: cs, tail =>
    head = some c.ref ∧
      ∃ next, nodes.read c.ref = some ⟨c.entry, next, c.hash⟩ ∧ nodes.Segment next cs tail

namespace Segment

variable {nodes nodes' : Pool p (Node T) A} {head tail : Option Ref} {cs ds : List (Cell T)}

theorem append : nodes.Segment head (cs ++ ds) tail ↔
    ∃ middle, nodes.Segment head cs middle ∧ nodes.Segment middle ds tail := by
  induction cs generalizing head with
  | nil => simp [Segment]
  | cons c cs ih =>
    simp only [List.cons_append, Segment, ih]
    constructor
    · rintro ⟨hh, next, hn, middle, h1, h2⟩
      exact ⟨middle, ⟨hh, next, hn, h1⟩, h2⟩
    · rintro ⟨middle, ⟨hh, next, hn, h1⟩, h2⟩
      exact ⟨hh, next, hn, middle, h1, h2⟩

/-- A segment depends on its own nodes only. -/
theorem congr (h : nodes.Segment head cs tail)
    (heq : ∀ c ∈ cs, nodes'.read c.ref = nodes.read c.ref) : nodes'.Segment head cs tail := by
  induction cs generalizing head with
  | nil => exact h
  | cons c cs ih =>
    obtain ⟨hh, next, hn, hr⟩ := h
    exact ⟨hh, next, (heq c List.mem_cons_self).trans hn,
      ih hr fun d hd => heq d (List.mem_cons_of_mem _ hd)⟩

theorem modify_of_notMem {q : Ref} (hq : q ∉ cs.map Cell.ref) (f : Node T → Node T)
    (h : nodes.Segment head cs tail) : (nodes.modify q f).Segment head cs tail := by
  refine h.congr fun c hc => nodes.read_modify_of_ne (fun heq => hq ?_) f
  exact heq ▸ List.mem_map_of_mem hc

/-- A cell in front of a segment, once it is linked to it. -/
theorem cons_modify {c : Cell T} (hc : nodes.Carries c) (hnew : c.ref ∉ cs.map Cell.ref)
    (h : nodes.Segment head cs tail) :
    (nodes.modify c.ref fun n => { n with next := head }).Segment (some c.ref) (c :: cs) tail := by
  obtain ⟨next, hn⟩ := hc
  refine ⟨rfl, head, ?_, h.modify_of_notMem hnew _⟩
  rw [read_modify nodes (lt_capacity_of_read hn), if_pos rfl, hn]
  rfl

theorem carries (h : nodes.Segment head cs tail) {c : Cell T} (hc : c ∈ cs) : nodes.Carries c := by
  induction cs generalizing head with
  | nil => cases hc
  | cons d ds ih =>
    obtain ⟨-, next, hn, hr⟩ := h
    rcases List.mem_cons.mp hc with rfl | hc
    · exact ⟨next, hn⟩
    · exact ih hr hc

/-- A chain without a first node has no nodes. -/
theorem eq_nil (h : nodes.Segment none cs tail) : cs = [] := by
  cases cs with
  | nil => rfl
  | cons c cs => cases h.1

/-- A chain starts at its first cell, if it has one. -/
theorem head_eq (h : nodes.Segment head cs none) : head = cs.head?.map Cell.ref := by
  cases cs with
  | nil => exact h
  | cons c cs => exact h.1

/-- The link out of a cell of a segment leads to the next one, or to where the segment leads. -/
theorem next_eq (h : nodes.Segment head (cs ++ c :: ds) tail) :
    nodes.Segment (nodes.next c.ref) ds tail := by
  obtain ⟨middle, -, -, next, hn, hr⟩ := append.mp h
  have hnext : nodes.next c.ref = next := by simp [Pool.next, hn]
  exact hnext ▸ hr

/-- A walk along a chain reads its cells, as far as it is allowed to go. -/
theorem follow (h : nodes.Segment head cs none) (limit : Nat) :
    nodes.follow limit head = (cs.map Cell.ref).take limit := by
  induction cs generalizing head limit with
  | nil => cases h; cases limit <;> rfl
  | cons c cs ih =>
    obtain ⟨hh, next, hn, hr⟩ := h
    subst hh
    cases limit with
    | zero => rfl
    | succ limit =>
      have hnext : nodes.next c.ref = next := by simp [Pool.next, hn]
      simp [Pool.follow, hnext, ih hr limit]

/-- The last link of a segment may be redirected. -/
theorem setLast {c : Cell T} {f : Node T → Node T} (hc : ∀ i, c.ref = .inline i → i < p.capacity)
    (hnew : c.ref ∉ cs.map Cell.ref) (target : Option Ref)
    (hf : ∀ n : Node T, f n = { n with next := target })
    (h : nodes.Segment head (cs ++ [c]) tail) :
    (nodes.modify c.ref f).Segment head (cs ++ [c]) target := by
  obtain ⟨middle, hcs, hm, next, hn, -⟩ := append.mp h
  refine append.mpr ⟨middle, hcs.modify_of_notMem hnew f, hm, target, ?_, rfl⟩
  rw [read_modify _ hc, if_pos rfl, hn]
  simp [hf]

end Segment

end Pool

/-! ## Rows -/

/-- The chain of each bucket. -/
abbrev Rows (T : Type) := Nat → List (Cell T)

namespace Rows

variable {T : Type} (rows : Rows T)

/-- The cells of `count` buckets in order. -/
def all (count : Nat) : List (Cell T) := (List.range count).flatMap rows

/-- Replaces the chain of one bucket. -/
def put (i : Nat) (cs : List (Cell T)) : Rows T := fun j => if j = i then cs else rows j

/-- The cells of the buckets before one. -/
def before (i : Nat) : List (Cell T) := (List.range i).flatMap rows

/-- The cells of the buckets after one. -/
def after (i count : Nat) : List (Cell T) :=
  (List.range' (i + 1) (count - (i + 1))).flatMap rows

@[simp] theorem all_nil (count : Nat) : all (fun _ => [] : Rows T) count = [] := by
  simp [all]

@[simp] theorem put_self (i : Nat) (cs : List (Cell T)) : rows.put i cs i = cs := if_pos rfl

theorem put_of_ne {i j : Nat} (h : j ≠ i) (cs : List (Cell T)) : rows.put i cs j = rows j :=
  if_neg h

@[simp] theorem put_put (i : Nat) (cs ds : List (Cell T)) :
    (rows.put i cs).put i ds = rows.put i ds := by
  funext j
  by_cases h : j = i <;> simp [put, h]

@[simp] theorem put_eq (i : Nat) : rows.put i (rows i) = rows := by
  funext j
  by_cases h : j = i <;> simp [put, h]

theorem all_put {i count : Nat} (hi : i < count) (cs : List (Cell T)) :
    (rows.put i cs).all count = rows.before i ++ cs ++ rows.after i count := by
  have hsplit : List.range count =
      List.range i ++ i :: List.range' (i + 1) (count - (i + 1)) := by
    obtain ⟨k, rfl⟩ : ∃ k, count = i + (k + 1) := ⟨count - (i + 1), by omega⟩
    rw [List.range_eq_range', List.range_eq_range', show i + (k + 1) - (i + 1) = k by omega,
      List.range'_append_1.symm, Nat.zero_add, List.range'_succ]
  have hbefore : (List.range i).flatMap (rows.put i cs) = rows.before i :=
    List.flatMap_congr fun j hj => rows.put_of_ne (Nat.ne_of_lt (List.mem_range.mp hj)) cs
  have hafter : (List.range' (i + 1) (count - (i + 1))).flatMap (rows.put i cs) =
      rows.after i count := by
    refine List.flatMap_congr fun j hj => rows.put_of_ne ?_ cs
    have := (List.mem_range'_1.mp hj).1
    omega
  rw [all, hsplit, List.flatMap_append, List.flatMap_cons, hbefore, hafter, put_self,
    List.append_assoc]

theorem all_eq {i count : Nat} (hi : i < count) :
    rows.all count = rows.before i ++ rows i ++ rows.after i count := by
  have h := rows.all_put hi (rows i)
  rwa [put_eq] at h

/-- Only what is in the replaced chain and beside the rows has changed. -/
theorem all_put_perm {i count : Nat} (hi : i < count) {cs loose loose' : List (Cell T)}
    (hp : (cs ++ loose').Perm (rows i ++ loose)) :
    ((rows.put i cs).all count ++ loose').Perm (rows.all count ++ loose) := by
  have hrest : ∀ l m : List (Cell T), (rows.before i ++ l ++ rows.after i count ++ m).Perm
      (rows.before i ++ rows.after i count ++ (l ++ m)) := fun l m => by
    simp only [List.append_assoc]
    refine .append_left _ ?_
    rw [← List.append_assoc, ← List.append_assoc]
    exact .append_right _ List.perm_append_comm
  rw [rows.all_put hi, rows.all_eq hi]
  exact (hrest _ _).trans ((hp.append_left _).trans (hrest _ _).symm)

/-- A cell in front of a row is one more cell. -/
theorem all_put_cons {i count : Nat} (hi : i < count) (c : Cell T) :
    ((rows.put i (c :: rows i)).all count).Perm (c :: rows.all count) := by
  rw [rows.all_put hi, rows.all_eq hi, List.append_assoc, List.append_assoc]
  exact List.perm_middle

theorem mem_all {count : Nat} {c : Cell T} : c ∈ rows.all count ↔ ∃ i < count, c ∈ rows i := by
  simp [all]

end Rows

end ArenaHash
