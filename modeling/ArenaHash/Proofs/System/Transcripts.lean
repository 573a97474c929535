import ArenaHash.Proofs.Container.Resemblance
import ArenaHash.Proofs.System.Steps

/-!
# Transcripts

A `Use` is something done with a container, with its answer: a call, a list of insertions, a copy, a
walk, a comparison, or looking at its figures. Before each `Turn` others may do what they like with
the heap. The transcript of some turns lists every answer and what is then recorded of requests and
returns, and ends with what is left when the container is gone.
-/

namespace ArenaHash

variable {F : Profile} {A : Type}

/-- What can be read off a container apart from its entries. -/
structure Figures (A : Type) where
  size : Nat
  bucketCount : Nat
  chainLength : Nat → Nat
  loadFactor : Binary32
  growth : Growth
  delegate : A
  usesOverflow : Bool

def Keyed.figures {s : Table.Shape} {K V S : Type} (c : Keyed s K V A S) : Figures A where
  size := c.size
  bucketCount := c.table.bucketCount
  chainLength := c.table.chainLength
  loadFactor := c.table.loadFactor
  growth := c.table.growth
  delegate := c.delegate
  usesOverflow := c.table.usesOverflow

inductive Use (F : Profile) (A : Type) : Type → Type 1 where
  | map {ρ : Type} (H : Hashing F.Builder F.Key) (call : Map.Call F.Key F.Value ρ) : Use F A ρ
  | multimap {ρ : Type} (H : Hashing F.Builder F.Key) (call : Multimap.Call F.Key F.Value ρ) :
    Use F A ρ
  | extend (items : List (Item F)) : Use F A (Except MemoryError Unit)
  | pop (position : Nat) : Use F A (Option (F.Key × F.Value) × Nat)
  | setDelegate (delegate : A) : Use F A (Except MemoryError Unit)
  /-- Answers the copy itself. -/
  | copy : Use F A (Except MemoryError (F.Container A))
  | walk (limit : Nat) : Use F A (List (F.Key × F.Value))
  | walkRun (H : Hashing F.Builder F.Key) (k : F.Key) (limit : Nat) :
    Use F A (List (F.Key × F.Value))
  | figures : Use F A (Figures A)
  | bucketOf (H : Hashing F.Builder F.Key) (k : F.Key) : Use F A Nat
  | check (H : Hashing F.Builder F.Key) : Use F A Bool
  /-- Comparisons with another container, which may also be the one on the left. -/
  | mapBeq (H : Hashing F.Builder F.Key) (beq : BEq F.Value) (other : F.Container A) :
    Use F A (Bool × Bool)
  | multimapBeq (H : Hashing F.Builder F.Key) (beq : BEq F.Value) (other : F.Container A) :
    Use F A (Bool × Bool)

variable [Allocator A]

def Use.perform (c : F.Container A) (heap : Heap A) {ρ : Type} :
    Use F A ρ → ρ × F.Container A × Heap A
  | map H call => Map.perform H c heap call
  | multimap H call => Multimap.perform H c heap call
  | extend items => Keyed.insertMany Item.insert c items heap
  | pop position =>
    let (entry, position, c, heap) := c.pop position heap
    ((entry, position), c, heap)
  | setDelegate delegate =>
    let (result, c) := c.setDelegate delegate
    (result, c, heap)
  | copy =>
    let (result, heap) := c.copy heap
    (result, c, heap)
  | walk limit => (c.walk limit c.cursor, c, heap)
  | walkRun H k limit => (c.walkRun limit (c.runCursor H k), c, heap)
  | figures => (c.figures, c, heap)
  | bucketOf H k => (c.bucketOf H k, c, heap)
  | check H => (c.check H, c, heap)
  | mapBeq H _ other => ((Map.beq H c other, Map.beq H other c), c, heap)
  | multimapBeq H _ other => ((Multimap.beq H c other, Multimap.beq H other c), c, heap)

structure Turn (F : Profile) (A : Type) : Type 1 where
  Answer : Type
  /-- What others do to the heap before. -/
  meanwhile : Heap A → Heap A
  use : Use F A Answer

/-- Every answer with the heap after it, and the heap after the container is gone. -/
def transcript : List (Turn F A) → F.Container A → Heap A → List (Σ ρ : Type, ρ × Heap A)
  | [], c, heap => [⟨Unit, (), c.dispose heap⟩]
  | turn :: turns, c, heap =>
    let (answer, c, heap) := turn.use.perform c (turn.meanwhile heap)
    ⟨turn.Answer, answer, heap⟩ :: transcript turns c heap

namespace Keyed.Resembles

variable {c d : F.Container A}

omit [Allocator A] in
theorem figures_eq (h : c.Resembles d) : d.figures = c.figures := by
  have hchain : d.table.chainLength = c.table.chainLength :=
    funext fun i => congrArg List.length (h.table.chain_eq i)
  have hload : d.table.loadFactor = c.table.loadFactor :=
    (congrArg Table.loadFactor h.table.same).trans rfl
  have hgrowth : d.table.growth = c.table.growth :=
    (congrArg Table.growth h.table.same).trans rfl
  have hdelegate : d.delegate = c.delegate := h.table.delegate_eq
  rw [figures, figures, h.size_eq, h.table.bucketCount_eq, hchain, hload, hgrowth, hdelegate,
    h.table.usesOverflow_eq]

theorem insertItem (h : c.Resembles d) (item : Item F) (heap : Heap A) :
    Repeats Resembles (Item.insert c item heap) (Item.insert d item heap) := by
  unfold Item.insert
  cases item.manner with
  | overwrite => exact (h.insert item.hashing heap item.key item.value).map _
  | keep => exact (h.insertIfNew item.hashing heap item.key item.value).map _
  | beside => exact h.insertEqual item.hashing heap item.key item.value

theorem insertMany (h : c.Resembles d) (items : List (Item F)) (heap : Heap A) :
    Repeats Resembles (insertMany Item.insert c items heap)
      (insertMany Item.insert d items heap) := by
  induction items generalizing c d heap with
  | nil => exact ⟨rfl, h, rfl⟩
  | cons item items ih =>
    unfold Keyed.insertMany
    obtain ⟨a, m, m', later, ho, ho', hm⟩ := (h.insertItem item heap).elim
    simp only [ho, ho']
    cases a with
    | ok => exact ih hm later
    | error e => exact ⟨rfl, hm, rfl⟩

theorem use (h : c.Resembles d) {ρ : Type} (u : Use F A ρ) (heap : Heap A) :
    Repeats Resembles (u.perform c heap) (u.perform d heap) := by
  cases u with
  | map H call => exact h.map_perform H heap call
  | multimap H call => exact h.multimap_perform H heap call
  | extend items => exact h.insertMany items heap
  | pop position =>
    obtain ⟨hentry, hposition, hrest⟩ := h.pop heap position
    exact ⟨Prod.ext hentry hposition, hrest⟩
  | setDelegate delegate =>
    obtain ⟨ha, hstate⟩ := h.setDelegate delegate
    exact ⟨ha, hstate, rfl⟩
  | copy =>
    simp only [Use.perform, h.copy_eq]
    exact ⟨rfl, h, rfl⟩
  | walk limit => exact ⟨h.walk_eq limit, h, rfl⟩
  | walkRun H k limit => exact ⟨h.walkRun_eq H k limit, h, rfl⟩
  | figures => exact ⟨h.figures_eq, h, rfl⟩
  | bucketOf H k => exact ⟨h.bucketOf_eq H k, h, rfl⟩
  | check H => exact ⟨h.check_eq H, h, rfl⟩
  | mapBeq H beq other =>
    obtain ⟨hleft, hright⟩ := h.mapBeq_eq H other
    exact ⟨Prod.ext hleft hright, h, rfl⟩
  | multimapBeq H beq other =>
    obtain ⟨hleft, hright⟩ := h.multimapBeq_eq H other
    exact ⟨Prod.ext hleft hright, h, rfl⟩

/-- No use tells the two apart, however many came before. -/
theorem transcript_eq (h : c.Resembles d) (turns : List (Turn F A)) (heap : Heap A) :
    transcript turns d heap = transcript turns c heap := by
  induction turns generalizing c d heap with
  | nil =>
    unfold transcript
    rw [h.dispose_eq]
  | cons turn turns ih =>
    unfold transcript
    obtain ⟨a, m, m', later, ho, ho', hm⟩ := (h.use turn.use (turn.meanwhile heap)).elim
    simp only [ho, ho', ih hm later]

end Keyed.Resembles

end ArenaHash
