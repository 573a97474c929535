import ArenaHash.Script.Answer

/-!
# Walks in scripts

A walk calls an iterator a number of times. Each item is answered with the number of items to
come before it; a walk that runs into the end closes with a mark and stops.
-/

namespace ArenaHash

/-- An iterator with states `σ`; `step` gives the next item. -/
structure Walker (σ : Type) where
  left : σ → Nat
  step : σ → Option (Answer × σ)

namespace Walker

variable {σ : Type} (w : Walker σ)

/-- The mark of a walk that ran into the end. -/
def endMark : Nat × Answer := (0, .text "end")

/-- The items of a number of calls, and the state after them. -/
def take : (calls : Nat) → σ → List (Nat × Answer) × σ
  | 0, state => ([], state)
  | calls + 1, state =>
    match w.step state with
    | none => ([endMark], state)
    | some (item, next) =>
      let (seen, last) := take calls next
      ((w.left state, item) :: seen, last)

/-- The items to come, `limit` at most. -/
def drain : (limit : Nat) → σ → List Answer
  | 0, _ => []
  | limit + 1, state =>
    match w.step state with
    | none => []
    | some (item, next) => item :: drain limit next

/-- A walk and the state after it. -/
def walk (calls : Nat) (state : σ) : Answer × σ :=
  let (seen, last) := w.take calls state
  (.walk seen (w.left last), last)

/-- A walk whose iterator is then copied; both go on to the end. -/
def forkedWalk (calls : Nat) (state : σ) : Answer :=
  let (seen, last) := w.take calls state
  let rest := w.drain (w.left last) last
  .forkedWalk seen (w.left last) rest rest

end Walker

end ArenaHash
