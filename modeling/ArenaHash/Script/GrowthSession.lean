import ArenaHash.Growth.Basic
import ArenaHash.Script.Answer

/-!
# Sessions with a growth plan

A session keeps one growth plan. Each answer comes with the plan as it is afterwards.
-/

namespace ArenaHash

inductive GrowthCommand where
  /-- Asks for the bucket count to grow to. -/
  | advise (count elements additional : Nat)
  | setMaxLoad (maxLoad : Binary32) (count : Nat)
  | retarget (count : Nat)
  /-- Compares with a plan made anew. -/
  | eq (maxLoad : Option Binary32) (count : Nat)

namespace Growth

/-- A plan for `count` buckets; without a load factor, that of a table that may not grow. -/
def plan (maxLoad : Option Binary32) (count : Nat) : Growth :=
  match maxLoad with
  | some load => new load count
  | none => fixed count

def step (g : Growth) : GrowthCommand → Growth × Answer
  | .advise count elements additional =>
    let (grown, g) := g.advise count elements additional
    (g, .ofOption .word grown)
  | .setMaxLoad load count =>
    match g.setMaxLoad? load count with
    | some g => (g, .flag true)
    | none => (g, .flag false)
  | .retarget count => (g.retarget count, .nothing)
  | .eq load count => (g, .flag (g = plan load count))

/-- The answers to commands, each with the plan after it. -/
def run (g : Growth) : List GrowthCommand → List (Answer × Growth)
  | [] => []
  | command :: rest =>
    let (next, answer) := g.step command
    (answer, next) :: run next rest

end Growth

end ArenaHash
