/-!
# Values of maps

A value is a number, or odd: no value equals an odd one, so maps hold values that do not equal
themselves. Numbers can be changed in place.
-/

namespace ArenaHash

/-- A value of a map. An odd value differs from every value, itself included. -/
inductive Value where
  | int (v : Int64)
  | odd

/-- A change to values: multiply and add. -/
structure Affine where
  mul : Int64 := 1
  add : Int64 := 0

namespace Value

def beq : Value → Value → Bool
  | int a, int b => a == b
  | _, _ => false

instance : BEq Value := ⟨beq⟩

/-- Changes a number; an odd value stays odd. -/
def change (f : Affine) : Value → Value
  | int v => int (v * f.mul + f.add)
  | odd => odd

def toText : Value → String
  | int v => toString v.toInt
  | odd => "odd"

end Value

end ArenaHash
