import ArenaHash.Memory.Word

/-!
# Single-precision numbers

The numbers of the 32-bit floating-point format, in exact arithmetic. A finite number is a sign
and a count of `2^-149`, the smallest positive number of the format, so products and quotients
are ratios of naturals that are rounded once, to the nearest number of the format and to the
even one of two equally near. `ofBits` and `toBits` are the encoding.
-/

namespace ArenaHash

/-- A number of the format; `finite s u` is `u * 2^-149`, negated if `s`. -/
inductive Binary32 where
  | nan
  | infinite (negative : Bool)
  | finite (negative : Bool) (units : Nat)
  deriving DecidableEq

/-- The nearest natural to `num / den`; a half goes to the even neighbour. -/
def roundHalfEven (num den : Nat) : Nat :=
  let q := num / den
  let r := num % den
  if 2 * r < den then q
  else if den < 2 * r then q + 1
  else q + q % 2

namespace Binary32

/-- The number one, in units. -/
def one : Nat := 1 <<< 149

/-- The first count of units that is too large for a finite number. -/
def overflow : Nat := one <<< 128

/-- `num / den` units rounded to 24 significant bits. -/
def roundUnits (num den : Nat) : Nat :=
  let shift := (num / den).log2 - 23
  roundHalfEven num (den <<< shift) <<< shift

/-- The number nearest to `num / den` units. -/
def ofRatio (negative : Bool) (num den : Nat) : Binary32 :=
  let units := roundUnits num den
  if units < overflow then finite negative units else infinite negative

def ofNat (n : Nat) : Binary32 := ofRatio false (n * one) 1

def mul : Binary32 → Binary32 → Binary32
  | finite s a, finite t b => ofRatio (s != t) (a * b) one
  | infinite s, infinite t => infinite (s != t)
  | infinite s, finite t b | finite s b, infinite t => if b = 0 then nan else infinite (s != t)
  | _, _ => nan

def div : Binary32 → Binary32 → Binary32
  | finite s a, finite t b =>
    if b = 0 then if a = 0 then nan else infinite (s != t)
    else ofRatio (s != t) (a * one) b
  | infinite s, finite t _ => infinite (s != t)
  | finite s _, infinite t => finite (s != t) 0
  | _, _ => nan

instance : Mul Binary32 := ⟨mul⟩
instance : Div Binary32 := ⟨div⟩

/-- Whether the first number is smaller; `nan` is neither smaller nor larger than any. -/
def lt : Binary32 → Binary32 → Bool
  | nan, _ | _, nan => false
  | infinite s, infinite t => s && !t
  | infinite s, finite _ _ => s
  | finite _ _, infinite t => !t
  | finite false a, finite false b => a < b
  | finite true a, finite true b => b < a
  | finite true a, finite false b => 0 < a + b
  | finite false _, finite true _ => false

/-- The larger number; a `nan` gives way to the other operand. -/
def max : Binary32 → Binary32 → Binary32
  | nan, b => b
  | a, nan => a
  | a, b => if lt a b then b else a

/-- Drops the fraction; what does not fit a machine word goes to its nearer end, `nan` to zero. -/
def truncate : Binary32 → Nat
  | finite false units => min (units / one) maxWord
  | infinite false => maxWord
  | _ => 0

/-- Whether the number is finite and positive. -/
def isPositive : Binary32 → Bool
  | finite false units => 0 < units
  | _ => false

/-! ## Encoding -/

/-- The leading bit of a number that is not too small, which the encoding leaves out. -/
def hidden : Nat := 1 <<< 23

def ofBits (bits : UInt32) : Binary32 :=
  let negative := bits.toNat >>> 31 % 2 == 1
  let exponent := bits.toNat >>> 23 % 256
  let fraction := bits.toNat % hidden
  if exponent = 255 then if fraction = 0 then infinite negative else nan
  else if exponent = 0 then finite negative fraction
  else finite negative ((hidden + fraction) <<< (exponent - 1))

/-- The exponent and fraction fields of a finite number. -/
def magnitude (units : Nat) : Nat :=
  if units < hidden then units
  else
    let shift := units.log2 - 23
    shift * hidden + units >>> shift

def signBit (negative : Bool) : UInt32 := if negative then 0x80000000 else 0

def toBits : Binary32 → UInt32
  | nan => 0x7fc00000
  | infinite negative => signBit negative ||| 0x7f800000
  | finite negative units => signBit negative ||| .ofNat (magnitude units)

example : toBits (ofNat 1) = 0x3f800000 := by decide +kernel
example : ofNat 16777217 = ofNat 16777216 := by decide +kernel
example : toBits (ofNat 1 / ofNat 3) = 0x3eaaaaab := by decide +kernel

end Binary32

end ArenaHash
