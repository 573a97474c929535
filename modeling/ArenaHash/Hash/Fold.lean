/-!
# Folded-multiply hashing

A word is mixed with the state by a full 128-bit product whose two halves are folded into one by
exclusive or. Texts are read in little-endian words: short ones from both ends at once, longer
ones in pairs of 16-byte blocks from both ends towards the middle, and very long ones in 64-byte
blocks over four lanes first.
-/

namespace ArenaHash.Fold

def lane0 : UInt64 := 0x452821e638d01377
def lane1 : UInt64 := 0xbe5466cf34e90c6c
def lane2 : UInt64 := 0xc0ac29b7c97c50dd
def lane3 : UInt64 := 0x3f84d5b5b5470917

/-- The state a hash with this seed starts from. -/
def start (seed : UInt64) : UInt64 := seed ^^^ 0x082efa98ec4e6c89

/-- The low half of the product exclusive-or its high half. -/
def foldMul (x y : UInt64) : UInt64 :=
  let product := x.toNat * y.toNat
  .ofNat product ^^^ .ofNat (product >>> 64)

def rotateRight (x : UInt64) (n : Nat) : UInt64 :=
  let k := n % 64
  if k = 0 then x else (x >>> .ofNat k) ||| (x <<< .ofNat (64 - k))

/-- The byte at `i`, zero past the end. -/
def byteAt (bytes : Array UInt8) (i : Nat) : UInt64 := (bytes[i]?.getD 0).toUInt64

/-- The little-endian number in the `width` bytes from `i` on. -/
def wordAt (bytes : Array UInt8) (i : Nat) : (width : Nat) → UInt64
  | 0 => 0
  | width + 1 => byteAt bytes i ||| (wordAt bytes (i + 1) width <<< 8)

/-- Mixes pairs of 16-byte blocks of the `len` bytes from `off` on, block `i` from the front with
block `i` from the back, up to the middle. `pairs` bounds the number of pairs. -/
def mixPairs (bytes : Array UInt8) (off len : Nat) :
    (pairs i : Nat) → (s0 s1 : UInt64) → UInt64
  | 0, _, s0, s1 => s0 ^^^ s1
  | pairs + 1, i, s0, s1 =>
    if len - 16 * i ≤ 16 * i then s0 ^^^ s1
    else
      let lo := off + 16 * i
      let hi := off + len - 16 * (i + 1)
      mixPairs bytes off len pairs (i + 1)
        (foldMul (wordAt bytes lo 8 ^^^ s0) (wordAt bytes hi 8 ^^^ lane0))
        (foldMul (wordAt bytes (lo + 8) 8 ^^^ s1) (wordAt bytes (hi + 8) 8 ^^^ lane0))

/-- Hashes the `len` bytes from `off` on, at least 16 of them. -/
def mixBlocks (bytes : Array UInt8) (off len : Nat) (s0 s1 : UInt64) : UInt64 :=
  mixPairs bytes off len (len / 16) 0 s0 s1

/-- Hashes at most 16 bytes. -/
def mixShort (bytes : Array UInt8) (base : UInt64) : UInt64 :=
  let len := bytes.size
  if 8 ≤ len then
    foldMul (base ^^^ wordAt bytes 0 8) (lane1 ^^^ wordAt bytes (len - 8) 8)
  else if 4 ≤ len then
    foldMul (base ^^^ wordAt bytes 0 4) (lane1 ^^^ wordAt bytes (len - 4) 4)
  else if 0 < len then
    foldMul (base ^^^ byteAt bytes 0)
      (lane1 ^^^ ((byteAt bytes (len - 1) <<< 8) ||| byteAt bytes (len / 2)))
  else foldMul base lane1

/-- The four lanes of a long text. -/
structure Lanes where
  s0 : UInt64
  s1 : UInt64
  s2 : UInt64
  s3 : UInt64

/-- Takes in the 64-byte block that starts at `i`. -/
def Lanes.mix (s : Lanes) (bytes : Array UInt8) (i : Nat) : Lanes :=
  let w := fun j => wordAt bytes (i + 8 * j) 8
  { s0 := foldMul (w 0 ^^^ s.s0) (w 4 ^^^ lane0)
    s1 := foldMul (w 1 ^^^ s.s1) (w 5 ^^^ lane0)
    s2 := foldMul (w 2 ^^^ s.s2) (w 6 ^^^ lane0)
    s3 := foldMul (w 3 ^^^ s.s3) (w 7 ^^^ lane0) }

/-- Hashes 256 bytes or more. -/
def mixLong (bytes : Array UInt8) (base : UInt64) : UInt64 :=
  let len := bytes.size
  let lanes := (List.range (len / 64)).foldl (fun s i => s.mix bytes (64 * i))
    (Lanes.mk base (base + lane1) (base + lane2) (base + lane3))
  let s0 := lanes.s0 ^^^ lanes.s2
  let s1 := lanes.s1 ^^^ lanes.s3
  let rest := len % 64
  if rest = 0 then s0 ^^^ s1
  else
    let tail := max rest 16
    mixBlocks bytes (len - tail) tail s0 s1

/-- The state after taking in a run of bytes. -/
def absorb (bytes : Array UInt8) (state : UInt64) : UInt64 :=
  let base := rotateRight state bytes.size
  if bytes.size ≤ 16 then mixShort bytes base
  else if bytes.size < 256 then mixBlocks bytes 0 bytes.size base (base + lane1)
  else mixLong bytes base

/-- The hash of one word. -/
def hashWord (seed word : UInt64) : UInt64 := foldMul (word ^^^ start seed) lane0

/-- The hash of a text: its bytes, closed by the byte `0xff`. -/
def hashText (seed : UInt64) (text : String) : UInt64 :=
  foldMul (0xff ^^^ absorb text.toUTF8.data (start seed)) lane0

end ArenaHash.Fold
