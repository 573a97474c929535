import ArenaHash.Container.Keyed
import ArenaHash.Hash.Fold

/-!
# Keys and hash builders of scripts

The keys of scripted containers come in four shapes. Keys of different shapes differ; a tag and
a hint do not count in a comparison, so two equal keys can be told apart when they are answered,
and equal hinted keys can have different hashes.

Besides the folded-multiply hash there are builders that make something simple of one word: of
the key's integer, of its hint, or of the polynomial value of its bytes.
-/

namespace ArenaHash

inductive Key where
  | int (k : Int64)
  | text (t : String)
  | tagged (k : Int64) (tag : String)
  | hinted (k : Int64) (hint : UInt64)

namespace Key

def beq : Key → Key → Bool
  | int a, int b | tagged a _, tagged b _ | hinted a _, hinted b _ => a == b
  | text a, text b => a == b
  | _, _ => false

instance : BEq Key := ⟨beq⟩

/-- The number of a key: its integer, or the length of its text in bytes. -/
def code : Key → Int
  | int k | tagged k _ | hinted k _ => k.toInt
  | text t => t.utf8ByteSize

/-- The word a key is reduced to: of a text, the value of its bytes and the byte `0xff` as digits
in base 31. -/
def digest : Key → UInt64
  | text t => (t.toUTF8.data.push 0xff).foldl (fun s b => s * 31 + b.toUInt64) 0
  | int k | tagged k _ => k.toUInt64
  | hinted _ hint => hint

/-- The folded-multiply hash of a key. -/
def fold (seed : UInt64) : Key → UInt64
  | text t => Fold.hashText seed t
  | int k | tagged k _ => Fold.hashWord seed k.toUInt64
  | hinted _ hint => Fold.hashWord seed hint

def toText : Key → String
  | int k => toString k.toInt
  | text t => t
  | tagged k tag => s!"{k.toInt}#{tag}"
  | hinted k hint => s!"{k.toInt}@{hint.toNat}"

end Key

/-- A hash builder; `fold none` is the default one. -/
inductive Builder where
  | fold (seed : Option UInt64)
  | ident
  | const (c : UInt64)
  | mod (m : UInt64)
  | mul (c : UInt64)
  | shl (n : UInt64)
  | salt

namespace Builder

def default : Builder := fold none

/-- The hash of a key. Only `salt` depends on the salt. -/
def hash (salt : UInt64) : Builder → Key → UInt64
  | fold seed, k => k.fold (seed.getD 0)
  | ident, k => k.digest
  | const c, _ => c
  | mod m, k => k.digest % m
  | mul c, k => k.digest * c
  | shl n, k => k.digest <<< n
  | .salt, k => k.digest + salt

def hashing (salt : UInt64) : Hashing Builder Key := .ofFun (hash salt)

end Builder

end ArenaHash
