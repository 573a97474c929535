import ArenaHash.Memory.Error

/-!
# Aborts

Operations that answer no error give up instead: demanding the value of an absent key, and
copying or extending a container whose memory runs out.
-/

namespace ArenaHash

inductive Kind where
  | map
  | set
  | multimap
  | multiset
  deriving DecidableEq

namespace Kind

def typeName : Kind → String
  | map => "FixedHashMap"
  | set => "FixedHashSet"
  | multimap => "FixedHashMultimap"
  | multiset => "FixedHashMultiset"

/-- The kind that a container is copied as: a set is a map without values. -/
def base : Kind → Kind
  | map | set => map
  | multimap | multiset => multimap

end Kind

inductive Abort where
  | keyNotFound
  | copyFailed (kind : Kind) (cause : MemoryError)
  | insertFailed (kind : Kind) (cause : MemoryError)
  deriving DecidableEq

def Abort.message : Abort → String
  | keyNotFound => s!"{Kind.map.typeName}: key not found"
  | copyFailed kind cause => s!"{kind.base.typeName}::clone: {cause.message}"
  | insertFailed kind cause => s!"{kind.typeName}::extend: {cause.message}"

end ArenaHash
