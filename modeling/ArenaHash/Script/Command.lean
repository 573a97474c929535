import ArenaHash.Script.Answer

/-!
# Commands to containers

The commands of a script, over containers whose entries carry values of type `V`: the values of
maps, or nothing in sets.
-/

namespace ArenaHash

/-- What is shown of an entry. -/
inductive Facet where
  | entries
  | keys
  | values

/-- What a filter keeps: all but each `every`-th entry it sees, or, if `every` is zero, all but
the entries whose key's number leaves `rem` when divided by `m`. -/
structure Sieve where
  every : Nat
  m : Int
  rem : Int

/-- Whether an entry stays, given how many were seen before it. -/
def Sieve.keeps (s : Sieve) (before : Nat) (k : Key) : Bool :=
  if 0 < s.every then (before + 1) % s.every != 0 else k.code % s.m != s.rem

inductive Command (V : Type) where
  | new (builder : Option Builder) (lender : Option Nat)
  | drop
  | move
  | refuse (lender : Nat) (on : Bool)
  | salt (x : UInt64)
  /-- Builds a container from a list; `orAbort` says what a failure comes to. -/
  | ofList (items : List (Key × V)) (orAbort : Bool)
  | copy (orAbort : Bool)
  | copyFrom
  | swap
  | eq
  | ownArena
  | intoIter (calls : Nat)
  | iter (facet : Facet) (calls : Nat)
  | iterMut (facet : Facet) (calls : Nat) (change : Affine)
  | run (facet : Facet) (k : Key) (calls : Nat)
  | info
  | chainLength (index : Nat)
  | chainLengths
  | bucketOf (k : Key)
  | count (k : Key)
  | check
  | setMaxLoad (x : Binary32)
  | setLender (lender : Option Nat)
  | clear
  | renew
  | abandon
  | debug (pretty : Bool)
  | insertMany (items : List (Key × V)) (orAbort : Bool)
  | insert (k : Key) (v : V)
  | replace (k : Key) (v : V)
  | insertIfNew (k : Key) (v : V) (add : Int64)
  | get (k : Key)
  | getEntry (k : Key)
  | modify (k : Key) (change : Affine)
  | demand (k : Key)
  | contains (k : Key)
  | erase (k : Key)
  | eraseEntry (k : Key)
  | eraseAll (k : Key)
  | filter (sieve : Sieve) (change : Affine)

/-- A command, the register it is for, and the other register if one is named. -/
structure Step (V : Type) where
  command : Command V
  register : Nat
  other : Option Nat

end ArenaHash
