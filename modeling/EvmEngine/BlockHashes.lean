import EvmEngine.Word
import Std.Data.ExtTreeMap

/-!
The hashes of earlier blocks, as a host knows them. A number without a hash is a block that is not
known.
-/

namespace EvmEngine

structure BlockHashes where
  known : Std.ExtTreeMap UInt64 Hash

namespace BlockHashes

def empty : BlockHashes := ⟨∅⟩

/-- Records the hash of a block, in place of one recorded before. -/
def insert (hashes : BlockHashes) (number : UInt64) (hash : Hash) : BlockHashes :=
  ⟨hashes.known.insert number hash⟩

def get? (hashes : BlockHashes) (number : UInt64) : Option Hash :=
  hashes.known[number]?

def size (hashes : BlockHashes) : Nat :=
  hashes.known.size

/-- Records pairs in their order, so that the last one for a number counts. -/
def ofList (pairs : List (UInt64 × Hash)) : BlockHashes :=
  pairs.foldl (fun hashes (number, hash) => hashes.insert number hash) empty

end BlockHashes
end EvmEngine
