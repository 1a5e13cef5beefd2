import ThreatGossip.Hash.Hex
import ThreatGossip.Hash.Sha256
/-!
Hash trees over a list of blocks. Leaves are the hashes of the blocks; a parent hashes the bytes of
its two children, and the last node of an odd level is its own partner. The hash is a parameter, so
that what depends on its being free of collisions can say so.
-/
namespace ThreatGossip

structure Digest where
  bytes : List UInt8
  length_eq : bytes.length = 32
  deriving DecidableEq

namespace Digest

def zero : Digest := ⟨List.replicate 32 0, by simp⟩

def sha256 (block : List UInt8) : Digest := ⟨Sha256.hash block, Sha256.length_hash block⟩

def hex (d : Digest) : String := Hex.encode d.bytes

end Digest

/-- A hash tree: its levels from the leaves to the root, none for no blocks. -/
structure MerkleTree where
  levels : List (List Digest)
  deriving DecidableEq

namespace MerkleTree

def parents (hash : List UInt8 → Digest) : List Digest → List Digest
  | left :: right :: rest => hash (left.bytes ++ right.bytes) :: parents hash rest
  | [last] => [hash (last.bytes ++ last.bytes)]
  | [] => []

/-- Every two nodes, and a last one without a partner, have one parent. -/
theorem length_parents (hash : List UInt8 → Digest) :
    ∀ level : List Digest, (parents hash level).length = (level.length + 1) / 2
  | [] => by simp [parents]
  | [_] => by simp [parents]
  | _ :: _ :: rest => by
    rw [parents, List.length_cons, length_parents hash rest]
    simp only [List.length_cons]
    omega

/-- A level and all above it, up to a single node. -/
def levelsFrom (hash : List UInt8 → Digest) (level : List Digest) : List (List Digest) :=
  if level.length ≤ 1 then [level] else level :: levelsFrom hash (parents hash level)
termination_by level.length
decreasing_by rw [length_parents]; omega

def build (hash : List UInt8 → Digest) (blocks : List (List UInt8)) : MerkleTree :=
  if blocks.isEmpty then ⟨[]⟩ else ⟨levelsFrom hash (blocks.map hash)⟩

def root (t : MerkleTree) : Digest := ((t.levels.getLast?.bind List.head?)).getD .zero

def leaves (t : MerkleTree) : List Digest := t.levels.head?.getD []

/-- The children of `frontier` on a level where two trees differ. -/
def descend (frontier : List Nat) (level : List Digest × List Digest) : List Nat :=
  (frontier.flatMap fun i => [2 * i, 2 * i + 1]).filter fun i =>
    i < level.1.length && level.1[i]? != level.2[i]?

/-- The places of the leaves that differ, found from the root down; all places when the numbers of
leaves differ. -/
def diff (a b : MerkleTree) : List Nat :=
  if a.leaves.length ≠ b.leaves.length then List.range (max a.leaves.length b.leaves.length)
  else if a.root = b.root then []
  else (a.levels.zip b.levels).dropLast.reverse.foldl descend [0]

end MerkleTree

end ThreatGossip
