import ThreatGossip.Register
/-!
A map from keys to last-writer-wins registers with one clock for the whole map. A deleted key keeps
its register, with no value, as a delete marker. A delta holds the registers that a reader with a
known clock has not seen.
-/
namespace ThreatGossip

/-- Keys with their registers; a register without a value marks a deletion. -/
abbrev Registers (α : Type) := SortedMap String (Register (Option α))

/-- The registers of one map that a reader lacks. -/
structure Delta (α : Type) where
  source : NodeId
  timestamp : Millis
  changes : Registers α
  deriving DecidableEq

/-- One replica: its owner, everything it has seen, and its registers. -/
structure RegisterMap (α : Type) where
  owner : NodeId
  version : Clock
  registers : Registers α
  deriving DecidableEq

namespace RegisterMap

variable {α : Type}

def empty (owner : NodeId) : RegisterMap α := ⟨owner, .empty, .empty⟩

/-- A local write (`none` deletes), stamped with the map's own advanced clock; nothing when the
owner's slot is full. -/
def put? (m : RegisterMap α) (key : String) (value : Option α) (wall : Millis) :
    Option (RegisterMap α) :=
  (m.version.tick? m.owner).map fun version =>
    let old := (m.registers.get? key).getD (.initial m.owner none)
    { m with version, registers := m.registers.insert key (old.stamp m.owner value wall version) }

def register? (m : RegisterMap α) (key : String) : Option (Register (Option α)) :=
  m.registers.get? key

/-- The value under `key`, if it is live. -/
def get? (m : RegisterMap α) (key : String) : Option α := (m.register? key).bind (·.value)

/-- The entries that hold a value. -/
def live (m : RegisterMap α) : List (String × Register (Option α)) :=
  m.registers.entries.filter (·.2.value.isSome)

def keys (m : RegisterMap α) : List String := m.live.map (·.1)

def size (m : RegisterMap α) : Nat := m.live.length

/-- Merges each register into its key and its clock into the version. -/
def absorb (m : RegisterMap α) (rs : Registers α) : RegisterMap α :=
  { m with
    version := rs.values.foldl (fun c r => c.join r.clock) m.version
    registers := m.registers.unionWith Register.merge rs }

def merge (m other : RegisterMap α) : RegisterMap α :=
  let merged := m.absorb other.registers
  { merged with version := merged.version.join other.version }

/-- The registers that a reader at `since` has not seen. -/
def delta (m : RegisterMap α) (since : Clock) (now : Millis) : Delta α :=
  ⟨m.owner, now, m.registers.filter fun _ r => !since.descends r.clock⟩

def apply (m : RegisterMap α) (d : Delta α) : RegisterMap α := m.absorb d.changes

/-- Same version and same registers, whoever owns them. -/
def sameState (same : α → α → Bool) (a b : RegisterMap α) : Bool :=
  let sameValue : Option α → Option α → Bool
    | some x, some y => same x y
    | none, none => true
    | _, _ => false
  a.version.alike b.version && a.registers.alikeWith (Register.alike sameValue) b.registers

/-- The same state under the same owner. -/
def alike (same : α → α → Bool) (a b : RegisterMap α) : Bool :=
  a.owner == b.owner && a.sameState same b

end RegisterMap

end ThreatGossip
