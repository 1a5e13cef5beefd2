import ThreatGossip.Clock
/-!
Last-writer-wins registers. Of two causally ordered writes the later holds; of two concurrent ones
the one with the greater timestamp and, at equal timestamps, the greater writer.
-/
namespace ThreatGossip

structure Register (α : Type) where
  value : α
  timestamp : Millis
  clock : Clock
  writer : NodeId
  deriving DecidableEq

namespace Register

variable {α : Type}

def initial (owner : NodeId) (value : α) : Register α := ⟨value, 0, .empty, owner⟩

/-- The wall time of a write, moved past the timestamp that it overwrites. -/
def nextTimestamp (r : Register α) (wall : Millis) : Millis := max wall (satAdd r.timestamp 1)

/-- A write under a clock that the caller has already advanced. -/
def stamp (r : Register α) (writer : NodeId) (value : α) (wall : Millis) (clock : Clock) :
    Register α :=
  ⟨value, r.nextTimestamp wall, clock, writer⟩

/-- A write that counts itself in the register's own clock; nothing when that slot is full. -/
def write? (r : Register α) (writer : NodeId) (value : α) (wall : Millis) :
    Option (Register α) :=
  (r.clock.tick? writer).map (r.stamp writer value wall)

/-- `a` was written at a greater timestamp, or at the same one by a greater writer. -/
def outranks (a b : Register α) : Bool :=
  b.timestamp < a.timestamp || (a.timestamp == b.timestamp && b.writer < a.writer)

/-- The later of two writes with all that both clocks know. -/
def merge (a b : Register α) : Register α :=
  if b.clock.before a.clock then a
  else if a.clock.before b.clock || b.outranks a then { b with clock := a.clock.join b.clock }
  else { a with clock := a.clock.join b.clock }

def alike (same : α → α → Bool) (a b : Register α) : Bool :=
  same a.value b.value && a.timestamp == b.timestamp && a.clock.alike b.clock &&
    a.writer == b.writer

end Register

end ThreatGossip
