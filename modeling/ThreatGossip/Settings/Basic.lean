import ThreatGossip.Peer
import ThreatGossip.Settings.SocketAddress
import ThreatGossip.Text.Blank
import ThreatGossip.Text.Quoted
/-!
The settings of a node, and when they are acceptable.
-/
namespace ThreatGossip

structure BootstrapPeer where
  id : String
  address : String
  deriving DecidableEq, Repr

namespace BootstrapPeer

/-- Splits at the first `@`; nothing when there is none. -/
def splitAt? : List Char → Option (List Char × List Char)
  | [] => none
  | '@' :: rest => some ([], rest)
  | c :: rest => (splitAt? rest).map fun (left, right) => (c :: left, right)

/-- Reads `id@address`; both must be there. Blanks around the whole do not count. -/
def parse (s : String) : Except String BootstrapPeer :=
  match splitAt? (Text.trim s.toList) with
  | some (id@(_ :: _), address@(_ :: _)) => .ok ⟨String.ofList id, String.ofList address⟩
  | _ => .error ("expected id@host:port, got " ++ Text.quote s)

/-- A bootstrap peer as it is registered: without a key or a trust score. -/
def introduction (p : BootstrapPeer) : Introduction := ⟨p.id, p.address, [], none⟩

end BootstrapPeer

structure Settings where
  listen : SocketAddress
  nodeId : Option String
  bootstrap : List BootstrapPeer
  intervalSeconds : Nat
  fanout : Nat
  timeoutMillis : Nat
  evictionSeconds : Nat
  maxBody : Nat
  verbose : Bool
  logFormat : String

namespace Settings

def standard : Settings where
  listen := .v4 0 0 0 0 8080
  nodeId := none
  bootstrap := []
  intervalSeconds := 30
  fanout := 3
  timeoutMillis := 5000
  evictionSeconds := 3600
  maxBody := 10485760
  verbose := false
  logFormat := "pretty"

inductive Problem where
  | blankNodeId
  | zeroInterval
  | zeroFanout
  | zeroTimeout
  | unknownLogFormat (name : String)
  | bootstrapsSelf (id : String)
  deriving DecidableEq, Repr

def Problem.message : Problem → String
  | blankNodeId => "Node id cannot be empty"
  | zeroInterval => "Sync interval must be at least one second"
  | zeroFanout => "Fanout must be at least 1"
  | zeroTimeout => "RPC timeout must be positive"
  | unknownLogFormat name => "Unknown log format: " ++ name
  | bootstrapsSelf id => "Bootstrap list contains this node (" ++ id ++ ")"

/-- The id in force; `fallback` is what a node without a given one is called. -/
def nodeIdOr (s : Settings) (fallback : String) : String := s.nodeId.getD fallback

def problem? (s : Settings) (fallback : String) : Option Problem :=
  if s.nodeId.any Text.allBlank then some .blankNodeId
  else if s.intervalSeconds = 0 then some .zeroInterval
  else if s.fanout = 0 then some .zeroFanout
  else if s.timeoutMillis = 0 then some .zeroTimeout
  else if s.logFormat ≠ "json" ∧ s.logFormat ≠ "pretty" then some (.unknownLogFormat s.logFormat)
  else if s.bootstrap.any (·.id == s.nodeIdOr fallback) then
    some (.bootstrapsSelf (s.nodeIdOr fallback))
  else none

end Settings

end ThreatGossip
