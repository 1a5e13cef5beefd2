import ThreatGossip.Settings.CommandLine
import ThreatGossip.Settings.Start
/-!
What the program says of a command line: the settings in force and the node they start, or why there
is none.
-/
namespace ThreatGossip

namespace Settings

def UsageError.message : UsageError → String
  | unknownArgument => "there is no such argument"
  | unreadableValue => "a value cannot be read"
  | missingValue => "an option is without its value"
  | repeated => "an option is given twice"
  | surplusValue => "an option that takes no value has one"
  | helpAsked => "help was asked for"

def help : List String :=
  ["Options:",
   "  -l, --listen ADDRESS            where to listen",
   "      --node-id NAME              the node's name (also NODE_ID in the environment)",
   "      --bootstrap ID@HOST:PORT    peers to start from, between commas",
   "      --sync-interval-secs N      seconds between rounds",
   "      --fanout N                  peers in a round",
   "      --rpc-timeout-ms N          milliseconds to wait for a peer",
   "      --peer-eviction-secs N      silence after which a stale peer is forgotten; 0 for never",
   "      --max-body-bytes N          the longest request body",
   "  -v, --verbose                   say more",
   "      --log-format FORMAT         json or pretty",
   "  -h, --help                      these lines"]

/-- Lines of text, and the code to leave with. -/
structure Report where
  lines : List String
  code : UInt32

namespace Report

def ofStart (s : Settings) (start : Start) : Report where
  lines :=
    ["node " ++ start.node.id ++ " on " ++ s.listen.text,
     "every " ++ durationText s.policy.interval ++ ", fanout " ++ toString s.policy.fanout ++
       ", timeout " ++ durationText s.policy.timeout] ++
    (start.node.peers.list.map fun p => "peer " ++ p.id ++ " at " ++ p.address) ++
    (start.skipped.map fun (p, e) => "skipped " ++ p.id ++ ": " ++ e.message)
  code := 0

def ofArguments (args : List String) (environmentId : Option String) (fallback : String) :
    Report :=
  match Settings.ofArguments args environmentId with
  | .error .helpAsked => ⟨help, 0⟩
  | .error e => ⟨["error: " ++ e.message], 2⟩
  | .ok s =>
    match s.problem? fallback with
    | some p => ⟨["Invalid configuration: " ++ p.message], 1⟩
    | none => ofStart s (s.start fallback 0)

end Report

end Settings

end ThreatGossip
