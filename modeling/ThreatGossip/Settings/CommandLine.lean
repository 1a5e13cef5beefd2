import ThreatGossip.Settings.Basic
/-!
Settings from a command line. Options are long (`--fanout 3`, `--fanout=3`) or short (`-l ADDRESS`,
`-vlADDRESS`). A value in an argument of its own is taken in when the next option begins or the line
ends, so a mistake in the option after it is reported first.
-/
namespace ThreatGossip.Settings

inductive UsageError where
  /-- An option there is no such, or an argument that belongs to none. -/
  | unknownArgument
  /-- A value that cannot be read. -/
  | unreadableValue
  /-- An option without its value. -/
  | missingValue
  /-- An option given twice. -/
  | repeated
  /-- A value for an option that takes none. -/
  | surplusValue
  | helpAsked
  deriving DecidableEq, Repr

inductive Key where
  | listen
  | nodeId
  | bootstrap
  | interval
  | fanout
  | timeout
  | eviction
  | maxBody
  | logFormat
  deriving DecidableEq, Repr

inductive Flag where
  | verbose
  | help
  deriving DecidableEq, Repr

inductive Switch where
  | key (k : Key)
  | flag (f : Flag)
  deriving DecidableEq, Repr

def Switch.ofLong? (name : String) : Option Switch :=
  [("listen", key .listen), ("node-id", key .nodeId), ("bootstrap", key .bootstrap),
    ("sync-interval-secs", key .interval), ("fanout", key .fanout),
    ("rpc-timeout-ms", key .timeout), ("peer-eviction-secs", key .eviction),
    ("max-body-bytes", key .maxBody), ("log-format", key .logFormat), ("verbose", flag .verbose),
    ("help", flag .help)].lookup name

def Switch.ofShort? : Char → Option Switch
  | 'l' => some (key .listen)
  | 'v' => some (flag .verbose)
  | 'h' => some (flag .help)
  | _ => none

/-- A 64-bit count in decimal; a plus sign may stand before it. -/
def count? (s : String) : Option Nat :=
  let ds := match s.toList with
    | '+' :: ds => ds
    | ds => ds
  if ds.isEmpty ∨ !ds.all Char.isDigit then none
  else
    let n := Nat.ofDigitChars 10 ds 0
    if n < UInt64.size then some n else none

def splitCommas : List Char → List (List Char)
  | [] => [[]]
  | ',' :: rest => [] :: splitCommas rest
  | c :: rest =>
    match splitCommas rest with
    | piece :: pieces => (c :: piece) :: pieces
    | [] => [[c]]

/-- What has been read of a line: the settings, which options were given, and an option whose
value is not taken in yet, with that value if it was met. -/
structure Progress where
  settings : Settings
  given : List Switch
  pending : Option (Key × Option String)

namespace Progress

def store (s : Settings) (k : Key) (value : String) : Option Settings :=
  match k with
  | .listen => (SocketAddress.parse? value).map fun a => { s with listen := a }
  | .nodeId => some { s with nodeId := some value }
  | .bootstrap =>
    ((splitCommas value.toList).mapM fun piece =>
      (BootstrapPeer.parse (String.ofList piece)).toOption).map fun peers =>
        { s with bootstrap := s.bootstrap ++ peers }
  | .interval => (count? value).map fun n => { s with intervalSeconds := n }
  | .fanout => (count? value).map fun n => { s with fanout := n }
  | .timeout => (count? value).map fun n => { s with timeoutMillis := n }
  | .eviction => (count? value).map fun n => { s with evictionSeconds := n }
  | .maxBody => (count? value).map fun n => { s with maxBody := n }
  | .logFormat => some { s with logFormat := value }

/-- Takes in a value; only bootstrap peers may be given more than once. -/
def assign (p : Progress) (k : Key) (value : String) : Except UsageError Progress :=
  if k ≠ .bootstrap ∧ p.given.contains (.key k) then .error .repeated
  else match store p.settings k value with
    | some settings => .ok { p with settings, given := .key k :: p.given }
    | none => .error .unreadableValue

def settle (p : Progress) : Except UsageError Progress :=
  match p.pending with
  | none => .ok p
  | some (_, none) => .error .missingValue
  | some (k, some value) => { p with pending := none }.assign k value

def raise (p : Progress) (f : Flag) : Except UsageError Progress := do
  let p ← p.settle
  match f with
  | .help => .error .helpAsked
  | .verbose =>
    if p.given.contains (.flag .verbose) then .error .repeated
    else .ok { p with
      settings := { p.settings with verbose := true }
      given := .flag .verbose :: p.given }

/-- An option with the value that was attached to it, if there was one. -/
def option (p : Progress) (k : Key) (attached : Option String) : Except UsageError Progress := do
  let p ← p.settle
  match attached with
  | some value => p.assign k value
  | none => .ok { p with pending := some (k, none) }

def long (p : Progress) (text : List Char) : Except UsageError Progress :=
  let name := String.ofList (text.takeWhile (· != '='))
  let attached := match text.dropWhile (· != '=') with
    | _ :: value => some (String.ofList value)
    | [] => none
  match Switch.ofLong? name, attached with
  | none, _ => .error .unknownArgument
  | some (.flag _), some _ => .error .surplusValue
  | some (.flag f), none => p.raise f
  | some (.key k), attached => p.option k attached

/-- Short options in one argument; what follows one that takes a value is that value. -/
def short (p : Progress) : List Char → Except UsageError Progress
  | [] => .ok p
  | c :: rest =>
    match Switch.ofShort? c with
    | none => .error .unknownArgument
    | some (.flag f) => do
      let p ← p.raise f
      p.short rest
    | some (.key k) =>
      p.option k (match rest with
        | [] => none
        | '=' :: value => some (String.ofList value)
        | value => some (String.ofList value))

/-- An argument that looks like no option: the value of the option before it, or a stray. -/
def value (p : Progress) (text : String) : Except UsageError Progress :=
  match p.pending with
  | some (k, none) => .ok { p with pending := some (k, some text) }
  | _ => .error .unknownArgument

/-- All arguments in order; nothing may follow a lone double dash. -/
def run (p : Progress) : List String → Except UsageError Progress
  | [] => p.settle
  | arg :: args =>
    match arg.toList with
    | ['-', '-'] => if args.isEmpty then p.settle else .error .unknownArgument
    | '-' :: '-' :: text => do
      let p ← p.long text
      p.run args
    | '-' :: c :: text => do
      let p ← p.short (c :: text)
      p.run args
    | _ => do
      let p ← p.value arg
      p.run args

end Progress

/-- The settings of a command line; the node id may also come from the environment. -/
def ofArguments (args : List String) (environmentId : Option String) :
    Except UsageError Settings := do
  let p ← Progress.run ⟨standard, [], none⟩ args
  .ok { p.settings with nodeId := p.settings.nodeId.or environmentId }

end ThreatGossip.Settings
