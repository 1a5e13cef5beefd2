import ThreatGossip.Proofs.AddWins
import ThreatGossip.Proofs.Operations
import ThreatGossip.Proofs.Paths
import ThreatGossip.Proofs.Replays
import ThreatGossip.Proofs.Transports
/-!
Requests that are refused. Answering is also given as a program that changes the node in place and
takes the status of its answer from what the change came to, as where something is forgotten and the
answer says whether it was known. Whatever the request, and wherever it fails, an answer with a status
of 4xx leaves the node as it was.
-/
namespace ThreatGossip

/-- To forget a peer that is not known changes nothing. -/
theorem Roster.remove_eq_self {r : Roster} {id : NodeId} (unknown : r.contains id = false) :
    r.remove id = r := by
  have peers : r.peers.erase id = r.peers := SortedMap.eq_of_get? fun q => by
    rw [SortedMap.get?_erase]
    split
    next same => exact (same ▸ Option.not_isSome_iff_eq_none.mp (Bool.eq_false_iff.mp unknown)).symm
    next => rfl
  exact congrArg (fun peers => { r with peers }) peers

namespace Http

open Json (Document)

/-- A program over a node that comes to an answer or breaks off. What it changed before stays
changed. -/
abbrev Service := OptionT (StateM Node)

namespace Service

variable {α β : Type}

/-- What a program comes to and the state that it leaves behind. -/
def on (p : Service α) (n : Node) : Option α × Node := p.run.run n

/-- What comes of something that a node may refuse. -/
def outcome (h : Handler α) : Service (Except Refusal α) := liftM (m := StateM Node) h.run

/-- Runs what a node may refuse, and answers either way. -/
def attempt (h : Handler α) (answer : α → Response) : Service Response := do
  match ← outcome h with
  | .ok a => return answer a
  | .error e => return refusalResponse e

/-- Forgets a peer; whether it was known. -/
def forget (id : String) : Service Bool := do
  let n ← get
  set (n.removePeer id)
  return n.peers.contains id

/-- Removes a rule; whether it was active. -/
def retire (rule : String) : Service Bool := do
  let n ← get
  set (n.removeRule rule)
  return n.rules.contains rule

/-- Stores a document; breaks off when the node's clock slot is full. -/
def store (id : String) (d : Document) (now : Millis) : Service Unit := do
  let n ← get
  match n.putThreat? id d now with
  | some next => set next
  | none => failure

def removal (removed : Bool) (reason : String) : Response :=
  if removed then .empty 204 else .error 404 reason

/-- Answers from what the node holds. -/
def tell (answer : Node → Response) : Service Response := return answer (← get)

/-- Answers a request for a resource that has the method, in the order of the text: what is read of
the request, the change of the node, and then the answer. -/
def serve? (s : Surroundings) (r : Request) (t : Target) :
    Resource → String → Option (Service Response)
  | .health, "GET" => some (tell health)
  | .sync, "POST" => some <| match readBody Message.format r s.maxBody with
    | .ok m => attempt (Handler.handle m s.now) fun ack =>
      .json 200 (Acknowledgment.format.write ack)
    | .error response => return response
  | .peers, "POST" => some <| match readBody Introduction.format r s.maxBody with
    | .ok i => attempt (Handler.register i s.now) fun _ =>
      .json 201 (.record [("status", .string "added"), ("id", .string i.id)])
    | .error response => return response
  | .peers, "GET" => some (tell fun n => .json 200 (Summary.format.write n.summary))
  | .peerList, "GET" =>
    some (tell fun n => .json 200 (.list (n.peers.list.map Peer.format.write)))
  | .peer segment, "DELETE" => some <| match segmentText? segment with
    | some id => return removal (← forget id) ("Unknown peer: " ++ id)
    | none => return .plain 400
  | .threats, "POST" => some <| match readBody .document r s.maxBody with
    | .ok d => match (d.string? "id").filter (· ≠ "") with
      | some id => do
        store id d s.now
        return .json 201 (.record [("status", .string "stored"), ("id", .string id)])
      | none => return .error 400 "Threat intel needs a string id"
    | .error response => return response
  | .threats, "GET" => some <| match t.field? "id" with
    | some id => tell fun n => getThreat n id
    | none => return .plain 400
  | .rules, "POST" => some <| match readBody ruleFormat r s.maxBody with
    | .ok rule =>
      if rule = "" then return .error 400 "rule_id cannot be empty"
      else do
        let n ← get
        let tag := Node.mintTag n.id s.nonce s.nanos
        set (n.addRule rule tag)
        return .json 201 (.record [("status", .string "added"), ("rule_id", .string rule),
          ("tag", .string tag)])
    | .error response => return response
  | .rules, "GET" => some (tell listRules)
  | .rule segment, "DELETE" => some <| match segmentText? segment with
    | some rule => return removal (← retire rule) ("Unknown rule: " ++ rule)
    | none => return .plain 400
  | _, _ => none

/-- Answers a request in place. -/
def respond (s : Surroundings) (r : Request) : Service Response :=
  let t := Target.ofString r.target
  match t.segments.bind Resource.ofSegments? with
  | none => return .empty 404
  | some resource =>
    match serve? s r t resource (if r.method = "HEAD" then "GET" else r.method) with
    | some p =>
      if r.method = "HEAD" then return { (← p) with body := .empty } else p
    | none => return .empty 405

section Steps

variable {n : Node}

theorem on_bind (p : Service α) (f : α → Service β) (n : Node) :
    (p >>= f).on n = match p.on n with
      | (some a, next) => (f a).on next
      | (none, left) => (none, left) := by
  unfold on
  rw [OptionT.run_bind]
  change StateT.run (p.run >>= _) n = _
  rw [StateT.run_bind]
  cases outcome : p.run.run n with
  | mk answer next => cases answer <;> rfl

theorem on_outcome (h : Handler α) (n : Node) :
    (outcome h).on n = (some (h.on n).1, (h.on n).2) := rfl

theorem on_attempt (h : Handler α) (answer : α → Response) (n : Node) :
    (attempt h answer).on n = match h.on n with
      | (.ok a, next) => (some (answer a), next)
      | (.error e, left) => (some (refusalResponse e), left) := by
  unfold attempt
  rw [on_bind, on_outcome]
  dsimp only
  cases h.on n with
  | mk answered next => cases answered <;> rfl

theorem on_forget (id : String) (n : Node) :
    (forget id).on n = (some (n.peers.contains id), n.removePeer id) := rfl

theorem on_retire (rule : String) (n : Node) :
    (retire rule).on n = (some (n.rules.contains rule), n.removeRule rule) := rfl

theorem on_store (id : String) (d : Document) (now : Millis) (n : Node) :
    (store id d now).on n = match n.putThreat? id d now with
      | some next => (some (), next)
      | none => (none, n) := by
  unfold store
  rw [on_bind]
  change Service.on (match n.putThreat? id d now with
    | some next => set next
    | none => failure) n = _
  cases n.putThreat? id d now <;> rfl

end Steps

/-- What a service leaves behind when it does what an outcome says. -/
def Yields (p : Service Response) (n : Node) (o : Option Outcome) : Prop :=
  p.on n = (o.map (·.response), o.elim n (·.node))

section Handlers

variable {n : Node}

theorem yields_pure (answer : Response) : Yields (pure answer) n (some (.unchanged n answer)) := rfl

theorem yields_tell (answer : Node → Response) :
    Yields (tell answer) n (some (.unchanged n (answer n))) := rfl

theorem yields_sync (m : Message) (now : Millis) :
    Yields (attempt (Handler.handle m now) fun ack => .json 200 (Acknowledgment.format.write ack)) n
      (some (takeSync n m now)) := by
  unfold Yields takeSync
  rw [on_attempt, Handler.on_handle]
  cases n.handle m now with
  | error e => rfl
  | ok result => rfl

theorem yields_addPeer (i : Introduction) (now : Millis) :
    Yields (attempt (Handler.register i now) fun _ =>
      .json 201 (.record [("status", .string "added"), ("id", .string i.id)])) n
      (some (addPeer n i now)) := by
  unfold Yields addPeer Node.addPeer
  rw [on_attempt, Handler.on_register]
  cases n.peers.register i now with
  | error e => rfl
  | ok peers => rfl

theorem yields_removePeer (id : String) :
    Yields (do return removal (← forget id) ("Unknown peer: " ++ id)) n
      (some (removePeer n id)) := by
  unfold Yields removePeer
  rw [on_bind, on_forget]
  cases known : n.peers.contains id with
  | true => rfl
  | false =>
      change (some _, n.removePeer id) = (some _, n)
      rw [Node.removePeer, Roster.remove_eq_self known]
      rfl

theorem yields_putThreat (d : Document) (now : Millis) :
    Yields (match (d.string? "id").filter (· ≠ "") with
      | some id => do
        store id d now
        return .json 201 (.record [("status", .string "stored"), ("id", .string id)])
      | none => return .error 400 "Threat intel needs a string id") n (putThreat n d now) := by
  unfold Yields putThreat
  cases (d.string? "id").filter (· ≠ "") with
  | none => rfl
  | some id =>
      dsimp only
      rw [on_bind, on_store]
      cases n.putThreat? id d now <;> rfl

theorem yields_removeRule (rule : String) :
    Yields (do return removal (← retire rule) ("Unknown rule: " ++ rule)) n
      (some (removeRule n rule)) := by
  unfold Yields removeRule
  rw [on_bind, on_retire]
  cases n.rules.contains rule <;> rfl

end Handlers

theorem yields_serve? (s : Surroundings) (n : Node) (r : Request) (t : Target)
    (resource : Resource) (method : String) :
    Option.Rel (fun p o => Yields p n o) (serve? s r t resource method)
      (Http.serve? s n r t resource method) := by
  unfold serve?
  split <;> unfold Http.serve?
  · exact .some (yields_tell _)
  · refine .some ?_
    cases readBody Message.format r s.maxBody with
    | ok m => exact yields_sync m s.now
    | error response => exact yields_pure response
  · refine .some ?_
    cases readBody Introduction.format r s.maxBody with
    | ok i => exact yields_addPeer i s.now
    | error response => exact yields_pure response
  · exact .some (yields_tell _)
  · exact .some (yields_tell _)
  · refine .some ?_
    cases segmentText? _ with
    | some id => exact yields_removePeer id
    | none => exact yields_pure _
  · refine .some ?_
    cases readBody .document r s.maxBody with
    | ok d => exact yields_putThreat d s.now
    | error response => exact yields_pure response
  · refine .some ?_
    cases t.field? "id" with
    | some id => exact yields_tell _
    | none => exact yields_pure _
  · refine .some ?_
    cases readBody ruleFormat r s.maxBody with
    | ok rule =>
        unfold addRule
        dsimp only
        split
        · exact yields_pure _
        · rfl
    | error response => exact yields_pure response
  · exact .some (yields_tell _)
  · refine .some ?_
    cases segmentText? _ with
    | some rule => exact yields_removeRule rule
    | none => exact yields_pure _
  · next peer _ _ _ _ rule =>
    -- what is not served in place is not served at all
    split <;> first
      | contradiction
      | exact (peer _ rfl rfl).elim
      | exact (rule _ rfl rfl).elim
      | exact .none

/-- Answering in place ends as answering does. -/
theorem yields_respond (s : Surroundings) (n : Node) (r : Request) :
    Yields (respond s r) n (Http.respond s n r) := by
  unfold respond Http.respond
  dsimp only
  cases (Target.ofString r.target).segments.bind Resource.ofSegments? with
  | none => exact yields_pure _
  | some resource =>
      have served := yields_serve? s n r (Target.ofString r.target) resource
        (if r.method = "HEAD" then "GET" else r.method)
      dsimp only
      generalize serve? s r _ resource _ = p at served ⊢
      generalize Http.serve? s n r _ resource _ = o at served ⊢
      cases served with
      | none => exact yields_pure _
      | @some p o same =>
          dsimp only
          split
          · unfold Yields at same ⊢
            rw [on_bind, same]
            cases o <;> rfl
          · exact same

end Service

section Effects

variable {s : Surroundings} {n : Node} {r : Request} {o : Outcome}

/-- What a request does to a node, with the status of the answer to it. -/
inductive Effect (s : Surroundings) (n : Node) (r : Request) : Node → Nat → Prop
  | nothing (status : Nat) : Effect s n r n status
  | heard {m : Message} {next : Node} {ack : Acknowledgment} :
      readBody Message.format r s.maxBody = .ok m → n.handle m s.now = .ok (next, ack) →
      Effect s n r next 200
  | registered {i : Introduction} {next : Node} : n.addPeer i s.now = .ok next →
      Effect s n r next 201
  | forgotten (id : String) : Effect s n r (n.removePeer id) 204
  | stored {id : String} {d : Document} {next : Node} : n.putThreat? id d s.now = some next →
      Effect s n r next 201
  | added (rule tag : String) : Effect s n r (n.addRule rule tag) 201
  | removed (rule : String) :
      Effect s n r (n.removeRule rule) (if n.rules.contains rule then 204 else 404)

theorem effect_takeSync {m : Message} (read : readBody Message.format r s.maxBody = .ok m) :
    Effect s n r (takeSync n m s.now).node (takeSync n m s.now).response.status := by
  unfold takeSync
  cases handled : n.handle m s.now with
  | ok result => exact .heard read handled
  | error e => exact .nothing _

theorem effect_addPeer (i : Introduction) :
    Effect s n r (addPeer n i s.now).node (addPeer n i s.now).response.status := by
  unfold addPeer
  cases added : n.addPeer i s.now with
  | ok next => exact .registered added
  | error e => exact .nothing _

theorem effect_removePeer (id : String) :
    Effect s n r (removePeer n id).node (removePeer n id).response.status := by
  unfold removePeer
  split
  · exact .forgotten id
  · exact .nothing _

theorem effect_putThreat {d : Document} (put : putThreat n d s.now = some o) :
    Effect s n r o.node o.response.status := by
  unfold putThreat at put
  split at put
  next id named =>
    obtain ⟨next, stored, rfl⟩ := Option.map_eq_some_iff.mp put
    exact .stored stored
  next =>
    obtain rfl := Option.some.inj put
    exact .nothing _

theorem effect_addRule (rule : String) :
    Effect s n r (addRule n rule s).node (addRule n rule s).response.status := by
  unfold addRule
  split
  · exact .nothing _
  · exact .added rule _

theorem effect_removeRule (rule : String) :
    Effect s n r (removeRule n rule).node (removeRule n rule).response.status := by
  have effect : Effect s n r (n.removeRule rule) _ := .removed rule
  unfold removeRule
  cases active : n.rules.contains rule <;> rw [active] at effect <;> exact effect

theorem effect_serve? {t : Target} {resource : Resource} {method : String}
    (served : serve? s n r t resource method = some (some o)) :
    Effect s n r o.node o.response.status := by
  unfold serve? at served
  split at served
  case h_7 =>
    cases read : readBody .document r s.maxBody with
    | ok d =>
        rw [read] at served
        exact effect_putThreat (Option.some.inj served)
    | error response =>
        rw [read] at served
        obtain rfl := Option.some.inj (Option.some.inj served)
        exact .nothing _
  case h_12 => nomatch served
  all_goals
    obtain rfl := Option.some.inj (Option.some.inj served)
  case h_2 =>
    cases read : readBody Message.format r s.maxBody with
    | ok m => exact effect_takeSync read
    | error response => exact .nothing _
  case h_3 =>
    cases readBody Introduction.format r s.maxBody with
    | ok i => exact effect_addPeer i
    | error response => exact .nothing _
  case h_6 segment =>
    cases segmentText? segment with
    | some id => exact effect_removePeer id
    | none => exact .nothing _
  case h_8 => cases t.field? "id" <;> exact .nothing _
  case h_9 =>
    cases readBody ruleFormat r s.maxBody with
    | ok rule => exact effect_addRule rule
    | error response => exact .nothing _
  case h_11 segment =>
    cases segmentText? segment with
    | some rule => exact effect_removeRule rule
    | none => exact .nothing _
  all_goals exact .nothing _

theorem effect_respond (answered : respond s n r = some o) :
    Effect s n r o.node o.response.status := by
  unfold respond at answered
  dsimp only at answered
  split at answered
  next =>
    obtain rfl := Option.some.inj answered
    exact .nothing _
  next resource _ =>
  split at answered
  next outcome served =>
    split at answered
    next =>
      obtain ⟨whole, rfl, rfl⟩ := Option.map_eq_some_iff.mp answered
      have effect : Effect s n r whole.node whole.response.status := effect_serve? served
      exact effect
    next =>
      subst answered
      exact effect_serve? served
  next =>
    obtain rfl := Option.some.inj answered
    exact .nothing _

/-- A node in which every rule has a tag keeps that, where a message that it takes in brings no rule
without one. -/
theorem tagged_of_effect {next : Node} {status : Nat} (effect : Effect s n r next status)
    (tagged : ObservedSet.Tagged n.rules.added)
    (honest : ∀ m brought, readBody Message.format r s.maxBody = .ok m → m.brings = some brought →
      ObservedSet.Tagged brought.rules.added) : ObservedSet.Tagged next.rules.added := by
  cases effect with
  | nothing => exact tagged
  | @heard m next ack read handled =>
      have content := congrArg Snapshot.rules (Node.snapshot_of_handle handled).1
      cases brings : m.brings with
      | none =>
          rw [brings] at content
          change next.rules = n.rules at content
          exact content ▸ tagged
      | some brought =>
          rw [brings] at content
          change next.rules = n.rules.merge brought.rules at content
          exact content ▸ tagged.unionWith (honest m brought read brings)
  | registered added =>
      obtain ⟨peers, -, rfl⟩ := Node.addPeer_spec added
      exact tagged
  | forgotten => exact tagged
  | stored put =>
      obtain ⟨threats, -, rfl⟩ := Option.map_eq_some_iff.mp put
      exact tagged
  | added rule tag => exact tagged.insert (SortedSet.contains_add.mpr (.inl rfl))
  | removed rule =>
      change ObservedSet.Tagged (n.rules.erase rule).added
      exact (ObservedSet.added_erase n.rules rule).symm ▸ tagged

/-- A status of 4xx says that the node is the same, where every rule has a tag. -/
theorem eq_of_effect {next : Node} {status : Nat} (effect : Effect s n r next status)
    (tagged : ObservedSet.Tagged n.rules.added) (refused : status / 100 = 4) : next = n := by
  cases effect with
  | nothing => rfl
  | heard => nomatch refused
  | registered => nomatch refused
  | forgotten => nomatch refused
  | stored => nomatch refused
  | added => nomatch refused
  | removed rule =>
      cases active : n.rules.contains rule with
      | true =>
          rw [active] at refused
          nomatch refused
      | false =>
          -- The removal is made before its answer is known; it finds nothing to remove.
          exact congrArg (fun rules => { n with rules }) (tagged.erase_eq_self active)

end Effects

/-- A node in which every rule has a tag is left exactly as it was by every request that is answered
with a status of 4xx, whether the change is made in place or only kept with the answer. Its rules keep
their tags whatever is asked, unless a message brings a rule that has none. -/
theorem refused_requests_change_nothing (s : Surroundings) (n : Node) (r : Request)
    (tagged : ObservedSet.Tagged n.rules.added) :
    (∀ o, respond s n r = some o → o.response.status / 100 = 4 → o.node = n) ∧
      (∀ response left, (Service.respond s r).on n = (some response, left) →
        response.status / 100 = 4 → left = n) ∧
      ∀ o, respond s n r = some o →
        (∀ m brought, readBody Message.format r s.maxBody = .ok m → m.brings = some brought →
          ObservedSet.Tagged brought.rules.added) → ObservedSet.Tagged o.node.rules.added := by
  refine ⟨fun o answered refused => eq_of_effect (effect_respond answered) tagged refused,
    fun response left ran refused => ?_,
    fun o answered honest => tagged_of_effect (effect_respond answered) tagged honest⟩
  have same : (some response, left) =
      ((respond s n r).map (·.response), (respond s n r).elim n (·.node)) :=
    ran.symm.trans (Service.yields_respond s n r)
  cases answered : respond s n r with
  | none =>
      rw [answered] at same
      nomatch same
  | some o =>
      rw [answered] at same
      cases same
      exact eq_of_effect (effect_respond answered) tagged refused

section Removal

/-- A node that had a rule and has removed it: the rule's tags stay. -/
def pruned : Node := ((Node.empty "a").addRule "r" "t").removeRule "r"

def again : Request := ⟨"DELETE", "/federation/rules/r", none, ""⟩

def quiet : Surroundings := ⟨5, 0, 0, 0⟩

/-- To remove a rule once more is refused, and leaves its tags as they were. -/
theorem second_removal_changes_nothing :
    (∃ o, respond quiet pruned again = some o ∧ o.response.status = 404 ∧ o.node = pruned) ∧
      (Service.respond quiet again).on pruned = (some (.error 404 "Unknown rule: r"), pruned) := by
  have bare : ObservedSet.Tagged (ObservedSet.empty : ObservedSet String).added := nofun
  have tagged : ObservedSet.Tagged pruned.rules.added :=
    (ObservedSet.added_erase (ObservedSet.empty.insert "r" "t") "r").symm ▸
      bare.insert (SortedSet.contains_add.mpr (.inl rfl))
  obtain ⟨kept, inPlace, -⟩ := refused_requests_change_nothing quiet pruned again tagged
  have answered : respond quiet pruned again = some
      ⟨pruned.removeRule "r", .error 404 "Unknown rule: r", false⟩ := by
    have routed : again.resource? = some (.rule "r") := by decide
    have gone : ¬pruned.rules.contains "r" = true := by decide
    have text : "Unknown rule: " ++ "r" = "Unknown rule: r" := by simp
    rw [respond_rule routed rfl (Encoding.common.segmentText?_text "r"), removeRule, if_neg gone,
      text]
  refine ⟨⟨_, answered, rfl, kept _ answered rfl⟩, ?_⟩
  have ran := Service.yields_respond quiet pruned again
  unfold Service.Yields at ran
  rw [answered] at ran
  exact ran.trans (congrArg (Prod.mk _) (inPlace _ _ ran rfl))

end Removal

end Http

end ThreatGossip
