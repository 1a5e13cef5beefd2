import ThreatGossip.Proofs.AddWins
import ThreatGossip.Proofs.Json.RoundTrips
import ThreatGossip.Proofs.Operations
import ThreatGossip.Proofs.Paths
import ThreatGossip.Proofs.Transports
/-!
What is registered over HTTP and removed again. An id stands in a body as any text, and in the path of
its removal percent-encoded. Every rule can be removed under its path, and every peer but one: the
path of a peer named `list` is that of the list of peers.
-/
namespace ThreatGossip

section Gone

theorem Node.get?_removePeer (n : Node) (id other : NodeId) :
    (n.removePeer id).peers.get? other = if other = id then none else n.peers.get? other :=
  SortedMap.get?_erase _ _ _

/-- A set has all its items but the one that was removed. -/
theorem ObservedSet.contains_erase {s : ObservedSet String} {item other : String} :
    (s.erase item).contains other = true ↔ other ≠ item ∧ s.contains other = true := by
  rw [contains_iff, contains_iff, added_erase]
  constructor
  · rintro ⟨tag, added, kept⟩
    rw [bears_erase, not_or, not_and] at kept
    have differs : other ≠ item := by
      intro same
      exact kept.1 same (same ▸ added)
    exact ⟨differs, tag, added, kept.2⟩
  · rintro ⟨differs, tag, added, kept⟩
    refine ⟨tag, added, ?_⟩
    rw [bears_erase, not_or, not_and]
    exact ⟨fun same => (differs same).elim, kept⟩

end Gone

namespace Http

open Json (Tree)

variable {s : Surroundings} {n : Node} {r : Request} {o : Outcome}

section Registrations

/-- A peer that was registered was read from the body, and the node knows it. -/
theorem introduced_spec (routed : r.resource? = some .peers) (posted : r.method = "POST")
    (answered : respond s n r = some o) (created : o.response.status = 201) :
    ∃ i, readBody Introduction.format r s.maxBody = .ok i ∧ i.id ≠ "" ∧
      o.response = .json 201 (.record [("status", .string "added"), ("id", .string i.id)]) ∧
      o.node.peers.contains i.id = true := by
  have served := respond_routed (s := s) (n := n) routed posted (by decide) rfl
  rw [answered] at served
  have served := Option.some.inj served
  cases read : readBody Introduction.format r s.maxBody with
  | error response =>
      rw [read] at served
      subst served
      have refused : 201 / 100 = 4 := created ▸ status_of_readBody read
      nomatch refused
  | ok i =>
      have served : o = addPeer n i s.now := by rw [served, read]
      subst served
      unfold addPeer at created ⊢
      cases added : n.addPeer i s.now with
      | error e =>
          rw [added] at created
          cases e <;> nomatch created
      | ok next =>
          obtain ⟨peers, registered, rfl⟩ := Node.addPeer_spec added
          obtain ⟨-, named, p, rfl, -⟩ := Roster.register_spec registered
          refine ⟨i, rfl, named, rfl, ?_⟩
          rw [Roster.contains_iff]
          refine ⟨p, ?_⟩
          exact (SortedMap.get?_insert _ _ _ _).trans (if_pos rfl)

/-- A rule that was registered was read from the body, and has got a new tag. -/
theorem ruled_spec (routed : r.resource? = some .rules) (posted : r.method = "POST")
    (answered : respond s n r = some o) (created : o.response.status = 201) :
    ∃ rule, readBody ruleFormat r s.maxBody = .ok rule ∧ rule ≠ "" ∧
      o.response = .json 201 (.record [("status", .string "added"), ("rule_id", .string rule),
        ("tag", .string (Node.mintTag n.id s.nonce s.nanos))]) ∧
      o.node = n.addRule rule (Node.mintTag n.id s.nonce s.nanos) := by
  have served := respond_routed (s := s) (n := n) routed posted (by decide) rfl
  rw [answered] at served
  have served := Option.some.inj served
  cases read : readBody ruleFormat r s.maxBody with
  | error response =>
      rw [read] at served
      subst served
      have refused : 201 / 100 = 4 := created ▸ status_of_readBody read
      nomatch refused
  | ok rule =>
      have served : o = addRule n rule s := by rw [served, read]
      subst served
      unfold addRule at created ⊢
      split at created
      next => nomatch created
      next named => exact ⟨rule, rfl, named, by rw [if_neg named], by rw [if_neg named]⟩

end Registrations

section Paths

variable (e : Encoding) {id rule : String}

def peerPath (id : String) : String := "/federation/peers/" ++ e.text id

def rulePath (rule : String) : String := "/federation/rules/" ++ e.text rule

/-- The last segment of a path with two fixed ones before it. -/
theorem segments_under {folder kind : String} (fixed : Clear folder.toList ∧ Clear kind.toList)
    (id : String) : (Target.ofString (pathOf [folder, kind, e.text id])).segments =
      some [folder, kind, e.text id] := by
  apply segments_pathOf
  intro segment listed
  simp only [List.mem_cons, List.not_mem_nil, or_false] at listed
  rcases listed with rfl | rfl | rfl
  · exact fixed.1
  · exact fixed.2
  · exact e.clear_text id

theorem peerPath_eq (id : String) : peerPath e id = pathOf ["federation", "peers", e.text id] := by
  have folder : "/" ++ "federation" ++ "/" ++ "peers" ++ "/" = "/federation/peers/" := by simp
  have joined := pathOf_under "federation" "peers" (e.text id)
  rw [folder] at joined
  exact joined.symm

theorem rulePath_eq (rule : String) :
    rulePath e rule = pathOf ["federation", "rules", e.text rule] := by
  have folder : "/" ++ "federation" ++ "/" ++ "rules" ++ "/" = "/federation/rules/" := by simp
  have joined := pathOf_under "federation" "rules" (e.text rule)
  rw [folder] at joined
  exact joined.symm

/-- The path of a peer leads to it, unless it is that of the list of peers. -/
theorem resource?_peerPath (path : r.target = peerPath e id) (named : id ≠ "") :
    r.resource? = some (if e.text id = "list" then .peerList else .peer (e.text id)) := by
  unfold Request.resource?
  rw [path, peerPath_eq, segments_under e (by decide)]
  have written := e.text_ne_empty named
  generalize e.text id = segment at written ⊢
  split
  next list => rw [list]; rfl
  next other =>
    change Resource.ofSegments? ["federation", "peers", segment] = _
    rw [Resource.ofSegments?, if_neg written]
    exact other

theorem resource?_rulePath (path : r.target = rulePath e rule) (named : rule ≠ "") :
    r.resource? = some (.rule (e.text rule)) := by
  unfold Request.resource?
  rw [path, rulePath_eq, segments_under e (by decide)]
  exact if_neg (e.text_ne_empty named)

end Paths

section Removals

variable (e : Encoding) {id rule : String}

/-- A known peer is forgotten at its path, if that is not the path of the list. -/
theorem respond_forget (known : n.peers.contains id = true) (named : id ≠ "")
    (deleted : r.method = "DELETE") (path : r.target = peerPath e id) :
    respond s n r = if e.text id = "list" then some (.unchanged n (.empty 405))
      else some ⟨n.removePeer id, .empty 204, false⟩ := by
  have routed := resource?_peerPath e path named
  split
  next list =>
    rw [if_pos list] at routed
    exact respond_unserved routed deleted (by decide) rfl
  next other =>
    rw [if_neg other] at routed
    rw [respond_peer routed deleted (e.segmentText?_text id)]
    exact congrArg some (if_pos known)

/-- An active rule is removed at its path. -/
theorem respond_retire (active : n.rules.contains rule = true) (named : rule ≠ "")
    (deleted : r.method = "DELETE") (path : r.target = rulePath e rule) :
    respond s n r = some ⟨n.removeRule rule, .empty 204, false⟩ := by
  have routed := resource?_rulePath e path named
  rw [respond_rule routed deleted (e.segmentText?_text rule)]
  exact congrArg some (if_pos active)

end Removals

/-- Whatever was registered can be removed under its path, once percent-encoded, from every node that
still has it, and nothing else goes with it. Only a peer whose id is written `list` cannot: its path
is that of the list of peers, which has no such method. A rule is active once it is registered, unless
its new tag had been removed before. -/
theorem registrations_can_be_removed (e : Encoding) (posted : r.method = "POST")
    (answered : respond s n r = some o) (created : o.response.status = 201) :
    (r.resource? = some .peers → ∃ i, readBody Introduction.format r s.maxBody = .ok i ∧
      o.response = .json 201 (.record [("status", .string "added"), ("id", .string i.id)]) ∧
      o.node.peers.contains i.id = true ∧
      ∀ (s' : Surroundings) (later : Node) (r' : Request), later.peers.contains i.id = true →
        r'.method = "DELETE" → r'.target = peerPath e i.id →
        (e.text i.id ≠ "list" →
          respond s' later r' = some ⟨later.removePeer i.id, .empty 204, false⟩ ∧
          ∀ id, (later.removePeer i.id).peers.get? id =
            if id = i.id then none else later.peers.get? id) ∧
        (e.text i.id = "list" →
          i.id = "list" ∧ respond s' later r' = some (.unchanged later (.empty 405)))) ∧
    (r.resource? = some .rules → ∃ rule, readBody ruleFormat r s.maxBody = .ok rule ∧
      o.response = .json 201 (.record [("status", .string "added"), ("rule_id", .string rule),
        ("tag", .string (Node.mintTag n.id s.nonce s.nanos))]) ∧
      (¬ObservedSet.Bears n.rules.removed rule (Node.mintTag n.id s.nonce s.nanos) →
        o.node.rules.contains rule = true) ∧
      ∀ (s' : Surroundings) (later : Node) (r' : Request), later.rules.contains rule = true →
        r'.method = "DELETE" → r'.target = rulePath e rule →
        respond s' later r' = some ⟨later.removeRule rule, .empty 204, false⟩ ∧
          ∀ other, (later.removeRule rule).rules.contains other = true ↔
            other ≠ rule ∧ later.rules.contains other = true) := by
  constructor
  · intro routed
    obtain ⟨i, read, named, response, known⟩ := introduced_spec routed posted answered created
    refine ⟨i, read, response, known, ?_⟩
    intro s' later r' known deleted path
    have forgotten := respond_forget (s := s') e known named deleted path
    constructor
    · intro other
      rw [if_neg other] at forgotten
      exact ⟨forgotten, Node.get?_removePeer later i.id⟩
    · intro list
      rw [if_pos list] at forgotten
      have spelled := e.segmentText?_text i.id
      rw [list] at spelled
      have plain : segmentText? "list" = some "list" := Encoding.common.segmentText?_text "list"
      exact ⟨Option.some.inj (spelled.symm.trans plain), forgotten⟩
  · intro routed
    obtain ⟨rule, read, named, response, added⟩ := ruled_spec routed posted answered created
    refine ⟨rule, read, response, ?_, ?_⟩
    · intro fresh
      rw [added]
      exact ObservedSet.contains_iff.mpr ⟨_, ObservedSet.bears_insert.mpr (.inl ⟨rfl, rfl⟩), fresh⟩
    · intro s' later r' active deleted path
      exact ⟨respond_retire e active named deleted path, fun _ => ObservedSet.contains_erase⟩

section Bodies

variable {id address rule : String}

/-- A request that introduces a peer. -/
def introducing (id address : String) : Request :=
  ⟨"POST", "/federation/peers", some "application/json",
    (Tree.record [("id", .string id), ("address", .string address)]).text⟩

/-- A request that registers a rule. -/
def ruling (rule : String) : Request :=
  ⟨"POST", "/federation/rules", some "application/json", ruleFormat.encode rule⟩

/-- Surroundings in which the body of a request just fits. -/
def tight (r : Request) : Surroundings := ⟨5, 0, 0, r.body.utf8ByteSize⟩

theorem readBody_fitting {α : Type} {f : Json.Format α} {a : α} {r : Request}
    (type : r.contentType = some "application/json") (front : f.decodeFront r.body = .ok a)
    (fits : r.body.utf8ByteSize ≤ s.maxBody) : readBody f r s.maxBody = .ok a := by
  have json : isJsonType "application/json" = true := by decide
  unfold readBody
  rw [type, Option.any_some, json, if_neg (by decide), if_neg (Nat.not_lt.mpr fits), front]

/-- Every id can be named in a body. -/
theorem readBody_introducing (fits : (introducing id address).body.utf8ByteSize ≤ s.maxBody) :
    readBody Introduction.format (introducing id address) s.maxBody =
      .ok ⟨id, address, [], none⟩ := by
  have plain : (Tree.record [("id", .string id), ("address", .string address)]).Plain := by
    apply Tree.plain_record
    simp only [List.forall_mem_cons]
    exact ⟨trivial, trivial, nofun⟩
  apply readBody_fitting rfl _ fits
  change Introduction.format.decodeFront (Tree.text _) = _
  rw [Json.Format.decodeFront, Tree.ofChars_text plain, Json.reread_record]
  rfl

theorem readBody_ruling (fits : (ruling rule).body.utf8ByteSize ≤ s.maxBody) :
    readBody ruleFormat (ruling rule) s.maxBody = .ok rule := by
  have plain : ruleFormat.WritesPlain :=
    Json.Record.writesPlain_format (Json.Record.writesPlain_field Json.Format.writesPlain_string)
  apply readBody_fitting rfl _ fits
  change ruleFormat.decodeFront (ruleFormat.encode rule) = _
  rw [Json.Format.decodeFront, Json.Format.encode, Tree.ofChars_text (plain rule)]
  exact Json.Record.returns_format.mpr
    (Json.Record.returns_field.mpr (Json.Format.returns_string.mpr rfl))

theorem resource?_introducing : (introducing id address).resource? = some .peers := by
  unfold Request.resource?
  change (Target.ofString "/federation/peers").segments.bind _ = _
  decide

theorem resource?_ruling : (ruling rule).resource? = some .rules := by
  unfold Request.resource?
  change (Target.ofString "/federation/rules").segments.bind _ = _
  decide

/-- Every id but the empty one and that of the node itself can be registered. -/
theorem respond_introducing (foreign : id ≠ n.peers.owner) (named : id ≠ "")
    (placed : Text.allBlank address = false)
    (fits : (introducing id address).body.utf8ByteSize ≤ s.maxBody) :
    ∃ o, respond s n (introducing id address) = some o ∧ o.response.status = 201 := by
  have posted : (introducing id address).method = "POST" := rfl
  have served := respond_routed (s := s) (n := n) resource?_introducing posted (by decide) rfl
  rw [readBody_introducing fits] at served
  refine ⟨_, served, ?_⟩
  rcases Roster.register_cases n.peers ⟨id, address, [], none⟩ s.now with
    ⟨-, registered⟩ | ⟨unfit, -⟩
  · simp only [addPeer, Node.addPeer, registered]
    rfl
  · exact (unfit ⟨foreign, named, placed⟩).elim

theorem respond_ruling (named : rule ≠ "")
    (fits : (ruling rule).body.utf8ByteSize ≤ s.maxBody) :
    ∃ o, respond s n (ruling rule) = some o ∧ o.response.status = 201 := by
  have posted : (ruling rule).method = "POST" := rfl
  have served := respond_routed (s := s) (n := n) resource?_ruling posted (by decide) rfl
  rw [readBody_ruling fits] at served
  refine ⟨_, served, ?_⟩
  simp only [addRule, if_neg named]
  rfl

end Bodies

section Awkward

/-- An id with a slash, a blank, a percent sign and a letter of two bytes. -/
def awkward : String := "a/b c%é"

def host : Node := Node.empty "n"

/-- A request to delete what has a path. -/
def deleting (path : String) : Request := ⟨"DELETE", path, none, ""⟩

/-- Surroundings that hold a long enough body. -/
def spacious : Surroundings :=
  ⟨5, 0, 0, max (introducing awkward "h:1").body.utf8ByteSize (ruling awkward).body.utf8ByteSize⟩

/-- A peer and a rule with that id are registered, and removed under its path. -/
theorem awkward_ids_can_be_removed :
    (∃ o, respond spacious host (introducing awkward "h:1") = some o ∧
      respond spacious o.node (deleting ("/federation/peers/" ++ "a%2Fb%20c%25%C3%A9")) =
        some ⟨o.node.removePeer awkward, .empty 204, false⟩) ∧
    ∃ o, respond spacious host (ruling awkward) = some o ∧
      respond spacious o.node (deleting ("/federation/rules/" ++ "a%2Fb%20c%25%C3%A9")) =
        some ⟨o.node.removeRule awkward, .empty 204, false⟩ := by
  have named : awkward ≠ "" := by decide
  have written : Encoding.common.text awkward = "a%2Fb%20c%25%C3%A9" := by decide
  constructor
  · have fits : (introducing awkward "h:1").body.utf8ByteSize ≤ spacious.maxBody :=
      Nat.le_max_left _ _
    obtain ⟨o, answered, created⟩ :=
      respond_introducing (n := host) (by decide) named (by decide) fits
    obtain ⟨removable, -⟩ := registrations_can_be_removed Encoding.common rfl answered created
    obtain ⟨i, read, -, known, gone⟩ := removable resource?_introducing
    obtain rfl := Except.ok.inj ((readBody_introducing fits).symm.trans read)
    have path : "/federation/peers/" ++ "a%2Fb%20c%25%C3%A9" = peerPath Encoding.common awkward :=
      congrArg ("/federation/peers/" ++ ·) written.symm
    refine ⟨o, answered, ((gone spacious o.node (deleting _) known rfl path).1 ?_).1⟩
    change Encoding.common.text awkward ≠ "list"
    rw [written]
    decide
  · have fits : (ruling awkward).body.utf8ByteSize ≤ spacious.maxBody := Nat.le_max_right _ _
    obtain ⟨o, answered, created⟩ := respond_ruling (n := host) named fits
    obtain ⟨-, removable⟩ := registrations_can_be_removed Encoding.common rfl answered created
    obtain ⟨rule, read, -, active, gone⟩ := removable resource?_ruling
    obtain rfl := Except.ok.inj ((readBody_ruling fits).symm.trans read)
    have path : "/federation/rules/" ++ "a%2Fb%20c%25%C3%A9" = rulePath Encoding.common awkward :=
      congrArg ("/federation/rules/" ++ ·) written.symm
    have fresh : ¬ObservedSet.Bears host.rules.removed awkward
        (Node.mintTag host.id spacious.nonce spacious.nanos) := Bool.false_ne_true
    exact ⟨o, answered, (gone spacious o.node (deleting _) (active fresh) rfl path).1⟩

/-- A peer that is called like the list of peers is registered, and cannot be removed under its
path. -/
theorem peer_named_list_stays :
    ∃ o, respond (tight (introducing "list" "h:1")) host (introducing "list" "h:1") = some o ∧
      o.response.status = 201 ∧ Encoding.common.text "list" = "list" ∧
      o.node.peers.contains "list" = true ∧
      respond (tight (introducing "list" "h:1")) o.node (deleting ("/federation/peers/" ++ "list")) =
        some (.unchanged o.node (.empty 405)) := by
  have fits : (introducing "list" "h:1").body.utf8ByteSize ≤
      (tight (introducing "list" "h:1")).maxBody := Nat.le_refl _
  obtain ⟨o, answered, created⟩ :=
    respond_introducing (n := host) (by decide) (by decide) (by decide) fits
  obtain ⟨i, read, -, -, known⟩ := introduced_spec resource?_introducing rfl answered created
  obtain rfl := Except.ok.inj ((readBody_introducing fits).symm.trans read)
  have written : Encoding.common.text "list" = "list" := by decide
  have path : "/federation/peers/" ++ "list" = peerPath Encoding.common "list" :=
    congrArg ("/federation/peers/" ++ ·) written.symm
  have refused := respond_forget (s := tight (introducing "list" "h:1"))
    (r := deleting ("/federation/peers/" ++ "list")) Encoding.common known (by decide) rfl path
  rw [if_pos written] at refused
  exact ⟨o, answered, created, written, known, refused⟩

end Awkward

end Http

end ThreatGossip
