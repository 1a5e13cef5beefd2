import ThreatGossip.Proofs.Publication
/-!
What an exchange comes to at both ends. If the sender is told of a success, the receiver has handled
what it read of the message, once, and the sender has booked the version that the receiver came to.
If the sender is told of a failure, whether of the address, of the time, of the message or of the
sender itself, the receiver is as it was.
-/
namespace ThreatGossip

/-- What is read of a message is the message, if each of its documents comes back of its text. -/
theorem Message.eq_of_decode {m m' : Message}
    (read : Message.format.decode (Message.format.encode m) = .ok m')
    (carried : m.EachDocument Carried) : m' = m :=
  ((Message.roundTrips_format.decode_encode Message.writesPlain_format carried m').mp read).1

/-- When the sender is shut down, and whether it notices that before anything else that happens at
the same time. -/
structure Stop where
  time : Nat
  first : Bool

/-- What is due at a time is still waited for at the shutdown. -/
def Stop.cuts (due : Nat) (s : Stop) : Bool := s.time < due || s.time == due && s.first

namespace Network

/-- Decides a flight, unless it is cancelled by the shutdown of its initiator. -/
def landUntil (net : Network) (stop : Option Stop) (f : Flight) :
    Network × Except ExchangeError Unit :=
  if stop.any (·.cuts f.due) then
    (net.adjustNode f.initiator fun n =>
      (n.conclude f.purpose f.peer net.now (.error .cancelled)).1, .error .cancelled)
  else net.land f

/-- Sends a peer what it is not known to have. The message is sent off in the network `start` and
decided in the network `net`, which others may have changed meanwhile. -/
def syncUntil (start net : Network) (n : Node) (peer : Peer) (policy : Policy)
    (stop : Option Stop) : Network × Except ExchangeError Unit :=
  match n.deltaMessage peer.id start.now with
  | .ok m => net.landUntil stop
      (start.depart n.id peer.id peer.address .push m policy.timeout 0)
  | .error e => (net, .error (.refused (.peer e)))

/-- Sends a peer all that the node holds, likewise. -/
def pushUntil (start net : Network) (n : Node) (id : NodeId) (policy : Policy)
    (stop : Option Stop) : Network × Except ExchangeError Unit :=
  match n.peers.get? id with
  | some p => net.landUntil stop
      (start.depart n.id id p.address .push (n.fullMessage id start.now) policy.timeout 0)
  | none => (net, .error (.refused (.peer (.unknownPeer id))))

/-- With nothing between and no shutdown these are the exchanges of the node. -/
theorem syncUntil_none (net : Network) (n : Node) (peer : Peer) (policy : Policy) :
    net.syncUntil net n peer policy none = net.syncWith n peer policy := rfl

theorem pushUntil_none (net : Network) (n : Node) (id : NodeId) (policy : Policy) :
    net.pushUntil net n id policy none = net.pushTo n id policy := rfl

/-- A node comes to `next` by handling what it reads of the text of a message. -/
def Takes (net : Network) (b : Node) (m : Message) (next : Node) : Prop :=
  ∃ m' ack, Message.format.decode (Message.format.encode m) = .ok m' ∧
    b.handle m' net.now = .ok (next, ack)

/-- The receiver `b` has handled a message of `n`, and has come to `next`. -/
structure Handed (net : Network) (n b : Node) (peer : NodeId) (m : Message) (after : Network)
    (next : Node) : Prop where
  taken : Takes net b m next
  /-- What is read of the message is the message, if its documents come back of their texts. -/
  faithful : m.EachDocument Carried → Message.format.decode (Message.format.encode m) = .ok m
  there : after.node? b.id = some next
  once : after.delivered = net.delivered + 1
  /-- The sender books a success with the version of the receiver. -/
  here : after.node? n.id = some (n.recordSuccess peer next.version net.now)
  estimate : (n.recordSuccess peer next.version net.now).peers.version? peer =
    (n.peers.version? peer).map (·.join next.version)

/-- What the sender `n` is told of an exchange with the receiver `b` is what has happened there.
`sent` is the message, if one could be built, `timely` holds if it gets there in time, and `after`
is the network afterwards. -/
structure Settled (net : Network) (n b : Node) (peer : NodeId) (sent : Option Message)
    (timely : Prop) (after : Network) (result : Except ExchangeError Unit) : Prop where
  success : result = .ok () → ∃ m next, sent = some m ∧ Handed net n b peer m after next
  /-- A message that gets there in time and is taken there is a success. -/
  complete : timely → ∀ m next, sent = some m → Takes net b m next → result = .ok ()
  /-- On failure the receiver is as it was, and the sender books no more than a failure. -/
  failure : ∀ e, result = .error e → after.node? b.id = some b ∧
    (after.node? n.id = some n ∨ after.node? n.id = some (n.recordFailure peer net.now))
  /-- A shutdown is not held against the peer. -/
  cancelled : result = .error .cancelled → after = net
  /-- What the sender holds does not change. -/
  contents : ∃ n', after.node? n.id = some n' ∧ n'.snapshot = n.snapshot
  /-- Nobody else takes part. -/
  others : ∀ q, q ≠ n.id → q ≠ b.id → after.node? q = net.node? q

variable {net : Network} {n b : Node} {peer : NodeId} {sent : Option Message} {timely : Prop}

section Settled

theorem settled_untouched (here : net.node? n.id = some n) (there : net.node? b.id = some b)
    (peer : NodeId) (e : ExchangeError) (idle : sent = none ∨ ¬timely) :
    Settled net n b peer sent timely net (.error e) where
  success := fun ok => (nomatch ok)
  complete := by
    intro inTime m next given
    rcases idle with unsent | late
    · nomatch unsent.symm.trans given
    · exact absurd inTime late
  failure := fun _ _ => ⟨there, .inl here⟩
  cancelled := fun _ => rfl
  contents := ⟨n, here, rfl⟩
  others := fun _ _ _ => rfl

/-- An exchange that fails without an effect on any node but the sender. -/
theorem settled_failed (there : net.node? b.id = some b) (apart : b.id ≠ n.id) (peer : NodeId)
    {m : Message} (lost : timely → ∀ next, ¬Takes net b m next) {mid : Network}
    (same : mid.nodes = net.nodes) {e : ExchangeError} (genuine : e ≠ .cancelled) :
    Settled net n b peer (some m) timely (mid.setNode (n.recordFailure peer net.now))
      (.error e) where
  success := fun ok => (nomatch ok)
  complete := by
    intro inTime m' next given taken
    obtain rfl := Option.some.inj given
    exact absurd taken (lost inTime next)
  failure := by
    intro _ _
    have kept : mid.node? b.id = some b := (congrArg (·.get? b.id) same).trans there
    exact ⟨(node?_setNode ..).trans ((if_neg apart).trans kept),
      .inr ((node?_setNode ..).trans (if_pos rfl))⟩
  cancelled := fun stopped => absurd (Except.error.inj stopped) genuine
  contents := ⟨_, (node?_setNode ..).trans (if_pos rfl), rfl⟩
  others := by
    intro q other _
    exact (node?_setNode ..).trans ((if_neg other).trans (congrArg (·.get? q) same))

/-- The receiver has handled what it read, and the sender has booked the answer. -/
theorem settled_handed (apart : b.id ≠ n.id) (peer : NodeId) {m m' : Message} {next : Node}
    {ack : Acknowledgment} (read : Message.format.decode (Message.format.encode m) = .ok m')
    (handled : b.handle m' net.now = .ok (next, ack)) :
    Settled net n b peer (some m) timely
      ((net.counted.setNode next).setNode (n.recordSuccess peer ack.version net.now)) (.ok ()) := by
  have name : next.id = b.id := Node.id_of_handle handled
  have there : (net.counted.setNode next).node? b.id = some next :=
    (node?_setNode ..).trans (if_pos name.symm)
  rw [Node.version_of_handle handled]
  have handed : Handed net n b peer m
      ((net.counted.setNode next).setNode (n.recordSuccess peer next.version net.now)) next := {
    taken := ⟨m', ack, read, handled⟩
    faithful := fun carried => read.trans (congrArg _ (Message.eq_of_decode read carried))
    there := (node?_setNode ..).trans ((if_neg apart).trans there)
    once := rfl
    here := (node?_setNode ..).trans (if_pos rfl)
    estimate := n.version?_recordSuccess peer next.version net.now }
  exact {
    success := fun _ => ⟨m, next, rfl, handed⟩
    complete := fun _ _ _ _ _ => rfl
    failure := fun _ error => (nomatch error)
    cancelled := fun stopped => (nomatch stopped)
    contents := ⟨_, handed.here, rfl⟩
    others := by
      intro q other foreign
      refine (node?_setNode ..).trans ((if_neg other).trans ?_)
      exact (node?_setNode ..).trans (if_neg (name ▸ foreign)) }

variable (here : net.node? n.id = some n) (there : net.node? b.id = some b) (apart : b.id ≠ n.id)
  {f : Flight} (initiator : f.initiator = n.id) (push : f.purpose = .push)
  (addressed : ∀ r, f.fate = .arrives r → r = .node b.id)

include here there apart initiator push addressed

/-- A flight to the receiver that is not cut short. The cases are the points at which it can end:
under way, at the reader, at the handler, and after the handler, whose answer is always read. -/
theorem settled_land (arrives : timely → ∃ r, f.fate = .arrives r) :
    Settled net n b f.peer (some f.message) timely (net.land f).1 (net.land f).2 := by
  have stands {mid : Network} (same : mid.nodes = net.nodes) :
      mid.node? f.initiator = some n := by
    rw [initiator]
    exact (congrArg (·.get? n.id) same).trans here
  cases fate : f.fate with
  | unreachable | expires =>
      have lost (inTime : timely) (next : Node) : ¬Takes net b f.message next := by
        obtain ⟨r, arrives⟩ := arrives inTime
        nomatch fate.symm.trans arrives
      have here := stands rfl
      unfold land
      simp only [fate, here, push]
      exact settled_failed there apart f.peer lost rfl nofun
  | arrives r =>
      obtain rfl := addressed r fate
      cases read : Message.format.decode (Message.format.encode f.message) with
      | error fault =>
          have lost (_ : timely) (next : Node) : ¬Takes net b f.message next := by
            rintro ⟨m', ack, read', -⟩
            nomatch read.symm.trans read'
          rw [land_arrived fate (deliver_unread read) (stands rfl), push]
          exact settled_failed there apart f.peer lost rfl nofun
      | ok m' =>
          have delivered := deliver_node read there
          cases handled : b.handle m' net.now with
          | error e =>
              have lost (_ : timely) (next : Node) : ¬Takes net b f.message next := by
                rintro ⟨m'', ack, read', handled'⟩
                obtain rfl := Except.ok.inj (read.symm.trans read')
                nomatch handled.symm.trans handled'
              have same : net.counted.nodes = net.nodes := rfl
              rw [handled] at delivered
              rw [land_arrived fate delivered (stands rfl), push]
              exact settled_failed there apart f.peer lost same nofun
          | ok result =>
              obtain ⟨next, ack⟩ := result
              rw [handled] at delivered
              have name : next.id = b.id := Node.id_of_handle handled
              have here : (net.counted.setNode next).node? f.initiator = some n := by
                rw [node?_setNode, name, initiator, if_neg (Ne.symm apart)]
                exact here
              rw [land_arrived fate delivered here, push]
              exact settled_handed apart f.peer read handled

theorem settled_landUntil {stop : Option Stop}
    (arrives : timely → (∃ r, f.fate = .arrives r) ∧ stop.any (·.cuts f.due) = false) :
    Settled net n b f.peer (some f.message) timely (net.landUntil stop f).1
      (net.landUntil stop f).2 := by
  unfold landUntil
  split
  next cut =>
    have unmoved : (net.adjustNode f.initiator fun n =>
        (n.conclude f.purpose f.peer net.now (.error .cancelled)).1) = net := by
      unfold adjustNode
      rw [initiator, here]
      exact setNode_of_node? here
    have late : ¬timely := fun inTime => Bool.noConfusion (cut.symm.trans (arrives inTime).2)
    rw [unmoved]
    exact settled_untouched here there f.peer .cancelled (.inr late)
  next =>
    have arrives (inTime : timely) := (arrives inTime).1
    exact settled_land here there apart initiator push addressed arrives

end Settled

/-- The address is up and quick enough, and the sender is not shut down before. -/
def Timely (e : Endpoint) (policy : Policy) (stop : Option Stop) : Prop :=
  e.down = false ∧ e.delay ≤ policy.timeout ∧ stop.any (·.cuts e.delay) = false

variable {start : Network} {e : Endpoint} {address : String}

/-- A message to the address of the receiver arrives there, if anywhere. -/
theorem addressed_depart (answers : start.endpoints.get? address = some e)
    (responder : e.responder = .node b.id) {initiator : NodeId} {purpose : Purpose} {m : Message}
    {timeout time : Nat} {r : Responder}
    (arrives : (start.depart initiator peer address purpose m timeout time).fate = .arrives r) :
    r = .node b.id := by
  obtain ⟨e', found, rfl⟩ := depart_arrives arrives
  obtain rfl := Option.some.inj (answers.symm.trans (Option.filter_eq_some_iff.mp found).1)
  exact responder

/-- A message that is timely arrives before anything cuts it short. -/
theorem Timely.arrives {policy : Policy} {stop : Option Stop} (h : Timely e policy stop)
    (answers : start.endpoints.get? address = some e) (initiator : NodeId) (purpose : Purpose)
    (m : Message) :
    (∃ r, (start.depart initiator peer address purpose m policy.timeout 0).fate = .arrives r) ∧
      stop.any (·.cuts (start.depart initiator peer address purpose m policy.timeout 0).due) =
        false := by
  obtain ⟨up, quick, uncut⟩ := h
  have reached : start.endpoint? address = some e := by
    unfold endpoint?
    rw [answers, Option.filter_some, up]
    rfl
  rw [depart_of_endpoint reached quick]
  exact ⟨⟨_, rfl⟩, (Nat.zero_add e.delay).symm ▸ uncut⟩

/-- A message that is sent off to the address of the receiver. -/
theorem settled_depart {m : Message} (here : net.node? n.id = some n)
    (there : net.node? b.id = some b) (apart : b.id ≠ n.id)
    (answers : start.endpoints.get? address = some e) (responder : e.responder = .node b.id)
    (policy : Policy) (stop : Option Stop) :
    Settled net n b peer (some m) (Timely e policy stop)
      (net.landUntil stop (start.depart n.id peer address .push m policy.timeout 0)).1
      (net.landUntil stop (start.depart n.id peer address .push m policy.timeout 0)).2 :=
  settled_landUntil here there apart rfl rfl
    (fun _ arrives => addressed_depart answers responder arrives)
    (fun timely => timely.arrives answers n.id .push m)

/-- Both exchanges that hand something over tell the sender what has happened at the receiver,
whether its address is down or slow, whatever the timeout is and whenever the sender is shut down.
The message is built by the sender as it was, `n₀`; what comes of it is settled between the two
nodes as they are when it is decided. A full state comes back of its text in any case. -/
theorem outcomes_match_effects {n₀ : Node} {peer : Peer} (same : n₀.id = n.id)
    (here : net.node? n.id = some n) (there : net.node? b.id = some b) (apart : b.id ≠ n.id)
    (answers : start.endpoints.get? peer.address = some e) (responder : e.responder = .node b.id)
    (policy : Policy) (stop : Option Stop) :
    Settled net n b peer.id (n₀.deltaMessage peer.id start.now).toOption (Timely e policy stop)
      (start.syncUntil net n₀ peer policy stop).1 (start.syncUntil net n₀ peer policy stop).2 ∧
    ∀ id, n₀.peers.get? id = some peer →
      (n₀.fullMessage id start.now).EachDocument Carried ∧
      Settled net n b id (some (n₀.fullMessage id start.now)) (Timely e policy stop)
        (start.pushUntil net n₀ id policy stop).1 (start.pushUntil net n₀ id policy stop).2 := by
  constructor
  · unfold syncUntil
    rw [same]
    cases built : n₀.deltaMessage peer.id start.now with
    | error e => exact settled_untouched here there peer.id _ (.inl rfl)
    | ok m => exact settled_depart here there apart answers responder policy stop
  · intro id known
    refine ⟨trivial, ?_⟩
    unfold pushUntil
    rw [known, same]
    exact settled_depart here there apart answers responder policy stop

/-- What the first of two neighbours has on record of the second. -/
def neighbour : Peer := (Roster.newPeer ⟨"b", "b:1", [], none⟩ 0).refresh 0

/-- A neighbour is handed the delta; one that was slow when it was sent off is spared it by a
shutdown. -/
theorem neighbour_handed_or_spared :
    (∃ m next, Handed neighbours (acquaintance "a" "b" "b:1") (acquaintance "b" "a" "a:1") "b" m
      (neighbours.syncWith (acquaintance "a" "b" "b:1") neighbour ⟨30000, 3, 5000, none⟩).1 next) ∧
    ((neighbours.setDelay "b:1" 7).syncUntil neighbours (acquaintance "a" "b" "b:1") neighbour
      ⟨30000, 3, 5000, none⟩ (some ⟨7, true⟩)).1 = neighbours := by
  have known : Acquainted neighbours (acquaintance "a" "b" "b:1") (acquaintance "b" "a" "a:1")
    neighbour (Policy.timeout ⟨30000, 3, 5000, none⟩) := acquainted_neighbours
  have travels : (acquaintance "a" "b" "b:1").snapshot.EachDocument Travels :=
    fun _ member => absurd member List.not_mem_nil
  have quick : neighbours.endpoints.get? neighbour.address = some ⟨.node "b", false, 0⟩ := rfl
  have slow : (neighbours.setDelay "b:1" 7).endpoints.get? neighbour.address =
      some ⟨.node "b", false, 7⟩ := rfl
  constructor
  · obtain ⟨_, _, -, synced⟩ := known.syncWith_arrives travels
    have settled := (outcomes_match_effects rfl known.here known.there (by decide) quick rfl
      ⟨30000, 3, 5000, none⟩ none).1
    rw [syncUntil_none] at settled
    obtain ⟨m, next, -, handed⟩ := settled.success (synced ▸ rfl)
    exact ⟨m, next, handed⟩
  · have settled := (outcomes_match_effects rfl known.here known.there (by decide) slow rfl
      ⟨30000, 3, 5000, none⟩ (some ⟨7, true⟩)).1
    exact settled.cancelled rfl

end Network

end ThreatGossip
