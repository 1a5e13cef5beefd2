import ThreatGossip.Proofs.Outcomes
import ThreatGossip.Proofs.Views
/-!
What a pull comes to. What answers a request is looked at twice, as a reply to what was asked and as a
message like any other; a node either takes the whole state in and books one success, or it takes
nothing in and books one failure. A pull that it cancelled itself it does not book at all.
-/
namespace ThreatGossip

namespace Roster

/-- Two changes of one entry are one. -/
theorem adjust_adjust (r : Roster) (id : NodeId) (f g : Peer → Peer) :
    (r.adjust id f).adjust id g = r.adjust id fun p => g (f p) := by
  unfold adjust
  cases known : r.get? id with
  | none => simp only [known]
  | some p =>
      have entry : ({ r with peers := r.peers.insert id (f p) } : Roster).get? id = some (f p) :=
        (SortedMap.get?_insert _ _ _ _).trans (if_pos rfl)
      simp only [entry, SortedMap.insert_insert]

theorem adjust_unknown {r : Roster} {id : NodeId} (unknown : r.contains id = false)
    (f : Peer → Peer) : r.adjust id f = r := by
  have absent : r.get? id = none := Option.not_isSome_iff_eq_none.mp (Bool.eq_false_iff.mp unknown)
  unfold adjust
  rw [absent]

end Roster

/-- To be heard of and to be told a version is part of a success. -/
theorem Peer.succeed_learn_touch (p : Peer) (version acked : Clock) (now : Millis) :
    ((p.touch now).learn version).succeed acked now = (p.learn version).succeed acked now := by
  have seen : max (max p.lastSeen now) now = max p.lastSeen now := by
    rw [← UInt64.toNat_inj, toNat_max, toNat_max, Nat.max_assoc, Nat.max_self]
  simp only [touch, learn, succeed, refresh, standingAt, seen]
  rfl

namespace Node

/-- An acknowledgment brings the state `s`: its reply `m` is a response of the peer that was asked,
addressed to the node or to nobody, and can be read. -/
structure Brought (n : Node) (peer : NodeId) (ack : Acknowledgment) (m : Message) (s : Snapshot) :
    Prop where
  reply : ack.reply = some m
  state : ∃ text, m.payload = .response text ∧ Snapshot.format.decode text = .ok s
  sender : m.sender = peer
  addressed : m.recipient = "" ∨ m.recipient = n.id

variable {n next : Node} {peer : NodeId} {ack : Acknowledgment} {m : Message} {s : Snapshot}
  {now : Millis}

theorem Brought.accepts (h : n.Brought peer ack m s) (sound : n.peers.Every (Peer.Sound n.id))
    (known : n.peers.contains peer = true) : n.Accepts m := by
  obtain ⟨p, found⟩ := Roster.contains_iff.mp known
  have entry := sound peer p found
  obtain ⟨text, payload, read⟩ := h.state
  have sender := h.sender
  subst sender
  refine ⟨entry.named, entry.foreign, known, h.addressed, ?_⟩
  intro text' brought
  rcases brought with full | response
  · nomatch payload.symm.trans full
  · obtain rfl := Payload.response.inj (payload.symm.trans response)
    exact ⟨s, read⟩

/-- The state that was asked for is merged, and the version that came with it is joined. -/
theorem Brought.takeReply (h : n.Brought peer ack m s) (sound : n.peers.Every (Peer.Sound n.id))
    (known : n.peers.contains peer = true) (now : Millis) : n.takeReply peer ack.reply now =
      .ok (((n.touchPeer peer now).mergeSnapshot s now).learnVersion peer m.version) := by
  obtain ⟨text, payload, read⟩ := h.state
  obtain ⟨next, answer, handled⟩ :=
    handle_eq_ok_iff.mpr (accepts_iff.mp (h.accepts sound known))
  have kind : m.payload.kind = .response := by rw [payload]; rfl
  rw [h.reply, takeReply_response kind h.sender, handled]
  obtain ⟨s', read', merged, -⟩ := state_of_handle (.inr payload) handled
  obtain rfl := Except.ok.inj (read.symm.trans read')
  rw [merged, h.sender]

/-- What is taken in was brought, by a peer that is known. -/
theorem brought_of_takeReply (taken : n.takeReply peer ack.reply now = .ok next) :
    n.peers.contains peer = true ∧ ∃ m s, n.Brought peer ack m s := by
  unfold Node.takeReply at taken
  split at taken
  next => nomatch taken
  next m reply =>
  split at taken
  next => nomatch taken
  next expected =>
  obtain ⟨kind, sender⟩ := not_or.mp expected
  have kind := not_not.mp kind
  have sender := not_not.mp sender
  split at taken
  next next' answer handled =>
    obtain ⟨accepted, -⟩ := handle_cases handled
    cases payload : m.payload with
    | delta | full | request =>
        rw [payload] at kind
        nomatch kind
    | response text =>
        obtain ⟨s, read⟩ := accepted.readable text (.inr payload)
        exact ⟨sender ▸ accepted.known, m, s, reply, ⟨text, payload, read⟩, sender,
          accepted.addressed⟩
  next => nomatch taken

theorem takeReply_genuine {e : ExchangeError} (failed : n.takeReply peer ack.reply now = .error e) :
    e ≠ .cancelled := by
  unfold Node.takeReply at failed
  split at failed
  next => exact Except.error.inj failed ▸ nofun
  next =>
  split at failed
  next => exact Except.error.inj failed ▸ nofun
  next =>
  split at failed
  next => nomatch failed
  next => exact Except.error.inj failed ▸ nofun

/-- What a pull from a peer has done to a node, by what was heard of its request. -/
structure Pulled (n : Node) (peer : NodeId) (now : Millis)
    (heard : Except ExchangeError Acknowledgment) (next : Node)
    (result : Except ExchangeError Unit) : Prop where
  ok_iff : result = .ok () ↔ n.peers.contains peer = true ∧
    ∃ ack m s, heard = .ok ack ∧ n.Brought peer ack m s
  /-- A success merges exactly the state that was brought, joins both versions and is booked once. -/
  merged : result = .ok () → ∀ ack m s, heard = .ok ack → n.Brought peer ack m s →
    next = { n with
      threats := n.threats.merge s.threats
      rules := n.rules.merge s.rules
      metrics := n.metrics.merge s.metrics
      lastFullSync := some now
      peers := n.peers.adjust peer fun p => (p.learn m.version).succeed ack.version now }
  /-- A failure is booked once and changes nothing else. -/
  charged : ∀ e, result = .error e → e ≠ .cancelled →
    next = { n with peers := n.peers.adjust peer (·.fail now) }
  cancelled_iff : result = .error .cancelled ↔ heard = .error .cancelled
  spared : result = .error .cancelled → next = n
  /-- Nothing is booked for somebody who is not a peer. -/
  unknown : n.peers.contains peer = false → next = n

theorem conclude_failed {purpose : Purpose} {e : ExchangeError} (genuine : e ≠ .cancelled) :
    n.conclude purpose peer now (.error e) = (n.recordFailure peer now, .error e) := by
  cases e with
  | cancelled => exact absurd rfl genuine
  | transport | timedOut | refused | noReply | wrongReply => rfl

/-- A failed exchange, unless it was cancelled, is a failed pull. -/
theorem pulled_failed {e : ExchangeError} (genuine : e ≠ .cancelled)
    {heard : Except ExchangeError Acknowledgment} (uncut : heard ≠ .error .cancelled)
    (unbrought : ∀ ack m s, heard = .ok ack → ¬(n.peers.contains peer = true ∧
      n.Brought peer ack m s)) :
    n.Pulled peer now heard (n.recordFailure peer now) (.error e) where
  ok_iff := by
    constructor
    · nofun
    · rintro ⟨known, ack, m, s, answered, brought⟩
      exact absurd ⟨known, brought⟩ (unbrought ack m s answered)
  merged := nofun
  charged := fun _ _ _ => rfl
  cancelled_iff := by
    constructor
    · intro stopped
      exact absurd (Except.error.inj stopped) genuine
    · intro cut
      exact absurd cut uncut
  spared := fun stopped => absurd (Except.error.inj stopped) genuine
  unknown := by
    intro absent
    have same : n.peers.adjust peer (·.fail now) = n.peers := Roster.adjust_unknown absent _
    exact congrArg (fun peers => { n with peers }) same

/-- What was brought is merged, and all that is booked of it is one success. -/
theorem pulled_brought (h : n.Brought peer ack m s) (known : n.peers.contains peer = true)
    (now : Millis) : n.Pulled peer now (.ok ack)
      ((((n.touchPeer peer now).mergeSnapshot s now).learnVersion peer m.version).recordSuccess peer
        ack.version now) (.ok ()) where
  ok_iff := ⟨fun _ => ⟨known, ack, m, s, rfl, h⟩, fun _ => rfl⟩
  merged := by
    intro _ ack' m' s' answered h'
    obtain rfl := Except.ok.inj answered
    obtain rfl := Option.some.inj (h.reply.symm.trans h'.reply)
    obtain ⟨text, payload, read⟩ := h.state
    obtain ⟨text', payload', read'⟩ := h'.state
    obtain rfl := Payload.response.inj (payload.symm.trans payload')
    obtain rfl := Except.ok.inj (read.symm.trans read')
    have once : (((n.peers.adjust peer (·.touch now)).learn peer m.version).recordSuccess peer
        ack.version now).1 =
          n.peers.adjust peer fun p => (p.learn m.version).succeed ack.version now := by
      unfold Roster.learn Roster.recordSuccess Roster.adjustReporting
      rw [Roster.adjust_adjust, Roster.adjust_adjust]
      simp only [Peer.succeed_learn_touch]
    unfold recordSuccess
    exact congrArg (fun peers => { n.mergeSnapshot s now with peers }) once
  charged := nofun
  cancelled_iff := ⟨nofun, nofun⟩
  spared := nofun
  unknown := fun absent => Bool.noConfusion (absent.symm.trans known)

/-- A pull that the node cancelled itself is not booked. -/
theorem pulled_cancelled (n : Node) (peer : NodeId) (now : Millis) :
    n.Pulled peer now (.error .cancelled) n (.error .cancelled) where
  ok_iff := by
    constructor
    · intro ok
      contradiction
    · rintro ⟨-, ack, m, s, answered, -⟩
      contradiction
  merged := fun ok => nomatch ok
  charged := fun _ stopped genuine => absurd (Except.error.inj stopped).symm genuine
  cancelled_iff := ⟨fun _ => rfl, fun _ => rfl⟩
  spared := fun _ => rfl
  unknown := fun _ => rfl

/-- The cases are those of what was heard, and of what an acknowledgment brings. -/
theorem pulled_conclude (sound : n.peers.Every (Peer.Sound n.id)) (peer : NodeId) (now : Millis)
    (heard : Except ExchangeError Acknowledgment) :
    n.Pulled peer now heard (n.conclude .pull peer now heard).1
      (n.conclude .pull peer now heard).2 := by
  cases heard with
  | error e =>
      by_cases cut : e = .cancelled
      · subst cut
        exact n.pulled_cancelled peer now
      · rw [conclude_failed cut]
        refine pulled_failed cut (fun stopped => cut (Except.error.inj stopped)) ?_
        intro ack m s answered
        contradiction
  | ok ack =>
      simp only [conclude]
      cases taken : n.takeReply peer ack.reply now with
      | ok next =>
          obtain ⟨known, m, s, brought⟩ := brought_of_takeReply taken
          obtain rfl := Except.ok.inj (taken.symm.trans (brought.takeReply sound known now))
          exact pulled_brought brought known now
      | error e =>
          have uncut : (.ok ack : Except ExchangeError Acknowledgment) ≠ .error .cancelled := by
            simp
          refine pulled_failed (takeReply_genuine taken) uncut ?_
          rintro ack' m s answered ⟨known, brought⟩
          obtain rfl := Except.ok.inj answered
          rw [brought.takeReply sound known now] at taken
          contradiction

end Node

namespace Network

/-- What the sender of a message hears of it: what becomes of it, unless the sender is shut down
before. -/
def heard (net : Network) (stop : Option Stop) (f : Flight) :
    Except ExchangeError Acknowledgment :=
  if stop.any (·.cuts f.due) then .error .cancelled else (net.arrival f).2

/-- The request of a node for all that a peer holds. -/
def request (start : Network) (n : Node) (id : NodeId) (p : Peer) (policy : Policy) : Flight :=
  start.depart n.id id p.address .pull (n.requestMessage id start.now) policy.timeout 0

/-- Asks a peer for all that it holds. The request is sent off in the network `start` and decided in
the network `net`, which others may have changed meanwhile. -/
def pullUntil (start net : Network) (n : Node) (id : NodeId) (policy : Policy)
    (stop : Option Stop) : Network × Except ExchangeError Unit :=
  match n.peers.get? id with
  | some p => net.landUntil stop (start.request n id p policy)
  | none => (net, .error (.refused (.peer (.unknownPeer id))))

/-- With nothing between and no shutdown this is the pull of the node. -/
theorem pullUntil_none (net : Network) (n : Node) (id : NodeId) (policy : Policy) :
    net.pullUntil net n id policy none = net.pullFrom n id policy := by
  unfold pullUntil pullFrom
  cases n.peers.get? id with
  | none => rfl
  | some p =>
      unfold landUntil
      exact if_neg Bool.false_ne_true

variable {start net : Network} {n : Node} {stop : Option Stop}

/-- A node makes of its own flight what it makes of what it hears. -/
theorem landUntil_own (stop : Option Stop) (f : Flight) (own : f.initiator = n.id) (sender : f.message.sender = n.id)
    (here : net.node? n.id = some n) :
    (net.landUntil stop f).1.node? n.id =
        some (n.conclude f.purpose f.peer net.now (net.heard stop f)).1 ∧
      (net.landUntil stop f).2 = (n.conclude f.purpose f.peer net.now (net.heard stop f)).2 := by
  unfold landUntil heard
  split
  next cut =>
    refine ⟨?_, rfl⟩
    unfold adjustNode
    rw [own, here]
    exact (node?_setNode ..).trans (if_pos rfl)
  next =>
    rw [land_own own sender here]
    refine ⟨(node?_setNode ..).trans (if_pos ?_), rfl⟩
    exact (n.id_of_conclude ..).symm

theorem deliver_acknowledged {m m' : Message} {ack ack' : Acknowledgment}
    (sent : Message.format.decode (Message.format.encode m) = .ok m')
    (read : Acknowledgment.format.decode (Acknowledgment.format.encode ack) = .ok ack') :
    net.deliver (.fixed ack) m = (net.counted, .ok ack') := by
  unfold deliver
  simp only [sent, read]
  rfl

/-- What an endpoint answers in time is heard as it comes out of its text. -/
theorem heard_fixed {e : Endpoint} {address : String} {peer initiator : NodeId} {purpose : Purpose}
    {m m' : Message} {policy : Policy} {ack ack' : Acknowledgment}
    (answers : start.endpoints.get? address = some e) (responder : e.responder = .fixed ack)
    (timely : Timely e policy stop)
    (sent : Message.format.decode (Message.format.encode m) = .ok m')
    (read : Acknowledgment.format.decode (Acknowledgment.format.encode ack) = .ok ack') :
    net.heard stop (start.depart initiator peer address purpose m policy.timeout 0) = .ok ack' := by
  obtain ⟨⟨r, arrives⟩, uncut⟩ := timely.arrives answers initiator purpose m
  obtain ⟨e', found, rfl⟩ := depart_arrives arrives
  obtain rfl := Option.some.inj (answers.symm.trans (Option.filter_eq_some_iff.mp found).1)
  unfold heard
  rw [uncut, if_neg Bool.false_ne_true]
  have delivered : net.deliver (.fixed ack)
      (start.depart initiator peer address purpose m policy.timeout 0).message =
        (net.counted, .ok ack') := deliver_acknowledged sent read
  unfold arrival
  simp only [arrives, responder, delivered]
  rfl

/-- A pull merges all that was asked for or nothing, and books one outcome at most. The request is
that of the node as it was, `n₀`; what comes of it is settled with the node as it is when it is
decided. Any acknowledgment that an endpoint gives in time is heard. -/
theorem pulls_merge_all_or_nothing {n₀ : Node} {ops : List Operation}
    (same : n₀.id = n.id) (here : net.node? n.id = some n)
    (roster : n.peers = (Roster.empty n.id).after ops) (id : NodeId) (policy : Policy)
    (stop : Option Stop) :
    (n₀.peers.contains id = false →
      start.pullUntil net n₀ id policy stop = (net, .error (.refused (.peer (.unknownPeer id))))) ∧
    ∀ p, n₀.peers.get? id = some p →
      (∃ next, (start.pullUntil net n₀ id policy stop).1.node? n.id = some next ∧
        n.Pulled id net.now (net.heard stop (start.request n₀ id p policy)) next
          (start.pullUntil net n₀ id policy stop).2) ∧
      ∀ e ack ack', start.endpoints.get? p.address = some e → e.responder = .fixed ack →
        Timely e policy stop →
        Acknowledgment.format.decode (Acknowledgment.format.encode ack) = .ok ack' →
        net.heard stop (start.request n₀ id p policy) = .ok ack' := by
  constructor
  · intro absent
    have absent : n₀.peers.get? id = none :=
      Option.not_isSome_iff_eq_none.mp (Bool.eq_false_iff.mp absent)
    unfold pullUntil
    rw [absent]
  · intro p known
    constructor
    · have sound : n.peers.Every (Peer.Sound n.id) := roster ▸ Roster.sound_after n.id ops
      have pull : start.pullUntil net n₀ id policy stop =
          net.landUntil stop (start.request n₀ id p policy) := by
        unfold pullUntil
        rw [known]
      obtain ⟨after, result⟩ := landUntil_own stop (start.request n₀ id p policy) same same here
      rw [pull, result]
      exact ⟨_, after, Node.pulled_conclude sound id net.now _⟩
    · intro e ack ack' answers responder timely read
      have sent : Message.format.decode (Message.format.encode (n₀.requestMessage id start.now)) =
          .ok (n₀.requestMessage id start.now) := Message.decode_encode_of_travels trivial
      exact heard_fixed answers responder timely sent read

/-- A node that holds one rule. -/
def holder : Node := (Node.empty "b").addRule "r" "t"

/-- A network in which the peer of a node answers with a full state for the recipient. -/
def answering (recipient : NodeId) : Network :=
  ((empty 10).setNode (acquaintance "a" "b" "b:1")).listen "b:1"
    (.fixed (.synced holder.version (some (holder.responseMessage recipient 10))))

/-- A state that is addressed to the node that asked for it is merged; one for another is not, and
counts as a failure. -/
theorem state_merged_or_charged :
    let a := acquaintance "a" "b" "b:1"
    let pulled (recipient : NodeId) := (answering recipient).pullFrom a "b" ⟨1, 1, 100, none⟩
    (∃ next, (pulled "a").1.node? "a" = some next ∧ next.lastFullSync = some 10 ∧
      next.rules = a.rules.merge holder.rules) ∧
    (pulled "c").1.node? "a" = some { a with peers := a.peers.adjust "b" (·.fail 10) } := by
  intro a pulled
  have own (recipient : NodeId) : (answering recipient).node? a.id = some a :=
    (node?_setNode (empty 10) a a.id).trans (if_pos rfl)
  have roster : a.peers = (Roster.empty a.id).after [.register ⟨"b", "b:1", [], none⟩ 0] := rfl
  obtain ⟨p, known, address⟩ : ∃ p, a.peers.get? "b" = some p ∧ p.address = "b:1" :=
    ⟨_, rfl, rfl⟩
  have listens (recipient : NodeId) : (answering recipient).endpoints.get? p.address =
      some ⟨.fixed (.synced holder.version (some (holder.responseMessage recipient 10))), false,
        0⟩ := by
    rw [address]
    exact (SortedMap.get?_insert ..).trans (if_pos rfl)
  have comes (recipient : NodeId) : Acknowledgment.format.decode (Acknowledgment.format.encode
      (.synced holder.version (some (holder.responseMessage recipient 10)))) =
        .ok (.synced holder.version (some (holder.responseMessage recipient 10))) := by
    refine Acknowledgment.decode_encode_of_reply fun m reply => ⟨holder.fullState, ?_⟩
    exact Option.some.inj reply ▸ rfl
  have settled (recipient : NodeId) : ∃ next, (pulled recipient).1.node? "a" = some next ∧
      a.Pulled "b" 10 (.ok (.synced holder.version (some (holder.responseMessage recipient 10))))
        next (pulled recipient).2 := by
    obtain ⟨-, pulls⟩ := pulls_merge_all_or_nothing (n := a) rfl (own recipient) roster "b"
      ⟨1, 1, 100, none⟩ none
    obtain ⟨⟨next, after, result⟩, hears⟩ := pulls p known
    rw [hears _ _ _ (listens recipient) rfl ⟨rfl, Nat.zero_le _, rfl⟩ (comes recipient),
      pullUntil_none] at result
    rw [pullUntil_none] at after
    exact ⟨next, after, result⟩
  constructor
  · obtain ⟨next, after, pull⟩ := settled "a"
    have brought : a.Brought "b" (.synced holder.version (some (holder.responseMessage "a" 10)))
        (holder.responseMessage "a" 10) holder.snapshot := {
      reply := rfl
      state := ⟨_, rfl, Snapshot.decode_encode_of_travels fun _ member =>
        absurd member List.not_mem_nil⟩
      sender := rfl
      addressed := .inr rfl }
    have merged := pull.merged (pull.ok_iff.mpr ⟨rfl, _, _, _, rfl, brought⟩) _ _ _ rfl brought
    subst merged
    exact ⟨_, after, rfl, rfl⟩
  · obtain ⟨next, after, pull⟩ := settled "c"
    have unread : ∀ m s,
        ¬a.Brought "b" (.synced holder.version (some (holder.responseMessage "c" 10))) m s := by
      intro m s brought
      have addressed := brought.addressed
      rw [← Option.some.inj brought.reply] at addressed
      have other : "c" = "" ∨ "c" = "a" := addressed
      exact absurd other (by decide)
    rw [after]
    cases outcome : (pulled "c").2 with
    | ok _ =>
        obtain ⟨-, _, m, s, same, brought⟩ := pull.ok_iff.mp outcome
        obtain rfl := Except.ok.inj same
        exact absurd brought (unread m s)
    | error e =>
        refine congrArg some (pull.charged e outcome ?_)
        rintro rfl
        nomatch pull.cancelled_iff.mp outcome

end Network

end ThreatGossip
