import ThreatGossip.Proofs.Completeness
import ThreatGossip.Proofs.Operations
import ThreatGossip.Proofs.Publication
import ThreatGossip.Proofs.Versions
import ThreatGossip.Proofs.Views
/-!
Nodes that lose their memory. What a node believes of a peer's version only ever grows, so when the
peer starts anew it is believed to have what it has lost. Exchanges go on to succeed, and they bring
the peer all registers but those that the belief covers; of these it has what it had before.
-/
namespace ThreatGossip

open Json (Document)
open Relation (TransGen)

namespace RegisterMap

variable {α : Type} {m m' m'' o : RegisterMap α} {rs : Registers α} {known later : Clock}
  {k : String} {s : Register (Option α)}

/-- Under the key there is a register whose clock knows another one. -/
def Holds (m : RegisterMap α) (key : String) (c : Clock) : Prop :=
  ∃ r, m.register? key = some r ∧ r.clock.descends c = true

/-- A map has taken in the registers of another one, except for those that a clock knows. -/
structure Fed (o : RegisterMap α) (known : Clock) (m m' : RegisterMap α) : Prop where
  brought : ∀ k s, o.register? k = some s → ¬s.clock ≤ known →
    m'.Holds k s.clock ∧ s.clock ≤ m'.version
  withheld : ∀ k s, o.register? k = some s → s.clock ≤ known → m'.register? k = m.register? k
  kept : ∀ k c, m.Holds k c → m'.Holds k c
  version : m.version ≤ m'.version
  least : ∀ c, m.version ≤ c →
    (∀ k s, o.register? k = some s → ¬s.clock ≤ known → s.clock ≤ c) → m'.version ≤ c

/-- Taking in a delta whose registers have come through with their clocks. -/
theorem fed_absorb {now : Millis} (clocks : ∀ k, (rs.get? k).map Register.clock =
      ((o.delta known now).changes.get? k).map Register.clock) :
    Fed o known m (m.absorb rs) where
  brought := by
    intro k s found ahead
    have came := clocks k
    rw [get?_delta_changes found, Clock.descends_eq_false_iff.mpr ahead] at came
    obtain ⟨r, carried, same⟩ := Option.map_eq_some_iff.mp came
    obtain ⟨t, stands, le⟩ := brought_clock_le_absorb carried m
    exact ⟨⟨t, stands, Clock.descends_iff.mpr (same ▸ le)⟩,
      same ▸ clock_le_version_absorb carried m⟩
  withheld := by
    intro k s found covered
    have came := clocks k
    rw [get?_delta_changes found, Clock.descends_iff.mpr covered] at came
    exact register?_absorb_of_missing (Option.map_eq_none_iff.mp came) m
  kept := by
    rintro k c ⟨r, found, knows⟩
    obtain ⟨t, stands, le⟩ := clock_le_absorb found rs
    exact ⟨t, stands, Clock.descends_iff.mpr (le_trans (Clock.descends_iff.mp knows) le)⟩
  version := le_version_absorb m rs
  least := by
    intro c start each
    refine version_absorb_le start fun k r carried => ?_
    have came := clocks k
    rw [carried] at came
    obtain ⟨s, sent, same⟩ := Option.map_eq_some_iff.mp came.symm
    have found := delta_changes_some sent
    rw [get?_delta_changes found] at sent
    rw [← same]
    refine each k s found fun covered => ?_
    rw [Clock.descends_iff.mpr covered] at sent
    nomatch sent

/-- A second time, when no less is known, adds nothing about what was left out the first time. -/
theorem Fed.trans (first : Fed o known m m') (le : known ≤ later) (second : Fed o later m' m'') :
    Fed o known m m'' where
  brought k s found ahead :=
    have ⟨holds, reached⟩ := first.brought k s found ahead
    ⟨second.kept k s.clock holds, le_trans reached second.version⟩
  withheld k s found covered :=
    (second.withheld k s found (le_trans covered le)).trans (first.withheld k s found covered)
  kept k c holds := second.kept k c (first.kept k c holds)
  version := le_trans first.version second.version
  least c start each :=
    second.least c (first.least c start each) fun k s found ahead =>
      each k s found fun covered => ahead (le_trans covered le)

theorem Fed.holds_iff (fed : Fed o known m m') (found : o.register? k = some s) :
    m'.Holds k s.clock ↔ ¬s.clock ≤ known ∨ m.Holds k s.clock := by
  by_cases covered : s.clock ≤ known
  · unfold Holds
    rw [fed.withheld k s found covered]
    exact ⟨.inr, fun h => h.resolve_left (not_not_intro covered)⟩
  · exact ⟨fun _ => .inl covered, fun _ => (fed.brought k s found covered).1⟩

/-- A map comes to know all that the other one does if it knows what was left out. -/
theorem Fed.version_le_iff (fed : Fed o known m m') (spanned : o.Spanned) :
    o.version ≤ m'.version ↔
      ∀ k s, o.register? k = some s → s.clock ≤ known → s.clock ≤ m'.version := by
  constructor
  · exact fun le k s found _ => le_trans (spanned.dated k s found) le
  · intro knows
    refine spanned.2 ?_
    rintro c ⟨k, s, found, rfl⟩
    by_cases covered : s.clock ≤ known
    · exact knows k s found covered
    · exact (fed.brought k s found covered).2

/-- The span of a map is a matter of its clocks. -/
theorem Spanned.of_sameClocks (h : o.Spanned) (same : m.SameClocks o) : m.Spanned := by
  have clocks : m.clocks = o.clocks := by
    have through {a b : RegisterMap α}
        (same : ∀ k, (a.register? k).map Register.clock = (b.register? k).map Register.clock) :
        a.clocks ⊆ b.clocks := by
      rintro c ⟨k, r, found, rfl⟩
      have there := same k
      rw [found] at there
      obtain ⟨r', found', clock⟩ := Option.map_eq_some_iff.mp there.symm
      exact ⟨k, r', found', clock⟩
    exact Set.Subset.antisymm (through same.registers) (through fun k => (same.registers k).symm)
  unfold Spanned
  rw [clocks, same.version]
  exact h

end RegisterMap

namespace Roster

variable {owner : NodeId} {r : Roster}

/-- The roster has come about by operations. -/
def Made (owner : NodeId) (r : Roster) : Prop := ∃ ops, r = (empty owner).after ops

theorem Made.perform (h : r.Made owner) (op : Operation) : (r.perform op).Made owner := by
  obtain ⟨ops, rfl⟩ := h
  exact ⟨ops ++ [op], (after_concat ..).symm⟩

theorem Made.every_sound (h : r.Made owner) : r.Every (Peer.Sound owner) := by
  obtain ⟨ops, rfl⟩ := h
  exact sound_after owner ops

theorem Made.register (h : r.Made owner) {i : Introduction} {now : Millis} {r' : Roster}
    (registered : r.register i now = .ok r') : r'.Made owner := by
  have performed : r.perform (.register i now) = r' := by
    simp only [Roster.perform, registered]
    rfl
  exact performed ▸ h.perform _

theorem Made.of_handle {n next : Node} (h : n.peers.Made owner) {m : Message} {now : Millis}
    {ack : Acknowledgment} (handled : n.handle m now = .ok (next, ack)) :
    next.peers.Made owner := by
  refine Node.keeps_of_handle handled (P := (·.Made owner)) ?_ ?_ h
  · exact fun r made => perform_touch r m.sender now ▸ made.perform (.touch m.sender now)
  · exact fun r made => made.perform (.learn m.sender m.version)

end Roster

namespace Network

variable {net net' : Network} {me peer : NodeId} {n b : Node} {p : Peer} {policy : Policy}

/-- A node syncs with a peer on its roster, and succeeds. -/
def Syncs (policy : Policy) (me peer : NodeId) (net net' : Network) : Prop :=
  ∃ n p, net.node? me = some n ∧ n.peers.get? peer = some p ∧
    net.syncWith n p policy = (net', .ok ())

/-- A network of honest nodes, in which one has a peer on its roster. -/
structure Pairs (net : Network) (n : Node) (p : Peer) (b : Node) : Prop where
  honest : net.Honest
  named : net.Named
  here : net.node? n.id = some n
  there : net.node? b.id = some b
  made : n.peers.Made n.id
  theirs : b.peers.Made b.id
  known : n.peers.get? b.id = some p

/-- What successful exchanges do: the peer takes in what it was not believed to have, and is
believed to have no less than before. -/
structure Serves (net net' : Network) (n n' : Node) (p p' : Peer) (b b' : Node) : Prop where
  pairs : Pairs net' n' p' b'
  name : n'.id = n.id
  content : n'.snapshot = n.snapshot
  peer : b'.id = b.id
  address : p'.address = p.address
  credit : p.version ≤ p'.version
  fed : RegisterMap.Fed n.threats p.version b.threats b'.threats
  knows : b'.peers.contains n.id = true
  endpoints : net'.endpoints = net.endpoints

theorem Serves.trans {mid : Network} {n' n'' b' b'' : Node} {p' p'' : Peer}
    (first : Serves net mid n n' p p' b b') (second : Serves mid net' n' n'' p' p'' b' b'') :
    Serves net net' n n'' p p'' b b'' where
  pairs := second.pairs
  name := second.name.trans first.name
  content := second.content.trans first.content
  peer := second.peer.trans first.peer
  address := second.address.trans first.address
  credit := le_trans first.credit second.credit
  fed := by
    have fed := second.fed
    rw [show n'.threats = n.threats from congrArg Snapshot.threats first.content] at fed
    exact first.fed.trans first.credit fed
  knows := first.name ▸ second.knows
  endpoints := second.endpoints.trans first.endpoints

theorem Serves.reaches {n' b' : Node} {p' : Peer} (h : Serves net net' n n' p p' b b')
    {timeout : Nat} (reached : net.Reaches p.address b.id timeout) :
    net'.Reaches p'.address b'.id timeout := by
  unfold Reaches endpoint?
  rw [h.endpoints, h.address, h.peer]
  exact reached

theorem Pairs.sync (h : Pairs net n p b) (synced : Syncs policy n.id b.id net net') :
    ∃ n' p' b', Serves net net' n n' p p' b b' := by
  obtain ⟨n', p', here, known, success⟩ := synced
  obtain rfl := Option.some.inj (h.here.symm.trans here)
  obtain rfl := Option.some.inj (h.known.symm.trans known)
  obtain ⟨own, foreign, titled, -, -⟩ := h.made.every_sound b.id p h.known
  obtain ⟨m, e, mid, ack, built, up, delivered, rfl⟩ := syncWith_spec success
  obtain ⟨since, claimed, rfl⟩ := Fleet.deltaMessage_spec built
  have covered : since = p.version := by
    rw [own, Roster.version?, h.known] at claimed
    exact (Option.some.inj claimed).symm
  subst covered
  obtain ⟨id, responder⟩ := h.honest _ e up
  rw [responder] at delivered
  obtain ⟨x, m', next, found, read, handled, rfl⟩ := deliver_answered delivered
  obtain ⟨threats, rules, metrics, payload, clocks⟩ := Message.delta_of_decode read rfl
  have to_peer : m'.recipient = b.id :=
    (congrArg Message.Envelope.recipient (Message.envelope_of_decode read)).trans own
  obtain ⟨accepted, -⟩ := Node.handle_cases handled
  have name : x.id = b.id :=
    ((accepted.addressed.resolve_left (to_peer ▸ titled)).symm.trans to_peer)
  obtain rfl : x = b := by
    rw [← h.named id x found, name, h.there] at found
    exact (Option.some.inj found).symm
  obtain ⟨same, reached, fed⟩ : next.id = x.id ∧ ack.version = next.version ∧
      RegisterMap.Fed n.threats p.version x.threats next.threats := by
    obtain ⟨rfl, rfl⟩ := Node.delta_of_handle payload handled
    exact ⟨rfl, rfl, RegisterMap.fed_absorb clocks⟩
  have apart : n.id ≠ next.id := same ▸ Ne.symm foreign
  have kept : (net.counted.setNode next).node? n.id = some n := by
    rw [node?_setNode, if_neg apart]
    exact h.here
  have booked : (net.counted.setNode next).adjustNode n.id
      (·.recordSuccess p.id ack.version (net.counted.setNode next).now) =
        (net.counted.setNode next).setNode (n.recordSuccess x.id next.version net.now) := by
    unfold adjustNode
    rw [kept, own, reached]
    rfl
  have counted : net.counted.Named := h.named
  have knows : next.peers.contains n.id = true := by
    have sender : m'.sender = n.id :=
      congrArg Message.Envelope.sender (Message.envelope_of_decode read)
    exact sender ▸ Node.contains_of_handle handled accepted.known
  have pairs : Pairs
      ((net.counted.setNode next).setNode (n.recordSuccess x.id next.version net.now))
      (n.recordSuccess x.id next.version net.now) (p.succeed next.version net.now) next := by
    constructor
    · exact h.honest
    · exact (counted.setNode next).setNode _
    · exact (node?_setNode ..).trans (if_pos rfl)
    · rw [node?_setNode]
      exact (if_neg apart.symm).trans ((node?_setNode ..).trans (if_pos rfl))
    · exact h.made.perform (.succeed x.id next.version net.now)
    · exact same ▸ h.theirs.of_handle handled
    · rw [same]
      exact (Roster.get?_adjust ..).trans ((if_pos rfl).trans (by rw [h.known]; rfl))
  rw [booked]
  exact ⟨_, _, next, pairs, rfl, rfl, same, rfl, Clock.le_join_left _ _, fed, knows, rfl⟩

/-- A peer that is reached and knows the node takes its delta in. -/
theorem Pairs.succeeds (h : Pairs net n p b) (knows : b.peers.contains n.id = true)
    (reached : net.Reaches p.address b.id policy.timeout)
    (travels : n.snapshot.EachDocument Travels) :
    ∃ net', net.syncWith n p policy = (net', .ok ()) := by
  obtain ⟨own, foreign, -, -, -⟩ := h.made.every_sound b.id p h.known
  have read := Message.decode_encode_of_travels (m := net.push n p)
    (Registers.EachDocument.delta travels p.version net.now)
  obtain ⟨q, listed⟩ := Roster.contains_iff.mp knows
  have accepts : b.Accepts (net.push n p) := by
    refine ⟨(h.theirs.every_sound n.id q listed).named, Ne.symm foreign, knows, .inr own,
      fun text holds => ?_⟩
    rcases holds with holds | holds <;> cases holds
  obtain ⟨next, ack, handled⟩ := Node.handle_eq_ok_iff.mpr (Node.accepts_iff.mp accepts)
  exact ⟨_, syncWith_handled h.here h.there h.known own (Ne.symm foreign) reached read handled⟩

/-- The belief that exchanges in a row begin with decides what they bring, however many they are. -/
theorem Pairs.syncs (h : Pairs net n p b) (run : TransGen (Syncs policy n.id b.id) net net') :
    ∃ n' p' b', Serves net net' n n' p p' b b' := by
  induction run with
  | single synced => exact h.sync synced
  | tail _ synced ih =>
      obtain ⟨n', p', b', serves⟩ := ih
      obtain ⟨n'', p'', b'', again⟩ := serves.pairs.sync (serves.name ▸ serves.peer ▸ synced)
      exact ⟨n'', p'', b'', serves.trans again⟩

end Network

namespace Fleet

variable {s t : Fleet} {n next : Node} {a b : NodeId} {ids : List NodeId}

/-- The fleets that new nodes of the given names can come to be when one of them, besides, may lose
its memory at any time: it is then a new node again that has registered a certain other one. -/
inductive Lapses (ids : List NodeId) (a b : NodeId) : Fleet → Prop
  | start : Lapses ids a b (start ids)
  | write {s t : Fleet} : Lapses ids a b s → Local s t → Lapses ids a b t
  | gossip {s t : Fleet} : Lapses ids a b s → Traffic s t → Lapses ids a b t
  | restart {s : Fleet} {n fresh : Node} (i : Introduction) (now : Millis) : Lapses ids a b s →
      s.Has n → n.id = b → i.id = a → (Node.empty b).addPeer i now = .ok fresh →
      Lapses ids a b (s.become fresh)

/-- A run without a restart. -/
theorem Reachable.lapses (run : Reachable ids s) : Lapses ids a b s := by
  induction run with
  | start => exact .start
  | write _ step ih => exact .write ih step
  | gossip _ step ih => exact .gossip ih step

/-- What holds of a fleet even though memory has been lost: rosters are made by operations, versions
are spanned by their registers, and full states on the way are those of nodes. -/
structure Orderly (s : Fleet) : Prop where
  named : ∀ id n, s.nodes.get? id = some n → n.id = id
  made : ∀ n, s.Has n → n.peers.Made n.id
  present : ∀ n, s.Has n → n ∈ s.past
  spanned : ∀ n ∈ s.past, n.threats.Spanned
  states : ∀ l ∈ s.sent, ∀ text,
    l.message.payload = .full text ∨ l.message.payload = .response text →
      ∃ n ∈ s.past, text = n.fullState

theorem orderly_start (ids : List NodeId) : (start ids).Orderly where
  named id n found := by rw [eq_empty_of_start found]; rfl
  made n has := by
    rw [eq_empty_of_start has]
    exact ⟨[], rfl⟩
  present n has := has
  spanned n has := by
    have has : (start ids).Has n := has
    rw [eq_empty_of_start has]
    exact RegisterMap.spanned_empty _
  states l member := member.elim

theorem Orderly.become (h : s.Orderly) (made : next.peers.Made next.id)
    (spanned : next.threats.Spanned) : (s.become next).Orderly where
  named := by
    intro id m found
    change (s.nodes.insert next.id next).get? id = some m at found
    rw [SortedMap.get?_insert] at found
    split at found
    next here => rw [← Option.some.inj found, here]
    next => exact h.named id m found
  made := by
    intro m there
    rcases has_become_iff.mp there with rfl | ⟨-, there⟩
    · exact made
    · exact h.made m there
  present := by
    intro m there
    rcases has_become_iff.mp there with rfl | ⟨-, there⟩
    · exact .inl rfl
    · exact .inr (h.present m there)
  spanned := by
    rintro m (rfl | old)
    · exact spanned
    · exact h.spanned m old
  states l member text holds :=
    have ⟨m, old, spoken⟩ := h.states l member text holds
    ⟨m, .inr old, spoken⟩

/-- A node's roster changes by an operation. -/
theorem Orderly.operate (h : s.Orderly) (has : s.Has n) (same : next.id = n.id)
    (threats : next.threats = n.threats) (made : next.peers.Made n.id) :
    (s.become next).Orderly :=
  h.become (same ▸ made) (threats ▸ h.spanned n (h.present n has))

theorem Orderly.post (h : s.Orderly) {l : Letter} (states : ∀ text,
    l.message.payload = .full text ∨ l.message.payload = .response text →
      ∃ n ∈ s.past, text = n.fullState) : (s.post l).Orderly where
  named := h.named
  made := h.made
  present := h.present
  spanned := h.spanned
  states := by
    rintro m (rfl | old)
    · exact states
    · exact h.states m old

theorem Orderly.answer {ack : Acknowledgment} {origin : Node} (h : (s.become next).Orderly)
    (states : ∀ m, ack.reply = some m → ∀ text,
      m.payload = .full text ∨ m.payload = .response text →
        ∃ n ∈ (s.become next).past, text = n.fullState) : (s.answer next ack origin).Orderly where
  named := h.named
  made := h.made
  present := h.present
  spanned := h.spanned
  states := by
    rintro ⟨m, origin'⟩ (sent | ⟨reply, rfl⟩)
    · exact h.states _ sent
    · exact states m reply

/-- A node that takes a letter in stays spanned: deltas bring nothing but registers, and a full
state is read with the clocks that it was written with. -/
theorem Orderly.spanned_of_handle (h : s.Orderly) (has : s.Has n) {l : Letter} (member : l ∈ s.sent)
    {now : Millis} {ack : Acknowledgment} (handled : n.handle l.message now = .ok (next, ack)) :
    next.threats.Spanned := by
  have spanned := h.spanned n (h.present n has)
  obtain ⟨-, ⟨threats, _, _, -, rfl, -⟩ | ⟨text, t, brought, read, rfl, -⟩ | ⟨-, rfl, -⟩⟩ :=
    Node.handle_cases handled
  · exact spanned.absorb threats.changes
  · obtain ⟨m, old, rfl⟩ := h.states l member text brought
    exact spanned.merge ((h.spanned m old).of_sameClocks (Snapshot.sameClocks_of_decode read))
  · exact spanned

theorem Orderly.write (h : s.Orderly) (step : Local s t) : t.Orderly := by
  have stores {n : Node} {key : String} {value : Option Document} {now : Millis} {m : ThreatMap}
      {w : Write Document} (has : s.Has n) (stored : n.threats.put? key value now = some m) :
      (s.record { n with threats := m } w).Orderly := by
    have orderly : (s.become { n with threats := m }).Orderly :=
      h.become (h.made n has) ((h.spanned n (h.present n has)).put stored)
    exact ⟨orderly.named, orderly.made, orderly.present, orderly.spanned, orderly.states⟩
  cases step with
  | put key d now has put =>
      obtain ⟨m, stored, rfl⟩ := Option.map_eq_some_iff.mp put
      exact stores has stored
  | delete key now has put =>
      obtain ⟨m, stored, rfl⟩ := Option.map_eq_some_iff.mp put
      exact stores has stored
  | @addRule n _ _ has | @removeRule n _ has | @addMetric n _ has | @subtractMetric n _ has =>
      exact h.operate has rfl rfl (h.made n has)

theorem Orderly.gossip (h : s.Orderly) (step : Traffic s t) : t.Orderly := by
  cases step with
  | @addPeer n n' i now has added =>
      obtain ⟨peers, registered, rfl⟩ := Node.addPeer_spec added
      exact h.operate has rfl rfl ((h.made n has).register registered)
  | @removePeer n id has => exact h.operate has rfl rfl ((h.made n has).perform (.remove id))
  | @refresh n now has => exact h.operate has rfl rfl ((h.made n has).perform (.refresh now))
  | @evict n maxAge now has =>
      exact h.operate has rfl rfl ((h.made n has).perform (.evict maxAge now))
  | @fail n peer now has => exact h.operate has rfl rfl ((h.made n has).perform (.fail peer now))
  | @book n peer ack now has given =>
      exact h.operate has rfl rfl ((h.made n has).perform (.succeed peer ack.version now))
  | @delta n peer m now has built =>
      obtain ⟨since, -, rfl⟩ := deltaMessage_spec built
      refine h.post fun text holds => ?_
      rcases holds with holds | holds <;> cases holds
  | @full n old peer now has earlier same =>
      refine h.post fun text holds => ⟨old, earlier, ?_⟩
      rcases holds with holds | holds <;> cases holds
      rfl
  | @request n peer now has =>
      refine h.post fun text holds => ?_
      rcases holds with holds | holds <;> cases holds
  | @deliver n next l ack now has member handled =>
      have made := Node.id_of_handle handled ▸ (h.made n has).of_handle handled
      refine (h.become made (h.spanned_of_handle has member handled)).answer
        fun m reply text holds => ⟨next, .inl rfl, ?_⟩
      obtain ⟨-, rfl⟩ := Node.reply_of_handle handled reply
      rcases holds with holds | holds <;> cases holds
      rfl
  | @respond n old heard l ack now has member request handled earlier same =>
      have made := Node.id_of_handle handled ▸ (h.made n has).of_handle handled
      refine (h.become made (h.spanned_of_handle has member handled)).answer
        fun m reply text holds => ⟨old, .inr earlier, ?_⟩
      obtain rfl := Option.some.inj reply
      rcases holds with holds | holds <;> cases holds
      rfl

theorem Lapses.orderly (run : Lapses ids a b s) : s.Orderly := by
  induction run with
  | start => exact orderly_start ids
  | write _ step ih => exact ih.write step
  | gossip _ step ih => exact ih.gossip step
  | restart i now _ has name introduced added ih =>
      obtain ⟨peers, registered, rfl⟩ := Node.addPeer_spec added
      have none_known : (Roster.empty b).Made b := ⟨[], rfl⟩
      exact ih.become (none_known.register registered) (RegisterMap.spanned_empty b)

theorem Orderly.pairs (h : s.Orderly) {net : Network} {a b : Node} {p : Peer} (ha : s.Has a)
    (hb : s.Has b) (nodes : net.nodes = s.nodes) (honest : net.Honest)
    (known : a.peers.get? b.id = some p) : net.Pairs a p b := by
  have present {n : Node} (has : s.Has n) : net.node? n.id = some n := by
    unfold Network.node?
    rw [nodes]
    exact has
  exact ⟨honest, fun id n found => h.named id n (nodes ▸ found), present ha, present hb,
    h.made a ha, h.made b hb, known⟩

/-- In every fleet that new nodes can come to be, restarts of `b` included, exchanges of `a` with `b`
that succeed, one or more in a row, bring `b` every register that `a` did not believe it to have.
One that `a` believed it to have is not sent: `b` keeps what it had under that key, and its version
descends that of `a` just when it knows all of these. If `b` was never restarted, it then has
everything. -/
theorem syncs_bring_what_is_not_credited {net net' : Network} {a b : Node} {p : Peer}
    {policy : Policy} (run : Lapses ids a.id b.id s) (ha : s.Has a) (hb : s.Has b)
    (nodes : net.nodes = s.nodes) (honest : net.Honest) (known : a.peers.get? b.id = some p)
    (syncs : TransGen (Network.Syncs policy a.id b.id) net net') :
    ∃ a' b', net'.node? a.id = some a' ∧ net'.node? b.id = some b' ∧ a'.threats = a.threats ∧
      (∀ k r, a'.threats.register? k = some r →
        (b'.threats.Holds k r.clock ↔
          p.version.descends r.clock = false ∨ b.threats.Holds k r.clock) ∧
        (p.version.descends r.clock = true → b'.threats.register? k = b.threats.register? k)) ∧
      (b'.version.descends a'.version = true ↔ ∀ k r, a'.threats.register? k = some r →
        p.version.descends r.clock = true → b'.version.descends r.clock = true) ∧
      (b.version.descends p.version = true → b'.version.descends a'.version = true) ∧
      (Reachable ids s → b'.version.descends a'.version = true ∧
        ∀ k r, a'.threats.register? k = some r → b'.threats.Holds k r.clock) := by
  have orderly := run.orderly
  have pairs := orderly.pairs ha hb nodes honest known
  obtain ⟨a', p', b', serves⟩ := pairs.syncs syncs
  have fed := serves.fed
  have here := serves.pairs.here
  have there := serves.pairs.there
  rw [serves.name] at here
  rw [serves.peer] at there
  have threats : a'.threats = a.threats := congrArg Snapshot.threats serves.content
  have spanned := orderly.spanned a (orderly.present a ha)
  have version : a'.version = a.version := congrArg RegisterMap.version threats
  refine ⟨a', b', here, there, threats, ?_⟩
  rw [threats, version]
  have reaches : p.version ≤ b.version → a.version ≤ b'.version := fun knew =>
    (fed.version_le_iff spanned).mpr fun _ _ _ covered =>
      le_trans covered (le_trans knew fed.version)
  simp only [Clock.descends_iff, Clock.descends_eq_false_iff]
  refine ⟨fun k r found => ⟨fed.holds_iff found, fed.withheld k r found⟩,
    fed.version_le_iff spanned, reaches, fun reachable => ?_⟩
  have inv := reachable.invariant
  have knew : p.version ≤ b.version := by
    rw [← version_of_has hb]
    exact (inv.rosters a ha).version_le known
  refine ⟨reaches knew, fun k r found => ?_⟩
  by_cases covered : r.clock ≤ p.version
  · obtain ⟨r', stands, le⟩ := inv.known ha hb found (le_trans covered knew)
    exact fed.kept k r.clock ⟨r', stands, Clock.descends_iff.mpr le⟩
  · exact (fed.brought k r found covered).1

section Samples

/-- The node `a` once `b` has acknowledged its write. -/
def credited : Node := writer.recordSuccess "b" firstWrite.version 0

def lastRegister : Register (Option Document) :=
  ⟨some (.ofTree (.boolean true)), 1, .ofList [("a", 2)], "a"⟩

/-- The node `a` once it has written again. -/
def busy : Node :=
  { credited with
    threats := ⟨"a", lastRegister.clock, firstWrite.registers.insert "j" lastRegister⟩ }

/-- The network of a node and of `b`, which has just started. -/
def resumed (n : Node) : Network :=
  (((Network.empty 0).setNode n).setNode (paired "b" "a")).listen "address" (.node "b")

def calm : Policy := ⟨30000, 3, 5000, none⟩

/-- The node `b` starts anew when it has acknowledged a write. -/
theorem lapses_credited :
    ∃ s, Lapses ["a", "b"] "a" "b" s ∧ s.nodes = (resumed credited).nodes := by
  have sent := reachable_written.gossip <| .delta 0 (n := writer) rfl
    (show Node.deltaMessage _ "b" 0 = .ok _ from rfl)
  have taken := sent.gossip <| .deliver 0 (n := paired "b" "a") rfl (Set.mem_insert _ _) rfl
  have booked := taken.gossip <|
    .book 0 (n := writer) (Has.become rfl (by decide)) (Set.mem_insert _ _)
  exact ⟨_, .restart ⟨"a", "address", [], none⟩ 0 booked.lapses (has_become.become (by decide)) rfl
    rfl rfl, rfl⟩

theorem honest_resumed (n : Node) : (resumed n).Honest := by
  intro address e found
  obtain ⟨found, -⟩ := Option.filter_eq_some_iff.mp found
  refine ⟨"b", ?_⟩
  rw [resumed, Network.listen, SortedMap.get?_insert] at found
  split at found
  · rw [← Option.some.inj found]
  · nomatch found

theorem reaches_resumed (n : Node) : (resumed n).Reaches "address" "b" calm.timeout :=
  ⟨_, rfl, rfl, by decide⟩

theorem entry_credited : ∃ p, credited.peers.get? "b" = some p ∧ p.version = firstWrite.version ∧
    p.address = "address" :=
  ⟨_, rfl, rfl, rfl⟩

theorem travels_busy : busy.threats.registers.EachDocument Travels := by
  intro e member d live
  have either : e ∈ [_, _] := member
  have same : some (Document.ofTree (.boolean true)) = some d := by
    rcases List.mem_cons.mp either with rfl | last
    · exact live
    · rw [List.mem_singleton.mp last] at live
      exact live
  obtain rfl := Option.some.inj same
  exact ⟨⟨rfl, rfl⟩, Nat.zero_le _⟩

theorem travels_credited : credited.threats.registers.EachDocument Travels := by
  intro e member
  exact travels_busy e (List.mem_cons_of_mem _ member)

/-- Exchanges with a peer that started anew succeed time and again, and withhold a write that it
acknowledged before. -/
theorem restart_withholds : ∃ (s : Fleet) (net net₁ net₂ : Network) (a a₁ a₂ b b₂ : Node)
    (p p₁ : Peer) (policy : Policy), Lapses ["a", "b"] "a" "b" s ∧ net.nodes = s.nodes ∧
    net.Honest ∧ net.node? "a" = some a ∧ net.node? "b" = some b ∧
    a.peers.get? "b" = some p ∧ b.peers.contains "a" = true ∧
    net.syncWith a p policy = (net₁, .ok ()) ∧
    net₁.node? "a" = some a₁ ∧ a₁.peers.get? "b" = some p₁ ∧
    net₁.syncWith a₁ p₁ policy = (net₂, .ok ()) ∧
    net₂.node? "a" = some a₂ ∧ net₂.node? "b" = some b₂ ∧
    b₂.version.descends a₂.version = false ∧
    a₂.threats.register? "k" ≠ none ∧ b₂.threats.register? "k" = none := by
  obtain ⟨s, run, nodes⟩ := lapses_credited
  have ha : s.Has credited := (congrArg (SortedMap.get? · "a") nodes).trans rfl
  have hb : s.Has (paired "b" "a") := (congrArg (SortedMap.get? · "b") nodes).trans rfl
  obtain ⟨p, known, credit, address⟩ := entry_credited
  have orderly := run.orderly
  have pairs := orderly.pairs ha hb nodes.symm (honest_resumed credited) known
  have reached := address ▸ reaches_resumed credited
  have travels : credited.snapshot.EachDocument Travels := travels_credited
  obtain ⟨net₁, first⟩ := pairs.succeeds rfl reached travels
  obtain ⟨a₁, p₁, b₁, serves₁⟩ := pairs.sync ⟨_, _, pairs.here, known, first⟩
  have pairs₁ := serves₁.pairs
  obtain ⟨net₂, second⟩ := pairs₁.succeeds (serves₁.name ▸ serves₁.knows) (serves₁.reaches reached)
    (serves₁.content ▸ travels)
  obtain ⟨a₂, p₂, b₂, serves₂⟩ := pairs₁.sync ⟨_, _, pairs₁.here, pairs₁.known, second⟩
  have serves := serves₁.trans serves₂
  have content : a₂.threats = firstWrite := congrArg Snapshot.threats serves.content
  have unmoved : b₂.version ≤ .empty := by
    refine serves.fed.least .empty (le_refl _) fun k r found ahead => absurd ?_ ahead
    rw [credit]
    exact (orderly.spanned credited (orderly.present credited ha)).dated k r found
  have behind : b₂.version.descends firstWrite.version = false :=
    Clock.descends_eq_false_iff.mpr fun le => absurd (le_trans le unmoved) (by decide)
  have lost : b₂.threats.register? "k" = none :=
    serves.fed.withheld "k" _ rfl (by rw [credit]; decide)
  have here₁ := pairs₁.here
  have known₁ := pairs₁.known
  have here₂ := serves₂.pairs.here
  have there₂ := serves₂.pairs.there
  rw [serves₁.name] at here₁
  rw [serves₁.peer] at known₁
  rw [serves.name] at here₂
  rw [serves.peer] at there₂
  refine ⟨s, resumed credited, net₁, net₂, credited, a₁, a₂, paired "b" "a", b₂, p, p₁, calm, run,
    nodes.symm, honest_resumed credited, rfl, rfl, known, rfl, first, here₁, known₁, second, here₂,
    there₂, ?_, ?_, lost⟩
  · unfold Node.version at behind ⊢
    rw [content]
    exact behind
  · rw [content]
    exact Option.some_ne_none _

/-- A write that is made after the restart is brought, and with it a version that counts the one
that is withheld. -/
theorem later_write_is_brought : ∃ (s : Fleet) (net' : Network) (b' : Node),
    Lapses ["a", "b"] "a" "b" s ∧ (resumed busy).nodes = s.nodes ∧
    TransGen (Network.Syncs calm "a" "b") (resumed busy) net' ∧ net'.node? "b" = some b' ∧
    b'.threats.Holds "j" (.ofList [("a", 2)]) ∧ b'.threats.register? "k" = none := by
  obtain ⟨s, run, nodes⟩ := lapses_credited
  obtain ⟨p, known, credit, address⟩ := entry_credited
  have before : s.Has credited := (congrArg (SortedMap.get? · "a") nodes).trans rfl
  have wrote : Local s (s.record busy ⟨"j", lastRegister⟩) :=
    .put "j" (.ofTree (.boolean true)) 0 before rfl rfl
  have run := run.write wrote
  have nodes : (resumed busy).nodes = s.nodes.insert "a" busy := by
    rw [nodes]
    rfl
  have ha : (s.record busy ⟨"j", lastRegister⟩).Has busy := has_become
  have hb : (s.record busy ⟨"j", lastRegister⟩).Has (paired "b" "a") :=
    (congrArg (SortedMap.get? · "b") nodes).symm.trans rfl
  have honest := honest_resumed busy
  have pairs := run.orderly.pairs ha hb nodes honest known
  obtain ⟨net', success⟩ := pairs.succeeds rfl (address ▸ reaches_resumed busy) travels_busy
  have syncs : TransGen (Network.Syncs calm "a" "b") (resumed busy) net' :=
    .single ⟨busy, p, rfl, known, success⟩
  obtain ⟨a', b', -, there, threats, brings, -⟩ :=
    syncs_bring_what_is_not_credited run ha hb nodes honest known syncs
  rw [threats, credit] at brings
  exact ⟨_, net', b', run, nodes, syncs, there, (brings "j" lastRegister rfl).1.mpr (.inl rfl),
    (brings "k" _ rfl).2 rfl⟩

end Samples

end Fleet

end ThreatGossip
