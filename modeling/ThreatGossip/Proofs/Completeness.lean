import Mathlib.Data.List.Basic
import ThreatGossip.Proofs.Fleets
import ThreatGossip.Proofs.Absorption
import ThreatGossip.Proofs.Inbound
import ThreatGossip.Proofs.Json.Replicas
/-!
Causal completeness of fleets. Every node has absorbed all writes that its version counts, and no
roster claims more of a peer than the peer has reached; so what a delta leaves out, its receiver
knows.
-/
namespace ThreatGossip

open Json (Document)

/-- A snapshot is below another when the other knows and holds no less. -/
instance : Preorder Snapshot where
  le a b := a.threats.version ≤ b.threats.version ∧ a.rules ≤ b.rules ∧ a.metrics ≤ b.metrics
  le_refl _ := ⟨le_refl _, le_refl _, le_refl _⟩
  le_trans _ _ _ first second :=
    ⟨le_trans first.1 second.1, le_trans first.2.1 second.2.1, le_trans first.2.2 second.2.2⟩

/-- What a payload holds that speaks of a node: a delta leaves out only what its recipient has
reached. -/
inductive Node.Speaks (n : Node) (recipient : NodeId) (reached : NodeId → Clock) : Payload → Prop
  | delta {since : Clock} (now : Millis) : recipient ≠ "" → since ≤ reached recipient →
      Speaks n recipient reached
        (.delta (n.threats.delta since now) (some n.rules) (some n.metrics))
  | full : Speaks n recipient reached (.full n.fullState)
  | request : Speaks n recipient reached .request
  | response : Speaks n recipient reached (.response n.fullState)

theorem Node.Speaks.mono {n : Node} {recipient : NodeId} {reached more : NodeId → Clock}
    {p : Payload} (h : n.Speaks recipient reached p) (le : ∀ id, reached id ≤ more id) :
    n.Speaks recipient more p := by
  cases h with
  | delta now named known => exact .delta now named (le_trans known (le _))
  | full => exact .full
  | request => exact .request
  | response => exact .response

/-- A letter as an honest node writes it. -/
structure Letter.Genuine (l : Letter) (reached : NodeId → Clock) : Prop where
  sender : l.message.sender = l.origin.id
  version : l.message.version ≤ reached l.message.sender
  speaks : l.origin.Speaks l.message.recipient reached l.message.payload

theorem Letter.Genuine.mono {l : Letter} {reached more : NodeId → Clock} (h : l.Genuine reached)
    (le : ∀ id, reached id ≤ more id) : l.Genuine more :=
  ⟨h.sender, le_trans h.version (le _), h.speaks.mono le⟩

namespace Fleet

/-- The writes of one author, the newest first. -/
def writesOf (s : Fleet) (id : NodeId) : List (Write Document) := s.log.filter (·.author = id)

structure Invariant (s : Fleet) : Prop where
  coherent : Coherent s.log
  named : ∀ id n, s.nodes.get? id = some n → n.id = id
  authors : ∀ w ∈ s.log, ∃ n, s.Has n ∧ n.id = w.author
  numbers : ∀ n, s.Has n →
    (s.writesOf n.id).map Write.number = (List.range' 1 (n.version.count n.id)).reverse
  present : ∀ n, s.Has n → n ∈ s.past
  past : ∀ n ∈ s.past, n.threats.owner = n.id ∧ n.threats.Tracks s.log ∧
    ∃ now, s.Has now ∧ now.id = n.id ∧ n.snapshot ≤ now.snapshot
  rosters : ∀ n, s.Has n → n.peers.Within s.version
  sent : ∀ l ∈ s.sent, l.origin ∈ s.past ∧ l.Genuine s.version
  answers : ∀ id ack, (id, ack) ∈ s.answers → ack.version ≤ s.version id

section States

variable {s : Fleet} {n next : Node}

theorem version_of_has (has : s.Has n) : s.version n.id = n.version := by
  unfold version
  rw [has]
  rfl

theorem Has.unique {a b : Node} (ha : s.Has a) (hb : s.Has b) (same : a.id = b.id) : a = b := by
  unfold Has at ha
  rw [same] at ha
  exact Option.some.inj (ha.symm.trans hb)

theorem has_become_iff {m : Node} : (s.become n).Has m ↔ m = n ∨ m.id ≠ n.id ∧ s.Has m := by
  unfold Has become
  rw [SortedMap.get?_insert]
  by_cases same : m.id = n.id
  · rw [if_pos same]
    constructor
    · intro found
      exact .inl (Option.some.inj found).symm
    · rintro (rfl | ⟨other, -⟩)
      · rfl
      · exact absurd same other
  · rw [if_neg same]
    constructor
    · intro has
      exact .inr ⟨same, has⟩
    · rintro (rfl | ⟨-, has⟩)
      · exact absurd rfl same
      · exact has

theorem has_become : (s.become n).Has n := has_become_iff.mpr (.inl rfl)

theorem Has.become {m : Node} (has : s.Has m) (other : m.id ≠ n.id) : (s.become n).Has m :=
  has_become_iff.mpr (.inr ⟨other, has⟩)

theorem version_become (id : NodeId) :
    (s.become n).version id = if id = n.id then n.version else s.version id := by
  unfold version become
  rw [SortedMap.get?_insert]
  split <;> rfl

theorem version_le_become (has : s.Has n) (same : next.id = n.id)
    (grown : n.version ≤ next.version) (id : NodeId) :
    s.version id ≤ (s.become next).version id := by
  rw [version_become]
  split
  next here =>
    rw [here, same, version_of_has has]
    exact grown
  next => exact le_refl _

end States

section Invariants

variable {s : Fleet} {n next : Node}

theorem Invariant.countsOwn (inv : Invariant s) (has : s.Has n) : n.threats.CountsOwn s.log := by
  intro w member author
  have owner := (inv.past n (inv.present n has)).1
  have listed : w.number ∈ (s.writesOf n.id).map Write.number :=
    List.mem_map_of_mem (List.mem_filter.mpr ⟨member, by rw [author, owner]; simp⟩)
  rw [inv.numbers n has, List.mem_reverse, List.mem_range'_1] at listed
  rw [Clock.Counts, author, owner]
  have bound : w.number < 1 + n.threats.version.count n.id := listed.2
  omega

theorem Invariant.count_le (inv : Invariant s) (has : s.Has n) {c : Clock}
    (closed : c.Closed s.log) : c.count n.id ≤ n.version.count n.id := by
  rcases Nat.eq_zero_or_pos (c.count n.id) with zero | pos
  · omega
  · obtain ⟨w, member, author, number, -⟩ := closed n.id _ pos (Nat.le_refl _)
    have owner := (inv.past n (inv.present n has)).1
    have counted := inv.countsOwn has w member (author.trans owner.symm)
    rw [Clock.Counts, number, author] at counted
    exact counted

theorem eq_empty_of_start {ids : List NodeId} {id : NodeId}
    (found : (start ids).nodes.get? id = some n) : n = Node.empty id := by
  rw [start, SortedMap.get?_mapValues] at found
  obtain ⟨-, -, rfl⟩ := Option.map_eq_some_iff.mp found
  rfl

theorem invariant_start (ids : List NodeId) : Invariant (start ids) := by
  have fresh : ∀ n, (start ids).Has n → n = Node.empty n.id := fun n has => eq_empty_of_start has
  constructor
  · exact .nil
  · intro id n found
    rw [eq_empty_of_start found]
    rfl
  · exact fun w member => absurd member List.not_mem_nil
  · intro n has
    rw [fresh n has]
    rfl
  · exact fun n has => has
  · intro n has
    have has : (start ids).Has n := has
    rw [fresh n has]
    refine ⟨rfl, RegisterMap.tracks_empty _ _ fun w member => absurd member List.not_mem_nil, ?_⟩
    exact ⟨n, has, rfl, fresh n has ▸ le_refl _⟩
  · intro n has
    rw [fresh n has]
    exact Roster.within_empty _ _
  · exact fun l member => member.elim
  · exact fun id ack member => member.elim

/-- A node passes into a state that knows and holds no less, under a log that holds its writes. -/
theorem Invariant.advance (inv : Invariant s) (has : s.Has n) (next : Node) (same : next.id = n.id)
    (owner : next.threats.owner = next.id) (grown : n.snapshot ≤ next.snapshot)
    (within : next.peers.Within s.version) {log : List (Write Document)} (coherent : Coherent log)
    (authors : ∀ w ∈ log, w ∈ s.log ∨ w.author = n.id) (tracks : next.threats.Tracks log)
    (kept : ∀ m ∈ s.past, m.threats.Tracks log)
    (numbers : (log.filter (·.author = n.id)).map Write.number =
      (List.range' 1 (next.version.count n.id)).reverse)
    (others : ∀ id, id ≠ n.id → log.filter (·.author = id) = s.writesOf id) :
    Invariant { s.become next with log } := by
  have reached := version_le_become has same grown.1
  have has_iff : ∀ {m : Node}, Fleet.Has { s.become next with log } m ↔
      m = next ∨ m.id ≠ next.id ∧ s.Has m := has_become_iff
  have version_eq : Fleet.version { s.become next with log } = (s.become next).version := rfl
  constructor
  · exact coherent
  · intro id m found
    change (s.nodes.insert next.id next).get? id = some m at found
    rw [SortedMap.get?_insert] at found
    split at found
    next here => rw [← Option.some.inj found, here]
    next => exact inv.named id m found
  · intro w member
    rcases authors w member with old | own
    · obtain ⟨m, there, author⟩ := inv.authors w old
      by_cases here : m.id = n.id
      · exact ⟨next, has_become, by rw [same, ← here, author]⟩
      · exact ⟨m, there.become (same ▸ here), author⟩
    · exact ⟨next, has_become, same.trans own.symm⟩
  · intro m there
    rcases has_iff.mp there with rfl | ⟨elsewhere, there⟩
    · rw [same]
      exact numbers
    · have unchanged := inv.numbers m there
      rw [← others m.id (same ▸ elsewhere)] at unchanged
      exact unchanged
  · intro m there
    rcases has_iff.mp there with rfl | ⟨-, there⟩
    · exact .inl rfl
    · exact .inr (inv.present m there)
  · rintro m (rfl | old)
    · exact ⟨owner, tracks, m, has_become, rfl, le_refl _⟩
    · obtain ⟨owned, -, now, there, name, below⟩ := inv.past m old
      refine ⟨owned, kept m old, ?_⟩
      -- An earlier state of this node stays below it because the node goes up.
      by_cases here : now.id = n.id
      · obtain rfl := there.unique has here
        exact ⟨next, has_become, same.trans name, le_trans below grown⟩
      · exact ⟨now, there.become (same ▸ here), name, below⟩
  · intro m there
    rw [version_eq]
    rcases has_iff.mp there with rfl | ⟨-, there⟩
    · exact within.mono reached
    · exact (inv.rosters m there).mono reached
  · intro l member
    obtain ⟨origin, genuine⟩ := inv.sent l member
    exact ⟨.inr origin, genuine.mono reached⟩
  · exact fun id ack member => le_trans (inv.answers id ack member) (reached id)

theorem Invariant.become (inv : Invariant s) (has : s.Has n) (same : next.id = n.id)
    (owner : next.threats.owner = n.id) (tracks : next.threats.Tracks s.log)
    (grown : n.snapshot ≤ next.snapshot) (within : next.peers.Within s.version) :
    Invariant (s.become next) := by
  have own : next.version.count n.id = n.version.count n.id :=
    Nat.le_antisymm (inv.count_le has tracks.closed) (grown.1 n.id)
  refine inv.advance has next same (owner.trans same.symm) grown within inv.coherent
    (fun w member => .inl member) tracks (fun m old => (inv.past m old).2.1) ?_ fun _ _ => rfl
  rw [own]
  exact inv.numbers n has

theorem Invariant.record (inv : Invariant s) (has : s.Has n) {key : String}
    {value : Option Document} {now : Millis} {m : ThreatMap} {r : Register (Option Document)}
    (put : n.threats.put? key value now = some m) (wrote : m.register? key = some r) :
    Invariant (s.record { n with threats := m } ⟨key, r⟩) := by
  obtain ⟨owner, tracks, -⟩ := inv.past n (inv.present n has)
  have own := inv.countsOwn has
  have logs := RegisterMap.logs_of_put (w := ⟨key, r⟩) put rfl wrote
  have author : (⟨key, r⟩ : Write Document).author = n.id := logs.author.trans owner
  have fresh : ∀ o ∈ s.past, ¬o.threats.version.Counts (⟨key, r⟩ : Write Document) :=
    fun o old => logs.fresh own (inv.past o old).2.1.closed
  refine inv.advance has { n with threats := m } rfl ((RegisterMap.put?_spec put).2.1.trans owner)
    ⟨Clock.le_tick logs.tick, le_refl _, le_refl _⟩ (inv.rosters n has)
    (logs.coherent inv.coherent tracks own) ?_
    (tracks.put (w := ⟨key, r⟩) inv.coherent own put rfl wrote)
    (fun o old => (inv.past o old).2.1.cons (fresh o old)) ?_ ?_
  · intro w member
    rcases List.mem_cons.mp member with rfl | old
    · exact .inr author
    · exact .inl old
  · have count : m.version.count n.id = n.version.count n.id + 1 := by
      rw [Clock.count_tick logs.tick, owner, if_pos rfl]
      rfl
    change _ = (List.range' 1 (m.version.count n.id)).reverse
    rw [List.filter_cons_of_pos (by simpa using author), List.map_cons, logs.number, owner, count,
      List.range'_concat, List.reverse_append]
    change _ :: (s.writesOf n.id).map Write.number = _
    rw [inv.numbers n has, Nat.one_mul, Nat.add_comm 1]
    rfl
  · intro id other
    rw [List.filter_cons_of_neg (by simpa [author] using Ne.symm other)]
    rfl

theorem Invariant.post (inv : Invariant s) {l : Letter} (origin : l.origin ∈ s.past)
    (genuine : l.Genuine s.version) : Invariant (s.post l) := by
  refine ⟨inv.coherent, inv.named, inv.authors, inv.numbers, inv.present, inv.past, inv.rosters,
    ?_, inv.answers⟩
  rintro m (rfl | old)
  · exact ⟨origin, genuine⟩
  · exact inv.sent m old

/-- A node answers with the version that it has come to. -/
theorem Invariant.answer {ack : Acknowledgment} {origin : Node} (inv : Invariant (s.become next))
    (reached : ack.version = next.version) (old : origin ∈ (s.become next).past)
    (genuine : ∀ m, ack.reply = some m → Letter.Genuine ⟨m, origin⟩ (s.become next).version) :
    Invariant (s.answer next ack origin) := by
  refine ⟨inv.coherent, inv.named, inv.authors, inv.numbers, inv.present, inv.past, inv.rosters,
    ?_, ?_⟩
  · rintro ⟨m, origin'⟩ (sent | ⟨reply, rfl⟩)
    · exact inv.sent _ sent
    · exact ⟨old, genuine m reply⟩
  · rintro id ack' (same | given)
    · obtain ⟨rfl, rfl⟩ := Prod.mk.inj same
      have here : (s.become next).version next.id = next.version := version_of_has has_become
      change ack'.version ≤ (s.become next).version next.id
      rw [here, reached]
    · exact inv.answers id ack' given

/-- Taking in a letter keeps causal completeness, and nothing is lost by it. -/
theorem Invariant.taken (inv : Invariant s) (has : s.Has n) {l : Letter} (member : l ∈ s.sent)
    {now : Millis} {ack : Acknowledgment} (handled : n.handle l.message now = .ok (next, ack)) :
    next.id = n.id ∧ next.threats.owner = n.id ∧ next.threats.Tracks s.log ∧
      n.snapshot ≤ next.snapshot ∧ next.peers.Within s.version ∧ ack.version = next.version := by
  obtain ⟨origin, genuine⟩ := inv.sent l member
  obtain ⟨-, theirs, -⟩ := inv.past _ origin
  obtain ⟨owner, mine, -⟩ := inv.past n (inv.present n has)
  have heard := (inv.rosters n has).touch l.message.sender now
  have learnt := heard.learn genuine.version
  have speaks := genuine.speaks
  obtain ⟨accepted, ⟨threats, rules, metrics, payload, rfl, rfl⟩ |
    ⟨text, t, payload, decoded, rfl, rfl⟩ | ⟨payload, rfl, rfl⟩⟩ := Node.handle_cases handled
  · rw [payload] at speaks
    cases speaks with
    | delta at_time named known =>
        have here : l.message.recipient = n.id := accepted.addressed.resolve_left named
        rw [here, version_of_has has] at known
        have carries := (RegisterMap.carries_delta l.origin.threats _ at_time).mono known
        refine ⟨rfl, owner, mine.absorb theirs inv.coherent carries, ?_, learnt, rfl⟩
        exact ⟨RegisterMap.le_version_absorb _ _, ObservedSet.le_merge_left _ _,
          Counter.le_merge_left _ _⟩
  · have spoken : text = l.origin.fullState := by
      rcases payload with payload | payload
      all_goals
        rw [payload] at speaks
        cases speaks
        rfl
    subst spoken
    have same := Snapshot.sameClocks_of_decode decoded
    refine ⟨rfl, owner, mine.merge same theirs inv.coherent, ?_, learnt, rfl⟩
    refine ⟨fun id => ?_, ObservedSet.le_merge_left _ _, Counter.le_merge_left _ _⟩
    change _ ≤ (n.threats.merge t.threats).version.count id
    rw [RegisterMap.count_version_merge same theirs inv.coherent]
    exact Nat.le_max_left _ _
  · exact ⟨rfl, owner, mine, le_refl _, heard, rfl⟩

/-- Local changes to rules and metrics, and upkeep of the roster. -/
theorem Invariant.adjust (inv : Invariant s) (has : s.Has n) (next : Node) (same : next.id = n.id)
    (threats : next.threats = n.threats) (rules : n.rules ≤ next.rules)
    (metrics : n.metrics ≤ next.metrics) (within : next.peers.Within s.version) :
    Invariant (s.become next) := by
  obtain ⟨owner, tracks, -⟩ := inv.past n (inv.present n has)
  refine inv.become has same ?_ ?_ ⟨?_, rules, metrics⟩ within
  · rw [threats]
    exact owner
  · rw [threats]
    exact tracks
  · change n.threats.version ≤ next.threats.version
    rw [threats]

theorem Invariant.write (inv : Invariant s) {t : Fleet} (step : Local s t) : Invariant t := by
  cases step with
  | put key d now has put wrote =>
      obtain ⟨m, stored, rfl⟩ := Option.map_eq_some_iff.mp put
      exact inv.record has stored wrote
  | delete key now has put wrote =>
      obtain ⟨m, stored, rfl⟩ := Option.map_eq_some_iff.mp put
      exact inv.record has stored wrote
  | @addRule n rule tag has =>
      exact inv.adjust has _ rfl rfl (ObservedSet.le_insert _ rule tag) (le_refl _)
        (inv.rosters n has)
  | @removeRule n rule has =>
      exact inv.adjust has _ rfl rfl (ObservedSet.le_erase _ rule) (le_refl _) (inv.rosters n has)
  | @addMetric n amount has =>
      exact inv.adjust has _ rfl rfl (le_refl _) (Counter.le_add _ amount) (inv.rosters n has)
  | @subtractMetric n amount has =>
      exact inv.adjust has _ rfl rfl (le_refl _) (Counter.le_subtract _ amount)
        (inv.rosters n has)

theorem deltaMessage_spec {peer : NodeId} {now : Millis} {m : Message}
    (built : n.deltaMessage peer now = .ok m) : ∃ since, n.peers.version? peer = some since ∧
      m = n.messageTo peer
        (.delta (n.threats.delta since now) (some n.rules) (some n.metrics)) now := by
  unfold Node.deltaMessage at built
  cases claimed : n.peers.version? peer with
  | none =>
      rw [claimed] at built
      nomatch built
  | some since =>
      rw [claimed] at built
      exact ⟨since, rfl, (Except.ok.inj built).symm⟩

/-- A response speaks of a state that its sender has been in. -/
theorem genuine_response {old : Node} (same : old.id = next.id) (peer : NodeId) (now : Millis) :
    Letter.Genuine ⟨next.messageTo peer (.response old.fullState) now, old⟩
      (s.become next).version := by
  refine ⟨same.symm, ?_, .response⟩
  change next.version ≤ (s.become next).version next.id
  rw [version_become, if_pos rfl]

theorem Invariant.gossip (inv : Invariant s) {t : Fleet} (step : Traffic s t) : Invariant t := by
  cases step with
  | @addPeer n n' i now has added =>
      obtain ⟨peers, registered, rfl⟩ := Node.addPeer_spec added
      exact inv.adjust has _ rfl rfl (le_refl _) (le_refl _)
        ((inv.rosters n has).register registered)
  | @removePeer n id has =>
      exact inv.adjust has _ rfl rfl (le_refl _) (le_refl _) ((inv.rosters n has).remove id)
  | @refresh n now has =>
      exact inv.adjust has _ rfl rfl (le_refl _) (le_refl _) ((inv.rosters n has).refreshAll now)
  | @evict n maxAge now has =>
      exact inv.adjust has _ rfl rfl (le_refl _) (le_refl _) ((inv.rosters n has).evict maxAge now)
  | @fail n peer now has =>
      exact inv.adjust has _ rfl rfl (le_refl _) (le_refl _)
        ((inv.rosters n has).recordFailure peer now)
  | @delta n peer m now has built =>
      obtain ⟨since, claimed, rfl⟩ := deltaMessage_spec built
      have known := inv.rosters n has
      refine inv.post (inv.present n has)
        ⟨rfl, ?_, .delta now (known.ne_of_version claimed) (known.bounded peer since claimed)⟩
      change n.version ≤ s.version n.id
      rw [version_of_has has]
  | @full n old peer now has earlier same =>
      refine inv.post earlier ⟨same.symm, ?_, .full⟩
      change n.version ≤ s.version n.id
      rw [version_of_has has]
  | @request n peer now has =>
      refine inv.post (inv.present n has) ⟨rfl, ?_, .request⟩
      change n.version ≤ s.version n.id
      rw [version_of_has has]
  | @deliver n next l ack now has member handled =>
      obtain ⟨same, owner, tracks, grown, within, reached⟩ := inv.taken has member handled
      refine (inv.become has same owner tracks grown within).answer reached (.inl rfl) ?_
      intro m reply
      obtain ⟨-, rfl⟩ := Node.reply_of_handle handled reply
      exact genuine_response rfl _ _
  | @respond n old heard l ack now has member request handled earlier same =>
      obtain ⟨name, owner, tracks, grown, within, reached⟩ := inv.taken has member handled
      refine (inv.become has name owner tracks grown within).answer reached (.inr earlier) ?_
      intro m reply
      obtain rfl := Option.some.inj reply
      exact genuine_response (same.trans name.symm) _ _
  | @book n peer ack now has given =>
      exact inv.adjust has _ rfl rfl (le_refl _) (le_refl _)
        ((inv.rosters n has).recordSuccess (inv.answers peer ack given) now)

end Invariants

theorem Reachable.invariant {ids : List NodeId} {s : Fleet} (run : Reachable ids s) :
    Invariant s := by
  induction run with
  | start => exact invariant_start ids
  | write _ step ih => exact ih.write step
  | gossip _ step ih => exact ih.gossip step

section Knowledge

variable {s : Fleet} {a b : Node}

/-- No node takes another one to have more than it has. -/
theorem Invariant.estimate_le (inv : Invariant s) (ha : s.Has a) (hb : s.Has b) {v : Clock}
    (claimed : a.peers.version? b.id = some v) : v ≤ b.version := by
  rw [← version_of_has hb]
  exact (inv.rosters a ha).bounded b.id v claimed

/-- No node counts more writes of another one than it has made. -/
theorem Invariant.known_count_le (inv : Invariant s) (ha : s.Has a) (hb : s.Has b) :
    b.version.count a.id ≤ a.version.count a.id :=
  inv.count_le ha (inv.past b (inv.present b hb)).2.1.closed

/-- A register whose clock a version knows stands there too, with no smaller a clock. -/
theorem Invariant.known (inv : Invariant s) (ha : s.Has a) (hb : s.Has b) {k : String}
    {r : Register (Option Document)} (found : a.threats.register? k = some r)
    (le : r.clock ≤ b.version) :
    ∃ r', b.threats.register? k = some r' ∧ r.clock ≤ r'.clock := by
  have mine := (inv.past b (inv.present b hb)).2.1
  have theirs := (inv.past a (inv.present a ha)).2.1
  have joins := theirs.joins k r found
  have absorbed : ∀ w ∈ seen s.log a.version k,
      ∃ r', b.threats.register? k = some r' ∧ w.clock ≤ r'.clock := by
    rintro w ⟨member, rfl, counted⟩
    exact mine.absorbed member
      (Clock.counts_of_clock_le (le_trans (joins.clock_le ⟨member, rfl, counted⟩) le))
  obtain ⟨w, member⟩ := joins.nonempty
  obtain ⟨r', there, -⟩ := absorbed w member
  refine ⟨r', there, joins.le fun x other => ?_⟩
  obtain ⟨r'', again, known⟩ := absorbed x other
  obtain rfl := Option.some.inj (there.symm.trans again)
  exact known

end Knowledge

/-- In every fleet that new nodes can come to be: no node holds more of a peer's version than the
peer has reached; a node's own slot counts its writes, which are numbered from one, and no node
counts more of them; every write that a node's version counts has been absorbed by its register;
and a register that a delta leaves out is one that its receiver has. -/
theorem causally_complete {ids : List NodeId} {s : Fleet} (run : Reachable ids s) :
    (∀ a b v, s.Has a → s.Has b → a.peers.version? b.id = some v → b.version.descends v = true) ∧
    (∀ a, s.Has a →
      (s.writesOf a.id).map Write.number = (List.range' 1 (a.version.count a.id)).reverse ∧
      ∀ b, s.Has b → b.version.count a.id ≤ a.version.count a.id) ∧
    (∀ w ∈ s.log, ∀ b, s.Has b → w.number ≤ b.version.count w.author →
      ∃ r, b.threats.register? w.key = some r ∧ r.clock.descends w.clock = true) ∧
    (∀ a b v now k r, s.Has a → s.Has b → a.peers.version? b.id = some v →
      a.threats.register? k = some r → (a.threats.delta v now).changes.get? k = none →
      ∃ r', b.threats.register? k = some r' ∧ r'.clock.descends r.clock = true) := by
  have inv := run.invariant
  have stored : ∀ a b v, s.Has a → s.Has b → a.peers.version? b.id = some v → v ≤ b.version := by
    intro a b v ha hb claimed
    rw [← version_of_has hb]
    exact (inv.rosters a ha).bounded b.id v claimed
  simp only [Clock.descends_iff]
  refine ⟨stored, fun a ha => ⟨inv.numbers a ha, fun b hb => ?_⟩, ?_, ?_⟩
  · exact inv.count_le ha (inv.past b (inv.present b hb)).2.1.closed
  · intro w member b hb counted
    exact (inv.past b (inv.present b hb)).2.1.absorbed member counted
  · intro a b v now k r ha hb claimed found left_out
    have known := (RegisterMap.carries_delta a.threats v now).complete k r found left_out
    exact inv.known ha hb found (le_trans known (stored a b v ha hb claimed))

/-- A node that knows one peer. -/
def paired (id peer : NodeId) : Node :=
  { Node.empty id with
    peers := ⟨id, .insert .empty peer ((Roster.newPeer ⟨peer, "address", [], none⟩ 0).refresh 0)⟩ }

/-- What the first write at `a` leaves there. -/
def firstWrite : ThreatMap :=
  ⟨"a", .ofList [("a", 1)],
    .insert .empty "k" ⟨some (.ofTree (.boolean true)), 1, .ofList [("a", 1)], "a"⟩⟩

/-- The node `a` after its first write. -/
def writer : Node := { paired "a" "b" with threats := firstWrite }

/-- Two nodes that know each other, of which one has written. -/
def written : Fleet :=
  (((start ["a", "b"]).become (paired "a" "b")).become (paired "b" "a")).record writer
    ⟨"k", ⟨some (.ofTree (.boolean true)), 1, firstWrite.version, "a"⟩⟩

theorem reachable_written : Reachable ["a", "b"] written := by
  have known : Reachable ["a", "b"] ((start ["a", "b"]).become (paired "a" "b")) :=
    Reachable.start.gossip <|
      .addPeer (n := .empty "a") ⟨"b", "address", [], none⟩ 0 rfl rfl
  have both : Reachable ["a", "b"]
      (((start ["a", "b"]).become (paired "a" "b")).become (paired "b" "a")) :=
    known.gossip <| .addPeer (n := .empty "b") ⟨"a", "address", [], none⟩ 0 rfl rfl
  exact both.write <| .put "k" (.ofTree (.boolean true)) 0 (n := paired "a" "b") rfl rfl rfl

/-- A write reaches a peer as a delta, and the writer books the acknowledgment. -/
theorem acknowledged_write : ∃ s, Reachable ["a", "b"] s ∧ ∃ a b v, s.Has a ∧ s.Has b ∧
    a.peers.version? b.id = some v ∧ v.count "a" = 1 ∧ b.version.descends v = true := by
  have sent := reachable_written.gossip <| .delta 0 (n := writer) rfl
    (show Node.deltaMessage _ "b" 0 = .ok _ from rfl)
  have taken := sent.gossip <| .deliver 0 (n := paired "b" "a") rfl (Set.mem_insert _ _) rfl
  have run := taken.gossip <|
    .book 0 (n := writer) (Has.become rfl (by decide)) (Set.mem_insert _ _)
  exact ⟨_, run, _, _, _, has_become, has_become.become (by decide), rfl, rfl,
    (causally_complete run).1 _ _ _ has_become (has_become.become (by decide)) rfl⟩

end Fleet

end ThreatGossip
