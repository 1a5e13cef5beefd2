import ThreatGossip.Node
/-!
When a node takes a message in. `Accepts` lists all that is asked of a message; whatever else a
message holds, and whatever the node holds, the message is then handled. Handling is also given as a
program that changes the node in place, part after part, and stops where it fails: it never stops
after a change, so a refused message leaves the node as it was.
-/
namespace ThreatGossip

open Json (Document)

/-- All that a node asks of a message: a sender that is a known peer, no other recipient, and a
readable state where the message brings one. -/
structure Node.Accepts (n : Node) (m : Message) : Prop where
  named : m.sender ≠ ""
  foreign : m.sender ≠ n.id
  known : n.peers.contains m.sender = true
  addressed : m.recipient = "" ∨ m.recipient = n.id
  readable : ∀ text, m.payload = .full text ∨ m.payload = .response text →
    ∃ s, Snapshot.format.decode text = .ok s

namespace Node

theorem screen_eq_ok_iff {n : Node} {m : Message} {u : Unit} :
    n.screen m = .ok u ↔ m.sender ≠ "" ∧ m.sender ≠ n.id ∧ n.peers.contains m.sender = true ∧
      (m.recipient = "" ∨ m.recipient = n.id) := by
  unfold screen
  by_cases named : m.sender = ""
  · simp [named]
  rw [if_neg named]
  by_cases foreign : m.sender = n.id
  · simp [foreign]
  rw [if_neg foreign]
  by_cases addressed : m.recipient = "" ∨ m.recipient = n.id
  · rw [if_neg fun other => (not_or.mpr other) addressed]
    by_cases known : n.peers.contains m.sender = true
    · simp [named, foreign, known, addressed]
    · simp [known]
  · rw [if_pos (not_or.mp addressed)]
    simp [addressed]

theorem broughtState_eq_ok_iff {m : Message} :
    (∃ brought, broughtState m = .ok brought) ↔
      ∀ text, m.payload = .full text ∨ m.payload = .response text →
        ∃ s, Snapshot.format.decode text = .ok s := by
  unfold broughtState Message.snapshot
  cases m.payload with
  | delta threats rules metrics => simp
  | request => simp
  | full text => cases decoded : Snapshot.format.decode text <;> simp [decoded]
  | response text => cases decoded : Snapshot.format.decode text <;> simp [decoded]

theorem handle_eq_ok_iff {n : Node} {m : Message} {now : Millis} :
    (∃ next ack, n.handle m now = .ok (next, ack)) ↔
      n.screen m = .ok () ∧ ∃ brought, broughtState m = .ok brought := by
  unfold handle
  cases n.screen m with
  | error e => simp [bind, Except.bind]
  | ok u =>
      cases broughtState m with
      | error e => simp [bind, Except.bind]
      | ok brought => cases m.payload <;> simp [bind, Except.bind]

theorem accepts_iff {n : Node} {m : Message} :
    n.Accepts m ↔ n.screen m = .ok () ∧ ∃ brought, broughtState m = .ok brought := by
  rw [screen_eq_ok_iff, broughtState_eq_ok_iff]
  constructor
  · intro h
    exact ⟨⟨h.named, h.foreign, h.known, h.addressed⟩, h.readable⟩
  · rintro ⟨⟨named, foreign, known, addressed⟩, readable⟩
    exact ⟨named, foreign, known, addressed, readable⟩

/-- A message that was handled was accepted, and what has become of the node depends on what the
message brought. -/
theorem handle_cases {n next : Node} {m : Message} {now : Millis} {ack : Acknowledgment}
    (handled : n.handle m now = .ok (next, ack)) : n.Accepts m ∧
      ((∃ threats rules metrics, m.payload = .delta threats rules metrics ∧
          next = ((n.touchPeer m.sender now).applyDelta threats rules metrics).learnVersion m.sender
            m.version ∧ ack = .synced next.version none) ∨
        (∃ text s, (m.payload = .full text ∨ m.payload = .response text) ∧
          Snapshot.format.decode text = .ok s ∧
          next = ((n.touchPeer m.sender now).mergeSnapshot s now).learnVersion m.sender m.version ∧
          ack = .synced next.version none) ∨
        (m.payload = .request ∧ next = n.touchPeer m.sender now ∧
          ack = .synced next.version (some (next.responseMessage m.sender now)))) := by
  have accepted := accepts_iff.mpr (handle_eq_ok_iff.mp ⟨next, ack, handled⟩)
  refine ⟨accepted, ?_⟩
  obtain ⟨screened, brought, read⟩ := accepts_iff.mp accepted
  unfold handle at handled
  rw [screened, read] at handled
  simp only [bind, Except.bind] at handled
  unfold broughtState Message.snapshot at read
  cases payload : m.payload with
  | delta threats rules metrics =>
      rw [payload] at handled
      obtain ⟨rfl, rfl⟩ := Prod.mk.inj (Except.ok.inj handled)
      exact .inl ⟨threats, rules, metrics, rfl, rfl, rfl⟩
  | request =>
      rw [payload] at handled
      obtain ⟨rfl, rfl⟩ := Prod.mk.inj (Except.ok.inj handled)
      exact .inr (.inr ⟨rfl, rfl, rfl⟩)
  | full text =>
      obtain ⟨s, decoded⟩ := accepted.readable text (.inl payload)
      simp only [payload, decoded, Except.ok.injEq] at read
      subst read
      rw [payload] at handled
      obtain ⟨rfl, rfl⟩ := Prod.mk.inj (Except.ok.inj handled)
      exact .inr (.inl ⟨text, s, .inl rfl, decoded, rfl, rfl⟩)
  | response text =>
      obtain ⟨s, decoded⟩ := accepted.readable text (.inr payload)
      simp only [payload, decoded, Except.ok.injEq] at read
      subst read
      rw [payload] at handled
      obtain ⟨rfl, rfl⟩ := Prod.mk.inj (Except.ok.inj handled)
      exact .inr (.inl ⟨text, s, .inr rfl, decoded, rfl, rfl⟩)

/-- How a node comes out of a delta. -/
theorem delta_of_handle {n next : Node} {m : Message} {now : Millis} {ack : Acknowledgment}
    {threats : Delta Document} {rules : Option (ObservedSet String)} {metrics : Option Counter}
    (payload : m.payload = .delta threats rules metrics)
    (handled : n.handle m now = .ok (next, ack)) :
    next = ((n.touchPeer m.sender now).applyDelta threats rules metrics).learnVersion m.sender
      m.version ∧ ack = .synced next.version none := by
  obtain ⟨-, ⟨_, _, _, same, left⟩ | ⟨_, _, same | same, -⟩ | ⟨same, -⟩⟩ := handle_cases handled
  all_goals cases payload.symm.trans same
  exact left

/-- How a node comes out of a full state, whether or not it had asked for it. -/
theorem state_of_handle {n next : Node} {m : Message} {now : Millis} {ack : Acknowledgment}
    {text : String} (payload : m.payload = .full text ∨ m.payload = .response text)
    (handled : n.handle m now = .ok (next, ack)) :
    ∃ s, Snapshot.format.decode text = .ok s ∧
      next = ((n.touchPeer m.sender now).mergeSnapshot s now).learnVersion m.sender m.version ∧
      ack = .synced next.version none := by
  obtain ⟨-, ⟨_, _, _, same, -⟩ | ⟨_, s, same | same, left⟩ | ⟨same, -⟩⟩ := handle_cases handled
  all_goals
    rcases payload with payload | payload
    all_goals cases payload.symm.trans same
  · exact ⟨s, left⟩
  · exact ⟨s, left⟩

/-- How a node comes out of a request. -/
theorem request_of_handle {n next : Node} {m : Message} {now : Millis} {ack : Acknowledgment}
    (payload : m.payload = .request) (handled : n.handle m now = .ok (next, ack)) :
    next = n.touchPeer m.sender now ∧
      ack = .synced next.version (some (next.responseMessage m.sender now)) := by
  obtain ⟨-, ⟨_, _, _, same, -⟩ | ⟨_, _, same | same, -⟩ | ⟨-, left⟩⟩ := handle_cases handled
  · nomatch payload.symm.trans same
  · nomatch payload.symm.trans same
  · nomatch payload.symm.trans same
  · exact left

theorem id_of_handle {n next : Node} {m : Message} {now : Millis} {ack : Acknowledgment}
    (handled : n.handle m now = .ok (next, ack)) : next.id = n.id := by
  obtain ⟨-, ⟨_, _, _, -, rfl, -⟩ | ⟨_, _, -, -, rfl, -⟩ | ⟨-, rfl, -⟩⟩ := handle_cases handled
  all_goals rfl

/-- Only a request is replied to. -/
theorem reply_of_handle {n next : Node} {m : Message} {now : Millis} {ack : Acknowledgment}
    (handled : n.handle m now = .ok (next, ack)) {reply : Message}
    (given : ack.reply = some reply) :
    m.payload = .request ∧ reply = next.responseMessage m.sender now := by
  obtain ⟨-, ⟨_, _, _, -, -, rfl⟩ | ⟨_, _, -, -, -, rfl⟩ | ⟨payload, -, rfl⟩⟩ :=
    handle_cases handled
  · nomatch given
  · nomatch given
  · exact ⟨payload, (Option.some.inj given).symm⟩

/-- A peer is heard from by each of its messages; only a request tells nothing of its version. -/
theorem peers_of_handle {n next : Node} {m : Message} {now : Millis} {ack : Acknowledgment}
    (handled : n.handle m now = .ok (next, ack)) :
    (m.payload.kind = .request ∧ next.peers = n.peers.adjust m.sender (·.touch now)) ∨
      (m.payload.kind ≠ .request ∧
        next.peers = (n.peers.adjust m.sender (·.touch now)).learn m.sender m.version) := by
  obtain ⟨-, ⟨_, _, _, payload, rfl, -⟩ | ⟨_, _, payload | payload, -, rfl, -⟩ |
    ⟨payload, rfl, -⟩⟩ := handle_cases handled
  all_goals rw [payload]
  · exact .inr ⟨nofun, rfl⟩
  · exact .inr ⟨nofun, rfl⟩
  · exact .inr ⟨nofun, rfl⟩
  · exact .inl ⟨rfl, rfl⟩

/-- Messages keep of a roster what contacts keep and versions learnt. -/
theorem keeps_of_handle {n next : Node} {m : Message} {now : Millis} {ack : Acknowledgment}
    (handled : n.handle m now = .ok (next, ack)) {P : Roster → Prop}
    (touch : ∀ r, P r → P (r.adjust m.sender (·.touch now)))
    (learn : ∀ r, P r → P (r.learn m.sender m.version)) (start : P n.peers) : P next.peers := by
  rcases peers_of_handle handled with ⟨-, peers⟩ | ⟨-, peers⟩
  · rw [peers]
    exact touch _ start
  · rw [peers]
    exact learn _ (touch _ start)

/-- A node acknowledges a message with the version that it comes to. -/
theorem version_of_handle {n next : Node} {m : Message} {now : Millis} {ack : Acknowledgment}
    (handled : n.handle m now = .ok (next, ack)) : ack.version = next.version := by
  obtain ⟨-, ⟨_, _, _, -, -, rfl⟩ | ⟨_, _, -, -, -, rfl⟩ | ⟨-, -, rfl⟩⟩ := handle_cases handled
  all_goals rfl

end Node

/-- A program over a node. It may stop with a refusal, and what it changed before stays changed. -/
abbrev Handler := ExceptT Refusal (StateM Node)

namespace Handler

/-- The outcome of a program and the state that it leaves behind. -/
def on {α : Type} (h : Handler α) (n : Node) : Except Refusal α × Node := h.run.run n

/-- The sender has been heard from; it must be a known peer. -/
def touch (sender : NodeId) (now : Millis) : Handler Unit := do
  let n ← get
  match n.peers.touch sender now with
  | .ok peers => set { n with peers }
  | .error e => throw (.peer e)

def takeDelta (threats : Delta Document) (rules : Option (ObservedSet String))
    (metrics : Option Counter) : Handler Unit := do
  modify fun n => { n with threats := n.threats.apply threats }
  if let some rules := rules then modify fun n => { n with rules := n.rules.merge rules }
  if let some metrics := metrics then modify fun n => { n with metrics := n.metrics.merge metrics }

def takeSnapshot (s : Snapshot) (now : Millis) : Handler Unit := do
  modify fun n => { n with threats := n.threats.merge s.threats }
  modify fun n => { n with rules := n.rules.merge s.rules }
  modify fun n => { n with metrics := n.metrics.merge s.metrics }
  modify fun n => { n with lastFullSync := some now }

def learn (sender : NodeId) (version : Clock) : Handler Unit :=
  modify fun n => { n with peers := n.peers.learn sender version }

def acknowledge : Handler Acknowledgment := do
  let n ← get
  return .synced n.version none

/-- Handles a message in place, in the order of the text: the checks, the reading of the state, the
sender's entry, and then one part of the node after the other. -/
def handle (m : Message) (now : Millis) : Handler Acknowledgment := do
  let n ← get
  MonadExcept.ofExcept (n.screen m)
  let brought ← MonadExcept.ofExcept (Node.broughtState m)
  touch m.sender now
  match m.payload with
  | .delta threats rules metrics =>
    takeDelta threats rules metrics
    learn m.sender m.version
    acknowledge
  | .full _ | .response _ =>
    if let some s := brought then takeSnapshot s now
    learn m.sender m.version
    acknowledge
  | .request =>
    let heard ← get
    return .synced heard.version (some (heard.responseMessage m.sender now))

section

variable {α β : Type}

theorem on_bind (h : Handler α) (f : α → Handler β) (n : Node) :
    (h >>= f).on n = match h.on n with
      | (.ok a, next) => (f a).on next
      | (.error e, left) => (.error e, left) := by
  change (ExceptT.bindCont f (h n).1) (h n).2 = _
  unfold on
  cases outcome : h n with
  | mk answer next =>
      cases answer <;> simp [ExceptT.run, StateT.run, outcome] <;> rfl

theorem on_ofExcept (e : Except Refusal α) (n : Node) :
    (MonadExcept.ofExcept e : Handler α).on n = (e, n) := by
  cases e <;> rfl

theorem on_touch {n : Node} {sender : NodeId} (known : n.peers.contains sender = true)
    (now : Millis) : (touch sender now).on n = (.ok (), n.touchPeer sender now) := by
  unfold touch
  rw [on_bind]
  change Handler.on (match n.peers.touch sender now with
    | .ok peers => set { n with peers }
    | .error e => throw (.peer e)) n = _
  rw [Roster.touch, if_pos known]
  rfl

theorem on_takeDelta (n : Node) (threats : Delta Document) (rules : Option (ObservedSet String))
    (metrics : Option Counter) :
    (takeDelta threats rules metrics).on n = (.ok (), n.applyDelta threats rules metrics) := by
  cases rules <;> cases metrics <;> rfl

theorem on_learn (n : Node) (sender : NodeId) (version : Clock) :
    (learn sender version).on n = (.ok (), n.learnVersion sender version) := rfl

theorem on_acknowledge (n : Node) : acknowledge.on n = (.ok (.synced n.version none), n) := rfl

/-- Handling in place ends as handling does, and a refusal leaves the node as it was. -/
theorem on_handle (m : Message) (now : Millis) (n : Node) :
    (handle m now).on n = match n.handle m now with
      | .ok (next, ack) => (.ok ack, next)
      | .error e => (.error e, n) := by
  unfold handle Node.handle
  rw [on_bind]
  change Handler.on (do
    MonadExcept.ofExcept (n.screen m)
    _) n = _
  rw [on_bind, on_ofExcept]
  cases screened : n.screen m with
  | error e => rfl
  | ok u =>
      obtain ⟨-, -, known, -⟩ := Node.screen_eq_ok_iff.mp screened
      simp only [on_bind, on_ofExcept]
      cases read : Node.broughtState m with
      | error e => rfl
      | ok brought =>
          simp only [on_touch known]
          cases m.payload with
          | delta threats rules metrics =>
              simp only [on_bind, on_takeDelta, on_learn, on_acknowledge]
              rfl
          | request => rfl
          | full text =>
              cases brought with
              | none => rfl
              | some s => rfl
          | response text =>
              cases brought with
              | none => rfl
              | some s => rfl

end

end Handler

/-- A node handles exactly the messages that it accepts, whatever it holds. Handled in place, a
message ends as it does otherwise, and one that is refused leaves the node as it was. -/
theorem Node.handle_ok_iff_accepts (n : Node) (m : Message) (now : Millis) :
    ((∃ next ack, n.handle m now = .ok (next, ack)) ↔ n.Accepts m) ∧
    (∀ next ack, (Handler.handle m now).on n = (.ok ack, next) ↔
      n.handle m now = .ok (next, ack)) ∧
    (∀ left e, (Handler.handle m now).on n = (.error e, left) ↔
      n.handle m now = .error e ∧ left = n) := by
  refine ⟨handle_eq_ok_iff.trans accepts_iff.symm, ?_, ?_⟩
  · intro next ack
    rw [Handler.on_handle]
    cases n.handle m now with
    | error e => simp
    | ok handled => simp [Prod.ext_iff, and_comm]
  · intro left e
    rw [Handler.on_handle]
    cases n.handle m now with
    | error e => simp [eq_comm]
    | ok handled => simp

end ThreatGossip
