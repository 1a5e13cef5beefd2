import ThreatGossip.Proofs.Absorption
import ThreatGossip.Proofs.Standings
/-!
What a message can change of the node that handles it. Of the roster it is the sender's entry, and
there only what is known by hearing from the sender: when it was heard, its standing and its version.
What a node has found out about a peer itself, its trust and its failures, no message changes. Of the
content it is only what the message brings.
-/
namespace ThreatGossip.Node

/-- What is known of a sender's version after its message, from what was known before. -/
def versionAfter (m : Message) (known : Clock) : Clock :=
  if m.payload.kind = .request then known else known.join m.version

/-- What handling a message may leave of a node. -/
structure Footprint (n : Node) (m : Message) (outcome : Except Refusal Acknowledgment)
    (left : Node) : Prop where
  taken_iff : (∃ ack, outcome = .ok ack) ↔ n.Accepts m
  /-- A message that is refused changes nothing. -/
  refused : ∀ e, outcome = .error e → left = n
  id : left.id = n.id
  /-- No peer is added, and none is removed. -/
  known : ∀ q, left.peers.contains q = n.peers.contains q
  /-- These fields no message changes, of any peer. -/
  reserved : ∀ q p p', n.peers.get? q = some p → left.peers.get? q = some p' →
    p'.trust = p.trust ∧ p'.failures = p.failures ∧ p'.address = p.address ∧
      p'.publicKey = p.publicKey
  others : ∀ q, q ≠ m.sender → left.peers.get? q = n.peers.get? q
  /-- At most these three fields of the sender change. -/
  sender : ∀ p, n.peers.get? m.sender = some p → ∃ lastSeen standing version,
    left.peers.get? m.sender = some { p with lastSeen, standing, version }
  /-- The sender of an accepted message is a peer. Its version is joined with the message's, but by
  a request it stays as it is. -/
  version : ∀ ack, outcome = .ok ack → ∃ p p', n.peers.get? m.sender = some p ∧
    left.peers.get? m.sender = some p' ∧ p'.version = versionAfter m p.version
  request : m.payload = .request →
    left.snapshot = n.snapshot ∧ left.lastFullSync = n.lastFullSync
  delta : ∀ threats rules metrics, m.payload = .delta threats rules metrics →
    left.lastFullSync = n.lastFullSync ∧
    (∀ key, threats.changes.contains key = false →
      left.threats.register? key = n.threats.register? key) ∧
    (rules = none → left.rules = n.rules) ∧ (metrics = none → left.metrics = n.metrics)
  /-- What is acknowledged is the version that the node has then. -/
  acknowledged : ∀ ack, outcome = .ok ack → ack.version = left.version

variable {n next : Node} {m : Message} {now : Millis} {ack : Acknowledgment}

theorem get?_of_handle_of_ne (handled : n.handle m now = .ok (next, ack)) {q : NodeId}
    (other : q ≠ m.sender) : next.peers.get? q = n.peers.get? q := by
  rcases peers_of_handle handled with ⟨-, peers⟩ | ⟨-, peers⟩
  · rw [peers, Roster.get?_adjust, if_neg other]
  · rw [peers, Roster.learn, Roster.get?_adjust, if_neg other, Roster.get?_adjust, if_neg other]

/-- What becomes of the sender's entry. -/
theorem get?_of_handle (handled : n.handle m now = .ok (next, ack)) :
    next.peers.get? m.sender = (n.peers.get? m.sender).map fun p =>
      { p.touch now with version := versionAfter m p.version } := by
  rcases peers_of_handle handled with ⟨kind, peers⟩ | ⟨kind, peers⟩
  · simp only [versionAfter, if_pos kind]
    rw [peers, Roster.get?_adjust, if_pos rfl]
    rfl
  · simp only [versionAfter, if_neg kind]
    rw [peers, Roster.learn, Roster.get?_adjust, if_pos rfl, Roster.get?_adjust, if_pos rfl,
      Option.map_map]
    rfl

theorem footprint_of_refusal {e : Refusal} (stopped : n.handle m now = .error e) :
    n.Footprint m (.error e) n where
  taken_iff := by
    refine iff_of_false nofun fun accepts => ?_
    obtain ⟨next, ack, handled⟩ := handle_eq_ok_iff.mpr (accepts_iff.mp accepts)
    nomatch stopped.symm.trans handled
  refused := fun _ _ => rfl
  id := rfl
  known := fun _ => rfl
  reserved := by
    intro q p p' before after
    obtain rfl := Option.some.inj (before.symm.trans after)
    exact ⟨rfl, rfl, rfl, rfl⟩
  others := fun _ _ => rfl
  sender := fun p before => ⟨p.lastSeen, p.standing, p.version, before⟩
  version := nofun
  request := fun _ => ⟨rfl, rfl⟩
  delta := fun _ _ _ _ => ⟨rfl, fun _ _ => rfl, fun _ => rfl, fun _ => rfl⟩
  acknowledged := nofun

theorem footprint_of_handle (handled : n.handle m now = .ok (next, ack)) :
    n.Footprint m (.ok ack) next where
  taken_iff := iff_of_true ⟨ack, rfl⟩ (handle_cases handled).1
  refused := nofun
  id := id_of_handle handled
  known := by
    intro q
    change (next.peers.get? q).isSome = (n.peers.get? q).isSome
    by_cases same : q = m.sender
    · rw [same, get?_of_handle handled, Option.isSome_map]
    · rw [get?_of_handle_of_ne handled same]
  reserved := by
    intro q p p' before after
    by_cases same : q = m.sender
    · subst same
      rw [get?_of_handle handled, before] at after
      obtain rfl := Option.some.inj after
      exact ⟨rfl, rfl, rfl, rfl⟩
    · rw [get?_of_handle_of_ne handled same, before] at after
      obtain rfl := Option.some.inj after
      exact ⟨rfl, rfl, rfl, rfl⟩
  others := fun q other => get?_of_handle_of_ne handled other
  sender := by
    intro p before
    rw [get?_of_handle handled, before]
    exact ⟨_, _, _, rfl⟩
  version := by
    rintro _ -
    obtain ⟨p, before⟩ := Roster.contains_iff.mp (handle_cases handled).1.known
    let heard := { p.touch now with version := versionAfter m p.version }
    have after : next.peers.get? m.sender = some heard := by
      rw [get?_of_handle handled, before]
      rfl
    exact ⟨p, heard, before, after, rfl⟩
  request := by
    intro payload
    obtain ⟨rfl, -⟩ := request_of_handle payload handled
    exact ⟨rfl, rfl⟩
  delta := by
    intro threats rules metrics payload
    obtain ⟨rfl, -⟩ := delta_of_handle payload handled
    refine ⟨rfl, fun key missing => ?_, ?_, ?_⟩
    · have absent := Option.isSome_eq_false_iff.mp missing
      exact RegisterMap.register?_absorb_of_missing (Option.isNone_iff_eq_none.mp absent) n.threats
    · rintro rfl
      rfl
    · rintro rfl
      rfl
  acknowledged := by
    rintro _ same
    obtain rfl := Except.ok.inj same
    exact version_of_handle handled

/-- Every message, whatever it holds, touches only what it may of the node that handles it. -/
theorem messages_touch_only (n : Node) (m : Message) (now : Millis) :
    n.Footprint m ((Handler.handle m now).on n).1 ((Handler.handle m now).on n).2 := by
  rw [Handler.on_handle]
  cases handled : n.handle m now with
  | error e => exact footprint_of_refusal handled
  | ok after => exact footprint_of_handle handled

/-- A node with a peer that has failed twice. -/
def hearer : Node :=
  { empty "a" with
    peers := ⟨"a", .ofList [("b", ⟨"b", "b:1", [], 5, .active, 0.4, .empty, 2⟩)]⟩ }

/-- That peer brings a register and a version that it boasts of. -/
def news : Message :=
  ⟨"b", "", 0, .ofList [("b", maxCount)],
    .delta ⟨"b", 0, .ofList [("k", ⟨none, 3, .ofList [("b", 1)], "b"⟩)]⟩ none none⟩

theorem news_touches_only : ∃ ack left, (Handler.handle news 9).on hearer = (.ok ack, left) ∧
    hearer.Footprint news (.ok ack) left ∧ left.snapshot ≠ hearer.snapshot := by
  refine ⟨_, _, rfl, messages_touch_only hearer news 9, fun same => ?_⟩
  have version := congrArg (fun s : Snapshot => s.threats.version) same
  revert version
  decide +kernel

end ThreatGossip.Node
