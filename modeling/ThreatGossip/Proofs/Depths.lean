import ThreatGossip.Proofs.WireForms
/-!
How deep the texts of messages nest. Around a document stand four objects in a message and four in a
snapshot, and everything else in them is shallow. So a document travels when it nests at most 123
deep, four less than any text may.
-/
namespace ThreatGossip

open Json (Document Tree nesting)

/-- How deep a document may nest to be read back from a message or a snapshot. -/
def documentDepth : Nat := 123

section Shallow

theorem Clock.depth_write (c : Clock) : (Clock.format.write c).depth ≤ 1 := by
  refine Tree.depth_record_le.mpr fun m member => ?_
  obtain ⟨slot, -, rfl⟩ := List.mem_map.mp member
  exact Nat.le_refl 0

theorem GrowCounter.depth_write (c : GrowCounter) : (GrowCounter.format.write c).depth ≤ 2 := by
  have counts : ((Json.Format.map .count).write c.counts).depth ≤ 1 :=
    Clock.depth_write ⟨c.counts⟩
  refine Tree.depth_record_le.mpr fun m member => ?_
  rcases List.mem_pair.mp (show m ∈ [_, _] from member) with rfl | rfl
  · exact Nat.zero_le 1
  · exact counts

theorem Counter.depth_write (c : Counter) : (Counter.format.write c).depth ≤ 3 := by
  refine Tree.depth_record_le.mpr fun m member => ?_
  rcases List.mem_pair.mp (show m ∈ [_, _] from member) with rfl | rfl
  · exact c.up.depth_write
  · exact c.down.depth_write

theorem depth_write_set (s : SortedSet String) : (Json.Format.set.write s).depth ≤ 1 := by
  refine Tree.depth_list_le.mpr fun t listed => ?_
  obtain ⟨item, -, rfl⟩ := List.mem_map.mp listed
  exact Nat.le_refl 0

theorem GrowSet.depth_write (s : GrowSet) : (GrowSet.format.write s).depth ≤ 2 := by
  refine Tree.depth_record_le.mpr fun m member => ?_
  rw [List.mem_singleton.mp (show m ∈ [_] from member)]
  exact depth_write_set s.items

theorem ObservedSet.depth_writeOf {α : Type} [Ord α]
    {tags : Json.Format (SortedMap α (SortedSet String))} (shallow : ∀ m, (tags.write m).depth ≤ 2)
    (s : ObservedSet α) : ((ObservedSet.formatOf tags).write s).depth ≤ 3 := by
  refine Tree.depth_record_le.mpr fun m member => ?_
  rcases List.mem_pair.mp (show m ∈ [_, _] from member) with rfl | rfl
  · exact shallow s.added
  · exact shallow s.removed

theorem ObservedSet.depth_write (s : ObservedSet String) :
    (ObservedSet.format.write s).depth ≤ 3 := by
  refine depth_writeOf (fun tags => Tree.depth_record_le.mpr fun m member => ?_) s
  obtain ⟨e, -, rfl⟩ := List.mem_map.mp member
  exact depth_write_set e.2

theorem ObservedSet.depth_write_integers (s : ObservedSet Int) :
    (ObservedSet.integerFormat.write s).depth ≤ 3 := by
  refine depth_writeOf (fun tags => Tree.depth_record_le.mpr fun m member => ?_) s
  obtain ⟨e, -, rfl⟩ := List.mem_map.mp member
  exact depth_write_set e.2

end Shallow

section Documents

variable {room : Nat}

/-- A register nests one deeper than its document, if that is not shallower than its clock. -/
theorem Register.depth_write_le (r : Register (Option Document)) :
    ((Register.recordOf (optionalValue .document)).format.write r).depth ≤ room + 2 ↔
      ∀ d, r.value = some d → d.tree.depth ≤ room + 1 := by
  have members : (Register.recordOf (optionalValue .document)).members r =
      [("value", Json.Format.document.nullable.write r.value),
        ("timestamp", Json.Format.count.write r.timestamp),
        ("clock", Clock.format.write r.clock), ("writer", .string r.writer)] := rfl
  have clock := Nat.le_trans r.clock.depth_write (Nat.le_add_left 1 room)
  have flat : (Json.Format.count.write r.timestamp).depth ≤ room + 1 := Nat.zero_le _
  have name : (Tree.string r.writer).depth ≤ room + 1 := Nat.zero_le _
  refine Tree.depth_record_le.trans ?_
  rw [members]
  simp only [List.forall_mem_cons, clock, flat, name, List.not_mem_nil, false_implies,
    implies_true, and_true]
  cases r.value with
  | none => exact iff_of_true (Nat.zero_le _) nofun
  | some d => exact ⟨fun fits e same => Option.some.inj same ▸ fits, fun fits => fits d rfl⟩

theorem Registers.depth_write_le (rs : Registers Document) :
    ((Registers.format .document).write rs).depth ≤ room + 3 ↔
      rs.EachDocument (·.tree.depth ≤ room + 1) := by
  refine Tree.depth_record_le.trans ?_
  rw [List.forall_mem_map]
  exact forall₂_congr fun e _ => e.2.depth_write_le

theorem Delta.depth_write_le (d : Delta Document) :
    ((Delta.format .document).write d).depth ≤ room + 4 ↔
      d.changes.EachDocument (·.tree.depth ≤ room + 1) := by
  have members : (Delta.format .document).write d = .record [("node_id", .string d.source),
      ("timestamp", Json.Format.count.write d.timestamp),
      ("changes", (Registers.format .document).write d.changes)] := rfl
  have name : (Tree.string d.source).depth ≤ room + 3 := Nat.zero_le _
  have flat : (Json.Format.count.write d.timestamp).depth ≤ room + 3 := Nat.zero_le _
  rw [members, Tree.depth_record_le]
  simp only [List.forall_mem_cons, name, flat, Registers.depth_write_le, List.not_mem_nil,
    false_implies, implies_true, and_true, true_and]

theorem RegisterMap.depth_write_le (m : ThreatMap) :
    ((RegisterMap.format .document).write m).depth ≤ room + 4 ↔
      m.registers.EachDocument (·.tree.depth ≤ room + 1) := by
  have members : (RegisterMap.format .document).write m = .record [("node", .string m.owner),
      ("version", Clock.format.write m.version),
      ("entries", (Registers.format .document).write m.registers)] := rfl
  have name : (Tree.string m.owner).depth ≤ room + 3 := Nat.zero_le _
  have clock : (Clock.format.write m.version).depth ≤ room + 3 :=
    Nat.le_trans m.version.depth_write (by omega)
  rw [members, Tree.depth_record_le]
  simp only [List.forall_mem_cons, name, clock, Registers.depth_write_le, List.not_mem_nil,
    false_implies, implies_true, and_true, true_and]

theorem Snapshot.depth_write_le (s : Snapshot) (room : Nat) :
    (Snapshot.format.write s).depth ≤ room + 5 ↔ s.EachDocument (·.tree.depth ≤ room + 1) := by
  have members : Snapshot.format.write s =
      .record [("threat_intel", (RegisterMap.format .document).write s.threats),
        ("rules", ObservedSet.format.write s.rules),
        ("metrics", Counter.format.write s.metrics)] := rfl
  have rules : (ObservedSet.format.write s.rules).depth ≤ room + 4 :=
    Nat.le_trans s.rules.depth_write (by omega)
  have metrics : (Counter.format.write s.metrics).depth ≤ room + 4 :=
    Nat.le_trans s.metrics.depth_write (by omega)
  rw [members, Tree.depth_record_le]
  simp only [List.forall_mem_cons, rules, metrics, RegisterMap.depth_write_le, List.not_mem_nil,
    false_implies, implies_true, and_true]
  rfl

theorem Message.Envelope.depth_members_le (e : Envelope) :
    ∀ n ∈ Envelope.record.members e, n.2.depth ≤ room + 4 := by
  have members : Envelope.record.members e = [("from_node", .string e.sender),
      ("to_node", .string e.recipient), ("timestamp", Json.Format.count.write e.timestamp),
      ("version", Clock.format.write e.version)] := rfl
  have clock : (Clock.format.write e.version).depth ≤ room + 4 :=
    Nat.le_trans e.version.depth_write (by omega)
  rw [members]
  simp only [List.forall_mem_cons, clock, List.not_mem_nil, false_implies, implies_true, and_true]
  exact ⟨Nat.zero_le _, Nat.zero_le _, Nat.zero_le _⟩

theorem Payload.depth_optionalPart_le {α : Type} {f : Json.Format α}
    (shallow : ∀ a, (f.write a).depth ≤ 3) (name : String) (o : Option α) :
    ∀ n ∈ (optionalPart name f).members o, n.2.depth ≤ room + 4 := by
  cases o with
  | none => exact fun _ member => absurd member List.not_mem_nil
  | some a =>
      intro n member
      rw [List.mem_singleton.mp (show n ∈ [_] from member)]
      exact Nat.le_trans (shallow a) (by omega)

/-- A message nests four deeper than the documents of its delta; a full state in it is a string. -/
theorem Message.depth_write_le (m : Message) (room : Nat) :
    (Message.format.write m).depth ≤ room + 5 ↔ m.EachDocument (·.tree.depth ≤ room + 1) := by
  refine Tree.depth_record_le.trans ?_
  rw [List.forall_mem_append, and_iff_right m.envelope.depth_members_le]
  unfold EachDocument
  cases m.payload with
  | full state | response state =>
      refine iff_of_true (fun n member => ?_) trivial
      rcases List.mem_pair.mp (show n ∈ [_, _] from member) with rfl | rfl
      · exact Nat.zero_le _
      · exact Nat.zero_le _
  | request =>
      refine iff_of_true (fun n member => ?_) trivial
      rw [List.mem_singleton.mp (show n ∈ [_] from member)]
      exact Nat.zero_le _
  | delta threats rules metrics =>
      have kind : (Tree.string MessageKind.delta.name).depth ≤ room + 4 := Nat.zero_le _
      have members : (Payload.delta threats rules metrics).members =
          ("type", .string MessageKind.delta.name) ::
            ("threat_delta", (Delta.format .document).write threats) ::
            ((Payload.optionalPart "rules_delta" ObservedSet.format).members rules ++
              (Payload.optionalPart "metrics_delta" Counter.format).members metrics) := rfl
      rw [members, List.forall_mem_cons, List.forall_mem_cons, List.forall_mem_append,
        and_iff_right kind,
        and_iff_left ⟨Payload.depth_optionalPart_le ObservedSet.depth_write _ rules,
          Payload.depth_optionalPart_le Counter.depth_write _ metrics⟩]
      exact threats.depth_write_le

/-- An acknowledgment nests one deeper than the message in it. -/
theorem Acknowledgment.depth_write_le (a : Acknowledgment) (room : Nat) :
    (Acknowledgment.format.write a).depth ≤ room + 6 ↔
      a.EachDocument (·.tree.depth ≤ room + 1) := by
  obtain ⟨status, version, reply⟩ := a
  have words : (Tree.string status).depth ≤ room + 5 := Nat.zero_le _
  have clock : (Clock.format.write version).depth ≤ room + 5 :=
    Nat.le_trans version.depth_write (by omega)
  cases reply with
  | none =>
      have members : Acknowledgment.format.write ⟨status, version, none⟩ =
          .record [("status", .string status), ("version", Clock.format.write version)] := rfl
      rw [members, Tree.depth_record_le]
      simp only [List.forall_mem_cons, words, clock, List.not_mem_nil, false_implies,
        implies_true, and_true, true_iff]
      exact nofun
  | some m =>
      have members : Acknowledgment.format.write ⟨status, version, some m⟩ =
          .record [("status", .string status), ("version", Clock.format.write version),
            ("reply", Message.format.write m)] := rfl
      rw [members, Tree.depth_record_le]
      simp only [List.forall_mem_cons, words, clock, List.not_mem_nil, false_implies,
        implies_true, and_true, true_and]
      exact (m.depth_write_le room).trans
        ⟨fun each n same => Option.some.inj same ▸ each, fun each => each m rfl⟩

theorem Snapshot.nesting_le (s : Snapshot) :
    nesting (Snapshot.format.encode s) ≤ Json.maxDepth ↔
      s.EachDocument (·.tree.depth ≤ documentDepth) := by
  rw [Json.nesting_encode Snapshot.writesPlain_format]
  exact s.depth_write_le 122

theorem Message.nesting_le (m : Message) :
    nesting (Message.format.encode m) ≤ Json.maxDepth ↔
      m.EachDocument (·.tree.depth ≤ documentDepth) := by
  rw [Json.nesting_encode Message.writesPlain_format]
  exact m.depth_write_le 122

end Documents

/-- A document that comes back from any message or snapshot that holds it. -/
structure Travels (d : Document) : Prop where
  carried : Carried d
  shallow : d.tree.depth ≤ documentDepth

section Travelling

theorem Registers.EachDocument.delta {P : Document → Prop} {m : ThreatMap}
    (h : m.registers.EachDocument P) (since : Clock) (now : Millis) :
    (m.delta since now).changes.EachDocument P :=
  fun e member d live => h e (List.mem_filter.mp member).1 d live

theorem Message.decode_encode_of_travels {m : Message} (ok : m.EachDocument Travels) :
    Message.format.decode (Message.format.encode m) = .ok m :=
  (Message.roundTrips_format.decode_encode Message.writesPlain_format
    (ok.imp fun _ d => d.carried) m).mpr ⟨rfl, m.nesting_le.mpr (ok.imp fun _ d => d.shallow)⟩

theorem Snapshot.decode_encode_of_travels {s : Snapshot} (ok : s.EachDocument Travels) :
    Snapshot.format.decode (Snapshot.format.encode s) = .ok s :=
  (Snapshot.roundTrips_format.decode_encode Snapshot.writesPlain_format
    (Registers.EachDocument.imp ok fun _ d => d.carried) s).mpr
      ⟨rfl, s.nesting_le.mpr (Registers.EachDocument.imp ok fun _ d => d.shallow)⟩

/-- One document that nests too deep keeps a message from being read at all. -/
theorem Message.unreadable {m : Message} (ok : m.EachDocument Carried)
    (deep : ¬m.EachDocument (·.tree.depth ≤ documentDepth)) :
    ∃ fault, Message.format.decode (Message.format.encode m) = .error fault := by
  cases read : Message.format.decode (Message.format.encode m) with
  | error fault => exact ⟨fault, rfl⟩
  | ok n =>
      have fits := ((Message.roundTrips_format.decode_encode Message.writesPlain_format ok n).mp
        read).2
      exact absurd (m.nesting_le.mp fits) deep

theorem Snapshot.unreadable {s : Snapshot} (ok : s.EachDocument Carried)
    (deep : ¬s.EachDocument (·.tree.depth ≤ documentDepth)) :
    ∃ fault, Snapshot.format.decode (Snapshot.format.encode s) = .error fault := by
  cases read : Snapshot.format.decode (Snapshot.format.encode s) with
  | error fault => exact ⟨fault, rfl⟩
  | ok t =>
      have fits := ((Snapshot.roundTrips_format.decode_encode Snapshot.writesPlain_format ok t).mp
        read).2
      exact absurd (s.nesting_le.mp fits) deep

/-- An acknowledgment comes back, with a full state in its reply or without a reply. -/
theorem Acknowledgment.decode_encode_of_reply {a : Acknowledgment}
    (ok : ∀ m, a.reply = some m → ∃ text, m.payload = .response text) :
    Acknowledgment.format.decode (Acknowledgment.format.encode a) = .ok a := by
  have free (P : Document → Prop) : a.EachDocument P := by
    intro m reply
    obtain ⟨text, payload⟩ := ok m reply
    rw [Message.EachDocument, payload]
    trivial
  refine (Acknowledgment.roundTrips_format.decode_encode Acknowledgment.writesPlain_format
    (free Carried) a).mpr ⟨rfl, ?_⟩
  rw [Json.nesting_encode Acknowledgment.writesPlain_format]
  exact (a.depth_write_le 121).mpr (free _)

end Travelling

end ThreatGossip
