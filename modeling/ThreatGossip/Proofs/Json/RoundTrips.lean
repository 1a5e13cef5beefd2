import ThreatGossip.Proofs.Json.Nesting
import ThreatGossip.Proofs.Json.Records
/-!
Values that come back of their text as they are. A format says of which values this holds; then the
room that is left for nesting decides, and nothing else. Formats and records that are built from
others inherit it.
-/
namespace ThreatGossip

/-- A set is made of its own items. -/
theorem SortedSet.ofList_keys (s : SortedSet String) : ofList s.keys = s := by
  have units : ofList s.keys = SortedMap.ofList s.entries := by
    unfold ofList SortedMap.keys SortedMap.ofList
    rw [List.foldl_map]
    rfl
  rw [units]
  exact SortedMap.eq_of_entries (SortedMap.entries_ofList s.ascending)

namespace Json

/-- A fit value is written as it is read from its text. It comes back where its tree fits into the
room, and nothing else ever comes back of it. -/
structure Format.RoundTrips {α : Type} (f : Format α) (fit : α → Prop) : Prop where
  stable : ∀ a, fit a → (f.write a).reread = f.write a
  returns : ∀ room a b, fit a → (f.Returns room a b ↔ b = a ∧ (f.write a).depth ≤ room)

/-- The same of some members of an object. -/
structure Record.RoundTrips {α : Type} (r : Record α) (fit : α → Prop) : Prop where
  stable : ∀ a, fit a → ∀ m ∈ r.members a, m.2.reread = m.2
  returns : ∀ room a b, fit a →
    (r.Returns room a b ↔ b = a ∧ ∀ m ∈ r.members a, m.2.depth ≤ room)

namespace Format

variable {α β : Type} {f : Format α} {fit : α → Prop}

theorem RoundTrips.imp {fewer : α → Prop} (h : f.RoundTrips fit) (within : ∀ a, fewer a → fit a) :
    f.RoundTrips fewer where
  stable a ok := h.stable a (within a ok)
  returns room a b ok := h.returns room a b (within a ok)

/-- A fit value is decoded from its text exactly where the text nests at most 127 deep. -/
theorem RoundTrips.decode_encode (h : f.RoundTrips fit) (plain : f.WritesPlain) {a : α}
    (ok : fit a) (b : α) :
    f.decode (f.encode a) = .ok b ↔ b = a ∧ nesting (f.encode a) ≤ maxDepth := by
  rw [Format.decode_encode plain, h.returns maxDepth a b ok, nesting_encode plain]

theorem RoundTrips.imap {of : α → β} {view : β → α} (h : f.RoundTrips fit)
    (back : ∀ b, of (view b) = b) : (f.imap of view).RoundTrips fun b => fit (view b) where
  stable b ok := h.stable (view b) ok
  returns room x y ok := by
    rw [returns_imap]
    constructor
    · rintro ⟨a, came, rfl⟩
      obtain ⟨rfl, fits⟩ := (h.returns room (view x) a ok).mp came
      exact ⟨back x, fits⟩
    · rintro ⟨rfl, fits⟩
      exact ⟨view y, (h.returns room (view y) (view y) ok).mpr ⟨rfl, fits⟩, back y⟩

theorem roundTrips_string : string.RoundTrips fun _ => True where
  stable _ _ := rfl
  returns room a b _ := by
    rw [returns_string]
    exact (and_iff_left (Nat.zero_le room)).symm

theorem roundTrips_count : count.RoundTrips fun _ => True where
  stable n _ := by
    refine Number.reread_integer ?_ ?_
    · simp [minSigned]
    · have bound := n.toNat_lt
      change Int.ofNat n.toNat ≤ ((18446744073709551615 : Nat) : Int)
      simp
      omega
  returns room a b _ := by
    rw [returns_count]
    exact (and_iff_left (Nat.zero_le room)).symm

theorem roundTrips_document : document.RoundTrips Document.Portable where
  stable _ ok := ok
  returns room d e ok := by
    have same : (document.write d).reread = d.tree := ok
    have deep : (document.write d).depth ≤ room ↔ d.tree.legible room = true :=
      (d.canonical.plain.legible_iff room).symm
    rw [Returns, same, deep]
    simp only [document, d.ofTree_tree]
    split
    next clear => simp [clear, eq_comm]
    next dark => simp [dark]

/-- A value that may be missing must not be written as `null`. -/
theorem RoundTrips.nullable (h : f.RoundTrips fit) (solid : ∀ a, fit a → f.write a ≠ .null) :
    f.nullable.RoundTrips fun o => ∀ a, o = some a → fit a where
  stable o ok := match o with
    | none => rfl
    | some a => h.stable a (ok a rfl)
  returns room o p ok := match o with
    | none => by
      change Except.ok none = .ok p ↔ p = none ∧ 0 ≤ room
      simp [eq_comm]
    | some a => by
      have read : f.nullable.read room ((f.nullable.write (some a)).reread) =
          (f.read room (f.write a).reread).map some := by
        change f.nullable.read room (f.write a).reread = _
        rw [h.stable a (ok a rfl)]
        simp only [Format.nullable]
        split
        next null => exact absurd null (solid a (ok a rfl))
        next => rfl
      have inner := h.returns room a
      unfold Returns at inner ⊢
      rw [read]
      rw [map_eq_ok_iff]
      constructor
      · rintro ⟨b, came, rfl⟩
        obtain ⟨rfl, fits⟩ := (inner b (ok a rfl)).mp came
        exact ⟨rfl, fits⟩
      · rintro ⟨rfl, fits⟩
        exact ⟨a, (inner a (ok a rfl)).mpr ⟨rfl, fits⟩, rfl⟩

theorem RoundTrips.readItems_map (h : f.RoundTrips fit) {room : Nat} {as bs : List α}
    (ok : ∀ a ∈ as, fit a) :
    readItems (f.read room) (as.map f.write) = .ok bs ↔
      bs = as ∧ ∀ a ∈ as, (f.write a).depth ≤ room := by
  induction as generalizing bs with
  | nil => simp [readItems, eq_comm]
  | cons a as ih =>
      obtain ⟨first, others⟩ := List.forall_mem_cons.mp ok
      have head (b : α) : f.read room (f.write a) = .ok b ↔
          b = a ∧ (f.write a).depth ≤ room := by
        rw [← h.returns room a b first, Returns, h.stable a first]
      rw [List.map_cons, readItems, List.forall_mem_cons]
      simp only [bind_eq_ok_iff, head, ih others, Except.ok.injEq]
      constructor
      · rintro ⟨b, ⟨rfl, fits⟩, bs, ⟨rfl, deep⟩, rfl⟩
        exact ⟨rfl, fits, deep⟩
      · rintro ⟨rfl, fits, deep⟩
        exact ⟨a, ⟨rfl, fits⟩, as, ⟨rfl, deep⟩, rfl⟩

theorem RoundTrips.list (h : f.RoundTrips fit) :
    (list f).RoundTrips fun as => ∀ a ∈ as, fit a where
  stable as ok := by
    refine Tree.reread_list_eq_self fun t member => ?_
    obtain ⟨a, inside, rfl⟩ := List.mem_map.mp member
    exact h.stable a (ok a inside)
  returns room as bs ok := by
    have stable : (Tree.list (as.map f.write)).reread = Tree.list (as.map f.write) := by
      refine Tree.reread_list_eq_self fun t member => ?_
      obtain ⟨a, inside, rfl⟩ := List.mem_map.mp member
      exact h.stable a (ok a inside)
    unfold Returns
    simp only [Format.list, stable]
    cases room with
    | zero =>
        simp only [Tree.not_depth_list_le_zero, and_false]
        exact iff_of_false (fun came => by cases came) id
    | succ room =>
        rw [Tree.depth_list_le, List.forall_mem_map, ← h.readItems_map ok]
        simp only [Tree.list, bind_eq_ok_iff, if_true, Except.ok.injEq, exists_eq_right]

section Maps

variable {ms ns : List (String × α)}

theorem RoundTrips.forall₂_memberReturns (h : f.RoundTrips fit) {room : Nat}
    (ok : ∀ m ∈ ms, fit m.2) :
    List.Forall₂ (f.MemberReturns room) ms ns ↔
      ns = ms ∧ ∀ m ∈ ms, (f.write m.2).depth ≤ room := by
  induction ms generalizing ns with
  | nil => simp
  | cons m ms ih =>
      obtain ⟨first, others⟩ := List.forall_mem_cons.mp ok
      rw [List.forall₂_cons_left_iff, List.forall_mem_cons]
      constructor
      · rintro ⟨n, rest, ⟨name, came⟩, tail, rfl⟩
        obtain ⟨value, fits⟩ := (h.returns room m.2 n.2 first).mp came
        obtain ⟨rfl, deep⟩ := (ih others).mp tail
        exact ⟨by rw [Prod.ext name value], fits, deep⟩
      · rintro ⟨rfl, fits, deep⟩
        exact ⟨m, ms, ⟨rfl, (h.returns room m.2 m.2 first).mpr ⟨rfl, fits⟩⟩,
          (ih others).mpr ⟨rfl, deep⟩, rfl⟩

theorem RoundTrips.members (h : f.RoundTrips fit) :
    (members f).RoundTrips fun ms => ∀ m ∈ ms, fit m.2 where
  stable ms ok := by
    refine Tree.reread_record_eq_self fun m member => ?_
    obtain ⟨n, inside, rfl⟩ := List.mem_map.mp member
    exact h.stable n.2 (ok n inside)
  returns room ms ns ok := by
    cases room with
    | zero =>
        unfold Returns
        simp only [Format.members, reread_record, Tree.not_depth_record_le_zero, and_false]
        exact iff_of_false (fun came => by cases came) id
    | succ room =>
        rw [returns_members, h.forall₂_memberReturns ok]
        simp only [Format.members, Tree.depth_record_le, List.forall_mem_map]

theorem RoundTrips.map (h : f.RoundTrips fit) :
    (map f).RoundTrips fun m => ∀ e ∈ m.entries, fit e.2 :=
  h.members.imap fun m => SortedMap.eq_of_entries (SortedMap.entries_ofList m.ascending)

theorem roundTrips_set : set.RoundTrips fun _ => True :=
  (roundTrips_string.list.imap SortedSet.ofList_keys).imp fun _ _ _ _ => trivial

end Maps

end Format

namespace Record

variable {α β : Type} {r : Record α} {s : Record β} {fit : α → Prop} {fits : β → Prop}

theorem RoundTrips.imp {fewer : α → Prop} (h : r.RoundTrips fit) (within : ∀ a, fewer a → fit a) :
    r.RoundTrips fewer where
  stable a ok := h.stable a (within a ok)
  returns room a b ok := h.returns room a b (within a ok)

/-- A value that is not written must be the one that stands for its absence. -/
theorem roundTrips_fieldOr {name : String} {f : Format α} {absent : Layout → Option α}
    {hidden : α → Bool} (h : f.RoundTrips fit)
    (omitted : ∀ a, hidden a = true → absent .object = some a) :
    (fieldOr name f absent hidden).RoundTrips fit where
  stable a ok m member := by
    simp only [fieldOr] at member
    split at member
    · contradiction
    · obtain rfl := List.mem_singleton.mp member
      exact h.stable a ok
  returns room a b ok := by
    rw [returns_fieldOr]
    simp only [fieldOr]
    split
    next hide =>
      rw [omitted a hide]
      simp [eq_comm]
    next => rw [h.returns room a b ok, List.forall_mem_singleton]

theorem roundTrips_field (name : String) {f : Format α} (h : f.RoundTrips fit) :
    (field name f).RoundTrips fit :=
  roundTrips_fieldOr h nofun

theorem RoundTrips.and (hr : r.RoundTrips fit) (hs : s.RoundTrips fits) (lawful : r.Lawful)
    (lawful' : s.Lawful) (apart : ∀ n ∈ s.names, n ∉ r.names) :
    (r.and s).RoundTrips fun ab => fit ab.1 ∧ fits ab.2 where
  stable ab ok m member := by
    rcases List.mem_append.mp member with left | right
    · exact hr.stable ab.1 ok.1 m left
    · exact hs.stable ab.2 ok.2 m right
  returns room ab cd ok := by
    obtain ⟨a, b⟩ := ab
    obtain ⟨c, d⟩ := cd
    rw [returns_and lawful lawful' apart, hr.returns room a c ok.1, hs.returns room b d ok.2]
    simp only [Record.and, List.forall_mem_append, Prod.mk.injEq]
    exact and_and_and_comm

theorem RoundTrips.imap {of : α → β} {view : β → α} (h : r.RoundTrips fit)
    (back : ∀ b, of (view b) = b) : (r.imap of view).RoundTrips fun b => fit (view b) where
  stable b ok := h.stable (view b) ok
  returns room x y ok := by
    rw [returns_imap]
    constructor
    · rintro ⟨a, came, rfl⟩
      obtain ⟨rfl, fits⟩ := (h.returns room (view x) a ok).mp came
      exact ⟨back x, fits⟩
    · rintro ⟨rfl, fits⟩
      exact ⟨view y, (h.returns room (view y) (view y) ok).mpr ⟨rfl, fits⟩, back y⟩

theorem Lawful.imap {of : α → β} {view : β → α} (h : r.Lawful) : (r.imap of view).Lawful :=
  ⟨h.reads, fun b => h.writes (view b)⟩

theorem RoundTrips.format (h : r.RoundTrips fit) : r.format.RoundTrips fit where
  stable a ok := Tree.reread_record_eq_self (h.stable a ok)
  returns room a b ok := by
    cases room with
    | zero =>
        unfold Format.Returns
        simp only [Record.format, reread_record, Tree.not_depth_record_le_zero, and_false]
        exact iff_of_false (fun came => by cases came) id
    | succ room =>
        rw [returns_format, h.returns room a b ok]
        simp only [Record.format, Tree.depth_record_le]

end Record

/-- A field beside the others. -/
theorem Format.RoundTrips.field_and {α β : Type} {f : Format α} {s : Record β} {fit : α → Prop}
    {fits : β → Prop} (h : f.RoundTrips fit) (name : String) (hs : s.RoundTrips fits)
    (lawful : s.Lawful) (apart : name ∉ s.names) :
    ((Record.field name f).and s).RoundTrips fun ab => fit ab.1 ∧ fits ab.2 :=
  (Record.roundTrips_field name h).and hs Record.lawful_field lawful fun _ member listed =>
    apart (List.mem_singleton.mp listed ▸ member)

end Json

end ThreatGossip
