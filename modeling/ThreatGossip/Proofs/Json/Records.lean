import ThreatGossip.Proofs.Json.Formats
/-!
What comes back of a record. Records side by side come back side by side when each reads its own
names and no name belongs to both.
-/
namespace ThreatGossip.Json

theorem spelled_append (ms ns : List (String × Tree)) :
    spelled (ms ++ ns) = spelled ms ++ spelled ns :=
  List.map_append

namespace Record

variable {α β : Type}

/-- Every member is written as a tree that stands for a value. -/
def WritesPlain (r : Record α) : Prop := ∀ a, ∀ m ∈ r.members a, m.2.Plain

/-- The second value comes back of the first. -/
def Returns (r : Record α) (room : Nat) (a b : α) : Prop :=
  ∃ slots, r.gather room r.empty (spelled (r.members a)) = .ok slots ∧
    r.finish .object slots = .ok b

/-- A record reads the names that it lists and writes no others. -/
structure Lawful (r : Record α) : Prop where
  reads : ∀ slots n, r.take? slots n = none ↔ n ∉ r.names
  writes : ∀ a, ∀ m ∈ r.members a, m.1 ∈ r.names

/-- What a member of a known name does, and what one of another name does. -/
theorem gather_cons (r : Record α) (room : Nat) (slots : r.Slots) (name : String) (t : Tree)
    (ms : List (Name × Tree)) :
    r.gather room slots ((.ofString name, t) :: ms) = match r.take? slots name with
      | some read => read room t >>= fun slots => r.gather room slots ms
      | none => if t.whole then r.gather room slots ms else .error .malformed := by
  rw [gather]
  rfl

theorem gather_append (r : Record α) (room : Nat) (slots : r.Slots) (ms ns : List (Name × Tree)) :
    r.gather room slots (ms ++ ns) =
      r.gather room slots ms >>= fun slots => r.gather room slots ns := by
  induction ms generalizing slots with
  | nil => rfl
  | cons m ms ih =>
      rw [List.cons_append, gather, gather]
      cases m.1.text? with
      | none => rfl
      | some name =>
          dsimp only
          cases r.take? slots name with
          | some read =>
              dsimp only
              cases read room m.2 with
              | error e => rfl
              | ok next => exact ih next
          | none =>
              dsimp only
              split
              next => exact ih slots
              next => rfl

section Fields

variable {name : String} {f : Format α} {absent : Layout → Option α} {hidden : α → Bool}

theorem writesPlain_fieldOr (h : f.WritesPlain) : (fieldOr name f absent hidden).WritesPlain := by
  intro a m member
  simp only [fieldOr] at member
  split at member
  · contradiction
  · obtain rfl := List.mem_singleton.mp member
    exact h a

theorem lawful_fieldOr : (fieldOr name f absent hidden).Lawful := by
  constructor
  · intro slots n
    simp only [fieldOr, List.mem_singleton]
    split <;> simp [*]
  · intro a m member
    simp only [fieldOr] at member ⊢
    split at member
    · contradiction
    · rw [List.mem_singleton.mp member]
      exact List.mem_singleton_self name

theorem returns_fieldOr {room : Nat} {a b : α} :
    (fieldOr name f absent hidden).Returns room a b ↔
      if hidden a then absent .object = some b else f.Returns room a b := by
  unfold Returns
  by_cases hide : hidden a = true
  · rw [if_pos hide]
    have omitted : (fieldOr name f absent hidden).members a = [] := if_pos hide
    rw [omitted]
    constructor
    · rintro ⟨slots, read, finish⟩
      obtain rfl := Except.ok.inj read
      simp only [fieldOr, Option.orElse_none] at finish
      split at finish
      next c given => exact given.trans (congrArg some (Except.ok.inj finish))
      next => contradiction
    · intro given
      refine ⟨none, rfl, ?_⟩
      simp [fieldOr, given]
  · rw [if_neg hide]
    have one : (fieldOr name f absent hidden).members a = [(name, f.write a)] := if_neg hide
    have read : (fieldOr name f absent hidden).gather room
        (fieldOr name f absent hidden).empty (spelled [(name, f.write a)]) =
          (f.read room (f.write a).reread).map some := by
      simp only [spelled, List.map_cons, List.map_nil, gather, Name.text?_ofString]
      simp only [fieldOr, if_true, Option.isSome_none]
      cases f.read room (f.write a).reread <;> rfl
    rw [one, read]
    unfold Format.Returns
    constructor
    · rintro ⟨slots, read, finish⟩
      obtain ⟨c, came, rfl⟩ := map_eq_ok_iff.mp read
      exact came.trans finish
    · intro came
      exact ⟨some b, map_eq_ok_iff.mpr ⟨b, came, rfl⟩, rfl⟩

theorem writesPlain_field (h : f.WritesPlain) : (field name f).WritesPlain := writesPlain_fieldOr h

theorem lawful_field : (field name f).Lawful := lawful_fieldOr

theorem returns_field {room : Nat} {a b : α} :
    (field name f).Returns room a b ↔ f.Returns room a b := by
  rw [field, returns_fieldOr, if_neg Bool.false_ne_true]

end Fields

section Views

variable {r : Record α} {of : α → β} {view : β → α}

theorem writesPlain_imap (h : r.WritesPlain) : (r.imap of view).WritesPlain := fun b => h (view b)

theorem gather_imap (of : α → β) (view : β → α) (room : Nat) (ms : List (String × Tree))
    (slots : r.Slots) :
    (r.imap of view).gather room slots (spelled ms) = r.gather room slots (spelled ms) := by
  induction ms generalizing slots with
  | nil => rfl
  | cons m ms ih =>
      refine (gather_cons (r.imap of view) room slots m.1 m.2.reread (spelled ms)).trans ?_
      refine Eq.trans ?_ (gather_cons r room slots m.1 m.2.reread (spelled ms)).symm
      have take : (r.imap of view).take? slots m.1 = r.take? slots m.1 := rfl
      rw [take]
      cases r.take? slots m.1 with
      | some read => exact congrArg (read room m.2.reread >>= ·) (funext ih)
      | none =>
          dsimp only
          rw [ih]
          rfl

theorem returns_imap {room : Nat} {x y : β} :
    (r.imap of view).Returns room x y ↔ ∃ b, r.Returns room (view x) b ∧ of b = y := by
  unfold Returns
  constructor
  · rintro ⟨slots, read, finish⟩
    have read := (gather_imap of view room _ r.empty).symm.trans read
    change (r.finish .object slots).map of = .ok y at finish
    obtain ⟨b, done, same⟩ := map_eq_ok_iff.mp finish
    exact ⟨b, ⟨slots, read, done⟩, same⟩
  · rintro ⟨b, ⟨slots, read, done⟩, rfl⟩
    refine ⟨slots, (gather_imap of view room _ r.empty).trans read, ?_⟩
    exact map_eq_ok_iff.mpr ⟨b, done, rfl⟩

end Views

section Pairs

variable {r : Record α} {s : Record β}

theorem writesPlain_and (hr : r.WritesPlain) (hs : s.WritesPlain) : (r.and s).WritesPlain := by
  intro ab m member
  rcases List.mem_append.mp member with left | right
  · exact hr ab.1 m left
  · exact hs ab.2 m right

theorem lawful_and (hr : r.Lawful) (hs : s.Lawful) : (r.and s).Lawful := by
  constructor
  · intro slots n
    have left := hr.reads slots.1 n
    have right := hs.reads slots.2 n
    simp only [Record.and, List.mem_append, not_or, ← left, ← right]
    cases r.take? slots.1 n <;> cases s.take? slots.2 n <;> simp
  · intro ab m member
    rcases List.mem_append.mp member with left | right
    · exact List.mem_append_left _ (hr.writes ab.1 m left)
    · exact List.mem_append_right _ (hs.writes ab.2 m right)

theorem take?_and_left {x : r.Slots} {name : String} {read : Nat → Tree → Except Fault r.Slots}
    (taken : r.take? x name = some read) (y : s.Slots) :
    (r.and s).take? (x, y) name = some fun room t => (read room t).map (·, y) := by
  simp only [Record.and, taken]

theorem take?_and_right {x : r.Slots} {name : String} (passed : r.take? x name = none)
    (y : s.Slots) :
    (r.and s).take? (x, y) name = (s.take? y name).map fun read room t =>
      (read room t).map (x, ·) := by
  simp only [Record.and, passed]

/-- The first of two records reads its own names. -/
theorem gather_left (hr : r.Lawful) (room : Nat) (x : r.Slots) (y : s.Slots)
    {ms : List (String × Tree)} (names : ∀ m ∈ ms, m.1 ∈ r.names) :
    (r.and s).gather room (x, y) (spelled ms) = (r.gather room x (spelled ms)).map (·, y) := by
  induction ms generalizing x with
  | nil => rfl
  | cons m ms ih =>
      obtain ⟨own, others⟩ := List.forall_mem_cons.mp names
      refine (gather_cons (r.and s) room (x, y) m.1 m.2.reread (spelled ms)).trans ?_
      refine Eq.trans ?_ (congrArg (Except.map (·, y))
        (gather_cons r room x m.1 m.2.reread (spelled ms)).symm)
      cases taken : r.take? x m.1 with
      | none => exact absurd own ((hr.reads x m.1).mp taken)
      | some read =>
          rw [take?_and_left taken]
          dsimp only
          cases read room m.2.reread with
          | error e => rfl
          | ok next => exact ih next others

/-- The second of two records reads the names that the first one does not. -/
theorem gather_right (hr : r.Lawful) (hs : s.Lawful) (room : Nat) (x : r.Slots) (y : s.Slots)
    {ms : List (String × Tree)} (names : ∀ m ∈ ms, m.1 ∈ s.names)
    (apart : ∀ n ∈ s.names, n ∉ r.names) :
    (r.and s).gather room (x, y) (spelled ms) = (s.gather room y (spelled ms)).map (x, ·) := by
  induction ms generalizing y with
  | nil => rfl
  | cons m ms ih =>
      obtain ⟨own, others⟩ := List.forall_mem_cons.mp names
      refine (gather_cons (r.and s) room (x, y) m.1 m.2.reread (spelled ms)).trans ?_
      refine Eq.trans ?_ (congrArg (Except.map (x, ·))
        (gather_cons s room y m.1 m.2.reread (spelled ms)).symm)
      have passed := (hr.reads x m.1).mpr (apart m.1 own)
      cases taken : s.take? y m.1 with
      | none => exact absurd own ((hs.reads y m.1).mp taken)
      | some read =>
          rw [take?_and_right passed, taken, Option.map_some]
          dsimp only
          cases read room m.2.reread with
          | error e => rfl
          | ok next => exact ih next others

/-- Records side by side come back side by side. -/
theorem returns_and (hr : r.Lawful) (hs : s.Lawful) (apart : ∀ n ∈ s.names, n ∉ r.names)
    {room : Nat} {a b : α} {c d : β} :
    (r.and s).Returns room (a, c) (b, d) ↔ r.Returns room a b ∧ s.Returns room c d := by
  have gathered : (r.and s).gather room (r.and s).empty (spelled ((r.and s).members (a, c))) =
      (r.gather room r.empty (spelled (r.members a))).map (·, s.empty) >>= fun slots =>
        (s.gather room s.empty (spelled (s.members c))).map (slots.1, ·) := by
    change (r.and s).gather room (r.empty, s.empty) (spelled (r.members a ++ s.members c)) = _
    rw [spelled_append]
    refine (gather_append (r.and s) room (r.empty, s.empty) _ _).trans ?_
    refine Eq.trans (congrArg (· >>= _) (gather_left hr room r.empty s.empty (hr.writes a))) ?_
    cases r.gather room r.empty (spelled (r.members a)) with
    | error e => rfl
    | ok x => exact gather_right hr hs room x s.empty (hs.writes c) apart
  unfold Returns
  constructor
  · rintro ⟨⟨x, y⟩, read, finish⟩
    have read := gathered.symm.trans read
    have finish : (r.finish .object x >>= fun a => s.finish .object y >>= fun b => .ok (a, b)) =
        .ok (b, d) := finish
    obtain ⟨slots, left, right⟩ := bind_eq_ok_iff.mp read
    obtain ⟨x', first, rfl⟩ := map_eq_ok_iff.mp left
    obtain ⟨y', second, same⟩ := map_eq_ok_iff.mp right
    obtain ⟨rfl, rfl⟩ := Prod.mk.inj same
    obtain ⟨b', done, rest⟩ := bind_eq_ok_iff.mp finish
    obtain ⟨d', finished, same⟩ := bind_eq_ok_iff.mp rest
    obtain ⟨rfl, rfl⟩ := Prod.mk.inj (Except.ok.inj same)
    exact ⟨⟨x', first, done⟩, ⟨y', second, finished⟩⟩
  · rintro ⟨⟨x, first, done⟩, ⟨y, second, finished⟩⟩
    refine ⟨(x, y), ?_, ?_⟩
    · refine gathered.trans ?_
      rw [first, second]
      rfl
    · simp only [Record.and, done, finished]
      rfl

/-- A field comes back beside the others. -/
theorem returns_field_and {name : String} {f : Format α} (hs : s.Lawful) (apart : name ∉ s.names)
    {room : Nat} {a b : α} {c d : β} :
    ((field name f).and s).Returns room (a, c) (b, d) ↔
      f.Returns room a b ∧ s.Returns room c d := by
  rw [returns_and lawful_field hs, returns_field]
  intro n member listed
  exact apart (List.mem_singleton.mp listed ▸ member)

end Pairs

theorem writesPlain_format {r : Record α} (h : r.WritesPlain) : r.format.WritesPlain :=
  fun a => Tree.plain_record (h a)

theorem returns_format {r : Record α} {room : Nat} {a b : α} :
    r.format.Returns (room + 1) a b ↔ r.Returns room a b := by
  unfold Format.Returns Returns
  simp only [format, reread_record, bind_eq_ok_iff, if_true]

end Record

end ThreatGossip.Json
