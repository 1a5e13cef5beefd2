import ThreatGossip.Proofs.Json.RoundTrips
/-!
What is known of a value by the way it was read. Whatever spelling it was read from, object or
array, with unknown members, repeated names or missing members: a property that every part has where
it is read, and that every default has, is one that the whole value has. Numbers are integers of the
64-bit ranges throughout.
-/
namespace ThreatGossip.Json

namespace Tree

theorem integralMembers_iff {ms : List (Name × Tree)} :
    IntegralMembers ms ↔ ∀ m ∈ ms, m.2.Integral := by
  induction ms with
  | nil => exact iff_of_true trivial nofun
  | cons m ms ih => rw [IntegralMembers, ih, List.forall_mem_cons]

mutual

/-- The document that a tree denotes has no other numbers than the tree. -/
theorem Integral.normalize : ∀ {t : Tree}, t.Integral → t.normalize.Integral
  | .null, _ => trivial
  | .boolean _, _ => trivial
  | .number _, h => h
  | .string _, _ => trivial
  | .flawed, _ => trivial
  | .broken, _ => trivial
  | .array _ _, h => integralItems_normalizeItems h
  | .object _ _, h => by
    refine integralMembers_iff.mpr fun m listed => ?_
    obtain ⟨e, inside, rfl⟩ := List.mem_map.mp listed
    exact SortedMap.forall_values_ofList (integral_normalizeMembers h) e inside

theorem integralItems_normalizeItems : ∀ {ts : List Tree},
    IntegralItems ts → IntegralItems (normalizeItems ts)
  | [], _ => trivial
  | _ :: _, ⟨first, others⟩ => ⟨first.normalize, integralItems_normalizeItems others⟩

theorem integral_normalizeMembers : ∀ {ms : List (Name × Tree)},
    IntegralMembers ms → ∀ m ∈ normalizeMembers ms, m.2.Integral
  | [], _, _, listed => nomatch listed
  | (_, _) :: _, ⟨first, others⟩, m, listed => by
    rcases List.mem_cons.mp listed with rfl | later
    · exact first.normalize
    · exact integral_normalizeMembers others m later

end

/-- Only `null` denotes `null`. -/
theorem normalize_ne_null {t : Tree} {room : Nat} (legible : t.legible room = true)
    (solid : t ≠ .null) : t.normalize ≠ .null := by
  cases t with
  | null => exact absurd rfl solid
  | flawed => contradiction
  | broken => contradiction
  | boolean b => nofun
  | number n => nofun
  | string s => nofun
  | array items closed => nofun
  | object members closed => nofun

end Tree

/-- Of whatever tree a value is read, it is fit for the room that was left for it. -/
def Format.Yields {α : Type} (f : Format α) (fit : Nat → α → Prop) : Prop :=
  ∀ room t a, t.Integral → f.read room t = .ok a → fit room a

/-- What can have been read of the members of a record, in any order and number. -/
inductive Record.Reached {α : Type} (r : Record α) (room : Nat) : r.Slots → Prop
  | empty : Reached r room r.empty
  | take {slots next : r.Slots} {name : String} {read : Nat → Tree → Except Fault r.Slots}
      {t : Tree} : Reached r room slots → r.take? slots name = some read → t.Integral →
        read room t = .ok next → Reached r room next

/-- The same of a value that a record makes of the members that were read. -/
def Record.Yields {α : Type} (r : Record α) (fit : Nat → α → Prop) : Prop :=
  ∀ room slots layout a, r.Reached room slots → r.finish layout slots = .ok a → fit room a

namespace Format

variable {α β : Type} {f : Format α} {fit : Nat → α → Prop}

theorem yields_any : f.Yields fun _ _ => True := fun _ _ _ _ _ => trivial

theorem Yields.imap {of : α → β} {view : β → α} {fits : Nat → β → Prop} (h : f.Yields fit)
    (within : ∀ room a, fit room a → fits room (of a)) : (f.imap of view).Yields fits := by
  intro room t b integral read
  obtain ⟨a, inner, rfl⟩ := map_eq_ok_iff.mp read
  exact within room a (h room t a integral inner)

/-- A value that may be missing is not read of a `null`. -/
theorem yields_nullable
    (h : ∀ room t a, t.Integral → t ≠ .null → f.read room t = .ok a → fit room a) :
    f.nullable.Yields fun room o => ∀ a, o = some a → fit room a := by
  rintro room t o integral read a rfl
  simp only [nullable] at read
  split at read
  next => cases read
  next solid =>
    obtain ⟨b, came, same⟩ := map_eq_ok_iff.mp read
    exact h room t a integral solid (Option.some.inj same ▸ came)

theorem Yields.nullable (h : f.Yields fit) :
    f.nullable.Yields fun room o => ∀ a, o = some a → fit room a :=
  yields_nullable fun room t a integral _ read => h room t a integral read

/-- A document that is read has the numbers of its tree and nests no deeper. -/
theorem document_of_read {room : Nat} {t : Tree} {d : Document} (integral : t.Integral)
    (read : document.read room t = .ok d) :
    t.legible room = true ∧ d = .ofTree t ∧ d.tree.Integral ∧ d.tree.depth ≤ room := by
  simp only [document] at read
  split at read
  next legible =>
    obtain rfl := Except.ok.inj read
    exact ⟨legible, rfl, integral.normalize,
      Nat.le_trans t.depth_normalize_le (Tree.depth_le_of_legible legible)⟩
  next => contradiction

/-- Every value under a name was read of a member. -/
theorem mem_of_readMembers {read : Tree → Except Fault α} {ms : List (Name × Tree)}
    {ns : List (String × α)} (came : readMembers read ms = .ok ns) {n : String × α}
    (listed : n ∈ ns) : ∃ m ∈ ms, read m.2 = .ok n.2 := by
  induction ms generalizing ns with
  | nil =>
      obtain rfl := Except.ok.inj came
      contradiction
  | cons m ms ih =>
      rw [readMembers] at came
      split at came
      next => contradiction
      next name named =>
        obtain ⟨b, first, came⟩ := bind_eq_ok_iff.mp came
        obtain ⟨bs, others, came⟩ := bind_eq_ok_iff.mp came
        obtain rfl := Except.ok.inj came
        rcases List.mem_cons.mp listed with rfl | later
        · exact ⟨m, List.mem_cons_self, first⟩
        · obtain ⟨k, inside, read⟩ := ih others later
          exact ⟨k, List.mem_cons_of_mem m inside, read⟩

theorem Yields.members (h : f.Yields fit) :
    (members f).Yields fun room ms => ∀ m ∈ ms, fit (room - 1) m.2 := by
  intro room t ns integral read
  match room, t with
  | room + 1, .object ms closed =>
      obtain ⟨ks, came, closing⟩ := bind_eq_ok_iff.mp read
      split at closing
      next =>
        obtain rfl := Except.ok.inj closing
        intro n listed
        obtain ⟨m, inside, value⟩ := mem_of_readMembers came listed
        exact h room m.2 n.2 (Tree.integralMembers_iff.mp integral m inside) value
      next => contradiction
  | 0, .object _ _ => contradiction
  | _, .null | _, .boolean _ | _, .number _ | _, .string _ | _, .array _ _ | _, .flawed
  | _, .broken => simp [Format.members] at read

/-- Of a repeated name the last value counts. -/
theorem Yields.map (h : f.Yields fit) :
    (map f).Yields fun room m => ∀ e ∈ m.entries, fit (room - 1) e.2 :=
  h.members.imap fun _ _ => SortedMap.forall_values_ofList

end Format

namespace Record

variable {α β : Type} {r : Record α} {s : Record β} {fit : Nat → α → Prop}
  {fits : Nat → β → Prop} {room : Nat}

theorem Yields.imp {weaker : Nat → α → Prop} (h : r.Yields fit)
    (within : ∀ room a, fit room a → weaker room a) : r.Yields weaker :=
  fun room slots layout a reached finish => within room a (h room slots layout a reached finish)

theorem yields_any : r.Yields fun _ _ => True := fun _ _ _ _ _ _ => trivial

/-- A field holds nothing yet or what was read of one member. -/
theorem Reached.field {name : String} {f : Format α} {absent : Layout → Option α}
    {hidden : α → Bool} {slot : (fieldOr name f absent hidden).Slots}
    (h : (fieldOr name f absent hidden).Reached room slot) (found : f.Yields fit) :
    ∀ a, slot = some a → fit room a := by
  cases h with
  | empty => nofun
  | take _ taken integral read =>
      simp only [fieldOr] at taken
      split at taken
      next =>
        obtain rfl := Option.some.inj taken
        split at read
        next => contradiction
        next =>
          obtain ⟨b, came, rfl⟩ := map_eq_ok_iff.mp read
          rintro a same
          exact Option.some.inj same ▸ found _ _ b integral came
      next => contradiction

/-- Records side by side are filled each by its own members. -/
theorem Reached.and {slots : (r.and s).Slots} (h : (r.and s).Reached room slots) :
    r.Reached room (@Prod.fst r.Slots s.Slots slots) ∧
      s.Reached room (@Prod.snd r.Slots s.Slots slots) := by
  induction h with
  | empty => exact ⟨.empty, .empty⟩
  | @take slots next name read t _ taken integral came ih =>
      simp only [Record.and] at taken
      split at taken
      next own mine =>
        obtain rfl := Option.some.inj taken
        obtain ⟨x, inner, rfl⟩ := map_eq_ok_iff.mp came
        exact ⟨.take ih.1 mine integral inner, ih.2⟩
      next =>
        obtain ⟨other, theirs, rfl⟩ := Option.map_eq_some_iff.mp taken
        obtain ⟨y, inner, rfl⟩ := map_eq_ok_iff.mp came
        exact ⟨ih.1, .take ih.2 theirs integral inner⟩

theorem Reached.imap {of : α → β} {view : β → α} {slots : (r.imap of view).Slots}
    (h : (r.imap of view).Reached room slots) : @Reached α r room slots := by
  induction h with
  | empty => exact .empty
  | take _ taken integral came ih => exact .take ih taken integral came

/-- What reading one member makes of what was read before it. -/
inductive Step (r : Record α) (room : Nat) (slots : r.Slots) (m : Name × Tree) : r.Slots → Prop
  | own {name : String} {read : Nat → Tree → Except Fault r.Slots} {next : r.Slots} :
      m.1.text? = some name → r.take? slots name = some read → read room m.2 = .ok next →
        Step r room slots m next
  | other {name : String} :
      m.1.text? = some name → r.take? slots name = none → m.2.whole = true →
        Step r room slots m slots

theorem gather_cons_eq_ok_iff {slots last : r.Slots} {m : Name × Tree} {ms : List (Name × Tree)} :
    r.gather room slots (m :: ms) = .ok last ↔
      ∃ next, r.Step room slots m next ∧ r.gather room next ms = .ok last := by
  rw [gather]
  constructor
  · intro read
    split at read
    next => contradiction
    next name named =>
      split at read
      next own taken =>
        obtain ⟨next, came, others⟩ := bind_eq_ok_iff.mp read
        exact ⟨next, .own named taken came, others⟩
      next passed =>
        split at read
        next whole => exact ⟨slots, .other named passed whole, read⟩
        next => contradiction
  · rintro ⟨next, step, others⟩
    cases step with
    | own named taken came =>
        rw [named]
        dsimp only
        rw [taken]
        exact bind_eq_ok_iff.mpr ⟨next, came, others⟩
    | other named passed whole =>
        rw [named]
        dsimp only
        rw [passed]
        exact (if_pos whole).trans others

theorem Reached.gather {slots last : r.Slots} {ms : List (Name × Tree)}
    (start : r.Reached room slots) (integral : Tree.IntegralMembers ms)
    (read : r.gather room slots ms = .ok last) : r.Reached room last := by
  induction ms generalizing slots with
  | nil => exact Except.ok.inj read ▸ start
  | cons m ms ih =>
      obtain ⟨first, others⟩ := integral
      obtain ⟨next, step, rest⟩ := gather_cons_eq_ok_iff.mp read
      cases step with
      | own _ taken came => exact ih (.take start taken first came) others rest
      | other _ _ _ => exact ih start others rest

theorem Reached.gatherItems {slots last : r.Slots} {names : List String} {ts : List Tree}
    (start : r.Reached room slots) (integral : Tree.IntegralItems ts)
    (read : r.gatherItems room slots names ts = .ok last) : r.Reached room last := by
  induction ts generalizing slots names with
  | nil =>
      rw [Record.gatherItems] at read
      exact Except.ok.inj read ▸ start
  | cons t ts ih =>
      obtain ⟨first, others⟩ := integral
      cases names with
      | nil => contradiction
      | cons name names =>
          rw [Record.gatherItems] at read
          split at read
          next own taken =>
            obtain ⟨next, came, rest⟩ := bind_eq_ok_iff.mp read
            exact ih (.take start taken first came) others rest
          next => contradiction

theorem yields_fieldOr {name : String} {f : Format α} {absent : Layout → Option α}
    {hidden : α → Bool} (found : f.Yields fit)
    (missing : ∀ room layout a, absent layout = some a → fit room a) :
    (fieldOr name f absent hidden).Yields fit := by
  intro room slot layout a reached finish
  simp only [fieldOr] at finish
  split at finish
  next b value =>
    obtain rfl := Except.ok.inj finish
    cases slot with
    | some c => exact reached.field found b value
    | none => exact missing room layout b value
  next => contradiction

theorem yields_field (name : String) {f : Format α} (found : f.Yields fit) :
    (field name f).Yields fit :=
  yields_fieldOr found nofun

theorem Yields.and (hr : r.Yields fit) (hs : s.Yields fits) :
    (r.and s).Yields fun room ab => fit room ab.1 ∧ fits room ab.2 := by
  rintro room slots layout ab reached finish
  obtain ⟨a, first, finish⟩ := bind_eq_ok_iff.mp finish
  obtain ⟨b, second, finish⟩ := bind_eq_ok_iff.mp finish
  obtain rfl := Except.ok.inj finish
  obtain ⟨left, right⟩ := reached.and
  exact ⟨hr room slots.1 layout a left first, hs room slots.2 layout b right second⟩

theorem Yields.imap {of : α → β} {view : β → α} (h : r.Yields fit)
    (within : ∀ room a, fit room a → fits room (of a)) : (r.imap of view).Yields fits := by
  intro room slots layout b reached finish
  obtain ⟨a, inner, rfl⟩ := map_eq_ok_iff.mp finish
  exact within room a (h room slots layout a reached.imap inner)

/-- Either layout gives what the record gives one level further in. -/
theorem Yields.format (h : r.Yields fit) : r.format.Yields fun room a => fit (room - 1) a := by
  intro room t a integral read
  match room, t with
  | room + 1, .object ms closed =>
      obtain ⟨slots, gathered, closing⟩ := bind_eq_ok_iff.mp read
      split at closing
      next => exact h room slots .object a (Reached.empty.gather integral gathered) closing
      next => contradiction
  | room + 1, .array items closed =>
      obtain ⟨slots, gathered, closing⟩ := bind_eq_ok_iff.mp read
      split at closing
      next => exact h room slots .array a (Reached.empty.gatherItems integral gathered) closing
      next => contradiction
  | 0, .object _ _ | 0, .array _ _ => contradiction
  | _, .null | _, .boolean _ | _, .number _ | _, .string _ | _, .flawed | _, .broken =>
      simp [Record.format] at read

theorem Yields.imap_format {of : α → β} {view : β → α} (h : r.Yields fit)
    (within : ∀ room a, fit room a → fits (room + 1) (of a)) :
    (r.imap of view).format.Yields fits := by
  intro room t b integral read
  cases room with
  | zero => cases t <;> contradiction
  | succ room =>
      have inside : (r.imap of view).Yields fun room b => fits (room + 1) b := h.imap within
      exact inside.format (room + 1) t b integral read

end Record

end ThreatGossip.Json
