import ThreatGossip.Proofs.Json.Contexts
import ThreatGossip.Proofs.Json.Yields
/-!
The members of an object, each by itself. The text of an object is read as the members that its
parts are read as. Where reading a record succeeds, the order of its members does not matter, and
members of other names do not either.
-/
namespace ThreatGossip.Json

/-- A member of an object as two texts: its name with the quotes, and its value. -/
structure MemberText where
  name : String
  value : String

namespace MemberText

/-- A member in front of `rest`. -/
def onto (m : MemberText) (rest : List Char) : List Char :=
  m.name.toList ++ ':' :: (m.value.toList ++ rest)

/-- The members behind another one, up to the brace. -/
def behind : List MemberText → List Char
  | [] => ['\x7d']
  | m :: ms => ',' :: m.onto (behind ms)

/-- The member that is written for a name and a tree. -/
def written (m : String × Tree) : MemberText := ⟨(Tree.string m.1).text, m.2.text⟩

/-- What a member is read as by itself; blanks may stand around its name and its value. -/
structure Reads (m : MemberText) (n : Name × Tree) : Prop where
  name : ∃ quoted after, skipBlanks m.name.toList = '"' :: quoted ∧
    readQuoted quoted = some (n.1.text?, after) ∧ skipBlanks after = [] ∧
      n.1.spelling = quoted.takeWhile (· ≠ '"')
  value : ∃ after, Tree.ofChars m.value.toList = (n.2, some after) ∧ skipBlanks after = []

end MemberText

/-- The text of an object with these members. -/
def objectText : List MemberText → String
  | [] => "\x7b\x7d"
  | m :: ms => String.ofList ('\x7b' :: m.onto (MemberText.behind ms))

namespace MemberText

theorem membersOnto_eq (ms : List (String × Tree)) :
    Tree.membersOnto (ms.map fun m => (.ofString m.1, m.2)) [] = behind (ms.map written) := by
  induction ms with
  | nil => rfl
  | cons m ms ih =>
      rw [List.map_cons, List.map_cons, Tree.membersOnto, ih, Tree.onto_eq]
      exact congrArg (',' :: ·) (Tree.onto_eq (.string m.1) _)

/-- A written object is the text of its written members. -/
theorem text_record (ms : List (String × Tree)) :
    (Tree.record ms).text = objectText (ms.map written) := by
  cases ms with
  | nil => rfl
  | cons m ms =>
      rw [Tree.text, Tree.record, List.map_cons, Tree.onto, membersOnto_eq, Tree.onto_eq]
      exact congrArg (fun cs => String.ofList ('\x7b' :: cs)) (Tree.onto_eq (.string m.1) _)

theorem reads_written {m : String × Tree} (plain : m.2.Plain) :
    (written m).Reads (.ofString m.1, m.2.reread) where
  name := by
    have quote : Begins '"' := by decide
    refine ⟨m.1.toList.flatMap escapeChar ++ '"' :: [], [], ?_, readQuoted_written m.1 [], rfl,
      (congrArg Name.spelling (name_written m.1 [])).symm⟩
    rw [written, Tree.text, String.toList_ofList, Tree.onto, quoteOnto_eq, quote.skipBlanks]
  value := ⟨[], Tree.ofChars_text plain, rfl⟩

theorem ends_behind (ms : List MemberText) : Number.Ends (behind ms) := by
  cases ms with
  | nil => exact Number.ends_cons (by decide) (by decide) (by decide) (by decide)
  | cons m ms => exact Number.ends_cons (by decide) (by decide) (by decide) (by decide)

/-- A member is read in front of a brace, or of a comma and other members. -/
theorem readMembers_member {m : MemberText} {n : Name × Tree} (first : m.Reads n)
    {fuel : Nat} (enough : 2 * m.value.toList.length + 2 ≤ fuel) {w rest : List Char}
    (stop : Number.Ends w) {ms : List (Name × Tree)}
    (after : (skipBlanks w = '\x7d' :: rest ∧ ms = [n]) ∨
      ∃ more ns, skipBlanks w = ',' :: more ∧ readMembers fuel more = (ns, some rest) ∧
        ms = n :: ns) :
    readMembers (fuel + 1) (m.onto w) = (ms, some rest) := by
  obtain ⟨quoted, tail, quote, named, blank, spelled⟩ := first.name
  obtain ⟨blanks, read, nothing⟩ := first.value
  have name (w : List Char) :
      (⟨n.1.text?, (quoted ++ w).takeWhile (· ≠ '"')⟩ : Name) = n.1 := by
    rw [takeWhile_append_of_readQuoted w named, ← spelled]
  have colon : Begins ':' := by decide
  refine readMembers_eq_some_iff.mpr ⟨_, _, _, m.value.toList ++ w, n.2, blanks ++ w,
    skipBlanks_append_cons _ quote, readQuoted_append _ named,
    (skipBlanks_append_nil _ blank).trans (colon.skipBlanks _),
    readTree_context stop read enough, ?_⟩
  rw [name, skipBlanks_append_nil w nothing]
  exact after

/-- Members are read one after the other, each as by itself. -/
theorem readMembers_onto {m : MemberText} {n : Name × Tree} (first : m.Reads n)
    {ms : List MemberText} {ns : List (Name × Tree)} (others : List.Forall₂ Reads ms ns)
    {fuel : Nat} (enough : 2 * (m.onto (behind ms)).length + 2 ≤ fuel) :
    readMembers fuel (m.onto (behind ms)) = (n :: ns, some []) := by
  have length (m : MemberText) (w : List Char) :
      m.value.toList.length + w.length < (m.onto w).length := by
    simp only [onto, List.length_append, List.length_cons]
    omega
  obtain ⟨fuel, rfl⟩ : ∃ less, fuel = less + 1 := ⟨fuel - 1, by omega⟩
  induction others generalizing m n fuel with
  | nil =>
      have bound := length m (behind [])
      exact readMembers_member first (by omega) (ends_behind []) (.inl ⟨rfl, rfl⟩)
  | @cons k p ms ns next others ih =>
      have bound := length m (behind (k :: ms))
      have comma : (behind (k :: ms)).length = (k.onto (behind ms)).length + 1 := rfl
      obtain ⟨fuel, rfl⟩ : ∃ less, fuel = less + 1 := ⟨fuel - 1, by omega⟩
      refine readMembers_member first (by omega) (ends_behind (k :: ms))
        (.inr ⟨k.onto (behind ms), p :: ns, rfl, ih next fuel (by omega), rfl⟩)

/-- The text of an object is read as the members that its parts are read as. -/
theorem ofChars_objectText {ms : List MemberText} {ns : List (Name × Tree)}
    (h : List.Forall₂ Reads ms ns) :
    Tree.ofChars (objectText ms).toList = (.object ns true, some []) := by
  cases h with
  | nil => rfl
  | @cons m n ms ns first others =>
      have brace : Begins '\x7b' := by decide
      rw [objectText, String.toList_ofList, Tree.ofChars]
      refine (readTree_object_iff (brace.skipBlanks _)).mpr (.inr ⟨?_, n :: ns, ?_, rfl⟩)
      · obtain ⟨quoted, tail, quote, -⟩ := first.name
        intro more same
        rw [onto, skipBlanks_append_cons _ quote] at same
        exact absurd (List.cons.inj same).1 (by decide)
      · rw [List.length_cons, readMembers_skipBlanks]
        exact readMembers_onto first others (by omega)

/-- What a name and a value are read as in their own texts. -/
theorem reads_of_decode {m : MemberText} {s : String} {d : Document}
    (name : Format.string.decode m.name = .ok s) (value : Format.document.decode m.value = .ok d) :
    ∃ n : Name × Tree, m.Reads n ∧ n.1.text? = some s ∧ n.2.legible maxDepth = true := by
  obtain ⟨t, after, spelled, blank, read⟩ := Format.decode_eq_ok_iff.mp name
  obtain ⟨u, tail, tree, nothing, legible⟩ := Format.decode_eq_ok_iff.mp value
  have string : t = .string s := by
    simp only [Format.string] at read
    split at read
    next => rw [Except.ok.inj read]
    next => contradiction
  subst string
  obtain ⟨quoted, quote, named⟩ := quoted_of_readTree spelled
  refine ⟨(⟨some s, quoted.takeWhile (· ≠ '"')⟩, u),
    ⟨⟨quoted, after, quote, named, blank, rfl⟩, ⟨tail, tree, nothing⟩⟩, rfl, ?_⟩
  simp only [Format.document] at legible
  split at legible
  next clear => exact clear
  next => contradiction

end MemberText

namespace Record

variable {α β : Type} {r : Record α} {s : Record β} {room : Nat}

/-- Where two members are read one after the other, they may change places. -/
def Commutes (r : Record α) : Prop :=
  ∀ room (a b c : r.Slots) (m n : Name × Tree), r.Step room a m b → r.Step room b n c →
    ∃ d, r.Step room a n d ∧ r.Step room d m c

section Fields

variable {name : String} {f : Format α} {absent : Layout → Option α} {hidden : α → Bool}

/-- A member is the field, which nothing has been read for yet, or it is passed over. -/
theorem step_fieldOr_iff {slot next : (fieldOr name f absent hidden).Slots} {m : Name × Tree} :
    (fieldOr name f absent hidden).Step room slot m next ↔
      (m.1.text? = some name ∧ slot = none ∧ ∃ a, f.read room m.2 = .ok a ∧ next = some a) ∨
        ((∃ other, m.1.text? = some other ∧ other ≠ name) ∧ m.2.whole = true ∧ next = slot) := by
  constructor
  · rintro (⟨named, taken, came⟩ | ⟨named, passed, whole⟩)
    · simp only [fieldOr] at taken
      split at taken
      next own =>
        obtain rfl := Option.some.inj taken
        split at came
        next => contradiction
        next free =>
          obtain ⟨a, read, rfl⟩ := map_eq_ok_iff.mp came
          exact .inl ⟨own ▸ named, Option.not_isSome_iff_eq_none.mp free, a, read, rfl⟩
      next => contradiction
    · simp only [fieldOr] at passed
      split at passed
      next => contradiction
      next different => exact .inr ⟨⟨_, named, different⟩, whole, rfl⟩
  · rintro (⟨named, rfl, a, read, rfl⟩ | ⟨⟨other, named, different⟩, whole, rfl⟩)
    · refine .own named (if_pos rfl) ?_
      exact congrArg (Except.map some) read
    · exact .other named (if_neg different) whole

theorem commutes_fieldOr : (fieldOr name f absent hidden).Commutes := by
  intro room a b c m n first second
  simp only [step_fieldOr_iff] at first second ⊢
  obtain ⟨own, free, v, read, rfl⟩ | ⟨other, whole, rfl⟩ := first
  · obtain ⟨-, taken, -⟩ | ⟨passed, clear, rfl⟩ := second
    · contradiction
    · exact ⟨a, .inr ⟨passed, clear, rfl⟩, .inl ⟨own, free, v, read, rfl⟩⟩
  · obtain ⟨own, free, v, read, rfl⟩ | ⟨passed, clear, rfl⟩ := second
    · exact ⟨some v, .inl ⟨own, free, v, read, rfl⟩, .inr ⟨other, whole, rfl⟩⟩
    · exact ⟨_, .inr ⟨passed, clear, rfl⟩, .inr ⟨other, whole, rfl⟩⟩

end Fields

theorem Lawful.mem_names (lawful : r.Lawful) {slots : r.Slots} {name : String}
    {read : Nat → Tree → Except Fault r.Slots} (taken : r.take? slots name = some read) :
    name ∈ r.names := by
  by_contra other
  rw [(lawful.reads slots name).mpr other] at taken
  contradiction

/-- A member is read by the first record if it has the name, and by the second if not. -/
theorem step_and_iff (lawful : r.Lawful) {x x' : r.Slots} {y y' : s.Slots} {m : Name × Tree} :
    (r.and s).Step room (x, y) m (x', y') ↔ ∃ name, m.1.text? = some name ∧
      ((name ∈ r.names ∧ r.Step room x m x' ∧ y' = y) ∨
        (name ∉ r.names ∧ s.Step room y m y' ∧ x' = x)) := by
  constructor
  · rintro (⟨named, taken, came⟩ | ⟨named, passed, whole⟩)
    · simp only [Record.and] at taken
      split at taken
      next read mine =>
        obtain rfl := Option.some.inj taken
        obtain ⟨z, inner, same⟩ := map_eq_ok_iff.mp came
        obtain ⟨rfl, rfl⟩ := Prod.mk.inj same
        exact ⟨_, named, .inl ⟨lawful.mem_names mine, .own named mine inner, rfl⟩⟩
      next strange =>
        obtain ⟨read, theirs, rfl⟩ := Option.map_eq_some_iff.mp taken
        obtain ⟨z, inner, same⟩ := map_eq_ok_iff.mp came
        obtain ⟨rfl, rfl⟩ := Prod.mk.inj same
        exact ⟨_, named, .inr ⟨(lawful.reads _ _).mp strange, .own named theirs inner, rfl⟩⟩
    · simp only [Record.and] at passed
      split at passed
      next => contradiction
      next strange =>
        exact ⟨_, named, .inr ⟨(lawful.reads _ _).mp strange,
          .other named (Option.map_eq_none_iff.mp passed) whole, rfl⟩⟩
  · rintro ⟨name, named, ⟨mine, step, rfl⟩ | ⟨strange, step, rfl⟩⟩
    · cases step with
      | own named' taken came =>
          exact .own named' (take?_and_left taken _) (map_eq_ok_iff.mpr ⟨x', came, rfl⟩)
      | other named' passed _ =>
          obtain rfl := Option.some.inj (named.symm.trans named')
          exact absurd mine ((lawful.reads _ _).mp passed)
    · have passed := (lawful.reads x' name).mpr strange
      cases step with
      | own named' taken came =>
          obtain rfl := Option.some.inj (named.symm.trans named')
          refine .own named ((take?_and_right passed y).trans (congrArg _ taken)) ?_
          exact map_eq_ok_iff.mpr ⟨y', came, rfl⟩
      | other named' free whole =>
          obtain rfl := Option.some.inj (named.symm.trans named')
          exact .other named ((take?_and_right passed _).trans (congrArg _ free)) whole

theorem Commutes.and (hr : r.Commutes) (hs : s.Commutes) (lawful : r.Lawful) :
    (r.and s).Commutes := by
  rintro room ⟨x, y⟩ ⟨x', y'⟩ ⟨x'', y''⟩ m n first second
  obtain ⟨name, named, own⟩ := (step_and_iff lawful).mp first
  obtain ⟨other, others, theirs⟩ := (step_and_iff lawful).mp second
  obtain ⟨mine, left, rfl⟩ | ⟨strange, left, rfl⟩ := own
  · obtain ⟨same, right, rfl⟩ | ⟨apart, right, rfl⟩ := theirs
    · obtain ⟨d, one, two⟩ := hr room x x' x'' m n left right
      exact ⟨(d, _), (step_and_iff lawful).mpr ⟨other, others, .inl ⟨same, one, rfl⟩⟩,
        (step_and_iff lawful).mpr ⟨name, named, .inl ⟨mine, two, rfl⟩⟩⟩
    · exact ⟨(x, y''), (step_and_iff lawful).mpr ⟨other, others, .inr ⟨apart, right, rfl⟩⟩,
        (step_and_iff lawful).mpr ⟨name, named, .inl ⟨mine, left, rfl⟩⟩⟩
  · obtain ⟨same, right, rfl⟩ | ⟨apart, right, rfl⟩ := theirs
    · exact ⟨(x'', y), (step_and_iff lawful).mpr ⟨other, others, .inl ⟨same, right, rfl⟩⟩,
        (step_and_iff lawful).mpr ⟨name, named, .inr ⟨strange, left, rfl⟩⟩⟩
    · obtain ⟨d, one, two⟩ := hs room y y' y'' m n left right
      exact ⟨(_, d), (step_and_iff lawful).mpr ⟨other, others, .inr ⟨apart, one, rfl⟩⟩,
        (step_and_iff lawful).mpr ⟨name, named, .inr ⟨strange, two, rfl⟩⟩⟩

theorem step_imap_iff {of : α → β} {view : β → α} {slots next : (r.imap of view).Slots}
    {m : Name × Tree} :
    (r.imap of view).Step room slots m next ↔ @Step α r room slots m next := by
  constructor
  · rintro (⟨named, taken, came⟩ | ⟨named, passed, whole⟩)
    · exact .own named taken came
    · exact .other named passed whole
  · rintro (⟨named, taken, came⟩ | ⟨named, passed, whole⟩)
    · exact .own named taken came
    · exact .other named passed whole

theorem Commutes.imap {of : α → β} {view : β → α} (h : r.Commutes) :
    (r.imap of view).Commutes := by
  intro room a b c m n first second
  obtain ⟨d, one, two⟩ := h room a b c m n (step_imap_iff.mp first) (step_imap_iff.mp second)
  exact ⟨d, step_imap_iff.mpr one, step_imap_iff.mpr two⟩

/-- Members are read in any order. -/
theorem Commutes.gather_perm (h : r.Commutes) {ms ns : List (Name × Tree)} (perm : ms.Perm ns)
    {slots last : r.Slots} (read : r.gather room slots ms = .ok last) :
    r.gather room slots ns = .ok last := by
  induction perm generalizing slots with
  | nil => exact read
  | cons m _ ih =>
      obtain ⟨next, first, others⟩ := gather_cons_eq_ok_iff.mp read
      exact gather_cons_eq_ok_iff.mpr ⟨next, first, ih others⟩
  | swap m n ms =>
      obtain ⟨b, first, read⟩ := gather_cons_eq_ok_iff.mp read
      obtain ⟨c, second, others⟩ := gather_cons_eq_ok_iff.mp read
      obtain ⟨d, second', first'⟩ := h room slots b c n m first second
      exact gather_cons_eq_ok_iff.mpr ⟨d, second', gather_cons_eq_ok_iff.mpr ⟨c, first', others⟩⟩
  | trans _ _ ih ih' => exact ih' (ih read)

/-- Members of other names are passed over. -/
theorem Lawful.gather_others (lawful : r.Lawful) {ms : List (Name × Tree)}
    (others : ∀ m ∈ ms, (∃ name, m.1.text? = some name ∧ name ∉ r.names) ∧ m.2.whole = true)
    (slots : r.Slots) : r.gather room slots ms = .ok slots := by
  induction ms with
  | nil => rfl
  | cons m ms ih =>
      obtain ⟨⟨⟨name, named, other⟩, whole⟩, later⟩ := List.forall_mem_cons.mp others
      exact gather_cons_eq_ok_iff.mpr
        ⟨slots, .other named ((lawful.reads slots name).mpr other) whole, ih later⟩

end Record

end ThreatGossip.Json
