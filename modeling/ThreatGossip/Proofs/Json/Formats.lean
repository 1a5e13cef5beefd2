import Mathlib.Data.List.Forall2
import ThreatGossip.Json.Record
import ThreatGossip.Proofs.Json.Texts
/-!
What comes back of a value that is written and read again. Each format says so in one equivalence,
and a format that is built from others follows from theirs.
-/
namespace ThreatGossip

namespace SortedMap

variable {κ β : Type} [Ord κ] [Std.TransOrd κ]

theorem insertEntry_greatest {join : β → β → β} {k : κ} {v : β} {es : List (κ × β)}
    (above : ∀ e ∈ es, compare e.1 k = .lt) : insertEntry join k v es = es ++ [(k, v)] := by
  induction es with
  | nil => rfl
  | cons e es ih =>
      have greater : compare k e.1 = .gt :=
        Std.OrientedCmp.gt_iff_lt.mpr (above e List.mem_cons_self)
      rw [insertEntry, greater]
      simp only [List.cons_append]
      rw [ih fun f member => above f (List.mem_cons_of_mem e member)]

theorem entries_foldl_insert {es : List (κ × β)} (m : SortedMap κ β)
    (h : (m.entries ++ es).Pairwise fun a b => compare a.1 b.1 = .lt) :
    (es.foldl (fun m e => m.insert e.1 e.2) m).entries = m.entries ++ es := by
  induction es generalizing m with
  | nil => simp
  | cons e es ih =>
      have inserted : (m.insert e.1 e.2).entries = m.entries ++ [e] := by
        refine insertEntry_greatest fun f member => ?_
        exact (List.pairwise_append.mp h).2.2 f member e List.mem_cons_self
      rw [List.foldl_cons, ih, inserted, List.append_assoc]
      · rfl
      · rw [inserted, List.append_assoc]
        exact h

/-- A map is made of ascending entries as they are. -/
theorem entries_ofList {es : List (κ × β)} (h : es.Pairwise fun a b => compare a.1 b.1 = .lt) :
    (ofList es).entries = es :=
  entries_foldl_insert empty h

end SortedMap

namespace Json

section Results

variable {α β : Type}

/-- A chain of readers gives a value when each of its links does. -/
theorem bind_eq_ok_iff {x : Except Fault α} {f : α → Except Fault β} {b : β} :
    (x >>= f) = .ok b ↔ ∃ a, x = .ok a ∧ f a = .ok b := by
  cases x with
  | error e => exact iff_of_false nofun fun ⟨_, same, _⟩ => nomatch same
  | ok a => exact ⟨fun same => ⟨a, rfl, same⟩, fun ⟨_, same, read⟩ => Except.ok.inj same ▸ read⟩

theorem map_eq_ok_iff {x : Except Fault α} {f : α → β} {b : β} :
    x.map f = .ok b ↔ ∃ a, x = .ok a ∧ f a = b := by
  cases x with
  | error e => exact iff_of_false nofun fun ⟨_, same, _⟩ => nomatch same
  | ok a =>
      exact ⟨fun same => ⟨a, rfl, Except.ok.inj same⟩,
        fun ⟨_, same, image⟩ => congrArg Except.ok (Except.ok.inj same ▸ image)⟩

/-- A text is decoded when a value is read off its front and only blanks follow. -/
theorem Format.decode_eq_ok_iff {f : Format α} {text : String} {a : α} :
    f.decode text = .ok a ↔ ∃ t rest, Tree.ofChars text.toList = (t, some rest) ∧
      skipBlanks rest = [] ∧ f.read maxDepth t = .ok a := by
  unfold decode
  obtain ⟨t, rest⟩ := Tree.ofChars text.toList
  simp only [bind_eq_ok_iff]
  constructor
  · rintro ⟨b, read, ending⟩
    split at ending
    next blank =>
      obtain ⟨left, rfl, nothing⟩ := Option.map_eq_some_iff.mp blank
      exact ⟨t, left, rfl, nothing, Except.ok.inj ending ▸ read⟩
    next => contradiction
  · rintro ⟨t, left, same, nothing, read⟩
    obtain ⟨rfl, rfl⟩ := Prod.mk.inj same
    refine ⟨a, read, ?_⟩
    rw [Option.map_some, nothing]

end Results

namespace Tree

theorem plain_record {ms : List (String × Tree)} (h : ∀ m ∈ ms, m.2.Plain) :
    (record ms).Plain := by
  refine ⟨?_, rfl⟩
  induction ms with
  | nil => trivial
  | cons m ms ih =>
      exact ⟨⟨m.1, rfl⟩, h m List.mem_cons_self,
        ih fun n member => h n (List.mem_cons_of_mem m member)⟩

theorem plain_list {ts : List Tree} (h : ∀ t ∈ ts, t.Plain) : (list ts).Plain := by
  refine ⟨?_, rfl⟩
  induction ts with
  | nil => trivial
  | cons t ts ih =>
      exact ⟨h t List.mem_cons_self, ih fun u member => h u (List.mem_cons_of_mem t member)⟩

end Tree

/-- Members as they are read from their text. -/
def spelled (ms : List (String × Tree)) : List (Name × Tree) :=
  ms.map fun m => (.ofString m.1, m.2.reread)

theorem reread_record (ms : List (String × Tree)) :
    (Tree.record ms).reread = .object (spelled ms) true := by
  simp [Tree.record, Tree.reread, Tree.rereadMembers_eq, spelled, Function.comp_def]

namespace Format

variable {α β : Type}

/-- Every value is written as a tree that stands for a value. -/
def WritesPlain (f : Format α) : Prop := ∀ a, (f.write a).Plain

/-- The second value comes back of the first. -/
def Returns (f : Format α) (room : Nat) (a b : α) : Prop := f.read room (f.write a).reread = .ok b

/-- A written value is decoded from what is read of its tree. -/
theorem decode_encode {f : Format α} (plain : f.WritesPlain) (a b : α) :
    f.decode (f.encode a) = .ok b ↔ f.Returns maxDepth a b := by
  rw [decode, encode, Tree.ofChars_text (plain a), Returns]
  change (f.read maxDepth (f.write a).reread >>= fun a => .ok a) = .ok b ↔ _
  cases f.read maxDepth (f.write a).reread <;> exact Iff.rfl

section Leaves

theorem writesPlain_string : string.WritesPlain := fun _ => trivial

@[simp] theorem returns_string {room : Nat} {s t : String} : string.Returns room s t ↔ t = s := by
  simp [Returns, string, Tree.reread, eq_comm]

theorem writesPlain_imap {f : Format α} (h : f.WritesPlain) (of : α → β) (view : β → α) :
    (f.imap of view).WritesPlain :=
  fun b => h (view b)

theorem returns_imap {f : Format α} {of : α → β} {view : β → α} {room : Nat} {x y : β} :
    (f.imap of view).Returns room x y ↔ ∃ b, f.Returns room (view x) b ∧ of b = y := by
  simp only [Returns, imap, map_eq_ok_iff]

theorem writesPlain_count : count.WritesPlain := fun _ => trivial

@[simp] theorem returns_count {room : Nat} {n k : UInt64} : count.Returns room n k ↔ k = n := by
  have bound := n.toNat_lt
  have back : (Number.integer (Int.ofNat n.toNat)).reread =
      .number (.integer (Int.ofNat n.toNat)) := by
    refine Number.reread_integer ?_ ?_
    · simp [minSigned]
    · rw [show maxCount.toNat = 18446744073709551615 from rfl]; simp; omega
  unfold Returns
  simp only [count, below, imap, between, Tree.reread, back]
  rw [if_pos (by simp [UInt64.size]; omega)]
  simp [Except.map, eq_comm]

theorem writesPlain_list {f : Format α} (h : f.WritesPlain) : (list f).WritesPlain := by
  intro as
  refine Tree.plain_list fun t member => ?_
  obtain ⟨a, -, rfl⟩ := List.mem_map.mp member
  exact h a

theorem writesPlain_set : set.WritesPlain :=
  writesPlain_imap (writesPlain_list writesPlain_string) _ _

theorem writesPlain_document : document.WritesPlain := fun d => d.canonical.plain

theorem writesPlain_nullable {f : Format α} (h : f.WritesPlain) : (nullable f).WritesPlain
  | none => trivial
  | some a => h a

end Leaves

section Members

variable {f : Format β}

theorem writesPlain_members (h : f.WritesPlain) : (members f).WritesPlain := by
  intro ms
  refine Tree.plain_record fun m member => ?_
  obtain ⟨n, -, rfl⟩ := List.mem_map.mp member
  exact h n.2

/-- A member comes back under its name. -/
def MemberReturns (f : Format β) (room : Nat) (m n : String × β) : Prop :=
  n.1 = m.1 ∧ f.Returns room m.2 n.2

theorem readMembers_spelled {room : Nat} {ms ns : List (String × β)} :
    readMembers (f.read room) (spelled (ms.map fun m => (m.1, f.write m.2))) = .ok ns ↔
      List.Forall₂ (f.MemberReturns room) ms ns := by
  induction ms generalizing ns with
  | nil => simp [spelled, readMembers, eq_comm]
  | cons m ms ih =>
      change (do
        let b ← f.read room (f.write m.2).reread
        let bs ← readMembers (f.read room)
          (spelled (ms.map fun n : String × β => (n.1, f.write n.2)))
        Except.ok ((m.1, b) :: bs)) = .ok ns ↔ _
      simp only [List.forall₂_cons_left_iff, bind_eq_ok_iff, ih, Except.ok.injEq]
      constructor
      · rintro ⟨b, first, bs, others, rfl⟩
        exact ⟨(m.1, b), bs, ⟨rfl, first⟩, others, rfl⟩
      · rintro ⟨⟨name, b⟩, bs, ⟨rfl, first⟩, others, rfl⟩
        exact ⟨b, first, bs, others, rfl⟩

theorem returns_members {room : Nat} {ms ns : List (String × β)} :
    (members f).Returns (room + 1) ms ns ↔ List.Forall₂ (f.MemberReturns room) ms ns := by
  rw [Returns, ← readMembers_spelled]
  simp only [members, reread_record, bind_eq_ok_iff, if_true, Except.ok.injEq, exists_eq_right]

theorem writesPlain_map (h : f.WritesPlain) : (map f).WritesPlain :=
  writesPlain_imap (writesPlain_members h) _ _

/-- Names that come back are in the same order. -/
theorem names_of_returns {room : Nat} {ms ns : List (String × β)}
    (h : List.Forall₂ (f.MemberReturns room) ms ns) : ns.map Prod.fst = ms.map Prod.fst := by
  induction h with
  | nil => rfl
  | cons first _ ih => rw [List.map_cons, List.map_cons, ih, first.1]

theorem returns_map {room : Nat} {m n : SortedMap String β} :
    (map f).Returns (room + 1) m n ↔
      List.Forall₂ (f.MemberReturns room) m.entries n.entries := by
  rw [map, returns_imap]
  simp only [returns_members]
  constructor
  · rintro ⟨es, back, rfl⟩
    have ascending : es.Pairwise fun a b => compare a.1 b.1 = .lt := by
      have keys : (m.entries.map Prod.fst).Pairwise fun a b => compare a b = .lt :=
        List.pairwise_map.mpr m.ascending
      rw [← names_of_returns back] at keys
      exact List.pairwise_map.mp keys
    rwa [SortedMap.entries_ofList ascending]
  · intro back
    exact ⟨n.entries, back, SortedMap.eq_of_entries (SortedMap.entries_ofList n.ascending)⟩

end Members

end Format

end Json

end ThreatGossip
