import Mathlib.Algebra.GroupWithZero.Nat
import ThreatGossip.Proofs.AddWins
import ThreatGossip.Proofs.Digests
import ThreatGossip.Proofs.Json.Numerals
/-!
Tags of rules. A tag is read from its end: the time is what follows the last dash and the random
value what stands between the last two, so a tag tells its node, whatever the node is called. Rules
that are added at different nodes therefore never share a tag, and a removal takes away an insertion
of another node only if it knew one of that very node. Additions win as soon as each node by itself
uses no tag twice.
-/
namespace ThreatGossip

/-- A text is split in one way only at a separator that does not come again: were one front the
longer, the tail of the other would hold its separator. -/
theorem eq_of_append_last {α : Type} {a : α} {r r' : List α} (h : a ∉ r) (h' : a ∉ r') :
    ∀ {l l' : List α}, l ++ a :: r = l' ++ a :: r' → l = l' ∧ r = r'
  | [], [], same => ⟨rfl, (List.cons.inj same).2⟩
  | [], _ :: l', same =>
    absurd ((List.cons.inj same).2 ▸ List.mem_append_right l' List.mem_cons_self) h
  | _ :: l, [], same =>
    absurd ((List.cons.inj same).2 ▸ List.mem_append_right l List.mem_cons_self) h'
  | x :: l, y :: l', same => by
    obtain ⟨rfl, rest⟩ := List.cons.inj same
    obtain ⟨rfl, rfl⟩ := eq_of_append_last h h' rest
    exact ⟨rfl, rfl⟩

namespace Sha256

/-- The lowest byte stands last. -/
theorem bigEndian_succ (count n : Nat) :
    bigEndian (count + 1) n = bigEndian count (n / 256) ++ [UInt8.ofNat n] := by
  unfold bigEndian
  rw [List.range_succ, List.map_append, List.map_singleton]
  congr 1
  · refine List.map_congr_left fun i inside => ?_
    have below := List.mem_range.mp inside
    have place : count + 1 - 1 - i = count - 1 - i + 1 := by omega
    rw [place, Nat.div_div_eq_div_mul, Nat.pow_eq, Nat.pow_eq, Nat.pow_succ']
  · simp

/-- Numbers with one row of bytes are the same, if they fit in it. -/
theorem bigEndian_inj {count m n : Nat} (hm : m < 256 ^ count) (hn : n < 256 ^ count)
    (same : bigEndian count m = bigEndian count n) : m = n := by
  induction count generalizing m n with
  | zero => omega
  | succ count ih =>
      rw [bigEndian_succ, bigEndian_succ] at same
      obtain ⟨high, low⟩ := List.append_inj' same rfl
      have high := ih (by rw [Nat.pow_succ] at hm; omega) (by rw [Nat.pow_succ] at hn; omega) high
      have low := congrArg UInt8.toNat (List.singleton_inj.mp low)
      simp only [UInt8.toNat_ofNat'] at low
      omega

end Sha256

/-- Hexadecimal digits are no dashes. -/
theorem Hex.dash_notMem_encode (bytes : List UInt8) : '-' ∉ (encode bytes).toList := by
  have digit : ∀ n < 16, '-' ≠ Json.hexDigit n := by decide
  rw [Hex.encode, String.toList_ofList, List.mem_flatMap]
  rintro ⟨b, -, member⟩
  simp [digit _ (Http.Encoding.high_lt b), digit _ (Http.Encoding.low_lt b)] at member

namespace Node

variable {id id' : NodeId} {nonce nonce' : UInt64} {nanos nanos' : Nat}

theorem toList_mintTag (id : NodeId) (nonce : UInt64) (nanos : Nat) :
    (mintTag id nonce nanos).toList = (id.toList ++ '-' ::
      (Hex.encode (Sha256.bigEndian 8 nonce.toNat)).toList) ++ '-' :: Nat.toDigits 10 nanos := by
  unfold mintTag
  simp [Nat.repr]

theorem dash_notMem_toDigits (n : Nat) : '-' ∉ Nat.toDigits 10 n := fun member =>
  absurd ((Json.Number.digits_toDigits n).2 '-' member) (by decide)

theorem mintTag_inj (same : mintTag id nonce nanos = mintTag id' nonce' nanos') :
    id = id' ∧ nonce = nonce' ∧ nanos = nanos' := by
  have texts := congrArg String.toList same
  rw [toList_mintTag, toList_mintTag] at texts
  -- The name may hold dashes, and is what is left once the two parts without any are split off.
  obtain ⟨front, digits⟩ := eq_of_append_last (dash_notMem_toDigits nanos)
    (dash_notMem_toDigits nanos') texts
  obtain ⟨names, values⟩ := eq_of_append_last (Hex.dash_notMem_encode _)
    (Hex.dash_notMem_encode _) front
  have bytes := Hex.encode_inj (String.toList_inj.mp values)
  have values := Sha256.bigEndian_inj nonce.toNat_lt nonce'.toNat_lt bytes
  have times : nanos = nanos' := calc
    nanos = Nat.ofDigitChars 10 (Nat.toDigits 10 nanos) 0 := Nat.ofDigitChars_ten_toDigits.symm
    _ = Nat.ofDigitChars 10 (Nat.toDigits 10 nanos') 0 := by rw [digits]
    _ = nanos' := Nat.ofDigitChars_ten_toDigits
  exact ⟨String.toList_inj.mp names, UInt64.toNat_inj.mp values, times⟩

end Node

namespace ObservedSet

open StateBased

instance {side : SortedMap String (SortedSet String)} {item tag : String} :
    Decidable (Bears side item tag) :=
  inferInstanceAs (Decidable ((tagsIn side item).contains tag = true))

/-- Whatever is inserted at a site stands under a tag that the node of the site has minted. -/
def Minted {ι : Type} (name : ι → NodeId) (log : List (Edit ι (Operation String))) : Prop :=
  ∀ e ∈ log, ∀ rule tag, e.operation = .insert rule tag →
    ∃ nonce nanos, tag = Node.mintTag (name e.site) nonce nanos

section Minted

variable {ι : Type} {name : ι → NodeId} {log : List (Edit ι (Operation String))}
  {e f : Edit ι (Operation String)} {rule other tag : String}

/-- Insertions under one tag are of one node. -/
theorem Minted.name_eq (h : Minted name log) (he : e ∈ log) (hf : f ∈ log)
    (inserts : e.operation = .insert rule tag) (inserts' : f.operation = .insert other tag) :
    name f.site = name e.site := by
  obtain ⟨nonce, nanos, minted⟩ := h e he rule tag inserts
  obtain ⟨nonce', nanos', minted'⟩ := h f hf other tag inserts'
  exact (Node.mintTag_inj (minted'.symm.trans minted)).1

/-- Tags are unique as soon as each node by itself uses none twice. -/
theorem Minted.tagsUnique_iff (h : Minted name log) :
    TagsUnique log ↔ ∀ id, TagsUnique (log.filter fun e => name e.site = id) := by
  constructor
  · intro unique id e he f hf
    exact unique e (List.mem_filter.mp he).1 f (List.mem_filter.mp hf).1
  · intro unique e he f hf rule tag inserts inserts'
    have own : e ∈ log.filter fun g => name g.site = name e.site := by simp [he]
    have same : f ∈ log.filter fun g => name g.site = name e.site := by
      simp [hf, h.name_eq he hf inserts inserts']
    exact unique (name e.site) e own f same rule tag inserts inserts'

variable [DecidableEq ι] {c : Config ι (ObservedSet String) (Operation String)}
  {copy : Replica ι (ObservedSet String) (Operation String)}

/-- An insertion is removed by those who knew it, or knew one that its own node made under the same
tag. -/
theorem Minted.bears_removed_iff (h : Minted name c.log) (run : (design ι String).Reachable c)
    (member : copy ∈ c.copies) (he : e ∈ c.log) (inserts : e.operation = .insert rule tag) :
    Bears copy.state.removed rule tag ↔ ∃ r ∈ copy.history, r.operation = .erase rule ∧
      ∃ f ∈ c.log, name f.site = name e.site ∧ f.operation = .insert rule tag ∧
        f.serial ∈ r.knew := by
  rw [(Records.of_run run copy member).removed]
  refine exists_congr fun r => and_congr_right fun _ => and_congr_right fun _ => ?_
  refine exists_congr fun f => and_congr_right fun hf => ?_
  exact ⟨fun known => ⟨h.name_eq he hf inserts known.1, known⟩, And.right⟩

/-- What a set holds is what survives, where nodes mint their tags and none uses one twice. -/
theorem Minted.contains_iff (h : Minted name c.log)
    (own : ∀ id, TagsUnique (c.log.filter fun e => name e.site = id))
    (run : (design ι String).Reachable c) (member : copy ∈ c.copies) (rule : String) :
    copy.state.contains rule = true ↔ Survives copy.history rule := by
  have unique := h.tagsUnique_iff.mpr own
  exact (Records.of_run run copy member).contains_iff run.invariant member unique rule

end Minted

/-- All insertions of a rule that a set knows were made by nodes other than this one. -/
def Foreign (s : ObservedSet String) (rule : String) (id : NodeId) : Prop :=
  ∀ tag, Bears s.added rule tag →
    ∃ other nonce nanos, other ≠ id ∧ tag = Node.mintTag other nonce nanos

/-- To remove what others inserted takes away nothing that this node did. -/
theorem Foreign.bears_removed_iff {n : Node} {rule : String} {id : NodeId}
    (h : Foreign n.rules rule id) (item : String) (nonce : UInt64) (nanos : Nat) :
    Bears (n.removeRule rule).rules.removed item (Node.mintTag id nonce nanos) ↔
      Bears n.rules.removed item (Node.mintTag id nonce nanos) := by
  change Bears (n.rules.erase rule).removed item _ ↔ Bears n.rules.removed item _
  rw [bears_erase, or_iff_right]
  rintro ⟨-, known⟩
  obtain ⟨other, nonce', nanos', differs, minted⟩ := h _ known
  exact differs (Node.mintTag_inj minted).1.symm

/-- A tag tells the node, the random value and the time that it was minted from, whatever the node
is called. So a node that removes a rule which only others have inserted, as far as it knows, takes
away no insertion of one who is not among them; and in every run of sets, insertions at different
nodes never share a tag, and an insertion is removed only by who knew it, or knew one of the same
node under the same tag. -/
theorem minted_tags_identify_mints :
    (∀ (id id' : NodeId) (nonce nonce' : UInt64) (nanos nanos' : Nat),
      Node.mintTag id nonce nanos = Node.mintTag id' nonce' nanos' ↔
        id = id' ∧ nonce = nonce' ∧ nanos = nanos') ∧
    (∀ (n : Node) (rule item : String) (id : NodeId) (nonce : UInt64) (nanos : Nat),
      Foreign n.rules rule id →
        (Bears (n.removeRule rule).rules.removed item (Node.mintTag id nonce nanos) ↔
          Bears n.rules.removed item (Node.mintTag id nonce nanos))) ∧
    ∀ {ι : Type} [DecidableEq ι] (name : ι → NodeId)
      (c : Config ι (ObservedSet String) (Operation String)),
      (design ι String).Reachable c → Minted name c.log →
        ∀ e ∈ c.log, ∀ rule tag, e.operation = .insert rule tag →
          (∀ f ∈ c.log, ∀ other, f.operation = .insert other tag → name f.site = name e.site) ∧
          ∀ copy ∈ c.copies, Bears copy.state.removed rule tag ↔
            ∃ r ∈ copy.history, r.operation = .erase rule ∧ ∃ f ∈ c.log,
              name f.site = name e.site ∧ f.operation = .insert rule tag ∧ f.serial ∈ r.knew := by
  refine ⟨fun id id' nonce nonce' nanos nanos' => ⟨Node.mintTag_inj, ?_⟩,
    fun n rule item id nonce nanos foreign => foreign.bears_removed_iff item nonce nanos,
    fun name c run minted e he rule tag inserts => ⟨fun f hf other inserts' => ?_,
      fun copy member => minted.bears_removed_iff run member he inserts⟩⟩
  · rintro ⟨rfl, rfl, rfl⟩
    rfl
  · exact minted.name_eq he hf inserts inserts'

/-- The tags that two nodes have minted, of which the second begins like the first. -/
def alikeTag : Bool → String
  | true => "n-0000000000000001-5"
  | false => "n-0000000000000001-5-0000000000000002-6"

/-- The second node is called like a tag of the first. -/
def alikeName : Bool → NodeId
  | true => "n"
  | false => alikeTag true

/-- Both nodes insert a rule, the first removes its own, and the second takes that in. -/
def alikeRun : Config Bool (ObservedSet String) (Operation String) :=
  let D := design Bool String
  let added := D.record D.initial true (.insert "r" (alikeTag true))
  let both := D.record added false (.insert "r" (alikeTag false))
  let removed := D.record both true (.erase "r")
  removed.become false (D.merged (removed.replicas false) (removed.replicas true))

theorem alikeTag_eq : alikeTag true = Node.mintTag (alikeName true) 1 5 ∧
    alikeTag false = Node.mintTag (alikeName false) 2 6 := by
  decide +kernel

theorem reachable_alikeRun : (design Bool String).Reachable alikeRun := by
  have added := Design.Reachable.initial.perform (D := design Bool String) true
    (.insert "r" (alikeTag true))
  have both := added.perform false (.insert "r" (alikeTag false))
  have removed := both.perform true (.erase "r")
  exact removed.merge false (removed.invariant.present true)

theorem minted_alikeRun : Minted alikeName alikeRun.log := by
  intro e listed rule tag inserts
  rcases listed with _ | ⟨_, _ | ⟨_, _ | ⟨_, listed⟩⟩⟩
  · nomatch inserts
  · cases inserts
    exact ⟨2, 6, alikeTag_eq.2⟩
  · cases inserts
    exact ⟨1, 5, alikeTag_eq.1⟩
  · nomatch listed

/-- What the first node inserts is foreign to the second. -/
theorem foreign_alikeTag :
    Foreign ((Node.empty "n").addRule "r" (alikeTag true)).rules "r" (alikeName false) := by
  intro tag known
  rcases bears_insert.mp known with ⟨-, rfl⟩ | known
  · exact ⟨"n", 1, 5, by decide, alikeTag_eq.1⟩
  · nomatch known

theorem alike_names_stay_apart :
    Foreign ((Node.empty "n").addRule "r" (alikeTag true)).rules "r" (alikeName false) ∧
    ¬Bears (((Node.empty "n").addRule "r" (alikeTag true)).removeRule "r").rules.removed "r"
      (alikeTag false) ∧
    (design Bool String).Reachable alikeRun ∧ Minted alikeName alikeRun.log ∧
    (∃ r ∈ (alikeRun.replicas false).history, r.operation = .erase "r" ∧ ∃ f ∈ alikeRun.log,
      alikeName f.site = "n" ∧ f.operation = .insert "r" (alikeTag true) ∧ f.serial ∈ r.knew) ∧
    ¬∃ r ∈ (alikeRun.replicas false).history, r.operation = .erase "r" ∧ ∃ f ∈ alikeRun.log,
      alikeName f.site = alikeTag true ∧ f.operation = .insert "r" (alikeTag false) ∧
        f.serial ∈ r.knew := by
  have spared := minted_tags_identify_mints.2.1 _ "r" "r" _ 2 6 foreign_alikeTag
  rw [← alikeTag_eq.2] at spared
  have present := reachable_alikeRun.invariant.present false
  have tells := minted_tags_identify_mints.2.2 alikeName alikeRun reachable_alikeRun minted_alikeRun
  have first := (tells _ (.tail _ (.tail _ (.head _))) "r" (alikeTag true) rfl).2 _ present
  have second := (tells _ (.tail _ (.head _)) "r" (alikeTag false) rfl).2 _ present
  have removed : Bears (alikeRun.replicas false).state.removed "r" (alikeTag true) := by decide
  have kept : ¬Bears (alikeRun.replicas false).state.removed "r" (alikeTag false) := by decide
  exact ⟨foreign_alikeTag, fun borne => (nomatch spared.mp borne), reachable_alikeRun,
    minted_alikeRun, first.mp removed, fun known => kept (second.mpr known)⟩

end ObservedSet

end ThreatGossip
