import Mathlib.Data.List.Chain
import Mathlib.Data.List.Infix
import Mathlib.Data.List.Nodup
import ThreatGossip.Merkle
/-!
What the levels of a hash tree say about its blocks. Widths halve from one level to the next. Where
the hash has no collisions among the byte strings that it is given, the levels of a tree without
repeated blocks are free of repeats, so the last node of an odd level cannot be taken for a pair;
two such trees with one root then agree level by level, and end together unless a block is a pair.
-/
namespace ThreatGossip

namespace Digest

theorem bytes_inj {a b : Digest} (h : a.bytes = b.bytes) : a = b := by
  cases a
  cases b
  cases h
  rfl

theorem append_inj {a b c d : Digest} (h : a.bytes ++ b.bytes = c.bytes ++ d.bytes) :
    a = c ∧ b = d := by
  obtain ⟨left, right⟩ := List.append_inj h (a.length_eq.trans c.length_eq.symm)
  exact ⟨bytes_inj left, bytes_inj right⟩

end Digest

namespace MerkleTree

variable {hash : List UInt8 → Digest} {level : List Digest} {blocks xs ys : List (List UInt8)}

section Pairs

/-- The byte strings whose hashes are the parents of a level. -/
def pairs : List Digest → List (List UInt8)
  | left :: right :: rest => (left.bytes ++ right.bytes) :: pairs rest
  | [last] => [last.bytes ++ last.bytes]
  | [] => []

theorem parents_eq_map : ∀ level : List Digest, parents hash level = (pairs level).map hash
  | left :: right :: rest => congrArg (hash (left.bytes ++ right.bytes) :: ·) (parents_eq_map rest)
  | [_] => rfl
  | [] => rfl

theorem left_mem_of_mem_pairs {left right : Digest} :
    ∀ {level : List Digest}, left.bytes ++ right.bytes ∈ pairs level → left ∈ level
  | [], member => nomatch member
  | [last], member => by
    rw [(Digest.append_inj (List.mem_singleton.mp member)).1]
    exact List.mem_cons_self
  | l :: r :: rest, member => by
    rcases List.mem_cons.mp member with same | later
    · rw [(Digest.append_inj same).1]
      exact List.mem_cons_self
    · exact List.mem_cons_of_mem l (List.mem_cons_of_mem r (left_mem_of_mem_pairs later))

theorem nodup_pairs : ∀ {level : List Digest}, level.Nodup → (pairs level).Nodup
  | [], _ => List.nodup_nil
  | [_], _ => List.nodup_singleton _
  | left :: right :: rest, h => by
    obtain ⟨fresh, others⟩ := List.nodup_cons.mp h
    refine List.nodup_cons.mpr ⟨fun member => ?_, nodup_pairs (List.nodup_cons.mp others).2⟩
    exact fresh (List.mem_cons_of_mem right (left_mem_of_mem_pairs member))

/-- Without repeats a level is known by its pairs: a last node that is its own partner cannot be
taken for two nodes. -/
theorem pairs_inj : ∀ {as bs : List Digest}, as.Nodup → bs.Nodup → pairs as = pairs bs → as = bs
  | [], [], _, _, _ => rfl
  | [], [_], _, _, h | [], _ :: _ :: _, _, _, h => nomatch h
  | [_], [], _, _, h | _ :: _ :: _, [], _, _, h => nomatch h
  | [a], [b], _, _, h => by rw [(Digest.append_inj (List.cons.inj h).1).1]
  | [a], b :: c :: bs, _, distinct, h => by
    obtain ⟨rfl, rfl⟩ := Digest.append_inj (List.cons.inj h).1
    exact absurd List.mem_cons_self (List.nodup_cons.mp distinct).1
  | a :: b :: as, [c], distinct, _, h => by
    obtain ⟨rfl, rfl⟩ := Digest.append_inj (List.cons.inj h).1
    exact absurd List.mem_cons_self (List.nodup_cons.mp distinct).1
  | a :: b :: as, c :: d :: bs, distinct, distinct', h => by
    obtain ⟨first, rest⟩ := List.cons.inj h
    obtain ⟨rfl, rfl⟩ := Digest.append_inj first
    rw [pairs_inj (List.nodup_cons.mp (List.nodup_cons.mp distinct).2).2
      (List.nodup_cons.mp (List.nodup_cons.mp distinct').2).2 rest]

end Pairs

section Levels

theorem levelsFrom_narrow (narrow : level.length ≤ 1) : levelsFrom hash level = [level] := by
  rw [levelsFrom, if_pos narrow]

theorem levelsFrom_wide (wide : ¬level.length ≤ 1) :
    levelsFrom hash level = level :: levelsFrom hash (parents hash level) := by
  rw [levelsFrom, if_neg wide]

theorem head?_levelsFrom : (levelsFrom hash level).head? = some level := by
  rw [levelsFrom]
  split <;> rfl

/-- Every level above the leaves holds the parents of the one below it. -/
theorem isChain_levelsFrom : (levelsFrom hash level).IsChain fun lower upper =>
    1 < lower.length ∧ upper = parents hash lower := by
  fun_induction levelsFrom hash level with
  | case1 level _ => exact .singleton level
  | case2 level wide ih =>
      refine List.isChain_cons.mpr ⟨fun upper head => ?_, ih⟩
      rw [head?_levelsFrom, Option.mem_def] at head
      exact ⟨Nat.lt_of_not_le wide, (Option.some.inj head).symm⟩

theorem levelsFrom_ne_nil : levelsFrom hash level ≠ [] := by
  rw [levelsFrom]
  split <;> exact List.cons_ne_nil _ _

/-- From a wide level up its own pairs are hashed, and those above it. -/
theorem pairs_levelsFrom (wide : ¬level.length ≤ 1) :
    (levelsFrom hash level).dropLast.flatMap pairs =
      pairs level ++ (levelsFrom hash (parents hash level)).dropLast.flatMap pairs := by
  rw [levelsFrom_wide wide, List.dropLast_cons_of_ne_nil levelsFrom_ne_nil, List.flatMap_cons]

/-- A level above the leaves holds the parents of one that is below the root. -/
theorem exists_lower_of_mem_tail : ∀ l ∈ (levelsFrom hash level).tail,
    ∃ lower ∈ (levelsFrom hash level).dropLast, l = parents hash lower := by
  fun_induction levelsFrom hash level with
  | case1 => exact fun l member => nomatch member
  | case2 level wide ih =>
      rw [List.dropLast_cons_of_ne_nil levelsFrom_ne_nil, List.tail_cons]
      intro l member
      rw [← List.cons_head?_tail head?_levelsFrom] at member
      rcases List.mem_cons.mp member with rfl | later
      · exact ⟨level, List.mem_cons_self, rfl⟩
      · obtain ⟨lower, listed, same⟩ := ih l later
        exact ⟨lower, List.mem_cons_of_mem level listed, same⟩

theorem getLast?_levelsFrom (hash : List UInt8 → Digest) (h : level ≠ []) :
    ∃ top, (levelsFrom hash level).getLast? = some [top] := by
  fun_induction levelsFrom hash level with
  | case1 level narrow =>
      have one : level.length = 1 := Nat.le_antisymm narrow (List.length_pos_iff.mpr h)
      obtain ⟨top, rfl⟩ := List.length_eq_one_iff.mp one
      exact ⟨top, rfl⟩
  | case2 level wide ih =>
      obtain ⟨top, last⟩ := ih fun none => by
        have length := length_parents hash level
        rw [none, List.length_nil] at length
        omega
      exact ⟨top, by rw [List.getLast?_cons, last, Option.getD_some]⟩

theorem levels_build (h : blocks ≠ []) :
    (build hash blocks).levels = levelsFrom hash (blocks.map hash) := by
  rw [build, if_neg (by rwa [List.isEmpty_iff])]

theorem leaves_build : (build hash blocks).leaves = blocks.map hash := by
  cases blocks with
  | nil => rfl
  | cons x xs =>
      rw [leaves, levels_build (List.cons_ne_nil x xs), head?_levelsFrom]
      rfl

/-- The root of a tree with blocks is the one node of its last level. -/
theorem getLast?_levels_build (h : blocks ≠ []) :
    (build hash blocks).levels.getLast? = some [(build hash blocks).root] := by
  have some_left : blocks.map hash ≠ [] := mt List.map_eq_nil_iff.mp h
  obtain ⟨top, last⟩ := getLast?_levelsFrom hash some_left
  rw [root, levels_build h, last]
  rfl

/-- Widths that halve, rounded up, from the first one down to one; none at all for no blocks. -/
structure Halving (first : Nat) (widths : List Nat) : Prop where
  begins : widths.head?.getD 0 = first
  halves : widths.IsChain fun below above => 1 < below ∧ above = (below + 1) / 2
  ends : ∀ last ∈ widths.getLast?, last = 1

theorem halving_levels : Halving blocks.length ((build hash blocks).levels.map List.length) := by
  by_cases none : blocks = []
  · subst none
    exact ⟨rfl, .nil, nofun⟩
  · refine ⟨?_, ?_, ?_⟩
    · rw [levels_build none, List.head?_map, head?_levelsFrom, Option.map_some, Option.getD_some,
        List.length_map]
    · rw [levels_build none, List.isChain_map]
      refine isChain_levelsFrom.imp fun lower upper ⟨wide, above⟩ => ⟨wide, ?_⟩
      rw [above, length_parents]
    · rw [List.getLast?_map, getLast?_levels_build none]
      rintro last ⟨⟩
      rfl

end Levels

section Binding

/-- The byte strings whose hashes are the nodes above the leaves. -/
def joined (t : MerkleTree) : List (List UInt8) := t.levels.dropLast.flatMap pairs

/-- All byte strings that are hashed while a tree is built. -/
def hashed (hash : List UInt8 → Digest) (blocks : List (List UInt8)) : List (List UInt8) :=
  blocks ++ (build hash blocks).joined

/-- What sets two lists of blocks apart under a hash: no two byte strings that are hashed for them
have one hash, none has the hash that stands for no blocks, and no block is a pair of digests that
is hashed for a parent. -/
structure Separates (hash : List UInt8 → Digest) (xs ys : List (List UInt8)) : Prop where
  injective : ∀ x ∈ hashed hash xs ++ hashed hash ys, ∀ y ∈ hashed hash xs ++ hashed hash ys,
    hash x = hash y → x = y
  nonzero : ∀ x ∈ hashed hash xs ++ hashed hash ys, hash x ≠ .zero
  apart : ∀ x ∈ xs ++ ys, x ∉ (build hash xs).joined ++ (build hash ys).joined

instance : Decidable (Separates hash xs ys) :=
  decidable_of_iff (_ ∧ _ ∧ _) ⟨fun ⟨injective, nonzero, apart⟩ => ⟨injective, nonzero, apart⟩,
    fun h => ⟨h.injective, h.nonzero, h.apart⟩⟩

theorem Separates.symm (h : Separates hash xs ys) : Separates hash ys xs := by
  have either {α : Type} {as bs : List α} {a : α} (member : a ∈ as ++ bs) : a ∈ bs ++ as :=
    List.perm_append_comm.mem_iff.mp member
  exact ⟨fun x listed y listed' => h.injective x (either listed) y (either listed'),
    fun x listed => h.nonzero x (either listed),
    fun x listed inside => h.apart x (either listed) (either inside)⟩

/-- A tree of one block hashes nothing else. -/
theorem hashed_singleton (x : List UInt8) : hashed hash [x] = [x] := by
  have narrow : ([x].map hash).length ≤ 1 := Nat.le_refl 1
  rw [hashed, joined, levels_build (List.cons_ne_nil x []), levelsFrom_narrow narrow]
  rfl

theorem separates_singleton {x : List UInt8} (nonzero : hash x ≠ .zero) :
    Separates hash [x] [x] := by
  have only : ∀ y ∈ hashed hash [x] ++ hashed hash [x], y = x := by
    rw [hashed_singleton]
    exact fun y listed => (List.mem_pair.mp listed).elim id id
  have joined : (build hash [x]).joined = [] := List.append_cancel_left (hashed_singleton x)
  refine ⟨fun y listed z listed' _ => (only y listed).trans (only z listed').symm,
    fun y listed => only y listed ▸ nonzero, fun y _ => ?_⟩
  rw [joined]
  exact List.not_mem_nil

theorem map_inj_of_inj {α β : Type} {f : α → β} : ∀ {as bs : List α},
    (∀ a ∈ as, ∀ b ∈ bs, f a = f b → a = b) → as.map f = bs.map f → as = bs
  | [], [], _, _ => rfl
  | [], _ :: _, _, h | _ :: _, [], _, h => nomatch h
  | a :: as, b :: bs, inj, h => by
    obtain ⟨first, rest⟩ := List.cons.inj h
    rw [inj a List.mem_cons_self b List.mem_cons_self first,
      map_inj_of_inj (fun c listed d listed' => inj c (List.mem_cons_of_mem a listed) d
        (List.mem_cons_of_mem b listed')) rest]

/-- Where each item has one successor, two chains with one head go along together until one of them
ends. -/
theorem prefix_or_prefix_of_isChain {α : Type} {R : α → α → Prop}
    (single : ∀ a b c, R a b → R a c → b = c) : ∀ {as bs : List α},
      as.IsChain R → bs.IsChain R → as.head? = bs.head? → as <+: bs ∨ bs <+: as
  | [], _, _, _, _ => .inl List.nil_prefix
  | _, [], _, _, _ => .inr List.nil_prefix
  | [a], b :: bs, _, _, same => by
    obtain rfl := Option.some.inj same
    exact .inl ⟨bs, rfl⟩
  | a :: as, [b], _, _, same => by
    obtain rfl := Option.some.inj same
    exact .inr ⟨as, rfl⟩
  | a :: a' :: as, b :: b' :: bs, left, right, same => by
    obtain rfl := Option.some.inj same
    obtain ⟨step, left⟩ := List.isChain_cons_cons.mp left
    obtain ⟨step', right⟩ := List.isChain_cons_cons.mp right
    have next : a' = b' := single a a' b' step step'
    refine (prefix_or_prefix_of_isChain single left right (congrArg some next)).imp ?_ ?_
    · exact (List.prefix_cons_inj a).mpr
    · exact (List.prefix_cons_inj a).mpr

/-- A level whose pairs are among the byte strings `S` holds no node twice, and stands below another
one. -/
structure Below (hash : List UInt8 → Digest) (S : List UInt8 → Prop) (lower upper : List Digest) :
    Prop where
  distinct : lower.Nodup
  within : ∀ x ∈ pairs lower, S x
  made : upper = parents hash lower

section Collisions

variable {S : List UInt8 → Prop} (clear : ∀ x y, S x → S y → hash x = hash y → x = y)

include clear

theorem Below.unique {upper a b : List Digest} (ha : Below hash S a upper)
    (hb : Below hash S b upper) : a = b := by
  have same : (pairs a).map hash = (pairs b).map hash := by
    rw [← parents_eq_map, ← parents_eq_map, ← ha.made, ← hb.made]
  refine pairs_inj ha.distinct hb.distinct (map_inj_of_inj (fun x listed y listed' => ?_) same)
  exact clear x y (ha.within x listed) (hb.within y listed')

/-- Blocks without repeats have levels without repeats, where the hash has no collisions. -/
theorem isChain_below (distinct : level.Nodup)
    (within : ∀ x ∈ (levelsFrom hash level).dropLast.flatMap pairs, S x) :
    (levelsFrom hash level).IsChain (Below hash S) := by
  induction level using levelsFrom.induct hash with
  | case1 level narrow =>
      rw [levelsFrom_narrow narrow]
      exact .singleton level
  | case2 level wide ih =>
      rw [pairs_levelsFrom wide, List.forall_mem_append] at within
      obtain ⟨first, others⟩ := within
      rw [levelsFrom_wide wide]
      -- distinct nodes make distinct pairs, and these have distinct hashes
      have above : (parents hash level).Nodup := by
        rw [parents_eq_map]
        exact (nodup_pairs distinct).map_on fun x listed y listed' =>
          clear x y (first x listed) (first y listed')
      refine List.isChain_cons.mpr ⟨fun upper head => ?_, ih above others⟩
      rw [head?_levelsFrom] at head
      exact ⟨distinct, first, (Option.some.inj head).symm⟩

end Collisions

theorem isChain_build {S : List UInt8 → Prop} (clear : ∀ x y, S x → S y → hash x = hash y → x = y)
    (some_left : blocks ≠ []) (distinct : blocks.Nodup) (within : ∀ x ∈ hashed hash blocks, S x) :
    (build hash blocks).levels.IsChain (Below hash S) := by
  obtain ⟨leaves, inside⟩ := List.forall_mem_append.mp within
  rw [joined] at inside
  rw [levels_build some_left] at inside ⊢
  exact isChain_below clear (distinct.map_on fun x listed y listed' =>
    clear x y (leaves x listed) (leaves y listed')) inside

/-- A root above some blocks is the hash of something. -/
theorem exists_hash_eq_root (hash : List UInt8 → Digest) (some_left : blocks ≠ []) :
    ∃ x ∈ hashed hash blocks, (build hash blocks).root = hash x := by
  have top : [(build hash blocks).root] ∈ levelsFrom hash (blocks.map hash) := by
    rw [← levels_build some_left]
    exact List.mem_of_getLast? (getLast?_levels_build some_left)
  rw [← List.cons_head?_tail head?_levelsFrom] at top
  have within : ∃ bs : List (List UInt8), (∀ x ∈ bs, x ∈ hashed hash blocks) ∧
      [(build hash blocks).root] = bs.map hash := by
    rcases List.mem_cons.mp top with same | above
    · exact ⟨blocks, fun x => List.mem_append_left _, same⟩
    · obtain ⟨lower, listed, same⟩ := exists_lower_of_mem_tail _ above
      refine ⟨pairs lower, fun x member => List.mem_append_right _ ?_, same.trans ?_⟩
      · rw [joined, levels_build some_left]
        exact List.mem_flatMap.mpr ⟨lower, listed, member⟩
      · exact parents_eq_map lower
  obtain ⟨bs, within, same⟩ := within
  obtain ⟨x, member, root⟩ := List.mem_map.mp (same ▸ List.mem_singleton_self _)
  exact ⟨x, within x member, root.symm⟩

namespace Separates

variable (h : Separates hash xs ys)

include h

/-- Two trees with one root have the same levels, counted from the root, as far as both reach. -/
theorem levels_suffix (distinct : xs.Nodup) (distinct' : ys.Nodup) (some_left : xs ≠ [])
    (some_right : ys ≠ []) (same : (build hash xs).root = (build hash ys).root) :
    (build hash xs).levels <:+ (build hash ys).levels ∨
      (build hash ys).levels <:+ (build hash xs).levels := by
  have clear : ∀ x y, x ∈ hashed hash xs ++ hashed hash ys → y ∈ hashed hash xs ++ hashed hash ys →
      hash x = hash y → x = y := fun x y listed => h.injective x listed y
  have left := isChain_build clear some_left distinct fun x => List.mem_append_left _
  have right := isChain_build clear some_right distinct' fun x => List.mem_append_right _
  have top : (build hash xs).levels.reverse.head? = (build hash ys).levels.reverse.head? := by
    rw [List.head?_reverse, List.head?_reverse, getLast?_levels_build some_left,
      getLast?_levels_build some_right, same]
  -- from the root down each level has one that can stand below it
  rw [← List.reverse_prefix, ← List.reverse_prefix]
  exact prefix_or_prefix_of_isChain (fun a b c below below' => below.unique clear below')
    (List.isChain_reverse.mpr left) (List.isChain_reverse.mpr right) top

theorem eq_of_leaves (same : xs.map hash = ys.map hash) : xs = ys := by
  refine map_inj_of_inj (fun x listed y listed' => h.injective x ?_ y ?_) same
  · exact List.mem_append_left _ (List.mem_append_left _ listed)
  · exact List.mem_append_right _ (List.mem_append_left _ listed')

/-- The leaves of one tree are no level above the leaves of the other: a block would be a pair. -/
theorem leaves_not_above (some_left : xs ≠ []) (some_right : ys ≠ []) :
    xs.map hash ∉ (build hash ys).levels.tail := by
  intro above
  rw [levels_build some_right] at above
  obtain ⟨lower, listed, same⟩ := exists_lower_of_mem_tail _ above
  obtain ⟨x, rest, rfl⟩ := List.exists_cons_of_ne_nil some_left
  have shape : hash x ∈ (pairs lower).map hash := by
    rw [← parents_eq_map, ← same]
    exact List.mem_cons_self
  obtain ⟨pair, member, collide⟩ := List.mem_map.mp shape
  have inside : pair ∈ (build hash ys).joined := by
    rw [joined, levels_build some_right]
    exact List.mem_flatMap.mpr ⟨lower, listed, member⟩
  have block : x ∈ (x :: rest) ++ ys := List.mem_append_left _ List.mem_cons_self
  have same : pair = x := by
    refine h.injective pair ?_ x ?_ collide
    · exact List.mem_append_right _ (List.mem_append_right ys inside)
    · exact List.mem_append_left _ (List.mem_append_left _ List.mem_cons_self)
  exact h.apart x block (List.mem_append_right _ (same ▸ inside))

theorem eq_of_levels_suffix (some_left : xs ≠ []) (some_right : ys ≠ [])
    (part : (build hash xs).levels <:+ (build hash ys).levels) : xs = ys := by
  obtain ⟨lowest, split⟩ := part
  cases lowest with
  | nil =>
      refine h.eq_of_leaves ?_
      rw [← leaves_build, ← leaves_build, leaves, leaves, ← split, List.nil_append]
  | cons level lowest =>
      refine absurd ?_ (h.leaves_not_above some_left some_right)
      rw [← split, List.cons_append, List.tail_cons]
      refine List.mem_append_right _ (List.mem_of_mem_head? ?_)
      rw [levels_build some_left, head?_levelsFrom]
      rfl

/-- A list of blocks without repeats is known by the root above it. -/
theorem eq_of_root (distinct : xs.Nodup) (distinct' : ys.Nodup)
    (same : (build hash xs).root = (build hash ys).root) : xs = ys := by
  by_cases left : xs = []
  · by_cases right : ys = []
    · rw [left, right]
    · obtain ⟨x, listed, root⟩ := exists_hash_eq_root hash right
      rw [left, root] at same
      exact absurd same.symm (h.nonzero x (List.mem_append_right _ listed))
  · by_cases right : ys = []
    · obtain ⟨x, listed, root⟩ := exists_hash_eq_root hash left
      rw [right, root] at same
      exact absurd same (h.nonzero x (List.mem_append_left _ listed))
    · rcases h.levels_suffix distinct distinct' left right same with part | part
      · exact h.eq_of_levels_suffix left right part
      · exact (h.symm.eq_of_levels_suffix right left part).symm

end Separates

end Binding

end MerkleTree

end ThreatGossip
