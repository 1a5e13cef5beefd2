import ThreatGossip.Proofs.HashTrees
/-!
Comparing two hash trees. On every level the comparison follows places in ascending order and keeps
those whose nodes differ, so no place is reported without cause, whatever the hash is; and where the
hash has no collisions among the pairs of both trees, none that differs is lost on the way down.
-/
namespace ThreatGossip.MerkleTree

variable {hash : List UInt8 → Digest} {as bs : List Digest} {xs ys : List (List UInt8)}

section Descent

variable {places : List Nat} {level : List Digest × List Digest}

theorem mem_descend {i : Nat} : i ∈ descend places level ↔
    i / 2 ∈ places ∧ i < level.1.length ∧ level.1[i]? ≠ level.2[i]? := by
  have child : (∃ p ∈ places, i ∈ [2 * p, 2 * p + 1]) ↔ i / 2 ∈ places := by
    constructor
    · rintro ⟨p, member, below⟩
      have half : i / 2 = p := by
        rcases List.mem_pair.mp below with rfl | rfl <;> omega
      exact half ▸ member
    · exact fun member => ⟨i / 2, member, List.mem_pair.mpr (by omega)⟩
  simp only [descend, List.mem_filter, List.mem_flatMap, child, Bool.and_eq_true,
    decide_eq_true_eq, bne_iff_ne]

theorem ascending_descend (h : places.Pairwise (· < ·)) :
    (descend places level).Pairwise (· < ·) := by
  refine List.Pairwise.filter _ (List.pairwise_flatMap.mpr ⟨fun p _ => ?_, h.imp fun less => ?_⟩)
  · exact List.pairwise_pair.mpr (Nat.lt_succ_self _)
  · intro i below j below'
    rcases List.mem_pair.mp below with rfl | rfl <;>
      rcases List.mem_pair.mp below' with rfl | rfl <;> omega

theorem descend_swap (level : List Digest × List Digest) (same : level.1.length = level.2.length) :
    descend places level.swap = descend places level := by
  refine List.filter_congr fun i _ => ?_
  rw [Prod.fst_swap, Prod.snd_swap, same, bne_comm]

end Descent

section Frontiers

/-- The places that the comparison has come down to on a level. -/
def frontier (hash : List UInt8 → Digest) (as bs : List Digest) : List Nat :=
  ((levelsFrom hash as).zip (levelsFrom hash bs)).dropLast.foldr
    (fun level places => descend places level) [0]

theorem frontier_narrow (narrow : as.length ≤ 1) (narrow' : bs.length ≤ 1) :
    frontier hash as bs = [0] := by
  rw [frontier, levelsFrom_narrow narrow, levelsFrom_narrow narrow']
  rfl

theorem frontier_wide (wide : ¬as.length ≤ 1) (wide' : ¬bs.length ≤ 1) :
    frontier hash as bs =
      descend (frontier hash (parents hash as) (parents hash bs)) (as, bs) := by
  have more : (levelsFrom hash (parents hash as)).zip (levelsFrom hash (parents hash bs)) ≠ [] := by
    rw [Ne, List.zip_eq_nil_iff, not_or]
    exact ⟨levelsFrom_ne_nil, levelsFrom_ne_nil⟩
  rw [frontier, levelsFrom_wide wide, levelsFrom_wide wide', List.zip_cons_cons,
    List.dropLast_cons_of_ne_nil more]
  rfl

theorem length_parents_eq (same : as.length = bs.length) :
    (parents hash as).length = (parents hash bs).length := by
  rw [length_parents, length_parents, same]

theorem ascending_frontier (same : as.length = bs.length) :
    (frontier hash as bs).Pairwise (· < ·) := by
  induction as using levelsFrom.induct hash generalizing bs with
  | case1 as narrow =>
      rw [frontier_narrow narrow (same ▸ narrow)]
      exact List.pairwise_singleton _ _
  | case2 as wide ih =>
      rw [frontier_wide wide (same ▸ wide)]
      exact ascending_descend (ih (length_parents_eq same))

theorem frontier_comm (same : as.length = bs.length) :
    frontier hash as bs = frontier hash bs as := by
  induction as using levelsFrom.induct hash generalizing bs with
  | case1 as narrow =>
      rw [frontier_narrow narrow (same ▸ narrow), frontier_narrow (same ▸ narrow) narrow]
  | case2 as wide ih =>
      rw [frontier_wide wide (same ▸ wide), frontier_wide (same ▸ wide) wide,
        ih (length_parents_eq same)]
      exact descend_swap (bs, as) same.symm

end Frontiers

section Collisions

/-- Where two pairs agree, so do the nodes that they are made of. -/
theorem children_eq : ∀ {as bs : List Digest} (i : Nat), as.length = bs.length →
    (pairs as)[i / 2]? = (pairs bs)[i / 2]? → as[i]? = bs[i]?
  | [], [], _, _, _ => rfl
  | [a], [b], i, _, h => by
    match i with
    | 0 => exact congrArg some (Digest.append_inj (Option.some.inj h)).1
    | i + 1 => rfl
  | a :: b :: as, c :: d :: bs, i, same, h => by
    match i with
    | 0 => exact congrArg some (Digest.append_inj (Option.some.inj h)).1
    | 1 => exact congrArg some (Digest.append_inj (Option.some.inj h)).2
    | i + 2 =>
      rw [show (i + 2) / 2 = i / 2 + 1 by omega] at h
      exact children_eq i (Nat.succ.inj (Nat.succ.inj same)) h

section Injective

variable {S : List UInt8 → Prop} (clear : ∀ x y, S x → S y → hash x = hash y → x = y)

include clear

/-- Where two parents agree, so do their children. -/
theorem children_eq_of_parents {i : Nat} (same : as.length = bs.length)
    (left : ∀ x ∈ pairs as, S x) (right : ∀ x ∈ pairs bs, S x)
    (h : (parents hash as)[i / 2]? = (parents hash bs)[i / 2]?) : as[i]? = bs[i]? := by
  refine children_eq i same ?_
  rw [parents_eq_map, parents_eq_map, List.getElem?_map, List.getElem?_map] at h
  cases first : (pairs as)[i / 2]? with
  | none =>
      rw [first, Option.map_none, eq_comm, Option.map_eq_none_iff] at h
      exact h.symm
  | some x =>
      rw [first, Option.map_some, eq_comm, Option.map_eq_some_iff] at h
      obtain ⟨y, second, collide⟩ := h
      have inside := right y (List.mem_of_getElem? second)
      rw [second, clear x y (left x (List.mem_of_getElem? first)) inside collide.symm]

/-- No place that differs is lost on the way down. -/
theorem mem_frontier (same : as.length = bs.length)
    (left : ∀ x ∈ (levelsFrom hash as).dropLast.flatMap pairs, S x)
    (right : ∀ x ∈ (levelsFrom hash bs).dropLast.flatMap pairs, S x) {i : Nat}
    (inside : i < as.length) (differ : as[i]? ≠ bs[i]?) : i ∈ frontier hash as bs := by
  induction as using levelsFrom.induct hash generalizing bs i with
  | case1 as narrow =>
      rw [frontier_narrow narrow (same ▸ narrow)]
      exact List.mem_singleton.mpr (by omega)
  | case2 as wide ih =>
      have wide' : ¬bs.length ≤ 1 := same ▸ wide
      rw [frontier_wide wide wide']
      rw [pairs_levelsFrom wide, List.forall_mem_append] at left
      rw [pairs_levelsFrom wide', List.forall_mem_append] at right
      -- the parents of a place that differs differ too, or they would collide
      refine mem_descend.mpr ⟨?_, inside, differ⟩
      refine ih (length_parents_eq same) left.2 right.2 ?_ fun h => ?_
      · rw [length_parents]
        omega
      · exact differ (children_eq_of_parents clear same left.1 right.1 h)

/-- Levels of one width with one root above them are the same. -/
theorem eq_of_getLast? (same : as.length = bs.length)
    (left : ∀ x ∈ (levelsFrom hash as).dropLast.flatMap pairs, S x)
    (right : ∀ x ∈ (levelsFrom hash bs).dropLast.flatMap pairs, S x)
    (top : (levelsFrom hash as).getLast? = (levelsFrom hash bs).getLast?) : as = bs := by
  induction as using levelsFrom.induct hash generalizing bs with
  | case1 as narrow =>
      rw [levelsFrom_narrow narrow, levelsFrom_narrow (same ▸ narrow)] at top
      exact Option.some.inj top
  | case2 as wide ih =>
      have wide' : ¬bs.length ≤ 1 := same ▸ wide
      rw [pairs_levelsFrom wide, List.forall_mem_append] at left
      rw [pairs_levelsFrom wide', List.forall_mem_append] at right
      rw [levelsFrom_wide wide, levelsFrom_wide wide',
        List.getLast?_cons_of_ne_nil levelsFrom_ne_nil,
        List.getLast?_cons_of_ne_nil levelsFrom_ne_nil] at top
      have above := ih (length_parents_eq same) left.2 right.2 top
      exact List.ext_getElem? fun i =>
        children_eq_of_parents clear same left.1 right.1 (by rw [above])

end Injective

end Collisions

section Reports

/-- A place on the frontier differs: it is the only place, or it was looked at. -/
theorem differ_of_mem_frontier (same : as.length = bs.length)
    (apart : (levelsFrom hash as).getLast? ≠ (levelsFrom hash bs).getLast?) {i : Nat}
    (reported : i ∈ frontier hash as bs) : i < as.length ∧ as[i]? ≠ bs[i]? := by
  by_cases narrow : as.length ≤ 1
  · rw [frontier_narrow narrow (same ▸ narrow)] at reported
    obtain rfl := List.mem_singleton.mp reported
    rw [levelsFrom_narrow narrow, levelsFrom_narrow (same ▸ narrow)] at apart
    match as, bs with
    | [], [] => exact absurd rfl apart
    | [a], [b] => exact ⟨Nat.one_pos, fun h => apart (by rw [Option.some.inj h])⟩
  · rw [frontier_wide narrow (same ▸ narrow)] at reported
    exact (mem_descend.mp reported).2

theorem length_leaves : (build hash xs).leaves.length = xs.length := by
  rw [leaves_build, List.length_map]

theorem diff_of_length_ne (h : xs.length ≠ ys.length) :
    (build hash xs).diff (build hash ys) = List.range (max xs.length ys.length) := by
  rw [diff, length_leaves, length_leaves, if_pos h]

theorem diff_of_root_eq (same : xs.length = ys.length)
    (root : (build hash xs).root = (build hash ys).root) :
    (build hash xs).diff (build hash ys) = [] := by
  rw [diff, length_leaves, length_leaves, if_neg (not_not_intro same), if_pos root]

/-- Lists of one length with different roots have blocks. -/
theorem ne_nil_of_root_ne (same : xs.length = ys.length)
    (root : (build hash xs).root ≠ (build hash ys).root) : xs ≠ [] ∧ ys ≠ [] := by
  have either : xs = [] ∨ ys = [] → xs = [] ∧ ys = [] := by
    rintro (rfl | rfl)
    · exact ⟨rfl, List.length_eq_zero_iff.mp same.symm⟩
    · exact ⟨List.length_eq_zero_iff.mp same, rfl⟩
  rw [← not_or]
  intro none
  obtain ⟨rfl, rfl⟩ := either none
  exact root rfl

theorem diff_of_root_ne (same : xs.length = ys.length)
    (root : (build hash xs).root ≠ (build hash ys).root) :
    (build hash xs).diff (build hash ys) = frontier hash (xs.map hash) (ys.map hash) := by
  obtain ⟨left, right⟩ := ne_nil_of_root_ne same root
  rw [diff, length_leaves, length_leaves, if_neg (not_not_intro same), if_neg root,
    levels_build left, levels_build right, List.foldl_reverse, frontier]

end Reports

section Accesses

/-- Whether two levels differ at a place that the first one has; nothing where the second one lacks
it. -/
def differs? (level : List Digest × List Digest) (i : Nat) : Option Bool :=
  if i < level.1.length then do some ((← level.1[i]?) != (← level.2[i]?)) else some false

/-- `descend` with every access checked. -/
def descend? (places : List Nat) (level : List Digest × List Digest) : Option (List Nat) :=
  (places.flatMap fun i => [2 * i, 2 * i + 1]).filterM (differs? level)

/-- `diff` with every access checked: nothing where there is no level below the root's, no level of
some depth in one of the trees, or no node of some place on it. -/
def diff? (a b : MerkleTree) : Option (List Nat) :=
  if a.leaves.length ≠ b.leaves.length then
    some (List.range (max a.leaves.length b.leaves.length))
  else if a.root = b.root then some []
  else if a.levels.length = 0 then none
  else (List.range (a.levels.length - 1)).reverse.foldlM (fun places depth => do
    descend? places (← a.levels[depth]?, ← b.levels[depth]?)) [0]

theorem filterM_eq_some {α : Type} {f : α → Option Bool} {p : α → Bool} {l : List α}
    (h : ∀ a ∈ l, f a = some (p a)) : l.filterM f = some (l.filter p) := by
  have go : ∀ (l kept : List α), (∀ a ∈ l, f a = some (p a)) →
      List.filterAuxM f l kept = some ((l.filter p).reverse ++ kept) := by
    intro l
    induction l with
    | nil => exact fun kept _ => rfl
    | cons a l ih =>
        intro kept h
        obtain ⟨first, rest⟩ := List.forall_mem_cons.mp h
        rw [List.filterAuxM, first, Option.bind_eq_bind, Option.bind_some, ih _ rest]
        cases decided : p a <;> simp [decided]
  rw [List.filterM, go l [] h]
  simp

theorem descend?_eq {places : List Nat} {level : List Digest × List Digest}
    (same : level.1.length = level.2.length) :
    descend? places level = some (descend places level) := by
  refine filterM_eq_some fun i _ => ?_
  by_cases inside : i < level.1.length
  · simp [differs?, inside, same ▸ inside, bne]
  · simp [differs?, inside]

theorem foldlM_eq_some {α β : Type} {g : β → α → Option β} {f : β → α → β} {l : List α}
    (h : ∀ a ∈ l, ∀ b, g b a = some (f b a)) (b : β) : l.foldlM g b = some (l.foldl f b) := by
  induction l generalizing b with
  | nil => rfl
  | cons a l ih =>
      obtain ⟨first, rest⟩ := List.forall_mem_cons.mp h
      rw [List.foldlM_cons, first, Option.bind_eq_bind, Option.bind_some, ih rest, List.foldl_cons]

/-- The levels of two trees at one depth, for every depth below the roots. -/
theorem map_range_levels {α : Type} {as bs : List α} (same : as.length = bs.length) :
    ((List.range (as.length - 1)).map fun depth => do some (← as[depth]?, ← bs[depth]?)) =
      (as.zip bs).dropLast.map some := by
  refine List.ext_getElem (by simp [same]) fun depth inside _ => ?_
  simp only [List.length_map, List.length_range] at inside
  have left : depth < as.length := by omega
  have right : depth < bs.length := by omega
  simp [left, right]

/-- Trees of one width have levels of one width. -/
theorem length_eq_of_mem_zip (hash : List UInt8 → Digest) (same : as.length = bs.length) :
    (levelsFrom hash as).length = (levelsFrom hash bs).length ∧
      ∀ level ∈ (levelsFrom hash as).zip (levelsFrom hash bs), level.1.length = level.2.length := by
  induction as using levelsFrom.induct hash generalizing bs with
  | case1 as narrow =>
      rw [levelsFrom_narrow narrow, levelsFrom_narrow (same ▸ narrow)]
      exact ⟨rfl, List.forall_mem_singleton.mpr same⟩
  | case2 as wide ih =>
      have wide' : ¬bs.length ≤ 1 := same ▸ wide
      obtain ⟨count, widths⟩ := ih (length_parents_eq same)
      rw [levelsFrom_wide wide, levelsFrom_wide wide']
      exact ⟨congrArg (· + 1) count, List.forall_mem_cons.mpr ⟨same, widths⟩⟩

/-- The comparison never looks at a level or at a node that is not there. -/
theorem diff?_eq_some : (build hash xs).diff? (build hash ys) =
    some ((build hash xs).diff (build hash ys)) := by
  unfold diff? diff
  split
  next => rfl
  next same =>
  rw [not_not, length_leaves, length_leaves] at same
  split
  next => rfl
  next root =>
  obtain ⟨left, right⟩ := ne_nil_of_root_ne same root
  have width : (xs.map hash).length = (ys.map hash).length := by
    rw [List.length_map, List.length_map, same]
  obtain ⟨count, widths⟩ := length_eq_of_mem_zip hash width
  rw [levels_build left, levels_build right]
  rw [if_neg (mt List.length_eq_zero_iff.mp levelsFrom_ne_nil)]
  have paired : ∀ (places : List Nat) (depth : Nat), (do
      descend? places (← (levelsFrom hash (xs.map hash))[depth]?,
        ← (levelsFrom hash (ys.map hash))[depth]?)) =
      (do some (← (levelsFrom hash (xs.map hash))[depth]?,
        ← (levelsFrom hash (ys.map hash))[depth]?)) >>= descend? places := by
    intro places depth
    cases (levelsFrom hash (xs.map hash))[depth]? with
    | none => rfl
    | some level => cases (levelsFrom hash (ys.map hash))[depth]? <;> rfl
  simp only [paired]
  rw [← List.foldlM_map (g := fun places level? => level? >>= descend? places), List.map_reverse,
    map_range_levels count, ← List.map_reverse, List.foldlM_map]
  refine foldlM_eq_some (fun level member places => ?_) [0]
  exact descend?_eq (widths level (List.mem_of_mem_dropLast (List.mem_reverse.mp member)))

end Accesses

/-- Building a tree ends with levels whose widths halve, rounded up, from the number of blocks to
one. Comparing two trees looks at no level and no node that is not there, gives the same places
either way round, and gives them in strictly ascending order: for lists of different lengths all
places of the longer one, for lists of one length only places whose leaves differ, and all of these
where the hash has no collisions among the pairs of both trees. -/
theorem diff_exact (hash : List UInt8 → Digest) (xs ys : List (List UInt8)) :
    Halving xs.length ((build hash xs).levels.map List.length) ∧
    (build hash xs).diff? (build hash ys) = some ((build hash xs).diff (build hash ys)) ∧
    (build hash xs).diff (build hash ys) = (build hash ys).diff (build hash xs) ∧
    ((build hash xs).diff (build hash ys)).Pairwise (· < ·) ∧
    (xs.length ≠ ys.length →
      (build hash xs).diff (build hash ys) = List.range (max xs.length ys.length)) ∧
    (xs.length = ys.length →
      (∀ i ∈ (build hash xs).diff (build hash ys), i < xs.length ∧
        (build hash xs).leaves[i]? ≠ (build hash ys).leaves[i]?) ∧
      ((∀ x ∈ (build hash xs).joined ++ (build hash ys).joined,
          ∀ y ∈ (build hash xs).joined ++ (build hash ys).joined, hash x = hash y → x = y) →
        ∀ i < xs.length, (build hash xs).leaves[i]? ≠ (build hash ys).leaves[i]? →
          i ∈ (build hash xs).diff (build hash ys))) := by
  have width (same : xs.length = ys.length) : (xs.map hash).length = (ys.map hash).length := by
    rw [List.length_map, List.length_map, same]
  refine ⟨halving_levels, diff?_eq_some, ?_, ?_, diff_of_length_ne, fun same => ⟨?_, ?_⟩⟩
  · by_cases same : xs.length = ys.length
    · by_cases root : (build hash xs).root = (build hash ys).root
      · rw [diff_of_root_eq same root, diff_of_root_eq same.symm root.symm]
      · rw [diff_of_root_ne same root, diff_of_root_ne same.symm (Ne.symm root),
          frontier_comm (width same)]
    · rw [diff_of_length_ne same, diff_of_length_ne (Ne.symm same), Nat.max_comm]
  · by_cases same : xs.length = ys.length
    · by_cases root : (build hash xs).root = (build hash ys).root
      · rw [diff_of_root_eq same root]
        exact .nil
      · rw [diff_of_root_ne same root]
        exact ascending_frontier (width same)
    · rw [diff_of_length_ne same]
      exact List.pairwise_lt_range
  · intro i reported
    by_cases root : (build hash xs).root = (build hash ys).root
    · rw [diff_of_root_eq same root] at reported
      contradiction
    · rw [diff_of_root_ne same root] at reported
      obtain ⟨left, right⟩ := ne_nil_of_root_ne same root
      rw [leaves_build, leaves_build, ← List.length_map (f := hash)]
      refine differ_of_mem_frontier (width same) (fun top => root ?_) reported
      rw [MerkleTree.root, MerkleTree.root, levels_build left, levels_build right, top]
  · intro clear i inside differ
    rw [leaves_build, leaves_build] at differ
    have some_left : xs ≠ [] := List.length_pos_iff.mp (Nat.zero_lt_of_lt inside)
    have some_right : ys ≠ [] := List.length_pos_iff.mp (same ▸ Nat.zero_lt_of_lt inside)
    rw [joined, joined, levels_build some_left, levels_build some_right] at clear
    have clear := fun x y listed => clear x listed y
    by_cases root : (build hash xs).root = (build hash ys).root
    · refine absurd ?_ differ
      have top : (levelsFrom hash (xs.map hash)).getLast? =
          (levelsFrom hash (ys.map hash)).getLast? := by
        rw [← levels_build some_left, ← levels_build some_right, getLast?_levels_build some_left,
          getLast?_levels_build some_right, root]
      rw [eq_of_getLast? clear (width same) (fun x => List.mem_append_left _)
        (fun x => List.mem_append_right _) top]
    · rw [diff_of_root_ne same root]
      refine mem_frontier clear (width same) (fun x => List.mem_append_left _)
        (fun x => List.mem_append_right _) ?_ differ
      rwa [List.length_map]

/-- The second and the last of five blocks differ, under a checksum of one byte. -/
theorem changed_blocks_reported :
    let hash : List UInt8 → Digest := fun block =>
      ⟨List.replicate 31 0 ++ [block.foldl (fun sum byte => 3 * sum + byte + 1) 0], rfl⟩
    let a := build hash [[1], [2], [3], [4], [5]]
    let b := build hash [[1], [7], [3], [4], [9]]
    (∀ x ∈ a.joined ++ b.joined, ∀ y ∈ a.joined ++ b.joined, hash x = hash y → x = y) ∧
      1 ∈ a.diff b ∧ 4 ∈ a.diff b := by
  intro hash a b
  have clear : ∀ x ∈ a.joined ++ b.joined, ∀ y ∈ a.joined ++ b.joined, hash x = hash y → x = y := by
    unfold a b hash
    decide +kernel
  have differ : a.leaves[1]? ≠ b.leaves[1]? ∧ a.leaves[4]? ≠ b.leaves[4]? := by
    unfold a b hash
    decide +kernel
  obtain ⟨-, -, -, -, -, one_length⟩ :=
    diff_exact hash [[1], [2], [3], [4], [5]] [[1], [7], [3], [4], [9]]
  obtain ⟨-, reported⟩ := one_length rfl
  exact ⟨clear, reported clear 1 (by decide) differ.1, reported clear 4 (by decide) differ.2⟩

end ThreatGossip.MerkleTree
