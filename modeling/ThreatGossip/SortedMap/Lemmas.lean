import ThreatGossip.SortedMap.Basic
/-!
Look-ups after each operation on `SortedMap`, and extensionality: maps with equal look-ups are
equal. Later modules reason about maps through `get?` alone, and about sets through `contains`.
-/
namespace ThreatGossip.SortedMap

variable {κ β γ : Type} [Ord κ]

theorem eq_of_entries {a b : SortedMap κ β} (h : a.entries = b.entries) : a = b := by
  cases a; cases b; simp_all

@[simp] theorem get?_empty (k : κ) : (empty : SortedMap κ β).get? k = none := rfl

@[simp] theorem contains_empty (k : κ) : (empty : SortedMap κ β).contains k = false := rfl

theorem contains_iff {m : SortedMap κ β} {k : κ} : m.contains k = true ↔ ∃ v, m.get? k = some v :=
  Option.isSome_iff_exists

theorem lookUp_eq_none_of_ne {k : κ} {es : List (κ × β)} (h : ∀ e ∈ es, compare k e.1 ≠ .eq) :
    lookUp k es = none := by
  induction es with
  | nil => rfl
  | cons e rest ih =>
    rw [lookUp, if_neg (h e (by simp)), ih fun f hf => h f (List.mem_cons_of_mem _ hf)]

theorem lookUp_eq_none_of_lt {k : κ} {es : List (κ × β)} (h : ∀ e ∈ es, compare k e.1 = .lt) :
    lookUp k es = none :=
  lookUp_eq_none_of_ne fun e he => by rw [h e he]; decide

/-- What holds of all old values and of the new one holds after an insertion. -/
theorem forall_values_insertEntry {P : β → Prop} {join : β → β → β} {k : κ} {v : β}
    {es : List (κ × β)} (hes : ∀ e ∈ es, P e.2) (hv : P v) (hjoin : ∀ w, P w → P (join w v)) :
    ∀ e ∈ insertEntry join k v es, P e.2 := by
  induction es with
  | nil => simpa [insertEntry] using hv
  | cons f rest ih =>
    obtain ⟨l, w⟩ := f
    have hw : P w := hes (l, w) (by simp)
    have hrest : ∀ e ∈ rest, P e.2 := fun e he => hes e (List.mem_cons_of_mem _ he)
    intro e he
    rw [insertEntry] at he
    split at he
    · rcases List.mem_cons.mp he with rfl | he
      · exact hv
      · exact hes e he
    · rcases List.mem_cons.mp he with rfl | he
      · exact hjoin w hw
      · exact hrest e he
    · rcases List.mem_cons.mp he with rfl | he
      · exact hw
      · exact ih hrest e he

section Ordered

variable [Std.TransOrd κ]

/-- What holds of every listed value holds of every value of the map. -/
theorem forall_values_ofList {P : β → Prop} {es : List (κ × β)} (h : ∀ e ∈ es, P e.2) :
    ∀ e ∈ (ofList es).entries, P e.2 := by
  have go : ∀ (fs : List (κ × β)) (m : SortedMap κ β), (∀ e ∈ m.entries, P e.2) →
      (∀ e ∈ fs, P e.2) →
      ∀ e ∈ (fs.foldl (fun m e => m.insert e.1 e.2) m).entries, P e.2 := by
    intro fs
    induction fs with
    | nil => exact fun _ hm _ => hm
    | cons f rest ih =>
      intro m hm hfs
      exact ih _ (forall_values_insertEntry hm (hfs f (by simp)) fun _ _ => hfs f (by simp))
        fun e he => hfs e (List.mem_cons_of_mem _ he)
  exact go es empty (by simp [empty]) h

/-- What holds of every listed key holds of every key of the map. -/
theorem forall_keys_ofList {P : κ → Prop} {es : List (κ × β)} (h : ∀ e ∈ es, P e.1) :
    ∀ e ∈ (ofList es).entries, P e.1 := by
  have go : ∀ (fs : List (κ × β)) (m : SortedMap κ β), (∀ e ∈ m.entries, P e.1) →
      (∀ e ∈ fs, P e.1) →
      ∀ e ∈ (fs.foldl (fun m e => m.insert e.1 e.2) m).entries, P e.1 := by
    intro fs
    induction fs with
    | nil => exact fun _ hm _ => hm
    | cons f rest ih =>
      intro m hm hfs
      refine ih _ (fun e he => ?_) fun e he => hfs e (List.mem_cons_of_mem _ he)
      rcases mem_insertEntry he with same | ⟨g, hg, same⟩
      · exact same ▸ hfs f List.mem_cons_self
      · exact same ▸ hm g hg
  exact go es empty (by simp [empty]) h

end Ordered

variable [Std.LawfulEqOrd κ]

@[simp] theorem get?_mapValues (f : κ → β → γ) (m : SortedMap κ β) (k : κ) :
    (m.mapValues f).get? k = (m.get? k).map (f k) := by
  have go : ∀ es : List (κ × β),
      lookUp k (es.map fun e => (e.1, f e.1 e.2)) = (lookUp k es).map (f k) := by
    intro es
    induction es with
    | nil => rfl
    | cons e rest ih =>
      by_cases hk : k = e.1
      · subst hk; simp [lookUp]
      · have hc : compare k e.1 ≠ .eq := by simpa [Std.LawfulEqCmp.compare_eq_iff_eq] using hk
        simp [lookUp, hc, ih]
  exact go m.entries

theorem lookUp_eq_some_iff {k : κ} {v : β} {es : List (κ × β)}
    (h : es.Pairwise fun a b => compare a.1 b.1 = .lt) :
    lookUp k es = some v ↔ (k, v) ∈ es := by
  induction es with
  | nil => simp [lookUp]
  | cons e rest ih =>
    obtain ⟨l, w⟩ := e
    rw [List.pairwise_cons] at h
    by_cases hk : k = l
    · subst hk
      have hnot : (k, v) ∉ rest := fun hmem => by
        have := h.1 _ hmem
        simp at this
      simp [lookUp, hnot, eq_comm]
    · have hc : compare k l ≠ .eq := by simpa [Std.LawfulEqCmp.compare_eq_iff_eq] using hk
      simp [lookUp, hc, hk, ih h.2]

/-- Look-ups find exactly the entries. -/
theorem get?_eq_some_iff {m : SortedMap κ β} {k : κ} {v : β} :
    m.get? k = some v ↔ (k, v) ∈ m.entries :=
  lookUp_eq_some_iff m.ascending

theorem nodup_keys (m : SortedMap κ β) : m.keys.Nodup := by
  apply List.pairwise_map.mpr
  apply m.ascending.imp
  intro e f before same
  rw [same, Std.ReflOrd.compare_self] at before
  contradiction

theorem mem_keys_iff {m : SortedMap κ β} {k : κ} : k ∈ m.keys ↔ m.contains k = true := by
  simp only [contains_iff, get?_eq_some_iff, keys, List.mem_map]
  constructor
  · rintro ⟨⟨l, v⟩, listed, rfl⟩
    exact ⟨v, listed⟩
  · rintro ⟨v, listed⟩
    exact ⟨(k, v), listed, rfl⟩

theorem lookUp_filter (p : κ → β → Bool) (k : κ) {es : List (κ × β)}
    (h : es.Pairwise fun a b => compare a.1 b.1 = .lt) :
    lookUp k (es.filter fun e => p e.1 e.2) = (lookUp k es).filter (p k) := by
  induction es with
  | nil => rfl
  | cons e rest ih =>
    obtain ⟨l, w⟩ := e
    rw [List.pairwise_cons] at h
    by_cases hk : k = l
    · subst hk
      have hnone : lookUp k (rest.filter fun e => p e.1 e.2) = none :=
        lookUp_eq_none_of_lt fun f hf => h.1 f (List.mem_filter.mp hf).1
      by_cases hp : p k w <;>
        simp [lookUp, hp, hnone, Option.filter]
    · have hc : compare k l ≠ .eq := by simpa [Std.LawfulEqCmp.compare_eq_iff_eq] using hk
      by_cases hp : p l w <;> simp [lookUp, hc, hp, ih h.2]

@[simp] theorem get?_filter (p : κ → β → Bool) (m : SortedMap κ β) (k : κ) :
    (m.filter p).get? k = (m.get? k).filter (p k) :=
  lookUp_filter p k m.ascending

variable [DecidableEq κ]

@[simp] theorem get?_erase (m : SortedMap κ β) (j k : κ) :
    (m.erase k).get? j = if j = k then none else m.get? j := by
  rw [erase, get?_filter]
  by_cases hjk : j = k
  · subst hjk
    cases m.get? j <;> simp [Option.filter]
  · have hc : compare k j ≠ .eq := by
      simpa [Std.LawfulEqCmp.compare_eq_iff_eq] using Ne.symm hjk
    cases m.get? j <;> simp [Option.filter, hc, hjk]

variable [Std.TransOrd κ]

theorem lookUp_insertEntry (join : β → β → β) (j k : κ) (v : β) {es : List (κ × β)}
    (h : es.Pairwise fun a b => compare a.1 b.1 = .lt) :
    lookUp j (insertEntry join k v es) =
      if j = k then some (match lookUp k es with | some w => join w v | none => v)
      else lookUp j es := by
  induction es with
  | nil => simp [insertEntry, lookUp, Std.LawfulEqCmp.compare_eq_iff_eq]
  | cons f rest ih =>
    obtain ⟨l, w⟩ := f
    rw [List.pairwise_cons] at h
    rw [insertEntry]
    split
    next hc =>
      have hk : lookUp k ((l, w) :: rest) = none := by
        refine lookUp_eq_none_of_lt fun e he => ?_
        rcases List.mem_cons.mp he with rfl | he
        · exact hc
        · exact Std.TransCmp.lt_trans hc (h.1 e he)
      rw [lookUp, hk]
      simp [Std.LawfulEqCmp.compare_eq_iff_eq]
    next hc =>
      rw [Std.LawfulEqCmp.compare_eq_iff_eq] at hc
      subst hc
      simp [lookUp, Std.LawfulEqCmp.compare_eq_iff_eq]
      split <;> simp_all
    next hc =>
      have hne : k ≠ l := by rintro rfl; simp at hc
      rw [lookUp, ih h.2]
      simp only [lookUp, Std.LawfulEqCmp.compare_eq_iff_eq, if_neg hne]
      split <;> split <;> simp_all

@[simp] theorem get?_insertWith (join : β → β → β) (m : SortedMap κ β) (j k : κ) (v : β) :
    (m.insertWith join k v).get? j =
      if j = k then some (match m.get? k with | some w => join w v | none => v)
      else m.get? j :=
  lookUp_insertEntry join j k v m.ascending

@[simp] theorem get?_insert (m : SortedMap κ β) (j k : κ) (v : β) :
    (m.insert k v).get? j = if j = k then some v else m.get? j := by
  rw [insert, get?_insertWith]
  split
  · split <;> rfl
  · rfl

/-- Both maps' values where both have one, and otherwise the one there is. -/
@[simp] theorem get?_unionWith (join : β → β → β) (a b : SortedMap κ β) (k : κ) :
    (a.unionWith join b).get? k =
      match a.get? k, b.get? k with
      | some x, some y => some (join x y)
      | some x, none => some x
      | none, y => y := by
  have go : ∀ (es : List (κ × β)) (m : SortedMap κ β),
      (es.Pairwise fun a b => compare a.1 b.1 = .lt) →
      (es.foldl (fun m e => m.insertWith join e.1 e.2) m).get? k =
        match m.get? k, lookUp k es with
        | some x, some y => some (join x y)
        | some x, none => some x
        | none, y => y := by
    intro es
    induction es with
    | nil => intro m _; simp only [List.foldl_nil, lookUp]; cases m.get? k <;> rfl
    | cons e rest ih =>
      intro m h
      rw [List.pairwise_cons] at h
      rw [List.foldl_cons, ih _ h.2, get?_insertWith]
      by_cases hk : k = e.1
      · have hnone : lookUp k rest = none := lookUp_eq_none_of_lt (hk ▸ h.1)
        subst hk
        simp only [if_pos, hnone, lookUp, Std.LawfulEqCmp.compare_eq_iff_eq]
        cases m.get? e.1 <;> rfl
      · have hc : compare k e.1 ≠ .eq := by simpa [Std.LawfulEqCmp.compare_eq_iff_eq] using hk
        simp only [if_neg hk, lookUp, if_neg hc]
  exact go b.entries a b.ascending

theorem eq_of_get? {a b : SortedMap κ β} (h : ∀ k, a.get? k = b.get? k) : a = b := by
  have go : ∀ (xs ys : List (κ × β)), (xs.Pairwise fun a b => compare a.1 b.1 = .lt) →
      (ys.Pairwise fun a b => compare a.1 b.1 = .lt) →
      (∀ k, lookUp k xs = lookUp k ys) → xs = ys := by
    intro xs
    induction xs with
    | nil =>
      intro ys _ _ h
      cases ys with
      | nil => rfl
      | cons y ys => have := h y.1; simp [lookUp] at this
    | cons x xs ih =>
      intro ys hx hy h
      cases ys with
      | nil => have := h x.1; simp [lookUp] at this
      | cons y ys =>
        rw [List.pairwise_cons] at hx hy
        have hxy : x.1 = y.1 := by
          have h1 : (x.1, x.2) ∈ y :: ys :=
            (lookUp_eq_some_iff (List.pairwise_cons.mpr hy)).mp (by rw [← h]; simp [lookUp])
          have h2 : (y.1, y.2) ∈ x :: xs :=
            (lookUp_eq_some_iff (List.pairwise_cons.mpr hx)).mp (by rw [h]; simp [lookUp])
          rcases List.mem_cons.mp h1 with h1 | h1
          · rw [← h1]
          · rcases List.mem_cons.mp h2 with h2 | h2
            · rw [← h2]
            · have := Std.TransCmp.lt_trans (hx.1 _ h2) (hy.1 _ h1)
              simp at this
        have hv : x.2 = y.2 := by simpa [lookUp, hxy] using h x.1
        have hrest : xs = ys := by
          refine ih ys hx.2 hy.2 fun k => ?_
          by_cases hk : k = x.1
          · rw [lookUp_eq_none_of_lt (k := k) (hk ▸ hx.1),
              lookUp_eq_none_of_lt (k := k) (hk ▸ hxy ▸ hy.1)]
          · have hc : compare k x.1 ≠ .eq := by simpa [Std.LawfulEqCmp.compare_eq_iff_eq] using hk
            have hc' : compare k y.1 ≠ .eq := hxy ▸ hc
            simpa [lookUp, hc, hc'] using h k
        rw [hrest, Prod.ext hxy hv]
  exact eq_of_entries (go _ _ a.ascending b.ascending h)

theorem insert_insert (m : SortedMap κ β) (k : κ) (v w : β) :
    (m.insert k v).insert k w = m.insert k w := by
  apply eq_of_get?
  intro j
  simp only [get?_insert]
  split <;> rfl

section Counts

theorem filter_count (v : Option UInt64) :
    v.filter (0 < ·) = if 0 < v.getD 0 then some (v.getD 0) else none := by
  cases v <;> simp [Option.filter]

theorem getD_filter_count (v : Option UInt64) : (v.filter (0 < ·)).getD 0 = v.getD 0 := by
  rw [filter_count]
  split
  next => rfl
  next zero => exact (UInt64.le_zero_iff.mp (UInt64.not_lt.mp zero)).symm

/-- Maps list the same counts above zero when they count alike under every key. -/
theorem positive_entries_eq_iff {a b : SortedMap κ UInt64} :
    a.entries.filter (0 < ·.2) = b.entries.filter (0 < ·.2) ↔
      ∀ k, (a.get? k).getD 0 = (b.get? k).getD 0 := by
  have kept (m : SortedMap κ UInt64) (k : κ) :
      (m.filter fun _ n => 0 < n).get? k = (m.get? k).filter (0 < ·) := get?_filter ..
  constructor
  · intro same k
    have filtered : (a.filter fun _ n => 0 < n) = b.filter fun _ n => 0 < n := eq_of_entries same
    rw [← getD_filter_count, ← kept, filtered, kept, getD_filter_count]
  · intro same
    have filtered : (a.filter fun _ n => 0 < n) = b.filter fun _ n => 0 < n := by
      apply eq_of_get?
      intro k
      rw [kept, kept, filter_count, filter_count, same]
    exact congrArg entries filtered

end Counts

end ThreatGossip.SortedMap

namespace ThreatGossip.SortedSet

variable {κ : Type} [Ord κ] [Std.TransOrd κ] [Std.LawfulEqOrd κ] [DecidableEq κ]
  {a b : SortedSet κ} {j k : κ}

@[simp] theorem contains_add : (a.add k).contains j = true ↔ j = k ∨ a.contains j = true := by
  rw [SortedMap.contains, add, SortedMap.get?_insert]
  by_cases same : j = k
  · simp [same]
  · simp [same, SortedMap.contains]

@[simp] theorem contains_union :
    (a.union b).contains k = true ↔ a.contains k = true ∨ b.contains k = true := by
  rw [SortedMap.contains, union, SortedMap.get?_unionWith, SortedMap.contains, SortedMap.contains]
  cases a.get? k <;> cases b.get? k <;> simp

end ThreatGossip.SortedSet
