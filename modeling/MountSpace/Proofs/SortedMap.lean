import MountSpace.SortedMap

/-!
# Further laws of finite maps

- `SortedMap.get?_ofList`: what a map made of entries with distinct keys holds.
- `SortedMap.ofList_toList`: a map is made of its own entries.
- `SortedMap.eq_of_mem_iff`: ascending lists with the same members are equal.
- `SortedMap.size_le`, `SortedMap.eq_of_size_le`: a part of a map is smaller than
  the map, or is the map.
-/

namespace MountSpace.SortedMap

variable {κ : Type u} {α : Type v} [LT κ] [DecidableEq κ] [KeyOrder κ]

omit [KeyOrder κ] in
theorem contains_iff {m : SortedMap κ α} {k : κ} :
    m.contains k = true ↔ ∃ x, m.get? k = some x := by
  rw [contains, Option.isSome_iff_exists]

omit [KeyOrder κ] in
theorem contains_eq_false {m : SortedMap κ α} {k : κ} :
    m.contains k = false ↔ m.get? k = none := by
  rw [contains, Option.isSome_eq_false_iff, Option.isNone_iff_eq_none]

omit [DecidableEq κ] in
/-- Ascending keys are distinct. -/
theorem nodup_keys (m : SortedMap κ α) : (m.toList.map (·.1)).Nodup := by
  refine List.nodup_iff_pairwise_ne.2 (List.pairwise_map.2 (m.ascending.imp fun {a b} lt eq => ?_))
  exact KeyOrder.irrefl _ (eq ▸ lt)

theorem mem_keys_iff {m : SortedMap κ α} {k : κ} : k ∈ m.keys ↔ ∃ x, m.get? k = some x := by
  rw [keys, List.mem_map]
  constructor
  · rintro ⟨⟨k, x⟩, he, rfl⟩
    exact ⟨x, get?_eq_some_iff.2 he⟩
  · rintro ⟨x, hx⟩
    exact ⟨(k, x), get?_eq_some_iff.1 hx, rfl⟩

omit [DecidableEq κ] in
/-- The entries of a map are distinct. -/
theorem nodup_toList (m : SortedMap κ α) : m.toList.Nodup := by
  refine List.nodup_iff_pairwise_ne.2 (m.ascending.imp fun {a b} lt eq => ?_)
  subst eq
  exact KeyOrder.irrefl _ lt

/-- A part of a map is no larger. -/
theorem size_le {m n : SortedMap κ α} (part : ∀ k x, m.get? k = some x → n.get? k = some x) :
    m.size ≤ n.size :=
  m.nodup_toList.length_le_of_subset fun e he =>
    get?_eq_some_iff.1 (part e.1 e.2 (get?_eq_some_iff.2 he))

/-- A part of a map that is as large as the map is the map. -/
theorem eq_of_size_le {m n : SortedMap κ α} (part : ∀ k x, m.get? k = some x → n.get? k = some x)
    (le : n.size ≤ m.size) : m = n := by
  refine ext_get? fun k => Option.ext fun x => ⟨part k x, fun hx => ?_⟩
  refine Classical.byContradiction fun missing => ?_
  -- Otherwise the map would have room for one more entry than the part has.
  have distinct : ((k, x) :: m.toList).Nodup :=
    List.nodup_cons.2 ⟨fun he => missing (get?_eq_some_iff.2 he), m.nodup_toList⟩
  have within : (k, x) :: m.toList ⊆ n.toList := fun e he => by
    rcases List.mem_cons.1 he with rfl | he
    · exact get?_eq_some_iff.1 hx
    · exact get?_eq_some_iff.1 (part e.1 e.2 (get?_eq_some_iff.2 he))
  exact Nat.not_succ_le_self _ (Nat.le_trans (distinct.length_le_of_subset within) le)

theorem mem_values_iff {m : SortedMap κ α} {x : α} : x ∈ m.values ↔ ∃ k, m.get? k = some x := by
  rw [values, List.mem_map]
  constructor
  · rintro ⟨⟨k, x⟩, he, rfl⟩
    exact ⟨k, get?_eq_some_iff.2 he⟩
  · rintro ⟨k, hx⟩
    exact ⟨(k, x), get?_eq_some_iff.1 hx, rfl⟩

variable [DecidableLT κ]

/-- A new key makes a map larger by one. -/
theorem size_insert {m : SortedMap κ α} {k : κ} (free : m.get? k = none) (x : α) :
    (m.insert k x).size = m.size + 1 := by
  suffices ∀ l : List (κ × α), l.lookup k = none → (insertEntry k x l).length = l.length + 1
    from this m.toList free
  intro l free
  induction l with
  | nil => rfl
  | cons e rest ih =>
    rw [lookup_cons_entry] at free
    split at free
    next => cases free
    next ne =>
      rw [insertEntry, if_neg ne]
      split
      · rfl
      · rw [List.length_cons, List.length_cons, ih free]

/-- Insertions one after the other: an entry comes from the list, or from before where the list has
no entry of its key. -/
theorem get?_foldl_insert (l : List (κ × α)) (m : SortedMap κ α) (hl : (l.map (·.1)).Nodup) (k : κ)
    (x : α) : (l.foldl (fun m e => m.insert e.1 e.2) m).get? k = some x ↔
      (k, x) ∈ l ∨ k ∉ l.map (·.1) ∧ m.get? k = some x := by
  induction l generalizing m with
  | nil => simp
  | cons e l ih =>
    have hd := List.nodup_cons.1 hl
    rw [List.foldl_cons, ih _ hd.2, get?_insert]
    by_cases hk : k = e.1
    · have hx : (k, x) ∉ l := fun h => hd.1 (List.mem_map.2 ⟨_, h, hk⟩)
      obtain ⟨e₁, e₂⟩ := e
      subst hk
      simp [hx, hd.1, eq_comm]
    · have hne : (k, x) ≠ e := fun h => hk (congrArg Prod.fst h)
      simp [hk, hne]

/-- A map made of entries with distinct keys holds just those. -/
theorem get?_ofList {l : List (κ × α)} (hl : (l.map (·.1)).Nodup) {k : κ} {x : α} :
    (ofList l).get? k = some x ↔ (k, x) ∈ l := by
  rw [ofList, get?_foldl_insert l ∅ hl]
  simp

/-- A map is made of its own entries. -/
@[simp] theorem ofList_toList (m : SortedMap κ α) : ofList m.toList = m := by
  apply ext_get?
  intro k
  apply Option.ext
  intro x
  rw [get?_ofList m.nodup_keys, get?_eq_some_iff]

omit [DecidableEq κ] [DecidableLT κ] in
/-- Ascending lists with the same members are equal. -/
theorem eq_of_mem_iff {β : Type w} (key : β → κ) {l l' : List β} (h : l.Pairwise (key · < key ·))
    (h' : l'.Pairwise (key · < key ·)) (mem : ∀ e, e ∈ l ↔ e ∈ l') : l = l' := by
  have nodup : ∀ {l : List β}, l.Pairwise (key · < key ·) → l.Nodup := fun h =>
    List.nodup_iff_pairwise_ne.2 (h.imp fun {a b} lt eq => by
      subst eq
      exact KeyOrder.irrefl _ lt)
  refine List.Perm.eq_of_pairwise (fun a b _ _ ab ba => ?_) h h'
    ((List.perm_ext_iff_of_nodup (nodup h) (nodup h')).2 mem)
  exact absurd (KeyOrder.trans ab ba) (KeyOrder.irrefl _)

end MountSpace.SortedMap
