/-!
# Finite maps in key order

A map is its list of entries, strictly ascending by key, so two maps with the same entries are equal
and every traversal is in key order.

- `SortedMap`: the entries and the proof of their order.
- `get?`, `insert`, `erase`, `filter`, `ofList`: the operations, one pass over the entries each.
- `get?_insert`, `get?_erase`, `get?_filter`: what each operation does to look-up.
- `ext_get?`: a map is determined by look-up.
-/

namespace MountSpace

/-- A strict order that compares any two keys. -/
class KeyOrder (κ : Type u) [LT κ] : Prop where
  irrefl : ∀ a : κ, ¬a < a
  trans : ∀ {a b c : κ}, a < b → b < c → a < c
  connected : ∀ {a b : κ}, ¬a < b → a ≠ b → b < a

instance : KeyOrder (List Char) where
  irrefl _ := Std.lt_irrefl
  trans := Std.lt_trans
  connected := fun h ne => Std.lt_of_le_of_ne (Std.not_lt.1 h) (Ne.symm ne)

instance : KeyOrder String where
  irrefl _ := Std.lt_irrefl
  trans := Std.lt_trans
  connected := fun h ne => Std.lt_of_le_of_ne (Std.not_lt.1 h) (Ne.symm ne)

/-- A finite map as its entries in strictly ascending key order. -/
structure SortedMap (κ : Type u) (α : Type v) [LT κ] where
  toList : List (κ × α)
  ascending : toList.Pairwise (·.1 < ·.1)

namespace SortedMap

variable {κ : Type u} {α : Type v} [LT κ]

instance [DecidableEq κ] [DecidableEq α] : DecidableEq (SortedMap κ α)
  | ⟨a, _⟩, ⟨b, _⟩ =>
    if h : a = b then isTrue (by subst h; rfl) else isFalse (fun e => h (congrArg toList e))

@[ext] theorem ext_toList {m n : SortedMap κ α} (h : m.toList = n.toList) : m = n := by
  cases m; cases n; cases h; rfl

/-- The map without entries. -/
def empty : SortedMap κ α := ⟨[], .nil⟩

instance : EmptyCollection (SortedMap κ α) := ⟨empty⟩
instance : Inhabited (SortedMap κ α) := ⟨empty⟩

def size (m : SortedMap κ α) : Nat := m.toList.length

def isEmpty (m : SortedMap κ α) : Bool := m.toList.isEmpty

/-- The keys, ascending. -/
def keys (m : SortedMap κ α) : List κ := m.toList.map (·.1)

/-- The values in key order. -/
def values (m : SortedMap κ α) : List α := m.toList.map (·.2)

/-- The entries that satisfy a test of key and value. -/
def filter (m : SortedMap κ α) (keep : κ → α → Bool) : SortedMap κ α :=
  ⟨m.toList.filter fun e => keep e.1 e.2, m.ascending.filter _⟩

variable [DecidableEq κ]

/-- The value at a key. -/
def get? (m : SortedMap κ α) (k : κ) : Option α := m.toList.lookup k

def contains (m : SortedMap κ α) (k : κ) : Bool := (m.get? k).isSome

/-- The map without the entry at a key. -/
def erase (m : SortedMap κ α) (k : κ) : SortedMap κ α := m.filter fun k' _ => k' ≠ k

variable [DecidableLT κ]

/-- Puts an entry at its place among ascending entries, over one with the same key. -/
def insertEntry (k : κ) (x : α) : List (κ × α) → List (κ × α)
  | [] => [(k, x)]
  | e :: rest =>
    if k < e.1 then (k, x) :: e :: rest
    else if k = e.1 then (k, x) :: rest
    else e :: insertEntry k x rest

theorem mem_insertEntry {k : κ} {x : α} {e : κ × α} {l : List (κ × α)}
    (h : e ∈ insertEntry k x l) : e = (k, x) ∨ e ∈ l := by
  induction l with
  | nil => simpa [insertEntry] using h
  | cons d rest ih =>
    rw [insertEntry] at h
    split at h
    · simpa using h
    · split at h
      · simp only [List.mem_cons] at h ⊢
        exact h.imp_right .inr
      · simp only [List.mem_cons] at h ⊢
        rcases h with h | h
        · exact .inr (.inl h)
        · exact (ih h).imp_right .inr

variable [KeyOrder κ]

theorem ascending_insertEntry (k : κ) (x : α) {l : List (κ × α)}
    (h : l.Pairwise (·.1 < ·.1)) : (insertEntry k x l).Pairwise (·.1 < ·.1) := by
  induction l with
  | nil => simp [insertEntry]
  | cons d rest ih =>
    have hd := List.pairwise_cons.1 h
    rw [insertEntry]
    split
    next lt =>
      refine List.pairwise_cons.2 ⟨fun e he => ?_, h⟩
      rcases List.mem_cons.1 he with rfl | he
      · exact lt
      · exact KeyOrder.trans lt (hd.1 e he)
    next nlt =>
      split
      next eq => exact List.pairwise_cons.2 ⟨fun e he => eq ▸ hd.1 e he, hd.2⟩
      next ne =>
        refine List.pairwise_cons.2 ⟨fun e he => ?_, ih hd.2⟩
        rcases mem_insertEntry he with rfl | he
        · exact KeyOrder.connected nlt ne
        · exact hd.1 e he

/-- The map with the value at a key set. -/
def insert (m : SortedMap κ α) (k : κ) (x : α) : SortedMap κ α :=
  ⟨insertEntry k x m.toList, ascending_insertEntry k x m.ascending⟩

/-- The map of the listed entries; of two with one key the later counts. -/
def ofList (entries : List (κ × α)) : SortedMap κ α :=
  entries.foldl (fun m e => m.insert e.1 e.2) ∅

/-! ## Look-up -/

omit [DecidableLT κ] [KeyOrder κ] in
@[simp] theorem get?_empty (k : κ) : (∅ : SortedMap κ α).get? k = none := rfl

omit [LT κ] [DecidableLT κ] [KeyOrder κ] in
theorem lookup_cons_entry (e : κ × α) (l : List (κ × α)) (q : κ) :
    (e :: l).lookup q = if q = e.1 then some e.2 else l.lookup q := by
  obtain ⟨k, x⟩ := e
  by_cases h : q = k
  · subst h
    exact List.lookup_cons_self.trans (if_pos rfl).symm
  · rw [List.lookup_cons, beq_false_of_ne h, if_neg h]

theorem get?_insert (m : SortedMap κ α) (k : κ) (x : α) (q : κ) :
    (m.insert k x).get? q = if q = k then some x else m.get? q := by
  suffices ∀ l : List (κ × α), (insertEntry k x l).lookup q = if q = k then some x else l.lookup q
    from this m.toList
  intro l
  induction l with
  | nil => simp [insertEntry, lookup_cons_entry]
  | cons d rest ih => grind [insertEntry, lookup_cons_entry]

@[simp] theorem get?_insert_self (m : SortedMap κ α) (k : κ) (x : α) :
    (m.insert k x).get? k = some x := by simp [get?_insert]

theorem get?_insert_other (m : SortedMap κ α) {k q : κ} (x : α) (h : q ≠ k) :
    (m.insert k x).get? q = m.get? q := by simp [get?_insert, h]

omit [DecidableLT κ] in
/-- An entry is found at its key. -/
theorem get?_eq_some_iff {m : SortedMap κ α} {k : κ} {x : α} :
    m.get? k = some x ↔ (k, x) ∈ m.toList := by
  suffices ∀ l : List (κ × α), l.Pairwise (·.1 < ·.1) → (l.lookup k = some x ↔ (k, x) ∈ l)
    from this _ m.ascending
  intro l h
  induction l with
  | nil => simp
  | cons d rest ih =>
    have hd := List.pairwise_cons.1 h
    by_cases hk : k = d.1
    · have hx : (k, x) ∉ rest := fun hm => KeyOrder.irrefl _ (hk ▸ hd.1 _ hm)
      obtain ⟨d₁, d₂⟩ := d
      subst hk
      simp [lookup_cons_entry, hx, eq_comm]
    · have : (k, x) ≠ d := fun e => hk (congrArg Prod.fst e)
      simp [lookup_cons_entry, hk, ih hd.2, this]

omit [DecidableLT κ] in
theorem get?_filter (m : SortedMap κ α) (keep : κ → α → Bool) (q : κ) :
    (m.filter keep).get? q = (m.get? q).filter (keep q) := by
  apply Option.ext
  intro x
  rw [get?_eq_some_iff, Option.filter_eq_some_iff, get?_eq_some_iff]
  simp [filter]

omit [DecidableLT κ] in
theorem get?_erase (m : SortedMap κ α) (k q : κ) :
    (m.erase k).get? q = if q = k then none else m.get? q := by
  rw [erase, get?_filter]
  by_cases h : q = k
  · subst h
    simp only [↓reduceIte]
    cases m.get? q <;> simp
  · cases m.get? q <;> simp [h]

omit [DecidableLT κ] in
/-- A map is determined by look-up. -/
theorem ext_get? {m n : SortedMap κ α} (h : ∀ k, m.get? k = n.get? k) : m = n := by
  apply ext_toList
  have hmem : ∀ e, e ∈ m.toList ↔ e ∈ n.toList := fun e => by
    rw [← get?_eq_some_iff (k := e.1) (x := e.2), h, get?_eq_some_iff]
  have nodup : ∀ m : SortedMap κ α, m.toList.Nodup := fun m => by
    refine List.nodup_iff_pairwise_ne.2 (m.ascending.imp fun {a b} lt eq => ?_)
    subst eq
    exact KeyOrder.irrefl _ lt
  refine List.Perm.eq_of_pairwise (fun a b _ _ ab ba => ?_) m.ascending n.ascending
    ((List.perm_ext_iff_of_nodup (nodup m) (nodup n)).2 hmem)
  exact absurd (KeyOrder.trans ab ba) (KeyOrder.irrefl _)

end SortedMap

end MountSpace
