import Mathlib.Data.Finset.Card
import Mathlib.Data.Finset.Prod
import MountSpace.Proofs.Routes
import MountSpace.Proofs.Serves

/-!
# Where paths lead in the end

A composite sends a call on to a backend that may be a composite again. In the end the call comes to
a backend that keeps a tree itself, at a path there, or it goes round for ever.

- `Place`, `locate`: the end of the way, with a bound on how often a call is sent on.
- `locate_mono`: a greater bound leads to the same end.
- `follow`: a way of any kind, from stop to stop.
- `onward`, `walked`: the way of a path, step by step. A call that comes to an end is never twice at
  the same path in the same backend (`walked_distinct`), and what is left of its path are the last
  steps of it (`walked_suffix`).
- `locate_within`: so a call that comes to an end is sent on no more often than
  `System.hopBudget` allows.
-/

namespace MountSpace

/-- A path in a backend that keeps a tree itself. -/
structure Place where
  backend : BackendId
  volume : Volume
  readOnly : Bool
  path : Path
  deriving DecidableEq

/-- The place of a path in a backend, if the backend keeps a tree itself. -/
def Backend.place? (x : Backend) (b : BackendId) (p : Path) : Option Place :=
  match x with
  | .memory i => some ⟨b, .tree i, false, p⟩
  | .keyValue j readOnly => some ⟨b, .store j, readOnly, p⟩
  | _ => none

/-- Where a path in a backend leads in the end. -/
def locate (backends : List Backend) (tables : Nat → MountTable) :
    Nat → BackendId → Path → Option Place
  | 0, b, p => backends[b]?.bind fun x => x.place? b p
  | hops + 1, b, p =>
    match backends[b]? with
    | some (.composite table) =>
      locate backends tables hops ((tables table).resolve p).backend
        ((tables table).resolve p).relative
    | x => x.bind fun x => x.place? b p

variable {backends : List Backend} {tables : Nat → MountTable} {hops hops' : Nat}
variable {b : BackendId} {p : Path} {pl : Place}

/-- A bound that is enough may be raised. -/
theorem locate_mono (h : locate backends tables hops b p = some pl) (le : hops ≤ hops') :
    locate backends tables hops' b p = some pl := by
  induction hops' generalizing hops b p with
  | zero =>
    cases Nat.le_zero.1 le
    exact h
  | succ hops' ih =>
    rw [locate]
    cases hops with
    | zero =>
      rw [locate] at h
      split
      next table hb =>
        rw [hb] at h
        cases h
      next => exact h
    | succ hops =>
      rw [locate] at h
      split at h
      next table hb => exact ih h (Nat.le_of_succ_le_succ le)
      next => exact h

/-- Two bounds that are enough lead to one place. -/
theorem locate_unique {ql : Place} (h : locate backends tables hops b p = some pl)
    (h' : locate backends tables hops' b p = some ql) : pl = ql :=
  Option.some.inj ((locate_mono h (Nat.le_max_left hops hops')).symm.trans
    (locate_mono h' (Nat.le_max_right hops hops')))

/-! ## Ways -/

section

variable {X : Type} {next : X → Option X} {n m : Nat} {x y : X}

/-- Where a call is after a number of stops. -/
def follow (next : X → Option X) : Nat → X → Option X
  | 0, x => some x
  | n + 1, x => (next x).bind (follow next n)

theorem follow_add (n m : Nat) (x : X) :
    follow next (n + m) x = (follow next n x).bind (follow next m) := by
  induction n generalizing x with
  | zero => rw [Nat.zero_add, follow, Option.bind_some]
  | succ n ih =>
    rw [Nat.succ_add, follow, follow]
    cases next x with
    | none => rfl
    | some y => exact ih y

theorem follow_before (h : follow next n x = some y) (le : m ≤ n) :
    ∃ z, follow next m x = some z := by
  obtain ⟨k, rfl⟩ := Nat.exists_eq_add_of_le le
  rw [follow_add] at h
  obtain ⟨z, hz, -⟩ := Option.bind_eq_some_iff.1 h
  exact ⟨z, hz⟩

theorem follow_succ (h : follow next n x = some y) : follow next (n + 1) x = next y := by
  rw [follow_add, h, Option.bind_some, follow]
  cases next y <;> rfl

end

/-! ## The way -/

/-- Where a composite sends a call on to. -/
def onward (backends : List Backend) (tables : Nat → MountTable) (at' : BackendId × Path) :
    Option (BackendId × Path) :=
  match backends[at'.1]? with
  | some (.composite table) =>
    some (((tables table).resolve at'.2).backend, ((tables table).resolve at'.2).relative)
  | _ => none

/-- Where a call is after it has been sent on a number of times. -/
def walked (backends : List Backend) (tables : Nat → MountTable) :
    Nat → BackendId × Path → Option (BackendId × Path)
  | 0, at' => some at'
  | n + 1, at' => (onward backends tables at').bind (walked backends tables n)

/-- The place that a call has come to, if it is at an end. -/
def arrived (backends : List Backend) (at' : BackendId × Path) : Option Place :=
  backends[at'.1]?.bind fun x => x.place? at'.1 at'.2

variable {at' end' : BackendId × Path} {n m : Nat}

theorem onward_of_arrived (h : arrived backends at' = some pl) :
    onward backends tables at' = none := by
  rw [arrived] at h
  rw [onward]
  split
  next table hb =>
    rw [hb] at h
    cases h
  next => rfl

theorem walked_eq_follow (n : Nat) (at' : BackendId × Path) :
    walked backends tables n at' = follow (onward backends tables) n at' := by
  induction n generalizing at' with
  | zero => rfl
  | succ n ih =>
    rw [walked, follow]
    exact congrArg _ (funext ih)

theorem walked_add (n m : Nat) (at' : BackendId × Path) : walked backends tables (n + m) at' =
    (walked backends tables n at').bind (walked backends tables m) := by
  rw [walked_eq_follow, walked_eq_follow, follow_add]
  exact congrArg _ (funext fun next => (walked_eq_follow m next).symm)

/-- A call comes to a place by a number of steps within the bound. -/
theorem exists_walked (h : locate backends tables hops b p = some pl) :
    ∃ n end', walked backends tables n (b, p) = some end' ∧ arrived backends end' = some pl := by
  induction hops generalizing b p with
  | zero => exact ⟨0, (b, p), rfl, h⟩
  | succ hops ih =>
    rw [locate] at h
    split at h
    next table hb =>
      obtain ⟨n, end', hn, arr⟩ := ih h
      refine ⟨n + 1, end', ?_, arr⟩
      rw [walked, onward, hb]
      exact hn
    next => exact ⟨0, (b, p), rfl, h⟩

theorem locate_of_walked (h : walked backends tables n at' = some end')
    (arr : arrived backends end' = some pl) : locate backends tables n at'.1 at'.2 = some pl := by
  induction n generalizing at' with
  | zero =>
    cases h
    exact arr
  | succ n ih =>
    obtain ⟨next, hnext, rest⟩ := Option.bind_eq_some_iff.1 h
    rw [locate]
    rw [onward] at hnext
    split at hnext
    next table hb =>
      cases hnext
      exact ih rest
    next => cases hnext

/-- A call at a place is at its end already. -/
theorem locate_of_arrived (arr : arrived backends (b, p) = some pl) (hops : Nat) :
    locate backends tables hops b p = some pl := by
  have stays : walked backends tables 0 (b, p) = some (b, p) := rfl
  exact locate_mono (locate_of_walked stays arr) (Nat.zero_le _)

/-- A call that comes to an end was somewhere after each number of steps before. -/
theorem walked_before (h : walked backends tables n at' = some end') (le : m ≤ n) :
    ∃ next, walked backends tables m at' = some next := by
  rw [walked_eq_follow] at h ⊢
  exact follow_before h le

/-- What is left of a path are the last steps of it. -/
theorem walked_suffix (h : walked backends tables n at' = some end') :
    ∃ u : Path, at'.2 = u ++ end'.2 := by
  induction n generalizing at' with
  | zero =>
    cases h
    exact ⟨.root, rfl⟩
  | succ n ih =>
    obtain ⟨next, hnext, rest⟩ := Option.bind_eq_some_iff.1 h
    obtain ⟨u, hu⟩ := ih rest
    rw [onward] at hnext
    split at hnext
    next table hb =>
      cases hnext
      obtain ⟨m, hm⟩ := (tables table).relative_suffix at'.2
      exact ⟨m ++ u, by rw [Path.append_assoc, ← hu, ← hm]⟩
    next => cases hnext

/-- A call that comes to an end is not twice at the same path in the same backend. Else it would go
on in the same way for ever. -/
theorem walked_distinct (h : walked backends tables n at' = some end')
    (arr : arrived backends end' = some pl) {i j : Nat} (lt : i < j) (le : j ≤ n) :
    walked backends tables i at' ≠ walked backends tables j at' := by
  intro same
  obtain ⟨next, hj⟩ := walked_before h le
  -- From the later stop the way is over one step past its end. From the earlier
  -- one it goes on there.
  have past : walked backends tables (j + (n - j + 1)) at' = none := by
    have : j + (n - j + 1) = n + 1 := by omega
    rw [this, walked_add, h, Option.bind_some, walked, onward_of_arrived arr]
    rfl
  have again : walked backends tables (i + (n - j + 1)) at' = none := by
    rw [walked_add, same, ← walked_add, past]
  obtain ⟨next', hi⟩ := walked_before h (m := i + (n - j + 1)) (by omega)
  exact nomatch again.symm.trans hi

/-- A call that comes to an end is always at a backend. -/
theorem walked_lt (h : walked backends tables n at' = some end')
    (arr : arrived backends end' = some pl) (le : m ≤ n) {next : BackendId × Path}
    (hm : walked backends tables m at' = some next) :
    next.1 < backends.length := by
  refine Classical.byContradiction fun out => ?_
  have none' : backends[next.1]? = none := List.getElem?_eq_none (Nat.le_of_not_lt out)
  rcases Nat.eq_or_lt_of_le le with rfl | lt
  · cases hm.symm.trans h
    rw [arrived, none'] at arr
    cases arr
  · obtain ⟨_, onwards⟩ := walked_before h (m := m + 1) lt
    rw [walked_add, hm, Option.bind_some, walked, onward, none'] at onwards
    cases onwards

/-- A call that is sent on often enough, and is always at a backend, is twice at the same path
in the same backend. -/
theorem walked_repeats (h : walked backends tables n (b, p) = some end')
    (within : ∀ m ≤ n, ∀ next, walked backends tables m (b, p) = some next →
      next.1 < backends.length)
    (long : backends.length * (p.segments.length + 1) ≤ n) :
    ∃ i j, i < j ∧ j ≤ n ∧ walked backends tables i (b, p) = walked backends tables j (b, p) := by
  -- A stop is a backend and the number of steps left, and there are more stops than these.
  let stop : Nat → Nat × Nat := fun k =>
    let next := (walked backends tables k (b, p)).getD (b, p)
    (next.1, next.2.segments.length)
  have inside : Set.MapsTo stop (Finset.range (n + 1))
      (Finset.range backends.length ×ˢ Finset.range (p.segments.length + 1) :
        Finset (Nat × Nat)) := by
    intro k hk
    have le : k ≤ n := Nat.le_of_lt_succ (Finset.mem_range.1 hk)
    obtain ⟨next, hnext⟩ := walked_before h le
    obtain ⟨u, hu⟩ := walked_suffix hnext
    have short : next.2.segments.length ≤ p.segments.length := by
      rw [show p = u ++ next.2 from hu, Path.segments_append, List.length_append]
      exact Nat.le_add_left ..
    refine Finset.mem_coe.2 (Finset.mem_product.2 ⟨?_, ?_⟩)
    · show ((walked backends tables k (b, p)).getD (b, p)).1 ∈ Finset.range backends.length
      rw [hnext]
      exact Finset.mem_range.2 (within k le next hnext)
    · show ((walked backends tables k (b, p)).getD (b, p)).2.segments.length ∈ Finset.range _
      rw [hnext]
      exact Finset.mem_range.2 (Nat.lt_succ_of_le short)
  have fewer : (Finset.range backends.length ×ˢ Finset.range (p.segments.length + 1)).card <
      (Finset.range (n + 1)).card := by
    rw [Finset.card_product, Finset.card_range, Finset.card_range, Finset.card_range]
    omega
  obtain ⟨i, hi, j, hj, ne, same⟩ := Finset.exists_ne_map_eq_of_card_lt_of_maps_to fewer inside
  have le : i ≤ n := Nat.le_of_lt_succ (Finset.mem_range.1 hi)
  have le' : j ≤ n := Nat.le_of_lt_succ (Finset.mem_range.1 hj)
  obtain ⟨x, hx⟩ := walked_before h le
  obtain ⟨y, hy⟩ := walked_before h le'
  -- Two ends of one path are the same if they are equally long.
  have equal : x = y := by
    obtain ⟨u, hu⟩ := walked_suffix hx
    obtain ⟨w, hw⟩ := walked_suffix hy
    have stops : (x.1, x.2.segments.length) = (y.1, y.2.segments.length) := by
      simpa only [stop, hx, hy, Option.getD_some] using same
    obtain ⟨backend, length⟩ := Prod.mk.inj stops
    have segments := congrArg Path.segments (hu.symm.trans hw)
    exact Prod.ext backend (Path.ext_segments (List.append_inj' segments length).2)
  have again : walked backends tables i (b, p) = walked backends tables j (b, p) := by
    rw [hx, hy, equal]
  rcases Nat.lt_or_gt_of_ne ne with lt | gt
  · exact ⟨i, j, lt, le', again⟩
  · exact ⟨j, i, gt, le, again.symm⟩

/-- A call that comes to an end is sent on fewer times than there are backends and steps left. -/
theorem walked_length (h : walked backends tables n (b, p) = some end')
    (arr : arrived backends end' = some pl) :
    n + 1 ≤ backends.length * (p.segments.length + 1) := by
  refine Classical.byContradiction fun long => ?_
  obtain ⟨i, j, lt, le, again⟩ :=
    walked_repeats h (fun m le next hm => walked_lt h arr le hm) (by omega)
  exact walked_distinct h arr lt le again

/-- A bound that is enough for any call at a path. -/
theorem locate_within (h : locate backends tables hops b p = some pl)
    (le : backends.length * (p.segments.length + 1) ≤ hops') :
    locate backends tables hops' b p = some pl := by
  obtain ⟨n, end', hn, arr⟩ := exists_walked h
  have := walked_length hn arr
  exact locate_mono (locate_of_walked hn arr) (by omega)

end MountSpace
