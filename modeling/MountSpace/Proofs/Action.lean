import MountSpace.System

/-!
# Outcomes of computations

An `Action` is run on a state with `runOn`. This module says what `runOn` does to each way of
building an action, so that no later proof looks inside the monad.

- `runOn_pure`, `runOn_throw`, `runOn_bind`, ...: one equation per constructor.
- `Action.Keeps`: a property of the state that holds after an action, whether or not it fails, if it
  held before; closed under the same constructors.
- `Action.Yields`: the same, with a property of what the action gives.
- `Action.Agree`: two actions come to the same wherever a property of the state holds.
-/

namespace MountSpace

namespace Except

variable {ε α β : Type}

@[simp] theorem ok_bind (a : α) (f : α → Except ε β) : (Except.ok a >>= f) = f a := rfl

@[simp] theorem error_bind (e : ε) (f : α → Except ε β) : (Except.error e >>= f) = .error e := rfl

@[simp] theorem throw_bind (e : ε) (f : α → Except ε β) :
    ((throw e : Except ε α) >>= f) = .error e := rfl

/-- A sequence gives what its second part gives, if the first part gives what that needs. -/
theorem bind_eq_ok {x : Except ε α} {f : α → Except ε β} {b : β} :
    (x >>= f) = .ok b ↔ ∃ a, x = .ok a ∧ f a = .ok b := by
  cases x with
  | error e => exact ⟨nofun, fun ⟨a, no, _⟩ => nomatch no⟩
  | ok a => exact ⟨fun h => ⟨a, rfl, h⟩, fun ⟨_, same, h⟩ => Except.ok.inj same ▸ h⟩

@[simp] theorem isOk_map (f : α → β) (x : Except ε α) : (x.map f).isOk = x.isOk := by
  cases x <;> rfl

/-- What holds of every result holds of one if there is one. -/
theorem exists_ok {x : Except ε α} {P : α → Prop} (ok : x.isOk = true)
    (all : ∀ a ∈ x.toOption, P a) : ∃ a, x = .ok a ∧ P a := by
  cases x with
  | error e => cases ok
  | ok a => exact ⟨a, rfl, all a rfl⟩

end Except

namespace Action

variable {σ α β : Type}

/-! ## One equation per constructor -/

@[simp] theorem runOn_pure (a : α) (s : σ) : runOn (pure a : Action σ α) s = (.ok a, s) := rfl

@[simp] theorem runOn_throw (e : FsError) (s : σ) :
    runOn (throw e : Action σ α) s = (.error e, s) := rfl

@[simp] theorem runOn_ofExcept (r : Except FsError α) (s : σ) :
    runOn (Action.ofExcept r : Action σ α) s = (r, s) := by
  cases r <;> rfl

/-- What a sequence does: the second part runs only after the first has succeeded. -/
theorem runOn_bind (x : Action σ α) (f : α → Action σ β) (s : σ) :
    runOn (x >>= f) s =
      match x.runOn s with
      | (.ok a, s') => (f a).runOn s'
      | (.error e, s') => (.error e, s') := by
  show (ExceptT.bindCont f (x.runOn s).1 : StateM σ _) (x.runOn s).2 = _
  rcases x.runOn s with ⟨_ | _, _⟩ <;> rfl

theorem runOn_bind_ok {x : Action σ α} {s s' : σ} {a : α} (h : x.runOn s = (.ok a, s'))
    (f : α → Action σ β) : runOn (x >>= f) s = (f a).runOn s' := by
  rw [runOn_bind, h]

theorem runOn_bind_error {x : Action σ α} {s s' : σ} {e : FsError}
    (h : x.runOn s = (.error e, s')) (f : α → Action σ β) :
    runOn (x >>= f) s = (.error e, s') := by
  rw [runOn_bind, h]

@[simp] theorem runOn_pure_bind (a : α) (f : α → Action σ β) (s : σ) :
    runOn (pure a >>= f) s = (f a).runOn s := rfl

@[simp] theorem runOn_throw_bind (e : FsError) (f : α → Action σ β) (s : σ) :
    runOn ((throw e : Action σ α) >>= f) s = (.error e, s) := rfl

@[simp] theorem runOn_ofExcept_bind (r : Except FsError α) (f : α → Action σ β) (s : σ) :
    runOn (Action.ofExcept r >>= f) s =
      match r with
      | .ok a => (f a).runOn s
      | .error e => (.error e, s) := by
  cases r <;> rfl

@[simp] theorem runOn_get_bind (f : σ → Action σ β) (s : σ) :
    runOn (get >>= f) s = (f s).runOn s := rfl

@[simp] theorem runOn_modify (g : σ → σ) (s : σ) :
    runOn (modify g : Action σ PUnit) s = (.ok ⟨⟩, g s) := rfl

@[simp] theorem runOn_modify_bind (g : σ → σ) (f : PUnit → Action σ β) (s : σ) :
    runOn (modify g >>= f) s = (f ⟨⟩).runOn (g s) := rfl

@[simp] theorem runOn_modifyGet (g : σ → α × σ) (s : σ) :
    runOn (modifyGet g : Action σ α) s = (.ok (g s).1, (g s).2) := rfl

@[simp] theorem runOn_modifyGet_bind (g : σ → α × σ) (f : α → Action σ β) (s : σ) :
    runOn (modifyGet g >>= f) s = (f (g s).1).runOn (g s).2 := rfl

theorem runOn_map (g : α → β) (x : Action σ α) (s : σ) :
    runOn (g <$> x) s = ((x.runOn s).1.map g, (x.runOn s).2) := by
  show runOn (x >>= fun a => pure (g a)) s = _
  rw [runOn_bind]
  rcases x.runOn s with ⟨_ | _, _⟩ <;> rfl

theorem runOn_discard (x : Action σ α) (s : σ) :
    runOn (discard x) s = ((x.runOn s).1.map fun _ => ⟨⟩, (x.runOn s).2) :=
  runOn_map _ x s

/-- What a recovery does: the handler starts where the failure left the state. -/
theorem runOn_tryCatch (x : Action σ α) (f : FsError → Action σ α) (s : σ) :
    runOn (tryCatch x f) s =
      match x.runOn s with
      | (.ok a, s') => (.ok a, s')
      | (.error e, s') => (f e).runOn s' := by
  simp only [runOn, tryCatch, tryCatchThe, MonadExceptOf.tryCatch, ExceptT.tryCatch, ExceptT.run,
    ExceptT.mk, StateT.run, bind, StateT.bind]
  rcases x s with ⟨_ | _, _⟩ <;> rfl

/-- The last one of some actions in a row is done after the others. -/
theorem forM_concat (f : α → Action σ PUnit) (l : List α) (a : α) :
    (l ++ [a]).forM f = l.forM f >>= fun _ => f a := by
  induction l with
  | nil =>
    show (f a >>= fun _ => pure PUnit.unit) = f a
    exact bind_pure (f a)
  | cons b l ih =>
    show (f b >>= fun _ => (l ++ [a]).forM f) = (f b >>= fun _ => l.forM f) >>= fun _ => f a
    rw [ih, bind_assoc]

/-- Actions in a row fail as the first one of them does that fails. -/
theorem runOn_forM_error_iff {f : α → Action σ PUnit} {l : List α} {s s' : σ} {e : FsError} :
    (l.forM f).runOn s = (.error e, s') ↔
      ∃ before a after s₁, l = before ++ a :: after ∧ (before.forM f).runOn s = (.ok ⟨⟩, s₁) ∧
        (f a).runOn s₁ = (.error e, s') := by
  constructor
  · intro failed
    induction l generalizing s with
    | nil => cases failed
    | cons a l ih =>
      change (f a >>= fun _ => l.forM f).runOn s = _ at failed
      rw [runOn_bind] at failed
      rcases ha : (f a).runOn s with ⟨e' | ⟨⟨⟩⟩, s₁⟩
      · rw [ha] at failed
        exact ⟨[], a, l, s, rfl, rfl, ha.trans failed⟩
      · rw [ha] at failed
        obtain ⟨before, b, after, s₂, rfl, hr, hb⟩ := ih failed
        exact ⟨a :: before, b, after, s₂, rfl, (runOn_bind_ok ha _).trans hr, hb⟩
  · rintro ⟨before, a, after, s₁, rfl, hr, ha⟩
    have parts : (before ++ a :: after).forM f = before.forM f >>= fun _ => (a :: after).forM f :=
      List.forM_append
    rw [parts, runOn_bind_ok hr]
    exact runOn_bind_error ha _

/-! ## Properties of the state that actions keep -/

/-- A property of the state survives an action, also one that fails. -/
def Keeps (P : σ → Prop) (x : Action σ α) : Prop := ∀ s, P s → P (x.runOn s).2

/-- A property of the state survives an action, and what the action gives has a property too. -/
def Yields (P : σ → Prop) (Q : α → Prop) (x : Action σ α) : Prop :=
  ∀ s, P s → P (x.runOn s).2 ∧ ∀ a, (x.runOn s).1 = .ok a → Q a

variable {P : σ → Prop} {Q : α → Prop}

theorem Yields.keeps {x : Action σ α} (h : Yields P Q x) : Keeps P x := fun s hs => (h s hs).1

theorem Keeps.yields {x : Action σ α} (h : Keeps P x) : Yields P (fun _ => True) x :=
  fun s hs => ⟨h s hs, fun _ _ => trivial⟩

theorem keeps_pure (a : α) : Keeps P (pure a) := fun _ h => h

theorem keeps_throw (e : FsError) : Keeps P (throw e : Action σ α) := fun _ h => h

theorem keeps_ofExcept (r : Except FsError α) : Keeps P (Action.ofExcept r) := fun s h => by
  rw [runOn_ofExcept]
  exact h

theorem Yields.bind {x : Action σ α} {f : α → Action σ β} (hx : Yields P Q x)
    (hf : ∀ a, Q a → Keeps P (f a)) : Keeps P (x >>= f) := by
  intro s h
  obtain ⟨kept, given⟩ := hx s h
  rw [runOn_bind]
  rcases hr : x.runOn s with ⟨_ | a, s'⟩
  · rwa [hr] at kept
  · rw [hr] at kept given
    exact hf a (given a rfl) s' kept

/-- What is given in the end has a property, if each part gives what the next one needs. -/
theorem Yields.bind_yields {R : β → Prop} {x : Action σ α} {f : α → Action σ β} (hx : Yields P Q x)
    (hf : ∀ a, Q a → Yields P R (f a)) : Yields P R (x >>= f) := by
  intro s h
  obtain ⟨kept, given⟩ := hx s h
  rw [runOn_bind]
  rcases hr : x.runOn s with ⟨e | a, s'⟩
  · rw [hr] at kept
    exact ⟨kept, nofun⟩
  · rw [hr] at kept given
    exact hf a (given a rfl) s' kept

theorem Keeps.bind_yields {R : β → Prop} {x : Action σ α} {f : α → Action σ β} (hx : Keeps P x)
    (hf : ∀ a, Yields P R (f a)) : Yields P R (x >>= f) := hx.yields.bind_yields fun a _ => hf a

theorem yields_pure {a : α} (given : Q a) : Yields P Q (pure a) := by
  intro s h
  refine ⟨h, fun a' e => ?_⟩
  cases e
  exact given

theorem yields_throw (e : FsError) : Yields P Q (throw e : Action σ α) := by
  intro s h
  refine ⟨h, fun a e => ?_⟩
  cases e

theorem yields_get_bind {f : σ → Action σ α} (hf : ∀ s, P s → Yields P Q (f s)) :
    Yields P Q (get >>= f) := fun s h => hf s h s h

theorem Keeps.bind {x : Action σ α} {f : α → Action σ β} (hx : Keeps P x)
    (hf : ∀ a, Keeps P (f a)) : Keeps P (x >>= f) := hx.yields.bind fun a _ => hf a

theorem keeps_ofExcept_bind {r : Except FsError α} {f : α → Action σ β}
    (hf : ∀ a, r = .ok a → Keeps P (f a)) : Keeps P (Action.ofExcept r >>= f) := by
  intro s h
  rw [runOn_ofExcept_bind]
  cases r with
  | error e => exact h
  | ok a => exact hf a rfl s h

theorem keeps_get_bind {f : σ → Action σ β} (hf : ∀ s, P s → Keeps P (f s)) : Keeps P (get >>= f) :=
  fun s h => hf s h s h

theorem keeps_modify {g : σ → σ} (hg : ∀ s, P s → P (g s)) : Keeps P (modify g : Action σ PUnit) :=
  hg

theorem keeps_modifyGet {g : σ → α × σ} (hg : ∀ s, P s → P (g s).2) :
    Keeps P (modifyGet g : Action σ α) := hg

theorem Keeps.discard {x : Action σ α} (hx : Keeps P x) : Keeps P (discard x) := fun s h => by
  rw [runOn_discard]
  exact hx s h

theorem Keeps.tryCatch {x : Action σ α} {f : FsError → Action σ α} (hx : Keeps P x)
    (hf : ∀ e, Keeps P (f e)) : Keeps P (tryCatch x f) := by
  intro s h
  have hs := hx s h
  rw [runOn_tryCatch]
  rcases hr : x.runOn s with ⟨e | _, s'⟩
  · rw [hr] at hs
    exact hf e s' hs
  · rwa [hr] at hs

/-- Two actions come to the same, wherever a property of the state holds. -/
def Agree (P : σ → Prop) (x y : Action σ α) : Prop := ∀ s, P s → x.runOn s = y.runOn s

theorem Agree.refl (x : Action σ α) : Agree P x x := fun _ _ => rfl

/-- Actions agree part by part, if the first part keeps the property and gives what
the second one needs. -/
theorem Agree.bind {x y : Action σ α} {f g : α → Action σ β} (same : Agree P x y)
    (hx : Yields P Q x) (rest : ∀ a, Q a → Agree P (f a) (g a)) : Agree P (x >>= f) (y >>= g) := by
  intro s h
  obtain ⟨kept, given⟩ := hx s h
  rw [runOn_bind, runOn_bind, ← same s h]
  rcases hr : x.runOn s with ⟨e | a, s'⟩
  · rfl
  · rw [hr] at kept given
    exact rest a (given a rfl) s' kept

/-- What would follow a failure does not matter. -/
theorem agree_throw_bind (e : FsError) (f g : α → Action σ β) :
    Agree P (throw e >>= f) (throw e >>= g) :=
  fun _ _ => rfl

theorem agree_get_bind {f g : σ → Action σ β} (rest : ∀ s, P s → Agree P (f s) (g s)) :
    Agree P (get >>= f) (get >>= g) := fun s h => rest s h s h

theorem Agree.tryCatch {x y : Action σ α} {f g : FsError → Action σ α} (same : Agree P x y)
    (hx : Keeps P x) (rest : ∀ e, Agree P (f e) (g e)) : Agree P (tryCatch x f) (tryCatch y g) := by
  intro s h
  have kept := hx s h
  rw [runOn_tryCatch, runOn_tryCatch, ← same s h]
  rcases hr : x.runOn s with ⟨e | a, s'⟩
  · rw [hr] at kept
    exact rest e s' kept
  · rfl

theorem keeps_forM {f : α → Action σ PUnit} :
    ∀ l : List α, (∀ a ∈ l, Keeps P (f a)) → Keeps P (l.forM f)
  | [], _ => keeps_pure _
  | a :: l, hf => (hf a List.mem_cons_self).bind fun _ =>
      keeps_forM l fun b hb => hf b (List.mem_cons_of_mem _ hb)

end Action

end MountSpace
