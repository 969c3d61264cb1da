import MountSpace.Proofs.RenameHops

/-!
# Calls that pass through a composite

Where no mount lies at a path or below it, a composite adds nothing of its own. What is done at the
path is done by the backend that the path leads to, at the path inside it, and nothing else changes.

- `System.Behind`: the backends that calls at a backend may come to.
- `System.ChangesBehind`, `InOrder.change_behind`, `openFile_behind`: what is done with a backend
  changes only what the backends behind it keep.
- `System.Passes`, `InOrder.passes`: all that is done at one path comes to the
  same as at another one.
- `InOrder.rename_passes`: so does a move from one such path to another.
- `System.mounts_elsewhere_invisible`: both hold for a path in a composite and the
  path inside the backend.
-/

namespace MountSpace

namespace System

/-! ## What lies behind a backend -/

/-- Calls at a backend may come to it and, where it is a composite, to what lies behind
those it sends calls to. -/
inductive Behind (s : System) (b : BackendId) : BackendId → Prop
  | self : Behind s b b
  | mounted {c d : BackendId} {table : Nat} (behind : Behind s b c)
      (there : s.backends[c]? = some (.composite table))
      (named : (s.volumes.tables table).Names d) : Behind s b d

/-- Two systems differ at most in the trees and the stores of the backends behind one, and in the
time of the clock and the ids that have been drawn. -/
structure ChangesBehind (s : System) (b : BackendId) (s' : System) : Prop where
  backends : s'.backends = s.backends
  tables : s'.volumes.tables = s.volumes.tables
  trees : ∀ i, (∀ c, s.Behind b c → s.backends[c]? ≠ some (.memory i)) →
    s'.volumes.trees i = s.volumes.trees i
  stores : ∀ j, (∀ c readOnly, s.Behind b c → s.backends[c]? ≠ some (.keyValue j readOnly)) →
    s'.volumes.stores j = s.volumes.stores j

variable {s : System} {b c : BackendId} {table : Nat} {p k : Path}

theorem ChangesBehind.refl (s : System) (b : BackendId) : s.ChangesBehind b s :=
  ⟨rfl, rfl, fun _ _ => rfl, fun _ _ => rfl⟩

/-- One volume may change that is kept behind the backend. -/
theorem ChangesBehind.step {v v' : Volumes} {vol : Volume} {x : Backend}
    (h : s.ChangesBehind b ⟨s.backends, v⟩) (only : v.ChangesOnly v' vol) (behind : s.Behind b c)
    (there : s.backends[c]? = some x) (kept : x.volume? = some vol) :
    s.ChangesBehind b ⟨s.backends, v'⟩ where
  backends := rfl
  tables := only.tables.trans h.tables
  trees := fun i free => by
    refine (only.trees i ?_).trans (h.trees i free)
    rintro rfl
    cases x with
    | memory i' =>
      cases kept
      exact free c behind there
    | keyValue j readOnly => cases kept
    | faulty inner faults capabilities => cases kept
    | composite table => cases kept
  stores := fun j free => by
    refine (only.stores j ?_).trans (h.stores j free)
    rintro rfl
    cases x with
    | memory i => cases kept
    | keyValue j' readOnly =>
      cases kept
      exact free c readOnly behind there
    | faulty inner faults capabilities => cases kept
    | composite table => cases kept

section

variable (inOrder : s.InOrder)
include inOrder

/-- Whatever is asked of a backend, only what lies behind it changes. -/
theorem InOrder.keeps_behind (b : BackendId) (hops : Nat) :
    (fileSystem s.backends hops b).Keeps fun v =>
    v.InOrder s.backends ∧ s.ChangesBehind b ⟨s.backends, v⟩ := by
  refine (fileSystem_keepsAt (s.Behind b) (fun v h => ⟨h.1.ticked, rfl, h.2.tables, h.2.trees,
    h.2.stores⟩) (fun c tree behind there => ?_) (fun c store readOnly behind there => ?_)
    (fun c inner faults capabilities _ there => (inOrder.within c _ there).elim)
    (fun v h c table q behind there => ?_) hops b .self).keeps
  · exact (memory_serves c tree).keepsAt (fun v h => h.1.sound c _ _ there rfl)
      (fun v v' h only _ => ⟨h.1.changesOnly only, h.2.step only behind there rfl⟩) fun f own _ =>
        own ▸ behind
  · exact (keyValue_serves c store readOnly).keepsAt (fun v h => h.1.sound c _ _ there rfl)
      (fun v v' h only _ => ⟨h.1.changesOnly only, h.2.step only behind there rfl⟩) fun f own _ =>
        own ▸ behind
  · -- The tables are as they were, so a composite sends calls where it did.
    have named := MountTable.names_resolve (v.tables table) q
    rw [show v.tables = s.volumes.tables from h.2.tables] at named ⊢
    exact .mounted behind there named

theorem InOrder.change_behind (b : BackendId) (hops : Nat) (ch : Change) :
    s.ChangesBehind b (s.run ((fileSystem s.backends hops b).change ch)).2 :=
  ((inOrder.keeps_behind b hops).change ch s.volumes ⟨inOrder.volumes, .refl s b⟩).2

theorem InOrder.openFile_behind (b : BackendId) (p : Path) (flags : OpenFlags) (mode : UInt32) :
    s.ChangesBehind b (s.openFile b p flags mode).2 :=
  ((inOrder.keeps_behind b _).openFile p flags mode s.volumes ⟨inOrder.volumes, .refl s b⟩).2

end

/-! ## What comes to the same at two paths -/

/-- All that is done at a path of a backend comes to the same as at a path of another one: the
answer is the same, a value or an error, and so is the system afterwards, in which only what lies
behind the other backend has changed. -/
structure Passes (s : System) (b : BackendId) (p : Path) (c : BackendId) (k : Path) : Prop where
  stat : s.stat b p = s.stat c k
  readdir : s.readdir b p = s.readdir c k
  readAll : s.readAll b p = s.readAll c k
  mkdir : ∀ mode, s.mkdir b p mode = s.mkdir c k mode ∧ s.ChangesBehind c (s.mkdir b p mode).2
  unlink : s.unlink b p = s.unlink c k ∧ s.ChangesBehind c (s.unlink b p).2
  rmdir : s.rmdir b p = s.rmdir c k ∧ s.ChangesBehind c (s.rmdir b p).2
  openFile : ∀ flags mode, s.openFile b p flags mode = s.openFile c k flags mode ∧
    s.ChangesBehind c (s.openFile b p flags mode).2
  sync : ∀ data attr, s.sync b p data attr = s.sync c k data attr ∧
    s.ChangesBehind c (s.sync b p data attr).2

theorem run_congr {α : Type} {act act' : Action Volumes α}
    (same : act.runOn s.volumes = act'.runOn s.volumes) :
    s.run act = s.run act' := by rw [run, run, same]

/-- What is left of a path is no longer than the path, so a bound that is enough for a path is
enough, less one hop, for what is left of it. -/
theorem enough_onward {n : Nat} {t : MountTable} {m : Path} (leads : t.resolve p = ⟨c, k, m⟩)
    (budget : s.hopBudget p ≤ n + 1) : s.backends.length * (k.segments.length + 1) ≤ n := by
  obtain ⟨u, hu⟩ := t.relative_suffix p
  have shorter : k.segments.length ≤ p.segments.length := by
    rw [hu, leads, Path.segments_append, List.length_append]
    exact Nat.le_add_left ..
  have longer : s.backends.length * (k.segments.length + 1) ≤
      s.backends.length * (p.segments.length + 1) :=
    Nat.mul_le_mul_left _ (Nat.succ_le_succ shorter)
  rw [hopBudget, Nat.succ_mul] at budget
  omega

section

variable (inOrder : s.InOrder) (there : s.backends[b]? = some (.composite table))
variable (clear : (s.volumes.tables table).IsClear p) {m : Path}
variable (leads : (s.volumes.tables table).resolve p = ⟨c, k, m⟩)
include inOrder there clear leads

/-- A call that a composite sends on comes to what the call comes to where it is sent. -/
theorem InOrder.sent_through {R : Type} {call : FileSystem → Path → R}
    {refuses : MountTable → Path → Bool} {lost : R} (sends : SendsOn s.volumes call refuses lost) :
    call (s.fileSystems p b) p = call (s.fileSystems k c) k := by
  obtain ⟨n, budget, asked⟩ := s.fileSystems_composite there p
  rw [asked, sends.clear table p clear, leads]
  exact sends.settled inOrder.plain (enough_onward leads (Nat.le_of_eq budget))
    (s.enough_hopBudget k)

theorem InOrder.passes : s.Passes b p c k where
  stat := inOrder.sent_through there clear leads (sendsOn_stat _)
  readdir := inOrder.sent_through there clear leads (sendsOn_readdir _)
  readAll := inOrder.sent_through there clear leads (sendsOn_readAll _)
  mkdir := fun mode => by
    have same := run_congr (inOrder.sent_through there clear leads (sendsOn_mkdir _ mode))
    exact ⟨same, (congrArg Prod.snd same).symm ▸ inOrder.change_behind c _ (.mkdir k mode)⟩
  unlink := by
    have same := run_congr (inOrder.sent_through there clear leads (sendsOn_unlink _))
    exact ⟨same, (congrArg Prod.snd same).symm ▸ inOrder.change_behind c _ (.unlink k)⟩
  rmdir := by
    have same := run_congr (inOrder.sent_through there clear leads (sendsOn_rmdir _))
    exact ⟨same, (congrArg Prod.snd same).symm ▸ inOrder.change_behind c _ (.rmdir k)⟩
  openFile := fun flags mode => by
    have same := run_congr (inOrder.sent_through there clear leads (sendsOn_openFile _ flags mode))
    exact ⟨same, (congrArg Prod.snd same).symm ▸ inOrder.openFile_behind c k flags mode⟩
  sync := fun data attr => by
    have same := run_congr (inOrder.sent_through there clear leads (sendsOn_sync _ data attr))
    exact ⟨same, (congrArg Prod.snd same).symm ▸ inOrder.change_behind c _ (.sync k data attr)⟩

theorem InOrder.rename_passes {p' k' m' : Path} (clear' : (s.volumes.tables table).IsClear p')
    (leads' : (s.volumes.tables table).resolve p' = ⟨c, k', m'⟩) :
    s.rename b p p' = s.rename c k k' ∧ s.ChangesBehind c (s.rename b p p').2 := by
  have same : s.rename b p p' = s.rename c k k' := by
    obtain ⟨n, budget, budget', asked⟩ := rename_eq there p p'
    have backend : ((s.volumes.tables table).resolve p).backend =
        ((s.volumes.tables table).resolve p').backend := by
      rw [leads, leads']
    rw [asked, Composite.rename_clear clear clear', if_pos backend, leads, leads']
    obtain ⟨longer, longer'⟩ := s.hopBudget_append k k'
    exact run_congr (rename_settled inOrder ⟨enough_onward leads budget,
      enough_onward leads' budget'⟩
      ⟨Nat.le_trans (s.enough_hopBudget k) longer, Nat.le_trans (s.enough_hopBudget k') longer'⟩)
  exact ⟨same, same ▸ inOrder.change_behind c _ (.rename k k')⟩

end

/-- **Mounts elsewhere are invisible**: a path that leads to a backend of a composite, and at or
below which no mount lies, is the path of that mount, or of the implicit root, followed by the path
inside the backend, which the backend reads as it is written. Everything that is done at it is done
by the backend at the path inside it, and so is a rename to another such path of the backend.
Nothing else changes. -/
theorem mounts_elsewhere_invisible (reachable : s.Reachable)
    (there : s.backends[b]? = some (.composite table)) (clear : (s.volumes.tables table).IsClear p)
    {m : Path} (leads : (s.volumes.tables table).resolve p = ⟨c, k, m⟩) :
    ((s.volumes.tables table).mounts.get? m = some c ∨
      m = .root ∧ c = (s.volumes.tables table).root) ∧
      p = m ++ k ∧ Path.ofText k.toText = k ∧ s.Passes b p c k ∧
      ∀ p' k' m', (s.volumes.tables table).IsClear p' →
      (s.volumes.tables table).resolve p' = ⟨c, k', m'⟩ →
        s.rename b p p' = s.rename c k k' ∧ s.ChangesBehind c (s.rename b p p').2 := by
  have inOrder := reachable.inOrder
  refine ⟨?_, ?_, Path.ofText_toText k, inOrder.passes there clear leads,
    fun p' k' m' clear' leads' => ?_⟩
  · rcases (s.volumes.tables table).resolve_cases p
      with ⟨n, d, l, mounted, -, leads', -⟩ | ⟨leads', -⟩
    · cases leads.symm.trans leads'
      exact .inl mounted
    · cases leads.symm.trans leads'
      exact .inr ⟨rfl, rfl⟩
  · have whole := (s.volumes.tables table).mountPath_append_relative p
    rwa [leads] at whole
  · exact inOrder.rename_passes there clear leads clear' leads'

/-- A composite with a tree at `/m`, which is itself at `/n` in another
composite, and holds a file. -/
def nested : System :=
  let s := ((empty .counting).addMemory.addMemory.addComposite 0).addMemory.addComposite 3
  let s := (s.mount 2 (.ofText "/m") 1).2
  let s := (s.mount 4 (.ofText "/n") 2).2
  (s.writeAll 4 (.ofText "/n/f") [120]).2

theorem nested_reached :
    nested.Reached [.memory 0, .memory 1, .composite 2, .memory 3, .composite 4] := by
  have inner := (Reached.empty .counting).addMemory.addMemory.addComposite (show 0 < _ by decide)
  have outer := inner.addMemory.addComposite (show 3 < _ by decide)
  have mounted := outer.mount (b := 2) rfl (show 1 < _ by decide) (.ofText "/m")
  have twice := mounted.mount (b := 4) rfl (show 2 < _ by decide) (.ofText "/n")
  exact twice.writeAll 4 (.ofText "/n/f") [120]

/-- The file is moved to the tree by the inner composite, which copies it. -/
theorem mounts_elsewhere_invisible_nested :
    nested.Reachable ∧ nested.backends[4]? = some (.composite 4) ∧
    (nested.volumes.tables 4).IsClear (.ofText "/n/f") ∧
    (nested.volumes.tables 4).resolve (.ofText "/n/f") = ⟨2, .ofText "/f", .ofText "/n"⟩ ∧
    nested.Passes 4 (.ofText "/n/f") 2 (.ofText "/f") ∧
    nested.rename 4 (.ofText "/n/f") (.ofText "/n/m/g") = nested.rename 2 (.ofText "/f")
      (.ofText "/m/g") ∧
    (nested.rename 4 (.ofText "/n/f") (.ofText "/n/m/g")).1 = .ok () := by
  have there : nested.backends[4]? = some (.composite 4) := by rw [nested_reached.backends]; rfl
  have clear : (nested.volumes.tables 4).IsClear (.ofText "/n/f") ∧
      (nested.volumes.tables 4).IsClear (.ofText "/n/m/g") := by decide +kernel
  have leads : (nested.volumes.tables 4).resolve (.ofText "/n/f") =
    ⟨2, .ofText "/f", .ofText "/n"⟩ ∧
      (nested.volumes.tables 4).resolve (.ofText "/n/m/g") = ⟨2, .ofText "/m/g", .ofText "/n"⟩ := by
    decide +kernel
  obtain ⟨-, -, -, passes, moves⟩ :=
    mounts_elsewhere_invisible nested_reached.reachable there clear.1 leads.1
  exact ⟨nested_reached.reachable, there, clear.1, leads.1, passes, (moves _ _ _ clear.2 leads.2).1,
    by decide +kernel⟩

end System

end MountSpace
