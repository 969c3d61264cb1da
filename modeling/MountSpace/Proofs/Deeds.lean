import MountSpace.Proofs.Frames
import MountSpace.Proofs.Session

/-!
# Everything a caller does with a composite

A caller asks a composite for something, stores content at a path, and mounts and unmounts. Whatever
is done, in whatever order and however much of it fails, what is to be retained is retained, as long
as the calls stay within reach.

- `Deed`, `Session.carry`, `Session.carryAll`: one thing that is done, and any number of them.
- `OpenFile.Keeps`: storing an open file keeps a property. It is about the place the file belongs
  to, so it goes over to the file after any operation on it.
- `Session.Upholds`, `Upholds.perform`: the invariant of a session: a property of the volumes holds,
  also when the open files are stored. A request to a backend that keeps the property upholds it.
- `Session.Retains`: what is to be retained is upheld.
- `Session.Retains.perform`, `carry`, `carryAll`: one request, one deed, and any number of them.
-/

namespace MountSpace

open MountSpace.Action

/-- What a caller can do with a composite. -/
inductive Deed where
  | ask (request : Request)
  /-- Stores content and attributes of a file that exists. -/
  | store (p : Path) (data : Bytes) (attr : FileAttr)
  | mount (p : Path) (c : BackendId)
  | unmount (p : Path)

namespace Deed

/-- A deed is a call, and leaves the mounts alone. -/
def IsCall : Deed → Prop
  | ask _ => True
  | store _ _ _ => True
  | mount _ _ => False
  | unmount _ => False

/-- A table that is as it should be stays so when a deed changes it. -/
def Maintains (T : MountTable → Prop) : Deed → Prop
  | ask _ => True
  | store _ _ _ => True
  | mount p c => ∀ t t' name, T t → t.Valid → t.insert p c name = .ok t' → T t'
  | unmount p => ∀ t t' c, T t → t.Valid → t.remove p = .ok (c, t') → T t'

theorem IsCall.maintains {d : Deed} (h : d.IsCall) (T : MountTable → Prop) : d.Maintains T := by
  cases d with
  | ask r => trivial
  | store p data attr => trivial
  | mount p c => exact h.elim
  | unmount p => exact h.elim

end Deed

namespace Session

/-- The session after something was done with a composite, which has a table. Whether it succeeded
can be told from the session alone. -/
def carry (b : BackendId) (table : Nat) (s : Session) : Deed → Session
  | .ask request => (s.perform b request).2
  | .store p data attr => { s with system := (s.system.sync b p data attr).2 }
  | .mount p c => { s with system := (s.system.mount table p c).2 }
  | .unmount p => { s with system := (s.system.unmount table p).2 }

/-- The session after several things were done, one after the other. -/
def carryAll (b : BackendId) (table : Nat) (s : Session) (deeds : List Deed) : Session :=
  deeds.foldl (carry b table) s

end Session

/-! ## Open files -/

/-- A property survives storing an open file, whatever is stored. -/
def OpenFile.Keeps (P : Volumes → Prop) (backends : List Backend) (f : OpenFile) : Prop :=
  ∀ hops data attr,
    Action.Keeps P ((fileSystem backends hops f.owner).change
      (.sync (Path.ofBytes f.path) data attr))

namespace OpenFile

variable {P : Volumes → Prop} {backends : List Backend} {f f' : OpenFile}

/-- It depends on the place that the file belongs to. -/
theorem Keeps.of_same (h : f.Keeps P backends) (owner : f'.owner = f.owner)
    (path : f'.path = f.path) : f'.Keeps P backends := by
  intro hops data attr
  rw [owner, path]
  exact h hops data attr

theorem Keeps.write {offset : Nat} {new : Bytes} {now : Instant} (h : f.Keeps P backends)
    (written : f.write offset new now = .ok f') : f'.Keeps P backends := by
  rw [(write_ok written).1]
  exact h.of_same rfl rfl

theorem Keeps.truncate {size : Nat} {now : Instant} (h : f.Keeps P backends)
    (cut : f.truncate size now = .ok f') : f'.Keeps P backends := by
  rw [truncate_ok cut]
  exact h.of_same rfl rfl

theorem Keeps.sync {fs : FileSystem} {v v' : Volumes} (h : f.Keeps P backends)
    (stored : (f.sync fs).runOn v = (.ok f', v')) : f'.Keeps P backends := by
  rw [sync_ok stored]
  exact h.of_same rfl rfl

theorem Keeps.close {fs : FileSystem} {v v' : Volumes} (h : f.Keeps P backends)
    (stored : (f.close fs).runOn v = (.ok f', v')) : f'.Keeps P backends := by
  rw [close_ok stored]
  exact h.of_same rfl rfl

end OpenFile

/-! ## The invariant of a session -/

/-- A property of the volumes holds, and survives storing the open files. -/
structure Session.Upholds (P : Volumes → Prop) (backends : List Backend) (s : Session) : Prop where
  same : s.system.backends = backends
  volumes : P s.system.volumes
  handles : ∀ n f, s.handles n = some f → f.Keeps P backends

namespace Session.Upholds

variable {P : Volumes → Prop} {Q : OpenFile → Prop} {backends : List Backend} {b : BackendId}
  {s : Session}

/-- A session is a system and its open files. -/
theorem withSystem (h : s.Upholds P backends) {system : System} (same : system.backends = backends)
    (kept : P system.volumes) : Upholds P backends { s with system } :=
  ⟨same, kept, h.handles⟩

theorem settle (h : s.Upholds P backends) {act : Action Volumes Unit} (keeps : Action.Keeps P act) :
    (s.settle (s.system.run act)).2.Upholds P backends :=
  h.withSystem h.same (keeps _ h.volumes)

theorem hold (h : s.Upholds P backends) (n : Nat) {act : Action Volumes OpenFile}
    (keeps : Action.Keeps P act)
    (held : ∀ f v', act.runOn s.system.volumes = (.ok f, v') → f.Keeps P backends) :
    (s.hold n (s.system.run act)).2.Upholds P backends := by
  have kept := keeps _ h.volumes
  rw [System.run]
  cases hr : act.runOn s.system.volumes with
  | mk result v' =>
    rw [hr] at kept
    cases result with
    | error e => exact h.withSystem h.same kept
    | ok f =>
      refine ⟨h.same, kept, fun k g found => ?_⟩
      have found : setAt s.handles n (some f) k = some g := found
      by_cases e : k = n
      · rw [e, setAt_self] at found
        cases found
        exact held f v' hr
      · rw [setAt_other _ _ e] at found
        exact h.handles k g found

theorem withHandle (h : s.Upholds P backends) {n : Nat}
    {call : OpenFile → Except FsError Bytes × Session}
    (called : ∀ f, f.Keeps P backends → (call f).2.Upholds P backends) :
    (s.withHandle n call).2.Upholds P backends := by
  rw [Session.withHandle]
  cases hf : s.handles n with
  | none => exact h
  | some f => exact called f (h.handles n f hf)

variable (asked : ∀ hops, (fileSystem backends hops b).KeepsAt P (fun _ => True) (fun _ => True) Q)
include asked

/-- Content is stored at a path of a backend that keeps the property. -/
theorem store (h : s.Upholds P backends) (p : Path) (data : Bytes) (attr : FileAttr) :
    Upholds P backends { s with system := (s.system.sync b p data attr).2 } := by
  refine h.withSystem h.same ?_
  rw [System.sync, System.fileSystems, h.same]
  exact (asked _).keeps.change (.sync p data attr) _ h.volumes

variable (ticks : ∀ v : Volumes, P v → P v.ticked)
  (opened : ∀ f : OpenFile, Q f → f.Keeps P backends)
include ticks opened

/-- One request to a backend that keeps the property, if storing the files that it
opens keeps it, too. -/
theorem perform (h : s.Upholds P backends) (r : Request) :
    (s.perform b r).2.Upholds P backends := by
  have asked : ∀ p, (s.system.fileSystems p b).KeepsAt P (fun _ => True) (fun _ => True) Q := by
    intro p
    rw [System.fileSystems, h.same]
    exact asked _
  have now : Action.Keeps P Volumes.now := Volumes.keeps_now ticks
  cases r with
  | mkdir p mode => exact h.settle ((asked p).keeps.change (.mkdir p mode))
  | unlink p => exact h.settle ((asked p).keeps.change (.unlink p))
  | rmdir p => exact h.settle ((asked p).keeps.change (.rmdir p))
  | rename source target => exact h.settle ((asked _).keeps.change (.rename source target))
  | writeAll p data =>
    refine h.settle
      (FileSystem.keeps_writeAll (asked p) (fun f held data attr => ?_) ticks trivial data)
    rw [System.fileSystems, h.same]
    exact opened f held _ data attr
  | openFile n p flags mode =>
    refine h.hold n ((asked p).keeps.openFile p flags mode) fun f v' made => opened f ?_
    exact ((asked p).openFile p flags mode trivial _ h.volumes).2 f (congrArg Prod.fst made)
  -- The other requests are about an open file.
  | read n offset size => exact h.withHandle fun f _ => h
  | write n offset data =>
    refine h.withHandle fun f hf =>
      h.hold n (now.bind fun _ => keeps_ofExcept _) fun f' v' made => ?_
    rw [Volumes.runOn_now_bind, runOn_ofExcept] at made
    exact hf.write (congrArg Prod.fst made)
  | truncate n size =>
    refine h.withHandle fun f hf =>
      h.hold n (now.bind fun _ => keeps_ofExcept _) fun f' v' made => ?_
    rw [Volumes.runOn_now_bind, runOn_ofExcept] at made
    exact hf.truncate (congrArg Prod.fst made)
  | sync n =>
    refine h.withHandle fun f hf => h.hold n ?_ fun f' v' made => hf.sync made
    rw [System.fileSystems, h.same]
    exact OpenFile.keeps_sync (hf _ _ _)
  | close n =>
    refine h.withHandle fun f hf => h.hold n ?_ fun f' v' made => hf.close made
    rw [System.fileSystems, h.same]
    exact OpenFile.keeps_close (hf _ _ _)

end Session.Upholds

/-- The volumes retain what they should, also when the open files are stored. -/
structure Session.Retains (backends : List Backend) (table : Nat) (T : MountTable → Prop)
    (G : Volume → Space → Prop) (s : Session) : Prop where
  same : s.system.backends = backends
  volumes : s.system.volumes.Retains backends table T G
  handles : ∀ n f, s.handles n = some f → f.Keeps (Volumes.Retains backends table T G) backends

namespace Session.Retains

variable {backends : List Backend} {table : Nat} {T : MountTable → Prop} {G : Volume → Space → Prop}
variable {R : Reach} {b : BackendId} {s : Session}

theorem upholds (h : s.Retains backends table T G) :
    s.Upholds (Volumes.Retains backends table T G) backends := ⟨h.same, h.volumes, h.handles⟩

theorem of_upholds (h : s.Upholds (Volumes.Retains backends table T G) backends) :
    s.Retains backends table T G := ⟨h.same, h.volumes, h.handles⟩

theorem withSystem (h : s.Retains backends table T G) {system : System}
    (same : system.backends = backends) (kept : system.volumes.Retains backends table T G) :
    Retains backends table T G { s with system } :=
  of_upholds (h.upholds.withSystem same kept)

variable (spares : R.Spares backends G) (covers : ∀ t, T t → R.Covers t)
variable (there : backends[b]? = some (.composite table))
include spares covers there

/-- One request. -/
theorem perform (h : s.Retains backends table T G) (r : Request) :
    (s.perform b r).2.Retains backends table T G :=
  of_upholds (h.upholds.perform (keepsAt_table spares covers there) (fun _ h => h.ticked)
    (fun _ held hops data attr => keeps_stored spares held hops data attr) r)

/-- One deed. -/
theorem carry (h : s.Retains backends table T G) {d : Deed} (maintains : d.Maintains T) :
    (s.carry b table d).Retains backends table T G := by
  have valid := h.volumes.inOrder.valid b table there
  cases d with
  | ask r => exact h.perform spares covers there r
  | store p data attr =>
    exact of_upholds (h.upholds.store (keepsAt_table spares covers there) p data attr)
  | mount p c =>
    refine h.withSystem h.same ?_
    rw [System.mount, System.fileSystems, h.same, System.run]
    rcases h.volumes.mount_cases spares there (fun a _ => (covers _ h.volumes.table).near a) _ c
        with ⟨e, v', hr, kept⟩ | ⟨t', name, v', inserted, hr, kept⟩
    · rw [hr]
      exact kept
    · rw [hr]
      exact ⟨kept.inOrder,
        kept.table ▸ maintains _ t' name h.volumes.table valid inserted, kept.spaces⟩
  | unmount p =>
    refine h.withSystem h.same ?_
    rw [System.unmount, System.run]
    rcases h.volumes.unmount_cases there p with ⟨e, -, hr⟩ | ⟨c, t', v', removed, hr, kept⟩
    · rw [hr]
      exact h.volumes
    · rw [hr]
      exact ⟨kept.inOrder, kept.table ▸ maintains _ t' c h.volumes.table valid removed, kept.spaces⟩

/-- Any number of deeds. -/
theorem carryAll (h : s.Retains backends table T G) {deeds : List Deed}
    (maintains : ∀ d ∈ deeds, d.Maintains T) :
    (s.carryAll b table deeds).Retains backends table T G := by
  induction deeds generalizing s with
  | nil => exact h
  | cons d deeds ih =>
    exact ih (h.carry spares covers there (maintains d List.mem_cons_self)) fun d' mem =>
      maintains d' (List.mem_cons_of_mem _ mem)

end Session.Retains

end MountSpace
