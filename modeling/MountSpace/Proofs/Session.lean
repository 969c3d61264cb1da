import Mathlib.Control.Monad.Basic
import MountSpace.System

/-!
# Sequences of requests

A session is a system together with the files a caller has open in it, each known by a number that
the caller chose. A request is answered, and leaves a session.

- `Request`: what a caller can ask of one backend.
- `Session.perform`, `Session.run`: one request, and any number of them.
- `Session.fresh`: a session over a system, with no file open.
- `Ambient.counting`: a clock and ids for concrete runs.
- `Inode.bare`, `RecordStore.rooted`: records for concrete stores.
-/

namespace MountSpace

/-- What a caller can ask of a backend. Handles are numbers that the caller chooses. -/
inductive Request where
  | mkdir (p : Path) (mode : UInt32)
  | unlink (p : Path)
  | rmdir (p : Path)
  | rename (source target : Path)
  | writeAll (p : Path) (data : Bytes)
  | openFile (handle : Nat) (p : Path) (flags : OpenFlags) (mode : UInt32)
  | read (handle offset size : Nat)
  | write (handle offset : Nat) (data : Bytes)
  | truncate (handle size : Nat)
  | sync (handle : Nat)
  | close (handle : Nat)

/-- A system and the files that are open in it. -/
structure Session where
  system : System
  handles : Nat → Option OpenFile

/-- A clock that stands still, and ids that count up from zero. -/
def Ambient.counting : Ambient := ⟨fun _ => .epoch, 0, fun n => ⟨BitVec.ofNat 128 n⟩, 0⟩

/-- No two of the ids are the same that come from here on and before a given draw. -/
def Ambient.DrawsApart (a : Ambient) (b : Nat) : Prop :=
  ∀ m n, a.draws ≤ m → m < n → n < b → a.ids m ≠ a.ids n

/-- The first hundred ids that count up are different. -/
theorem Ambient.counting_drawsApart {b : Nat} (h : b ≤ 100) : Ambient.counting.DrawsApart b := by
  intro m n _ lt bounded same
  have bits : (BitVec.ofNat 128 m).toNat = (BitVec.ofNat 128 n).toNat :=
    congrArg (fun u : Uuid => u.bits.toNat) same
  rw [BitVec.toNat_ofNat, BitVec.toNat_ofNat] at bits
  omega

/-- The record of an inode of which all is zero but the mode, or nothing if
there is no such inode. -/
def Inode.bare (contentId : String) (mode : UInt16) : Bytes :=
  ((Inode.make contentId 0 0 0 mode default default default).toOption.map Inode.encode).getD []

/-- A store with a root that has the given entries, and with other records. -/
def RecordStore.rooted (entries : List (String × String)) (others : List (String × Bytes)) :
    RecordStore :=
  .ofRecords
    (.ofList (("/", Inode.bare "c0" 0o40755) :: ("c0", Listing.encode (.ofList entries)) :: others))

namespace Session

/-- A session without open files. -/
def fresh (s : System) : Session := ⟨s, fun _ => none⟩

/-- The answer to a call that returns nothing, and the session after it. -/
def settle (s : Session) (outcome : Except FsError Unit × System) :
    Except FsError Bytes × Session :=
  (outcome.1.map fun _ => [], { s with system := outcome.2 })

/-- The answer to a call that returns an open file, and the session in which it has a number. -/
def hold (s : Session) (handle : Nat) (outcome : Except FsError OpenFile × System) :
    Except FsError Bytes × Session :=
  match outcome with
  | (.ok f, system) => (.ok [], ⟨system, setAt s.handles handle (some f)⟩)
  | (.error e, system) => (.error e, { s with system })

/-- The answer to a call about an open file; there is none if no file has the number. -/
def withHandle (s : Session) (handle : Nat) (call : OpenFile → Except FsError Bytes × Session) :
    Except FsError Bytes × Session :=
  match s.handles handle with
  | some f => call f
  | none => (.error (.other "no such handle"), s)

/-- The answer to a request, and the session after it. -/
def perform (b : BackendId) (s : Session) : Request → Except FsError Bytes × Session
  | .mkdir p mode => s.settle (s.system.mkdir b p mode)
  | .unlink p => s.settle (s.system.unlink b p)
  | .rmdir p => s.settle (s.system.rmdir b p)
  | .rename source target => s.settle (s.system.rename b source target)
  | .writeAll p data => s.settle (s.system.writeAll b p data)
  | .openFile handle p flags mode => s.hold handle (s.system.openFile b p flags mode)
  | .read handle offset size => s.withHandle handle fun f => (f.read offset size, s)
  | .write handle offset data =>
    s.withHandle handle fun f => s.hold handle (s.system.write f offset data)
  | .truncate handle size => s.withHandle handle fun f => s.hold handle (s.system.truncate f size)
  | .sync handle => s.withHandle handle fun f => s.hold handle (s.system.syncFile f)
  | .close handle => s.withHandle handle fun f => s.hold handle (s.system.closeFile f)

/-- The session after requests, one after the other. -/
def run (b : BackendId) (s : Session) (requests : List Request) : Session :=
  requests.foldl (fun s r => (s.perform b r).2) s

end Session

end MountSpace
