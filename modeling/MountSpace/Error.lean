import MountSpace.Inode.Basic

/-!
# Reasons a filesystem operation fails

- `FsError`: the reason, with the path or detail it concerns.
- `FsError.message`, `FsError.code`: its text and its POSIX code.
- `FsError.toHost`: the reason in the host's own terms, for callers that speak those.
- `FsError.ofInode`: an unreadable record as a reason.
-/

namespace MountSpace

/-- The kinds of failure the host knows. -/
inductive HostErrorKind where
  | notFound
  | permissionDenied
  | alreadyExists
  | notADirectory
  | isADirectory
  | directoryNotEmpty
  | readOnlyFilesystem
  | resourceBusy
  | invalidInput
  | invalidData
  | fileTooLarge
  | crossesDevices
  | timedOut
  | other
  deriving DecidableEq, Repr

/-- A failure in the host's terms. -/
structure HostError where
  kind : HostErrorKind
  message : String
  deriving DecidableEq, Repr

/-- Why an operation failed. -/
inductive FsError where
  | notFound (path : String)
  | alreadyExists (path : String)
  | permissionDenied (detail : String)
  | readOnly
  | notADirectory (path : String)
  | isADirectory (path : String)
  | directoryNotEmpty (path : String)
  /-- The change would disturb a mount point. -/
  | busy (path : String)
  /-- The path is taken, or the backend is mounted elsewhere. -/
  | alreadyMounted (detail : String)
  | notMounted (path : String)
  /-- A stored record cannot be understood. -/
  | malformedRecord (detail : String)
  | invalidPath (detail : String)
  /-- A file would outgrow the greatest size that can be recorded. -/
  | fileTooLarge (detail : String)
  /-- A directory would have to move between backends. -/
  | crossDeviceLink
  /-- Directories or mounts lead back to themselves, so that following them has no end. -/
  | endless
  | host (error : HostError)
  | other (detail : String)
  deriving DecidableEq, Repr

namespace FsError

def message : FsError → String
  | notFound path => "not found: " ++ path
  | alreadyExists path => "already exists: " ++ path
  | permissionDenied detail => "permission denied: " ++ detail
  | readOnly => "filesystem is read-only"
  | notADirectory path => "not a directory: " ++ path
  | isADirectory path => "is a directory: " ++ path
  | directoryNotEmpty path => "directory not empty: " ++ path
  | busy path => "resource busy: " ++ path
  | alreadyMounted detail => "already mounted: " ++ detail
  | notMounted path => "not mounted: " ++ path
  | malformedRecord detail => "malformed record: " ++ detail
  | invalidPath detail => "invalid path: " ++ detail
  | fileTooLarge detail => "file too large: " ++ detail
  | crossDeviceLink => "cross-device link"
  | endless => "too many levels"
  | host error => "I/O error: " ++ error.message
  | other detail => detail

/-- The name of the POSIX error code. -/
def code : FsError → String
  | notFound _ => "ENOENT"
  | alreadyExists _ => "EEXIST"
  | permissionDenied _ => "EACCES"
  | readOnly => "EROFS"
  | notADirectory _ => "ENOTDIR"
  | isADirectory _ => "EISDIR"
  | directoryNotEmpty _ => "ENOTEMPTY"
  | busy _ | alreadyMounted _ => "EBUSY"
  | notMounted _ | invalidPath _ => "EINVAL"
  | fileTooLarge _ => "EFBIG"
  | crossDeviceLink => "EXDEV"
  | endless => "ELOOP"
  | malformedRecord _ | host _ | other _ => "EIO"

def isNotFound : FsError → Bool
  | notFound _ => true
  | _ => false

/-- The reason in the host's terms: what it concerns, without the words that name the reason. -/
def toHost : FsError → HostError
  | notFound path => ⟨.notFound, path⟩
  | alreadyExists path => ⟨.alreadyExists, path⟩
  | permissionDenied detail => ⟨.permissionDenied, detail⟩
  | readOnly => ⟨.readOnlyFilesystem, message readOnly⟩
  | notADirectory path => ⟨.notADirectory, path⟩
  | isADirectory path => ⟨.isADirectory, path⟩
  | directoryNotEmpty path => ⟨.directoryNotEmpty, path⟩
  | busy detail | alreadyMounted detail => ⟨.resourceBusy, detail⟩
  | notMounted detail | invalidPath detail => ⟨.invalidInput, detail⟩
  | malformedRecord detail => ⟨.invalidData, detail⟩
  | fileTooLarge detail => ⟨.fileTooLarge, detail⟩
  | crossDeviceLink => ⟨.crossesDevices, message crossDeviceLink⟩
  | endless => ⟨.other, message endless⟩
  | host error => error
  | other detail => ⟨.other, detail⟩

/-- An unreadable record as a reason. -/
def ofInode (e : InodeError) : FsError := malformedRecord e.message

end FsError

end MountSpace
