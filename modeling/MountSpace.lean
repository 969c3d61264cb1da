import MountSpace.Inspect
import MountSpace.Json.Attr
import MountSpace.Layout.Build
import MountSpace.Layout.Document
import MountSpace.Path.Spelling
import MountSpace.Proofs.AbsentSource
import MountSpace.Proofs.Directories
import MountSpace.Proofs.Emptying
import MountSpace.Proofs.Failures
import MountSpace.Proofs.FileMoves
import MountSpace.Proofs.Flatten
import MountSpace.Proofs.InodeRewrites
import MountSpace.Proofs.InodeUpdate
import MountSpace.Proofs.Integrity
import MountSpace.Proofs.LayoutBuild
import MountSpace.Proofs.MountEffect
import MountSpace.Proofs.MountHistory
import MountSpace.Proofs.MountListing
import MountSpace.Proofs.MovedMetadata
import MountSpace.Proofs.NormalForm
import MountSpace.Proofs.Offsets
import MountSpace.Proofs.Passage
import MountSpace.Proofs.Protection
import MountSpace.Proofs.ReadOnly
import MountSpace.Proofs.Relocation
import MountSpace.Proofs.Rename
import MountSpace.Proofs.RenameFailures
import MountSpace.Proofs.SessionEquivalence
import MountSpace.Proofs.Shadowing
import MountSpace.Proofs.SharedFile
import MountSpace.Proofs.SinglePath
import MountSpace.Proofs.TreeIntegrity
import MountSpace.Proofs.UnwriteableFiles
import MountSpace.Snapshot
