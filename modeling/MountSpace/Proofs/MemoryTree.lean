import MountSpace.Memory.Tree
import MountSpace.Proofs.Mode
import MountSpace.Proofs.Space

/-!
# Trees in memory as spaces

What each operation on a tree does to the space that the tree stands for. An operation fails exactly
when its change may not happen.

- `MemoryTree.space`: what a tree looks like from outside.
- `MemoryTree.Sound`: it looks like a tree, and attributes agree with what they belong to.
- `stat_answer`, `readAll_answer`, `readdir_answer`: inquiries.
- `MemoryTree.change`, `change_carries`: changes.
- `get?_carryAll_below`, `get?_relocate`: where carrying nodes one by one leaves them, in whatever
  order they are taken.
- `Shifts`, `rename_shifts`: what becomes of each node when an entry is moved.
- `openFile_carries`: opening a file.
-/

namespace MountSpace

namespace MemoryTree

namespace Node

/-- What a caller can tell about a node. -/
def entry : Node → Entry
  | file data attr => .file (attr.perm &&& permMask) data
  | directory attr => .directory (attr.perm &&& permMask)

/-- The attributes of a node are about what the node is. -/
def Sound : Node → Prop
  | file data attr => attr.kind = .file ∧ attr.size = data.length.toUInt64
  | directory attr => attr.kind = .directory

/-- The content of a file. -/
def content? : Node → Option Bytes
  | file data _ => some data
  | directory _ => none

@[simp] theorem kind_entry (n : Node) : n.entry.kind = n.kind := by cases n <;> rfl

@[simp] theorem entry_changedAt (now : Instant) (n : Node) : (n.changedAt now).entry = n.entry := by
  cases n <;> rfl

@[simp] theorem content?_changedAt (now : Instant) (n : Node) :
    (n.changedAt now).content? = n.content? := by cases n <;> rfl

theorem attr_changedAt (now : Instant) (n : Node) :
    (n.changedAt now).attr = { n.attr with ctime := now } := by cases n <;> rfl

@[simp] theorem entry_newFile (mode : UInt32) (now : Instant) :
    (file [] (.file 0 mode now)).entry = .file (mode &&& permMask) [] := by
  show Entry.file (mode &&& permMask &&& permMask) [] = _
  rw [perm_idem]

@[simp] theorem entry_newDirectory (mode : UInt32) (now : Instant) :
    (directory (.directory mode now)).entry = .directory (mode &&& permMask) := by
  show Entry.directory (mode &&& permMask &&& permMask) = _
  rw [perm_idem]

theorem Sound.changedAt {n : Node} (h : n.Sound) (now : Instant) : (n.changedAt now).Sound := by
  cases n <;> exact h

theorem Sound.shows {n : Node} (h : n.Sound) : n.entry.Shows n.attr := by
  cases n with
  | file data attr =>
    refine ⟨h.1, rfl, fun data' hd _ => ?_⟩
    cases hd
    exact h.2
  | directory attr => exact ⟨h, rfl, fun _ hd => by cases hd⟩

end Node

/-- What a tree looks like from outside. -/
def space (t : MemoryTree) : Space := fun p => (t.get? p).map Node.entry

/-- The nodes of a tree hang together, and each has attributes that fit it. -/
structure Sound (t : MemoryTree) : Prop where
  tree : t.space.IsTree
  nodes : ∀ p n, t.get? p = some n → n.Sound

/-- What came of a change of a tree: it was allowed and took place, or it was not allowed. -/
def Carries (t : MemoryTree) (c : Change) : Except FsError MemoryTree → Prop
  | .ok t' => t.space.Allows c ∧ t'.Sound ∧ t'.space = t.space.after c
  | .error _ => ¬t.space.Allows c

variable {t : MemoryTree}

/-! ## Looking at a tree -/

theorem space_some {p : Path} {n : Node} (h : t.get? p = some n) : t.space p = some n.entry := by
  rw [space, h, Option.map_some]

theorem space_none {p : Path} (h : t.get? p = none) : t.space p = none := by
  rw [space, h, Option.map_none]

theorem space_eq_none_iff {p : Path} : t.space p = none ↔ t.get? p = none := Option.map_eq_none_iff

theorem isFile_iff {p : Path} :
    t.space.IsFile p ↔ ∃ data attr, t.get? p = some (.file data attr) := by
  constructor
  · rintro ⟨perm, data, h⟩
    obtain ⟨_ | _, hn, he⟩ := Option.map_eq_some_iff.1 h <;> cases he
    exact ⟨_, _, hn⟩
  · rintro ⟨data, attr, h⟩
    exact ⟨_, _, space_some h⟩

theorem isDirectory_iff {p : Path} :
    t.space.IsDirectory p ↔ ∃ attr, t.get? p = some (.directory attr) := by
  constructor
  · rintro ⟨perm, h⟩
    obtain ⟨_ | _, hn, he⟩ := Option.map_eq_some_iff.1 h <;> cases he
    exact ⟨_, hn⟩
  · rintro ⟨attr, h⟩
    exact ⟨_, space_some h⟩

theorem isEntryOf_iff {p q : Path} : isEntryOf p q = true ↔ ∃ s : Segment, q = p.child s := by
  rw [isEntryOf, Bool.and_eq_true, Bool.not_eq_true', beq_iff_eq]
  constructor
  · rintro ⟨nonroot, rfl⟩
    obtain ⟨s, hs⟩ := Path.exists_name fun h => by
      rw [Path.isRoot_iff.2 h] at nonroot
      cases nonroot
    exact ⟨s, Path.eq_child hs⟩
  · rintro ⟨s, rfl⟩
    refine ⟨?_, Path.parent_child p s⟩
    rw [Bool.eq_false_iff, ne_eq, Path.isRoot_iff]
    exact Path.child_ne_root p s

theorem hasEntries_iff {p : Path} : t.hasEntries p = true ↔ t.space.HasEntries p := by
  rw [hasEntries, List.any_eq_true]
  constructor
  · rintro ⟨q, hq, he⟩
    obtain ⟨s, rfl⟩ := isEntryOf_iff.1 he
    obtain ⟨n, hn⟩ := SortedMap.mem_keys_iff.1 hq
    exact ⟨s, by rw [space_some hn]; exact Option.some_ne_none _⟩
  · rintro ⟨s, hs⟩
    obtain ⟨n, hn⟩ := Option.ne_none_iff_exists'.1 fun h => hs (space_none (p := p.child s) h)
    exact ⟨_, SortedMap.mem_keys_iff.2 ⟨n, hn⟩, isEntryOf_iff.2 ⟨s, rfl⟩⟩

theorem checkDirectory_of {p : Path} (h : t.space.IsDirectory p) : t.checkDirectory p = .ok () := by
  obtain ⟨attr, hn⟩ := isDirectory_iff.1 h
  rw [checkDirectory, node, hn]
  rfl

theorem checkDirectory_of_not {p : Path} (h : ¬t.space.IsDirectory p) :
    ∃ e, t.checkDirectory p = .error e := by
  rw [checkDirectory, node]
  cases hn : t.get? p with
  | none => exact ⟨_, rfl⟩
  | some n =>
    cases n with
    | file data attr => exact ⟨_, rfl⟩
    | directory attr => exact absurd (isDirectory_iff.2 ⟨attr, hn⟩) h

/-! ## Inquiries -/

theorem stat_toOption (t : MemoryTree) (p : Path) :
    (t.stat p).toOption = (t.get? p).map Node.attr := by
  rw [stat, node]
  cases t.get? p <;> rfl

theorem readAll_toOption (t : MemoryTree) (p : Path) :
    (t.readAll p).toOption = (t.get? p).bind Node.content? := by
  rw [readAll, node]
  rcases t.get? p with _ | (_ | _) <;> rfl

/-- An inquiry where nothing is says so. -/
theorem stat_none {p : Path} (h : t.get? p = none) : t.stat p = .error (.notFound p.toText) := by
  rw [stat, node, h]
  rfl

theorem stat_answer (h : t.Sound) (p : Path) : t.space.Stats p (t.stat p) := by
  rw [stat, node]
  cases hn : t.get? p with
  | none => exact space_none hn
  | some n => exact ⟨n.entry, space_some hn, (h.nodes p n hn).shows⟩

theorem readAll_answer (t : MemoryTree) (p : Path) : t.space.Reads p (t.readAll p) := by
  rw [readAll, node]
  cases hn : t.get? p with
  | none => exact fun file => file.ne_none (space_none hn)
  | some n =>
    cases n with
    | file data attr => exact ⟨_, space_some hn⟩
    | directory attr => exact fun file => file.not_isDirectory (isDirectory_iff.2 ⟨attr, hn⟩)

/-- The line that a node adds to the listing of a directory. -/
def line (p q : Path) (n : Node) : Option DirEntry :=
  match q.name? with
  | some name => if q.parent = p then some ⟨name.text, n.kind⟩ else none
  | none => none

theorem line_eq_some_iff {p q : Path} {n : Node} {d : DirEntry} :
    line p q n = some d ↔ ∃ s : Segment, q = p.child s ∧ d = ⟨s.text, n.kind⟩ := by
  rcases Path.root_or_child q with rfl | ⟨r, s, rfl⟩
  · simp [line, fun s => (Path.child_ne_root p s).symm]
  · by_cases h : r = p
    · subst h
      simp [line, eq_comm]
    · simp [line, h]

theorem readdir_answer (t : MemoryTree) (p : Path) : t.space.Enumerates p (t.readdir p) := by
  rw [readdir]
  by_cases dir : t.space.IsDirectory p
  · rw [checkDirectory_of dir]
    refine ⟨dir, ?_, fun d => ?_⟩
    · rw [List.pairwise_filterMap]
      refine t.nodes.ascending.imp fun {a b} lt d hd d' hd' => ?_
      obtain ⟨s, hs, rfl⟩ := line_eq_some_iff.1 hd
      obtain ⟨s', hs', rfl⟩ := line_eq_some_iff.1 hd'
      rw [hs, hs'] at lt
      exact Path.name_lt lt
    · rw [List.mem_filterMap]
      constructor
      · rintro ⟨⟨q, n⟩, hm, hd⟩
        obtain ⟨s, rfl, rfl⟩ := line_eq_some_iff.1 hd
        exact ⟨s, n.entry, space_some (SortedMap.get?_eq_some_iff.2 hm), by rw [Node.kind_entry]⟩
      · rintro ⟨s, e, he, rfl⟩
        obtain ⟨n, hn, rfl⟩ := Option.map_eq_some_iff.1 he
        exact ⟨(p.child s, n), SortedMap.get?_eq_some_iff.1 hn,
          line_eq_some_iff.2 ⟨s, rfl, by rw [Node.kind_entry]⟩⟩
  · obtain ⟨e, he⟩ := checkDirectory_of_not dir
    rw [he]
    exact dir

/-- A listing fails as the inquiry does, or finds a file. -/
theorem readdir_error {p : Path} {e : FsError} (failed : t.readdir p = .error e) :
    t.stat p = .error e ∨ (t.stat p).isOk = true ∧ e.isNotFound = false := by
  rw [readdir, checkDirectory] at failed
  rw [stat]
  cases hn : t.node p with
  | error e' =>
    rw [hn] at failed
    cases failed
    exact .inl rfl
  | ok n =>
    rw [hn] at failed
    cases n with
    | directory attr => cases failed
    | file data attr =>
      cases failed
      exact .inr ⟨rfl, rfl⟩

/-! ## Changes -/

theorem get?_put (t : MemoryTree) (p : Path) (n : Node) (q : Path) :
    (t.put p n).get? q = if q = p then some n else t.get? q := SortedMap.get?_insert ..

theorem get?_remove (t : MemoryTree) (p q : Path) :
    (t.remove p).get? q = if q = p then none else t.get? q := SortedMap.get?_erase ..

@[simp] theorem space_put (t : MemoryTree) (p : Path) (n : Node) :
    (t.put p n).space = t.space.put p n.entry := by
  funext q
  rw [space, get?_put, Space.put]
  split <;> rfl

@[simp] theorem space_remove (t : MemoryTree) (p : Path) :
    (t.remove p).space = t.space.remove p := by
  funext q
  rw [space, get?_remove, Space.remove]
  split <;> rfl

namespace Sound

theorem put (h : t.Sound) {p : Path} {n : Node} (hn : n.Sound)
    (tree : (t.space.put p n.entry).IsTree) : (t.put p n).Sound where
  tree := by rwa [space_put]
  nodes := by
    intro q m hm
    rw [get?_put] at hm
    split at hm
    · cases hm
      exact hn
    · exact h.nodes q m hm

theorem remove (h : t.Sound) {p : Path} (tree : (t.space.remove p).IsTree) :
    (t.remove p).Sound where
  tree := by rwa [space_remove]
  nodes := by
    intro q m hm
    rw [get?_remove] at hm
    split at hm
    · cases hm
    · exact h.nodes q m hm

end Sound

theorem mkdir_carries (h : t.Sound) (p : Path) (mode : UInt32) (now : Instant) :
    t.Carries (.mkdir p mode) (t.mkdir p mode now) := by
  rw [mkdir]
  cases hn : t.get? p with
  | some n => exact fun free => Option.some_ne_none _ ((space_some hn).symm.trans free.1)
  | none =>
    by_cases dir : t.space.IsDirectory p.parent
    · have allowed : t.space.Allows (.mkdir p mode) := ⟨space_none hn, dir⟩
      have left := h.tree.after allowed
      rw [checkDirectory_of dir]
      rw [Space.after, ← Node.entry_newDirectory mode now] at left
      refine ⟨allowed, h.put rfl left, ?_⟩
      rw [space_put, Node.entry_newDirectory, Space.after]
    · obtain ⟨e, he⟩ := checkDirectory_of_not dir
      rw [he]
      exact fun free => dir free.2

/-- A new directory is reported just as it was made. -/
theorem stat_mkdir {t' : MemoryTree} {p : Path} {mode : UInt32} {now : Instant}
    (made : t.mkdir p mode now = .ok t') : t'.stat p = .ok (.directory mode now) := by
  rw [mkdir] at made
  cases hn : t.get? p with
  | some n =>
    rw [hn] at made
    cases made
  | none =>
    rw [hn] at made
    cases hd : t.checkDirectory p.parent with
    | error e =>
      rw [hd] at made
      cases made
    | ok _ =>
      rw [hd] at made
      cases made
      rw [stat, node, get?_put, if_pos rfl]
      rfl

theorem unlink_carries (h : t.Sound) (p : Path) : t.Carries (.unlink p) (t.unlink p) := by
  rw [unlink, node]
  cases hn : t.get? p with
  | none => exact fun file => file.ne_none (space_none hn)
  | some n =>
    cases n with
    | directory attr => exact fun file => file.not_isDirectory (isDirectory_iff.2 ⟨attr, hn⟩)
    | file data attr =>
      have allowed : t.space.Allows (.unlink p) := isFile_iff.2 ⟨data, attr, hn⟩
      exact ⟨allowed, h.remove (h.tree.after allowed), space_remove ..⟩

theorem rmdir_carries (h : t.Sound) (p : Path) : t.Carries (.rmdir p) (t.rmdir p) := by
  rw [rmdir]
  by_cases root : p.isRoot = true
  · rw [if_pos root]
    exact fun allowed => allowed.1 (Path.isRoot_iff.1 root)
  rw [if_neg root]
  by_cases dir : t.space.IsDirectory p
  · rw [checkDirectory_of dir]
    by_cases full : t.hasEntries p = true
    · rw [if_pos full]
      exact fun allowed => allowed.2.2 (hasEntries_iff.1 full)
    · rw [if_neg full]
      have allowed : t.space.Allows (.rmdir p) :=
        ⟨fun e => root (Path.isRoot_iff.2 e), dir, fun k => full (hasEntries_iff.2 k)⟩
      exact ⟨allowed, h.remove (h.tree.after allowed), space_remove ..⟩
  · obtain ⟨e, he⟩ := checkDirectory_of_not dir
    rw [he]
    exact fun allowed => dir allowed.2.1

theorem sync_carries (h : t.Sound) (p : Path) (data : Bytes) (attr : FileAttr) :
    t.Carries (.sync p data attr) (t.sync p data attr) := by
  rw [sync, node]
  cases hn : t.get? p with
  | none => exact fun file => file.ne_none (space_none hn)
  | some n =>
    cases n with
    | directory attr => exact fun file => file.not_isDirectory (isDirectory_iff.2 ⟨attr, hn⟩)
    | file _ _ =>
      have allowed : t.space.Allows (.sync p data attr) := isFile_iff.2 ⟨_, _, hn⟩
      exact ⟨allowed, h.put ⟨rfl, rfl⟩ (h.tree.after allowed), space_put ..⟩

/-! ## Moving an entry -/

theorem checkReplaceable_of {p : Path} {kind : FileKind} (h : t.space.Replaceable p kind) :
    t.checkReplaceable p kind = .ok () := by
  unfold checkReplaceable
  cases hn : t.get? p with
  | none => rfl
  | some n =>
    obtain ⟨same, empty⟩ := h _ (space_some hn)
    rw [Node.kind_entry] at same
    cases n with
    | file data attr =>
      cases same
      rfl
    | directory attr =>
      cases same
      exact if_neg fun k => empty (hasEntries_iff.1 k)

theorem checkReplaceable_of_not (tree : t.space.IsTree) {p : Path} {kind : FileKind}
    (h : ¬t.space.Replaceable p kind) : ∃ e, t.checkReplaceable p kind = .error e := by
  -- What stands there is of the other kind, or is a directory with entries.
  obtain ⟨e, he, clash⟩ : ∃ e, t.space p = some e ∧ ¬(e.kind = kind ∧ ¬t.space.HasEntries p) := by
    refine Classical.byContradiction fun k => h fun e he => ?_
    exact Classical.not_not.1 fun clash => k ⟨e, he, clash⟩
  obtain ⟨n, hn, rfl⟩ := Option.map_eq_some_iff.1 he
  unfold checkReplaceable
  rw [hn]
  cases n with
  | file data attr =>
    cases kind with
    | file => exact absurd ⟨rfl, tree.file_no_entries ⟨_, _, he⟩⟩ clash
    | directory => exact ⟨_, rfl⟩
  | directory attr =>
    cases kind with
    | file => exact ⟨_, rfl⟩
    | directory =>
      have full : t.hasEntries p = true :=
        Classical.not_not.1 fun k => clash ⟨rfl, fun l => k (hasEntries_iff.2 l)⟩
      exact ⟨_, if_pos full⟩

/-- What one node that is carried leaves at each path. -/
theorem get?_carry (t : MemoryTree) (source target p q : Path) :
    (carry source target t p).get? q =
      if q = target ++ p.relativeTo source then (t.get? p).or (t.get? q)
      else if q = p then none else t.get? q := by
  rw [carry]
  cases hp : t.get? p with
  | none =>
    by_cases here : q = p
    · simp [here, hp]
    · simp [here]
  | some n => rw [get?_put, get?_remove, Option.some_or]

section Carried

variable {source target : Path} {paths : List Path}

theorem carryAll_cons (p : Path) (rest : List Path) (t : MemoryTree) :
    carryAll source target (p :: rest) t =
      carryAll source target rest (carry source target t p) := rfl

/-- Paths that nothing is carried from or to keep what they have. -/
theorem get?_carryAll_other {q : Path} (unlisted : q ∉ paths)
    (untouched : ∀ p ∈ paths, q ≠ target ++ p.relativeTo source) (t : MemoryTree) :
    (carryAll source target paths t).get? q = t.get? q := by
  induction paths generalizing t with
  | nil => rfl
  | cons p rest ih =>
    obtain ⟨ne, unlisted⟩ := not_or.1 (mt List.mem_cons.2 unlisted)
    obtain ⟨apart, untouched⟩ := List.forall_mem_cons.1 untouched
    rw [carryAll_cons, ih unlisted untouched, get?_carry, if_neg apart, if_neg ne]

/-- Nothing is left where a node was carried from. -/
theorem get?_carryAll_left {q : Path} (listed : q ∈ paths) (outside : ¬target.isPrefixOf q = true)
    (t : MemoryTree) : (carryAll source target paths t).get? q = none := by
  have untouched : ∀ p : Path, q ≠ target ++ p.relativeTo source := fun p e =>
    outside (e ▸ Path.isPrefixOf_append ..)
  induction paths generalizing t with
  | nil => exact absurd listed List.not_mem_nil
  | cons p rest ih =>
    rw [carryAll_cons]
    by_cases later : q ∈ rest
    · exact ih later _
    · have here : q = p := (List.mem_cons.1 listed).resolve_right later
      rw [get?_carryAll_other later fun p _ => untouched p, get?_carry, if_neg (untouched p),
        if_pos here]

/-- A node that was carried is where it was carried to, in whatever order the nodes are taken. -/
theorem get?_carryAll_entered (once : paths.Nodup)
    (apart : ∀ q, source.isPrefixOf q = true → ¬target.isPrefixOf q = true)
    (below : ∀ p ∈ paths, source.isPrefixOf p = true) {p : Path} (listed : p ∈ paths)
    {t : MemoryTree} (free : t.get? (target ++ p.relativeTo source) = none) :
    (carryAll source target paths t).get? (target ++ p.relativeTo source) = t.get? p := by
  have unlisted : target ++ p.relativeTo source ∉ paths := fun mem =>
    apart _ (below _ mem) (Path.isPrefixOf_append ..)
  -- Different paths below the source are carried to different ones below the target.
  have injective : ∀ q ∈ paths, target ++ p.relativeTo source = target ++ q.relativeTo source →
      p = q := fun q mem e => by
    rw [← Path.append_relativeTo (below p listed), ← Path.append_relativeTo (below q mem),
      Path.append_cancel.1 e]
  induction paths generalizing t with
  | nil => exact absurd listed List.not_mem_nil
  | cons q rest ih =>
    obtain ⟨new, once⟩ := List.nodup_cons.1 once
    obtain ⟨ne, unlisted⟩ := not_or.1 (mt List.mem_cons.2 unlisted)
    obtain ⟨first, injective⟩ := List.forall_mem_cons.1 injective
    rw [carryAll_cons]
    by_cases here : p = q
    · have untouched : ∀ r ∈ rest, target ++ p.relativeTo source ≠ target ++ r.relativeTo source :=
        fun r mem e => new (here ▸ injective r mem e ▸ mem)
      rw [get?_carryAll_other unlisted untouched, get?_carry, here, if_pos rfl, ← here, free,
        Option.or_none]
    · have later : p ∈ rest := (List.mem_cons.1 listed).resolve_left here
      have away : p ≠ target ++ q.relativeTo source := fun e =>
        apart p (below p listed) (e ▸ Path.isPrefixOf_append ..)
      have free' : (carry source target t q).get? (target ++ p.relativeTo source) = none := by
        rw [get?_carry, if_neg fun e => here (first e), if_neg ne, free]
      rw [ih once (fun r mem => below r (List.mem_cons_of_mem _ mem)) later free' unlisted
        injective, get?_carry, if_neg away, if_neg here]

/-- Where the list has every path below the source that holds a node, the target comes to hold
below it what the source held below it. -/
theorem get?_carryAll_below (once : paths.Nodup) {t : MemoryTree}
    (listed : ∀ p, p ∈ paths ↔ source.isPrefixOf p = true ∧ t.get? p ≠ none)
    (apart : ∀ q, source.isPrefixOf q = true → ¬target.isPrefixOf q = true) {q : Path}
    (free : target.isPrefixOf q = true → t.get? q = none) :
    (carryAll source target paths t).get? q =
      if target.isPrefixOf q then t.get? (source ++ q.relativeTo target)
      else if source.isPrefixOf q then none else t.get? q := by
  have below : ∀ p ∈ paths, source.isPrefixOf p = true := fun p mem => ((listed p).1 mem).1
  by_cases above : target.isPrefixOf q = true
  · rw [if_pos above]
    have unlisted : q ∉ paths := fun mem => apart q (below q mem) above
    obtain ⟨k, rfl⟩ := Path.isPrefixOf_iff.1 above
    rw [Path.relativeTo_append]
    by_cases mem : source ++ k ∈ paths
    · have entered := get?_carryAll_entered once apart below mem (t := t)
      rw [Path.relativeTo_append] at entered
      exact entered (free above)
    · have missing : t.get? (source ++ k) = none := Classical.byContradiction fun taken =>
        mem ((listed _).2 ⟨Path.isPrefixOf_append .., taken⟩)
      have untouched : ∀ p ∈ paths, target ++ k ≠ target ++ p.relativeTo source := fun p hp e => by
        rw [Path.append_cancel.1 e, Path.append_relativeTo (below p hp)] at mem
        exact mem hp
      rw [get?_carryAll_other unlisted untouched, free above, missing]
  · have untouched : ∀ p ∈ paths, q ≠ target ++ p.relativeTo source := fun p _ e =>
      above (e ▸ Path.isPrefixOf_append ..)
    rw [if_neg above]
    by_cases under : source.isPrefixOf q = true
    · rw [if_pos under]
      by_cases mem : q ∈ paths
      · exact get?_carryAll_left mem above t
      · rw [get?_carryAll_other mem untouched]
        exact Classical.byContradiction fun taken => mem ((listed q).2 ⟨under, taken⟩)
    · rw [if_neg under, get?_carryAll_other (fun mem => under (below q mem)) untouched]

end Carried

/-- Nothing lies below a file, so that a move carries what lies below its source in any case. -/
theorem relocate_eq_carryAll (h : t.Sound) {source : Path} {n : Node}
    (hn : t.get? source = some n) (target : Path) : ∃ paths : List Path, paths.Nodup ∧
      (∀ p, p ∈ paths ↔ source.isPrefixOf p = true ∧ (t.remove source).get? p ≠ none) ∧
        t.relocate source target n = carryAll source target paths (t.remove source) := by
  cases n with
  | file data attr =>
    refine ⟨[], List.nodup_nil, fun p => iff_of_false List.not_mem_nil ?_, rfl⟩
    rintro ⟨under, taken⟩
    obtain ⟨k, rfl⟩ := Path.isPrefixOf_iff.1 under
    rw [get?_remove] at taken
    by_cases hk : k = .root
    · exact taken (by rw [hk, Path.append_root, if_pos rfl])
    · have file := isFile_iff.2 ⟨data, attr, hn⟩
      have childless : t.get? (source ++ k) = none :=
        space_eq_none_iff.1 (h.tree.nothing_below (h.tree.file_no_entries file) hk)
      exact taken (by rw [childless, ite_self])
  | directory attr =>
    refine ⟨(t.remove source).nodes.keys.filter source.isPrefixOf,
      (SortedMap.nodup_keys _).filter _, fun p => ?_, rfl⟩
    have held : p ∈ (t.remove source).nodes.keys ↔ (t.remove source).get? p ≠ none :=
      SortedMap.mem_keys_iff.trans Option.ne_none_iff_exists'.symm
    rw [List.mem_filter, held, and_comm]

/-- Where there is a source, and nothing below the target, no path lies below both. -/
theorem not_below_both {source target : Path} {n : Node} (hn : t.get? source = some n)
    (outside : ¬source.isPrefixOf target = true)
    (empty : ∀ k : Path, k ≠ .root → t.get? (target ++ k) = none) (q : Path)
    (under : source.isPrefixOf q = true) : ¬target.isPrefixOf q = true := by
  intro above
  rcases Path.isPrefixOf_total above under with above | below
  · obtain ⟨k, rfl⟩ := Path.isPrefixOf_iff.1 above
    by_cases hk : k = .root
    · exact outside (by rw [hk, Path.append_root]; exact Path.isPrefixOf_self _)
    · cases (empty k hk).symm.trans hn
  · exact outside below

/-- The moved tree holds below the target what the source held below it, and nothing at the
source. -/
theorem get?_relocate (h : t.Sound) {source target : Path} {n : Node}
    (hn : t.get? source = some n) (outside : ¬source.isPrefixOf target = true)
    (empty : ∀ k : Path, k ≠ .root → t.get? (target ++ k) = none) {q : Path} (hq : q ≠ target) :
    (t.relocate source target n).get? q =
      if target.isPrefixOf q then t.get? (source ++ q.relativeTo target)
      else if source.isPrefixOf q then none else t.get? q := by
  obtain ⟨paths, once, listed, moved⟩ := relocate_eq_carryAll h hn target
  have apart := not_below_both hn outside empty
  have free : target.isPrefixOf q = true → (t.remove source).get? q = none := fun above => by
    obtain ⟨k, rfl⟩ := Path.isPrefixOf_iff.1 above
    rw [get?_remove, empty k fun e => hq (by rw [e, Path.append_root]), ite_self]
  rw [moved, get?_carryAll_below once listed apart free]
  -- The source itself was taken out first: it is neither below the target nor beside itself.
  split
  next above =>
    obtain ⟨k, rfl⟩ := Path.isPrefixOf_iff.1 above
    have hk : k ≠ .root := fun e => hq (by rw [e, Path.append_root])
    rw [Path.relativeTo_append, get?_remove, if_neg fun e => hk (Path.append_eq_left.1 e)]
  next =>
    split
    next => rfl
    next beside =>
      have ne : q ≠ source := fun e => beside (by rw [e]; exact Path.isPrefixOf_self source)
      rw [get?_remove, if_neg ne]

/-- A move that may happen does to the tree what it does to the space. -/
theorem space_relocate (h : t.Sound) {source target : Path} {n : Node}
    (hn : t.get? source = some n) (now : Instant) (outside : ¬source.isPrefixOf target = true)
    (empty : ∀ k : Path, k ≠ .root → t.get? (target ++ k) = none) :
    ((t.relocate source target n).put target (n.changedAt now)).space =
      t.space.relocate source target := by
  rw [space_put, Node.entry_changedAt]
  funext q
  by_cases hq : q = target
  · rw [hq, Space.put_self, Space.relocate_target, space_some hn]
  · rw [Space.put_other _ hq, space, get?_relocate h hn outside empty hq, Space.relocate]
    split
    next => rfl
    next => split <;> rfl

theorem sound_relocate (h : t.Sound) {source target : Path} {n : Node}
    (hn : t.get? source = some n) (outside : ¬source.isPrefixOf target = true)
    (empty : ∀ k : Path, k ≠ .root → t.get? (target ++ k) = none) {p : Path} (hp : p ≠ target)
    {m : Node} (hm : (t.relocate source target n).get? p = some m) : m.Sound := by
  rw [get?_relocate h hn outside empty hp] at hm
  split at hm
  next => exact h.nodes _ m hm
  next =>
    split at hm
    next => cases hm
    next => exact h.nodes _ m hm

theorem rename_carries (h : t.Sound) (source target : Path) (now : Instant) :
    t.Carries (.rename source target) (t.rename source target now) := by
  rw [rename, node]
  cases hn : t.get? source with
  | none =>
    rintro ⟨-, e, he, -⟩
    cases (space_none hn).symm.trans he
  | some n =>
    show t.Carries _ (if source.isRoot = true then _ else _)
    by_cases root : source.isRoot = true
    · rw [if_pos root]
      exact fun allowed => allowed.1 (Path.isRoot_iff.1 root)
    have nonroot : source ≠ .root := fun e => root (Path.isRoot_iff.2 e)
    rw [if_neg root]
    by_cases same : source = target
    · rw [if_pos same]
      subst same
      refine ⟨⟨nonroot, _, space_some hn, .inl rfl⟩, h, ?_⟩
      rw [Space.after, Space.relocate_self]
    rw [if_neg same]
    -- From here on the move may happen just if the three checks that are left succeed.
    have movable : t.space.Movable source target ↔ ¬source.isPrefixOf target = true ∧
        t.space.IsDirectory target.parent ∧ t.space.Replaceable target n.kind := by
      constructor
      · rintro ⟨-, e, he, eq | move⟩
        · exact absurd eq same
        · cases (space_some hn).symm.trans he
          rwa [Node.kind_entry] at move
      · intro move
        rw [← Node.kind_entry] at move
        exact ⟨nonroot, _, space_some hn, .inr move⟩
    by_cases outside : source.isPrefixOf target = true
    · rw [if_pos outside]
      exact fun allowed => (movable.1 allowed).1 outside
    rw [if_neg outside]
    by_cases dir : t.space.IsDirectory target.parent
    · rw [checkDirectory_of dir]
      by_cases free : t.space.Replaceable target n.kind
      · rw [checkReplaceable_of free]
        have allowed := movable.2 ⟨outside, dir, free⟩
        have empty : ∀ k : Path, k ≠ .root → t.get? (target ++ k) = none := fun k hk =>
          space_eq_none_iff.1 (h.tree.replaceable_below free hk)
        have moved := space_relocate h hn now outside empty
        refine ⟨allowed, ⟨?_, fun p m hm => ?_⟩, moved⟩
        · exact moved ▸ h.tree.relocate allowed
        · rw [get?_put] at hm
          split at hm
          next =>
            cases hm
            exact (h.nodes _ _ hn).changedAt now
          next hp => exact sound_relocate h hn outside empty hp hm
      · obtain ⟨e, he⟩ := checkReplaceable_of_not h.tree free
        rw [he]
        exact fun allowed => free (movable.1 allowed).2.2
    · obtain ⟨e, he⟩ := checkDirectory_of_not dir
      rw [he]
      exact fun allowed => dir (movable.1 allowed).2.1

/-- The nodes at and below a target are those that were at and below a source, where nothing is
left. All others stay. Only the node that was moved is marked as changed. -/
structure Shifts (t t' : MemoryTree) (source target : Path) (now : Instant) : Prop where
  entry : ∃ n, t.get? source = some n ∧ t'.get? target = some (n.changedAt now)
  entered : ∀ k : Path, k ≠ .root → t'.get? (target ++ k) = t.get? (source ++ k)
  left : ∀ k : Path, t'.get? (source ++ k) = none
  other : ∀ q, ¬source.isPrefixOf q = true → ¬target.isPrefixOf q = true → t'.get? q = t.get? q

/-- What a move that succeeds returns. -/
theorem rename_ok {t' : MemoryTree} {source target : Path} {now : Instant} (ne : source ≠ target)
    (renamed : t.rename source target now = .ok t') :
    ∃ n, t.get? source = some n ∧
    t' = (t.relocate source target n).put target (n.changedAt now) := by
  rw [rename, node] at renamed
  cases hn : t.get? source with
  | none =>
    rw [hn] at renamed
    cases renamed
  | some n =>
    rw [hn] at renamed
    refine ⟨n, rfl, ?_⟩
    change (if source.isRoot = true then _ else _) = _ at renamed
    by_cases root : source.isRoot = true
    · rw [if_pos root] at renamed
      cases renamed
    rw [if_neg root, if_neg ne] at renamed
    by_cases outside : source.isPrefixOf target = true
    · rw [if_pos outside] at renamed
      cases renamed
    rw [if_neg outside] at renamed
    -- Two checks are left, of which nothing but their success matters.
    cases hd : t.checkDirectory target.parent with
    | error e =>
      rw [hd] at renamed
      cases renamed
    | ok _ =>
      rw [hd] at renamed
      cases hr : t.checkReplaceable target n.kind with
      | error e =>
        rw [hr] at renamed
        cases renamed
      | ok _ =>
        rw [hr] at renamed
        cases renamed
        rfl

theorem rename_shifts (h : t.Sound) {t' : MemoryTree} {source target : Path} {now : Instant}
    (ne : source ≠ target) (renamed : t.rename source target now = .ok t') :
    t.space.Movable source target ∧ t.Shifts t' source target now := by
  have carries := rename_carries h source target now
  rw [renamed] at carries
  have movable : t.space.Movable source target := carries.1
  obtain ⟨n, hn, rfl⟩ := rename_ok ne renamed
  obtain ⟨outside, empty⟩ : ¬source.isPrefixOf target = true ∧
      ∀ k : Path, k ≠ .root → t.get? (target ++ k) = none := by
    obtain ⟨-, e, -, eq | ⟨outside, -, free⟩⟩ := movable
    · exact absurd eq ne
    · exact ⟨outside, fun k hk => space_eq_none_iff.1 (h.tree.replaceable_below free hk)⟩
  have look : ∀ q, q ≠ target → ((t.relocate source target n).put target (n.changedAt now)).get? q =
      if target.isPrefixOf q then t.get? (source ++ q.relativeTo target)
      else if source.isPrefixOf q then none else t.get? q := fun q hq => by
    rw [get?_put, if_neg hq, get?_relocate h hn outside empty hq]
  refine ⟨movable, ⟨n, hn, by rw [get?_put, if_pos rfl]⟩, fun k hk => ?_, fun k => ?_,
    fun q out out' => ?_⟩
  · rw [look _ fun e => hk (Path.append_eq_left.1 e), if_pos (Path.isPrefixOf_append ..),
      Path.relativeTo_append]
  · have apart := h.tree.not_below_target movable ne k
    rw [look _ fun e => apart (e ▸ Path.isPrefixOf_self _), if_neg apart,
      if_pos (Path.isPrefixOf_append ..)]
  · rw [look _ fun e => out' (e ▸ Path.isPrefixOf_self _), if_neg out', if_neg out]

/-! ## All changes, and opening a file -/

/-- A change of a tree at an instant. -/
def change (t : MemoryTree) (now : Instant) : Change → Except FsError MemoryTree
  | .mkdir p mode => t.mkdir p mode now
  | .unlink p => t.unlink p
  | .rmdir p => t.rmdir p
  | .rename source target => t.rename source target now
  | .sync p data attr => t.sync p data attr

/-- A change takes place when it may happen and fails when it may not. -/
theorem change_carries (h : t.Sound) (now : Instant) (c : Change) :
    t.Carries c (t.change now c) := by
  cases c with
  | mkdir p mode => exact mkdir_carries h p mode now
  | unlink p => exact unlink_carries h p
  | rmdir p => exact rmdir_carries h p
  | rename source target => exact rename_carries h source target now
  | sync p data attr => exact sync_carries h p data attr

/-- What came of opening a file. -/
def CarriesOpen (t : MemoryTree) (p : Path) (flags : OpenFlags) (mode : UInt32) :
    Except FsError (FileAttr × Bytes × MemoryTree) → Prop
  | .ok (attr, data, t') => t.space.Opens p flags ∧ t'.Sound ∧ t'.space = t.space.opened p mode ∧
      ∃ perm, t'.space p = some (.file perm data) ∧ (Entry.file perm data).Shows attr
  | .error _ => ¬t.space.Opens p flags

/-- A file is opened when it can be and not otherwise. -/
theorem openFile_carries (h : t.Sound) (p : Path) (flags : OpenFlags) (mode : UInt32)
    (now : Instant) : t.CarriesOpen p flags mode (t.openFile p flags mode now) := by
  unfold openFile
  cases hn : t.get? p with
  | some n =>
    have taken : t.space p ≠ none := by rw [space_some hn]; exact Option.some_ne_none _
    cases n with
    | file data attr =>
      -- What is there is opened if it is a file and the caller did not ask for a new one.
      by_cases new : (flags.create && flags.exclusive) = true
      · show t.CarriesOpen p flags mode (if (flags.create && flags.exclusive) = true then _ else _)
        rw [if_pos new]
        rintro (⟨-, old⟩ | ⟨free, -⟩)
        · exact old (Bool.and_eq_true_iff.1 new)
        · exact taken free.1
      · show t.CarriesOpen p flags mode (if (flags.create && flags.exclusive) = true then _ else _)
        rw [if_neg new]
        refine ⟨.inl ⟨isFile_iff.2 ⟨_, _, hn⟩, fun k => new (Bool.and_eq_true_iff.2 k)⟩, h,
          (Space.opened_taken taken mode).symm, _, space_some hn, (h.nodes _ _ hn).shows⟩
    | directory attr =>
      rintro (⟨file, -⟩ | ⟨free, -⟩)
      · exact file.not_isDirectory (isDirectory_iff.2 ⟨attr, hn⟩)
      · exact taken free.1
  | none =>
    have absent := space_none hn
    -- What is not there is created if the caller wants that and a directory is there to hold it.
    have free : t.space.Opens p flags → t.space.IsDirectory p.parent ∧ flags.create = true := by
      rintro (⟨file, -⟩ | ⟨free, create⟩)
      · exact absurd absent file.ne_none
      · exact ⟨free.2, create⟩
    cases create : flags.create with
    | false =>
      intro opens
      rw [(free opens).2] at create
      cases create
    | true =>
      by_cases dir : t.space.IsDirectory p.parent
      · rw [checkDirectory_of dir]
        have opens : t.space.Opens p flags := .inr ⟨⟨absent, dir⟩, create⟩
        have left := h.tree.opened opens mode
        rw [Space.opened_free absent, ← Node.entry_newFile mode now] at left
        have fits : (Node.file [] (.file 0 mode now)).Sound := ⟨rfl, rfl⟩
        refine ⟨opens, h.put fits left, ?_, mode &&& permMask, ?_, ?_⟩
        · rw [space_put, Node.entry_newFile, Space.opened_free absent]
        · rw [space_put, Space.put_self, Node.entry_newFile]
        · rw [← Node.entry_newFile mode now]
          exact fits.shows
      · obtain ⟨e, he⟩ := checkDirectory_of_not dir
        rw [he]
        exact fun opens => dir (free opens).1

/-- The tree of a fresh backend. -/
theorem new_sound (now : Instant) : (new now).Sound := by
  have only : ∀ p, (new now).get? p =
      if p = .root then some (.directory (.directory rootPerm now)) else none :=
    fun p => SortedMap.get?_insert ..
  refine ⟨⟨⟨_, space_some (only .root)⟩, fun p s h => ?_⟩, fun p n hn => ?_⟩
  · exact absurd (space_none ((only _).trans (if_neg (Path.child_ne_root p s)))) h
  · rw [only] at hn
    split at hn
    · cases hn
      rfl
    · cases hn

theorem new_space (now : Instant) (p : Path) :
    (new now).space p = if p = .root then some (.directory rootPerm) else none := by
  have only : (new now).get? p =
      if p = .root then some (.directory (.directory rootPerm now)) else none :=
    SortedMap.get?_insert ..
  rw [space, only]
  split
  · rw [Option.map_some, Node.entry_newDirectory]
    rfl
  · rfl

end MemoryTree

end MountSpace
