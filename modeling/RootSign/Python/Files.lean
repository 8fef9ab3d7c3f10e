import RootSign.Python.JsonText
import Mathlib.Data.List.Induction

namespace RootSign.Python

/-!
# Files below directories

A tree of directories, files and links with their permissions, and what `pathlib` does with it on a
POSIX system.  Paths are absolute and given name by name; names are strings as `os.fsdecode` returns
them.

* `PathRules` — how the system spells names, and which it refuses;
* `Entry`, `FileTree` — a tree: files under one name or more, symbolic links, and permissions;
* `pathParts`, `FileTree.find` — the look-up of `root / name`;
* `FileTree.readFile`, `FileTree.listFiles` — reading a file and listing a directory, which can
  fail;
* `FileTree.write`, `FileTree.mkdir` — changes to it, and `Wrote`, what writing one file leaves as
  it was;
* `FileTree.below`, `find_relativeName` — the files below a directory are found under their relative
  names.
-/

/-- A path, name by name. -/
abbrev PosixPath := List JStr

/-- `/`. -/
def slash : CodeUnit := ⟨0x2F, by decide⟩

/-- A part of a path that names an entry. -/
structure IsPart (part : JStr) : Prop where
  nonempty : part.units ≠ []
  no_slash : slash ∉ part.units
  no_dot : part ≠ JStr.ofString "."
  no_dots : part ≠ JStr.ofString ".."

instance (part : JStr) : Decidable (IsPart part) :=
  decidable_of_iff (part.units ≠ [] ∧ slash ∉ part.units ∧ part ≠ JStr.ofString "." ∧
    part ≠ JStr.ofString "..") ⟨fun ⟨h₁, h₂, h₃, h₄⟩ => ⟨h₁, h₂, h₃, h₄⟩,
      fun ⟨h₁, h₂, h₃, h₄⟩ => ⟨h₁, h₂, h₃, h₄⟩⟩

/-- The system's rules for names: how a part reads back once it is encoded, or that it cannot be
    encoded, and the names and paths at which a look-up fails with an `OSError` because they are too
    long.  A part that is UTF-8 reads back as it is; others may stand for bytes that are not. -/
structure PathRules where
  spell : JStr → Option JStr
  nameTooLong : JStr → Bool
  pathTooLong : PosixPath → Bool
  spell_spec : ∀ {part name : JStr}, IsPart part → spell part = some name →
    IsPart name ∧ spell name = some name ∧ nameTooLong name = nameTooLong part
  spell_utf8 : ∀ {part name : JStr}, utf8Encode part.units ≠ none → spell part = some name →
    name = part

/-- A name that an entry can have. -/
structure PathRules.EntryName (os : PathRules) (name : JStr) : Prop extends IsPart name where
  spelled : os.spell name = some name
  fits : os.nameTooLong name = false

instance (os : PathRules) (name : JStr) : Decidable (os.EntryName name) :=
  decidable_of_iff (IsPart name ∧ os.spell name = some name ∧ os.nameTooLong name = false)
    ⟨fun ⟨h₁, h₂, h₃⟩ => ⟨h₁, h₂, h₃⟩, fun h => ⟨h.toIsPart, h.spelled, h.fits⟩⟩

/-- A file: its content, and whether it may be read and written. -/
structure FileNode where
  bytes : List UInt8
  readable : Bool := true
  writable : Bool := true

/-- What may be done with a directory: looking its entries up, listing them, and adding to them. -/
structure DirMode where
  searchable : Bool := true
  listable : Bool := true
  writable : Bool := true

/-- What a look-up comes to: an `OSError` that `is_file` and `exists` pass on, no entry, or a path,
    whether or not an entry is there. -/
inductive Lookup where
  | refused
  | absent
  | at (p : PosixPath)
deriving DecidableEq, Repr

/-- An entry of a directory.  A hard link is one more name of the file at its first name; of a
    symbolic link it is told where following it ends. -/
inductive Entry where
  | dir (mode : DirMode)
  | file (node : FileNode)
  | hardLink (first : PosixPath)
  | symlink (target : Lookup)

/-- A tree of files: each path but the root is an entry of a directory, and each hard link is one to
    a file. -/
structure FileTree (os : PathRules) where
  entries : List (PosixPath × Entry)
  nodup : (entries.map Prod.fst).Nodup
  root_dir : ∃ mode, ([], .dir mode) ∈ entries
  parent : ∀ p ∈ entries.map Prod.fst, p ≠ [] →
    ∃ d mode name, (d, .dir mode) ∈ entries ∧ os.EntryName name ∧ p = d ++ [name]
  first_name : ∀ p first, (p, .hardLink first) ∈ entries → ∃ node, (first, .file node) ∈ entries

/-- Names of up to 255 bytes and paths of less than 4096, spelled in UTF-8. -/
def utf8Rules : PathRules where
  spell part :=
    if (utf8Encode part.units).isSome && part.units.all (fun u => u.val != 0) then some part
    else none
  nameTooLong part := decide (255 < ((utf8Encode part.units).getD []).length)
  pathTooLong path :=
    decide (4096 ≤ (path.map fun part => 1 + ((utf8Encode part.units).getD []).length).sum)
  spell_spec := by
    intro part name hpart hspell
    split at hspell
    · rename_i hok
      obtain rfl := Option.some.inj hspell
      exact ⟨hpart, if_pos hok, rfl⟩
    · cases hspell
  spell_utf8 := by
    intro part name _ hspell
    split at hspell
    · exact (Option.some.inj hspell).symm
    · cases hspell

/-! ### Looking a name up -/

/-- The parts of a path as `pathlib` splits it. -/
def pathParts (name : JStr) : List JStr :=
  ((name.units.splitOn slash).map JStr.mk).filter fun part =>
    part.units ≠ [] && part ≠ JStr.ofString "."

/-- A path that does not start at the directory it is joined to. -/
def isAbsolute (name : JStr) : Bool := name.units.head? == some slash

/-- What reading a file comes to: an `OSError` of its look-up or of the reading, no file, or its
    content. -/
inductive ReadResult where
  | refused
  | noFile
  | file (bytes : List UInt8)

/-- The rest of a path below another. -/
def relativeTo : PosixPath → PosixPath → Option (List JStr)
  | [], p => some p
  | _ :: _, [] => none
  | a :: root, b :: p => if a = b then relativeTo root p else none

/-- The name of a path below a directory, relative to it. -/
def relativeName (parts : List JStr) : JStr := ⟨[slash].intercalate (parts.map JStr.units)⟩

namespace FileTree

variable {os : PathRules}

/-- The entry at a path. -/
def entryAt (fs : FileTree os) (p : PosixPath) : Option Entry := fs.entries.lookup p

/-- The permissions of a directory. -/
def mode (fs : FileTree os) (p : PosixPath) : Option DirMode :=
  match fs.entryAt p with
  | some (.dir mode) => some mode
  | _ => none

/-- Following a symbolic link, if one is there. -/
def follow (fs : FileTree os) (p : PosixPath) : Lookup :=
  match fs.entryAt p with
  | some (.symlink target) => target
  | _ => .at p

/-- The first name of the file at a path. -/
def firstName (fs : FileTree os) (p : PosixPath) : PosixPath :=
  match fs.entryAt p with
  | some (.hardLink first) => first
  | _ => p

/-- The file that has a path as its first name. -/
def nodeAt (fs : FileTree os) (first : PosixPath) : Option FileNode :=
  match fs.entryAt first with
  | some (.file node) => some node
  | _ => none

/-- The file at a path. -/
def node (fs : FileTree os) (p : PosixPath) : Option FileNode := fs.nodeAt (fs.firstName p)

/-- Following the parts of a path, one by one. -/
def walk (fs : FileTree os) : PosixPath → List JStr → Lookup
  | p, [] => .at p
  | p, part :: rest =>
    match fs.mode p with
    | none => .absent
    | some mode =>
      if mode.searchable = false then .refused
      else if part = JStr.ofString ".." then walk fs p.dropLast rest
      else if os.nameTooLong part then .refused
      else
        match os.spell part with
        | none => .absent
        | some name =>
          match fs.follow (p ++ [name]) with
          | .at q => walk fs q rest
          | other => other

/-- The look-up of `root / name`: a path that cannot be encoded has no entry. -/
def find (fs : FileTree os) (root : PosixPath) (name : JStr) : Lookup :=
  if (pathParts name).any fun part => (os.spell part).isNone then .absent
  else if isAbsolute name then
    if os.pathTooLong (pathParts name) then .refused else fs.walk [] (pathParts name)
  else if os.pathTooLong (root ++ pathParts name) then .refused
  else fs.walk root (pathParts name)

/-- The look-up of a path given part by part. -/
def resolve (fs : FileTree os) (parts : List JStr) : Lookup :=
  if parts.any fun part => (os.spell part).isNone then .absent
  else if os.pathTooLong parts then .refused
  else fs.walk [] parts

/-- `is_file`, or nothing where it raises. -/
def isFile (fs : FileTree os) (root : PosixPath) (name : JStr) : Option Bool :=
  match fs.find root name with
  | .refused => none
  | .absent => some false
  | .at p => some (fs.node p).isSome

/-- `is_file` and, for a file, `read_bytes`. -/
def readFile (fs : FileTree os) (root : PosixPath) (name : JStr) : ReadResult :=
  match fs.find root name with
  | .refused => .refused
  | .absent => .noFile
  | .at p =>
    match fs.node p with
    | none => .noFile
    | some node => if node.readable then .file node.bytes else .refused

/-- The file that `root / name` leads to, or that writing to it would make, by its first name. -/
def fileOf (fs : FileTree os) (root : PosixPath) (name : JStr) : Option PosixPath :=
  match fs.find root name with
  | .at p => some (fs.firstName p)
  | _ => none

/-- The names in a directory. -/
def names (fs : FileTree os) (root : PosixPath) : List JStr :=
  fs.entries.filterMap fun e =>
    match relativeTo root e.1 with
    | some [name] => some name
    | _ => none

/-- `[p.name for p in root.iterdir()]`, or nothing where it raises. -/
def iterdir (fs : FileTree os) (root : PosixPath) : Option (List JStr) :=
  match fs.mode root with
  | none => none
  | some mode => if mode.listable then some (fs.names root) else none

/-- `{p.name for p in root.iterdir() if p.is_file()}`, or nothing where it raises. -/
def listFiles (fs : FileTree os) (root : PosixPath) : Option (List JStr) :=
  match fs.iterdir root with
  | none => none
  | some names =>
    if names.any fun name => (fs.isFile root name).isNone then none
    else some (names.filter fun name => fs.isFile root name == some true)

/-! ### Changes -/

/-- An entry can be added at a path: none is there, and its directory may be changed. -/
def canAdd (fs : FileTree os) (p : PosixPath) : Bool :=
  match p.getLast? with
  | none => false
  | some name =>
    (fs.entryAt p).isNone && decide (os.EntryName name) &&
      match fs.mode p.dropLast with
      | none => false
      | some mode => mode.searchable && mode.writable

/-- A file can be written at a path: there is one that may be written, or one can be added. -/
def accepts (fs : FileTree os) (p : PosixPath) : Bool :=
  match fs.node p with
  | some node => node.writable
  | none => fs.canAdd p

/-- In a list that has each key once, what is listed is what is found. -/
theorem lookup_eq_some_iff_mem {α β : Type} [BEq α] [LawfulBEq α] {l : List (α × β)} {a : α}
    {b : β} (hnodup : (l.map Prod.fst).Nodup) : l.lookup a = some b ↔ (a, b) ∈ l := by
  induction l with
  | nil => simp
  | cons first rest ih =>
    obtain ⟨k, v⟩ := first
    rw [List.map_cons, List.nodup_cons] at hnodup
    rw [List.lookup_cons, List.mem_cons, Prod.mk.injEq]
    by_cases hk : a = k
    · subst hk
      have hnot : (a, b) ∉ rest := fun h => hnodup.1 (List.mem_map.mpr ⟨_, h, rfl⟩)
      simp only [beq_self_eq_true, Option.some.injEq, true_and, hnot, or_false]
      exact eq_comm
    · have hne : (a == k) = false := beq_eq_false_iff_ne.mpr hk
      simp only [hne, hk, false_and, false_or]
      exact ih hnodup.2

/-- A look-up finds an entry exactly if it is in the tree under that path. -/
theorem entryAt_eq_some (fs : FileTree os) {p : PosixPath} {e : Entry} :
    fs.entryAt p = some e ↔ (p, e) ∈ fs.entries := lookup_eq_some_iff_mem fs.nodup

/-- A look-up finds nothing exactly if the path is not in the tree. -/
theorem entryAt_eq_none (fs : FileTree os) {p : PosixPath} :
    fs.entryAt p = none ↔ p ∉ fs.entries.map Prod.fst := by
  rw [← not_iff_not, not_not, ← Ne, Option.ne_none_iff_exists']
  simp [entryAt_eq_some]

/-- A path has a mode exactly if it is a directory. -/
theorem mode_eq_some (fs : FileTree os) {p : PosixPath} {mode : DirMode} :
    fs.mode p = some mode ↔ (p, .dir mode) ∈ fs.entries := by
  rw [← entryAt_eq_some]
  unfold FileTree.mode
  split
  · rename_i found hfound
    rw [hfound]
    simp
  · rename_i hnone
    refine iff_of_false (by simp) fun h => hnone _ h

/-- Where an entry can be added there is none, and its directory is one. -/
theorem canAdd_spec (fs : FileTree os) {p : PosixPath} (h : fs.canAdd p = true) :
    fs.entryAt p = none ∧
      ∃ d mode name, (d, .dir mode) ∈ fs.entries ∧ os.EntryName name ∧ p = d ++ [name] := by
  unfold canAdd at h
  cases hlast : p.getLast? with
  | none =>
    rw [hlast] at h
    cases h
  | some name =>
    simp only [hlast, Bool.and_eq_true, decide_eq_true_eq, Option.isNone_iff_eq_none] at h
    obtain ⟨⟨hfree, hname⟩, hmode⟩ := h
    cases hdir : fs.mode p.dropLast with
    | none =>
      rw [hdir] at hmode
      cases hmode
    | some mode =>
      refine ⟨hfree, p.dropLast, mode, name, fs.mode_eq_some.mp hdir, hname, ?_⟩
      exact (List.dropLast_append_getLast? name hlast).symm

/-- Adding a file or a directory. -/
def add (fs : FileTree os) (p : PosixPath) (e : Entry) (h : fs.canAdd p = true)
    (hplain : ∀ first, e ≠ .hardLink first) : FileTree os where
  entries := fs.entries ++ [(p, e)]
  nodup := by
    rw [List.map_append, List.nodup_append]
    refine ⟨fs.nodup, by simp, ?_⟩
    rintro q hq r hr rfl
    obtain rfl := List.mem_singleton.mp hr
    exact fs.entryAt_eq_none.mp (fs.canAdd_spec h).1 hq
  root_dir := by
    obtain ⟨mode, hmode⟩ := fs.root_dir
    exact ⟨mode, List.mem_append_left _ hmode⟩
  parent := by
    intro q hq hne
    have hold : ∃ d mode name, (d, .dir mode) ∈ fs.entries ∧ os.EntryName name ∧
        q = d ++ [name] := by
      rw [List.map_append, List.mem_append] at hq
      rcases hq with hq | hq
      · exact fs.parent q hq hne
      · obtain rfl := List.mem_singleton.mp hq
        exact (fs.canAdd_spec h).2
    obtain ⟨d, mode, name, hd, hname, heq⟩ := hold
    exact ⟨d, mode, name, List.mem_append_left _ hd, hname, heq⟩
  first_name := by
    intro q first hq
    rcases List.mem_append.mp hq with hq | hq
    · obtain ⟨node, hnode⟩ := fs.first_name q first hq
      exact ⟨node, List.mem_append_left _ hnode⟩
    · exact absurd (Prod.mk.inj (List.mem_singleton.mp hq)).2.symm (hplain first)

end FileTree

/-- An entry with other content, if it is a file. -/
def Entry.withBytes (bytes : List UInt8) : Entry → Entry
  | .file node => .file { node with bytes := bytes }
  | e => e

namespace FileTree

variable {os : PathRules}

/-- The entries after a write are those before, with other bytes at one of them. -/
theorem mem_setBytes {l : List (PosixPath × Entry)} {first q : PosixPath} {bytes : List UInt8}
    {e : Entry} :
    (q, e) ∈ l.map (fun x => if x.1 = first then (x.1, x.2.withBytes bytes) else x) ↔
      ∃ old, (q, old) ∈ l ∧ e = if q = first then old.withBytes bytes else old := by
  rw [List.mem_map]
  constructor
  · rintro ⟨⟨p, old⟩, hmem, heq⟩
    by_cases hp : p = first
    · rw [if_pos hp] at heq
      obtain ⟨rfl, rfl⟩ := Prod.mk.inj heq
      exact ⟨old, hmem, by rw [if_pos hp]⟩
    · rw [if_neg hp] at heq
      obtain ⟨rfl, rfl⟩ := Prod.mk.inj heq
      exact ⟨old, hmem, by rw [if_neg hp]⟩
  · rintro ⟨old, hmem, rfl⟩
    refine ⟨(q, old), hmem, ?_⟩
    by_cases hq : q = first
    · rw [if_pos hq, if_pos hq]
    · rw [if_neg hq, if_neg hq]

/-- A write into a file leaves the names alone. -/
theorem keys_setBytes {l : List (PosixPath × Entry)} {first : PosixPath} {bytes : List UInt8} :
    (l.map (fun x => if x.1 = first then (x.1, x.2.withBytes bytes) else x)).map Prod.fst =
      l.map Prod.fst := by
  rw [List.map_map]
  apply List.map_congr_left
  rintro ⟨p, e⟩ -
  by_cases hp : p = first
  · simp [hp]
  · simp [hp]

/-- Other content for a file, given by its first name. -/
def setBytes (fs : FileTree os) (first : PosixPath) (bytes : List UInt8) : FileTree os where
  entries := fs.entries.map fun x => if x.1 = first then (x.1, x.2.withBytes bytes) else x
  nodup := by
    rw [keys_setBytes]
    exact fs.nodup
  root_dir := by
    obtain ⟨mode, hmode⟩ := fs.root_dir
    refine ⟨mode, mem_setBytes.mpr ⟨_, hmode, ?_⟩⟩
    split <;> rfl
  parent := by
    rw [keys_setBytes]
    intro p hp hne
    obtain ⟨d, mode, name, hd, hname, heq⟩ := fs.parent p hp hne
    refine ⟨d, mode, name, mem_setBytes.mpr ⟨_, hd, ?_⟩, hname, heq⟩
    split <;> rfl
  first_name := by
    intro p other hp
    obtain ⟨old, hold, heq⟩ := mem_setBytes.mp hp
    have hlink : old = .hardLink other := by
      split at heq
      · cases old <;> simp_all [Entry.withBytes]
      · exact heq.symm
    obtain ⟨node, hnode⟩ := fs.first_name p other (hlink ▸ hold)
    by_cases hfirst : other = first
    · exact ⟨{ node with bytes := bytes }, mem_setBytes.mpr ⟨_, hnode, by rw [if_pos hfirst]; rfl⟩⟩
    · exact ⟨node, mem_setBytes.mpr ⟨_, hnode, by rw [if_neg hfirst]⟩⟩

/-- Writing at a path, into the file that is there or into a new one. -/
def writeAt (fs : FileTree os) (p : PosixPath) (bytes : List UInt8) : Option (FileTree os) :=
  match fs.node p with
  | some node => if node.writable then some (fs.setBytes (fs.firstName p) bytes) else none
  | none =>
    if h : fs.canAdd p = true then some (fs.add p (.file { bytes := bytes }) h nofun) else none

/-- `(root / name).write_bytes(bytes)`, or nothing where it raises an `OSError` or a
    `ValueError`. -/
def write (fs : FileTree os) (root : PosixPath) (name : JStr) (bytes : List UInt8) :
    Option (FileTree os) :=
  match fs.find root name with
  | .at p => fs.writeAt p bytes
  | _ => none

/-- One step of `mkdir(parents=True, exist_ok=True)`. -/
def enter (fs : FileTree os) (p : PosixPath) (part : JStr) : Option (FileTree os × PosixPath) :=
  match fs.mode p with
  | none => none
  | some mode =>
    if mode.searchable = false then none
    else if part = JStr.ofString ".." then some (fs, p.dropLast)
    else
      match os.spell part with
      | none => none
      | some name =>
        match fs.follow (p ++ [name]) with
        | .at q =>
          if (fs.mode q).isSome then some (fs, q)
          else if h : fs.canAdd (p ++ [name]) = true then
            some (fs.add (p ++ [name]) (.dir {}) h nofun, p ++ [name])
          else none
        | _ => none

/-- `mkdir(parents=True, exist_ok=True)`, part by part. -/
def mkdir (fs : FileTree os) (p : PosixPath) : List JStr → Option (FileTree os × PosixPath)
  | [] => if (fs.mode p).isSome then some (fs, p) else none
  | part :: rest =>
    match fs.enter p part with
    | none => none
    | some next => mkdir next.1 next.2 rest

/-! ### What stands below a directory -/

/-- The file that a path leads to. -/
def nodeBehind (fs : FileTree os) (p : PosixPath) : Option FileNode :=
  match fs.follow p with
  | .at q => fs.node q
  | _ => none

/-- The files below a directory, at any depth, by their names relative to it.  A link to a file is
    one, and nothing is below a link to a directory. -/
def below (fs : FileTree os) (root : PosixPath) : List (JStr × List UInt8) :=
  fs.entries.filterMap fun e =>
    match relativeTo root e.1 with
    | some (name :: rest) =>
      (fs.nodeBehind e.1).map fun node => (relativeName (name :: rest), node.bytes)
    | _ => none

section

variable {fs fs' : FileTree os} {root p q rest : PosixPath} {name : JStr} {bytes : List UInt8}

/-- The rest of a path below another one. -/
theorem relativeTo_eq_some : relativeTo root p = some rest ↔ p = root ++ rest := by
  fun_induction relativeTo root p with
  | case1 p => simp [eq_comm]
  | case2 => simp
  | case3 root b p ih => simp [ih]
  | case4 a root b p hne => simp [Ne.symm hne]

/-- The names of a directory are the last parts of the paths one level below it. -/
theorem mem_names : name ∈ fs.names root ↔ root ++ [name] ∈ fs.entries.map Prod.fst := by
  unfold names
  rw [List.mem_filterMap, List.mem_map]
  constructor
  · rintro ⟨e, hmem, hsome⟩
    split at hsome
    · rename_i n hrel
      obtain rfl := Option.some.inj hsome
      exact ⟨e, hmem, relativeTo_eq_some.mp hrel⟩
    · cases hsome
  · rintro ⟨e, hmem, heq⟩
    refine ⟨e, hmem, ?_⟩
    have hrel : relativeTo root e.1 = some [name] := relativeTo_eq_some.mpr heq
    simp only [hrel]

/-- The files in a directory are listed where it may be listed and no look-up raises. -/
theorem listFiles_eq_some {files : List JStr} : fs.listFiles root = some files ↔
    fs.iterdir root = some (fs.names root) ∧
      (∀ name ∈ fs.names root, fs.isFile root name ≠ none) ∧
        files = (fs.names root).filter fun name => fs.isFile root name == some true := by
  unfold listFiles iterdir
  cases fs.mode root with
  | none => simp
  | some mode =>
    cases hlist : mode.listable with
    | false => simp [hlist]
    | true =>
      simp only [hlist, if_true, true_and]
      split
      · rename_i hany
        obtain ⟨n, hn, hnone⟩ := List.any_eq_true.mp hany
        refine iff_of_false (by simp) fun h => h.1 n hn ?_
        exact Option.isNone_iff_eq_none.mp hnone
      · rename_i hall
        rw [Bool.not_eq_true, List.any_eq_false] at hall
        have hsome : ∀ n ∈ fs.names root, fs.isFile root n ≠ none := by
          intro n hn hnone
          exact hall n hn (by rw [hnone]; rfl)
        rw [Option.some.injEq, eq_comm]
        exact ⟨fun h => ⟨hsome, h⟩, fun h => h.2⟩

/-- The files below a directory, by their names relative to it. -/
theorem mem_below : (name, bytes) ∈ fs.below root ↔
    ∃ rest node, rest ≠ [] ∧ name = relativeName rest ∧ root ++ rest ∈ fs.entries.map Prod.fst ∧
      fs.nodeBehind (root ++ rest) = some node ∧ bytes = node.bytes := by
  unfold below
  rw [List.mem_filterMap]
  constructor
  · rintro ⟨e, hmem, hsome⟩
    split at hsome
    · rename_i first rest hrel
      rw [relativeTo_eq_some] at hrel
      obtain ⟨node, hnode, heq⟩ := Option.map_eq_some_iff.mp hsome
      obtain ⟨rfl, rfl⟩ := Prod.mk.inj heq
      exact ⟨first :: rest, node, by simp, rfl, hrel ▸ List.mem_map_of_mem hmem, hrel ▸ hnode, rfl⟩
    · cases hsome
  · rintro ⟨rest, node, hne, rfl, hmem, hnode, rfl⟩
    obtain ⟨e, he, heq⟩ := List.mem_map.mp hmem
    refine ⟨e, he, ?_⟩
    have hrel : relativeTo root e.1 = some rest := relativeTo_eq_some.mpr heq
    obtain ⟨first, rest, rfl⟩ := List.exists_cons_of_ne_nil hne
    simp only [hrel]
    rw [heq, hnode]
    rfl

/-- The parts of a relative name are the names it was made of. -/
theorem pathParts_relativeName (hne : rest ≠ []) (hparts : ∀ part ∈ rest, IsPart part) :
    pathParts (relativeName rest) = rest := by
  unfold pathParts relativeName
  have hslash : ∀ units ∈ rest.map JStr.units, slash ∉ units := by
    intro units hunits
    obtain ⟨part, hpart, rfl⟩ := List.mem_map.mp hunits
    exact (hparts part hpart).no_slash
  have hmk : (rest.map JStr.units).map JStr.mk = rest := by
    rw [List.map_map]
    exact List.map_id _
  rw [List.splitOn_intercalate slash hslash (by simpa using hne), hmk, List.filter_eq_self]
  intro part hpart
  have := hparts part hpart
  simp [this.nonempty, this.no_dot]

/-- A relative name starts with no slash. -/
theorem isAbsolute_relativeName (hne : rest ≠ []) (hparts : ∀ part ∈ rest, IsPart part) :
    isAbsolute (relativeName rest) = false := by
  obtain ⟨first, others, rfl⟩ := List.exists_cons_of_ne_nil hne
  have hfirst := hparts first List.mem_cons_self
  obtain ⟨u, units, hunits⟩ := List.exists_cons_of_ne_nil hfirst.nonempty
  have hhead : (relativeName (first :: others)).units.head? = some u := by
    cases others with
    | nil => simp [relativeName, hunits]
    | cons second others => simp [relativeName, List.intercalate_cons_cons, hunits]
  have hu : u ≠ slash := by
    intro heq
    apply hfirst.no_slash
    rw [hunits, heq]
    exact List.mem_cons_self
  rw [isAbsolute, hhead]
  exact beq_eq_false_iff_ne.mpr fun h => hu (Option.some.inj h)

/-- Each part of a path in the tree is a name that an entry can have. -/
theorem entryName_of_mem (fs : FileTree os) {p : PosixPath} (hp : p ∈ fs.entries.map Prod.fst) :
    ∀ part ∈ p, os.EntryName part := by
  induction p using List.reverseRecOn with
  | nil => simp
  | append_singleton d name ih =>
    obtain ⟨d', mode, name', hd', hname', heq⟩ := fs.parent _ hp (by simp)
    obtain ⟨rfl, hlast⟩ := List.append_inj' heq rfl
    obtain rfl := List.singleton_injective hlast
    intro part hpart
    rcases List.mem_append.mp hpart with hpart | hpart
    · exact ih (List.mem_map_of_mem hd') part hpart
    · obtain rfl := List.mem_singleton.mp hpart
      exact hname'

/-- Each path above an entry is a directory. -/
theorem mode_of_prefix (fs : FileTree os) {p q : PosixPath} (hne : q ≠ [])
    (hp : p ++ q ∈ fs.entries.map Prod.fst) : ∃ mode, fs.mode p = some mode := by
  induction q using List.reverseRecOn with
  | nil => exact absurd rfl hne
  | append_singleton q name ih =>
    obtain ⟨d, mode, name', hd, -, heq⟩ := fs.parent _ hp (by simp)
    rw [← List.append_assoc] at heq
    obtain ⟨rfl, -⟩ := List.append_inj' heq rfl
    by_cases hq : q = []
    · rw [hq, List.append_nil] at hd
      exact ⟨mode, fs.mode_eq_some.mpr hd⟩
    · exact ih hq (List.mem_map_of_mem hd)

/-- A directory is followed to itself. -/
theorem follow_of_mode {mode : DirMode} (h : fs.mode p = some mode) : fs.follow p = .at p := by
  unfold FileTree.follow
  rw [fs.entryAt_eq_some.mpr (fs.mode_eq_some.mp h)]

/-- A file is followed to itself. -/
theorem follow_of_node {node : FileNode} (h : fs.node p = some node) : fs.follow p = .at p := by
  unfold FileTree.node FileTree.firstName FileTree.nodeAt at h
  unfold FileTree.follow
  rcases hentry : fs.entryAt p with _ | (_ | _ | _ | _)
  all_goals simp_all

/-- A walk along the names of an entry reaches it and follows it, unless it is refused. -/
theorem walk_names (fs : FileTree os) (hne : rest ≠ [])
    (h : p ++ rest ∈ fs.entries.map Prod.fst) :
    fs.walk p rest = .refused ∨ fs.walk p rest = fs.follow (p ++ rest) := by
  induction rest generalizing p with
  | nil => exact absurd rfl hne
  | cons name rest ih =>
    have hname := fs.entryName_of_mem h name (List.mem_append_right _ List.mem_cons_self)
    obtain ⟨mode, hmode⟩ := fs.mode_of_prefix hne h
    rw [walk, hmode]
    dsimp only
    cases hsearch : mode.searchable with
    | false => exact Or.inl (if_pos rfl)
    | true =>
      rw [if_neg (by simp), if_neg hname.no_dots, hname.fits, hname.spelled]
      have happend : p ++ name :: rest = (p ++ [name]) ++ rest := by simp
      rw [happend] at h ⊢
      by_cases hrest : rest = []
      · subst hrest
        right
        rw [List.append_nil]
        cases hfollow : fs.follow (p ++ [name]) <;> simp [walk, hfollow]
      · -- what is above the entry is a directory, and no link
        obtain ⟨mode', hmode'⟩ := fs.mode_of_prefix hrest h
        simp only [follow_of_mode hmode']
        exact ih hrest h

/-- **A file below a directory is found under its relative name**, unless the look-up is refused. -/
theorem find_relativeName (fs : FileTree os) (hne : rest ≠ [])
    (h : root ++ rest ∈ fs.entries.map Prod.fst) :
    fs.find root (relativeName rest) = .refused ∨
      fs.find root (relativeName rest) = fs.follow (root ++ rest) := by
  have hentries : ∀ part ∈ rest, os.EntryName part := fun part hpart =>
    fs.entryName_of_mem h part (List.mem_append_right _ hpart)
  have hparts : ∀ part ∈ rest, IsPart part := fun part hpart => (hentries part hpart).toIsPart
  have hspelled : (rest.any fun part => (os.spell part).isNone) = false := by
    rw [List.any_eq_false]
    intro part hpart
    rw [(hentries part hpart).spelled]
    simp
  unfold find
  rw [pathParts_relativeName hne hparts, isAbsolute_relativeName hne hparts, hspelled]
  simp only [Bool.false_eq_true, if_false]
  split
  · exact Or.inl rfl
  · exact fs.walk_names hne h

/-- The same for a name in the directory. -/
theorem find_name (fs : FileTree os) (h : name ∈ fs.names root) :
    fs.find root name = .refused ∨ fs.find root name = fs.follow (root ++ [name]) := by
  have hname : relativeName [name] = name := by simp [relativeName]
  have hfind := fs.find_relativeName (List.cons_ne_nil name []) (mem_names.mp h)
  rwa [hname] at hfind

/-! ### What changes -/

/-- What writing at a path does: directories, links and first names stay, a file is there with the
    content written, under each of its names, and no other file changes. -/
structure Wrote (fs fs' : FileTree os) (p : PosixPath) (bytes : List UInt8) : Prop where
  mode : ∀ q, fs'.mode q = fs.mode q
  follow : ∀ q, fs'.follow q = fs.follow q
  firstName : ∀ q, fs'.firstName q = fs.firstName q
  node : ∀ q, fs'.node q =
    if fs.firstName q = fs.firstName p then
      some { (fs.node p).getD { bytes := [] } with bytes := bytes }
    else fs.node q
  names : ∀ root name, name ∈ fs'.names root ↔ name ∈ fs.names root ∨ root ++ [name] = p
  accepts : ∀ q, fs'.accepts q = fs.accepts q

/-- An entry that is added is found under its path, and every other one as before. -/
theorem add_entryAt {e : Entry} (h : fs.canAdd p = true) (hplain : ∀ first, e ≠ .hardLink first) :
    (fs.add p e h hplain).entryAt q = if q = p then some e else fs.entryAt q := by
  have hfree := (fs.canAdd_spec h).1
  show (fs.entries ++ [(p, e)]).lookup q = _
  rw [List.lookup_append]
  by_cases hq : q = p
  · subst hq
    have hnone : fs.entries.lookup q = none := hfree
    simp [hnone]
  · have hne : (q == p) = false := beq_eq_false_iff_ne.mpr hq
    simp [hq, List.lookup_cons, hne, entryAt]

/-- A write into a file changes the bytes at its first name only. -/
theorem setBytes_entryAt : (fs.setBytes p bytes).entryAt q =
    if q = p then (fs.entryAt q).map (Entry.withBytes bytes) else fs.entryAt q := by
  ext e
  rw [entryAt_eq_some]
  show (q, e) ∈ fs.entries.map _ ↔ _
  rw [mem_setBytes]
  by_cases hq : q = p
  · simp only [hq, if_true, Option.map_eq_some_iff, entryAt_eq_some]
    exact exists_congr fun old => and_congr_right' eq_comm
  · simp [hq, entryAt_eq_some]

/-- A write into a file changes no directory. -/
theorem setBytes_mode : (fs.setBytes p bytes).mode q = fs.mode q := by
  unfold FileTree.mode
  rw [setBytes_entryAt]
  split_ifs
  · rcases fs.entryAt q with _ | (_ | _ | _ | _) <;> rfl
  · rfl

/-- A write into a file leaves every link leading where it did. -/
theorem setBytes_follow : (fs.setBytes p bytes).follow q = fs.follow q := by
  unfold FileTree.follow
  rw [setBytes_entryAt]
  split_ifs
  · rcases fs.entryAt q with _ | (_ | _ | _ | _) <;> rfl
  · rfl

/-- A write into a file leaves one file under the same names. -/
theorem setBytes_firstName : (fs.setBytes p bytes).firstName q = fs.firstName q := by
  unfold FileTree.firstName
  rw [setBytes_entryAt]
  split_ifs
  · rcases fs.entryAt q with _ | (_ | _ | _ | _) <;> rfl
  · rfl

/-- A write into a file changes the bytes behind its first name only. -/
theorem setBytes_nodeAt : (fs.setBytes p bytes).nodeAt q =
    if q = p then (fs.nodeAt q).map fun node => { node with bytes := bytes } else fs.nodeAt q := by
  unfold FileTree.nodeAt
  rw [setBytes_entryAt]
  split_ifs
  · rcases fs.entryAt q with _ | (_ | _ | _ | _) <;> rfl
  · rfl

/-- What can be added depends on what is there and on the directories. -/
theorem canAdd_congr (hfree : (fs'.entryAt q).isNone = (fs.entryAt q).isNone)
    (hmode : ∀ d, fs'.mode d = fs.mode d) : fs'.canAdd q = fs.canAdd q := by
  unfold canAdd
  rw [hfree, hmode]

/-- A path with a file is in the tree. -/
theorem entryAt_of_node {node : FileNode} (h : fs.node p = some node) : fs.entryAt p ≠ none := by
  intro hnone
  unfold FileTree.node FileTree.firstName FileTree.nodeAt at h
  simp [hnone] at h

/-- Writing into a file that is there. -/
theorem wrote_setBytes {node : FileNode} (hnode : fs.node p = some node) :
    Wrote fs (fs.setBytes (fs.firstName p) bytes) p bytes := by
  -- every name of the file written shows the new bytes, through whichever name it was written
  have hnodes : ∀ q, (fs.setBytes (fs.firstName p) bytes).node q =
      if fs.firstName q = fs.firstName p then some { node with bytes := bytes }
      else fs.node q := by
    intro q
    unfold FileTree.node
    rw [setBytes_firstName, setBytes_nodeAt]
    split_ifs with hq
    · have hsame : fs.nodeAt (fs.firstName q) = some node := hq ▸ hnode
      rw [hsame]
      rfl
    · rfl
  refine ⟨fun q => setBytes_mode, fun q => setBytes_follow, fun q => setBytes_firstName,
    fun q => ?_, fun root name => ?_, fun q => ?_⟩
  · rw [hnodes]
    rw [hnode]
    rfl
  · have hkeys : name ∈ (fs.setBytes (fs.firstName p) bytes).names root ↔ name ∈ fs.names root := by
      rw [mem_names, mem_names]
      show root ++ [name] ∈ (fs.entries.map _).map Prod.fst ↔ _
      rw [keys_setBytes]
    rw [hkeys]
    refine ⟨Or.inl, fun h => h.elim id fun hp => ?_⟩
    rw [mem_names, hp]
    by_contra hnot
    exact entryAt_of_node hnode (fs.entryAt_eq_none.mpr hnot)
  -- no name is added and no directory changes its mode, so what can be written stays the same
  · have hadd : (fs.setBytes (fs.firstName p) bytes).canAdd q = fs.canAdd q := by
      apply canAdd_congr
      · rw [setBytes_entryAt]
        split_ifs <;> simp
      · exact fun d => setBytes_mode
    unfold accepts
    rw [hnodes, hadd]
    split_ifs with hq
    · have hsame : fs.node q = some node := (congrArg fs.nodeAt hq).trans hnode
      rw [hsame]
    · rfl

/-- A path without an entry is the first name of no other. -/
theorem eq_of_firstName (hfree : fs.entryAt p = none) (h : fs.firstName q = fs.firstName p) :
    q = p := by
  have hp : fs.firstName p = p := by
    unfold FileTree.firstName
    rw [hfree]
  rw [hp] at h
  unfold FileTree.firstName at h
  split at h
  · rename_i first hlink
    subst h
    obtain ⟨node, hnode⟩ := fs.first_name q first (fs.entryAt_eq_some.mp hlink)
    rw [← entryAt_eq_some, hfree] at hnode
    cases hnode
  · exact h

/-- Writing a new file. -/
theorem wrote_add (h : fs.canAdd p = true) :
    Wrote fs (fs.add p (.file { bytes := bytes }) h nofun) p bytes := by
  have hfree := (fs.canAdd_spec h).1
  have hentry := fun q => @add_entryAt os fs p q (.file { bytes := bytes }) h nofun
  have hmode : ∀ q, (fs.add p (.file { bytes := bytes }) h nofun).mode q = fs.mode q := by
    intro q
    unfold FileTree.mode
    rw [hentry]
    split_ifs with hq
    · rw [hq, hfree]
    · rfl
  have hfirst : ∀ q, (fs.add p (.file { bytes := bytes }) h nofun).firstName q =
      fs.firstName q := by
    intro q
    unfold FileTree.firstName
    rw [hentry]
    split_ifs with hq
    · rw [hq, hfree]
    · rfl
  -- the name is free, so it is no link and the first name of the new file
  have hnew : fs.node p = none := by
    unfold FileTree.node FileTree.firstName FileTree.nodeAt
    simp only [hfree]
  have hnodes : ∀ q, (fs.add p (.file { bytes := bytes }) h nofun).node q =
      if q = p then some { bytes := bytes } else fs.node q := by
    intro q
    unfold FileTree.node
    rw [hfirst]
    unfold FileTree.nodeAt
    rw [hentry]
    by_cases hq : q = p
    · have hself : fs.firstName p = p := by
        unfold FileTree.firstName
        rw [hfree]
      rw [if_pos hq, hq, if_pos hself]
    -- a name that shared the new file's node would have been bound before the write
    · have hother : fs.firstName q ≠ p := by
        intro heq
        have hself : fs.firstName p = p := by
          unfold FileTree.firstName
          rw [hfree]
        exact hq (eq_of_firstName hfree (heq.trans hself.symm))
      rw [if_neg hq, if_neg hother]
  refine ⟨hmode, fun q => ?_, hfirst, fun q => ?_, fun root name => ?_, fun q => ?_⟩
  · unfold FileTree.follow
    rw [hentry]
    split_ifs with hq
    · rw [hq, hfree]
    · rfl
  · rw [hnodes]
    by_cases hq : q = p
    · subst hq
      rw [if_pos rfl, if_pos rfl, hnew]
      rfl
    · rw [if_neg hq, if_neg fun heq => hq (eq_of_firstName hfree heq)]
  · rw [mem_names, mem_names]
    show root ++ [name] ∈ (fs.entries ++ [(p, _)]).map Prod.fst ↔ _
    rw [List.map_append, List.mem_append]
    simp
  · unfold accepts
    rw [hnodes]
    by_cases hq : q = p
    · subst hq
      rw [if_pos rfl, hnew, h]
    · have hadd : (fs.add p (.file { bytes := bytes }) h nofun).canAdd q = fs.canAdd q := by
        apply canAdd_congr
        · rw [hentry, if_neg hq]
        · exact hmode
      rw [if_neg hq, hadd]

/-- **Writing** succeeds exactly where the look-up ends at a path that accepts it. -/
theorem write_isSome (fs : FileTree os) (root : PosixPath) (name : JStr) (bytes : List UInt8) :
    (∃ fs', fs.write root name bytes = some fs') ↔
      ∃ p, fs.find root name = .at p ∧ fs.accepts p = true := by
  unfold write
  cases hfind : fs.find root name with
  | refused => simp
  | absent => simp
  | «at» p =>
    simp only [Lookup.at.injEq, exists_eq_left']
    unfold writeAt accepts
    cases hnode : fs.node p with
    | none => by_cases hadd : fs.canAdd p = true <;> simp [hadd]
    | some node => cases hwritable : node.writable <;> simp [hwritable]

/-- And there it writes. -/
theorem write_spec (h : fs.write root name bytes = some fs') :
    ∃ p, fs.find root name = .at p ∧ fs.accepts p = true ∧ Wrote fs fs' p bytes := by
  obtain ⟨p, hfind, haccepts⟩ := (fs.write_isSome root name bytes).mp ⟨fs', h⟩
  refine ⟨p, hfind, haccepts, ?_⟩
  unfold write at h
  rw [hfind] at h
  simp only [writeAt] at h
  cases hnode : fs.node p with
  | none =>
    simp only [hnode] at h
    split at h
    · obtain rfl := Option.some.inj h
      exact wrote_add _
    · cases h
  | some node =>
    simp only [hnode] at h
    split at h
    · obtain rfl := Option.some.inj h
      exact wrote_setBytes hnode
    · cases h

/-- Look-ups go by the directories and the symbolic links alone. -/
theorem find_congr (hmode : ∀ q, fs'.mode q = fs.mode q) (hfollow : ∀ q, fs'.follow q = fs.follow q)
    (root : PosixPath) (name : JStr) : fs'.find root name = fs.find root name := by
  have hwalk : ∀ (parts : List JStr) (p : PosixPath), fs'.walk p parts = fs.walk p parts := by
    intro parts
    induction parts with
    | nil => exact fun _ => rfl
    | cons part rest ih =>
      intro p
      rw [walk, walk, hmode]
      simp only [hfollow, ih]
  unfold find
  simp only [hwalk]

/-- A look-up goes the same way after a write. -/
theorem Wrote.find (h : Wrote fs fs' p bytes) (root : PosixPath) (name : JStr) :
    fs'.find root name = fs.find root name := find_congr h.mode h.follow root name

end

end FileTree

end RootSign.Python
