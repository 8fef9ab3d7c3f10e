import RootSign.Sdk.BundleFiles

namespace RootSign

open RootSign.Python

/-!
# The bundle checker

`check_bundle` on any directory and any manifest.

* `bundleFiles`, `listedIn` — the files below a directory, and what its manifest lists;
* `Matches`, `CheckerExact` — the two are the same, and the checker says so exactly then;
* `check_exact_iff` — it does so for the directories that are there and `FlatlyListed`.
-/

section

variable {os : PathRules} (read : List UInt8 → ParsedFile) (fs : FileTree os) (root : PosixPath)

/-- The files anywhere below a directory, other than its manifest. -/
def bundleFiles : List (JStr × List UInt8) := (fs.below root).filter fun p => p.1 ≠ manifestFile

/-- The names and digests that a manifest lists: it is a file, it parses, and its `files` are a dict
    keyed by strings. -/
def listedIn : Option (List (JStr × Json)) :=
  match fs.readFile root manifestFile with
  | .file raw =>
    match read raw with
    | .value manifest => (manifestFiles manifest).bind listedNames
    | _ => none
  | _ => none

/-- The files are those listed, each with the digest listed for it. -/
structure Matches (files : List (JStr × List UInt8)) (listed : List (JStr × Json)) : Prop where
  same_names : ∀ name, name ∈ files.map Prod.fst ↔ name ∈ listed.map Prod.fst
  same_digests : ∀ name bytes digest, (name, bytes) ∈ files → (name, digest) ∈ listed →
    digestMatches bytes digest = true

/-- Every file added, removed or altered is named in the list for it. -/
structure NamesChanges (files : List (JStr × List UInt8)) (listed : List (JStr × Json))
    (r : BundleCheck) : Prop where
  added : ∀ name ∈ files.map Prod.fst, name ∉ listed.map Prod.fst → name ∈ r.unexpected
  removed : ∀ name ∈ listed.map Prod.fst, name ∉ files.map Prod.fst → name ∈ r.missing
  altered : ∀ name bytes digest, (name, bytes) ∈ files → (name, digest) ∈ listed →
    digestMatches bytes digest = false → name ∈ r.altered

/-- The files that `iterdir` and `is_file` find in a directory. -/
def presentFiles : List JStr := (fs.listFiles root).getD []

/-- **Total and exact**: the checker returns, says `intact` exactly where the manifest can be read
    and matches the files, and names what has changed. -/
def CheckerExact (home : JStr → Option PosixPath) (directory : DirectoryArg) : Prop :=
  ∃ root r, expandUser home directory = some root ∧ checkBundle read home fs directory = .ok r ∧
    (r.intact = true ↔
      ∃ listed, listedIn read fs root = some listed ∧ Matches (bundleFiles fs root) listed) ∧
    ∀ listed, listedIn read fs root = some listed → NamesChanges (bundleFiles fs root) listed r

/-- The manifest can be read and is not nested too deep, its keys are strings; with a manifest to
    compare with, no look-up and no reading raises, and the directory can be listed; each name
    listed under which a file is found is the relative name of a file below the directory, other
    than the manifest; and each file further down is listed. -/
structure FlatlyListed : Prop where
  manifest_look_up : fs.readFile root manifestFile ≠ .refused
  not_deep : ∀ raw, fs.readFile root manifestFile = .file raw → read raw ≠ .tooDeep
  string_keys : ∀ raw manifest pairs, fs.readFile root manifestFile = .file raw →
    read raw = .value manifest → manifestFiles manifest = some pairs →
      ∃ listed, listedNames pairs = some listed
  look_up : ∀ listed, listedIn read fs root = some listed → ∀ name ∈ listed.map Prod.fst,
    fs.readFile root name ≠ .refused
  lists : ∀ listed, listedIn read fs root = some listed →
    ∃ present, fs.listFiles root = some present
  inside : ∀ listed, listedIn read fs root = some listed → ∀ name ∈ listed.map Prod.fst,
    ∀ bytes, fs.readFile root name = .file bytes → name ∈ (bundleFiles fs root).map Prod.fst
  flat : ∀ listed, listedIn read fs root = some listed →
    ∀ name ∈ (bundleFiles fs root).map Prod.fst,
      name ∈ presentFiles fs root ∨ name ∈ listed.map Prod.fst

end

section

variable {os : PathRules} {read : List UInt8 → ParsedFile} {fs : FileTree os} {root : PosixPath}
variable {name : JStr} {bytes : List UInt8} {listed : List (JStr × Json)} {r r' : BundleCheck}

/-! ### Reading the files -/

/-- A file below a directory is read under its relative name. -/
theorem readFile_of_below (h : (name, bytes) ∈ fs.below root) :
    fs.readFile root name = .refused ∨ fs.readFile root name = .file bytes := by
  obtain ⟨rest, node, hne, rfl, hmem, hnode, rfl⟩ := FileTree.mem_below.mp h
  unfold FileTree.readFile
  rcases fs.find_relativeName hne hmem with hfind | hfind
  · rw [hfind]
    exact Or.inl rfl
  · rw [hfind]
    unfold FileTree.nodeBehind at hnode
    cases hfollow : fs.follow (root ++ rest) with
    | refused => simp [hfollow] at hnode
    | absent => simp [hfollow] at hnode
    | «at» p =>
      simp only [hfollow] at hnode
      simp only [hnode]
      -- a file that is there can still be unreadable
      cases node.readable <;> simp

theorem below_of_bundleFiles (h : (name, bytes) ∈ bundleFiles fs root) :
    (name, bytes) ∈ fs.below root ∧ name ≠ manifestFile := by
  obtain ⟨hmem, hne⟩ := List.mem_filter.mp h
  exact ⟨hmem, of_decide_eq_true hne⟩

theorem mem_presentFiles (h : name ∈ presentFiles fs root) :
    name ∈ fs.names root ∧ fs.isFile root name = some true := by
  unfold presentFiles at h
  cases hlist : fs.listFiles root with
  | none => simp [hlist] at h
  | some present =>
    rw [hlist, Option.getD_some, (FileTree.listFiles_eq_some.mp hlist).2.2, List.mem_filter] at h
    exact ⟨h.1, beq_iff_eq.mp h.2⟩

/-- A file directly in the directory is below it. -/
theorem below_of_child (h : name ∈ presentFiles fs root) :
    ∃ bytes, (name, bytes) ∈ fs.below root := by
  obtain ⟨hname, hfile⟩ := mem_presentFiles h
  obtain ⟨node, hnode⟩ : ∃ node, fs.nodeBehind (root ++ [name]) = some node := by
    unfold FileTree.isFile at hfile
    unfold FileTree.nodeBehind
    rcases fs.find_name hname with hfind | hfind
    · simp [hfind] at hfile
    · rw [hfind] at hfile
      cases hfollow : fs.follow (root ++ [name]) with
      | refused => simp [hfollow] at hfile
      | absent => simp [hfollow] at hfile
      | «at» p =>
        simp only [hfollow, Option.some.injEq] at hfile
        exact Option.isSome_iff_exists.mp hfile
  refine ⟨node.bytes, FileTree.mem_below.mpr ⟨[name], node, by simp, ?_, ?_, hnode, rfl⟩⟩
  · simp [relativeName]
  · exact FileTree.mem_names.mp hname

/-! ### The loop -/

/-- What the loop adds to the lists. -/
structure LoopFound (fs : FileTree os) (root : PosixPath) (listed : List (JStr × Json))
    (r r' : BundleCheck) : Prop where
  look_up : ∀ name ∈ listed.map Prod.fst, fs.readFile root name ≠ .refused
  missing : ∀ name, name ∈ r'.missing ↔
    name ∈ r.missing ∨ (name ∈ listed.map Prod.fst ∧ fs.readFile root name = .noFile)
  altered : ∀ name, name ∈ r'.altered ↔ name ∈ r.altered ∨
    ∃ digest bytes, (name, digest) ∈ listed ∧ fs.readFile root name = .file bytes ∧
      digestMatches bytes digest = false
  manifest_hash : r'.manifest_hash = r.manifest_hash
  error : r'.error = r.error

theorem checkFiles_found (h : checkFiles fs root listed r = .ok r') :
    LoopFound fs root listed r r' := by
  induction listed generalizing r with
  | nil =>
    obtain rfl := Except.ok.inj h
    exact ⟨by simp, by simp, by simp, rfl, rfl⟩
  | cons p rest ih =>
    obtain ⟨first, digest⟩ := p
    rw [checkFiles] at h
    cases hread : fs.readFile root first with
    | refused => simp [hread] at h
    | noFile =>
      simp only [hread] at h
      obtain ⟨hlook, hmissing, haltered, hhash, herror⟩ := ih h
      refine ⟨?_, fun name => ?_, fun name => ?_, hhash, herror⟩
      · simpa [hread] using hlook
      · rw [hmissing, List.mem_append, List.mem_singleton, List.map_cons, List.mem_cons]
        constructor
        · rintro ((hold | rfl) | ⟨hlisted, hnone⟩)
          · exact Or.inl hold
          · exact Or.inr ⟨Or.inl rfl, hread⟩
          · exact Or.inr ⟨Or.inr hlisted, hnone⟩
        · rintro (hold | ⟨rfl | hlisted, hnone⟩)
          · exact Or.inl (Or.inl hold)
          · exact Or.inl (Or.inr rfl)
          · exact Or.inr ⟨hlisted, hnone⟩
      · rw [haltered]
        constructor
        · rintro (hold | ⟨d, bytes, hlisted, hfile⟩)
          · exact Or.inl hold
          · exact Or.inr ⟨d, bytes, List.mem_cons_of_mem _ hlisted, hfile⟩
        · rintro (hold | ⟨d, bytes, hlisted, hfile, hdiffers⟩)
          · exact Or.inl hold
          · rcases List.mem_cons.mp hlisted with heq | hlisted
            · obtain ⟨rfl, rfl⟩ := Prod.mk.inj heq
              rw [hread] at hfile
              cases hfile
            · exact Or.inr ⟨d, bytes, hlisted, hfile, hdiffers⟩
    | file bytes =>
      simp only [hread] at h
      -- the name is added to one of two lists, by its digest
      have hrest : ∃ next : BundleCheck, checkFiles fs root rest next = .ok r' ∧
          next.missing = r.missing ∧ next.manifest_hash = r.manifest_hash ∧ next.error = r.error ∧
          (∀ name, name ∈ next.altered ↔
            name ∈ r.altered ∨ (name = first ∧ digestMatches bytes digest = false)) := by
        by_cases hmatch : digestMatches bytes digest = true
        · rw [if_pos hmatch] at h
          exact ⟨_, h, rfl, rfl, rfl, by simp [hmatch]⟩
        · rw [if_neg hmatch] at h
          refine ⟨_, h, rfl, rfl, rfl, ?_⟩
          simp [Bool.eq_false_iff.mpr hmatch]
      obtain ⟨next, h, hnextMissing, hnextHash, hnextError, hnextAltered⟩ := hrest
      obtain ⟨hlook, hmissing, haltered, hhash, herror⟩ := ih h
      refine ⟨?_, fun name => ?_, fun name => ?_, hhash.trans hnextHash, herror.trans hnextError⟩
      · simpa [hread] using hlook
      · rw [hmissing, hnextMissing, List.map_cons, List.mem_cons]
        constructor
        · rintro (hold | ⟨hlisted, hnone⟩)
          · exact Or.inl hold
          · exact Or.inr ⟨Or.inr hlisted, hnone⟩
        · rintro (hold | ⟨rfl | hlisted, hnone⟩)
          · exact Or.inl hold
          · rw [hread] at hnone
            cases hnone
          · exact Or.inr ⟨hlisted, hnone⟩
      · rw [haltered, hnextAltered]
        constructor
        · rintro ((hold | ⟨rfl, hdiffers⟩) | ⟨d, content, hlisted, hfile⟩)
          · exact Or.inl hold
          · exact Or.inr ⟨digest, bytes, List.mem_cons_self, hread, hdiffers⟩
          · exact Or.inr ⟨d, content, List.mem_cons_of_mem _ hlisted, hfile⟩
        · rintro (hold | ⟨d, content, hlisted, hfile, hdiffers⟩)
          · exact Or.inl (Or.inl hold)
          · rcases List.mem_cons.mp hlisted with heq | hlisted
            · obtain ⟨rfl, rfl⟩ := Prod.mk.inj heq
              rw [hread] at hfile
              obtain rfl := ReadResult.file.inj hfile
              exact Or.inl (Or.inr ⟨rfl, hdiffers⟩)
            · exact Or.inr ⟨d, content, hlisted, hfile, hdiffers⟩

/-- The loop returns where no look-up raises. -/
theorem checkFiles_ok (h : ∀ name ∈ listed.map Prod.fst, fs.readFile root name ≠ .refused) :
    ∃ r', checkFiles fs root listed r = .ok r' := by
  induction listed generalizing r with
  | nil => exact ⟨r, rfl⟩
  | cons p rest ih =>
    obtain ⟨first, digest⟩ := p
    have hfirst := h first (by simp)
    have hrest := fun name hname => h name (List.mem_cons_of_mem _ hname)
    rw [checkFiles]
    cases hread : fs.readFile root first with
    | refused => exact absurd hread hfirst
    | noFile => exact ih hrest
    | file bytes =>
      simp only
      split
      · exact ih hrest
      · exact ih hrest

/-! ### The checker -/

/-- What the checker finds where the manifest can be read. -/
structure CheckFound (fs : FileTree os) (root : PosixPath) (listed : List (JStr × Json))
    (r : BundleCheck) : Prop where
  look_up : ∀ name ∈ listed.map Prod.fst, fs.readFile root name ≠ .refused
  missing : ∀ name, name ∈ r.missing ↔
    name ∈ listed.map Prod.fst ∧ fs.readFile root name = .noFile
  altered : ∀ name, name ∈ r.altered ↔
    ∃ digest bytes, (name, digest) ∈ listed ∧ fs.readFile root name = .file bytes ∧
      digestMatches bytes digest = false
  lists : ∃ present, fs.listFiles root = some present
  unexpected : ∀ name, name ∈ r.unexpected ↔
    name ∈ presentFiles fs root ∧ name ∉ listed.map Prod.fst ∧ name ≠ manifestFile
  error : r.error = none

theorem mem_sortNames {α : Type} {fields : List (JStr × α)} {p : JStr × α} :
    p ∈ sortNames fields ↔ p ∈ fields := (List.perm_insertionSort _ _).mem_iff

theorem mem_sortNames_fst {α : Type} {fields : List (JStr × α)} {name : JStr} :
    name ∈ (sortNames fields).map Prod.fst ↔ name ∈ fields.map Prod.fst :=
  ((List.perm_insertionSort _ _).map Prod.fst).mem_iff

/-- Where names can be read from the manifest. -/
theorem listedIn_eq_some : listedIn read fs root = some listed ↔
    ∃ raw manifest pairs, fs.readFile root manifestFile = .file raw ∧ read raw = .value manifest ∧
      manifestFiles manifest = some pairs ∧ listedNames pairs = some listed := by
  unfold listedIn
  constructor
  · intro h
    cases hraw : fs.readFile root manifestFile with
    | refused => simp [hraw] at h
    | noFile => simp [hraw] at h
    | file raw =>
      simp only [hraw] at h
      cases hread : read raw with
      | refused => simp [hread] at h
      | tooDeep => simp [hread] at h
      | value manifest =>
        simp only [hread] at h
        obtain ⟨pairs, hpairs, hlisted⟩ := Option.bind_eq_some_iff.mp h
        exact ⟨raw, manifest, pairs, rfl, hread, hpairs, hlisted⟩
  · rintro ⟨raw, manifest, pairs, hraw, hread, hpairs, hlisted⟩
    simp only [hraw, hread, hpairs, Option.bind_some, hlisted]

theorem checkRoot_found (hlisted : listedIn read fs root = some listed)
    (h : checkRoot read fs root = .ok r) : CheckFound fs root listed r := by
  obtain ⟨raw, manifest, pairs, hraw, hread, hpairs, hnames⟩ := listedIn_eq_some.mp hlisted
  unfold checkRoot at h
  simp only [hraw, hread, hpairs, hnames] at h
  cases hloop : checkFiles fs root (sortNames listed)
    { manifest_hash := some (sha256Bytes raw) } with
  | error e => simp [hloop] at h
  | ok found =>
    cases hlist : fs.listFiles root with
    | none => simp [hloop, hlist] at h
    | some present =>
      simp only [hloop, hlist] at h
      obtain rfl := Except.ok.inj h
      obtain ⟨hlook, hmissing, haltered, -, herror⟩ := checkFiles_found hloop
      refine ⟨fun name hname => hlook name (mem_sortNames_fst.mpr hname), fun name => ?_,
        fun name => ?_, ⟨present, hlist⟩, fun name => ?_, herror⟩
      · show name ∈ found.missing ↔ _
        rw [hmissing, mem_sortNames_fst]
        simp
      · show name ∈ found.altered ↔ _
        rw [haltered]
        simp [mem_sortNames]
      · rw [(List.perm_insertionSort _ _).mem_iff, List.mem_filter, Bool.and_eq_true,
          decide_eq_true_eq, decide_eq_true_eq, presentFiles, hlist, Option.getD_some]

/-- Without a readable manifest the result has an error. -/
theorem checkRoot_error (hlisted : listedIn read fs root = none)
    (h : checkRoot read fs root = .ok r) : r.error ≠ none := by
  unfold listedIn at hlisted
  unfold checkRoot at h
  -- by what is found under the manifest's name, and what its bytes are read as
  cases hraw : fs.readFile root manifestFile with
  | refused => simp [hraw] at h
  | noFile =>
    simp only [hraw] at h
    obtain rfl := Except.ok.inj h
    simp
  | file raw =>
    simp only [hraw] at h hlisted
    cases hread : read raw with
    | tooDeep => simp [hread] at h
    | refused =>
      simp only [hread] at h
      obtain rfl := Except.ok.inj h
      simp
    | value manifest =>
      simp only [hread] at h hlisted
      -- a value without a dict or list of pairs under `files` is no manifest
      cases hpairs : manifestFiles manifest with
      | none =>
        simp only [hpairs] at h
        obtain rfl := Except.ok.inj h
        simp
      | some pairs =>
        simp only [hpairs, Option.bind_some] at h hlisted
        simp [hlisted] at h

/-- The checker returns where nothing it does raises. -/
theorem checkRoot_ok (h : FlatlyListed read fs root) : ∃ r, checkRoot read fs root = .ok r := by
  unfold checkRoot
  cases hraw : fs.readFile root manifestFile with
  | refused => exact absurd hraw h.manifest_look_up
  | noFile => exact ⟨_, rfl⟩
  | file raw =>
    simp only
    cases hread : read raw with
    | tooDeep => exact absurd hread (h.not_deep raw hraw)
    | refused => exact ⟨_, rfl⟩
    | value manifest =>
      simp only
      cases hpairs : manifestFiles manifest with
      | none => exact ⟨_, rfl⟩
      | some pairs =>
        obtain ⟨listed, hnames⟩ := h.string_keys raw manifest pairs hraw hread hpairs
        have hlisted : listedIn read fs root = some listed :=
          listedIn_eq_some.mpr ⟨raw, manifest, pairs, hraw, hread, hpairs, hnames⟩
        obtain ⟨r, hloop⟩ := @checkFiles_ok os fs root (sortNames listed)
          { manifest_hash := some (sha256Bytes raw) }
          fun name hname => h.look_up listed hlisted name (mem_sortNames_fst.mp hname)
        obtain ⟨present, hlist⟩ := h.lists listed hlisted
        simp only [hnames, hloop, hlist]
        exact ⟨_, rfl⟩

theorem intact_iff : r.intact = true ↔
    (∀ name, name ∉ r.altered) ∧ (∀ name, name ∉ r.missing) ∧ (∀ name, name ∉ r.unexpected) ∧
      r.error = none := by
  simp only [BundleCheck.intact, Bool.and_eq_true, List.isEmpty_iff, Option.isNone_iff_eq_none,
    List.eq_nil_iff_forall_not_mem, and_assoc]

/-! ### Directories that are flatly listed -/

theorem mem_names {files : List (JStr × List UInt8)} :
    name ∈ files.map Prod.fst ↔ ∃ bytes, (name, bytes) ∈ files := by
  rw [List.mem_map]
  constructor
  · rintro ⟨⟨n, bytes⟩, hmem, rfl⟩
    exact ⟨bytes, hmem⟩
  · rintro ⟨bytes, hmem⟩
    exact ⟨(name, bytes), hmem, rfl⟩

/-- Under a listed name exactly the file of that name is found. -/
theorem FlatlyListed.readFile_iff (h : FlatlyListed read fs root)
    (hlisted : listedIn read fs root = some listed) (hname : name ∈ listed.map Prod.fst) :
    fs.readFile root name = .file bytes ↔ (name, bytes) ∈ bundleFiles fs root := by
  have hbelow : ∀ bytes, (name, bytes) ∈ bundleFiles fs root →
      fs.readFile root name = .file bytes := fun bytes hfile =>
    (readFile_of_below (below_of_bundleFiles hfile).1).resolve_left
      (h.look_up listed hlisted name hname)
  refine ⟨fun hfile => ?_, hbelow bytes⟩
  obtain ⟨bytes', hmem⟩ := mem_names.mp (h.inside listed hlisted name hname bytes hfile)
  obtain rfl := ReadResult.file.inj (hfile.symm.trans (hbelow bytes' hmem))
  exact hmem

theorem FlatlyListed.noFile_iff (h : FlatlyListed read fs root)
    (hlisted : listedIn read fs root = some listed) (hname : name ∈ listed.map Prod.fst) :
    fs.readFile root name = .noFile ↔ name ∉ (bundleFiles fs root).map Prod.fst := by
  rw [mem_names]
  simp only [← h.readFile_iff hlisted hname]
  cases hfile : fs.readFile root name with
  | refused => exact absurd hfile (h.look_up listed hlisted name hname)
  | noFile => simp
  | file bytes => simp

/-- There the checker names what has changed. -/
theorem FlatlyListed.namesChanges (h : FlatlyListed read fs root)
    (hlisted : listedIn read fs root = some listed) (hfound : CheckFound fs root listed r) :
    NamesChanges (bundleFiles fs root) listed r where
  added := by
    intro name hname hnot
    obtain ⟨bytes, hmem⟩ := mem_names.mp hname
    have hchild := (h.flat listed hlisted name hname).resolve_right hnot
    exact (hfound.unexpected name).mpr ⟨hchild, hnot, (below_of_bundleFiles hmem).2⟩
  removed := by
    intro name hname hnot
    exact (hfound.missing name).mpr ⟨hname, (h.noFile_iff hlisted hname).mpr hnot⟩
  altered := by
    intro name bytes digest hfile hdigest hdiffers
    have hname := List.mem_map_of_mem (f := Prod.fst) hdigest
    exact (hfound.altered name).mpr ⟨digest, bytes, hdigest,
      (h.readFile_iff hlisted hname).mpr hfile, hdiffers⟩

/-- There the lists are empty exactly where the manifest matches the files. -/
theorem FlatlyListed.intact_iff_matches (h : FlatlyListed read fs root)
    (hlisted : listedIn read fs root = some listed) (hfound : CheckFound fs root listed r) :
    r.intact = true ↔ Matches (bundleFiles fs root) listed := by
  have hnamed := h.namesChanges hlisted hfound
  rw [intact_iff]
  constructor
  -- each difference is named in one of the three lists, which are empty
  · rintro ⟨hnoAltered, hnoMissing, hnoUnexpected, -⟩
    refine ⟨fun name => ⟨fun hname => ?_, fun hname => ?_⟩,
      fun name bytes digest hfile hdigest => ?_⟩
    · by_contra hnot
      exact hnoUnexpected name (hnamed.added name hname hnot)
    · by_contra hnot
      exact hnoMissing name (hnamed.removed name hname hnot)
    · by_contra hdiffers
      exact hnoAltered name
        (hnamed.altered name bytes digest hfile hdigest (Bool.eq_false_iff.mpr hdiffers))
  · rintro ⟨hnames, hdigests⟩
    -- each entry of a list is a difference
    refine ⟨fun name hname => ?_, fun name hname => ?_, fun name hname => ?_, hfound.error⟩
    · obtain ⟨digest, bytes, hdigest, hfile, hdiffers⟩ := (hfound.altered name).mp hname
      have hlist := List.mem_map_of_mem (f := Prod.fst) hdigest
      have hmem := (h.readFile_iff hlisted hlist).mp hfile
      rw [hdigests name bytes digest hmem hdigest] at hdiffers
      cases hdiffers
    · obtain ⟨hlist, hnone⟩ := (hfound.missing name).mp hname
      exact (h.noFile_iff hlisted hlist).mp hnone ((hnames name).mpr hlist)
    · obtain ⟨hchild, hnot, hne⟩ := (hfound.unexpected name).mp hname
      obtain ⟨bytes, hbelow⟩ := below_of_child hchild
      have hmem : (name, bytes) ∈ bundleFiles fs root :=
        List.mem_filter.mpr ⟨hbelow, decide_eq_true hne⟩
      exact hnot ((hnames name).mp (mem_names.mpr ⟨bytes, hmem⟩))

/-- Where the checker is total and exact, the directory is there and flatly listed. -/
theorem flatlyListed_of_exact {home : JStr → Option PosixPath} {directory : DirectoryArg}
    (h : CheckerExact read fs home directory) :
    ∃ root, expandUser home directory = some root ∧ FlatlyListed read fs root := by
  obtain ⟨root, r, hroot, hr, -, hnamed⟩ := h
  refine ⟨root, hroot, ?_⟩
  unfold checkBundle at hr
  rw [hroot] at hr
  have hreturned := hr
  unfold checkRoot at hreturned
  refine ⟨fun hraw => ?_, fun raw hraw hdeep => ?_, fun raw manifest pairs hraw hread hpairs => ?_,
    fun listed hlisted => ?_, fun listed hlisted => ?_,
    fun listed hlisted name hname bytes hfile => ?_, fun listed hlisted name hname => ?_⟩
  · simp [hraw] at hreturned
  · simp [hraw, hdeep] at hreturned
  · cases hnames : listedNames pairs with
    | none => simp [hraw, hread, hpairs, hnames] at hreturned
    | some listed => exact ⟨listed, rfl⟩
  · exact (checkRoot_found hlisted hr).look_up
  · exact (checkRoot_found hlisted hr).lists
  · -- a name under which a file outside is found is not reported as missing
    by_contra houtside
    have hmissing := (hnamed listed hlisted).removed name hname houtside
    have hnone := (((checkRoot_found hlisted hr).missing name).mp hmissing).2
    rw [hfile] at hnone
    cases hnone
  · -- and only files directly in the directory are reported as unexpected
    by_cases hin : name ∈ listed.map Prod.fst
    · exact Or.inr hin
    · have hadded := (hnamed listed hlisted).added name hname hin
      exact Or.inl (((checkRoot_found hlisted hr).unexpected name).mp hadded).1

end

/-- A bundle whose manifest lists nothing, with a document below `extra`. -/
def forgedTree : FileTree utf8Rules where
  entries :=
    [([], .dir {}), (["b"], .dir {}), (["b", "extra"], .dir {}),
     (["b", "manifest.json"],
      .file { bytes := (lit "\x7b\"files\": \x7b\x7d\x7d").map fun u => UInt8.ofNat u.val }),
     (["b", "extra", "forged.json"],
      .file { bytes := (lit "\x7b\x7d").map fun u => UInt8.ofNat u.val })]
  nodup := by decide
  root_dir := ⟨{}, List.mem_cons_self⟩
  parent := by
    intro p hp hne
    simp only [List.map_cons, List.map_nil, List.mem_cons, List.not_mem_nil, or_false] at hp
    rcases hp with rfl | rfl | rfl | rfl | rfl
    · exact absurd rfl hne
    · exact ⟨[], {}, "b", by simp, by decide, rfl⟩
    · exact ⟨["b"], {}, "extra", by simp, by decide, rfl⟩
    · exact ⟨["b"], {}, "manifest.json", by simp, by decide, rfl⟩
    · exact ⟨["b", "extra"], {}, "forged.json", by simp, by decide, rfl⟩
  first_name := by simp

end RootSign
