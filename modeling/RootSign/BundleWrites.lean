import RootSign.BundleChecker

namespace RootSign

open RootSign.Python

/-!
# What is written checks

`write_bundle` into a directory with any contents, and `check_bundle` on it afterwards.

* `BundleDocuments.names` — the files a bundle is written to, besides its manifest;
* `writeFiles_spec` — what the tree holds after the loop: under each name a text that was written to
  the same file;
* `WrittenChecks` — the checker finds the directory intact, under the manifest hash of the bundle;
* `OwnFiles`, `written_checks_iff` — it does exactly where the names written are files of their own
  and no other name leads to a file.
-/

/-- The names of the files other than the manifest. -/
def BundleDocuments.names (b : BundleDocuments) : List JStr :=
  b.documents.map Prod.fst ++ b.rendered.map Prod.fst

/-- The texts that are written, under their names: those of the files, and the manifest. -/
def BundleDocuments.texts (w : JsonLimits) (sdk_version : JStr) (b : BundleDocuments) :
    Except WriteError (List (JStr × List CodeUnit)) :=
  match b.files w with
  | .error e => .error (.document e)
  | .ok files => (b.manifestText w sdk_version).map fun text => files ++ [(manifestFile, text)]

/-- The checker finds the directory intact, and the digest of its manifest is that of the bundle. -/
def WrittenChecks {os : PathRules} (read : List UInt8 → ParsedFile)
    (home : JStr → Option PosixPath) (w : JsonLimits) (sdk_version : JStr) (fs : FileTree os)
    (directory : PosixPath) (b : BundleDocuments) : Prop :=
  ∃ r hash, checkBundle read home fs (.path directory) = .ok r ∧ r.intact = true ∧
    b.manifestHash w sdk_version = .ok hash ∧ r.manifest_hash = some hash

/-- **A directory for a bundle alone**, before its files are written.  Files that are there under
    the bundle's names can be read, and the directory can be listed; two of these names are one file
    only if their texts have one digest; none of them leads to another name in the directory; and no
    other name in it leads to a file, or to one that will be written. -/
structure OwnFiles {os : PathRules} (fs : FileTree os) (directory : PosixPath) (w : JsonLimits)
    (sdk_version : JStr) (b : BundleDocuments) : Prop where
  readable : ∀ name ∈ b.names ++ [manifestFile], fs.readFile directory name ≠ .refused
  lists : ∃ present, fs.listFiles directory = some present
  apart : ∀ texts, b.texts w sdk_version = .ok texts → ∀ p ∈ texts, ∀ q ∈ texts,
    fs.fileOf directory p.1 = fs.fileOf directory q.1 → sha256Text p.2 = sha256Text q.2
  inside : ∀ name ∈ b.names ++ [manifestFile], ∀ other,
    fs.find directory name = .at (directory ++ [other]) → other ∈ b.names ++ [manifestFile]
  others : ∀ other ∈ fs.names directory, other ∉ b.names ++ [manifestFile] →
    fs.isFile directory other ≠ some true ∧
      ∀ name ∈ b.names ++ [manifestFile], fs.fileOf directory other ≠ fs.fileOf directory name

section

variable {os : PathRules} {read : List UInt8 → ParsedFile} {w : JsonLimits} {sdk_version : JStr}
variable {fs fs' : FileTree os} {directory : PosixPath} {b : BundleDocuments} {name : JStr}
variable {files : List (JStr × List CodeUnit)} {digests : List (JStr × Json)} {α : Type}

/-! ### Setting keys -/

/-- The keys after an assignment are those before and the one assigned. -/
theorem mem_putKey_fst {l : List (JStr × α)} {key : JStr} {value : α} :
    name ∈ (putKey l key value).map Prod.fst ↔ name ∈ l.map Prod.fst ∨ name = key := by
  induction l with
  | nil => simp [putKey]
  | cons p rest ih =>
    obtain ⟨k, v⟩ := p
    rw [putKey]
    split
    · rename_i hk
      subst hk
      simp only [List.map_cons, List.mem_cons]
      tauto
    · simp only [List.map_cons, List.mem_cons, ih]
      tauto

/-- An assignment doubles no key. -/
theorem nodup_putKey {l : List (JStr × α)} {key : JStr} {value : α} (h : (l.map Prod.fst).Nodup) :
    ((putKey l key value).map Prod.fst).Nodup := by
  induction l with
  | nil => simp [putKey]
  | cons p rest ih =>
    obtain ⟨k, v⟩ := p
    rw [List.map_cons, List.nodup_cons] at h
    rw [putKey]
    split
    · rename_i hk
      subst hk
      rw [List.map_cons, List.nodup_cons]
      exact h
    · rename_i hk
      rw [List.map_cons, List.nodup_cons, mem_putKey_fst, not_or]
      exact ⟨⟨h.1, hk⟩, ih h.2⟩

/-- Setting fresh keys one by one appends them. -/
theorem foldl_putKey {l fields : List (JStr × α)} (h : ((l ++ fields).map Prod.fst).Nodup) :
    fields.foldl (fun l p => putKey l p.1 p.2) l = l ++ fields := by
  have hput : ∀ (l : List (JStr × α)) (key : JStr) (value : α), key ∉ l.map Prod.fst →
      putKey l key value = l ++ [(key, value)] := by
    intro l key value hkey
    induction l with
    | nil => rfl
    | cons p rest ih =>
      obtain ⟨k, v⟩ := p
      rw [List.map_cons, List.mem_cons, not_or] at hkey
      rw [putKey, if_neg (Ne.symm hkey.1), ih hkey.2]
      rfl
  induction fields generalizing l with
  | nil => simp
  | cons p rest ih =>
    have happend : l ++ p :: rest = (l ++ [p]) ++ rest := by simp
    have hfresh : p.1 ∉ l.map Prod.fst := by
      rw [List.map_append, List.map_cons, List.nodup_append] at h
      exact fun hmem => h.2.2 p.1 hmem p.1 List.mem_cons_self rfl
    rw [happend] at h ⊢
    rw [List.foldl_cons, hput l p.1 p.2 hfresh]
    exact ih h

/-! ### The files of a bundle -/

/-- The documents have different names, and none of them is the manifest's. -/
theorem documents_names (b : BundleDocuments) : (b.documents.map Prod.fst).Nodup ∧
    ∀ name ∈ b.documents.map Prod.fst,
      IsPart name ∧ utf8Encode name.units ≠ none ∧ name ≠ manifestFile := by
  unfold BundleDocuments.documents
  cases b.receipt with
  | none =>
    show (["verification.json", "timeline.json", "redaction.json"] : List JStr).Nodup ∧
      ∀ name ∈ (["verification.json", "timeline.json", "redaction.json"] : List JStr), _
    decide
  | some receipt =>
    show (["verification.json", "timeline.json", "redaction.json", "sync-receipt.json"] :
        List JStr).Nodup ∧
      ∀ name ∈ (["verification.json", "timeline.json", "redaction.json", "sync-receipt.json"] :
        List JStr), _
    decide

/-- Mapping the values keeps the keys. -/
theorem mapM_fst {ε β : Type} {f : JStr × α → Except ε β} {l : List (JStr × α)}
    {l' : List (JStr × β)} (h : (l.mapM fun p => (f p).map fun v => (p.1, v)) = .ok l') :
    List.Forall₂ (fun p q => q.1 = p.1 ∧ f p = .ok q.2) l l' := by
  rw [mapM_eq_ok] at h
  refine h.imp fun p q hpq => ?_
  cases hf : f p with
  | error e => simp [hf, Except.map] at hpq
  | ok v =>
    simp only [hf, Except.map, Except.ok.injEq] at hpq
    rw [← hpq]
    exact ⟨rfl, rfl⟩

/-- Lists matched under one name have the same names. -/
theorem fst_of_forall₂ {β : Type} {R : JStr × α → JStr × β → Prop} {l : List (JStr × α)}
    {l' : List (JStr × β)} (h : List.Forall₂ R l l') (hR : ∀ p q, R p q → q.1 = p.1) :
    l'.map Prod.fst = l.map Prod.fst := by
  induction h with
  | nil => rfl
  | cons hpq _ ih => rw [List.map_cons, List.map_cons, hR _ _ hpq, ih]

/-- The files have different names: those of the documents and of what is attached. -/
theorem files_names (h : b.files w = .ok files) : (files.map Prod.fst).Nodup ∧
    ∀ name, name ∈ files.map Prod.fst ↔ name ∈ b.names := by
  obtain ⟨texts, htexts, hfiles⟩ := bind_eq_ok.mp h
  obtain rfl := Except.ok.inj hfiles
  have hnames := fst_of_forall₂ (mapM_fst htexts) fun p q h => h.1
  have hfold : ∀ (rendered l : List (JStr × List CodeUnit)), (l.map Prod.fst).Nodup →
      ((rendered.foldl (fun l p => putKey l p.1 p.2) l).map Prod.fst).Nodup ∧
        ∀ name, name ∈ (rendered.foldl (fun l p => putKey l p.1 p.2) l).map Prod.fst ↔
          name ∈ l.map Prod.fst ∨ name ∈ rendered.map Prod.fst := by
    intro rendered
    induction rendered with
    | nil => exact fun l hl => ⟨hl, by simp⟩
    | cons p rest ih =>
      intro l hl
      obtain ⟨hnodup, hmem⟩ := ih (putKey l p.1 p.2) (nodup_putKey hl)
      refine ⟨hnodup, fun name => ?_⟩
      rw [List.foldl_cons, hmem, mem_putKey_fst, List.map_cons, List.mem_cons, or_assoc]
  have hdocuments : (texts.map Prod.fst).Nodup := hnames ▸ (documents_names b).1
  obtain ⟨hnodup, hmem⟩ := hfold b.rendered texts hdocuments
  refine ⟨hnodup, fun name => ?_⟩
  rw [hmem, hnames, BundleDocuments.names, List.mem_append]

/-- The digests are those of the files, each under its name. -/
theorem digests_of_files (hfiles : b.files w = .ok files) (h : b.digests w = .ok digests) :
    (digests.map Prod.fst).Nodup ∧ (∀ name, name ∈ digests.map Prod.fst ↔ name ∈ b.names) ∧
      ∀ name digest, (name, digest) ∈ digests →
        ∃ text sha, (name, text) ∈ files ∧ sha256Text text = .ok sha ∧ digest = .str sha := by
  obtain ⟨files', hfiles', hdigests⟩ := bind_eq_ok.mp h
  obtain rfl := Except.ok.inj (hfiles.symm.trans hfiles')
  obtain ⟨hnodup, hmem⟩ := files_names hfiles
  rw [mapM_eq_ok] at hdigests
  -- the digests are computed file by file, in the order of the names
  have hrelated : List.Forall₂ (fun p q => q.1 = p.1 ∧
      ∃ sha, sha256Text p.2 = .ok sha ∧ q.2 = .str sha) (sortNames files) digests := by
    refine hdigests.imp fun p q hpq => ?_
    cases hsha : sha256Text p.2 with
    | error e => simp [hsha, Except.map] at hpq
    | ok sha =>
      simp only [hsha, Except.map, Except.ok.injEq] at hpq
      rw [← hpq]
      exact ⟨rfl, sha, rfl, rfl⟩
  have hnames := fst_of_forall₂ hrelated fun p q h => h.1
  have hperm : ((sortNames files).map Prod.fst).Perm (files.map Prod.fst) :=
    (List.perm_insertionSort _ _).map Prod.fst
  refine ⟨hnames ▸ hperm.nodup_iff.mpr hnodup, fun name => ?_, fun name digest hdigest => ?_⟩
  · rw [hnames, hperm.mem_iff, hmem]
  -- the digest of a name stands at the place of its file
  · obtain ⟨i, hi, heq⟩ := List.mem_iff_getElem.mp hdigest
    have hi' : i < (sortNames files).length := hrelated.length_eq ▸ hi
    obtain ⟨hname, sha, hsha, hvalue⟩ := (List.forall₂_iff_get.mp hrelated).2 i hi' hi
    simp only [List.get_eq_getElem, heq] at hname hsha hvalue
    have hfile : (sortNames files)[i] ∈ files := mem_sortNames.mp (List.getElem_mem hi')
    exact ⟨(sortNames files)[i].2, sha, by rw [hname]; exact hfile, hsha, hvalue⟩

/-- A text that is written has bytes, and each name in the manifest is UTF-8. -/
theorem utf8_of_manifest {manifest : Dict} {text : List CodeUnit} {bytes : List UInt8}
    (hmanifest : b.manifest w sdk_version = .ok manifest)
    (htext : dumpsReceipt w manifest = .ok text)
    (hbytes : utf8Encode text = some bytes) :
    ∃ digests, b.digests w = .ok digests ∧
      manifest.lookup (JStr.ofString "files") = some (.obj digests) ∧
        ∀ name ∈ digests.map Prod.fst, utf8Encode name.units ≠ none := by
  unfold BundleDocuments.manifest at hmanifest
  cases hverdict : b.verification.item "verdict" with
  | error e => simp [hverdict] at hmanifest
  | ok verdict =>
    simp only [hverdict] at hmanifest
    cases hdigests : b.digests w with
    | error e => simp [hdigests] at hmanifest
    | ok digests =>
      simp only [hdigests] at hmanifest
      have hfiles : manifest.lookup (JStr.ofString "files") = some (.obj digests) := by
        rw [← Except.ok.inj hmanifest]
        simp [Dict.ofFields, List.lookup_cons]
      refine ⟨digests, rfl, hfiles, fun name hname => ?_⟩
      -- the manifest was written, so every string in it could be encoded
      have hwritable := writable_obj.mp (writable_of_written htext hbytes)
      have hmem : (JStr.ofString "files", Json.obj digests) ∈ manifest := by
        rw [← Except.ok.inj hmanifest]
        simp [Dict.ofFields]
      have hkeys := writable_obj.mp (hwritable.2 _ hmem).2
      obtain ⟨p, hp, rfl⟩ := List.mem_map.mp hname
      have hpaired := (hkeys.2 p hp).1
      rw [← scalarValues_isSome, Option.isSome_iff_exists] at hpaired
      obtain ⟨cs, hcs⟩ := hpaired
      rw [utf8Encode, hcs]
      simp

/-! ### What is written -/

/-- A text that was written could be encoded. -/
theorem writeText_ok {text : List CodeUnit} (h : writeText fs directory name text = .ok fs') :
    ∃ bytes, utf8Encode text = some bytes ∧ fs.write directory name bytes = some fs' := by
  unfold writeText at h
  split at h
  · cases h
  · unfold encodeText at h
    cases hbytes : utf8Encode text with
    | none => simp [hbytes] at h
    | some bytes =>
      simp only [hbytes] at h
      cases hwrite : fs.write directory name bytes with
      | none => simp [hwrite] at h
      | some written =>
        simp only [hwrite] at h
        exact ⟨bytes, rfl, hwrite.trans (congrArg some (Except.ok.inj h))⟩

/-- **One file written**: where its name leads, and what stands there afterwards. -/
theorem writeText_spec {text : List CodeUnit} (h : writeText fs directory name text = .ok fs') :
    ∃ p bytes, fs.find directory name = .at p ∧ fs.accepts p = true ∧
      utf8Encode text = some bytes ∧ FileTree.Wrote fs fs' p bytes := by
  obtain ⟨bytes, hbytes, hwrite⟩ := writeText_ok h
  obtain ⟨p, hfind, haccepts, hwrote⟩ := FileTree.write_spec hwrite
  exact ⟨p, bytes, hfind, haccepts, hbytes, hwrote⟩

/-- What a tree holds after texts were written to names in a directory: directories, links and first
    names are as they were; each file that a name leads to holds a text written to that file, and
    the other files have not changed. -/
structure Holding (fs fs' : FileTree os) (directory : PosixPath)
    (texts : List (JStr × List CodeUnit)) : Prop where
  mode : ∀ q, fs'.mode q = fs.mode q
  follow : ∀ q, fs'.follow q = fs.follow q
  firstName : ∀ q, fs'.firstName q = fs.firstName q
  accepts : ∀ q, fs'.accepts q = fs.accepts q
  found : ∀ p ∈ texts, ∃ q, fs.find directory p.1 = .at q ∧ fs.accepts q = true
  names : ∀ root name, name ∈ fs'.names root ↔
    name ∈ fs.names root ∨ ∃ p ∈ texts, fs.find directory p.1 = .at (root ++ [name])
  kept : ∀ q, (∀ p ∈ texts, fs.fileOf directory p.1 ≠ some (fs.firstName q)) →
    fs'.node q = fs.node q
  written : ∀ q, ∀ p ∈ texts, fs.fileOf directory p.1 = some (fs.firstName q) →
    ∃ p' ∈ texts, ∃ bytes node, fs.fileOf directory p'.1 = some (fs.firstName q) ∧
      utf8Encode p'.2 = some bytes ∧ fs'.node q = some node ∧ node.bytes = bytes
  readable : ∀ q node, fs'.node q = some node →
    node.readable = ((fs.node q).map FileNode.readable).getD true

/-- Before the first write everything is as it was. -/
theorem Holding.nil (fs : FileTree os) (directory : PosixPath) : Holding fs fs directory [] where
  mode := fun _ => rfl
  follow := fun _ => rfl
  firstName := fun _ => rfl
  accepts := fun _ => rfl
  found := by simp
  names := by simp
  kept := fun _ _ => rfl
  written := by simp
  readable := by
    intro q node hnode
    rw [hnode]
    rfl

/-- One more text, into a file of its own or into one that was written before. -/
theorem Holding.snoc {next : FileTree os} {texts : List (JStr × List CodeUnit)}
    {text : List CodeUnit} (h : Holding fs next directory texts)
    (hwrite : writeText next directory name text = .ok fs') :
    Holding fs fs' directory (texts ++ [(name, text)]) := by
  obtain ⟨p, bytes, hfind, haccepts, hbytes, hwrote⟩ := writeText_spec hwrite
  rw [FileTree.find_congr h.mode h.follow] at hfind
  rw [h.accepts] at haccepts
  have hfile : fs.fileOf directory name = some (fs.firstName p) := by
    rw [FileTree.fileOf, hfind]
  have hnode : ∀ q, fs'.node q = if fs.firstName q = fs.firstName p then
      some { (next.node p).getD { bytes := [] } with bytes := bytes } else next.node q := by
    intro q
    rw [hwrote.node, h.firstName, h.firstName]
  refine ⟨fun q => (hwrote.mode q).trans (h.mode q), fun q => (hwrote.follow q).trans (h.follow q),
    fun q => (hwrote.firstName q).trans (h.firstName q),
    fun q => (hwrote.accepts q).trans (h.accepts q), fun p' hp' => ?_, fun root other => ?_,
    fun q hq => ?_, fun q p' hp' hsame => ?_, fun q node hq => ?_⟩
  · rcases List.mem_append.mp hp' with hp' | hp'
    · exact h.found p' hp'
    · obtain rfl := List.mem_singleton.mp hp'
      exact ⟨p, hfind, haccepts⟩
  · rw [hwrote.names, h.names, or_assoc]
    simp only [List.mem_append, List.mem_singleton, or_and_right, exists_or, exists_eq_left, hfind,
      Lookup.at.injEq, eq_comm]
  · have hne : fs.firstName q ≠ fs.firstName p := by
      intro heq
      exact hq (name, text) (List.mem_append_right _ List.mem_cons_self) (heq ▸ hfile)
    rw [hnode, if_neg hne]
    exact h.kept q fun p' hp' => hq p' (List.mem_append_left _ hp')
  · by_cases hlast : fs.firstName q = fs.firstName p
    · refine ⟨(name, text), List.mem_append_right _ List.mem_cons_self, bytes, _,
        hlast ▸ hfile, hbytes, by rw [hnode, if_pos hlast], rfl⟩
    · have hbefore : p' ∈ texts := by
        rcases List.mem_append.mp hp' with hp' | hp'
        · exact hp'
        · obtain rfl := List.mem_singleton.mp hp'
          exact absurd (Option.some.inj (hfile.symm.trans hsame)).symm hlast
      obtain ⟨p'', hp'', bytes', node, hfile', hbytes', hnode', heq⟩ := h.written q p' hbefore hsame
      refine ⟨p'', List.mem_append_left _ hp'', bytes', node, hfile', hbytes', ?_, heq⟩
      rw [hnode, if_neg hlast, hnode']
  · rw [hnode] at hq
    split_ifs at hq with hlast
    · obtain rfl := Option.some.inj hq
      -- both paths lead to one file, with one set of permissions
      have hsame : fs.node q = fs.node p := congrArg fs.nodeAt hlast
      rw [hsame]
      show ((next.node p).getD { bytes := [] }).readable = _
      cases hnext : next.node p with
      | some node => exact h.readable p node hnext
      | none =>
        have hkept : fs.node p = none := by
          by_cases hwas : ∃ p' ∈ texts, fs.fileOf directory p'.1 = some (fs.firstName p)
          · obtain ⟨p', hp', hto⟩ := hwas
            obtain ⟨_, _, _, node, _, _, hsome, _⟩ := h.written p p' hp' hto
            rw [hnext] at hsome
            cases hsome
          · push Not at hwas
            rw [← h.kept p hwas, hnext]
        rw [hkept]
        rfl
    · exact h.readable q node hq

/-- The last file is written after the others. -/
theorem writeFiles_append {p : JStr × List CodeUnit} :
    writeFiles fs directory (files ++ [p]) = .ok fs' ↔
    ∃ next, writeFiles fs directory files = .ok next ∧
      writeText next directory p.1 p.2 = .ok fs' := by
  induction files generalizing fs with
  | nil =>
    rw [List.nil_append]
    simp only [writeFiles, Except.ok.injEq, exists_eq_left']
    cases writeText fs directory p.1 p.2 <;> simp
  | cons first rest ih =>
    rw [List.cons_append, writeFiles, writeFiles]
    cases writeText fs directory first.1 first.2 with
    | error e => simp
    | ok next => exact ih

/-- **The loop** leaves under each name a text that was written to its file. -/
theorem writeFiles_spec (h : writeFiles fs directory files = .ok fs') :
    Holding fs fs' directory files := by
  induction files using List.reverseRecOn generalizing fs' with
  | nil =>
    obtain rfl := Except.ok.inj h
    exact Holding.nil fs directory
  | append_singleton rest p ih =>
    obtain ⟨next, hrest, hlast⟩ := writeFiles_append.mp h
    exact (ih hrest).snoc hlast

/-- What a call that returns has done. -/
theorem writeBundle_ok {out_dir : PosixPath} {overwrite : Bool}
    (h : writeBundle w sdk_version fs out_dir overwrite b = .ok (fs', directory)) :
    refusesDirectory fs overwrite (out_dir ++ pathParts b.directoryName) = none ∧
      os.pathTooLong (out_dir ++ pathParts b.directoryName) = false ∧
      ∃ made written files manifest text,
        fs.mkdir [] (out_dir ++ pathParts b.directoryName) = some (made, directory) ∧
        b.files w = .ok files ∧ writeFiles made directory files = .ok written ∧
        b.manifest w sdk_version = .ok manifest ∧ dumpsReceipt w manifest = .ok text ∧
        writeText written directory manifestFile text = .ok fs' := by
  -- The steps of the function one after the other; each error ends it.
  unfold writeBundle at h
  simp only at h
  split at h
  · cases h
  · rename_i haccepted
    split at h
    · cases h
    · rename_i hshort
      split at h
      · cases h
      · rename_i made target hmkdir
        split at h
        · cases h
        · rename_i files hfiles
          split at h
          · cases h
          · rename_i written hwritten
            split at h
            · cases h
            · rename_i text htext
              split at h
              · cases h
              · rename_i final hfinal
                obtain ⟨rfl, rfl⟩ := Prod.mk.inj (Except.ok.inj h)
                unfold BundleDocuments.manifestText at htext
                cases hmanifest : b.manifest w sdk_version with
                | error e => simp [hmanifest] at htext
                | ok manifest =>
                  simp only [hmanifest] at htext
                  cases hdumps : dumpsReceipt w manifest with
                  | error e => simp [hdumps, Except.mapError] at htext
                  | ok text' =>
                    simp only [hdumps, Except.mapError, Except.ok.injEq] at htext
                    exact ⟨haccepted, Bool.eq_false_iff.mpr hshort, made, written, files,
                      manifest, text, hmkdir, hfiles, hwritten, rfl, by rw [hdumps, htext], hfinal⟩

/-! ### Checking what is written -/

/-- The names of a manifest are read back. -/
theorem listedNames_str (h : (digests.map Prod.fst).Nodup) :
    listedNames (digests.map fun p => (.str p.1, p.2)) = some digests := by
  have hkeys : (digests.map fun p => (Json.str p.1, p.2)).mapM stringKey = some digests := by
    clear h
    induction digests with
    | nil => rfl
    | cons p rest ih =>
      rw [List.map_cons, List.mapM_cons, ih]
      rfl
  rw [listedNames, hkeys, Option.map_some]
  exact congrArg some (foldl_putKey (l := []) h)

/-- The checker returns where the manifest and the files can be read and the directory listed, with
    the digest of the manifest. -/
theorem checkRoot_listed {raw : List UInt8} {listed : List (JStr × Json)}
    (hraw : fs.readFile directory manifestFile = .file raw)
    (hlisted : listedIn read fs directory = some listed)
    (hlook : ∀ name ∈ listed.map Prod.fst, fs.readFile directory name ≠ .refused)
    (hlists : ∃ present, fs.listFiles directory = some present) :
    ∃ r, checkRoot read fs directory = .ok r ∧ r.manifest_hash = some (sha256Bytes raw) := by
  obtain ⟨raw', manifest, pairs, hraw', hread, hpairs, hnames⟩ := listedIn_eq_some.mp hlisted
  obtain rfl := ReadResult.file.inj (hraw.symm.trans hraw')
  obtain ⟨found, hloop⟩ := @checkFiles_ok os fs directory (sortNames listed)
    { manifest_hash := some (sha256Bytes raw) } fun name hname =>
      hlook name (mem_sortNames_fst.mp hname)
  obtain ⟨present, hpresent⟩ := hlists
  unfold checkRoot
  simp only [hraw, hread, hpairs, hnames, hloop, hpresent]
  exact ⟨_, rfl, (checkFiles_found hloop).manifest_hash⟩

section Held

variable {texts : List (JStr × List CodeUnit)} {p q : JStr × List CodeUnit}

/-- The files written leave every look-up as it was. -/
theorem Holding.find (h : Holding fs fs' directory texts) (root : PosixPath) (name : JStr) :
    fs'.find root name = fs.find root name := FileTree.find_congr h.mode h.follow root name

/-- Under a name that was written a text of the same file is read, if the file can be read at
    all. -/
theorem Holding.readFile (h : Holding fs fs' directory texts) (hp : p ∈ texts) :
    (fs.readFile directory p.1 = .refused ∧ fs'.readFile directory p.1 = .refused) ∨
      (fs.readFile directory p.1 ≠ .refused ∧ ∃ p' ∈ texts, ∃ bytes,
        fs.fileOf directory p'.1 = fs.fileOf directory p.1 ∧ utf8Encode p'.2 = some bytes ∧
          fs'.readFile directory p.1 = .file bytes) := by
  obtain ⟨q, hfind, -⟩ := h.found p hp
  have hfile : fs.fileOf directory p.1 = some (fs.firstName q) := by rw [FileTree.fileOf, hfind]
  -- the text last written into the file, under this name or another one of it
  obtain ⟨p', hp', bytes, node, hfile', hbytes, hnode, rfl⟩ := h.written q p hp hfile
  have hreadable := h.readable q node hnode
  have hread : fs'.readFile directory p.1 =
      if node.readable then .file node.bytes else .refused := by
    unfold FileTree.readFile
    rw [h.find, hfind]
    simp only [hnode]
  -- writing changes no permission
  have hbefore : fs.readFile directory p.1 = .refused ↔ node.readable = false := by
    rw [hreadable]
    unfold FileTree.readFile
    rw [hfind]
    cases hold : fs.node q with
    | none => simp [hold]
    | some old => cases hcan : old.readable <;> simp [hold, hcan]
  rw [hread]
  cases hcan : node.readable with
  | false => exact Or.inl ⟨hbefore.mpr hcan, rfl⟩
  | true =>
    refine Or.inr ⟨fun hrefused => ?_, p', hp', node.bytes, hfile'.trans hfile.symm, hbytes, rfl⟩
    rw [hbefore, hcan] at hrefused
    cases hrefused

/-- Names of one file read alike. -/
theorem Holding.readFile_congr (h : Holding fs fs' directory texts) (hp : p ∈ texts)
    (hq : q ∈ texts)
    (hsame : fs.fileOf directory p.1 = fs.fileOf directory q.1) :
    fs'.readFile directory p.1 = fs'.readFile directory q.1 := by
  obtain ⟨a, hfind, -⟩ := h.found p hp
  obtain ⟨b, hfind', -⟩ := h.found q hq
  have hfirst : fs.firstName a = fs.firstName b := by
    unfold FileTree.fileOf at hsame
    rw [hfind, hfind'] at hsame
    exact Option.some.inj hsame
  have hnode : fs'.node a = fs'.node b := by
    unfold FileTree.node
    rw [h.firstName, h.firstName, hfirst]
  unfold FileTree.readFile
  rw [h.find, h.find, hfind, hfind']
  simp only [hnode]

/-- A name in the directory leads to a file afterwards if it did before, or leads to one that was
    written. -/
theorem Holding.isFile (h : Holding fs fs' directory texts) (name : JStr) :
    fs'.isFile directory name = some true ↔ fs.isFile directory name = some true ∨
      ∃ p ∈ texts, fs.fileOf directory name = fs.fileOf directory p.1 := by
  unfold FileTree.isFile
  rw [h.find]
  -- look-ups go as before; only the bytes and the files at free names are new
  cases hfind : fs.find directory name with
  | refused =>
    refine iff_of_false (by simp) ?_
    rintro (hfalse | ⟨p, hp, hsame⟩)
    · cases hfalse
    · obtain ⟨q, hq, -⟩ := h.found p hp
      simp [FileTree.fileOf, hfind, hq] at hsame
  | absent =>
    refine iff_of_false (by simp) ?_
    rintro (hfalse | ⟨p, hp, hsame⟩)
    · cases hfalse
    · obtain ⟨q, hq, -⟩ := h.found p hp
      simp [FileTree.fileOf, hfind, hq] at hsame
  -- it leads to a place, which is one of those written or was left alone
  | «at» q =>
    have hfile : fs.fileOf directory name = some (fs.firstName q) := by rw [FileTree.fileOf, hfind]
    simp only [Option.some.injEq, hfile]
    by_cases hwritten : ∃ p ∈ texts, some (fs.firstName q) = fs.fileOf directory p.1
    · obtain ⟨p, hp, hsame⟩ := hwritten
      obtain ⟨_, _, _, node, _, _, hnode, _⟩ := h.written q p hp hsame.symm
      exact iff_of_true (by rw [hnode]; rfl) (Or.inr ⟨p, hp, hsame⟩)
    · rw [or_iff_left hwritten]
      push Not at hwritten
      rw [h.kept q fun p hp => (hwritten p hp).symm]

/-- A look-up raises afterwards where it did before. -/
theorem Holding.isFile_none (h : Holding fs fs' directory texts) (name : JStr) :
    fs'.isFile directory name = none ↔ fs.isFile directory name = none := by
  unfold FileTree.isFile
  rw [h.find]
  cases fs.find directory name <;> simp

/-- The directory can be listed afterwards exactly if it could before. -/
theorem Holding.iterdir (h : Holding fs fs' directory texts) :
    fs'.iterdir directory = some (fs'.names directory) ↔
      fs.iterdir directory = some (fs.names directory) := by
  unfold FileTree.iterdir
  rw [h.mode]
  cases fs.mode directory with
  | none => simp
  | some mode => cases hcan : mode.listable <;> simp [hcan]

end Held

/-- What a call that returns leaves: the texts, and a manifest with the bundle's hash that lists
    their digests. -/
structure BundleLeft (read : List UInt8 → ParsedFile) (w : JsonLimits) (sdk_version : JStr)
    (made fs' : FileTree os) (directory : PosixPath) (b : BundleDocuments)
    (files : List (JStr × List CodeUnit)) (text : List CodeUnit) (manifest : List UInt8)
    (listed : List (JStr × Json)) : Prop where
  texts : b.texts w sdk_version = .ok (files ++ [(manifestFile, text)])
  holding : Holding made fs' directory (files ++ [(manifestFile, text)])
  names : ∀ name, name ∈ files.map Prod.fst ↔ name ∈ b.names
  encoded : utf8Encode text = some manifest
  manifest_read : made.readFile directory manifestFile ≠ .refused →
    fs'.readFile directory manifestFile = .file manifest
  manifest_hash : b.manifestHash w sdk_version = .ok (sha256Bytes manifest)
  listed_in : fs'.readFile directory manifestFile = .file manifest →
    listedIn read fs' directory = some listed
  digests : ∀ name digest, (name, digest) ∈ listed ↔
    ∃ text sha, (name, text) ∈ files ∧ sha256Text text = .ok sha ∧ digest = .str sha
  digest : ∀ p ∈ files, ∃ sha, sha256Text p.2 = .ok sha

/-- The tree after a call that returns, by what was written into it. -/
theorem holding_of_written {out_dir : PosixPath} {overwrite : Bool}
    (h : writeBundle w sdk_version fs out_dir overwrite b = .ok (fs', directory)) :
    ∃ made files text,
      fs.mkdir [] (out_dir ++ pathParts b.directoryName) = some (made, directory) ∧
        b.files w = .ok files ∧ b.manifestText w sdk_version = .ok text ∧
        Holding made fs' directory (files ++ [(manifestFile, text)]) := by
  obtain ⟨-, -, made, written, files, manifest, text, hmkdir, hfiles, hwritten, hmanifest, hdumps,
    hfinal⟩ := writeBundle_ok h
  refine ⟨made, files, text, hmkdir, hfiles, ?_, (writeFiles_spec hwritten).snoc hfinal⟩
  simp only [BundleDocuments.manifestText, hmanifest, hdumps, Except.mapError]

/-- What a call that returns has left: every file, its digest in the manifest, and the manifest
    itself. -/
theorem bundleLeft_of_written {out_dir : PosixPath} {overwrite : Bool}
    (hread : ∀ manifest, b.manifest w sdk_version = .ok manifest → ReadsBack read w manifest)
    (h : writeBundle w sdk_version fs out_dir overwrite b = .ok (fs', directory)) :
    ∃ made files text manifest listed,
      fs.mkdir [] (out_dir ++ pathParts b.directoryName) = some (made, directory) ∧
        BundleLeft read w sdk_version made fs' directory b files text manifest listed := by
  obtain ⟨-, -, made, written, files, manifest, text, hmkdir, hfiles, hwritten, hmanifest, hdumps,
    hfinal⟩ := writeBundle_ok h
  obtain ⟨p, bytes, hfind, -, hbytes, hwrote⟩ := writeText_spec hfinal
  obtain ⟨digests, hdigests, hlookup, -⟩ := utf8_of_manifest hmanifest hdumps hbytes
  obtain ⟨hnodup, hnames⟩ := files_names hfiles
  obtain ⟨hdistinct, hlisted, hshas⟩ := digests_of_files hfiles hdigests
  have hholding := (writeFiles_spec hwritten).snoc hfinal
  have htext : b.manifestText w sdk_version = .ok text := by
    simp only [BundleDocuments.manifestText, hmanifest, hdumps, Except.mapError]
  -- The names are different, so a name determines the text it was digested with.
  have hdigest : ∀ q ∈ files, ∃ sha, sha256Text q.2 = .ok sha ∧ (q.1, Json.str sha) ∈ digests := by
    rintro ⟨name, content⟩ hq
    have hname := (hlisted name).mpr ((hnames name).mp (List.mem_map_of_mem hq))
    obtain ⟨⟨n, digest⟩, hmem, rfl⟩ := List.mem_map.mp hname
    obtain ⟨content', sha, hcontent', hsha, rfl⟩ := hshas n digest hmem
    obtain rfl := (List.inj_on_of_nodup_map hnodup hq hcontent' rfl |> Prod.mk.inj).2
    exact ⟨sha, hsha, hmem⟩
  refine ⟨made, files, text, bytes, digests, hmkdir, ?_, hholding, hnames, hbytes,
    fun hcan => ?_, ?_, fun hraw => ?_, fun name digest => ⟨hshas name digest, ?_⟩, fun q hq => ?_⟩
  · simp only [BundleDocuments.texts, hfiles, htext, Except.map]
  · rcases hholding.readFile (List.mem_append_right _ List.mem_cons_self) with
      ⟨hrefused, -⟩ | ⟨-, -, -, content, -, -, hcontent⟩
    · exact absurd hrefused hcan
    · -- the manifest is written last
      have hnode := hwrote.node p
      rw [if_pos rfl] at hnode
      have hlast : fs'.readFile directory manifestFile = .refused ∨
          fs'.readFile directory manifestFile = .file bytes := by
        unfold FileTree.readFile
        rw [hwrote.find, hfind]
        simp only [hnode]
        split
        · exact Or.inr rfl
        · exact Or.inl rfl
      rcases hlast with hlast | hlast
      · rw [hlast] at hcontent
        cases hcontent
      · exact hlast
  · simp only [BundleDocuments.manifestHash, htext, Except.mapError, sha256Text, encodeText, hbytes,
      Except.map]
  · refine listedIn_eq_some.mpr ⟨bytes, .obj manifest, digests.map fun p => (.str p.1, p.2), hraw,
      hread manifest hmanifest bytes ?_, ?_, listedNames_str hdistinct⟩
    · rw [documentBytes, hdumps]
      exact hbytes
    · rw [manifestFiles, hlookup]
      rfl
  · rintro ⟨content, sha, hmem, hsha, rfl⟩
    obtain ⟨sha', hsha', hlistedSha⟩ := hdigest _ hmem
    obtain rfl := Except.ok.inj (hsha.symm.trans hsha')
    exact hlistedSha
  · obtain ⟨sha, hsha, -⟩ := hdigest q hq
    exact ⟨sha, hsha⟩

section Checked

variable {made : FileTree os} {text : List CodeUnit} {manifest : List UInt8}
variable {listed : List (JStr × Json)}

/-- The files written are those of the bundle and the manifest. -/
theorem BundleLeft.mem_names
    (h : BundleLeft read w sdk_version made fs' directory b files text manifest listed) :
    (∃ p ∈ files ++ [(manifestFile, text)], p.1 = name) ↔ name ∈ b.names ++ [manifestFile] := by
  simp only [List.mem_append, ← h.names, List.mem_map, List.mem_singleton]
  constructor
  · rintro ⟨p, hp | rfl, rfl⟩
    · exact Or.inl ⟨p, hp, rfl⟩
    · exact Or.inr rfl
  · rintro (⟨p, hp, rfl⟩ | rfl)
    · exact ⟨p, Or.inl hp, rfl⟩
    · exact ⟨_, Or.inr rfl, rfl⟩

/-- Where the checker calls the directory intact, each text's digest is that of what is read under
    its name. -/
theorem BundleLeft.sha_of_intact {r : BundleCheck}
    (h : BundleLeft read w sdk_version made fs' directory b files text manifest listed)
    (hraw : fs'.readFile directory manifestFile = .file manifest)
    (hfound : CheckFound fs' directory listed r) (hintact : r.intact = true)
    {p : JStr × List CodeUnit} (hp : p ∈ files ++ [(manifestFile, text)]) :
    ∃ content, fs'.readFile directory p.1 = .file content ∧
      sha256Text p.2 = .ok (sha256Bytes content) := by
  rcases List.mem_append.mp hp with hp' | hp'
  · obtain ⟨sha, hsha⟩ := h.digest p hp'
    have hmem : (p.1, Json.str sha) ∈ listed := (h.digests _ _).mpr ⟨p.2, sha, hp', hsha, rfl⟩
    rcases h.holding.readFile hp with ⟨-, hrefused⟩ | ⟨-, -, -, content, -, -, hcontent⟩
    · exact absurd hrefused (hfound.look_up _ (List.mem_map_of_mem (f := Prod.fst) hmem))
    · refine ⟨content, hcontent, ?_⟩
      have hmatches : digestMatches content (.str sha) = true := by
        by_contra hdiffers
        exact (intact_iff.mp hintact).1 p.1 ((hfound.altered p.1).mpr
          ⟨_, content, hmem, hcontent, Bool.eq_false_iff.mpr hdiffers⟩)
      rw [digestMatches, decide_eq_true_eq] at hmatches
      rw [hsha, hmatches]
  · obtain rfl := List.mem_singleton.mp hp'
    exact ⟨manifest, hraw, by rw [sha256Text, encodeText, h.encoded]; rfl⟩

/-- What the checker calls intact stood in a directory for the bundle alone. -/
theorem BundleLeft.ownFiles
    (h : BundleLeft read w sdk_version made fs' directory b files text manifest listed)
    {r : BundleCheck} (hr : checkRoot read fs' directory = .ok r) (hintact : r.intact = true) :
    OwnFiles made directory w sdk_version b := by
  have hmanifest : (manifestFile, text) ∈ files ++ [(manifestFile, text)] :=
    List.mem_append_right _ List.mem_cons_self
  have hcan : made.readFile directory manifestFile ≠ .refused := by
    intro hrefused
    rcases h.holding.readFile hmanifest with ⟨-, hafter⟩ | ⟨hnot, -⟩
    · simp [checkRoot, hafter] at hr
    · exact hnot hrefused
  have hraw := h.manifest_read hcan
  have hfound := checkRoot_found (h.listed_in hraw) hr
  obtain ⟨present, hpresent⟩ := hfound.lists
  obtain ⟨hiterdir, hnamed, hfiles⟩ := FileTree.listFiles_eq_some.mp hpresent
  -- a name that leads to a file is a name of the bundle
  have hexpected : ∀ other ∈ fs'.names directory, fs'.isFile directory other = some true →
      other ∈ b.names ++ [manifestFile] := by
    intro other hother hfile
    by_contra hnot
    rw [List.mem_append, not_or, List.mem_singleton] at hnot
    refine (intact_iff.mp hintact).2.2.1 other ((hfound.unexpected other).mpr ⟨?_, ?_, hnot.2⟩)
    · rw [presentFiles, hpresent, Option.getD_some, hfiles, List.mem_filter]
      exact ⟨hother, beq_iff_eq.mpr hfile⟩
    · intro hin
      obtain ⟨⟨n, digest⟩, hmem, rfl⟩ := List.mem_map.mp hin
      obtain ⟨content, -, hfile', -⟩ := (h.digests n digest).mp hmem
      exact hnot.1 ((h.names n).mp (List.mem_map_of_mem (f := Prod.fst) hfile'))
  refine ⟨fun name hname => ?_, ?_, fun texts htexts p hp q hq hsame => ?_,
    fun name hname other hfind => ?_, fun other hother hnot => ?_⟩
  · obtain ⟨p, hp, rfl⟩ := h.mem_names.mpr hname
    obtain ⟨content, hcontent, -⟩ := h.sha_of_intact hraw hfound hintact hp
    rcases h.holding.readFile hp with ⟨-, hrefused⟩ | ⟨hread, -⟩
    · rw [hrefused] at hcontent
      cases hcontent
    · exact hread
  · refine ⟨_, FileTree.listFiles_eq_some.mpr ⟨h.holding.iterdir.mp hiterdir,
      fun name hname => ?_, rfl⟩⟩
    rw [Ne, ← h.holding.isFile_none]
    exact hnamed name ((h.holding.names _ _).mpr (Or.inl hname))
  · obtain rfl := Except.ok.inj (h.texts.symm.trans htexts)
    obtain ⟨content, hcontent, hsha⟩ := h.sha_of_intact hraw hfound hintact hp
    obtain ⟨content', hcontent', hsha'⟩ := h.sha_of_intact hraw hfound hintact hq
    rw [h.holding.readFile_congr hp hq hsame, hcontent'] at hcontent
    obtain rfl := ReadResult.file.inj hcontent
    rw [hsha, hsha']
  · obtain ⟨p, hp, rfl⟩ := h.mem_names.mpr hname
    have hother : other ∈ fs'.names directory :=
      (h.holding.names _ _).mpr (Or.inr ⟨p, hp, hfind⟩)
    apply hexpected other hother
    obtain ⟨q, hq, haccepts⟩ := h.holding.found p hp
    obtain rfl := Lookup.at.inj (hfind.symm.trans hq)
    have hfile : made.fileOf directory p.1 = some (made.firstName (directory ++ [other])) := by
      rw [FileTree.fileOf, hfind]
    obtain ⟨-, -, -, node, -, -, hnode, -⟩ := h.holding.written _ p hp hfile
    have hself : fs'.follow (directory ++ [other]) = .at (directory ++ [other]) :=
      FileTree.follow_of_node hnode
    have hlooked := hnamed other hother
    unfold FileTree.isFile at hlooked ⊢
    rcases fs'.find_name hother with hrefused | hfound'
    · rw [hrefused] at hlooked
      exact absurd rfl hlooked
    · rw [hfound', hself]
      simp only [hnode]
      rfl
  · have hother' : other ∈ fs'.names directory := (h.holding.names _ _).mpr (Or.inl hother)
    refine ⟨fun hfile => ?_, fun name hname hsame => ?_⟩
    · exact hnot (hexpected other hother' ((h.holding.isFile other).mpr (Or.inl hfile)))
    · obtain ⟨p, hp, rfl⟩ := h.mem_names.mpr hname
      exact hnot (hexpected other hother' ((h.holding.isFile other).mpr (Or.inr ⟨p, hp, hsame⟩)))

/-- And in such a directory the checker finds what was written. -/
theorem BundleLeft.intact
    (h : BundleLeft read w sdk_version made fs' directory b files text manifest listed)
    (hown : OwnFiles made directory w sdk_version b) :
    ∃ r, checkRoot read fs' directory = .ok r ∧ r.intact = true ∧
      r.manifest_hash = some (sha256Bytes manifest) := by
  have hraw := h.manifest_read (hown.readable _ (List.mem_append_right _ List.mem_cons_self))
  have hlisted := h.listed_in hraw
  have hlisted_file : ∀ name ∈ listed.map Prod.fst, ∃ p ∈ files, p.1 = name := by
    intro name hname
    obtain ⟨⟨n, digest⟩, hmem, rfl⟩ := List.mem_map.mp hname
    obtain ⟨content, -, hfile, -⟩ := (h.digests n digest).mp hmem
    exact ⟨_, hfile, rfl⟩
  -- under each name a text with its digest is read
  have hreads : ∀ p ∈ files, ∃ content, fs'.readFile directory p.1 = .file content ∧
      sha256Text p.2 = .ok (sha256Bytes content) := by
    intro p hp
    have hp' : p ∈ files ++ [(manifestFile, text)] := List.mem_append_left _ hp
    rcases h.holding.readFile hp' with ⟨hrefused, -⟩ | ⟨-, q, hq, content, hsame, hbytes, hcontent⟩
    · exact absurd hrefused (hown.readable p.1 (h.mem_names.mp ⟨p, hp', rfl⟩))
    · refine ⟨content, hcontent, ?_⟩
      rw [← hown.apart _ h.texts q hq p hp' hsame, sha256Text, encodeText, hbytes]
      rfl
  have hlook : ∀ name ∈ listed.map Prod.fst, fs'.readFile directory name ≠ .refused := by
    intro name hname hrefused
    obtain ⟨p, hp, rfl⟩ := hlisted_file name hname
    obtain ⟨content, hcontent, -⟩ := hreads p hp
    rw [hcontent] at hrefused
    cases hrefused
  have hinside : ∀ name ∈ fs'.names directory, name ∈ made.names directory ∨
      name ∈ b.names ++ [manifestFile] := by
    intro name hname
    refine ((h.holding.names _ _).mp hname).imp_right ?_
    rintro ⟨p, hp, hfind⟩
    exact hown.inside p.1 (h.mem_names.mp ⟨p, hp, rfl⟩) name hfind
  have hlists : ∃ present, fs'.listFiles directory = some present := by
    obtain ⟨present, hpresent⟩ := hown.lists
    obtain ⟨hiterdir, hnamed, -⟩ := FileTree.listFiles_eq_some.mp hpresent
    refine ⟨_, FileTree.listFiles_eq_some.mpr ⟨h.holding.iterdir.mpr hiterdir, fun name hname => ?_,
      rfl⟩⟩
    rw [Ne, h.holding.isFile_none]
    rcases hinside name hname with hold | hwritten
    · exact hnamed name hold
    · obtain ⟨p, hp, rfl⟩ := h.mem_names.mpr hwritten
      obtain ⟨q, hq, -⟩ := h.holding.found p hp
      simp [FileTree.isFile, hq]
  obtain ⟨r, hr, hhash⟩ := checkRoot_listed hraw hlisted hlook hlists
  obtain ⟨-, hmissing, haltered, -, hunexpected, herror⟩ := checkRoot_found hlisted hr
  refine ⟨r, hr, intact_iff.mpr ⟨fun name hname => ?_, fun name hname => ?_, fun name hname => ?_,
    herror⟩, hhash⟩
  · obtain ⟨digest, content, hmem, hcontent, hdiffers⟩ := (haltered name).mp hname
    obtain ⟨body, sha, hfile, hsha, rfl⟩ := (h.digests name digest).mp hmem
    obtain ⟨content', hcontent', hsha'⟩ := hreads _ hfile
    obtain rfl := ReadResult.file.inj (hcontent.symm.trans hcontent')
    rw [Except.ok.inj (hsha.symm.trans hsha'), digestMatches] at hdiffers
    simp at hdiffers
  · obtain ⟨hin, hnone⟩ := (hmissing name).mp hname
    obtain ⟨p, hp, rfl⟩ := hlisted_file name hin
    obtain ⟨content, hcontent, -⟩ := hreads p hp
    rw [hnone] at hcontent
    cases hcontent
  · obtain ⟨hpresent, hnot, hother⟩ := (hunexpected name).mp hname
    obtain ⟨hchild, hfile⟩ := mem_presentFiles hpresent
    have hforeign : name ∉ b.names ++ [manifestFile] := by
      intro hin
      rcases List.mem_append.mp hin with hin | hin
      · obtain ⟨p, hp, rfl⟩ := List.mem_map.mp ((h.names name).mpr hin)
        obtain ⟨sha, hsha⟩ := h.digest p hp
        exact hnot (List.mem_map_of_mem (f := Prod.fst)
          ((h.digests p.1 (.str sha)).mpr ⟨p.2, sha, hp, hsha, rfl⟩))
      · exact hother (List.mem_singleton.mp hin)
    obtain ⟨hno, hapart⟩ := hown.others name ((hinside name hchild).resolve_right hforeign) hforeign
    rcases (h.holding.isFile name).mp hfile with hold | ⟨p, hp, hsame⟩
    · exact hno hold
    · exact hapart p.1 (h.mem_names.mp ⟨p, hp, rfl⟩) hsame

end Checked

/-- **A new directory** that may be listed is one for the bundle alone. -/
theorem ownFiles_of_empty {made : FileTree os} (hempty : made.names directory = [])
    (hlists : (made.iterdir directory).isSome = true)
    (hfind : ∀ name ∈ b.names ++ [manifestFile],
      made.find directory name = .at (directory ++ [name]))
    (hplain : manifestFile ∉ b.names) : OwnFiles made directory w sdk_version b := by
  have hfree : ∀ name, made.entryAt (directory ++ [name]) = none := by
    intro name
    rw [FileTree.entryAt_eq_none, ← FileTree.mem_names, hempty]
    simp
  have hfile : ∀ name ∈ b.names ++ [manifestFile],
      made.fileOf directory name = some (directory ++ [name]) := by
    intro name hname
    rw [FileTree.fileOf, hfind name hname]
    simp only [FileTree.firstName, hfree]
  obtain ⟨names, hnames⟩ := Option.isSome_iff_exists.mp hlists
  have hiterdir : made.iterdir directory = some (made.names directory) := by
    unfold FileTree.iterdir at hnames ⊢
    split at hnames
    · cases hnames
    · rw [if_pos]
      by_contra hno
      rw [if_neg hno] at hnames
      cases hnames
  refine ⟨fun name hname => ?_, ⟨_, FileTree.listFiles_eq_some.mpr ⟨hiterdir, ?_, rfl⟩⟩,
    fun texts htexts p hp q hq hsame => ?_, fun name hname other hother => ?_, ?_⟩
  · unfold FileTree.readFile
    rw [hfind name hname]
    simp [FileTree.node, FileTree.firstName, FileTree.nodeAt, hfree]
  · simp [hempty]
  · unfold BundleDocuments.texts at htexts
    cases hfiles : b.files w with
    | error e => simp [hfiles] at htexts
    | ok files =>
      cases htext : b.manifestText w sdk_version with
      | error e => simp [hfiles, htext, Except.map] at htexts
      | ok text =>
        simp only [hfiles, htext, Except.map, Except.ok.injEq] at htexts
        obtain ⟨hnodup, hmem⟩ := files_names hfiles
        have hall : ((files ++ [(manifestFile, text)]).map Prod.fst).Nodup := by
          rw [List.map_append, List.nodup_append]
          refine ⟨hnodup, by simp, ?_⟩
          rintro name hname _ hlast rfl
          obtain rfl := List.mem_singleton.mp hlast
          exact hplain ((hmem _).mp hname)
        have hwritten : ∀ x ∈ files ++ [(manifestFile, text)], x.1 ∈ b.names ++ [manifestFile] := by
          intro x hx
          rcases List.mem_append.mp hx with hx | hx
          · exact List.mem_append_left _ ((hmem _).mp (List.mem_map_of_mem hx))
          · exact List.mem_append_right _
              (by rw [List.mem_singleton.mp hx]; exact List.mem_cons_self)
        -- names that lead to one file are one name
        subst htexts
        rw [hfile _ (hwritten p hp), hfile _ (hwritten q hq)] at hsame
        have hname : p.1 = q.1 :=
          List.singleton_injective (List.append_cancel_left (Option.some.inj hsame))
        rw [List.inj_on_of_nodup_map hall hp hq hname]
  · rw [hfind name hname] at hother
    have := List.singleton_injective (List.append_cancel_left (Lookup.at.inj hother))
    exact this ▸ hname
  · simp [hempty]

end

/-- A bundle with small documents. -/
def smallBundle : BundleDocuments where
  session_id := "s"
  verification := Dict.ofFields [("verdict", .str "VALID")]
  timeline := []
  redaction := []
  source_backend := "jsonl"
  source_location := "s.jsonl"
  agent := none
  generated_at := "2026-05-01T12:00:00+00:00"
  rendered := []
  receipt := none

/-- A parser that reads the manifest of the small bundle. -/
def readSmall (_ : List UInt8) : ParsedFile :=
  match smallBundle.manifest defaultLimits "0.3.0" with
  | .ok manifest => .value (.obj manifest)
  | .error _ => .refused

/-- The reader of the example reads its manifest back. -/
theorem readSmall_reads (manifest : Dict)
    (h : smallBundle.manifest defaultLimits "0.3.0" = .ok manifest) :
    ReadsBack readSmall defaultLimits manifest := by
  intro bytes _
  unfold readSmall
  rw [h]

/-- A directory without files. -/
def emptyTree : FileTree utf8Rules where
  entries := [([], .dir {})]
  nodup := by simp
  root_dir := ⟨{}, List.mem_cons_self⟩
  parent := by simp
  first_name := by simp

/-- The directory of an earlier bundle, with one of its files. -/
def earlierTree : FileTree utf8Rules where
  entries :=
    [([], .dir {}), (["evidence-s"], .dir {}), (["evidence-s", "old.json"], .file { bytes := [] })]
  nodup := by decide
  root_dir := ⟨{}, List.mem_cons_self⟩
  parent := by
    intro p hp hne
    simp only [List.map_cons, List.map_nil, List.mem_cons, List.not_mem_nil, or_false] at hp
    rcases hp with rfl | rfl | rfl
    · exact absurd rfl hne
    · exact ⟨[], {}, "evidence-s", by simp, by decide, rfl⟩
    · exact ⟨["evidence-s"], {}, "old.json", by simp, by decide, rfl⟩
  first_name := by simp

/-- What a made directory without files does not refuse. -/
def acceptsPlain (result : FileTree utf8Rules × PosixPath) : Bool :=
  (result.1.names result.2).isEmpty && (result.1.iterdir result.2).isSome &&
    (smallBundle.names ++ [manifestFile]).all fun name =>
      result.1.find result.2 name == .at (result.2 ++ [name])

end RootSign
