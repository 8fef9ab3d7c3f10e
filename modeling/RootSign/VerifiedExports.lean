import RootSign.BundleWrites
import RootSign.ExportedRecords

namespace RootSign

open RootSign.Python

/-!
# What verifies and can be exported

A session file on which the verifier returns a result, exported into a directory.

* `Exported` — each document of the bundle, its reports and its manifest stand in the directory;
* `Exportable` — the files whose records the loader takes in, whose texts can be encoded, and from
  whose session id a directory can be made;
* `exported_iff` — these are the files that are exported.
-/

/-! ### The reports -/

section

variable {rt : Runtime} {w : JsonLimits} {sdk_version : JStr} {b b' : EvidenceBundle}

/-- A loop that succeeds maps each element to a result, and each result comes from one. -/
theorem mem_of_mapM {α β ε : Type} {f : α → Except ε β} {xs : List α} {ys : List β}
    (h : xs.mapM f = .ok ys) :
    (∀ x ∈ xs, ∃ y ∈ ys, f x = .ok y) ∧ ∀ y ∈ ys, ∃ x ∈ xs, f x = .ok y := by
  rw [mapM_eq_ok] at h
  induction h with
  | nil => simp
  | cons hxy _ ih =>
    constructor
    · rw [List.forall_mem_cons]
      exact ⟨⟨_, List.mem_cons_self, hxy⟩, fun x hx => (ih.1 x hx).imp fun y hy =>
        ⟨List.mem_cons_of_mem _ hy.1, hy.2⟩⟩
    · rw [List.forall_mem_cons]
      exact ⟨⟨_, List.mem_cons_self, hxy⟩, fun y hy => (ih.2 y hy).imp fun x hx =>
        ⟨List.mem_cons_of_mem _ hx.1, hx.2⟩⟩

/-- A text has a digest exactly if it can be encoded. -/
theorem sha256Text_isOk {text : List CodeUnit} :
    (∃ digest, sha256Text text = .ok digest) ↔ ∃ bytes, utf8Encode text = some bytes := by
  unfold sha256Text encodeText
  cases utf8Encode text <;> simp [Except.map]

/-- The text of a document and its bytes, which there are exactly if it can be written. -/
theorem writable_iff_bytes {document : Dict} :
    Writable w 0 (.obj document) ↔
      ∃ text bytes, dumpsReceipt w document = .ok text ∧ utf8Encode text = some bytes :=
  ⟨documentBytes_of_writable, fun ⟨_, _, htext, hbytes⟩ => writable_of_written htext hbytes⟩

/-- The files of a bundle without reports are its documents, dumped one by one. -/
theorem files_eq (hrendered : b.rendered = []) : b.files w =
    b.documents.mapM fun p => (dumpsReceipt w p.2).map fun text => (p.1, text) := by
  unfold EvidenceBundle.files
  rw [hrendered]
  cases b.documents.mapM (fun p => (dumpsReceipt w p.2).map fun text => (p.1, text)) <;>
    simp [Except.map]

/-- **The manifest** of a bundle without reports can be made exactly if its documents can be
    written. -/
theorem exists_manifest (hrendered : b.rendered = []) :
    (∃ manifest, b.manifest w sdk_version = .ok manifest) ↔
      ∀ p ∈ b.documents, Writable w 0 (.obj p.2) := by
  constructor
  -- Each document is dumped and digested, and both steps refuse what cannot be written.
  · rintro ⟨manifest, h⟩ p hp
    obtain ⟨files, hfiles, h⟩ := bind_eq_ok.mp h
    obtain ⟨hashes, hhashes, -⟩ := bind_eq_ok.mp h
    rw [files_eq hrendered] at hfiles
    obtain ⟨file, hfile, htext⟩ := (mem_of_mapM hfiles).1 p hp
    -- The names are sorted before they are digested; sorting drops none.
    have hsorted := (List.perm_insertionSort (fun p q : String × List CodeUnit => p.1 ≤ q.1)
      files).mem_iff.mpr hfile
    obtain ⟨hash, -, hdigest⟩ := (mem_of_mapM hhashes).1 file hsorted
    cases hdumps : dumpsReceipt w p.2 with
    | error e => simp [hdumps, Except.map] at htext
    | ok text =>
      simp only [hdumps, Except.map, Except.ok.injEq] at htext
      subst htext
      cases hsha : sha256Text text with
      | error e => simp [hsha, Except.map] at hdigest
      | ok digest =>
        obtain ⟨bytes, hbytes⟩ := sha256Text_isOk.mp ⟨digest, hsha⟩
        exact writable_iff_bytes.mpr ⟨text, bytes, hdumps, hbytes⟩
  -- Conversely, dumping and digesting succeed one document at a time.
  · intro h
    obtain ⟨files, hfiles⟩ : ∃ files, b.files w = .ok files := by
      rw [files_eq hrendered]
      apply exists_mapM_eq_ok
      intro p hp
      obtain ⟨text, -, htext, -⟩ := writable_iff_bytes.mp (h p hp)
      exact ⟨(p.1, text), by rw [htext]; rfl⟩
    obtain ⟨hashes, hhashes⟩ : ∃ hashes, (files.insertionSort fun p q => p.1 ≤ q.1).mapM
        (fun p => (sha256Text p.2).map fun digest => (p.1, digest)) = .ok hashes := by
      apply exists_mapM_eq_ok
      intro file hfile
      have hmem := (List.perm_insertionSort (fun p q : String × List CodeUnit => p.1 ≤ q.1)
        files).mem_iff.mp hfile
      have hok := hfiles
      rw [files_eq hrendered] at hok
      obtain ⟨p, hp, htext⟩ := (mem_of_mapM hok).2 file hmem
      obtain ⟨text, bytes, hdumps, hbytes⟩ := writable_iff_bytes.mp (h p hp)
      simp only [hdumps, Except.map, Except.ok.injEq] at htext
      subst htext
      obtain ⟨digest, hdigest⟩ := sha256Text_isOk.mpr ⟨bytes, hbytes⟩
      exact ⟨(p.1, digest), by rw [hdigest]; rfl⟩
    exact ⟨_, bind_eq_ok.mpr ⟨files, hfiles, bind_eq_ok.mpr ⟨hashes, hhashes, rfl⟩⟩⟩

/-- What the manifest says. -/
theorem manifest_spec {manifest : Manifest} (h : b.manifest w sdk_version = .ok manifest) :
    manifest.session_id = b.session_id ∧ manifest.generated_at = b.generated_at ∧
      manifest.generator = "rootsign " ++ sdk_version ∧ manifest.location = b.source_location ∧
      (manifest.agent = Dict.ofFields
          [("detail", .str "agent identity not recorded in this source")] ∨
        b.agent = some manifest.agent) ∧
      ∀ p ∈ manifest.files, PairedText p.2 := by
  obtain ⟨files, -, h⟩ := bind_eq_ok.mp h
  obtain ⟨hashes, hhashes, h⟩ := bind_eq_ok.mp h
  obtain rfl := Except.ok.inj h
  refine ⟨rfl, rfl, rfl, rfl, ?_, fun p hp => ?_⟩
  -- The placeholder stands in where the bundle names no agent.
  · dsimp only
    split
    · rename_i hagent
      exact Or.inr hagent
    · exact Or.inl rfl
  -- A digest is a hexadecimal number.
  · obtain ⟨file, -, hfile⟩ := (mem_of_mapM hhashes).2 p hp
    cases hbytes : utf8Encode file.2 with
    | none => simp [sha256Text, encodeText, hbytes, Except.map] at hfile
    | some bytes =>
      simp only [sha256Text, encodeText, hbytes, Except.map, Except.ok.injEq] at hfile
      subst hfile
      exact pairedText_ofChars _

/-- The texts that the manifest adds are paired. -/
structure PairedBundle (b : EvidenceBundle) : Prop where
  session_id : PairedText b.session_id
  location : PairedText b.source_location
  generated_at : PairedText b.generated_at
  agent : ∀ agent, b.agent = some agent → (Json.obj agent).paired = true

/-- Documents that can be written, and their manifest, are paired as the reports need them. -/
theorem pairedDocuments {manifest : Manifest} {bound : ℕ} (hroom : Roomy w bound)
    (hb : PairedBundle b) (hsdk : PairedText sdk_version)
    (hdocuments : ∀ p ∈ b.documents, Writable w 0 (.obj p.2))
    (hmanifest : b.manifest w sdk_version = .ok manifest) :
    PairedDocuments ⟨manifest, b.verification, b.timeline, b.redaction⟩ := by
  obtain ⟨hverification, htimeline, hredaction, -⟩ :=
    (@forall_mem_documents (fun d => Writable w 0 (.obj d)) b).mp hdocuments
  obtain ⟨hsummary, -, -, -, -, hrecords, -⟩ := (writable_verification hroom).mp hverification
  obtain ⟨hsession, hnote, -, hevents⟩ := (writable_timeline hroom).mp htimeline
  obtain ⟨-, -, hentries⟩ := (writable_redaction hroom).mp hredaction
  obtain ⟨hid, hat, hgenerator, hlocation, hagent, hhashes⟩ := manifest_spec hmanifest
  refine ⟨hsummary, fun r hr => (hrecords r hr).2, hsession.2, hnote, fun e he => (hevents e he).2,
    fun r hr => (hentries r hr).2, hid ▸ hb.session_id, ?_, hlocation ▸ hb.location,
    hat ▸ hb.generated_at, ?_, hhashes⟩
  -- The agent is either the placeholder or the one the bundle names.
  · rcases hagent with hnone | hsome
    · show (Json.obj manifest.agent).paired = true
      rw [hnone]
      have hdetail : Writable w 0 (.obj (Dict.ofFields
          [("detail", .str "agent identity not recorded in this source")])) := by
        have := hroom.depth
        rw [writable_ofFields]
        simp
        omega
      exact hdetail.2
    · exact hb.agent _ hsome
  · show PairedText manifest.generator
    rw [hgenerator]
    exact (pairedText_ofString _).append hsdk

/-- **The reports are attached** exactly if the documents can be written. -/
theorem exists_attached (hrendered : b.rendered = []) :
    (∃ b', attachReports rt w sdk_version b = .ok b') ↔
      ∀ p ∈ b.documents, Writable w 0 (.obj p.2) := by
  rw [← exists_manifest hrendered]
  constructor
  -- Only the manifest can fail: rendering is total.
  · rintro ⟨b', h⟩
    obtain ⟨documents, hdocuments, -⟩ := bind_eq_ok.mp h
    obtain ⟨manifest, hmanifest, -⟩ := bind_eq_ok.mp hdocuments
    exact ⟨manifest, hmanifest⟩
  · rintro ⟨manifest, hmanifest⟩
    exact ⟨_, bind_eq_ok.mpr ⟨_, bind_eq_ok.mpr ⟨manifest, hmanifest, rfl⟩, rfl⟩⟩

/-- What attaching the reports adds; where the manifest's texts can be encoded, so can theirs. -/
theorem attached_spec {bound : ℕ} (hrepr : ReprPaired rt) (hroom : Roomy w bound)
    (hrendered : b.rendered = []) (hsdk : PairedText sdk_version)
    (h : attachReports rt w sdk_version b = .ok b') :
    ∃ markdown html, b' = { b with rendered := [("report.md", markdown), ("report.html", html)] } ∧
      (PairedBundle b → paired false markdown = true ∧ paired false html = true) := by
  -- That the reports were attached says that the documents can be written.
  have hdocuments := (exists_attached hrendered).mp ⟨b', h⟩
  obtain ⟨documents, hok, h⟩ := bind_eq_ok.mp h
  obtain ⟨manifest, hmanifest, hok⟩ := bind_eq_ok.mp hok
  obtain rfl := Except.ok.inj hok
  obtain rfl := Except.ok.inj h
  refine ⟨_, _, by rw [hrendered, List.nil_append], fun hb => ?_⟩
  have hpaired := pairedDocuments hroom hb hsdk hdocuments hmanifest
  exact ⟨pairedText_renderMarkdown hrepr hpaired, pairedText_renderHtml hrepr hpaired⟩

end

/-! ### Writing -/

section

variable {os : PathRules} {fs fs' : FileTree os} {directory : PosixPath} {name : JStr}
variable {w : JsonLimits} {sdk_version : JStr} {d : BundleDocuments}

/-- A file of the name can be written in the directory. -/
def Accepts (fs : FileTree os) (directory : PosixPath) (name : JStr) : Prop :=
  ∃ p, fs.find directory name = .at p ∧ fs.accepts p = true

instance : Decidable (Accepts fs directory name) :=
  match h : fs.find directory name with
  | .at p => decidable_of_iff (fs.accepts p = true) (by simp [Accepts, h])
  | .absent => .isFalse (by simp [Accepts, h])
  | .refused => .isFalse (by simp [Accepts, h])

/-- A text can be encoded exactly if its surrogates come in pairs. -/
theorem exists_utf8 {text : List CodeUnit} :
    (∃ bytes, utf8Encode text = some bytes) ↔ paired false text = true := by
  rw [← scalarValues_isSome, Option.isSome_iff_exists]
  unfold utf8Encode
  cases scalarValues text <;> simp

/-- A text is written exactly if it can be encoded and its name is accepted. -/
theorem writeText_isOk {text : List CodeUnit} :
    (∃ fs', writeText fs directory name text = .ok fs') ↔
      paired false text = true ∧ Accepts fs directory name := by
  rw [← exists_utf8]
  constructor
  · rintro ⟨fs', h⟩
    obtain ⟨bytes, hbytes, hwrite⟩ := writeText_ok h
    exact ⟨⟨bytes, hbytes⟩, (fs.write_isSome directory name bytes).mp ⟨fs', hwrite⟩⟩
  -- The file is opened, which empties it, before the text is encoded.
  · rintro ⟨⟨bytes, hbytes⟩, hok⟩
    obtain ⟨fs₁, hopen⟩ := (fs.write_isSome directory name []).mpr hok
    obtain ⟨fs₂, hwrite⟩ := (fs.write_isSome directory name bytes).mpr hok
    exact ⟨fs₂, by simp only [writeText, hopen, encodeText, hbytes, hwrite]⟩

/-- Writing changes nothing about which names are accepted. -/
theorem Holding.accepts_iff {texts : List (JStr × List CodeUnit)}
    (h : Holding fs fs' directory texts) :
    Accepts fs' directory name ↔ Accepts fs directory name := by
  unfold Accepts
  simp only [h.find, h.accepts]

/-- **The loop** succeeds exactly if each text can be encoded and each name is accepted. -/
theorem writeFiles_isOk {files : List (JStr × List CodeUnit)} :
    (∃ fs', writeFiles fs directory files = .ok fs') ↔
      ∀ p ∈ files, paired false p.2 = true ∧ Accepts fs directory p.1 := by
  induction files generalizing fs with
  | nil => simp [writeFiles]
  | cons p rest ih =>
    rw [List.forall_mem_cons]
    -- The first write accepts no name and refuses none, so the rest is asked of the tree before it.
    have hrest : ∀ next : FileTree os, writeText fs directory p.1 p.2 = .ok next →
        ((∃ fs', writeFiles next directory rest = .ok fs') ↔
          ∀ p ∈ rest, paired false p.2 = true ∧ Accepts fs directory p.1) := by
      intro next htext
      rw [ih]
      exact forall₂_congr fun q hq => by rw [((Holding.nil fs directory).snoc htext).accepts_iff]
    constructor
    · rintro ⟨fs', h⟩
      rw [writeFiles] at h
      cases htext : writeText fs directory p.1 p.2 with
      | error e => simp [htext] at h
      | ok next =>
        simp only [htext] at h
        exact ⟨writeText_isOk.mp ⟨next, htext⟩, (hrest next htext).mp ⟨fs', h⟩⟩
    · rintro ⟨hfirst, hothers⟩
      obtain ⟨next, htext⟩ := writeText_isOk.mpr hfirst
      obtain ⟨fs', hfs'⟩ := (hrest next htext).mpr hothers
      exact ⟨fs', by simp only [writeFiles, htext, hfs']⟩

/-- The texts of the files of a bundle. -/
theorem exists_files (hdocuments : ∀ p ∈ d.documents, Writable w 0 (.obj p.2))
    (hrendered : ∀ p ∈ d.rendered, paired false p.2 = true)
    (hnodup : (d.documents.map Prod.fst ++ d.rendered.map Prod.fst).Nodup) :
    ∃ files, d.files w = .ok files ∧ (files.map Prod.fst = d.names) ∧
      ∀ p ∈ files, paired false p.2 = true := by
  obtain ⟨texts, htexts⟩ : ∃ texts, d.documents.mapM
      (fun p => (dumpsReceipt w p.2).map fun text => (p.1, text)) = .ok texts := by
    apply exists_mapM_eq_ok
    intro p hp
    obtain ⟨text, -, htext, -⟩ := writable_iff_bytes.mp (hdocuments p hp)
    exact ⟨(p.1, text), by rw [htext]; rfl⟩
  -- The loop dumps the texts under the names of the documents, in their order.
  have hfirst : texts.map Prod.fst = d.documents.map Prod.fst :=
    fst_of_forall₂ (mapM_fst htexts) fun p q h => h.1
  have hfiles : d.files w = .ok (texts ++ d.rendered) := by
    unfold BundleDocuments.files
    rw [htexts]
    -- The names are different, so no entry of the dict is replaced.
    refine congrArg Except.ok (foldl_putKey ?_)
    rw [List.map_append, hfirst]
    exact hnodup
  refine ⟨texts ++ d.rendered, hfiles, ?_, ?_⟩
  · rw [List.map_append, hfirst]
    rfl
  · rw [List.forall_mem_append]
    refine ⟨fun file hfile => ?_, hrendered⟩
    obtain ⟨p, hp, htext⟩ := (mem_of_mapM htexts).2 file hfile
    obtain ⟨text, bytes, hdumps, hbytes⟩ := writable_iff_bytes.mp (hdocuments p hp)
    simp only [hdumps, Except.map, Except.ok.injEq] at htext
    subst htext
    exact exists_utf8.mp ⟨bytes, hbytes⟩

/-- Texts that can be encoded have digests. -/
theorem exists_digests {files : List (JStr × List CodeUnit)} (hfiles : d.files w = .ok files)
    (hpaired : ∀ p ∈ files, paired false p.2 = true) : ∃ digests, d.digests w = .ok digests := by
  have hmap : ∃ digests, (sortNames files).mapM
      (fun p => (sha256Text p.2).map fun digest => (p.1, Json.str digest)) = .ok digests := by
    apply exists_mapM_eq_ok
    intro p hp
    obtain ⟨digest, hdigest⟩ :=
      sha256Text_isOk.mpr (exists_utf8.mpr (hpaired p (mem_sortNames.mp hp)))
    exact ⟨(p.1, .str digest), by rw [hdigest]; rfl⟩
  obtain ⟨digests, hdigests⟩ := hmap
  exact ⟨digests, bind_eq_ok.mpr ⟨files, hfiles, hdigests⟩⟩

/-- A digest is paired: it is a hexadecimal number. -/
theorem pairedText_sha256Text {text : List CodeUnit} {digest : JStr}
    (h : sha256Text text = .ok digest) : PairedText digest := by
  unfold sha256Text encodeText at h
  cases hbytes : utf8Encode text with
  | none => simp [hbytes, Except.map] at h
  | some bytes =>
    simp only [hbytes, Except.map, Except.ok.injEq] at h
    rw [← h]
    exact pairedText_ofChars _

/-- **The manifest** can be written exactly if the texts it adds can. -/
theorem writable_manifest {bound : ℕ} {verdict : Json} {digests : List (JStr × Json)}
    {manifest : Dict} (hroom : Roomy w bound)
    (hverdict : d.verification.item "verdict" = .ok verdict)
    (hwritable : Writable w 1 verdict) (hdigests : d.digests w = .ok digests)
    (hkeys : ∀ p ∈ digests, utf8Encode p.1.units ≠ none ∧ ∃ digest, p.2 = .str digest ∧
      PairedText digest)
    (hmanifest : d.manifest w sdk_version = .ok manifest) :
    Writable w 0 (.obj manifest) ↔
      PairedText sdk_version ∧ PairedText d.generated_at ∧ PairedText d.session_id ∧
        (∀ agent, d.agent = some agent → Writable w 1 (.obj agent)) ∧
        PairedText d.source_backend ∧ PairedText d.source_location := by
  have hdepth := hroom.depth
  have hlevels : 0 < w.depth ∧ 1 < w.depth := by omega
  have hfiles : Writable w 1 (.obj digests) := by
    refine writable_obj.mpr ⟨hlevels.2, fun p hp => ?_⟩
    obtain ⟨hutf8, digest, hvalue, hpaired⟩ := hkeys p hp
    rw [hvalue]
    exact ⟨exists_utf8.mp (Option.ne_none_iff_exists'.mp hutf8), writable_str.mpr hpaired⟩
  have hnothing : Writable w 1 (.obj []) := writable_obj.mpr ⟨hlevels.2, by simp⟩
  unfold BundleDocuments.manifest at hmanifest
  -- The agent of the manifest is the bundle's own, an empty object, or the placeholder.
  rcases hagent : d.agent with _ | (_ | ⟨p, rest⟩)
  all_goals
    simp only [hagent, hverdict, hdigests, Except.ok.injEq] at hmanifest
    rw [← hmanifest, writable_ofFields]
    simp [hlevels, writable_ofFields, hwritable, hfiles, hnothing]

/-- A directory can be made for a session below another, and holds files of the names. -/
structure DirectoryUsable (fs : FileTree os) (out_dir : PosixPath) (session_id : JStr)
    (names : List JStr) : Prop where
  accepted : refusesDirectory fs false (out_dir ++ pathParts ("evidence-" ++ session_id)) = none
  short : os.pathTooLong (out_dir ++ pathParts ("evidence-" ++ session_id)) = false
  made : ∃ made directory,
    fs.mkdir [] (out_dir ++ pathParts ("evidence-" ++ session_id)) = some (made, directory) ∧
      ∀ name ∈ names, Accepts made directory name

/-- The names are files of their own in the directory, and can be read if they are there: a
    directory that is new, or was empty, has neither links nor files. -/
def OwnPlaces (fs : FileTree os) (out_dir : PosixPath) (session_id : JStr)
    (names : List JStr) : Prop :=
  ∀ made directory,
    fs.mkdir [] (out_dir ++ pathParts ("evidence-" ++ session_id)) = some (made, directory) →
      (∀ name ∈ names, made.readFile directory name ≠ .refused) ∧
        ∀ name ∈ names, ∀ other ∈ names,
          made.fileOf directory name = made.fileOf directory other → name = other

/-- **A bundle is written** exactly if its directory can be made and its manifest written, where its
    files can be encoded. -/
theorem writeBundle_isOk {out_dir : PosixPath} {files : List (JStr × List CodeUnit)}
    {manifest : Dict}
    (hfiles : d.files w = .ok files) (hpaired : ∀ p ∈ files, paired false p.2 = true)
    (hmanifest : d.manifest w sdk_version = .ok manifest) :
    (∃ result, writeBundle w sdk_version fs out_dir false d = .ok result) ↔
      DirectoryUsable fs out_dir d.session_id (d.names ++ [manifestFile]) ∧
        Writable w 0 (.obj manifest) := by
  obtain ⟨hnodup, hmem⟩ := files_names hfiles
  constructor
  · rintro ⟨⟨fs', directory⟩, h⟩
    obtain ⟨haccepted, hshort, made, written, files', manifest', text, hmkdir, hfiles', hwritten,
      hmanifest', hdumps, hfinal⟩ := writeBundle_ok h
    obtain rfl := Except.ok.inj (hfiles.symm.trans hfiles')
    obtain rfl := Except.ok.inj (hmanifest.symm.trans hmanifest')
    -- The loop and the last write each say which names they accept, of the tree as it is then.
    have hloop := writeFiles_isOk.mp ⟨written, hwritten⟩
    obtain ⟨hbytes, hlast⟩ := writeText_isOk.mp ⟨fs', hfinal⟩
    obtain ⟨bytes, hbytes⟩ := exists_utf8.mpr hbytes
    refine ⟨⟨haccepted, hshort, made, directory, hmkdir, fun name hname => ?_⟩,
      writable_of_written hdumps hbytes⟩
    rcases List.mem_append.mp hname with hname | hname
    · obtain ⟨p, hp, rfl⟩ := List.mem_map.mp ((hmem name).mpr hname)
      exact (hloop p hp).2
    · obtain rfl := List.mem_singleton.mp hname
      exact (writeFiles_spec hwritten).accepts_iff.mp hlast
  -- Conversely, nothing that is written on the way closes a later name.
  · rintro ⟨⟨haccepted, hshort, made, directory, hmkdir, haccepts⟩, hwritable⟩
    obtain ⟨text, bytes, hdumps, hbytes⟩ := writable_iff_bytes.mp hwritable
    obtain ⟨written, hwritten⟩ := writeFiles_isOk.mpr fun p hp =>
      ⟨hpaired p hp, haccepts p.1 (List.mem_append_left _ ((hmem p.1).mp (List.mem_map_of_mem hp)))⟩
    have hlast := (writeFiles_spec hwritten).accepts_iff.mpr
      (haccepts manifestFile (List.mem_append_right _ List.mem_cons_self))
    obtain ⟨fs', hfinal⟩ := writeText_isOk.mpr ⟨exists_utf8.mp ⟨bytes, hbytes⟩, hlast⟩
    -- The manifest is dumped last, when the files it digests stand.
    have htext : d.manifestText w sdk_version = .ok text := by
      simp only [BundleDocuments.manifestText, hmanifest, hdumps, Except.mapError]
    refine ⟨(fs', directory), ?_⟩
    unfold writeBundle
    simp only [BundleDocuments.directoryName, haccepted, hshort, hmkdir, hfiles, hwritten, htext,
      hfinal, Bool.false_eq_true, if_false]

/-- The manifest holds the path of the file. -/
theorem pairedText_location {out_dir : PosixPath} {overwrite : Bool}
    (h : writeBundle w sdk_version fs out_dir overwrite d = .ok (fs', directory)) :
    PairedText d.source_location := by
  obtain ⟨-, -, _, _, _, manifest, text, -, -, -, hmanifest, hdumps, hfinal⟩ := writeBundle_ok h
  obtain ⟨bytes, hbytes, -⟩ := writeText_ok hfinal
  have hwritable := writable_of_written hdumps hbytes
  unfold BundleDocuments.manifest at hmanifest
  cases hverdict : d.verification.item "verdict" with
  | error e => simp [hverdict] at hmanifest
  | ok verdict =>
    cases hdigests : d.digests w with
    | error e => simp [hverdict, hdigests] at hmanifest
    | ok digests =>
      simp only [hverdict, hdigests, Except.ok.injEq] at hmanifest
      rw [← hmanifest, writable_ofFields] at hwritable
      have hsource := hwritable.2 ("source", .obj (Dict.ofFields
        [("backend", .str d.source_backend), ("location", .str d.source_location)])) (by simp)
      rw [writable_ofFields] at hsource
      exact writable_str.mp (hsource.2 ("location", .str d.source_location) (by simp))

/-- **Reading back.**  Each text is read back as its bytes and the names are files of their own,
    exactly if their places were. -/
theorem writeBundle_reads {out_dir : PosixPath} {overwrite : Bool} (hother : manifestFile ∉ d.names)
    (h : writeBundle w sdk_version fs out_dir overwrite d = .ok (fs', directory)) :
    ∃ files manifest, d.files w = .ok files ∧ d.manifestText w sdk_version = .ok manifest ∧
      ((∀ name text, (name, text) ∈ files ++ [(manifestFile, manifest)] →
          ∃ bytes, utf8Encode text = some bytes ∧ fs'.readFile directory name = .file bytes) ∧
        (∀ name ∈ d.names ++ [manifestFile], ∀ other ∈ d.names ++ [manifestFile],
          fs'.fileOf directory name = fs'.fileOf directory other → name = other) ↔
        OwnPlaces fs out_dir d.session_id (d.names ++ [manifestFile])) := by
  obtain ⟨made, files, manifest, hmkdir, hfiles, hmanifest, hholding⟩ := holding_of_written h
  obtain ⟨hnodup, hmem⟩ := files_names hfiles
  refine ⟨files, manifest, hfiles, hmanifest, ?_⟩
  -- A name of the bundle is the name of a text that was written, and the other way around.
  have hnames : ∀ name, name ∈ d.names ++ [manifestFile] ↔
      ∃ p ∈ files ++ [(manifestFile, manifest)], p.1 = name := by
    intro name
    simp only [List.mem_append, ← hmem, List.mem_map, List.mem_singleton]
    constructor
    · rintro (⟨p, hp, rfl⟩ | rfl)
      · exact ⟨p, Or.inl hp, rfl⟩
      · exact ⟨_, Or.inr rfl, rfl⟩
    · rintro ⟨p, hp | rfl, rfl⟩
      · exact Or.inl ⟨p, hp, rfl⟩
      · exact Or.inr rfl
  have hall : ((files ++ [(manifestFile, manifest)]).map Prod.fst).Nodup := by
    rw [List.map_append, List.nodup_append]
    refine ⟨hnodup, by simp, ?_⟩
    rintro name hname _ hlast rfl
    obtain rfl := List.mem_singleton.mp hlast
    exact hother ((hmem _).mp hname)
  -- Writing moves no link, so names lead to the same files before and after.
  have hfile : ∀ name, fs'.fileOf directory name = made.fileOf directory name := by
    intro name
    unfold FileTree.fileOf
    simp only [hholding.find, hholding.firstName]
  simp only [hfile]
  constructor
  -- A file that cannot be read stays so; that each text is read back excludes it.
  · rintro ⟨hreads, hapart⟩ made' directory' hmkdir'
    obtain ⟨rfl, rfl⟩ := Prod.mk.inj (Option.some.inj (hmkdir.symm.trans hmkdir'))
    refine ⟨fun name hname hrefused => ?_, hapart⟩
    obtain ⟨p, hp, rfl⟩ := (hnames name).mp hname
    obtain ⟨bytes, -, hread⟩ := hreads p.1 p.2 hp
    rcases hholding.readFile hp with ⟨-, hafter⟩ | ⟨hcan, -⟩
    · rw [hafter] at hread
      cases hread
    · exact hcan hrefused
  · intro hplaces
    obtain ⟨hcan, hapart⟩ := hplaces made directory hmkdir
    refine ⟨fun name text hp => ?_, hapart⟩
    have hname := (hnames name).mpr ⟨_, hp, rfl⟩
    rcases hholding.readFile hp with ⟨hrefused, -⟩ | ⟨-, q, hq, bytes, hsame, hbytes, hread⟩
    · exact absurd hrefused (hcan name hname)
    · -- a name of the same file is the same name, with the same text
      have heq := hapart q.1 ((hnames q.1).mpr ⟨q, hq, rfl⟩) name hname hsame
      obtain rfl := List.inj_on_of_nodup_map hall hq hp heq
      exact ⟨bytes, hbytes, hread⟩

end

/-! ### The export -/

/-- **The export succeeds**: each document, each report and the manifest stand in the directory, as
    files of their own, with the bytes of their texts. -/
def Exported {os : PathRules} (rt : Runtime) (w : JsonLimits) (max_calls : ℕ) (fs : FileTree os)
    (call : ExportCall) : Prop :=
  ∃ b fs' directory files manifest, runExport rt w max_calls fs call = .ok (b, fs', directory) ∧
    b.asDocuments.files w = .ok files ∧
    b.asDocuments.manifestText w (JStr.ofString call.sdk_version) = .ok manifest ∧
    (∀ name text, (name, text) ∈ files ++ [(manifestFile, manifest)] →
      ∃ bytes, utf8Encode text = some bytes ∧ fs'.readFile directory name = .file bytes) ∧
    ∀ name ∈ b.asDocuments.names ++ [manifestFile], ∀ other ∈ b.asDocuments.names ++ [manifestFile],
      fs'.fileOf directory name = fs'.fileOf directory other → name = other

/-- The files of a bundle, which has a receipt or not. -/
def exportedNames (receipt : Option Dict) : List JStr :=
  (["verification.json", "timeline.json", "redaction.json"] ++
    (if receipt.isSome then ["sync-receipt.json"] else []) ++
    ["report.md", "report.html", "manifest.json"] : List String).map JStr.ofString

/-- **What can be exported**: lines on which `json.loads` raises nothing that is not caught, and
    that are objects, with payloads that are objects where they are read; numbers that compare; a
    receipt whose lookup raises nothing that is not caught, and that can be summarized; payloads
    that are not nested too deep to be searched; values that can be written, in the records and in
    the result; a path without unpaired surrogates; and a directory that can be made for the session
    id, in which the names are files of their own. -/
structure Exportable {os : PathRules} (rt : Runtime) (w : JsonLimits) (max_calls : ℕ)
    (fs : FileTree os) (call : ExportCall) (res : VerifyResult) : Prop where
  parsed : NoneRaises (call.lines.map FileLine.unstripped)
  loadable : ∀ v ∈ lineValues (call.lines.map FileLine.unstripped), Loadable v
  sortable : NumbersCompare call.lines
  readable : ReceiptReadable call.load_receipt (exportedId rt call.stem call.lines)
  summarized : ∀ receipt,
    foundReceipt call.load_receipt (exportedId rt call.stem call.lines) = some receipt →
      ∃ summary, replaySummary receipt = .ok summary
  stack : ∀ a ∈ exportedActions call.lines, fitsStack max_calls a = true
  content : ContentWritable rt w call.stem call.load_receipt call.redact_previews call.lines res
  location : PairedText call.path
  directory : DirectoryUsable fs call.out_dir (exportedId rt call.stem call.lines)
    (exportedNames (foundReceipt call.load_receipt (exportedId rt call.stem call.lines)))
  places : OwnPlaces fs call.out_dir (exportedId rt call.stem call.lines)
    (exportedNames (foundReceipt call.load_receipt (exportedId rt call.stem call.lines)))

section

variable {os : PathRules} {rt : Runtime} {w : JsonLimits} {max_calls : ℕ} {fs : FileTree os}
variable {call : ExportCall} {res : VerifyResult} {bound : ℕ} {b : EvidenceBundle}

/-- The three steps of `export_local`: load, build, and search the payloads. -/
theorem exportLocal_eq_ok : exportLocal rt max_calls call.path call.stem call.load_receipt
    call.generated_at call.redact_previews call.lines = .ok b ↔
    ∃ evidence, loadLocalSession rt call.path call.stem call.load_receipt call.lines =
      .ok evidence ∧
      buildBundle rt (JStr.ofChars call.generated_at.time.isoformat) call.redact_previews evidence =
        .ok b ∧
      evidence.actions.all (fitsStack max_calls) = true := by
  unfold exportLocal
  cases loadLocalSession rt call.path call.stem call.load_receipt call.lines with
  | error e => simp
  | ok evidence =>
    cases hbuild : buildBundle rt (JStr.ofChars call.generated_at.time.isoformat)
        call.redact_previews evidence with
    | error e => simp [hbuild]
    | ok built =>
      simp only [hbuild]
      constructor
      -- The stack is tested behind the build, in the same branch of the model.
      · intro h
        split at h
        · rename_i hfits
          exact ⟨evidence, rfl, hbuild.trans (congrArg Except.ok (Except.ok.inj h)), hfits⟩
        · cases h
      · rintro ⟨_, hload, hok, hfits⟩
        obtain rfl := Except.ok.inj hload
        rw [if_pos hfits]
        exact congrArg Except.ok (Except.ok.inj (hbuild.symm.trans hok))

/-- **`export_local`** returns exactly if the lines are taken in, and the receipt and the payloads
    are. -/
theorem exists_exportLocal
    (hverify : verifySessionLocal rt (call.lines.map FileLine.stripped) = .ok res) :
    (∃ b, exportLocal rt max_calls call.path call.stem call.load_receipt call.generated_at
      call.redact_previews call.lines = .ok b) ↔
      ((NoneRaises (call.lines.map FileLine.unstripped) ∧
          ∀ v ∈ lineValues (call.lines.map FileLine.unstripped), Loadable v) ∧
        NumbersCompare call.lines ∧
        ReceiptReadable call.load_receipt (exportedId rt call.stem call.lines)) ∧
        (∀ receipt,
          foundReceipt call.load_receipt (exportedId rt call.stem call.lines) = some receipt →
            ∃ summary, replaySummary receipt = .ok summary) ∧
        ∀ a ∈ exportedActions call.lines, fitsStack max_calls a = true := by
  -- Loading, building and the search fail for reasons of their own; the actions loaded are those of
  -- the file in another order.
  have hloads := @exists_loaded rt call.path call.stem call.load_receipt call.lines res hverify
  constructor
  · rintro ⟨b, h⟩
    obtain ⟨evidence, hload, hbuild, hfits⟩ := exportLocal_eq_ok.mp h
    have hloaded := loaded_of_ok hverify hload
    refine ⟨hloads.mp ⟨evidence, hload⟩, fun receipt hreceipt => ?_, fun a ha => ?_⟩
    · exact (exists_built hload).mp ⟨b, hbuild⟩ receipt (hloaded.receipt.trans hreceipt)
    · exact List.all_eq_true.mp hfits a (hloaded.actions.mem_iff.mpr ha)
  · rintro ⟨hloadable, hsummarized, hfits⟩
    obtain ⟨evidence, hload⟩ := hloads.mpr hloadable
    have hloaded := loaded_of_ok hverify hload
    obtain ⟨b, hbuild⟩ := (exists_built hload).mpr fun receipt hreceipt =>
      hsummarized receipt (hloaded.receipt.symm.trans hreceipt)
    refine ⟨b, exportLocal_eq_ok.mpr ⟨evidence, hload, hbuild, List.all_eq_true.mpr fun a ha => ?_⟩⟩
    exact hfits a (hloaded.actions.mem_iff.mp ha)

/-- The names of the files of a bundle with its reports. -/
theorem names_attached {markdown html : List CodeUnit} :
    let names := ({ b with
      rendered := [("report.md", markdown), ("report.html", html)] }).asDocuments.names
    names ++ [manifestFile] = exportedNames b.receipt ∧ names.Nodup ∧
      ∀ name ∈ names, IsPart name ∧ utf8Encode name.units ≠ none ∧ name ≠ manifestFile := by
  obtain ⟨_, _, _, _, _, _, _, _, _, receipt⟩ := b
  cases receipt with
  | none =>
    refine ⟨rfl, ?_⟩
    show (["verification.json", "timeline.json", "redaction.json", "report.md",
      "report.html"] : List JStr).Nodup ∧
        ∀ name ∈ (["verification.json", "timeline.json", "redaction.json", "report.md",
      "report.html"] : List JStr), _
    decide
  | some receipt =>
    refine ⟨rfl, ?_⟩
    show (["verification.json", "timeline.json", "redaction.json", "sync-receipt.json",
      "report.md", "report.html"] : List JStr).Nodup ∧
        ∀ name ∈ (["verification.json", "timeline.json", "redaction.json", "sync-receipt.json",
      "report.md", "report.html"] : List JStr), _
    decide

theorem forall_mem_asDocuments {Q : Dict → Prop} (hall : ∀ p ∈ b.documents, Q p.2) :
    ∀ p ∈ b.asDocuments.documents, Q p.2 := by
  have hparts := (@forall_mem_documents Q b).mp hall
  obtain ⟨_, _, _, _, _, _, _, _, _, receipt⟩ := b
  obtain ⟨hverification, htimeline, hredaction, hreceipt⟩ := hparts
  cases receipt with
  | none =>
    simp only [BundleDocuments.documents, EvidenceBundle.asDocuments]
    simpa using ⟨hverification, htimeline, hredaction⟩
  | some receipt =>
    simp only [BundleDocuments.documents, EvidenceBundle.asDocuments]
    simpa using ⟨hverification, htimeline, hredaction, hreceipt receipt rfl⟩

/-- **The bundle with its reports** is written exactly if a directory can be made for it: whatever
    goes into its files can be encoded. -/
theorem exists_written {out_dir : PosixPath} {sdk_version : JStr} {markdown html : List CodeUnit}
    (hroom : Roomy w bound) (hb : PairedBundle b)
    (hagent : ∀ agent, b.agent = some agent → Writable w 1 (.obj agent))
    (hsdk : PairedText sdk_version) (hdocuments : ∀ p ∈ b.documents, Writable w 0 (.obj p.2))
    (hreports : paired false markdown = true ∧ paired false html = true) :
    (∃ result, writeBundle w sdk_version fs out_dir false ({ b with
        rendered := [("report.md", markdown), ("report.html", html)] }).asDocuments =
      .ok result) ↔ DirectoryUsable fs out_dir b.session_id (exportedNames b.receipt) := by
  obtain ⟨hnames, hnodup, hparts⟩ := @names_attached b markdown html
  set attached : EvidenceBundle :=
    { b with rendered := [("report.md", markdown), ("report.html", html)] } with hset
  have hall : ∀ p ∈ attached.asDocuments.documents, Writable w 0 (.obj p.2) :=
    @forall_mem_asDocuments attached (fun d => Writable w 0 (.obj d)) hdocuments
  have hrendered : ∀ p ∈ attached.asDocuments.rendered, paired false p.2 = true := by
    show ∀ p ∈ [(JStr.ofString "report.md", markdown), (JStr.ofString "report.html", html)], _
    simp [hreports]
  -- the files have texts, the texts digests, and the digests go into the manifest
  obtain ⟨files, hfiles, -, hpaired⟩ := exists_files hall hrendered hnodup
  obtain ⟨digests, hdigests⟩ := exists_digests hfiles hpaired
  obtain ⟨-, hlisted, hshas⟩ := digests_of_files hfiles hdigests
  have hkeys : ∀ p ∈ digests,
      utf8Encode p.1.units ≠ none ∧ ∃ digest, p.2 = .str digest ∧ PairedText digest := by
    intro p hp
    obtain ⟨text, sha, -, hsha, hvalue⟩ := hshas p.1 p.2 hp
    exact ⟨(hparts p.1 ((hlisted p.1).mp (List.mem_map_of_mem hp))).2.1, sha, hvalue,
      pairedText_sha256Text hsha⟩
  have hverdict : attached.asDocuments.verification.item "verdict" =
      .ok (.str b.verification.verdict.text) := by
    show Dict.item b.verification.asDict "verdict" = _
    simp [Verification.asDict, Dict.item, Dict.ofFields]
  obtain ⟨manifest, hmanifest⟩ : ∃ manifest,
      attached.asDocuments.manifest w sdk_version = .ok manifest := by
    unfold BundleDocuments.manifest
    simp only [hverdict, hdigests]
    exact ⟨_, rfl⟩
  have hwritable := (writable_manifest hroom hverdict (writable_str.mpr (pairedText_ofString _))
    hdigests hkeys hmanifest).mpr
    ⟨hsdk, hb.generated_at, hb.session_id, hagent, pairedText_ofString _, hb.location⟩
  rw [writeBundle_isOk hfiles hpaired hmanifest, hnames, and_iff_left hwritable]
  rfl

/-- **The rest of the export**, from a bundle whose documents can be written. -/
theorem exported_of_built {evidence : SessionEvidence} (hrepr : ReprPaired rt)
    (hroom : RoomyFor w rt call.stem call.load_receipt call.lines bound)
    (hloaded : Loaded rt call.path call.stem call.load_receipt call.lines res evidence)
    (hbuilt : BuiltBundle rt (JStr.ofChars call.generated_at.time.isoformat)
      (includesPreviews call.redact_previews call.lines) evidence b)
    (hdocuments : ∀ p ∈ b.documents, Writable w 0 (.obj p.2)) :
    (∃ b' result, attachReports rt w (JStr.ofString call.sdk_version) b = .ok b' ∧
      writeBundle w (JStr.ofString call.sdk_version) fs call.out_dir false b'.asDocuments =
        .ok result) ↔
      PairedText call.path ∧
        DirectoryUsable fs call.out_dir (exportedId rt call.stem call.lines)
          (exportedNames
            (foundReceipt call.load_receipt (exportedId rt call.stem call.lines))) := by
  have hroomy := hroom.toRoomy
  have hcontent := (writable_documents hrepr hroom hloaded hbuilt).mp hdocuments
  have hid : b.session_id = exportedId rt call.stem call.lines :=
    hbuilt.session_id.trans hloaded.session_id
  have hreceipt := hbuilt.receipt.trans hloaded.receipt
  have hsession := (sessionExported_iff hroomy).mpr hcontent.session
  have hagent : ∀ agent, b.agent = some agent → Writable w 1 (.obj agent) := by
    intro agent hagent
    rw [hbuilt.agent, hloaded.agent] at hagent
    split at hagent
    · obtain rfl := Option.some.inj hagent
      rw [writable_ofFields, hloaded.session]
      have := hroomy.depth
      exact ⟨by omega, by simpa using hsession.agent⟩
    · cases hagent
  have hsdk : PairedText (JStr.ofString call.sdk_version) := pairedText_ofString _
  have hat : PairedText b.generated_at := hbuilt.generated_at ▸ pairedText_ofChars _
  have hlocation : b.source_location = call.path := hbuilt.location.trans hloaded.location
  have hspec :=
    fun b' => @attached_spec rt w (JStr.ofString call.sdk_version) b b' bound hrepr hroomy
    hbuilt.rendered hsdk
  -- with a path that can be encoded only the directory is left to decide
  have hwrites : ∀ b', PairedText call.path →
      attachReports rt w (JStr.ofString call.sdk_version) b = .ok b' →
      ((∃ result, writeBundle w (JStr.ofString call.sdk_version) fs call.out_dir false
        b'.asDocuments = .ok result) ↔
        DirectoryUsable fs call.out_dir (exportedId rt call.stem call.lines)
          (exportedNames
            (foundReceipt call.load_receipt (exportedId rt call.stem call.lines)))) := by
    intro b' hpath hattached
    obtain ⟨markdown, html, rfl, hreports⟩ := hspec b' hattached
    have hb : PairedBundle b :=
      ⟨hid ▸ hcontent.session_id, hlocation ▸ hpath, hat, fun agent h => (hagent agent h).2⟩
    rw [exists_written hroomy hb hagent hsdk hdocuments (hreports hb), hid, hreceipt]
  constructor
  · rintro ⟨b', ⟨fs', directory⟩, hattached, hwrite⟩
    have hpath : PairedText call.path := by
      obtain ⟨markdown, html, rfl, -⟩ := hspec b' hattached
      have hwritten : PairedText b.source_location := pairedText_location hwrite
      exact hlocation ▸ hwritten
    exact ⟨hpath, (hwrites b' hpath hattached).mp ⟨_, hwrite⟩⟩
  · rintro ⟨hpath, hdirectory⟩
    obtain ⟨b', hattached⟩ := (@exists_attached rt w (JStr.ofString call.sdk_version) b
      hbuilt.rendered).mpr hdocuments
    obtain ⟨result, hwrite⟩ := (hwrites b' hpath hattached).mpr hdirectory
    exact ⟨b', result, hattached, hwrite⟩

/-- The three calls of an export. -/
theorem runExport_eq_ok {b' : EvidenceBundle} {fs' : FileTree os} {directory : PosixPath} :
    runExport rt w max_calls fs call = .ok (b', fs', directory) ↔
      ∃ b, exportLocal rt max_calls call.path call.stem call.load_receipt call.generated_at
          call.redact_previews call.lines = .ok b ∧
        attachReports rt w (JStr.ofString call.sdk_version) b = .ok b' ∧
        writeBundle w (JStr.ofString call.sdk_version) fs call.out_dir false b'.asDocuments =
          .ok (fs', directory) := by
  unfold runExport
  constructor
  · intro h
    split at h
    · cases h
    rename_i b hlocal
    split at h
    · cases h
    rename_i attached hattached
    split at h
    · cases h
    rename_i written hwrite
    obtain ⟨rfl, rfl, rfl⟩ := Prod.mk.inj (Except.ok.inj h)
    exact ⟨b, hlocal, hattached, hwrite⟩
  · rintro ⟨b, hlocal, hattached, hwrite⟩
    simp only [hlocal, hattached, hwrite]

/-- What the export reads from its file, where it gets as far as the reports. -/
theorem exportLocal_spec
    (hverify : verifySessionLocal rt (call.lines.map FileLine.stripped) = .ok res)
    (h : exportLocal rt max_calls call.path call.stem call.load_receipt call.generated_at
      call.redact_previews call.lines = .ok b) :
    ∃ evidence, Loaded rt call.path call.stem call.load_receipt call.lines res evidence ∧
      BuiltBundle rt (JStr.ofChars call.generated_at.time.isoformat)
        (includesPreviews call.redact_previews call.lines) evidence b := by
  obtain ⟨evidence, hload, hbuild, -⟩ := exportLocal_eq_ok.mp h
  have hloaded := loaded_of_ok hverify hload
  exact ⟨evidence, hloaded, builtBundle_of_ok hloaded hbuild⟩

/-- What is exported is exportable. -/
theorem exportable_of_exported (hrepr : ReprPaired rt)
    (hroom : RoomyFor w rt call.stem call.load_receipt call.lines bound)
    (hverify : verifySessionLocal rt (call.lines.map FileLine.stripped) = .ok res)
    (h : Exported rt w max_calls fs call) : Exportable rt w max_calls fs call res := by
  obtain ⟨b', fs', directory, files, manifest, hrun, hfiles, hmanifest, hreads⟩ := h
  obtain ⟨b, hlocal, hattached, hwrite⟩ := runExport_eq_ok.mp hrun
  obtain ⟨⟨⟨hparsed, hloadable⟩, hsortable, hreadable⟩, hsummarized, hstack⟩ :=
    (exists_exportLocal hverify).mp ⟨b, hlocal⟩
  obtain ⟨evidence, hloaded, hbuilt⟩ := exportLocal_spec hverify hlocal
  have hdocuments := (exists_attached hbuilt.rendered).mp ⟨b', hattached⟩
  have hcontent := (writable_documents hrepr hroom hloaded hbuilt).mp hdocuments
  obtain ⟨hlocation, hdirectory⟩ := (exported_of_built hrepr hroom hloaded hbuilt hdocuments).mp
    ⟨b', (fs', directory), hattached, hwrite⟩
  refine ⟨hparsed, hloadable, hsortable, hreadable, hsummarized, hstack, hcontent, hlocation,
    hdirectory, ?_⟩
  -- what is read back stands in places of its own
  obtain ⟨markdown, html, rfl, -⟩ := attached_spec hrepr hroom.toRoomy hbuilt.rendered
    (pairedText_ofString _) hattached
  obtain ⟨hnames, -, hparts⟩ := @names_attached b markdown html
  obtain ⟨files', manifest', hfiles', hmanifest', hback⟩ :=
    writeBundle_reads (fun hin => (hparts manifestFile hin).2.2 rfl) hwrite
  obtain rfl := Except.ok.inj (hfiles.symm.trans hfiles')
  obtain rfl := Except.ok.inj (hmanifest.symm.trans hmanifest')
  have hid : b.session_id = exportedId rt call.stem call.lines :=
    hbuilt.session_id.trans hloaded.session_id
  have hplaces : OwnPlaces fs call.out_dir b.session_id _ := hback.mp hreads
  rwa [hnames, hbuilt.receipt.trans hloaded.receipt, hid] at hplaces

/-- **What verifies and can be exported.**  A file on which the verifier returns a result is
    exported exactly if it is exportable. -/
theorem exported_iff {os : PathRules} (rt : Runtime) (w : JsonLimits) (max_calls bound : ℕ)
    (fs : FileTree os) (call : ExportCall) (res : VerifyResult) (hrepr : ReprPaired rt)
    (hroom : RoomyFor w rt call.stem call.load_receipt call.lines bound)
    (hverify : verifySessionLocal rt (call.lines.map FileLine.stripped) = .ok res) :
    Exported rt w max_calls fs call ↔ Exportable rt w max_calls fs call res := by
  refine ⟨exportable_of_exported hrepr hroom hverify, ?_⟩
  rintro ⟨hparsed, hloadable, hsortable, hreadable, hsummarized, hstack, hcontent, hlocation,
    hdirectory, hplaces⟩
  obtain ⟨b, hlocal⟩ := (@exists_exportLocal _ max_calls call res hverify).mpr
    ⟨⟨⟨hparsed, hloadable⟩, hsortable, hreadable⟩, hsummarized, hstack⟩
  obtain ⟨evidence, hloaded, hbuilt⟩ := exportLocal_spec hverify hlocal
  have hdocuments := (writable_documents hrepr hroom hloaded hbuilt).mpr hcontent
  obtain ⟨b', ⟨fs', directory⟩, hattached, hwrite⟩ :=
    (exported_of_built hrepr hroom hloaded hbuilt hdocuments).mpr ⟨hlocation, hdirectory⟩
  have hrun := runExport_eq_ok.mpr ⟨b, hlocal, hattached, hwrite⟩
  -- what was written is read back from the directory
  obtain ⟨markdown, html, rfl, -⟩ := attached_spec hrepr hroom.toRoomy hbuilt.rendered
    (pairedText_ofString _) hattached
  obtain ⟨hnames, -, hparts⟩ := @names_attached b markdown html
  obtain ⟨files, manifest, hfiles, hmanifest, hback⟩ :=
    writeBundle_reads (fun hin => (hparts manifestFile hin).2.2 rfl) hwrite
  refine ⟨_, fs', directory, files, manifest, hrun, hfiles, hmanifest, hback.mpr ?_⟩
  have hid : b.session_id = exportedId rt call.stem call.lines :=
    hbuilt.session_id.trans hloaded.session_id
  show OwnPlaces fs call.out_dir b.session_id _
  rwa [hnames, hbuilt.receipt.trans hloaded.receipt, hid]

end

/-! ### An objective that cannot be encoded -/

/-- The opening of a session with an objective. -/
def openingLine (objective : JStr) : Dict :=
  Dict.ofFields
    [("event_type", .str "SESSION_OPEN"), ("session_id", .str "s"), ("agent_id", .str "a"),
     ("emitted_at", .str "2026-05-01T12:00:00+00:00"),
     ("payload", .obj (Dict.ofFields [("objective", .str objective), ("user_id", .null)]))]

/-- A file of that line, exported into a directory without files. -/
def exportOpening (objective : JStr) : ExportCall where
  path := "s.jsonl"
  stem := "s"
  load_receipt := fun _ => .ok none
  lines := [⟨.value (.obj (openingLine objective)), .none⟩]
  generated_at := mayNoon
  redact_previews := false
  sdk_version := "0.3.0"
  out_dir := []

/-- No action, so nothing that could be wrong. -/
def openingResult : VerifyResult where
  verdict := .VALID
  record_count := 0
  session_id := .str "s"

theorem verify_opening (objective : JStr) :
    verifySessionLocal exampleRuntime ((exportOpening objective).lines.map FileLine.stripped) =
      .ok openingResult := rfl

theorem reprPaired_example : ReprPaired exampleRuntime := fun _ => rfl

theorem roomyFor_opening (objective : JStr) : RoomyFor defaultLimits exampleRuntime "s"
    (fun _ => .ok none) (exportOpening objective).lines 10 where
  depth := by decide
  digits := by decide
  lines_le := show 4 * 1 + 2 ≤ 10 by decide
  redacted_le := show 0 ≤ 10 by decide
  attempts_le := by
    intro receipt hreceipt
    cases hreceipt

/-- Of a session that only opens, the objective alone has to be written. -/
theorem sessionWritable_opening {objective : JStr} :
    SessionWritable defaultLimits (exportedRecords (exportOpening objective).lines) ↔
      PairedText objective := by
  -- the one record of the file is the last of its kind
  have hlast : ∀ kind, kind (openingLine objective) = true →
      lastOf kind (exportedRecords (exportOpening objective).lines) =
        some (openingLine objective) := by
    intro kind hkind
    show ([openingLine objective].filter kind).getLast? = some _
    rw [List.filter_cons_of_pos hkind]
    rfl
  have hpayload : payloadDict (openingLine objective) =
      Dict.ofFields [("objective", .str objective), ("user_id", .null)] := by
    have hget : (openingLine objective).get "payload" =
        .obj (Dict.ofFields [("objective", .str objective), ("user_id", .null)]) := by
      simp [openingLine, Dict.get_ofFields, List.lookup_cons]
    apply payloadDict_of
    rw [hget]
    rfl
  constructor
  · intro h
    have hobjective := (h.opening _ (hlast _ rfl)).1
    rw [hpayload] at hobjective
    simpa [Dict.get_ofFields, List.lookup_cons] using hobjective
  · intro h
    refine ⟨fun r hr => ?_, fun r hr => ?_, fun r hr => ?_, fun r hr hclose => ?_⟩
    · obtain rfl := Option.some.inj ((hlast _ rfl).symm.trans hr)
      exact writable_str.mpr (pairedText_ofString "a")
    · obtain rfl := Option.some.inj ((hlast _ rfl).symm.trans hr)
      rw [hpayload]
      simp [openingLine, Dict.get_ofFields, List.lookup_cons, h]
    · cases hr
    · obtain rfl := Option.some.inj ((hlast _ rfl).symm.trans hr)
      cases hclose

theorem directoryUsable_empty : DirectoryUsable emptyTree [] "s" (exportedNames none) where
  accepted := by decide +kernel
  short := rfl
  made := by
    have hmade : (match emptyTree.mkdir [] ([] ++ pathParts ("evidence-" ++ "s")) with
        | some (made, directory) =>
          (exportedNames none).all (fun name => Accepts made directory name)
        | none => false) = true := by
      decide +kernel
    cases h : emptyTree.mkdir [] ([] ++ pathParts ("evidence-" ++ "s")) with
    | none =>
      rw [h] at hmade
      cases hmade
    | some result =>
      rw [h] at hmade
      exact ⟨result.1, result.2, rfl, by simpa using hmade⟩

theorem ownPlaces_empty : OwnPlaces emptyTree [] "s" (exportedNames none) := by
  intro made directory hmkdir
  have hown : (emptyTree.mkdir [] ([] ++ pathParts ("evidence-" ++ "s"))).map (fun result =>
      (exportedNames none).all fun name =>
        result.1.fileOf result.2 name == some (result.2 ++ [name]) &&
          (result.1.node (result.2 ++ [name])).isNone &&
            result.1.find result.2 name == .at (result.2 ++ [name])) = some true := by
    decide +kernel
  rw [hmkdir, Option.map_some, Option.some.injEq, List.all_eq_true] at hown
  simp only [Bool.and_eq_true, beq_iff_eq, Option.isNone_iff_eq_none] at hown
  constructor
  · intro name hname
    obtain ⟨⟨-, hnode⟩, hfind⟩ := hown name hname
    simp [FileTree.readFile, hfind, hnode]
  · intro name hname other hother hsame
    rw [(hown name hname).1.1, (hown other hother).1.1] at hsame
    exact List.singleton_injective (List.append_cancel_left (Option.some.inj hsame))

/-- The file of one opening meets every part of the condition. -/
theorem exportable_opening : Exportable exampleRuntime defaultLimits 900 emptyTree
    (exportOpening "audit") openingResult where
  parsed := by
    intro l hl e
    obtain rfl := List.mem_singleton.mp hl
    intro he
    cases he
  readable := by
    intro e he
    cases he
  loadable := by
    intro v hv
    obtain rfl := List.mem_singleton.mp hv
    exact ⟨openingLine "audit", rfl, fun _ => ⟨_, rfl⟩⟩
  sortable := by
    intro a ha
    cases ha
  summarized := by
    intro receipt hreceipt
    cases hreceipt
  stack := by
    intro a ha
    cases ha
  content :=
    { result := ⟨writable_null, by simp [openingResult], by decide, by simp [openingResult]⟩
      session_id := pairedText_ofString "s"
      fields := by
        intro r hr v hv
        obtain rfl := List.mem_singleton.mp hr
        cases hv
      session := sessionWritable_opening.mpr (pairedText_ofString _)
      paths := by
        intro a ha
        cases ha
      receipt := by
        intro receipt hreceipt
        cases hreceipt }
  location := pairedText_ofString _
  directory := directoryUsable_empty
  places := ownPlaces_empty

theorem exported_opening :
    Exported exampleRuntime defaultLimits 900 emptyTree (exportOpening "audit") :=
  (exported_iff exampleRuntime defaultLimits 900 10 emptyTree (exportOpening "audit") openingResult
    reprPaired_example (roomyFor_opening _) (verify_opening _)).mpr exportable_opening

/-- The verifier calls the file valid, and the encoder refuses its objective. -/
theorem not_exported_surrogate :
    ¬ ∀ (lines : List FileLine) (res : VerifyResult),
      verifySessionLocal exampleRuntime (lines.map FileLine.stripped) = .ok res →
      Exported exampleRuntime defaultLimits 900 emptyTree
        { exportOpening "audit" with lines := lines } := by
  intro hall
  have hexported := hall (exportOpening ⟨[0xD800]⟩).lines openingResult (verify_opening _)
  have hexportable := exportable_of_exported reprPaired_example (roomyFor_opening ⟨[0xD800]⟩)
    (verify_opening _) hexported
  have hpaired : PairedText ⟨[0xD800]⟩ := sessionWritable_opening.mp hexportable.content.session
  cases hpaired

end RootSign
