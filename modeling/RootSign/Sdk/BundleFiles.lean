import RootSign.Python.Files
import RootSign.Sdk.Bundle

namespace RootSign

open RootSign.Python

/-!
# Writing and checking a bundle (`rootsign/sdk/export.py`)

A bundle is written into a directory with a manifest that lists the digest of each other file, and a
directory is checked against its manifest.

* `BundleDocuments`, `BundleDocuments.manifest` — a bundle with any documents, and its manifest;
* `writeBundle` — the directory and what it holds afterwards;
* `checkBundle`, `BundleCheck.intact` — what the checker finds in a directory.
-/

/-! ### The bundle -/

/-- `MANIFEST_FILE`. -/
def manifestFile : JStr := "manifest.json"

/-- `EvidenceBundle`, with any dicts as its documents. -/
structure BundleDocuments where
  session_id : JStr
  verification : Dict
  timeline : Dict
  redaction : Dict
  source_backend : JStr
  source_location : JStr
  agent : Option Dict
  generated_at : JStr
  rendered : List (JStr × List CodeUnit)
  receipt : Option Dict

/-- The exceptions that leave `write_bundle`. -/
inductive WriteError where
  | bundleExists
  | osError
  | keyError
  | document (e : ReceiptError)

/-- Setting a key: in its place, or last. -/
def putKey {α : Type} : List (JStr × α) → JStr → α → List (JStr × α)
  | [], key, value => [(key, value)]
  | (k, v) :: rest, key, value =>
    if k = key then (key, value) :: rest else (k, v) :: putKey rest key value

/-- Fields by name. -/
def sortNames {α : Type} (fields : List (JStr × α)) : List (JStr × α) :=
  fields.insertionSort fun p q => JStr.lt q.1 p.1 = false

namespace BundleDocuments

/-- `directory_name`. -/
def directoryName (b : BundleDocuments) : JStr := "evidence-" ++ b.session_id

/-- `documents()`. -/
def documents (b : BundleDocuments) : List (JStr × Dict) :=
  let documents : List (JStr × Dict) :=
    [("verification.json", b.verification), ("timeline.json", b.timeline),
     ("redaction.json", b.redaction)]
  match b.receipt with
  | some receipt => documents ++ ([("sync-receipt.json", receipt)] : List (JStr × Dict))
  | none => documents

/-- `files()`. -/
def files (w : JsonLimits) (b : BundleDocuments) :
    Except ReceiptError (List (JStr × List CodeUnit)) := do
  let files ← b.documents.mapM fun p => (dumpsReceipt w p.2).map fun text => (p.1, text)
  return b.rendered.foldl (fun files p => putKey files p.1 p.2) files

/-- The digests of the files, by name. -/
def digests (w : JsonLimits) (b : BundleDocuments) : Except ReceiptError (List (JStr × Json)) := do
  let files ← b.files w
  (sortNames files).mapM fun p => (sha256Text p.2).map fun digest => (p.1, .str digest)

/-- `manifest`. -/
def manifest (w : JsonLimits) (sdk_version : JStr) (b : BundleDocuments) :
    Except WriteError Dict :=
  match b.verification.item "verdict" with
  | .error _ => .error .keyError
  | .ok verdict =>
    match b.digests w with
    | .error e => .error (.document e)
    | .ok digests =>
      .ok (.ofFields
        [("bundle_version", .str "1.0"),
         ("generator", .str ("rootsign " ++ sdk_version)),
         ("generated_at", .str b.generated_at),
         ("session_id", .str b.session_id),
         ("agent", .obj
           (match b.agent with
            | some (p :: rest) => p :: rest
            | _ => Dict.ofFields
              [("detail", .str "agent identity not recorded in this source")])),
         ("source", .obj (Dict.ofFields
           [("backend", .str b.source_backend), ("location", .str b.source_location)])),
         ("verdict", verdict),
         ("files", .obj digests),
         ("compliance", .obj [])])

/-- `_dumps(self.manifest)`. -/
def manifestText (w : JsonLimits) (sdk_version : JStr) (b : BundleDocuments) :
    Except WriteError (List CodeUnit) :=
  match b.manifest w sdk_version with
  | .error e => .error e
  | .ok manifest => (dumpsReceipt w manifest).mapError .document

/-- `manifest_hash`. -/
def manifestHash (w : JsonLimits) (sdk_version : JStr) (b : BundleDocuments) :
    Except WriteError JStr :=
  match b.manifestText w sdk_version with
  | .error e => .error e
  | .ok text => (sha256Text text).mapError .document

end BundleDocuments

/-! ### `write_bundle` -/

section

variable {os : PathRules}

/-- `(directory / name).write_text(text, encoding="utf-8")`: the file is opened before the text is
    encoded. -/
def writeText (fs : FileTree os) (directory : PosixPath) (name : JStr) (text : List CodeUnit) :
    Except WriteError (FileTree os) :=
  match fs.write directory name [] with
  | none => .error .osError
  | some _ =>
    match encodeText text with
    | .error e => .error (.document e)
    | .ok bytes =>
      match fs.write directory name bytes with
      | none => .error .osError
      | some fs => .ok fs

/-- The loop over the files. -/
def writeFiles (fs : FileTree os) (directory : PosixPath) :
    List (JStr × List CodeUnit) → Except WriteError (FileTree os)
  | [] => .ok fs
  | (name, text) :: rest =>
    match writeText fs directory name text with
    | .error e => .error e
    | .ok fs => writeFiles fs directory rest

/-- The guard of `write_bundle`: it raises for a file, for a directory that may not be listed, and
    for one that is not empty unless `overwrite` is set. -/
def refusesDirectory (fs : FileTree os) (overwrite : Bool) (parts : List JStr) :
    Option WriteError :=
  match fs.resolve parts with
  | .refused => some .osError
  | .absent => none
  | .at p =>
    if (fs.mode p).isSome then
      match fs.iterdir p with
      | none => some .osError
      | some names => if !names.isEmpty && !overwrite then some .bundleExists else none
    else if (fs.node p).isSome then some .osError
    else none

/-- `write_bundle`: the files afterwards, and the directory. -/
def writeBundle (w : JsonLimits) (sdk_version : JStr) (fs : FileTree os) (out_dir : PosixPath)
    (overwrite : Bool) (b : BundleDocuments) : Except WriteError (FileTree os × PosixPath) :=
  let parts := out_dir ++ pathParts b.directoryName
  match refusesDirectory fs overwrite parts with
  | some e => .error e
  | none =>
    if os.pathTooLong parts then .error .osError
    else
      match fs.mkdir [] parts with
      | none => .error .osError
      | some (fs, directory) =>
        match b.files w with
        | .error e => .error (.document e)
        | .ok files =>
          match writeFiles fs directory files with
          | .error e => .error e
          | .ok fs =>
            match b.manifestText w sdk_version with
            | .error e => .error e
            | .ok text =>
              match writeText fs directory manifestFile text with
              | .error e => .error e
              | .ok fs => .ok (fs, directory)

end

/-! ### `check_bundle` -/

/-- Why there is no manifest to compare with. -/
inductive ManifestProblem where
  | absent
  | unreadable
deriving DecidableEq, Repr

/-- `BundleCheck`. -/
structure BundleCheck where
  manifest_hash : Option JStr := none
  verified : List JStr := []
  altered : List JStr := []
  missing : List JStr := []
  unexpected : List JStr := []
  error : Option ManifestProblem := none
deriving DecidableEq, Repr

/-- `intact`. -/
def BundleCheck.intact (r : BundleCheck) : Bool :=
  r.altered.isEmpty && r.missing.isEmpty && r.unexpected.isEmpty && r.error.isNone

/-- The exceptions that leave `check_bundle`. -/
inductive CheckError where
  | runtimeError
  | recursionError
  | typeError
  | osError
deriving DecidableEq, Repr

/-- The directory that is to be checked: a path, or one below the home directory of a user, as in
    `~user/rest`. -/
inductive DirectoryArg where
  | path (p : PosixPath)
  | home (user : JStr) (rest : PosixPath)

/-- `Path(directory).expanduser()`, or nothing where the user has no home directory and it raises a
    `RuntimeError`. -/
def expandUser (home : JStr → Option PosixPath) : DirectoryArg → Option PosixPath
  | .path p => some p
  | .home user rest => (home user).map fun p => p ++ rest

/-- The characters of a string, each as a string. -/
def characters : List CodeUnit → List JStr
  | [] => []
  | [u] => [⟨[u]⟩]
  | u :: v :: rest =>
    if isHigh u && isLow v then ⟨[u, v]⟩ :: characters rest else ⟨[u]⟩ :: characters (v :: rest)

/-- What iterating over a value gives. -/
def iterated : Json → Option (List Json)
  | .arr items => some items
  | .obj fields => some (fields.map fun p => .str p.1)
  | .str s => some ((characters s.units).map .str)
  | _ => none

/-- An element of the sequence given to `dict`: two values, the first of which can be hashed. -/
def keyAndValue (v : Json) : Option (Json × Json) :=
  match iterated v with
  | some [.arr _, _] => none
  | some [.obj _, _] => none
  | some [key, value] => some (key, value)
  | _ => none

/-- `dict(v)`, or nothing where it raises a `TypeError` or a `ValueError`: the keys need not be
    strings. -/
def dictPairs : Json → Option (List (Json × Json))
  | .obj fields => some (fields.map fun p => (.str p.1, p.2))
  | v => (iterated v).bind fun items => items.mapM keyAndValue

/-- `dict(manifest["files"])`, or nothing where it raises. -/
def manifestFiles : Json → Option (List (Json × Json))
  | .obj manifest => (manifest.lookup (JStr.ofString "files")).bind dictPairs
  | _ => none

/-- A pair whose key is a string. -/
def stringKey : Json × Json → Option (JStr × Json)
  | (.str name, value) => some (name, value)
  | _ => none

/-- The listed names, if they are strings; a later digest replaces an earlier one. -/
def listedNames (pairs : List (Json × Json)) : Option (List (JStr × Json)) :=
  (pairs.mapM stringKey).map fun named => named.foldl (fun listed p => putKey listed p.1 p.2) []

/-- `sha256_bytes(bytes) == digest`. -/
def digestMatches (bytes : List UInt8) : Json → Bool
  | .str digest => sha256Bytes bytes = digest
  | _ => false

section

variable {os : PathRules}

/-- The loop over the listed files. -/
def checkFiles (fs : FileTree os) (root : PosixPath) :
    List (JStr × Json) → BundleCheck → Except CheckError BundleCheck
  | [], r => .ok r
  | (name, digest) :: rest, r =>
    match fs.readFile root name with
    | .refused => .error .osError
    | .noFile => checkFiles fs root rest { r with missing := r.missing ++ [name] }
    | .file bytes =>
      if digestMatches bytes digest then
        checkFiles fs root rest { r with verified := r.verified ++ [name] }
      else checkFiles fs root rest { r with altered := r.altered ++ [name] }

/-- `check_bundle` below its first line.  Keys that are not all strings raise a `TypeError`: sorting
    compares two of them, or the first one cannot be joined to a path. -/
def checkRoot (read : List UInt8 → ParsedFile) (fs : FileTree os) (root : PosixPath) :
    Except CheckError BundleCheck :=
  match fs.readFile root manifestFile with
  | .refused => .error .osError
  | .noFile => .ok { error := some .absent }
  | .file raw =>
    let found : BundleCheck := { manifest_hash := some (sha256Bytes raw) }
    match read raw with
    | .tooDeep => .error .recursionError
    | .refused => .ok { found with error := some .unreadable }
    | .value manifest =>
      match manifestFiles manifest with
      | none => .ok { found with error := some .unreadable }
      | some pairs =>
        match listedNames pairs with
        | none => .error .typeError
        | some listed =>
          match checkFiles fs root (sortNames listed) found with
          | .error e => .error e
          | .ok r =>
            match fs.listFiles root with
            | none => .error .osError
            | some present =>
              let unexpected := present.filter fun name =>
                name ∉ listed.map Prod.fst && name ≠ manifestFile
              .ok { r with
                unexpected := unexpected.insertionSort fun a b => JStr.lt b a = false }

/-- `check_bundle`. -/
def checkBundle (read : List UInt8 → ParsedFile) (home : JStr → Option PosixPath)
    (fs : FileTree os) (directory : DirectoryArg) : Except CheckError BundleCheck :=
  match expandUser home directory with
  | none => .error .runtimeError
  | some root => checkRoot read fs root

end

end RootSign
