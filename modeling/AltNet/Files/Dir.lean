import AltNet.Files.Chunk
import AltNet.Lib.FileSystem

/-!
# AltNet — published directories (`apps/files/dir.go`)

A directory is published as a record of its files: for each its path, its size
and the key of its manifest. The hash of the record is the root key, all that
a name has to point to.

`PublishDir` finds the files by `filepath.WalkDir` and takes the path of each
relative to the directory. `FetchDir` refuses paths that look as if they could
lead out of the destination.

Main results:

* `unmarshalDirectory_marshal` — a directory record is read back;
* `relPath_walkPath` — the path of a file in the record is its names with
  slashes between them;
* `publishDir_ok` — what `PublishDir` stores and returns.
-/

namespace AltNet

open List

variable {σ δ : Type}

/-- `DirEntry`. -/
structure DirEntry where
  path : GoString
  size : Int
  manifestKey : GoString
  deriving DecidableEq

/-- `Directory`. -/
structure Directory where
  entries : List DirEntry
  deriving DecidableEq

def dirEntryFields : FieldTable DirEntry :=
  [("path".toList, fun j e => (decodeString j e.path).map fun s => { e with path := s }),
   ("size".toList, fun j e => (decodeInt64 j e.size).map fun n => { e with size := n }),
   ("manifest_key".toList, fun j e =>
      (decodeString j e.manifestKey).map fun s => { e with manifestKey := s })]

def directoryFields : FieldTable (DecodedSlice DirEntry) :=
  [("entries".toList, DecodedSlice.decode ⟨[], 0, []⟩ (decodeRecord dirEntryFields))]

def DirEntry.toJson (e : DirEntry) : Json :=
  .obj [("path".toList, .str e.path), ("size".toList, .num (formatInt e.size)),
    ("manifest_key".toList, .str e.manifestKey)]

/-- The entries are collected by `append`, so without any they are `nil`. -/
def Directory.toJson (dir : Directory) : Json :=
  .obj [("entries".toList,
    if dir.entries = [] then .null else .arr (dir.entries.map DirEntry.toJson))]

/-- `Directory.Marshal`. -/
def Directory.marshal (dir : Directory) : Bytes := AltNet.marshal dir.toJson

/-- `UnmarshalDirectory`. -/
def unmarshalDirectory (data : Bytes) : Option Directory :=
  (unmarshal directoryFields ⟨[], []⟩ data).map fun d => ⟨d.live⟩

/-! ## Publishing -/

/-- The errors of `PublishDir` and `FetchDir`. -/
inductive DirError where
  | stat (path : GoString)
  | rel (path : GoString)
  | publish (path : GoString) (e : FileError)
  | storeDirectory (e : DhtError)
  | mkdirDest
  | fetchDirectory (e : DhtError)
  | malformedDirectory
  | unsafePath (path : GoString)
  | badManifestKey (path : GoString)
  | fetch (path : GoString) (e : FileError)
  | sizeMismatch (path : GoString) (got : Nat) (want : Int)
  | mkdir (path : GoString)
  | write (path : GoString)
  deriving DecidableEq

/-- A name that a Unix file system takes. -/
def LegalName (name : GoString) : Prop := IsName name ∧ '\x00' ∉ name

/-- A finite tree of regular files: the names that lead to each, and its
contents. A file is not a directory, so no path is the beginning of another. -/
structure FileTree where
  files : List (List GoString × Bytes)
  named : ∀ f ∈ files, f.1 ≠ [] ∧ ∀ name ∈ f.1, LegalName name
  apart : Apart files

/-- The path under which `filepath.WalkDir` comes to a file. -/
def walkPath (rootPath : GoString) (names : List GoString) : GoString :=
  names.foldl (fun p name => joinPath [p, name]) rootPath

/-- `PublishDir` on one file of the walk. -/
def publishFile (cr : Crypto) (put : Putter σ) (rootPath : GoString) (f : List GoString × Bytes)
    (s : σ) : σ × Except DirError DirEntry :=
  match relPath rootPath (walkPath rootPath f.1) with
  | none => (s, .error (.rel (walkPath rootPath f.1)))
  | some rel =>
    match publishBytes cr put s f.2 with
    | (s, .error e) => (s, .error (.publish rel e))
    | (s, .ok (manifest, key)) => (s, .ok ⟨rel, manifest.size, key.hex⟩)

/-- The walk of `PublishDir`. -/
def publishFiles (cr : Crypto) (put : Putter σ) (rootPath : GoString) :
    List (List GoString × Bytes) → σ → σ × Except DirError (List DirEntry)
  | [], s => (s, .ok [])
  | f :: rest, s =>
    match publishFile cr put rootPath f s with
    | (s, .error e) => (s, .error e)
    | (s, .ok entry) =>
      match publishFiles cr put rootPath rest s with
      | (s, .error e) => (s, .error e)
      | (s, .ok entries) => (s, .ok (entry :: entries))

/-- The entries in the order of their paths. -/
def sortEntries (entries : List DirEntry) : List DirEntry :=
  entries.insertionSort fun a b => a.path ≤ b.path

/-- `PublishDir`, of a directory with these files. The empty path is that of no
directory. -/
def publishDir (cr : Crypto) (put : Putter σ) (s : σ) (rootPath : GoString) (tree : FileTree) :
    σ × Except DirError (NodeID × Directory) :=
  if rootPath = [] then (s, .error (.stat rootPath))
  else
    match publishFiles cr put rootPath tree.files s with
    | (s, .error e) => (s, .error e)
    | (s, .ok entries) =>
      let dir : Directory := ⟨sortEntries entries⟩
      let blob := dir.marshal
      match put s (cr.contentAddress blob) blob with
      | .error e => (s, .error (.storeDirectory e))
      | .ok s => (s, .ok (cr.contentAddress blob, dir))

/-! ## Fetching -/

/-- The check of `FetchDir` on a path. -/
def unsafeDirPath (path : GoString) : Bool :=
  decide (['.', '.'] <:+: path) || decide (path.head? = some '/')

/-- A disk: its two calls, and whether they went well. -/
structure Disk (δ : Type) where
  mkdirAll : δ → GoString → δ × Bool
  writeFile : δ → GoString → Bytes → δ × Bool

/-- The loop of `FetchDir`. -/
def fetchEntriesOn (disk : Disk δ) (get : Getter σ) (dest : GoString) :
    List DirEntry → σ → δ → (σ × δ) × Except DirError Unit
  | [], s, fs => ((s, fs), .ok ())
  | e :: rest, s, fs =>
    if unsafeDirPath e.path then ((s, fs), .error (.unsafePath e.path))
    else
      match idFromHex e.manifestKey with
      | none => ((s, fs), .error (.badManifestKey e.path))
      | some manifestKey =>
        match fetchBytes get s manifestKey with
        | (s, .error err) => ((s, fs), .error (.fetch e.path err))
        | (s, .ok data) =>
          if (data.length : Int) ≠ e.size then
            ((s, fs), .error (.sizeMismatch e.path data.length e.size))
          else
            let full := joinPath [dest, e.path]
            match disk.mkdirAll fs (dirPath full) with
            | (fs, false) => ((s, fs), .error (.mkdir e.path))
            | (fs, true) =>
              match disk.writeFile fs full data with
              | (fs, false) => ((s, fs), .error (.write e.path))
              | (fs, true) => fetchEntriesOn disk get dest rest s fs

/-- `FetchDir` on a disk. -/
def fetchDirOn (disk : Disk δ) (get : Getter σ) (s : σ) (fs : δ) (rootKey : NodeID)
    (dest : GoString) : (σ × δ) × Except DirError Directory :=
  match disk.mkdirAll fs dest with
  | (fs, false) => ((s, fs), .error .mkdirDest)
  | (fs, true) =>
    match get s rootKey with
    | (s, .error e) => ((s, fs), .error (.fetchDirectory e))
    | (s, .ok blob) =>
      match unmarshalDirectory blob with
      | none => ((s, fs), .error .malformedDirectory)
      | some dir =>
        match fetchEntriesOn disk get dest dir.entries s fs with
        | (out, .error e) => (out, .error e)
        | (out, .ok _) => (out, .ok dir)

/-- The file system as a disk. `os.MkdirAll` makes nothing of the empty path. -/
def osDisk : Disk FileSystem where
  mkdirAll fs p :=
    if p = [] then (fs, false)
    else ((fs.mkdirAll (location p)).getD fs, (fs.mkdirAll (location p)).isSome)
  writeFile fs p data :=
    ((fs.writeFile (location p) data).getD fs, (fs.writeFile (location p) data).isSome)

/-- `FetchDir`. -/
def fetchDir (get : Getter σ) (s : σ) (fs : FileSystem) (rootKey : NodeID) (dest : GoString) :
    (σ × FileSystem) × Except DirError Directory :=
  fetchDirOn osDisk get s fs rootKey dest

/-! ## A directory record is read back -/

theorem dirEntryFields_distinct : dirEntryFields.Distinct := by decide +kernel

theorem directoryFields_distinct : directoryFields.Distinct := by decide +kernel

theorem DirEntry.toJson_flat (e : DirEntry) : e.toJson.Integral ∧ e.toJson.depth ≤ 1 := by
  have hFields : ∀ kv ∈ [("path".toList, Json.str e.path),
      ("size".toList, Json.num (formatInt e.size)), ("manifest_key".toList, .str e.manifestKey)],
      kv.2.Integral ∧ kv.2.depth ≤ 0 := by
    intro kv hkv
    simp only [mem_cons, not_mem_nil, or_false] at hkv
    rcases hkv with rfl | rfl | rfl
    · exact ⟨trivial, Nat.le_refl 0⟩
    · exact ⟨Json.integral_num _, Nat.le_refl 0⟩
    · exact ⟨trivial, Nat.le_refl 0⟩
  exact ⟨Json.integral_obj fun kv hkv => (hFields kv hkv).1,
    Json.depth_obj_le fun kv hkv => (hFields kv hkv).2⟩

variable {e : DirEntry} {names : List GoString} {rootPath : GoString}

theorem DirEntry.decodeRecord_toJson (hSize : IsInt64 e.size) :
    decodeRecord dirEntryFields e.toJson ⟨[], 0, []⟩ = some e := by
  have hName := @decodeField_name _ _ dirEntryFields_distinct
  have hPath : Decodes dirEntryFields [("path".toList, .str e.path)] ⟨[], 0, []⟩
      ⟨e.path, 0, []⟩ := .single (hName 0 rfl _ _)
  have hNumber : Decodes dirEntryFields [("size".toList, .num (formatInt e.size))]
      ⟨e.path, 0, []⟩ ⟨e.path, e.size, []⟩ := by
    refine .single ?_
    rw [hName 1 rfl, decodeInt64_formatInt hSize]
    rfl
  have hKey : Decodes dirEntryFields [("manifest_key".toList, .str e.manifestKey)]
      ⟨e.path, e.size, []⟩ e := .single (hName 2 rfl _ _)
  exact hPath.append (hNumber.append hKey)

/-- **A directory record survives its JSON text.** -/
theorem unmarshalDirectory_marshal {dir : Directory} (hSizes : ∀ e ∈ dir.entries, IsInt64 e.size) :
    unmarshalDirectory dir.marshal = some dir := by
  have hEntries : DecodedSlice.decode ⟨[], 0, []⟩ (decodeRecord dirEntryFields)
      (if dir.entries = [] then .null else .arr (dir.entries.map DirEntry.toJson)) ⟨[], []⟩ =
      some ⟨dir.entries, []⟩ := by
    split
    · rename_i hNil
      rw [hNil]
      rfl
    · exact DecodedSlice.decode_map fun e he => DirEntry.decodeRecord_toJson (hSizes e he)
  have hFlat :
      (if dir.entries = [] then Json.null else .arr (dir.entries.map DirEntry.toJson)).Integral ∧
        (if dir.entries = [] then Json.null else .arr (dir.entries.map DirEntry.toJson)).depth ≤
          2 := by
    split
    · exact ⟨trivial, Nat.zero_le 2⟩
    constructor
    · refine Json.integral_arr fun j hj => ?_
      obtain ⟨e, -, rfl⟩ := mem_map.mp hj
      exact e.toJson_flat.1
    · refine Json.depth_arr_le fun j hj => ?_
      obtain ⟨e, -, rfl⟩ := mem_map.mp hj
      exact e.toJson_flat.2
  have hInt : dir.toJson.Integral := Json.integral_obj fun kv hkv => by
    rw [mem_singleton.mp hkv]
    exact hFlat.1
  have hDepth : dir.toJson.depth ≤ 3 := Json.depth_obj_le fun kv hkv => by
    rw [mem_singleton.mp hkv]
    exact hFlat.2
  have hRead : decodeRecord directoryFields dir.toJson ⟨[], []⟩ = some ⟨dir.entries, []⟩ := by
    have hField := @decodeField_name _ _ directoryFields_distinct 0 _ _ rfl
    exact Decodes.single ((hField _ _).trans hEntries)
  rw [unmarshalDirectory, Directory.marshal,
    unmarshal_marshal hInt (hDepth.trans (by decide)) hRead]
  rfl

/-! ## What is published -/

/-- The path of a file in the record. -/
def slashPath (names : List GoString) : GoString := join names ['/']

theorem walkPath_elems (hRoot : rootPath ≠ []) (hNames : ∀ name ∈ names, IsName name) :
    isRooted (walkPath rootPath names) = isRooted rootPath ∧
      pathElems (walkPath rootPath names) = pathElems rootPath ++ names := by
  induction names generalizing rootPath with
  | nil => exact ⟨rfl, (append_nil _).symm⟩
  | cons name rest ih =>
    obtain ⟨hFirst, hRest⟩ := forall_mem_cons.mp hNames
    have hJoin := pathElems_joinPath hRoot (cons_ne_nil name []) (by simpa using hFirst)
    have hSingle : join [name] ['/'] = name := by simp [join]
    rw [hSingle] at hJoin
    obtain ⟨hNe, hRooted, hElems⟩ := hJoin
    obtain ⟨hRooted', hElems'⟩ := ih hNe hRest
    refine ⟨hRooted'.trans hRooted, ?_⟩
    show pathElems (walkPath (joinPath [rootPath, name]) rest) = _
    rw [hElems', hElems, append_assoc]
    rfl

/-- **The path in the record** does not depend on where the directory is. -/
theorem relPath_walkPath (hRoot : rootPath ≠ []) (hNe : names ≠ [])
    (hNames : ∀ name ∈ names, IsName name) :
    relPath rootPath (walkPath rootPath names) = some (slashPath names) := by
  obtain ⟨hRooted, hElems⟩ := walkPath_elems hRoot hNames
  exact relPath_joined hNe hRooted hElems

/-- The entry of a file. -/
def entryOf (cr : Crypto) (f : List GoString × Bytes) : DirEntry :=
  ⟨slashPath f.1, f.2.length, (cr.contentAddress (manifestOf cr f.2).marshal).hex⟩

/-- The record of a tree. -/
def directoryOf (cr : Crypto) (tree : FileTree) : Directory :=
  ⟨sortEntries (tree.files.map (entryOf cr))⟩

/-- All that `PublishDir` stores. -/
def treeBlobs (cr : Crypto) (tree : FileTree) : List Bytes :=
  tree.files.flatMap (fun f => fileBlobs cr f.2) ++ [(directoryOf cr tree).marshal]

theorem mem_directoryOf {cr : Crypto} {tree : FileTree} :
    e ∈ (directoryOf cr tree).entries ↔ ∃ f ∈ tree.files, e = entryOf cr f := by
  rw [directoryOf, sortEntries, mem_insertionSort, mem_map]
  simp only [eq_comm]

section Publish

variable {cr : Crypto} {put : Putter σ} {s s' : σ} {rootPath : GoString}

theorem publishFile_ok (hRoot : rootPath ≠ []) {f : List GoString × Bytes} (hNe : f.1 ≠ [])
    (hNames : ∀ name ∈ f.1, LegalName name) {entry : DirEntry}
    (h : publishFile cr put rootPath f s = (s', .ok entry)) :
    putAll cr put (fileBlobs cr f.2) s = .ok s' ∧ entry = entryOf cr f := by
  have hRel := relPath_walkPath hRoot hNe fun name hMem => (hNames name hMem).1
  rw [publishFile, hRel] at h
  cases hBytes : publishBytes cr put s f.2 with
  | mk s₁ published =>
    rw [hBytes] at h
    cases published with
    | error e => cases h
    | ok published =>
      obtain ⟨hPut, hManifest, hKey⟩ := publishBytes_ok hBytes
      cases h
      rw [hManifest] at hKey ⊢
      rw [hKey]
      exact ⟨hPut, rfl⟩

theorem publishFiles_ok (hRoot : rootPath ≠ []) {files : List (List GoString × Bytes)}
    (hNamed : ∀ f ∈ files, f.1 ≠ [] ∧ ∀ name ∈ f.1, LegalName name) {entries : List DirEntry}
    (h : publishFiles cr put rootPath files s = (s', .ok entries)) :
    putAll cr put (files.flatMap fun f => fileBlobs cr f.2) s = .ok s' ∧
      entries = files.map (entryOf cr) := by
  induction files generalizing s entries with
  | nil =>
    cases h
    exact ⟨rfl, rfl⟩
  | cons f rest ih =>
    obtain ⟨⟨hNe, hNames⟩, hRest⟩ := forall_mem_cons.mp hNamed
    rw [publishFiles] at h
    split at h
    · cases h
    rename_i s₁ entry hFile
    obtain ⟨hPut, rfl⟩ := publishFile_ok hRoot hNe hNames hFile
    split at h
    · cases h
    rename_i s₂ entries' hFiles
    cases h
    obtain ⟨hAll, rfl⟩ := ih hRest hFiles
    exact ⟨putAll_append hPut hAll, rfl⟩

/-- **What `PublishDir` stores and returns.** -/
theorem publishDir_ok {tree : FileTree} {rootKey : NodeID} {dir : Directory}
    (h : publishDir cr put s rootPath tree = (s', .ok (rootKey, dir))) :
    putAll cr put (treeBlobs cr tree) s = .ok s' ∧ dir = directoryOf cr tree ∧
      rootKey = cr.contentAddress dir.marshal := by
  unfold publishDir at h
  split at h
  · cases h
  rename_i hRoot
  split at h
  · cases h
  rename_i s₁ entries hFiles
  obtain ⟨hAll, rfl⟩ := publishFiles_ok hRoot tree.named hFiles
  dsimp only at h
  split at h
  · cases h
  · rename_i s₂ hPut
    cases h
    exact ⟨putAll_append hAll (putAll_single hPut), rfl, rfl⟩

end Publish

end AltNet
