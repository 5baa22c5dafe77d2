import AltNet.Dht.RevokeSign
import AltNet.Gateway.Serve
import AltNet.Name.Resolve
import AltNet.Registrar.Registry

/-!
# AltNet — revoking a site (`apps/registrar/registrar.go`)

`handleRevoke` resolves a name, walks the directory and the manifests behind it
and revokes every key that it meets. The walk is best effort: what it cannot
fetch it leaves out. It compares keys as texts, and a revoke is normalised
before it is signed and parsed again before it is applied; all the same the
readers of a site ask for no key that the walk has missed.

Main results:

* `Collect.entry_covers` — what one turn of the walk collects, `foldl_entry` for
  all of them;
* `mem_collectChunkHashes` — the walk meets every key of the site;
* `site_revoke_covers` — after `handleRevoke`, all that the readers of the site
  would ask for is blocked and gone.
-/

namespace AltNet

open List

open NodeID (fill)

variable {σ ω : Type} {cr : Crypto}

/-! ## The walk -/

/-- `collectChunkHashes` on its way: the state of the node, the map `seen` and
the list `out`. The calls of `Get` and their results are recorded. -/
structure Collect (σ : Type) where
  node : σ
  seen : Finset GoString
  out : List GoString
  gets : List (NodeID × Except DhtError Bytes)

namespace Collect

/-- Add a text that has not been seen. -/
def add (c : Collect σ) (text : GoString) : Collect σ :=
  if text ∈ c.seen then c
  else { c with seen := insert text c.seen, out := c.out ++ [text] }

/-- Call `Get`. -/
def get (getter : Getter σ) (c : Collect σ) (key : NodeID) : Collect σ × Except DhtError Bytes :=
  ({ c with node := (getter c.node key).1, gets := c.gets ++ [(key, (getter c.node key).2)] },
    (getter c.node key).2)

/-- One turn of the loop over the entries. -/
def entry (getter : Getter σ) (c : Collect σ) (e : DirEntry) : Collect σ :=
  match idFromHex e.manifestKey with
  | none => c
  | some manifestKey =>
    match (c.add manifestKey.hex).get getter manifestKey with
    | (c, .error _) => c
    | (c, .ok blob) =>
      match unmarshalFileManifest blob with
      | none => c
      | some m => m.chunks.foldl add c

/-- Before the directory is fetched. -/
def start (node : σ) (rootKey : NodeID) : Collect σ := ⟨node, {rootKey.hex}, [rootKey.hex], []⟩

/-- Fetch the directory and go through its entries. -/
def directory (getter : Getter σ) (c : Collect σ) (rootKey : NodeID) : Collect σ :=
  match c.get getter rootKey with
  | (c, .error _) => c
  | (c, .ok blob) =>
    match unmarshalDirectory blob with
    | none => c
    | some dir => dir.entries.foldl (entry getter) c

end Collect

/-- What `collectChunkHashes` returns, with the root key that it has found and
the calls of `Get` that it has made. -/
structure Collected (σ : Type) where
  node : σ
  chunks : List GoString
  root : Option NodeID
  gets : List (NodeID × Except DhtError Bytes)

/-- `collectChunkHashes`, from what `Resolve` has returned. -/
def collectChunkHashes (getter : Getter σ) (node : σ) (resolved : Except ResolveError NameRecord) :
    Collected σ :=
  match resolved with
  | .error _ => ⟨node, [], none, []⟩
  | .ok rec =>
    match idFromHex rec.root with
    | none => ⟨node, [], none, []⟩
    | some rootKey =>
      let c := (Collect.start node rootKey).directory getter rootKey
      ⟨c.node, c.out, rootKey, c.gets⟩

/-! ## The handler -/

/-- `Registrar`: the registry and the identity that signs. -/
structure Registrar (cr : Crypto) where
  registry : Registry
  id : Option (Identity cr)

/-- What `Resolve` reads beside the node. -/
structure ResolveEnv where
  codec : RecordCodec
  trusted : Finset GoString
  net : Remote
  order : ValueOrder
  now : Time
  unixNow : Int
  fuel : Nat

/-- `RevokeResponse`, with its status. -/
structure RevokeResponse where
  status : Nat
  name : GoString
  chunkCount : Nat
  ok : Bool
  error : Option SignError
  deriving DecidableEq

/-- What `handleRevoke` leaves behind. -/
structure RevokeOutcome (cr : Crypto) (ω : Type) where
  registrar : Registrar cr
  node : DHT × ω
  collected : Collected (DHT × ω)
  broadcast : Option RevokePayload
  response : RevokeResponse

/-- `handleRevoke`, after the checks of the request. `Get` may do anything with
the node and what is around it; the random bytes may fail to come. -/
def Registrar.handleRevoke (reg : Registrar cr) (getter : Getter (DHT × ω)) (env : ResolveEnv)
    (node : DHT × ω) (name : GoString) (nonceBytes : Option Bytes) (now : Time) :
    Option (RevokeOutcome cr ω) :=
  let canonical := canonicalName name
  (resolve node.1 cr env.codec env.trusted env.net env.order canonical env.now env.unixNow
    env.fuel).map fun resolved =>
      let collected := collectChunkHashes getter (resolved.1, node.2) resolved.2
      let reg := { reg with registry := removeName reg.registry canonical }
      match signRevoke reg.id canonical collected.chunks nonceBytes now with
      | .error e =>
        ⟨reg, collected.node, collected, none, ⟨500, canonical, 0, false, some e⟩⟩
      | .ok payload =>
        ⟨reg, (collected.node.1.applyRevoke payload, collected.node.2), collected, some payload,
          ⟨200, canonical, collected.chunks.length, true, none⟩⟩

/-! ## What the walk collects -/

namespace Collect

variable {getter : Getter σ} {c c' : Collect σ}

/-- All that has been seen is in the list. -/
def Closed (c : Collect σ) : Prop := ∀ text ∈ c.seen, text ∈ c.out

/-- The walk only adds, and stays closed. -/
structure Grows (c c' : Collect σ) : Prop where
  closed : c.Closed → c'.Closed
  out : c.out ⊆ c'.out
  gets : c.gets ⊆ c'.gets

/-- An entry is covered: so is its manifest key, and, if `Get` has returned the
manifest, so are its chunks. -/
def Covers (c : Collect σ) (e : DirEntry) : Prop :=
  ∀ key, idFromHex e.manifestKey = some key → key.hex ∈ c.out ∧
    ∃ result, (key, result) ∈ c.gets ∧
      ∀ blob m, result = .ok blob → unmarshalFileManifest blob = some m → m.chunks ⊆ c.out

theorem Grows.refl (c : Collect σ) : c.Grows c :=
  ⟨id, List.Subset.refl _, List.Subset.refl _⟩

theorem Grows.trans {c'' : Collect σ} (h : c.Grows c') (h' : c'.Grows c'') : c.Grows c'' :=
  ⟨fun hc => h'.closed (h.closed hc), List.Subset.trans h.out h'.out,
    List.Subset.trans h.gets h'.gets⟩

theorem Covers.mono {e : DirEntry} (h : c.Covers e) (hGrows : c.Grows c') : c'.Covers e := by
  intro key hKey
  obtain ⟨hMem, result, hGot, hChunks⟩ := h key hKey
  refine ⟨hGrows.out hMem, result, hGrows.gets hGot, fun blob m hBlob hm => ?_⟩
  exact List.Subset.trans (hChunks blob m hBlob hm) hGrows.out

theorem add_grows (c : Collect σ) (text : GoString) : c.Grows (c.add text) := by
  unfold add
  split
  · exact Grows.refl c
  refine ⟨fun hc t ht => ?_, subset_append_left _ _, List.Subset.refl _⟩
  rcases Finset.mem_insert.mp ht with rfl | hOld
  · exact mem_append_right _ (mem_singleton_self t)
  · exact mem_append_left _ (hc t hOld)

theorem mem_add (hc : c.Closed) (text : GoString) : text ∈ (c.add text).out := by
  unfold add
  split
  · rename_i hSeen
    exact hc text hSeen
  · exact mem_append_right _ (mem_singleton_self text)

theorem foldl_add (texts : List GoString) (hc : c.Closed) :
    c.Grows (texts.foldl add c) ∧ texts ⊆ (texts.foldl add c).out := by
  induction texts generalizing c with
  | nil => exact ⟨Grows.refl c, nil_subset _⟩
  | cons text rest ih =>
    have hGrows := c.add_grows text
    obtain ⟨hRest, hMem⟩ := ih (hGrows.closed hc)
    exact ⟨hGrows.trans hRest, cons_subset.mpr ⟨hRest.out (mem_add hc text), hMem⟩⟩

theorem get_grows (getter : Getter σ) (c : Collect σ) (key : NodeID) :
    c.Grows (c.get getter key).1 :=
  ⟨id, List.Subset.refl _, subset_append_left _ _⟩

/-- **One turn of the walk.** It covers its entry. -/
theorem entry_covers (hc : c.Closed) (e : DirEntry) :
    c.Grows (c.entry getter e) ∧ (c.entry getter e).Covers e := by
  unfold entry
  split
  · rename_i hKey
    exact ⟨Grows.refl c, fun key h => by cases hKey.symm.trans h⟩
  rename_i manifestKey hKey
  have hAdd := c.add_grows manifestKey.hex
  have hGet := (c.add manifestKey.hex).get_grows getter manifestKey
  have hMem := hGet.out (mem_add hc manifestKey.hex)
  have hGot : (manifestKey, ((c.add manifestKey.hex).get getter manifestKey).2) ∈
      ((c.add manifestKey.hex).get getter manifestKey).1.gets :=
    mem_append_right _ (mem_singleton_self _)
  have hGrows := hAdd.trans hGet
  -- From here on only what `Get` has returned matters.
  generalize (c.add manifestKey.hex).get getter manifestKey = r at hGrows hMem hGot
  obtain ⟨c', result⟩ := r
  have hSame : ∀ key, idFromHex e.manifestKey = some key → key = manifestKey :=
    fun key h => Option.some.inj (h.symm.trans hKey)
  cases result with
  | error err =>
    refine ⟨hGrows, fun key h => ?_⟩
    obtain rfl := hSame key h
    exact ⟨hMem, _, hGot, fun blob m hBlob => by cases hBlob⟩
  | ok blob =>
    dsimp only
    split
    · rename_i hNone
      refine ⟨hGrows, fun key h => ?_⟩
      obtain rfl := hSame key h
      refine ⟨hMem, _, hGot, fun blob' m hBlob hm => ?_⟩
      cases hBlob
      cases hNone.symm.trans hm
    · rename_i m hm
      obtain ⟨hChunks, hAll⟩ := foldl_add m.chunks (hGrows.closed hc)
      refine ⟨hGrows.trans hChunks, fun key h => ?_⟩
      obtain rfl := hSame key h
      refine ⟨hChunks.out hMem, _, hChunks.gets hGot, fun blob' m' hBlob hm' => ?_⟩
      cases hBlob
      cases hm.symm.trans hm'
      exact hAll

/-- The whole walk. -/
theorem foldl_entry (entries : List DirEntry) (hc : c.Closed) :
    c.Grows (entries.foldl (entry getter) c) ∧
      ∀ e ∈ entries, (entries.foldl (entry getter) c).Covers e := by
  induction entries generalizing c with
  | nil => exact ⟨Grows.refl c, fun e he => by cases he⟩
  | cons e rest ih =>
    obtain ⟨hGrows, hCovers⟩ := entry_covers hc e
    obtain ⟨hRest, hAll⟩ := ih (hGrows.closed hc)
    refine ⟨hGrows.trans hRest, fun e' he' => ?_⟩
    rcases mem_cons.mp he' with rfl | hLater
    · exact hCovers.mono hRest
    · exact hAll e' hLater

theorem start_closed (node : σ) (rootKey : NodeID) : (start node rootKey).Closed := by
  intro text hText
  rw [Finset.mem_singleton.mp hText]
  exact mem_singleton_self _

/-- The walk from the directory on. -/
theorem directory_covers (getter : Getter σ) (hc : c.Closed) (rootKey : NodeID) :
    c.Grows (c.directory getter rootKey) ∧
      ∃ result, (rootKey, result) ∈ (c.directory getter rootKey).gets ∧
        ∀ blob dir, result = .ok blob → unmarshalDirectory blob = some dir →
          ∀ e ∈ dir.entries, (c.directory getter rootKey).Covers e := by
  have hGrows := c.get_grows getter rootKey
  have hGot : (rootKey, (c.get getter rootKey).2) ∈ (c.get getter rootKey).1.gets :=
    mem_append_right _ (mem_singleton_self _)
  unfold directory
  generalize c.get getter rootKey = r at hGrows hGot
  obtain ⟨c', _ | blob⟩ := r
  · exact ⟨hGrows, _, hGot, fun blob dir hBlob => by cases hBlob⟩
  · dsimp only
    split
    · rename_i hNone
      refine ⟨hGrows, _, hGot, fun blob' dir hBlob hDir => ?_⟩
      cases hBlob
      cases hNone.symm.trans hDir
    · rename_i dir hDir
      obtain ⟨hWalk, hAll⟩ := foldl_entry dir.entries (hGrows.closed hc)
      refine ⟨hGrows.trans hWalk, _, hWalk.gets hGot, fun blob' dir' hBlob hDir' => ?_⟩
      cases hBlob
      cases hDir.symm.trans hDir'
      exact hAll

end Collect

variable {content : NodeID → Except DhtError Bytes} {getter : Getter σ} {root key : NodeID}
  {name : GoString} {node : σ} {resolved : Except ResolveError NameRecord}

/-- What the walk has when it has found a root. -/
theorem collectChunkHashes_root
    (hRoot : (collectChunkHashes getter node resolved).root = some root) :
    ∃ c : Collect σ, collectChunkHashes getter node resolved = ⟨c.node, c.out, root, c.gets⟩ ∧
      root.hex ∈ c.out ∧ ∃ result, (root, result) ∈ c.gets ∧
        ∀ blob dir, result = .ok blob → unmarshalDirectory blob = some dir →
          ∀ e ∈ dir.entries, c.Covers e := by
  unfold collectChunkHashes at hRoot ⊢
  split at hRoot
  · cases hRoot
  split at hRoot
  · cases hRoot
  rename_i rootKey _
  obtain rfl : rootKey = root := Option.some.inj hRoot
  obtain ⟨hGrows, hGot⟩ :=
    Collect.directory_covers getter (Collect.start_closed node rootKey) rootKey
  exact ⟨_, rfl, hGrows.out (mem_singleton_self _), hGot⟩

/-- **The walk meets every key of the site**, if every `Get` that it makes
succeeds: a text of it is in the list. The readers may read at another time, as
long as they are not given other values. -/
theorem mem_collectChunkHashes
    (hRoot : (collectChunkHashes getter node resolved).root = some root)
    (hGets : ∀ g ∈ (collectChunkHashes getter node resolved).gets, ∃ v, g.2 = .ok v)
    (hContent : ∀ g ∈ (collectChunkHashes getter node resolved).gets, ∀ v w, g.2 = .ok v →
      content g.1 = .ok w → w = v) (hKey : SiteKey content root key) :
    ∃ text ∈ (collectChunkHashes getter node resolved).chunks, idFromHex text = some key := by
  obtain ⟨c, hEq, hMem, result, hGot, hEntries⟩ := collectChunkHashes_root hRoot
  rw [hEq] at hGets hContent ⊢
  dsimp only at hGets hContent ⊢
  -- What was got for a key is what the readers are given for it.
  have hSame : ∀ {k : NodeID} {r : Except DhtError Bytes} {w : Bytes}, (k, r) ∈ c.gets →
      content k = .ok w → r = .ok w := by
    intro k r w hr hw
    obtain ⟨v, hv⟩ := hGets (k, r) hr
    rw [hContent (k, r) hr v w hv hw]
    exact hv
  cases hKey with
  | root => exact ⟨root.hex, hMem, idFromHex_hex root⟩
  | manifest hBlob hDir he hParse =>
    exact ⟨key.hex, (hEntries _ _ (hSame hGot hBlob) hDir _ he key hParse).1, idFromHex_hex key⟩
  | chunk hBlob hDir he hParse hBlob' hm hc hChunk =>
    obtain ⟨-, r, hGot', hChunks⟩ := hEntries _ _ (hSame hGot hBlob) hDir _ he _ hParse
    exact ⟨_, hChunks _ _ (hSame hGot' hBlob') hm hc, hChunk⟩

/-! ## The site is gone -/

/-- What the readers of a site ask for, when they are given these values: the
gateway for any path, `FetchBytes` and a reader for any entry of the
directory. -/
inductive Requested (content : NodeID → Except DhtError Bytes) (root key : NodeID) : Prop
  | gateway (mime : Mime) (subPath : GoString) (ops : List ReaderOp) :
      key ∈ (serveFromRoot mime (loggedGetter content) [] root subPath ops).1 →
      Requested content root key
  | fetchBytes {blob : Bytes} {dir : Directory} {e : DirEntry} {manifestKey : NodeID} :
      content root = .ok blob → unmarshalDirectory blob = some dir → e ∈ dir.entries →
      idFromHex e.manifestKey = some manifestKey →
      key ∈ (AltNet.fetchBytes (loggedGetter content) [] manifestKey).1 →
      Requested content root key
  | reader {blob : Bytes} {dir : Directory} {e : DirEntry} {manifestKey : NodeID}
      {log : List NodeID} {reader : ChunkReader} (ops : List ReaderOp) :
      content root = .ok blob → unmarshalDirectory blob = some dir → e ∈ dir.entries →
      idFromHex e.manifestKey = some manifestKey →
      newChunkReader (loggedGetter content) [] manifestKey = (log, .ok reader) →
      key ∈ (reader.applyAll (loggedGetter content) ops log).1 →
      Requested content root key

theorem loggedGetter_answers (content : NodeID → Except DhtError Bytes) (P : NodeID → Prop) :
    Answers (loggedGetter content) (fun log => ∀ key ∈ log, P key) P content := by
  intro log key hLog hKey
  refine ⟨fun k hk => ?_, rfl⟩
  rcases mem_append.mp hk with hOld | hNew
  · exact hLog k hOld
  · rw [mem_singleton.mp hNew]
    exact hKey

/-- The readers ask for keys of the site only. -/
theorem Requested.siteKey (h : Requested content root key) : SiteKey content root key := by
  have hAnswers := loggedGetter_answers content (SiteKey content root)
  have hNone : ∀ k ∈ ([] : List NodeID), SiteKey content root k := fun k hk => by cases hk
  cases h with
  | gateway mime subPath ops hMem =>
    exact serveFromRoot_keeps hAnswers mime subPath ops hNone key hMem
  | fetchBytes hBlob hDir he hParse hMem =>
    refine (fetchBytes_answers hAnswers (.manifest hBlob hDir he hParse) ?_ hNone).1 key hMem
    exact fun blob' m hBlob' hm c hc k hk => .chunk hBlob hDir he hParse hBlob' hm hc hk
  | reader ops hBlob hDir he hParse hNew hMem =>
    obtain ⟨hLog, hManifest⟩ :=
      newChunkReader_keeps hAnswers (.manifest hBlob hDir he hParse) hNone
    rw [hNew] at hLog hManifest
    obtain ⟨blob', hBlob', hm⟩ := hManifest _ rfl
    refine ChunkReader.applyAll_keeps hAnswers ops ?_ hLog key hMem
    exact fun c hc k hk => .chunk hBlob hDir he hParse hBlob' hm hc hk

/-- A name that `Resolve` accepts is not blank. -/
theorem trimSpace_ne_nil_of_validName (h : validName name = none) : trimSpace name ≠ [] := by
  intro hBlank
  have hEmpty : canonicalName name = [] := by
    rw [canonicalName, hBlank]
    rfl
  rw [validName] at h
  simp [hEmpty] at h

theorem validName_of_resolve {d d' : DHT} {codec : RecordCodec} {trusted : Finset GoString}
    {net : Remote} {order : ValueOrder} {now : Time} {unixNow : Int} {fuel : Nat}
    {rec : NameRecord}
    (h : resolve d cr codec trusted net order name now unixNow fuel = some (d', .ok rec)) :
    validName name = none := by
  unfold resolve at h
  split at h
  · cases h
  · assumption

theorem collectChunkHashes_resolved
    (hRoot : (collectChunkHashes getter node resolved).root = some root) :
    ∃ rec, resolved = .ok rec := by
  cases resolved with
  | error e => cases hRoot
  | ok rec => exact ⟨rec, rfl⟩

/-- A payload in normal form revokes what its chunks denote. -/
theorem mem_revokedIDs_signedRevoke (id : Identity cr) (name : GoString) {chunks : List GoString}
    (nonceBytes : Bytes) (now : Time) {text : GoString} (hText : text ∈ chunks)
    (hKey : idFromHex text = some key) :
    key ∈ (signedRevoke id name chunks nonceBytes now).revokedIDs := by
  have hNormal : normalise text ∈ sortStrings (chunks.map normalise) :=
    mem_sortStrings.mpr (mem_map_of_mem hText)
  exact mem_filterMap.mpr ⟨normalise text, hNormal, (idFromHex_eq_some_iff.mp hKey).2⟩

/-- **A site revoke covers the site.** `handleRevoke` comes to its end for a
name that resolves to a root key, and every `Get` that it makes succeeds. Then
it has signed a revoke, and every key that a reader of the site asks for, in
whatever case and however often the directory and the manifests list it, is
blocked on the node and absent from its store. The readers are given the
content that the walk was given, or nothing. -/
theorem site_revoke_covers (reg : Registrar cr) (id : Identity cr) (hId : reg.id = some id)
    (getter : Getter (DHT × ω)) (env : ResolveEnv) (node : DHT × ω) (name : GoString)
    (nonceBytes : Bytes) (now : Time) (out : RevokeOutcome cr ω)
    (hRun : reg.handleRevoke getter env node name (some nonceBytes) now = some out)
    (root : NodeID) (hRoot : out.collected.root = some root)
    (hGets : ∀ g ∈ out.collected.gets, ∃ v, g.2 = .ok v)
    (content : NodeID → Except DhtError Bytes)
    (hContent : ∀ g ∈ out.collected.gets, ∀ v w, g.2 = .ok v → content g.1 = .ok w → w = v) :
    out.response.ok = true ∧ ∀ key, Requested content root key →
      out.node.1.isBlocked key = true ∧ out.node.1.store.data.lookup key.hex = none := by
  obtain ⟨⟨d, resolved⟩, hResolve, hOut⟩ := Option.map_eq_some_iff.mp hRun
  dsimp only at hOut
  have hCollected : out.collected = collectChunkHashes getter (d, node.2) resolved := by
    rw [← hOut]
    split <;> rfl
  rw [hCollected] at hRoot hGets hContent
  obtain ⟨rec, rfl⟩ := collectChunkHashes_resolved hRoot
  have hName := trimSpace_ne_nil_of_validName (validName_of_resolve hResolve)
  -- The name is not blank and there is an identity, so the revoke is signed.
  rw [hId, signRevoke, if_neg hName] at hOut
  subst hOut
  refine ⟨rfl, fun key hKey => ?_⟩
  obtain ⟨text, hText, hParse⟩ :=
    mem_collectChunkHashes hRoot hGets hContent hKey.siteKey
  have hMem := mem_revokedIDs_signedRevoke id (canonicalName name) nonceBytes now hText hParse
  refine ⟨DHT.applyRevoke_isBlocked hMem, ?_⟩
  rw [DHT.applyRevoke_lookup, if_pos ⟨key, hMem, rfl⟩]

/-- A site of one file of one chunk; the manifest and the directory write their
keys in capitals. -/
def siteContent (key : NodeID) : Except DhtError Bytes :=
  if key = fill 5 then
    .ok (utf8
      ("\x7b\"entries\":[\x7b\"path\":\"index.html\",\"size\":1,\"manifest_key\":\"".toList ++
      List.replicate 64 'A' ++ "\"\x7d]\x7d".toList))
  else if key = fill 0xaa then
    .ok (utf8 ("\x7b\"size\":1,\"chunks\":[\"".toList ++ List.replicate 64 'C' ++
      "\"]\x7d".toList))
  else .error .notFound

/-- A codec that reads every blob as a record for `a.alt` that points to the
site. -/
def siteCodec : RecordCodec where
  marshal := fun _ => []
  unmarshal := fun _ => some
    { name := "a.alt".toList, publicKey := (fill 0).hex, root := (fill 5).hex,
      version := 1, timestamp := 0, ttl := 0, sig := [] }

/-- A node that holds the record and the chunk. -/
def siteNode : DHT :=
  let d := DHT.new (fill 1) 0 0
  { d with store := ((d.store.put [] (recordKey firstByte "a.alt".toList) [1] [] 0).1.put []
      (fill 0xcc) [2] [] 0).1 }

def siteEnv : ResolveEnv := ⟨siteCodec, ∅, steadyNet fun _ => .failed, sortedValues, 0, 0, 1⟩

def siteRevoke : Option (RevokeOutcome firstByte Unit) :=
  Registrar.handleRevoke ⟨∅, some sampleIdentity⟩ (fun s key => (s, siteContent key)) siteEnv
    (siteNode, ()) "A.alt.".toList (some []) 0

/-- The theorem on this site: its chunk was there, a reader asks for it, and
the revoke takes it. -/
theorem site_revoke_covers_chunk :
    siteNode.store.data.lookup (fill 0xcc).hex = some [2] ∧
    Requested siteContent (fill 5) (fill 0xcc) ∧
    ∃ out, siteRevoke = some out ∧ out.response.ok = true ∧
      out.node.1.isBlocked (fill 0xcc) = true ∧
      out.node.1.store.data.lookup (fill 0xcc).hex = none := by
  have hAsked : Requested siteContent (fill 5) (fill 0xcc) :=
    .gateway ⟨fun _ => [], fun _ => []⟩ [] [] (by decide +kernel)
  have hRuns : siteRevoke.any (fun out => out.collected.root = some (fill 5) ∧
      out.collected.gets.all (fun g => g.2 = siteContent g.1 ∧ g.2.isOk)) = true := by
    decide +kernel
  obtain ⟨out, hRun, hAll⟩ := (Option.any_eq_true _ _).mp hRuns
  obtain ⟨hRoot, hGets⟩ := of_decide_eq_true hAll
  have hGot : ∀ g ∈ out.collected.gets, g.2 = siteContent g.1 ∧ g.2.isOk = true :=
    fun g hg => of_decide_eq_true (all_eq_true.mp hGets g hg)
  have hOk : ∀ g ∈ out.collected.gets, ∃ v, g.2 = .ok v := by
    intro g hg
    obtain ⟨key, _ | v⟩ := g
    · exact absurd (hGot _ hg).2 (by simp [Except.isOk, Except.toBool])
    · exact ⟨v, rfl⟩
  have hSame : ∀ g ∈ out.collected.gets, ∀ v w, g.2 = .ok v → siteContent g.1 = .ok w → w = v := by
    intro g hg v w hv hw
    rw [← (hGot g hg).1, hv] at hw
    exact (Except.ok.inj hw).symm
  obtain ⟨hResponse, hGone⟩ := site_revoke_covers ⟨∅, some sampleIdentity⟩ sampleIdentity rfl
    (fun s key => (s, siteContent key)) siteEnv (siteNode, ()) "A.alt.".toList [] 0 out hRun
    (fill 5) hRoot hOk siteContent hSame
  exact ⟨by decide +kernel, hAsked, out, hRun, hResponse, hGone _ hAsked⟩

end AltNet
