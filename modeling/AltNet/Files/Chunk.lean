import AltNet.Dht.Lookup
import AltNet.Lib.JsonSize

/-!
# AltNet — files in chunks (`apps/files/chunk.go`)

A file is cut into chunks of `ChunkSize` bytes, each stored under its hash, and
a manifest with the size of the file and the hashes of its chunks is stored
under its own hash. `FetchBytes` goes the other way.

The file layer calls the DHT through `Get` and `StoreLocal` only. Here they are
parameters, over any state: a `Getter` is what `Get` does in a state, and a
`Putter` what `StoreLocal` does.

Main results:

* `unmarshalFileManifest_marshal` — a manifest is read back;
* `flatten_dataChunks` — the chunks of a file are the file;
* `FileManifest.fetch_ok_iff` — when `FetchBytes` returns a file, and which.
-/

namespace AltNet

open List

variable {σ : Type}

/-- `Get`, in a state. -/
abbrev Getter (σ : Type) := σ → NodeID → σ × Except DhtError Bytes

/-- `StoreLocal`, in a state. -/
abbrev Putter (σ : Type) := σ → NodeID → Bytes → Except DhtError σ

/-- What is around a node while it looks up one value. -/
structure GetEnv where
  net : Remote
  order : List GoString
  now : Time
  later : Time
  fuel : Nat

/-- `Get` of a node, with what will be around it at each call. A lookup that
runs out of rounds finds nothing. -/
def DHT.getter (cr : Crypto) : Getter (DHT × Stream' GetEnv) := fun s key =>
  match s.1.getInner cr s.2.head.net key true s.2.head.order s.2.head.now s.2.head.later
      s.2.head.fuel with
  | none => ((s.1, s.2.tail), .error .notFound)
  | some l => ((l.dht, s.2.tail), l.result)

/-- What is around a node while it stores one value. -/
structure PutEnv where
  order : List GoString
  now : Time

/-- `StoreLocal` of a node, with what will be around it at each call. -/
def DHT.putter : Putter (DHT × Stream' PutEnv) := fun s key value =>
  (s.1.storeLocal key value s.2.head.order s.2.head.now).map fun d => (d, s.2.tail)

/-- A DHT that holds these values and nothing else, for ever. -/
def fixedGetter (content : NodeID → Except DhtError Bytes) : Getter Unit :=
  fun _ key => ((), content key)

/-- The same, with a log of the keys that are asked for. -/
def loggedGetter (content : NodeID → Except DhtError Bytes) : Getter (List NodeID) :=
  fun log key => (log ++ [key], content key)

/-! ## Manifests -/

/-- `ChunkSize`. -/
def chunkSize : Nat := 64 * 1024

/-- `FileManifest`. -/
structure FileManifest where
  size : Int
  chunks : List GoString
  deriving DecidableEq

/-- The fields of a manifest, with what lies beyond its chunks in memory. -/
def manifestFields : FieldTable (FileManifest × List GoString) :=
  [("size".toList, fun j a => (decodeInt64 j a.1.size).map fun n => ({ a.1 with size := n }, a.2)),
   ("chunks".toList, fun j a =>
      (decodeTexts j a.1.chunks a.2).map fun d => ({ a.1 with chunks := d.live }, d.stale))]

def FileManifest.toJson (m : FileManifest) : Json :=
  .obj [("size".toList, .num (formatInt m.size)), ("chunks".toList, textsJson m.chunks)]

/-- `FileManifest.Marshal`, of a manifest whose chunks are not `nil`. -/
def FileManifest.marshal (m : FileManifest) : Bytes := AltNet.marshal m.toJson

/-- `UnmarshalFileManifest`. -/
def unmarshalFileManifest (data : Bytes) : Option FileManifest :=
  (unmarshal manifestFields (⟨0, []⟩, []) data).map Prod.fst

/-- The errors of `PublishBytes` and `FetchBytes`. The last two are the panics of
`make` and of `append` for a capacity that no slice can have. -/
inductive FileError where
  | storeChunk (i : Nat) (e : DhtError)
  | storeManifest (e : DhtError)
  | fetchManifest (e : DhtError)
  | malformedManifest
  | badKey (i : Nat) (hexKey : GoString)
  | fetchChunk (i : Nat) (hexKey : GoString) (e : DhtError)
  | sizeMismatch
  | makeslice
  | growslice
  deriving DecidableEq

/-! ## Publishing -/

/-- The pieces `data[offset:end]` of the loop of `PublishBytes`. -/
def dataChunks (data : Bytes) : List Bytes :=
  (List.range ((data.length + chunkSize - 1) / chunkSize)).map fun i =>
    (data.drop (i * chunkSize)).take chunkSize

/-- The loop of `PublishBytes`, from its `i`-th turn on. -/
def publishChunks (cr : Crypto) (put : Putter σ) : Nat → List Bytes → σ →
    σ × Except FileError (List GoString)
  | _, [], s => (s, .ok [])
  | i, chunk :: rest, s =>
    match put s (cr.contentAddress chunk) chunk with
    | .error e => (s, .error (.storeChunk i e))
    | .ok s =>
      match publishChunks cr put (i + 1) rest s with
      | (s, .error e) => (s, .error e)
      | (s, .ok keys) => (s, .ok ((cr.contentAddress chunk).hex :: keys))

/-- `PublishBytes`. -/
def publishBytes (cr : Crypto) (put : Putter σ) (s : σ) (data : Bytes) :
    σ × Except FileError (FileManifest × NodeID) :=
  match publishChunks cr put 0 (dataChunks data) s with
  | (s, .error e) => (s, .error e)
  | (s, .ok keys) =>
    let manifest : FileManifest := ⟨data.length, keys⟩
    let blob := manifest.marshal
    match put s (cr.contentAddress blob) blob with
    | .error e => (s, .error (.storeManifest e))
    | .ok s => (s, .ok (manifest, cr.contentAddress blob))

/-! ## Fetching -/

/-- The loop of `FetchBytes`, from its `i`-th turn on. -/
def fetchChunks (get : Getter σ) : Nat → List GoString → Bytes → σ → σ × Except FileError Bytes
  | _, [], out, s => (s, .ok out)
  | i, hexKey :: rest, out, s =>
    match idFromHex hexKey with
    | none => (s, .error (.badKey i hexKey))
    | some key =>
      match get s key with
      | (s, .error e) => (s, .error (.fetchChunk i hexKey e))
      | (s, .ok chunk) => fetchChunks get (i + 1) rest (out ++ chunk) s

/-- The largest capacity of a slice of bytes. -/
def maxAlloc : Int := 2 ^ 48

/-- `FetchBytes` from the line on that allocates the result. -/
def FileManifest.fetch (get : Getter σ) (m : FileManifest) (s : σ) : σ × Except FileError Bytes :=
  if m.size < 0 ∨ maxAlloc < m.size then (s, .error .makeslice)
  else
    match fetchChunks get 0 m.chunks [] s with
    | (s, .error e) => (s, .error e)
    | (s, .ok out) =>
      if (out.length : Int) ≠ m.size then (s, .error .sizeMismatch) else (s, .ok out)

/-- `FetchBytes`. -/
def fetchBytes (get : Getter σ) (s : σ) (manifestKey : NodeID) : σ × Except FileError Bytes :=
  match get s manifestKey with
  | (s, .error e) => (s, .error (.fetchManifest e))
  | (s, .ok blob) =>
    match unmarshalFileManifest blob with
    | none => (s, .error .malformedManifest)
    | some m => m.fetch get s

/-! ## States that answer from a fixed content -/

/-- In a state with `I`, the keys in `P` are answered from `content`, and the
state keeps `I`. -/
def Answers (get : Getter σ) (I : σ → Prop) (P : NodeID → Prop)
    (content : NodeID → Except DhtError Bytes) : Prop :=
  ∀ s key, I s → P key → I (get s key).1 ∧ (get s key).2 = content key

/-- All keys that a manifest points to are in `P`. -/
def FileManifest.Within (m : FileManifest) (P : NodeID → Prop) : Prop :=
  ∀ c ∈ m.chunks, ∀ key, idFromHex c = some key → P key

section Answers

variable {get : Getter σ} {I : σ → Prop} {P : NodeID → Prop}
  {content : NodeID → Except DhtError Bytes}

variable (h : Answers get I P content)

include h

theorem fetchChunks_answers {keys : List GoString}
    (hKeys : ∀ c ∈ keys, ∀ key, idFromHex c = some key → P key) (i : Nat) (out : Bytes) {s : σ}
    (hs : I s) :
    I (fetchChunks get i keys out s).1 ∧
      (fetchChunks get i keys out s).2 = (fetchChunks (fixedGetter content) i keys out ()).2 := by
  induction keys generalizing i out s with
  | nil => exact ⟨hs, rfl⟩
  | cons c rest ih =>
    rw [fetchChunks, fetchChunks]
    cases hKey : idFromHex c with
    | none => exact ⟨hs, rfl⟩
    | some key =>
      obtain ⟨hs', hAnswer⟩ := h s key hs (hKeys c mem_cons_self key hKey)
      have hRest := fun out => ih (fun c hc => hKeys c (mem_cons_of_mem _ hc)) (i + 1) out hs'
      simp only [fixedGetter, ← hAnswer]
      generalize get s key = r at hs' hRest
      obtain ⟨s', _ | chunk⟩ := r
      · exact ⟨hs', rfl⟩
      · exact hRest (out ++ chunk)

theorem FileManifest.fetch_answers {m : FileManifest} (hWithin : m.Within P) {s : σ} (hs : I s) :
    I (m.fetch get s).1 ∧ (m.fetch get s).2 = (m.fetch (fixedGetter content) ()).2 := by
  obtain ⟨hLoop, hSame⟩ := fetchChunks_answers h hWithin 0 [] hs
  unfold fetch
  generalize fetchChunks get 0 m.chunks [] s = r at hLoop hSame
  generalize fetchChunks (fixedGetter content) 0 m.chunks [] () = r' at hSame
  obtain ⟨s', out⟩ := r
  obtain ⟨_, out'⟩ := r'
  dsimp only at hLoop hSame
  subst hSame
  split
  · exact ⟨hs, rfl⟩
  cases out with
  | error e => exact ⟨hLoop, rfl⟩
  | ok out =>
    dsimp only
    split
    · exact ⟨hLoop, rfl⟩
    · exact ⟨hLoop, rfl⟩

/-- `FetchBytes` does not notice which state answers. -/
theorem fetchBytes_answers {manifestKey : NodeID} (hKey : P manifestKey)
    (hWithin : ∀ blob m, content manifestKey = .ok blob → unmarshalFileManifest blob = some m →
      m.Within P) {s : σ} (hs : I s) :
    I (fetchBytes get s manifestKey).1 ∧
      (fetchBytes get s manifestKey).2 = (fetchBytes (fixedGetter content) () manifestKey).2 := by
  obtain ⟨hs', hAnswer⟩ := h s manifestKey hs hKey
  rw [← hAnswer] at hWithin
  unfold fetchBytes
  simp only [fixedGetter, ← hAnswer]
  generalize get s manifestKey = r at hs' hWithin
  obtain ⟨s', _ | blob⟩ := r
  · exact ⟨hs', rfl⟩
  · dsimp only
    cases hManifest : unmarshalFileManifest blob with
    | none => exact ⟨hs', rfl⟩
    | some m => exact m.fetch_answers h (hWithin blob m rfl hManifest) hs'

end Answers

/-! ## A manifest is read back -/

theorem manifestFields_distinct : manifestFields.Distinct := by decide +kernel

theorem FileManifest.toJson_flat (m : FileManifest) :
    m.toJson.Integral ∧ m.toJson.depth ≤ 2 := by
  have hFields : ∀ kv ∈ [("size".toList, Json.num (formatInt m.size)),
      ("chunks".toList, textsJson m.chunks)], kv.2.Integral ∧ kv.2.depth ≤ 1 := by
    intro kv hkv
    simp only [mem_cons, not_mem_nil, or_false] at hkv
    rcases hkv with rfl | rfl
    · exact ⟨Json.integral_num _, Nat.zero_le 1⟩
    · exact textsJson_flat _
  exact ⟨Json.integral_obj fun kv hkv => (hFields kv hkv).1,
    Json.depth_obj_le fun kv hkv => (hFields kv hkv).2⟩

variable {content : NodeID → Except DhtError Bytes} {cr : Crypto} {data : Bytes}
  {m : FileManifest}

/-- **A manifest survives its JSON text.** -/
theorem unmarshalFileManifest_marshal (hSize : IsInt64 m.size) :
    unmarshalFileManifest m.marshal = some m := by
  have hName := @decodeField_name _ _ manifestFields_distinct
  have hFirst : Decodes manifestFields [("size".toList, .num (formatInt m.size))]
      (⟨0, []⟩, []) (⟨m.size, []⟩, []) := by
    refine .single ?_
    rw [hName 0 rfl, decodeInt64_formatInt hSize]
    rfl
  have hSecond : Decodes manifestFields [("chunks".toList, textsJson m.chunks)]
      (⟨m.size, []⟩, []) (m, []) := by
    refine .single ?_
    rw [hName 1 rfl, decodeTexts_textsJson]
    rfl
  have hRead : decodeRecord manifestFields m.toJson (⟨0, []⟩, []) = some (m, []) :=
    hFirst.append hSecond
  rw [unmarshalFileManifest, FileManifest.marshal,
    unmarshal_marshal m.toJson_flat.1 (m.toJson_flat.2.trans (by decide)) hRead]
  rfl

/-- The text of a manifest is longer than its list of chunks. -/
theorem FileManifest.length_chunks_le (m : FileManifest) : m.chunks.length ≤ m.marshal.length := by
  have hItems : ∀ texts : List GoString, texts.length ≤
      ((texts.map Json.str).map fun j => cost Char.utf8Size j.render + 1).sum := by
    intro texts
    induction texts with
    | nil => exact Nat.le_refl 0
    | cons t rest ih =>
      simp only [map_cons, sum_cons, length_cons]
      omega
  have hTexts : m.chunks.length ≤ cost Char.utf8Size (textsJson m.chunks).render := by
    rw [textsJson, cost_arr structural_utf8Size]
    have := hItems m.chunks
    split
    · rename_i hNil
      rw [map_eq_nil_iff.mp hNil]
      exact Nat.zero_le _
    · omega
  rw [FileManifest.marshal, length_marshal, FileManifest.toJson,
    cost_obj structural_utf8Size (by simp)]
  simp only [fieldsCost_cons, fieldsCost_nil]
  omega

/-! ## Chunks -/

theorem flatten_pieces (data : Bytes) (k n : Nat) :
    ((List.range n).map fun i => (data.drop (i * k)).take k).flatten = data.take (n * k) := by
  induction n with
  | zero => simp
  | succ n ih =>
    rw [range_succ, map_append, flatten_append, ih, Nat.succ_mul, take_add]
    simp

/-- **The chunks of a file are the file.** -/
theorem flatten_dataChunks (data : Bytes) : (dataChunks data).flatten = data := by
  rw [dataChunks, flatten_pieces]
  refine take_of_length_le ?_
  have hCeil := Nat.div_add_mod (data.length + chunkSize - 1) chunkSize
  have hMod := Nat.mod_lt (data.length + chunkSize - 1) (show 0 < chunkSize by decide)
  rw [Nat.mul_comm]
  unfold chunkSize at *
  omega

theorem length_le_of_dataChunks (data : Bytes) :
    data.length ≤ (dataChunks data).length * chunkSize := by
  have hPieces : ∀ chunks : List Bytes, (∀ c ∈ chunks, c.length ≤ chunkSize) →
      chunks.flatten.length ≤ chunks.length * chunkSize := by
    intro chunks hChunks
    induction chunks with
    | nil => exact Nat.zero_le _
    | cons c rest ih =>
      obtain ⟨hFirst, hRest⟩ := forall_mem_cons.mp hChunks
      rw [flatten_cons, length_append, length_cons, Nat.succ_mul]
      have := ih hRest
      omega
  have hLength := hPieces (dataChunks data) fun c hc => by
    obtain ⟨i, -, rfl⟩ := mem_map.mp hc
    exact length_take_le _ _
  rwa [flatten_dataChunks] at hLength

theorem length_dataChunks (data : Bytes) :
    (dataChunks data).length = (data.length + chunkSize - 1) / chunkSize := by
  rw [dataChunks, length_map, length_range]

/-- **All chunks but the last are full**, and the last is not empty. -/
theorem dataChunks_full {c : Bytes} {i : Nat} (h : (dataChunks data)[i]? = some c) :
    (i + 1 < (dataChunks data).length → c.length = chunkSize) ∧
      0 < c.length ∧ c.length ≤ chunkSize := by
  obtain ⟨hi, -⟩ := List.getElem?_eq_some_iff.mp h
  rw [length_dataChunks] at hi ⊢
  rw [dataChunks, getElem?_map, getElem?_range hi] at h
  cases h
  rw [length_take, length_drop]
  unfold chunkSize at *
  omega

/-- The value behind the text of a key. -/
def chunkOf (content : NodeID → Except DhtError Bytes) (hexKey : GoString) : Option Bytes :=
  (idFromHex hexKey).bind fun key => (content key).toOption

theorem fetchChunks_ok_iff {keys : List GoString} {i : Nat} {out b : Bytes} :
    (fetchChunks (fixedGetter content) i keys out ()).2 = .ok b ↔
      ∃ cs : List Bytes, keys.map (chunkOf content) = cs.map some ∧ b = out ++ cs.flatten := by
  induction keys generalizing i out with
  | nil =>
    constructor
    · intro h
      exact ⟨[], rfl, by rw [flatten_nil, append_nil]; exact (Except.ok.inj h).symm⟩
    · rintro ⟨cs, hMap, rfl⟩
      rw [map_eq_nil_iff.mp hMap.symm, flatten_nil, append_nil]
      rfl
  | cons c rest ih =>
    have hCons : (∃ cs : List Bytes, (c :: rest).map (chunkOf content) = cs.map some ∧
        b = out ++ cs.flatten) ↔ ∃ v, chunkOf content c = some v ∧
          ∃ cs : List Bytes, rest.map (chunkOf content) = cs.map some ∧
            b = out ++ v ++ cs.flatten := by
      constructor
      · rintro ⟨cs, hMap, rfl⟩
        cases cs with
        | nil => simp at hMap
        | cons v cs =>
          rw [map_cons, map_cons, List.cons.injEq] at hMap
          exact ⟨v, hMap.1, cs, hMap.2, by simp⟩
      · rintro ⟨v, hv, cs, hMap, rfl⟩
        exact ⟨v :: cs, by rw [map_cons, map_cons, hv, hMap], by simp⟩
    rw [hCons, fetchChunks, chunkOf]
    cases idFromHex c with
    | none => simp
    | some key =>
      simp only [fixedGetter, Option.bind_some]
      cases content key with
      | error e => simp [Except.toOption]
      | ok v =>
        simp only [Except.toOption, Option.some.injEq, exists_eq_left']
        exact ih

/-- **When `FetchBytes` returns a file**, once it has the manifest. -/
theorem FileManifest.fetch_ok_iff {b : Bytes} :
    (m.fetch (fixedGetter content) ()).2 = .ok b ↔
      (0 ≤ m.size ∧ m.size ≤ maxAlloc) ∧ (b.length : Int) = m.size ∧
        ∃ cs : List Bytes, m.chunks.map (chunkOf content) = cs.map some ∧ b = cs.flatten := by
  have hLoop : (fetchChunks (fixedGetter content) 0 m.chunks [] ()).2 = .ok b ↔
      ∃ cs : List Bytes, m.chunks.map (chunkOf content) = cs.map some ∧ b = cs.flatten := by
    rw [fetchChunks_ok_iff]
    simp only [nil_append]
  unfold fetch
  split
  · rename_i hRange
    simp only [reduceCtorEq, false_iff, not_and]
    intro hSize
    omega
  · rename_i hRange
    have hSize : 0 ≤ m.size ∧ m.size ≤ maxAlloc := by omega
    rw [← hLoop]
    generalize fetchChunks (fixedGetter content) 0 m.chunks [] () = r
    obtain ⟨_, e | out⟩ := r
    · simp
    · dsimp only
      split
      · rename_i hLength
        constructor
        · intro h
          cases h
        · rintro ⟨-, hb, hOut⟩
          cases hOut
          exact absurd hb hLength
      · rename_i hLength
        constructor
        · intro h
          cases h
          exact ⟨hSize, not_not.mp hLength, rfl⟩
        · rintro ⟨-, -, hOut⟩
          exact hOut

/-! ## What is published is fetched -/

/-- The manifest of a file. -/
def manifestOf (cr : Crypto) (data : Bytes) : FileManifest :=
  ⟨data.length, (dataChunks data).map fun c => (cr.contentAddress c).hex⟩

/-- All that `PublishBytes` stores for a file. -/
def fileBlobs (cr : Crypto) (data : Bytes) : List Bytes :=
  dataChunks data ++ [(manifestOf cr data).marshal]

/-- Store each of these under its hash. -/
def putAll (cr : Crypto) (put : Putter σ) : List Bytes → σ → Except DhtError σ
  | [], s => .ok s
  | b :: rest, s => (put s (cr.contentAddress b) b).bind (putAll cr put rest)

section Publish

variable {cr : Crypto} {put : Putter σ} {s s' : σ}

theorem putAll_append {bs bs' : List Bytes} {s'' : σ} (h : putAll cr put bs s = .ok s')
    (h' : putAll cr put bs' s' = .ok s'') : putAll cr put (bs ++ bs') s = .ok s'' := by
  induction bs generalizing s with
  | nil =>
    cases h
    exact h'
  | cons b rest ih =>
    rw [cons_append, putAll]
    rw [putAll] at h
    cases hPut : put s (cr.contentAddress b) b with
    | error e =>
      rw [hPut] at h
      cases h
    | ok s₁ =>
      rw [hPut] at h
      exact ih h

theorem putAll_single {b : Bytes} (h : put s (cr.contentAddress b) b = .ok s') :
    putAll cr put [b] s = .ok s' := by
  rw [putAll, h]
  rfl

variable {data : Bytes} {key : NodeID} {keys : List GoString}

theorem publishChunks_ok {i : Nat} {chunks : List Bytes}
    (h : publishChunks cr put i chunks s = (s', .ok keys)) :
    putAll cr put chunks s = .ok s' ∧ keys = chunks.map fun c => (cr.contentAddress c).hex := by
  induction chunks generalizing i s keys with
  | nil =>
    cases h
    exact ⟨rfl, rfl⟩
  | cons c rest ih =>
    rw [publishChunks] at h
    cases hPut : put s (cr.contentAddress c) c with
    | error e =>
      rw [hPut] at h
      cases h
    | ok s₁ =>
      rw [hPut] at h
      dsimp only at h
      split at h
      · cases h
      rename_i s₂ keys' hRest
      cases h
      obtain ⟨hAll, rfl⟩ := ih hRest
      exact ⟨by rw [putAll, hPut]; exact hAll, rfl⟩

/-- The end of `PublishBytes`: the manifest is stored. -/
def storeManifest (cr : Crypto) (put : Putter σ) (m : FileManifest) (s : σ) :
    σ × Except FileError (FileManifest × NodeID) :=
  match put s (cr.contentAddress m.marshal) m.marshal with
  | .error e => (s, .error (.storeManifest e))
  | .ok s => (s, .ok (m, cr.contentAddress m.marshal))

theorem publishBytes_eq (h : publishChunks cr put 0 (dataChunks data) s = (s', .ok keys)) :
    publishBytes cr put s data = storeManifest cr put ⟨data.length, keys⟩ s' := by
  rw [publishBytes, h]
  rfl

theorem storeManifest_ok {m m' : FileManifest}
    (h : storeManifest cr put m s = (s', .ok (m', key))) :
    put s (cr.contentAddress m.marshal) m.marshal = .ok s' ∧ m' = m ∧
      key = cr.contentAddress m.marshal := by
  rw [storeManifest] at h
  cases hPut : put s (cr.contentAddress m.marshal) m.marshal with
  | error e =>
    rw [hPut] at h
    cases h
  | ok s₁ =>
    rw [hPut] at h
    cases h
    exact ⟨rfl, rfl, rfl⟩

/-- **What `PublishBytes` stores and returns.** -/
theorem publishBytes_ok {m : FileManifest} (h : publishBytes cr put s data = (s', .ok (m, key))) :
    putAll cr put (fileBlobs cr data) s = .ok s' ∧ m = manifestOf cr data ∧
      key = cr.contentAddress m.marshal := by
  cases hChunks : publishChunks cr put 0 (dataChunks data) s with
  | mk s₁ published =>
    cases published with
    | error e =>
      rw [publishBytes, hChunks] at h
      cases h
    | ok keys =>
      obtain ⟨hAll, rfl⟩ := publishChunks_ok hChunks
      rw [publishBytes_eq hChunks] at h
      obtain ⟨hPut, rfl, rfl⟩ := storeManifest_ok h
      exact ⟨putAll_append hAll (putAll_single hPut), rfl, rfl⟩

end Publish

variable (hSmall : (manifestOf cr data).marshal.length ≤ maxValueSize)

include hSmall

/-- A file whose manifest can be stored is not too long to be read. -/
theorem length_le_of_manifestOf : data.length ≤ 2 ^ 32 := by
  have hChunks : (dataChunks data).length ≤ maxValueSize := by
    have hList := (manifestOf cr data).length_chunks_le
    rw [manifestOf, length_map] at hList
    exact hList.trans hSmall
  have hBound : maxValueSize * chunkSize = 2 ^ 32 := by decide
  rw [← hBound]
  exact (length_le_of_dataChunks data).trans (Nat.mul_le_mul_right chunkSize hChunks)

theorem isInt64_manifestOf : IsInt64 (manifestOf cr data).size := by
  have hLength := length_le_of_manifestOf hSmall
  show -2 ^ 63 ≤ (data.length : Int) ∧ (data.length : Int) < 2 ^ 63
  omega

omit hSmall

section Stored

variable {cr : Crypto} {content : NodeID → Except DhtError Bytes} {data : Bytes}

/-- A manifest points to the chunks of its file. -/
theorem within_manifestOf {blobs : List Bytes} (hFile : fileBlobs cr data ⊆ blobs) :
    (manifestOf cr data).Within fun key => ∃ b ∈ blobs, key = cr.contentAddress b := by
  intro c hc key hKey
  obtain ⟨chunk, hChunk, rfl⟩ := mem_map.mp hc
  rw [idFromHex_hex] at hKey
  exact ⟨chunk, hFile (mem_append_left _ hChunk), (Option.some.inj hKey).symm⟩

theorem chunkOf_manifestOf
    (hContent : ∀ b ∈ fileBlobs cr data, content (cr.contentAddress b) = .ok b) :
    (manifestOf cr data).chunks.map (chunkOf content) = (dataChunks data).map some := by
  rw [manifestOf, map_map]
  refine map_congr_left fun c hc => ?_
  have hStored := hContent c (mem_append_left _ hc)
  simp [chunkOf, hStored, Except.toOption]

/-- **A file that is stored is fetched.** Its manifest must be one that can be
stored. -/
theorem fetchBytes_published
    (hSmall : (manifestOf cr data).marshal.length ≤ maxValueSize)
    (hContent : ∀ b ∈ fileBlobs cr data, content (cr.contentAddress b) = .ok b) :
    (fetchBytes (fixedGetter content) () (cr.contentAddress (manifestOf cr data).marshal)).2 =
      .ok data := by
  have hManifest := hContent _ (mem_append_right _ (mem_singleton_self _))
  unfold fetchBytes
  simp only [fixedGetter, hManifest, unmarshalFileManifest_marshal (isInt64_manifestOf hSmall)]
  refine FileManifest.fetch_ok_iff.mpr
    ⟨?_, rfl, dataChunks data, chunkOf_manifestOf hContent, (flatten_dataChunks data).symm⟩
  have hLength := length_le_of_manifestOf hSmall
  show (0 : Int) ≤ data.length ∧ (data.length : Int) ≤ 2 ^ 48
  omega

end Stored

end AltNet
