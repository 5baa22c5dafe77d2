import AltNet.Files.Stream

/-!
# AltNet — the two ways to read a file (`apps/files/stream.go`, `chunk.go`)

`FetchBytes` puts one chunk after the other and compares the length with
`Size` at the end. `ChunkReader` goes by `Size` and `ChunkSize`: byte `p` is
byte `p % ChunkSize` of chunk `p / ChunkSize`. On the manifests that
`PublishBytes` makes they agree. A manifest from the network may say anything.

Main results:

* `reads_iff_aligned` — when reading to the end succeeds, whatever the sizes of
  the buffers are;
* `reads_whole` — what it reads where `FetchBytes` succeeds too;
* `reads_agree_iff` — the manifests on which the two agree.
-/

namespace AltNet

open List Option

open NodeID (fill)

variable {σ : Type}

/-- Read until `io.EOF` or an error, with buffers of these sizes and at most
`fuel` calls of `Read`. -/
def ChunkReader.readAll (get : Getter σ) : Nat → ChunkReader → σ → Stream' Nat →
    Option (Except ReaderError Bytes)
  | 0, _, _, _ => none
  | fuel + 1, cr, s, sizes =>
    match cr.read get s sizes.head with
    | (_, _, .eof) => some (.ok [])
    | (_, _, .error e) => some (.error e)
    | (s, cr, .data bs) => (readAll get fuel cr s sizes.tail).map fun r => r.map (bs ++ ·)

/-- Sizes of buffers of which some are positive, again and again. With empty
buffers alone nobody comes to the end of a file. -/
def Fair (sizes : Stream' Nat) : Prop := ∀ k, ∃ j, k ≤ j ∧ 0 < sizes.get j

/-- The chunk of a manifest at an index. -/
def FileManifest.chunkAt (content : NodeID → Except DhtError Bytes) (m : FileManifest) (i : Nat) :
    Option Bytes :=
  m.chunks[i]?.bind (chunkOf content)

/-- What `FetchBytes` needs: chunks that are all there and together as long as
the file. -/
def FileManifest.Whole (content : NodeID → Except DhtError Bytes) (m : FileManifest) : Prop :=
  (0 ≤ m.size ∧ m.size ≤ maxAlloc) ∧ ∃ cs : List Bytes,
    m.chunks.map (chunkOf content) = cs.map some ∧ (cs.flatten.length : Int) = m.size

/-- What `ChunkReader` needs: at each multiple of `ChunkSize` below `Size` a
chunk that goes to the next one or to the end of the file. -/
def FileManifest.Aligned (content : NodeID → Except DhtError Bytes) (m : FileManifest) : Prop :=
  ∀ i : Nat, (i * chunkSize : Int) < m.size →
    ∃ c, m.chunkAt content i = some c ∧ min (chunkSize : Int) (m.size - i * chunkSize) ≤ c.length

theorem chunkSize_pos : 0 < chunkSize := by decide

section Reader

variable {content : NodeID → Except DhtError Bytes} {m : FileManifest} {cr : ChunkReader} {p : Nat}

/-- The reader is at this position of the manifest, and what it has in its cache
is a chunk of it. -/
structure ReaderAt (content : NodeID → Except DhtError Bytes) (m : FileManifest) (p : Nat)
    (cr : ChunkReader) : Prop where
  manifest : cr.manifest = m
  pos : cr.pos = p
  cached : ∀ data, cr.cachedChunk = some data →
    0 ≤ cr.cachedIdx ∧ m.chunkAt content cr.cachedIdx.toNat = some data

theorem readerAt_reader (m : FileManifest) (manifestKey : NodeID) :
    ReaderAt content m 0 (m.reader manifestKey) :=
  ⟨rfl, rfl, fun _ h => by cases h⟩

theorem fetchMissing_spec (h : ReaderAt content m p cr) (i : Nat) :
    (∃ c cr', m.chunkAt content i = some c ∧ ReaderAt content m p cr' ∧
      cr.fetchMissing (fixedGetter content) () i = ((), cr', .ok c)) ∨
    m.chunkAt content i = none ∧
      ∃ e, cr.fetchMissing (fixedGetter content) () i = ((), cr, .error e) := by
  have hNat : ¬ (i : Int) < 0 := by omega
  rw [ChunkReader.fetchMissing, if_neg hNat, Int.toNat_natCast, h.manifest]
  cases hChunk : m.chunks[i]? with
  | none => exact .inr ⟨by rw [FileManifest.chunkAt, hChunk]; rfl, _, rfl⟩
  | some hexKey =>
    have hAt : m.chunkAt content i = chunkOf content hexKey := by
      rw [FileManifest.chunkAt, hChunk, bind_some]
    rw [hAt, chunkOf]
    dsimp only
    cases hKey : idFromHex hexKey with
    | none => exact .inr ⟨rfl, _, rfl⟩
    | some key =>
      simp only [bind_some, fixedGetter]
      cases hData : content key with
      | error e => exact .inr ⟨rfl, _, rfl⟩
      | ok data =>
        refine .inl ⟨data, ⟨m, cr.manifestKey, cr.pos, i, some data⟩, rfl, ⟨rfl, h.pos, ?_⟩, rfl⟩
        rintro _ ⟨⟩
        refine ⟨Int.natCast_nonneg i, ?_⟩
        show m.chunkAt content (i : Int).toNat = some data
        rw [Int.toNat_natCast, hAt, chunkOf, hKey, bind_some, hData]
        rfl

/-- **`fetchChunk`** gives the chunk of the manifest, from the cache or not. -/
theorem fetchChunk_spec (h : ReaderAt content m p cr) (i : Nat) :
    (∃ c cr', m.chunkAt content i = some c ∧ ReaderAt content m p cr' ∧
      cr.fetchChunk (fixedGetter content) () i = ((), cr', .ok c)) ∨
    m.chunkAt content i = none ∧
      ∃ e, cr.fetchChunk (fixedGetter content) () i = ((), cr, .error e) := by
  rw [ChunkReader.fetchChunk]
  cases hCached : cr.cachedChunk with
  | none => exact fetchMissing_spec h i
  | some data =>
    dsimp only
    split
    · rename_i hIdx
      obtain ⟨-, hAt⟩ := h.cached data hCached
      rw [← hIdx, Int.toNat_natCast] at hAt
      exact .inl ⟨data, cr, hAt, h, rfl⟩
    · exact fetchMissing_spec h i

/-- What `Read` copies out of a chunk. -/
def copied (c : Bytes) (p n : Nat) : Bytes := (c.drop (p % chunkSize)).take n

/-- **What `Read` does**, by its position and the chunk that is there. -/
theorem read_spec (h : ReaderAt content m p cr) (n : Nat) :
    (m.size ≤ p ∧ cr.read (fixedGetter content) () n = ((), cr, .eof)) ∨
    ((p : Int) < m.size ∧ n = 0 ∧ cr.read (fixedGetter content) () n = ((), cr, .data [])) ∨
    ((p : Int) < m.size ∧ 0 < n ∧ ∃ c cr', m.chunkAt content (p / chunkSize) = some c ∧
      p % chunkSize < c.length ∧ ReaderAt content m (p + (copied c p n).length) cr' ∧
      cr.read (fixedGetter content) () n = ((), cr', .data (copied c p n))) ∨
    ((p : Int) < m.size ∧ 0 < n ∧
      (∀ c, m.chunkAt content (p / chunkSize) = some c → c.length ≤ p % chunkSize) ∧
      ∃ cr' e, cr.read (fixedGetter content) () n = ((), cr', .error e)) := by
  rw [ChunkReader.read, h.manifest, h.pos]
  split
  · rename_i hEnd
    exact .inl ⟨hEnd, rfl⟩
  rename_i hEnd
  have hInside : (p : Int) < m.size := by omega
  split
  · rename_i hZero
    exact .inr (.inl ⟨hInside, hZero, rfl⟩)
  rename_i hZero
  have hPos : 0 < n := by omega
  have hIdx : (p : Int) / (chunkSize : Nat) = ((p / chunkSize : Nat) : Int) := rfl
  have hOff : ((p : Int) % (chunkSize : Nat)).toNat = p % chunkSize := rfl
  simp only [hIdx, hOff]
  refine .inr (.inr ?_)
  rcases fetchChunk_spec h (p / chunkSize) with
    ⟨c, cr', hAt, hReader, hFetch⟩ | ⟨hNone, e, hFetch⟩
  · rw [hFetch, hAt]
    dsimp only
    split
    · rename_i hShort
      refine .inr ⟨hInside, hPos, fun c' hc' => ?_, _, _, rfl⟩
      cases hc'
      exact hShort
    · rename_i hLong
      refine .inl ⟨hInside, hPos, c, _, rfl, by omega, ?_, rfl⟩
      refine ⟨hReader.manifest, ?_, hReader.cached⟩
      rw [hReader.pos]
      exact (Nat.cast_add _ _).symm
  · rw [hFetch, hNone]
    exact .inr ⟨hInside, hPos, fun c hc => (by cases hc), _, _, rfl⟩

/-! ## When a file is read to its end -/

/-- Reads that come from position `p` to the end of the file, and the bytes that
they copy. Reads into empty buffers are left out. -/
inductive Pump (content : NodeID → Except DhtError Bytes) (m : FileManifest) : Nat → Bytes → Prop
  | eof {p : Nat} (hEnd : m.size ≤ p) : Pump content m p []
  | read {p n : Nat} {c b : Bytes} (hInside : (p : Int) < m.size) (hPos : 0 < n)
      (hChunk : m.chunkAt content (p / chunkSize) = some c) (hLong : p % chunkSize < c.length)
      (hRest : Pump content m (p + (copied c p n).length) b) :
      Pump content m p (copied c p n ++ b)

variable {sizes : Stream' Nat} {b : Bytes}

theorem pump_of_readAll {fuel : Nat} (h : ReaderAt content m p cr)
    (hReads : cr.readAll (fixedGetter content) fuel () sizes = some (.ok b)) :
    Pump content m p b := by
  induction fuel generalizing cr p sizes b with
  | zero => cases hReads
  | succ fuel ih =>
    rw [ChunkReader.readAll] at hReads
    rcases read_spec h sizes.head with ⟨hEnd, hRead⟩ | ⟨-, -, hRead⟩ |
      ⟨hInside, hPos, c, cr', hChunk, hLong, hReader, hRead⟩ | ⟨-, -, -, cr', e, hRead⟩
    · rw [hRead] at hReads
      cases hReads
      exact .eof hEnd
    · rw [hRead] at hReads
      obtain ⟨r, hRest, hMap⟩ := map_eq_some_iff.mp hReads
      cases r with
      | error e => cases hMap
      | ok b' =>
        cases hMap
        exact ih h hRest
    · rw [hRead] at hReads
      obtain ⟨r, hRest, hMap⟩ := map_eq_some_iff.mp hReads
      cases r with
      | error e => cases hMap
      | ok b' =>
        cases hMap
        exact .read hInside hPos hChunk hLong (ih hReader hRest)
    · rw [hRead] at hReads
      cases hReads

variable {c : Bytes} {cs : List Bytes}

theorem length_copied {p n : Nat} : (copied c p n).length = min n (c.length - p % chunkSize) := by
  rw [copied, length_take, length_drop]

/-- **Reads that come to the end have found every chunk from there on long
enough.** -/
theorem Pump.aligned (hLengths : ∀ i c, m.chunkAt content i = some c → c.length ≤ chunkSize)
    (h : Pump content m p b) {i : Nat} (hi : (i * chunkSize : Int) < m.size)
    (hAhead : p < (i + 1) * chunkSize) (hBefore : (p : Int) < m.size) :
    ∃ c, m.chunkAt content i = some c ∧
      min (chunkSize : Int) (m.size - i * chunkSize) ≤ c.length := by
  induction h with
  | eof hEnd => omega
  | @read p n c b hInside hPos hChunk hLong hRest ih =>
    have hSize := hLengths _ _ hChunk
    have hDiv := Nat.div_add_mod p chunkSize
    by_cases hStill : p + (copied c p n).length < (i + 1) * chunkSize ∧
        ((p + (copied c p n).length : Nat) : Int) < m.size
    · exact ih hStill.1 hStill.2
    -- The read has gone past the chunk, so it was this chunk that it read.
    have hReach : p + (copied c p n).length ≤ chunkSize * (p / chunkSize) + c.length := by
      rw [length_copied]
      omega
    have hNext : (i + 1) * chunkSize = i * chunkSize + chunkSize := Nat.succ_mul _ _
    rcases Nat.lt_trichotomy (p / chunkSize) i with hLess | rfl | hMore
    · have hMul : (p / chunkSize + 1) * chunkSize ≤ i * chunkSize := Nat.mul_le_mul_right _ hLess
      rw [Nat.succ_mul, Nat.mul_comm] at hMul
      push_cast at hStill
      omega
    · have hCast : ((p / chunkSize : Nat) : Int) * (chunkSize : Nat) =
          (chunkSize * (p / chunkSize) : Nat) := by
        rw [Nat.mul_comm]
        exact (Nat.cast_mul _ _).symm
      rw [Nat.mul_comm (p / chunkSize) chunkSize] at hNext
      refine ⟨c, hChunk, ?_⟩
      rw [hCast]
      omega
    · have hMul : (i + 1) * chunkSize ≤ p / chunkSize * chunkSize := Nat.mul_le_mul_right _ hMore
      rw [Nat.mul_comm (p / chunkSize)] at hMul
      omega

theorem readAll_data {cr' : ChunkReader} {fuel : Nat} {bs : Bytes}
    (hRead : cr.read (fixedGetter content) () sizes.head = ((), cr', .data bs))
    (hRest : cr'.readAll (fixedGetter content) fuel () sizes.tail = some (.ok b)) :
    cr.readAll (fixedGetter content) (fuel + 1) () sizes = some (.ok (bs ++ b)) := by
  simp only [ChunkReader.readAll, hRead, hRest, map_some, Except.map]

theorem Fair.tail (h : Fair sizes) : Fair sizes.tail := by
  intro k
  obtain ⟨j, hj, hPos⟩ := h (k + 1)
  obtain ⟨j, rfl⟩ := Nat.exists_eq_succ_of_ne_zero (Nat.ne_of_gt (Nat.zero_lt_of_lt hj))
  exact ⟨j, Nat.le_of_succ_le_succ hj, hPos⟩

/-- The chunk at a position inside the file goes beyond it. -/
theorem FileManifest.Aligned.chunk (h : m.Aligned content) (hInside : (p : Int) < m.size) :
    ∃ c, m.chunkAt content (p / chunkSize) = some c ∧ p % chunkSize < c.length := by
  have hDiv := Nat.div_add_mod p chunkSize
  have hMod := Nat.mod_lt p chunkSize_pos
  have hCast : ((p / chunkSize : Nat) : Int) * (chunkSize : Nat) =
      (chunkSize * (p / chunkSize) : Nat) := by
    rw [Nat.mul_comm]
    exact (Nat.cast_mul _ _).symm
  obtain ⟨c, hChunk, hLong⟩ := h (p / chunkSize) (by rw [hCast]; omega)
  rw [hCast] at hLong
  exact ⟨c, hChunk, by omega⟩

/-- **Every way of reading comes to the end** of a file whose chunks are long
enough. -/
theorem exists_reads (hAligned : m.Aligned content) (hFair : Fair sizes)
    (h : ReaderAt content m p cr) :
    ∃ fuel b, cr.readAll (fixedGetter content) fuel () sizes = some (.ok b) := by
  -- By what is left of the file, and by the buffers up to the next positive one.
  induction hLeft : (m.size - p).toNat using Nat.strong_induction_on generalizing cr p sizes with
  | _ left ihLeft =>
    have hStep : ∀ {sizes}, Fair sizes → (sizes.head = 0 → ∃ fuel b,
        cr.readAll (fixedGetter content) fuel () sizes.tail = some (.ok b)) →
        ∃ fuel b, cr.readAll (fixedGetter content) fuel () sizes = some (.ok b) := by
      intro sizes hFair hSkip
      rcases read_spec h sizes.head with ⟨-, hRead⟩ | ⟨-, hZero, hRead⟩ |
        ⟨hInside, hPos, c, cr', -, hLong, hReader, hRead⟩ | ⟨hInside, -, hShort, -⟩
      · exact ⟨1, [], by rw [ChunkReader.readAll, hRead]⟩
      · obtain ⟨fuel, b, hRest⟩ := hSkip hZero
        exact ⟨fuel + 1, _, readAll_data hRead hRest⟩
      · have hLength := @length_copied c p sizes.head
        obtain ⟨fuel, b, hRest⟩ := ihLeft _ (by omega) hFair.tail hReader rfl
        exact ⟨fuel + 1, _, readAll_data hRead hRest⟩
      · obtain ⟨c, hChunk, hLong⟩ := hAligned.chunk hInside
        exact absurd (hShort c hChunk) (Nat.not_le_of_lt hLong)
    obtain ⟨j, -, hj⟩ := hFair 0
    induction j generalizing sizes with
    | zero => exact hStep hFair fun hZero => absurd hZero (Nat.ne_of_gt hj)
    | succ j ih => exact hStep hFair fun _ => ih hFair.tail hj

/-! ## What is read -/

/-- Where the chunk at a position is what comes next in `whole`, `whole` is
read. -/
theorem Pump.bytes {whole : Bytes}
    (hNext : ∀ (p : Nat) c, (p : Int) < m.size → m.chunkAt content (p / chunkSize) = some c →
      p % chunkSize < c.length → c.drop (p % chunkSize) <+: whole.drop p)
    (hLength : (whole.length : Int) ≤ m.size) (h : Pump content m p b) : b = whole.drop p := by
  induction h with
  | eof hEnd => exact (drop_eq_nil_of_le (by omega)).symm
  | @read p n c b hInside hPos hChunk hLong hRest ih =>
    obtain ⟨rest, hRest⟩ := hNext p c hInside hChunk hLong
    have hCopied : copied c p n <+: whole.drop p := ( take_prefix n _).trans ⟨rest, hRest⟩
    obtain ⟨after, hAfter⟩ := hCopied
    rw [ih, ← drop_drop, ← hAfter, drop_left]

theorem chunkAt_eq (hCs : m.chunks.map (chunkOf content) = cs.map some) (i : Nat) :
    m.chunkAt content i = cs[i]? := by
  have hAt : (m.chunks.map (chunkOf content))[i]? = (cs.map some)[i]? := by rw [hCs]
  rw [getElem?_map, getElem?_map] at hAt
  rw [FileManifest.chunkAt]
  cases hChunk : m.chunks[i]? with
  | none =>
    rw [hChunk] at hAt
    rw [map_eq_none_iff.mp hAt.symm]
    rfl
  | some hexKey =>
    rw [hChunk] at hAt
    obtain ⟨c, hc, hSame⟩ := map_eq_some_iff.mp hAt.symm
    rw [hc, bind_some, ← hSame]

/-- Chunks that are all full come to a multiple of `ChunkSize`. -/
theorem length_flatten_full (h : ∀ c ∈ cs, c.length = chunkSize) :
    cs.flatten.length = cs.length * chunkSize := by
  rw [length_flatten, sum_eq_card_nsmul _ chunkSize, length_map, smul_eq_mul]
  simpa using h

/-- **Where the chunks are long enough, the chunk at a position is what comes
next in the file.** -/
theorem drop_chunk_prefix (hAligned : m.Aligned content)
    (hLengths : ∀ i c, m.chunkAt content i = some c → c.length ≤ chunkSize)
    (hCs : m.chunks.map (chunkOf content) = cs.map some) (hInside : (p : Int) < m.size)
    (hChunk : m.chunkAt content (p / chunkSize) = some c) (hLong : p % chunkSize < c.length) :
    c.drop (p % chunkSize) <+: cs.flatten.drop p := by
  have hDiv := Nat.div_add_mod p chunkSize
  have hFull : ∀ c' ∈ cs.take (p / chunkSize), c'.length = chunkSize := by
    intro c' hc'
    obtain ⟨j, hj, rfl⟩ := mem_take_iff_getElem.mp hc'
    have hBefore : j < p / chunkSize := by omega
    have hMul : (j + 1) * chunkSize ≤ p / chunkSize * chunkSize := Nat.mul_le_mul_right _ hBefore
    rw [Nat.mul_comm (p / chunkSize), Nat.succ_mul] at hMul
    have hCast : (j : Int) * (chunkSize : Nat) = (j * chunkSize : Nat) := (Nat.cast_mul _ _).symm
    obtain ⟨c', hc', hEnough⟩ := hAligned j (by rw [hCast]; omega)
    rw [hCast] at hEnough
    have hMost := hLengths j c' hc'
    rw [chunkAt_eq hCs] at hc'
    have hSame : cs[j] = c' := some.inj ((getElem?_eq_getElem _).symm.trans hc')
    rw [hSame]
    omega
  rw [chunkAt_eq hCs] at hChunk
  obtain ⟨hIdx, rfl⟩ := List.getElem?_eq_some_iff.mp hChunk
  have hSplit : cs.flatten = (cs.take (p / chunkSize)).flatten ++
      (cs[p / chunkSize] ++ (cs.drop (p / chunkSize + 1)).flatten) := by
    rw [← flatten_cons, ← drop_eq_getElem_cons hIdx, ← flatten_append,
      take_append_drop]
  have hStart : (cs.take (p / chunkSize)).flatten.length = chunkSize * (p / chunkSize) := by
    rw [length_flatten_full hFull, length_take_of_le (Nat.le_of_lt hIdx), Nat.mul_comm]
  have hDrop : cs.flatten.drop p =
      (cs.flatten.drop (cs.take (p / chunkSize)).flatten.length).drop (p % chunkSize) := by
    rw [drop_drop, hStart, hDiv]
  rw [hDrop, hSplit, drop_left, drop_append_of_le_length (Nat.le_of_lt hLong)]
  exact prefix_append _ _

/-! ## The manifests on which the two agree -/

/-- Reading from here on, with these buffers, comes to the end of the file with
these bytes. -/
def ChunkReader.Reads (content : NodeID → Except DhtError Bytes) (cr : ChunkReader)
    (sizes : Stream' Nat) (b : Bytes) : Prop :=
  ∃ fuel, cr.readAll (fixedGetter content) fuel () sizes = some (.ok b)

theorem length_chunkAt_le (hLengths : ∀ key c, content key = .ok c → c.length ≤ maxValueSize)
    {i : Nat} (h : m.chunkAt content i = some c) : c.length ≤ chunkSize := by
  obtain ⟨hexKey, -, hChunk⟩ := bind_eq_some_iff.mp h
  obtain ⟨key, -, hValue⟩ := bind_eq_some_iff.mp hChunk
  cases hContent : content key with
  | error e =>
    rw [hContent] at hValue
    cases hValue
  | ok v =>
    rw [hContent] at hValue
    cases hValue
    exact hLengths key _ hContent

/-- **When a file is read to its end**: the sizes of the buffers do not matter. -/
theorem reads_iff_aligned (hLengths : ∀ key c, content key = .ok c → c.length ≤ maxValueSize)
    (hFair : Fair sizes) (manifestKey : NodeID) :
    (∃ b, (m.reader manifestKey).Reads content sizes b) ↔ m.Aligned content := by
  constructor
  · rintro ⟨b, fuel, hReads⟩ i hi
    have hPump := pump_of_readAll (readerAt_reader m manifestKey) hReads
    have hPos : 0 < (i + 1) * chunkSize := Nat.mul_pos (Nat.succ_pos i) chunkSize_pos
    have hFirst : (0 : Int) ≤ i * (chunkSize : Nat) :=
      Int.mul_nonneg (Int.natCast_nonneg _) (Int.natCast_nonneg _)
    exact hPump.aligned (fun _ _ h => length_chunkAt_le hLengths h) hi hPos (by omega)
  · intro hAligned
    obtain ⟨fuel, b, hReads⟩ := exists_reads hAligned hFair (readerAt_reader m manifestKey)
    exact ⟨b, fuel, hReads⟩

/-- **When `FetchBytes` succeeds**, once it has the manifest. -/
theorem fetch_iff_whole :
    (∃ b, (m.fetch (fixedGetter content) ()).2 = .ok b) ↔ m.Whole content := by
  simp only [FileManifest.fetch_ok_iff]
  constructor
  · rintro ⟨b, hSize, hLength, cs, hCs, rfl⟩
    exact ⟨hSize, cs, hCs, hLength⟩
  · rintro ⟨hSize, cs, hCs, hLength⟩
    exact ⟨_, hSize, hLength, cs, hCs, rfl⟩

/-- **What is read where `FetchBytes` succeeds too.** -/
theorem reads_whole (hLengths : ∀ key c, content key = .ok c → c.length ≤ maxValueSize)
    {manifestKey : NodeID} {b b' : Bytes} (hAligned : m.Aligned content)
    (hReads : (m.reader manifestKey).Reads content sizes b)
    (hFetch : (m.fetch (fixedGetter content) ()).2 = .ok b') :
    b' = b ∧ (b'.length : Int) = m.size := by
  obtain ⟨fuel, hReads⟩ := hReads
  obtain ⟨-, hLength, cs, hCs, rfl⟩ := FileManifest.fetch_ok_iff.mp hFetch
  have hBytes := (pump_of_readAll (readerAt_reader m manifestKey) hReads).bytes
    (fun p c hInside hChunk hLong => drop_chunk_prefix hAligned
      (fun _ _ h => length_chunkAt_le hLengths h) hCs hInside hChunk hLong) (le_of_eq hLength)
  exact ⟨hBytes.symm, hLength⟩

variable {manifestKey : NodeID} {blob : Bytes}

theorem fetchBytes_manifest (hManifest : content manifestKey = .ok blob)
    (hAccept : unmarshalFileManifest blob = some m) :
    (fetchBytes (fixedGetter content) () manifestKey).2 = (m.fetch (fixedGetter content) ()).2 := by
  simp only [fetchBytes, fixedGetter, hManifest, hAccept]

theorem newChunkReader_manifest (hManifest : content manifestKey = .ok blob)
    (hAccept : unmarshalFileManifest blob = some m) :
    newChunkReader (fixedGetter content) () manifestKey = ((), .ok (m.reader manifestKey)) := by
  simp only [newChunkReader, fixedGetter, hManifest, hAccept]

/-- **Streaming and whole-file reads agree** exactly on the manifests that
either both ways of reading can do with, or neither. -/
theorem reads_agree_iff (hManifest : content manifestKey = .ok blob)
    (hAccept : unmarshalFileManifest blob = some m)
    (hLengths : ∀ key c, content key = .ok c → c.length ≤ maxValueSize) :
    (∀ cr sizes, (newChunkReader (fixedGetter content) () manifestKey).2 = .ok cr → Fair sizes →
      ((∃ b, cr.Reads content sizes b) ↔
        ∃ b, (fetchBytes (fixedGetter content) () manifestKey).2 = .ok b) ∧
      ∀ b b', cr.Reads content sizes b →
        (fetchBytes (fixedGetter content) () manifestKey).2 = .ok b' →
        b' = b ∧ (b'.length : Int) = m.size) ↔
    (m.Aligned content ↔ m.Whole content) := by
  rw [fetchBytes_manifest hManifest hAccept, newChunkReader_manifest hManifest hAccept,
    fetch_iff_whole]
  constructor
  · intro h
    have hOnes : Fair (Stream'.const 1) := fun k => ⟨k, Nat.le_refl k, Nat.one_pos⟩
    rw [← reads_iff_aligned hLengths hOnes manifestKey]
    exact (h _ _ rfl hOnes).1
  · rintro hIff cr sizes hReader hFair
    cases hReader
    rw [reads_iff_aligned hLengths hFair]
    refine ⟨hIff, fun b b' hReads hFetch => reads_whole hLengths ?_ hReads hFetch⟩
    exact (reads_iff_aligned hLengths hFair manifestKey).mp ⟨b, hReads⟩

end Reader

/-! ## A chunk that is longer than the file -/

/-- A manifest for a file of `size` bytes with one chunk, and the chunk. -/
def oneChunk (size : Int) (chunk : Bytes) (key : NodeID) : Except DhtError Bytes :=
  if key = fill 1 then .ok (FileManifest.marshal ⟨size, [(fill 2).hex]⟩)
  else if key = fill 2 then .ok chunk
  else .error .notFound

theorem oneChunk_lengths {size : Int} {chunk : Bytes}
    (hManifest : (FileManifest.marshal ⟨size, [(fill 2).hex]⟩).length ≤ maxValueSize)
    (hChunk : chunk.length ≤ maxValueSize) :
    ∀ key c, oneChunk size chunk key = .ok c → c.length ≤ maxValueSize := by
  intro key c h
  unfold oneChunk at h
  split at h
  · cases h
    exact hManifest
  split at h
  · cases h
    exact hChunk
  · cases h

theorem oneChunk_manifest (size : Int) (chunk : Bytes) : oneChunk size chunk (fill 1) =
    .ok (FileManifest.marshal ⟨size, [(fill 2).hex]⟩) := if_pos rfl

theorem oneChunk_accepted {size : Int} (h : IsInt64 size) :
    unmarshalFileManifest (FileManifest.marshal ⟨size, [(fill 2).hex]⟩) =
      some ⟨size, [(fill 2).hex]⟩ := unmarshalFileManifest_marshal h

/-- The theorem on a file of two bytes: with buffers of one byte they are read
as `FetchBytes` returns them. -/
theorem reads_agree_two_bytes : ∃ cr b, (newChunkReader (fixedGetter (oneChunk 2 [7, 8])) ()
      (fill 1)).2 = .ok cr ∧ cr.Reads (oneChunk 2 [7, 8]) (Stream'.const 1) b ∧
    (fetchBytes (fixedGetter (oneChunk 2 [7, 8])) () (fill 1)).2 = .ok b := by
  have hAccept : unmarshalFileManifest _ = _ := @oneChunk_accepted 2 ⟨by decide, by decide⟩
  have hManifest := oneChunk_manifest 2 [7, 8]
  have hLengths := @oneChunk_lengths 2 [7, 8] (by decide +kernel) (by decide)
  have hAligned : FileManifest.Aligned (oneChunk 2 [7, 8]) ⟨2, [(fill 2).hex]⟩ := by
    intro i hi
    have hFirst : i = 0 := by
      have hSmall : (i : Int) * 65536 < 2 := hi
      omega
    subst hFirst
    exact ⟨[7, 8], by decide +kernel, by decide⟩
  have hWhole : FileManifest.Whole (oneChunk 2 [7, 8]) ⟨2, [(fill 2).hex]⟩ :=
    ⟨by decide, [[7, 8]], by decide +kernel, by decide⟩
  have hFair : Fair (Stream'.const 1) := fun k => ⟨k, Nat.le_refl k, Nat.one_pos⟩
  have hReader := congrArg Prod.snd (newChunkReader_manifest hManifest hAccept)
  obtain ⟨hBoth, hSame⟩ := (reads_agree_iff hManifest hAccept hLengths).mpr
    ⟨fun _ => hWhole, fun _ => hAligned⟩ _ (Stream'.const 1) hReader hFair
  obtain ⟨b, hReads⟩ := (reads_iff_aligned hLengths hFair (fill 1)).mpr hAligned
  obtain ⟨b', hFetch⟩ := hBoth.mp ⟨b, hReads⟩
  obtain ⟨rfl, -⟩ := hSame b b' hReads hFetch
  exact ⟨_, b', hReader, hReads, hFetch⟩

/-- **A file of one byte with a chunk of two**: `FetchBytes` refuses it, and a
reader with a buffer of two bytes reads two bytes. -/
theorem long_chunk_disagrees :
    (∀ key c, oneChunk 1 [7, 8] key = .ok c → c.length ≤ maxValueSize) ∧
    Fair (Stream'.const 2) ∧
    (∃ cr, (newChunkReader (fixedGetter (oneChunk 1 [7, 8])) () (fill 1)).2 = .ok cr ∧
      cr.manifest.size = 1 ∧ cr.Reads (oneChunk 1 [7, 8]) (Stream'.const 2) [7, 8]) ∧
    (fetchBytes (fixedGetter (oneChunk 1 [7, 8])) () (fill 1)).2 =
      .error .sizeMismatch := by
  have hAccept : unmarshalFileManifest _ = _ := @oneChunk_accepted 1 ⟨by decide, by decide⟩
  have hManifest := oneChunk_manifest 1 [7, 8]
  refine ⟨oneChunk_lengths (by decide +kernel) (by decide),
    fun k => ⟨k, Nat.le_refl k, Nat.two_pos⟩, ⟨FileManifest.reader ⟨1, [(fill 2).hex]⟩ _,
      congrArg Prod.snd (newChunkReader_manifest hManifest hAccept), rfl, 2, ?_⟩, ?_⟩
  · decide +kernel
  · rw [fetchBytes_manifest hManifest hAccept]
    decide +kernel

end AltNet
