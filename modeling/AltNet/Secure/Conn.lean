import AltNet.Lib.Stream
import AltNet.Dht.Id

/-!
# AltNet — the encrypted connection (`core/secure/secure.go`)

After the handshake every `Write` becomes one frame: four bytes of length,
big-endian, and the ciphertext of the payload under the key of the direction
and the number of the `Write`. `Read` opens one frame whenever its buffer is
empty and hands out what is in the buffer.

AES-256-GCM is a parameter, an `AEAD`: what it seals is sixteen bytes longer
than the payload, and opens again. What else is assumed of it is said where it
is needed.

A `Write` returns the frame that it hands to the raw connection. What becomes
of the bytes from there on is the business of the network.

Main results:

* `bytesToNat_bigEndian`, `nonceFor_injective` — lengths and counters survive
  their encoding;
* `SecureConn.read_frame`, `read_buffered`, `read_end` and the others — what
  `Read` returns, by what it finds.
-/

namespace AltNet

open List

/-! ## Numbers on the wire -/

/-- `n` in `w` bytes, the most significant one first. -/
def bigEndian : Nat → Nat → Bytes
  | 0, _ => []
  | w + 1, n => UInt8.ofNat (n / 256 ^ w) :: bigEndian w n

theorem length_bigEndian (w n : Nat) : (bigEndian w n).length = w := by
  induction w with
  | zero => rfl
  | succ w ih => rw [bigEndian, length_cons, ih]

theorem bytesToNat_bigEndian (w n : Nat) : bytesToNat (bigEndian w n) = n % 256 ^ w := by
  induction w with
  | zero => simp [bigEndian, bytesToNat, Nat.mod_one]
  | succ w ih =>
    have hByte : (UInt8.ofNat (n / 256 ^ w)).toNat = n / 256 ^ w % 256 := UInt8.toNat_ofNat'
    rw [bigEndian, bytesToNat, ih, length_bigEndian, hByte, pow_succ, Nat.mod_mul]
    ring

/-- `binary.BigEndian.PutUint32` and `Uint32`. -/
theorem bytesToNat_uint32 {n : Nat} (h : n < 2 ^ 32) : bytesToNat (bigEndian 4 n) = n := by
  rw [bytesToNat_bigEndian]
  exact Nat.mod_eq_of_lt h

/-- `nonceFor`. -/
def nonceFor (counter : UInt64) : Bytes := List.replicate 4 0 ++ bigEndian 8 counter.toNat

theorem nonceFor_injective : Function.Injective nonceFor := by
  intro a b h
  have hTail : bigEndian 8 a.toNat = bigEndian 8 b.toNat := append_cancel_left h
  have hNat := congrArg bytesToNat hTail
  have hA : a.toNat < 256 ^ 8 := a.toNat_lt
  have hB : b.toNat < 256 ^ 8 := b.toNat_lt
  rw [bytesToNat_bigEndian, bytesToNat_bigEndian, Nat.mod_eq_of_lt hA, Nat.mod_eq_of_lt hB] at hNat
  exact UInt64.toNat_inj.mp hNat

/-- The next counter. -/
theorem ofNat_succ (k : Nat) : UInt64.ofNat k + 1 = UInt64.ofNat (k + 1) := by
  rw [UInt64.ofNat_add]
  rfl

theorem ofNat_inj_of_lt {a b : Nat} (ha : a < 2 ^ 64) (hb : b < 2 ^ 64)
    (h : UInt64.ofNat a = UInt64.ofNat b) : a = b := by
  have hNat := congrArg UInt64.toNat h
  rwa [UInt64.toNat_ofNat_of_lt' ha, UInt64.toNat_ofNat_of_lt' hb] at hNat

/-- Counters that differ by a multiple of 2^64 are the same. -/
theorem ofNat_add_eq_iff (a n : Nat) :
    UInt64.ofNat (a + n) = UInt64.ofNat a ↔ n % 2 ^ 64 = 0 := by
  rw [← UInt64.toNat_inj, UInt64.toNat_ofNat', UInt64.toNat_ofNat']
  omega

theorem length_nonceFor (counter : UInt64) : (nonceFor counter).length = 12 := by
  rw [nonceFor, length_append, length_replicate, length_bigEndian]

/-! ## The cipher -/

/-- `cipher.AEAD` by its key: `sealBox` and `openBox` are `Seal` and `Open`, of
a key, a nonce and a text. -/
structure AEAD where
  sealBox : Bytes → Bytes → Bytes → Bytes
  openBox : Bytes → Bytes → Bytes → Option Bytes
  length_sealBox : ∀ key nonce p, (sealBox key nonce p).length = p.length + 16
  openBox_sealBox : ∀ key nonce p, openBox key nonce (sealBox key nonce p) = some p

/-- `MaxFrameSize`. -/
def maxFrameSize : Nat := 2 ^ 20 + 64

/-- The payload becomes a frame that is not too large. -/
def Fits (p : Bytes) : Prop := p.length + 16 ≤ maxFrameSize

instance (p : Bytes) : Decidable (Fits p) := inferInstanceAs (Decidable (_ ≤ _))

/-- A ciphertext with its length before it. -/
def framed (ct : Bytes) : Bytes := bigEndian 4 ct.length ++ ct

/-- The frame of the `Write` with this number. -/
def AEAD.frame (A : AEAD) (key : Bytes) (counter : UInt64) (p : Bytes) : Bytes :=
  framed (A.sealBox key (nonceFor counter) p)

/-! ## The connection -/

/-- The side of a handshake, and of the connection that comes of it. -/
inductive Role where
  | initiator
  | responder
  deriving DecidableEq

def Role.other : Role → Role
  | .initiator => .responder
  | .responder => .initiator

/-- `Conn`, without the raw connection. -/
structure SecureConn where
  sendKey : Bytes
  recvKey : Bytes
  sendCount : UInt64
  recvCount : UInt64
  remotePub : Bytes
  readBuf : Bytes
  deriving DecidableEq

inductive WriteError where
  | frameTooLarge (size : Nat)
  deriving DecidableEq

inductive ReadError where
  | raw (e : StreamError)
  | invalidFrameSize (size : Nat)
  | decryptFailed
  | eof
  deriving DecidableEq

/-- The reads of `readNextFrame`, up to the ciphertext; `none` while it
waits. -/
def takeFrame (raw : Stream) : Option (Stream × Except ReadError Bytes) :=
  match raw.readFull 4 with
  | none => none
  | some (raw, .error e) => some (raw, .error (.raw e))
  | some (raw, .ok lenBuf) =>
    let size := bytesToNat lenBuf
    if size = 0 ∨ maxFrameSize < size then some (raw, .error (.invalidFrameSize size))
    else
      match raw.readFull size with
      | none => none
      | some (raw, .error e) => some (raw, .error (.raw e))
      | some (raw, .ok ct) => some (raw, .ok ct)

namespace SecureConn

/-- A connection as `finishHandshake` returns it. -/
def new (sendKey recvKey remotePub : Bytes) : SecureConn :=
  ⟨sendKey, recvKey, 0, 0, remotePub, []⟩

/-- `Write`: the connection afterwards, and the frame that it puts on the wire
or the error. The counter goes up in both cases. -/
def write (A : AEAD) (c : SecureConn) (p : Bytes) : SecureConn × Except WriteError Bytes :=
  let ct := A.sealBox c.sendKey (nonceFor c.sendCount) p
  let c := { c with sendCount := c.sendCount + 1 }
  if maxFrameSize < ct.length then (c, .error (.frameTooLarge ct.length))
  else (c, .ok (framed ct))

/-- `readNextFrame`. -/
def readNextFrame (A : AEAD) (c : SecureConn) (raw : Stream) :
    Option (SecureConn × Stream × Except ReadError Unit) :=
  match takeFrame raw with
  | none => none
  | some (raw, .error e) => some (c, raw, .error e)
  | some (raw, .ok ct) =>
    match A.openBox c.recvKey (nonceFor c.recvCount) ct with
    | none => some ({ c with recvCount := c.recvCount + 1 }, raw, .error .decryptFailed)
    | some p =>
      some ({ c with recvCount := c.recvCount + 1, readBuf := c.readBuf ++ p }, raw, .ok ())

/-- `bytes.Buffer.Read` into a slice of `n` bytes. An empty buffer is at its
end, unless nothing is asked for. -/
def drain (c : SecureConn) (n : Nat) : SecureConn × Except ReadError Bytes :=
  if c.readBuf = [] then (c, if n = 0 then .ok [] else .error .eof)
  else ({ c with readBuf := c.readBuf.drop n }, .ok (c.readBuf.take n))

/-- `Read` into a slice of `n` bytes; `none` while it waits. -/
def read (A : AEAD) (c : SecureConn) (raw : Stream) (n : Nat) :
    Option (SecureConn × Stream × Except ReadError Bytes) :=
  if c.readBuf = [] then
    match c.readNextFrame A raw with
    | none => none
    | some (c, raw, .error e) => some (c, raw, .error e)
    | some (c, raw, .ok _) => some ((c.drain n).1, raw, (c.drain n).2)
  else some ((c.drain n).1, raw, (c.drain n).2)

end SecureConn

/-- What a sequence of `Read` calls returned before the first error. -/
def beforeError : List (Except ReadError Bytes) → Bytes
  | .ok bytes :: rest => bytes ++ beforeError rest
  | _ => []

/-- No `Read` has failed. -/
def NoError (results : List (Except ReadError Bytes)) : Prop := ∀ e, .error e ∉ results

variable {results : List (Except ReadError Bytes)}

theorem NoError.append_ok (h : NoError results) (bytes : Bytes) :
    NoError (results ++ [.ok bytes]) := by
  intro e he
  rcases mem_append.mp he with he | he
  · exact h e he
  · cases mem_singleton.mp he

theorem not_noError_append_error (results : List (Except ReadError Bytes)) (e : ReadError) :
    ¬ NoError (results ++ [.error e]) :=
  fun h => h e (mem_append_right _ (mem_singleton_self _))

/-- As long as nothing has failed, what is returned adds up. -/
theorem beforeError_append_ok (h : NoError results) (bytes : Bytes) :
    beforeError (results ++ [.ok bytes]) = beforeError results ++ bytes := by
  induction results with
  | nil => exact append_nil bytes
  | cons r rest ih =>
    cases r with
    | error e => exact absurd mem_cons_self (h e)
    | ok b =>
      have hRest : NoError rest := fun e he => h e (mem_cons_of_mem _ he)
      rw [cons_append, beforeError, beforeError, ih hRest, append_assoc]

/-- After an error nothing counts, and an error itself adds nothing. -/
theorem beforeError_append (h : ¬ NoError results) (r : Except ReadError Bytes) :
    beforeError (results ++ [r]) = beforeError results := by
  induction results with
  | nil => exact absurd nofun h
  | cons r' rest ih =>
    cases r' with
    | error e => rfl
    | ok b =>
      have hRest : ¬ NoError rest := by
        intro hRest
        apply h
        intro e he
        rcases mem_cons.mp he with hEq | he
        · cases hEq
        · exact hRest e he
      rw [cons_append, beforeError, beforeError, ih hRest]

theorem beforeError_append_error (results : List (Except ReadError Bytes)) (e : ReadError) :
    beforeError (results ++ [.error e]) = beforeError results := by
  induction results with
  | nil => rfl
  | cons r rest ih =>
    cases r with
    | error e' => rfl
    | ok b => rw [cons_append, beforeError, beforeError, ih]

/-! ## What Write and Read do -/

section Calls

variable {A : AEAD} {c : SecureConn} {raw raw' : Stream} {ct p rest : Bytes} {n : Nat}

/-- A frame is taken off the stream if its ciphertext is of an admissible
length, and only such a one is. -/
theorem takeFrame_framed (ct rest : Bytes) (ended : Bool) (hPos : ct ≠ [])
    (hMax : ct.length ≤ maxFrameSize) :
    takeFrame ⟨framed ct ++ rest, ended⟩ = some (⟨rest, ended⟩, .ok ct) := by
  have hSize : bytesToNat (bigEndian 4 ct.length) = ct.length :=
    bytesToNat_uint32 (hMax.trans_lt (by decide))
  have hHead : Stream.readFull ⟨framed ct ++ rest, ended⟩ 4 =
      some (⟨ct ++ rest, ended⟩, .ok (bigEndian 4 ct.length)) := by
    have hFront := Stream.readFull_front (bigEndian 4 ct.length) (ct ++ rest) ended
    rw [length_bigEndian, ← append_assoc] at hFront
    exact hFront
  have hValid : ¬ (ct.length = 0 ∨ maxFrameSize < ct.length) := by
    have hLength : 0 < ct.length := length_pos_iff.mpr hPos
    omega
  unfold takeFrame
  rw [hHead]
  dsimp only
  rw [hSize, if_neg hValid, Stream.readFull_front]

theorem takeFrame_ok (h : takeFrame raw = some (raw', .ok ct)) : ct.length ≤ maxFrameSize := by
  unfold takeFrame at h
  split at h
  · cases h
  · cases h
  · dsimp only at h
    split at h
    · cases h
    rename_i hValid
    split at h
    · cases h
    · cases h
    · rename_i hBody
      cases h
      obtain ⟨-, hLength, -⟩ := Stream.readFull_ok hBody
      omega

/-- While the stream goes on, what has been read of it does not depend on what
follows. -/
theorem takeFrame_append {result : Except ReadError Bytes} (hOpen : raw.ended = false)
    (h : takeFrame raw = some (raw', result)) (more : Bytes) :
    takeFrame (raw.append more) = some (raw'.append more, result) := by
  unfold takeFrame at h ⊢
  cases hHead : raw.readFull 4 with
  | none =>
    rw [hHead] at h
    cases h
  | some r =>
    obtain ⟨raw₁, lenBuf, rfl⟩ := Stream.readFull_open hOpen hHead
    have hOpen₁ : raw₁.ended = false := (Stream.readFull_ok hHead).2.2.trans hOpen
    rw [hHead] at h
    rw [Stream.readFull_append more hHead]
    dsimp only at h ⊢
    split at h
    · rename_i hSize
      cases h
      rw [if_pos hSize]
    rename_i hSize
    rw [if_neg hSize]
    cases hBody : raw₁.readFull (bytesToNat lenBuf) with
    | none =>
      rw [hBody] at h
      cases h
    | some r =>
      obtain ⟨raw₂, ct, rfl⟩ := Stream.readFull_open hOpen₁ hBody
      rw [hBody] at h
      rw [Stream.readFull_append more hBody]
      cases h
      rfl

namespace SecureConn

theorem write_fits (A : AEAD) (c : SecureConn) (h : Fits p) :
    c.write A p = ({ c with sendCount := c.sendCount + 1 },
      .ok (A.frame c.sendKey c.sendCount p)) := by
  unfold write
  dsimp only
  rw [if_neg]
  · rfl
  · rw [A.length_sealBox]
    exact Nat.not_lt.mpr h

theorem write_tooLarge (A : AEAD) (c : SecureConn) (h : ¬ Fits p) :
    c.write A p = ({ c with sendCount := c.sendCount + 1 },
      .error (.frameTooLarge (p.length + 16))) := by
  unfold write
  dsimp only
  rw [A.length_sealBox, if_pos (Nat.lt_of_not_le h)]

/-- The buffer is handed out first. -/
theorem read_buffered (h : c.readBuf ≠ []) :
    c.read A raw n = some ({ c with readBuf := c.readBuf.drop n }, raw,
      .ok (c.readBuf.take n)) := by
  unfold read drain
  rw [if_neg h, if_neg h]

/-- With an empty buffer `Read` takes the next frame. -/
theorem read_empty (h : c.readBuf = []) : c.read A raw n =
    match takeFrame raw with
    | none => none
    | some (raw, .error e) => some (c, raw, .error e)
    | some (raw, .ok ct) =>
      match A.openBox c.recvKey (nonceFor c.recvCount) ct with
      | none => some ({ c with recvCount := c.recvCount + 1 }, raw, .error .decryptFailed)
      | some p =>
        some ({ c with recvCount := c.recvCount + 1, readBuf := p.drop n }, raw,
          if p = [] ∧ n ≠ 0 then .error .eof else .ok (p.take n)) := by
  unfold read readNextFrame
  rw [if_pos h]
  cases takeFrame raw with
  | none => rfl
  | some r =>
    obtain ⟨raw', result⟩ := r
    cases result with
    | error e => rfl
    | ok ct =>
      dsimp only
      cases A.openBox c.recvKey (nonceFor c.recvCount) ct with
      | none => rfl
      | some p =>
        dsimp only
        unfold drain
        rw [h, nil_append]
        by_cases hp : p = []
        · subst hp
          by_cases hn : n = 0
          · simp [hn]
          · simp [hn]
        · simp [hp]

variable {c' : SecureConn} {result : Except ReadError Bytes}

/-- Whatever a `Read` does: it hands out of the buffer, or it opens a frame, or
it fails; and it leaves the sending side alone. -/
theorem read_cases (h : c.read A raw n = some (c', raw', result)) :
    (c.readBuf ≠ [] ∧ c' = { c with readBuf := c.readBuf.drop n } ∧
      result = .ok (c.readBuf.take n)) ∨
    (∃ recvCount e, c' = { c with recvCount } ∧ result = .error e) ∨
    (c.readBuf = [] ∧ ∃ ct p, takeFrame raw = some (raw', .ok ct) ∧
      A.openBox c.recvKey (nonceFor c.recvCount) ct = some p ∧
      c' = { c with recvCount := c.recvCount + 1, readBuf := p.drop n } ∧
      result = if p = [] ∧ n ≠ 0 then .error .eof else .ok (p.take n)) := by
  by_cases hBuf : c.readBuf = []
  · right
    rw [read_empty hBuf] at h
    split at h
    · cases h
    · cases h
      exact .inl ⟨c.recvCount, _, rfl, rfl⟩
    · rename_i ct hFrame
      split at h
      · cases h
        exact .inl ⟨_, _, rfl, rfl⟩
      · rename_i p hOpen
        cases h
        exact .inr ⟨hBuf, ct, p, hFrame, hOpen, rfl, rfl⟩
  · rw [read_buffered hBuf] at h
    cases h
    exact .inl ⟨hBuf, rfl, rfl⟩

/-- The end of the stream. -/
theorem read_end (h : c.readBuf = []) :
    c.read A ⟨[], true⟩ n = some (c, ⟨[], true⟩, .error (.raw .eof)) := by
  rw [read_empty h]
  rfl

/-- Nothing has arrived yet. -/
theorem read_waits (h : c.readBuf = []) : c.read A ⟨[], false⟩ n = none := by
  rw [read_empty h]
  rfl

/-- The same for a whole `Read`. -/
theorem read_append (hOpen : raw.ended = false) (h : c.read A raw n = some (c', raw', result))
    (more : Bytes) : c.read A (raw.append more) n = some (c', raw'.append more, result) := by
  by_cases hBuf : c.readBuf = []
  · rw [read_empty hBuf] at h ⊢
    cases hFrame : takeFrame raw with
    | none =>
      rw [hFrame] at h
      cases h
    | some r =>
      obtain ⟨raw₁, taken⟩ := r
      rw [hFrame] at h
      rw [takeFrame_append hOpen hFrame more]
      cases taken with
      | error e =>
        cases h
        rfl
      | ok ct =>
        dsimp only at h ⊢
        cases hOpened : A.openBox c.recvKey (nonceFor c.recvCount) ct with
        | none | some p =>
          rw [hOpened] at h
          cases h
          rfl
  · rw [read_buffered hBuf] at h ⊢
    cases h
    rfl

theorem sealBox_ne_nil (A : AEAD) (key nonce p : Bytes) : A.sealBox key nonce p ≠ [] := by
  intro hNil
  have hLength := A.length_sealBox key nonce p
  rw [hNil] at hLength
  cases hLength

theorem length_sealBox_le (A : AEAD) (key nonce : Bytes) (h : Fits p) :
    (A.sealBox key nonce p).length ≤ maxFrameSize := by
  rw [A.length_sealBox]
  exact h

/-- The frame that is expected is opened; one with an empty payload looks like
the end of the stream. -/
theorem read_frame (A : AEAD) (c : SecureConn) (rest : Bytes) (ended : Bool) (n : Nat)
    (h : c.readBuf = []) (hFits : Fits p) :
    c.read A ⟨A.frame c.recvKey c.recvCount p ++ rest, ended⟩ n =
      some ({ c with recvCount := c.recvCount + 1, readBuf := p.drop n }, ⟨rest, ended⟩,
        if p = [] ∧ n ≠ 0 then .error .eof else .ok (p.take n)) := by
  rw [read_empty h, AEAD.frame,
    takeFrame_framed _ _ _ (sealBox_ne_nil A _ _ p) (length_sealBox_le A _ _ hFits)]
  dsimp only
  rw [A.openBox_sealBox]

/-- A frame that does not open under the counter it is met at. -/
theorem read_frame_bad (A : AEAD) (c : SecureConn) (rest : Bytes) (ended : Bool) (n : Nat)
    {counter : UInt64} (h : c.readBuf = []) (hFits : Fits p)
    (hBad : A.openBox c.recvKey (nonceFor c.recvCount) (A.sealBox c.recvKey (nonceFor counter) p) =
      none) :
    c.read A ⟨A.frame c.recvKey counter p ++ rest, ended⟩ n =
      some ({ c with recvCount := c.recvCount + 1 }, ⟨rest, ended⟩, .error .decryptFailed) := by
  rw [read_empty h, AEAD.frame,
    takeFrame_framed _ _ _ (sealBox_ne_nil A _ _ p) (length_sealBox_le A _ _ hFits)]
  dsimp only
  rw [hBad]

end SecureConn

end Calls

/-- A cipher that only marks its texts: sixteen bytes made of the nonce and
the key follow the payload. -/
def marker (key nonce : Bytes) : Bytes := (nonce ++ key ++ List.replicate 16 0).take 16

theorem length_marker (key nonce : Bytes) : (marker key nonce).length = 16 := by
  rw [marker, length_take, length_append, length_replicate]
  omega

def marking : AEAD where
  sealBox key nonce p := p ++ marker key nonce
  openBox key nonce ct :=
    if ct.drop (ct.length - 16) = marker key nonce then some (ct.take (ct.length - 16)) else none
  length_sealBox key nonce p := by rw [length_append, length_marker]
  openBox_sealBox key nonce p := by
    simp [length_marker]

end AltNet
