import AltNet.Lib.Trace
import AltNet.Secure.Conn

/-!
# AltNet — what a reader can trust (`core/secure/secure.go`)

Two honest ends, each writing and reading, and between them a network that
does as it likes: whatever bytes a reader is delivered, whenever and in
whatever order, are the network's choice, and so is the end of the stream,
which may turn out not to have been one.

The cipher is ideal in the sense that in the runs considered an `Open` that
succeeds is of a ciphertext that a `Seal` has produced under the same key and
nonce, and returns what was sealed (`Channel.IdealOpen`). Frames of the same
direction are told apart by their counters only. A counter has 64 bits and
there is no rekeying: after 2^64 `Write` calls the nonces repeat.

Main results:

* `channel_integrity` — what a reader has been given before its first error is
  a prefix of what the other end has put on the wire, as long as that end has
  written fewer than 2^64 times;
* `counter_repeats` — after 2^64 frames the first one is taken again.
-/

namespace AltNet

open List SecureConn

/-- One end: its connection, the raw bytes it has been delivered, the payloads
of its `Write` calls and of those among them that went on the wire, and what
its `Read` calls returned. -/
structure Party where
  conn : SecureConn
  raw : Stream
  writes : List Bytes
  wire : List Bytes
  reads : List (Except ReadError Bytes)

/-- The end after a `Write`. -/
def Party.write (A : AEAD) (p : Party) (payload : Bytes) : Party :=
  { p with
    conn := (p.conn.write A payload).1
    writes := p.writes ++ [payload]
    wire := match (p.conn.write A payload).2 with
      | .ok _ => p.wire ++ [payload]
      | .error _ => p.wire }

/-- A call of `Seal`. -/
structure Sealing where
  key : Bytes
  nonce : Bytes
  plain : Bytes
  ct : Bytes
  deriving DecidableEq

structure Channel where
  party : Role → Party
  seals : List Sealing

inductive ChannelAction where
  | write (r : Role) (p : Bytes)
  | read (r : Role) (n : Nat)
  | deliver (r : Role) (bytes : Bytes)
  | setEnded (r : Role) (ended : Bool)

/-- The two keys of `finishHandshake`, by the end that sends under them. -/
def sendKeyOf (keyI2R keyR2I : Bytes) : Role → Bytes
  | .initiator => keyI2R
  | .responder => keyR2I

namespace Channel

/-- Both ends after the handshake. -/
def init (keyOf : Role → Bytes) : Channel where
  party := fun r => ⟨.new (keyOf r) (keyOf r.other) [], ⟨[], false⟩, [], [], []⟩
  seals := []

def setParty (s : Channel) (r : Role) (p : Party) : Channel :=
  { s with party := Function.update s.party r p }

/-- The next state; `none` when the step cannot be taken. -/
def next (A : AEAD) (s : Channel) : ChannelAction → Option Channel
  | .write r p =>
    let key := (s.party r).conn.sendKey
    let nonce := nonceFor (s.party r).conn.sendCount
    some { s.setParty r ((s.party r).write A p) with
      seals := ⟨key, nonce, p, A.sealBox key nonce p⟩ :: s.seals }
  | .read r n =>
    ((s.party r).conn.read A (s.party r).raw n).map fun (conn, raw, result) =>
      s.setParty r { s.party r with conn, raw, reads := (s.party r).reads ++ [result] }
  | .deliver r bytes => some (s.setParty r { s.party r with raw := (s.party r).raw.append bytes })
  | .setEnded r ended =>
    some (s.setParty r { s.party r with raw := { (s.party r).raw with ended } })

/-- The `Open` that the step makes, if it succeeds. -/
def opened (A : AEAD) (s : Channel) : ChannelAction → Option Sealing
  | .read r _ =>
    let key := (s.party r).conn.recvKey
    let nonce := nonceFor (s.party r).conn.recvCount
    if (s.party r).conn.readBuf = [] then
      match takeFrame (s.party r).raw with
      | some (_, .ok ct) => (A.openBox key nonce ct).map fun p => ⟨key, nonce, p, ct⟩
      | _ => none
    else none
  | _ => none

/-- The cipher is ideal at this step: what it opens has been sealed, under the
same key and nonce, and what was sealed comes out. -/
def IdealOpen (A : AEAD) (s : Channel) (a : ChannelAction) : Prop :=
  ∀ x ∈ s.opened A a, x ∈ s.seals

theorem opened_read {A : AEAD} {s : Channel} {r : Role} {n : Nat} {raw : Stream} {ct p : Bytes}
    (hBuf : (s.party r).conn.readBuf = [])
    (hFrame : takeFrame (s.party r).raw = some (raw, .ok ct))
    (hOpen : A.openBox (s.party r).conn.recvKey (nonceFor (s.party r).conn.recvCount) ct =
      some p) :
    s.opened A (.read r n) =
      some ⟨(s.party r).conn.recvKey, nonceFor (s.party r).conn.recvCount, p, ct⟩ := by
  simp [opened, hBuf, hFrame, hOpen]

end Channel

open Channel

/-- The `Seal` of the `Write` number `i` under this key. -/
def sealing (A : AEAD) (key : Bytes) (i : Nat) (p : Bytes) : Sealing :=
  ⟨key, nonceFor (UInt64.ofNat i), p, A.sealBox key (nonceFor (UInt64.ofNat i)) p⟩

/-! ## The writing side -/

/-- Keys and counters are where the number of `Write` calls puts them. -/
structure Party.Sane (keyOf : Role → Bytes) (r : Role) (p : Party) : Prop where
  sendKey : p.conn.sendKey = keyOf r
  recvKey : p.conn.recvKey = keyOf r.other
  sendCount : p.conn.sendCount = UInt64.ofNat p.writes.length
  wire : p.wire = p.writes.filter fun q => decide (Fits q)

/-- Every `Seal` belongs to a `Write`. -/
structure Channel.Sane (A : AEAD) (keyOf : Role → Bytes) (s : Channel) : Prop where
  party : ∀ r, (s.party r).Sane keyOf r
  seals : ∀ x ∈ s.seals, ∃ r i p, (s.party r).writes[i]? = some p ∧ x = sealing A (keyOf r) i p

variable {conn : SecureConn} {p reader : Party} {raw : Stream} {result : Except ReadError Bytes}

/-- A `Write` seals under the next counter and is on the wire if it fits. -/
theorem Party.Sane.write {A : AEAD} {keyOf : Role → Bytes} {r : Role} (h : p.Sane keyOf r)
    (payload : Bytes) : (p.write A payload).Sane keyOf r := by
  have hCount : p.conn.sendCount + 1 = UInt64.ofNat (p.writes ++ [payload]).length := by
    rw [h.sendCount, length_append, length_singleton, UInt64.ofNat_add]
    rfl
  by_cases hFits : Fits payload
  · unfold Party.write
    rw [write_fits A p.conn hFits]
    refine ⟨h.sendKey, h.recvKey, hCount, ?_⟩
    rw [filter_append, ← h.wire]
    simp [hFits]
  · unfold Party.write
    rw [write_tooLarge A p.conn hFits]
    refine ⟨h.sendKey, h.recvKey, hCount, ?_⟩
    rw [filter_append, ← h.wire]
    simp [hFits]

namespace Channel

variable {A : AEAD} {keyOf : Role → Bytes} {s s' : Channel} {r : Role}

@[simp] theorem setParty_same (p : Party) : (s.setParty r p).party r = p := by
  simp [setParty]

theorem setParty_ne {r' : Role} (p : Party) (h : r' ≠ r) :
    (s.setParty r p).party r' = s.party r' := by
  simp [setParty, h]

theorem Sane.init (A : AEAD) (keyOf : Role → Bytes) : (init keyOf).Sane A keyOf where
  party := fun _ => ⟨rfl, rfl, rfl, rfl⟩
  seals := nofun

/-- One end changes, with no `Write` forgotten and every new `Seal` accounted
for. -/
theorem Sane.setParty (h : s.Sane A keyOf) {p : Party} (hParty : p.Sane keyOf r)
    (hWrites : (s.party r).writes <+: p.writes) {seals : List Sealing}
    (hSeals : ∀ x ∈ seals, x ∈ s.seals ∨
      ∃ i q, p.writes[i]? = some q ∧ x = sealing A (keyOf r) i q) :
    { s.setParty r p with seals }.Sane A keyOf := by
  constructor
  · intro r'
    by_cases hr : r' = r
    · subst hr
      exact (setParty_same p).symm ▸ hParty
    · exact (setParty_ne p hr).symm ▸ h.party r'
  · intro x hx
    rcases hSeals x hx with hOld | ⟨i, q, hq, hEq⟩
    · obtain ⟨r', i, q, hq, hEq⟩ := h.seals x hOld
      refine ⟨r', i, q, ?_, hEq⟩
      by_cases hr : r' = r
      · subst hr
        show ((s.setParty r' p).party r').writes[i]? = some q
        rw [setParty_same]
        obtain ⟨rest, hRest⟩ := hWrites
        have hLt : i < (s.party r').writes.length := (List.getElem?_eq_some_iff.mp hq).1
        rw [← hRest, getElem?_append_left hLt]
        exact hq
      · show ((s.setParty r p).party r').writes[i]? = some q
        rw [setParty_ne p hr]
        exact hq
    · refine ⟨r, i, q, ?_, hEq⟩
      show ((s.setParty r p).party r).writes[i]? = some q
      rw [setParty_same]
      exact hq

/-- A step of the receiving side. -/
theorem Sane.setReader (h : s.Sane A keyOf) (conn : SecureConn)
    (hSend : conn.sendKey = (s.party r).conn.sendKey)
    (hRecv : conn.recvKey = (s.party r).conn.recvKey)
    (hCount : conn.sendCount = (s.party r).conn.sendCount) (raw : Stream)
    (reads : List (Except ReadError Bytes)) :
    (s.setParty r { s.party r with conn, raw, reads }).Sane A keyOf := by
  have hOk := h.party r
  refine h.setParty (p := { s.party r with conn, raw, reads }) ?_ (prefix_refl _)
    fun x hx => Or.inl hx
  exact ⟨hSend.trans hOk.sendKey, hRecv.trans hOk.recvKey, hCount.trans hOk.sendCount, hOk.wire⟩

/-- **Every step keeps the books.** -/
theorem Sane.step {a : ChannelAction} (h : s.Sane A keyOf) (hStep : s.next A a = some s') :
    s'.Sane A keyOf := by
  cases a with
  | write r p =>
    cases hStep
    refine h.setParty ((h.party r).write p) (prefix_append _ _) fun x hx => ?_
    rcases mem_cons.mp hx with rfl | hOld
    · right
      refine ⟨(s.party r).writes.length, p, getElem?_concat_length, ?_⟩
      rw [(h.party r).sendKey, (h.party r).sendCount]
      rfl
    · exact Or.inl hOld
  | read r n =>
    obtain ⟨⟨conn, raw, result⟩, hRead, rfl⟩ := Option.map_eq_some_iff.mp hStep
    have hSending : conn.sendKey = (s.party r).conn.sendKey ∧
        conn.recvKey = (s.party r).conn.recvKey ∧
        conn.sendCount = (s.party r).conn.sendCount := by
      rcases read_cases hRead with ⟨-, rfl, -⟩ | ⟨_, _, rfl, -⟩ |
        ⟨-, _, _, -, -, rfl, -⟩ <;> exact ⟨rfl, rfl, rfl⟩
    exact h.setReader conn hSending.1 hSending.2.1 hSending.2.2 raw _
  | deliver r bytes | setEnded r ended =>
    cases hStep
    exact h.setReader (s.party r).conn rfl rfl rfl _ (s.party r).reads

end Channel

/-! ## The reading side -/

/-- The reader has opened the frames of the first `Write` calls, one after the
other: they all were small enough to be sent, and what has been returned and
what is buffered is their payload. -/
def Party.InStep (reader : Party) (writes : List Bytes) : Prop :=
  ∃ k ≤ writes.length, reader.conn.recvCount = UInt64.ofNat k ∧
    (∀ p ∈ writes.take k, Fits p) ∧
    beforeError reader.reads ++ reader.conn.readBuf = (writes.take k).flatten

namespace Channel

variable {A : AEAD} {keyOf : Role → Bytes} {s s' : Channel} {r : Role}

/-- What the reader at `r` has, as long as the other end has not come to the
end of its counter. -/
def Reads (r : Role) (s : Channel) : Prop :=
  (s.party r.other).writes.length < 2 ^ 64 →
    (NoError (s.party r).reads → (s.party r).InStep (s.party r.other).writes) ∧
    beforeError (s.party r).reads <+: (s.party r.other).wire.flatten

/-- Frames that have been opened in order were sent in order. -/
theorem InStep.received {writes wire : List Bytes} (h : reader.InStep writes)
    (hWire : wire = writes.filter fun p => decide (Fits p)) :
    beforeError reader.reads <+: wire.flatten := by
  obtain ⟨k, -, -, hFits, hSum⟩ := h
  have hAll : (writes.take k).filter (fun p => decide (Fits p)) = writes.take k :=
    filter_eq_self.mpr fun p hp => decide_eq_true (hFits p hp)
  have hTake : writes.take k <+: wire := by
    rw [hWire, ← hAll]
    exact ( take_prefix k writes).filter _
  have hFlat : (writes.take k).flatten <+: wire.flatten := by
    obtain ⟨rest, rfl⟩ := hTake
    exact ⟨rest.flatten, by rw [flatten_append]⟩
  exact (prefix_append _ _).trans (hSum ▸ hFlat)

/-- More `Write` calls do not disturb a reader. -/
theorem InStep.mono {writes writes' : List Bytes} (h : reader.InStep writes)
    (hMore : writes <+: writes') : reader.InStep writes' := by
  obtain ⟨k, hk, hCount, hFits, hSum⟩ := h
  obtain ⟨rest, rfl⟩ := hMore
  have hTake : (writes ++ rest).take k = writes.take k := take_append_of_le_length hk
  refine ⟨k, hk.trans (by simp), hCount, ?_, ?_⟩
  · rw [hTake]
    exact hFits
  · rw [hTake]
    exact hSum

/-- **The frame that opens is the next one.** Its counter is that of one
`Write` only, and its length says that it has been sent. -/
theorem Sane.opened (h : s.Sane A keyOf) (hKeys : Function.Injective keyOf)
    (hFew : (s.party r.other).writes.length < 2 ^ 64) {k : Nat}
    (hk : k ≤ (s.party r.other).writes.length)
    (hCount : (s.party r).conn.recvCount = UInt64.ofNat k) {ct p : Bytes}
    (hSize : ct.length ≤ maxFrameSize)
    (hSealed : ⟨(s.party r).conn.recvKey, nonceFor (s.party r).conn.recvCount, p, ct⟩ ∈ s.seals) :
    (s.party r.other).writes[k]? = some p ∧ Fits p := by
  obtain ⟨r', i, q, hq, hEq⟩ := h.seals _ hSealed
  obtain ⟨hKey, hNonce, rfl, hCt⟩ := Sealing.mk.inj hEq
  rw [(h.party r).recvKey] at hKey
  obtain rfl := hKeys hKey
  have hi : i < (s.party r.other).writes.length := (List.getElem?_eq_some_iff.mp hq).1
  have hIndex : i = k := by
    rw [hCount] at hNonce
    exact ofNat_inj_of_lt (by omega) (by omega) (nonceFor_injective hNonce).symm
  subst hIndex
  refine ⟨hq, ?_⟩
  rw [hCt, A.length_sealBox] at hSize
  exact hSize

/-- A `Read` of the reader itself. -/
theorem InStep.read (h : s.Sane A keyOf) (hKeys : Function.Injective keyOf)
    (hFew : (s.party r.other).writes.length < 2 ^ 64)
    (hIn : (s.party r).InStep (s.party r.other).writes) (hOk : NoError (s.party r).reads)
    {n : Nat} (hIdeal : s.IdealOpen A (.read r n))
    (hRead : (s.party r).conn.read A (s.party r).raw n = some (conn, raw, result))
    (hOk' : NoError ((s.party r).reads ++ [result])) :
    Party.InStep { s.party r with conn, raw, reads := (s.party r).reads ++ [result] }
      (s.party r.other).writes := by
  obtain ⟨k, hk, hCount, hFits, hSum⟩ := hIn
  rcases read_cases hRead with ⟨-, rfl, rfl⟩ | ⟨_, e, -, rfl⟩ |
      ⟨hBuf, ct, p, hFrame, hOpen, rfl, rfl⟩
  · -- out of the buffer
    refine ⟨k, hk, hCount, hFits, ?_⟩
    show beforeError (_ ++ _) ++ List.drop n _ = _
    rw [beforeError_append_ok hOk, append_assoc, take_append_drop, hSum]
  · exact absurd hOk' (not_noError_append_error _ e)
  · -- a frame is opened
    have hSealed := hIdeal _ (opened_read hBuf hFrame hOpen)
    obtain ⟨hNext, hFitsP⟩ := h.opened hKeys hFew hk hCount (takeFrame_ok hFrame) hSealed
    have hLt : k < (s.party r.other).writes.length := (List.getElem?_eq_some_iff.mp hNext).1
    have hTake : (s.party r.other).writes.take (k + 1) =
        (s.party r.other).writes.take k ++ [p] := by
      rw [take_add_one, hNext]
      rfl
    refine ⟨k + 1, hLt, ?_, ?_, ?_⟩
    · show (s.party r).conn.recvCount + 1 = _
      rw [hCount, UInt64.ofNat_add]
      rfl
    · rw [hTake]
      intro q hq
      rcases mem_append.mp hq with hq | hq
      · exact hFits q hq
      · rw [mem_singleton.mp hq]
        exact hFitsP
    · rw [hBuf, append_nil] at hSum
      split at hOk'
      · exact absurd hOk' (not_noError_append_error _ _)
      rename_i hReturned
      rw [hTake, flatten_append, flatten_singleton, ← hSum]
      show beforeError (_ ++ [if p = [] ∧ n ≠ 0 then _ else _]) ++ List.drop n p = _
      rw [if_neg hReturned, beforeError_append_ok hOk, append_assoc, take_append_drop]

/-- A step that the reader does not see: the other end only writes more. -/
theorem Reads.congr (h : s.Reads r)
    (hCount : (s'.party r).conn.recvCount = (s.party r).conn.recvCount)
    (hBuf : (s'.party r).conn.readBuf = (s.party r).conn.readBuf)
    (hReads : (s'.party r).reads = (s.party r).reads)
    (hWrites : (s.party r.other).writes <+: (s'.party r.other).writes)
    (hWire : (s.party r.other).wire <+: (s'.party r.other).wire) : s'.Reads r := by
  intro hFew
  obtain ⟨hIn, hGot⟩ := h (hWrites.length_le.trans_lt hFew)
  rw [hReads]
  constructor
  · intro hOk
    obtain ⟨k, hk, hIndex, hFits, hSum⟩ := InStep.mono (hIn hOk) hWrites
    refine ⟨k, hk, hCount.trans hIndex, hFits, ?_⟩
    rw [hReads, hBuf]
    exact hSum
  · obtain ⟨rest, hRest⟩ := hWire
    rw [← hRest, flatten_append]
    exact hGot.trans (prefix_append _ _)

theorem Reads.init (keyOf : Role → Bytes) (r : Role) : (init keyOf).Reads r :=
  fun _ => ⟨fun _ => ⟨0, Nat.le_refl _, rfl, nofun, rfl⟩, nil_prefix⟩

theorem other_ne (r : Role) : r.other ≠ r := by
  cases r <;> decide

theorem eq_other_of_ne {r r' : Role} (h : r' ≠ r) : r' = r.other := by
  revert h
  cases r <;> cases r' <;> decide

/-- The other end does something. -/
theorem Reads.setOther (h : s.Reads r) (hWrites : (s.party r.other).writes <+: p.writes)
    (hWire : (s.party r.other).wire <+: p.wire) (seals : List Sealing) :
    { s.setParty r.other p with seals }.Reads r := by
  have hSelf : (s.setParty r.other p).party r = s.party r := setParty_ne p (other_ne r).symm
  have hOther : (s.setParty r.other p).party r.other = p := setParty_same p
  refine h.congr ?_ ?_ ?_ ?_ ?_
  · exact congrArg (fun q => q.conn.recvCount) hSelf
  · exact congrArg (fun q => q.conn.readBuf) hSelf
  · exact congrArg Party.reads hSelf
  · exact hOther.symm ▸ hWrites
  · exact hOther.symm ▸ hWire

/-- The end itself does something other than reading. -/
theorem Reads.setSelf (h : s.Reads r) (hCount : p.conn.recvCount = (s.party r).conn.recvCount)
    (hBuf : p.conn.readBuf = (s.party r).conn.readBuf) (hReads : p.reads = (s.party r).reads)
    (seals : List Sealing) : { s.setParty r p with seals }.Reads r := by
  have hSelf : (s.setParty r p).party r = p := setParty_same p
  have hOther : (s.setParty r p).party r.other = s.party r.other := setParty_ne p (other_ne r)
  refine h.congr ?_ ?_ ?_ ?_ ?_
  · exact (congrArg (fun q => q.conn.recvCount) hSelf).trans hCount
  · exact (congrArg (fun q => q.conn.readBuf) hSelf).trans hBuf
  · exact (congrArg Party.reads hSelf).trans hReads
  · exact hOther.symm ▸ prefix_refl _
  · exact hOther.symm ▸ prefix_refl _

/-- The network delivers something to one of the ends. -/
theorem Reads.setRaw (h : s.Reads r) (r' : Role) (raw : Stream) :
    (s.setParty r' { s.party r' with raw }).Reads r := by
  by_cases hr : r' = r
  · subst hr
    exact h.setSelf (p := { s.party r' with raw }) rfl rfl rfl s.seals
  · obtain rfl := eq_other_of_ne hr
    exact h.setOther (p := { s.party r.other with raw }) (prefix_refl _) (prefix_refl _)
      s.seals

/-- The end reads. After an error nothing counts any more. -/
theorem Reads.read (hReads : s.Reads r) (h : s.Sane A keyOf) (hKeys : Function.Injective keyOf)
    {n : Nat} (hIdeal : s.IdealOpen A (.read r n))
    (hRead : (s.party r).conn.read A (s.party r).raw n = some (conn, raw, result)) :
    (s.setParty r
      { s.party r with conn, raw, reads := (s.party r).reads ++ [result] }).Reads r := by
  intro hFew
  have hOther := setParty_ne (s := s)
    { s.party r with conn, raw, reads := (s.party r).reads ++ [result] } (other_ne r)
  rw [hOther] at hFew ⊢
  rw [setParty_same]
  obtain ⟨hIn, hGot⟩ := hReads hFew
  by_cases hOk : NoError (s.party r).reads
  · have hNext := InStep.read h hKeys hFew (hIn hOk) hOk hIdeal hRead
    refine ⟨hNext, ?_⟩
    by_cases hOk' : NoError ((s.party r).reads ++ [result])
    · exact InStep.received (hNext hOk') (h.party r.other).wire
    cases result with
    | ok bytes => exact absurd (hOk.append_ok bytes) hOk'
    | error e =>
      show beforeError (_ ++ [.error e]) <+: _
      rw [beforeError_append_error]
      exact hGot
  · refine ⟨fun hOk' => absurd (fun e he => hOk' e (mem_append_left _ he)) hOk, ?_⟩
    show beforeError (_ ++ [result]) <+: _
    rw [beforeError_append hOk]
    exact hGot

/-- **What one step does to a reader.** -/
theorem Reads.step {a : ChannelAction} (hReads : s.Reads r) (h : s.Sane A keyOf)
    (hKeys : Function.Injective keyOf) (hIdeal : s.IdealOpen A a)
    (hStep : s.next A a = some s') : s'.Reads r := by
  cases a with
  | write r' p =>
    cases hStep
    by_cases hr : r' = r
    · subst hr
      have hConn : (((s.party r').conn.write A p).1).recvCount = (s.party r').conn.recvCount ∧
          (((s.party r').conn.write A p).1).readBuf = (s.party r').conn.readBuf := by
        by_cases hFits : Fits p
        · rw [write_fits A _ hFits]
          exact ⟨rfl, rfl⟩
        · rw [write_tooLarge A _ hFits]
          exact ⟨rfl, rfl⟩
      exact hReads.setSelf (p := (s.party r').write A p) hConn.1 hConn.2 rfl _
    · obtain rfl := eq_other_of_ne hr
      refine hReads.setOther (prefix_append _ _) ?_ _
      show _ <+: match ((s.party r.other).conn.write A p).2 with
        | .ok _ => _
        | .error _ => _
      split
      · exact prefix_append _ _
      · exact prefix_refl _
  | read r' n =>
    obtain ⟨⟨conn, raw, result⟩, hRead, rfl⟩ := Option.map_eq_some_iff.mp hStep
    by_cases hr : r' = r
    · subst hr
      exact hReads.read h hKeys hIdeal hRead
    obtain rfl := eq_other_of_ne hr
    exact hReads.setOther
      (p := { s.party r.other with conn, raw, reads := (s.party r.other).reads ++ [result] })
      (prefix_refl _) (prefix_refl _) s.seals
  | deliver r' bytes | setEnded r' ended =>
    cases hStep
    exact hReads.setRaw r' _

end Channel

theorem sendKeyOf_injective {keyI2R keyR2I : Bytes} (h : keyI2R ≠ keyR2I) :
    Function.Injective (sendKeyOf keyI2R keyR2I) := by
  intro r r' hEq
  cases r <;> cases r'
  · rfl
  · exact absurd hEq h
  · exact absurd hEq.symm h
  · rfl

/-- **Integrity against an active network.** Both ends write and read, the
network delivers what it likes, the cipher is ideal and the two directions
have different keys. Then what an end has been given by its `Read` calls before
the first of them failed is a prefix of the payloads that the other end has put
on the wire, in their order, as long as that end has made fewer than 2^64
`Write` calls. -/
theorem channel_integrity (A : AEAD) {keyI2R keyR2I : Bytes} (hKeys : keyI2R ≠ keyR2I)
    {as : List ChannelAction} {s : Channel}
    (hRun : Exec (guarded (stepOf (next A)) (Channel.IdealOpen A))
      (init (sendKeyOf keyI2R keyR2I)) as s)
    (r : Role) (hFew : (s.party r.other).writes.length < 2 ^ 64) :
    beforeError (s.party r).reads <+: (s.party r.other).wire.flatten := by
  have hInv : s.Sane A (sendKeyOf keyI2R keyR2I) ∧ s.Reads r := by
    refine hRun.invariant (I := fun s => s.Sane A (sendKeyOf keyI2R keyR2I) ∧ s.Reads r)
      ⟨.init A _, .init _ r⟩ ?_
    rintro t a u ⟨hSane, hReads⟩ ⟨hStep, hIdeal⟩
    exact ⟨hSane.step hStep, hReads.step hSane (sendKeyOf_injective hKeys) hIdeal hStep⟩
  exact (hInv.2 hFew).2

/-- `IdealOpen`, evaluated. -/
def Channel.idealOpen (A : AEAD) (s : Channel) (a : ChannelAction) : Bool :=
  match s.opened A a with
  | some x => decide (x ∈ s.seals)
  | none => true

theorem Channel.idealOpen_spec {A : AEAD} {s : Channel} {a : ChannelAction}
    (h : s.idealOpen A a = true) : s.IdealOpen A a := by
  intro x hx
  have hOpened : s.opened A a = some x := hx
  unfold idealOpen at h
  rw [hOpened] at h
  exact of_decide_eq_true h

/-- Both ends write; the initiator's frame is delivered, and read in two
pieces; then it is delivered again, and after it a frame of the responder's
own. -/
def replayRun : List ChannelAction :=
  [.write .initiator [7, 8], .write .responder [9],
    .deliver .responder (marking.frame [1] 0 [7, 8]), .read .responder 1, .read .responder 5,
    .deliver .responder (marking.frame [1] 0 [7, 8] ++ marking.frame [2] 0 [9]),
    .read .responder 5, .read .responder 5]

/-- The reader gets the payload once, and errors after that. -/
theorem channel_integrity_replayRun :
    ∃ s, Exec (guarded (stepOf (next marking)) (Channel.IdealOpen marking))
        (init (sendKeyOf [1] [2])) replayRun s ∧
      (s.party .responder).reads =
        [.ok [7], .ok [8], .error .decryptFailed, .error .decryptFailed] ∧
      beforeError (s.party .responder).reads <+: (s.party .initiator).wire.flatten := by
  refine Exec.exists_of_checked (p := fun s => (s.party .responder).reads =
        [.ok [7], .ok [8], .error .decryptFailed, .error .decryptFailed] ∧
      (s.party .initiator).writes.length < 2 ^ 64)
    (next marking) (idealOpen marking)
    (fun hNext hOk => ⟨hNext, idealOpen_spec hOk⟩) (by decide +kernel) ?_
  rintro s hRun ⟨hReads, hFew⟩
  exact ⟨hReads, channel_integrity marking (by decide) hRun .responder hFew⟩

/-! ## The end of the counter -/

/-- The state of a channel by its two ends. -/
def Channel.of (initiator responder : Party) (seals : List Sealing) : Channel where
  party
    | .initiator => initiator
    | .responder => responder
  seals := seals

namespace Channel

variable {A : AEAD} {initiator responder p : Party} {seals : List Sealing}

theorem setParty_initiator :
    (of initiator responder seals).setParty .initiator p = of p responder seals := by
  unfold setParty of
  congr 1
  funext r
  cases r <;> rfl

theorem setParty_responder :
    (of initiator responder seals).setParty .responder p = of initiator p seals := by
  unfold setParty of
  congr 1
  funext r
  cases r <;> rfl

theorem next_write (payload : Bytes) :
    (of initiator responder seals).next A (.write .initiator payload) =
      some (of (initiator.write A payload) responder
        (⟨initiator.conn.sendKey, nonceFor initiator.conn.sendCount, payload,
          A.sealBox initiator.conn.sendKey (nonceFor initiator.conn.sendCount) payload⟩ ::
          seals)) := by
  have hSet : (of initiator responder seals).setParty .initiator (initiator.write A payload) =
      of (initiator.write A payload) responder seals := setParty_initiator
  show some (mk ((of initiator responder seals).setParty .initiator
    (initiator.write A payload)).party _) = _
  rw [hSet]
  rfl

theorem next_deliver (bytes : Bytes) :
    (of initiator responder seals).next A (.deliver .responder bytes) =
      some (of initiator { responder with raw := responder.raw.append bytes } seals) :=
  congrArg some setParty_responder

theorem next_read (initiator : Party) (seals : List Sealing) {n : Nat} {conn : SecureConn}
    {raw : Stream} {result : Except ReadError Bytes}
    (h : responder.conn.read A responder.raw n = some (conn, raw, result)) :
    (of initiator responder seals).next A (.read .responder n) =
      some (of initiator { responder with conn, raw, reads := responder.reads ++ [result] }
        seals) := by
  show (responder.conn.read A responder.raw n).map _ = _
  rw [h]
  exact congrArg some setParty_responder

end Channel

section Repeat

variable (A : AEAD) (keyI2R keyR2I : Bytes)

/-- The responder after `k` one-byte frames. -/
def responderAt (count : UInt64) (k : Nat) : Party :=
  ⟨⟨keyR2I, keyI2R, 0, count, [], []⟩, ⟨[], false⟩, [], [], List.replicate k (.ok [0])⟩

/-- The initiator after `k` one-byte `Write` calls. -/
def initiatorAt (k : Nat) : Party :=
  ⟨⟨keyI2R, keyR2I, UInt64.ofNat k, 0, [], []⟩, ⟨[], false⟩, List.replicate k [0],
    List.replicate k [0], []⟩

/-- The `Seal` calls of `k` one-byte `Write` calls. -/
def sealLog : Nat → List Sealing
  | 0 => []
  | k + 1 => sealing A keyI2R k [0] :: sealLog k

/-- The channel after the initiator's first `k` one-byte frames have been
delivered and read. -/
def afterRounds (k : Nat) : Channel :=
  .of (initiatorAt keyI2R keyR2I k) (responderAt keyI2R keyR2I (UInt64.ofNat k) k)
    (sealLog A keyI2R k)

theorem afterRounds_zero :
    afterRounds A keyI2R keyR2I 0 = init (sendKeyOf keyI2R keyR2I) := by
  unfold afterRounds of init
  congr 1
  funext r
  cases r <;> rfl

variable {A keyI2R keyR2I}

theorem sealing_mem_sealLog {i k : Nat} (h : i < k) :
    sealing A keyI2R i [0] ∈ sealLog A keyI2R k := by
  induction k with
  | zero => omega
  | succ k ih =>
    rcases Nat.lt_succ_iff_lt_or_eq.mp h with hLt | rfl
    · exact mem_cons_of_mem _ (ih hLt)
    · exact mem_cons_self

/-- The responder is delivered the frame that its counter stands at, and reads
it. -/
theorem exec_take (A : AEAD) (keyI2R keyR2I : Bytes) (initiator : Party) {seals : List Sealing}
    {i : Nat} (k : Nat) (hSealed : sealing A keyI2R i [0] ∈ seals) :
    Exec (guarded (stepOf (next A)) (Channel.IdealOpen A))
      (.of initiator (responderAt keyI2R keyR2I (UInt64.ofNat i) k) seals)
      [.deliver .responder (A.frame keyI2R (UInt64.ofNat i) [0]), .read .responder 1]
      (.of initiator (responderAt keyI2R keyR2I (UInt64.ofNat i + 1) (k + 1)) seals) := by
  have hFits : Fits [0] := by decide
  let arrived : Party := { responderAt keyI2R keyR2I (UInt64.ofNat i) k with
    raw := ⟨A.frame keyI2R (UInt64.ofNat i) [0], false⟩ }
  have hRead : arrived.conn.read A arrived.raw 1 =
      some ({ arrived.conn with recvCount := UInt64.ofNat i + 1, readBuf := [] }, ⟨[], false⟩,
        .ok [0]) := by
    have hFrame := read_frame A arrived.conn [] false 1 rfl hFits
    rw [append_nil] at hFrame
    exact hFrame
  have hTaken := next_read initiator seals hRead
  have hReads : List.replicate k (.ok [0] : Except ReadError Bytes) ++ [.ok [0]] =
      List.replicate (k + 1) (.ok [0]) := replicate_succ'.symm
  have hIdeal : Channel.IdealOpen A (.of initiator arrived seals) (.read .responder 1) := by
    have hFrame : takeFrame arrived.raw =
        some (⟨[], false⟩, .ok (A.sealBox keyI2R (nonceFor (UInt64.ofNat i)) [0])) := by
      have hFramed := takeFrame_framed (A.sealBox keyI2R (nonceFor (UInt64.ofNat i)) [0]) [] false
        (sealBox_ne_nil A _ _ _) (length_sealBox_le A _ _ hFits)
      rw [append_nil] at hFramed
      exact hFramed
    have hOpened : (of initiator arrived seals).opened A (.read .responder 1) =
        some (sealing A keyI2R i [0]) :=
      opened_read (s := .of initiator arrived seals) (r := .responder) rfl hFrame
        (A.openBox_sealBox _ _ _)
    intro x hx
    rw [hOpened] at hx
    cases hx
    exact hSealed
  refine .snoc (.single ⟨next_deliver _, nofun⟩) ⟨?_, hIdeal⟩
  refine hTaken.trans ?_
  unfold responderAt
  rw [← hReads]
  rfl

/-- One round: write, deliver, read. -/
theorem exec_round (k : Nat) :
    Exec (guarded (stepOf (next A)) (Channel.IdealOpen A)) (afterRounds A keyI2R keyR2I k)
      [.write .initiator [0], .deliver .responder (A.frame keyI2R (UInt64.ofNat k) [0]),
        .read .responder 1]
      (afterRounds A keyI2R keyR2I (k + 1)) := by
  have hWrite : (initiatorAt keyI2R keyR2I k).write A [0] = initiatorAt keyI2R keyR2I (k + 1) := by
    have hFits : Fits [0] := by decide
    unfold Party.write
    rw [write_fits A _ hFits]
    unfold initiatorAt
    dsimp only
    rw [ofNat_succ, replicate_succ']
  have hFirst : (afterRounds A keyI2R keyR2I k).next A (.write .initiator [0]) =
      some (.of (initiatorAt keyI2R keyR2I (k + 1))
        (responderAt keyI2R keyR2I (UInt64.ofNat k) k) (sealLog A keyI2R (k + 1))) := by
    refine (next_write _).trans ?_
    rw [hWrite]
    rfl
  have hRest := exec_take A keyI2R keyR2I (initiatorAt keyI2R keyR2I (k + 1)) k
    (sealing_mem_sealLog (Nat.lt_succ_self k))
  rw [ofNat_succ] at hRest
  exact .cons ⟨hFirst, nofun⟩ hRest

/-- Any number of rounds. -/
theorem exec_rounds (A : AEAD) (keyI2R keyR2I : Bytes) (k : Nat) :
    ∃ as, Exec (guarded (stepOf (next A)) (Channel.IdealOpen A))
      (init (sendKeyOf keyI2R keyR2I)) as (afterRounds A keyI2R keyR2I k) := by
  induction k with
  | zero =>
    rw [← afterRounds_zero A]
    exact ⟨[], .nil _⟩
  | succ k ih =>
    obtain ⟨as, hRun⟩ := ih
    exact ⟨_, hRun.trans (exec_round k)⟩

theorem length_beforeError_replicate (k : Nat) :
    (beforeError (List.replicate k (.ok [0]))).length = k := by
  induction k with
  | zero => rfl
  | succ k ih =>
    rw [replicate_succ, beforeError, length_append, ih]
    exact Nat.add_comm 1 k

/-- Once the counter is back at zero, the first frame is taken again. -/
theorem exec_replay {k : Nat} (hPos : 0 < k) (hWrap : UInt64.ofNat k = 0) :
    ∃ as s, Exec (guarded (stepOf (next A)) (Channel.IdealOpen A))
        (init (sendKeyOf keyI2R keyR2I)) as s ∧
      (s.party .initiator).writes.length = k ∧
      ¬ beforeError (s.party .responder).reads <+: (s.party .initiator).wire.flatten := by
  obtain ⟨as, hRun⟩ := exec_rounds A keyI2R keyR2I k
  have hAgain := exec_take A keyI2R keyR2I (initiatorAt keyI2R keyR2I k) k
    (sealing_mem_sealLog hPos)
  have hZero : UInt64.ofNat 0 = UInt64.ofNat k := hWrap.symm
  rw [hZero] at hAgain
  refine ⟨_, _, hRun.trans hAgain, length_replicate, fun hPrefix => ?_⟩
  have hLength := hPrefix.length_le
  have hRead : (beforeError (List.replicate (k + 1) (Except.ok [0]))).length = k + 1 :=
    length_beforeError_replicate (k + 1)
  have hSent : ((List.replicate k [(0 : UInt8)]).flatten).length = k := by
    rw [length_flatten, map_replicate, sum_replicate]
    exact Nat.mul_one k
  have hLe : k + 1 ≤ k := by
    rw [← hRead]
    exact hLength.trans_eq hSent
  omega

end Repeat

/-- **The counter repeats.** After 2^64 one-byte frames, all of them delivered
and read, both counters are back at zero: the network delivers the first frame
once more, and it is taken for the next one. -/
theorem counter_repeats :
    ∃ as s, Exec (guarded (stepOf (next marking)) (Channel.IdealOpen marking))
        (init (sendKeyOf [1] [2])) as s ∧
      (s.party .initiator).writes.length = 2 ^ 64 ∧
      ¬ beforeError (s.party .responder).reads <+: (s.party .initiator).wire.flatten :=
  exec_replay (Nat.two_pow_pos 64) rfl

end AltNet
