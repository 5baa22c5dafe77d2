import AltNet.Lib.JsonDecode
import AltNet.Lib.Pool
import AltNet.Lib.Trace
import AltNet.Peer.Message
import AltNet.Secure.Conn

/-!
# AltNet — messages on a connection (`core/peer/peer.go`)

The two ends of one connection. `sendOn` fills in who sends, signs the JSON
text of the message without a signature, and writes the text with the signature
behind its length; the two writes are one section of `writeMu`. `readLoop` takes
message after message off the bytes that have arrived.

Any number of calls of `sendOn` are under way at a time, and each step of each
of them is a step here. What arrives is any part of what was written, up to
some byte.

A write that fails is left out: the connection is broken then, and what was
written before arrives up to some byte.

Main results:

* `goJSON_unmarshal_marshal` — a message survives its JSON text;
* `readLoop_frames` — what the read loop makes of the frames of honest messages
  and a part of another one;
* `honest_messages_survive` — at every moment of every run, the messages that
  have been handed on are the first ones that were written.
-/

namespace AltNet

open List

/-! ## Messages as JSON -/

/-- The zero value of `Message`. -/
def Message.zero : Message := ⟨0, [], [], [], [], [], []⟩

/-- `Message` with its tags, as it is read. -/
def messageFields : FieldTable Message :=
  [("v".toList, fun j m => (decodeUint32 j m.v).map fun v => { m with v := v }),
   ("type".toList, fun j m => (decodeString j m.type).map fun s => { m with type := s }),
   ("from".toList, fun j m => (decodeString j m.sender).map fun s => { m with sender := s }),
   ("pk".toList, fun j m => (decodeString j m.publicKey).map fun s => { m with publicKey := s }),
   ("reqid".toList, fun j m => (decodeString j m.reqID).map fun s => { m with reqID := s }),
   ("payload".toList, fun j m => (decodeString j m.payload).map fun s => { m with payload := s }),
   ("sig".toList, fun j m => (decodeString j m.sig).map fun s => { m with sig := s })]

/-- `Message` with its tags, as it is written. -/
def Message.toJson (m : Message) : Json :=
  .obj (omitEmpty (m.v = 0) "v".toList (.num (formatInt m.v.toNat)) ++
    [("type".toList, .str m.type), ("from".toList, .str m.sender)] ++
    omitEmpty (m.publicKey = []) "pk".toList (.str m.publicKey) ++
    omitEmpty (m.reqID = []) "reqid".toList (.str m.reqID) ++
    [("payload".toList, .str m.payload)] ++
    omitEmpty (m.sig = []) "sig".toList (.str m.sig))

/-- `encoding/json` on messages. -/
def goJSON : MessageCodec where
  marshal m := marshal m.toJson
  unmarshal := unmarshal messageFields Message.zero

theorem messageFields_distinct : messageFields.Distinct := by decide +kernel

/-- The fields are read back one after the other, into a message that starts
out empty. -/
theorem Message.decodeRecord_toJson (m : Message) :
    decodeRecord messageFields m.toJson Message.zero = some m := by
  have hName := @decodeField_name _ _ messageFields_distinct
  obtain ⟨v, type, sender, publicKey, reqID, payload, sig⟩ := m
  have hV : Decodes messageFields (omitEmpty (v = 0) "v".toList (.num (formatInt v.toNat)))
      Message.zero ⟨v, [], [], [], [], [], []⟩ := by
    refine .omitEmpty ?_ fun hZero => by rw [of_decide_eq_true hZero]; rfl
    rw [hName 0 rfl, decodeUint32_formatInt]
    rfl
  have hType : Decodes messageFields [("type".toList, .str type)]
      ⟨v, [], [], [], [], [], []⟩ ⟨v, type, [], [], [], [], []⟩ := .single (hName 1 rfl _ _)
  have hFrom : Decodes messageFields [("from".toList, .str sender)]
      ⟨v, type, [], [], [], [], []⟩ ⟨v, type, sender, [], [], [], []⟩ := .single (hName 2 rfl _ _)
  have hKey : Decodes messageFields (omitEmpty (publicKey = []) "pk".toList (.str publicKey))
      ⟨v, type, sender, [], [], [], []⟩ ⟨v, type, sender, publicKey, [], [], []⟩ :=
    .omitEmpty (hName 3 rfl _ _) fun hNil => by rw [of_decide_eq_true hNil]
  have hReqID : Decodes messageFields (omitEmpty (reqID = []) "reqid".toList (.str reqID))
      ⟨v, type, sender, publicKey, [], [], []⟩ ⟨v, type, sender, publicKey, reqID, [], []⟩ :=
    .omitEmpty (hName 4 rfl _ _) fun hNil => by rw [of_decide_eq_true hNil]
  have hPayload : Decodes messageFields [("payload".toList, .str payload)]
      ⟨v, type, sender, publicKey, reqID, [], []⟩
      ⟨v, type, sender, publicKey, reqID, payload, []⟩ := .single (hName 5 rfl _ _)
  have hSig : Decodes messageFields (omitEmpty (sig = []) "sig".toList (.str sig))
      ⟨v, type, sender, publicKey, reqID, payload, []⟩
      ⟨v, type, sender, publicKey, reqID, payload, sig⟩ :=
    .omitEmpty (hName 6 rfl _ _) fun hNil => by rw [of_decide_eq_true hNil]
  exact ((((hV.append (hType.append hFrom)).append hKey).append hReqID).append hPayload).append hSig

/-- A message is an object of texts and one number. -/
theorem Message.toJson_flat (m : Message) : m.toJson.Integral ∧ m.toJson.depth ≤ 1 := by
  have hFields : ∀ kv ∈ (omitEmpty (m.v = 0) "v".toList (.num (formatInt m.v.toNat)) ++
      [("type".toList, .str m.type), ("from".toList, .str m.sender)] ++
      omitEmpty (m.publicKey = []) "pk".toList (.str m.publicKey) ++
      omitEmpty (m.reqID = []) "reqid".toList (.str m.reqID) ++
      [("payload".toList, .str m.payload)] ++
      omitEmpty (m.sig = []) "sig".toList (.str m.sig)), kv.2.Integral ∧ kv.2.depth ≤ 0 := by
    intro kv hkv
    simp only [mem_append, mem_cons, not_mem_nil, or_false] at hkv
    rcases hkv with ((((hV | rfl | rfl) | hKey) | hReqID) | rfl) | hSig
    · rw [mem_omitEmpty hV]
      exact ⟨Json.integral_num _, Nat.le_refl 0⟩
    · exact ⟨trivial, Nat.le_refl 0⟩
    · exact ⟨trivial, Nat.le_refl 0⟩
    · rw [mem_omitEmpty hKey]
      exact ⟨trivial, Nat.le_refl 0⟩
    · rw [mem_omitEmpty hReqID]
      exact ⟨trivial, Nat.le_refl 0⟩
    · exact ⟨trivial, Nat.le_refl 0⟩
    · rw [mem_omitEmpty hSig]
      exact ⟨trivial, Nat.le_refl 0⟩
  exact ⟨Json.integral_obj fun kv hkv => (hFields kv hkv).1,
    Json.depth_obj_le fun kv hkv => (hFields kv hkv).2⟩

theorem goJSON_marshal (m : Message) : goJSON.marshal m = marshal m.toJson := rfl

theorem goJSON_unmarshal (bs : Bytes) :
    goJSON.unmarshal bs = unmarshal messageFields Message.zero bs := rfl

/-- **A message survives its JSON text.** -/
theorem goJSON_unmarshal_marshal (m : Message) : goJSON.unmarshal (goJSON.marshal m) = some m := by
  rw [goJSON_marshal, goJSON_unmarshal]
  exact unmarshal_marshal m.toJson_flat.1 (m.toJson_flat.2.trans (by decide))
    m.decodeRecord_toJson

/-- What the results below need of a codec. -/
structure MessageCodec.Lawful (codec : MessageCodec) : Prop where
  unmarshal_marshal : ∀ m, codec.unmarshal (codec.marshal m) = some m
  marshal_ne_nil : ∀ m, codec.marshal m ≠ []

theorem goJSON_lawful : goJSON.Lawful where
  unmarshal_marshal := goJSON_unmarshal_marshal
  marshal_ne_nil m := by
    -- the text of an empty message would be read as nothing
    intro hNil
    have hRead := goJSON_unmarshal_marshal m
    rw [hNil] at hRead
    cases hRead

/-! ## Sending -/

/-- `ProtocolVersion`. -/
def protocolVersion : UInt32 := 1

section Send

variable {cr : Crypto} (id : Identity cr) (codec : MessageCodec)

/-- The message that `sendOn` signs: who sends it is filled in. -/
def Identity.unsigned (msg : Message) : Message :=
  { msg with
    v := protocolVersion
    sender := cr.publicKeyToID id.publicKey
    publicKey := publicKeyToHex id.publicKey
    sig := [] }

/-- The message that `sendOn` writes. -/
def Identity.signed (msg : Message) : Message :=
  { id.unsigned msg with sig := id.sign (codec.marshal (id.unsigned msg)) }

/-- The errors of `sendOn` before it writes. -/
inductive SendError where
  | tooLarge (size : Nat)
  deriving DecidableEq

/-- `sendOn` up to `writeMu.Lock`: the bytes that it is going to write behind
their length. -/
def Identity.seal (msg : Message) : Except SendError Bytes :=
  let signed := codec.marshal (id.signed codec msg)
  if maxMessageSize < signed.length then .error (.tooLarge signed.length) else .ok signed

/-- What stands on the stream for a message. -/
def Identity.frame (msg : Message) : Bytes := framed (codec.marshal (id.signed codec msg))

end Send

/-- Where a call of `sendOn` stands: before `writeMu.Lock`, before and between
the two writes, and at its end. -/
inductive SendPhase where
  | sealed (body : Bytes)
  | locked (body : Bytes)
  | sized (body : Bytes)
  | returned (err : Option SendError)
  deriving DecidableEq

structure SendCall where
  msg : Message
  phase : SendPhase

/-- The sending side of one connection. `written` is history: the calls that
have written their message, in order, each with its message. -/
structure SendSide where
  calls : List SendCall
  writeMu : Option Nat
  out : Bytes
  written : List (Nat × Message)

inductive SendAction where
  | send (msg : Message)
  | lock (i : Nat)
  | writeSize (i : Nat)
  | writeBody (i : Nat)

/-- How a call begins, and how it ends if its message is too large. -/
def SendPhase.start : Except SendError Bytes → SendPhase
  | .ok body => .sealed body
  | .error e => .returned (some e)

namespace SendSide

def init : SendSide := ⟨[], none, [], []⟩

/-- One step of one call of `sendOn`. The second write ends the call, and the
deferred unlock runs. -/
def next {cr : Crypto} (id : Identity cr) (codec : MessageCodec) (s : SendSide) :
    SendAction → Option SendSide
  | .send msg =>
    some { s with calls := s.calls ++ [⟨msg, SendPhase.start (id.seal codec msg)⟩] }
  | .lock i =>
    match s.calls[i]? with
    | some ⟨msg, .sealed body⟩ =>
      if s.writeMu = none then
        some { s with calls := s.calls.set i ⟨msg, .locked body⟩, writeMu := some i }
      else none
    | _ => none
  | .writeSize i =>
    match s.calls[i]? with
    | some ⟨msg, .locked body⟩ =>
      some { s with
        calls := s.calls.set i ⟨msg, .sized body⟩
        out := s.out ++ bigEndian 4 body.length }
    | _ => none
  | .writeBody i =>
    match s.calls[i]? with
    | some ⟨msg, .sized body⟩ =>
      some
        { calls := s.calls.set i ⟨msg, .returned none⟩
          writeMu := none
          out := s.out ++ body
          written := s.written ++ [(i, msg)] }
    | _ => none

end SendSide

open SendSide

/-! ## Reading -/

/-- Where `readLoop` stands: what it has handed to `handleMessage`, the
connection, and whether it has ended. -/
structure ReadLoop where
  handled : List Message
  pc : PeerConn
  ended : Bool

/-- At most so many turns of `readLoop`. -/
def readTurns (cr : Crypto) (codec : MessageCodec) : Nat → PeerConn → Bytes → ReadLoop
  | 0, pc, _ => ⟨[], pc, false⟩
  | turns + 1, pc, input =>
    match takeMessage cr codec pc input with
    | .blocked => ⟨[], pc, false⟩
    | .drop => ⟨[], pc, true⟩
    | .message msg pc rest =>
      { readTurns cr codec turns pc rest with
        handled := msg :: (readTurns cr codec turns pc rest).handled }

/-- `readLoop` on what has arrived. Every turn takes a byte at least. -/
def readLoop (cr : Crypto) (codec : MessageCodec) (pc : PeerConn) (arrived : Bytes) : ReadLoop :=
  readTurns cr codec (arrived.length + 1) pc arrived

/-! ## Frames -/

theorem bigEndianUint32_eq (b0 b1 b2 b3 : UInt8) :
    bigEndianUint32 b0 b1 b2 b3 = bytesToNat [b0, b1, b2, b3] := by
  simp only [bigEndianUint32, bytesToNat, length_cons, length_nil]
  omega

/-- The length of a body as `readLoop` reads it. -/
theorem exists_size {body : Bytes} (hMax : body.length ≤ maxMessageSize) :
    ∃ b0 b1 b2 b3, bigEndian 4 body.length = [b0, b1, b2, b3] ∧
      bigEndianUint32 b0 b1 b2 b3 = body.length := by
  refine ⟨_, _, _, _, rfl, ?_⟩
  rw [bigEndianUint32_eq]
  exact bytesToNat_uint32 (hMax.trans_lt (by decide))

theorem readFrame_framed {body : Bytes} (rest : Bytes) (hPos : body ≠ [])
    (hMax : body.length ≤ maxMessageSize) : readFrame (framed body ++ rest) = .body body rest := by
  obtain ⟨b0, b1, b2, b3, hBytes, hSize⟩ := exists_size hMax
  have hLength : 0 < body.length := length_pos_iff.mpr hPos
  rw [framed, hBytes]
  show readFrame (b0 :: b1 :: b2 :: b3 :: (body ++ rest)) = _
  rw [readFrame, hSize, if_neg (by omega), if_neg (by rw [length_append]; omega),
    take_left, drop_left]

/-- A frame that has not arrived to its end keeps the loop waiting. -/
theorem readFrame_part {body part : Bytes} (hPos : body ≠ [])
    (hMax : body.length ≤ maxMessageSize) (hPart : part <+: framed body)
    (hShort : part ≠ framed body) : readFrame part = .incomplete := by
  obtain ⟨b0, b1, b2, b3, hBytes, hSize⟩ := exists_size hMax
  have hLess : part.length < (framed body).length :=
    lt_of_le_of_ne hPart.length_le fun hEq => hShort (hPart.eq_of_length hEq)
  rw [framed, hBytes] at hPart hLess
  match part, hPart, hLess with
  | [], _, _ | [_], _, _ | [_, _], _, _ | [_, _, _], _, _ => rfl
  | a0 :: a1 :: a2 :: a3 :: more, hPart, hLess =>
    simp only [cons_append, nil_append, cons_prefix_cons, length_cons]
      at hPart hLess
    obtain ⟨rfl, rfl, rfl, rfl, -⟩ := hPart
    have hLength : 0 < body.length := length_pos_iff.mpr hPos
    rw [readFrame, hSize, if_neg (by omega), if_pos (by omega)]

section Honest

variable {cr : Crypto} {id : Identity cr} {codec : MessageCodec} {pc : PeerConn} {msg : Message}

/-- The connection has no key yet, or the one of the sender. -/
def PeerConn.Admits (pc : PeerConn) (id : Identity cr) : Prop :=
  pc.remotePub = none ∨ pc.remotePub = some id.publicKey

/-- Without its signature a written message is the message that was signed. -/
theorem Identity.signed_without_sig (id : Identity cr) (codec : MessageCodec) (msg : Message) :
    { id.signed codec msg with sig := [] } = id.unsigned msg := rfl

theorem verifyMessage_signed (hKey : pc.Admits id) (msg : Message) :
    ∃ pc' : PeerConn, verifyMessage cr codec pc (id.signed codec msg) = .ok pc' ∧
      pc'.Admits id := by
  have hPub : publicKeyFromHex (id.signed codec msg).publicKey = some id.publicKey :=
    id.publicKeyFromHex_publicKey
  have hGiven : (id.signed codec msg).publicKey ≠ [] := by
    intro hNil
    rw [hNil] at hPub
    cases hPub
  have hFrom : ¬ ((id.signed codec msg).sender ≠ [] ∧
      (id.signed codec msg).sender ≠ cr.publicKeyToID id.publicKey) := fun h => h.2 rfl
  have hSame : ¬ (pc.remotePub ≠ none ∧ pc.remotePub ≠ some id.publicKey) := fun h =>
    hKey.elim h.1 h.2
  have hSig : cr.verify id.publicKey (codec.marshal { id.signed codec msg with sig := [] })
      (id.signed codec msg).sig ≠ false := by
    rw [Identity.signed_without_sig]
    exact ne_of_eq_of_ne (id.verify_sign _) (by decide)
  have hVersion : ¬ effectiveVersion (id.signed codec msg).v < minSupportedVersion := by
    show ¬ effectiveVersion protocolVersion < minSupportedVersion
    decide
  unfold verifyMessage
  rw [if_neg hVersion, if_neg hGiven, hPub]
  dsimp only
  rw [if_neg hFrom, if_neg hSame, if_neg hSig]
  by_cases hNone : pc.remotePub = none
  · rw [if_pos hNone]
    exact ⟨_, rfl, Or.inr rfl⟩
  · rw [if_neg hNone]
    exact ⟨pc, rfl, hKey⟩

/-- The message is small enough to be sent. -/
def Identity.Sendable (id : Identity cr) (codec : MessageCodec) (msg : Message) : Prop :=
  (codec.marshal (id.signed codec msg)).length ≤ maxMessageSize

theorem takeMessage_frame (hCodec : codec.Lawful) (hKey : pc.Admits id)
    (hFits : id.Sendable codec msg) (rest : Bytes) :
    ∃ pc' : PeerConn, takeMessage cr codec pc (id.frame codec msg ++ rest) =
      .message (id.signed codec msg) pc' rest ∧ pc'.Admits id := by
  obtain ⟨pc', hVerify, hKey'⟩ := verifyMessage_signed hKey msg
  refine ⟨pc', ?_, hKey'⟩
  unfold takeMessage Identity.frame
  rw [readFrame_framed rest (hCodec.marshal_ne_nil _) hFits]
  dsimp only
  rw [hCodec.unmarshal_marshal]
  dsimp only
  rw [hVerify]

/-- Frame after frame is taken, and then the loop waits. -/
theorem readTurns_frames (hCodec : codec.Lawful) {part : Bytes}
    (hPart : readFrame part = .incomplete) (msgs : List Message)
    (hFits : ∀ m ∈ msgs, id.Sendable codec m) {turns : Nat} (hTurns : msgs.length < turns)
    (hKey : pc.Admits id) :
    (readTurns cr codec turns pc (msgs.flatMap (id.frame codec) ++ part)).handled =
      msgs.map (id.signed codec) ∧
    (readTurns cr codec turns pc (msgs.flatMap (id.frame codec) ++ part)).ended = false := by
  induction msgs generalizing turns pc with
  | nil =>
    obtain ⟨turns, rfl⟩ := Nat.exists_eq_add_of_lt hTurns
    have hWait : takeMessage cr codec pc part = .blocked := by
      rw [takeMessage, hPart]
    simp [readTurns, hWait]
  | cons m msgs ih =>
    obtain ⟨turns, rfl⟩ : ∃ n, turns = n + 1 := Nat.exists_eq_succ_of_ne_zero (by omega)
    rw [length_cons] at hTurns
    obtain ⟨pc', hTake, hKey'⟩ := takeMessage_frame hCodec hKey (hFits m mem_cons_self)
      (msgs.flatMap (id.frame codec) ++ part)
    obtain ⟨hHandled, hEnded⟩ := ih (fun m' hm => hFits m' (mem_cons_of_mem _ hm))
      (Nat.lt_of_succ_lt_succ hTurns) hKey'
    rw [flatMap_cons, append_assoc, readTurns, hTake]
    exact ⟨congrArg (id.signed codec m :: ·) hHandled, hEnded⟩

theorem length_le_flatMap_frame (id : Identity cr) (codec : MessageCodec) (msgs : List Message) :
    msgs.length ≤ (msgs.flatMap (id.frame codec)).length := by
  induction msgs with
  | nil => exact Nat.le_refl 0
  | cons m msgs ih =>
    have hFrame : 4 ≤ (id.frame codec m).length := by
      rw [Identity.frame, framed, length_append, length_bigEndian]
      exact Nat.le_add_right _ _
    rw [flatMap_cons, length_append, length_cons]
    omega

/-- **The read loop on honest messages**: whatever part of the stream has
arrived, it has handed on the first few of them and waits for more. When the
stream has arrived to its end, it has handed on all of them. -/
theorem readLoop_frames (hCodec : codec.Lawful) (hKey : pc.Admits id) {tail : Bytes}
    (hTail : ∀ part, part <+: tail → readFrame part = .incomplete) (msgs : List Message)
    (hFits : ∀ m ∈ msgs, id.Sendable codec m) {arrived : Bytes}
    (hArrived : arrived <+: msgs.flatMap (id.frame codec) ++ tail) :
    ∃ k, (readLoop cr codec pc arrived).handled = (msgs.take k).map (id.signed codec) ∧
      (readLoop cr codec pc arrived).ended = false ∧
      (arrived = msgs.flatMap (id.frame codec) ++ tail → msgs.length ≤ k) := by
  obtain ⟨k, part, rfl, hCut⟩ := prefix_flatMap msgs hArrived
  have hPart : readFrame part = .incomplete := by
    rcases hCut with ⟨m, hm, hPre, hShort, -⟩ | ⟨hPre, -⟩
    · exact readFrame_part (hCodec.marshal_ne_nil _) (hFits m hm) hPre hShort
    · exact hTail part hPre
  have hTurns : (msgs.take k).length <
      ((msgs.take k).flatMap (id.frame codec) ++ part).length + 1 := by
    have hLe := length_le_flatMap_frame id codec (msgs.take k)
    rw [length_append]
    omega
  obtain ⟨hHandled, hEnded⟩ := readTurns_frames hCodec hPart (msgs.take k)
    (fun m hm => hFits m (mem_of_mem_take hm)) hTurns hKey
  refine ⟨k, hHandled, hEnded, fun hAll => ?_⟩
  rcases hCut with ⟨-, -, -, -, hLess⟩ | ⟨-, hk⟩
  · rw [hAll, length_append] at hLess
    omega
  · exact hk.ge

end Honest

/-! ## Calls that write on one connection -/

namespace SendSide

variable {cr : Crypto} {id : Identity cr} {codec : MessageCodec}

/-- What a step of `sendOn` is. -/
inductive Step (id : Identity cr) (codec : MessageCodec) :
    SendSide → SendAction → SendSide → Prop
  | send (s : SendSide) (msg : Message) :
      Step id codec s (.send msg)
        { s with calls := s.calls ++ [⟨msg, SendPhase.start (id.seal codec msg)⟩] }
  | lock {s : SendSide} {i : Nat} {msg : Message} {body : Bytes}
      (hCall : s.calls[i]? = some ⟨msg, .sealed body⟩) (hFree : s.writeMu = none) :
      Step id codec s (.lock i)
        { s with calls := s.calls.set i ⟨msg, .locked body⟩, writeMu := some i }
  | writeSize {s : SendSide} {i : Nat} {msg : Message} {body : Bytes}
      (hCall : s.calls[i]? = some ⟨msg, .locked body⟩) :
      Step id codec s (.writeSize i)
        { s with
          calls := s.calls.set i ⟨msg, .sized body⟩
          out := s.out ++ bigEndian 4 body.length }
  | writeBody {s : SendSide} {i : Nat} {msg : Message} {body : Bytes}
      (hCall : s.calls[i]? = some ⟨msg, .sized body⟩) :
      Step id codec s (.writeBody i)
        { calls := s.calls.set i ⟨msg, .returned none⟩
          writeMu := none
          out := s.out ++ body
          written := s.written ++ [(i, msg)] }

theorem next_step {s s' : SendSide} {a : SendAction} (h : s.next id codec a = some s') :
    Step id codec s a s' := by
  cases a with
  | send msg =>
    cases h
    exact .send s msg
  | lock i =>
    simp only [next] at h
    split at h
    · rename_i hCall
      obtain ⟨hFree, h⟩ := Option.ite_none_right_eq_some.mp h
      cases h
      exact .lock hCall hFree
    · cases h
  | writeSize i =>
    simp only [next] at h
    split at h
    · rename_i hCall
      cases h
      exact .writeSize hCall
    · cases h
  | writeBody i =>
    simp only [next] at h
    split at h
    · rename_i hCall
      cases h
      exact .writeBody hCall
    · cases h

end SendSide

/-- What is known of a call: the bytes that it is going to write, that they are
few enough, and where it holds `writeMu`. -/
def SendCall.Good {cr : Crypto} (id : Identity cr) (codec : MessageCodec) (holds : Prop)
    (c : SendCall) : Prop :=
  match c.phase with
  | .sealed body =>
    body = codec.marshal (id.signed codec c.msg) ∧ id.Sendable codec c.msg ∧ ¬ holds
  | .locked body | .sized body =>
    body = codec.marshal (id.signed codec c.msg) ∧ id.Sendable codec c.msg ∧ holds
  | .returned none => id.Sendable codec c.msg ∧ ¬ holds
  | .returned (some _) => ¬ id.Sendable codec c.msg ∧ ¬ holds

/-- What a call has written of a frame that is not complete. -/
def SendCall.begun (c : SendCall) : Bytes :=
  match c.phase with
  | .sized body => bigEndian 4 body.length
  | _ => []

namespace SendSide

variable {cr : Crypto} {id : Identity cr} {codec : MessageCodec}

/-- What the call that holds `writeMu` has written. -/
def begun (writeMu : Option Nat) (calls : List SendCall) : Bytes :=
  (writeMu.bind (calls[·]?)).elim [] SendCall.begun

structure Inv (id : Identity cr) (codec : MessageCodec) (s : SendSide) : Prop where
  good : ∀ (i : Nat) c, s.calls[i]? = some c → c.Good id codec (s.writeMu = some i)
  written : ∀ i m, (i, m) ∈ s.written ↔ s.calls[i]? = some ⟨m, .returned none⟩
  once : (s.written.map Prod.fst).Nodup
  holder : ∀ i, s.writeMu = some i → i < s.calls.length
  stream : s.out = (s.written.map Prod.snd).flatMap (id.frame codec) ++ begun s.writeMu s.calls

theorem inv_init (id : Identity cr) (codec : MessageCodec) : init.Inv id codec where
  good i c h := by simp [init] at h
  written i m := by simp [init]
  once := nodup_nil
  holder i h := by cases h
  stream := rfl

theorem good_start (id : Identity cr) (codec : MessageCodec) (msg : Message) {holds : Prop}
    (hFree : ¬ holds) :
    SendCall.Good id codec holds ⟨msg, SendPhase.start (id.seal codec msg)⟩ := by
  unfold Identity.seal
  dsimp only
  split
  · rename_i hLarge
    exact ⟨Nat.not_le.mpr hLarge, hFree⟩
  · rename_i hSmall
    exact ⟨rfl, Nat.not_lt.mp hSmall, hFree⟩

variable {a : SendAction} {c : SendCall} {calls : List SendCall} {i : Nat} {s : SendSide}

/-- A step of one call leaves the others as they are. -/
theorem good_set {mu mu' : Option Nat}
    (hGood : ∀ (j : Nat) d, calls[j]? = some d → d.Good id codec (mu = some j))
    (hOther : ∀ j, j ≠ i → (mu' = some j ↔ mu = some j)) (hNew : c.Good id codec (mu' = some i)) :
    ∀ (j : Nat) d, (calls.set i c)[j]? = some d → d.Good id codec (mu' = some j) := by
  intro j d hd
  rcases pool_set_cases hd with ⟨rfl, rfl⟩ | ⟨hj, hOld⟩
  · exact hNew
  · rw [hOther j hj]
    exact hGood j d hOld

theorem returned_set {c' : SendCall} {j : Nat} {m : Message} (hCall : calls[i]? = some c)
    (hOld : c.phase ≠ .returned none) (hNew : c'.phase ≠ .returned none) :
    (calls.set i c')[j]? = some ⟨m, .returned none⟩ ↔ calls[j]? = some ⟨m, .returned none⟩ := by
  constructor
  · intro h
    rcases pool_set_cases h with ⟨-, rfl⟩ | ⟨-, h⟩
    · exact absurd rfl hNew
    · exact h
  · intro h
    refine pool_set_other ?_ h
    rintro rfl
    rw [hCall] at h
    cases h
    exact hOld rfl

theorem begun_set {c' : SendCall} (hCall : calls[i]? = some c) :
    begun (some i) (calls.set i c') = c'.begun := by
  show ((calls.set i c')[i]?).elim [] SendCall.begun = _
  rw [pool_set_self hCall]
  rfl

theorem begun_held (hCall : calls[i]? = some c) : begun (some i) calls = c.begun := by
  show (calls[i]?).elim [] SendCall.begun = _
  rw [hCall]
  rfl

theorem begun_append {mu : Option Nat} (hHolder : ∀ i, mu = some i → i < calls.length) :
    begun mu (calls ++ [c]) = begun mu calls := by
  cases mu with
  | none => rfl
  | some i =>
    show ((calls ++ [c])[i]?).elim [] SendCall.begun = (calls[i]?).elim [] SendCall.begun
    rw [getElem?_append_left (hHolder i rfl)]

theorem start_ne_returned (r : Except SendError Bytes) : SendPhase.start r ≠ .returned none := by
  cases r with
  | ok body => intro h; cases h
  | error e => intro h; cases h

theorem Inv.step {s' : SendSide} (h : s.Inv id codec) (hStep : Step id codec s a s') :
    s'.Inv id codec := by
  cases hStep with
  | send msg =>
    have hNew : ¬ s.writeMu = some s.calls.length := fun hHolds =>
      Nat.lt_irrefl _ (h.holder _ hHolds)
    refine ⟨forall_pool_append h.good (good_start id codec msg hNew), ?_, h.once, ?_, ?_⟩
    · intro j m
      rw [h.written j m]
      refine ⟨pool_append_old, fun hReturned => ?_⟩
      rcases pool_append_cases hReturned with ⟨-, hEq⟩ | ⟨-, hOld⟩
      · exact absurd (congrArg SendCall.phase hEq).symm (start_ne_returned _)
      · exact hOld
    · intro i hHolds
      rw [length_append]
      exact Nat.lt_add_right 1 (h.holder i hHolds)
    · rw [begun_append h.holder]
      exact h.stream
  | lock hCall hFree =>
    obtain ⟨hBody, hFits, -⟩ := h.good _ _ hCall
    refine ⟨good_set h.good ?_ ⟨hBody, hFits, rfl⟩, ?_, h.once, ?_, ?_⟩
    · intro j hj
      simp [hFree, hj.symm]
    · intro j m
      rw [returned_set hCall (by simp) (by simp)]
      exact h.written j m
    · intro j hEq
      cases hEq
      rw [length_set]
      exact (List.getElem?_eq_some_iff.mp hCall).1
    · have hOut := h.stream
      rw [hFree] at hOut
      rw [begun_set hCall]
      exact hOut
  | writeSize hCall =>
    obtain ⟨hBody, hFits, hHolds⟩ := h.good _ _ hCall
    refine ⟨good_set h.good (fun _ _ => Iff.rfl) ⟨hBody, hFits, hHolds⟩, ?_, h.once, ?_, ?_⟩
    · intro j m
      rw [returned_set hCall (by simp) (by simp)]
      exact h.written j m
    · intro j hEq
      rw [length_set]
      exact h.holder j hEq
    · have hOut := h.stream
      rw [hHolds, begun_held hCall] at hOut
      simp only [hHolds, begun_set hCall, hOut, SendCall.begun, append_nil]
  | @writeBody i msg body hCall =>
    obtain ⟨hBody, hFits, hHolds⟩ := h.good _ _ hCall
    refine ⟨good_set h.good ?_ ⟨hFits, by simp⟩, ?_, ?_, by simp, ?_⟩
    · intro j hj
      simp [hHolds, hj.symm]
    · intro j m
      rw [mem_append, mem_singleton, h.written j m]
      constructor
      · rintro (hOld | hEq)
        · refine pool_set_other ?_ hOld
          rintro rfl
          rw [hCall] at hOld
          cases hOld
        · cases hEq
          exact pool_set_self hCall
      · intro hReturned
        rcases pool_set_cases hReturned with ⟨rfl, hEq⟩ | ⟨-, hOld⟩
        · cases hEq
          exact Or.inr rfl
        · exact Or.inl hOld
    · -- the call has not written before, since it has not returned before
      have hNew : i ∉ s.written.map Prod.fst := by
        intro hMem
        obtain ⟨⟨j, m⟩, hWritten, rfl⟩ := mem_map.mp hMem
        have hReturned := (h.written j m).mp hWritten
        rw [hCall] at hReturned
        cases hReturned
      rw [map_append]
      refine nodup_append.mpr ⟨h.once, nodup_singleton _, ?_⟩
      intro j hj k hk hEq
      rw [hEq, mem_singleton.mp hk] at hj
      exact hNew hj
    · have hOut := h.stream
      rw [hHolds, begun_held hCall] at hOut
      have hFrame : id.frame codec msg = bigEndian 4 body.length ++ body := by
        rw [hBody]
        rfl
      rw [hOut, map_append, map_singleton, flatMap_append, flatMap_singleton,
        hFrame]
      show _ ++ bigEndian 4 body.length ++ body = _ ++ (bigEndian 4 body.length ++ body) ++ []
      rw [append_nil, append_assoc]

/-- What lies behind the last complete frame is the length of the next one at
most. -/
theorem Inv.readFrame_begun (hCodec : codec.Lawful) (h : s.Inv id codec) {part : Bytes}
    (hPart : part <+: begun s.writeMu s.calls) : readFrame part = .incomplete := by
  have hNothing : begun s.writeMu s.calls = [] → readFrame part = .incomplete := by
    intro hNil
    rw [hNil, prefix_nil] at hPart
    rw [hPart]
    rfl
  cases hMu : s.writeMu with
  | none => exact hNothing (by rw [hMu]; rfl)
  | some i =>
    obtain ⟨c, hCall⟩ : ∃ c, s.calls[i]? = some c :=
      ⟨_, getElem?_eq_getElem (h.holder i hMu)⟩
    have hGood := h.good i c hCall
    rw [hMu, begun_held hCall] at hNothing hPart
    obtain ⟨msg, phase⟩ := c
    cases phase with
    | sealed body => exact hNothing rfl
    | locked body => exact hNothing rfl
    | returned err => exact hNothing rfl
    | sized body =>
      obtain ⟨hBody, hFits, -⟩ := hGood
      have hPos : body ≠ [] := by
        rw [hBody]
        exact hCodec.marshal_ne_nil _
      rw [Identity.Sendable, ← hBody] at hFits
      refine readFrame_part hPos hFits (hPart.trans (prefix_append _ _)) ?_
      intro hWhole
      have hLess : 0 < body.length := length_pos_iff.mpr hPos
      have hLength := hPart.length_le
      rw [hWhole, framed, length_append] at hLength
      simp only [SendCall.begun] at hLength
      omega

end SendSide

/-- **Honest messages survive signing, framing and verification.** In every run
of any number of calls of `sendOn` on one connection, a call returns without an
error exactly if it has written its message, each once, and refuses only what
is too large. Whatever part of the bytes has arrived, the read loop of a peer
that does not know another key for the connection goes on, and has handed on
the first of these messages in order, with version, sender and key filled in and
signed; it has handed on all of them when everything has arrived. It accepts
each of them, and what it verifies the signature of are the bytes that were
signed. -/
theorem honest_messages_survive (cr : Crypto) (id : Identity cr) (pc : PeerConn)
    (hKey : pc.Admits id) {as : List SendAction} {s : SendSide}
    (hRun : Exec (stepOf (next id goJSON)) init as s) :
    ((s.written.map Prod.fst).Nodup ∧
      (∀ i m, (i, m) ∈ s.written ↔ s.calls[i]? = some ⟨m, .returned none⟩) ∧
      ∀ (i : Nat) m e, s.calls[i]? = some ⟨m, .returned (some e)⟩ →
        maxMessageSize < (goJSON.marshal (id.signed goJSON m)).length) ∧
    (∀ arrived, arrived <+: s.out →
      ∃ k, (readLoop cr goJSON pc arrived).ended = false ∧
        (readLoop cr goJSON pc arrived).handled =
          ((s.written.map Prod.snd).take k).map (id.signed goJSON) ∧
        (arrived = s.out → s.written.length ≤ k)) ∧
    ∀ m, (∃ pc', verifyMessage cr goJSON pc (id.signed goJSON m) = .ok pc') ∧
      id.signed goJSON m =
        { m with
          v := protocolVersion
          sender := cr.publicKeyToID id.publicKey
          publicKey := publicKeyToHex id.publicKey
          sig := id.sign (goJSON.marshal (id.unsigned m)) } ∧
      goJSON.marshal { id.signed goJSON m with sig := [] } = goJSON.marshal (id.unsigned m) := by
  have hInv : s.Inv id goJSON :=
    hRun.invariant (inv_init id goJSON) fun h hStep => h.step (next_step hStep)
  refine ⟨⟨hInv.once, hInv.written, ?_⟩, ?_, ?_⟩
  · intro i m e hCall
    exact Nat.not_le.mp (hInv.good i _ hCall).1
  · intro arrived hArrived
    rw [hInv.stream] at hArrived
    have hFits : ∀ m ∈ s.written.map Prod.snd, id.Sendable goJSON m := by
      intro m hm
      obtain ⟨⟨i, m'⟩, hWritten, rfl⟩ := mem_map.mp hm
      exact (hInv.good i _ ((hInv.written i m').mp hWritten)).1
    obtain ⟨k, hHandled, hEnded, hAll⟩ := readLoop_frames goJSON_lawful hKey
      (fun part hPart => hInv.readFrame_begun goJSON_lawful hPart) _ hFits hArrived
    refine ⟨k, hEnded, hHandled, fun hEq => ?_⟩
    rw [← hInv.stream, length_map] at hAll
    exact hAll hEq
  · intro m
    have hVerify := @verifyMessage_signed cr id goJSON pc hKey m
    exact ⟨hVerify.imp fun _ h => h.1, rfl, rfl⟩

/-- Two calls, of which the second one is the first to write. -/
def twoSends : List SendAction :=
  [.send { Message.zero with type := "ping".toList },
   .send { Message.zero with type := "chat".toList, payload := "a < b".toList },
   .lock 1, .writeSize 1, .writeBody 1, .lock 0, .writeSize 0, .writeBody 0]

theorem honest_messages_survive_two :
    ∃ s, Exec (stepOf (next sampleIdentity goJSON)) init twoSends s ∧
      s.written.map Prod.fst = [1, 0] ∧
      ∃ k, 2 ≤ k ∧
        (readLoop firstByte goJSON (firstByte.authenticated sampleIdentity.publicKey)
          s.out).handled =
          ((s.written.map Prod.snd).take k).map (sampleIdentity.signed goJSON) := by
  refine Exec.exists_of_runFrom (p := fun s => s.written.map Prod.fst = [1, 0])
    (by decide +kernel) ?_
  intro s hRun hWritten
  obtain ⟨-, hRead, -⟩ := honest_messages_survive firstByte sampleIdentity
    (firstByte.authenticated sampleIdentity.publicKey) (Or.inr rfl) hRun
  obtain ⟨k, -, hHandled, hAll⟩ := hRead s.out (prefix_refl _)
  have hTwo : s.written.length = 2 := by
    rw [← length_map (f := Prod.fst), hWritten]
    rfl
  exact ⟨hWritten, k, hTwo ▸ hAll rfl, hHandled⟩

end AltNet
