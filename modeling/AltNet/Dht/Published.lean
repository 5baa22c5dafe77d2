import AltNet.Dht.Handler
import AltNet.Dht.Lookup

/-!
# AltNet — published content and the stores of others

What a node publishes it stores under the hash of the bytes, and serves from
then on: to its own lookups without the network, and to every peer that asks.
`handleStore` writes whatever a peer sends under whatever key the peer names;
it looks at the size, at the blocklist and at the peer's quota, and not at what
the key holds already. A peer that stores other bytes under the key of a
published chunk replaces it. The node's own lookups notice the wrong hash and
turn to the network, which need not have the chunk, and peers are served the
wrong bytes.

Main results:

* `available_iff` — the content is available exactly when the store holds it;
* `receive_holds_iff` — a `dht_store` message leaves it there exactly when it
  does not replace it;
* `published_available_iff` — so over every sequence of such messages.
-/

namespace AltNet

open LocalStore DHT

/-- A `dht_store` message, with what its handler reads. -/
structure StoreMessage where
  addr : GoString
  msg : Message
  env : Env
  isStore : msg.kind = .dhtStore

namespace DHT

variable {cr : Crypto} {codec : PayloadCodec} {d d' : DHT} {v : Bytes} {m : StoreMessage}

/-- The node after a `dht_store` message. -/
def receive (cr : Crypto) (codec : PayloadCodec) (d : DHT) (m : StoreMessage) : Option DHT :=
  (d.handleMessage cr codec m.addr m.msg m.env).map fun out => out.dht

/-- `Get` returns `v` at once, without a request, and so does `dht_find_value`. -/
structure Available (cr : Crypto) (v : Bytes) (d : DHT) : Prop where
  locally : ∀ net order now later fuel, ∃ l,
    d.getInner cr net (cr.contentAddress v) true order now later fuel = some l ∧
      l.result = .ok v ∧ l.walk.asked = []
  toPeers : ∀ now, (d.handleFindValue (cr.contentAddress v).hex now).2 = some (.value v)

/-- The message passes the three checks of `handleStore` and brings other bytes
for the key of `v`. -/
def Replaces (cr : Crypto) (codec : PayloadCodec) (v : Bytes) (d : DHT) (m : StoreMessage) :
    Prop :=
  ∃ sp, codec.store m.msg.payload = some sp ∧ idFromHex sp.key = some (cr.contentAddress v) ∧
    sp.value.length ≤ maxValueSize ∧ d.isBlocked (cr.contentAddress v) = false ∧
    d.store.admits (cr.contentAddress v).hex sp.value.length m.msg.sender = true ∧ sp.value ≠ v

/-! ## Availability -/

/-- **Availability** is that the store holds the content, for a key that is not
blocked. -/
theorem available_iff (hOpen : d.isBlocked (cr.contentAddress v) = false) :
    d.Available cr v ↔ d.store.data.lookup (cr.contentAddress v).hex = some v := by
  have hGate : ¬ d.isBlocked (cr.contentAddress v) = true := by
    rw [hOpen]
    exact Bool.false_ne_true
  constructor
  · intro h
    have hServed := h.toPeers 0
    unfold handleFindValue at hServed
    rw [idFromHex_hex] at hServed
    dsimp only at hServed
    rw [if_neg hGate] at hServed
    split at hServed
    · rename_i u hFound
      rw [get_snd] at hFound
      rw [hFound, Reply.value.inj (Option.some.inj hServed)]
    · cases hServed
  · intro hHeld
    refine ⟨fun net order now later fuel => ?_, fun now => ?_⟩
    · have hCached : (d.store.get (cr.contentAddress v) now).2.filter
          (cr.acceptable (cr.contentAddress v) true) = some v := by
        rw [get_snd, hHeld, Option.filter_some, if_pos]
        simp [Crypto.acceptable]
      unfold getInner
      rw [if_neg hGate]
      dsimp only
      rw [hCached]
      exact ⟨_, rfl, rfl, rfl⟩
    · unfold handleFindValue
      rw [idFromHex_hex]
      dsimp only
      rw [if_neg hGate]
      have hFound : (d.store.get (cr.contentAddress v) now).2 = some v := by
        rw [get_snd, hHeld]
      rw [hFound]

/-- What a publisher starts with. -/
theorem storeLocal_lookup {key : NodeID} {order : List GoString} {now : Time}
    (hOpen : d.isBlocked key = false) (hUnlimited : d.store.maxBytes ≤ 0)
    (h : d.storeLocal key v order now = .ok d') :
    d'.store.data.lookup key.hex = some v ∧ d'.store.maxBytes ≤ 0 ∧
      d'.isBlocked key = false := by
  unfold storeLocal at h
  split at h
  · cases h
  rw [if_neg (by rw [hOpen]; exact Bool.false_ne_true)] at h
  obtain rfl := Except.ok.inj h
  have hAdmit : d.store.admits key.hex v.length [] = true := by simp [LocalStore.admits]
  refine ⟨?_, ?_, hOpen⟩
  · show (d.store.put order key v [] now).1.data.lookup key.hex = some v
    rw [put_data_unlimited hUnlimited, if_pos hAdmit, Finmap.lookup_insert]
  · show (d.store.put order key v [] now).1.maxBytes ≤ 0
    rw [put_maxBytes]
    exact hUnlimited

/-! ## One message -/

/-- The content is held, without a byte budget, under a key that is open. -/
structure Holds (cr : Crypto) (v : Bytes) (d : DHT) : Prop where
  held : d.store.data.lookup (cr.contentAddress v).hex = some v
  unlimited : d.store.maxBytes ≤ 0
  unblocked : d.isBlocked (cr.contentAddress v) = false

/-- A `dht_store` message reaches its handler, or does not decode. -/
theorem receive_eq (h : d.receive cr codec m = some d') :
    (codec.store m.msg.payload = none ∧ d' = d) ∨
      ∃ sp, codec.store m.msg.payload = some sp ∧
        d' = (d.handleStore sp m.msg.sender m.env.order m.env.now).1 := by
  obtain ⟨out, hOut, rfl⟩ := Option.map_eq_some_iff.mp h
  unfold handleMessage at hOut
  rw [m.isStore] at hOut
  cases hOut
  cases hStore : codec.store m.msg.payload with
  | none => exact Or.inl ⟨rfl, rfl⟩
  | some sp => exact Or.inr ⟨sp, rfl, rfl⟩

/-- Neither the budget nor the blocklist depends on such messages. -/
theorem receive_frame (hStep : d.receive cr codec m = some d') :
    d'.store.maxBytes = d.store.maxBytes ∧ d'.blocklist = d.blocklist := by
  rcases receive_eq hStep with ⟨-, rfl⟩ | ⟨sp, -, rfl⟩
  · exact ⟨rfl, rfl⟩
  rcases d.handleStore_cases sp m.msg.sender m.env.order m.env.now with
    ⟨hSame, -⟩ | ⟨key, -, -, -, hPut⟩
  · rw [hSame]
    exact ⟨rfl, rfl⟩
  · rw [hPut]
    exact ⟨put_maxBytes, rfl⟩

theorem replaces_iff {sp : StorePayload} (hPayload : codec.store m.msg.payload = some sp) :
    Replaces cr codec v d m ↔
      idFromHex sp.key = some (cr.contentAddress v) ∧ sp.value.length ≤ maxValueSize ∧
        d.isBlocked (cr.contentAddress v) = false ∧
        d.store.admits (cr.contentAddress v).hex sp.value.length m.msg.sender = true ∧
        sp.value ≠ v := by
  constructor
  · rintro ⟨sp', hSome, hChecks⟩
    cases hSome.symm.trans hPayload
    exact hChecks
  · exact fun hChecks => ⟨sp, hPayload, hChecks⟩

/-- What a write does to the content. -/
theorem put_holds_iff (h : d.Holds cr v) {key : NodeID} {value : Bytes} {sender : GoString}
    {order : List GoString} {now : Time} :
    { d with store := (d.store.put order key value sender now).1 }.Holds cr v ↔
      ¬ (key = cr.contentAddress v ∧ d.store.admits key.hex value.length sender = true ∧
        value ≠ v) := by
  have hHolds : { d with store := (d.store.put order key value sender now).1 }.Holds cr v ↔
      (if d.store.admits key.hex value.length sender then d.store.data.insert key.hex value
        else d.store.data).lookup (cr.contentAddress v).hex = some v := by
    rw [← put_data_unlimited h.unlimited]
    refine ⟨fun hAll => hAll.held, fun hHeld => ⟨hHeld, ?_, h.unblocked⟩⟩
    rw [put_maxBytes]
    exact h.unlimited
  rw [hHolds]
  split
  case isFalse hAdmit => exact ⟨fun _ hAll => hAdmit hAll.2.1, fun _ => h.held⟩
  case isTrue hAdmit =>
    by_cases hMine : key = cr.contentAddress v
    · subst hMine
      rw [Finmap.lookup_insert, Option.some_inj]
      refine ⟨fun hEq hAll => hAll.2.2 hEq, fun hNot => ?_⟩
      by_contra hOther
      exact hNot ⟨rfl, hAdmit, hOther⟩
    · have hHex : (cr.contentAddress v).hex ≠ key.hex :=
        fun hEq => hMine (NodeID.hex_injective hEq.symm)
      rw [Finmap.lookup_insert_of_ne _ hHex]
      exact ⟨fun _ hAll => hMine hAll.1, fun _ => h.held⟩

/-- **One message.** The content stays exactly when the message does not replace
it. -/
theorem receive_holds_iff (h : d.Holds cr v) (hStep : d.receive cr codec m = some d') :
    d'.Holds cr v ↔ ¬ Replaces cr codec v d m := by
  rcases receive_eq hStep with ⟨hNone, rfl⟩ | ⟨sp, hPayload, rfl⟩
  · refine ⟨fun _ hReplaces => ?_, fun _ => h⟩
    obtain ⟨sp, hSome, -⟩ := hReplaces
    cases hNone.symm.trans hSome
  rw [replaces_iff hPayload]
  rcases d.handleStore_cases sp m.msg.sender m.env.order m.env.now with
    ⟨hSame, hFails⟩ | ⟨key, hKey, hSize, hOpen, hPut⟩
  · -- one of the checks failed
    rw [hSame]
    refine ⟨fun _ hReplaces => ?_, fun _ => h⟩
    obtain ⟨hKey, hSize, hOpen, -⟩ := hReplaces
    rcases hFails _ hKey with hLarge | hBlocked
    · exact absurd hSize (not_le.mpr hLarge)
    · cases hOpen.symm.trans hBlocked
  · rw [hPut, put_holds_iff h]
    refine not_congr ⟨?_, ?_⟩
    · rintro ⟨rfl, hAdmit, hOther⟩
      exact ⟨hKey, hSize, hOpen, hAdmit, hOther⟩
    · rintro ⟨hMine, -, -, hAdmit, hOther⟩
      cases hKey.symm.trans hMine
      exact ⟨rfl, hAdmit, hOther⟩

end DHT

/-- **Published content stays available exactly as long as nobody replaces
it.** A node without a byte budget has stored `v` under its hash. Along every
sequence of `dht_store` messages that follows, `Get` returns `v` from the local
store and `dht_find_value` is answered with it, if and only if no message passes
the checks of `handleStore` with other bytes for that key. -/
theorem published_available_iff (cr : Crypto) (codec : PayloadCodec) {d d' : DHT} {v : Bytes}
    {order : List GoString} {now : Time} (hUnlimited : d.store.maxBytes ≤ 0)
    (hOpen : d.isBlocked (cr.contentAddress v) = false)
    (hStored : d.storeLocal (cr.contentAddress v) v order now = .ok d')
    {ms : List StoreMessage} {t : DHT} (hRun : Exec (stepOf (receive cr codec)) d' ms t) :
    Throughout (stepOf (receive cr codec)) d' ms (DHT.Available cr v) ↔
      EachStep (stepOf (receive cr codec)) d' ms
        (fun s m => ¬ DHT.Replaces cr codec v s m) := by
  obtain ⟨hHeld, hLimit, hOpen'⟩ := storeLocal_lookup hOpen hUnlimited hStored
  refine throughout_iff_of_invariant (J := DHT.Holds cr v) hRun ⟨hHeld, hLimit, hOpen'⟩
    stepOf_unique ?_ ?_ ?_
  · exact fun s hs => (available_iff hs.unblocked).mpr hs.held
  · exact fun s m u hs hStep hKeep => (receive_holds_iff hs hStep).mpr hKeep
  · intro s m u hs hStep hAvailable
    obtain ⟨hMax, hBlocklist⟩ := receive_frame hStep
    have hUnblocked : u.isBlocked (cr.contentAddress v) = false := by
      rw [← hs.unblocked, isBlocked, isBlocked, hBlocklist]
    refine (receive_holds_iff hs hStep).mp ⟨?_, hMax ▸ hs.unlimited, hUnblocked⟩
    exact (available_iff hUnblocked).mp hAvailable

/-- A `dht_store` message of a peer with the given payload. -/
def storeOf (payload : GoString) (sender : GoString) : StoreMessage where
  addr := []
  msg := ⟨1, "dht_store".toList, sender, [], [], payload, []⟩
  env := ⟨2, 2, 2, []⟩
  isStore := rfl

/-- The payload `t` brings other bytes for the key of one byte, any other one
brings bytes for another key. -/
def sampleCodec : PayloadCodec where
  findNode := fun _ => none
  store := fun payload =>
    if payload = ['t'] then some ⟨(NodeID.fill 9).hex, [7]⟩ else some ⟨(NodeID.fill 8).hex, [7]⟩
  findValue := fun _ => none
  revoke := fun _ => none

/-- A node that has published the byte 9, and a message for another key. -/
theorem published_available_otherKey :
    ∃ d' t, (nodeKnowing [contactOf 4]).storeLocal (NodeID.fill 9) [9] [] 1 = .ok d' ∧
      Exec (stepOf (receive firstByte sampleCodec)) d' [storeOf [] ['p']] t ∧
      t.Available firstByte [9] := by
  have hStored : ∃ d', (nodeKnowing [contactOf 4]).storeLocal (NodeID.fill 9) [9] [] 1 =
      .ok d' := ⟨_, rfl⟩
  obtain ⟨d', hStored⟩ := hStored
  obtain ⟨t, hStep⟩ : ∃ t, d'.receive firstByte sampleCodec (storeOf [] ['p']) = some t :=
    ⟨_, rfl⟩
  have hRun : Exec (stepOf (receive firstByte sampleCodec)) d' [storeOf [] ['p']] t :=
    .single hStep
  refine ⟨d', t, hStored, hRun, ?_⟩
  refine (published_available_iff firstByte sampleCodec (by decide) (by decide) hStored hRun).mpr
    ?_ _ t (List.prefix_refl _) hRun
  intro done m s hPre _ hReplaces
  obtain rfl : m = storeOf [] ['p'] :=
    List.mem_singleton.mp (hPre.subset (List.mem_append_right _ (List.mem_singleton_self m)))
  obtain ⟨sp, hPayload, hKey, -⟩ := hReplaces
  cases hPayload
  exact absurd hKey (by decide)

/-- The node after it has stored the byte. -/
def publisher : DHT :=
  { nodeKnowing [contactOf 4] with
    store := ((nodeKnowing [contactOf 4]).store.put [] (NodeID.fill 9) [9] [] 1).1 }

/-- And after a peer has stored another one under the same key. -/
def replacedPublisher : DHT := (publisher.handleStore ⟨(NodeID.fill 9).hex, [7]⟩ ['p'] [] 2).1

/-- The same node, and a message that brings the byte 7 for its key. With
nobody else holding the content, `Get` does not find it any more, and peers that
ask for it are sent the other byte. -/
theorem published_replaced :
    (nodeKnowing [contactOf 4]).store.maxBytes = 0 ∧
    (nodeKnowing [contactOf 4]).storeLocal (firstByte.contentAddress [9]) [9] [] 1 =
      .ok publisher ∧
    publisher.Available firstByte [9] ∧
    publisher.receive firstByte sampleCodec (storeOf ['t'] ['p']) = some replacedPublisher ∧
    (∃ l, replacedPublisher.getInner firstByte (steadyNet fun _ => .failed)
        (firstByte.contentAddress [9]) true [] 3 4 10 = some l ∧
      l.result = .error .notFound) ∧
    (replacedPublisher.handleFindValue (firstByte.contentAddress [9]).hex 3).2 =
      some (.value [7]) := by
  have hAvailable : publisher.Available firstByte [9] :=
    (available_iff (by decide +kernel)).mpr (by decide +kernel)
  have hGet : (replacedPublisher.getInner firstByte (steadyNet fun _ => .failed)
      (firstByte.contentAddress [9]) true [] 3 4 10).map (fun l => l.result) =
      some (.error .notFound) := by
    decide +kernel
  exact ⟨rfl, rfl, hAvailable, rfl, Option.map_eq_some_iff.mp hGet, by decide +kernel⟩

end AltNet
