import AltNet.Dht.DiskMirror
import AltNet.Dht.Service

/-!
# AltNet — the size of stored values

`MaxValueSize` is to cap every value that the DHT accepts. `StoreLocal` returns
an error for a larger one, `handleStore` drops it, `loadFromDisk` skips its
file. `getInner` has no such check: what a peer sends in reply to
`dht_find_value` and hashes to the key is written to the store whatever its
length, and a message has room for a value ten times as long as the cap. The
node then holds a value that it cannot store again: a republish of it fails,
other nodes drop it, and after a restart it is gone. `oversized_cached` is such
a run.

Main results:

* `Sized.step` — a step in which no verified lookup is sent a fitting value
  that is too large keeps all values within the cap;
* `values_sized` — so does every run of such steps, and what is stored can be
  stored again and survives a restart.
-/

namespace AltNet

open List

open NodeID (fill)

/-- Every value of the store is within the cap. -/
def LocalStore.Sized (s : LocalStore) : Prop :=
  ∀ x v, s.data.lookup x = some v → v.length ≤ maxValueSize

namespace LocalStore

variable {s t : LocalStore}

theorem sized_new (maxBytes perPeerMax : Int) : (LocalStore.new maxBytes perPeerMax).Sized :=
  fun x _ h => absurd h (by rw [new, Finmap.lookup_empty]; exact nofun)

theorem Sized.within (h : s.Sized) (hWithin : t.Within s) : t.Sized :=
  fun x v hv => h x v (hWithin x v hv).1

theorem Sized.put (h : s.Sized) {order : List GoString} {key : NodeID} {value : Bytes}
    {peerID : GoString} {now : Time} (hValue : value.length ≤ maxValueSize) :
    (s.put order key value peerID now).1.Sized := by
  intro x v hv
  rcases put_entry hv with ⟨hOld, -⟩ | ⟨-, rfl, -⟩
  · exact h x v hOld
  · exact hValue

end LocalStore

/-! ## What calls hold -/

/-- What a lookup may still hand to `Put` is within the cap. -/
def InnerPhase.Sized (verify : Bool) : InnerPhase → Prop
  | .walking _ w => verify = true → ∀ v ∈ w.values, v.length ≤ maxValueSize
  | .cache v => v.length ≤ maxValueSize
  | _ => True

def GetPhase.Sized (verify : Bool) : GetPhase → Prop
  | .inner p => p.Sized verify
  | _ => True

/-- A call that is about to write has checked the size. -/
def StorageCall.Sized : StorageCall → Prop
  | .write _ value _ _ => value.length ≤ maxValueSize
  | _ => True

/-- No reply that this part of a lookup gets carries a value that hashes to the
key of the lookup and is too large. -/
def InnerPhase.Modest (cr : Crypto) (key : NodeID) (net : Remote) : InnerPhase → Prop
  | .walking n w => ∀ c ∈ w.batch, ∀ v, net.reply n c = .value v →
      cr.contentAddress v = key → v.length ≤ maxValueSize
  | _ => True

variable {cr : Crypto} {d : DHT} {key : NodeID} {n : Nat} {out : Outside} {p : InnerPhase}
  {verify : Bool}

theorem InnerPhase.sized_afterRound {w : Walk}
    (h : verify = true → ∀ v ∈ w.values, v.length ≤ maxValueSize) :
    (afterRound verify n w).Sized verify := by
  unfold afterRound
  split
  · split
    · trivial
    · rename_i v rest hValues
      split
      · rename_i hVerify
        exact h hVerify v (hValues ▸ mem_cons_self)
      · trivial
  · exact h

/-- **A part of a lookup** that is sent nothing too large goes on to hold
nothing too large. -/
theorem DHT.innerStep_sized (h : p.Sized verify)
    (hModest : verify = true → p.Modest cr key out.net) :
    (d.innerStep cr key verify out p).2.Sized verify := by
  cases p with
  | gate =>
    show InnerPhase.Sized verify (if _ then _ else _)
    split <;> trivial
  | readLocal =>
    unfold innerStep
    dsimp only
    split <;> trivial
  | begin =>
    show InnerPhase.Sized verify (if _ then _ else _)
    split
    · trivial
    · exact fun _ v hv => absurd hv not_mem_nil
  | walking n w =>
    refine InnerPhase.sized_afterRound fun hVerify v hv => ?_
    rcases Walk.mem_values_round_reply hv with hOld | ⟨c, hc, hReply, hGood⟩
    · exact h hVerify v hOld
    · rw [hVerify] at hGood
      exact hModest hVerify c hc v hReply (Crypto.acceptable_verified.mp hGood)
  | cache v => trivial
  | ended result => trivial

/-- What it adds to the store it held. -/
theorem DHT.innerStep_store_sized (hStore : d.store.Sized) (h : p.Sized verify) :
    (d.innerStep cr key verify out p).1.store.Sized := by
  intro x v hv
  rcases innerStep_stored hv with hOld | ⟨rfl, -⟩
  · exact hStore x v hOld
  · exact h

/-- **A part of another call.** The checks stand before every write. -/
theorem DHT.storagePart_sized {a : Around} {c : StorageCall} (hStore : d.store.Sized)
    (h : c.Sized) : (d.storagePart a c).1.store.Sized ∧ ∀ c' ∈ (d.storagePart a c).2, c'.Sized := by
  cases c with
  | visit keys =>
    cases keys with
    | nil => exact ⟨hStore, nofun⟩
    | cons hex keys =>
      rw [storagePart]
      split
      · refine ⟨hStore, fun c' hc' => ?_⟩
        obtain rfl := Option.some.inj hc'
        trivial
      · refine ⟨hStore.within LocalStore.within_get, fun c' hc' => ?_⟩
        obtain rfl := Option.some.inj hc'
        split <;> trivial
  | check key value sender after =>
    rw [storagePart]
    split
    · refine ⟨hStore, fun c' hc' => ?_⟩
      obtain ⟨keys, -, rfl⟩ := Option.map_eq_some_iff.mp hc'
      trivial
    rename_i hSize
    split
    · refine ⟨hStore, fun c' hc' => ?_⟩
      obtain ⟨keys, -, rfl⟩ := Option.map_eq_some_iff.mp hc'
      trivial
    · refine ⟨hStore, fun c' hc' => ?_⟩
      obtain rfl := Option.some.inj hc'
      exact not_lt.mp hSize
  | write key value sender after =>
    refine ⟨hStore.put h, fun c' hc' => ?_⟩
    obtain ⟨keys, -, rfl⟩ := Option.map_eq_some_iff.mp hc'
    trivial
  | replicate key keys =>
    refine ⟨?_, fun c' hc' => ?_⟩
    · rw [storagePart, DHT.replicate]
      split <;> exact hStore
    · obtain rfl := Option.some.inj hc'
      trivial

namespace Service

/-- No verified lookup is sent a value in this step that hashes to its key and
is too large. -/
def Modest (w : WireWorld) (s : Service) : ServiceAction → Prop
  | .getStep tid a => ∀ key p, s.gets.calls.lookup tid = some ⟨key, true, .inner p⟩ →
      p.Modest w.cr key (a.outside w).net
  | _ => True

/-- What such steps keep. -/
structure Sized (s : Service) : Prop where
  stored : s.dht.store.Sized
  gets : ∀ tid c, s.gets.calls.lookup tid = some c → c.phase.Sized c.verify
  calls : ∀ tid c, s.calls.lookup tid = some c → c.Sized

namespace Sized

variable {w : WireWorld} {s t : Service}

theorem init {d : DHT} (h : d.store.Sized) : (Service.init d).Sized where
  stored := h
  gets := fun tid c hc => by cases (Finmap.lookup_empty tid).symm.trans hc
  calls := fun tid c hc => by cases (Finmap.lookup_empty tid).symm.trans hc

variable (h : s.Sized)

include h

theorem setDht {d : DHT} (hStore : d.store.Sized) : (s.setDht d).Sized :=
  ⟨hStore, h.gets, h.calls⟩

theorem enter {tid : Nat} {c : StorageCall} (hEnter : s.enter tid c = some t) (hc : c.Sized) :
    t.Sized := by
  unfold Service.enter at hEnter
  split at hEnter
  · cases hEnter
  cases hEnter
  refine ⟨h.stored, h.gets, fun tid' c' hc' => ?_⟩
  rcases GoMap.lookup_insert_cases hc' with ⟨-, rfl⟩ | ⟨-, hOld⟩
  · exact hc
  · exact h.calls tid' c' hOld

theorem moveTo {tid : Nat} {c : Option StorageCall} (hc : ∀ c' ∈ c, c'.Sized) :
    (s.moveTo tid c).Sized := by
  cases c with
  | none =>
    exact ⟨h.stored, h.gets,
      fun tid' c' hc' => h.calls tid' c' (GoMap.lookup_of_lookup_erase hc').2⟩
  | some c =>
    refine ⟨h.stored, h.gets, fun tid' c' hc' => ?_⟩
    rcases GoMap.lookup_insert_cases hc' with ⟨-, rfl⟩ | ⟨-, hOld⟩
    · exact hc _ rfl
    · exact h.calls tid' c' hOld

/-- The calls of `get` after a step of one of them. -/
theorem setGets {gets : GetState} {tid : Nat} (hStore : gets.dht.store.Sized)
    (hCalls : gets.calls = s.gets.calls.erase tid ∨ ∃ c : GetCall,
      gets.calls = s.gets.calls.insert tid c ∧ c.phase.Sized c.verify) : Sized { s with gets } := by
  refine ⟨hStore, fun tid' c' hc' => ?_, h.calls⟩
  have hc' : gets.calls.lookup tid' = some c' := hc'
  rcases hCalls with hErase | ⟨c, hInsert, hc⟩
  · rw [hErase] at hc'
    exact h.gets tid' c' (GoMap.lookup_of_lookup_erase hc').2
  rw [hInsert] at hc'
  rcases GoMap.lookup_insert_cases hc' with ⟨-, rfl⟩ | ⟨-, hOld⟩
  · exact hc
  · exact h.gets tid' c' hOld

/-- A message that is not a `dht_store` adds nothing. -/
theorem receive {tid : Nat} {addr : GoString} {msg : Message} {env : Env}
    (hStep : s.receive w tid addr msg env = some t) : t.Sized := by
  unfold Service.receive at hStep
  split at hStep
  · split at hStep
    · cases hStep
      exact h
    · exact h.enter hStep trivial
  · rename_i hKind
    obtain ⟨out, hOut, rfl⟩ := Option.map_eq_some_iff.mp hStep
    refine h.setDht fun x v hv => ?_
    rcases DHT.handleMessage_entry hOut hv with ⟨hOld, -⟩ | ⟨hStores, -⟩
    · exact h.stored x v hOld
    · exact absurd hStores.1 hKind

/-- **One step.** -/
theorem step {a : ServiceAction} (hModest : s.Modest w a) (hStep : s.next w a = some t) :
    t.Sized := by
  cases a with
  | get tid key verify =>
    obtain ⟨gets, hGets, rfl⟩ := Option.map_eq_some_iff.mp hStep
    obtain ⟨hDht, p, hPhase, hCalls⟩ := GetState.next_get hGets
    refine h.setGets (hDht ▸ h.stored) (Or.inr ⟨_, hCalls, ?_⟩)
    rcases hPhase with rfl | ⟨leader, rfl⟩ <;> trivial
  | getStep tid a =>
    obtain ⟨gets, hGets, rfl⟩ := Option.map_eq_some_iff.mp hStep
    obtain ⟨c, hCall, hPart | ⟨hDht, hDone⟩⟩ := GetState.next_step hGets
    · obtain ⟨p, hPhase, hDht, hCalls⟩ := hPart
      have hSized : p.Sized c.verify := by
        have hHeld := h.gets tid c hCall
        rw [hPhase] at hHeld
        exact hHeld
      have hReplies : c.verify = true → p.Modest w.cr c.key (a.outside w).net := by
        intro hVerify
        refine hModest c.key p ?_
        rw [hCall, ← hVerify, ← hPhase]
      refine h.setGets ?_ (Or.inr ⟨_, hCalls, DHT.innerStep_sized hSized hReplies⟩)
      rw [hDht]
      exact DHT.innerStep_store_sized h.stored hSized
    · refine h.setGets (hDht ▸ h.stored) (hDone.imp_right ?_)
      rintro ⟨result, hCalls⟩
      exact ⟨_, hCalls, trivial⟩
  | store tid key value | storeLocal tid key value | replicate tid key =>
    exact h.enter hStep trivial
  | republish tid keys =>
    rw [next] at hStep
    split at hStep
    · exact h.enter hStep trivial
    · cases hStep
  | message tid addr frame env =>
    rw [next] at hStep
    split at hStep
    · cases hStep
    · obtain ⟨msg, -, hMsg⟩ := Option.bind_eq_some_iff.mp hStep
      exact h.receive hMsg
  | step tid a =>
    obtain ⟨c, hCall, rfl⟩ := Option.map_eq_some_iff.mp hStep
    obtain ⟨hStore, hNext⟩ := DHT.storagePart_sized (a := a) h.stored (h.calls tid c hCall)
    exact (h.setDht hStore).moveTo hNext
  | purge key =>
    cases hStep
    exact h.setDht (h.stored.within ((LocalStore.Within.refl _).dropEntry _))
  | table rt =>
    cases hStep
    exact h.setDht h.stored

end Sized

end Service

/-- **Stored values are within the cap**, in every run of a node in which no
verified lookup is sent a value that hashes to its key and is larger than
`MaxValueSize`: whatever calls and messages there are and however their parts
are interleaved. What is stored can then be stored again, by `Store` and by a
republish pass, and a restart loads it. -/
theorem values_sized (w : WireWorld) {d : DHT} (hStart : d.store.Sized)
    {as : List ServiceAction} {s : Service}
    (hRun : Exec (guarded (stepOf (Service.next w)) (Service.Modest w)) (Service.init d) as s)
    {x : GoString} {v : Bytes} (hStored : s.dht.store.data.lookup x = some v) :
    v.length ≤ maxValueSize ∧
    (∀ key order now, ∃ d', s.dht.storeLocal key v order now = .ok d') ∧
    (hexNamed x = true → loadable x v = true) := by
  have hSized : s.Sized :=
    hRun.invariant (I := Service.Sized) (.init hStart) fun h hStep => h.step hStep.2 hStep.1
  have hLen : v.length ≤ maxValueSize := hSized.stored x v hStored
  refine ⟨hLen, fun key order now => ?_, fun hNamed => DiskStore.loadable_iff.mpr ⟨hNamed, hLen⟩⟩
  unfold DHT.storeLocal
  rw [if_neg (not_lt.mpr hLen)]
  split
  · exact ⟨_, rfl⟩
  · exact ⟨_, rfl⟩

/-! ## A lookup that caches too much -/

/-- The text of a `dht_value` message up to the base64 text of its value. -/
def valueHead : GoString :=
  "\x7b\"v\":1,\"type\":\"dht_value\",\"from\":\"".toList ++ replicate 64 '0' ++
    "\",\"pk\":\"".toList ++ replicate 64 '0' ++
    "\",\"reqid\":\"".toList ++ replicate 32 '0' ++
    "\",\"payload\":\"\x7b\\\"value\\\":\\\"".toList

/-- The rest of the text. -/
def valueTail : GoString :=
  "\\\"\x7d\",\"sig\":\"".toList ++ replicate 128 '0' ++ "\"\x7d".toList

/-- A message whose value is `3 * n` zero bytes, which base64 writes as `4 * n`
times the letter A. -/
def zerosFrame (n : Nat) : Bytes :=
  (valueHead ++ replicate (4 * n) 'A' ++ valueTail).map fun c => UInt8.ofNat c.toNat

/-- What JSON makes of it. -/
def zerosMessage (n : Nat) : Message where
  v := 1
  type := "dht_value".toList
  sender := replicate 64 '0'
  publicKey := replicate 64 '0'
  reqID := replicate 32 '0'
  payload := "\x7b\"value\":\"".toList ++ replicate (4 * n) 'A' ++ "\"\x7d".toList
  sig := replicate 128 '0'

/-- A world in which this is the only message, and all hashes are the same. -/
def zerosWorld (n : Nat) : WireWorld where
  cr := ⟨fun _ => fill 9, fun _ _ _ => true⟩
  messages := ⟨fun _ => [], fun buf => if buf = zerosFrame n then some (zerosMessage n) else none⟩
  payloads := ⟨fun _ => none, fun _ => none, fun _ => none, fun _ => none⟩
  nodes := fun _ => none
  values := fun payload =>
    if payload = (zerosMessage n).payload then some (replicate (3 * n) 0) else none

/-- Whoever is asked answers with the frame. -/
def zerosAround (n : Nat) : Around where
  now := 1
  order := []
  net := steadyNet fun _ => .failed
  frames := fun _ _ => some (zerosFrame n)
  table := RoutingTable.new (fill 0) true

/-- A verified lookup from its beginning to the write to the store. -/
def zerosRun (n : Nat) : List ServiceAction :=
  .get 0 (fill 9) true :: replicate 5 (.getStep 0 (zerosAround n))

theorem length_zerosFrame (n : Nat) : (zerosFrame n).length = 381 + 4 * n := by
  have hHead : valueHead.length = 239 := by decide +kernel
  have hTail : valueTail.length = 142 := by decide +kernel
  rw [zerosFrame, length_map, length_append, length_append,
    length_replicate, hHead, hTail]
  omega

/-- What the lookup makes of it, as long as it is read at all. -/
theorem zerosAround_outside (hFits : 381 + 4 * n ≤ maxMessageSize) :
    (zerosAround n).outside (zerosWorld n) =
      ⟨1, [], steadyNet fun _ => .value (replicate (3 * n) 0)⟩ := by
  have hReply : (zerosWorld n).findValueReply (some (zerosFrame n)) =
      .value (replicate (3 * n) 0) := by
    have hLen := length_zerosFrame n
    have hRead : ¬ (zerosFrame n = [] ∨ maxMessageSize < (zerosFrame n).length) := by
      rintro (hNil | hLong)
      · rw [hNil, length_nil] at hLen
        omega
      · omega
    have hMessage : (zerosWorld n).messages.unmarshal (zerosFrame n) = some (zerosMessage n) := by
      simp only [zerosWorld, if_true]
    have hKind : (zerosMessage n).kind = .dhtValue := rfl
    have hValue : (zerosWorld n).values (zerosMessage n).payload =
        some (replicate (3 * n) 0) := by
      simp only [zerosWorld, if_true]
    rw [WireWorld.findValueReply, if_neg hRead, hMessage]
    simp only [hKind, hValue]
  unfold Around.outside zerosAround
  simp only [hReply]
  rfl

/-- The parts of one lookup, in the service and by themselves. -/
theorem runFrom_getStep {w : WireWorld} {a : Around} (hOut : a.outside w = out) (tid k : Nat)
    (s : Service) :
    runFrom (Service.next w) s (replicate k (.getStep tid a)) =
      (runFrom (GetState.next w.cr) s.gets (replicate k (.step tid out))).map
        fun gets => { s with gets } := by
  induction k generalizing s with
  | zero => rfl
  | succ k ih =>
    rw [replicate_succ, replicate_succ, runFrom, runFrom]
    have hOne : s.next w (.getStep tid a) =
        (s.gets.next w.cr (.step tid out)).map fun gets => { s with gets } := by
      rw [Service.next, hOut]
    rw [hOne]
    cases s.gets.next w.cr (.step tid out) with
    | none => rfl
    | some gets => exact ih { s with gets }

/-- The run can be taken, and it ends with the value in the store. -/
theorem zerosRun_exec (hFits : 381 + 4 * n ≤ maxMessageSize) :
    ∃ s, Exec (stepOf (Service.next (zerosWorld n))) (Service.init (nodeKnowing [contactOf 4]))
        (zerosRun n) s ∧ s.dht.blocklist = none ∧
      s.dht.store.data.lookup (fill 9).hex = some (replicate (3 * n) 0) := by
  -- no part of a lookup depends on what the value is, once its hash is right
  have hLookup : ∀ v : Bytes, (runFrom (GetState.next (zerosWorld n).cr)
      (GetState.init (nodeKnowing [contactOf 4])) (.get 0 (fill 9) true ::
        replicate 5 (.step 0 ⟨1, [], steadyNet fun _ => .value v⟩))).map
      (fun s => (s.dht.blocklist, s.dht.store.data.lookup (fill 9).hex)) =
      some (none, some v) := fun v => rfl
  obtain ⟨gets, hGets, hEnd⟩ := Option.map_eq_some_iff.mp (hLookup (replicate (3 * n) 0))
  obtain ⟨hBlock, hStored⟩ := Prod.mk.inj hEnd
  obtain ⟨first, hFirst, hRest⟩ := Option.bind_eq_some_iff.mp hGets
  have hRun : runFrom (Service.next (zerosWorld n)) (Service.init (nodeKnowing [contactOf 4]))
      (zerosRun n) = some ⟨gets, ∅⟩ := by
    have hGet : (Service.init (nodeKnowing [contactOf 4])).next (zerosWorld n)
        (.get 0 (fill 9) true) = some ⟨first, ∅⟩ := by
      rw [Service.next]
      exact congrArg (Option.map fun gets => (⟨gets, ∅⟩ : Service)) hFirst
    rw [zerosRun, runFrom, hGet, Option.bind_some,
      runFrom_getStep (zerosAround_outside hFits)]
    exact congrArg (Option.map fun gets => (⟨gets, ∅⟩ : Service)) hRest
  exact ⟨⟨gets, ∅⟩, .of_runFrom hRun, hBlock, hStored⟩

/-- A lookup that is sent three bytes. -/
theorem values_sized_threeBytes :
    ∃ s, Exec (guarded (stepOf (Service.next (zerosWorld 1))) (Service.Modest (zerosWorld 1)))
        (Service.init (nodeKnowing [contactOf 4])) (zerosRun 1) s ∧
      s.dht.store.data.lookup (fill 9).hex = some [0, 0, 0] ∧
      loadable (fill 9).hex [0, 0, 0] = true := by
  have hFits : 381 + 4 * 1 ≤ maxMessageSize := by decide
  obtain ⟨s, hRun, -, hStored⟩ := zerosRun_exec hFits
  have hModest : ∀ a ∈ zerosRun 1, ∀ t, Service.Modest (zerosWorld 1) t a := by
    intro a ha t
    rcases mem_cons.mp ha with rfl | ha
    · trivial
    obtain rfl := eq_of_mem_replicate ha
    intro key p _
    cases p with
    | walking n w =>
      intro c _ v hReply _
      rw [zerosAround_outside hFits] at hReply
      obtain rfl := FindReply.value.inj hReply
      decide
    | gate => trivial
    | readLocal => trivial
    | begin => trivial
    | cache v => trivial
    | ended result => trivial
  have hGuarded := hRun.guard hModest
  have hStart : (nodeKnowing [contactOf 4]).store.Sized := LocalStore.sized_new 0 0
  refine ⟨s, hGuarded, hStored, ?_⟩
  exact (values_sized (zerosWorld 1) hStart hGuarded hStored).2.2 (hexNamed_hex _)

/-- A peer answers a verified lookup with 65538 zero bytes, in a message that
is a twelfth of what is allowed. The value is cached; the node cannot store it
again, and a restart skips it. -/
theorem oversized_cached :
    ∃ s, Exec (stepOf (Service.next (zerosWorld 21846)))
        (Service.init (nodeKnowing [contactOf 4])) (zerosRun 21846) s ∧
      (nodeKnowing [contactOf 4]).store.Sized ∧
      (zerosFrame 21846).length ≤ maxMessageSize ∧
      s.dht.store.data.lookup (fill 9).hex = some (replicate (3 * 21846) 0) ∧
      maxValueSize < 3 * 21846 ∧
      s.dht.storeLocal (fill 9) (replicate (3 * 21846) 0) [] 2 =
        .error (.tooLarge (3 * 21846)) ∧
      loadable (fill 9).hex (replicate (3 * 21846) 0) = false := by
  have hFits : 381 + 4 * 21846 ≤ maxMessageSize := by decide
  have hLarge : maxValueSize < 3 * 21846 := by decide
  have hLen : (replicate (3 * 21846) (0 : UInt8)).length = 3 * 21846 :=
    length_replicate
  obtain ⟨s, hRun, -, hStored⟩ := zerosRun_exec hFits
  refine ⟨s, hRun, LocalStore.sized_new 0 0, ?_, hStored, hLarge, ?_, ?_⟩
  · rw [length_zerosFrame]
    exact hFits
  · unfold DHT.storeLocal
    rw [hLen, if_pos hLarge]
  · rw [← Bool.not_eq_true, DiskStore.loadable_iff, hLen]
    exact fun h => absurd h.2 (not_le.mpr hLarge)

end AltNet
