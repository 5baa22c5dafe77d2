import AltNet.Dht.Coalesce
import AltNet.Dht.Maintenance
import AltNet.Node.Machine

/-!
# AltNet — a node at work (`core/dht/dht.go`, `core/dht/maintenance.go`)

All the ways in which values get into the local store of a node, any number of
them at once: calls of `Store` and `StoreLocal`, republish passes, `dht_store`
messages, and lookups, which may cache what the network sends.

Lookups run as in `GetState`, with the frames that answer their requests taken
off the wire: a frame larger than `MaxMessageSize` is not read. The other calls
are cut into the parts that read or write the node: the checks, the write, the
replication, and the head of the loop of a republish pass. A `dht_store`
message becomes such a call, since its handler looks at the blocklist before it
writes; every other message is handled in one step. Signatures are not looked
at: whoever may send here can sign.

What else happens on a node does not add to the store. `table` stands for
everything that changes the routing table, `purge` for one turn of the loop in
`applyRevoke`; both may come at any time.

Main results:

* `storeLocal_parts`, `republishAll_parts` — the parts of a call, one after the
  other, do what the function does.
-/

namespace AltNet

/-- What a node runs with, and JSON and base64 for the payload of a `dht_value`
reply. -/
structure WireWorld extends World where
  values : GoString → Option Bytes

/-- What `sendFindValue` makes of the frame that answers its request; without
one it gives up in the end. -/
def WireWorld.findValueReply (w : WireWorld) : Option Bytes → FindReply
  | none => .failed
  | some frame =>
    if frame = [] ∨ maxMessageSize < frame.length then .failed
    else
      match w.messages.unmarshal frame with
      | none => .failed
      | some msg =>
        match msg.kind with
        | .dhtValue =>
          match w.values msg.payload with
          | none => .malformed
          | some v => .value v
        | .dhtNodes =>
          match w.nodes msg.payload with
          | none => .malformed
          | some cs => .contacts (cs.filterMap fun wc =>
              (idFromHex wc.id).map fun id => ⟨id, wc.address, wc.alt, 0⟩)
        | _ => .malformed

/-- What a part reads from outside of the node: the clock, the order of an
eviction, the network with the frames that answer the requests of a round, and
the routing table that `Replicate` leaves behind. -/
structure Around where
  now : Time
  order : List GoString
  net : Remote
  frames : Nat → Contact → Option Bytes
  table : RoutingTable

/-- The same for a lookup, the frames decoded. -/
def Around.outside (w : WireWorld) (a : Around) : Outside where
  now := a.now
  order := a.order
  net := { a.net with reply := fun n c => w.findValueReply (a.frames n c) }

/-- Where a call that stores stands. `keys` are what a republish pass has still
to visit, none for a call of `Store`; `after` is missing for `StoreLocal` and
for a `dht_store` message, which do not replicate. -/
inductive StorageCall where
  | visit (keys : List GoString)
  | check (key : NodeID) (value : Bytes) (sender : GoString) (after : Option (List GoString))
  | write (key : NodeID) (value : Bytes) (sender : GoString) (after : Option (List GoString))
  | replicate (key : NodeID) (keys : List GoString)

/-- The next part of a call, and where it stands then. -/
def DHT.storagePart (d : DHT) (a : Around) : StorageCall → DHT × Option StorageCall
  | .visit [] => (d, none)
  | .visit (hex :: keys) =>
    match idFromHex hex with
    | none => (d, some (.visit keys))
    | some key =>
      let (store, found) := d.store.get key a.now
      ({ d with store }, some (match found with
        | none => .visit keys
        | some value => .check key value [] (some keys)))
  | .check key value sender after =>
    if maxValueSize < value.length then (d, after.map .visit)
    else if d.isBlocked key then (d, after.map (.replicate key))
    else (d, some (.write key value sender after))
  | .write key value sender after =>
    ({ d with store := (d.store.put a.order key value sender a.now).1 },
      after.map (.replicate key))
  | .replicate key keys => (d.replicate key a.table, some (.visit keys))

/-- A node with the calls that run on it. -/
structure Service where
  gets : GetState
  calls : GoMap Nat StorageCall

inductive ServiceAction where
  | get (tid : Nat) (key : NodeID) (verify : Bool)
  | getStep (tid : Nat) (a : Around)
  | store (tid : Nat) (key : NodeID) (value : Bytes)
  | storeLocal (tid : Nat) (key : NodeID) (value : Bytes)
  | replicate (tid : Nat) (key : NodeID)
  | republish (tid : Nat) (keys : List GoString)
  | message (tid : Nat) (addr : GoString) (frame : Bytes) (env : Env)
  | step (tid : Nat) (a : Around)
  | purge (key : NodeID)
  | table (rt : RoutingTable)

namespace Service

/-- A node on which no call is running. -/
def init (d : DHT) : Service := ⟨GetState.init d, ∅⟩

def dht (s : Service) : DHT := s.gets.dht

def setDht (s : Service) (d : DHT) : Service := { s with gets := { s.gets with dht := d } }

/-- A new call. -/
def enter (s : Service) (tid : Nat) (c : StorageCall) : Option Service :=
  if tid ∈ s.calls then none else some { s with calls := s.calls.insert tid c }

/-- The call goes on, or is over. -/
def moveTo (s : Service) (tid : Nat) : Option StorageCall → Service
  | none => { s with calls := s.calls.erase tid }
  | some c => { s with calls := s.calls.insert tid c }

/-- The key and the value of a `dht_store` message. -/
def storeRequest (w : WireWorld) (msg : Message) : Option (NodeID × Bytes) :=
  (w.payloads.store msg.payload).bind fun sp =>
    (idFromHex sp.key).map fun key => (key, sp.value)

/-- A message that is not the reply to a request. -/
def receive (w : WireWorld) (s : Service) (tid : Nat) (addr : GoString) (msg : Message)
    (env : Env) : Option Service :=
  if msg.kind = .dhtStore then
    match storeRequest w msg with
    | none => some s
    | some (key, value) => s.enter tid (.check key value msg.sender none)
  else
    (s.dht.handleMessage w.cr w.payloads addr msg env).map fun out => s.setDht out.dht

/-- The next state; `none` when the step cannot be taken, or when it panics. -/
def next (w : WireWorld) (s : Service) : ServiceAction → Option Service
  | .get tid key verify =>
    (s.gets.next w.cr (.get tid key verify)).map fun gets => { s with gets }
  | .getStep tid a =>
    (s.gets.next w.cr (.step tid (a.outside w))).map fun gets => { s with gets }
  | .store tid key value => s.enter tid (.check key value [] (some []))
  | .storeLocal tid key value => s.enter tid (.check key value [] none)
  | .replicate tid key => s.enter tid (.replicate key [])
  | .republish tid keys =>
    if keys.Nodup ∧ keys.toFinset = s.dht.store.data.keys then s.enter tid (.visit keys)
    else none
  | .message tid addr frame env =>
    if frame = [] ∨ maxMessageSize < frame.length then none
    else (w.messages.unmarshal frame).bind fun msg => s.receive w tid addr msg env
  | .step tid a =>
    (s.calls.lookup tid).map fun c =>
      (s.setDht (s.dht.storagePart a c).1).moveTo tid (s.dht.storagePart a c).2
  | .purge key => some (s.setDht (s.dht.revokeOne key))
  | .table rt => some (s.setDht { s.dht with rt })

end Service

/-! ## The calls by themselves -/

/-- One part leads from a node and a call to the next. -/
def StoragePart (x y : DHT × Option StorageCall) : Prop :=
  ∃ a c, x.2 = some c ∧ x.1.storagePart a c = y

/-- Surroundings that a call meets which makes no request. -/
def Around.local (now : Time) (order : List GoString) (table : RoutingTable) : Around where
  now := now
  order := order
  net := steadyNet fun _ => .failed
  frames := fun _ _ => none
  table := table

section Parts

variable {d : DHT} {key : NodeID} {value : Bytes} {sender : GoString}

open Relation (ReflTransGen)

/-- `StoreLocal`, when it returns without an error. -/
theorem storeLocal_parts {d' : DHT} {order : List GoString} {now : Time}
    (after : Option (List GoString)) (h : d.storeLocal key value order now = .ok d') :
    ReflTransGen StoragePart (d, some (.check key value [] after))
      (d', after.map (.replicate key)) := by
  have hCheck : StoragePart (d, some (.check key value [] after))
      (d.storagePart (.local now order d.rt) (.check key value [] after)) := ⟨_, _, rfl, rfl⟩
  unfold DHT.storeLocal at h
  rw [DHT.storagePart] at hCheck
  split at h
  · cases h
  rename_i hSize
  rw [if_neg hSize] at hCheck
  split at h
  · rename_i hBlocked
    rw [if_pos hBlocked] at hCheck
    cases h
    exact .single hCheck
  · rename_i hOpen
    rw [if_neg hOpen] at hCheck
    cases h
    exact .head hCheck (.single ⟨.local now order d.rt, _, rfl, rfl⟩)

theorem storeLocal_error_parts {order : List GoString} {now : Time} {e : DhtError}
    (after : Option (List GoString)) (h : d.storeLocal key value order now = .error e) :
    StoragePart (d, some (.check key value [] after)) (d, after.map .visit) := by
  unfold DHT.storeLocal at h
  split at h
  · rename_i hSize
    refine ⟨.local now order d.rt, _, rfl, ?_⟩
    rw [DHT.storagePart, if_pos hSize]
  · split at h <;> cases h

/-- `Store`, as a pass calls it; an error is dropped. -/
theorem storeCall_parts (order : List GoString) (now : Time) (table : RoutingTable)
    (keys : List GoString) :
    ReflTransGen StoragePart (d, some (.check key value [] (some keys)))
      (((d.storeCall key value order now table).toOption).getD d, some (.visit keys)) := by
  unfold DHT.storeCall
  split
  case h_1 e hError =>
    rw [Except.toOption, Option.getD_none]
    exact .single (storeLocal_error_parts (some keys) hError)
  case h_2 d' hOk =>
    have hParts := storeLocal_parts (some keys) hOk
    have hReplicate : StoragePart (d', some (.replicate key keys))
        (d'.replicate key table, some (.visit keys)) :=
      ⟨.local now order table, _, rfl, rfl⟩
    refine hParts.trans (.single ?_)
    split
    case isTrue hBlocked =>
      rw [DHT.replicate, if_pos hBlocked] at hReplicate
      exact hReplicate
    case isFalse => exact hReplicate

/-- A turn of the loop of a pass. -/
theorem republishOne_parts (v : Visit) (keys : List GoString) :
    ReflTransGen StoragePart (d, some (.visit (v.hex :: keys)))
      (d.republishOne v, some (.visit keys)) := by
  have hVisit : StoragePart (d, some (.visit (v.hex :: keys)))
      (d.storagePart (.local v.readAt v.order v.table) (.visit (v.hex :: keys))) :=
    ⟨_, _, rfl, rfl⟩
  unfold DHT.republishOne
  rw [DHT.storagePart] at hVisit
  split
  case h_1 hKey =>
    rw [hKey] at hVisit
    exact .single hVisit
  case h_2 key hKey =>
    rw [hKey] at hVisit
    dsimp only [Around.local] at hVisit ⊢
    split
    case h_1 hFound =>
      rw [hFound] at hVisit
      exact .single hVisit
    case h_2 value hFound =>
      rw [hFound] at hVisit
      refine .head hVisit ?_
      -- the node after the `Get`
      generalize { d with store := (d.store.get key v.readAt).1 } = r
      have hStore : ReflTransGen StoragePart (r, some (.check key value [] (some keys)))
          (((r.storeCall key value v.order v.putAt v.table).toOption).getD r,
            some (.visit keys)) := storeCall_parts v.order v.putAt v.table keys
      cases hCall : r.storeCall key value v.order v.putAt v.table with
      | error e | ok d' =>
        rw [hCall] at hStore
        exact hStore

/-- **A republish pass by itself.** -/
theorem republishAll_parts (visits : List Visit) :
    ReflTransGen StoragePart (d, some (.visit (visits.map fun v => v.hex)))
      (d.republishAll visits, none) := by
  induction visits generalizing d with
  | nil => exact .single ⟨.local 0 [] d.rt, _, rfl, rfl⟩
  | cons v rest ih => exact (republishOne_parts v _).trans ih

end Parts

end AltNet
