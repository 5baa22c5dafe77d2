import AltNet.Dht.Routing
import AltNet.Crypto

/-!
# AltNet — a DHT node and its storage handlers (`core/dht/dht.go`)

The state of a node and the calls that write to or read from its local store:
`StoreLocal`, the `dht_store` handler and the `dht_find_value` handler, each
behind the blocklist gate.

Messages are taken after the JSON and base64 layers; one that does not decode
there is dropped before it has any effect. What a handler sends back is part
of its result.

Main results:

* `handleStore_cases` — what a `dht_store` message does to the node.
-/

namespace AltNet

/-- `MaxValueSize`. -/
def maxValueSize : Nat := 64 * 1024

/-- `Blocklist`: the hex texts of the blocked keys. -/
abbrev Blocklist := Finset GoString

/-- `DHT`: the parts of it that its handlers and its storage calls use. A
missing blocklist or set of revokers is Go's `nil`. -/
structure DHT where
  rt : RoutingTable
  store : LocalStore
  blocklist : Option Blocklist
  trustedRevokers : Option (Finset GoString)
  revokeSeen : GoMap GoString Time

/-- The errors the DHT's calls return. -/
inductive DhtError where
  | tooLarge (size : Nat)
  | emptyTable
  | notFound
  deriving DecidableEq

/-- `wireContact`. -/
structure WireContact where
  id : GoString
  address : GoString
  alt : List GoString
  deriving DecidableEq

/-- What a handler replies with. -/
inductive Reply where
  | pong
  | stored
  | value (v : Bytes)
  | nodes (contacts : List WireContact)
  deriving DecidableEq

/-- `storePayload`, the value decoded. -/
structure StorePayload where
  key : GoString
  value : Bytes
  deriving DecidableEq

/-- The check that `Get` makes on a value, and `GetUnverified` does not. -/
def Crypto.acceptable (cr : Crypto) (key : NodeID) (verify : Bool) (v : Bytes) : Bool :=
  !verify || decide (cr.contentAddress v = key)

namespace DHT

/-- `NewWithFullLimit`. -/
def new (self : NodeID) (maxBytes perPeerMax : Int) : DHT where
  rt := RoutingTable.new self true
  store := LocalStore.new maxBytes perPeerMax
  blocklist := none
  trustedRevokers := none
  revokeSeen := ∅

def self (d : DHT) : NodeID := d.rt.self

/-- `IsBlocked`, with `Blocklist.Contains`. -/
def isBlocked (d : DHT) (key : NodeID) : Bool :=
  match d.blocklist with
  | none => false
  | some hashes => decide (key.hex ∈ hashes)

/-- The reply of `handleFindValue` when it has no value to give: the closest
contacts without their alternative addresses. -/
def closestReply (d : DHT) (key : NodeID) : Reply :=
  .nodes ((d.rt.closest key bucketK).map fun c => ⟨c.id.hex, c.address, []⟩)

/-- `handleFindNode`. -/
def handleFindNode (d : DHT) (target : GoString) : Option Reply :=
  match idFromHex target with
  | none => none
  | some target =>
    some (.nodes ((d.rt.closest target bucketK).map fun c =>
      ⟨c.id.hex, c.address, c.altAddresses⟩))

/-- `handleStore`; `sender` is the From field of the message, and `order` the
order in which an eviction would visit the entries. -/
def handleStore (d : DHT) (sp : StorePayload) (sender : GoString) (order : List GoString)
    (now : Time) : DHT × Option Reply :=
  match idFromHex sp.key with
  | none => (d, none)
  | some key =>
    if maxValueSize < sp.value.length then (d, none)
    else if d.isBlocked key then (d, some .stored)
    else
      let (store, ok) := d.store.put order key sp.value sender now
      if ok then ({ d with store }, some .stored) else ({ d with store }, none)

/-- `handleFindValue`. -/
def handleFindValue (d : DHT) (key : GoString) (now : Time) : DHT × Option Reply :=
  match idFromHex key with
  | none => (d, none)
  | some key =>
    if d.isBlocked key then (d, some (d.closestReply key))
    else
      let (store, found) := d.store.get key now
      match found with
      | some v => ({ d with store }, some (.value v))
      | none => ({ d with store }, some (d.closestReply key))

/-- `StoreLocal`. -/
def storeLocal (d : DHT) (key : NodeID) (value : Bytes) (order : List GoString) (now : Time) :
    Except DhtError DHT :=
  if maxValueSize < value.length then .error (.tooLarge value.length)
  else if d.isBlocked key then .ok d
  else .ok { d with store := (d.store.put order key value [] now).1 }

/-! ## The gate -/

/-- **What `handleStore` does to the node**: nothing, where one of its checks
fails, or what `PutAttributed` does to the store. -/
theorem handleStore_cases (d : DHT) (sp : StorePayload) (sender : GoString)
    (order : List GoString) (now : Time) :
    ((d.handleStore sp sender order now).1 = d ∧ ∀ key, idFromHex sp.key = some key →
        maxValueSize < sp.value.length ∨ d.isBlocked key = true) ∨
      ∃ key, idFromHex sp.key = some key ∧ sp.value.length ≤ maxValueSize ∧
        d.isBlocked key = false ∧ (d.handleStore sp sender order now).1 =
          { d with store := (d.store.put order key sp.value sender now).1 } := by
  unfold handleStore
  split
  case h_1 hKey => exact .inl ⟨rfl, fun key h => by cases hKey.symm.trans h⟩
  case h_2 key hKey =>
    have hSame : ∀ key', idFromHex sp.key = some key' → key' = key :=
      fun key' h => Option.some.inj (h.symm.trans hKey)
    split
    case isTrue hSize => exact .inl ⟨rfl, fun _ _ => .inl hSize⟩
    case isFalse hSize =>
      split
      case isTrue hBlocked =>
        exact .inl ⟨rfl, fun key' h => .inr (hSame key' h ▸ hBlocked)⟩
      case isFalse hOpen =>
        refine .inr ⟨key, hKey, not_lt.mp hSize, Bool.eq_false_iff.mpr hOpen, ?_⟩
        dsimp only
        split <;> rfl

end DHT

end AltNet
