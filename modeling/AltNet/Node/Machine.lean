import AltNet.Dht.Handler
import AltNet.Peer.Conn

/-!
# AltNet — a running node (`core/peer/peer.go`, `core/dht/dht.go`)

A node with any number of connections, each authenticated by a handshake with
some key, against a network that is free in everything it sends. Bytes arrive
on a connection in pieces of any size; the read loop of the connection takes
messages off them; a message is the reply to a request of this node, or it is
dispatched to the DHT. Requests go to a contact, at one of its addresses, and
the call that made one refreshes the contact when a suitable reply arrives.
Full buckets leave evictions behind that ping the head of the bucket first.

A reply is matched with its request by the request's identifier and nothing
else, as in `handleMessage`; which connection it came from is recorded here but
not looked at.

The node's own writes to its store, and the lookups that decide which contacts
to ask, are not part of this machine: it is open to any request and to any
second-hand contact.

Main results:

* `next_effect` — what one step can do to the parts of the state that the
  invariants speak about.
-/

namespace AltNet

open Function

/-- What a node runs with: the crypto, and JSON for messages, for payloads of
requests and for the contacts of a `dht_nodes` reply. -/
structure World where
  cr : Crypto
  messages : MessageCodec
  payloads : PayloadCodec
  nodes : GoString → Option (List WireContact)

/-- The calls that send a request: `Ping`, the ping of `maybeEvictHead`,
`FindNode`, `sendFindValue` and `sendStore`, with the contact they are made
with. -/
inductive Rpc where
  | ping (c : Contact)
  | evictionPing (e : Eviction)
  | findNode (c : Contact)
  | findValue (c : Contact)
  | store (c : Contact)
  deriving DecidableEq

namespace Rpc

/-- The contact a call is made with. An eviction pings the head of its
bucket. -/
def contact : Rpc → Contact
  | .ping c | .findNode c | .findValue c | .store c => c
  | .evictionPing e => e.head

/-- The eviction that waits for the outcome of the call. -/
def eviction : Rpc → Option Eviction
  | .evictionPing e => some e
  | _ => none

/-- The call takes this message for a success and refreshes its contact.
`sendFindValue` does so before it looks at the reply. -/
def refreshes (w : World) (msg : Message) : Rpc → Bool
  | .ping _ | .evictionPing _ => msg.kind = .dhtPong
  | .findNode _ => msg.kind = .dhtNodes && (w.nodes msg.payload).isSome
  | .findValue _ => true
  | .store _ => msg.kind = .dhtStored

end Rpc

/-- A node. Next to its own state it has the history of what was verified and
what was dispatched, and on which connection. -/
structure Node (κ : Type) where
  dht : DHT
  conn : κ → PeerConn
  live : κ → Bool
  address : κ → GoString
  input : κ → Bytes
  table : ConnTable κ
  pending : GoMap GoString Rpc
  arrived : List (Rpc × κ × Message)
  evictions : List Eviction
  judged : List (Eviction × Bool)
  heard : List κ
  handled : List (κ × Message)

inductive NodeAction (κ : Type) where
  | register (k : κ) (addr : GoString)
  | receive (k : κ) (bytes : Bytes)
  | read (k : κ) (env : Env)
  | close (k : κ)
  | request (reqID : GoString) (rpc : Rpc) (addr : GoString)
  | timeout (reqID : GoString)
  | complete (i : Nat) (now : Time)
  | giveUp (e : Eviction)
  | evict (i : Nat) (now : Time)
  | hint (c : Contact)
  | remove (id : NodeID)

namespace Node

variable {κ : Type} [DecidableEq κ]

/-- A node before its first connection; `key k` is the key that the handshake
on connection `k` verifies. -/
def init (w : World) (key : κ → Bytes) (d : DHT) : Node κ where
  dht := d
  conn := fun k => w.cr.authenticated (key k)
  live := fun _ => false
  address := fun _ => []
  input := fun _ => []
  table := ConnTable.new fun k => w.cr.publicKeyToID (key k)
  pending := ∅
  arrived := []
  evictions := []
  judged := []
  heard := []
  handled := []

/-- The end of a read loop. -/
def disconnect (s : Node κ) (k : κ) : Node κ :=
  { s with live := update s.live k false, table := s.table.removeConn k }

/-- The call a message is the reply to. -/
def pendingFor (s : Node κ) (msg : Message) : Option Rpc :=
  if msg.reqID ≠ [] then s.pending.lookup msg.reqID else none

/-- The message that the next turn of the read loop of `k` gets to, with the
connection and the rest of the input. -/
def turn (w : World) (s : Node κ) (k : κ) : Turn :=
  takeMessage w.cr w.messages (s.conn k) (s.input k)

/-- A message has been verified on `k`. -/
def accept (s : Node κ) (k : κ) (pc : PeerConn) (rest : Bytes) : Node κ :=
  { s with
    conn := update s.conn k pc
    input := update s.input k rest
    heard := k :: s.heard }

/-- The DHT has handled a message of `k`. -/
def dispatched (s : Node κ) (k : κ) (msg : Message) (out : Outcome) : Node κ :=
  { s with
    dht := out.dht
    evictions := out.eviction.toList ++ s.evictions
    table := out.aliases.foldl (fun t p => (t.addPeerAddress p.1 p.2).1) s.table
    handled := (k, msg) :: s.handled }

/-- `handleMessage`: a reply goes to the call that waits for it, everything
else to the DHT. -/
def handleMessage (w : World) (s : Node κ) (k : κ) (msg : Message) (env : Env) :
    Option (Node κ) :=
  match s.pendingFor msg with
  | some rpc =>
    some { s with
      pending := s.pending.erase msg.reqID
      arrived := (rpc, k, msg) :: s.arrived }
  | none =>
    (s.dht.handleMessage w.cr w.payloads (s.address k) msg env).map fun out =>
      s.dispatched k msg out

/-- The verdict of a ping on the head of a bucket, if an eviction still waits
for it. -/
def judge (s : Node κ) (e : Option Eviction) (alive : Bool) : Node κ :=
  { s with
    evictions := (e.filter (· ∈ s.evictions)).elim s.evictions s.evictions.erase
    judged := ((e.filter (· ∈ s.evictions)).map fun e => (e, alive)).toList ++ s.judged }

/-- A call refreshes its contact, when the reply is a success. -/
def refresh (s : Node κ) (c : Contact) (success : Bool) (now : Time) : Node κ :=
  { s with
    dht := { s.dht with rt := if success then (s.dht.rt.update c now).1 else s.dht.rt }
    evictions := (if success then (s.dht.rt.update c now).2 else none).toList ++ s.evictions }

/-- A call goes on with the reply it got. -/
def resume (w : World) (s : Node κ) (rpc : Rpc) (msg : Message) (now : Time) : Node κ :=
  (s.refresh rpc.contact (rpc.refreshes w msg) now).judge rpc.eviction (rpc.refreshes w msg)

/-- `Request` can send: the identifier is fresh, and there is a connection for
one of the contact's addresses. -/
def canRequest (s : Node κ) (reqID : GoString) (rpc : Rpc) (addr : GoString) : Bool :=
  reqID ≠ [] && reqID ∉ s.pending && addr ∈ rpc.contact.allAddresses && addr ∈ s.table.peers &&
    rpc.eviction.all fun e => e ∈ s.evictions

/-- The next state; `none` when the step cannot be taken, or when it panics. -/
def next (w : World) (s : Node κ) : NodeAction κ → Option (Node κ)
  | .register k addr =>
    if s.live k then none
    else
      match s.table.registerConn k addr with
      | (table, some _) => some { s with table }
      | (table, none) => some { s with
          table
          live := update s.live k true
          address := update s.address k addr }
  | .receive k bytes =>
    if s.live k then some { s with input := update s.input k (s.input k ++ bytes) }
    else none
  | .read k env =>
    if s.live k then
      match s.turn w k with
      | .blocked => none
      | .drop => some (s.disconnect k)
      | .message msg pc rest => (s.accept k pc rest).handleMessage w k msg env
    else none
  | .close k => if s.live k then some (s.disconnect k) else none
  | .request reqID rpc addr =>
    if s.canRequest reqID rpc addr then some { s with pending := s.pending.insert reqID rpc }
    else none
  | .timeout reqID => some { s with pending := s.pending.erase reqID }
  | .complete i now =>
    match s.arrived[i]? with
    | none => none
    | some (rpc, _, msg) =>
      some ({ s with arrived := s.arrived.eraseIdx i }.resume w rpc msg now)
  | .giveUp e => if e ∈ s.evictions then some (s.judge (some e) false) else none
  | .evict i now =>
    match s.judged[i]? with
    | none => none
    | some (e, alive) =>
      some { s with
        judged := s.judged.eraseIdx i
        dht := { s.dht with rt := s.dht.rt.maybeEvictHead e alive now } }
  | .hint c => some { s with dht := { s.dht with rt := s.dht.rt.hint c } }
  | .remove id =>
    (s.dht.rt.remove id).map fun rt => { s with dht := { s.dht with rt } }

/-! ## What a step can do -/

/-- The message that the next turn of the read loop of `k` passes to the
DHT. -/
def dispatches (w : World) (s : Node κ) (k : κ) : Option Message :=
  match s.turn w k with
  | .message msg _ _ => if (s.pendingFor msg).isSome then none else some msg
  | _ => none

/-- The effect of a step on the DHT, on the calls and evictions under way and
on the history; the other parts of the state are left open. -/
inductive Effect (w : World) (s : Node κ) : NodeAction κ → Node κ → Prop
  | quiet {act : NodeAction κ} {t : Node κ} (hDht : t.dht = s.dht) (hConn : t.conn = s.conn)
      (hArrived : t.arrived = s.arrived) (hEvictions : t.evictions = s.evictions)
      (hJudged : t.judged = s.judged) (hHeard : t.heard = s.heard)
      (hHandled : t.handled = s.handled)
      (hNone : ∀ k env, act = .read k env → s.dispatches w k = none) : Effect w s act t
  | answer {k : κ} {env : Env} {rpc : Rpc} {msg : Message} {pc : PeerConn} {rest : Bytes}
      (hVerify : verifyMessage w.cr w.messages (s.conn k) msg = .ok pc)
      (hNone : s.dispatches w k = none) :
      Effect w s (.read k env) { s.accept k pc rest with
        pending := s.pending.erase msg.reqID
        arrived := (rpc, k, msg) :: s.arrived }
  | dispatch {k : κ} {env : Env} {msg : Message} {pc : PeerConn} {rest : Bytes} {out : Outcome}
      (hVerify : verifyMessage w.cr w.messages (s.conn k) msg = .ok pc)
      (hSome : s.dispatches w k = some msg)
      (hOut : s.dht.handleMessage w.cr w.payloads (s.address k) msg env = some out) :
      Effect w s (.read k env) ((s.accept k pc rest).dispatched k msg out)
  | complete {i : Nat} {now : Time} {rpc : Rpc} {k : κ} {msg : Message}
      (hArrived : s.arrived[i]? = some (rpc, k, msg)) :
      Effect w s (.complete i now)
        ({ s with arrived := s.arrived.eraseIdx i }.resume w rpc msg now)
  | giveUp {e : Eviction} (hMem : e ∈ s.evictions) : Effect w s (.giveUp e) (s.judge (some e) false)
  | evict {i : Nat} {now : Time} {e : Eviction} {alive : Bool}
      (hJudged : s.judged[i]? = some (e, alive)) :
      Effect w s (.evict i now) { s with
        judged := s.judged.eraseIdx i
        dht := { s.dht with rt := s.dht.rt.maybeEvictHead e alive now } }
  | hint {c : Contact} : Effect w s (.hint c) { s with dht := { s.dht with rt := s.dht.rt.hint c } }
  | remove {id : NodeID} {rt : RoutingTable} (hRemove : s.dht.rt.remove id = some rt) :
      Effect w s (.remove id) { s with dht := { s.dht with rt } }

/-- **One step.** Every step has one of these effects. -/
theorem next_effect {w : World} {s t : Node κ} {act : NodeAction κ} (h : s.next w act = some t) :
    Effect w s act t := by
  have hQuiet : ∀ {act : NodeAction κ}, (∀ k env, act ≠ .read k env) →
      ∀ k env, act = .read k env → s.dispatches w k = none :=
    fun hNot k env hEq => absurd hEq (hNot k env)
  cases act with
  | register k addr =>
    simp only [next] at h
    split at h
    · cases h
    · split at h <;> cases h <;>
        exact .quiet rfl rfl rfl rfl rfl rfl rfl (hQuiet (by simp))
  | receive k bytes | close k | request reqID rpc addr =>
    simp only [next] at h
    split at h
    · cases h
      exact .quiet rfl rfl rfl rfl rfl rfl rfl (hQuiet (by simp))
    · cases h
  | timeout reqID =>
    cases h
    exact .quiet rfl rfl rfl rfl rfl rfl rfl (hQuiet (by simp))
  | read k env =>
    simp only [next] at h
    split at h
    · split at h
      · cases h
      · rename_i hTurn
        cases h
        refine .quiet rfl rfl rfl rfl rfl rfl rfl fun k' env' hEq => ?_
        cases hEq
        simp [dispatches, hTurn]
      · rename_i msg pc rest hTurn
        have hVerify := takeMessage_message hTurn
        unfold handleMessage at h
        have hPending : (s.accept k pc rest).pendingFor msg = s.pendingFor msg := rfl
        rw [hPending] at h
        split at h
        · rename_i rpc hRpc
          cases h
          exact .answer hVerify (by simp [dispatches, hTurn, hRpc])
        · rename_i hNone
          obtain ⟨out, hOut, rfl⟩ := Option.map_eq_some_iff.mp h
          exact .dispatch hVerify (by simp [dispatches, hTurn, hNone]) hOut
    · cases h
  | complete i now =>
    simp only [next] at h
    split at h
    · cases h
    · rename_i hArrived
      cases h
      exact .complete hArrived
  | giveUp e =>
    simp only [next] at h
    split at h
    · rename_i hMem
      cases h
      exact .giveUp hMem
    · cases h
  | evict i now =>
    simp only [next] at h
    split at h
    · cases h
    · rename_i hJudged
      cases h
      exact .evict hJudged
  | hint c =>
    cases h
    exact .hint
  | remove id =>
    obtain ⟨rt, hRemove, rfl⟩ := Option.map_eq_some_iff.mp h
    exact .remove hRemove

end Node

/-- A world to run a node in: the messages and the payloads of `dht_store` are
those of a table, hashes look at the first byte, and every signature is
accepted. -/
def tableWorld (messages : List (Bytes × Message)) (stores : List (GoString × StorePayload)) :
    World where
  cr := ⟨fun bs => NodeID.fill (bs.headD 0), fun _ _ _ => true⟩
  messages := ⟨fun _ => [], fun buf => messages.lookup buf⟩
  payloads := ⟨fun _ => none, fun payload => stores.lookup payload, fun _ => none, fun _ => none⟩
  nodes := fun _ => some []

/-- A key, whose identifier is `NodeID.fill 9` in such a world. -/
def samplePub : Bytes := List.replicate publicKeySize 9

end AltNet
