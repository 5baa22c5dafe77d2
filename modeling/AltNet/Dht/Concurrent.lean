import AltNet.Dht.Revoke

/-!
# AltNet — concurrent operations on one node (`core/dht/dht.go`)

`get`, `handleStore`, `handleFindValue` and `applyRevoke` run in goroutines of
their own, any number of them at once, and each is cut here into the sections
that nothing else can interleave with: a look at the blocklist, a lock-held
call of the store, the lock-held part of `get` that finds a lookup in flight or
starts one, and the end of a lookup. The walk through the network is one
section that may return anything; its loop does not touch the blocklist or the
store.

The field `blocklist` itself is under no lock. `applyRevoke` makes a list if it
finds none, and then reads the field once more for the list to add to: these are
sections of their own, and where two revokes both find no list, the one replaces
the list that the other adds to, or has added to. Lists are numbered in the order
in which they are made.

A lookup belongs to the call that started it, its leader; calls for the same
key and the same kind of lookup that come while it is listed wait for the
leader's result. The state keeps what every call returned, and whether it was
made after a revoke of its key had completed.
-/

namespace AltNet

/-- Where an operation stands: before which of its sections. -/
inductive Phase where
  | gate (verify : Bool)
  | readLocal (verify : Bool)
  | network (verify : Bool)
  | cache (value : Bytes)
  | finish (verify : Bool) (result : Except DhtError Bytes)
  | wait (verify : Bool) (leader : Nat)
  | storeGate (value : Bytes) (sender : GoString)
  | storePut (value : Bytes) (sender : GoString)
  | serveGate
  | serveRead
  | revokeCheck
  | revokeNew
  | revokeLoad
  | revokeAdd (list : Nat)
  | revokeDelete

/-- An operation under way. -/
structure Op where
  key : NodeID
  after : Bool
  phase : Phase

/-- What a call of `get` returned. -/
structure Answer where
  key : NodeID
  verify : Bool
  after : Bool
  result : Except DhtError Bytes

/-- What a `dht_find_value` was answered with; `none` stands for contacts. -/
structure Served where
  key : NodeID
  after : Bool
  value : Option Bytes

structure OpState where
  dht : DHT
  list : Nat
  inflight : NodeID × Bool → Option Nat
  ops : GoMap Nat Op
  results : GoMap Nat (Except DhtError Bytes)
  revoked : List NodeID
  answers : List Answer
  served : List Served

/-- What a section reads from its surroundings: the clock, the order in which
an eviction would visit the entries, and the outcome of a walk through the
network. -/
structure Section where
  now : Time
  order : List GoString
  reply : Except DhtError Bytes

inductive OpAction where
  | get (tid : Nat) (key : NodeID) (verify : Bool)
  | store (tid : Nat) (key : NodeID) (value : Bytes) (sender : GoString)
  | findValue (tid : Nat) (key : NodeID)
  | revoke (tid : Nat) (key : NodeID)
  | step (tid : Nat) (sec : Section)

namespace OpState

/-- A node on which nothing is under way. -/
def init (d : DHT) : OpState where
  dht := d
  list := 0
  inflight := fun _ => none
  ops := ∅
  results := ∅
  revoked := []
  answers := []
  served := []

/-- A new operation. -/
def start (s : OpState) (tid : Nat) (key : NodeID) (p : Phase) : OpState :=
  { s with ops := s.ops.insert tid ⟨key, decide (key ∈ s.revoked), p⟩ }

/-- The operation goes on to its next section. -/
def advance (s : OpState) (tid : Nat) (op : Op) (p : Phase) : OpState :=
  { s with ops := s.ops.insert tid { op with phase := p } }

/-- The operation is over. -/
def leave (s : OpState) (tid : Nat) : OpState := { s with ops := s.ops.erase tid }

def setStore (s : OpState) (store : LocalStore) : OpState :=
  { s with dht := { s.dht with store } }

def setBlocklist (s : OpState) (blocklist : Option Blocklist) : OpState :=
  { s with dht := { s.dht with blocklist } }

/-- The next section of an operation. -/
def advanceOp (cr : Crypto) (s : OpState) (tid : Nat) (op : Op) (sec : Section) :
    Option OpState :=
  match op.phase with
  | .gate verify =>
    some (s.advance tid op
      (if s.dht.isBlocked op.key then .finish verify (.error .notFound) else .readLocal verify))
  | .readLocal verify =>
    some ((s.setStore (s.dht.store.get op.key sec.now).1).advance tid op
      (match (s.dht.store.get op.key sec.now).2 with
        | some v =>
          if cr.acceptable op.key verify v then .finish verify (.ok v) else .network verify
        | none => .network verify))
  | .network verify =>
    some (s.advance tid op
      (match sec.reply with
        | .error e => .finish verify (.error e)
        | .ok v =>
          if cr.acceptable op.key verify v then
            if verify then .cache v else .finish verify (.ok v)
          else .finish verify (.error .notFound)))
  | .cache v =>
    some ((s.setStore (s.dht.store.put sec.order op.key v [] sec.now).1).advance tid op
      (.finish true (.ok v)))
  | .finish verify result =>
    some { s.leave tid with
      inflight := Function.update s.inflight (op.key, verify) none
      results := s.results.insert tid result
      answers := ⟨op.key, verify, op.after, result⟩ :: s.answers }
  | .wait verify leader =>
    (s.results.lookup leader).map fun result =>
      { s.leave tid with answers := ⟨op.key, verify, op.after, result⟩ :: s.answers }
  | .storeGate value sender =>
    if maxValueSize < value.length ∨ s.dht.isBlocked op.key then some (s.leave tid)
    else some (s.advance tid op (.storePut value sender))
  | .storePut value sender =>
    some ((s.setStore (s.dht.store.put sec.order op.key value sender sec.now).1).leave tid)
  | .serveGate =>
    if s.dht.isBlocked op.key then
      some { s.leave tid with served := ⟨op.key, op.after, none⟩ :: s.served }
    else some (s.advance tid op .serveRead)
  | .serveRead =>
    some { (s.setStore (s.dht.store.get op.key sec.now).1).leave tid with
      served := ⟨op.key, op.after, (s.dht.store.get op.key sec.now).2⟩ :: s.served }
  | .revokeCheck =>
    some (s.advance tid op (if s.dht.blocklist.isNone then .revokeNew else .revokeLoad))
  | .revokeNew =>
    some ({ s.setBlocklist (some ∅) with list := s.list + 1 }.advance tid op .revokeLoad)
  | .revokeLoad => some (s.advance tid op (.revokeAdd s.list))
  -- what is added to a list that was replaced is lost
  | .revokeAdd list =>
    some ((if list = s.list then s.setBlocklist (s.dht.blocklist.map (insert op.key.hex))
      else s).advance tid op .revokeDelete)
  | .revokeDelete =>
    some { (s.setStore (s.dht.store.delete op.key)).leave tid with
      revoked := op.key :: s.revoked }

/-- The next state; `none` when the step cannot be taken. -/
def next (cr : Crypto) (s : OpState) : OpAction → Option OpState
  | .get tid key verify =>
    if tid ∈ s.ops ∨ tid ∈ s.results then none
    else
      match s.inflight (key, verify) with
      | some leader => some (s.start tid key (.wait verify leader))
      | none =>
        some { s.start tid key (.gate verify) with
          inflight := Function.update s.inflight (key, verify) (some tid) }
  | .store tid key value sender =>
    if tid ∈ s.ops ∨ tid ∈ s.results then none
    else some (s.start tid key (.storeGate value sender))
  | .findValue tid key =>
    if tid ∈ s.ops ∨ tid ∈ s.results then none else some (s.start tid key .serveGate)
  | .revoke tid key =>
    if tid ∈ s.ops ∨ tid ∈ s.results then none else some (s.start tid key .revokeCheck)
  | .step tid sec =>
    match s.ops.lookup tid with
    | none => none
    | some op => s.advanceOp cr tid op sec

/-- The operation that `advance` has moved on. -/
@[simp] theorem lookup_advance {s : OpState} {tid : Nat} (op : Op) (p : Phase) :
    (s.advance tid op p).ops.lookup tid = some { op with phase := p } :=
  Finmap.lookup_insert _

end OpState

end AltNet
