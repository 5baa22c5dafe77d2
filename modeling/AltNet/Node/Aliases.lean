import AltNet.Dht.Handler
import AltNet.Peer.Conn

/-!
# AltNet — which connection an address leads to (`core/peer/peer.go`)

Connections come and go, and addresses are made aliases of connections by
`registerConn`, when a second connection to a peer is refused, and by
`AddPeerAddress`, when a hello advertises addresses. An address may pass from
one connection to another at any time; the connection it has left keeps it in
its list.

The maps are in order after every sequence of these calls. What they do not
guard is whose address it is: `AddPeerAddress` asks only whether the address
leads to the sender's connection already, and otherwise points it there. A peer
that puts the address of another one into its hello gets the messages that are
sent to that address from then on, `hello_takes_address`.

The peer id of a connection is the hash of the key that the handshake has
verified, so it is never empty.

Main results:

* `InOrder.registerConn`, `InOrder.removeConn`, `InOrder.addPeerAddress` — each
  call keeps the maps in order;
* `conn_maps_in_order` — so they are in every reachable state, and `removeConn`
  takes out all of one connection and nothing of another;
* `hello_keeps_address_iff` — an address stays with its connection through a
  hello of another peer exactly when the hello does not name it.
-/

namespace AltNet

open Finmap

namespace ConnTable

variable {κ : Type} [DecidableEq κ]

/-- The connection that `Send`, and so `Request`, writes to. -/
def resolve (t : ConnTable κ) (address : GoString) : Option κ := t.peers.lookup address

/-- The connection stands in one of the maps. -/
def Registered (t : ConnTable κ) (pc : κ) : Prop :=
  (∃ a, t.peers.lookup a = some pc) ∨ ∃ x, t.peersByID.lookup x = some pc

/-- The maps are in order: they are sound, and every alias leads to the
connection that is installed for its peer. -/
structure InOrder (t : ConnTable κ) : Prop extends Sound t where
  installed : ∀ a pc, t.peers.lookup a = some pc → t.peersByID.lookup (t.remoteID pc) = some pc

variable {t : ConnTable κ} {pc cur : κ} {addr : GoString}

/-! ## The three calls -/

omit [DecidableEq κ] in
theorem inOrder_new (remoteID : κ → GoString) : (new remoteID).InOrder where
  toSound := sound_new remoteID
  installed := fun a pc h => by cases h

/-- An alias of an installed connection. -/
theorem InOrder.addAlias (h : t.InOrder) (hCur : t.peersByID.lookup (t.remoteID cur) = some cur)
    (addr : GoString) : (t.addAlias cur addr).InOrder where
  toSound := h.toSound.addAlias cur addr
  installed := by
    intro a c hLookup
    rcases GoMap.lookup_insert_cases hLookup with ⟨-, rfl⟩ | ⟨-, hOld⟩
    · exact hCur
    · exact h.installed a c hOld

omit [DecidableEq κ] in
/-- A connection takes the place of its peer id, unless another one has it. -/
theorem InOrder.setByID (h : t.InOrder)
    (hFree : ∀ c, t.peersByID.lookup (t.remoteID pc) = some c → c = pc) :
    (t.setByID pc).InOrder where
  toSound := h.toSound.setByID pc
  installed := by
    intro a c hLookup
    have hOld := h.installed a c hLookup
    show (t.peersByID.insert (t.remoteID pc) pc).lookup (t.remoteID c) = some c
    by_cases hSame : t.remoteID c = t.remoteID pc
    · -- it is the connection itself
      rw [hSame] at hOld
      rw [hSame, lookup_insert, hFree c hOld]
    · rw [lookup_insert_of_ne _ hSame]
      exact hOld

theorem InOrder.registerConn (h : t.InOrder) (hID : t.remoteID pc ≠ []) (addr : GoString) :
    (t.registerConn pc addr).1.InOrder := by
  have hInstall : (∀ c, t.peersByID.lookup (t.remoteID pc) = some c → c = pc) →
      ((t.setByID pc).addAlias pc addr).InOrder :=
    fun hFree => (h.setByID hFree).addAlias (lookup_insert _) addr
  unfold ConnTable.registerConn
  rw [if_pos hID]
  split
  · rename_i cur hCur
    split
    · -- refused: the address goes to the connection that is there
      have hSelf : t.peersByID.lookup (t.remoteID cur) = some cur := by
        rw [h.byID _ _ hCur]
        exact hCur
      exact h.addAlias hSelf addr
    · rename_i hSame
      refine hInstall fun c hc => ?_
      rw [← Option.some.inj (hCur.symm.trans hc)]
      exact not_not.mp hSame
  · rename_i hNone
    exact hInstall fun c hc => by cases hNone.symm.trans hc

theorem InOrder.addPeerAddress (h : t.InOrder) (peerID addr : GoString) :
    (t.addPeerAddress peerID addr).1.InOrder := by
  unfold ConnTable.addPeerAddress
  split
  · exact h
  rename_i pc hPc
  split
  · exact h
  · refine h.addAlias ?_ addr
    rw [h.byID _ _ hPc]
    exact hPc

/-- The loop of `removeConn` leaves the aliases of the others. -/
theorem dropAliases_keeps {as : List GoString} {m : GoMap GoString κ} {a : GoString} {c : κ}
    (hNe : c ≠ pc) (h : m.lookup a = some c) : (dropAliases pc as m).lookup a = some c := by
  induction as generalizing m with
  | nil => exact h
  | cons b bs ih =>
    refine ih (m := if m.lookup b = some pc then m.erase b else m) ?_
    split
    · rename_i hb
      have hab : a ≠ b := by
        rintro rfl
        exact hNe (Option.some.inj (h.symm.trans hb))
      rw [lookup_erase_ne hab]
      exact h
    · exact h

/-- `removeConn` leaves no trace of the connection. -/
theorem InOrder.removeConn_absent (h : t.InOrder) (hID : t.remoteID pc ≠ []) (x : GoString) :
    (t.removeConn pc).peers.lookup x ≠ some pc ∧
      (t.removeConn pc).peersByID.lookup x ≠ some pc := by
  refine ⟨h.toSound.removeConn_gone pc x, fun hLookup => ?_⟩
  rw [removeConn_byID hID] at hLookup
  split at hLookup
  · cases hLookup
  · rename_i hNot
    exact hNot ⟨(h.byID x pc hLookup).symm, hLookup⟩

/-- And takes nothing from any other. -/
theorem removeConn_other (hID : t.remoteID pc ≠ []) {c : κ} (hNe : c ≠ pc) (x : GoString) :
    (t.peers.lookup x = some c → (t.removeConn pc).peers.lookup x = some c) ∧
      (t.peersByID.lookup x = some c → (t.removeConn pc).peersByID.lookup x = some c) := by
  refine ⟨fun hLookup => dropAliases_keeps hNe hLookup, fun hLookup => ?_⟩
  rw [removeConn_byID hID, if_neg]
  · exact hLookup
  · rintro ⟨-, hPc⟩
    exact hNe (Option.some.inj (hLookup.symm.trans hPc))

theorem InOrder.removeConn (h : t.InOrder) (hID : t.remoteID pc ≠ []) :
    (t.removeConn pc).InOrder where
  toSound := h.toSound.removeConn pc
  installed := by
    intro a c hLookup
    have hOld := h.installed a c (dropAliases_lookup hLookup).1
    have hNe : c ≠ pc := by
      rintro rfl
      exact (h.removeConn_absent hID a).1 hLookup
    exact (removeConn_other hID hNe _).2 hOld

omit [DecidableEq κ] in
/-- A registered connection is the one that is installed for its peer. -/
theorem InOrder.registered_iff (h : t.InOrder) :
    t.Registered pc ↔ t.peersByID.lookup (t.remoteID pc) = some pc := by
  constructor
  · rintro (⟨a, ha⟩ | ⟨x, hx⟩)
    · exact h.installed a pc ha
    · rw [h.byID x pc hx]
      exact hx
  · exact fun hLookup => Or.inr ⟨_, hLookup⟩

omit [DecidableEq κ] in
/-- There is one connection for each peer. -/
theorem InOrder.registered_unique (h : t.InOrder) {c : κ} (hPc : t.Registered pc)
    (hC : t.Registered c) (hSame : t.remoteID pc = t.remoteID c) : pc = c := by
  have hPc' := h.registered_iff.mp hPc
  rw [hSame] at hPc'
  exact Option.some.inj (hPc'.symm.trans (h.registered_iff.mp hC))

end ConnTable

open ConnTable

/-! ## Runs -/

/-- The calls that change the maps. -/
inductive ConnAction (κ : Type) where
  | register (pc : κ) (addr : GoString)
  | remove (pc : κ)
  | addAddress (peerID addr : GoString)

namespace ConnTable

variable {κ : Type} [DecidableEq κ]

/-- One call; each holds the lock of the maps from beginning to end. -/
def next (t : ConnTable κ) : ConnAction κ → Option (ConnTable κ)
  | .register pc addr => some (t.registerConn pc addr).1
  | .remove pc => some (t.removeConn pc)
  | .addAddress peerID addr => some (t.addPeerAddress peerID addr).1

/-- The maps before the first connection; `key pc` is the key that the
handshake on `pc` has verified. -/
def authenticated (cr : Crypto) (key : κ → Bytes) : ConnTable κ :=
  new fun pc => cr.publicKeyToID (key pc)

variable {cr : Crypto} {key : κ → Bytes} {t : ConnTable κ} {as : List (ConnAction κ)}
  {a : ConnAction κ} {t' : ConnTable κ}

theorem next_remoteID (h : t.next a = some t') : t'.remoteID = t.remoteID := by
  cases a with
  | register pc addr =>
    cases h
    exact registerConn_remoteID
  | remove pc =>
    cases h
    rfl
  | addAddress peerID addr =>
    cases h
    unfold addPeerAddress
    split
    · rfl
    · split <;> rfl

/-- **One call** keeps the maps in order. -/
theorem InOrder.next (h : t.InOrder) (hID : ∀ pc, t.remoteID pc ≠ []) (hStep : t.next a = some t') :
    t'.InOrder := by
  cases a with
  | register pc addr =>
    cases hStep
    exact h.registerConn (hID pc) addr
  | remove pc =>
    cases hStep
    exact h.removeConn (hID pc)
  | addAddress peerID addr =>
    cases hStep
    exact h.addPeerAddress peerID addr

/-- So does every sequence of calls. -/
theorem reachable (hRun : Exec (stepOf next) (authenticated cr key) as t) :
    t.InOrder ∧ t.remoteID = fun pc => cr.publicKeyToID (key pc) := by
  refine hRun.invariant
    (I := fun t => t.InOrder ∧ t.remoteID = fun pc => cr.publicKeyToID (key pc))
    ⟨inOrder_new _, rfl⟩ ?_
  intro t a t' h hStep
  have hID : ∀ pc, t.remoteID pc ≠ [] := by
    intro pc
    rw [h.2]
    exact cr.publicKeyToID_ne_nil (key pc)
  exact ⟨h.1.next hID hStep, (next_remoteID hStep).trans h.2⟩

end ConnTable

/-- **The connection maps are in order**, after every sequence of `registerConn`,
`removeConn` and `AddPeerAddress` calls: every alias leads to the connection
that is installed for its peer and stands in its list of addresses, no two
registered connections have the same peer id, and `removeConn` takes out all
entries of its connection and none of another. -/
theorem conn_maps_in_order {κ : Type} [DecidableEq κ] (cr : Crypto) (key : κ → Bytes)
    {as : List (ConnAction κ)} {t : ConnTable κ}
    (hRun : Exec (stepOf next) (authenticated cr key) as t) :
    (∀ a pc, t.peers.lookup a = some pc →
      t.peersByID.lookup (t.remoteID pc) = some pc ∧ a ∈ t.addresses pc) ∧
    (∀ pc pc', t.Registered pc → t.Registered pc' → t.remoteID pc = t.remoteID pc' → pc = pc') ∧
    (∀ pc, ¬ (t.removeConn pc).Registered pc ∧ ∀ pc', pc' ≠ pc → ∀ x,
      (t.peers.lookup x = some pc' → (t.removeConn pc).peers.lookup x = some pc') ∧
      (t.peersByID.lookup x = some pc' → (t.removeConn pc).peersByID.lookup x = some pc')) := by
  obtain ⟨hOrder, hRemote⟩ := reachable hRun
  have hID : ∀ pc, t.remoteID pc ≠ [] := by
    intro pc
    rw [hRemote]
    exact cr.publicKeyToID_ne_nil (key pc)
  refine ⟨fun a pc h => ⟨hOrder.installed a pc h, hOrder.listed a pc h⟩,
    fun pc pc' h h' hSame => hOrder.registered_unique h h' hSame, fun pc => ⟨?_, ?_⟩⟩
  · rintro (⟨a, ha⟩ | ⟨x, hx⟩)
    · exact (hOrder.removeConn_absent (hID pc) a).1 ha
    · exact (hOrder.removeConn_absent (hID pc) x).2 hx
  · exact fun pc' hNe x => removeConn_other (hID pc) hNe x

/-- Two connections of one peer and one of another; the second is refused, and
its address passes to the other peer. -/
def passedRun : List (ConnAction (Fin 3)) :=
  [.register 0 ['a'], .register 1 ['b'], .register 2 ['c'],
    .addAddress (NodeID.fill 2).hex ['b']]

/-- The keys of these connections: `0` and `1` are of the same peer. -/
def passedKey (pc : Fin 3) : Bytes := if pc = 2 then [2] else [1]

/-- The first connection still lists the address that it has lost; its end
leaves the address where it is. -/
theorem conn_maps_in_order_passedRun :
    ∃ t, Exec (stepOf next) (authenticated firstByte passedKey) passedRun t ∧
      ['b'] ∈ t.addresses 0 ∧ t.peers.lookup ['b'] = some 2 ∧
      (t.removeConn 0).peers.lookup ['b'] = some 2 ∧ ¬ (t.removeConn 0).Registered 0 := by
  refine Exec.exists_of_runFrom
    (p := fun t => ['b'] ∈ t.addresses 0 ∧ t.peers.lookup ['b'] = some 2) (by decide +kernel) ?_
  rintro t hRun ⟨hListed, hPassed⟩
  obtain ⟨hGone, hOthers⟩ := (conn_maps_in_order firstByte passedKey hRun).2.2 0
  exact ⟨hListed, hPassed, (hOthers 2 (by decide) ['b']).1 hPassed, hGone⟩

/-! ## Hellos -/

namespace ConnTable

variable {κ : Type} [DecidableEq κ]

/-- The last loop of `observeHello`, over the addresses of a hello. -/
def addAddresses (t : ConnTable κ) (aliases : List (GoString × GoString)) : ConnTable κ :=
  aliases.foldl (fun t p => (t.addPeerAddress p.1 p.2).1) t

variable {t : ConnTable κ} {peerID : GoString}

/-- `AddPeerAddress` for a peer without a connection. -/
theorem addPeerAddress_absent (h : peerID ∉ t.peersByID) (addr : GoString) :
    (t.addPeerAddress peerID addr).1 = t := by
  unfold addPeerAddress
  rw [lookup_eq_none.mpr h]

/-- For a connected peer the address leads to its connection afterwards,
wherever it has led before. -/
theorem addPeerAddress_lookup {pc : κ} (h : t.peersByID.lookup peerID = some pc)
    (addr a : GoString) :
    (t.addPeerAddress peerID addr).1.peers.lookup a =
      if a = addr then some pc else t.peers.lookup a := by
  unfold addPeerAddress
  rw [h]
  dsimp only
  split
  · rename_i hAlready
    split
    · rename_i hEq
      rw [hEq]
      exact hAlready
    · rfl
  · show (t.peers.insert addr pc).lookup a = _
    split
    · rename_i hEq
      rw [hEq, lookup_insert]
    · rename_i hNe
      exact lookup_insert_of_ne _ hNe

theorem addAddresses_absent (h : peerID ∉ t.peersByID) (addrs : List GoString) :
    t.addAddresses (addrs.map fun a => (peerID, a)) = t := by
  induction addrs with
  | nil => rfl
  | cons addr rest ih =>
    rw [addAddresses, List.map_cons, List.foldl_cons, addPeerAddress_absent h]
    exact ih

/-- The addresses that are named lead to the peer's connection, all others
where they have led before. -/
theorem addAddresses_lookup {pc : κ} (h : t.peersByID.lookup peerID = some pc)
    (addrs : List GoString) (a : GoString) :
    (t.addAddresses (addrs.map fun a => (peerID, a))).peers.lookup a =
      if a ∈ addrs then some pc else t.peers.lookup a := by
  induction addrs generalizing t with
  | nil => rfl
  | cons addr rest ih =>
    have hNext : (t.addPeerAddress peerID addr).1.peersByID.lookup peerID = some pc := by
      rw [addPeerAddress_byID]
      exact h
    rw [addAddresses, List.map_cons, List.foldl_cons]
    refine (ih hNext).trans ?_
    rw [addPeerAddress_lookup h]
    simp only [List.mem_cons]
    by_cases hRest : a ∈ rest
    · rw [if_pos hRest, if_pos (Or.inr hRest)]
    · rw [if_neg hRest]
      simp only [hRest, or_false]

end ConnTable

/-- What a hello makes aliases of, once its key is known. -/
theorem DHT.hello_aliases {cr : Crypto} {payloads : PayloadCodec} {d : DHT} {addr : GoString}
    {msg : Message} {env : Env} {out : Outcome} {pub : Bytes} (hKind : msg.kind = .hello)
    (hPub : publicKeyFromHex msg.publicKey = some pub)
    (h : d.handleMessage cr payloads addr msg env = some out) :
    out.aliases = (helloAddresses addr msg).map fun a => (cr.publicKeyToID pub, a) := by
  unfold handleMessage at h
  rw [hKind] at h
  cases h
  unfold observeHello
  rw [senderID_eq hPub]
  rfl

/-- **When an address survives a hello.** In every reachable state of the maps,
let the address `a` lead to the connection `x`, and let a hello be verified on a
connection `y` of another peer. Then `a` still leads to `x` afterwards exactly
when the peer of `y` has no connection installed or `a` is not among the
addresses that the hello stands for. -/
theorem hello_keeps_address_iff {κ : Type} [DecidableEq κ] (cr : Crypto) (codec : MessageCodec)
    (key : κ → Bytes) {as : List (ConnAction κ)} {t : ConnTable κ}
    (hRun : Exec (stepOf next) (authenticated cr key) as t)
    {a : GoString} {x y : κ} (hResolves : t.resolve a = some x)
    (hOther : cr.publicKeyToID (key y) ≠ cr.publicKeyToID (key x))
    {msg : Message} {pc : PeerConn} (hKind : msg.kind = .hello)
    (hMsg : verifyMessage cr codec (cr.authenticated (key y)) msg = .ok pc)
    {payloads : PayloadCodec} {d : DHT} {addr : GoString} {env : Env} {out : Outcome}
    (hOut : d.handleMessage cr payloads addr msg env = some out) :
    (t.addAddresses out.aliases).resolve a = some x ↔
      cr.publicKeyToID (key y) ∉ t.peersByID ∨ a ∉ DHT.helloAddresses addr msg := by
  obtain ⟨hOrder, hRemote⟩ := reachable hRun
  obtain ⟨pub, hPub, -, hLocked, -⟩ := verifyMessage_ok hMsg
  have hSame : pub = key y := by
    rcases hLocked with hNone | hSome
    · cases hNone
    · exact (Option.some.inj hSome).symm
  subst hSame
  rw [DHT.hello_aliases hKind hPub hOut]
  unfold ConnTable.resolve at hResolves ⊢
  cases hInstalled : t.peersByID.lookup (cr.publicKeyToID (key y)) with
  | none =>
    have hAbsent := lookup_eq_none.mp hInstalled
    rw [addAddresses_absent hAbsent]
    exact ⟨fun _ => Or.inl hAbsent, fun _ => hResolves⟩
  | some z =>
    have hPresent := mem_of_lookup_eq_some hInstalled
    rw [addAddresses_lookup hInstalled]
    by_cases hNamed : a ∈ DHT.helloAddresses addr msg
    · rw [if_pos hNamed]
      refine ⟨fun hEq => ?_, fun hEither => ?_⟩
      · -- the connection installed for the sender would be `x`
        cases hEq
        have hID := hOrder.byID _ _ hInstalled
        rw [hRemote] at hID
        exact absurd hID.symm hOther
      · rcases hEither with hAbsent | hNot
        · exact absurd hPresent hAbsent
        · exact absurd hNamed hNot
    · rw [if_neg hNamed]
      exact ⟨fun _ => Or.inr hNamed, fun _ => hResolves⟩

/-- A node with a connection to each of two peers, under the addresses a and
c. -/
def twoPeers : List (ConnAction Nat) := [.register 0 ['a'], .register 1 ['c']]

/-- The keys of these connections. -/
def peerKey (pc : Nat) : Bytes := List.replicate publicKeySize (if pc = 0 then 1 else 2)

/-- A hello of the second peer with the given addresses. -/
def helloOf (payload : GoString) : Message :=
  ⟨1, "hello".toList, [], publicKeyToHex (peerKey 1), [], payload, []⟩

/-- JSON plays no part here. -/
def noJSON : MessageCodec := ⟨fun _ => [], fun _ => none⟩

/-- What the node makes of a hello of the second peer. -/
def heard (payload : GoString) : Outcome :=
  (DHT.new (NodeID.fill 0) 0 0).observeHello firstByte ['c'] (helloOf payload) 1

/-- The second peer advertises an address of its own. -/
theorem hello_keeps_address_own :
    ∃ t, Exec (stepOf next) (authenticated firstByte peerKey) twoPeers t ∧
      (t.addAddresses (heard ['d']).aliases).resolve ['a'] = some 0 := by
  refine Exec.exists_of_runFrom (p := fun t => t.resolve ['a'] = some 0) (by decide +kernel) ?_
  intro t hRun hFirst
  have hOut : (DHT.new (NodeID.fill 0) 0 0).handleMessage firstByte
      ⟨fun _ => none, fun _ => none, fun _ => none, fun _ => none⟩ ['c']
      (helloOf ['d']) ⟨1, 1, 1, []⟩ = some (heard ['d']) := rfl
  have hMsg : verifyMessage firstByte noJSON (firstByte.authenticated (peerKey 1))
      (helloOf ['d']) = .ok (firstByte.authenticated (peerKey 1)) := by
    decide +kernel
  refine (hello_keeps_address_iff firstByte noJSON peerKey hRun hFirst (by decide +kernel) rfl
    hMsg hOut).mpr (Or.inr ?_)
  decide +kernel

/-- The second peer advertises the address of the first, and gets what is sent
to it from then on. -/
theorem hello_takes_address :
    ∃ t, Exec (stepOf next) (authenticated firstByte peerKey) twoPeers t ∧
      verifyMessage firstByte noJSON (firstByte.authenticated (peerKey 1)) (helloOf ['a']) =
        .ok (firstByte.authenticated (peerKey 1)) ∧
      firstByte.publicKeyToID (peerKey 1) ≠ firstByte.publicKeyToID (peerKey 0) ∧
      t.resolve ['a'] = some 0 ∧
      (t.addAddresses (heard ['a']).aliases).resolve ['a'] = some 1 := by
  refine Exec.exists_of_runFrom (p := fun t => t.resolve ['a'] = some 0 ∧
    (t.addAddresses (heard ['a']).aliases).resolve ['a'] = some 1) (by decide +kernel) ?_
  exact fun t _ hTaken => ⟨by decide +kernel, by decide +kernel, hTaken⟩

end AltNet
