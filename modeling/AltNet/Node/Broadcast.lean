import AltNet.Node.Aliases

/-!
# AltNet — who gets a broadcast (`core/peer/peer.go`)

`Broadcast` calls `sendOn` for every entry of `peers`, and `PeerCount` is the
number of these entries. Both mean the peers that are connected, but `peers` has
an entry for each address, and a connection may have any number of them: a
refused second connection and every hello add some, and an address that passes
to another peer may leave none.

So the two are right as long as each connection has one address. A call keeps
this up exactly when the address and the peer that it is about lead to the same
connection, or both to none.

Main results:

* `eachOnce_iff` — in terms of the addresses;
* `oneAddress_step_iff` — which calls keep one address for each connection;
* `broadcast_once_iff` — the runs in which every broadcast reaches each connection
  once and the peers are counted right.
-/

namespace AltNet

open GoMap Finmap ConnTable

namespace ConnTable

variable {κ : Type} [DecidableEq κ]

/-- The connections that `Broadcast` calls `sendOn` on, one frame each time. -/
def broadcast (t : ConnTable κ) : Multiset κ := t.peers.values

/-- `PeerCount`. -/
def peerCount (t : ConnTable κ) : Nat := t.peers.len

/-- Each connection gets a broadcast once, and the count is that of the peers. -/
def EachOnce (t : ConnTable κ) : Prop :=
  (∀ pc, t.Registered pc → t.broadcast.count pc = 1) ∧ t.peerCount = t.peersByID.len

/-- Each connection has one address. -/
def OneAddress (t : ConnTable κ) : Prop :=
  ∀ pc, t.Registered pc → ∃ a, ∀ b, t.peers.lookup b = some pc ↔ b = a

/-- The address leads where the peer does: both to the same connection, or both
to none. A call that is about no connected peer does nothing. -/
def SameWay (t : ConnTable κ) : ConnAction κ → Prop
  | .register pc addr => t.peers.lookup addr = t.peersByID.lookup (t.remoteID pc)
  | .remove _ => True
  | .addAddress peerID addr =>
    peerID ∈ t.peersByID → t.peers.lookup addr = t.peersByID.lookup peerID

instance (t : ConnTable κ) : (a : ConnAction κ) → Decidable (t.SameWay a)
  | .register pc addr =>
    inferInstanceAs (Decidable (t.peers.lookup addr = t.peersByID.lookup (t.remoteID pc)))
  | .remove _ => inferInstanceAs (Decidable True)
  | .addAddress peerID addr =>
    inferInstanceAs (Decidable
      (peerID ∈ t.peersByID → t.peers.lookup addr = t.peersByID.lookup peerID))

variable {t u : ConnTable κ} {pc c : κ} {addr : GoString}

/-! ## Addresses and frames -/

/-- With one address for each connection the two maps have the same values. -/
theorem InOrder.values_eq (h : t.InOrder) (hOne : t.OneAddress) :
    t.peers.values = t.peersByID.values := by
  have hPeers : t.peers.values.Nodup := by
    rw [Multiset.nodup_iff_count_le_one]
    intro pc
    by_cases hMem : pc ∈ t.peers.values
    · exact le_of_eq (count_values_eq_one_iff.mpr
        (hOne pc (.inl (mem_values.mp hMem))))
    · rw [Multiset.count_eq_zero_of_notMem hMem]
      exact Nat.zero_le 1
  have hByID : t.peersByID.values.Nodup := by
    rw [Multiset.nodup_iff_count_le_one]
    intro pc
    by_cases hMem : pc ∈ t.peersByID.values
    · obtain ⟨x, hx⟩ := mem_values.mp hMem
      refine le_of_eq (count_values_eq_one_iff.mpr ⟨x, fun y => ⟨fun hy => ?_, ?_⟩⟩)
      · rw [← h.byID y pc hy, h.byID x pc hx]
      · rintro rfl
        exact hx
    · rw [Multiset.count_eq_zero_of_notMem hMem]
      exact Nat.zero_le 1
  refine (Multiset.Nodup.ext hPeers hByID).mpr fun pc => ?_
  rw [mem_values, mem_values]
  constructor
  · rintro ⟨a, ha⟩
    exact ⟨_, h.installed a pc ha⟩
  · intro hInstalled
    obtain ⟨a, hOnly⟩ := hOne pc (.inr hInstalled)
    exact ⟨a, (hOnly a).mpr rfl⟩

/-- **Each once means one address each.** -/
theorem eachOnce_iff (h : t.InOrder) : t.EachOnce ↔ t.OneAddress := by
  constructor
  · intro hEach pc hPc
    exact count_values_eq_one_iff.mp (hEach.1 pc hPc)
  · intro hOne
    refine ⟨fun pc hPc => count_values_eq_one_iff.mpr (hOne pc hPc), ?_⟩
    rw [peerCount, ← card_values, h.values_eq hOne, card_values]

/-! ## One call -/

omit [DecidableEq κ] in
/-- **One more address** for the connection `c` of a peer that has no other one. -/
theorem oneAddress_insert_iff (h : t.InOrder) (hOne : t.OneAddress)
    (hOwn : ∀ k, t.peersByID.lookup (t.remoteID c) = some k → k = c)
    (hPeers : u.peers = t.peers.insert addr c)
    (hRegistered : ∀ pc, u.Registered pc ↔ t.Registered pc ∨ pc = c) :
    u.OneAddress ↔ t.peers.lookup addr = t.peersByID.lookup (t.remoteID c) := by
  cases hLookup : t.peersByID.lookup (t.remoteID c) with
  | some k =>
    obtain rfl := hOwn k hLookup
    have hOld : t.Registered k := h.registered_iff.mpr hLookup
    constructor
    · intro hOne'
      -- The address that it had must be this one.
      obtain ⟨a, hOnly⟩ := hOne k hOld
      obtain ⟨a', hOnly'⟩ := hOne' k ((hRegistered k).mpr (.inr rfl))
      have hHere : addr = a' := by
        rw [← hOnly' addr, hPeers, lookup_insert]
      by_cases hNe : a = addr
      · rw [← hNe]
        exact (hOnly a).mpr rfl
      have hThere : a = a' := by
        rw [← hOnly' a, hPeers, lookup_insert_of_ne _ hNe]
        exact (hOnly a).mpr rfl
      exact absurd (hThere.trans hHere.symm) hNe
    · intro hAlready pc hPc
      rw [hPeers, insert_of_lookup hAlready]
      rcases (hRegistered pc).mp hPc with hPc | rfl
      · exact hOne pc hPc
      · exact hOne pc hOld
  | none =>
    have hNew : ¬ t.Registered c := by
      rw [h.registered_iff, hLookup]
      exact nofun
    constructor
    · intro hOne'
      -- Whoever had the address would be left without one.
      cases hAddr : t.peers.lookup addr with
      | none => rfl
      | some k =>
        have hOld : t.Registered k := .inl ⟨addr, hAddr⟩
        obtain ⟨a, hOnly⟩ := hOne k hOld
        obtain ⟨b, hOnly'⟩ := hOne' k ((hRegistered k).mpr (.inl hOld))
        have hLeft := (hOnly' b).mpr rfl
        rw [hPeers] at hLeft
        rcases lookup_insert_cases hLeft with ⟨-, rfl⟩ | ⟨hNe, hLeft⟩
        · exact absurd hOld hNew
        · exact absurd (((hOnly b).mp hLeft).trans ((hOnly addr).mp hAddr).symm) hNe
    · intro hFree pc hPc
      rw [hPeers]
      rcases (hRegistered pc).mp hPc with hPc | rfl
      · obtain ⟨a, hOnly⟩ := hOne pc hPc
        have hNe : a ≠ addr := by
          rintro rfl
          exact absurd ((hOnly a).mpr rfl) (by rw [hFree]; exact nofun)
        refine ⟨a, fun b => ⟨fun hb => ?_, ?_⟩⟩
        · rcases lookup_insert_cases hb with ⟨-, rfl⟩ | ⟨-, hb⟩
          · exact absurd hPc hNew
          · exact (hOnly b).mp hb
        · rintro rfl
          rw [lookup_insert_of_ne _ hNe]
          exact (hOnly b).mpr rfl
      · refine ⟨addr, fun b => ⟨fun hb => ?_, ?_⟩⟩
        · rcases lookup_insert_cases hb with ⟨rfl, -⟩ | ⟨-, hb⟩
          · rfl
          · exact absurd (.inl ⟨b, hb⟩) hNew
        · rintro rfl
          exact lookup_insert _

/-- An address for a connection that is installed. -/
theorem oneAddress_addAlias_iff (h : t.InOrder) (hOne : t.OneAddress)
    (hInstalled : t.peersByID.lookup (t.remoteID c) = some c) :
    (t.addAlias c addr).OneAddress ↔ t.peers.lookup addr = some c := by
  rw [← hInstalled]
  refine oneAddress_insert_iff h hOne ?_ rfl fun pc => ?_
  · intro k hk
    exact Option.some.inj (hk.symm.trans hInstalled)
  · rw [(h.addAlias hInstalled addr).registered_iff, h.registered_iff]
    constructor
    · exact .inl
    · rintro (hPc | rfl)
      · exact hPc
      · exact hInstalled

/-- The first address of a connection that is being installed. -/
theorem oneAddress_install_iff (h : t.InOrder) (hOne : t.OneAddress)
    (hOwn : ∀ k, t.peersByID.lookup (t.remoteID c) = some k → k = c) :
    ((t.setByID c).addAlias c addr).OneAddress ↔
      t.peers.lookup addr = t.peersByID.lookup (t.remoteID c) := by
  refine oneAddress_insert_iff h hOne hOwn rfl fun pc => ?_
  have hAfter : ((t.setByID c).addAlias c addr).InOrder :=
    (h.setByID hOwn).addAlias (lookup_insert _) addr
  rw [hAfter.registered_iff, h.registered_iff]
  show (t.peersByID.insert (t.remoteID c) c).lookup (t.remoteID pc) = some pc ↔ _
  constructor
  · intro hLookup
    rcases lookup_insert_cases hLookup with ⟨-, rfl⟩ | ⟨-, hOld⟩
    · exact .inr rfl
    · exact .inl hOld
  · rintro (hOld | rfl)
    · by_cases hSame : t.remoteID pc = t.remoteID c
      · rw [hSame] at hOld
        rw [hSame, lookup_insert, hOwn pc hOld]
      · rw [lookup_insert_of_ne _ hSame]
        exact hOld
    · exact lookup_insert _

theorem oneAddress_register_iff (h : t.InOrder) (hOne : t.OneAddress) (hID : t.remoteID pc ≠ []) :
    (t.registerConn pc addr).1.OneAddress ↔ t.SameWay (.register pc addr) := by
  unfold registerConn
  rw [if_pos hID, SameWay]
  split
  · rename_i cur hCur
    rw [hCur]
    have hInstalled : t.peersByID.lookup (t.remoteID cur) = some cur := by
      rw [h.byID _ _ hCur]
      exact hCur
    split
    · exact oneAddress_addAlias_iff h hOne hInstalled
    rename_i hSame
    rw [not_not] at hSame
    subst hSame
    rw [← hCur]
    exact oneAddress_install_iff h hOne fun k hk => Option.some.inj (hk.symm.trans hCur)
  · rename_i hNone
    rw [← hNone]
    exact oneAddress_install_iff h hOne fun k hk => by cases hNone.symm.trans hk

theorem oneAddress_addPeerAddress_iff (h : t.InOrder) (hOne : t.OneAddress) (peerID : GoString) :
    (t.addPeerAddress peerID addr).1.OneAddress ↔ t.SameWay (.addAddress peerID addr) := by
  unfold addPeerAddress
  rw [SameWay]
  split
  · rename_i hNone
    exact iff_of_true hOne fun hMem => absurd hMem (lookup_eq_none.mp hNone)
  rename_i c hC
  have hMem := mem_of_lookup_eq_some hC
  have hInstalled : t.peersByID.lookup (t.remoteID c) = some c := by
    rw [h.byID _ _ hC]
    exact hC
  rw [hC]
  split
  · rename_i hAlready
    exact iff_of_true hOne fun _ => hAlready
  · exact (oneAddress_addAlias_iff h hOne hInstalled).trans
      ⟨fun hLookup _ => hLookup, fun hLookup => hLookup hMem⟩

/-- The end of a connection takes all its addresses and leaves those of the
others. -/
theorem oneAddress_removeConn (h : t.InOrder) (hOne : t.OneAddress) (hID : t.remoteID c ≠ []) :
    (t.removeConn c).OneAddress := by
  intro pc hPc
  have hAfter := h.removeConn hID
  have hNe : pc ≠ c := by
    rintro rfl
    exact (h.removeConn_absent hID _).2 (hAfter.registered_iff.mp hPc)
  have hOld : t.Registered pc := by
    rcases hPc with ⟨a, ha⟩ | ⟨x, hx⟩
    · exact .inl ⟨a, (dropAliases_lookup ha).1⟩
    rw [removeConn_byID hID] at hx
    split at hx
    · cases hx
    · exact .inr ⟨x, hx⟩
  obtain ⟨a, hOnly⟩ := hOne pc hOld
  refine ⟨a, fun b => ⟨fun hb => (hOnly b).mp (dropAliases_lookup hb).1, fun hb => ?_⟩⟩
  exact (removeConn_other hID hNe b).1 ((hOnly b).mpr hb)

/-- **Which calls keep one address for each connection.** -/
theorem oneAddress_step_iff {a : ConnAction κ} (h : t.InOrder) (hOne : t.OneAddress)
    (hID : ∀ pc, t.remoteID pc ≠ []) (hStep : t.next a = some u) :
    u.OneAddress ↔ t.SameWay a := by
  cases a with
  | register pc addr =>
    cases hStep
    exact oneAddress_register_iff h hOne (hID pc)
  | remove pc =>
    cases hStep
    exact iff_of_true (oneAddress_removeConn h hOne (hID pc)) trivial
  | addAddress peerID addr =>
    cases hStep
    exact oneAddress_addPeerAddress_iff h hOne peerID

end ConnTable

/-! ## Runs -/

/-- **Broadcasts reach each connection once**, and `PeerCount` counts the peers, in
all states of a run exactly when every call of the run is about an address that
leads where its peer does. -/
theorem broadcast_once_iff {κ : Type} [DecidableEq κ] (cr : Crypto) (key : κ → Bytes)
    {as : List (ConnAction κ)} {t : ConnTable κ}
    (hRun : Exec (stepOf next) (authenticated cr key) as t) :
    Throughout (stepOf next) (authenticated cr key) as ConnTable.EachOnce ↔
      EachStep (stepOf next) (authenticated cr key) as ConnTable.SameWay := by
  have hFresh : (authenticated cr key).OneAddress := by
    rintro pc (⟨a, ha⟩ | ⟨x, hx⟩)
    · cases ha
    · cases hx
  refine throughout_iff_of_invariant
    (J := fun t => (t.InOrder ∧ ∀ pc, t.remoteID pc ≠ []) ∧ t.OneAddress) hRun
    ⟨⟨inOrder_new _, fun pc => cr.publicKeyToID_ne_nil (key pc)⟩, hFresh⟩
    stepOf_unique (fun t h => (eachOnce_iff h.1.1).mpr h.2) ?_ ?_
  · rintro t a u ⟨⟨hOrder, hID⟩, hOne⟩ hStep hWay
    refine ⟨⟨hOrder.next hID hStep, ?_⟩,
      (oneAddress_step_iff hOrder hOne hID hStep).mpr hWay⟩
    rw [next_remoteID hStep]
    exact hID
  · rintro t a u ⟨⟨hOrder, hID⟩, hOne⟩ hStep hEach
    exact (oneAddress_step_iff hOrder hOne hID hStep).mp
      ((eachOnce_iff (hOrder.next hID hStep)).mp hEach)

/-- The theorem on two peers with one address each. -/
theorem broadcast_once_twoPeers :
    Throughout (stepOf next) (authenticated firstByte peerKey) twoPeers
      ConnTable.EachOnce := by
  have hEval : (runFrom (fun t a => if decide (ConnTable.SameWay t a) then t.next a else none)
      (authenticated firstByte peerKey) twoPeers).isSome = true := by
    decide +kernel
  obtain ⟨t, ht⟩ := Option.isSome_iff_exists.mp hEval
  have hRun : Exec (guarded (stepOf next) ConnTable.SameWay)
      (authenticated firstByte peerKey) twoPeers t :=
    .of_checked (fun hNext hOk => ⟨hNext, of_decide_eq_true hOk⟩) ht
  exact (broadcast_once_iff firstByte peerKey (hRun.mono fun h => h.1)).mpr
    (eachStep_of_guarded stepOf_unique hRun)

/-- **A peer with two addresses**: its hello has named a second one, so it gets every
broadcast twice, and counts as two peers. -/
theorem broadcast_twice : ∃ t,
    Exec (stepOf next) (authenticated firstByte peerKey)
      [.register 0 ['a'], .addAddress (firstByte.publicKeyToID (peerKey 0)) ['b']] t ∧
    t.Registered 0 ∧ t.broadcast.count 0 = 2 ∧ t.peerCount = 2 ∧ t.peersByID.len = 1 := by
  refine Exec.exists_of_runFrom (p := fun t => t.peers.lookup ['a'] = some 0 ∧
    t.broadcast.count 0 = 2 ∧ t.peerCount = 2 ∧ t.peersByID.len = 1) (by decide +kernel) ?_
  exact fun t _ ⟨hAlias, hRest⟩ => ⟨Or.inl ⟨_, hAlias⟩, hRest⟩

end AltNet
