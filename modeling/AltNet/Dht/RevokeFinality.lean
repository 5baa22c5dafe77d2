import AltNet.Dht.Concurrent

/-!
# AltNet — whether a revoke is final

A revoke puts its key on the blocklist and deletes the value. Every operation
looks at the blocklist first, so what starts later finds the key blocked. But
the look is at the start only: a lookup goes to the network after it and then
caches what it found, a write comes to the store after it, and a call that
joins a lookup in flight does not look at all. An operation that looked before
the revoke can so bring the value back, or hand it out, after it:
`revoke_not_final` is such a run.

The blocklist itself can be lost. Of two revokes on a node without a list both
may find none; the second then puts a new list in the place of the one to which
the first has added its key.

Main results:

* `FinalInv.step` — a step that completes no revoke while an operation on its
  key is past its gate, and replaces no blocklist, keeps the invariant;
* `revoke_final` — in a run of such steps revocation is final: later calls
  return no value, later requests are served none, and the value is gone.
-/

namespace AltNet

open Finmap GoMap Function LocalStore Option

open NodeID (fill)

/-- The operation has found its key not blocked, and may still write the value
or hand it out. -/
def Phase.pastGate : Phase → Bool
  | .readLocal _ | .network _ | .cache _ | .finish _ (.ok _) | .storePut _ _ => true
  | _ => false

/-- The lookup, verified or not, that the operation is the leader of. -/
def Phase.leads : Phase → Option Bool
  | .gate verify | .readLocal verify | .network verify | .finish verify _ => some verify
  | .cache _ => some true
  | _ => none

namespace OpState

/-- **Revocation is final.** No call of `get` made after a revoke of its key
had completed returned a value; no `dht_find_value` that came after it was
answered with one; and where no operation that was under way then is left, the
key is not in the store. -/
structure RevocationFinal (s : OpState) : Prop where
  calls : ∀ a ∈ s.answers, a.after = true → ∀ v, a.result ≠ .ok v
  replies : ∀ a ∈ s.served, a.after = true → a.value = none
  gone : ∀ k ∈ s.revoked,
    (∀ tid op, s.ops.lookup tid = some op → op.key = k → op.after = true) →
      s.dht.store.data.lookup k.hex = none

/-- If the step completes a revoke, no operation on the revoked key is past
its gate; if it makes a blocklist, there still is none. -/
def settled (s : OpState) : OpAction → Bool
  | .step tid _ =>
    match s.ops.lookup tid with
    | some ⟨key, _, .revokeDelete⟩ =>
      decide (∀ tid' ∈ s.ops.keys,
        (s.ops.lookup tid').all fun op => !(decide (op.key = key) && op.phase.pastGate))
    | some ⟨_, _, .revokeNew⟩ => s.dht.blocklist.isNone
    | _ => true
  | _ => true

/-- What a revoke can rely on in a phase: there is a list, it is the one that the
revoke has read, the key is on it. -/
def Ready (s : OpState) (key : NodeID) : Phase → Prop
  | .revokeLoad => s.dht.blocklist.isSome = true
  | .revokeAdd list => list = s.list ∧ s.dht.blocklist.isSome = true
  | .revokeDelete => s.dht.isBlocked key = true
  | _ => True

/-- What such steps keep of an operation: it is not past the gate of a revoked
key, and has no result yet. -/
structure OpInv (revoked : List NodeID) (result : Option (Except DhtError Bytes)) (op : Op) :
    Prop where
  gate : op.key ∈ revoked → op.phase.pastGate = false
  after : op.after = true → op.key ∈ revoked
  fresh : result = none

/-- What such steps keep. -/
structure FinalInv (s : OpState) : Prop where
  blocked : ∀ k ∈ s.revoked, s.dht.isBlocked k = true
  gone : ∀ k ∈ s.revoked, s.dht.store.data.lookup k.hex = none
  ops : ∀ tid op, s.ops.lookup tid = some op → OpInv s.revoked (s.results.lookup tid) op
  ready : ∀ tid op, s.ops.lookup tid = some op → s.Ready op.key op.phase
  listed : ∀ k verify leader, s.inflight (k, verify) = some leader →
    ∃ op, s.ops.lookup leader = some op ∧ op.key = k ∧ op.phase.leads = some verify
  joined : ∀ tid op verify leader, s.ops.lookup tid = some op →
    op.phase = .wait verify leader → op.after = true →
      (∃ op', s.ops.lookup leader = some op' ∧ op'.key = op.key ∧
        op'.phase.leads = some verify) ∨
      ∃ e, s.results.lookup leader = some (.error e)
  calls : ∀ a ∈ s.answers, a.after = true → ∃ e, a.result = .error e
  replies : ∀ a ∈ s.served, a.after = true → a.value = none

namespace FinalInv

variable {cr : Crypto} {s t : OpState} {tid : Nat} {op : Op} {p : Phase}

theorem init (d : DHT) : FinalInv (OpState.init d) where
  blocked := by simp [OpState.init]
  gone := by simp [OpState.init]
  ops := by simp [OpState.init]
  ready := by simp [OpState.init]
  listed := by simp [OpState.init]
  joined := by simp [OpState.init]
  calls := by simp [OpState.init]
  replies := by simp [OpState.init]

/-- The store may change as long as no revoked key gets in. -/
theorem setStore (h : FinalInv s) {store : LocalStore}
    (hGone : ∀ k ∈ s.revoked, store.data.lookup k.hex = none) : FinalInv (s.setStore store) :=
  { h with gone := hGone }

/-- One more answer. -/
theorem answer (h : FinalInv s) {a : Answer} (ha : a.after = true → ∃ e, a.result = .error e) :
    FinalInv { s with answers := a :: s.answers } :=
  { h with
    calls := by
      intro b hb
      rcases List.mem_cons.mp hb with rfl | hOld
      · exact ha
      · exact h.calls b hOld }

/-- One more reply to a `dht_find_value`. -/
theorem serve (h : FinalInv s) {a : Served} (ha : a.after = true → a.value = none) :
    FinalInv { s with served := a :: s.served } :=
  { h with
    replies := by
      intro b hb
      rcases List.mem_cons.mp hb with rfl | hOld
      · exact ha
      · exact h.replies b hOld }

/-! ## Operations that come, go on and leave -/

/-- An operation goes on within its lookup, and not past the gate of a revoked
key. -/
theorem advance (h : FinalInv s) (hOp : s.ops.lookup tid = some op)
    (hLeads : p.leads = op.phase.leads) (hGate : op.key ∈ s.revoked → p.pastGate = false)
    (hWait : ∀ verify leader, p ≠ .wait verify leader)
    (hReady : s.Ready op.key p) : FinalInv (s.advance tid op p) := by
  -- a leader stays a leader
  have hLeader : ∀ {leader op' verify k}, s.ops.lookup leader = some op' → op'.key = k →
      op'.phase.leads = some verify →
      ∃ op'', (s.advance tid op p).ops.lookup leader = some op'' ∧ op''.key = k ∧
        op''.phase.leads = some verify := by
    intro leader op' verify k hLookup hKey hLead
    by_cases hx : leader = tid
    · subst hx
      rw [hOp] at hLookup
      cases hLookup
      exact ⟨_, lookup_advance op p, hKey, hLeads.trans hLead⟩
    · exact ⟨op', (lookup_insert_of_ne _ hx).trans hLookup, hKey, hLead⟩
  exact
    { h with
      ops := by
        intro x op' hLookup
        rcases lookup_insert_cases hLookup with ⟨rfl, rfl⟩ | ⟨-, hOld⟩
        · exact { h.ops x op hOp with gate := hGate }
        · exact h.ops x op' hOld
      ready := by
        intro x op' hLookup
        rcases lookup_insert_cases hLookup with ⟨-, rfl⟩ | ⟨-, hOld⟩
        · exact hReady
        · exact h.ready x op' hOld
      listed := by
        intro k verify leader hIn
        obtain ⟨op', hLookup, hKey, hLead⟩ := h.listed k verify leader hIn
        exact hLeader hLookup hKey hLead
      joined := by
        intro x op' verify leader hLookup hPhase hAfter
        rcases lookup_insert_cases hLookup with ⟨-, rfl⟩ | ⟨-, hOld⟩
        · exact absurd hPhase (hWait verify leader)
        · rcases h.joined x op' verify leader hOld hPhase hAfter with ⟨op'', hL, hKey, hLead⟩ | hRes
          · exact .inl (hLeader hL hKey hLead)
          · exact .inr hRes }

variable {key : NodeID} {verify : Bool}

/-- A leader goes on. -/
theorem advanceLeader (h : FinalInv s) (hOp : s.ops.lookup tid = some op)
    (hLead : op.phase.leads = some verify) (hLead' : p.leads = some verify)
    (hGate : op.key ∈ s.revoked → p.pastGate = false) : FinalInv (s.advance tid op p) := by
  refine h.advance hOp (hLead'.trans hLead.symm) hGate ?_ ?_
  · rintro v leader rfl
    cases hLead'
  · cases p <;> trivial

/-- An operation that leads no lookup is over. -/
theorem leave (h : FinalInv s) (hOp : s.ops.lookup tid = some op)
    (hLeads : op.phase.leads = none) : FinalInv (s.leave tid) := by
  have hOld : ∀ {x op'}, (s.leave tid).ops.lookup x = some op' → s.ops.lookup x = some op' :=
    fun hLookup => (lookup_of_lookup_erase hLookup).2
  have hLeader : ∀ {leader op' verify}, s.ops.lookup leader = some op' →
      op'.phase.leads = some verify → (s.leave tid).ops.lookup leader = some op' := by
    intro leader op' verify hLookup hLead
    have hx : leader ≠ tid := by
      rintro rfl
      rw [hOp] at hLookup
      cases hLookup
      rw [hLeads] at hLead
      cases hLead
    exact (lookup_erase_ne hx).trans hLookup
  exact
    { h with
      ops := fun x op' hLookup => h.ops x op' (hOld hLookup)
      ready := fun x op' hLookup => h.ready x op' (hOld hLookup)
      listed := by
        intro k verify leader hIn
        obtain ⟨op', hLookup, hKey, hLead⟩ := h.listed k verify leader hIn
        exact ⟨op', hLeader hLookup hLead, hKey, hLead⟩
      joined := by
        intro x op' verify leader hLookup hPhase hAfter
        rcases h.joined x op' verify leader (hOld hLookup) hPhase hAfter with
          ⟨op'', hL, hKey, hLead⟩ | hRes
        · exact .inl ⟨op'', hLeader hL hLead, hKey, hLead⟩
        · exact .inr hRes }

/-- A lookup ends: its leader leaves with the result, which is a failure when
the key is revoked. -/
theorem finish (h : FinalInv s) {result : Except DhtError Bytes}
    (hOp : s.ops.lookup tid = some op) (hPhase : op.phase = .finish verify result) :
    FinalInv { s.leave tid with
      inflight := update s.inflight (op.key, verify) none
      results := s.results.insert tid result } := by
  have hFails : op.key ∈ s.revoked → ∃ e, result = .error e := by
    intro hRevoked
    have hPast := (h.ops tid op hOp).gate hRevoked
    rw [hPhase] at hPast
    cases result with
    | error e => exact ⟨e, rfl⟩
    | ok v => cases hPast
  have hOld : ∀ {x op'}, (s.leave tid).ops.lookup x = some op' →
      x ≠ tid ∧ s.ops.lookup x = some op' := lookup_of_lookup_erase
  exact
    { h with
      ops := by
        intro x op' hLookup
        obtain ⟨hx, hOld⟩ := hOld hLookup
        have hInv := h.ops x op' hOld
        exact { hInv with fresh := (lookup_insert_of_ne _ hx).trans hInv.fresh }
      ready := fun x op' hLookup => h.ready x op' (hOld hLookup).2
      listed := by
        intro k v leader hIn
        have hne : (k, v) ≠ (op.key, verify) := by
          intro hEq
          change update s.inflight (op.key, verify) none (k, v) = some leader at hIn
          rw [hEq, update_self] at hIn
          cases hIn
        change update s.inflight (op.key, verify) none (k, v) = some leader at hIn
        rw [update_of_ne hne] at hIn
        obtain ⟨op', hLookup, hKey, hLead⟩ := h.listed k v leader hIn
        have hx : leader ≠ tid := by
          rintro rfl
          rw [hOp] at hLookup
          cases hLookup
          rw [hPhase] at hLead
          exact hne (Prod.ext hKey.symm (some.inj hLead).symm)
        exact ⟨op', (lookup_erase_ne hx).trans hLookup, hKey, hLead⟩
      joined := by
        intro x op' v leader hLookup hWait hAfter
        have hOp' := (hOld hLookup).2
        rcases h.joined x op' v leader hOp' hWait hAfter with ⟨op'', hL, hKey, hLead⟩ | ⟨e, hRes⟩
        · by_cases hx : leader = tid
          · subst hx
            rw [hOp] at hL
            cases hL
            obtain ⟨e, rfl⟩ := hFails (hKey ▸ (h.ops x op' hOp').after hAfter)
            exact .inr ⟨e, lookup_insert _⟩
          · exact .inl ⟨op'', (lookup_erase_ne hx).trans hL, hKey, hLead⟩
        · have hx : leader ≠ tid := by
            rintro rfl
            rw [(h.ops leader op hOp).fresh] at hRes
            cases hRes
          exact .inr ⟨e, (lookup_insert_of_ne _ hx).trans hRes⟩ }

/-- A new operation; one that waits does so for a lookup in flight. -/
theorem start (h : FinalInv s) (hNew : ¬ (tid ∈ s.ops ∨ tid ∈ s.results))
    (hGate : p.pastGate = false) (hReady : s.Ready key p)
    (hWait : ∀ verify leader, p = .wait verify leader → s.inflight (key, verify) = some leader) :
    FinalInv (s.start tid key p) := by
  have hLeader : ∀ {leader op'}, s.ops.lookup leader = some op' →
      (s.start tid key p).ops.lookup leader = some op' := by
    intro leader op' hLookup
    have hx : leader ≠ tid := by
      rintro rfl
      exact hNew (.inl (mem_of_lookup_eq_some hLookup))
    exact (lookup_insert_of_ne _ hx).trans hLookup
  exact
    { h with
      ops := by
        intro x op' hLookup
        rcases lookup_insert_cases hLookup with ⟨rfl, rfl⟩ | ⟨-, hOld⟩
        · exact ⟨fun _ => hGate, of_decide_eq_true,
            lookup_eq_none.mpr fun hMem => hNew (.inr hMem)⟩
        · exact h.ops x op' hOld
      ready := by
        intro x op' hLookup
        rcases lookup_insert_cases hLookup with ⟨-, rfl⟩ | ⟨-, hOld⟩
        · exact hReady
        · exact h.ready x op' hOld
      listed := by
        intro k verify leader hIn
        obtain ⟨op', hLookup, hKey, hLead⟩ := h.listed k verify leader hIn
        exact ⟨op', hLeader hLookup, hKey, hLead⟩
      joined := by
        intro x op' verify leader hLookup hPhase hAfter
        rcases lookup_insert_cases hLookup with ⟨-, rfl⟩ | ⟨-, hOld⟩
        · obtain ⟨op'', hL, hKey, hLead⟩ := h.listed key verify leader (hWait verify leader hPhase)
          exact .inl ⟨op'', hLeader hL, hKey, hLead⟩
        · rcases h.joined x op' verify leader hOld hPhase hAfter with ⟨op'', hL, hKey, hLead⟩ | hRes
          · exact .inl ⟨op'', hLeader hL, hKey, hLead⟩
          · exact .inr hRes }

/-- A new lookup is listed with its leader. -/
theorem lead (h : FinalInv s) (hNew : ¬ (tid ∈ s.ops ∨ tid ∈ s.results)) :
    FinalInv { s.start tid key (.gate verify) with
      inflight := update s.inflight (key, verify) (some tid) } := by
  have hStart : FinalInv (s.start tid key (.gate verify)) :=
    h.start hNew rfl trivial (by simp)
  exact
    { hStart with
      listed := by
        intro k v leader hIn
        change update s.inflight (key, verify) (some tid) (k, v) = some leader at hIn
        by_cases hEq : (k, v) = (key, verify)
        · cases hEq
          rw [update_self] at hIn
          cases hIn
          exact ⟨_, lookup_insert _, rfl, rfl⟩
        · rw [update_of_ne hEq] at hIn
          exact hStart.listed k v leader hIn }

/-! ## Revokes -/

theorem isBlocked_none {k : NodeID} (hNone : s.dht.blocklist = none) :
    s.dht.isBlocked k = false := by
  rw [DHT.isBlocked, hNone]

theorem isBlocked_insert {d : DHT} {k id : NodeID} {hashes : Blocklist}
    (hList : d.blocklist = some hashes) (h : d.isBlocked k = true ∨ k = id) :
    { d with blocklist := d.blocklist.map (insert id.hex) }.isBlocked k = true := by
  simp only [DHT.isBlocked, hList, map_some, decide_eq_true_eq] at h ⊢
  refine Finset.mem_insert.mpr ?_
  rcases h with hOld | rfl
  · exact .inr hOld
  · exact .inl rfl

variable (h : FinalInv s)

include h

/-- A first list is made: no key has been blocked, and no revoke has come to add
one. -/
theorem revokeNew (hOp : s.ops.lookup tid = some op) (hPhase : op.phase = .revokeNew)
    (hNone : s.dht.blocklist = none) :
    FinalInv ({ s.setBlocklist (some ∅) with list := s.list + 1 }.advance tid op
      .revokeLoad) := by
  have hOpen : ∀ k, s.dht.isBlocked k ≠ true := fun k => by rw [isBlocked_none hNone]; decide
  have hNew : FinalInv { s.setBlocklist (some ∅) with list := s.list + 1 } :=
    { h with
      blocked := fun k hk => absurd (h.blocked k hk) (hOpen k)
      ready := by
        intro x op' hLookup
        have hReady := h.ready x op' hLookup
        cases hPhase' : op'.phase with
        | revokeLoad => exact rfl
        | revokeAdd list =>
          rw [hPhase'] at hReady
          exact absurd hReady.2 (by simp [hNone])
        | revokeDelete =>
          rw [hPhase'] at hReady
          exact absurd hReady (hOpen op'.key)
        | _ => trivial }
  exact hNew.advance hOp (by rw [hPhase]; rfl) (fun _ => rfl) (by simp) rfl

/-- The key is added to the list that was read. -/
theorem revokeAdd {list : Nat} (hOp : s.ops.lookup tid = some op)
    (hPhase : op.phase = .revokeAdd list) :
    FinalInv ((if list = s.list then s.setBlocklist (s.dht.blocklist.map (insert op.key.hex))
      else s).advance tid op .revokeDelete) := by
  have hReady := h.ready tid op hOp
  rw [hPhase] at hReady
  obtain ⟨rfl, hSome⟩ := hReady
  obtain ⟨hashes, hList⟩ := isSome_iff_exists.mp hSome
  rw [if_pos rfl]
  have hAdd : FinalInv (s.setBlocklist (s.dht.blocklist.map (insert op.key.hex))) :=
    { h with
      blocked := fun k hk => isBlocked_insert hList (.inl (h.blocked k hk))
      ready := by
        intro x op' hLookup
        have hReady := h.ready x op' hLookup
        cases hPhase' : op'.phase with
        | revokeLoad => simp [Ready, setBlocklist, hList]
        | revokeAdd list =>
          rw [hPhase'] at hReady
          exact ⟨hReady.1, by simp [setBlocklist, hList]⟩
        | revokeDelete =>
          rw [hPhase'] at hReady
          exact isBlocked_insert hList (.inl hReady)
        | _ => trivial }
  exact hAdd.advance hOp (by rw [hPhase]; rfl) (fun _ => rfl) (by simp)
    (isBlocked_insert hList (.inr rfl))

/-- The last section deletes the value. Nothing on the key may be past its
gate then. -/
theorem revokeDelete (hOp : s.ops.lookup tid = some op) (hPhase : op.phase = .revokeDelete)
    (hSettled : ∀ tid' op', s.ops.lookup tid' = some op' → op'.key = op.key →
      op'.phase.pastGate = false) :
    FinalInv { (s.setStore (s.dht.store.delete op.key)).leave tid with
      revoked := op.key :: s.revoked } := by
  have hRevoked : FinalInv { s.setStore (s.dht.store.delete op.key) with
      revoked := op.key :: s.revoked } :=
    { h with
      blocked := by
        intro k hk
        rcases List.mem_cons.mp hk with rfl | hOld
        · have hReady := h.ready tid op hOp
          rw [hPhase] at hReady
          exact hReady
        · exact h.blocked k hOld
      gone := by
        intro k hk
        show (s.dht.store.dropEntry op.key.hex).data.lookup k.hex = none
        by_cases hEq : k.hex = op.key.hex
        · rw [hEq, dropEntry_lookup_self]
        rw [dropEntry_lookup_ne hEq]
        rcases List.mem_cons.mp hk with rfl | hOld
        · exact absurd rfl hEq
        · exact h.gone k hOld
      ops := by
        intro x op' hLookup
        have hInv := h.ops x op' hLookup
        refine ⟨fun hk => ?_, fun hAfter => List.mem_cons_of_mem _ (hInv.after hAfter),
          hInv.fresh⟩
        rcases List.mem_cons.mp hk with hEq | hOld
        · exact hSettled x op' hLookup hEq
        · exact hInv.gate hOld }
  exact hRevoked.leave hOp (by rw [hPhase]; rfl)

/-! ## One step -/

/-- Writing a key that is not revoked brings no revoked key back. -/
theorem gone_put (hKey : key ∉ s.revoked) (value : Bytes) (sender : GoString)
    (order : List GoString) (now : Time) :
    ∀ k ∈ s.revoked, (s.dht.store.put order key value sender now).1.data.lookup k.hex = none := by
  intro k hk
  cases hLookup : (s.dht.store.put order key value sender now).1.data.lookup k.hex with
  | none => rfl
  | some v =>
    exfalso
    rcases put_entry hLookup with ⟨hOld, -⟩ | ⟨hEq, -, -⟩
    · rw [h.gone k hk] at hOld
      cases hOld
    · rw [NodeID.hex_injective hEq] at hk
      exact hKey hk

/-- A section of an operation. -/
theorem advanceOp {sec : Section} (hOp : s.ops.lookup tid = some op)
    (hStep : s.advanceOp cr tid op sec = some t)
    (hSettled : op.phase = .revokeDelete → ∀ tid' op', s.ops.lookup tid' = some op' →
      op'.key = op.key → op'.phase.pastGate = false)
    (hNone : op.phase = .revokeNew → s.dht.blocklist = none) : FinalInv t := by
  have hRead : FinalInv (s.setStore (s.dht.store.get op.key sec.now).1) :=
    h.setStore fun k hk => by rw [get_data]; exact h.gone k hk
  have hInv := h.ops tid op hOp
  -- an operation that is past its gate is not one on a revoked key
  have hFree : op.phase.pastGate = true → op.key ∉ s.revoked := by
    intro hPast hRevoked
    rw [hInv.gate hRevoked] at hPast
    cases hPast
  obtain ⟨key, after, phase⟩ := op
  cases phase with
  | gate verify =>
    cases hStep
    refine h.advanceLeader hOp rfl ?_ fun hRevoked => ?_
    · split <;> rfl
    · rw [if_pos (h.blocked key hRevoked)]
      rfl
  | readLocal verify =>
    cases hStep
    refine hRead.advanceLeader hOp rfl ?_ fun hRevoked => absurd hRevoked (hFree rfl)
    split
    · split <;> rfl
    · rfl
  | network verify =>
    cases hStep
    refine h.advanceLeader hOp rfl ?_ fun hRevoked => absurd hRevoked (hFree rfl)
    split
    · rfl
    · split
      · cases verify <;> rfl
      · rfl
  | cache v =>
    cases hStep
    have hPut := h.setStore (h.gone_put (hFree rfl) v [] sec.order sec.now)
    exact hPut.advanceLeader hOp rfl rfl fun hRevoked => absurd hRevoked (hFree rfl)
  | finish verify result =>
    cases hStep
    refine (h.finish hOp rfl).answer fun hAfter => ?_
    -- a call made after the revoke finds its own lookup failed
    have hPast := hInv.gate (hInv.after hAfter)
    cases result with
    | error e => exact ⟨e, rfl⟩
    | ok v => cases hPast
  | wait verify leader =>
    obtain ⟨result, hRes, rfl⟩ := map_eq_some_iff.mp hStep
    refine (h.leave hOp rfl).answer fun hAfter => ?_
    rcases h.joined tid _ verify leader hOp rfl hAfter with ⟨op', hL, -, -⟩ | ⟨e, hErr⟩
    · rw [(h.ops leader op' hL).fresh] at hRes
      cases hRes
    · rw [hErr] at hRes
      exact ⟨e, (some.inj hRes).symm⟩
  | storeGate value sender =>
    simp only [OpState.advanceOp] at hStep
    split at hStep
    case isTrue =>
      cases hStep
      exact h.leave hOp rfl
    case isFalse hGate =>
      cases hStep
      refine h.advance hOp rfl (fun hRevoked => ?_) (by simp) trivial
      exact absurd (.inr (h.blocked key hRevoked)) hGate
  | storePut value sender =>
    cases hStep
    exact (h.setStore (h.gone_put (hFree rfl) value sender sec.order sec.now)).leave hOp rfl
  | serveGate =>
    simp only [OpState.advanceOp] at hStep
    split at hStep
    · cases hStep
      exact (h.leave hOp rfl).serve fun _ => rfl
    · cases hStep
      exact h.advance hOp rfl (fun _ => rfl) (by simp) trivial
  | serveRead =>
    cases hStep
    refine (hRead.leave hOp rfl).serve fun hAfter => ?_
    rw [get_snd]
    exact h.gone key (hInv.after hAfter)
  | revokeCheck =>
    cases hStep
    cases hList : s.dht.blocklist with
    | none => exact h.advance hOp rfl (fun _ => rfl) (by simp) trivial
    | some hashes =>
      exact h.advance hOp rfl (fun _ => rfl) (by simp) (by simp [Ready, hList])
  | revokeNew =>
    cases hStep
    exact h.revokeNew hOp rfl (hNone rfl)
  | revokeLoad =>
    cases hStep
    exact h.advance hOp rfl (fun _ => rfl) (by simp) ⟨rfl, h.ready tid _ hOp⟩
  | revokeAdd list =>
    cases hStep
    exact h.revokeAdd hOp rfl
  | revokeDelete =>
    cases hStep
    exact h.revokeDelete hOp rfl (hSettled rfl)

/-- **One step.** -/
theorem step {act : OpAction} (hStep : s.next cr act = some t) (hGood : s.settled act = true) :
    FinalInv t := by
  cases act with
  | get tid key verify =>
    simp only [next] at hStep
    split at hStep
    · cases hStep
    rename_i hNew
    split at hStep
    · rename_i leader hIn
      cases hStep
      refine h.start hNew rfl trivial fun v leader' hEq => ?_
      cases hEq
      exact hIn
    · cases hStep
      exact h.lead hNew
  | store tid key value sender | findValue tid key | revoke tid key =>
    simp only [next] at hStep
    split at hStep
    · cases hStep
    · rename_i hNew
      cases hStep
      exact h.start hNew rfl trivial (by simp)
  | step tid sec =>
    simp only [next] at hStep
    split at hStep
    · cases hStep
    rename_i op hOp
    obtain ⟨key, after, phase⟩ := op
    refine h.advanceOp hOp hStep (fun hPhase tid' op' hLookup hKey => ?_) fun hPhase => ?_
    · cases hPhase
      simp only [settled, hOp, decide_eq_true_eq] at hGood
      have hOther := hGood tid' (mem_keys.mpr (mem_of_lookup_eq_some hLookup))
      rw [hLookup, all_some, decide_eq_true hKey] at hOther
      simpa using hOther
    · cases hPhase
      simpa only [settled, hOp, isNone_iff_eq_none] using hGood

/-- The invariant is more than finality. -/
theorem final : s.RevocationFinal where
  calls := by
    intro a ha hAfter v hOk
    obtain ⟨e, he⟩ := h.calls a ha hAfter
    rw [he] at hOk
    cases hOk
  replies := h.replies
  gone := fun k hk _ => h.gone k hk

end FinalInv

end OpState

open OpState

/-- **Where revocation is final.** In every state that is reached by steps
none of which completes a revoke while an operation on its key is past its
gate, or puts a blocklist in the place of another, revocation is final. -/
theorem revoke_final (cr : Crypto) (d : DHT) {as : List OpAction} {s : OpState}
    (hRun : Exec (guarded (stepOf (next cr)) fun t act => t.settled act = true)
      (init d) as s) : s.RevocationFinal :=
  (hRun.invariant (I := FinalInv) (FinalInv.init d) fun h hStep => h.step hStep.1 hStep.2).final

/-- A section in which the network, if asked, returns the value `[7]`. -/
def sampleSection : Section := ⟨1, [], .ok [7]⟩

/-- A value is stored, read and revoked, and then asked for and stored again,
one operation after the other; another revoke begins before the first one has
ended, and finds its list. -/
def revokeAlone : List OpAction :=
  [.store 0 (fill 7) [7] [], .step 0 sampleSection, .step 0 sampleSection,
   .get 1 (fill 7) true, .step 1 sampleSection, .step 1 sampleSection,
   .step 1 sampleSection, .revoke 2 (fill 7), .step 2 sampleSection,
   .step 2 sampleSection, .revoke 5 (fill 8), .step 5 sampleSection,
   .step 2 sampleSection, .step 5 sampleSection, .step 2 sampleSection,
   .step 5 sampleSection, .step 2 sampleSection, .step 5 sampleSection,
   .get 3 (fill 7) true, .step 3 sampleSection,
   .step 3 sampleSection, .store 4 (fill 7) [7] [], .step 4 sampleSection]

/-- The theorem on this run. -/
theorem revoke_final_alone :
    ∃ s, Exec (guarded (stepOf (next firstByte)) fun t act => t.settled act = true)
        (init (DHT.new (fill 0) 0 0)) revokeAlone s ∧
      s.RevocationFinal ∧ s.revoked = [fill 8, fill 7] ∧
      s.answers.map (fun a => (a.after, a.result.toOption)) =
        [(true, none), (false, some [7])] := by
  refine Exec.exists_of_checked (p := fun s => s.revoked = [fill 8, fill 7] ∧
      s.answers.map (fun a => (a.after, a.result.toOption)) = [(true, none), (false, some [7])])
    (next firstByte) settled (fun hNext hOk => ⟨hNext, hOk⟩) (by decide +kernel) ?_
  exact fun s hRun hEnd => ⟨revoke_final firstByte _ hRun, hEnd⟩

/-- A lookup passes its gate and misses the local store; the key is revoked; a
second call joins the lookup; the network answers, the value is cached, and
both calls return it. -/
def revokeOvertaken : List OpAction :=
  [.get 0 (fill 7) true, .step 0 sampleSection, .step 0 sampleSection,
   .revoke 1 (fill 7)] ++ List.replicate 5 (.step 1 sampleSection) ++
  [.get 2 (fill 7) true, .step 0 sampleSection, .step 0 sampleSection,
   .step 0 sampleSection, .step 2 sampleSection]

/-- After this run nothing is under way, the revoked value is in the store,
and a call made after the revoke has returned it. -/
theorem revoke_not_final :
    ∃ s, Exec (stepOf (next firstByte)) (init (DHT.new (fill 0) 0 0))
        revokeOvertaken s ∧
      s.revoked = [fill 7] ∧ s.ops.keys.card = 0 ∧
      s.dht.store.data.lookup (fill 7).hex = some [7] ∧
      (∃ a ∈ s.answers, a.key = fill 7 ∧ a.after = true ∧ a.result = .ok [7]) ∧
      ¬ s.RevocationFinal := by
  refine Exec.exists_of_runFrom (p := fun s => s.revoked = [fill 7] ∧
      s.ops.keys.card = 0 ∧ s.dht.store.data.lookup (fill 7).hex = some [7] ∧
      ∃ a ∈ s.answers, a.key = fill 7 ∧ a.after = true ∧ a.result.toOption = some [7])
    (by decide +kernel) ?_
  rintro s - ⟨hRevoked, hNone, hStored, a, ha, hKey, hAfter, hValue⟩
  have hOk : a.result = .ok [7] := by
    cases hResult : a.result with
    | error e => simp [hResult, Except.toOption] at hValue
    | ok v =>
      rw [hResult] at hValue
      rw [some.inj hValue]
  exact ⟨hRevoked, hNone, hStored, ⟨a, ha, hKey, hAfter, hOk⟩,
    fun h => h.calls a ha hAfter [7] hOk⟩

end AltNet
