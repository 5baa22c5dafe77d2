import AltNet.Dht.Store

/-!
# AltNet — byte accounting of the local store

`total` is meant to be the sum of the stored lengths, and the budget is
enforced by comparing against it. Every operation keeps the *drift*
`total - storedBytes` except one: `put` refunds the entry it overwrites before
it evicts, while the old entry is still in the map. If the eviction then
removes that very entry, its bytes are taken off a second time, `total` ends
up too low by the old length, and the eviction stops too early by as much.

`DoubleRefund` is this case, as a condition on the store before the write.

Main results:

* `accounting_step_iff` — from an accounted store, an operation leads to an
  accounted store exactly when it is not a double refund;
* `store_accounting_iff` — over whole runs: the accounting is right in every
  state exactly when no write of the run refunds twice;
* `store_accounting_fails` — a run of three writes that ends with 15 bytes
  stored under a budget of 10, and 10 bytes counted.
-/

namespace AltNet

open LocalStore Finmap

open NodeID (fill)

/-- A store together with the length of the last value it accepted. -/
structure TracedStore where
  store : LocalStore
  lastPut : Int

namespace TracedStore

def new (maxBytes perPeerMax : Int) : TracedStore := ⟨LocalStore.new maxBytes perPeerMax, 0⟩

/-- The last accepted length after an operation. -/
def nextLastPut (r : TracedStore) : StoreOp → Int
  | .put key value peerID _ _ =>
    if r.store.admits key.hex value.length peerID then value.length else r.lastPut
  | .get _ _ => r.lastPut
  | .delete _ => r.lastPut

def apply (r : TracedStore) (op : StoreOp) : TracedStore :=
  ⟨op.apply r.store, r.nextLastPut op⟩

end TracedStore

open TracedStore

/-- One operation on the store, the last accepted length along with it. -/
def tracedStep (r : TracedStore) (op : StoreOp) (r' : TracedStore) : Prop :=
  op.Valid r.store ∧ r' = r.apply op

/-- The byte accounting of a store. -/
structure Accounted (r : TracedStore) : Prop where
  total_eq : r.store.total = r.store.storedBytes
  access_keys : ∀ hex, hex ∈ r.store.access ↔ hex ∈ r.store.data
  attribution_keys : ∀ hex, hex ∈ r.store.attribution → hex ∈ r.store.data
  budget : 0 < r.store.maxBytes →
    r.store.storedBytes ≤ max r.store.maxBytes r.lastPut

/-- A write that overwrites a nonempty entry and whose eviction reaches that
entry. -/
def DoubleRefund (s : LocalStore) : StoreOp → Prop
  | .put key value peerID _ order =>
    s.admits key.hex value.length peerID = true ∧ 0 < s.lenAt key.hex ∧
      s.Evicts key value order key.hex
  | .get _ _ => False
  | .delete _ => False

instance (s : LocalStore) (op : StoreOp) : Decidable (DoubleRefund s op) :=
  match op with
  | .put .. => inferInstanceAs (Decidable (_ ∧ _))
  | .get _ _ | .delete _ => .isFalse id

namespace LocalStore

/-- How far the counter is off. -/
def drift (s : LocalStore) : Int := s.total - s.storedBytes

variable {s : LocalStore} {hex : GoString} {value : Bytes} {peerID : GoString} {now : Time}
  {order : List GoString} {key : NodeID}

/-! ## Drift -/

theorem dropEntry_drift (s : LocalStore) (hex : GoString) :
    (s.dropEntry hex).drift = s.drift := by
  rw [drift, dropEntry_total, dropEntry_storedBytes, drift]
  omega

theorem evictToFit_drift (s : LocalStore) (order : List GoString) (needed : Int) :
    (s.evictToFit order needed).drift = s.drift :=
  evictToFit_induct (P := fun t => t.drift = s.drift) rfl
    fun t x _ ht => by rw [dropEntry_drift, ht]

theorem refundOverwritten_storedBytes :
    (s.refundOverwritten hex).storedBytes = s.storedBytes := by
  rw [storedBytes, refundOverwritten_data, storedBytes]

theorem refundOverwritten_drift (s : LocalStore) (hex : GoString) :
    (s.refundOverwritten hex).drift = s.drift - s.lenAt hex := by
  rw [drift, refundOverwritten_total, refundOverwritten_storedBytes, drift]
  omega

theorem install_storedBytes :
    (s.install hex value peerID now).storedBytes =
      s.storedBytes - s.lenAt hex + value.length := by
  rw [storedBytes, install_data, GoMap.weight_insert, storedBytes, lenAt, byteLen]

theorem install_drift :
    (s.install hex value peerID now).drift = s.drift + s.lenAt hex := by
  rw [drift, install_total, install_storedBytes, drift]
  omega

/-- Whether the overwritten entry is still there after the eviction. -/
theorem evicted_lenAt (hOrder : s.LruOrder order) :
    (s.evicted key value order).lenAt key.hex =
      if s.Evicts key value order key.hex then 0 else s.lenAt key.hex := by
  simp only [lenAt, GoMap.weightAt, lookup_evicted hOrder]
  by_cases hGone : s.Evicts key value order key.hex
  · rw [if_pos hGone, if_pos hGone]
  · rw [if_neg hGone, if_neg hGone]

/-- An accepted write shifts the drift by the old length, less what of it is
still there after the eviction. -/
theorem put_drift (hAdmit : s.admits key.hex value.length peerID = true) :
    (s.put order key value peerID now).1.drift =
      s.drift - s.lenAt key.hex + (s.evicted key value order).lenAt key.hex := by
  rw [put_true hAdmit]
  change (install (s.evicted key value order) key.hex value peerID now).drift = _
  rw [install_drift]
  congr 1
  rw [evicted, evictToFit_drift, refundOverwritten_drift]

/-- Under a budget, the eviction leaves the counter at the target, or an
empty map behind. -/
theorem evicted_total (hOrder : s.LruOrder order) (hMax : 0 < s.maxBytes) :
    (s.evicted key value order).total ≤ s.evictTarget value.length ∨
      (s.evicted key value order).storedBytes = 0 := by
  have hTarget : (s.refundOverwritten key.hex).evictTarget value.length =
      s.evictTarget value.length := by
    simp only [evictTarget, refundOverwritten_maxBytes]
  rw [evicted, evictToFit_eq (by rwa [refundOverwritten_maxBytes]), hTarget]
  rcases evictLoop_done (s.evictTarget value.length) order (s.refundOverwritten key.hex)
    with h | h
  · exact Or.inl h
  right
  apply GoMap.weight_of_noKeys
  intro hex hmem
  -- a key that survives was in the map, hence in the order, hence visited
  have hOld : hex ∈ s.data := by
    have hSub : hex ∈ (evictLoop (s.evictTarget value.length) order
        (s.refundOverwritten key.hex)).data → hex ∈ s.data :=
      evictLoop_induct (P := fun t => hex ∈ t.data → hex ∈ s.data) order
        (by rw [refundOverwritten_data]; exact id)
        (fun t x _ ht hx => ht (mem_erase.mp (by rwa [dropEntry_data] at hx)).2)
    exact hSub hmem
  exact h hex ((hOrder.mem hex).mpr hOld) hmem

/-- The drift in the middle of a write. -/
theorem evicted_drift : (s.evicted key value order).drift = s.drift - s.lenAt key.hex := by
  rw [evicted, evictToFit_drift, refundOverwritten_drift]

end LocalStore

/-! ## Keys of the book-keeping maps -/

/-- The keys of the three maps agree as they should. -/
structure KeysAgree (s : LocalStore) : Prop where
  access : ∀ hex, hex ∈ s.access ↔ hex ∈ s.data
  attribution : ∀ hex, hex ∈ s.attribution → hex ∈ s.data

variable {op : StoreOp} {s : LocalStore}

theorem KeysAgree.dropEntry (h : KeysAgree s) (hex : GoString) : KeysAgree (s.dropEntry hex) := by
  by_cases hmem : hex ∈ s.data
  · refine ⟨fun x => ?_, fun x => ?_⟩
    · rw [dropEntry_access hmem, dropEntry_data, mem_erase, mem_erase, h.access]
    · rw [dropEntry_attribution hmem, dropEntry_data, mem_erase, mem_erase]
      exact fun hx => ⟨hx.1, h.attribution x hx.2⟩
  · rw [dropEntry_of_none (lookup_eq_none.mpr hmem)]
    exact h

theorem KeysAgree.install (h : KeysAgree s) (hex : GoString) (value : Bytes) (peerID : GoString)
    (now : Time) : KeysAgree (s.install hex value peerID now) := by
  refine ⟨fun x => ?_, fun x hx => ?_⟩
  · rw [install_access, install_data, mem_insert, mem_insert, h.access]
  · rw [install_data, mem_insert]
    rw [install_attribution] at hx
    split at hx
    · exact (mem_insert.mp hx).imp_right (h.attribution x)
    · exact Or.inr (h.attribution x (mem_erase.mp hx).2)

theorem KeysAgree.apply (h : KeysAgree s) (op : StoreOp) : KeysAgree (op.apply s) := by
  cases op with
  | put key value peerID now order =>
    simp only [StoreOp.apply]
    cases hAdmit : s.admits key.hex value.length peerID with
    | false => rw [put_false hAdmit]; exact h
    | true =>
      rw [put_true hAdmit]
      apply KeysAgree.install
      refine evictToFit_induct (P := KeysAgree) ?_ fun t x _ ht => ht.dropEntry x
      exact ⟨by simpa using h.access, by simpa using h.attribution⟩
  | get key now =>
    simp only [StoreOp.apply, LocalStore.get]
    cases hv : s.data.lookup key.hex with
    | none => exact h
    | some v =>
      refine ⟨fun x => ?_, h.attribution⟩
      rw [mem_insert, h.access]
      -- the refreshed key was present already
      constructor
      · rintro (rfl | hx)
        · exact mem_of_lookup_eq_some hv
        · exact hx
      · exact Or.inr
  | delete key => exact h.dropEntry key.hex

/-! ## One operation -/

theorem StoreOp.apply_maxBytes (s : LocalStore) (op : StoreOp) :
    (op.apply s).maxBytes = s.maxBytes := by
  cases op with
  | put key value peerID now order =>
    exact put_maxBytes
  | get key now => exact get_maxBytes
  | delete key => exact dropEntry_maxBytes

/-- The drift after an operation: a write that refunds twice loses the old
length, everything else keeps it. -/
theorem apply_drift_iff (hValid : op.Valid s) :
    (op.apply s).drift = s.drift ↔ ¬ DoubleRefund s op := by
  cases op with
  | put key value peerID now order =>
    simp only [StoreOp.apply, DoubleRefund]
    have hLen := s.lenAt_nonneg key.hex
    cases hAdmit : s.admits key.hex value.length peerID with
    | false => rw [put_false hAdmit]; simp
    | true =>
      rw [put_drift hAdmit, evicted_lenAt hValid]
      by_cases hGone : s.Evicts key value order key.hex
      · rw [if_pos hGone]
        simp only [hGone, true_and, and_true]
        omega
      · rw [if_neg hGone]
        simp only [hGone, and_false, not_false_eq_true, iff_true]
        omega
  | get key now =>
    simp only [StoreOp.apply, LocalStore.get, DoubleRefund, not_false_eq_true, iff_true]
    split <;> rfl
  | delete key =>
    simp only [StoreOp.apply, LocalStore.delete, DoubleRefund, not_false_eq_true, iff_true]
    exact dropEntry_drift s key.hex

/-- A write that does not refund twice keeps to the budget. -/
theorem put_budget {key : NodeID} {value : Bytes} {peerID : GoString} {now : Time}
    {order : List GoString} (hOrder : s.LruOrder order)
    (hAdmit : s.admits key.hex value.length peerID = true) (hTotal : s.drift = 0)
    (hOnce : ¬ DoubleRefund s (.put key value peerID now order)) (hMax : 0 < s.maxBytes) :
    (s.put order key value peerID now).1.storedBytes ≤ max s.maxBytes value.length := by
  -- afterwards the counter is right, and it is the counter that is bounded
  have hDrift : (s.put order key value peerID now).1.drift = s.drift :=
    (@apply_drift_iff (.put key value peerID now order) s hOrder).mpr hOnce
  have hCount : (s.put order key value peerID now).1.total =
      (s.evicted key value order).total + value.length := by
    rw [put_true hAdmit]
    exact install_total
  have hMid : (s.evicted key value order).total =
      (s.evicted key value order).storedBytes - s.lenAt key.hex := by
    have hMid : (s.evicted key value order).drift = s.drift - s.lenAt key.hex := evicted_drift
    rw [drift] at hMid
    omega
  have hLen := s.lenAt_nonneg key.hex
  have hTarget := s.evictTarget_nonneg value.length
  have hRoom : s.evictTarget value.length + value.length ≤ max s.maxBytes value.length := by
    simp only [evictTarget]
    split <;> omega
  have hStored : (s.put order key value peerID now).1.storedBytes =
      (s.evicted key value order).total + value.length := by
    rw [← hCount]
    rw [drift] at hDrift
    omega
  rw [hStored]
  have hFit : (s.evicted key value order).total ≤ s.evictTarget value.length ∨
      (s.evicted key value order).storedBytes = 0 := evicted_total hOrder hMax
  omega

/-- Reading and deleting never add bytes. -/
theorem apply_storedBytes_le
    (hOp : ∀ key value peerID now order, op = .put key value peerID now order →
      s.admits key.hex value.length peerID = false) : (op.apply s).storedBytes ≤ s.storedBytes := by
  cases op with
  | put key value peerID now order =>
    simp only [StoreOp.apply]
    rw [put_false (hOp _ _ _ _ _ rfl)]
  | get key now =>
    simp only [StoreOp.apply, LocalStore.get]
    split <;> exact le_rfl
  | delete key =>
    have := s.lenAt_nonneg key.hex
    simp only [StoreOp.apply, LocalStore.delete, dropEntry_storedBytes]
    omega

/-- **One operation.** From an accounted store, the next one is accounted
exactly when the operation does not refund twice. -/
theorem accounting_step_iff {r r' : TracedStore} (hAcc : Accounted r) (hStep : tracedStep r op r') :
    Accounted r' ↔ ¬ DoubleRefund r.store op := by
  obtain ⟨hValid, rfl⟩ := hStep
  have hDrift : r.store.drift = 0 := by
    rw [drift, hAcc.total_eq, sub_self]
  have hIff := apply_drift_iff hValid
  rw [hDrift] at hIff
  have hKeys : KeysAgree (op.apply r.store) :=
    (KeysAgree.mk hAcc.access_keys hAcc.attribution_keys).apply op
  constructor
  · intro h
    apply hIff.mp
    rw [drift]
    exact sub_eq_zero.mpr h.total_eq
  · intro hOnce
    refine ⟨?_, hKeys.access, hKeys.attribution, fun hMax => ?_⟩
    · exact sub_eq_zero.mp (hIff.mpr hOnce)
    · simp only [apply, StoreOp.apply_maxBytes] at hMax ⊢
      by_cases hPut : ∃ key value peerID now order,
          op = .put key value peerID now order ∧
            r.store.admits key.hex value.length peerID = true
      · obtain ⟨key, value, peerID, now, order, rfl, hAdmit⟩ := hPut
        rw [nextLastPut, if_pos hAdmit]
        exact put_budget hValid hAdmit hDrift hOnce hMax
      -- no bytes were added, and the last accepted length is the old one
      have hRefused : ∀ key value peerID now order, op = .put key value peerID now order →
          r.store.admits key.hex value.length peerID = false := by
        intro key value peerID now order hop
        cases hAdmit : r.store.admits key.hex value.length peerID with
        | false => rfl
        | true => exact absurd ⟨key, value, peerID, now, order, hop, hAdmit⟩ hPut
      have hLast' : r.nextLastPut op = r.lastPut := by
        cases op with
        | put key value peerID now order =>
          simp [nextLastPut, hRefused key value peerID now order rfl]
        | get key now => rfl
        | delete key => rfl
      rw [hLast']
      exact (apply_storedBytes_le hRefused).trans (hAcc.budget hMax)

/-! ## Whole runs -/

theorem accounted_new (maxBytes perPeerMax : Int) :
    Accounted (new maxBytes perPeerMax) where
  total_eq := rfl
  access_keys := fun _ => Iff.rfl
  attribution_keys := fun _ h => absurd h notMem_empty
  budget := fun hMax => le_max_of_le_left (le_of_lt hMax)

theorem tracedStep_unique (r : TracedStore) (op : StoreOp) (r₁ r₂ : TracedStore)
    (h₁ : tracedStep r op r₁) (h₂ : tracedStep r op r₂) : r₁ = r₂ :=
  h₁.2.trans h₂.2.symm

/-- **Byte accounting over whole runs.** Starting from an empty store with any
budget, the counter equals the stored bytes, the book-keeping maps have the
right keys and the budget is kept after every operation, if and only if no
write of the run refunds the entry it overwrites twice. -/
theorem store_accounting_iff (maxBytes perPeerMax : Int) {ops : List StoreOp}
    {r : TracedStore} (hRun : Exec tracedStep (new maxBytes perPeerMax) ops r) :
    Throughout tracedStep (new maxBytes perPeerMax) ops Accounted ↔
      EachStep tracedStep (new maxBytes perPeerMax) ops
        fun r op => ¬ DoubleRefund r.store op :=
  throughout_iff_eachStep hRun (accounted_new maxBytes perPeerMax) tracedStep_unique
    fun _ _ _ hAcc hStep => accounting_step_iff hAcc hStep

/-- Two keys of five bytes under a budget of ten, then the older one again
with ten bytes: the eviction of the third write starts at the entry being
overwritten, stops there, and leaves the other entry in place. -/
def overwriteRun : List StoreOp :=
  [.put (fill 1) (List.replicate 5 0) [] 1 [],
   .put (fill 2) (List.replicate 5 0) [] 2 [(fill 1).hex],
   .put (fill 1) (List.replicate 10 0) [] 3 [(fill 1).hex, (fill 2).hex]]

/-- The accounting is not right in every state of every run: here 15 bytes
are stored and 10 counted, and both the budget and the last value are 10. -/
theorem store_accounting_fails :
    ∃ r, Exec tracedStep (new 10 0) overwriteRun r ∧
      r.store.total = 10 ∧ r.store.storedBytes = 15 ∧ r.store.maxBytes = 10 ∧
      r.lastPut = 10 ∧ ¬ Accounted r := by
  refine ⟨_, .cons ⟨?_, rfl⟩ (.cons ⟨?_, rfl⟩ (.cons ⟨?_, rfl⟩ (.nil _))), ?_, ?_, ?_, ?_,
    fun h => ?_⟩
  case refine_8 => exact absurd h.total_eq (by decide +kernel)
  all_goals decide +kernel

/-- The first two of these writes, and then the younger entry again with six bytes:
its eviction takes the older entry, and does not come to the one being
overwritten. -/
def evictingRun : List StoreOp :=
  overwriteRun.take 2 ++
    [.put (fill 2) (List.replicate 6 0) [] 3 [(fill 1).hex, (fill 2).hex]]

/-- The accounting theorem on these writes. -/
theorem store_accounting_evicting :
    ∃ r, Exec tracedStep (new 10 0) evictingRun r ∧
      Throughout tracedStep (new 10 0) evictingRun Accounted ∧
      r.store.data.lookup (fill 1).hex = none ∧ r.store.storedBytes = 6 := by
  refine Exec.exists_of_eachStep (Q := fun r op => ¬ DoubleRefund r.store op)
    (p := fun r => r.store.data.lookup (fill 1).hex = none ∧ r.store.storedBytes = 6)
    (fun r op => some (r.apply op))
    (fun r op => decide (op.Valid r.store ∧ ¬ DoubleRefund r.store op)) tracedStep_unique ?_
    (by decide +kernel) ?_
  · rintro r op _ ⟨⟩ hOk
    exact ⟨⟨(of_decide_eq_true hOk).1, rfl⟩, (of_decide_eq_true hOk).2⟩
  · exact fun r hRun hEach hEnd => ⟨(store_accounting_iff 10 0 hRun).mpr hEach, hEnd⟩

end AltNet
