import AltNet.Dht.Store

/-!
# AltNet — the per-peer quota of the local store

Each stored entry may be attributed to the remote peer that pushed it, and
`perPeer` is meant to count, for every peer, the bytes attributed to it. The
admission check of `put` reads that counter, so a counter that is too low lets
a peer exceed its quota.

The counter of a peer is lowered in three places (overwrite, eviction,
deletion), each time with a clamp at zero. In the middle of a write the
counter is therefore `max 0 (attributed - refunded)`, whatever has been
evicted so far (`evicted_usage`). It is the right counter again after the new
entry is installed, unless the eviction took the very entry that had been
refunded and left other bytes of the same peer behind: `QuotaDrift`.

Main results:

* `quota_step_iff` — from a store with right counters an operation leads to
  one exactly when it is not a `QuotaDrift`;
* `store_quota_iff` — the same over whole runs, with the quota;
* `store_quota_fails` — a peer limited to 20 bytes ends up with 24.
-/

namespace AltNet

open Finmap GoMap

open NodeID (fill)

namespace LocalStore

/-- The bytes of the entry under `hex` when it is attributed to `p`. -/
def heldAt (s : LocalStore) (p hex : GoString) : Int :=
  if s.attribution.lookup hex = some p then s.lenAt hex else 0

/-- The weight of an entry for the peer `p`. -/
def heldLen (s : LocalStore) (p : GoString) (hex : GoString) (v : Bytes) : Int :=
  if s.attribution.lookup hex = some p then v.length else 0

/-- The bytes attributed to `p`, summed over the stored entries. -/
def attributedBytes (s : LocalStore) (p : GoString) : Int :=
  GoMap.weight (s.heldLen p) s.data

end LocalStore

open LocalStore

/-- The counters are right and no peer is over its quota. -/
structure QuotaKept (perPeerMax : Int) (s : LocalStore) : Prop where
  quota : s.perPeerMax = perPeerMax
  counter : ∀ p, p ≠ [] → s.perPeerUsage p = s.attributedBytes p
  bound : ∀ p, p ≠ [] → s.attributedBytes p ≤ perPeerMax

/-- A write whose eviction reaches the entry that it overwrites, that entry
counting for some peer of which another entry is not reached. -/
def QuotaDrift (s : LocalStore) : StoreOp → Prop
  | .put key value peerID _ order =>
    s.admits key.hex value.length peerID = true ∧
      ∃ p, p ≠ [] ∧ 0 < s.heldAt p key.hex ∧ s.Evicts key value order key.hex ∧
        ∃ x, 0 < s.heldAt p x ∧ ¬ s.Evicts key value order x
  | .get _ _ => False
  | .delete _ => False

namespace LocalStore

variable {s : LocalStore} {hex p x : GoString} {size : Int} {value : Bytes}
  {peerID : GoString} {now : Time} {order : List GoString} {key : NodeID}

/-! ## Attributed bytes -/

theorem heldAt_of_lookup {v : Bytes} (h : s.data.lookup hex = some v) :
    s.heldAt p hex = if s.attribution.lookup hex = some p then (v.length : Int) else 0 := by
  rw [heldAt, lenAt_of_lookup h]

theorem heldAt_of_none (h : s.data.lookup hex = none) : s.heldAt p hex = 0 := by
  rw [heldAt, lenAt_of_none h, ite_self]

theorem heldAt_eq_weightAt (s : LocalStore) (p hex : GoString) :
    s.heldAt p hex = GoMap.weightAt (s.heldLen p) s.data hex := by
  cases h : s.data.lookup hex with
  | none => rw [heldAt_of_none h, weightAt_of_none h]
  | some v => rw [heldAt_of_lookup h, weightAt_of_lookup h, heldLen]

theorem heldLen_nonneg (s : LocalStore) (p hex : GoString) (v : Bytes) :
    0 ≤ s.heldLen p hex v := by
  rw [heldLen]
  split <;> omega

theorem heldAt_nonneg (s : LocalStore) (p hex : GoString) : 0 ≤ s.heldAt p hex := by
  rw [heldAt_eq_weightAt]
  exact weightAt_nonneg (s.heldLen_nonneg p) s.data hex

theorem attributedBytes_nonneg (s : LocalStore) (p : GoString) : 0 ≤ s.attributedBytes p :=
  weight_nonneg (s.heldLen_nonneg p) s.data

/-- The sum depends on the stored entries and their attribution only. -/
theorem attributedBytes_congr {t : LocalStore} (hData : t.data = s.data)
    (hAttr : t.attribution = s.attribution) (p : GoString) :
    t.attributedBytes p = s.attributedBytes p := by
  rw [attributedBytes, attributedBytes, hData]
  apply weight_congr
  intro k v _
  rw [heldLen, heldLen, hAttr]

theorem heldAt_congr {t : LocalStore} (hData : t.data.lookup hex = s.data.lookup hex)
    (hAttr : t.attribution.lookup hex = s.attribution.lookup hex) (p : GoString) :
    t.heldAt p hex = s.heldAt p hex := by
  rw [heldAt, heldAt, hAttr, lenAt, lenAt, GoMap.weightAt, GoMap.weightAt, hData]

/-- One entry is part of the sum. -/
theorem heldAt_le_attributedBytes (s : LocalStore) (p hex : GoString) :
    s.heldAt p hex ≤ s.attributedBytes p := by
  have hErase := weight_erase (s.heldLen p) s.data hex
  have hNonneg := weight_nonneg (s.heldLen_nonneg p) (s.data.erase hex)
  rw [heldAt_eq_weightAt, attributedBytes]
  omega

/-- A peer has bytes when one of its entries has. -/
theorem attributedBytes_pos : 0 < s.attributedBytes p ↔ ∃ x, 0 < s.heldAt p x := by
  constructor
  · intro hPos
    by_contra hNone
    have hZero : s.attributedBytes p = GoMap.weight (fun _ _ => 0) s.data := by
      refine weight_congr fun k v hk => le_antisymm ?_ (s.heldLen_nonneg p k v)
      rw [← weightAt_of_lookup (w := s.heldLen p) hk, ← heldAt_eq_weightAt]
      exact not_lt.mp fun h => hNone ⟨k, h⟩
    rw [hZero] at hPos
    simp [GoMap.weight] at hPos
  · rintro ⟨x, hx⟩
    exact lt_of_lt_of_le hx (s.heldAt_le_attributedBytes p x)

theorem dropEntry_attribution_ne (h : x ≠ hex) :
    (s.dropEntry hex).attribution.lookup x = s.attribution.lookup x := by
  by_cases hmem : hex ∈ s.data
  · rw [dropEntry_attribution hmem, lookup_erase_ne h]
  · rw [dropEntry_of_none (lookup_eq_none.mpr hmem)]

theorem dropEntry_heldAt_ne (h : x ≠ hex) : (s.dropEntry hex).heldAt p x = s.heldAt p x :=
  heldAt_congr (dropEntry_lookup_ne h) (dropEntry_attribution_ne h) p

theorem dropEntry_heldAt_self : (s.dropEntry hex).heldAt p hex = 0 :=
  heldAt_of_none dropEntry_lookup_self

@[simp] theorem dropEntry_attributedBytes :
    (s.dropEntry hex).attributedBytes p = s.attributedBytes p - s.heldAt p hex := by
  rw [heldAt_eq_weightAt, attributedBytes, attributedBytes, dropEntry_data,
    ← weight_erase]
  apply weight_congr
  intro k v hk
  have hne : k ≠ hex := by
    rintro rfl
    rw [lookup_erase] at hk
    cases hk
  rw [heldLen, heldLen, dropEntry_attribution_ne hne]

theorem refundOverwritten_attributedBytes :
    (s.refundOverwritten hex).attributedBytes p = s.attributedBytes p :=
  attributedBytes_congr refundOverwritten_data refundOverwritten_attribution p

theorem refundOverwritten_heldAt : (s.refundOverwritten hex).heldAt p x = s.heldAt p x :=
  heldAt_congr (by rw [refundOverwritten_data]) (by rw [refundOverwritten_attribution]) p

theorem install_attribution_ne (h : x ≠ hex) :
    (s.install hex value peerID now).attribution.lookup x = s.attribution.lookup x := by
  rw [install_attribution]
  split
  · rw [lookup_insert_of_ne _ h]
  · rw [lookup_erase_ne h]

theorem install_attribution_self (hp : p ≠ []) :
    (s.install hex value peerID now).attribution.lookup hex = some p ↔ peerID = p := by
  rw [install_attribution]
  split
  · rw [lookup_insert, Option.some.injEq]
  rename_i h
  rw [lookup_erase]
  have hNil : peerID = [] := not_not.mp h
  simp [hNil, Ne.symm hp]

/-- Installing an entry replaces what the peer held under that key. -/
theorem install_attributedBytes (hp : p ≠ []) :
    (s.install hex value peerID now).attributedBytes p =
      s.attributedBytes p - s.heldAt p hex + if peerID = p then (value.length : Int) else 0 := by
  have hRest : GoMap.weight ((s.install hex value peerID now).heldLen p) (s.data.erase hex) =
      GoMap.weight (s.heldLen p) (s.data.erase hex) := by
    apply weight_congr
    intro k v hk
    have hne : k ≠ hex := by
      rintro rfl
      rw [lookup_erase] at hk
      cases hk
    rw [heldLen, heldLen, install_attribution_ne hne]
  have hNew : (s.install hex value peerID now).heldLen p hex value =
      if peerID = p then (value.length : Int) else 0 := by
    simp only [heldLen, install_attribution_self hp]
  rw [attributedBytes, install_data, ← insert_erase,
    weight_insert_of_notMem notMem_erase_self, hRest, hNew, weight_erase,
    heldAt_eq_weightAt, attributedBytes]
  omega

/-! ## Counters -/

/-- The block that lowers a counter, read as one formula. -/
theorem releasePeer_usage (hex : GoString) (size : Int) (hp : p ≠ [])
    (hNonneg : 0 ≤ s.perPeerUsage p) :
    (s.releasePeer hex size).perPeerUsage p =
      if s.attribution.lookup hex = some p then max 0 (s.perPeerUsage p - size)
      else s.perPeerUsage p := by
  cases hAttr : s.attribution.lookup hex with
  | none => simp [releasePeer, hAttr]
  | some attr =>
    simp only [releasePeer, hAttr, Option.some.injEq]
    by_cases hEq : attr = p
    · subst hEq
      rw [if_neg hp, if_pos rfl]
      by_cases hLeft : s.perPeerUsage attr - size ≤ 0
      · rw [perPeerUsage, if_pos hLeft, lookup_erase, Option.getD_none]
        omega
      · rw [perPeerUsage, if_neg hLeft, lookup_insert, Option.getD_some]
        omega
    · rw [if_neg hEq]
      split
      · rfl
      -- another peer's counter is written, and perhaps forgotten
      by_cases hLeft : s.perPeerUsage attr - size ≤ 0
      · rw [perPeerUsage, if_pos hLeft, lookup_erase_ne (Ne.symm hEq),
          lookup_insert_of_ne _ (Ne.symm hEq), perPeerUsage]
      · rw [perPeerUsage, if_neg hLeft, lookup_insert_of_ne _ (Ne.symm hEq),
          perPeerUsage]

theorem refundOverwritten_usage (hp : p ≠ []) (hNonneg : 0 ≤ s.perPeerUsage p) :
    (s.refundOverwritten hex).perPeerUsage p = max 0 (s.perPeerUsage p - s.heldAt p hex) := by
  cases h : s.data.lookup hex with
  | none =>
    rw [heldAt_of_none h]
    simp only [refundOverwritten, h]
    omega
  | some v =>
    have hRelease := releasePeer_usage (s := { s with total := s.total - v.length })
      hex v.length hp hNonneg
    rw [heldAt_of_lookup h]
    simp only [refundOverwritten, h]
    refine hRelease.trans ?_
    change (if s.attribution.lookup hex = some p then max 0 (s.perPeerUsage p - v.length)
      else s.perPeerUsage p) = _
    split <;> omega

theorem dropEntry_usage (hp : p ≠ []) (hNonneg : 0 ≤ s.perPeerUsage p) :
    (s.dropEntry hex).perPeerUsage p = max 0 (s.perPeerUsage p - s.heldAt p hex) := by
  cases h : s.data.lookup hex with
  | none =>
    rw [dropEntry_of_none h, heldAt_of_none h]
    omega
  | some v =>
    have hRelease := releasePeer_usage
      (s := { s with
        total := s.total - v.length
        data := s.data.erase hex
        access := s.access.erase hex })
      hex v.length hp hNonneg
    rw [heldAt_of_lookup h]
    simp only [dropEntry, h]
    refine hRelease.trans ?_
    change (if s.attribution.lookup hex = some p then max 0 (s.perPeerUsage p - v.length)
      else s.perPeerUsage p) = _
    split <;> omega

theorem install_usage :
    (s.install hex value peerID now).perPeerUsage p =
      s.perPeerUsage p + if p ≠ [] ∧ peerID = p then (value.length : Int) else 0 := by
  unfold install
  by_cases hEq : peerID = p
  · subst hEq
    by_cases hNil : peerID = []
    · simp [hNil, perPeerUsage]
    · simp [hNil, perPeerUsage, lookup_insert]
  · split
    · simp [perPeerUsage, lookup_insert_of_ne _ (Ne.symm hEq), hEq]
    · simp [perPeerUsage, hEq]

/-! ## The middle of a write -/

/-- **The counter in the middle of a write**: what is attributed to the peer
now, less the refund, clamped. This holds after every eviction step, also after
the one that takes the refunded entry itself. -/
theorem evicted_usage (hp : p ≠ []) (hCount : s.perPeerUsage p = s.attributedBytes p) :
    (s.evicted key value order).perPeerUsage p =
      max 0 ((s.evicted key value order).attributedBytes p - s.heldAt p key.hex) := by
  refine evictToFit_induct
    (P := fun t => t.perPeerUsage p = max 0 (t.attributedBytes p - s.heldAt p key.hex)) ?_ ?_
  · have hNonneg : 0 ≤ s.perPeerUsage p := by
      rw [hCount]
      exact s.attributedBytes_nonneg p
    rw [refundOverwritten_usage hp hNonneg, hCount, refundOverwritten_attributedBytes]
  · intro t x _ ht
    have hHeld := t.heldAt_nonneg p x
    rw [dropEntry_usage hp (by rw [ht]; exact le_max_left _ _), ht, dropEntry_attributedBytes]
    omega

/-- The eviction can only lower what a peer holds beside the overwritten
entry. -/
theorem evicted_other_le :
    (s.evicted key value order).attributedBytes p - (s.evicted key value order).heldAt p key.hex ≤
      s.attributedBytes p - s.heldAt p key.hex := by
  refine evictToFit_induct (P := fun t => t.attributedBytes p - t.heldAt p key.hex ≤
    s.attributedBytes p - s.heldAt p key.hex) ?_ ?_
  · rw [refundOverwritten_attributedBytes, refundOverwritten_heldAt]
  · intro t x _ ht
    have hHeld := t.heldAt_nonneg p x
    rw [dropEntry_attributedBytes]
    by_cases hx : key.hex = x
    · rw [← hx, dropEntry_heldAt_self]
      omega
    · rw [dropEntry_heldAt_ne hx]
      omega

/-- As long as an entry is there, so is its attribution. -/
theorem evicted_heldAt_of_mem (hMem : x ∈ (s.evicted key value order).data) :
    (s.evicted key value order).heldAt p x = s.heldAt p x := by
  revert hMem
  refine evictToFit_induct (P := fun t => x ∈ t.data → t.heldAt p x = s.heldAt p x) ?_ ?_
  · exact fun _ => refundOverwritten_heldAt
  · intro t y _ ht hMem
    rw [dropEntry_data, mem_erase] at hMem
    rw [dropEntry_heldAt_ne hMem.1, ht hMem.2]

theorem evicted_heldAt_of_notMem (hMem : x ∉ (s.evicted key value order).data) :
    (s.evicted key value order).heldAt p x = 0 :=
  heldAt_of_none (lookup_eq_none.mpr hMem)

/-- What is left of a peer in the middle of a write. -/
theorem evicted_attributedBytes_pos (hOrder : s.LruOrder order) :
    0 < (s.evicted key value order).attributedBytes p ↔
      ∃ x, 0 < s.heldAt p x ∧ ¬ s.Evicts key value order x := by
  rw [attributedBytes_pos]
  refine exists_congr fun x => ?_
  by_cases hMem : x ∈ (s.evicted key value order).data
  · rw [evicted_heldAt_of_mem hMem, and_iff_left ((mem_evicted_iff hOrder).mp hMem).2]
  · rw [evicted_heldAt_of_notMem hMem]
    refine iff_of_false (lt_irrefl 0) fun ⟨hHeld, hKept⟩ => ?_
    refine hMem ((mem_evicted_iff hOrder).mpr ⟨?_, hKept⟩)
    by_contra hNone
    rw [heldAt_of_none (lookup_eq_none.mpr hNone)] at hHeld
    exact lt_irrefl 0 hHeld

/-- The admission check, in terms of attributed bytes. -/
theorem admits_bound (hp : peerID ≠ []) (hMax : 0 < s.perPeerMax)
    (hCount : s.perPeerUsage peerID = s.attributedBytes peerID)
    (hAdmit : s.admits hex size peerID = true) :
    s.attributedBytes peerID - s.heldAt peerID hex + size ≤ s.perPeerMax := by
  have hHeld := s.heldAt_nonneg peerID hex
  rw [admits, if_pos ⟨hp, hMax⟩, hCount] at hAdmit
  simp only [gt_iff_lt, Bool.not_eq_true', decide_eq_false_iff_not, not_lt] at hAdmit
  split at hAdmit
  · rename_i oldAttr old hAttr hOld
    rw [heldAt, hAttr, lenAt_of_lookup hOld]
    simp only [Option.some.injEq]
    split at hAdmit <;> rename_i h
    · rw [if_pos h]
      exact hAdmit
    · rw [if_neg h]
      omega
  · omega

/-- **The counters after an accepted write.** -/
theorem put_counter_iff (hOrder : s.LruOrder order)
    (hAdmit : s.admits key.hex value.length peerID = true) (hp : p ≠ [])
    (hCount : s.perPeerUsage p = s.attributedBytes p) :
    (s.put order key value peerID now).1.perPeerUsage p =
        (s.put order key value peerID now).1.attributedBytes p ↔
      ¬ (0 < s.heldAt p key.hex ∧ s.Evicts key value order key.hex ∧
        ∃ x, 0 < s.heldAt p x ∧ ¬ s.Evicts key value order x) := by
  rw [← evicted_attributedBytes_pos hOrder]
  have hHeld := s.heldAt_nonneg p key.hex
  have hRest := (s.evicted key value order).attributedBytes_nonneg p
  rw [put_true hAdmit, install_usage, install_attributedBytes hp,
    evicted_usage hp hCount]
  simp only [ne_eq, hp, not_false_eq_true, true_and]
  by_cases hMem : key.hex ∈ (s.evicted key value order).data
  · -- the entry survived: its bytes are still in the sum and leave it now
    have hLe := (s.evicted key value order).heldAt_le_attributedBytes p key.hex
    rw [evicted_heldAt_of_mem hMem] at hLe ⊢
    simp only [((mem_evicted_iff hOrder).mp hMem).2, false_and, and_false, not_false_eq_true,
      iff_true]
    omega
  · rw [evicted_heldAt_of_notMem hMem]
    constructor
    · intro hEq hDrift
      omega
    · intro hNot
      rcases Int.lt_or_le 0 (s.heldAt p key.hex) with h | h
      · have hOld : key.hex ∈ s.data := by
          by_contra hNone
          rw [heldAt_of_none (lookup_eq_none.mpr hNone)] at h
          exact lt_irrefl 0 h
        have hGone : s.Evicts key value order key.hex := by
          by_contra hKept
          exact hMem ((mem_evicted_iff hOrder).mpr ⟨hOld, hKept⟩)
        have : ¬ 0 < (s.evicted key value order).attributedBytes p :=
          fun h' => hNot ⟨h, hGone, h'⟩
        omega
      · omega

/-- What an accepted write leaves attributed to a peer is within the quota. -/
theorem put_bound (hMax : 0 < s.perPeerMax)
    (hAdmit : s.admits key.hex value.length peerID = true) (hp : p ≠ [])
    (hCount : s.perPeerUsage p = s.attributedBytes p)
    (hBound : s.attributedBytes p ≤ s.perPeerMax) :
    (s.put order key value peerID now).1.attributedBytes p ≤ s.perPeerMax := by
  have hOther : (s.evicted key value order).attributedBytes p -
      (s.evicted key value order).heldAt p key.hex ≤
      s.attributedBytes p - s.heldAt p key.hex := evicted_other_le
  have hHeld := s.heldAt_nonneg p key.hex
  rw [put_true hAdmit, install_attributedBytes hp]
  by_cases hEq : peerID = p
  · subst hEq
    have := admits_bound hp hMax hCount hAdmit
    rw [if_pos rfl]
    omega
  · rw [if_neg hEq]
    omega

end LocalStore

/-! ## One operation -/

variable {perPeerMax : Int}

theorem QuotaKept.congr {s t : LocalStore} (h : QuotaKept perPeerMax s)
    (hMax : t.perPeerMax = s.perPeerMax) (hData : t.data = s.data)
    (hAttr : t.attribution = s.attribution) (hPeer : t.perPeer = s.perPeer) :
    QuotaKept perPeerMax t where
  quota := hMax.trans h.quota
  counter := fun p hp => by
    rw [attributedBytes_congr hData hAttr, ← h.counter p hp, perPeerUsage, hPeer, perPeerUsage]
  bound := fun p hp => by
    rw [attributedBytes_congr hData hAttr]
    exact h.bound p hp

theorem QuotaKept.dropEntry {s : LocalStore} (h : QuotaKept perPeerMax s) (hex : GoString) :
    QuotaKept perPeerMax (s.dropEntry hex) where
  quota := by rw [dropEntry_perPeerMax, h.quota]
  counter := fun p hp => by
    have hLe := s.heldAt_le_attributedBytes p hex
    rw [dropEntry_usage hp (by rw [h.counter p hp]; exact s.attributedBytes_nonneg p),
      h.counter p hp, dropEntry_attributedBytes]
    omega
  bound := fun p hp => by
    have hHeld := s.heldAt_nonneg p hex
    have hBound := h.bound p hp
    rw [dropEntry_attributedBytes]
    omega

/-- **One operation.** Under a quota, the counters and the quota are kept
exactly when the operation is not a drifting write. -/
theorem quota_step_iff (hMax : 0 < perPeerMax) {s t : LocalStore} {op : StoreOp}
    (hKept : QuotaKept perPeerMax s) (hStep : storeStep s op t) :
    QuotaKept perPeerMax t ↔ ¬ QuotaDrift s op := by
  obtain ⟨hValid, rfl⟩ := hStep
  cases op with
  | put key value peerID now order =>
    simp only [StoreOp.apply, QuotaDrift]
    cases hAdmit : s.admits key.hex value.length peerID with
    | false => simpa [put_false hAdmit] using hKept
    | true =>
      simp only [true_and, not_exists]
      constructor
      · rintro h p ⟨hp, hDrift⟩
        exact (put_counter_iff hValid hAdmit hp (hKept.counter p hp)).mp (h.counter p hp) hDrift
      · intro hNot
        refine ⟨?_, fun p hp => ?_, fun p hp => ?_⟩
        · rw [put_true hAdmit]
          simp [hKept.quota]
        · exact (put_counter_iff hValid hAdmit hp (hKept.counter p hp)).mpr fun h => hNot p ⟨hp, h⟩
        · rw [← hKept.quota]
          exact put_bound (by rw [hKept.quota]; exact hMax) hAdmit hp (hKept.counter p hp)
            (by rw [hKept.quota]; exact hKept.bound p hp)
  | get key now =>
    simp only [StoreOp.apply, LocalStore.get, QuotaDrift, not_false_eq_true, iff_true]
    split
    · exact hKept
    · exact hKept.congr rfl rfl rfl rfl
  | delete key =>
    simp only [StoreOp.apply, LocalStore.delete, QuotaDrift, not_false_eq_true, iff_true]
    exact hKept.dropEntry key.hex

/-! ## Whole runs -/

theorem quotaKept_new (maxBytes : Int) (hMax : 0 < perPeerMax) :
    QuotaKept perPeerMax (LocalStore.new maxBytes perPeerMax) where
  quota := rfl
  counter := fun _ _ => rfl
  bound := fun _ _ => le_of_lt hMax

theorem storeStep_unique (s : LocalStore) (op : StoreOp) (t t' : LocalStore)
    (h : storeStep s op t) (h' : storeStep s op t') : t = t' :=
  h.2.trans h'.2.symm

/-- **Per-peer quota over whole runs.** From an empty store, every peer's
counter equals the bytes attributed to it and stays within the quota after
every operation, if and only if no write of the run drifts; and a refused
write never changes the store. -/
theorem store_quota_iff (maxBytes : Int) {perPeerMax : Int} (hMax : 0 < perPeerMax)
    {ops : List StoreOp} {s : LocalStore}
    (hRun : Exec storeStep (LocalStore.new maxBytes perPeerMax) ops s) :
    (Throughout storeStep (LocalStore.new maxBytes perPeerMax) ops (QuotaKept perPeerMax) ↔
      EachStep storeStep (LocalStore.new maxBytes perPeerMax) ops
        fun t op => ¬ QuotaDrift t op) ∧
    ∀ order (t : LocalStore) key value peerID now,
      (t.put order key value peerID now).2 = false →
        (t.put order key value peerID now).1 = t := by
  refine ⟨throughout_iff_eachStep hRun (quotaKept_new maxBytes hMax) storeStep_unique
    fun _ _ _ hKept hStep => quota_step_iff hMax hKept hStep, ?_⟩
  intro order t key value peerID now hFalse
  cases hAdmit : t.admits key.hex value.length peerID with
  | false => rw [put_false hAdmit]
  | true => simp [put_true hAdmit] at hFalse

/-- A peer with a quota of 20 stores five bytes under each of three keys and
writes the oldest again with ten; the budget of 19 makes the eviction take the
entry being overwritten. Four more bytes then pass the quota. -/
def quotaRun : List StoreOp :=
  [.put (fill 1) (List.replicate 5 0) ['p'] 1 [],
   .put (fill 2) (List.replicate 5 0) ['p'] 2 [(fill 1).hex],
   .put (fill 3) (List.replicate 5 0) ['p'] 3 [(fill 1).hex, (fill 2).hex],
   .put (fill 1) (List.replicate 10 0) ['p'] 4
     [(fill 1).hex, (fill 2).hex, (fill 3).hex],
   .put (fill 4) (List.replicate 4 0) ['p'] 5
     [(fill 2).hex, (fill 3).hex, (fill 1).hex]]

/-- The quota is not kept in every run: here a peer limited to 20 bytes has
24 attributed to it, and its counter reads 19. -/
theorem store_quota_fails :
    ∃ s, Exec storeStep (LocalStore.new 19 20) quotaRun s ∧
      s.perPeerUsage ['p'] = 19 ∧ s.attributedBytes ['p'] = 24 ∧ ¬ QuotaKept 20 s := by
  refine ⟨_, .cons ⟨?_, rfl⟩ (.cons ⟨?_, rfl⟩ (.cons ⟨?_, rfl⟩ (.cons ⟨?_, rfl⟩
    (.cons ⟨?_, rfl⟩ (.nil _))))), ?_, ?_, fun h => ?_⟩
  case refine_8 => exact absurd (h.bound ['p'] (by decide)) (by decide +kernel)
  all_goals decide +kernel

/-- The quota theorem on the first three of these writes. -/
theorem store_quota_three_writes :
    (Throughout storeStep (LocalStore.new 19 20) (quotaRun.take 3) (QuotaKept 20) ↔
      EachStep storeStep (LocalStore.new 19 20) (quotaRun.take 3)
        fun t op => ¬ QuotaDrift t op) ∧
    ∀ order (t : LocalStore) key value peerID now,
      (t.put order key value peerID now).2 = false →
        (t.put order key value peerID now).1 = t := by
  refine store_quota_iff 19 (by decide) (s := _) (.cons ⟨?_, rfl⟩ (.cons ⟨?_, rfl⟩
    (.cons ⟨?_, rfl⟩ (.nil _))))
  all_goals decide +kernel

end AltNet
