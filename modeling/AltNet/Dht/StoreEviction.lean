import AltNet.Dht.StoreAccounting
import AltNet.Dht.StoreQuota

/-!
# AltNet — what an eviction takes (`core/dht/store.go`)

A write under a byte budget evicts the entries that have not been accessed for
longest. With counters that are right before it, the eviction is exact: it takes
a prefix of the order of last access, as short as the budget allows, and leaves
the rest of the store and of the book-keeping as it was. The order of map
iteration and of entries with equal times is whatever it is; the result is
about every one of them.

Main results:

* `evictLoop_eq_dropAll` — the loop drops the entries of `evictions`, one after
  the other;
* `evictions_getLast` — without the last of them it would not have been enough;
* `eviction_exact` — what a write of a new key does to the old entries.
-/

namespace AltNet

open List Finmap

open NodeID (fill)

namespace LocalStore

/-- The entries that the loop of `evictUntilUnder` drops, in its order. -/
def evictions (cap : Int) : List GoString → LocalStore → List GoString
  | [], _ => []
  | hex :: rest, s => if s.total ≤ cap then [] else hex :: evictions cap rest (s.dropEntry hex)

/-- Drop entries one after the other. -/
def dropAll (s : LocalStore) (keys : List GoString) : LocalStore := keys.foldl dropEntry s

variable {s : LocalStore} {cap : Int} {order keys : List GoString} {hex x p : GoString}

/-! ## The loop -/

theorem evictLoop_eq_dropAll (cap : Int) (order : List GoString) (s : LocalStore) :
    evictLoop cap order s = s.dropAll (evictions cap order s) := by
  induction order generalizing s with
  | nil => rfl
  | cons hex rest ih =>
    rw [evictLoop, evictions]
    split
    · rfl
    · rw [ih, dropAll, dropAll, foldl_cons]

theorem evictions_isPrefix (cap : Int) (order : List GoString) (s : LocalStore) :
    evictions cap order s <+: order := by
  induction order generalizing s with
  | nil => exact prefix_rfl
  | cons hex rest ih =>
    rw [evictions]
    split
    · exact nil_prefix
    · exact (prefix_cons_inj hex).mpr (ih _)

theorem evictions_of_le (h : s.total ≤ cap) : evictions cap order s = [] := by
  cases order with
  | nil => rfl
  | cons hex rest => rw [evictions, if_pos h]

/-! ## Dropping entries -/

theorem dropEntry_access_ne (h : x ≠ hex) :
    (s.dropEntry hex).access.lookup x = s.access.lookup x := by
  by_cases hMem : hex ∈ s.data
  · rw [dropEntry_access hMem, lookup_erase_ne h]
  · rw [dropEntry_of_none (lookup_eq_none.mpr hMem)]

/-- What becomes of an entry that is not dropped. -/
theorem dropAll_kept (h : x ∉ keys) : (s.dropAll keys).data.lookup x = s.data.lookup x ∧
    (s.dropAll keys).access.lookup x = s.access.lookup x ∧
    (s.dropAll keys).attribution.lookup x = s.attribution.lookup x := by
  induction keys generalizing s with
  | nil => exact ⟨rfl, rfl, rfl⟩
  | cons hex rest ih =>
    obtain ⟨hNe, hRest⟩ := ne_and_not_mem_of_not_mem_cons h
    obtain ⟨hData, hAccess, hAttr⟩ := ih (s := s.dropEntry hex) hRest
    refine ⟨hData.trans (dropEntry_lookup_ne hNe), hAccess.trans (dropEntry_access_ne hNe),
      hAttr.trans (dropEntry_attribution_ne hNe)⟩

theorem dropAll_gone (h : x ∈ keys) : (s.dropAll keys).data.lookup x = none := by
  induction keys generalizing s with
  | nil => cases h
  | cons hex rest ih =>
    by_cases hRest : x ∈ rest
    · exact ih hRest
    · obtain rfl : x = hex := (mem_cons.mp h).resolve_right hRest
      exact (dropAll_kept hRest).1.trans dropEntry_lookup_self

theorem dropAll_drift (s : LocalStore) (keys : List GoString) :
    (s.dropAll keys).drift = s.drift := by
  induction keys generalizing s with
  | nil => rfl
  | cons hex rest ih => exact (ih (s.dropEntry hex)).trans (dropEntry_drift s hex)

/-- A counter that is right goes down by exactly the dropped entries of its
peer. -/
theorem dropAll_usage (hp : p ≠ []) (hCount : s.perPeerUsage p = s.attributedBytes p)
    (hNodup : keys.Nodup) :
    (s.dropAll keys).perPeerUsage p = s.perPeerUsage p - (keys.map (s.heldAt p)).sum := by
  induction keys generalizing s with
  | nil => simp [dropAll]
  | cons hex rest ih =>
    obtain ⟨hNot, hRest⟩ := nodup_cons.mp hNodup
    have hSame : rest.map ((s.dropEntry hex).heldAt p) = rest.map (s.heldAt p) :=
      map_congr_left fun y hy => dropEntry_heldAt_ne fun hEq => hNot (hEq ▸ hy)
    have hUsage : (s.dropEntry hex).perPeerUsage p = s.perPeerUsage p - s.heldAt p hex := by
      -- What is dropped is part of what is counted, so the counter is not clamped.
      have hPart := s.heldAt_le_attributedBytes p hex
      have hNonneg := s.attributedBytes_nonneg p
      rw [dropEntry_usage hp (by omega)]
      omega
    have hTail := ih (s := s.dropEntry hex)
      (by rw [hUsage, dropEntry_attributedBytes, hCount]) hRest
    rw [hSame, hUsage] at hTail
    rw [dropAll, foldl_cons, ← dropAll, hTail, map_cons, sum_cons]
    omega

/-- **The eviction is as short as it can be**: before its last step the total was
above the cap. -/
theorem evictions_getLast (hNodup : order.Nodup) {last : GoString}
    (hLast : last ∈ (evictions cap order s).getLast?) :
    cap < (s.dropAll (evictions cap order s)).total + s.lenAt last := by
  induction order generalizing s with
  | nil => cases hLast
  | cons hex rest ih =>
    obtain ⟨hNot, hRest⟩ := nodup_cons.mp hNodup
    rw [evictions] at hLast ⊢
    by_cases hFits : s.total ≤ cap
    · rw [if_pos hFits] at hLast
      cases hLast
    rw [if_neg hFits] at hLast ⊢
    rw [dropAll, foldl_cons, ← dropAll]
    cases hTail : evictions cap rest (s.dropEntry hex) with
    | nil =>
      rw [hTail] at hLast
      obtain rfl : hex = last := Option.some.inj hLast
      have hDropped : ((s.dropEntry hex).dropAll []).total = s.total - s.lenAt hex :=
        dropEntry_total
      omega
    | cons y ys =>
      rw [hTail, getLast?_cons_cons] at hLast
      have hStep := ih (s := s.dropEntry hex) hRest (by rw [hTail]; exact hLast)
      have hMem : last ∈ rest := by
        apply (evictions_isPrefix cap rest (s.dropEntry hex)).subset
        rw [hTail]
        exact mem_of_getLast? hLast
      have hNe : last ≠ hex := fun hEq => hNot (hEq ▸ hMem)
      rwa [hTail, dropEntry_lenAt_ne hNe] at hStep

/-! ## A write -/

/-- The entries that a write of `size` bytes removes, in the order in which it
removes them. -/
def removals (s : LocalStore) (order : List GoString) (size : Int) : List GoString :=
  evictions (s.evictTarget size) order s

theorem evictTarget_eq (s : LocalStore) (needed : Int) :
    s.evictTarget needed = max 0 (s.maxBytes - needed) := by
  simp only [evictTarget]
  split
  · omega
  · omega

theorem removals_nodup (hOrder : s.LruOrder order) (size : Int) :
    (s.removals order size).Nodup :=
  (evictions_isPrefix _ order s).sublist.nodup hOrder.nodup

/-- No entry that is removed was accessed after one that is not. -/
theorem removals_oldest (hOrder : s.LruOrder order) {size : Int} {y : GoString}
    (hx : x ∈ s.removals order size) (hy : y ∈ s.data) (hStays : y ∉ s.removals order size) :
    s.lastAccess x ≤ s.lastAccess y := by
  obtain ⟨rest, hRest⟩ := evictions_isPrefix (s.evictTarget size) order s
  have hSorted := hOrder.sorted
  have hMem := (hOrder.mem y).mpr hy
  rw [← hRest] at hSorted hMem
  exact (pairwise_append.mp hSorted).2.2 x hx y ((mem_append.mp hMem).resolve_left hStays)

section Write

variable {key : NodeID} {value : Bytes} {peerID : GoString} {now : Time}

/-- The middle of a write of a new key. -/
theorem evicted_eq_dropAll (hMax : 0 < s.maxBytes) (hAbsent : s.data.lookup key.hex = none) :
    s.evicted key value order = s.dropAll (s.removals order value.length) := by
  have hRefund : s.refundOverwritten key.hex = s := by rw [refundOverwritten, hAbsent]
  rw [evicted, hRefund, evictToFit_eq hMax, evictLoop_eq_dropAll, removals]

/-- An accepted write of a new key: the removals, then the new entry. -/
theorem put_eq_dropAll {s' : LocalStore} (hMax : 0 < s.maxBytes)
    (hAbsent : s.data.lookup key.hex = none)
    (hPut : s.put order key value peerID now = (s', true)) :
    s' = (s.dropAll (s.removals order value.length)).install key.hex value peerID now := by
  cases hAdmit : s.admits key.hex value.length peerID with
  | false =>
    rw [put_false hAdmit] at hPut
    cases congrArg Prod.snd hPut
  | true =>
    rw [put_true hAdmit, evicted_eq_dropAll hMax hAbsent] at hPut
    exact (congrArg Prod.fst hPut).symm

/-- The bytes of the old entries that stay. -/
theorem storedBytes_dropAll_install (hTotal : s.total = s.storedBytes)
    (hAbsent : s.data.lookup key.hex = none) (keys : List GoString) :
    ((s.dropAll keys).install key.hex value peerID now).storedBytes - value.length =
      (s.dropAll keys).total := by
  have hDrift := dropAll_drift s keys
  have hNew : (s.dropAll keys).lenAt key.hex = 0 := by
    apply lenAt_of_none
    by_cases hMem : key.hex ∈ keys
    · exact dropAll_gone hMem
    · rw [(dropAll_kept hMem).1, hAbsent]
  rw [install_storedBytes, hNew]
  simp only [drift] at hDrift
  omega

/-- When the loop ends, the total is down to the target. -/
theorem dropAll_total_le (hTotal : s.total = s.storedBytes) (hMax : 0 < s.maxBytes)
    (hOrder : s.LruOrder order) (hAbsent : s.data.lookup key.hex = none) :
    (s.dropAll (s.removals order value.length)).total ≤ s.evictTarget value.length := by
  have hDone : (s.evicted key value order).total ≤ s.evictTarget value.length ∨
      (s.evicted key value order).storedBytes = 0 := evicted_total hOrder hMax
  rw [evicted_eq_dropAll hMax hAbsent] at hDone
  rcases hDone with hLe | hEmpty
  · exact hLe
  have hDrift := dropAll_drift s (s.removals order value.length)
  have hTarget := s.evictTarget_nonneg value.length
  simp only [drift] at hDrift
  omega

end Write

end LocalStore

open LocalStore

/-- **The eviction is exact.** Take a store whose counters are right, a byte budget
and an accepted write of a key that is not there. None of the entries it removes
was accessed after one that stays, nothing is removed when the value fits, what
stays of the old entries is at most the room beside the value, and the last one
removed had to go. What stays keeps its value, its access time and its peer; the
new value can be read; and the counter of each peer goes down by its removed
entries and up by the new value. -/
theorem eviction_exact (s s' : LocalStore) (order : List GoString) (key : NodeID) (value : Bytes)
    (peerID : GoString) (now : Time) (hTotal : s.total = s.storedBytes)
    (hPeers : ∀ p, p ≠ [] → s.perPeerUsage p = s.attributedBytes p) (hMax : 0 < s.maxBytes)
    (hOrder : s.LruOrder order) (hAbsent : key.hex ∉ s.data)
    (hPut : s.put order key value peerID now = (s', true)) :
    (∀ x, x ∈ s.removals order value.length ↔ x ∈ s.data ∧ x ∉ s'.data) ∧
    (∀ x ∈ s.removals order value.length, ∀ y, y ∈ s.data → y ∈ s'.data →
      s.lastAccess x ≤ s.lastAccess y) ∧
    (s.total + value.length ≤ s.maxBytes → s.removals order value.length = []) ∧
    s'.storedBytes - value.length ≤ max 0 (s.maxBytes - value.length) ∧
    (∀ last ∈ (s.removals order value.length).getLast?,
      max 0 (s.maxBytes - value.length) < s'.storedBytes - value.length + s.lenAt last) ∧
    (∀ y, y ∈ s.data → y ∈ s'.data → s'.data.lookup y = s.data.lookup y ∧
      s'.access.lookup y = s.access.lookup y ∧ s'.attribution.lookup y = s.attribution.lookup y) ∧
    (∀ later, (s'.get key later).2 = some value) ∧
    ∀ p, p ≠ [] → s'.perPeerUsage p = s.perPeerUsage p -
      ((s.removals order value.length).map (s.heldAt p)).sum +
      if peerID = p then (value.length : Int) else 0 := by
  have hNone : s.data.lookup key.hex = none := lookup_eq_none.mpr hAbsent
  have hNodup := removals_nodup hOrder value.length
  have hOld : ∀ x, x ∈ s.data → x ≠ key.hex := fun x hx hEq => hAbsent (hEq ▸ hx)
  have hRemovals : ∀ x ∈ s.removals order value.length, x ∈ s.data := fun x hx =>
    (hOrder.mem x).mp ((evictions_isPrefix _ order s).subset hx)
  obtain rfl := put_eq_dropAll hMax hNone hPut
  -- An old entry is there after the write exactly when it is not removed.
  have hStays : ∀ x, x ∈ s.data → (x ∈ ((s.dropAll (s.removals order value.length)).install
      key.hex value peerID now).data ↔ x ∉ s.removals order value.length) := by
    intro x hx
    rw [install_data, mem_insert, or_iff_right (hOld x hx)]
    constructor
    · exact fun hMem hGone => lookup_eq_none.mp (dropAll_gone hGone) hMem
    · intro hKept
      obtain ⟨v, hv⟩ := mem_iff.mp hx
      exact mem_of_lookup_eq_some ((dropAll_kept hKept).1.trans hv)
  have hBytes : ((s.dropAll (s.removals order value.length)).install
      key.hex value peerID now).storedBytes - value.length =
      (s.dropAll (s.removals order value.length)).total :=
    storedBytes_dropAll_install hTotal hNone _
  refine ⟨?_, ?_, ?_, ?_, ?_, ?_, ?_, ?_⟩
  · intro x
    constructor
    · intro hx
      exact ⟨hRemovals x hx, fun hMem => (hStays x (hRemovals x hx)).mp hMem hx⟩
    · rintro ⟨hx, hGone⟩
      by_contra hKept
      exact hGone ((hStays x hx).mpr hKept)
  · intro x hx y hy hKept
    exact removals_oldest hOrder hx hy ((hStays y hy).mp hKept)
  · intro hFits
    apply evictions_of_le
    rw [evictTarget_eq]
    omega
  · rw [hBytes, ← evictTarget_eq]
    exact dropAll_total_le hTotal hMax hOrder hNone
  · intro last hLast
    rw [hBytes, ← evictTarget_eq]
    exact evictions_getLast hOrder.nodup hLast
  · intro y hy hKept
    obtain ⟨hData, hAccess, hAttr⟩ := dropAll_kept ((hStays y hy).mp hKept) (s := s)
    rw [install_data, install_access, install_attribution_ne (hOld y hy),
      lookup_insert_of_ne _ (hOld y hy), lookup_insert_of_ne _ (hOld y hy)]
    exact ⟨hData, hAccess, hAttr⟩
  · intro later
    rw [get_snd, install_data, lookup_insert]
  · intro p hp
    rw [install_usage, dropAll_usage hp (hPeers p hp) hNodup]
    simp [hp]

/-- A store of two entries, the first of them for a peer, and a budget of three
bytes. -/
def agedStore : LocalStore where
  data := ((∅ : GoMap GoString Bytes).insert (fill 1).hex [1]).insert
    (fill 2).hex [2]
  access := ((∅ : GoMap GoString Time).insert (fill 1).hex 5).insert
    (fill 2).hex 6
  total := 2
  maxBytes := 3
  attribution := (∅ : GoMap GoString GoString).insert (fill 1).hex "peer".toList
  perPeer := (∅ : GoMap GoString Int).insert "peer".toList 1
  perPeerMax := 0

theorem agedStore_counted (p : GoString) :
    agedStore.perPeerUsage p = agedStore.attributedBytes p := by
  by_cases hPeer : p = "peer".toList
  · rw [hPeer]
    decide +kernel
  have hUsage : agedStore.perPeerUsage p = 0 := by
    rw [perPeerUsage, agedStore, lookup_insert_of_ne _ hPeer]
    rfl
  have hHeld : ∀ k v, agedStore.data.lookup k = some v → agedStore.heldLen p k v = 0 := by
    intro k v _
    rw [heldLen, if_neg]
    intro hAttr
    obtain ⟨-, hEq⟩ | ⟨-, hEmpty⟩ := GoMap.lookup_insert_cases hAttr
    · exact hPeer hEq
    · cases hEmpty
  rw [hUsage, attributedBytes, GoMap.weight_congr hHeld]
  decide +kernel

/-- A value of two bytes evicts the older entry, and the counter of its peer goes
down to zero. -/
theorem eviction_exact_oldest :
    ((agedStore.put [(fill 1).hex, (fill 2).hex] (fill 3) [7, 7] [] 9).1
      ).perPeerUsage "peer".toList = agedStore.perPeerUsage "peer".toList -
        ((agedStore.removals [(fill 1).hex, (fill 2).hex] 2).map
          (agedStore.heldAt "peer".toList)).sum + 0 ∧
    agedStore.removals [(fill 1).hex, (fill 2).hex] 2 = [(fill 1).hex] :=
  ⟨(eviction_exact agedStore _ [(fill 1).hex, (fill 2).hex] (fill 3) [7, 7] []
      9 (by decide +kernel) (fun p _ => agedStore_counted p) (by decide)
      (by decide +kernel)
      (by decide +kernel) rfl).2.2.2.2.2.2.2 "peer".toList (by decide),
    by decide +kernel⟩

end AltNet
