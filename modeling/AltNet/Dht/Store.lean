import AltNet.Lib.GoMap
import AltNet.Lib.Trace
import AltNet.Dht.Id

/-!
# AltNet — the local store (`core/dht/store.go`)

A node keeps values in a map from the text of the key to the bytes, next to
three pieces of book-keeping: when each entry was last accessed, how many
bytes are stored in total, and which remote peer asked for an entry to be
stored, with the bytes held for each such peer. A write that would exceed the
byte budget first evicts the entries that have not been accessed for longest.

The functions follow the source's lock-held sections. Two places are
nondeterministic in Go: the iteration order of a map and the order in which
`sort.Slice` leaves entries of equal time. Both end in the order in which
`evictUntilUnder` visits the entries, so that order is an argument here, and
`LruOrder` says which orders the code can produce.

The files that mirror the map on disk do not feed back into these functions
and are left out of this module.

Main results, one per function (the callers below never unfold them):

* `dropEntry_total`, `dropEntry_data`, … — what removing one entry does;
* `evictLoop_lookup` — which entries the eviction loop removes, in closed
  form: those the scan reaches before the total has come down;
* `put_false` / `put_true` — a refused write changes nothing, an accepted one
  is refund, eviction and installation in this order.
-/

namespace AltNet

open List Finmap

/-- `time.Time`; zero is Go's zero time, before every clock reading. -/
abbrev Time := Nat

/-- `localStore`, without its lock and its directory. -/
structure LocalStore where
  data : GoMap GoString Bytes
  access : GoMap GoString Time
  total : Int
  maxBytes : Int
  attribution : GoMap GoString GoString
  perPeer : GoMap GoString Int
  perPeerMax : Int
  deriving DecidableEq

/-- The length of a value, as the weight of an entry. -/
def byteLen (_ : GoString) (v : Bytes) : Int := v.length

namespace LocalStore

/-- `newLocalStoreWithLimit("", maxBytes)` followed by `SetPerPeerMax`. -/
def new (maxBytes perPeerMax : Int) : LocalStore where
  data := ∅
  access := ∅
  total := 0
  maxBytes := maxBytes
  attribution := ∅
  perPeer := ∅
  perPeerMax := perPeerMax

/-- `PerPeerUsage`: a missing counter reads as zero. -/
def perPeerUsage (s : LocalStore) (peerID : GoString) : Int :=
  (s.perPeer.lookup peerID).getD 0

/-- The time `evictUntilUnder` reads for an entry. -/
def lastAccess (s : LocalStore) (hex : GoString) : Time := (s.access.lookup hex).getD 0

/-- The bytes stored under `hex`, zero when there are none. -/
def lenAt (s : LocalStore) (hex : GoString) : Int := GoMap.weightAt byteLen s.data hex

/-- The number of bytes really held. -/
def storedBytes (s : LocalStore) : Int := GoMap.weight byteLen s.data

/-- Take `size` bytes off the counter of the peer an entry is attributed to,
and forget the counter when it reaches zero. The source has this block three
times: in `put`, in `Delete` and in `evictUntilUnder`. -/
def releasePeer (s : LocalStore) (hex : GoString) (size : Int) : LocalStore :=
  match s.attribution.lookup hex with
  | none => s
  | some attr =>
    if attr = [] then s
    else
      let left := s.perPeerUsage attr - size
      let perPeer := s.perPeer.insert attr left
      { s with perPeer := if left ≤ 0 then perPeer.erase attr else perPeer }

/-- Remove one entry with its book-keeping: the body of the loop of
`evictUntilUnder`, and all of `Delete`. -/
def dropEntry (s : LocalStore) (hex : GoString) : LocalStore :=
  match s.data.lookup hex with
  | none => s
  | some v =>
    let size : Int := v.length
    let s := { s with
      total := s.total - size
      data := s.data.erase hex
      access := s.access.erase hex }
    let s := s.releasePeer hex size
    { s with attribution := s.attribution.erase hex }

/-- The loop of `evictUntilUnder` over the sorted entries. -/
def evictLoop (cap : Int) : List GoString → LocalStore → LocalStore
  | [], s => s
  | hex :: rest, s => if s.total ≤ cap then s else evictLoop cap rest (s.dropEntry hex)

/-- `evictUntilUnder`, visiting the entries in the given order. -/
def evictUntilUnder (order : List GoString) (cap : Int) (s : LocalStore) : LocalStore :=
  if cap ≤ 0 ∧ s.maxBytes ≤ 0 then s
  else if s.total ≤ cap then s
  else evictLoop cap order s

/-- The room `evictToFit` makes: what the budget leaves beside a value of
`needed` bytes, and nothing when the value alone exceeds the budget. -/
def evictTarget (s : LocalStore) (needed : Int) : Int :=
  let target := s.maxBytes - needed
  if target < 0 then 0 else target

/-- `evictToFit`. -/
def evictToFit (order : List GoString) (needed : Int) (s : LocalStore) : LocalStore :=
  if s.maxBytes ≤ 0 then s else evictUntilUnder order (s.evictTarget needed) s

/-- The admission check of `put`: a peer may have at most `perPeerMax` bytes
attributed to it, not counting the entry it is about to overwrite. -/
def admits (s : LocalStore) (hex : GoString) (size : Int) (peerID : GoString) : Bool :=
  if peerID ≠ [] ∧ 0 < s.perPeerMax then
    let current := s.perPeerUsage peerID
    let current := match s.attribution.lookup hex, s.data.lookup hex with
      | some oldAttr, some old => if oldAttr = peerID then current - old.length else current
      | _, _ => current
    !decide (current + size > s.perPeerMax)
  else true

/-- The refund of `put` for the entry it overwrites. -/
def refundOverwritten (s : LocalStore) (hex : GoString) : LocalStore :=
  match s.data.lookup hex with
  | none => s
  | some old => { s with total := s.total - old.length }.releasePeer hex old.length

/-- The last section of `put`: write the entry and count it. -/
def install (s : LocalStore) (hex : GoString) (value : Bytes) (peerID : GoString)
    (now : Time) : LocalStore :=
  let s := { s with
    data := s.data.insert hex value
    access := s.access.insert hex now
    total := s.total + value.length }
  if peerID ≠ [] then
    { s with
      attribution := s.attribution.insert hex peerID
      perPeer := s.perPeer.insert peerID (s.perPeerUsage peerID + value.length) }
  else { s with attribution := s.attribution.erase hex }

/-- `put`; `Put` is the case of an empty `peerID`, `PutAttributed` the general
one. The result says whether the value was accepted. -/
def put (order : List GoString) (s : LocalStore) (key : NodeID) (value : Bytes)
    (peerID : GoString) (now : Time) : LocalStore × Bool :=
  let hex := key.hex
  let size : Int := value.length
  if s.admits hex size peerID then
    let s := s.refundOverwritten hex
    let s := s.evictToFit order size
    (s.install hex value peerID now, true)
  else (s, false)

/-- `Delete`. -/
def delete (s : LocalStore) (key : NodeID) : LocalStore := s.dropEntry key.hex

/-- `Get`: a hit refreshes the entry's access time. -/
def get (s : LocalStore) (key : NodeID) (now : Time) : LocalStore × Option Bytes :=
  match s.data.lookup key.hex with
  | none => (s, none)
  | some v => ({ s with access := s.access.insert key.hex now }, some v)

/-- The orders in which `evictUntilUnder` may visit the entries: every key
once, by nondecreasing access time. -/
structure LruOrder (s : LocalStore) (order : List GoString) : Prop where
  nodup : order.Nodup
  mem : ∀ hex, hex ∈ order ↔ hex ∈ s.data
  sorted : order.Pairwise fun a b => s.lastAccess a ≤ s.lastAccess b

/-- One such order: ties broken by key. -/
def lruOrder (s : LocalStore) : List GoString :=
  (sortedStrings s.data.keys).insertionSort fun a b => s.lastAccess a ≤ s.lastAccess b

end LocalStore

/-! ## Runs of store operations -/

/-- The operations of the store, each with the clock reading it makes and, for
a write, the order in which its eviction would visit the entries. -/
inductive StoreOp where
  | put (key : NodeID) (value : Bytes) (peerID : GoString) (now : Time)
      (order : List GoString)
  | get (key : NodeID) (now : Time)
  | delete (key : NodeID)
  deriving DecidableEq

namespace StoreOp

/-- The store after the operation. -/
def apply (s : LocalStore) : StoreOp → LocalStore
  | .put key value peerID now order => (s.put order key value peerID now).1
  | .get key now => (s.get key now).1
  | .delete key => s.delete key

/-- The order a write brings is one the code can produce in this state. -/
def Valid (s : LocalStore) : StoreOp → Prop
  | .put _ _ _ _ order => s.LruOrder order
  | .get _ _ => True
  | .delete _ => True

end StoreOp

/-- One operation on the store. -/
def storeStep (s : LocalStore) (op : StoreOp) (t : LocalStore) : Prop :=
  op.Valid s ∧ t = op.apply s

namespace LocalStore

variable {s : LocalStore} {hex x : GoString} {size : Int}

/-! ## Reading one entry -/

theorem byteLen_nonneg (k : GoString) (v : Bytes) : 0 ≤ byteLen k v := by
  simp [byteLen]

theorem lenAt_nonneg (s : LocalStore) (hex : GoString) : 0 ≤ s.lenAt hex :=
  GoMap.weightAt_nonneg byteLen_nonneg s.data hex

theorem lenAt_of_lookup {v : Bytes} (h : s.data.lookup hex = some v) :
    s.lenAt hex = v.length :=
  GoMap.weightAt_of_lookup h

theorem lenAt_of_none (h : s.data.lookup hex = none) : s.lenAt hex = 0 :=
  GoMap.weightAt_of_none h

/-! ## `releasePeer` -/

@[simp] theorem releasePeer_data : (s.releasePeer hex size).data = s.data := by
  unfold releasePeer
  repeat' split
  all_goals rfl

@[simp] theorem releasePeer_access : (s.releasePeer hex size).access = s.access := by
  unfold releasePeer
  repeat' split
  all_goals rfl

@[simp] theorem releasePeer_total : (s.releasePeer hex size).total = s.total := by
  unfold releasePeer
  repeat' split
  all_goals rfl

@[simp] theorem releasePeer_attribution :
    (s.releasePeer hex size).attribution = s.attribution := by
  unfold releasePeer
  repeat' split
  all_goals rfl

@[simp] theorem releasePeer_maxBytes : (s.releasePeer hex size).maxBytes = s.maxBytes := by
  unfold releasePeer
  repeat' split
  all_goals rfl

@[simp] theorem releasePeer_perPeerMax :
    (s.releasePeer hex size).perPeerMax = s.perPeerMax := by
  unfold releasePeer
  repeat' split
  all_goals rfl

/-! ## `dropEntry` -/

/-- Dropping an entry that is not there changes nothing. -/
theorem dropEntry_of_none (h : s.data.lookup hex = none) : s.dropEntry hex = s := by
  rw [dropEntry, h]

@[simp] theorem dropEntry_data : (s.dropEntry hex).data = s.data.erase hex := by
  cases h : s.data.lookup hex with
  | none => rw [dropEntry_of_none h, GoMap.erase_of_notMem (lookup_eq_none.mp h)]
  | some v => simp [dropEntry, h]

@[simp] theorem dropEntry_total : (s.dropEntry hex).total = s.total - s.lenAt hex := by
  cases h : s.data.lookup hex with
  | none => rw [dropEntry_of_none h, lenAt_of_none h, sub_zero]
  | some v => simp [dropEntry, h, lenAt_of_lookup h]

@[simp] theorem dropEntry_maxBytes : (s.dropEntry hex).maxBytes = s.maxBytes := by
  cases h : s.data.lookup hex <;> simp [dropEntry, h]

@[simp] theorem dropEntry_perPeerMax : (s.dropEntry hex).perPeerMax = s.perPeerMax := by
  cases h : s.data.lookup hex <;> simp [dropEntry, h]

theorem dropEntry_access (h : hex ∈ s.data) :
    (s.dropEntry hex).access = s.access.erase hex := by
  obtain ⟨v, hv⟩ := mem_iff.mp h
  simp [dropEntry, hv]

theorem dropEntry_attribution (h : hex ∈ s.data) :
    (s.dropEntry hex).attribution = s.attribution.erase hex := by
  obtain ⟨v, hv⟩ := mem_iff.mp h
  simp [dropEntry, hv]

theorem dropEntry_lenAt_ne (h : x ≠ hex) : (s.dropEntry hex).lenAt x = s.lenAt x := by
  rw [lenAt, dropEntry_data, GoMap.weightAt_erase_ne h, lenAt]

theorem dropEntry_lookup_ne (h : x ≠ hex) :
    (s.dropEntry hex).data.lookup x = s.data.lookup x := by
  rw [dropEntry_data, lookup_erase_ne h]

theorem dropEntry_lookup_self : (s.dropEntry hex).data.lookup hex = none := by
  rw [dropEntry_data, lookup_erase]

@[simp] theorem dropEntry_storedBytes :
    (s.dropEntry hex).storedBytes = s.storedBytes - s.lenAt hex := by
  rw [storedBytes, dropEntry_data, GoMap.weight_erase, storedBytes, lenAt]

/-! ## `evictLoop` -/

/-- The bytes the scan has removed when it comes to `hex`. -/
def bytesBefore (s : LocalStore) (hex : GoString) (order : List GoString) : Int :=
  ((order.takeWhile fun x => decide (x ≠ hex)).map s.lenAt).sum

theorem bytesBefore_nonneg (s : LocalStore) (hex : GoString) (order : List GoString) :
    0 ≤ s.bytesBefore hex order := by
  apply sum_nonneg
  intro n hn
  obtain ⟨x, -, rfl⟩ := mem_map.mp hn
  exact s.lenAt_nonneg x

variable {P : LocalStore → Prop} {needed : Int} {order : List GoString}

/-- A property that dropping an entry keeps is kept by the loop. -/
theorem evictLoop_induct {cap : Int} :
    ∀ (order : List GoString) {s : LocalStore}, P s →
      (∀ t hex, hex ∈ order → P t → P (t.dropEntry hex)) → P (evictLoop cap order s)
  | [], _, hs, _ => hs
  | hex :: rest, s, hs, hDrop => by
    rw [evictLoop]
    split
    · exact hs
    · exact evictLoop_induct rest (hDrop s hex (by simp) hs)
        fun t x hx ht => hDrop t x (by simp [hx]) ht

/-- The loop ends with the total at the cap or with every visited entry
gone. -/
theorem evictLoop_done (cap : Int) : ∀ (order : List GoString) (s : LocalStore),
    (evictLoop cap order s).total ≤ cap ∨ ∀ hex ∈ order, hex ∉ (evictLoop cap order s).data
  | [], s => .inr (by simp)
  | hex :: rest, s => by
    rw [evictLoop]
    split
    · exact .inl ‹_›
    rcases evictLoop_done cap rest (s.dropEntry hex) with h | h
    · exact .inl h
    right
    intro x hx
    rcases mem_cons.mp hx with rfl | hx
    · -- the entry just dropped does not come back
      refine evictLoop_induct (P := fun t => x ∉ t.data) rest ?_ ?_
      · exact lookup_eq_none.mp dropEntry_lookup_self
      · intro t y _ ht
        rw [dropEntry_data, mem_erase]
        exact fun hmem => ht hmem.2
    · exact h x hx

/-- **What the eviction loop removes.** An entry goes exactly when the scan
reaches it: when the total, less everything before it in the order, is still
above the cap. -/
theorem evictLoop_lookup (cap : Int) (x : GoString) :
    ∀ (order : List GoString) (s : LocalStore), order.Nodup →
      (evictLoop cap order s).data.lookup x =
        if x ∈ order ∧ cap < s.total - s.bytesBefore x order then none else s.data.lookup x
  | [], s, _ => by simp [evictLoop]
  | hex :: rest, s, hNodup => by
    obtain ⟨hNot, hRest⟩ := nodup_cons.mp hNodup
    rw [evictLoop]
    by_cases hxe : x = hex
    · -- the scan is at `x` itself
      subst hxe
      have hZero : s.bytesBefore x (x :: rest) = 0 := by simp [bytesBefore]
      rw [hZero, sub_zero]
      split
      · rw [if_neg (by omega)]
      · rw [if_pos ⟨by simp, by omega⟩, evictLoop_lookup cap x rest _ hRest,
          dropEntry_lookup_self, ite_self]
    · have hStep : s.bytesBefore x (hex :: rest) =
          s.lenAt hex + (s.dropEntry hex).bytesBefore x rest := by
        have hCongr : (rest.takeWhile fun y => decide (y ≠ x)).map (s.dropEntry hex).lenAt =
            (rest.takeWhile fun y => decide (y ≠ x)).map s.lenAt := by
          apply map_congr_left
          intro y hy
          apply dropEntry_lenAt_ne
          rintro rfl
          exact hNot ((takeWhile_sublist _).subset hy)
        rw [bytesBefore, bytesBefore, hCongr, takeWhile_cons_of_pos (by simp [Ne.symm hxe]),
          map_cons, sum_cons]
      have hNonneg := (s.dropEntry hex).bytesBefore_nonneg x rest
      have hLen := s.lenAt_nonneg hex
      rw [hStep]
      split
      · rw [if_neg (by omega)]
      · rw [evictLoop_lookup cap x rest _ hRest, dropEntry_lookup_ne hxe, dropEntry_total]
        have hMem : x ∈ hex :: rest ↔ x ∈ rest := by simp [hxe]
        simp only [hMem, Int.sub_sub]

/-! ## `evictToFit` -/

theorem evictTarget_nonneg (s : LocalStore) (needed : Int) : 0 ≤ s.evictTarget needed := by
  simp only [evictTarget]
  split <;> omega

/-- Under a budget, `evictToFit` is the loop: its guards only skip scans that
would remove nothing. -/
theorem evictToFit_eq (h : 0 < s.maxBytes) :
    s.evictToFit order needed = evictLoop (s.evictTarget needed) order s := by
  rw [evictToFit, if_neg (by omega), evictUntilUnder, if_neg (by omega)]
  split
  · cases order with
    | nil => rfl
    | cons hex rest => rw [evictLoop, if_pos ‹_›]
  · rfl

theorem evictToFit_unlimited (h : s.maxBytes ≤ 0) : s.evictToFit order needed = s := by
  rw [evictToFit, if_pos h]

/-- A property that dropping an entry keeps is kept by `evictToFit`. -/
theorem evictToFit_induct (hs : P s) (hDrop : ∀ t hex, hex ∈ order → P t → P (t.dropEntry hex)) :
    P (s.evictToFit order needed) := by
  rcases Int.lt_or_le 0 s.maxBytes with h | h
  · rw [evictToFit_eq h]
    exact evictLoop_induct order hs hDrop
  · rw [evictToFit_unlimited h]
    exact hs

@[simp] theorem evictToFit_maxBytes (order : List GoString) (needed : Int) :
    (s.evictToFit order needed).maxBytes = s.maxBytes :=
  evictToFit_induct (P := fun t => t.maxBytes = s.maxBytes) rfl
    fun t x _ ht => by rw [dropEntry_maxBytes, ht]

@[simp] theorem evictToFit_perPeerMax (order : List GoString) (needed : Int) :
    (s.evictToFit order needed).perPeerMax = s.perPeerMax :=
  evictToFit_induct (P := fun t => t.perPeerMax = s.perPeerMax) rfl
    fun t x _ ht => by rw [dropEntry_perPeerMax, ht]

/-! ## `refundOverwritten`, `install`, `put` -/

@[simp] theorem refundOverwritten_data : (s.refundOverwritten hex).data = s.data := by
  cases h : s.data.lookup hex <;> simp [refundOverwritten, h]

@[simp] theorem refundOverwritten_access : (s.refundOverwritten hex).access = s.access := by
  cases h : s.data.lookup hex <;> simp [refundOverwritten, h]

@[simp] theorem refundOverwritten_attribution :
    (s.refundOverwritten hex).attribution = s.attribution := by
  cases h : s.data.lookup hex <;> simp [refundOverwritten, h]

@[simp] theorem refundOverwritten_maxBytes :
    (s.refundOverwritten hex).maxBytes = s.maxBytes := by
  cases h : s.data.lookup hex <;> simp [refundOverwritten, h]

@[simp] theorem refundOverwritten_perPeerMax :
    (s.refundOverwritten hex).perPeerMax = s.perPeerMax := by
  cases h : s.data.lookup hex <;> simp [refundOverwritten, h]

@[simp] theorem refundOverwritten_total :
    (s.refundOverwritten hex).total = s.total - s.lenAt hex := by
  cases h : s.data.lookup hex with
  | none => simp [refundOverwritten, h, lenAt_of_none h]
  | some v => simp [refundOverwritten, h, lenAt_of_lookup h]

variable {value : Bytes} {peerID : GoString} {now : Time}

@[simp] theorem install_data :
    (s.install hex value peerID now).data = s.data.insert hex value := by
  unfold install
  split <;> rfl

@[simp] theorem install_access :
    (s.install hex value peerID now).access = s.access.insert hex now := by
  unfold install
  split <;> rfl

@[simp] theorem install_total :
    (s.install hex value peerID now).total = s.total + value.length := by
  unfold install
  split <;> rfl

@[simp] theorem install_maxBytes :
    (s.install hex value peerID now).maxBytes = s.maxBytes := by
  unfold install
  split <;> rfl

@[simp] theorem install_perPeerMax :
    (s.install hex value peerID now).perPeerMax = s.perPeerMax := by
  unfold install
  split <;> rfl

@[simp] theorem install_attribution :
    (s.install hex value peerID now).attribution =
      if peerID ≠ [] then s.attribution.insert hex peerID else s.attribution.erase hex := by
  unfold install
  split <;> rfl

variable {order : List GoString} {key : NodeID}

/-- The store in the middle of an accepted write, after the eviction. -/
def evicted (s : LocalStore) (key : NodeID) (value : Bytes) (order : List GoString) :
    LocalStore :=
  (s.refundOverwritten key.hex).evictToFit order value.length

@[simp] theorem evicted_maxBytes : (s.evicted key value order).maxBytes = s.maxBytes := by
  simp [evicted]

@[simp] theorem evicted_perPeerMax :
    (s.evicted key value order).perPeerMax = s.perPeerMax := by
  simp [evicted]

/-- The eviction of a write to `key` reaches the entry `x`: the refunded total,
less everything that is evicted before `x`, is still above the room that the new
value needs. -/
def Evicts (s : LocalStore) (key : NodeID) (value : Bytes) (order : List GoString)
    (x : GoString) : Prop :=
  0 < s.maxBytes ∧ s.evictTarget value.length <
    s.total - s.lenAt key.hex - s.bytesBefore x order

instance : Decidable (s.Evicts key value order x) := inferInstanceAs (Decidable (_ ∧ _))

theorem refundOverwritten_lenAt (x : GoString) :
    (s.refundOverwritten hex).lenAt x = s.lenAt x := by
  rw [lenAt, refundOverwritten_data, lenAt]

/-- **What a write evicts**: the entries that its eviction reaches. -/
theorem lookup_evicted (hOrder : s.LruOrder order) :
    (s.evicted key value order).data.lookup x =
      if s.Evicts key value order x then none else s.data.lookup x := by
  rcases Int.lt_or_le 0 s.maxBytes with hMax | hMax
  · have hTarget : (s.refundOverwritten key.hex).evictTarget value.length =
        s.evictTarget value.length := by
      simp only [evictTarget, refundOverwritten_maxBytes]
    have hBefore : (s.refundOverwritten key.hex).bytesBefore x order = s.bytesBefore x order := by
      rw [bytesBefore, bytesBefore, show (s.refundOverwritten key.hex).lenAt = s.lenAt from
        funext refundOverwritten_lenAt]
    rw [evicted, evictToFit_eq (by rwa [refundOverwritten_maxBytes]), hTarget,
      evictLoop_lookup _ _ _ _ hOrder.nodup, refundOverwritten_total, hBefore,
      refundOverwritten_data]
    by_cases hMem : x ∈ order
    · simp only [Evicts, hMem, hMax, true_and]
    · -- an entry that is not visited is none
      have hNone : s.data.lookup x = none :=
        lookup_eq_none.mpr fun hData => hMem ((hOrder.mem x).mpr hData)
      rw [if_neg fun h => hMem h.1, hNone, ite_self]
  · rw [evicted, evictToFit_unlimited (by rwa [refundOverwritten_maxBytes]),
      refundOverwritten_data, if_neg fun h => absurd h.1 (by omega)]

theorem mem_evicted_iff (hOrder : s.LruOrder order) :
    x ∈ (s.evicted key value order).data ↔ x ∈ s.data ∧ ¬ s.Evicts key value order x := by
  rw [← lookup_isSome, lookup_evicted hOrder, ← lookup_isSome]
  split
  · rename_i hGone
    exact iff_of_false (by simp) fun h => h.2 hGone
  · rename_i hKept
    rw [and_iff_left hKept]

/-- A refused write leaves the whole store unchanged. -/
theorem put_false (h : s.admits key.hex value.length peerID = false) :
    s.put order key value peerID now = (s, false) := by
  simp [put, h]

theorem put_true (h : s.admits key.hex value.length peerID = true) :
    s.put order key value peerID now =
      ((s.evicted key value order).install key.hex value peerID now, true) := by
  simp [put, evicted, h]

@[simp] theorem put_maxBytes : (s.put order key value peerID now).1.maxBytes = s.maxBytes := by
  cases h : s.admits key.hex value.length peerID with
  | false => rw [put_false h]
  | true => rw [put_true h, install_maxBytes, evicted_maxBytes]

/-- Without a budget, an accepted write adds its entry and removes none. -/
theorem put_data_unlimited (hMax : s.maxBytes ≤ 0) :
    (s.put order key value peerID now).1.data =
      if s.admits key.hex value.length peerID then s.data.insert key.hex value else s.data := by
  cases h : s.admits key.hex value.length peerID with
  | false => rw [put_false h, if_neg (by simp)]
  | true =>
    rw [put_true h, install_data, evicted, evictToFit_unlimited (by simpa using hMax),
      refundOverwritten_data, if_pos rfl]

/-! ## `Get` -/

@[simp] theorem get_data : (s.get key now).1.data = s.data := by
  unfold get
  split <;> rfl

@[simp] theorem get_maxBytes : (s.get key now).1.maxBytes = s.maxBytes := by
  unfold get
  split <;> rfl

@[simp] theorem get_snd : (s.get key now).2 = s.data.lookup key.hex := by
  unfold get
  split <;> rename_i h <;> rw [h]

/-! ## Where entries come from -/

/-- Every entry of `t` is an entry of `s`, attributed to the same peer. -/
def Within (t s : LocalStore) : Prop :=
  ∀ x v, t.data.lookup x = some v →
    s.data.lookup x = some v ∧ t.attribution.lookup x = s.attribution.lookup x

theorem Within.refl (s : LocalStore) : s.Within s := fun _ _ h => ⟨h, rfl⟩

theorem Within.dropEntry {t : LocalStore} (h : t.Within s) (hex : GoString) :
    (t.dropEntry hex).Within s := by
  intro x v hLookup
  by_cases hx : x = hex
  · rw [hx, dropEntry_lookup_self] at hLookup
    cases hLookup
  rw [dropEntry_lookup_ne hx] at hLookup
  refine ⟨(h x v hLookup).1, ?_⟩
  rw [← (h x v hLookup).2]
  cases hHex : t.data.lookup hex with
  | none => rw [dropEntry_of_none hHex]
  | some w =>
    rw [dropEntry_attribution (mem_of_lookup_eq_some hHex),
      lookup_erase_ne hx]

theorem within_get : (s.get key now).1.Within s := by
  unfold get
  split <;> exact Within.refl _

theorem within_evicted : (s.evicted key value order).Within s := by
  unfold evicted
  refine evictToFit_induct (P := fun t => t.Within s) ?_ fun t hex _ ht => ht.dropEntry hex
  intro x v hLookup
  rw [refundOverwritten_data] at hLookup
  exact ⟨hLookup, by rw [refundOverwritten_attribution]⟩

/-- After a write every entry is an old one, or the one written and attributed
to the given peer, or to nobody when that is empty. -/
theorem put_entry {x : GoString} {v : Bytes}
    (h : (s.put order key value peerID now).1.data.lookup x = some v) :
    (s.data.lookup x = some v ∧
        (s.put order key value peerID now).1.attribution.lookup x = s.attribution.lookup x) ∨
      (x = key.hex ∧ v = value ∧ (s.put order key value peerID now).1.attribution.lookup x =
        if peerID ≠ [] then some peerID else none) := by
  cases hAdmit : s.admits key.hex value.length peerID with
  | false =>
    rw [put_false hAdmit] at h ⊢
    exact .inl ⟨h, rfl⟩
  | true =>
    rw [put_true hAdmit] at h ⊢
    rw [install_data] at h
    rw [install_attribution]
    by_cases hx : x = key.hex
    · subst hx
      rw [lookup_insert] at h
      refine .inr ⟨rfl, (Option.some.inj h).symm, ?_⟩
      split
      · exact lookup_insert _
      · exact lookup_erase _ _
    · rw [lookup_insert_of_ne _ hx] at h
      obtain ⟨hOld, hAttr⟩ := within_evicted x v h
      refine .inl ⟨hOld, ?_⟩
      rw [← hAttr]
      split
      · exact lookup_insert_of_ne _ hx
      · exact lookup_erase_ne hx

/-! ## Every operation can be taken -/

/-- A list of the keys in the order of access is an order to evict in. -/
theorem LruOrder.of_keys (hNodup : order.Nodup) (hKeys : order.toFinset = s.data.keys)
    (hSorted : order.Pairwise fun a b => s.lastAccess a ≤ s.lastAccess b) :
    s.LruOrder order where
  nodup := hNodup
  mem := fun hex => by rw [← Finmap.mem_keys, ← hKeys, mem_toFinset]
  sorted := hSorted

instance : Decidable (s.LruOrder order) :=
  decidable_of_iff (order.Nodup ∧ order.toFinset = s.data.keys ∧
      order.Pairwise fun a b => s.lastAccess a ≤ s.lastAccess b)
    ⟨fun h => .of_keys h.1 h.2.1 h.2.2, fun h => ⟨h.nodup, by
      ext hex
      rw [mem_toFinset, h.mem, Finmap.mem_keys], h.sorted⟩⟩

instance (op : StoreOp) : Decidable (op.Valid s) :=
  match op with
  | .put _ _ _ _ order => inferInstanceAs (Decidable (s.LruOrder order))
  | .get _ _ | .delete _ => .isTrue trivial

/-- There is always an order to evict in. -/
theorem lruOrder_spec (s : LocalStore) : s.LruOrder s.lruOrder where
  nodup := by
    have hPerm := perm_insertionSort
      (fun a b => s.lastAccess a ≤ s.lastAccess b) (sortedStrings s.data.keys)
    exact hPerm.nodup_iff.mpr (nodup_sortedStrings _)
  mem := by
    intro hex
    rw [lruOrder, mem_insertionSort, mem_sortedStrings, Finmap.mem_keys]
  sorted := by
    have : Std.Total fun a b => s.lastAccess a ≤ s.lastAccess b :=
      ⟨fun a b => Nat.le_total _ _⟩
    have : IsTrans GoString fun a b => s.lastAccess a ≤ s.lastAccess b :=
      ⟨fun _ _ _ => Nat.le_trans⟩
    exact pairwise_insertionSort _ _

end LocalStore

end AltNet
