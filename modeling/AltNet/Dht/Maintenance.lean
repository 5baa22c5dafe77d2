import AltNet.Dht.Node
import AltNet.Dht.StoreAccounting

/-!
# AltNet — the republish pass (`core/dht/maintenance.go`, `core/dht/dht.go`)

Once an hour, and once after a start, `republishAll` copies the keys of the
local store, in whatever order the map yields them, reads every entry with
`Get` and hands it to `Store`. Both are the calls that clients use. `Get`
stamps the entry with the current time. `Store` writes it back as the node's
own: the entry is stamped again, its bytes are taken off the counter of the
peer that had pushed it, and the attribution is forgotten.

So a pass leaves the stored bytes alone, but it takes every entry off its
peer, whose quota is free again, and it puts the entries in the order in which
the map yielded them as far as later evictions are concerned.

`Replicate` touches nothing but the routing table; the table it leaves behind
is free here.

Main results:

* `put_back` — what writing an entry back does to a store within its budget;
* `republishAll_kept`, `republishAll_attribution`, `republishAll_lastAccess` —
  what a whole pass does to the bytes, to the attribution and to the times;
* `keepsOrder_iff_sorted` — when the clock ticks between visits, the order of
  the entries survives an iteration of the map by strictly increasing last
  access, and no other;
* `republish_frame_iff` — a pass leaves the accounting and the order of the
  entries alone exactly when nothing it writes back belongs to a peer and it
  happens to visit the entries in their order.
-/

namespace AltNet

open List Finmap

open NodeID (fill)

/-- What one turn of the loop meets: the key it has come to, the clock as
`Get` and as `put` read it, the order in which an eviction would visit the
entries, and the routing table that `Replicate` leaves behind. -/
structure Visit where
  hex : GoString
  readAt : Time
  putAt : Time
  order : List GoString
  table : RoutingTable

namespace DHT

/-- `Replicate`. -/
def replicate (d : DHT) (key : NodeID) (table : RoutingTable) : DHT :=
  if d.isBlocked key then d else { d with rt := table }

/-- `Store`. -/
def storeCall (d : DHT) (key : NodeID) (value : Bytes) (order : List GoString) (now : Time)
    (table : RoutingTable) : Except DhtError DHT :=
  match d.storeLocal key value order now with
  | .error e => .error e
  | .ok d => if d.isBlocked key then .ok d else .ok (d.replicate key table)

/-- One turn of the loop in `republishAll`; an error of `Store` is dropped. -/
def republishOne (d : DHT) (v : Visit) : DHT :=
  match idFromHex v.hex with
  | none => d
  | some key =>
    let (store, found) := d.store.get key v.readAt
    let d := { d with store }
    match found with
    | none => d
    | some value =>
      match d.storeCall key value v.order v.putAt v.table with
      | .error _ => d
      | .ok d => d

/-- `republishAll`. -/
def republishAll (d : DHT) (visits : List Visit) : DHT := visits.foldl republishOne d

/-- A complete pass: `snapshotKeys` has listed every key once, and the clock
does not go back. -/
structure IsPass (d : DHT) (visits : List Visit) : Prop where
  nodup : (visits.map fun v => v.hex).Nodup
  keys : ∀ x, x ∈ visits.map (fun v => v.hex) ↔ x ∈ d.store.data
  past : ∀ v ∈ visits, ∀ x, d.store.lastAccess x ≤ v.readAt
  reads : ∀ v ∈ visits, v.readAt ≤ v.putAt
  clock : visits.Pairwise fun v v' => v.putAt ≤ v'.readAt

/-- `Store` gets as far as the store's `Put`. -/
def rewrites (d : DHT) (key : NodeID) (value : Bytes) : Bool :=
  decide (value.length ≤ maxValueSize) && !d.isBlocked key

/-- The entry that a turn reads. The text of a key may be in upper case, and
`Get` then looks under the text in lower case. -/
def entryOf (d : DHT) (v : Visit) : Option (NodeID × Bytes) :=
  (idFromHex v.hex).bind fun key => (d.store.data.lookup key.hex).map fun value => (key, value)

/-- The time with which a turn leaves the entry under `x`, if it comes to
it. -/
def stamp (d : DHT) (x : GoString) (v : Visit) : Option Time :=
  (d.entryOf v).bind fun e =>
    if e.1.hex = x then some (if d.rewrites e.1 e.2 then v.putAt else v.readAt) else none

/-- The turn writes the entry under `x` back. -/
def rewritten (d : DHT) (x : GoString) (v : Visit) : Bool :=
  (d.entryOf v).any fun e => decide (e.1.hex = x) && d.rewrites e.1 e.2

/-- The time with which a pass leaves the entry under `x`: that of the last
turn which comes to it. -/
def lastTouch (d : DHT) (visits : List Visit) (x : GoString) : Time :=
  visits.foldl (fun t v => (d.stamp x v).getD t) (d.store.lastAccess x)

end DHT

namespace LocalStore

/-- Access time and owner of an entry that the node writes back. -/
def disown (s : LocalStore) (hex : GoString) (now : Time) : LocalStore :=
  { s.releasePeer hex (s.lenAt hex) with
    access := s.access.insert hex now
    attribution := s.attribution.erase hex }

/-- The bytes counted and stored under this budget. -/
structure InBudget (s : LocalStore) : Prop where
  total : s.total = s.storedBytes
  fits : s.maxBytes ≤ 0 ∨ s.total ≤ s.maxBytes

variable {s : LocalStore} {key : NodeID} {value : Bytes} {order : List GoString} {now : Time}
  {x : GoString}

/-! ## Writing an entry back -/

theorem lenAt_le_storedBytes (s : LocalStore) (hex : GoString) : s.lenAt hex ≤ s.storedBytes := by
  have hErase := GoMap.weight_erase byteLen s.data hex
  have hNonneg := GoMap.weight_nonneg byteLen_nonneg (s.data.erase hex)
  rw [lenAt, storedBytes]
  omega

/-- A value that is written back makes no entry give way. -/
theorem evicted_back (h : s.InBudget) (hValue : s.data.lookup key.hex = some value) :
    s.evicted key value order = s.refundOverwritten key.hex := by
  have hLen : s.lenAt key.hex = value.length := lenAt_of_lookup hValue
  have hLe := s.lenAt_le_storedBytes key.hex
  have hTotal := h.total
  unfold evicted evictToFit
  rw [refundOverwritten_maxBytes]
  split
  · rfl
  rename_i hMax
  have hFits : s.total ≤ s.maxBytes := h.fits.resolve_left hMax
  have hRoom : (s.refundOverwritten key.hex).total ≤
      (s.refundOverwritten key.hex).evictTarget value.length := by
    simp only [refundOverwritten_total, evictTarget, refundOverwritten_maxBytes]
    split <;> omega
  unfold evictUntilUnder
  rw [if_pos hRoom, ite_self]

/-- **Writing an entry back**, as the node's own, changes its time and its
owner. -/
theorem put_back (h : s.InBudget) (hValue : s.data.lookup key.hex = some value) :
    (s.put order key value [] now).1 = s.disown key.hex now := by
  have hAdmit : s.admits key.hex value.length [] = true := by simp [admits]
  rw [put_true hAdmit, evicted_back h hValue]
  have hRefund : s.refundOverwritten key.hex =
      { s with total := s.total - value.length }.releasePeer key.hex value.length := by
    rw [refundOverwritten, hValue]
  have hSame : s.data.insert key.hex value = s.data := GoMap.insert_of_lookup hValue
  have hLen : s.lenAt key.hex = value.length := lenAt_of_lookup hValue
  have hTotal : s.total - value.length + value.length = s.total := by omega
  rw [hRefund, disown, hLen]
  unfold install releasePeer
  cases s.attribution.lookup key.hex with
  | none => simp [hSame, hTotal]
  | some attr =>
    by_cases hAttr : attr = []
    · simp [hAttr, hSame, hTotal]
    · simp [hAttr, hSame, hTotal, perPeerUsage]

@[simp] theorem disown_data : (s.disown x now).data = s.data := releasePeer_data

@[simp] theorem disown_total : (s.disown x now).total = s.total := releasePeer_total

@[simp] theorem disown_maxBytes : (s.disown x now).maxBytes = s.maxBytes := releasePeer_maxBytes

/-- An entry of the node's own keeps everything but its time. -/
theorem disown_of_notMem (h : x ∉ s.attribution) :
    s.disown x now = { s with access := s.access.insert x now } := by
  have hNone : s.attribution.lookup x = none := lookup_eq_none.mpr h
  unfold disown releasePeer
  rw [hNone, GoMap.erase_of_notMem h]

theorem lastAccess_of_insert {t : LocalStore} {hex : GoString}
    (h : t.access = s.access.insert hex now) :
    t.lastAccess x = if hex = x then now else s.lastAccess x := by
  unfold lastAccess
  rw [h]
  split
  · rename_i hEq
    rw [hEq, lookup_insert]
    rfl
  · rename_i hNe
    rw [lookup_insert_of_ne _ (Ne.symm hNe)]

end LocalStore

namespace DHT

variable {d d' : DHT} {v : Visit} {visits : List Visit} {x : GoString}

/-! ## One turn -/

variable {key : NodeID} {value : Bytes}

theorem storeCall_of_rewrites {order : List GoString} {now : Time} {table : RoutingTable}
    (h : d.rewrites key value = true) :
    d.storeCall key value order now table =
      .ok { d with store := (d.store.put order key value [] now).1, rt := table } := by
  rw [rewrites, Bool.and_eq_true_iff, decide_eq_true_eq, Bool.not_eq_true'] at h
  obtain ⟨hSize, hOpen⟩ := h
  have hOpen' : { d with store := (d.store.put order key value [] now).1 }.isBlocked key = false :=
    hOpen
  unfold storeCall storeLocal
  rw [if_neg (by omega), if_neg (by simp [hOpen])]
  simp only [hOpen', replicate, Bool.false_eq_true, if_false]

/-- A value that is too large, or a blocked key: `Store` leaves the node
alone. -/
theorem storeCall_of_not_rewrites (h : d.rewrites key value = false) (order : List GoString)
    (now : Time) (table : RoutingTable) :
    d.storeCall key value order now table = .ok d ∨
      d.storeCall key value order now table = .error (.tooLarge value.length) := by
  unfold storeCall storeLocal
  by_cases hSize : maxValueSize < value.length
  · rw [if_pos hSize]
    exact Or.inr rfl
  have hBlocked : d.isBlocked key = true := by
    have hLe : value.length ≤ maxValueSize := by omega
    simpa [rewrites, hLe] using h
  rw [if_neg hSize, if_pos hBlocked]
  simp only [hBlocked, if_true]
  exact Or.inl trivial

theorem republishOne_none (h : d.entryOf v = none) : d.republishOne v = d := by
  unfold republishOne
  cases hKey : idFromHex v.hex with
  | none => rfl
  | some key =>
    have hValue : d.store.data.lookup key.hex = none := by
      simpa [entryOf, hKey] using h
    simp only [LocalStore.get, hValue]

/-- **One turn.** The entry it reads gets the time of the turn, and where
`Store` gets to the write, it has no owner any more. -/
theorem republishOne_some (hBudget : d.store.InBudget) (h : d.entryOf v = some (key, value)) :
    (d.republishOne v).blocklist = d.blocklist ∧
    (d.republishOne v).store =
      if d.rewrites key value then d.store.disown key.hex v.putAt
      else { d.store with access := d.store.access.insert key.hex v.readAt } := by
  obtain ⟨key', hKey, hEntry⟩ := Option.bind_eq_some_iff.mp h
  obtain ⟨value', hValue, hEq⟩ := Option.map_eq_some_iff.mp hEntry
  obtain ⟨rfl, rfl⟩ := Prod.mk.inj hEq
  unfold republishOne
  simp only [hKey, LocalStore.get, hValue]
  -- the node after the `Get`
  generalize hRead : { d with store := { d.store with
    access := d.store.access.insert key'.hex v.readAt } } = r
  have hStore : r.store = { d.store with access := d.store.access.insert key'.hex v.readAt } := by
    rw [← hRead]
  have hBlock : r.blocklist = d.blocklist := by rw [← hRead]
  have hRewrites : r.rewrites key' value' = d.rewrites key' value' := by
    rw [← hRead]
    rfl
  have hData : r.store.data.lookup key'.hex = some value' := by
    rw [hStore]
    exact hValue
  have hFits : r.store.InBudget := by
    rw [hStore]
    exact ⟨hBudget.total, hBudget.fits⟩
  cases hGate : d.rewrites key' value' with
  | true =>
    rw [hGate] at hRewrites
    rw [storeCall_of_rewrites hRewrites, if_pos rfl]
    refine ⟨hBlock, ?_⟩
    show (r.store.put v.order key' value' [] v.putAt).1 = _
    rw [LocalStore.put_back hFits hData, hStore]
    unfold LocalStore.disown LocalStore.releasePeer LocalStore.lenAt
    dsimp only
    rw [insert_insert]
    split
    · rfl
    · split <;> rfl
  | false =>
    rw [hGate] at hRewrites
    rw [if_neg Bool.false_ne_true]
    rcases storeCall_of_not_rewrites hRewrites v.order v.putAt v.table with hOk | hError
    · rw [hOk]
      exact ⟨hBlock, hStore⟩
    · rw [hError]
      exact ⟨hBlock, hStore⟩

/-! ## A whole pass -/

/-- The stored bytes and the blocklist are as they were. -/
structure Kept (d d' : DHT) : Prop where
  data : d'.store.data = d.store.data
  total : d'.store.total = d.store.total
  maxBytes : d'.store.maxBytes = d.store.maxBytes
  blocklist : d'.blocklist = d.blocklist

namespace Kept

theorem refl (d : DHT) : Kept d d := ⟨rfl, rfl, rfl, rfl⟩

variable (h : Kept d d')

include h

theorem trans {d'' : DHT} (h' : Kept d' d'') : Kept d d'' where
  data := h'.data.trans h.data
  total := h'.total.trans h.total
  maxBytes := h'.maxBytes.trans h.maxBytes
  blocklist := h'.blocklist.trans h.blocklist

theorem inBudget (hBudget : d.store.InBudget) : d'.store.InBudget where
  total := by
    rw [h.total, hBudget.total, LocalStore.storedBytes, LocalStore.storedBytes, h.data]
  fits := by
    rw [h.total, h.maxBytes]
    exact hBudget.fits

theorem rewrites (key : NodeID) (value : Bytes) : d'.rewrites key value = d.rewrites key value := by
  unfold DHT.rewrites isBlocked
  rw [h.blocklist]

theorem entryOf (v : Visit) : d'.entryOf v = d.entryOf v := by
  unfold DHT.entryOf
  rw [h.data]

theorem stamp (x : GoString) : d'.stamp x = d.stamp x := by
  funext v
  unfold DHT.stamp
  rw [h.entryOf]
  simp only [h.rewrites]

theorem rewritten (x : GoString) : d'.rewritten x = d.rewritten x := by
  funext v
  unfold DHT.rewritten
  rw [h.entryOf]
  simp only [h.rewrites]

end Kept

variable (hBudget : d.store.InBudget)

include hBudget

theorem republishOne_kept (v : Visit) : Kept d (d.republishOne v) := by
  cases hEntry : d.entryOf v with
  | none =>
    rw [republishOne_none hEntry]
    exact .refl d
  | some e =>
    obtain ⟨hBlock, hStore⟩ := republishOne_some hBudget hEntry
    cases hGate : d.rewrites e.1 e.2 <;> rw [hGate] at hStore
    · exact ⟨by rw [hStore]; rfl, by rw [hStore]; rfl, by rw [hStore]; rfl, hBlock⟩
    · rw [if_pos rfl] at hStore
      exact ⟨by rw [hStore, LocalStore.disown_data], by rw [hStore, LocalStore.disown_total],
        by rw [hStore, LocalStore.disown_maxBytes], hBlock⟩

theorem republishOne_attribution (v : Visit) (x : GoString) :
    (d.republishOne v).store.attribution.lookup x =
      if d.rewritten x v then none else d.store.attribution.lookup x := by
  unfold rewritten
  cases hEntry : d.entryOf v with
  | none =>
    rw [republishOne_none hEntry]
    rfl
  | some e =>
    rw [(republishOne_some hBudget hEntry).2, Option.any_some]
    cases hGate : d.rewrites e.1 e.2 with
    | false =>
      rw [Bool.and_false]
      rfl
    | true =>
      rw [Bool.and_true, if_pos rfl]
      show (d.store.attribution.erase e.1.hex).lookup x = _
      by_cases hx : e.1.hex = x
      · rw [if_pos (decide_eq_true hx), ← hx, lookup_erase]
      · rw [if_neg (by simpa using hx), lookup_erase_ne (Ne.symm hx)]

theorem republishOne_lastAccess (v : Visit) (x : GoString) :
    (d.republishOne v).store.lastAccess x = (d.stamp x v).getD (d.store.lastAccess x) := by
  unfold stamp
  cases hEntry : d.entryOf v with
  | none =>
    rw [republishOne_none hEntry]
    rfl
  | some e =>
    have hAccess : (d.republishOne v).store.access = d.store.access.insert e.1.hex
        (if d.rewrites e.1 e.2 then v.putAt else v.readAt) := by
      rw [(republishOne_some hBudget hEntry).2]
      cases d.rewrites e.1 e.2 <;> rfl
    rw [LocalStore.lastAccess_of_insert hAccess, Option.bind_some]
    split <;> rfl

/-- **A pass keeps the bytes**: nothing is lost, added or evicted. -/
theorem republishAll_kept (visits : List Visit) : Kept d (d.republishAll visits) := by
  induction visits generalizing d with
  | nil => exact .refl d
  | cons v rest ih =>
    have hOne := republishOne_kept hBudget v
    exact hOne.trans (ih (hOne.inBudget hBudget))

/-- **A pass disowns** what it writes back. -/
theorem republishAll_attribution (visits : List Visit) (x : GoString) :
    (d.republishAll visits).store.attribution.lookup x =
      if visits.any (d.rewritten x) then none else d.store.attribution.lookup x := by
  induction visits generalizing d with
  | nil => rfl
  | cons v rest ih =>
    have hOne := republishOne_kept hBudget v
    show ((d.republishOne v).republishAll rest).store.attribution.lookup x = _
    rw [ih (hOne.inBudget hBudget), hOne.rewritten, republishOne_attribution hBudget,
      any_cons]
    cases d.rewritten x v
    · rw [Bool.false_or]
      rfl
    · rw [Bool.true_or, if_pos rfl, ite_self]

/-- **The times a pass leaves behind.** -/
theorem republishAll_lastAccess (visits : List Visit) (x : GoString) :
    (d.republishAll visits).store.lastAccess x = d.lastTouch visits x := by
  induction visits generalizing d with
  | nil => rfl
  | cons v rest ih =>
    have hOne := republishOne_kept hBudget v
    show ((d.republishOne v).republishAll rest).store.lastAccess x = _
    rw [ih (hOne.inBudget hBudget), lastTouch, hOne.stamp, republishOne_lastAccess hBudget]
    rfl

/-- What belongs to nobody stays as it is, owners and counters included. -/
theorem republishAll_owners
    (hOwn : ∀ v ∈ visits, ∀ key value, d.entryOf v = some (key, value) →
      d.rewrites key value = true → key.hex ∉ d.store.attribution) :
    (d.republishAll visits).store.attribution = d.store.attribution ∧
      (d.republishAll visits).store.perPeer = d.store.perPeer := by
  induction visits generalizing d with
  | nil => exact ⟨rfl, rfl⟩
  | cons v rest ih =>
    have hOne := republishOne_kept hBudget v
    have hStep : (d.republishOne v).store.attribution = d.store.attribution ∧
        (d.republishOne v).store.perPeer = d.store.perPeer := by
      cases hEntry : d.entryOf v with
      | none =>
        rw [republishOne_none hEntry]
        exact ⟨rfl, rfl⟩
      | some e =>
        rw [(republishOne_some hBudget hEntry).2]
        cases hGate : d.rewrites e.1 e.2 with
        | false => exact ⟨rfl, rfl⟩
        | true =>
          rw [if_pos rfl, LocalStore.disown_of_notMem
            (hOwn v mem_cons_self e.1 e.2 hEntry hGate)]
          exact ⟨rfl, rfl⟩
    show ((d.republishOne v).republishAll rest).store.attribution = _ ∧
      ((d.republishOne v).republishAll rest).store.perPeer = _
    rw [← hStep.1, ← hStep.2]
    refine ih (hOne.inBudget hBudget) fun w hw key value hEntry hGate => ?_
    rw [hOne.entryOf] at hEntry
    rw [hOne.rewrites] at hGate
    rw [hStep.1]
    exact hOwn w (mem_cons_of_mem v hw) key value hEntry hGate

omit hBudget

/-! ## What a pass should leave alone -/

/-- The accounting of `t` and the order of its entries by last access are
those of `s`. -/
structure Undisturbed (s t : LocalStore) : Prop where
  data : t.data = s.data
  attribution : t.attribution = s.attribution
  perPeer : t.perPeer = s.perPeer
  total : t.total = s.total
  order : ∀ x ∈ s.data, ∀ y ∈ s.data,
    t.lastAccess x ≤ t.lastAccess y ↔ s.lastAccess x ≤ s.lastAccess y

/-- No entry that `Store` would write back is attributed to a peer. -/
def OwnOnly (d : DHT) : Prop :=
  ∀ key value, d.store.data.lookup key.hex = some value → d.rewrites key value = true →
    key.hex ∉ d.store.attribution

/-- The turns of the pass come to the entries in the order of their last
access. -/
def KeepsOrder (d : DHT) (visits : List Visit) : Prop :=
  ∀ x ∈ d.store.data, ∀ y ∈ d.store.data,
    d.lastTouch visits x ≤ d.lastTouch visits y ↔ d.store.lastAccess x ≤ d.store.lastAccess y

theorem entryOf_self (hHex : v.hex = key.hex) (hValue : d.store.data.lookup key.hex = some value) :
    d.entryOf v = some (key, value) := by
  unfold entryOf
  rw [hHex, idFromHex_hex, Option.bind_some, hValue]
  rfl

theorem lookup_of_entryOf (h : d.entryOf v = some (key, value)) :
    idFromHex v.hex = some key ∧ d.store.data.lookup key.hex = some value := by
  obtain ⟨key', hKey, hEntry⟩ := Option.bind_eq_some_iff.mp h
  obtain ⟨value', hValue, hEq⟩ := Option.map_eq_some_iff.mp hEntry
  obtain ⟨rfl, rfl⟩ := Prod.mk.inj hEq
  exact ⟨hKey, hValue⟩

/-! ## The order of the visits -/

/-- Where every entry is stored under the text of a key, a turn comes to the
entry it is named after. -/
theorem stamp_self (hPass : d.IsPass visits)
    (hNamed : ∀ x ∈ d.store.data, ∃ key : NodeID, x = key.hex) (hv : v ∈ visits) :
    ∃ t, d.stamp v.hex v = some t ∧ v.readAt ≤ t ∧ t ≤ v.putAt := by
  have hMem : v.hex ∈ d.store.data := (hPass.keys v.hex).mp (mem_map_of_mem hv)
  obtain ⟨key, hKey⟩ := hNamed v.hex hMem
  obtain ⟨value, hValue⟩ := mem_iff.mp hMem
  rw [hKey] at hValue
  have hReads := hPass.reads v hv
  unfold stamp
  rw [entryOf_self hKey hValue, Option.bind_some, if_pos hKey.symm]
  refine ⟨_, rfl, ?_⟩
  split
  · exact ⟨hReads, le_refl _⟩
  · exact ⟨le_refl _, hReads⟩

/-- And to no other. -/
theorem stamp_ne (hPass : d.IsPass visits)
    (hNamed : ∀ x ∈ d.store.data, ∃ key : NodeID, x = key.hex) (hv : v ∈ visits)
    (hx : v.hex ≠ x) : d.stamp x v = none := by
  obtain ⟨key, hKey⟩ := hNamed v.hex ((hPass.keys v.hex).mp (mem_map_of_mem hv))
  unfold stamp
  cases hEntry : d.entryOf v with
  | none => rfl
  | some e =>
    have hId := (lookup_of_entryOf hEntry).1
    rw [hKey, idFromHex_hex] at hId
    rw [Option.bind_some, if_neg]
    rw [← Option.some.inj hId, ← hKey]
    exact hx

/-- Turns that do not come to an entry leave its time. -/
theorem foldl_stamp_none {t : Time} (h : ∀ v ∈ visits, d.stamp x v = none) :
    visits.foldl (fun t v => (d.stamp x v).getD t) t = t := by
  induction visits with
  | nil => rfl
  | cons v rest ih =>
    rw [foldl_cons, h v mem_cons_self]
    exact ih fun w hw => h w (mem_cons_of_mem v hw)

/-- In such a store each entry has the time of its own turn after a pass. -/
theorem lastTouch_self (hPass : d.IsPass visits)
    (hNamed : ∀ x ∈ d.store.data, ∃ key : NodeID, x = key.hex) (hv : v ∈ visits) :
    v.readAt ≤ d.lastTouch visits v.hex ∧ d.lastTouch visits v.hex ≤ v.putAt := by
  obtain ⟨t, hStamp, hTime⟩ := stamp_self hPass hNamed hv
  obtain ⟨before, rest, rfl⟩ := append_of_mem hv
  have hNodup : (rest.map fun w => w.hex).Nodup ∧ v.hex ∉ rest.map fun w => w.hex := by
    have hAll := hPass.nodup
    rw [map_append, map_cons] at hAll
    exact (nodup_cons.mp (nodup_append.mp hAll).2.1).symm
  have hRest : ∀ w ∈ rest, d.stamp v.hex w = none := by
    intro w hw
    refine stamp_ne hPass hNamed (mem_append_right _ (mem_cons_of_mem v hw)) ?_
    intro hEq
    exact hNodup.2 (hEq ▸ mem_map_of_mem hw)
  have hLast : d.lastTouch (before ++ v :: rest) v.hex = t := by
    unfold lastTouch
    rw [foldl_append, foldl_cons, hStamp, foldl_stamp_none hRest]
    rfl
  rw [hLast]
  exact hTime

/-- Two times that both increase along a list compare alike. -/
theorem le_iff_le_of_sorted {α : Type} {f g : α → Time} {l : List α}
    (hf : l.Pairwise fun a b => f a < f b) (hg : l.Pairwise fun a b => g a < g b) :
    ∀ a ∈ l, ∀ b ∈ l, f a ≤ f b ↔ g a ≤ g b := by
  induction l with
  | nil => exact fun a ha => absurd ha not_mem_nil
  | cons c rest ih =>
    obtain ⟨hfc, hfRest⟩ := pairwise_cons.mp hf
    obtain ⟨hgc, hgRest⟩ := pairwise_cons.mp hg
    intro a ha b hb
    rcases mem_cons.mp ha with rfl | ha' <;> rcases mem_cons.mp hb with rfl | hb'
    · exact ⟨fun _ => le_refl _, fun _ => le_refl _⟩
    · exact ⟨fun _ => le_of_lt (hgc b hb'), fun _ => le_of_lt (hfc b hb')⟩
    · exact ⟨fun h => absurd (hfc a ha') (not_lt.mpr h),
        fun h => absurd (hgc a ha') (not_lt.mpr h)⟩
    · exact ih hfRest hgRest a ha' b hb'

/-- **The order survives only by chance.** When the clock ticks between the
turns, a pass keeps the order of the entries exactly when the map happened to
yield the keys by strictly increasing last access. -/
theorem keepsOrder_iff_sorted (hPass : d.IsPass visits)
    (hNamed : ∀ x ∈ d.store.data, ∃ key : NodeID, x = key.hex)
    (hTicks : visits.Pairwise fun v v' => v.putAt < v'.readAt) :
    d.KeepsOrder visits ↔
      visits.Pairwise fun v v' => d.store.lastAccess v.hex < d.store.lastAccess v'.hex := by
  -- the times after the pass are those of the visits
  have hTouch : visits.Pairwise fun v v' =>
      d.lastTouch visits v.hex < d.lastTouch visits v'.hex := by
    refine hTicks.imp_of_mem fun {v v'} hv hv' hTick => ?_
    have hLow := (lastTouch_self hPass hNamed hv).2
    have hHigh := (lastTouch_self hPass hNamed hv').1
    exact lt_of_le_of_lt hLow (lt_of_lt_of_le hTick hHigh)
  have hStored : ∀ {v}, v ∈ visits → v.hex ∈ d.store.data :=
    fun hv => (hPass.keys _).mp (mem_map_of_mem hv)
  constructor
  · intro hKeeps
    refine hTouch.imp_of_mem fun {v v'} hv hv' hLt => ?_
    by_contra hNot
    exact absurd ((hKeeps _ (hStored hv') _ (hStored hv)).mpr (not_lt.mp hNot)) (not_le.mpr hLt)
  · intro hSorted x hx y hy
    obtain ⟨v, hv, rfl⟩ := mem_map.mp ((hPass.keys x).mpr hx)
    obtain ⟨v', hv', rfl⟩ := mem_map.mp ((hPass.keys y).mpr hy)
    exact le_iff_le_of_sorted hTouch hSorted v hv v' hv'

/-- What a pass leaves alone, by the times that it leaves behind. -/
theorem undisturbed_iff (hBudget : d.store.InBudget) (hPass : d.IsPass visits) :
    Undisturbed d.store (d.republishAll visits).store ↔ d.OwnOnly ∧ d.KeepsOrder visits := by
  have hKept := republishAll_kept hBudget visits
  constructor
  · intro h
    refine ⟨fun key value hValue hGate hOwned => ?_, fun x hx y hy => ?_⟩
    · -- the pass comes to this key, since it comes to all
      have hMem := (hPass.keys key.hex).mpr (mem_of_lookup_eq_some hValue)
      obtain ⟨v, hv, hHex⟩ := mem_map.mp hMem
      have hRewritten : visits.any (d.rewritten key.hex) = true := by
        refine any_eq_true.mpr ⟨v, hv, ?_⟩
        rw [rewritten, entryOf_self hHex hValue, Option.any_some, hGate,
          decide_eq_true rfl, Bool.and_true]
      have hLost := republishAll_attribution hBudget visits key.hex
      rw [if_pos hRewritten, h.attribution] at hLost
      exact lookup_eq_none.mp hLost hOwned
    · rw [← republishAll_lastAccess hBudget, ← republishAll_lastAccess hBudget]
      exact h.order x hx y hy
  · rintro ⟨hOwn, hOrder⟩
    have hNobody : ∀ v ∈ visits, ∀ key value, d.entryOf v = some (key, value) →
        d.rewrites key value = true → key.hex ∉ d.store.attribution :=
      fun v _ key value hEntry hGate => hOwn key value (lookup_of_entryOf hEntry).2 hGate
    obtain ⟨hAttribution, hPerPeer⟩ := republishAll_owners hBudget hNobody
    refine ⟨hKept.data, hAttribution, hPerPeer, hKept.total, fun x hx y hy => ?_⟩
    rw [republishAll_lastAccess hBudget, republishAll_lastAccess hBudget]
    exact hOrder x hx y hy

end DHT

/-- **What a pass leaves alone.** From a store whose total is right and within
its budget, a complete pass leaves the accounting and the order of the entries
as they were exactly when none of the entries it writes back is attributed to
a peer and it touches the entries in the order of their last access. Where the
entries are stored under the texts of keys and the clock ticks between the
turns, that is: the map yields them by strictly increasing last access. -/
theorem republish_frame_iff {d : DHT} {visits : List Visit} (hPass : d.IsPass visits)
    (hTotal : d.store.total = d.store.storedBytes)
    (hFits : d.store.maxBytes ≤ 0 ∨ d.store.total ≤ d.store.maxBytes) :
    (DHT.Undisturbed d.store (d.republishAll visits).store ↔
      d.OwnOnly ∧ d.KeepsOrder visits) ∧
    ((∀ x ∈ d.store.data, ∃ key : NodeID, x = key.hex) →
      (visits.Pairwise fun v v' => v.putAt < v'.readAt) →
      (DHT.Undisturbed d.store (d.republishAll visits).store ↔
        d.OwnOnly ∧ visits.Pairwise fun v v' =>
          d.store.lastAccess v.hex < d.store.lastAccess v'.hex)) := by
  have hIff := DHT.undisturbed_iff ⟨hTotal, hFits⟩ hPass
  refine ⟨hIff, fun hNamed hTicks => ?_⟩
  rw [hIff, DHT.keepsOrder_iff_sorted hPass hNamed hTicks]

/-- A node with a byte of a peer (none for its own), stored at time 1, and two
bytes of its own, stored at time 2. -/
def twoEntries (peerID : GoString) : DHT :=
  let s := (LocalStore.new 100 20).put [] (fill 1) [1] peerID 1
  { DHT.new (fill 0) 100 20 with
    store := (s.1.put [] (fill 2) [2, 2] [] 2).1 }

/-- A turn that comes to the key of one byte at the given time. -/
def visitAt (b : UInt8) (now : Time) : Visit :=
  ⟨(fill b).hex, now, now + 1, [], RoutingTable.new (fill 0) true⟩

/-- A pass checked on the keys that there are. -/
theorem DHT.IsPass.of_keys {d : DHT} {visits : List Visit}
    (hNodup : (visits.map fun v => v.hex).Nodup)
    (hKeys : (visits.map fun v => v.hex).toFinset = d.store.data.keys)
    (hPast : ∀ v ∈ visits, ∀ x ∈ d.store.access.keys, d.store.lastAccess x ≤ v.readAt)
    (hReads : ∀ v ∈ visits, v.readAt ≤ v.putAt)
    (hClock : visits.Pairwise fun v v' => v.putAt ≤ v'.readAt) : d.IsPass visits where
  nodup := hNodup
  keys := fun x => by rw [← Finmap.mem_keys, ← hKeys, mem_toFinset]
  past := by
    intro v hv x
    by_cases hx : x ∈ d.store.access
    · exact hPast v hv x (Finmap.mem_keys.mpr hx)
    · rw [LocalStore.lastAccess, lookup_eq_none.mpr hx]
      exact Nat.zero_le _
  reads := hReads
  clock := hClock

/-- A pass over two entries of the node's own, the older one first. -/
theorem republish_frame_twoEntries :
    DHT.Undisturbed (twoEntries []).store
      ((twoEntries []).republishAll [visitAt 1 3, visitAt 2 5]).store := by
  have hPass : (twoEntries []).IsPass [visitAt 1 3, visitAt 2 5] :=
    .of_keys (by decide +kernel) (by decide +kernel) (by decide +kernel) (by decide +kernel)
      (by decide +kernel)
  have hNamed : ∀ x ∈ (twoEntries []).store.data, ∃ key : NodeID, x = key.hex := by
    have hKeys : ∀ x ∈ (twoEntries []).store.data.keys,
        x = (fill 1).hex ∨ x = (fill 2).hex := by decide +kernel
    intro x hx
    rcases hKeys x (Finmap.mem_keys.mpr hx) with rfl | rfl
    · exact ⟨_, rfl⟩
    · exact ⟨_, rfl⟩
  refine ((republish_frame_iff hPass (by decide +kernel) (Or.inr (by decide +kernel))).2 hNamed
    (by decide +kernel)).mpr ⟨fun key value _ _ hOwned => ?_, by decide +kernel⟩
  have hNone : (twoEntries []).store.attribution.keys = ∅ := by decide +kernel
  rw [← Finmap.mem_keys, hNone] at hOwned
  exact absurd hOwned (Finset.notMem_empty _)

/-- A peer has stored one byte, and the map yields the other entry first. The
pass takes the byte off the peer's counter, and the peer's entry, which was
the next to be evicted, is now the last. -/
theorem republish_disowns :
    (twoEntries ['p']).IsPass [visitAt 2 3, visitAt 1 5] ∧
    (twoEntries ['p']).store.total = (twoEntries ['p']).store.storedBytes ∧
    (twoEntries ['p']).store.total ≤ (twoEntries ['p']).store.maxBytes ∧
    (twoEntries ['p']).store.perPeerUsage ['p'] = 1 ∧
    ((twoEntries ['p']).republishAll [visitAt 2 3, visitAt 1 5]).store.perPeerUsage ['p'] = 0 ∧
    ((twoEntries ['p']).republishAll [visitAt 2 3, visitAt 1 5]).store.data =
      (twoEntries ['p']).store.data ∧
    (twoEntries ['p']).store.lastAccess (fill 1).hex <
      (twoEntries ['p']).store.lastAccess (fill 2).hex ∧
    ((twoEntries ['p']).republishAll [visitAt 2 3, visitAt 1 5]).store.lastAccess
        (fill 2).hex <
      ((twoEntries ['p']).republishAll [visitAt 2 3, visitAt 1 5]).store.lastAccess
        (fill 1).hex :=
  ⟨.of_keys (by decide +kernel) (by decide +kernel) (by decide +kernel) (by decide +kernel)
      (by decide +kernel),
    by decide +kernel, by decide +kernel, by decide +kernel, by decide +kernel,
    by decide +kernel, by decide +kernel, by decide +kernel⟩

end AltNet
