import AltNet.Dht.Routing

/-!
# AltNet — runs of the routing table (`core/dht/routing.go`)

`Update`, `Hint` and `Remove` take the table's lock once. `maybeEvictHead`, the
goroutine that `Update` starts when a bucket is full, takes it twice: to read
the callback, and, when the ping has come back, to act on the verdict. Here
these five and `SetEvictionPing` follow each other in any order, with any
number of goroutines under way. The clock never goes back, and it is the one
thing that the table reads from outside.

`Remove` of the node's own identifier, an index panic, ends a run.

The second half of an eviction acts on a head and a candidate from long ago.
It looks for the head again, but not for the candidate, so a candidate that
has meanwhile been entered by another call is entered a second time.

Main results:

* `RoutingTable.update_rule`, `hint_rule`, `remove_rule`, `refresh_rule` — a
  property of buckets that dropping, refreshing and entering contacts keeps is
  kept by the operations;
* `buckets_good` — every bucket is within its capacity, holds the identifiers
  that belong there, and is ordered by the time of the last contact;
* `contacts_unique_iff` — no identifier is in the table twice exactly as long
  as no eviction enters a candidate whose identifier is in the bucket.
-/

namespace AltNet

open List Option

open NodeID (fill)

/-! ## One bucket -/

/-- What the operations at time `now` do to the contacts of a bucket keeps
`P`. -/
structure BucketRule (own : NodeID) (now : Time) (P : Nat → List Contact → Prop) : Prop where
  drop : ∀ {i b} (id : NodeID), P i b → P i (dropContact id b)
  refresh : ∀ {i b x y}, P i b → y ∈ b → y.id = x.id → x.lastSeen = now →
    P i (dropContact x.id b ++ [x])
  push : ∀ {i b x}, P i b → b.length < bucketK → (∀ y ∈ b, y.id ≠ x.id) → x.id ≠ own →
    own.commonPrefixLen x.id = i → x.lastSeen = now → P i (b ++ [x])
  hint : ∀ {i b x}, P i b → b.length < bucketK → (∀ y ∈ b, y.id ≠ x.id) → x.id ≠ own →
    own.commonPrefixLen x.id = i → x.lastSeen = 0 → P i (x :: b)

namespace RoutingTable

variable {rt : RoutingTable} {P : Nat → List Contact → Prop} {now : Time}

theorem forall_setBucket {idx : Nat} {b : List Contact} (h : ∀ i, P i (rt.buckets i))
    (hb : P idx b) (i : Nat) : P i ((rt.setBucket idx b).buckets i) := by
  unfold setBucket
  by_cases hi : i = idx
  · subst hi
    simpa using hb
  · simpa [hi] using h i

variable (hP : BucketRule rt.self now P)

include hP

variable (h : ∀ i, P i (rt.buckets i))

include h

theorem update_rule (c : Contact) : ∀ i, P i ((rt.update c now).1.buckets i) := by
  unfold update
  split
  · exact h
  rename_i hSelf
  dsimp only
  split
  · rename_i existing hFound
    have hMem := mem_of_find?_eq_some hFound
    have hId : existing.id = c.id := by simpa using find?_some hFound
    refine forall_setBucket h ?_
    exact hP.refresh (x := mergeAddresses { c with lastSeen := now } existing) (h _) hMem hId rfl
  · rename_i hNone
    split
    · rename_i hRoom
      refine forall_setBucket h (hP.push (h _) hRoom ?_ hSelf rfl rfl)
      intro y hy hId
      exact absurd hId (by simpa using find?_eq_none.mp hNone y hy)
    · split <;> exact h

theorem hint_rule (c : Contact) : ∀ i, P i ((rt.hint c).buckets i) := by
  unfold hint
  split
  · exact h
  rename_i hSelf
  dsimp only
  split
  · exact h
  rename_i hNew
  split
  · rename_i hRoom
    refine forall_setBucket h (hP.hint (h _) hRoom ?_ hSelf rfl rfl)
    intro y hy hId
    exact hNew (any_eq_true.mpr ⟨y, hy, decide_eq_true hId⟩)
  · exact h

theorem remove_rule {rt' : RoutingTable} {id : NodeID} (hRemove : rt.remove id = some rt') :
    ∀ i, P i (rt'.buckets i) := by
  obtain ⟨-, ⟨⟩⟩ := ite_none_right_eq_some.mp hRemove
  exact forall_setBucket h (hP.drop id (h _))

/-- The head of an eviction that has answered. -/
theorem refresh_rule (e : Eviction) : ∀ i, P i ((rt.maybeEvictHead e true now).buckets i) := by
  unfold maybeEvictHead
  rw [if_pos rfl]
  split
  · exact h
  rename_i head rest hBucket
  split
  · -- the head is the first contact with its identifier
    have hDrop : dropContact head.id (rt.buckets e.idx) = rest := by
      rw [hBucket]
      simp [dropContact]
    have hMem : head ∈ rt.buckets e.idx := by
      rw [hBucket]
      exact mem_cons_self
    have hRefresh := hP.refresh (x := { head with lastSeen := now }) (h e.idx) hMem rfl rfl
    refine forall_setBucket h ?_
    rw [← hDrop]
    exact hRefresh
  · exact h

/-- The head of an eviction that has not answered: it is dropped, and the
candidate is entered if that leaves room. -/
theorem evict_rule (e : Eviction)
    (hEnter : (dropContact e.head.id (rt.buckets e.idx)).length < bucketK →
      P e.idx (dropContact e.head.id (rt.buckets e.idx)) →
      P e.idx (dropContact e.head.id (rt.buckets e.idx) ++ [{ e.candidate with lastSeen := now
      }])) : ∀ i, P i ((rt.maybeEvictHead e false now).buckets i) := by
  unfold maybeEvictHead
  dsimp only
  rw [if_neg (by decide)]
  have hDrop := hP.drop e.head.id (h e.idx)
  refine forall_setBucket h ?_
  split
  · rename_i hRoom
    exact hEnter hRoom hDrop
  · exact hDrop

omit h

omit hP

/-! ## The node stays who it is -/

@[simp] theorem update_self (rt : RoutingTable) (c : Contact) (now : Time) :
    (rt.update c now).1.self = rt.self := by
  unfold update
  dsimp only
  split
  · rfl
  split
  · rfl
  split
  · rfl
  split <;> rfl

@[simp] theorem hint_self (rt : RoutingTable) (c : Contact) : (rt.hint c).self = rt.self := by
  unfold hint
  dsimp only
  split
  · rfl
  split
  · rfl
  split <;> rfl

theorem remove_self {rt' : RoutingTable} {id : NodeID} (h : rt.remove id = some rt') :
    rt'.self = rt.self := by
  obtain ⟨-, ⟨⟩⟩ := ite_none_right_eq_some.mp h
  rfl

@[simp] theorem maybeEvictHead_self (rt : RoutingTable) (e : Eviction) (alive : Bool)
    (now : Time) : (rt.maybeEvictHead e alive now).self = rt.self := by
  unfold maybeEvictHead
  dsimp only
  split
  · split
    · rfl
    split <;> rfl
  · rfl

/-- The candidate of an eviction belongs to the bucket the eviction is of. -/
theorem update_eviction_place {e : Eviction} {c : Contact} (h : (rt.update c now).2 = some e) :
    e.candidate.id ≠ rt.self ∧ rt.self.commonPrefixLen e.candidate.id = e.idx := by
  obtain ⟨-, hSelf, hId, hIdx⟩ := update_eviction h
  rw [hId]
  exact ⟨hSelf, hIdx⟩

end RoutingTable

/-! ## The table and its goroutines -/

/-- The table, the latest time it has read, and the `maybeEvictHead`
goroutines: those that have not yet read the callback, and those whose ping is
out. -/
structure TableState where
  rt : RoutingTable
  clock : Time
  queued : List Eviction
  pinging : List Eviction

inductive TableAction where
  | update (c : Contact) (now : Time)
  | hint (c : Contact)
  | remove (id : NodeID)
  | setEvictionPing (installed : Bool)
  | readPing (e : Eviction)
  | complete (e : Eviction) (alive : Bool) (now : Time)

namespace TableState

/-- `NewRoutingTable`. -/
def init (own : NodeID) (evictionPing : Bool) : TableState :=
  ⟨RoutingTable.new own evictionPing, 0, [], []⟩

/-- The next state; `none` when the step cannot be taken. -/
def next (s : TableState) : TableAction → Option TableState
  | .update c now =>
    if s.clock ≤ now then
      let (rt, started) := s.rt.update c now
      some { s with rt, clock := now, queued := started.toList ++ s.queued }
    else none
  | .hint c => some { s with rt := s.rt.hint c }
  | .remove id => (s.rt.remove id).map fun rt => { s with rt }
  | .setEvictionPing installed => some { s with rt := { s.rt with evictionPing := installed } }
  | .readPing e =>
    if e ∈ s.queued then
      some { s with
        queued := s.queued.erase e
        pinging := if s.rt.evictionPing then e :: s.pinging else s.pinging }
    else none
  | .complete e alive now =>
    if e ∈ s.pinging ∧ s.clock ≤ now then
      some { s with
        rt := s.rt.maybeEvictHead e alive now
        clock := now
        pinging := s.pinging.erase e }
    else none

end TableState

/-- What holds of a bucket when the clock shows `clock`. -/
structure GoodBucket (own : NodeID) (clock : Time) (i : Nat) (b : List Contact) : Prop where
  size : b.length ≤ bucketK
  place : ∀ c ∈ b, c.id ≠ own ∧ own.commonPrefixLen c.id = i
  order : b.Pairwise fun a c => a.lastSeen ≤ c.lastSeen
  past : ∀ c ∈ b, c.lastSeen ≤ clock

namespace GoodBucket

variable {own : NodeID} {clock now : Time} {i : Nat} {b : List Contact} {x : Contact}

theorem empty (own : NodeID) (clock : Time) (i : Nat) : GoodBucket own clock i [] where
  size := Nat.zero_le _
  place := nofun
  order := .nil
  past := nofun

theorem later (h : GoodBucket own clock i b) (hClock : clock ≤ now) :
    GoodBucket own now i b where
  __ := h
  past := fun c hc => (h.past c hc).trans hClock

theorem sublist {b' : List Contact} (h : GoodBucket own clock i b) (hSub : b'.Sublist b) :
    GoodBucket own clock i b' where
  size := hSub.length_le.trans h.size
  place := fun c hc => h.place c (hSub.subset hc)
  order := h.order.sublist hSub
  past := fun c hc => h.past c (hSub.subset hc)

/-- A contact that was heard from just now goes to the tail. -/
theorem append (h : GoodBucket own now i b) (hRoom : b.length < bucketK)
    (hPlace : x.id ≠ own ∧ own.commonPrefixLen x.id = i) (hSeen : x.lastSeen = now) :
    GoodBucket own now i (b ++ [x]) where
  size := by
    rw [length_append, length_singleton]
    omega
  place := by
    intro c hc
    rcases mem_append.mp hc with hc | hc
    · exact h.place c hc
    · rw [mem_singleton.mp hc]
      exact hPlace
  order := by
    refine pairwise_append.mpr ⟨h.order, pairwise_singleton _ _, ?_⟩
    intro a ha c hc
    rw [mem_singleton.mp hc, hSeen]
    exact h.past a ha
  past := by
    intro c hc
    rcases mem_append.mp hc with hc | hc
    · exact h.past c hc
    · rw [mem_singleton.mp hc, hSeen]

/-- A hint goes to the head. -/
theorem cons (h : GoodBucket own now i b) (hRoom : b.length < bucketK)
    (hPlace : x.id ≠ own ∧ own.commonPrefixLen x.id = i) (hSeen : x.lastSeen = 0) :
    GoodBucket own now i (x :: b) where
  size := by
    rw [length_cons]
    omega
  place := by
    intro c hc
    rcases mem_cons.mp hc with rfl | hc
    · exact hPlace
    · exact h.place c hc
  order := by
    refine pairwise_cons.mpr ⟨fun c _ => ?_, h.order⟩
    rw [hSeen]
    exact Nat.zero_le _
  past := by
    intro c hc
    rcases mem_cons.mp hc with rfl | hc
    · rw [hSeen]
      exact Nat.zero_le _
    · exact h.past c hc

theorem rule (own : NodeID) (now : Time) : BucketRule own now (GoodBucket own now) where
  drop id h := h.sublist eraseP_sublist
  refresh {i b x y} h hy hId hSeen := by
    have hLength : (dropContact x.id b).length = b.length - 1 :=
      length_eraseP_of_mem hy (by simpa using hId)
    have hPos : 0 < b.length := length_pos_of_mem hy
    have hSize := h.size
    refine (h.sublist eraseP_sublist).append ?_ ?_ hSeen
    · show (dropContact x.id b).length < bucketK
      omega
    · rw [← hId]
      exact h.place y hy
  push h hRoom _ hSelf hPlace hSeen := h.append hRoom ⟨hSelf, hPlace⟩ hSeen
  hint h hRoom _ hSelf hPlace hSeen := h.cons hRoom ⟨hSelf, hPlace⟩ hSeen

end GoodBucket

namespace TableState

/-- What holds of every eviction that `Update` starts holds of all that are
under way. -/
theorem pending_step {R : Eviction → Prop} {s s' : TableState} {a : TableAction}
    (hStart : ∀ c now {e}, a = .update c now → (s.rt.update c now).2 = some e → R e)
    (h : ∀ e ∈ s.queued ++ s.pinging, R e) (hStep : s.next a = some s') :
    ∀ e ∈ s'.queued ++ s'.pinging, R e := by
  cases a with
  | update c now =>
    obtain ⟨-, ⟨⟩⟩ := ite_none_right_eq_some.mp hStep
    intro e he
    rw [append_assoc] at he
    rcases mem_append.mp he with hNew | hOld
    · exact hStart c now rfl (mem_toList.mp hNew)
    · exact h e hOld
  | hint c =>
    cases hStep
    exact h
  | remove id =>
    obtain ⟨rt, -, rfl⟩ := map_eq_some_iff.mp hStep
    exact h
  | setEvictionPing installed =>
    cases hStep
    exact h
  | readPing e =>
    obtain ⟨hQueued, ⟨⟩⟩ := ite_none_right_eq_some.mp hStep
    intro e' he'
    apply h e'
    rcases mem_append.mp he' with hLeft | hOut
    · exact mem_append_left _ (mem_of_mem_erase hLeft)
    split at hOut
    · rcases mem_cons.mp hOut with rfl | hOut
      · exact mem_append_left _ hQueued
      · exact mem_append_right _ hOut
    · exact mem_append_right _ hOut
  | complete e alive now =>
    obtain ⟨-, ⟨⟩⟩ := ite_none_right_eq_some.mp hStep
    intro e' he'
    apply h e'
    rcases mem_append.mp he' with hLeft | hOut
    · exact mem_append_left _ hLeft
    · exact mem_append_right _ (mem_of_mem_erase hOut)

/-- What holds in every state. -/
structure Good (own : NodeID) (s : TableState) : Prop where
  self_eq : s.rt.self = own
  bucket : ∀ i, GoodBucket own s.clock i (s.rt.buckets i)
  pending : ∀ e ∈ s.queued ++ s.pinging,
    e.candidate.id ≠ own ∧ own.commonPrefixLen e.candidate.id = e.idx

namespace Good

variable {own : NodeID} {s s' : TableState}

theorem init (own : NodeID) (evictionPing : Bool) : (init own evictionPing).Good own where
  self_eq := rfl
  bucket := fun i => .empty own 0 i
  pending := nofun

theorem step {a : TableAction} (h : s.Good own) (hStep : stepOf next s a s') :
    s'.Good own := by
  have hStep : s.next a = some s' := hStep
  obtain ⟨rfl, hBucket, hPending⟩ := h
  have hPending' := pending_step (fun _ _ _ _ => RoutingTable.update_eviction_place) hPending hStep
  cases a with
  | update c now =>
    obtain ⟨hClock, ⟨⟩⟩ := ite_none_right_eq_some.mp hStep
    refine ⟨RoutingTable.update_self _ _ _, ?_, hPending'⟩
    exact RoutingTable.update_rule (GoodBucket.rule _ now) (fun i => (hBucket i).later hClock) c
  | hint c =>
    cases hStep
    refine ⟨RoutingTable.hint_self _ _, ?_, hPending'⟩
    exact RoutingTable.hint_rule (GoodBucket.rule _ s.clock) hBucket c
  | remove id =>
    obtain ⟨rt, hRemove, rfl⟩ := map_eq_some_iff.mp hStep
    refine ⟨RoutingTable.remove_self hRemove, ?_, hPending'⟩
    exact RoutingTable.remove_rule (GoodBucket.rule _ s.clock) hBucket hRemove
  | setEvictionPing installed =>
    cases hStep
    exact ⟨rfl, hBucket, hPending'⟩
  | readPing e =>
    obtain ⟨-, ⟨⟩⟩ := ite_none_right_eq_some.mp hStep
    exact ⟨rfl, hBucket, hPending'⟩
  | complete e alive now =>
    obtain ⟨hReady, hStep⟩ := ite_none_right_eq_some.mp hStep
    obtain ⟨hOut, hClock⟩ := hReady
    cases hStep
    have hNow : ∀ i, GoodBucket s.rt.self now i (s.rt.buckets i) := fun i =>
      (hBucket i).later hClock
    refine ⟨RoutingTable.maybeEvictHead_self _ _ _ _, ?_, hPending'⟩
    cases alive with
    | true => exact RoutingTable.refresh_rule (GoodBucket.rule _ now) hNow e
    | false =>
      have hPlace := hPending e (mem_append_right _ hOut)
      exact RoutingTable.evict_rule (GoodBucket.rule _ now) hNow e fun hRoom hDrop =>
        hDrop.append hRoom hPlace rfl

theorem run {evictionPing : Bool} {as : List TableAction}
    (hRun : Exec (stepOf next) (TableState.init own evictionPing) as s) : s.Good own :=
  hRun.invariant (I := Good own) (init own evictionPing) fun h hStep => h.step hStep

end Good

end TableState

/-- **The k-bucket invariant.** However `Update`, `Hint`, `Remove` and the
halves of `maybeEvictHead` follow each other, a bucket never has more than `K`
contacts; the contacts of bucket `i` share exactly `i` bits with the node,
which is never among them; and a bucket is ordered by `LastSeen`, so contacts
that were only hinted at come before those that have been heard from. -/
theorem buckets_good (own : NodeID) (evictionPing : Bool) {as : List TableAction}
    {s : TableState} (hRun : Exec (stepOf TableState.next) (TableState.init own evictionPing) as s)
    (i : Nat) :
    (s.rt.buckets i).length ≤ bucketK ∧
    (∀ c ∈ s.rt.buckets i, own.commonPrefixLen c.id = i ∧ i < 256 ∧ c.id ≠ own) ∧
    ((s.rt.buckets i).Pairwise fun a c => a.lastSeen ≤ c.lastSeen) ∧
    ((s.rt.buckets i).Pairwise fun a c => c.lastSeen = 0 → a.lastSeen = 0) := by
  have hGood := (TableState.Good.run hRun).bucket i
  have hHints : (s.rt.buckets i).Pairwise fun a c => c.lastSeen = 0 → a.lastSeen = 0 :=
    hGood.order.imp fun hLe hZero => Nat.le_zero.mp (hLe.trans_eq hZero)
  refine ⟨hGood.size, fun c hc => ?_, hGood.order, hHints⟩
  obtain ⟨hSelf, hPlace⟩ := hGood.place c hc
  have hIndex : own.commonPrefixLen c.id < bucketCount := commonPrefixLen_lt hSelf
  rw [hPlace] at hIndex
  exact ⟨hPlace, hIndex, hSelf⟩

/-- A contact whose identifier is made of one byte. -/
def contactAt (b : UInt8) (now : Time) : Contact := ⟨fill b, [], [], now⟩

/-- The eviction that the contact 148 starts, in a bucket that was filled in
the order of 128 to 147. -/
def sampleEviction : Eviction := ⟨0, contactAt 128 1, contactAt 148 21⟩

/-- Fill a bucket, and hear from one contact more. -/
def filledRun : List TableAction :=
  ((List.range 21).map fun n => .update (contactAt (UInt8.ofNat (128 + n)) 0) (n + 1)) ++
    [.readPing sampleEviction]

/-- A run of all the operations, with an eviction that keeps its head. -/
def mixedRun : List TableAction :=
  filledRun ++ [.complete sampleEviction true 23, .remove (fill 130),
    .hint (contactAt 149 7)]

/-- The hint is at the head, the refreshed contact at the tail. -/
theorem buckets_good_mixedRun :
    ∃ s, Exec (stepOf TableState.next) (TableState.init (fill 0) true) mixedRun s ∧
      (s.rt.buckets 0).head? = some (contactAt 149 0) ∧
      (s.rt.buckets 0).getLast? = some (contactAt 128 23) ∧
      (s.rt.buckets 0).length ≤ bucketK ∧
      (s.rt.buckets 0).Pairwise fun a c => a.lastSeen ≤ c.lastSeen := by
  refine Exec.exists_of_runFrom (p := fun s => (s.rt.buckets 0).head? = some (contactAt 149 0) ∧
    (s.rt.buckets 0).getLast? = some (contactAt 128 23)) (by decide +kernel) ?_
  rintro s hRun ⟨hHead, hLast⟩
  obtain ⟨hSize, -, hOrder, -⟩ := buckets_good (fill 0) true hRun 0
  exact ⟨hHead, hLast, hSize, hOrder⟩

/-! ## No identifier twice -/

/-- No identifier is in the table twice; what `Remove` is told to delete is
gone, and `Closest` returns no identifier twice. -/
def RoutingTable.Unique (rt : RoutingTable) : Prop :=
  (rt.all.map Contact.id).Nodup ∧
  (∀ id rt', rt.remove id = some rt' → ∀ c ∈ rt'.all, c.id ≠ id) ∧
  (∀ target n, ((rt.closest target n).map Contact.id).Nodup)

/-- No identifier is in the bucket twice. -/
def DistinctIds (b : List Contact) : Prop := (b.map Contact.id).Nodup

namespace DistinctIds

variable {b : List Contact} {x : Contact} {id : NodeID}

theorem append_singleton_iff (h : DistinctIds b) :
    DistinctIds (b ++ [x]) ↔ ∀ y ∈ b, y.id ≠ x.id := by
  unfold DistinctIds at h ⊢
  rw [map_append, map_singleton, nodup_append]
  constructor
  · rintro ⟨-, -, hApart⟩ y hy
    exact hApart y.id (mem_map_of_mem hy) x.id (mem_singleton_self _)
  · intro hFresh
    refine ⟨h, nodup_singleton _, ?_⟩
    intro i hi j hj
    obtain ⟨y, hy, rfl⟩ := mem_map.mp hi
    rw [mem_singleton.mp hj]
    exact hFresh y hy

theorem dropContact (h : DistinctIds b) (id : NodeID) : DistinctIds (dropContact id b) :=
  List.Nodup.sublist (eraseP_sublist.map _) h

/-- In a bucket without repetitions the first occurrence is the only one. -/
theorem ne_of_mem_dropContact (h : DistinctIds b) (hx : x ∈ AltNet.dropContact id b) :
    x.id ≠ id := by
  induction b with
  | nil => cases hx
  | cons c rest ih =>
    have hCons : c.id ∉ rest.map Contact.id ∧ (rest.map Contact.id).Nodup := nodup_cons.mp h
    by_cases hc : c.id = id
    · have hRest : x ∈ rest := by simpa [AltNet.dropContact, hc] using hx
      intro hId
      apply hCons.1
      rw [hc, ← hId]
      exact mem_map_of_mem hRest
    · have hCases : x = c ∨ x ∈ AltNet.dropContact id rest := by
        simpa [AltNet.dropContact, hc] using hx
      rcases hCases with rfl | hRest
      · exact hc
      · exact ih hCons.2 hRest

theorem rule (own : NodeID) (now : Time) : BucketRule own now fun _ => DistinctIds where
  drop id h := h.dropContact id
  refresh h _ _ _ := (h.dropContact _).append_singleton_iff.mpr fun _ => h.ne_of_mem_dropContact
  push h _ hFresh _ _ _ := h.append_singleton_iff.mpr hFresh
  hint {i b x} h _ hFresh _ _ _ := by
    refine nodup_cons.mpr ⟨?_, h⟩
    intro hMem
    obtain ⟨y, hy, hId⟩ := mem_map.mp hMem
    exact hFresh y hy hId

end DistinctIds

open DistinctIds

namespace RoutingTable

variable {rt : RoutingTable}

/-- Every contact is in the bucket of its identifier, and the node itself in none. -/
def Placed (rt : RoutingTable) : Prop :=
  ∀ i, ∀ c ∈ rt.buckets i, c.id ≠ rt.self ∧ rt.self.commonPrefixLen c.id = i

/-- An identifier has one bucket to be in, so it is enough to look at each
bucket. -/
theorem nodup_all_iff (hPlace : rt.Placed) :
    (rt.all.map Contact.id).Nodup ↔ ∀ i, DistinctIds (rt.buckets i) := by
  have hAll : (rt.all.map Contact.id).Nodup ↔
      (∀ i ∈ List.range bucketCount, DistinctIds (rt.buckets i)) ∧
        (List.range bucketCount).Pairwise
          (Function.onFun List.Disjoint fun i => (rt.buckets i).map Contact.id) := by
    unfold all
    rw [map_flatMap, nodup_flatMap]
    exact Iff.rfl
  constructor
  · intro h i
    by_cases hi : i < bucketCount
    · exact (hAll.mp h).1 i (mem_range.mpr hi)
    have hNil : rt.buckets i = [] := by
      rw [eq_nil_iff_forall_not_mem]
      intro c hc
      obtain ⟨hSelf, hIndex⟩ := hPlace i c hc
      exact hi (hIndex ▸ commonPrefixLen_lt hSelf)
    rw [hNil]
    exact nodup_nil
  · intro h
    refine hAll.mpr ⟨fun i _ => h i, nodup_range.imp fun {i j} hNe => ?_⟩
    -- the two buckets are for identifiers at different places
    intro id hi hj
    obtain ⟨c, hc, rfl⟩ := mem_map.mp hi
    obtain ⟨c', hc', hId⟩ := mem_map.mp hj
    have hIndex := (hPlace i c hc).2
    have hIndex' := (hPlace j c' hc').2
    rw [hId] at hIndex'
    exact hNe (hIndex.symm.trans hIndex')

/-- `Closest` returns no identifier twice, if the table has none twice. -/
theorem nodup_closest (h : (rt.all.map Contact.id).Nodup) (target : NodeID) (n : Nat) :
    ((rt.closest target n).map Contact.id).Nodup := by
  have hPerm := selectMins_perm (fun a b => distanceLess target a.id b.id) n rt.all
  have hBoth := (hPerm.map Contact.id).nodup_iff.mp h
  rw [map_append] at hBoth
  exact hBoth.of_append_left

theorem unique_iff (hPlace : rt.Placed) : rt.Unique ↔ ∀ i, DistinctIds (rt.buckets i) := by
  constructor
  · intro h
    exact (nodup_all_iff hPlace).mp h.1
  · intro h
    have hIds := (nodup_all_iff hPlace).mpr h
    refine ⟨hIds, ?_, nodup_closest hIds⟩
    intro id rt' hRemove c hc hId
    obtain ⟨i, -, hMem⟩ := mem_all.mp hc
    have hIndex := (hPlace i c (remove_mem hRemove hMem)).2
    obtain ⟨-, ⟨⟩⟩ := ite_none_right_eq_some.mp hRemove
    rw [mem_setBucket, if_pos (by rw [← hIndex, hId])] at hMem
    exact (h _).ne_of_mem_dropContact hMem hId

/-- An eviction of a dead head leaves no identifier twice exactly if the
candidate's is not there. -/
theorem evict_distinct_iff (h : ∀ i, DistinctIds (rt.buckets i)) (e : Eviction) (now : Time) :
    (∀ i, DistinctIds ((rt.maybeEvictHead e false now).buckets i)) ↔
      ((dropContact e.head.id (rt.buckets e.idx)).length < bucketK →
        ∀ c ∈ dropContact e.head.id (rt.buckets e.idx), c.id ≠ e.candidate.id) := by
  have hDrop := (h e.idx).dropContact e.head.id
  constructor
  · intro hAfter hRoom
    have hBucket := hAfter e.idx
    simp only [maybeEvictHead, setBucket, Bool.false_eq_true, if_false, Function.update_self,
      if_pos hRoom] at hBucket
    exact hDrop.append_singleton_iff (x := { e.candidate with lastSeen := now }).mp hBucket
  · intro hFresh
    exact evict_rule (rule _ now) h e fun hRoom _ =>
      hDrop.append_singleton_iff.mpr (hFresh hRoom)

end RoutingTable

namespace TableState

/-- The step does not enter a candidate whose identifier the bucket has: no
eviction of a dead head finds room while it is there. -/
def NoReentry (s : TableState) : TableAction → Prop
  | .complete e false _ =>
    (dropContact e.head.id (s.rt.buckets e.idx)).length < bucketK →
      ∀ c ∈ dropContact e.head.id (s.rt.buckets e.idx), c.id ≠ e.candidate.id
  | _ => True

instance (s : TableState) (a : TableAction) : Decidable (s.NoReentry a) := by
  unfold NoReentry
  split <;> infer_instance

/-- `NoReentry`, evaluated. -/
def entersFresh (s : TableState) (a : TableAction) : Bool := decide (s.NoReentry a)

variable {own : NodeID} {s s' : TableState}

theorem Good.placed (h : s.Good own) : s.rt.Placed := by
  intro i c hc
  rw [h.self_eq]
  exact (h.bucket i).place c hc

theorem Good.unique_iff (h : s.Good own) :
    s.rt.Unique ↔ ∀ i, DistinctIds (s.rt.buckets i) :=
  RoutingTable.unique_iff h.placed

/-- A step from a table without repetitions leaves one exactly if it enters no
candidate again. -/
theorem unique_step_iff {a : TableAction} (h : s.Good own) (hUnique : s.rt.Unique)
    (hStep : stepOf next s a s') : s'.rt.Unique ↔ s.NoReentry a := by
  rw [(h.step hStep).unique_iff]
  have hDistinct := h.unique_iff.mp hUnique
  have hStep : s.next a = some s' := hStep
  cases a with
  | update c now =>
    obtain ⟨-, ⟨⟩⟩ := ite_none_right_eq_some.mp hStep
    exact iff_of_true (RoutingTable.update_rule (rule _ now) hDistinct c) trivial
  | hint c =>
    cases hStep
    exact iff_of_true (RoutingTable.hint_rule (rule _ s.clock) hDistinct c) trivial
  | remove id =>
    obtain ⟨rt, hRemove, rfl⟩ := map_eq_some_iff.mp hStep
    have hAfter := RoutingTable.remove_rule (rule _ s.clock) hDistinct hRemove
    exact iff_of_true hAfter trivial
  | setEvictionPing installed =>
    cases hStep
    exact iff_of_true hDistinct trivial
  | readPing e =>
    obtain ⟨-, ⟨⟩⟩ := ite_none_right_eq_some.mp hStep
    exact iff_of_true hDistinct trivial
  | complete e alive now =>
    obtain ⟨-, ⟨⟩⟩ := ite_none_right_eq_some.mp hStep
    cases alive with
    | true =>
      exact iff_of_true (RoutingTable.refresh_rule (rule _ now) hDistinct e) trivial
    | false => exact RoutingTable.evict_distinct_iff hDistinct e now

end TableState

/-- **When contacts are unique.** All along a run of the table no identifier
is in it twice, `Remove` leaves no contact with the identifier it is given and
`Closest` names nobody twice, if and only if no eviction of a dead head that
finds room meets its candidate's identifier in the bucket. -/
theorem contacts_unique_iff (own : NodeID) (evictionPing : Bool) {as : List TableAction}
    {s : TableState}
    (hRun : Exec (stepOf TableState.next) (TableState.init own evictionPing) as s) :
    Throughout (stepOf TableState.next) (TableState.init own evictionPing) as
        (fun s => s.rt.Unique) ↔
      EachStep (stepOf TableState.next) (TableState.init own evictionPing) as
        TableState.NoReentry := by
  have hInit : (TableState.init own evictionPing).rt.Unique :=
    (TableState.Good.init own evictionPing).unique_iff.mpr fun _ => nodup_nil
  have hRule := throughout_iff_eachStep (P := fun s => s.Good own ∧ s.rt.Unique)
    (Q := TableState.NoReentry) hRun ⟨.init own evictionPing, hInit⟩ stepOf_unique
    fun t a u ht hStep => by
      rw [← TableState.unique_step_iff ht.1 ht.2 hStep]
      exact and_iff_right (ht.1.step hStep)
  rw [← hRule]
  -- the other invariant holds in any case
  constructor
  · intro hAll done t hPre hDone
    exact ⟨TableState.Good.run hDone, hAll done t hPre hDone⟩
  · intro hAll done t hPre hDone
    exact (hAll done t hPre hDone).2

/-- While the ping is out a contact is removed and the candidate entered; then
the head is found dead. -/
def reentryRun : List TableAction :=
  filledRun ++ [.remove (fill 129), .update (contactAt 148 0) 22,
    .complete sampleEviction false 23]

/-- **A contact is entered twice.** A peer is heard from, and as its bucket is
full, the head is pinged; another contact is removed; the peer is heard from
again, and now there is room for it. When the head turns out to be dead, the
eviction enters the peer a second time. `Closest` returns it twice then, and
`Remove` leaves one of the two. -/
theorem contact_entered_twice :
    ∃ s, Exec (stepOf TableState.next) (TableState.init (fill 0) true) reentryRun s ∧
      ¬ (s.rt.all.map Contact.id).Nodup ∧
      (∃ rt', s.rt.remove (fill 148) = some rt' ∧
        ∃ c ∈ rt'.all, c.id = fill 148) ∧
      ¬ ((s.rt.closest (fill 148) 2).map Contact.id).Nodup := by
  refine Exec.exists_of_runFrom (p := fun s => ¬ (s.rt.all.map Contact.id).Nodup ∧
      (s.rt.remove (fill 148)).map (fun rt' =>
        rt'.all.any fun c => decide (c.id = fill 148)) = some true ∧
      ¬ ((s.rt.closest (fill 148) 2).map Contact.id).Nodup) (by decide +kernel) ?_
  rintro s - ⟨hTwice, hLeft, hClosest⟩
  refine ⟨hTwice, ?_, hClosest⟩
  obtain ⟨rt', hRemove, hAny⟩ := map_eq_some_iff.mp hLeft
  obtain ⟨c, hc, hId⟩ := any_eq_true.mp hAny
  exact ⟨rt', hRemove, c, hc, of_decide_eq_true hId⟩

/-- The same eviction with nothing between the ping and its answer. -/
def plainRun : List TableAction := filledRun ++ [.complete sampleEviction false 23]

/-- The candidate takes the place of the dead head, and contacts are unique
all along. -/
theorem contacts_unique_plainRun :
    ∃ s, Exec (stepOf TableState.next) (TableState.init (fill 0) true) plainRun s ∧
      (s.rt.buckets 0).getLast? = some (contactAt 148 23) ∧
      Throughout (stepOf TableState.next) (TableState.init (fill 0) true) plainRun
        (fun s => s.rt.Unique) := by
  refine Exec.exists_of_eachStep
    (p := fun s => (s.rt.buckets 0).getLast? = some (contactAt 148 23))
    TableState.next TableState.entersFresh stepOf_unique
    (fun hNext hOk => ⟨hNext, of_decide_eq_true hOk⟩) (by decide +kernel) ?_
  exact fun s hRun hEach hLast => ⟨hLast, (contacts_unique_iff _ true hRun).mpr hEach⟩

end AltNet
