import AltNet.Dht.Buckets
import AltNet.Dht.Lookup

/-!
# AltNet — looking up nodes (`core/dht/dht.go`)

`Lookup` walks towards an identifier as a value lookup does, with `FindNode` for
its requests, and returns the last shortlist. The contacts that it asks may
answer whatever they like and go on inventing nearer ones.

`FindNode` refreshes a contact only when it has answered with a list of
contacts, so a reply of another kind counts as none (`Remote.findNodes`).

Main results:

* `refreshed_rule`, `hintAll_rule` — the requests and the hints of a round keep
  what `Update` and `Hint` keep;
* `LookupInv.round`, `LookupInv.run` — what one round and a whole lookup keep;
* `lookup_well_formed` — a lookup that nobody disturbs ends, asks nobody twice and
  never itself, and returns the nearest contacts of its table.
-/

namespace AltNet

open List RoutingTable

open NodeID (fill)

/-- The network as `FindNode` sees it. -/
def Remote.findNodes (net : Remote) : Remote :=
  { net with
    reply := fun n c =>
      match net.reply n c with
      | .contacts cs => .contacts cs
      | _ => .failed }

/-- The outcome of a `Lookup`, with the walk it made. -/
structure NodeLookup where
  dht : DHT
  walk : Walk
  contacts : List Contact

/-- `sort.SliceStable` by the distance to the target. -/
def sortByDistance (target : NodeID) (cs : List Contact) : List Contact :=
  cs.mergeSort fun a b => !distanceLess target b.id a.id

/-- `Lookup`, with at most `fuel` rounds. -/
def DHT.lookup (d : DHT) (net : Remote) (target : NodeID) (fuel : Nat) : Option NodeLookup :=
  (Walk.run net.findNodes target (fun _ => false) false fuel 0 (Walk.start d.rt target [])).map
    fun w => ⟨{ d with rt := w.rt }, w, (sortByDistance target w.shortlist).take bucketK⟩

/-! ## The buckets -/

/-- Contacts stay in the buckets of their identifiers. -/
theorem placed_rule (own : NodeID) (now : Time) : BucketRule own now fun i b =>
    ∀ c ∈ b, c.id ≠ own ∧ own.commonPrefixLen c.id = i where
  drop id h c hc := h c (mem_of_mem_eraseP hc)
  refresh := by
    intro i b x y h hy hId _ c hc
    rcases mem_append.mp hc with hc | hc
    · exact h c (mem_of_mem_eraseP hc)
    · rw [mem_singleton.mp hc, ← hId]
      exact h y hy
  push := by
    intro i b x h _ _ hSelf hIndex _ c hc
    rcases mem_append.mp hc with hc | hc
    · exact h c hc
    · rw [mem_singleton.mp hc]
      exact ⟨hSelf, hIndex⟩
  hint := by
    intro i b x h _ _ hSelf hIndex _ c hc
    rcases mem_cons.mp hc with rfl | hc
    · exact ⟨hSelf, hIndex⟩
    · exact h c hc

section Rules

variable {net : Remote} {P : Nat → List Contact → Prop} {n : Nat} {own : NodeID}

/-- The requests of a round keep what `Update` keeps. -/
theorem refreshed_rule (hP : BucketRule own (net.now n) P) (batch : List Contact)
    {rt : RoutingTable} (hSelf : rt.self = own) (h : ∀ i, P i (rt.buckets i)) :
    (net.refreshed n batch rt).self = own ∧ ∀ i, P i ((net.refreshed n batch rt).buckets i) := by
  unfold Remote.refreshed
  induction net.refreshOrder n batch generalizing rt with
  | nil => exact ⟨hSelf, h⟩
  | cons c rest ih =>
    rw [foldl_cons]
    split
    · exact ih hSelf h
    · refine ih (by rw [update_self, hSelf]) ?_
      rw [← hSelf] at hP
      exact update_rule hP h c

/-- The hints of a round keep what `Hint` keeps. -/
theorem hintAll_rule {now : Time} (hP : BucketRule own now P) (cs : List Contact)
    {rt : RoutingTable} (hSelf : rt.self = own) (h : ∀ i, P i (rt.buckets i)) :
    (rt.hintAll cs).self = own ∧ ∀ i, P i ((rt.hintAll cs).buckets i) := by
  unfold RoutingTable.hintAll
  induction cs generalizing rt with
  | nil => exact ⟨hSelf, h⟩
  | cons c rest ih =>
    rw [foldl_cons]
    split
    · exact ih hSelf h
    · refine ih (by rw [hint_self, hSelf]) ?_
      rw [← hSelf] at hP
      exact hint_rule hP h c

end Rules

/-! ## Rounds -/

/-- What holds of an undisturbed lookup at the head of its loop and at its end. -/
structure LookupInv (own target : NodeID) (w : Walk) : Prop where
  self : w.rt.self = own
  placed : ∀ i, ∀ c ∈ w.rt.buckets i, c.id ≠ own ∧ own.commonPrefixLen c.id = i
  distinct : ∀ i, DistinctIds (w.rt.buckets i)
  listed : w.shortlist = w.rt.closest target bucketK
  queried : ∀ e ∈ w.asked, e.2.id.hex ∈ w.queried
  once : (w.asked.map fun e => e.2.id).Nodup
  stranger : ∀ e ∈ w.asked, e.2.id ≠ own

namespace LookupInv

variable {own target : NodeID} {w w' : Walk} {net : Remote} {accepts : Bytes → Bool} {n : Nat}

theorem start {rt : RoutingTable} (hPlaced : rt.Placed)
    (hUnique : (rt.all.map Contact.id).Nodup) (target : NodeID) (values : List Bytes) :
    LookupInv rt.self target (Walk.start rt target values) where
  self := rfl
  placed := hPlaced
  distinct := (nodup_all_iff hPlaced).mp hUnique
  listed := rfl
  queried := nofun
  once := nodup_nil
  stranger := nofun

/-- No identifier is in the table twice. -/
theorem nodup_all (h : LookupInv own target w) : (w.rt.all.map Contact.id).Nodup := by
  refine (nodup_all_iff ?_).mpr h.distinct
  intro i c hc
  rw [h.self]
  exact h.placed i c hc

theorem mem_shortlist_of_mem_batch {c : Contact} (hc : c ∈ w.batch) : c ∈ w.shortlist :=
  mem_of_mem_filter (mem_of_mem_take hc)

/-- Those who are asked in a round are different, and have not been asked before. -/
theorem asked_once (h : LookupInv own target w) :
    ((w.asked ++ w.batch.map fun c => (n, c)).map fun e => e.2.id).Nodup := by
  have hBatch : (w.batch.map Contact.id).Nodup := by
    have hList := nodup_closest h.nodup_all target bucketK
    rw [← h.listed] at hList
    exact hList.sublist (((take_sublist _ _).trans filter_sublist).map _)
  rw [map_append, map_map]
  refine h.once.append hBatch fun id hOld hNew => ?_
  obtain ⟨e, he, rfl⟩ := mem_map.mp hOld
  obtain ⟨c, hc, hId⟩ := mem_map.mp hNew
  have hFresh := (mem_filter.mp (mem_of_mem_take hc)).2
  rw [decide_eq_true_eq] at hFresh
  refine hFresh ?_
  rw [show c.id = e.2.id from hId]
  exact h.queried e he

/-- The node is not in its own table. -/
theorem asked_stranger (h : LookupInv own target w) :
    ∀ e ∈ w.asked ++ w.batch.map fun c => (n, c), e.2.id ≠ own := by
  intro e he
  rcases mem_append.mp he with he | he
  · exact h.stranger e he
  obtain ⟨c, hc, rfl⟩ := mem_map.mp he
  have hMem := mem_shortlist_of_mem_batch hc
  rw [h.listed] at hMem
  obtain ⟨i, -, hBucket⟩ :=
    mem_all.mp (mem_all_of_mem_closest hMem)
  exact (h.placed i c hBucket).1

/-- **One round keeps the invariant.** -/
theorem round (hQuiet : net.Quiet) (h : LookupInv own target w) :
    LookupInv own target (w.round net target accepts false n) := by
  unfold Walk.round
  split
  · exact { h with }
  rw [Bool.false_and, if_neg Bool.false_ne_true]
  -- Requests first, then hints; the rest of the node does nothing.
  obtain ⟨hSelf, hPlaced⟩ :=
    refreshed_rule (placed_rule own (net.now n)) w.batch h.self h.placed
  obtain ⟨-, hDistinct⟩ :=
    refreshed_rule (DistinctIds.rule own (net.now n)) w.batch h.self h.distinct
  obtain ⟨hSelf', hPlaced'⟩ :=
    hintAll_rule (placed_rule own 0) (net.learned n w.batch) hSelf hPlaced
  obtain ⟨-, hDistinct'⟩ :=
    hintAll_rule (DistinctIds.rule own 0) (net.learned n w.batch) hSelf hDistinct
  refine ⟨hSelf', ?_, ?_, rfl, ?_, h.asked_once, h.asked_stranger⟩
  · intro i
    show ∀ c ∈ net.others n _ i, _
    rw [hQuiet]
    exact hPlaced' i
  · intro i
    show DistinctIds (net.others n _ i)
    rw [hQuiet]
    exact hDistinct' i
  · intro e he
    show e.2.id.hex ∈ w.queried ∪ _
    rw [Finset.mem_union, mem_toFinset]
    rcases mem_append.mp he with he | he
    · exact Or.inl (h.queried e he)
    · obtain ⟨c, hc, rfl⟩ := mem_map.mp he
      exact Or.inr (mem_map.mpr ⟨c, hc, rfl⟩)

/-- **A whole lookup keeps the invariant**, by induction on the rounds. -/
theorem run (hQuiet : net.Quiet) {fuel : Nat} (h : LookupInv own target w)
    (hRun : Walk.run net target accepts false fuel n w = some w') : LookupInv own target w' := by
  induction fuel generalizing n w with
  | zero =>
    rw [Walk.run] at hRun
    split at hRun
    · cases hRun
      exact h
    · cases hRun
  | succ fuel ih =>
    rw [Walk.run] at hRun
    split at hRun
    · cases hRun
      exact h
    · exact ih (h.round hQuiet) hRun

end LookupInv

/-! ## What is returned -/

/-- What `Closest` returns is sorted already. -/
theorem sortByDistance_closest (rt : RoutingTable) (target : NodeID) (n : Nat) :
    sortByDistance target (rt.closest target n) = rt.closest target n := by
  refine mergeSort_of_pairwise ?_
  have hSorted : (rt.closest target n).Pairwise _ := closest_sorted
  refine hSorted.imp fun {a b} hLe => ?_
  rw [Bool.not_eq_true', Bool.eq_false_iff, ne_eq, distanceLess_iff]
  exact Nat.not_lt.mpr hLe

/-- Different contacts of a sorted list come at increasing distances. -/
theorem closest_increasing {rt : RoutingTable} (h : (rt.all.map Contact.id).Nodup)
    (target : NodeID) (n : Nat) :
    (rt.closest target n).Pairwise fun a b => distance target a.id < distance target b.id := by
  have hSorted : (rt.closest target n).Pairwise _ := closest_sorted
  have hIds := pairwise_map.mp (nodup_closest h target n)
  refine (hSorted.and hIds).imp fun {a b} hBoth => ?_
  exact lt_of_le_of_ne hBoth.1 fun hEq => hBoth.2 (distance_injective target hEq)

/-- **`Lookup` ends and is well formed**: nobody is asked twice, the node itself is
not asked, and what is returned are the nearest contacts of the table that the
lookup ends with, one time each and by increasing distance. -/
theorem lookup_well_formed {d : DHT} {net : Remote} {fuel : Nat} (hPlaced : d.rt.Placed)
    (hUnique : (d.rt.all.map Contact.id).Nodup) (hQuiet : net.Quiet) (target : NodeID)
    (hFuel : 2 ^ 256 ≤ fuel) :
    ∃ l, d.lookup net target fuel = some l ∧
      (l.walk.asked.map fun e => e.2.id).Nodup ∧
      (∀ e ∈ l.walk.asked, e.2.id ≠ d.rt.self) ∧
      l.contacts.length = min bucketK l.dht.rt.size ∧
      (∀ c ∈ l.contacts, c ∈ l.dht.rt.all) ∧
      (l.contacts.map Contact.id).Nodup ∧
      (l.contacts.Pairwise fun a b => distance target a.id < distance target b.id) ∧
      ∀ c ∈ l.contacts, ∀ x ∈ l.dht.rt.all, x ∉ l.contacts →
        distance target c.id ≤ distance target x.id := by
  have hQuiet' : net.findNodes.Quiet := hQuiet
  obtain ⟨w, hRun⟩ :=
    DHT.walk_terminates hQuiet' hFuel d.rt target (fun _ => false) false []
  have hInv := (LookupInv.start hPlaced hUnique target []).run hQuiet' hRun
  have hContacts : (sortByDistance target w.shortlist).take bucketK =
      w.rt.closest target bucketK := by
    rw [hInv.listed, sortByDistance_closest, take_closest le_rfl]
  refine ⟨⟨{ d with rt := w.rt }, w, w.rt.closest target bucketK⟩, ?_, hInv.once, hInv.stranger,
    length_closest, fun c hc => mem_all_of_mem_closest hc,
    nodup_closest hInv.nodup_all target bucketK,
    closest_increasing hInv.nodup_all target bucketK,
    fun c hc x hx hOut => closest_le_rest hx hOut c hc⟩
  rw [DHT.lookup, hRun, Option.map_some, hContacts]

/-- The theorem at a node that knows one contact, in a network where everybody
names another one and the node itself. -/
theorem lookup_well_formed_one : ∃ l,
    (nodeKnowing [contactOf 1]).lookup (steadyNet fun _ => .contacts [contactOf 2, contactOf 0])
      (fill 3) (2 ^ 256) = some l ∧
    (l.walk.asked.map fun e => e.2.id).Nodup ∧
    (∀ e ∈ l.walk.asked, e.2.id ≠ fill 0) ∧
    l.contacts.Pairwise fun a b =>
      distance (fill 3) a.id < distance (fill 3) b.id := by
  have hPlaced : (nodeKnowing [contactOf 1]).rt.Placed :=
    @update_rule (RoutingTable.new (fill 0) true) _ _
      (placed_rule (fill 0) 1) (fun _ => nofun) (contactOf 1)
  have hDistinct : ∀ i, DistinctIds ((nodeKnowing [contactOf 1]).rt.buckets i) :=
    @update_rule (RoutingTable.new (fill 0) true) _ _
      (DistinctIds.rule (fill 0) 1) (fun _ => nodup_nil) (contactOf 1)
  have hQuiet : (steadyNet fun _ => .contacts [contactOf 2, contactOf 0]).Quiet := fun _ _ => rfl
  obtain ⟨l, hLookup, hOnce, hStranger, -, -, -, hOrder, -⟩ := lookup_well_formed hPlaced
    ((nodup_all_iff hPlaced).mpr hDistinct) hQuiet (fill 3) le_rfl
  exact ⟨l, hLookup, hOnce, hStranger, hOrder⟩

end AltNet
