import AltNet.Dht.Buckets

/-!
# AltNet — the addresses of a contact (`core/dht/routing.go`)

A peer can be reachable by several addresses, one of which is its primary.
When `Update` meets a contact that the table has, `mergeAddresses` makes the
new address the primary one and keeps all the others, those of the entry and
those of the call, each once.

What an entry should know is a matter of its history. `TracedTable` runs the
table of `Buckets.lean` and keeps beside it, for each identifier in the table,
the calls that have been made for it since it came in: the one that entered
it, and every `Update` after it.

An eviction that enters its candidate a second time does not merge it. The
peer has two entries from then on, `Update` finds now the one and now the
other, and what it adds to one of them the other never has.

Main results:

* `offers_mergeAddresses`, `nodup_mergeAddresses` — what a merge keeps;
* `TableState.origin` — where the entries of a table come from, one statement
  for all the steps;
* `addresses_remembered_iff` — every entry has exactly the addresses of its
  calls as long as no eviction enters a candidate whose identifier is in the
  bucket.
-/

namespace AltNet

open List Option

open NodeID (fill)

/-! ## Merging -/

/-- `x` is one of the non-empty addresses of the contact. -/
def Contact.Offers (c : Contact) (x : GoString) : Prop := x ∈ c.allAddresses ∧ x ≠ []

section Merge

variable {primary x : GoString} {alts ss : List GoString} {c fresh prior : Contact}

theorem Contact.offers_iff : c.Offers x ↔ (x = c.address ∨ x ∈ c.altAddresses) ∧ x ≠ [] := by
  unfold Offers allAddresses
  by_cases hEmpty : c.address = []
  · rw [if_neg (not_not_intro hEmpty), hEmpty]
    tauto
  · rw [if_pos hEmpty, mem_cons]

theorem mem_foldl_addUnseen :
    x ∈ ss.foldl (addUnseen primary) alts ↔ x ∈ alts ∨ x ∈ ss ∧ x ≠ [] ∧ x ≠ primary := by
  induction ss generalizing alts with
  | nil => simp
  | cons s ss ih =>
    rw [foldl_cons, ih, addUnseen]
    split
    · rename_i hSeen
      rcases hSeen with rfl | rfl | hMem <;> simp only [mem_cons] <;> grind
    · rename_i hNew
      simp only [mem_append, mem_cons]
      grind

theorem nodup_foldl_addUnseen (h : alts.Nodup) : (ss.foldl (addUnseen primary) alts).Nodup := by
  induction ss generalizing alts with
  | nil => exact h
  | cons s ss ih =>
    rw [foldl_cons]
    apply ih
    unfold addUnseen
    split
    · exact h
    rename_i hNew
    refine nodup_append.mpr ⟨h, nodup_singleton s, ?_⟩
    intro a ha b hb hEq
    rw [mem_singleton.mp hb] at hEq
    exact hNew (.inr (.inr (hEq ▸ ha)))

/-- A merge loses no address and invents none. -/
theorem offers_mergeAddresses :
    (mergeAddresses fresh prior).Offers x ↔ fresh.Offers x ∨ prior.Offers x := by
  simp only [Contact.offers_iff, mergeAddresses, mem_foldl_addUnseen, not_mem_nil, false_or,
    mem_append, mem_cons]
  tauto

/-- A merge leaves no address twice, the primary one included. -/
theorem nodup_mergeAddresses : (mergeAddresses fresh prior).allAddresses.Nodup := by
  have hAlts : (mergeAddresses fresh prior).altAddresses.Nodup :=
    nodup_foldl_addUnseen nodup_nil
  unfold Contact.allAddresses
  split
  · refine nodup_cons.mpr ⟨fun hMem => ?_, hAlts⟩
    -- the closure has skipped whatever is equal to the primary address
    rcases mem_foldl_addUnseen.mp hMem with hNil | ⟨-, -, hNe⟩
    · cases hNil
    · exact hNe rfl
  · exact hAlts

end Merge

/-! ## What an entry should know -/

/-- The entry is what these calls should have made of it. -/
structure Contact.Tells (e : Contact) (calls : List Contact) : Prop where
  paths : ∀ x, e.Offers x ↔ ∃ c ∈ calls, c.Offers x
  primary : calls.getLast?.map Contact.address = some e.address
  distinct : 2 ≤ calls.length → e.allAddresses.Nodup

namespace Contact.Tells

variable {e : Contact} {calls : List Contact}

theorem single (c : Contact) (t : Time) : { c with lastSeen := t }.Tells [c] where
  paths x := by
    simp only [mem_singleton, exists_eq_left]
    exact Iff.rfl
  primary := rfl
  distinct hTwo := absurd hTwo (by simp)

variable (h : e.Tells calls)

include h

/-- An address says nothing about the time. -/
theorem refreshed (t : Time) : { e with lastSeen := t }.Tells calls :=
  ⟨h.paths, h.primary, h.distinct⟩

theorem merged (c : Contact) (t : Time) :
    (mergeAddresses { c with lastSeen := t } e).Tells (calls ++ [c]) where
  paths x := by
    have hFresh : { c with lastSeen := t }.Offers x ↔ c.Offers x := Iff.rfl
    rw [offers_mergeAddresses, hFresh, h.paths]
    simp only [mem_append, mem_singleton, or_and_right, exists_or, exists_eq_left]
    exact or_comm
  primary := by
    rw [getLast?_concat]
    rfl
  distinct _ := nodup_mergeAddresses

theorem mem_allAddresses {x : GoString} (hx : x ∈ calls.map Contact.address) (hne : x ≠ []) :
    x ∈ e.allAddresses := by
  obtain ⟨c, hc, rfl⟩ := mem_map.mp hx
  have hOffers : c.Offers c.address := offers_iff.mpr ⟨.inl rfl, hne⟩
  exact ((h.paths c.address).mpr ⟨c, hc, hOffers⟩).1

theorem ne_nil : calls ≠ [] := by
  rintro rfl
  exact absurd h.primary (by simp)

end Contact.Tells

/-! ## Where entries come from -/

/-- The contact that a step can enter. -/
def TableAction.brings : TableAction → Option Contact
  | .update c _ => some c
  | .hint c => some c
  | .complete e _ _ => some e.candidate
  | _ => none

/-- Where an entry `x` of the table after the step `a` comes from. -/
inductive Origin (rt : RoutingTable) (a : TableAction) (x : Contact) : Prop
  | kept (y : Contact) (t : Time) (hx : x = { y with lastSeen := t }) (hy : y ∈ rt.all)
      (hOther : ∀ c now, a = .update c now → c.id ≠ y.id)
  | merged (y c : Contact) (now : Time) (hx : x = mergeAddresses { c with lastSeen := now } y)
      (hy : y ∈ rt.all) (hId : y.id = c.id) (hAction : a = .update c now)
  | entered (c : Contact) (t : Time) (hx : x = { c with lastSeen := t })
      (hBrings : a.brings = some c) (hNew : ∀ y ∈ rt.all, y.id ≠ c.id)

namespace RoutingTable

variable {rt : RoutingTable} {c x y : Contact} {now : Time} {e : Eviction} {i : Nat}

theorem Placed.mem_all (h : rt.Placed) (hx : x ∈ rt.buckets i) : x ∈ rt.all := by
  obtain ⟨hSelf, hIndex⟩ := h i x hx
  exact RoutingTable.mem_all.mpr ⟨i, hIndex ▸ commonPrefixLen_lt hSelf, hx⟩

/-- What is not in its bucket is not in the table. -/
theorem Placed.absent (h : rt.Placed)
    (hNew : ∀ y ∈ rt.buckets (rt.self.commonPrefixLen c.id), y.id ≠ c.id) :
    ∀ y ∈ rt.all, y.id ≠ c.id := by
  intro y hy hId
  obtain ⟨i, -, hMem⟩ := RoutingTable.mem_all.mp hy
  have hIndex := (h i y hMem).2
  rw [hId] at hIndex
  exact hNew y (by rwa [hIndex]) hId

theorem mem_setBucket_or {idx : Nat} {b : List Contact} (h : x ∈ (rt.setBucket idx b).buckets i) :
    (x ∈ rt.buckets i ∧ i ≠ idx) ∨ (x ∈ b ∧ i = idx) := by
  rw [mem_setBucket] at h
  split at h
  · exact .inr ⟨h, ‹_›⟩
  · exact .inl ⟨h, ‹_›⟩

/-- An entry that a step other than an `Update` leaves as it is. -/
theorem Placed.kept (h : rt.Placed) {a : TableAction} (hx : x ∈ rt.buckets i)
    (hOther : ∀ c now, a ≠ .update c now) : Origin rt a x :=
  .kept x x.lastSeen rfl (h.mem_all hx) fun c now hEq => absurd hEq (hOther c now)

theorem update_origin (hPlace : rt.Placed) (hDistinct : ∀ i, DistinctIds (rt.buckets i))
    (h : x ∈ (rt.update c now).1.buckets i) : Origin rt (.update c now) x := by
  have hKept : x ∈ rt.buckets i → x.id ≠ c.id → Origin rt (.update c now) x := by
    intro hx hId
    refine .kept x x.lastSeen rfl (hPlace.mem_all hx) ?_
    rintro _ _ ⟨⟩
    exact hId.symm
  -- an entry of another bucket has another identifier
  have hElsewhere : x ∈ rt.buckets i → i ≠ rt.self.commonPrefixLen c.id →
      Origin rt (.update c now) x := by
    intro hx hi
    refine hKept hx fun hId => hi ?_
    rw [← hId, (hPlace i x hx).2]
  unfold update at h
  split at h
  · rename_i hSelf
    exact hKept h fun hId => (hPlace i x h).1 (hId.trans hSelf)
  dsimp only at h
  split at h
  · rename_i existing hFound
    have hMem := mem_of_find?_eq_some hFound
    have hId : existing.id = c.id := by simpa using find?_some hFound
    rcases mem_setBucket_or h with ⟨hx, hi⟩ | ⟨hx, rfl⟩
    · exact hElsewhere hx hi
    · rcases mem_append.mp hx with hx | hx
      · exact hKept (mem_of_mem_dropContact hx) ((hDistinct _).ne_of_mem_dropContact hx)
      · exact .merged existing c now (mem_singleton.mp hx) (hPlace.mem_all hMem) hId rfl
  · rename_i hNone
    have hNew : ∀ y ∈ rt.all, y.id ≠ c.id := by
      refine hPlace.absent fun y hy => ?_
      simpa using find?_eq_none.mp hNone y hy
    split at h
    · rcases mem_setBucket_or h with ⟨hx, hi⟩ | ⟨hx, rfl⟩
      · exact hElsewhere hx hi
      · rcases mem_append.mp hx with hx | hx
        · exact hKept hx (hNew x (hPlace.mem_all hx))
        · exact .entered c now (mem_singleton.mp hx) rfl hNew
    · have hx : x ∈ rt.buckets i := by split at h <;> exact h
      exact hKept hx (hNew x (hPlace.mem_all hx))

theorem hint_origin (hPlace : rt.Placed) (h : x ∈ (rt.hint c).buckets i) :
    Origin rt (.hint c) x := by
  unfold hint at h
  split at h
  · exact hPlace.kept h nofun
  dsimp only at h
  split at h
  · exact hPlace.kept h nofun
  rename_i hNew
  split at h
  · rcases mem_setBucket_or h with ⟨hx, -⟩ | ⟨hx, rfl⟩
    · exact hPlace.kept hx nofun
    · rcases mem_cons.mp hx with hx | hx
      · refine .entered c 0 hx rfl (hPlace.absent fun y hy hId => hNew ?_)
        exact any_eq_true.mpr ⟨y, hy, decide_eq_true hId⟩
      · exact hPlace.kept hx nofun
  · exact hPlace.kept h nofun

/-- The eviction is of the bucket its candidate belongs to, and not of the
candidate itself. -/
structure Fits (rt : RoutingTable) (e : Eviction) : Prop where
  place : rt.self.commonPrefixLen e.candidate.id = e.idx
  apart : e.head.id ≠ e.candidate.id

theorem update_eviction_apart (h : (rt.update c now).2 = some e) :
    e.head.id ≠ e.candidate.id := by
  obtain ⟨⟨-, hOther⟩, -, hId, -⟩ := update_eviction h
  rwa [hId]

theorem complete_ne {b : Bool} (d : Contact) (t : Time) :
    TableAction.complete e b now ≠ .update d t := by
  intro hEq
  cases hEq

theorem refresh_origin (hPlace : rt.Placed)
    (h : x ∈ (rt.maybeEvictHead e true now).buckets i) : Origin rt (.complete e true now) x := by
  simp only [maybeEvictHead, if_true] at h
  split at h
  · exact hPlace.kept h complete_ne
  rename_i head rest hBucket
  split at h
  · rcases mem_setBucket_or h with ⟨hx, -⟩ | ⟨hx, rfl⟩
    · exact hPlace.kept hx complete_ne
    · rcases mem_append.mp hx with hx | hx
      · exact hPlace.kept (i := e.idx) (by simp [hBucket, hx]) complete_ne
      · have hHead : head ∈ rt.buckets e.idx := by simp [hBucket]
        exact .kept head now (mem_singleton.mp hx) (hPlace.mem_all hHead) fun d t hEq =>
          absurd hEq (complete_ne d t)
  · exact hPlace.kept h complete_ne

theorem evict_origin (hPlace : rt.Placed) (hFits : rt.Fits e)
    (hFresh : (dropContact e.head.id (rt.buckets e.idx)).length < bucketK →
      ∀ c ∈ dropContact e.head.id (rt.buckets e.idx), c.id ≠ e.candidate.id)
    (h : x ∈ (rt.maybeEvictHead e false now).buckets i) : Origin rt (.complete e false now) x := by
  simp only [maybeEvictHead, Bool.false_eq_true, if_false] at h
  rcases mem_setBucket_or h with ⟨hx, -⟩ | ⟨hx, rfl⟩
  · exact hPlace.kept hx complete_ne
  split at hx
  · rename_i hRoom
    rcases mem_append.mp hx with hx | hx
    · exact hPlace.kept (mem_of_mem_dropContact hx) complete_ne
    refine .entered e.candidate now (mem_singleton.mp hx) rfl (hPlace.absent ?_)
    rw [hFits.place]
    -- an entry of the candidate would still be there without the head
    intro y hy hId
    refine hFresh hRoom y ((mem_eraseP_of_neg ?_).mpr hy) hId
    simpa [hId] using hFits.apart.symm
  · exact hPlace.kept (mem_of_mem_dropContact hx) complete_ne

end RoutingTable

open RoutingTable

namespace TableState

variable {own : NodeID} {s s' : TableState} {a : TableAction} {x : Contact}

/-- No eviction under way is of its own candidate. -/
def Apart (s : TableState) : Prop := ∀ e ∈ s.queued ++ s.pinging, e.head.id ≠ e.candidate.id

/-- **Where entries come from**, for a step from a good table that enters no
candidate again. -/
theorem origin (h : s.Good own) (hApart : s.Apart) (hDistinct : ∀ i, DistinctIds (s.rt.buckets i))
    (hStep : s.next a = some s') (hFresh : s.NoReentry a) (hx : x ∈ s'.rt.all) :
    Origin s.rt a x := by
  obtain ⟨i, -, hx⟩ := mem_all.mp hx
  cases a with
  | update c now =>
    obtain ⟨-, ⟨⟩⟩ := ite_none_right_eq_some.mp hStep
    exact update_origin h.placed hDistinct hx
  | hint c =>
    cases hStep
    exact hint_origin h.placed hx
  | remove id =>
    obtain ⟨rt, hRemove, rfl⟩ := map_eq_some_iff.mp hStep
    exact h.placed.kept (remove_mem hRemove hx) nofun
  | setEvictionPing installed =>
    cases hStep
    exact h.placed.kept (i := i) hx nofun
  | readPing e =>
    obtain ⟨-, ⟨⟩⟩ := ite_none_right_eq_some.mp hStep
    exact h.placed.kept (i := i) hx nofun
  | complete e alive now =>
    obtain ⟨hReady, ⟨⟩⟩ := ite_none_right_eq_some.mp hStep
    cases alive with
    | true => exact refresh_origin h.placed hx
    | false =>
      have hPending : e ∈ s.queued ++ s.pinging := mem_append_right _ hReady.1
      have hFits : s.rt.Fits e := ⟨h.self_eq ▸ (h.pending e hPending).2, hApart e hPending⟩
      exact evict_origin h.placed hFits hFresh hx

end TableState

/-! ## The table with its history -/

/-- Whether an identifier is in the table. -/
def RoutingTable.has (rt : RoutingTable) (id : NodeID) : Bool :=
  rt.all.any fun c => decide (c.id = id)

/-- The table, and for each identifier in it the calls made for it since it
came in. -/
structure TracedTable where
  table : TableState
  calls : NodeID → List Contact

namespace TracedTable

/-- `NewRoutingTable`. -/
def init (own : NodeID) (evictionPing : Bool) : TracedTable :=
  ⟨TableState.init own evictionPing, fun _ => []⟩

/-- The calls for `id` when the step has been taken, if it is in the table
then. A hint and the second half of an eviction count only if they enter it. -/
def called (r : TracedTable) (id : NodeID) : TableAction → List Contact
  | .update c _ => if c.id = id then r.calls id ++ [c] else r.calls id
  | .hint c => if c.id = id ∧ r.calls id = [] then [c] else r.calls id
  | .complete e _ _ =>
    if e.candidate.id = id ∧ r.calls id = [] then [e.candidate] else r.calls id
  | _ => r.calls id

/-- The next state; a contact that has left the table starts anew. -/
def next (r : TracedTable) (a : TableAction) : Option TracedTable :=
  (r.table.next a).map fun table =>
    ⟨table, fun id => if table.rt.has id then r.called id a else []⟩

/-- **No path is forgotten.** No identifier has two entries, and its entry has
the addresses of its calls. -/
def Remembers (r : TracedTable) : Prop :=
  (r.table.rt.all.map Contact.id).Nodup ∧ ∀ e ∈ r.table.rt.all, e.Tells (r.calls e.id)

/-- What holds in every state as long as no candidate is entered again. -/
structure Told (own : NodeID) (r : TracedTable) : Prop where
  good : r.table.Good own
  apart : r.table.Apart
  silent : ∀ id, (∀ e ∈ r.table.rt.all, e.id ≠ id) → r.calls id = []
  remembers : r.Remembers

variable {own : NodeID} {evictionPing : Bool} {r r' : TracedTable} {a : TableAction}
  {as : List TableAction}

/-- The history is only watched: the runs are those of the table. -/
theorem run_table (hRun : Exec (stepOf next) r as r') :
    Exec (stepOf TableState.next) r.table as r'.table := by
  induction hRun with
  | nil => exact .nil _
  | snoc _ hStep ih =>
    obtain ⟨table, hTable, rfl⟩ := map_eq_some_iff.mp hStep
    exact ih.snoc hTable

theorem Told.init (own : NodeID) (evictionPing : Bool) : (init own evictionPing).Told own where
  good := .init own evictionPing
  apart := nofun
  silent := fun _ _ => rfl
  remembers := by
    have hNone : (TracedTable.init own evictionPing).table.rt.all = [] :=
      flatMap_eq_nil_iff.mpr fun _ _ => rfl
    unfold Remembers
    rw [hNone]
    exact ⟨nodup_nil, nofun⟩

namespace Told

variable (h : r.Told own)

include h

theorem distinct (i : Nat) : DistinctIds (r.table.rt.buckets i) :=
  (nodup_all_iff h.good.placed).mp h.remembers.1 i

/-- An entry knows the calls for it with the step, wherever it comes from. -/
theorem tells {x : Contact} (hOrigin : Origin r.table.rt a x) : x.Tells (r.called x.id a) := by
  cases hOrigin with
  | kept y t hx hy hOther =>
    have hTells := h.remembers.2 y hy
    have hCalls : r.called y.id a = r.calls y.id := by
      cases a with
      | update c now => exact if_neg (hOther c now rfl)
      | hint c | complete e alive now => exact if_neg fun hEnter => hTells.ne_nil hEnter.2
      | remove id => rfl
      | setEvictionPing installed => rfl
      | readPing e => rfl
    subst hx
    show Contact.Tells _ (r.called y.id a)
    rw [hCalls]
    exact hTells.refreshed t
  | merged y c now hx hy hId hAction =>
    subst hx hAction
    have hCalls : r.called c.id (.update c now) = r.calls y.id ++ [c] := by
      rw [hId]
      exact if_pos rfl
    show Contact.Tells _ (r.called c.id (.update c now))
    rw [hCalls]
    exact (h.remembers.2 y hy).merged c now
  | entered c t hx hBrings hNew =>
    have hNone := h.silent c.id hNew
    have hCalls : r.called c.id a = [c] := by
      cases a with
      | update c' now | hint c' | complete e alive now =>
        cases hBrings
        simp [called, hNone]
      | remove id => cases hBrings
      | setEvictionPing installed => cases hBrings
      | readPing e => cases hBrings
    subst hx
    show Contact.Tells _ (r.called c.id a)
    rw [hCalls]
    exact .single c t

/-- A step that loses no path enters no candidate again. -/
theorem noReentry (hStep : stepOf next r a r') (hAfter : r'.Remembers) : r.table.NoReentry a := by
  obtain ⟨table, hTable, rfl⟩ := map_eq_some_iff.mp hStep
  have hUnique := h.good.unique_iff.mpr h.distinct
  refine (TableState.unique_step_iff h.good hUnique hTable).mp ?_
  have hGood := h.good.step hTable
  exact hGood.unique_iff.mpr ((nodup_all_iff hGood.placed).mp hAfter.1)

theorem step (hStep : stepOf next r a r') (hFresh : r.table.NoReentry a) : r'.Told own := by
  obtain ⟨table, hTable, rfl⟩ := map_eq_some_iff.mp hStep
  have hGood := h.good.step hTable
  have hUnique := h.good.unique_iff.mpr h.distinct
  have hUnique' := (TableState.unique_step_iff h.good hUnique hTable).mpr hFresh
  refine ⟨hGood, ?_, ?_, hUnique'.1, ?_⟩
  · exact TableState.pending_step (fun _ _ _ _ => update_eviction_apart) h.apart hTable
  · intro id hAbsent
    refine if_neg fun hHas => ?_
    obtain ⟨e, he, hId⟩ := any_eq_true.mp hHas
    exact hAbsent e he (of_decide_eq_true hId)
  · intro e he
    have hHas : table.rt.has e.id = true := any_eq_true.mpr ⟨e, he, decide_eq_true rfl⟩
    dsimp only
    rw [if_pos hHas]
    exact h.tells (TableState.origin h.good h.apart h.distinct hTable hFresh he)

end Told

end TracedTable

open TracedTable

/-- **When no path is forgotten.** All along a run of the table an identifier
has one entry, whose non-empty addresses are those of the calls made for it
since it came in, whose primary address is that of the last of them, and which
after a merge has no address twice, if and only if no eviction of a dead head
that finds room meets its candidate's identifier in the bucket. -/
theorem addresses_remembered_iff (own : NodeID) (evictionPing : Bool) {as : List TableAction}
    {r : TracedTable}
    (hRun : Exec (stepOf next) (init own evictionPing) as r) :
    Throughout (stepOf next) (init own evictionPing) as
        TracedTable.Remembers ↔
      EachStep (stepOf next) (init own evictionPing) as
        (fun r a => r.table.NoReentry a) :=
  throughout_iff_of_invariant (J := TracedTable.Told own) hRun (.init own evictionPing)
    stepOf_unique (fun _ h => h.remembers)
    (fun _ _ _ h hStep hFresh => h.step hStep hFresh)
    (fun _ _ _ h hStep hAfter => h.noReentry hStep hAfter)

/-- A contact whose identifier is made of one byte, with its addresses. -/
def contactWith (b : UInt8) (address : GoString) (alts : List GoString) : Contact :=
  ⟨fill b, address, alts, 0⟩

/-- A contact that is hinted at, with an address twice and an empty one, then
heard from with other addresses, then without a primary one. -/
def mergingRun : List TableAction :=
  [.hint (contactWith 200 ['a'] [['b'], ['b'], []]),
    .update (contactWith 200 ['c'] [['b'], ['c']]) 1, .update (contactWith 200 [] [['d']]) 2]

/-- The entry has the four addresses of the three calls. -/
theorem addresses_remembered_mergingRun :
    ∃ r, Exec (stepOf next) (init (fill 0) true) mergingRun r ∧
      r.table.rt.all.map Contact.allAddresses = [[['d'], ['c'], ['b'], ['a']]] ∧
      Throughout (stepOf next) (init (fill 0) true) mergingRun
        TracedTable.Remembers := by
  refine Exec.exists_of_eachStep (Q := fun r a => r.table.NoReentry a)
    (p := fun r => r.table.rt.all.map Contact.allAddresses = [[['d'], ['c'], ['b'], ['a']]])
    next (fun r a => decide (r.table.NoReentry a)) stepOf_unique
    (fun hNext hOk => ⟨hNext, of_decide_eq_true hOk⟩) (by decide +kernel) ?_
  exact fun r hRun hEach hAll => ⟨hAll, (addresses_remembered_iff _ true hRun).mpr hEach⟩

/-- The eviction that contact 148 starts with its first address. -/
def splitEviction : Eviction :=
  ⟨0, contactAt 128 1, { contactWith 148 ['a'] [] with lastSeen := 21 }⟩

/-- The run of `reentryRun`, with another address at each call for contact
148, and two calls more. -/
def splitRun : List TableAction :=
  ((List.range 20).map fun n => .update (contactAt (UInt8.ofNat (128 + n)) 0) (n + 1)) ++
    [.update (contactWith 148 ['a'] []) 21, .readPing splitEviction, .remove (fill 129),
      .update (contactWith 148 ['b'] []) 22, .complete splitEviction false 23,
      .update (contactWith 148 ['c'] []) 24, .update (contactWith 148 ['d'] []) 25]

/-- **Two paths are forgotten.** The eviction has entered the peer a second
time. Of the next two calls each is merged into one of the two entries, and no
entry has the three addresses with which the peer was heard from since it came
into the table. -/
theorem paths_forgotten :
    ∃ r, Exec (stepOf next) (init (fill 0) true) splitRun r ∧
      (r.calls (fill 148)).map Contact.address = [['b'], ['c'], ['d']] ∧
      (r.table.rt.all.filter fun e => decide (e.id = fill 148)).map Contact.allAddresses =
        [[['c'], ['b']], [['d'], ['a']]] ∧
      ∀ e ∈ r.table.rt.all, e.id = fill 148 → ¬ e.Tells (r.calls e.id) := by
  refine Exec.exists_of_runFrom (p := fun r =>
    (r.calls (fill 148)).map Contact.address = [['b'], ['c'], ['d']] ∧
    (r.table.rt.all.filter fun e => decide (e.id = fill 148)).map Contact.allAddresses =
      [[['c'], ['b']], [['d'], ['a']]]) (by decide +kernel) ?_
  rintro r - ⟨hCalls, hEntries⟩
  refine ⟨hCalls, hEntries, fun e he hId hTells => ?_⟩
  rw [hId] at hTells
  have hFirst : ['b'] ∈ e.allAddresses := hTells.mem_allAddresses (by simp [hCalls]) (by simp)
  have hLast : ['d'] ∈ e.allAddresses := hTells.mem_allAddresses (by simp [hCalls]) (by simp)
  have hEntry : e.allAddresses ∈ [[['c'], ['b']], [['d'], ['a']]] := by
    rw [← hEntries]
    exact mem_map_of_mem (mem_filter.mpr ⟨he, decide_eq_true hId⟩)
  rcases mem_pair.mp hEntry with hEq | hEq
  · rw [hEq] at hLast
    simp at hLast
  · rw [hEq] at hFirst
    simp at hFirst

end AltNet
