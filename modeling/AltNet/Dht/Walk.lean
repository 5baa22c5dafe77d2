import AltNet.Dht.Node

/-!
# AltNet — the loop of a value lookup (`core/dht/dht.go`)

`getInner` and `GetAllUnverified` walk towards a key in the same way. The
shortlist holds the `bucketK` closest contacts of the routing table. In each
round the first `alpha` of them that have not been asked yet are sent a
`dht_find_value`; the contacts they name are hinted into the table, and the
shortlist is taken anew. The walk ends when everybody on the shortlist has
been asked, or when a round leaves the closest contact as it was.

Whatever a walk does not decide itself is in a `Remote`: the replies, the
order in which the goroutines of a round take their locks, and what the rest
of the node does to the buckets meanwhile. `Update` is called with contacts of
the table, so it starts an eviction only where the rest of the node has taken
the contact out first; the second half of that eviction then counts as the
rest of the node's doing. A walk records whom it has asked in
which round, and the table that its last shortlist but one was taken from;
the code keeps neither.

Main results:

* `WalkInv.round`, `run_inv` — what one round and every whole walk keep,
  whatever the others do;
* `run_reached` — whom a walk has asked when it ends empty-handed;
* `run_values` — a walk returns only what passes the check;
* `run_terminates` — undisturbed, every walk ends.
-/

namespace AltNet

open List RoutingTable

/-- `Alpha`, the number of contacts asked in one round. -/
def alpha : Nat := 3

/-- What comes of one `sendFindValue`: no reply in time, a reply that does not
decode or has another type, a value, or contacts. -/
inductive FindReply where
  | failed
  | malformed
  | value (v : Bytes)
  | contacts (cs : List Contact)
  deriving DecidableEq

/-- Everything outside of a walk, by the number of the round. -/
structure Remote where
  reply : Nat → Contact → FindReply
  refreshOrder : Nat → List Contact → List Contact
  replyOrder : Nat → List Contact → List Contact
  others : Nat → (Nat → List Contact) → Nat → List Contact
  now : Nat → Time
  refresh_perm : ∀ n l, (refreshOrder n l).Perm l
  reply_perm : ∀ n l, (replyOrder n l).Perm l

namespace Remote

/-- Nothing else modifies the table during a walk. -/
def Quiet (net : Remote) : Prop := ∀ n buckets, net.others n buckets = buckets

/-- The `Update` calls of the goroutines of one round. -/
def refreshed (net : Remote) (n : Nat) (batch : List Contact) (rt : RoutingTable) :
    RoutingTable :=
  (net.refreshOrder n batch).foldl
    (fun rt c => if net.reply n c = .failed then rt else (rt.update c (net.now n)).1) rt

/-- The values that the replies of one round carry, if they pass the check. -/
def received (net : Remote) (accepts : Bytes → Bool) (n : Nat) (batch : List Contact) :
    List Bytes :=
  (net.replyOrder n batch).filterMap fun c =>
    match net.reply n c with
    | .value v => if accepts v then some v else none
    | _ => none

/-- The contacts that the replies of one round name. -/
def learned (net : Remote) (n : Nat) (batch : List Contact) : List Contact :=
  (net.replyOrder n batch).flatMap fun c =>
    match net.reply n c with
    | .contacts cs => cs
    | _ => []

end Remote

/-- The loop over `learned`. -/
def RoutingTable.hintAll (rt : RoutingTable) (cs : List Contact) : RoutingTable :=
  cs.foldl (fun rt c => if c.id = rt.self then rt else rt.hint c) rt

/-- The variables of the loop. -/
structure Walk where
  rt : RoutingTable
  queried : Finset GoString
  shortlist : List Contact
  values : List Bytes
  asked : List (Nat × Contact)
  prior : RoutingTable
  done : Bool

namespace Walk

/-- A walk before its first round, with the values there are already. -/
def start (rt : RoutingTable) (key : NodeID) (values : List Bytes) : Walk where
  rt := rt
  queried := ∅
  shortlist := rt.closest key bucketK
  values := values
  asked := []
  prior := rt
  done := false

/-- The loop over the shortlist. -/
def batch (w : Walk) : List Contact :=
  (w.shortlist.filter fun c => decide (c.id.hex ∉ w.queried)).take alpha

/-- The requests of a round, up to `wg.Wait`. -/
def ask (w : Walk) (net : Remote) (accepts : Bytes → Bool) (n : Nat) : Walk :=
  { w with
    rt := net.refreshed n w.batch w.rt
    queried := w.queried ∪ (w.batch.map fun c => c.id.hex).toFinset
    values := w.values ++ net.received accepts n w.batch
    asked := w.asked ++ w.batch.map fun c => (n, c)
    prior := w.rt }

/-- The table after the hints of a round. -/
def hinted (w : Walk) (net : Remote) (n : Nat) (batch : List Contact) : RoutingTable :=
  let rt := w.rt.hintAll (net.learned n batch)
  { rt with buckets := net.others n rt.buckets }

/-- The rest of a round: hint, and compare the closest contacts. -/
def learn (w : Walk) (net : Remote) (key : NodeID) (n : Nat) (batch : List Contact) : Walk :=
  let rt := w.hinted net n batch
  let shortlist := rt.closest key bucketK
  { w with
    rt, shortlist
    done := decide (closestHex key w.shortlist = closestHex key shortlist) }

/-- One round. An `eager` walk, that of `getInner`, returns as soon as it has
a value. -/
def round (w : Walk) (net : Remote) (key : NodeID) (accepts : Bytes → Bool) (eager : Bool)
    (n : Nat) : Walk :=
  if w.batch = [] then { w with done := true }
  else if eager && !(w.ask net accepts n).values.isEmpty then
    { w.ask net accepts n with done := true }
  else (w.ask net accepts n).learn net key n w.batch

/-- The loop from round `n` on, in at most `fuel` rounds. -/
def run (net : Remote) (key : NodeID) (accepts : Bytes → Bool) (eager : Bool) :
    Nat → Nat → Walk → Option Walk
  | 0, _, w => if w.done then some w else none
  | fuel + 1, n, w =>
    if w.done then some w
    else run net key accepts eager fuel (n + 1) (w.round net key accepts eager n)

/-- A request has been sent to `id`. -/
def HasAsked (w : Walk) (id : NodeID) : Prop := ∃ e ∈ w.asked, e.2.id = id

instance (w : Walk) (id : NodeID) : Decidable (w.HasAsked id) :=
  inferInstanceAs (Decidable (∃ e ∈ w.asked, e.2.id = id))

/-- Whom a walk has asked when it ends without having returned early. -/
structure Reached (key : NodeID) (w : Walk) : Prop where
  nearest : ∀ c, w.rt.Nearest key c → w.HasAsked c.id
  front : (∀ c ∈ w.rt.closest key bucketK, w.HasAsked c.id) ∨
    ((∀ c ∈ w.prior.closest key alpha, w.HasAsked c.id) ∧
      closestHex key (w.rt.closest key bucketK) = closestHex key (w.prior.closest key bucketK))

/-- What holds at the head of the loop, and when it has ended. -/
structure WalkInv (net : Remote) (key : NodeID) (accepts : Bytes → Bool) (eager : Bool)
    (w : Walk) : Prop where
  listed : w.done = false → w.shortlist = w.rt.closest key bucketK
  queried : ∀ h, h ∈ w.queried ↔ ∃ e ∈ w.asked, e.2.id.hex = h
  values : ∀ e ∈ w.asked, ∀ v, net.reply e.1 e.2 = .value v → accepts v = true → v ∈ w.values
  reached : w.done = true → (eager = true ∧ w.values ≠ []) ∨ w.Reached key

variable {w w' : Walk} {net : Remote} {key : NodeID} {accepts : Bytes → Bool} {eager : Bool}
  {n : Nat}

/-! ## One round -/

variable {c : Contact} {fuel : Nat} {v : Bytes}

theorem mem_received {batch : List Contact} (hc : c ∈ batch) (hReply : net.reply n c = .value v)
    (hv : accepts v = true) : v ∈ net.received accepts n batch := by
  have hMem : c ∈ net.replyOrder n batch := (net.reply_perm n batch).mem_iff.mpr hc
  exact mem_filterMap.mpr ⟨c, hMem, by simp [hReply, hv]⟩

/-- The code's `queried` map is the identifiers that have been asked. -/
theorem WalkInv.hasAsked_iff (h : WalkInv net key accepts eager w) (id : NodeID) :
    w.HasAsked id ↔ id.hex ∈ w.queried := by
  rw [h.queried, HasAsked]
  constructor
  · rintro ⟨e, he, rfl⟩
    exact ⟨e, he, rfl⟩
  · rintro ⟨e, he, hHex⟩
    exact ⟨e, he, NodeID.hex_injective hHex⟩

/-- After the requests of a round, the front of the shortlist has been
asked. -/
theorem mem_queried_of_mem_take (w : Walk) (hc : c ∈ w.shortlist.take alpha) :
    c.id.hex ∈ (w.ask net accepts n).queried := by
  show c.id.hex ∈ w.queried ∪ _
  rw [Finset.mem_union, mem_toFinset]
  by_cases hOld : c.id.hex ∈ w.queried
  · exact .inl hOld
  right
  -- leaving out others can only move a contact further to the front
  have hFront : ((w.shortlist.take alpha).filter fun c => decide (c.id.hex ∉ w.queried)) <+:
      w.batch := by
    unfold batch
    rw [prefix_take_iff]
    refine ⟨( take_prefix _ _).filter _, ?_⟩
    exact (length_filter_le _ _).trans (length_take_le _ _)
  have hBatch : c ∈ w.batch :=
    hFront.subset (mem_filter.mpr ⟨hc, by simpa using hOld⟩)
  exact mem_map.mpr ⟨c, hBatch, rfl⟩

/-- A walk whose shortlist has been asked in full has no batch, and the other
way round. -/
theorem batch_eq_nil_iff : w.batch = [] ↔ ∀ c ∈ w.shortlist, c.id.hex ∈ w.queried := by
  unfold batch
  rw [take_eq_nil_iff]
  simp [alpha]

/-- A walk that has somebody to ask has a nearest contact, at the front of its
shortlist. -/
theorem exists_head (w : Walk) (hList : w.shortlist = w.rt.closest key bucketK)
    (hBatch : w.batch ≠ []) :
    ∃ c, w.rt.Nearest key c ∧ c ∈ w.rt.closest key alpha := by
  have hNonempty : w.rt.closest key bucketK ≠ [] := by
    intro hNil
    rw [← hList] at hNil
    exact hBatch (by simp [batch, hNil])
  obtain ⟨c, rest, hShort⟩ := exists_cons_of_ne_nil hNonempty
  refine ⟨c, nearest_of_closest hShort, ?_⟩
  rw [← take_closest (show alpha ≤ bucketK by decide), hShort]
  simp [alpha]

/-- The requests of a round are recorded, and their replies are. -/
theorem WalkInv.ask (h : WalkInv net key accepts eager w) :
    (∀ x, x ∈ (w.ask net accepts n).queried ↔
      ∃ e ∈ (w.ask net accepts n).asked, e.2.id.hex = x) ∧
    (∀ e ∈ (w.ask net accepts n).asked, ∀ v, net.reply e.1 e.2 = .value v → accepts v = true →
      v ∈ (w.ask net accepts n).values) := by
  constructor
  · intro x
    show x ∈ w.queried ∪ _ ↔ ∃ e ∈ w.asked ++ _, _
    rw [Finset.mem_union, h.queried, mem_toFinset, mem_map]
    constructor
    · rintro (⟨e, he, rfl⟩ | ⟨c, hc, rfl⟩)
      · exact ⟨e, mem_append_left _ he, rfl⟩
      · exact ⟨(n, c), mem_append_right _ (mem_map.mpr ⟨c, hc, rfl⟩), rfl⟩
    · rintro ⟨e, he, rfl⟩
      rcases mem_append.mp he with he | he
      · exact .inl ⟨e, he, rfl⟩
      · obtain ⟨c, hc, rfl⟩ := mem_map.mp he
        exact .inr ⟨c, hc, rfl⟩
  · intro e he v hReply hv
    show v ∈ w.values ++ _
    rcases mem_append.mp he with he | he
    · exact mem_append_left _ (h.values e he v hReply hv)
    · obtain ⟨c, hc, rfl⟩ := mem_map.mp he
      exact mem_append_right _ (mem_received hc hReply hv)

/-- One round keeps the invariant. The three ways a round can go are the three
branches of `round`. -/
theorem WalkInv.round (h : WalkInv net key accepts eager w) (hOn : w.done = false) :
    WalkInv net key accepts eager (w.round net key accepts eager n) := by
  have hList := h.listed hOn
  obtain ⟨hQueried, hValues⟩ := h.ask (n := n)
  unfold Walk.round
  split
  · -- everybody on the shortlist has been asked
    rename_i hBatch
    rw [batch_eq_nil_iff, hList] at hBatch
    have hAll : ∀ c ∈ w.rt.closest key bucketK, w.HasAsked c.id := fun c hc =>
      (h.hasAsked_iff c.id).mpr (hBatch c hc)
    refine ⟨nofun, h.queried, h.values, fun _ => .inr ⟨?_, .inl hAll⟩⟩
    intro c hc
    obtain ⟨x, rest, hShort⟩ := exists_closest_cons key hc.1 bucketK_pos
    rw [hc.id_eq (nearest_of_closest hShort)]
    exact hAll x (by rw [hShort]; exact mem_cons_self)
  split
  · -- an eager walk has a value
    rename_i hFound
    simp only [Bool.and_eq_true, Bool.not_eq_true', isEmpty_eq_false_iff] at hFound
    exact ⟨nofun, hQueried, hValues, fun _ => .inl hFound⟩
  · rename_i hBatch _
    refine ⟨fun _ => rfl, hQueried, hValues, fun hDone => .inr ?_⟩
    -- the closest contact is that of the last shortlist, whose front was asked
    have hSame : closestHex key (w.rt.closest key bucketK) =
        closestHex key
          (((w.ask net accepts n).learn net key n w.batch).rt.closest key bucketK) := by
      rw [← hList]
      exact of_decide_eq_true hDone
    have hFront : ∀ c ∈ w.rt.closest key alpha,
        ((w.ask net accepts n).learn net key n w.batch).HasAsked c.id := by
      intro c hc
      rw [← take_closest (show alpha ≤ bucketK by decide), ← hList] at hc
      obtain ⟨e, he, hHex⟩ := (hQueried _).mp (w.mem_queried_of_mem_take hc)
      exact ⟨e, he, NodeID.hex_injective hHex⟩
    refine ⟨fun c hc => ?_, .inr ⟨hFront, hSame.symm⟩⟩
    obtain ⟨x, hx, hHead⟩ := w.exists_head hList hBatch
    rw [closestHex_closest hc bucketK_pos, closestHex_closest hx bucketK_pos] at hSame
    rw [← NodeID.hex_injective hSame]
    exact hFront x hHead

/-! ## A whole walk -/

theorem WalkInv.start (rt : RoutingTable) (values : List Bytes) :
    WalkInv net key accepts eager (start rt key values) where
  listed _ := rfl
  queried h := by simp [Walk.start]
  values e he := by simp [Walk.start] at he
  reached hDone := by cases hDone

/-- **Every walk that ends keeps the invariant**, by induction on the
rounds. -/
theorem run_inv (h : WalkInv net key accepts eager w)
    (hRun : run net key accepts eager fuel n w = some w') :
    WalkInv net key accepts eager w' ∧ w'.done = true := by
  induction fuel generalizing n w with
  | zero =>
    rw [run] at hRun
    split at hRun
    · cases hRun
      exact ⟨h, by assumption⟩
    · cases hRun
  | succ fuel ih =>
    rw [run] at hRun
    split at hRun
    · cases hRun
      exact ⟨h, by assumption⟩
    · rename_i hOn
      exact ih (h.round (by simpa using hOn)) hRun

/-- A value that a round adds is the reply of somebody it asked, and passes the
check. -/
theorem mem_values_round_reply (hv : v ∈ (w.round net key accepts eager n).values) :
    v ∈ w.values ∨ ∃ c ∈ w.batch, net.reply n c = .value v ∧ accepts v = true := by
  have hAsk : ∀ {v}, v ∈ (w.ask net accepts n).values →
      v ∈ w.values ∨ ∃ c ∈ w.batch, net.reply n c = .value v ∧ accepts v = true := by
    intro v hv
    rcases mem_append.mp hv with hOld | hNew
    · exact .inl hOld
    obtain ⟨c, hc, hReply⟩ := mem_filterMap.mp hNew
    have hAsked : c ∈ w.batch := (net.reply_perm n w.batch).mem_iff.mp hc
    split at hReply
    · rename_i u hValue
      obtain ⟨hGood, ⟨⟩⟩ := Option.ite_none_right_eq_some.mp hReply
      exact .inr ⟨c, hAsked, hValue, hGood⟩
    · cases hReply
  unfold Walk.round at hv
  split at hv
  · exact .inl hv
  split at hv <;> exact hAsk hv

theorem mem_values_round (hv : v ∈ (w.round net key accepts eager n).values) :
    v ∈ w.values ∨ accepts v = true :=
  (mem_values_round_reply hv).imp_right fun ⟨_, _, _, hGood⟩ => hGood

/-- What a walk ends with it had before, or has checked. -/
theorem run_values (hRun : run net key accepts eager fuel n w = some w') (hv : v ∈ w'.values) :
    v ∈ w.values ∨ accepts v = true := by
  induction fuel generalizing n w with
  | zero =>
    rw [run] at hRun
    split at hRun
    · cases hRun
      exact .inl hv
    · cases hRun
  | succ fuel ih =>
    rw [run] at hRun
    split at hRun
    · cases hRun
      exact .inl hv
    · rcases ih hRun with hOld | hGood
      · exact mem_values_round hOld
      · exact .inr hGood

/-- A walk that has no value to return has reached all it could. -/
theorem run_reached {rt : RoutingTable} {values : List Bytes}
    (hRun : run net key accepts eager fuel n (start rt key values) = some w')
    (hEmpty : eager = true → w'.values = []) :
    w'.Reached key ∧
      ∀ e ∈ w'.asked, ∀ v, net.reply e.1 e.2 = .value v → accepts v = true → v ∈ w'.values := by
  obtain ⟨hInv, hDone⟩ := run_inv (WalkInv.start rt values) hRun
  refine ⟨?_, hInv.values⟩
  rcases hInv.reached hDone with ⟨hEager, hFound⟩ | hReached
  · exact absurd (hEmpty hEager) hFound
  · exact hReached

/-! ## Termination -/

theorem refreshed_keeps (net : Remote) (n : Nat) (batch : List Contact) (rt : RoutingTable) :
    rt.Keeps (net.refreshed n batch rt) := by
  unfold Remote.refreshed
  induction net.refreshOrder n batch generalizing rt with
  | nil => exact .refl rt
  | cons c rest ih =>
    rw [foldl_cons]
    refine .trans ?_ (ih _)
    split
    · exact .refl rt
    · exact rt.update_keeps c _

theorem hintAll_keeps (rt : RoutingTable) (cs : List Contact) : rt.Keeps (rt.hintAll cs) := by
  unfold hintAll
  induction cs generalizing rt with
  | nil => exact .refl rt
  | cons c rest ih =>
    rw [foldl_cons]
    refine .trans ?_ (ih _)
    split
    · exact .refl rt
    · exact rt.hint_keeps c

theorem hinted_keeps (hQuiet : net.Quiet) (w : Walk) (batch : List Contact) :
    w.rt.Keeps (w.hinted net n batch) := by
  have hKeeps := hintAll_keeps w.rt (net.learned n batch)
  unfold hinted
  dsimp only
  rw [hQuiet]
  exact hKeeps

/-- The distance that a walk still is from the key. -/
def gap (key : NodeID) (w : Walk) : Nat :=
  match w.rt.closest key bucketK with
  | [] => 0
  | c :: _ => distance key c.id

theorem gap_eq (hc : w.rt.Nearest key c) : gap key w = distance key c.id := by
  obtain ⟨x, rest, hShort⟩ := exists_closest_cons key hc.1 bucketK_pos
  rw [← (nearest_of_closest hShort).id_eq hc]
  simp only [gap, hShort]

theorem gap_lt (key : NodeID) (w : Walk) : gap key w < 2 ^ 256 := by
  unfold gap
  split
  · exact Nat.two_pow_pos 256
  · exact distance_lt key _

/-- A round that does not end an undisturbed walk closes in on the key. -/
theorem gap_round_lt (hQuiet : net.Quiet) (h : WalkInv net key accepts eager w)
    (hOn : w.done = false) (hOn' : (w.round net key accepts eager n).done = false) :
    gap key (w.round net key accepts eager n) < gap key w := by
  have hList := h.listed hOn
  unfold Walk.round at hOn' ⊢
  split
  · rename_i hBatch
    rw [if_pos hBatch] at hOn'
    cases hOn'
  rename_i hBatch
  rw [if_neg hBatch] at hOn'
  split
  · rename_i hFound
    rw [if_pos hFound] at hOn'
    cases hOn'
  rename_i hNone
  rw [if_neg hNone] at hOn'
  obtain ⟨c, hc, -⟩ := w.exists_head hList hBatch
  -- nobody has left the table, so there is a nearest contact afterwards
  have hKeeps : w.rt.Keeps ((w.ask net accepts n).hinted net n w.batch) :=
    (refreshed_keeps net n w.batch w.rt).trans (hinted_keeps hQuiet (w.ask net accepts n) _)
  obtain ⟨c', hc', hLe⟩ := hKeeps.exists_nearest hc
  have hNe : distance key c'.id ≠ distance key c.id := by
    intro hEq
    refine of_decide_eq_false hOn' ?_
    show closestHex key w.shortlist = _
    rw [hList, closestHex_closest hc bucketK_pos, closestHex_closest hc' bucketK_pos,
      distance_injective key hEq]
  rw [gap_eq hc, gap_eq (w := (w.ask net accepts n).learn net key n w.batch) hc']
  omega

theorem run_done (h : w.done = true) : run net key accepts eager fuel n w = some w := by
  cases fuel <;> rw [run, if_pos h]

/-- **An undisturbed walk ends**: each round but the last one closes in on the
key. -/
theorem run_terminates (hQuiet : net.Quiet) (h : WalkInv net key accepts eager w)
    (hFuel : gap key w < fuel) : ∃ w', run net key accepts eager fuel n w = some w' := by
  induction fuel generalizing n w with
  | zero => omega
  | succ fuel ih =>
    rw [run]
    split
    · exact ⟨w, rfl⟩
    rename_i hOn
    have hOn : w.done = false := by simpa using hOn
    cases hDone : (w.round net key accepts eager n).done with
    | true => exact ⟨_, run_done hDone⟩
    | false =>
      have hLt := gap_round_lt hQuiet h hOn hDone
      exact ih (h.round hOn) (by omega)

end Walk

end AltNet
