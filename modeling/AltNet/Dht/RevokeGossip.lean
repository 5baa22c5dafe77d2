import AltNet.Dht.RevokeSign

/-!
# AltNet — the flood of a revoke (`core/dht/revoke.go`, `Peer.Broadcast`)

A node that accepts a revoke sends it on to all its connections, the one that
it came from included. The flood ends because each node remembers the
identifiers of the revokes that it has applied. It forgets them again after
twice the maximal age; by then the timestamp is too old to be accepted, so
that forgetting does no harm, provided that the timestamp is the same.

It need not be. The identifier is a hash of the signed bytes, and those join
the fields by line feeds: a line of the chunk list may turn up as the
timestamp of another payload with the same signed bytes, the old timestamp
having become a part of the nonce. That payload is accepted once more.

Main results:

* `revoke_gossip_stops` — as long as no node is given such a payload, each
  node applies and forwards a revoke at most once, and a revoke causes no more
  messages than the network has connections, and those of its issuers;
* `revoke_applied_twice` — a run in which one comes.
-/

namespace AltNet

open Finmap Function List DHT

open scoped BigOperators

/-- A network of `n` nodes: the nodes and the last readings of their clocks,
the messages on their way; and what has happened: the revokes that
`handleRevoke` has applied, with the time, those that `BroadcastRevoke` has
issued, and all messages sent. -/
structure Gossip (n : Nat) where
  nodes : Fin n → DHT
  clock : Fin n → Time
  inFlight : List (Fin n × RevokePayload)
  applied : List (Fin n × RevokePayload × Time)
  issued : List (Fin n × RevokePayload)
  sent : List RevokePayload

/-- What happens: `BroadcastRevoke`; a revoke arrives from somewhere; a message
on its way arrives, or is lost; or a node does anything else, which leaves
`revokeSeen` alone. The times are the clock readings of `handleRevoke`. -/
inductive GossipAction (n : Nat) where
  | issue (v : Fin n) (p : RevokePayload)
  | receive (v : Fin n) (p : RevokePayload) (now seenAt pruneAt : Time)
  | deliver (i : Nat) (now seenAt pruneAt : Time)
  | lose (i : Nat)
  | other (v : Fin n) (d : DHT)

namespace Gossip

variable {n : Nat} (cr : Crypto) (conns : Fin n → List (Fin n))

/-- At the start no node has seen a revoke. -/
def init (nodes : Fin n → DHT) : Gossip n where
  nodes := fun v => { nodes v with revokeSeen := ∅ }
  clock := fun _ => 0
  inFlight := []
  applied := []
  issued := []
  sent := []

/-- `gossipRevoke`, with `Peer.Broadcast`: the message goes to every
connection. -/
def send (g : Gossip n) (v : Fin n) (p : RevokePayload) : Gossip n :=
  { g with
    inFlight := g.inFlight ++ (conns v).map fun w => (w, p)
    sent := g.sent ++ (conns v).map fun _ => p }

/-- `handleRevoke` at node `v`, whose clock does not go back. -/
def handle (g : Gossip n) (v : Fin n) (p : RevokePayload) (now seenAt pruneAt : Time) :
    Option (Gossip n) :=
  if g.clock v ≤ now ∧ now ≤ seenAt ∧ seenAt ≤ pruneAt then
    let (d, forward) := (g.nodes v).handleRevoke cr p now seenAt pruneAt
    let g := { g with
      nodes := Function.update g.nodes v d
      clock := Function.update g.clock v pruneAt }
    if forward then some (send conns { g with applied := (v, p, now) :: g.applied } v p)
    else some g
  else none

/-- The next state; `none` when the step cannot be taken. -/
def next (g : Gossip n) : GossipAction n → Option (Gossip n)
  | .issue v p =>
    some (send conns { g with
      nodes := Function.update g.nodes v ((g.nodes v).applyRevoke p)
      issued := (v, p) :: g.issued } v p)
  | .receive v p now seenAt pruneAt => g.handle cr conns v p now seenAt pruneAt
  | .deliver i now seenAt pruneAt =>
    match g.inFlight[i]? with
    | none => none
    | some (v, p) =>
      handle cr conns { g with inFlight := g.inFlight.eraseIdx i } v p now seenAt pruneAt
  | .lose i => some { g with inFlight := g.inFlight.eraseIdx i }
  | .other v d =>
    some { g with
      nodes := Function.update g.nodes v { d with revokeSeen := (g.nodes v).revokeSeen } }

/-- How often node `v` has applied a revoke with this identifier, and has sent
it on. -/
def applications (g : Gossip n) (v : Fin n) (rid : GoString) : Nat :=
  (g.applied.filter fun x => x.1 = v ∧ revokeID cr x.2.1 = rid).length

/-- The number of messages with this identifier. -/
def messages (g : Gossip n) (rid : GoString) : Nat :=
  (g.sent.filter fun p => revokeID cr p = rid).length

/-- The number of those that were sent by `BroadcastRevoke`. -/
def issuedMessages (g : Gossip n) (rid : GoString) : Nat :=
  ((g.issued.filter fun x => revokeID cr x.2 = rid).map fun x => (conns x.1).length).sum

/-- If node `v` has applied a revoke with the identifier of `p`, then `p` is
dated less than the maximal age after that. -/
def Timely (g : Gossip n) (v : Fin n) (p : RevokePayload) : Prop :=
  ∀ p₀ now, (v, p₀, now) ∈ g.applied → revokeID cr p₀ = revokeID cr p →
    p.timestamp < ((now / nanosPerSecond : Nat) : Int) + maxRevokeAge

/-- The revoke that the action hands to `handleRevoke`, and the node. -/
def handled (g : Gossip n) : GossipAction n → Option (Fin n × RevokePayload)
  | .receive v p _ _ _ => some (v, p)
  | .deliver i _ _ _ => g.inFlight[i]?
  | _ => none

/-- Every revoke that arrives is timely. -/
def TimelyStep (g : Gossip n) (a : GossipAction n) : Prop :=
  ∀ v p, g.handled a = some (v, p) → g.Timely cr v p

instance (g : Gossip n) (a : GossipAction n) : Decidable (g.TimelyStep cr a) :=
  decidable_of_iff (∀ q ∈ g.handled a, ∀ x ∈ g.applied, x.1 = q.1 →
      revokeID cr x.2.1 = revokeID cr q.2 →
        q.2.timestamp < ((x.2.2 / nanosPerSecond : Nat) : Int) + maxRevokeAge)
    ⟨fun h v p hHandled p₀ now hApplied => h (v, p) hHandled (v, p₀, now) hApplied rfl,
      fun h q hHandled x hApplied hNode => h q.1 q.2 hHandled x.2.1 x.2.2 (hNode ▸ hApplied)⟩

end Gossip

/-! ## One node -/

variable {cr : Crypto} {p : RevokePayload} {pruneAt seenAt : Time} {rid : GoString}
  {seen : GoMap GoString Time}

/-- A revoke that is not accepted changes nothing. -/
theorem handleRevoke_refused {d d' : DHT} {now : Time}
    (h : d.handleRevoke cr p now seenAt pruneAt = (d', false)) : d' = d := by
  unfold handleRevoke at h
  repeat' split at h
  all_goals simp_all

/-- What is known of a revoke that a node has applied: its identifier is still
remembered, or it was forgotten long after. -/
def Remembered (seen : GoMap GoString Time) (clock : Time) (rid : GoString) (now : Time) : Prop :=
  (∃ t, seen.lookup rid = some t ∧ now ≤ t) ∨
    now + 2 * maxRevokeAge.toNat * nanosPerSecond < clock

/-- After that long, so many seconds have gone by. -/
theorem seconds_apart {t clock now : Nat}
    (hLong : t + 2 * maxRevokeAge.toNat * nanosPerSecond < clock) (hClock : clock ≤ now) :
    ((t / nanosPerSecond : Nat) : Int) + 2 * maxRevokeAge ≤
      ((now / nanosPerSecond : Nat) : Int) := by
  have hAge : 2 * maxRevokeAge.toNat * nanosPerSecond = 172800 * 1000000000 := by decide
  have hMax : maxRevokeAge = 86400 := by decide
  have hNanos : nanosPerSecond = 1000000000 := rfl
  rw [hAge] at hLong
  rw [hMax, hNanos]
  omega

/-- A revoke with a remembered identifier is not accepted; and once the
identifier is forgotten, one that is dated as the first one was is too old. -/
theorem Remembered.refused {seen' : GoMap GoString Time} {clock t now : Time}
    (h : Remembered seen clock (revokeID cr p) t) (hClock : clock ≤ now)
    (hTimely : p.timestamp < ((t / nanosPerSecond : Nat) : Int) + maxRevokeAge)
    (hWindow : p.InWindow now)
    (hMark : markSeen seen (revokeID cr p) seenAt pruneAt = some seen') : False := by
  rcases h with ⟨t', hLookup, -⟩ | hLong
  · rw [markSeen_new hMark] at hLookup
    cases hLookup
  · have hApart := seconds_apart hLong hClock
    have := hWindow.1
    omega

/-- An identifier that is remembered stays so, or is old enough to be
forgotten. -/
theorem Remembered.markSeen {seen' : GoMap GoString Time} {clock t : Time} {rid' : GoString}
    (h : Remembered seen clock rid t) (hMark : markSeen seen rid' seenAt pruneAt = some seen')
    (hClock : clock ≤ pruneAt) : Remembered seen' pruneAt rid t := by
  rcases h with ⟨t', hLookup, hLe⟩ | hLong
  · have hOther : rid ≠ rid' := by
      rintro rfl
      rw [markSeen_new hMark] at hLookup
      cases hLookup
    have hInserted : (seen.insert rid' seenAt).lookup rid = some t' := by
      rw [lookup_insert_of_ne _ hOther, hLookup]
    rcases markSeen_keeps hMark hInserted with hKept | hOld
    · exact .inl ⟨t', hKept, hLe⟩
    · exact .inr ((Nat.add_le_add_right hLe _).trans_lt hOld)
  · exact .inr (hLong.trans_le hClock)

/-- The identifier that has just been entered. -/
theorem remembered_new {seen' : GoMap GoString Time} {now : Time}
    (hMark : markSeen seen rid seenAt pruneAt = some seen') (hNow : now ≤ seenAt) :
    Remembered seen' pruneAt rid now := by
  rcases markSeen_keeps hMark (lookup_insert _) with hKept | hOld
  · exact .inl ⟨seenAt, hKept, hNow⟩
  · exact .inr ((Nat.add_le_add_right hNow _).trans_lt hOld)

theorem Remembered.later {clock clock' t : Time} (h : Remembered seen clock rid t)
    (hClock : clock ≤ clock') : Remembered seen clock' rid t := by
  rcases h with hKept | hLong
  · exact .inl hKept
  · exact .inr (hLong.trans_le hClock)

/-! ## The network -/

namespace Gossip

variable {n : Nat} {cr : Crypto} {conns : Fin n → List (Fin n)} {g g' : Gossip n}
  {a : GossipAction n}

/-- What the books are about: what each node remembers, and what has happened. -/
structure Ledger (n : Nat) where
  seen : Fin n → GoMap GoString Time
  clock : Fin n → Time
  applied : List (Fin n × RevokePayload × Time)
  issued : List (Fin n × RevokePayload)
  sent : List RevokePayload

def ledger (g : Gossip n) : Ledger n :=
  ⟨fun v => (g.nodes v).revokeSeen, g.clock, g.applied, g.issued, g.sent⟩

/-- What a step that hands this revoke, if any, to `handleRevoke` does to the
ledger. -/
inductive Change (cr : Crypto) (conns : Fin n → List (Fin n)) (b : Ledger n) :
    Option (Fin n × RevokePayload) → Ledger n → Prop
  /-- No revoke is applied by `handleRevoke`, and none is issued. -/
  | quiet {handled} {clock : Fin n → Time} (hClock : ∀ v, b.clock v ≤ clock v) :
      Change cr conns b handled { b with clock }
  /-- `BroadcastRevoke`. -/
  | issued {handled} (v : Fin n) (p : RevokePayload) :
      Change cr conns b handled { b with
        issued := (v, p) :: b.issued, sent := b.sent ++ (conns v).map fun _ => p }
  /-- `handleRevoke` accepts. -/
  | applied {v : Fin n} {p : RevokePayload} {now seenAt pruneAt : Time}
      {seen : GoMap GoString Time} (hWindow : p.InWindow now)
      (hMark : markSeen (b.seen v) (revokeID cr p) seenAt pruneAt = some seen)
      (hTimes : b.clock v ≤ now ∧ now ≤ seenAt ∧ seenAt ≤ pruneAt) :
      Change cr conns b (some (v, p))
        ⟨update b.seen v seen, update b.clock v pruneAt, (v, p, now) :: b.applied, b.issued,
          b.sent ++ (conns v).map fun _ => p⟩

variable {b b' : Ledger n} {d : DHT} {nodes : Fin n → DHT} {p : RevokePayload} {v : Fin n}

theorem seen_update : (fun w => (update nodes v d w).revokeSeen) =
    update (fun w => (nodes w).revokeSeen) v d.revokeSeen :=
  funext fun w => apply_update (fun _ => revokeSeen) nodes v d w

/-- A node that changes only in other fields. -/
theorem seen_update_same (h : d.revokeSeen = (nodes v).revokeSeen) :
    (fun w => (update nodes v d w).revokeSeen) = fun w => (nodes w).revokeSeen := by
  rw [seen_update, h]
  exact update_eq_self v _

/-- `handleRevoke` at one node. -/
theorem handle_change {now seenAt pruneAt : Time}
    (h : g.handle cr conns v p now seenAt pruneAt = some g') :
    Change cr conns g.ledger (some (v, p)) g'.ledger := by
  obtain ⟨hTimes, h⟩ := Option.ite_none_right_eq_some.mp h
  generalize hResult : (g.nodes v).handleRevoke cr p now seenAt pruneAt = result at h
  obtain ⟨d, forward⟩ := result
  cases forward with
  | true =>
    cases h
    obtain ⟨-, hWindow, -, seen, hMark, rfl⟩ := handleRevoke_accepted_iff.mp hResult
    simp only [ledger, send, seen_update, applyRevoke_revokeSeen]
    exact .applied (b := g.ledger) hWindow hMark hTimes
  | false =>
    cases h
    simp only [ledger, seen_update_same (congrArg _ (handleRevoke_refused hResult))]
    refine .quiet (b := g.ledger) fun w => ?_
    show g.clock w ≤ update g.clock v pruneAt w
    by_cases hw : w = v
    · subst hw
      rw [update_self]
      exact hTimes.1.trans (hTimes.2.1.trans hTimes.2.2)
    · rw [update_of_ne hw]

/-- **All that a step does.** -/
theorem next_change (h : g.next cr conns a = some g') :
    Change cr conns g.ledger (g.handled a) g'.ledger := by
  cases a with
  | issue v p =>
    cases h
    simp only [ledger, send, seen_update_same (applyRevoke_revokeSeen (g.nodes v) p)]
    exact .issued (b := g.ledger) v p
  | receive v p now seenAt pruneAt => exact handle_change h
  | deliver i now seenAt pruneAt =>
    unfold next at h
    dsimp only at h
    split at h
    · cases h
    rename_i v p hMessage
    -- a message less on its way makes no difference to the ledger
    rw [handled, hMessage]
    exact handle_change (g := { g with inFlight := g.inFlight.eraseIdx i }) h
  | lose i =>
    cases h
    exact .quiet (b := g.ledger) fun _ => le_rfl
  | other v d =>
    cases h
    have hSame : (fun w => (update g.nodes v { d with revokeSeen := (g.nodes v).revokeSeen }
      w).revokeSeen) = fun w => (g.nodes w).revokeSeen := seen_update_same rfl
    simp only [ledger, hSame]
    exact .quiet (b := g.ledger) fun _ => le_rfl

/-- The books of a run in which every revoke is timely. -/
structure Books (cr : Crypto) (conns : Fin n → List (Fin n)) (b : Ledger n) : Prop where
  /-- Of every revoke that was applied, the identifier is remembered as long as
  it matters. -/
  remembered : ∀ v p now, (v, p, now) ∈ b.applied →
    Remembered (b.seen v) (b.clock v) (revokeID cr p) now
  once : (b.applied.map fun x => (x.1, revokeID cr x.2.1)).Nodup
  /-- Every message was sent by `BroadcastRevoke` or after a revoke was
  applied. -/
  counted : ∀ rid, (b.sent.filter fun p => revokeID cr p = rid).length =
    ((b.issued.filter fun x => revokeID cr x.2 = rid).map fun x => (conns x.1).length).sum +
    ((b.applied.filter fun x => revokeID cr x.2.1 = rid).map fun x => (conns x.1).length).sum

theorem Books.init (cr : Crypto) (conns : Fin n → List (Fin n)) (nodes : Fin n → DHT) :
    Books cr conns (init nodes).ledger :=
  ⟨nofun, nodup_nil, fun _ => rfl⟩

/-- A revoke sent to all connections. -/
theorem messages_append (cr : Crypto) (sent : List RevokePayload) (p : RevokePayload)
    (peers : List (Fin n)) (rid : GoString) :
    ((sent ++ peers.map fun _ => p).filter fun q => revokeID cr q = rid).length =
      (sent.filter fun q => revokeID cr q = rid).length +
        if revokeID cr p = rid then peers.length else 0 := by
  rw [filter_append, length_append, map_const', filter_replicate]
  by_cases hRid : revokeID cr p = rid
  · simp [hRid]
  · simp [hRid]

/-- One more entry, of a revoke that goes to so many connections. -/
theorem sum_filter_cons {α : Type} (cr : Crypto) (payload : α → RevokePayload)
    (peers : α → Nat) (x : α) (xs : List α) (rid : GoString) :
    (((x :: xs).filter fun y => revokeID cr (payload y) = rid).map peers).sum =
      (if revokeID cr (payload x) = rid then peers x else 0) +
        ((xs.filter fun y => revokeID cr (payload y) = rid).map peers).sum := by
  by_cases hRid : revokeID cr (payload x) = rid
  · simp [hRid]
  · simp [hRid]

/-- The node that applies a timely revoke has not applied one with its
identifier before. -/
theorem Books.new (h : Books cr conns b) {now seenAt pruneAt : Time}
    {seen : GoMap GoString Time}
    (hTimely : ∀ p₀ t, (v, p₀, t) ∈ b.applied → revokeID cr p₀ = revokeID cr p →
      p.timestamp < ((t / nanosPerSecond : Nat) : Int) + maxRevokeAge)
    (hWindow : p.InWindow now)
    (hMark : markSeen (b.seen v) (revokeID cr p) seenAt pruneAt = some seen)
    (hClock : b.clock v ≤ now) :
    (v, revokeID cr p) ∉ b.applied.map fun x => (x.1, revokeID cr x.2.1) := by
  intro hMem
  obtain ⟨⟨w, p₀, t⟩, hApplied, hEq⟩ := mem_map.mp hMem
  obtain ⟨rfl, hRid⟩ := Prod.mk.inj hEq
  have hKnown := h.remembered w p₀ t hApplied
  dsimp only at hRid
  rw [hRid] at hKnown
  exact hKnown.refused hClock (hTimely p₀ t hApplied hRid) hWindow hMark

/-- The node that has applied a revoke remembers it, and what it has applied
before. -/
theorem Books.remembered_applied (h : Books cr conns b) {now seenAt pruneAt : Time}
    {seen : GoMap GoString Time}
    (hMark : markSeen (b.seen v) (revokeID cr p) seenAt pruneAt = some seen)
    (hTimes : b.clock v ≤ now ∧ now ≤ seenAt ∧ seenAt ≤ pruneAt) {w : Fin n} {q : RevokePayload}
    {t : Time} (hMem : (w, q, t) ∈ (v, p, now) :: b.applied) :
    Remembered (update b.seen v seen w) (update b.clock v pruneAt w) (revokeID cr q) t := by
  by_cases hw : w = v
  · subst hw
    rw [update_self, update_self]
    rcases mem_cons.mp hMem with hNew | hOld
    · cases hNew
      exact remembered_new hMark hTimes.2.1
    · exact (h.remembered w q t hOld).markSeen hMark
        (hTimes.1.trans (hTimes.2.1.trans hTimes.2.2))
  · rw [update_of_ne hw, update_of_ne hw]
    rcases mem_cons.mp hMem with hNew | hOld
    · exact absurd (Prod.mk.inj hNew).1 hw
    · exact h.remembered w q t hOld

/-- **One step** in which the revoke that arrives is timely. -/
theorem Books.step (h : Books cr conns g.ledger) (hStep : g.next cr conns a = some g')
    (hTimely : g.TimelyStep cr a) : Books cr conns g'.ledger := by
  have hChange := next_change hStep
  generalize hHandled : g.handled a = handled, g'.ledger = b' at hChange ⊢
  cases hChange with
  | quiet hClock =>
    exact { h with remembered := fun v p now hMem => (h.remembered v p now hMem).later (hClock v) }
  | issued v p =>
    refine { h with counted := fun rid => ?_ }
    have hNew := sum_filter_cons cr Prod.snd (fun x => (conns x.1).length) (v, p)
      g.ledger.issued rid
    dsimp only at hNew ⊢
    rw [messages_append, h.counted rid, hNew]
    omega
  | applied hWindow hMark hTimes =>
    refine ⟨fun w q t => h.remembered_applied hMark hTimes, ?_, fun rid => ?_⟩
    · rw [map_cons]
      exact nodup_cons.mpr ⟨h.new (hTimely _ _ hHandled) hWindow hMark hTimes.1, h.once⟩
    · rename_i v p now _ _ _
      have hNew := sum_filter_cons cr (fun x => x.2.1) (fun x => (conns x.1).length) (v, p, now)
        g.ledger.applied rid
      dsimp only at hNew ⊢
      rw [messages_append, h.counted rid, hNew]
      omega

/-- **Every run.** -/
theorem Books.run {as : List (GossipAction n)}
    (hRun : Exec (guarded (stepOf (next cr conns)) (TimelyStep cr)) (Gossip.init nodes) as g) :
    Books cr conns g.ledger :=
  hRun.invariant (I := fun g => Books cr conns g.ledger) (Books.init cr conns nodes)
    fun h hStep => h.step hStep.1 hStep.2

/-- A node is counted once for an identifier. -/
theorem Books.applications_le (h : Books cr conns g.ledger) (v : Fin n) (rid : GoString) :
    g.applications cr v rid ≤ 1 := by
  have hCount := nodup_iff_count_le_one.mp h.once (v, rid)
  rw [count_eq_countP, countP_map, countP_eq_length_filter] at hCount
  refine le_trans (le_of_eq ?_) hCount
  unfold applications
  congr 1
  apply filter_congr
  intro x _
  rw [Bool.eq_iff_iff, decide_eq_true_iff, comp_apply, beq_iff_eq, Prod.mk_inj]

/-- What all nodes send on is bounded by the number of connections. -/
theorem Books.forwarded_le (h : Books cr conns g.ledger) (rid : GoString) :
    ((g.applied.filter fun x => revokeID cr x.2.1 = rid).map fun x => (conns x.1).length).sum ≤
      ∑ v, (conns v).length := by
  have hNodes : ((g.applied.filter fun x => revokeID cr x.2.1 = rid).map Prod.fst).Nodup := by
    have hPairs : ((g.applied.filter fun x => revokeID cr x.2.1 = rid).map
        fun x => (x.1, revokeID cr x.2.1)).Nodup :=
      h.once.sublist (filter_sublist.map _)
    have hFirst : ((g.applied.filter fun x => revokeID cr x.2.1 = rid).map
        fun x => (x.1, revokeID cr x.2.1)) =
        ((g.applied.filter fun x => revokeID cr x.2.1 = rid).map Prod.fst).map
          fun v => (v, rid) := by
      rw [map_map]
      apply map_congr_left
      intro x hx
      exact congrArg (Prod.mk x.1) (of_decide_eq_true (mem_filter.mp hx).2)
    rw [hFirst] at hPairs
    exact hPairs.of_map
  calc ((g.applied.filter fun x => revokeID cr x.2.1 = rid).map fun x => (conns x.1).length).sum
      = (((g.applied.filter fun x => revokeID cr x.2.1 = rid).map Prod.fst).map
          fun v => (conns v).length).sum := by
        rw [map_map]
        rfl
    _ = ∑ v ∈ ((g.applied.filter fun x => revokeID cr x.2.1 = rid).map Prod.fst).toFinset,
          (conns v).length := (sum_toFinset _ hNodes).symm
    _ ≤ ∑ v, (conns v).length := Finset.sum_le_sum_of_subset (Finset.subset_univ _)

end Gossip

/-- **The flood stops.** In a network with any connections, in which revokes
arrive in any order, again and again and mixed with any others, from the
network or from outside, and in which every one that arrives is timely: each
node applies and forwards the revokes with one identifier at most once, and
they cause no more messages than there are connections, besides the messages
of those who issue them. -/
theorem revoke_gossip_stops (cr : Crypto) {n : Nat} (conns : Fin n → List (Fin n))
    (nodes : Fin n → DHT) {as : List (GossipAction n)} {g : Gossip n}
    (hRun : Exec (guarded (stepOf (Gossip.next cr conns)) (Gossip.TimelyStep cr))
      (Gossip.init nodes) as g) (rid : GoString) :
    (∀ v, g.applications cr v rid ≤ 1) ∧
      g.messages cr rid ≤ g.issuedMessages cr conns rid + ∑ v, (conns v).length := by
  have hBooks := Gossip.Books.run hRun
  refine ⟨fun v => hBooks.applications_le v rid, ?_⟩
  have hForwarded := hBooks.forwarded_le rid
  exact (hBooks.counted rid).trans_le (Nat.add_le_add_left hForwarded _)

/-- Two nodes that are connected with each other. -/
def bothWays : Fin 2 → List (Fin 2)
  | 0 => [1]
  | 1 => [0]

/-- The revoke of before, issued by one of them. -/
def floodRevoke : RevokePayload :=
  signedRevoke sampleIdentity "panmox.alt".toList sampleChunks [] 0

/-- It comes to the other one, back as an echo, and to the other one again. -/
def floodRun : List (GossipAction 2) :=
  [.issue 0 floodRevoke, .deliver 0 0 0 0, .deliver 0 0 0 0, .deliver 0 0 0 0]

theorem revoke_gossip_stops_floodRun :
    ∃ g, Exec (guarded (stepOf (Gossip.next firstByte bothWays)) (Gossip.TimelyStep firstByte))
        (Gossip.init fun _ => trustingNode) floodRun g ∧ g.inFlight.length = 0 ∧
      g.messages firstByte (revokeID firstByte floodRevoke) = 3 ∧
      ∀ v, g.applications firstByte v (revokeID firstByte floodRevoke) ≤ 1 := by
  refine Exec.exists_of_checked (p := fun g => g.inFlight.length = 0 ∧
      g.messages firstByte (revokeID firstByte floodRevoke) = 3)
    (Gossip.next firstByte bothWays) (fun g a => decide (g.TimelyStep firstByte a))
    (fun hNext hOk => ⟨hNext, of_decide_eq_true hOk⟩) (by decide +kernel) ?_
  rintro g hRun ⟨hEmpty, hThree⟩
  exact ⟨hEmpty, hThree,
    (revoke_gossip_stops firstByte bothWays (fun _ => trustingNode) hRun _).1⟩

/-! ## A revoke that is applied twice -/

/-- The pruning, once the map is large enough. -/
theorem markSeen_prunes {seen' : GoMap GoString Time} {k : GoString} {t : Time}
    (h : markSeen seen rid seenAt pruneAt = some seen')
    (hCard : 1024 < (seen.insert rid seenAt).keys.card)
    (ht : (seen.insert rid seenAt).lookup k = some t)
    (hOld : t + 2 * maxRevokeAge.toNat * nanosPerSecond < pruneAt) : seen'.lookup k = none := by
  have hErased : ∀ (stale : List GoString) (m : GoMap GoString Time), k ∈ stale →
      (stale.foldl (fun m k => m.erase k) m).lookup k = none := by
    intro stale
    induction stale with
    | nil => exact fun _ hMem => absurd hMem not_mem_nil
    | cons x rest ih =>
      intro m hMem
      by_cases hRest : k ∈ rest
      · exact ih (m.erase x) hRest
      · obtain rfl := (mem_cons.mp hMem).resolve_right hRest
        rw [foldl_cons, foldl_erase_lookup rest hRest, lookup_erase]
  unfold markSeen at h
  split at h
  · cases h
  dsimp only at h
  rw [if_pos hCard] at h
  cases h
  apply hErased
  rw [mem_sortedStrings, Finset.mem_filter, Finmap.mem_keys, mem_iff, ht, Option.getD_some]
  exact ⟨⟨t, rfl⟩, hOld⟩

theorem markSeen_small (hNew : seen.lookup rid = none)
    (hCard : (seen.insert rid seenAt).keys.card ≤ 1024) :
    markSeen seen rid seenAt pruneAt = some (seen.insert rid seenAt) := by
  unfold markSeen
  rw [hNew, if_neg (by decide)]
  dsimp only
  rw [if_neg (Nat.not_lt.mpr hCard)]

theorem card_keys_insert (t : Time) (hNew : seen.lookup rid = none) :
    (seen.insert rid t).keys.card = seen.keys.card + 1 := by
  have hKeys : (seen.insert rid t).keys = insert rid seen.keys := by
    ext k
    rw [Finset.mem_insert, Finmap.mem_keys, Finmap.mem_keys, mem_insert]
  rw [hKeys, Finset.card_insert_of_notMem]
  rw [Finmap.mem_keys, mem_iff, hNew]
  rintro ⟨t, ht⟩
  cases ht

/-- A hash that sees only the length. -/
def lengthDigest (k : Nat) : NodeID :=
  ⟨UInt8.ofNat (k / 256) :: UInt8.ofNat k :: replicate 30 0, rfl⟩

/-- With signatures that are all good. -/
def lengthHash : Crypto := ⟨fun bs => lengthDigest bs.length, fun _ _ _ => true⟩

theorem lengthDigest_inj {j k : Nat} (hj : j < 65536) (hk : k < 65536)
    (h : (lengthDigest j).hex = (lengthDigest k).hex) : j = k := by
  have hBytes := congrArg NodeID.bytes (NodeID.hex_injective h)
  obtain ⟨hHigh, hRest⟩ := cons.inj hBytes
  have hLow := (cons.inj hRest).1
  have hHigh' : j / 256 % 256 = k / 256 % 256 := by
    have hNat := congrArg UInt8.toNat hHigh
    rwa [UInt8.toNat_ofNat', UInt8.toNat_ofNat'] at hNat
  have hLow' : j % 256 = k % 256 := by
    have hNat := congrArg UInt8.toNat hLow
    rwa [UInt8.toNat_ofNat', UInt8.toNat_ofNat'] at hNat
  omega

theorem hex_lengthDigest_ne {j k : Nat} (hj : j < 65536) (hk : k < 65536) (hne : j ≠ k) :
    (lengthDigest j).hex ≠ (lengthDigest k).hex :=
  fun hEq => hne (lengthDigest_inj hj hk hEq)

/-- The key that is trusted here. -/
def revokerKey : GoString := publicKeyToHex sampleIdentity.publicKey

/-- Among the chunks of this revoke there is a number. -/
def firstRevoke : RevokePayload where
  name := "n.alt".toList
  chunks := [(NodeID.fill 0).hex, "1779600000".toList]
  timestamp := 1779300000
  nonce := "h".toList
  publicKey := revokerKey
  signature := []

/-- Another payload with the same signed bytes: the number is the timestamp
now, and the timestamp a part of the nonce. -/
def secondRevoke : RevokePayload where
  name := "n.alt".toList
  chunks := [(NodeID.fill 0).hex]
  timestamp := 1779600000
  nonce := "1779300000\nh".toList
  publicKey := revokerKey
  signature := []

/-- Other revokes, of which there are many. -/
def otherRevoke (timestamp : Int) (i : Nat) : RevokePayload where
  name := "f".toList
  chunks := []
  timestamp := timestamp
  nonce := replicate (200 + i) 'x'
  publicKey := revokerKey
  signature := []

theorem length_utf8_replicate (k : Nat) : (utf8 (replicate k 'x')).length = k := by
  induction k with
  | zero => rfl
  | succ k ih =>
    have hOne : (String.utf8EncodeChar 'x').length = 1 := by decide
    rw [replicate_succ, utf8, flatMap_cons, length_append, hOne]
    unfold utf8 at ih
    omega

/-- Their identifiers differ among themselves. -/
theorem revokeID_otherRevoke {timestamp : Int} (hDigits : (utf8 (formatInt timestamp)).length = 10)
    (i : Nat) : revokeID lengthHash (otherRevoke timestamp i) = (lengthDigest (221 + i)).hex := by
  have hSplit : (otherRevoke timestamp i).canonical =
      "revoke\nf\n\n".toList ++ (formatInt timestamp ++
        ('\n' :: replicate (200 + i) 'x')) := rfl
  have hLength : (utf8 (otherRevoke timestamp i).canonical).length = 221 + i := by
    have hFront : (utf8 "revoke\nf\n\n".toList).length = 10 := by decide
    have hLine : (utf8 ['\n']).length = 1 := by decide
    have hNonce := length_utf8_replicate (200 + i)
    rw [hSplit]
    unfold utf8 at *
    rw [flatMap_append, flatMap_append, ← singleton_append, flatMap_append,
      length_append, length_append, length_append, hFront, hDigits, hLine, hNonce]
    omega
  show (lengthDigest (utf8 (otherRevoke timestamp i).canonical).length).hex = _
  rw [hLength]

theorem revokeID_firstRevoke : revokeID lengthHash firstRevoke = (lengthDigest 101).hex := by
  decide +kernel

theorem canonical_secondRevoke : secondRevoke.canonical = firstRevoke.canonical := by
  decide +kernel

/-- A lone node. -/
def alone : Fin 1 → List (Fin 1) := fun _ => []

/-- The times of the two revokes, more than twice the maximal age apart. -/
def firstTime : Time := 1779300000 * nanosPerSecond

def secondTime : Time := 1779600000 * nanosPerSecond

/-- The lone node accepts a revoke that is trusted, in time and new. -/
theorem exec_accept {g : Gossip 1} {t : Time}
    (hTrust : (g.nodes 0).trustedRevokers = trustingNode.trustedRevokers)
    (hKey : p.publicKey = revokerKey) (hSig : p.signature = []) (hClock : g.clock 0 ≤ t)
    (hWindow : p.InWindow t)
    (hMark : markSeen (g.nodes 0).revokeSeen (revokeID lengthHash p) t t = some seen) :
    ∃ g' : Gossip 1, g.next lengthHash alone (.receive 0 p t t t) = some g' ∧
      (g'.nodes 0).trustedRevokers = trustingNode.trustedRevokers ∧
      (g'.nodes 0).revokeSeen = seen ∧ g'.clock 0 = t ∧
      g'.applied = (0, p, t) :: g.applied := by
  have hTrusts : (g.nodes 0).trusts p.publicKey = true := by
    unfold trusts
    rw [hTrust, hKey]
    decide +kernel
  have hAccept := handleRevoke_accepted_iff.mpr ⟨hTrusts, hWindow,
    ⟨sampleIdentity.publicKey, hKey ▸ sampleIdentity.publicKeyFromHex_publicKey, by
      rw [hSig]
      rfl⟩, seen, hMark, rfl⟩
  let d := applyRevoke { g.nodes 0 with revokeSeen := seen } p
  have hNode : update g.nodes 0 d 0 = d := update_self ..
  refine ⟨Gossip.send alone { g with
      nodes := update g.nodes 0 d
      clock := update g.clock 0 t
      applied := (0, p, t) :: g.applied } 0 p, ?_, ?_, ?_, ?_, rfl⟩
  · show g.handle lengthHash alone 0 p t t t = _
    unfold Gossip.handle
    rw [if_pos ⟨hClock, le_rfl, le_rfl⟩, hAccept]
    exact if_pos rfl
  · show (update g.nodes 0 d 0).trustedRevokers = _
    rw [hNode, applyRevoke_trustedRevokers]
    exact hTrust
  · show (update g.nodes 0 d 0).revokeSeen = _
    rw [hNode, applyRevoke_revokeSeen]
  · show update g.clock 0 t 0 = t
    exact update_self ..

/-- The node after the first revoke and `k` others, all at the first time. -/
structure Filled (k : Nat) (g : Gossip 1) : Prop where
  trusted : (g.nodes 0).trustedRevokers = trustingNode.trustedRevokers
  clock : g.clock 0 = firstTime
  card : (g.nodes 0).revokeSeen.keys.card = k + 1
  first : (g.nodes 0).revokeSeen.lookup (lengthDigest 101).hex = some firstTime
  free : ∀ i, k ≤ i → i < 2000 →
    (g.nodes 0).revokeSeen.lookup (lengthDigest (221 + i)).hex = none
  applied : (0, firstRevoke, firstTime) ∈ g.applied

theorem otherRevoke_inWindow (k : Nat) : (otherRevoke 1779300000 k).InWindow firstTime := by
  show ((firstTime / nanosPerSecond : Nat) : Int) - maxRevokeAge ≤ 1779300000 ∧
    1779300000 ≤ ((firstTime / nanosPerSecond : Nat) : Int) + maxRevokeFutureSkew
  decide

theorem exists_filled (k : Nat) (hk : k ≤ 1023) :
    ∃ as g, Exec (stepOf (Gossip.next lengthHash alone)) (Gossip.init fun _ => trustingNode) as g ∧
      Filled k g := by
  induction k with
  | zero =>
    have hMark : markSeen ∅ (revokeID lengthHash firstRevoke) firstTime firstTime =
        some (Finmap.insert (lengthDigest 101).hex firstTime ∅) := by
      rw [revokeID_firstRevoke]
      refine markSeen_small (lookup_empty _) ?_
      rw [card_keys_insert _ (lookup_empty _)]
      decide
    obtain ⟨g, hStep, hTrusted, hSeen, hClock, hApplied⟩ := exec_accept
      (g := Gossip.init fun _ => trustingNode) rfl rfl rfl (Nat.zero_le _)
      (by unfold RevokePayload.InWindow; decide) hMark
    refine ⟨_, g, Exec.single hStep, hTrusted, hClock, ?_, ?_, ?_, ?_⟩
    · rw [hSeen, card_keys_insert _ (lookup_empty _)]
      rfl
    · rw [hSeen, lookup_insert]
    · intro i _ hi
      rw [hSeen,
        lookup_insert_of_ne _ (hex_lengthDigest_ne (by omega) (by omega) (by omega)),
        lookup_empty]
    · rw [hApplied]
      exact mem_cons_self
  | succ k ih =>
    obtain ⟨as, g, hRun, h⟩ := ih (by omega)
    have hNew := h.free k le_rfl (by omega)
    have hMark : markSeen (g.nodes 0).revokeSeen
        (revokeID lengthHash (otherRevoke 1779300000 k)) firstTime firstTime =
        some ((g.nodes 0).revokeSeen.insert (lengthDigest (221 + k)).hex firstTime) := by
      rw [revokeID_otherRevoke (by decide)]
      refine markSeen_small hNew ?_
      rw [card_keys_insert _ hNew, h.card]
      omega
    obtain ⟨g', hStep, hTrusted, hSeen, hClock, hApplied⟩ := exec_accept h.trusted rfl rfl
      h.clock.le (otherRevoke_inWindow k) hMark
    refine ⟨_, g', hRun.snoc hStep, hTrusted, hClock, ?_, ?_, ?_, ?_⟩
    · rw [hSeen, card_keys_insert _ hNew, h.card]
    · rw [hSeen,
        lookup_insert_of_ne _ (hex_lengthDigest_ne (by omega) (by omega) (by omega)),
        h.first]
    · intro i hi hLt
      rw [hSeen,
        lookup_insert_of_ne _ (hex_lengthDigest_ne (by omega) (by omega) (by omega)),
        h.free i (by omega) hLt]
    · rw [hApplied]
      exact mem_cons_of_mem _ h.applied

/-- **A revoke that is applied twice.** The first revoke comes, and 1023 others.
More than two days later another one comes, upon which the node forgets all of
them; and then the payload with the same signed bytes and the later
timestamp. -/
theorem revoke_applied_twice :
    secondRevoke.canonical = firstRevoke.canonical ∧
    ∃ as g, Exec (stepOf (Gossip.next lengthHash alone)) (Gossip.init fun _ => trustingNode) as g ∧
      (0, firstRevoke, firstTime) ∈ g.applied ∧ (0, secondRevoke, secondTime) ∈ g.applied ∧
      1 < g.applications lengthHash 0 (revokeID lengthHash firstRevoke) := by
  refine ⟨canonical_secondRevoke, ?_⟩
  obtain ⟨as, g, hRun, h⟩ := exists_filled 1023 le_rfl
  have hNew := h.free 1023 le_rfl (by omega)
  have hSameID : revokeID lengthHash secondRevoke = (lengthDigest 101).hex := by
    rw [← revokeID_firstRevoke]
    unfold revokeID
    rw [canonical_secondRevoke]
  -- the one that makes the node forget
  obtain ⟨seen, hMark⟩ := exists_markSeen hNew secondTime secondTime
  have hForgotten : seen.lookup (lengthDigest 101).hex = none := by
    refine markSeen_prunes hMark ?_ ?_ (t := firstTime) (by decide)
    · rw [card_keys_insert _ hNew, h.card]
      omega
    · rw [lookup_insert_of_ne _ (hex_lengthDigest_ne (by omega) (by omega) (by omega)),
        h.first]
  have hOther : revokeID lengthHash (otherRevoke 1779600000 1023) =
      (lengthDigest (221 + 1023)).hex := revokeID_otherRevoke (by decide) _
  rw [← hOther] at hMark
  obtain ⟨g₁, hStep₁, hTrusted₁, hSeen₁, hClock₁, hApplied₁⟩ := exec_accept h.trusted rfl rfl
    (h.clock.le.trans (by decide)) (by unfold RevokePayload.InWindow; decide) hMark
  -- the second payload
  rw [← hSeen₁, ← hSameID] at hForgotten
  obtain ⟨seen₂, hMark₂⟩ := exists_markSeen hForgotten secondTime secondTime
  obtain ⟨g₂, hStep₂, -, -, -, hApplied₂⟩ := exec_accept hTrusted₁ rfl rfl hClock₁.le
    (by unfold RevokePayload.InWindow; decide) hMark₂
  have hFirst : (0, firstRevoke, firstTime) ∈ g₁.applied := by
    rw [hApplied₁]
    exact mem_cons_of_mem _ h.applied
  refine ⟨_, g₂, (hRun.snoc hStep₁).snoc hStep₂, ?_, ?_, ?_⟩
  · rw [hApplied₂]
    exact mem_cons_of_mem _ hFirst
  · rw [hApplied₂]
    exact mem_cons_self
  · unfold Gossip.applications
    rw [hApplied₂, filter_cons_of_pos, length_cons]
    · have hMem : (0, firstRevoke, firstTime) ∈ g₁.applied.filter fun x =>
          x.1 = 0 ∧ revokeID lengthHash x.2.1 = revokeID lengthHash firstRevoke :=
        mem_filter.mpr ⟨hFirst, decide_eq_true ⟨rfl, rfl⟩⟩
      have hPos := length_pos_of_mem hMem
      omega
    · exact decide_eq_true ⟨rfl, hSameID.trans revokeID_firstRevoke.symm⟩

end AltNet
