import AltNet.Node.Machine

/-!
# AltNet — which contacts the routing table trusts

A contact that was only heard of second-hand has no `LastSeen` time. It gets
one when a call made with it succeeds, and the table treats it as alive from
then on. A call is made with a contact by dialing one of its addresses and
succeeds when some reply with the call's identifier arrives; nobody compares
the key of the connection with the identifier of the contact. Whoever hands
out a contact chooses both, so a peer can have any identifier promoted by
answering at the address it gave for it: `promoted_unheard` is such a run.

Main results:

* `TrustInv.step` — a step in which every call that succeeds was answered by
  its contact keeps the invariant;
* `trust_is_earned` — in a run of such steps every contact with a `LastSeen`
  time has sent a verified message on a connection authenticated by its own
  key.
-/

namespace AltNet

open List RoutingTable

open NodeID (fill)

namespace Node

variable {κ : Type}

/-- A verified message has been received on a connection whose handshake key
hashes to `id`. -/
def Heard (w : World) (key : κ → Bytes) (s : Node κ) (id : NodeID) : Prop :=
  ∃ k ∈ s.heard, w.cr.sha256 (key k) = id

/-- Every contact with a `LastSeen` time was heard. -/
def TrustEarned (w : World) (key : κ → Bytes) (s : Node κ) : Prop :=
  ∀ i c, c ∈ s.dht.rt.buckets i → c.lastSeen ≠ 0 → s.Heard w key c.id

/-- If the step lets a call succeed, the reply came on a connection with the
identifier of the call's contact. -/
def answeredByContact (w : World) (s : Node κ) : NodeAction κ → Bool
  | .complete i _ =>
    (s.arrived[i]?).all fun (rpc, k, msg) =>
      !rpc.refreshes w msg || decide ((s.conn k).remoteID = rpc.contact.id.hex)
  | _ => true

/-- What such steps keep: next to the table, the evictions under way let in
and keep only contacts that were heard. -/
structure TrustInv (w : World) (key : κ → Bytes) (s : Node κ) : Prop where
  locked : ∀ k, s.conn k = w.cr.authenticated (key k)
  table : s.TrustEarned w key
  arrived : ∀ rpc k msg, (rpc, k, msg) ∈ s.arrived → k ∈ s.heard
  candidate : ∀ e ∈ s.evictions, s.Heard w key e.candidate.id
  judged : ∀ e alive, (e, alive) ∈ s.judged → s.Heard w key e.candidate.id ∧
    (alive = true → s.Heard w key e.head.id)

namespace TrustInv

variable {w : World} {key : κ → Bytes} {s t : Node κ} {d : DHT} {msg : Message}

theorem init (w : World) (key : κ → Bytes) (hEmpty : ∀ i c, c ∈ d.rt.buckets i → c.lastSeen = 0) :
    TrustInv w key (Node.init w key d) where
  locked := fun _ => rfl
  table := fun i c hc hSeen => absurd (hEmpty i c hc) hSeen
  arrived := by simp [Node.init]
  candidate := by simp [Node.init]
  judged := by simp [Node.init]

variable (h : TrustInv w key s)

include h

/-- `Update` with a contact that was heard. -/
theorem update {c : Contact} {now : Time} {evictions : List Eviction}
    (hHeard : s.Heard w key c.id) (hRt : d.rt = (s.dht.rt.update c now).1)
    (hEvictions : evictions = (s.dht.rt.update c now).2.toList ++ s.evictions) :
    TrustInv w key { s with dht := d, evictions } where
  __ := h
  table := by
    intro i x hx hSeen
    change x ∈ d.rt.buckets i at hx
    rw [hRt] at hx
    rcases update_mem hx with hOld | ⟨hId, -⟩
    · exact h.table i x hOld hSeen
    · rw [hId]
      exact hHeard
  candidate := by
    intro e he
    change e ∈ evictions at he
    rw [hEvictions] at he
    rcases mem_append.mp he with hNew | hOld
    · rw [(update_eviction (Option.mem_toList.mp hNew)).2.2.1]
      exact hHeard
    · exact h.candidate e hOld

/-- The routing table may change as long as nobody gets a `LastSeen` time. -/
theorem setRt (hRt : ∀ i c, c ∈ d.rt.buckets i → c.lastSeen ≠ 0 → s.Heard w key c.id) :
    TrustInv w key { s with dht := d } where
  __ := h
  table := hRt

/-- The verdict on the head of a bucket; to be alive it must have been heard. -/
theorem judge {e : Option Eviction} {alive : Bool}
    (hHead : ∀ e' ∈ e, alive = true → s.Heard w key e'.head.id) :
    TrustInv w key (s.judge e alive) where
  __ := h
  candidate := by
    intro e' he'
    refine h.candidate e' ?_
    unfold Node.judge at he'
    cases hFilter : e.filter (· ∈ s.evictions) with
    | none => simpa [hFilter] using he'
    | some x =>
      simp only [hFilter, Option.elim_some] at he'
      exact mem_of_mem_erase he'
  judged := by
    intro e' alive' he'
    rcases mem_append.mp he' with hNew | hOld
    · obtain ⟨x, hx, hEq⟩ := Option.map_eq_some_iff.mp (Option.mem_toList.mp hNew)
      cases hEq
      obtain ⟨hMem, hWaits⟩ := Option.filter_eq_some_iff.mp hx
      exact ⟨h.candidate e' (by simpa using hWaits), hHead e' hMem⟩
    · exact h.judged e' alive' hOld

/-- A call that goes on; if it succeeds, its contact was heard. -/
theorem resume {rpc : Rpc} (now : Time)
    (hAnswer : rpc.refreshes w msg = true → s.Heard w key rpc.contact.id) :
    TrustInv w key (s.resume w rpc msg now) := by
  have hRefresh : TrustInv w key (s.refresh rpc.contact (rpc.refreshes w msg) now) := by
    cases hSuccess : rpc.refreshes w msg with
    | true => exact h.update (hAnswer hSuccess) rfl rfl
    | false => exact { h with }
  refine hRefresh.judge fun e he hAlive => ?_
  have hContact : rpc.contact = e.head := by
    cases rpc with
    | evictionPing e' =>
      cases he
      rfl
    | ping | findNode | findValue | store => cases he
  rw [← hContact]
  exact hAnswer hAlive

omit h

variable [DecidableEq κ]

variable (h : TrustInv w key s)

include h

/-- A verified message is one more to be heard; the rest stays. -/
theorem accept {k : κ} {pc : PeerConn} (rest : Bytes)
    (hVerify : verifyMessage w.cr w.messages (s.conn k) msg = .ok pc) :
    TrustInv w key (s.accept k pc rest) := by
  have hMono : ∀ {id}, s.Heard w key id → (s.accept k pc rest).Heard w key id := by
    rintro id ⟨k', hk', hId⟩
    exact ⟨k', mem_cons_of_mem _ hk', hId⟩
  have hSame : Function.update s.conn k pc = s.conn := by
    rw [h.locked k] at hVerify
    rw [(verifyMessage_authenticated hVerify).2.2, ← h.locked k, Function.update_eq_self]
  exact
    { locked := by
        show ∀ k', Function.update s.conn k pc k' = _
        rw [hSame]
        exact h.locked
      table := fun i c hc hSeen => hMono (h.table i c hc hSeen)
      arrived := fun rpc k' msg' hMem => mem_cons_of_mem _ (h.arrived rpc k' msg' hMem)
      candidate := fun e he => hMono (h.candidate e he)
      judged := fun e alive he =>
        ⟨hMono (h.judged e alive he).1, fun hAlive => hMono ((h.judged e alive he).2 hAlive)⟩ }

/-- A message that was verified and goes to the DHT. -/
theorem dispatched {k : κ} {env : Env} {out : Outcome} (hHeard : k ∈ s.heard)
    (hPub : publicKeyFromHex msg.publicKey = some (key k))
    (hOut : s.dht.handleMessage w.cr w.payloads (s.address k) msg env = some out) :
    TrustInv w key (s.dispatched k msg out) := by
  have hSender : DHT.senderID w.cr msg = some (w.cr.sha256 (key k)) := DHT.senderID_eq hPub
  -- the aliases and the history do not matter here
  suffices hInv : TrustInv w key
      { s with dht := out.dht, evictions := out.eviction.toList ++ s.evictions } from
    { hInv with }
  rcases DHT.handleMessage_rt hOut with ⟨c, hId, hRt, hEviction⟩ | ⟨hNone, hRt⟩
  · refine h.update ⟨k, hHeard, ?_⟩ hRt (by rw [hEviction])
    rw [hSender] at hId
    exact Option.some.inj hId
  rw [hNone]
  refine h.setRt fun i c hc hSeen => h.table i c ?_ hSeen
  rcases hRt with hSame | ⟨id, hRemove⟩
  · rwa [hSame] at hc
  · exact remove_mem hRemove hc

/-- **One step.** A step in which a call succeeds only if its contact answered
keeps the invariant. -/
theorem step {act : NodeAction κ} (hStep : s.next w act = some t)
    (hGood : s.answeredByContact w act = true) : TrustInv w key t := by
  cases next_effect hStep with
  | quiet hDht hConn hArrived hEvictions hJudged hHeard _ _ =>
    have hSame : ∀ {id}, t.Heard w key id ↔ s.Heard w key id := by
      intro id
      unfold Heard
      rw [hHeard]
    exact
      { locked := by rw [hConn]; exact h.locked
        table := by
          intro i c hc hSeen
          rw [hDht] at hc
          exact hSame.mpr (h.table i c hc hSeen)
        arrived := by rw [hArrived, hHeard]; exact h.arrived
        candidate := by
          intro e he
          rw [hEvictions] at he
          exact hSame.mpr (h.candidate e he)
        judged := by
          intro e alive he
          rw [hJudged] at he
          simp only [hSame]
          exact h.judged e alive he }
  | @answer k env rpc msg pc rest hVerify _ =>
    have hAccept := h.accept rest hVerify
    refine { hAccept with arrived := ?_ }
    intro rpc' k' msg' hMem
    rcases mem_cons.mp hMem with hEq | hOld
    · cases hEq
      exact mem_cons_self
    · exact hAccept.arrived rpc' k' msg' hOld
  | @dispatch k env msg pc rest out hVerify _ hOut =>
    have hKey := hVerify
    rw [h.locked k] at hKey
    exact (h.accept rest hVerify).dispatched mem_cons_self
      (verifyMessage_authenticated hKey).1 hOut
  | @complete i now rpc k msg hArrived =>
    have hMem : (rpc, k, msg) ∈ s.arrived := mem_of_getElem? hArrived
    have hRest : TrustInv w key { s with arrived := s.arrived.eraseIdx i } :=
      { h with arrived := fun rpc' k' msg' h' => h.arrived rpc' k' msg' (mem_of_mem_eraseIdx h') }
    refine hRest.resume now fun hSuccess => ⟨k, h.arrived rpc k msg hMem, ?_⟩
    -- the identifier of the connection is that of its handshake key
    simp only [answeredByContact, hArrived, Option.all_some, hSuccess, h.locked k] at hGood
    exact NodeID.hex_injective (of_decide_eq_true hGood)
  | giveUp => exact h.judge fun _ _ hAlive => by cases hAlive
  | @evict i now e alive hJudged =>
    have hVerdict := h.judged e alive (mem_of_getElem? hJudged)
    have hRest : TrustInv w key { s with judged := s.judged.eraseIdx i } :=
      { h with judged := fun e' alive' h' => h.judged e' alive' (mem_of_mem_eraseIdx h') }
    refine hRest.setRt fun j c hc hSeen => ?_
    rcases maybeEvictHead_mem hc with hOld | ⟨hAlive, hId, -⟩ | ⟨-, rfl⟩
    · exact h.table j c hOld hSeen
    · rw [hId]
      exact hVerdict.2 hAlive
    · exact hVerdict.1
  | hint =>
    refine h.setRt fun i c hc hSeen => ?_
    rcases hint_mem hc with hOld | rfl
    · exact h.table i c hOld hSeen
    · exact absurd rfl hSeen
  | remove hRemove =>
    exact h.setRt fun i c hc hSeen => h.table i c (remove_mem hRemove hc) hSeen

end TrustInv

end Node

open Node

/-- **Trust is earned where contacts answer for themselves.** In every state
that a node reaches by steps in which a call succeeds only with a reply of its
own contact, every contact of the table with a `LastSeen` time has sent a
verified message on a connection authenticated by its own key. -/
theorem trust_is_earned {κ : Type} [DecidableEq κ] (w : World) (key : κ → Bytes) {d : DHT}
    (hEmpty : ∀ i c, c ∈ d.rt.buckets i → c.lastSeen = 0) {as : List (NodeAction κ)}
    {s : Node κ}
    (hRun : Exec (guarded (stepOf (next w)) fun t act => t.answeredByContact w act = true)
      (init w key d) as s) : s.TrustEarned w key :=
  (hRun.invariant (I := TrustInv w key) (TrustInv.init w key hEmpty)
    fun h hStep => h.step hStep.1 hStep.2).table

/-- A node calls `Ping` with a contact that it has heard of second-hand, and
gets a reply on the connection it has for the contact's address. -/
def promoteRun (id : NodeID) : List (NodeAction Unit) :=
  [.register () "addr".toList, .hint ⟨id, "addr".toList, [], 0⟩,
   .request "r".toList (.ping ⟨id, "addr".toList, [], 0⟩) "addr".toList,
   .receive () [0, 0, 0, 1, 1], .read () ⟨6, 6, 6, []⟩, .complete 0 7]

/-- A world with that reply, signed by the peer with the sample key. -/
def pongWorld : World :=
  tableWorld [([1], ⟨1, "dht_pong".toList, (fill 9).hex, publicKeyToHex samplePub,
    "r".toList, [], []⟩)] []

/-- The theorem on a contact that answers for itself: it is in the table with
a `LastSeen` time, and it was heard. -/
theorem trust_is_earned_own_answer :
    ∃ s, Exec (guarded (stepOf (next pongWorld))
          fun t act => t.answeredByContact pongWorld act = true)
        (init pongWorld (fun _ => samplePub) (DHT.new (fill 0) 0 0))
        (promoteRun (fill 9)) s ∧
      s.dht.rt.buckets 4 = [⟨fill 9, "addr".toList, [], 7⟩] ∧
      s.Heard pongWorld (fun _ => samplePub) (fill 9) := by
  refine Exec.exists_of_checked
    (p := fun s : Node Unit => s.dht.rt.buckets 4 = [⟨fill 9, "addr".toList, [], 7⟩])
    (next pongWorld) (answeredByContact pongWorld) (fun hNext hOk => ⟨hNext, hOk⟩)
    (by decide +kernel) ?_
  intro s hRun hBucket
  have hTrust := trust_is_earned pongWorld _ (by simp [DHT.new, RoutingTable.new]) hRun
  exact ⟨hBucket, hTrust 4 _ (by rw [hBucket]; exact mem_singleton.mpr rfl) (by simp)⟩

/-- With the same reply the node promotes any other identifier at that
address, though nothing was ever heard from it. -/
theorem promoted_unheard :
    ∃ s, Exec (stepOf (next pongWorld))
        (init pongWorld (fun _ => samplePub) (DHT.new (fill 0) 0 0))
        (promoteRun (fill 5)) s ∧
      ⟨fill 5, "addr".toList, [], 7⟩ ∈ s.dht.rt.all ∧
      ¬ s.Heard pongWorld (fun _ => samplePub) (fill 5) ∧
      ¬ s.TrustEarned pongWorld fun _ => samplePub := by
  refine Exec.exists_of_runFrom
    (p := fun s : Node Unit => s.dht.rt.buckets 5 = [⟨fill 5, "addr".toList, [], 7⟩])
    (by decide +kernel) ?_
  intro s _ hBucket
  have hMem : ⟨fill 5, "addr".toList, [], 7⟩ ∈ s.dht.rt.buckets 5 := by
    rw [hBucket]
    exact mem_singleton.mpr rfl
  have hNot : ¬ s.Heard pongWorld (fun _ => samplePub) (fill 5) := by
    have hOther : pongWorld.cr.sha256 samplePub ≠ fill 5 := by decide
    rintro ⟨_, _, hId⟩
    exact hOther hId
  exact ⟨mem_all.mpr ⟨5, by decide, hMem⟩, hNot, fun h => hNot (h 5 _ hMem (by simp))⟩

end AltNet
