import AltNet.Dht.Walk
import AltNet.Dht.Revoke

/-!
# AltNet — value lookups (`core/dht/dht.go`)

`getInner` answers from the local store if it can, and otherwise walks
towards the key until somebody returns a value that passes the check.
`GetAllUnverified`, which name resolution uses, never stops at a value: it
collects all that it is sent.

The walk gives up when a round brings it no nearer to the key, so a lookup
may end with some of the `bucketK` closest contacts never asked.

Main results:

* `getInner_reached` / `getAllUnverified_reached` — whom a lookup has asked
  when it ends without a value, and what it makes of their replies;
* `getInner_terminates` / `getAllUnverified_terminates` — undisturbed, a
  lookup ends;
* `lookup_gives_up` — a reachable contact among the closest that holds the
  value and is never asked for it.
-/

namespace AltNet

open Walk

open NodeID (fill)

/-- The outcome of a lookup, with the walk it made. -/
structure Lookup (α : Type) where
  dht : DHT
  walk : Walk
  result : Except DhtError α

namespace DHT

/-- `getInner`, with at most `fuel` rounds. The local store is read at time
`now`, and written, in the order `order` should an eviction be needed, at time
`later`. -/
def getInner (d : DHT) (cr : Crypto) (net : Remote) (key : NodeID) (verify : Bool)
    (order : List GoString) (now later : Time) (fuel : Nat) : Option (Lookup Bytes) :=
  let walk := start d.rt key []
  if d.isBlocked key then some ⟨d, walk, .error .notFound⟩
  else
    let (store, cached) := d.store.get key now
    let d := { d with store }
    match cached.filter (cr.acceptable key verify) with
    | some v => some ⟨d, walk, .ok v⟩
    | none =>
      if walk.shortlist = [] then some ⟨d, walk, .error .emptyTable⟩
      else
        (run net key (cr.acceptable key verify) true fuel 0 walk).map fun w =>
          let d := { d with rt := w.rt }
          match w.values with
          | [] => ⟨d, w, .error .notFound⟩
          | v :: _ =>
            let store := if verify then (d.store.put order key v [] later).1 else d.store
            ⟨{ d with store }, w, .ok v⟩

/-- `GetAllUnverified`, with at most `fuel` rounds. The results are a Go map
keyed by the values, so each value is in it once and there is no order. -/
def getAllUnverified (d : DHT) (net : Remote) (key : NodeID) (now : Time) (fuel : Nat) :
    Option (Lookup (Finset Bytes)) :=
  let (store, cached) := d.store.get key now
  let d := { d with store }
  let walk := start d.rt key cached.toList
  if walk.shortlist = [] ∧ walk.values = [] then some ⟨d, walk, .error .emptyTable⟩
  else
    (run net key (fun _ => true) false fuel 0 walk).map fun w =>
      ⟨{ d with rt := w.rt }, w,
        if w.values = [] then .error .notFound else .ok w.values.toFinset⟩

variable {d : DHT} {cr : Crypto} {net : Remote} {key : NodeID} {verify : Bool}
  {order : List GoString} {now later : Time} {fuel : Nat} {l : Lookup Bytes}

/-- A lookup ends without a value only after its walk has. -/
theorem getInner_notFound (hOpen : d.isBlocked key = false)
    (h : d.getInner cr net key verify order now later fuel = some l)
    (hNone : l.result = .error .notFound) :
    run net key (cr.acceptable key verify) true fuel 0 (start d.rt key []) =
      some l.walk ∧ l.walk.values = [] := by
  unfold getInner at h
  rw [if_neg (by simp [hOpen])] at h
  dsimp only at h
  split at h
  · cases h
    cases hNone
  split at h
  · cases h
    cases hNone
  obtain ⟨w, hRun, rfl⟩ := Option.map_eq_some_iff.mp h
  cases hValues : w.values with
  | nil =>
    simp only [hValues]
    exact ⟨hRun, trivial⟩
  | cons v rest =>
    simp only [hValues] at hNone
    cases hNone

/-- `GetAllUnverified` returns what its walk has collected. -/
theorem getAllUnverified_some {l : Lookup (Finset Bytes)}
    (h : d.getAllUnverified net key now fuel = some l) :
    (d.rt.closest key bucketK = [] ∧ l.walk = start d.rt key [] ∧
      l.result = .error .emptyTable) ∨
    ∃ values, run net key (fun _ => true) false fuel 0 (start d.rt key values) =
        some l.walk ∧
      l.result = if l.walk.values = [] then .error .notFound else .ok l.walk.values.toFinset := by
  unfold getAllUnverified at h
  dsimp only at h
  split at h
  · rename_i hNone
    cases h
    have hNil : (d.store.get key now).2.toList = [] := hNone.2
    exact .inl ⟨hNone.1, by rw [hNil], rfl⟩
  · obtain ⟨w, hRun, rfl⟩ := Option.map_eq_some_iff.mp h
    exact .inr ⟨_, hRun, rfl⟩

/-- A table without contacts leaves nobody to ask. -/
theorem reached_of_empty (h : d.rt.closest key bucketK = []) :
    (start d.rt key []).Reached key where
  nearest c hc := by
    obtain ⟨x, rest, hList⟩ := RoutingTable.exists_closest_cons key hc.1 bucketK_pos
    have hList : d.rt.closest key bucketK = x :: rest := hList
    rw [h] at hList
    cases hList
  front := by
    refine .inl fun c hc => ?_
    have hc : c ∈ d.rt.closest key bucketK := hc
    rw [h] at hc
    cases hc

/-- **A lookup without a value.** When `getInner` finds nothing for a key that
is not blocked, its walk has reached what walks reach, and nobody it asked
sent an acceptable value. -/
theorem getInner_reached (hOpen : d.isBlocked key = false)
    (h : d.getInner cr net key verify order now later fuel = some l)
    (hNone : l.result = .error .notFound) :
    l.walk.Reached key ∧ ∀ e ∈ l.walk.asked, ∀ v, net.reply e.1 e.2 = .value v →
      cr.acceptable key verify v = false := by
  obtain ⟨hRun, hValues⟩ := getInner_notFound hOpen h hNone
  obtain ⟨hReached, hAll⟩ := run_reached hRun fun _ => hValues
  refine ⟨hReached, fun e he v hReply => ?_⟩
  by_contra hGood
  have hMem := hAll e he v hReply (by simpa using hGood)
  rw [hValues] at hMem
  cases hMem

/-- The only other error is that of an empty table. -/
theorem getInner_error {e : DhtError}
    (h : d.getInner cr net key verify order now later fuel = some l)
    (hError : l.result = .error e) :
    e = .notFound ∨ (d.rt.closest key bucketK = [] ∧ l.walk = start d.rt key []) := by
  unfold getInner at h
  dsimp only at h
  split at h
  · cases h
    cases hError
    exact .inl rfl
  split at h
  · cases h
    cases hError
  split at h
  · rename_i hEmpty
    cases h
    exact .inr ⟨hEmpty, rfl⟩
  obtain ⟨w, -, rfl⟩ := Option.map_eq_some_iff.mp h
  cases hValues : w.values with
  | nil =>
    simp only [hValues, Except.error.injEq] at hError
    exact .inl hError.symm
  | cons v rest =>
    simp only [hValues] at hError
    cases hError

/-- **What the nearest contact holds is found**: if everything known under its
identifier always answers with an acceptable value, so does `getInner`. -/
theorem getInner_finds {c : Contact} (hOpen : d.isBlocked key = false)
    (h : d.getInner cr net key verify order now later fuel = some l)
    (hNearest : l.walk.rt.Nearest key c)
    (hHolds : ∀ n c', c'.id = c.id → ∃ v, net.reply n c' = .value v ∧
      cr.acceptable key verify v = true) : ∃ v, l.result = .ok v := by
  cases hResult : l.result with
  | ok v => exact ⟨v, rfl⟩
  | error e =>
    exfalso
    rcases getInner_error h hResult with rfl | ⟨hEmpty, hWalk⟩
    · obtain ⟨hReached, hBad⟩ := getInner_reached hOpen h hResult
      obtain ⟨asked, hAsked, hId⟩ := hReached.nearest c hNearest
      obtain ⟨v, hReply, hGood⟩ := hHolds asked.1 asked.2 hId
      rw [hBad asked hAsked v hReply] at hGood
      cases hGood
    · rw [hWalk] at hNearest
      obtain ⟨asked, hAsked, -⟩ := (reached_of_empty hEmpty).nearest c hNearest
      cases hAsked

/-- **A collecting lookup.** Whenever `GetAllUnverified` returns, its walk has
reached what walks reach, and every value it was sent is in the result. -/
theorem getAllUnverified_reached {l : Lookup (Finset Bytes)}
    (h : d.getAllUnverified net key now fuel = some l) :
    l.walk.Reached key ∧ ∀ e ∈ l.walk.asked, ∀ v, net.reply e.1 e.2 = .value v →
      ∃ values, l.result = .ok values ∧ v ∈ values := by
  rcases getAllUnverified_some h with ⟨hEmpty, hWalk, -⟩ | ⟨values, hRun, hResult⟩
  · rw [hWalk]
    refine ⟨reached_of_empty hEmpty, fun e he => ?_⟩
    cases he
  obtain ⟨hReached, hAll⟩ := run_reached hRun nofun
  refine ⟨hReached, fun e he v hReply => ?_⟩
  have hMem : v ∈ l.walk.values := hAll e he v hReply rfl
  rw [if_neg (List.ne_nil_of_mem hMem)] at hResult
  exact ⟨_, hResult, List.mem_toFinset.mpr hMem⟩

/-- Undisturbed walks need no more rounds than there are distances. -/
theorem walk_terminates (hQuiet : net.Quiet) (hFuel : 2 ^ 256 ≤ fuel) (rt : RoutingTable)
    (key : NodeID) (accepts : Bytes → Bool) (eager : Bool) (values : List Bytes) :
    ∃ w, run net key accepts eager fuel 0 (start rt key values) = some w := by
  have hGap := gap_lt key (start rt key values)
  exact run_terminates hQuiet (Walk.WalkInv.start rt values) (hGap.trans_le hFuel)

theorem getInner_terminates (hQuiet : net.Quiet) (hFuel : 2 ^ 256 ≤ fuel) :
    (d.getInner cr net key verify order now later fuel).isSome = true := by
  unfold getInner
  dsimp only
  split
  · rfl
  split
  · rfl
  split
  · rfl
  · obtain ⟨w, hRun⟩ := walk_terminates hQuiet hFuel d.rt key (cr.acceptable key verify) true []
    rw [Option.isSome_map, hRun]
    rfl

theorem getAllUnverified_terminates (hQuiet : net.Quiet) (hFuel : 2 ^ 256 ≤ fuel) :
    (d.getAllUnverified net key now fuel).isSome = true := by
  unfold getAllUnverified
  dsimp only
  split
  · rfl
  obtain ⟨w, hRun⟩ := walk_terminates hQuiet hFuel d.rt key (fun _ => true) false
    (d.store.get key now).2.toList
  rw [Option.isSome_map, hRun]
  rfl

end DHT

/-- The contact whose identifier is made of one byte. -/
def contactOf (b : UInt8) : Contact := ⟨fill b, [Char.ofNat b.toNat], [], 0⟩

/-- A quiet network in which each contact always replies the same. -/
def steadyNet (reply : Contact → FindReply) : Remote where
  reply := fun _ => reply
  refreshOrder := fun _ l => l
  replyOrder := fun _ l => l
  others := fun _ buckets => buckets
  now := fun n => n
  refresh_perm := fun _ l => .refl l
  reply_perm := fun _ l => .refl l

/-- A node that knows the given contacts. -/
def nodeKnowing (cs : List Contact) : DHT :=
  { DHT.new (fill 0) 0 0 with
    rt := cs.foldl (fun rt c => (rt.update c 1).1) (RoutingTable.new (fill 0) true) }

/-- The three contacts nearest to the key do not answer; the fourth has the
value. -/
def deafNet : Remote := steadyNet fun c => if c.id = fill 4 then .value [9] else .failed

/-- A walk on this network has left out the contact that answers. -/
def leftOut (w : Walk) : Bool :=
  (w.rt.closest (fill 9) bucketK).any fun c =>
    decide (c.id = fill 4) && decide (¬ w.HasAsked c.id)

theorem leftOut_spec {w : Walk} (h : leftOut w = true) :
    ∃ c ∈ w.rt.closest (fill 9) bucketK, ¬ w.HasAsked c.id ∧
      ∀ n, deafNet.reply n c = .value [9] := by
  obtain ⟨c, hc, hOut⟩ := List.any_eq_true.mp h
  rw [Bool.and_eq_true, decide_eq_true_eq, decide_eq_true_eq] at hOut
  exact ⟨c, hc, hOut.2, fun _ => if_pos hOut.1⟩

/-- On this network both lookups end with `ErrNotFound`, although one of the
closest contacts of the table always answers with the value. -/
theorem lookup_gives_up :
    ∃ l l', (nodeKnowing [contactOf 1, contactOf 2, contactOf 3, contactOf 4]).getInner
        firstByte deafNet (fill 9) true [] 1 2 10 = some l ∧
      (nodeKnowing [contactOf 1, contactOf 2, contactOf 3, contactOf 4]).getAllUnverified
        deafNet (fill 9) 1 10 = some l' ∧
      l.result = .error .notFound ∧ l'.result = .error .notFound ∧
      (∃ c ∈ l.walk.rt.closest (fill 9) bucketK, ¬ l.walk.HasAsked c.id ∧
        ∀ n, deafNet.reply n c = .value [9]) ∧
      (∃ c ∈ l'.walk.rt.closest (fill 9) bucketK, ¬ l'.walk.HasAsked c.id ∧
        ∀ n, deafNet.reply n c = .value [9]) ∧
      firstByte.acceptable (fill 9) true [9] = true := by
  have hGet : ((nodeKnowing [contactOf 1, contactOf 2, contactOf 3, contactOf 4]).getInner
      firstByte deafNet (fill 9) true [] 1 2 10).map
      (fun l => (l.result, leftOut l.walk)) = some (.error .notFound, true) := by
    decide +kernel
  have hAll : ((nodeKnowing [contactOf 1, contactOf 2, contactOf 3, contactOf 4]).getAllUnverified
      deafNet (fill 9) 1 10).map (fun l => (l.result, leftOut l.walk)) =
      some (.error .notFound, true) := by
    decide +kernel
  obtain ⟨l, hl, hEq⟩ := Option.map_eq_some_iff.mp hGet
  obtain ⟨l', hl', hEq'⟩ := Option.map_eq_some_iff.mp hAll
  obtain ⟨hNone, hOut⟩ := Prod.mk.inj hEq
  obtain ⟨hNone', hOut'⟩ := Prod.mk.inj hEq'
  exact ⟨l, l', hl, hl', hNone, hNone', leftOut_spec hOut, leftOut_spec hOut', by decide⟩

end AltNet
