import AltNet.Dht.Lookup
import AltNet.Lib.Int64
import AltNet.Name.Record
import AltNet.Name.Grammar

/-!
# AltNet — name resolution (`core/name/name.go`)

`Resolve` collects every blob that `GetAllUnverified` finds under the key of a
name and picks, among the records that pass all checks, the one with the
highest version. How much of the network it hears is decided by the lookup
below it.

Times in a record are 64-bit Unix seconds, and their sums wrap around.

Main results:

* `pickBestRecord_max` — no acceptable candidate is passed over;
* `lookup_reaches` — whom a lookup has asked when it ends without a value,
  what becomes of their replies, and that it ends.
-/

namespace AltNet

/-- `MaxClockSkew`, in seconds. -/
def maxClockSkew : Int := 5 * 60

/-- `NameRecord.Expired`. -/
def NameRecord.expired (r : NameRecord) (now : Int) : Bool :=
  if addInt64 now maxClockSkew < r.timestamp then true
  else if r.ttl ≤ 0 then false
  else decide (addInt64 r.timestamp r.ttl < now)

/-- Why `pickBestRecord` drops a candidate: its `lastErr`. -/
inductive RecordError where
  | parse
  | otherName (name : GoString)
  | badSignature
  | notAuthority (pk : GoString)
  | expired (timestamp ttl now : Int)
  deriving DecidableEq

section Pick

variable (cr : Crypto) (codec : RecordCodec) (trusted : Finset GoString)
  (canonical : GoString) (now : Int)

/-- The checks in the loop of `pickBestRecord`. -/
def checkRecord (blob : Bytes) : Except RecordError NameRecord :=
  match codec.unmarshal blob with
  | none => .error .parse
  | some rec =>
    if rec.name ≠ canonical then .error (.otherName rec.name)
    else if rec.verify cr codec = false then .error .badSignature
    else if registrarAllowed trusted rec.publicKey = false then
      .error (.notAuthority (rec.publicKey.take 8))
    else if rec.expired now then .error (.expired rec.timestamp rec.ttl now)
    else .ok rec

/-- The body of the loop, on `best` and `lastErr`. -/
def pickStep (acc : Option NameRecord × Option RecordError) (blob : Bytes) :
    Option NameRecord × Option RecordError :=
  match checkRecord cr codec trusted canonical now blob with
  | .error e => (acc.1, some e)
  | .ok rec =>
    match acc.1 with
    | none => (some rec, acc.2)
    | some best => (if best.version < rec.version then some rec else some best, acc.2)

/-- `pickBestRecord`. -/
def pickBestRecord (candidates : List Bytes) : Option NameRecord × Option RecordError :=
  candidates.foldl (pickStep cr codec trusted canonical now) (none, none)

/-- `best` is there and at least as new as `v`. -/
def AtLeast (v : Int) (best : Option NameRecord) : Prop := ∃ b, best = some b ∧ v ≤ b.version

variable {cr codec trusted canonical now} {acc : Option NameRecord × Option RecordError}
  {blob : Bytes} {rec : NameRecord}

/-- A candidate that passes the checks is taken, unless there is a newer
one. -/
theorem pickStep_takes (h : checkRecord cr codec trusted canonical now blob = .ok rec) :
    AtLeast rec.version (pickStep cr codec trusted canonical now acc blob).1 := by
  unfold pickStep
  rw [h]
  obtain ⟨_ | best, lastErr⟩ := acc
  · exact ⟨rec, rfl, le_rfl⟩
  · dsimp only
    split
    · exact ⟨rec, rfl, le_rfl⟩
    · exact ⟨best, rfl, by omega⟩

/-- The best record is only replaced by a newer one. -/
theorem pickStep_keeps {v : Int} (h : AtLeast v acc.1) (blob : Bytes) :
    AtLeast v (pickStep cr codec trusted canonical now acc blob).1 := by
  obtain ⟨best, hBest, hLe⟩ := h
  unfold pickStep
  split
  · exact ⟨best, hBest, hLe⟩
  rw [hBest]
  dsimp only
  split
  · rename_i rec _ hLt
    exact ⟨rec, rfl, by omega⟩
  · exact ⟨best, rfl, hLe⟩

private theorem foldl_pickStep_keeps {v : Int} (candidates : List Bytes) (h : AtLeast v acc.1) :
    AtLeast v (candidates.foldl (pickStep cr codec trusted canonical now) acc).1 := by
  induction candidates generalizing acc with
  | nil => exact h
  | cons blob rest ih =>
    rw [List.foldl_cons]
    exact ih (pickStep_keeps h blob)

/-- **No acceptable candidate is passed over**: the record picked is at least
as new as every candidate that passes the checks. -/
theorem pickBestRecord_max {candidates : List Bytes} (hMem : blob ∈ candidates)
    (h : checkRecord cr codec trusted canonical now blob = .ok rec) :
    AtLeast rec.version (pickBestRecord cr codec trusted canonical now candidates).1 := by
  obtain ⟨before, after, rfl⟩ := List.append_of_mem hMem
  unfold pickBestRecord
  rw [List.foldl_append, List.foldl_cons]
  exact foldl_pickStep_keeps after (pickStep_takes h)

end Pick

/-- The errors of `Resolve`. -/
inductive ResolveError where
  | badName (e : NameError)
  | lookup (e : DhtError)
  | noValidRecord (lastErr : Option RecordError)
  deriving DecidableEq

/-- The order in which Go's `range` goes over the results of
`GetAllUnverified`. -/
structure ValueOrder where
  list : Finset Bytes → List Bytes
  mem_list : ∀ s v, v ∈ list s ↔ v ∈ s

/-- `Resolve` at Unix time `unixNow`, with at most `fuel` rounds of the
lookup. -/
def resolve (d : DHT) (cr : Crypto) (codec : RecordCodec) (trusted : Finset GoString)
    (net : Remote) (order : ValueOrder) (name : GoString) (now : Time) (unixNow : Int)
    (fuel : Nat) : Option (DHT × Except ResolveError NameRecord) :=
  match validName name with
  | some e => some (d, .error (.badName e))
  | none =>
    (d.getAllUnverified net (recordKey cr (canonicalName name)) now fuel).map fun l =>
      (l.dht, match l.result with
        | .error e => .error (.lookup e)
        | .ok values =>
          match pickBestRecord cr codec trusted (canonicalName name) unixNow
              (order.list values) with
          | (some best, _) => .ok best
          | (none, lastErr) => .error (.noValidRecord lastErr))

/-- `Resolve` is at least as new as every record that its lookup was sent. -/
theorem resolve_takes_into_account {d d' : DHT} {cr : Crypto} {codec : RecordCodec}
    {trusted : Finset GoString} {net : Remote} {order : ValueOrder} {name : GoString} {now : Time}
    {unixNow : Int} {fuel : Nat} {l : Lookup (Finset Bytes)}
    {r : Except ResolveError NameRecord} (hName : validName name = none)
    (hGet : d.getAllUnverified net (recordKey cr (canonicalName name)) now fuel = some l)
    (h : resolve d cr codec trusted net order name now unixNow fuel = some (d', r)) :
    ∀ e ∈ l.walk.asked, ∀ v rec, net.reply e.1 e.2 = .value v →
      checkRecord cr codec trusted (canonicalName name) unixNow v = .ok rec →
      ∃ best, r = .ok best ∧ rec.version ≤ best.version := by
  intro e he v rec hReply hRec
  obtain ⟨values, hValues, hMem⟩ := (DHT.getAllUnverified_reached hGet).2 e he v hReply
  obtain ⟨best, hBest, hLe⟩ := pickBestRecord_max ((order.mem_list values v).mpr hMem) hRec
  unfold resolve at h
  rw [hName, hGet] at h
  simp only [Option.map_some, hValues, Option.some.injEq, Prod.mk.injEq] at h
  refine ⟨best, ?_, hLe⟩
  rw [← h.2]
  split
  · rename_i hPick
    rw [hPick] at hBest
    rw [Option.some.inj hBest]
  · rename_i hPick
    rw [hPick] at hBest
    cases hBest

/-- **How far a lookup looks.** When `getInner` does not find a value for a key
that is not blocked, and whenever `GetAllUnverified` returns, the walk has
asked the nearest contact of the table, and either all of the `bucketK`
closest or the `alpha` closest that its last round started with. Nobody whom
`getInner` asked had an acceptable value, so it finds what the nearest contact
holds; `GetAllUnverified` returns all it was sent, and `Resolve` is at least as
new as every record among that. If nothing else modifies the table, these
calls end. -/
theorem lookup_reaches (cr : Crypto) (codec : RecordCodec) (trusted : Finset GoString) (d : DHT)
    (net : Remote) (order : List GoString) (values : ValueOrder) (now later : Time)
    (unixNow : Int) :
    (∀ key verify fuel l, d.isBlocked key = false →
      d.getInner cr net key verify order now later fuel = some l →
      (l.result = .error .notFound → l.walk.Reached key ∧
        ∀ e ∈ l.walk.asked, ∀ v, net.reply e.1 e.2 = .value v →
          cr.acceptable key verify v = false) ∧
      ∀ c, l.walk.rt.Nearest key c →
        (∀ n c', c'.id = c.id →
          ∃ v, net.reply n c' = .value v ∧ cr.acceptable key verify v = true) →
        ∃ v, l.result = .ok v) ∧
    (∀ key fuel l, d.getAllUnverified net key now fuel = some l →
      l.walk.Reached key ∧ ∀ e ∈ l.walk.asked, ∀ v, net.reply e.1 e.2 = .value v →
        ∃ found, l.result = .ok found ∧ v ∈ found) ∧
    (∀ name fuel l d' r, validName name = none →
      d.getAllUnverified net (recordKey cr (canonicalName name)) now fuel = some l →
      resolve d cr codec trusted net values name now unixNow fuel = some (d', r) →
      ∀ e ∈ l.walk.asked, ∀ v rec, net.reply e.1 e.2 = .value v →
        checkRecord cr codec trusted (canonicalName name) unixNow v = .ok rec →
        ∃ best, r = .ok best ∧ rec.version ≤ best.version) ∧
    (net.Quiet → ∃ fuel, ∀ key,
      (∀ verify, (d.getInner cr net key verify order now later fuel).isSome = true) ∧
      (d.getAllUnverified net key now fuel).isSome = true) := by
  refine ⟨fun key verify fuel l hOpen hGet => ⟨?_, ?_⟩, fun key fuel l => ?_,
    fun name fuel l d' r => ?_, fun hQuiet => ?_⟩
  · exact DHT.getInner_reached hOpen hGet
  · exact fun c => DHT.getInner_finds hOpen hGet
  · exact DHT.getAllUnverified_reached
  · exact resolve_takes_into_account
  · obtain ⟨fuel, hFuel⟩ : ∃ fuel, 2 ^ 256 ≤ fuel := ⟨_, le_rfl⟩
    exact ⟨fuel, fun key => ⟨fun _ => DHT.getInner_terminates hQuiet hFuel,
      DHT.getAllUnverified_terminates hQuiet hFuel⟩⟩

/-- Two contacts name a third, which is nearer to the key and holds a record. -/
def referralNet : Remote := steadyNet fun c =>
  if c.id = NodeID.fill 96 then .value [5] else .contacts [contactOf 96]

/-- Values in lexicographic order. -/
def sortedValues : ValueOrder where
  list s := s.sort (· ≤ ·)
  mem_list _ _ := Finset.mem_sort _

/-- The theorem on this network. `getInner` asks all three contacts and, the
record not being content, ends without a value; `Resolve` returns the
record. -/
theorem lookup_reaches_referral :
    ∃ l l' d' best, (nodeKnowing [contactOf 2, contactOf 3]).getInner firstByte referralNet
        (NodeID.fill 97) true [] 1 2 10 = some l ∧
      (nodeKnowing [contactOf 2, contactOf 3]).getAllUnverified referralNet
        (recordKey firstByte (canonicalName "a.alt".toList)) 1 10 = some l' ∧
      resolve (nodeKnowing [contactOf 2, contactOf 3]) firstByte versionCodec ∅ referralNet
        sortedValues "a.alt".toList 1 0 10 = some (d', .ok best) ∧
      l.result = .error .notFound ∧ l.walk.asked.length = 3 ∧ l.walk.Reached (NodeID.fill 97) ∧
      l'.walk.Reached (recordKey firstByte (canonicalName "a.alt".toList)) ∧
      5 ≤ best.version := by
  have hGet : ((nodeKnowing [contactOf 2, contactOf 3]).getInner firstByte referralNet
      (NodeID.fill 97) true [] 1 2 10).map (fun l => (l.result, l.walk.asked.length)) =
      some (.error .notFound, 3) := by
    decide +kernel
  have hAll : ((nodeKnowing [contactOf 2, contactOf 3]).getAllUnverified referralNet
      (recordKey firstByte (canonicalName "a.alt".toList)) 1 10).map
      (fun l => decide ((1, contactOf 96) ∈ l.walk.asked)) = some true := by
    decide +kernel
  have hName : validName "a.alt".toList = none := by decide +kernel
  have hRec : checkRecord firstByte versionCodec ∅ (canonicalName "a.alt".toList) 0 [5] =
      .ok ⟨"a.alt".toList, (NodeID.fill 0).hex, [], 5, 0, 0, []⟩ := by
    decide +kernel
  obtain ⟨l, hl, hEq⟩ := Option.map_eq_some_iff.mp hGet
  obtain ⟨l', hl', hAsked⟩ := Option.map_eq_some_iff.mp hAll
  obtain ⟨hNone, hLength⟩ := Prod.mk.inj hEq
  obtain ⟨⟨d', r⟩, hResolve⟩ : ∃ x, resolve (nodeKnowing [contactOf 2, contactOf 3]) firstByte
      versionCodec ∅ referralNet sortedValues "a.alt".toList 1 0 10 = some x := by
    unfold resolve
    rw [hName, hl']
    exact ⟨_, rfl⟩
  obtain ⟨hInner, hOuter, hNames, -⟩ := lookup_reaches firstByte versionCodec ∅
    (nodeKnowing [contactOf 2, contactOf 3]) referralNet [] sortedValues 1 2 0
  obtain ⟨best, rfl, hLe⟩ := hNames _ 10 l' d' r hName hl' hResolve _
    (of_decide_eq_true hAsked) [5] _ rfl hRec
  exact ⟨l, l', d', best, hl, hl', hResolve, hNone, hLength,
    ((hInner _ true 10 l rfl hl).1 hNone).1, (hOuter _ 10 l' hl').1, hLe⟩

end AltNet
