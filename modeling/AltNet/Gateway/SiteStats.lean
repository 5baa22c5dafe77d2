import AltNet.Gateway.Host

/-!
# AltNet — visits of a site (`apps/sitestats/sitestats.go`, `apps/gateway/gateway.go`)

The gateway counts each visit of a site under the name that the request had,
and the registrar reads and forgets the counters under the canonical name. The
two are the same text only when the visitor spelled it so.

The bytes of a visit are counted where they are written. The answer to a `HEAD`
has no body: `net/http` takes what is written and says that it went out. The
text of an error is written, and so counted, for a `HEAD` as well.

Main results:

* `SiteVisit.tracked_eq` — what a visit adds: its body, and what was swallowed;
* `sites_count` — what the counters of a canonical name hold after any run: the
  visits that were made under just that text;
* `stats_exact_iff` — when the registrar reports every visit.
-/

namespace AltNet

open List

/-! ## The counters -/

/-- `SiteCounter`. -/
structure SiteCounter where
  requests : Int
  bytes : Int
  lastSeen : Int
  ips : Finset GoString

/-- `Snapshot`. -/
structure Snapshot where
  name : GoString
  requests : Int
  bytes : Int
  uniqueIPs : Nat
  lastSeenUnix : Int
  deriving DecidableEq

/-- `Stats.sites`. -/
abbrev SiteStats := GoMap GoString SiteCounter

namespace SiteStats

/-- `maxIPsPerSite`, as `New` sets it. -/
def maxIPsPerSite : Nat := 10000

/-- The counter of a name, or a new one. -/
def counter (s : SiteStats) (name : GoString) : SiteCounter :=
  (s.lookup name).getD ⟨0, 0, 0, ∅⟩

/-- `Stats.Record`. -/
def record (s : SiteStats) (name remoteIP : GoString) (bytesServed now : Int) : SiteStats :=
  if name = [] then s
  else
    let c := s.counter name
    s.insert name
      { requests := addInt64 c.requests 1, bytes := addInt64 c.bytes bytesServed, lastSeen := now,
        ips := if remoteIP ≠ [] ∧ c.ips.card < maxIPsPerSite then insert remoteIP c.ips else c.ips }

/-- `Stats.Get`. -/
def get (s : SiteStats) (name : GoString) : Snapshot :=
  let c := s.counter name
  ⟨name, c.requests, c.bytes, c.ips.card, c.lastSeen⟩

/-- `Stats.Forget`. -/
def forget (s : SiteStats) (name : GoString) : SiteStats := s.erase name

end SiteStats

open SiteStats

/-! ## The gateway and the registrar -/

/-- The `http.ResponseWriter` of a request: whether it answers a `HEAD`, how much
more its connection takes, and the body that has gone out. -/
structure ResponseWriter where
  head : Bool
  room : Nat
  body : Bytes

/-- `ResponseWriter.Write`, with the number of bytes that it returns. -/
def ResponseWriter.write (w : ResponseWriter) (p : Bytes) : ResponseWriter × Nat :=
  -- `chunkWriter.Write` of `net/http`: "Eat writes."
  if w.head then (w, p.length)
  else
    let n := min p.length w.room
    ({ w with room := w.room - n, body := w.body ++ p.take n }, n)

/-- `sizeTrackingWriter`. -/
structure SizeTrackingWriter where
  inner : ResponseWriter
  bytes : Int

namespace SizeTrackingWriter

def write (s : SizeTrackingWriter) (p : Bytes) : SizeTrackingWriter × Nat :=
  let (inner, n) := s.inner.write p
  (⟨inner, addInt64 s.bytes n⟩, n)

/-- `io.CopyN`, with what it reads at a time: it ends where a write falls short. -/
def copyN : SizeTrackingWriter → List Bytes → SizeTrackingWriter
  | s, [] => s
  | s, p :: ps =>
    let (s, n) := s.write p
    if n < p.length then s else copyN s ps

end SizeTrackingWriter

/-- How `serveFromRoot` ends: with the text of an error, or with a file, whose
pieces `http.ServeContent` sends. -/
inductive SiteReply where
  | error (text : GoString)
  | content (pieces : List Bytes)

/-- `http.Error` and `http.ServeContent`. -/
def SizeTrackingWriter.reply (s : SizeTrackingWriter) : SiteReply → SizeTrackingWriter
  | .error text => (s.write (utf8 (text ++ ['\n']))).1
  | .content pieces => if s.inner.head then s else s.copyN pieces

/-- A request as the gateway handles it: what it asks, what `Resolve` answers for
its name, what `serveFromRoot` replies, and how much of it the connection takes. -/
structure SiteVisit where
  method : Method
  host : GoString
  urlPath : GoString
  remoteIP : GoString
  resolved : Except ResolveError NameRecord
  reply : SiteReply
  room : Nat
  now : Int

/-- The writer that `serveName` makes. -/
def SiteVisit.writer (v : SiteVisit) : SizeTrackingWriter := ⟨⟨v.method = .head, v.room, []⟩, 0⟩

/-- The writer after the reply. -/
def SiteVisit.response (v : SiteVisit) : SizeTrackingWriter := v.writer.reply v.reply

/-- `Gateway.serveName`, as far as it counts. -/
def serveName (stats : SiteStats) (v : SiteVisit) (name : GoString) : SiteStats :=
  match v.resolved with
  | .error _ => stats
  | .ok rec =>
    match idFromHex rec.root with
    | none => stats
    | some _ => stats.record name v.remoteIP v.response.bytes v.now

/-- `Gateway.handle` with the counters. -/
def serveVisit (stats : SiteStats) (v : SiteVisit) : SiteStats :=
  match gatewayHandle v.method v.host v.urlPath with
  | .serveName name _ => serveName stats v name
  | _ => stats

/-- Why `handleStats` refuses a request. -/
inductive StatsError where
  | missingName
  | domain (e : DomainError)
  deriving DecidableEq

/-- `StatsResponse`, with its status. -/
structure StatsResponse where
  status : Nat
  name : GoString
  requests : Int
  bytes : Int
  uniqueIPs : Nat
  lastSeenUnix : Int
  error : Option StatsError
  deriving DecidableEq

/-- `handleStats`, after the token is checked. -/
def handleStats (stats : SiteStats) (rawName : GoString) : StatsResponse :=
  if rawName = [] then ⟨400, [], 0, 0, 0, 0, some .missingName⟩
  else
    let canonical := canonicalName rawName
    match validateDomain canonical with
    | some e => ⟨400, canonical, 0, 0, 0, 0, some (.domain e)⟩
    | none =>
      let snap := stats.get canonical
      ⟨200, snap.name, snap.requests, snap.bytes, snap.uniqueIPs, snap.lastSeenUnix, none⟩

/-- `UnregisterResponse`, with its status. -/
structure UnregisterResponse where
  status : Nat
  name : GoString
  ok : Bool
  error : Option ApiError
  deriving DecidableEq

/-- `handleUnregister`, after the token is checked. -/
def handleUnregister (reg : Registry) (stats : SiteStats) (name : GoString) :
    Registry × SiteStats × UnregisterResponse :=
  let canonical := canonicalName name
  if (reg.lookup canonical).isSome then
    (removeName reg name, stats.forget canonical, ⟨200, canonical, true, none⟩)
  else (reg, stats, ⟨404, canonical, false, some (.notRegistered canonical)⟩)

/-- The registrar and the gateway of a node, which share the counters. -/
structure SiteNode where
  registry : Registry
  stats : SiteStats

/-- What happens to a node. -/
inductive SiteEvent where
  | visit (v : SiteVisit)
  | stats (rawName : GoString)
  | register (req : RegisterRequest) (now : Nat)
  | unregister (name : GoString)
  | revoke (name : GoString)

namespace SiteNode

def apply (s : SiteNode) : SiteEvent → SiteNode
  | .visit v => { s with stats := serveVisit s.stats v }
  | .stats _ => s
  | .register req now => { s with registry := (handleRegister s.registry req now).1 }
  | .unregister name =>
    let out := handleUnregister s.registry s.stats name
    ⟨out.1, out.2.1⟩
  -- `handleRevoke` forgets a name that is not registered as well.
  | .revoke name => ⟨removeName s.registry name, s.stats.forget (canonicalName name)⟩

def run (s : SiteNode) (es : List SiteEvent) : SiteNode := es.foldl apply s

end SiteNode

open SiteNode

/-! ## What is to be counted -/

namespace SiteVisit

/-- The name under which a visit was served, if it was served by name. -/
def name (v : SiteVisit) : Option GoString :=
  match gatewayHandle v.method v.host v.urlPath, v.resolved with
  | .serveName name _, .ok rec => if (idFromHex rec.root).isSome then some name else none
  | _, _ => none

/-- The size of the body. -/
def bytes (v : SiteVisit) : Nat := v.response.inner.body.length

/-- What was written and never sent: the text of an error in answer to a `HEAD`. -/
def swallowed (v : SiteVisit) : Nat :=
  match v.method, v.reply with
  | .head, .error text => (utf8 (text ++ ['\n'])).length
  | _, _ => 0

end SiteVisit

open SiteVisit

namespace SiteEvent

/-- Whether an event takes the site `c` down. -/
def forgets (e : SiteEvent) (reg : Registry) (c : GoString) : Bool :=
  match e with
  | .unregister name => canonicalName name = c ∧ (reg.lookup c).isSome
  | .revoke name => canonicalName name = c
  | _ => false

/-- The visits of the site `c` since it was taken down, after one more event. -/
def visitsAfter (e : SiteEvent) (s : SiteNode) (c : GoString) (visits : List SiteVisit) :
    List SiteVisit :=
  if e.forgets s.registry c then []
  else
    match e with
    | .visit v => if v.name.map canonicalName = some c then visits ++ [v] else visits
    | _ => visits

end SiteEvent

/-- **The visits of a site**: those served since it was last taken down whose
name has the canonical form `c`. -/
def visitsSince (c : GoString) (s : SiteNode) (es : List SiteEvent) : List SiteVisit :=
  (es.foldl (fun p e => (p.1.apply e, e.visitsAfter p.1 c p.2)) (s, ([] : List SiteVisit))).2

theorem visitsSince_concat (c : GoString) (s : SiteNode) (es : List SiteEvent) (e : SiteEvent) :
    visitsSince c s (es ++ [e]) = e.visitsAfter (s.run es) c (visitsSince c s es) := by
  have hRun : ∀ visits : List SiteVisit,
      (es.foldl (fun p e => (p.1.apply e, e.visitsAfter p.1 c p.2)) (s, visits)).1 = s.run es := by
    induction es using List.reverseRecOn with
    | nil => exact fun _ => rfl
    | append_singleton es e ih =>
      intro visits
      rw [foldl_append, foldl_cons, foldl_nil, ih, run, run,
        foldl_append, foldl_cons, foldl_nil]
  rw [visitsSince, foldl_append, foldl_cons, foldl_nil, hRun, visitsSince]

/-! ## What the counters hold -/

namespace SizeTrackingWriter

variable {s : SizeTrackingWriter}

/-- **One write** counts what it sends, when there is a body. -/
theorem write_bytes (hGet : s.inner.head = false)
    (h : s.bytes = (s.inner.body.length : Int).bmod (2 ^ 64)) (p : Bytes) :
    (s.write p).1.inner.head = false ∧
      (s.write p).1.bytes = ((s.write p).1.inner.body.length : Int).bmod (2 ^ 64) := by
  have hInner : s.inner.write p = ({ s.inner with
      room := s.inner.room - min p.length s.inner.room
      body := s.inner.body ++ p.take (min p.length s.inner.room) }, min p.length s.inner.room) := by
    rw [ResponseWriter.write, if_neg (by simp [hGet])]
  have hLength : (p.take (min p.length s.inner.room)).length = min p.length s.inner.room := by
    rw [length_take]
    omega
  simp only [write, hInner]
  refine ⟨hGet, ?_⟩
  rw [h, addInt64, Int.bmod_add_bmod, length_append, hLength, Nat.cast_add]

/-- **The whole copy** counts what it sends. -/
theorem copyN_bytes (pieces : List Bytes) : ∀ {s : SizeTrackingWriter}, s.inner.head = false →
    s.bytes = (s.inner.body.length : Int).bmod (2 ^ 64) →
      (s.copyN pieces).bytes = ((s.copyN pieces).inner.body.length : Int).bmod (2 ^ 64) := by
  induction pieces with
  | nil => exact fun _ h => h
  | cons p ps ih =>
    intro s hGet h
    obtain ⟨hGet', h'⟩ := write_bytes hGet h p
    simp only [copyN]
    split
    · exact h'
    · exact ih hGet' h'

end SizeTrackingWriter

/-- **What a visit adds** to the counter: its body, and what was swallowed. -/
theorem SiteVisit.tracked_eq (v : SiteVisit) :
    v.response.bytes = ((v.bytes + v.swallowed : Nat) : Int).bmod (2 ^ 64) := by
  by_cases hHead : v.method = .head
  · unfold bytes swallowed response writer
    rw [hHead]
    cases v.reply with
    | error text =>
      simp [SizeTrackingWriter.reply, SizeTrackingWriter.write, ResponseWriter.write, addInt64]
    | content pieces => simp [SizeTrackingWriter.reply]
  have hNone : v.swallowed = 0 := by
    unfold swallowed
    split
    · contradiction
    · rfl
  have hGet : v.writer.inner.head = false := decide_eq_false hHead
  have hZero : v.writer.bytes = (v.writer.inner.body.length : Int).bmod (2 ^ 64) := by
    simp [writer]
  rw [hNone, Nat.add_zero, bytes, response]
  cases v.reply with
  | error text => exact (SizeTrackingWriter.write_bytes hGet hZero _).2
  | content pieces =>
    rw [SizeTrackingWriter.reply, if_neg (by simp [hGet])]
    exact SizeTrackingWriter.copyN_bytes pieces hGet hZero

namespace SiteStats

variable {s : SiteStats} {name other ip : GoString} {n now : Int}

theorem counter_record_self (s : SiteStats) (ip : GoString) (n now : Int) (hName : name ≠ []) :
    ((s.record name ip n now).counter name).requests = addInt64 (s.counter name).requests 1 ∧
    ((s.record name ip n now).counter name).bytes = addInt64 (s.counter name).bytes n := by
  rw [record, if_neg hName, counter, Finmap.lookup_insert]
  exact ⟨rfl, rfl⟩

theorem counter_record_of_ne (hOther : other ≠ name) :
    (s.record name ip n now).counter other = s.counter other := by
  rw [record]
  split
  · rfl
  · rw [counter, Finmap.lookup_insert_of_ne _ hOther, counter]

theorem counter_forget_self : (s.forget name).counter name = ⟨0, 0, 0, ∅⟩ := by
  rw [forget, counter, Finmap.lookup_erase]
  rfl

theorem counter_forget_of_ne (hOther : other ≠ name) :
    (s.forget name).counter other = s.counter other := by
  rw [forget, counter, Finmap.lookup_erase_ne hOther, counter]

end SiteStats

/-- A visit is counted under the name it was served under. -/
theorem serveVisit_eq (stats : SiteStats) (v : SiteVisit) : serveVisit stats v =
    v.name.elim stats fun name => stats.record name v.remoteIP v.response.bytes v.now := by
  unfold serveVisit name
  cases gatewayHandle v.method v.host v.urlPath with
  | serveName name subPath =>
    simp only [serveName]
    cases v.resolved with
    | error e => rfl
    | ok rec =>
      simp only
      cases idFromHex rec.root with
      | none => rfl
      | some root => rfl
  | methodNotAllowed => rfl
  | serveCID hashPart subPath => rfl
  | landing => rfl
  | notFound => rfl

/-- The counter of `c` holds the visits that were made under just that text. -/
structure Counts (c : GoString) (stats : SiteStats) (visits : List SiteVisit) : Prop where
  requests : (stats.counter c).requests =
    ((visits.countP (·.name = some c) : Nat) : Int).bmod (2 ^ 64)
  bytes : (stats.counter c).bytes =
    ((((visits.filter (·.name = some c)).map fun v => v.bytes + v.swallowed).sum : Nat) :
      Int).bmod (2 ^ 64)

namespace Counts

variable {c name : GoString} {stats : SiteStats} {visits : List SiteVisit} {v : SiteVisit}

theorem empty (h : stats.counter c = ⟨0, 0, 0, ∅⟩) : Counts c stats [] :=
  ⟨by simp [h], by simp [h]⟩

theorem congr {stats' : SiteStats} (h : Counts c stats visits)
    (hSame : stats'.counter c = stats.counter c) : Counts c stats' visits :=
  ⟨by rw [hSame, h.requests], by rw [hSame, h.bytes]⟩

/-- A visit under another text changes nothing for `c`, whether it is one of its
visits or not. -/
theorem append_other (h : Counts c stats visits) (hName : v.name ≠ some c) :
    Counts c stats (visits ++ [v]) := by
  constructor
  · rw [h.requests, countP_append, countP_singleton, if_neg (by simpa using hName),
      Nat.add_zero]
  · rw [h.bytes, filter_append, filter_cons_of_neg (by simpa using hName),
      filter_nil, append_nil]

theorem append_self (h : Counts c stats visits) (hName : v.name = some c) (hNe : c ≠ []) :
    Counts c (stats.record c v.remoteIP v.response.bytes v.now) (visits ++ [v]) := by
  obtain ⟨hRequests, hBytes⟩ :=
    counter_record_self stats v.remoteIP v.response.bytes v.now hNe
  constructor
  · rw [hRequests, h.requests, addInt64, Int.bmod_add_bmod, countP_append,
      countP_singleton, if_pos (by simpa using hName), Nat.cast_add, Nat.cast_one]
  · rw [hBytes, h.bytes, v.tracked_eq, addInt64_bmod, filter_append,
      filter_cons_of_pos (by simpa using hName), filter_nil, map_append,
      sum_append, map_singleton, sum_singleton, ← Nat.cast_add]

/-- **One event** keeps the counter of a canonical name. -/
theorem step {s : SiteNode} (hCanonical : canonicalName c = c) (hNe : c ≠ [])
    (h : Counts c s.stats visits) (e : SiteEvent) :
    Counts c (s.apply e).stats (e.visitsAfter s c visits) := by
  cases e with
  | visit v =>
    show Counts c (serveVisit s.stats v) (if v.name.map canonicalName = some c then _ else _)
    rw [serveVisit_eq]
    cases hName : v.name with
    | none => exact h
    | some name =>
      by_cases hSame : name = c
      · rw [hSame] at hName ⊢
        rw [Option.map_some, hCanonical, if_pos rfl]
        exact h.append_self hName hNe
      have hOther : v.name ≠ some c := by
        rw [hName]
        exact fun hEq => hSame (Option.some.inj hEq)
      have hKept :
          Counts c (s.stats.record name v.remoteIP v.response.bytes v.now) visits :=
        h.congr (counter_record_of_ne (Ne.symm hSame))
      split
      · exact hKept.append_other hOther
      · exact hKept
  | stats rawName => exact h
  | register req now => exact h
  | unregister n =>
    simp only [apply, handleUnregister, SiteEvent.visitsAfter, SiteEvent.forgets,
      decide_eq_true_eq]
    by_cases hName : canonicalName n = c
    · rw [hName]
      by_cases hReg : (s.registry.lookup c).isSome
      · rw [if_pos hReg, if_pos ⟨rfl, hReg⟩]
        exact empty counter_forget_self
      · rw [if_neg hReg, if_neg fun h => hReg h.2]
        exact h
    · have hKept : ¬ (canonicalName n = c ∧ (s.registry.lookup c).isSome) := fun h => hName h.1
      rw [if_neg hKept]
      split
      · exact h.congr (counter_forget_of_ne (Ne.symm hName))
      · exact h
  | revoke n =>
    simp only [apply, SiteEvent.visitsAfter, SiteEvent.forgets, decide_eq_true_eq]
    by_cases hName : canonicalName n = c
    · rw [if_pos hName, hName]
      exact empty counter_forget_self
    · rw [if_neg hName]
      exact h.congr (counter_forget_of_ne (Ne.symm hName))

end Counts

/-- **What the counters hold after a run**, from a node that has just started. -/
theorem sites_count {c : GoString} (hCanonical : canonicalName c = c) (hNe : c ≠ [])
    (reg : Registry) (es : List SiteEvent) :
    Counts c (run ⟨reg, ∅⟩ es).stats (visitsSince c ⟨reg, ∅⟩ es) := by
  induction es using List.reverseRecOn with
  | nil => exact Counts.empty rfl
  | append_singleton es e ih =>
    rw [visitsSince_concat, run, foldl_append]
    exact ih.step hCanonical hNe e

/-! ## What the registrar reports -/

/-- A name that `ValidateDomain` accepts is a fixed point of `CanonicalName`. -/
theorem canonicalName_domain {raw : GoString} (h : EndsAlt (canonicalName raw)) :
    canonicalName (canonicalName raw) = canonicalName raw := by
  have hLast := Spelling.last_alt h.1
  apply canonicalName_idem
  · rw [hLast]
    decide
  · rw [hLast]
    rintro c ⟨⟩
    decide

theorem handleStats_eq {raw : GoString} (hDomain : validateDomain (canonicalName raw) = none)
    (stats : SiteStats) :
    (handleStats stats raw).requests = (stats.counter (canonicalName raw)).requests ∧
    (handleStats stats raw).bytes = (stats.counter (canonicalName raw)).bytes := by
  have hNe : raw ≠ [] := by
    rintro rfl
    exact absurd hDomain (by decide)
  rw [handleStats, if_neg hNe]
  simp only [hDomain]
  exact ⟨rfl, rfl⟩

/-- **When the registrar reports every visit.** After any run of a node that has
just started, the requests and bytes it reports for a site are those of all its
visits since it was last taken down exactly when each of them was made under
the canonical name, letter for letter, neither sum has passed `2 ^ 63`, and no
text of an error was swallowed (or as many bytes as make the counter wrap). -/
theorem stats_exact_iff (reg : Registry) (es : List SiteEvent) (raw : GoString)
    (hDomain : validateDomain (canonicalName raw) = none) :
    ((handleStats (run ⟨reg, ∅⟩ es).stats raw).requests =
          (visitsSince (canonicalName raw) ⟨reg, ∅⟩ es).length ∧
        (handleStats (run ⟨reg, ∅⟩ es).stats raw).bytes =
          (((visitsSince (canonicalName raw) ⟨reg, ∅⟩ es).map bytes).sum : Nat)) ↔
      (∀ v ∈ visitsSince (canonicalName raw) ⟨reg, ∅⟩ es, v.name = some (canonicalName raw)) ∧
        (visitsSince (canonicalName raw) ⟨reg, ∅⟩ es).length < 2 ^ 63 ∧
        ((visitsSince (canonicalName raw) ⟨reg, ∅⟩ es).map bytes).sum < 2 ^ 63 ∧
        2 ^ 64 ∣ ((visitsSince (canonicalName raw) ⟨reg, ∅⟩ es).map swallowed).sum := by
  have hAlt := validateDomain_iff.mp hDomain
  have hCounts := sites_count (canonicalName_domain hAlt) (Spelling.ne_nil_alt hAlt.1) reg es
  obtain ⟨hRequests, hBytes⟩ := handleStats_eq hDomain (run ⟨reg, ∅⟩ es).stats
  rw [hRequests, hBytes, hCounts.requests, hCounts.bytes,
    bmod_eq_natCast_iff countP_le_length, countP_eq_length]
  generalize visitsSince (canonicalName raw) ⟨reg, ∅⟩ es = visits
  simp only [decide_eq_true_eq]
  rw [and_assoc]
  refine and_congr_right fun hAll => and_congr_right fun _ => ?_
  have hFilter : visits.filter (·.name = some (canonicalName raw)) = visits :=
    filter_eq_self.mpr fun v hv => decide_eq_true (hAll v hv)
  rw [hFilter, sum_map_add]
  exact bmod_add_eq_natCast_iff

/-- A visit at a host whose name has a record. -/
def sampleVisit (method : Method) (host : GoString) (reply : SiteReply) : SiteVisit :=
  { method, host, urlPath := "/".toList, remoteIP := "192.0.2.1".toList,
    resolved := .ok ⟨"shop.alt".toList, [], (NodeID.fill 5).hex, 1, 0, 0, []⟩, reply, room := 30,
    now := 0 }

/-- A file, a page that is missing, the head of a file, and a file whose second
piece is cut off, all under the canonical name. -/
def shopVisits : List SiteEvent :=
  [.visit (sampleVisit .get "shop.alt".toList (.content [[1, 2], [3]])),
   .visit (sampleVisit .get "shop.alt.:80".toList (.error "404 page not found".toList)),
   .visit (sampleVisit .head "shop.alt".toList (.content [[1, 2], [3]])),
   .visit (sampleVisit .get "shop.alt".toList (.content [replicate 20 1, replicate 20 2, [3]]))]

/-- They are reported. -/
theorem stats_exact_shop :
    (handleStats (run ⟨∅, ∅⟩ shopVisits).stats "Shop.alt".toList).requests =
      (visitsSince (canonicalName "Shop.alt".toList) ⟨∅, ∅⟩ shopVisits).length ∧
    (handleStats (run ⟨∅, ∅⟩ shopVisits).stats "Shop.alt".toList).bytes =
      (((visitsSince (canonicalName "Shop.alt".toList) ⟨∅, ∅⟩ shopVisits).map
        bytes).sum : Nat) ∧
    (visitsSince (canonicalName "Shop.alt".toList) ⟨∅, ∅⟩ shopVisits).map bytes =
      [3, 19, 0, 30] := by
  obtain ⟨hRequests, hBytes⟩ := (stats_exact_iff ∅ shopVisits "Shop.alt".toList
    (by decide +kernel)).mpr (by decide +kernel)
  exact ⟨hRequests, hBytes, by decide +kernel⟩

/-- **A visit in capitals** is served and counted under another name. -/
theorem capital_visit_lost :
    (visitsSince "shop.alt".toList ⟨∅, ∅⟩
      [.visit (sampleVisit .get "Shop.alt".toList (.content [[1, 2], [3]]))]).length = 1 ∧
    handleStats (run ⟨∅, ∅⟩
        [.visit (sampleVisit .get "Shop.alt".toList (.content [[1, 2], [3]]))]).stats
      "shop.alt".toList = ⟨200, "shop.alt".toList, 0, 0, 0, 0, none⟩ := by
  decide +kernel

end AltNet
