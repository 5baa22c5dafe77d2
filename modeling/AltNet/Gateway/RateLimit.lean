import AltNet.Lib.GoMap
import AltNet.Lib.Text
import AltNet.Lib.TokenBucket

/-!
# AltNet — rate limits (`apps/gateway/ratelimit.go`, `apps/dns/ratelimit.go`)

The gateway and the DNS resolver each keep a token bucket for every address they
hear from. At most every thirty seconds the call of one address also drops the
buckets of those that have been idle for five minutes, so the addresses share a
timer and can delete each other's buckets. Tokens are exact rationals, and times
are in nanoseconds.

With `burst ≤ 300 * rate` a bucket that is dropped has filled up, and the next
request makes a full one: the sweep cannot be seen. The limiter is then, for
every single address, a token bucket that is never dropped.

Main results:

* `answersTo_run` — what an address is answered is what its own bucket
  answers;
* `allowed_in_window_le` — the bound for a window of any length;
* `decisions_isolated` — the requests of other addresses change nothing.
-/

namespace AltNet

open TokenBucket

/-! ## The limiters -/

/-- `ipBucket` and `udpBucket`. -/
structure RateBucket where
  tokens : ℚ
  lastSeen : Int
  deriving DecidableEq

/-- `ipRateLimiter` and `udpRateLimiter`. -/
structure RateLimiter where
  rate : ℚ
  burst : ℚ
  buckets : GoMap GoString RateBucket
  lastSweep : Int

/-- `time.Second`. -/
def second : Int := 1000000000

/-- `t.Sub(u)`, which is a 64-bit `Duration` and saturates. -/
def timeSub (t u : Int) : Int := max (-(2 ^ 63)) (min (2 ^ 63 - 1) (t - u))

/-- `Duration.Seconds`. -/
def seconds (d : Int) : ℚ := d / second

namespace RateLimiter

/-- `newIPRateLimiter` and `newUDPRateLimiter`. -/
def new (rate burst : ℚ) (now : Int) : RateLimiter := ⟨rate, burst, ∅, now⟩

/-- `gc`, which the DNS limiter has in line. -/
def gc (l : RateLimiter) (idle now : Int) : RateLimiter :=
  { l with buckets := l.buckets.keep fun _ b => ¬ idle < timeSub now b.lastSeen }

/-- The periodic part of `allow`. -/
def sweep (l : RateLimiter) (period idle now : Int) : RateLimiter :=
  if period < timeSub now l.lastSweep then { l.gc idle now with lastSweep := now } else l

/-- The bucket of an address, filled up to the time of a request. -/
def refill (l : RateLimiter) (ip : GoString) (now : Int) : RateBucket :=
  let b := (l.buckets.lookup ip).getD ⟨l.burst, now⟩
  let tokens := b.tokens + seconds (timeSub now b.lastSeen) * l.rate
  ⟨if l.burst < tokens then l.burst else tokens, now⟩

/-- `allow`, for a limiter that sweeps after `period` and drops what is idle
for longer than `idle`. -/
def allow (period idle : Int) (l : RateLimiter) (ip : GoString) (now : Int) : RateLimiter × Bool :=
  let l := l.sweep period idle now
  let b := l.refill ip now
  if 1 ≤ b.tokens then
    ({ l with buckets := l.buckets.insert ip { b with tokens := b.tokens - 1 } }, true)
  else ({ l with buckets := l.buckets.insert ip b }, false)

end RateLimiter

/-- `ipRateLimiter.allow`. -/
def ipRateLimiterAllow : RateLimiter → GoString → Int → RateLimiter × Bool :=
  RateLimiter.allow (30 * second) (5 * 60 * second)

/-- `udpRateLimiter.allow`. -/
def udpRateLimiterAllow : RateLimiter → GoString → Int → RateLimiter × Bool :=
  RateLimiter.allow (30 * second) (5 * 60 * second)

/-- The two limiters. -/
inductive LimiterKind where
  | ip
  | udp
  deriving DecidableEq

def LimiterKind.allow : LimiterKind → RateLimiter → GoString → Int → RateLimiter × Bool
  | .ip => ipRateLimiterAllow
  | .udp => udpRateLimiterAllow

/-- A call of `allow`. -/
structure LimitRequest where
  ip : GoString
  time : Int

/-- A call of `allow` and its answer. -/
structure LimitDecision where
  ip : GoString
  time : Int
  allowed : Bool
  deriving DecidableEq

/-- The answers to a sequence of calls. -/
def LimiterKind.run (kind : LimiterKind) : RateLimiter → List LimitRequest → List LimitDecision
  | _, [] => []
  | l, r :: rs =>
    let out := kind.allow l r.ip r.time
    ⟨r.ip, r.time, out.2⟩ :: kind.run out.1 rs

/-! ## Times -/

theorem seconds_le {t u : Int} : seconds t ≤ seconds u ↔ t ≤ u := by
  rw [seconds, seconds, div_le_div_iff_of_pos_right (by norm_num [second]), Int.cast_le]

theorem seconds_five_minutes : seconds (5 * 60 * second) = 300 := by
  norm_num [seconds, second]

theorem seconds_sub (t u : Int) : seconds (t - u) = seconds t - seconds u := by
  rw [seconds, seconds, seconds, Int.cast_sub, sub_div]

/-- A difference of times is right, or longer than five minutes. -/
theorem timeSub_of_le {t u : Int} (h : u ≤ t) :
    timeSub t u = t - u ∨ 5 * 60 * second < timeSub t u ∧ 5 * 60 * second < t - u := by
  unfold timeSub second
  omega

/-! ## One call -/

/-- A bucket of the limiter, in seconds. -/
def RateBucket.inSeconds (b : RateBucket) : Bucket ℚ := ⟨b.tokens, seconds b.lastSeen⟩

/-- The limits under which a bucket fills up in five minutes. -/
structure Limits (rate burst : ℚ) : Prop where
  burst_pos : 0 < burst
  fills : burst ≤ 300 * rate

namespace Limits

variable {rate burst : ℚ}

theorem rate_nonneg (h : Limits rate burst) : 0 ≤ rate := by
  linarith [h.burst_pos, h.fills]

/-- After more than five minutes a bucket is full. -/
theorem full (h : Limits rate burst) {b : RateBucket} {now : Int} {t : ℚ} (hTokens : 0 ≤ b.tokens)
    (hIdle : 5 * 60 * second < now - b.lastSeen) (ht : seconds now ≤ t) :
    level rate burst (some b.inSeconds) t = burst := by
  refine level_eq_burst (d := 300) hTokens h.rate_nonneg h.fills ?_
  have hLong : seconds (5 * 60 * second) ≤ seconds (now - b.lastSeen) := seconds_le.mpr hIdle.le
  rw [seconds_sub, seconds_five_minutes] at hLong
  exact hLong.trans (sub_le_sub_right ht _)

end Limits

namespace RateLimiter

variable {l : RateLimiter} {now s : Int} {ip a : GoString}

/-- The bucket of an address, in seconds. -/
def bucketOf (l : RateLimiter) (ip : GoString) : Option (Bucket ℚ) :=
  (l.buckets.lookup ip).map RateBucket.inSeconds

/-- Every bucket was last used by the time `now`, and none is overdrawn. -/
structure SoundAt (l : RateLimiter) (now : Int) : Prop where
  limits : Limits l.rate l.burst
  bucket : ∀ ip b, l.buckets.lookup ip = some b → 0 ≤ b.tokens ∧ b.lastSeen ≤ now

@[simp] theorem sweep_rate (period idle : Int) : (l.sweep period idle now).rate = l.rate := by
  rw [sweep]
  split
  · rfl
  · rfl

@[simp] theorem sweep_burst (period idle : Int) : (l.sweep period idle now).burst = l.burst := by
  rw [sweep]
  split
  · rfl
  · rfl

/-- **What a sweep can do** to a bucket: nothing, or drop it when it is idle. -/
theorem lookup_sweep (l : RateLimiter) (period idle now : Int) (ip : GoString) :
    (l.sweep period idle now).buckets.lookup ip = l.buckets.lookup ip ∨
      ∃ b, l.buckets.lookup ip = some b ∧ idle < timeSub now b.lastSeen ∧
        (l.sweep period idle now).buckets.lookup ip = none := by
  rw [sweep]
  split
  · rw [gc, GoMap.lookup_keep]
    cases l.buckets.lookup ip with
    | none => exact .inl rfl
    | some b =>
      by_cases hIdle : idle < timeSub now b.lastSeen
      · exact .inr ⟨b, rfl, hIdle, by simp [hIdle]⟩
      · exact .inl (by simp [not_lt.mp hIdle])
  · exact .inl rfl

theorem SoundAt.mono (h : l.SoundAt s) (hLater : s ≤ now) : l.SoundAt now :=
  ⟨h.limits, fun ip b hb => ⟨(h.bucket ip b hb).1, (h.bucket ip b hb).2.trans hLater⟩⟩

variable (h : l.SoundAt now)

include h

theorem SoundAt.sweep (period idle : Int) : (l.sweep period idle now).SoundAt now := by
  constructor
  · rw [sweep_rate, sweep_burst]
    exact h.limits
  · intro ip b hb
    rcases lookup_sweep l period idle now ip with hSame | ⟨-, -, -, hNone⟩
    · exact h.bucket ip b (hSame ▸ hb)
    · rw [hNone] at hb
      cases hb

/-- **A sweep cannot be seen**: a bucket that it drops has filled up. -/
theorem level_sweep (period : Int) {t : ℚ} (ht : seconds now ≤ t) :
    level l.rate l.burst ((l.sweep period (5 * 60 * second) now).bucketOf ip) t =
      level l.rate l.burst (l.bucketOf ip) t := by
  rw [bucketOf, bucketOf]
  rcases lookup_sweep l period (5 * 60 * second) now ip with hSame | ⟨b, hb, hIdle, hNone⟩
  · rw [hSame]
  obtain ⟨hTokens, hLast⟩ := h.bucket ip b hb
  have hLong : 5 * 60 * second < now - b.lastSeen := by
    rcases timeSub_of_le hLast with hSub | ⟨-, hLong⟩
    · rwa [← hSub]
    · exact hLong
  rw [hNone, hb]
  exact (h.limits.full hTokens hLong ht).symm

/-- **What a refill leaves** in the bucket is its level. -/
theorem refill_tokens (ip : GoString) :
    (l.refill ip now).tokens = level l.rate l.burst (l.bucketOf ip) (seconds now) := by
  have hCap : ∀ x : ℚ, (if l.burst < x then l.burst else x) = min l.burst x := by
    intro x
    rw [min_def]
    split
    · rename_i hLt
      rw [if_pos hLt.le]
    rename_i hLe
    by_cases hEq : l.burst ≤ x
    · rw [if_pos hEq, le_antisymm hEq (not_lt.mp hLe)]
    · rw [if_neg hEq]
  rw [refill, bucketOf]
  simp only [hCap]
  cases hb : l.buckets.lookup ip with
  | none =>
    have hNow : seconds (timeSub now now) = 0 := by simp [timeSub, seconds]
    simp only [Option.getD_none, Option.map_none, hNow, zero_mul, add_zero, min_self, level]
  | some b =>
    obtain ⟨hTokens, hLast⟩ := h.bucket ip b hb
    simp only [Option.getD_some, Option.map_some]
    rcases timeSub_of_le hLast with hSub | ⟨hSat, hLong⟩
    · rw [hSub, seconds_sub]
      rfl
    -- The difference has saturated, and the bucket is full either way.
    have hTime : 300 ≤ seconds (timeSub now b.lastSeen) - 0 := by
      rw [sub_zero, ← seconds_five_minutes]
      exact seconds_le.mpr hSat.le
    have hFull := level_eq_burst (b := ⟨b.tokens, 0⟩) hTokens h.limits.rate_nonneg h.limits.fills
      hTime
    rw [level, sub_zero] at hFull
    rw [h.limits.full hTokens hLong le_rfl, hFull]

/-- What a call leaves in the bucket of its address, and what it answers, is what
a token bucket does. -/
theorem allow_self (period : Int) (ip : GoString) :
    (l.allow period (5 * 60 * second) ip now).1.bucketOf ip =
        some (take l.rate l.burst (l.bucketOf ip) (seconds now)).1 ∧
      (l.allow period (5 * 60 * second) ip now).2 =
        (take l.rate l.burst (l.bucketOf ip) (seconds now)).2 := by
  have hTokens := refill_tokens (h.sweep period (5 * 60 * second)) ip
  rw [sweep_rate, sweep_burst, level_sweep h period le_rfl] at hTokens
  rw [allow, take, ← hTokens]
  split
  · rw [bucketOf, Finmap.lookup_insert]
    exact ⟨rfl, rfl⟩
  · rw [bucketOf, Finmap.lookup_insert]
    exact ⟨rfl, rfl⟩

omit h

theorem lookup_allow_of_ne (period idle : Int) (hNe : a ≠ ip) :
    (l.allow period idle ip now).1.buckets.lookup a =
      (l.sweep period idle now).buckets.lookup a := by
  rw [allow]
  split
  · exact Finmap.lookup_insert_of_ne _ hNe
  · exact Finmap.lookup_insert_of_ne _ hNe

/-- A call for one address leaves the level of another as it is. -/
theorem level_allow_of_ne (h : l.SoundAt now) (period : Int) (hNe : a ≠ ip) {t : ℚ}
    (ht : seconds now ≤ t) :
    level l.rate l.burst ((l.allow period (5 * 60 * second) ip now).1.bucketOf a) t =
      level l.rate l.burst (l.bucketOf a) t := by
  rw [← level_sweep h period ht, bucketOf, lookup_allow_of_ne _ _ hNe, bucketOf]

@[simp] theorem allow_rate (period idle : Int) :
    (l.allow period idle ip now).1.rate = l.rate := by
  rw [allow]
  split
  · exact sweep_rate period idle
  · exact sweep_rate period idle

@[simp] theorem allow_burst (period idle : Int) :
    (l.allow period idle ip now).1.burst = l.burst := by
  rw [allow]
  split
  · exact sweep_burst period idle
  · exact sweep_burst period idle

theorem SoundAt.sound (h : l.SoundAt now) (ip : GoString) :
    Sound (l.bucketOf ip) (seconds now) := by
  intro x hx
  obtain ⟨b, hb, rfl⟩ := Option.map_eq_some_iff.mp hx
  obtain ⟨hTokens, hLast⟩ := h.bucket ip b hb
  exact ⟨hTokens, seconds_le.mpr hLast⟩

theorem SoundAt.allow (h : l.SoundAt now) (period : Int) (ip : GoString) :
    (l.allow period (5 * 60 * second) ip now).1.SoundAt now := by
  constructor
  · rw [allow_rate, allow_burst]
    exact h.limits
  · intro a b hb
    by_cases hSame : a = ip
    · have hMem : b.inSeconds ∈ (l.allow period (5 * 60 * second) ip now).1.bucketOf ip := by
        rw [hSame] at hb
        rw [bucketOf, hb]
        rfl
      rw [(allow_self h period ip).1] at hMem
      obtain ⟨hTokens, hLast⟩ := sound_take h.limits.rate_nonneg h.limits.burst_pos.le (h.sound ip)
        b.inSeconds hMem
      exact ⟨hTokens, seconds_le.mp hLast⟩
    · rw [lookup_allow_of_ne _ _ hSame] at hb
      exact (h.sweep period _).bucket a b hb

theorem soundAt_new {rate burst : ℚ} (h : Limits rate burst) (start now : Int) :
    (new rate burst start).SoundAt now :=
  ⟨h, fun _ _ hb => by simp [new] at hb⟩

end RateLimiter

/-! ## Runs -/

/-- The times at which an address asks, in seconds. -/
def timesOf (a : GoString) (reqs : List LimitRequest) : List ℚ :=
  (reqs.filter (·.ip = a)).map fun r => seconds r.time

/-- What an address is answered, with the times in seconds. -/
def answersTo (a : GoString) (ds : List LimitDecision) : List (ℚ × Bool) :=
  (ds.filter (·.ip = a)).map fun d => (seconds d.time, d.allowed)

/-- Calls in the order of their times. -/
def InOrder (reqs : List LimitRequest) : Prop := reqs.Pairwise fun r r' => r.time ≤ r'.time

theorem LimiterKind.allow_eq (kind : LimiterKind) :
    kind.allow = RateLimiter.allow (30 * second) (5 * 60 * second) := by
  cases kind with
  | ip => rfl
  | udp => rfl

variable {a : GoString} {d : LimitDecision} {r : LimitRequest} {reqs : List LimitRequest}

theorem answersTo_cons_self (h : d.ip = a) (ds : List LimitDecision) :
    answersTo a (d :: ds) = (seconds d.time, d.allowed) :: answersTo a ds := by
  simp [answersTo, h]

theorem answersTo_cons_of_ne (h : d.ip ≠ a) (ds : List LimitDecision) :
    answersTo a (d :: ds) = answersTo a ds := by
  simp [answersTo, h]

theorem timesOf_cons_self (h : r.ip = a) (rs : List LimitRequest) :
    timesOf a (r :: rs) = seconds r.time :: timesOf a rs := by
  simp [timesOf, h]

theorem timesOf_cons_of_ne (h : r.ip ≠ a) (rs : List LimitRequest) :
    timesOf a (r :: rs) = timesOf a rs := by
  simp [timesOf, h]

/-- **An address is answered by its own bucket**: in every run the answers to an
address are those of a token bucket that is never dropped and hears nothing of
the others. -/
theorem answersTo_run (kind : LimiterKind) (a : GoString) {l : RateLimiter} {s : Int}
    (hSound : l.SoundAt s) (hAfter : ∀ r ∈ reqs, s ≤ r.time) (hOrder : InOrder reqs) :
    answersTo a (kind.run l reqs) = serve l.rate l.burst (l.bucketOf a) (timesOf a reqs) := by
  induction reqs generalizing l s with
  | nil => rfl
  | cons r rs ih =>
    obtain ⟨hLater, hRest⟩ := List.pairwise_cons.mp hOrder
    have hNow : l.SoundAt r.time := hSound.mono (hAfter r List.mem_cons_self)
    have hTail := ih (hNow.allow (30 * second) r.ip) hLater hRest
    rw [RateLimiter.allow_rate, RateLimiter.allow_burst] at hTail
    rw [LimiterKind.run, LimiterKind.allow_eq]
    by_cases hSame : r.ip = a
    · obtain ⟨hBucket, hAnswer⟩ := RateLimiter.allow_self hNow (30 * second) r.ip
      rw [hSame] at hBucket hAnswer
      rw [hSame, hBucket] at hTail
      rw [answersTo_cons_self hSame, timesOf_cons_self hSame, serve, hSame, hAnswer, hTail]
    · rw [answersTo_cons_of_ne hSame, timesOf_cons_of_ne hSame, hTail]
      -- The call of another address has changed the level of `a` at no later time.
      refine serve_congr ?_ fun t ht =>
        RateLimiter.level_allow_of_ne hNow (30 * second) (Ne.symm hSame) ht
      intro t ht
      obtain ⟨r', hr', rfl⟩ := List.mem_map.mp ht
      exact seconds_le.mpr (hLater r' (List.mem_of_mem_filter hr'))

/-- A run of a new limiter. -/
theorem answersTo_new (kind : LimiterKind) (a : GoString) {rate burst : ℚ}
    (hLimits : Limits rate burst) (start : Int) (hOrder : InOrder reqs) :
    answersTo a (kind.run (RateLimiter.new rate burst start) reqs) =
      serve rate burst none (timesOf a reqs) := by
  cases reqs with
  | nil => rfl
  | cons r rs =>
    refine answersTo_run kind a (RateLimiter.soundAt_new hLimits start r.time) ?_ hOrder
    intro r' hr'
    rcases List.mem_cons.mp hr' with rfl | hMem
    · exact le_rfl
    · exact (List.pairwise_cons.mp hOrder).1 r' hMem

/-- **The bound for a window.** In any `T` seconds a limiter allows an address at
most `burst + rate * T` requests, whatever the others do. -/
theorem allowed_in_window_le (kind : LimiterKind) (rate burst : ℚ) (hBurst : 0 < burst)
    (hFills : burst ≤ 300 * rate) (start : Int) (reqs : List LimitRequest)
    (hOrder : reqs.Pairwise fun r r' => r.time ≤ r'.time) (a : GoString) (x T : ℚ) (hT : 0 ≤ T) :
    (((kind.run (RateLimiter.new rate burst start) reqs).countP fun d =>
        d.ip = a ∧ d.allowed ∧ x ≤ seconds d.time ∧ seconds d.time ≤ x + T : ℕ) : ℚ) ≤
      burst + rate * T := by
  have hLimits : Limits rate burst := ⟨hBurst, hFills⟩
  have hAnswers := answersTo_new kind a hLimits start hOrder
  have hCount : ((kind.run (RateLimiter.new rate burst start) reqs).countP fun d =>
      d.ip = a ∧ d.allowed ∧ x ≤ seconds d.time ∧ seconds d.time ≤ x + T) =
      (serve rate burst none (timesOf a reqs)).countP (grantedIn x (x + T)) := by
    rw [← hAnswers, answersTo, List.countP_map, List.countP_filter]
    apply List.countP_congr
    intro d _
    simp only [grantedIn, grantedBy, Function.comp, Bool.and_eq_true, decide_eq_true_eq]
    tauto
  rw [hCount]
  refine countP_window_le hLimits.rate_nonneg hBurst.le ?_ ?_ hT
  · rintro t - b ⟨⟩
  · exact List.pairwise_map.mpr
      ((hOrder.filter _).imp fun hTimes => seconds_le.mpr hTimes)

/-- Another address makes the limiter sweep the bucket of the first one, which then
asks three times at once and once more after a second. -/
def sweptRequests : List LimitRequest :=
  [⟨"192.0.2.1".toList, 0⟩, ⟨"192.0.2.2".toList, 400 * second⟩] ++
    List.replicate 3 ⟨"192.0.2.1".toList, 400 * second⟩ ++ [⟨"192.0.2.1".toList, 401 * second⟩]

/-- The bound is met in that second: two tokens were there, one has come in. -/
theorem allowed_in_window_swept : ∃ n : ℕ,
    ((LimiterKind.ip.run (RateLimiter.new 1 2 0) sweptRequests).countP fun d =>
      d.ip = "192.0.2.1".toList ∧ d.allowed ∧ 400 ≤ seconds d.time ∧ seconds d.time ≤ 400 + 1) = n ∧
    n = 3 ∧ (n : ℚ) ≤ 2 + 1 * 1 :=
  ⟨_, rfl, by decide +kernel, allowed_in_window_le .ip 1 2 (by norm_num) (by norm_num) 0
    sweptRequests (by decide) "192.0.2.1".toList 400 1 zero_le_one⟩

/-- **Isolation.** Two runs in which an address asks at the same times give it the
same answers, whoever else asks and whenever. -/
theorem decisions_isolated (kind : LimiterKind) (rate burst : ℚ) (hBurst : 0 < burst)
    (hFills : burst ≤ 300 * rate) (start start' : Int) (reqs reqs' : List LimitRequest)
    (hOrder : reqs.Pairwise fun r r' => r.time ≤ r'.time)
    (hOrder' : reqs'.Pairwise fun r r' => r.time ≤ r'.time) (a : GoString)
    (hSame : (reqs.filter (·.ip = a)).map LimitRequest.time =
      (reqs'.filter (·.ip = a)).map LimitRequest.time) :
    ((kind.run (RateLimiter.new rate burst start) reqs).filter (·.ip = a)).map
        LimitDecision.allowed =
      ((kind.run (RateLimiter.new rate burst start') reqs').filter (·.ip = a)).map
        LimitDecision.allowed := by
  have hLimits : Limits rate burst := ⟨hBurst, hFills⟩
  have hTimes : timesOf a reqs = timesOf a reqs' := by
    have hMap := congrArg (List.map seconds) hSame
    rwa [List.map_map, List.map_map] at hMap
  have hAnswers : answersTo a (kind.run (RateLimiter.new rate burst start) reqs) =
      answersTo a (kind.run (RateLimiter.new rate burst start') reqs') := by
    rw [answersTo_new kind a hLimits start hOrder, answersTo_new kind a hLimits start' hOrder',
      hTimes]
  have hDecisions := congrArg (List.map Prod.snd) hAnswers
  rw [answersTo, answersTo, List.map_map, List.map_map] at hDecisions
  exact hDecisions

/-- Another address makes the limiter sweep, and the first one is answered as
before. -/
theorem decisions_isolated_sweep :
    ((LimiterKind.udp.run (RateLimiter.new 1 2 0)
          [⟨"192.0.2.1".toList, 0⟩, ⟨"192.0.2.2".toList, 400 * second⟩,
            ⟨"192.0.2.1".toList, 500 * second⟩]).filter (·.ip = "192.0.2.1".toList)).map
        LimitDecision.allowed =
      ((LimiterKind.udp.run (RateLimiter.new 1 2 0)
          [⟨"192.0.2.1".toList, 0⟩, ⟨"192.0.2.1".toList, 500 * second⟩]).filter
            (·.ip = "192.0.2.1".toList)).map LimitDecision.allowed :=
  decisions_isolated .udp 1 2 (by norm_num) (by norm_num) 0 0 _ _ (by decide) (by decide)
    "192.0.2.1".toList (by decide)

end AltNet
