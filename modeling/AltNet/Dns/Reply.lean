import AltNet.Dns.Query

/-!
# AltNet — captured DNS names (`apps/dns/dns.go`)

A resolver answers queries under its own top-level domains by itself and hands
all others on. `buildCapturedReply` copies the question out of the query, which
may carry anything behind it, and works out again where the question ends. The
query was parsed before, so it ends inside the packet.

What the upstream resolver answers is a parameter, and so is whether the rate
limiter lets the query pass.

Main results:

* `buildCapturedReply_eq` — the reply as a whole, header, question and answers;
* `captured_reply_well_formed` — it parses again as the same question, its counts
  are right, and it is at most 16 bytes longer than the query;
* `handle_crashed_iff` — the resolver crashes exactly on a captured query for an
  address when it was made without an IPv4 address to give out.
-/

namespace AltNet

open List

/-! ## The source -/

/-- What of a `Resolver` decides on a query. -/
structure Resolver where
  captureTLDs : List Bytes
  captureIP : Bytes
  deriving DecidableEq, Repr

/-- `net.IP.To4`; `[]` is `nil`. -/
def to4 (ip : Bytes) : Bytes :=
  if ip.length = 4 then ip
  else if ip.length = 16 ∧ ip.take 12 = replicate 10 0 ++ [0xFF, 0xFF] then ip.drop 12
  else []

/-- `strings.TrimPrefix(s, ".")`. -/
def trimLeadingDot (s : Bytes) : Bytes :=
  if s.head? = some (asciiByte '.') then s.tail else s

namespace Resolver

/-- `New` and `NewWithRate`. -/
def new (captureTLDs : List Bytes) (captureIP : Bytes) : Resolver where
  captureTLDs := captureTLDs.map fun t => toLowerBytes (trimLeadingDot t)
  captureIP := to4 captureIP

/-- `matchesCapture`. -/
def matchesCapture (r : Resolver) (name : Bytes) : Bool :=
  let lower := toLowerBytes (trimDotBytes name)
  r.captureTLDs.any fun tld => lower == tld || (asciiByte '.' :: tld).isSuffixOf lower

/-- The flags of a reply: a response, authoritative, recursion available, and
recursion desired if the query had it. -/
def replyFlags (flags : Nat) : Nat :=
  let base := 2 ^ 15 ||| 2 ^ 10 ||| 2 ^ 7
  if flags &&& 2 ^ 8 ≠ 0 then base ||| 2 ^ 8 else base

/-- `buildCapturedReply`. -/
def buildCapturedReply (r : Resolver) (req : Bytes) (q : ParsedQuery) :
    Except (Fault DnsError) Bytes := do
  let (_, nameLen) ← readName req 12
  let qEnd := 12 + nameLen + 4
  let out ← slice req 0 qEnd
  let out ← putUint16 out 0 q.id
  let out ← putUint16 out 2 (replyFlags q.flags)
  let out ← putUint16 out 4 1
  if q.qtype = 1 then
    let out ← putUint16 out 6 1
    let out ← putUint16 out 8 0
    let out ← putUint16 out 10 0
    let ip0 ← byteAt r.captureIP 0
    let ip1 ← byteAt r.captureIP 1
    let ip2 ← byteAt r.captureIP 2
    let ip3 ← byteAt r.captureIP 3
    -- the name as a pointer to the question, type A, class IN, 60 seconds, 4 octets
    return out ++ ([0xC0, 0x0C] ++ [0x00, 0x01] ++ [0x00, 0x01] ++ [0x00, 0x00, 0x00, 0x3C] ++
      [0x00, 0x04] ++ [ip0, ip1, ip2, ip3])
  else if q.qtype = 28 then
    let out ← putUint16 out 6 0
    let out ← putUint16 out 8 0
    putUint16 out 10 0
  else
    let out ← putUint16 out 6 0
    let out ← putUint16 out 8 0
    putUint16 out 10 0

end Resolver

open Resolver

/-- What becomes of a packet. -/
inductive Handled
  | dropped
  | written (reply : Bytes)
  | crashed
  deriving DecidableEq, Repr

/-- `handle`: `allowed` is the answer of the rate limiter, `upstream` what `forward`
returns, `none` for its errors. -/
def Resolver.handle (r : Resolver) (allowed : Bool) (upstream : Option Bytes) (req : Bytes) :
    Handled :=
  let forwarded := (upstream.map Handled.written).getD .dropped
  if allowed = false then .dropped
  else
    match parseQuery req with
    | .error (.err _) => .dropped
    | .error _ => .crashed
    | .ok q =>
      if r.matchesCapture q.name then
        match r.buildCapturedReply req q with
        | .ok reply => .written reply
        | .error (.err _) => forwarded
        | .error _ => .crashed
      else forwarded

/-! ## The reply -/

/-- The header that the reply gets. -/
def replyHeader (q : ParsedQuery) (answers : Nat) : Bytes :=
  uint16Bytes q.id ++ uint16Bytes (replyFlags q.flags) ++ uint16Bytes 1 ++
    uint16Bytes answers ++ uint16Bytes 0 ++ uint16Bytes 0

/-- The address record of 16 bytes that a reply carries. -/
def answerRecord (ip : Bytes) : Bytes :=
  [0xC0, 0x0C, 0x00, 0x01, 0x00, 0x01, 0x00, 0x00, 0x00, 0x3C, 0x00, 0x04] ++ ip

/-- How many of them: one for a query of type A. -/
def answerCount (q : ParsedQuery) : Nat := if q.qtype = 1 then 1 else 0

theorem length_replyHeader (q : ParsedQuery) (answers : Nat) :
    (replyHeader q answers).length = 12 := rfl

/-- The six numbers of the header are written one after another. -/
theorem put_header {p : Bytes} (h : 12 ≤ p.length) (q : ParsedQuery) :
    ∃ out₀ out₂ out₄, (putUint16 p 0 q.id : Except (Fault DnsError) Bytes) = .ok out₀ ∧
      (putUint16 out₀ 2 (replyFlags q.flags) : Except (Fault DnsError) Bytes) =
        .ok out₂ ∧
      (putUint16 out₂ 4 1 : Except (Fault DnsError) Bytes) = .ok out₄ ∧
      ∀ n, ∃ out₆ out₈, (putUint16 out₄ 6 n : Except (Fault DnsError) Bytes) = .ok out₆ ∧
        (putUint16 out₆ 8 0 : Except (Fault DnsError) Bytes) = .ok out₈ ∧
        (putUint16 out₈ 10 0 : Except (Fault DnsError) Bytes) =
          .ok (replyHeader q n ++ p.drop 12) := by
  have hNext (done : Bytes) (v : Nat) (hDone : done.length + 2 ≤ 12) :=
    @putUint16_next DnsError p done v (hDone.trans h)
  refine ⟨_, _, _, hNext [] q.id ?_, hNext (uint16Bytes _) _ ?_,
    hNext (uint16Bytes _ ++ uint16Bytes _) 1 ?_, fun n => ⟨_, _,
    hNext (uint16Bytes _ ++ uint16Bytes _ ++ uint16Bytes _) n ?_,
    hNext (uint16Bytes _ ++ uint16Bytes _ ++ uint16Bytes _ ++ uint16Bytes _) 0 ?_,
    hNext (uint16Bytes _ ++ uint16Bytes _ ++ uint16Bytes _ ++ uint16Bytes _ ++ uint16Bytes _)
      0 ?_⟩⟩
  all_goals simp [uint16Bytes]

/-- The address of four octets is read octet by octet. -/
theorem read_ip {ip : Bytes} (h : ip.length = 4) :
    ∃ a b c d, ip = [a, b, c, d] := by
  match ip, h with
  | [a, b, c, d], _ => exact ⟨a, b, c, d, rfl⟩

variable {q : ParsedQuery} {r : Resolver} {req : Bytes}

/-- The question is copied, and the header written over the one of the query. -/
theorem copied_question {n : Nat} (hLength : 12 + n + 4 ≤ req.length) (q : ParsedQuery) :
    ∃ out out₀ out₂ out₄,
      (slice req 0 (12 + n + 4) : Except (Fault DnsError) Bytes) = .ok out ∧
      (putUint16 out 0 q.id : Except (Fault DnsError) Bytes) = .ok out₀ ∧
      (putUint16 out₀ 2 (replyFlags q.flags) : Except (Fault DnsError) Bytes) =
        .ok out₂ ∧
      (putUint16 out₂ 4 1 : Except (Fault DnsError) Bytes) = .ok out₄ ∧
      ∀ n', ∃ out₆ out₈, (putUint16 out₄ 6 n' : Except (Fault DnsError) Bytes) = .ok out₆ ∧
        (putUint16 out₆ 8 0 : Except (Fault DnsError) Bytes) = .ok out₈ ∧
        (putUint16 out₈ 10 0 : Except (Fault DnsError) Bytes) =
          .ok (replyHeader q n' ++ (req.drop 12).take (n + 4)) := by
  have hSlice : (slice req 0 (12 + n + 4) : Except (Fault DnsError) Bytes) =
      .ok (req.take (12 + n + 4)) := by
    rw [slice_of_le (Nat.zero_le _) hLength, drop_zero, Nat.sub_zero]
  have hQuestion : (req.take (12 + n + 4)).drop 12 = (req.drop 12).take (n + 4) := by
    rw [drop_take, Nat.add_assoc, Nat.add_sub_cancel_left]
  obtain ⟨out₀, out₂, out₄, h⟩ :=
    @put_header (req.take (12 + n + 4)) (by rw [length_take]; omega) q
  rw [hQuestion] at h
  exact ⟨_, out₀, out₂, out₄, hSlice, h⟩

/-- **The reply as a whole.** Only a query of type A needs the address. -/
theorem buildCapturedReply_eq {n : Nat} (hName : readName req 12 = .ok (q.name, n))
    (hLength : 12 + n + 4 ≤ req.length) (hIP : q.qtype = 1 → r.captureIP.length = 4) :
    r.buildCapturedReply req q = .ok (replyHeader q (answerCount q) ++
      (req.drop 12).take (n + 4) ++
      (replicate (answerCount q) (answerRecord r.captureIP)).flatten) := by
  obtain ⟨out, out₀, out₂, out₄, hSlice, h₀, h₂, h₄, hCounts⟩ := copied_question hLength q
  by_cases hA : q.qtype = 1
  · obtain ⟨out₆, out₈, h₆, h₈, h₁₀⟩ := hCounts 1
    obtain ⟨a, b, c, d, hOctets⟩ := read_ip (hIP hA)
    simp [buildCapturedReply, hName, hSlice, h₀, h₂, h₄, h₆, h₈, h₁₀, hA, bind,
      Except.bind, pure, Except.pure, answerCount, hOctets, byteAt, answerRecord]
  · obtain ⟨out₆, out₈, h₆, h₈, h₁₀⟩ := hCounts 0
    simp [buildCapturedReply, hName, hSlice, h₀, h₂, h₄, h₆, h₈, h₁₀, hA, bind,
      Except.bind, answerCount]

theorem uint16_replyHeader (hID : q.id < 65536) (rest : Bytes) :
    uint16 (replyHeader q (answerCount q) ++ rest) 0 = q.id ∧
      uint16 (replyHeader q (answerCount q) ++ rest) 4 = 1 ∧
      uint16 (replyHeader q (answerCount q) ++ rest) 6 = answerCount q ∧
      uint16 (replyHeader q (answerCount q) ++ rest) 8 = 0 ∧
      uint16 (replyHeader q (answerCount q) ++ rest) 10 = 0 := by
  have hCount : answerCount q < 65536 := by
    rw [answerCount]
    split <;> decide
  exact ⟨uint16_bytes hID [], uint16_bytes (by decide : 1 < 65536) [], uint16_bytes hCount [],
    uint16_bytes (by decide : 0 < 65536) [], uint16_bytes (by decide : 0 < 65536) []⟩

/-- A name is read again where its octets stand again. -/
theorem readName_copied {p copy : Bytes} {off off' n k : Nat} {name rest : Bytes}
    (h : readName p off = .ok (name, n)) (hCopy : copy.drop off' = (p.drop off).take k ++ rest)
    (hk : n ≤ k) : readName copy off' = .ok (name, n) := by
  obtain ⟨labels, hWire, hTotal, hName, hn⟩ := (readName_ok_iff _ _ _ _).mp h
  refine (readName_ok_iff _ _ _ _).mpr ⟨labels, ⟨hWire.valid, ?_⟩, hTotal, hName, hn⟩
  have hTake := prefix_take_iff.mpr ⟨hWire.starts, hn ▸ hk⟩
  rw [hCopy]
  exact hTake.trans (prefix_append _ _)

theorem length_answerRecord {ip : Bytes} (h : ip.length = 4) : (answerRecord ip).length = 16 := by
  rw [answerRecord, length_append, h]
  rfl

/-- A number of the question, in any message that has it behind its header. -/
theorem uint16_question {header question : Bytes} {k : Nat} (hHeader : header.length = 12)
    (h : k + 2 ≤ question.length) (rest : Bytes) :
    uint16 (header ++ (question ++ rest)) (12 + k) = uint16 question k := by
  rw [← hHeader, uint16_append_right, uint16_append_left h]

/-- What the reply to a captured query has to be. -/
structure IsCapturedReply (r : Resolver) (req : Bytes) (q : ParsedQuery) (out : Bytes) :
    Prop where
  reparsed : ∃ q', parseQuery out = .ok q' ∧ q'.id = q.id ∧ q'.name = q.name ∧
    q'.qtype = q.qtype ∧ q'.qclass = q.qclass
  verbatim : ∃ n, readName req 12 = .ok (q.name, n) ∧
    (out.drop 12).take (n + 4) = (req.drop 12).take (n + 4) ∧
    out.drop (12 + (n + 4)) =
      (replicate (uint16 out 6) (answerRecord r.captureIP)).flatten
  sixteen : (answerRecord r.captureIP).length = 16
  qdcount : uint16 out 4 = 1
  ancount : uint16 out 6 = if q.qtype = 1 then 1 else 0
  nscount : uint16 out 8 = 0
  arcount : uint16 out 10 = 0
  length_le : out.length ≤ req.length + 16

/-- **Captured replies are well formed**, whatever stands in the query behind its first
question. -/
theorem captured_reply_well_formed (r : Resolver) (req : Bytes) (q : ParsedQuery)
    (hIP : r.captureIP.length = 4) (hParse : parseQuery req = .ok q) :
    ∃ out, r.buildCapturedReply req q = .ok out ∧ IsCapturedReply r req q out := by
  obtain ⟨hQuery, n, hName, hLength, hq⟩ := (parseQuery_ok_iff req q).mp hParse
  obtain ⟨question, hQuestion⟩ : ∃ question, (req.drop 12).take (n + 4) = question := ⟨_, rfl⟩
  obtain ⟨answers, hAnswers⟩ :
      ∃ answers, (replicate (answerCount q) (answerRecord r.captureIP)).flatten = answers :=
    ⟨_, rfl⟩
  have hQuestionLength : question.length = n + 4 := by
    rw [← hQuestion, length_take, length_drop]
    omega
  have hBuild := buildCapturedReply_eq hName hLength fun _ => hIP
  rw [hQuestion, hAnswers, append_assoc] at hBuild
  obtain ⟨hID, hQd, hAn, hNs, hAr⟩ := @uint16_replyHeader q
    (by rw [hq]; exact uint16_lt req 0) (question ++ answers)
  have hDrop : (replyHeader q (answerCount q) ++ (question ++ answers)).drop 12 =
      question ++ answers := drop_left' (length_replyHeader _ _)
  refine ⟨_, hBuild, ?_, ⟨n, hName, ?_, ?_⟩, length_answerRecord hIP, hQd, hAn, hNs, hAr, ?_⟩
  · -- the type and the class stand in the same place of the question
    have hReq : req = req.take 12 ++ (question ++ (req.drop 12).drop (n + 4)) := by
      rw [← hQuestion, take_append_drop, take_append_drop]
    have hSame (k : Nat) (hk : k + 2 ≤ n + 4) :
        uint16 (replyHeader q (answerCount q) ++ (question ++ answers)) (12 + k) =
          uint16 req (12 + k) := by
      rw [uint16_question (length_replyHeader _ _) (by omega), hReq,
        uint16_question (by rw [length_take]; omega) (by omega)]
    have hReread := readName_copied hName (hDrop.trans (by rw [hQuestion])) (Nat.le_add_right n 4)
    refine ⟨_, parseQuery_of_readName hQd.ge hReread ?_, hID, rfl, ?_, ?_⟩
    · rw [length_append, length_replyHeader, length_append]
      omega
    · rw [hSame n (by omega), hq]
    · rw [Nat.add_assoc, hSame (n + 2) (by omega), hq, Nat.add_assoc]
  · rw [hDrop, hQuestion, ← hQuestionLength, take_left]
  · rw [← drop_drop, hDrop, ← hQuestionLength, drop_left, hAn, hAnswers]
  · have hAnswersLength : answers.length ≤ 16 := by
      rw [← hAnswers, length_flatten, map_replicate, length_answerRecord hIP,
        sum_replicate, answerCount]
      split <;> decide
    rw [length_append, length_replyHeader, length_append]
    omega

/-- A resolver for the names under `alt`, and a query for the address of `a.alt` with
three bytes behind its question. -/
def altResolver : Resolver := .new [utf8 "alt".toList] [127, 0, 0, 1]

def altQuery : Bytes :=
  [0x12, 0x34, 1, 0, 0, 2, 0, 0, 0, 0, 0, 9] ++ nameWire [[65], utf8 "alt".toList] ++
    [0, 1, 0, 1] ++ [7, 7, 7]

theorem captured_reply_well_formed_alt :
    altResolver.matchesCapture (joinLabels [[65], utf8 "alt".toList]) = true ∧
      ∃ out, altResolver.buildCapturedReply altQuery
          ⟨0x1234, 0x100, 2, joinLabels [[65], utf8 "alt".toList], 1, 1, 12⟩ = .ok out ∧
        IsCapturedReply altResolver altQuery
          ⟨0x1234, 0x100, 2, joinLabels [[65], utf8 "alt".toList], 1, 1, 12⟩ out :=
  ⟨by decide +kernel, captured_reply_well_formed _ _ _ (by decide) (by decide +kernel)⟩

/-! ## The resolver -/

theorem to4_cases (ip : Bytes) : (to4 ip).length = 4 ∨ to4 ip = [] := by
  rw [to4]
  split_ifs with h4 h16
  · exact Or.inl h4
  · exact Or.inl (by rw [length_drop, h16.1])
  · exact Or.inr rfl

/-- Without an address a reply of type A reads past it. -/
theorem buildCapturedReply_panic (hParse : parseQuery req = .ok q) (hA : q.qtype = 1)
    (hIP : r.captureIP = []) : r.buildCapturedReply req q = .error .panic := by
  obtain ⟨-, n, hName, hLength, -⟩ := (parseQuery_ok_iff req q).mp hParse
  obtain ⟨out, out₀, out₂, out₄, hSlice, h₀, h₂, h₄, hCounts⟩ := copied_question hLength q
  obtain ⟨out₆, out₈, h₆, h₈, h₁₀⟩ := hCounts 1
  simp [buildCapturedReply, hName, hSlice, h₀, h₂, h₄, h₆, h₈, h₁₀, hA, bind,
    Except.bind, hIP, byteAt]

/-- **When the resolver crashes**: on a query for the address of a captured name that
the limiter lets pass, if it has no IPv4 address to give out, and on nothing else. -/
theorem handle_crashed_iff (tlds : List Bytes) (ip : Bytes) (allowed : Bool)
    (upstream : Option Bytes) (req : Bytes) :
    (new tlds ip).handle allowed upstream req = .crashed ↔
      allowed = true ∧ to4 ip = [] ∧ ∃ q, parseQuery req = .ok q ∧
        (new tlds ip).matchesCapture q.name = true ∧ q.qtype = 1 := by
  obtain ⟨r, hr⟩ : ∃ r, new tlds ip = r := ⟨_, rfl⟩
  have hIP : r.captureIP = to4 ip := by
    rw [← hr]
    rfl
  have hForward : (upstream.map Handled.written).getD .dropped ≠ .crashed := by
    cases upstream <;> simp
  rw [hr, ← hIP]
  cases allowed with
  | false => simp [handle]
  | true =>
    obtain ⟨hPanic, hRunning⟩ := parseQuery_safe req
    cases hParse : parseQuery req with
    | error e =>
      cases e with
      | err e => simp [handle, hParse]
      | panic => exact absurd hParse hPanic
      | running => exact absurd hParse hRunning
    | ok q =>
      by_cases hCapture : r.matchesCapture q.name = true
      · obtain ⟨-, n, hName, hLength, -⟩ := (parseQuery_ok_iff req q).mp hParse
        by_cases hCrash : q.qtype = 1 ∧ r.captureIP = []
        · simp [handle, hParse, hCapture, hCrash,
            buildCapturedReply_panic hParse hCrash.1 hCrash.2]
        -- otherwise there is a reply
        have hBuild := buildCapturedReply_eq (r := r) hName hLength fun hA =>
          (hIP ▸ to4_cases ip).resolve_right fun hNone => hCrash ⟨hA, hNone⟩
        simp only [handle, hParse, hCapture, hBuild]
        simpa using fun hNone _ hA => hCrash ⟨hA, hNone⟩
      · simp [handle, hParse, hCapture, hForward]

end AltNet
