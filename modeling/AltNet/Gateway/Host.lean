import AltNet.Registrar.AltNames

/-!
# AltNet — which names can be browsed (`apps/gateway/gateway.go`, `apps/dns/dns.go`)

A browser asks the DNS resolver for a name and then sends it to the gateway in
the `Host` header. The resolver captures what ends in `.alt`. The gateway takes
a host for a name unless it looks like an address, and it takes every host that
begins with a digit for one.

Main results:

* `handle_host` — what `Gateway.handle` does with a host;
* `browsable_iff` — the names and spellings that the resolver, the gateway and
  the name layer agree on.
-/

namespace AltNet

open List

/-- `r.Method`, as far as `handle` looks at it. -/
inductive Method where
  | get
  | head
  | other
  deriving DecidableEq

/-- What `handle` does with a request. -/
inductive Dispatch where
  | methodNotAllowed
  | serveName (name subPath : GoString)
  | serveCID (hashPart subPath : GoString)
  | landing
  | notFound
  deriving DecidableEq

/-- `isResolvableHost`. -/
def isResolvableHost (host : GoString) : Bool :=
  if host = [] ∨ host = "localhost".toList then false
  else if host.head?.any fun c => decide ('0' ≤ c) && decide (c ≤ '9') then false
  else if host.head? = some '[' then false
  else decide ('.' ∈ host)

/-- `splitHead`. -/
def splitHead (p : GoString) : GoString × GoString :=
  (p.takeWhile (· ≠ '/'), (p.dropWhile (· ≠ '/')).tail)

/-- `strings.TrimPrefix(p, "/")`. -/
def trimSlash (p : GoString) : GoString := if p.head? = some '/' then p.tail else p

/-- `host[:strings.LastIndexByte(host, ':')]`, or all of it. -/
def stripPort (host : GoString) : GoString :=
  if ':' ∈ host then (host.reverse.dropWhile (· ≠ ':')).tail.reverse else host

/-- `Gateway.handle`. -/
def gatewayHandle (method : Method) (host urlPath : GoString) : Dispatch :=
  if method = .other then .methodNotAllowed
  else
    let host := trimDot (stripPort host)
    let urlPath := trimSlash urlPath
    if isResolvableHost host then .serveName host urlPath
    else if urlPath = [] then .landing
    else
      let (head, rest) := splitHead urlPath
      if head = "cid".toList then .serveCID (splitHead rest).1 (splitHead rest).2
      else if head = "n".toList then .serveName (splitHead rest).1 (splitHead rest).2
      else .notFound

/-- `Resolver.matchesCapture`. -/
def matchesCapture (captureTLDs : List GoString) (name : GoString) : Bool :=
  let lower := toLower (trimDot name)
  captureTLDs.any fun tld => lower = tld ∨ ('.' :: tld) <:+ lower

/-- A name as it is spelled in a request, with a dot after it or not. -/
def spelled (h : GoString) (dot : Bool) : GoString := if dot then h ++ ['.'] else h

/-- The `Host` header for a spelling, with a port or without. -/
def hostHeader (name : GoString) (port : Option GoString) : GoString :=
  match port with
  | none => name
  | some p => name ++ ':' :: p

/-! ## Spellings of a name -/

theorem trimDot_split (s : GoString) : s = trimDot s ∨ s = trimDot s ++ ['.'] := by
  rw [trimDot]
  split
  · rename_i hLast
    obtain ⟨front, rfl⟩ := getLast?_eq_some_iff.mp hLast
    rw [dropLast_concat]
    exact .inr rfl
  · exact .inl rfl

/-- Lowering keeps a dot at the end, and makes none. -/
theorem last_dot_lower (s : GoString) :
    (toLower s).getLast? = some '.' ↔ s.getLast? = some '.' := by
  rw [toLower, getLast?_map, Option.map_eq_some_iff]
  simp only [toLowerRune_eq_iff (show ('.' : Char).toNat < 0x41 by decide), exists_eq_right]

theorem toLower_trimDot (s : GoString) : toLower (trimDot s) = trimDot (toLower s) := by
  rw [trimDot, trimDot]
  split
  · rename_i hDot
    rw [if_pos ((last_dot_lower s).mpr hDot), toLower, toLower, map_dropLast]
  · rename_i hDot
    rw [if_neg fun h => hDot ((last_dot_lower s).mp h)]

/-- `CanonicalName` in terms of the lowered text. -/
theorem canonicalName_lower (s : GoString) : canonicalName s = trimDot (trimSpace (toLower s)) := by
  rw [canonicalName, trimSpace_toLower]

/-- A lowered text with the canonical form `k`: white space, `k`, at most one
dot that counts, and white space. -/
structure Spelling (k L w₁ d w₂ : GoString) : Prop where
  text : L = w₁ ++ (k ++ d) ++ w₂
  left : ∀ c ∈ w₁, isSpaceRune c = true
  right : ∀ c ∈ w₂, isSpaceRune c = true
  dot : d = [] ∨ d = ['.']

theorem exists_spelling (L : GoString) :
    ∃ w₁ d w₂, Spelling (trimDot (trimSpace L)) L w₁ d w₂ := by
  obtain ⟨w₁, w₂, hText, hLeft, hRight⟩ := trimSpace_split L
  rcases trimDot_split (trimSpace L) with hPlain | hDot
  · exact ⟨w₁, [], w₂, by rw [append_nil, ← hPlain]; exact hText, hLeft, hRight, .inl rfl⟩
  · exact ⟨w₁, ['.'], w₂, by rw [← hDot]; exact hText, hLeft, hRight, .inr rfl⟩

namespace Spelling

variable {k L w₁ d w₂ : GoString}

/-- The last character of a name under `.alt`. -/
theorem last_alt (hk : altSuffix <:+ k) : k.getLast? = some 't' := by
  obtain ⟨front, rfl⟩ := hk
  simp [altSuffix]

theorem ne_nil_alt (hk : altSuffix <:+ k) : k ≠ [] := by
  rintro rfl
  exact absurd (last_alt hk) (by simp)

variable (h : Spelling k L w₁ d w₂)

include h

variable (hk : altSuffix <:+ k)

include hk

/-- What a spelling ends with. -/
theorem last :
    (w₂ ≠ [] ∧ ∃ c, L.getLast? = some c ∧ isSpaceRune c = true) ∨
      (w₂ = [] ∧ d = ['.'] ∧ L.getLast? = some '.') ∨
      (w₂ = [] ∧ d = [] ∧ L.getLast? = some 't') := by
  rcases eq_nil_or_concat w₂ with hNil | ⟨front, c, hConcat⟩
  · refine .inr ?_
    rw [h.text, hNil, append_nil]
    rcases h.dot with hd | hd
    · refine .inr ⟨rfl, hd, ?_⟩
      rw [hd, append_nil, getLast?_append_of_ne_nil _ (ne_nil_alt hk), last_alt hk]
    · refine .inl ⟨rfl, hd, ?_⟩
      rw [hd, ← append_assoc, getLast?_concat]
  · rw [concat_eq_append] at hConcat
    refine .inl ⟨by simp [hConcat], c, ?_, h.right c (by simp [hConcat])⟩
    rw [h.text, hConcat, ← append_assoc, getLast?_concat]

/-- Whether it ends with `.alt`. -/
theorem suffix_iff :
    altSuffix <:+ L ↔ (∀ c ∈ L.getLast?, isSpaceRune c = false) ∧ L.getLast? ≠ some '.' := by
  have hT : altSuffix <:+ L → L.getLast? = some 't' := last_alt
  rcases h.last hk with ⟨-, c, hLast, hSpace⟩ | ⟨-, -, hLast⟩ | ⟨hw, hd, hLast⟩
  · rw [hLast] at hT ⊢
    constructor
    · intro hAlt
      cases hT hAlt
      exact absurd hSpace (by decide)
    · rintro ⟨hNone, -⟩
      exact absurd (hNone c rfl) (by rw [hSpace]; decide)
  · rw [hLast] at hT ⊢
    constructor
    · intro hAlt
      cases hT hAlt
    · rintro ⟨-, hDot⟩
      exact absurd rfl hDot
  · rw [hLast]
    have hAlt : altSuffix <:+ L := by
      rw [h.text, hw, hd, append_nil, append_nil]
      exact hk.trans (suffix_append _ _)
    exact iff_of_true hAlt ⟨by rintro c ⟨⟩; decide, by decide⟩

/-- Whether it does once a dot is taken from its end. -/
theorem suffix_trimDot_iff : altSuffix <:+ trimDot L ↔ ∀ c ∈ L.getLast?, isSpaceRune c = false := by
  rcases h.last hk with ⟨-, c, hLast, hSpace⟩ | ⟨hw, hd, hLast⟩ | ⟨hw, hd, hLast⟩
  · have hNoDot : L.getLast? ≠ some '.' := by
      rw [hLast]
      rintro ⟨⟩
      exact absurd hSpace (by decide)
    rw [trimDot, if_neg hNoDot, h.suffix_iff hk, and_iff_left hNoDot]
  · rw [hLast]
    have hAlt : altSuffix <:+ trimDot L := by
      rw [h.text, hw, hd, append_nil, ← append_assoc, trimDot, getLast?_concat,
        if_pos rfl, dropLast_concat]
      exact hk.trans (suffix_append _ _)
    exact iff_of_true hAlt (by rintro c ⟨⟩; decide)
  · have hNoDot : L.getLast? ≠ some '.' := by
      rw [hLast]
      decide
    rw [trimDot, if_neg hNoDot, h.suffix_iff hk, and_iff_left hNoDot]

/-- **A spelling without its last dot** has the same canonical form. -/
theorem canonical_trimDot (hL : trimDot (trimSpace L) = k)
    (hHead : ∀ c ∈ k.head?, isSpaceRune c = false) : trimDot (trimSpace (trimDot L)) = k := by
  by_cases hDot : L.getLast? = some '.'
  · -- There is no white space after the dot, so `k` is what is left.
    have hLast : ∀ c ∈ k.getLast?, isSpaceRune c = false := by
      rw [last_alt hk]
      rintro c ⟨⟩
      decide
    have hFront : trimDot L = w₁ ++ k := by
      rcases h.last hk with ⟨-, c, hEnd, hSpace⟩ | ⟨hw, hd, -⟩ | ⟨-, -, hEnd⟩
      · cases hDot.symm.trans hEnd
        exact absurd hSpace (by decide)
      · rw [trimDot, if_pos hDot, h.text, hw, hd, append_nil, ← append_assoc,
          dropLast_concat]
      · cases hDot.symm.trans hEnd
    have hTrim : trimSpace (w₁ ++ k) = k := by
      rw [trimSpace, dropWhile_append_of_pos h.left]
      exact trimSpace_of_ends hHead hLast
    rw [hFront, hTrim, trimDot, if_neg]
    rw [last_alt hk]
    decide
  · have hSame : trimDot L = L := if_neg hDot
    rw [hSame, hL]

end Spelling

/-! ## Hosts -/

theorem isDigit_toLowerRune (c : Char) :
    ('0' ≤ toLowerRune c ∧ toLowerRune c ≤ '9') ↔ ('0' ≤ c ∧ c ≤ '9') := by
  have hLow : ∀ x : Char, x ≤ '9' → x.toNat < 0x41 := fun x hx => Nat.lt_of_le_of_lt hx (by decide)
  constructor
  · intro h
    rwa [(toLowerRune_eq_iff (hLow _ h.2)).mp rfl]
  · intro h
    rwa [(toLowerRune_eq_iff (hLow c h.2)).mpr rfl]

/-- Two spellings in different letter case begin with a digit or do not. -/
theorem head_isDigit_congr {h n : GoString} (hCase : toLower h = toLower n) :
    (∀ c ∈ h.head?, ¬ ('0' ≤ c ∧ c ≤ '9')) ↔ ∀ c ∈ n.head?, ¬ ('0' ≤ c ∧ c ≤ '9') := by
  have hLower : ∀ s : GoString, (∀ c ∈ s.head?, ¬ ('0' ≤ c ∧ c ≤ '9')) ↔
      ∀ c ∈ (toLower s).head?, ¬ ('0' ≤ c ∧ c ≤ '9') := by
    intro s
    cases s with
    | nil => simp [toLower]
    | cons c s =>
      simp only [toLower, map_cons, head?_cons, Option.mem_some_iff, forall_eq',
        isDigit_toLowerRune]
  rw [hLower, hLower n, hCase]

theorem last_isSpace_lower (s : GoString) : (∀ c ∈ (toLower s).getLast?, isSpaceRune c = false) ↔
    ∀ c ∈ s.getLast?, isSpaceRune c = false := by
  rw [toLower, getLast?_map]
  cases s.getLast? with
  | none => simp
  | some c => simp [toLowerRune_isSpace]

/-- The port goes, the name stays. -/
theorem stripPort_hostHeader {name : GoString} {port : Option GoString} (hName : ':' ∉ name)
    (hPort : ∀ p ∈ port, ':' ∉ p) : stripPort (hostHeader name port) = name := by
  cases port with
  | none => rw [hostHeader, stripPort, if_neg hName]
  | some p =>
    have hp : ∀ c ∈ p.reverse, (decide (c ≠ ':')) = true := by
      intro c hc
      refine decide_eq_true fun hEq => hPort p rfl ?_
      rw [← hEq]
      exact mem_reverse.mp hc
    have hMem : ':' ∈ name ++ ':' :: p := by simp
    rw [hostHeader, stripPort, if_pos hMem, reverse_append, reverse_cons,
      append_assoc, dropWhile_append_of_pos hp]
    simp

theorem isResolvableHost_iff {host : GoString} (hDot : '.' ∈ host)
    (hBracket : host.head? ≠ some '[') :
    isResolvableHost host = true ↔ ∀ c ∈ host.head?, ¬ ('0' ≤ c ∧ c ≤ '9') := by
  have hNot : ¬ (host = [] ∨ host = "localhost".toList) := by
    rintro (rfl | rfl)
    · cases hDot
    · exact absurd hDot (by decide)
  rw [isResolvableHost, if_neg hNot, if_neg hBracket, decide_eq_true hDot]
  cases host.head? with
  | none => simp
  | some c =>
    by_cases hDigit : '0' ≤ c ∧ c ≤ '9'
    · simp [hDigit.1, hDigit.2]
    have hFalse : (decide ('0' ≤ c) && decide (c ≤ '9')) = false := by
      rw [← Bool.decide_and]
      exact decide_eq_false hDigit
    simp only [Option.any_some, hFalse, Bool.false_eq_true, if_false, Option.mem_some_iff,
      forall_eq', hDigit, not_false_eq_true]

/-- A dot in a canonical name was in the name. -/
theorem dot_mem_of_canonicalName {name : GoString} (h : '.' ∈ canonicalName name) : '.' ∈ name := by
  have hLower : '.' ∈ toLower (trimSpace name) := ( trimDot_prefix _).subset h
  obtain ⟨c, hc, hEq⟩ := mem_map.mp hLower
  rw [toLowerRune_eq_iff (by decide)] at hEq
  obtain ⟨w₁, w₂, hText, -⟩ := trimSpace_split name
  rw [hText, ← hEq]
  exact mem_append_left _ (mem_append_right _ hc)

/-! ## Names that can be browsed -/

section Browse

variable {n h : GoString} {dot : Bool} {port : Option GoString}

theorem toLower_spelled (hCase : toLower h = toLower n) :
    toLower (trimDot (spelled h dot)) = if dot then toLower n else trimDot (toLower n) := by
  cases dot with
  | false =>
    rw [spelled, if_neg Bool.false_ne_true, toLower_trimDot, hCase, if_neg Bool.false_ne_true]
  | true =>
    rw [spelled, if_pos rfl, trimDot, getLast?_concat, if_pos rfl, dropLast_concat,
      hCase, if_pos rfl]

/-- What the gateway makes of a spelling has the canonical form of the name. -/
theorem canonicalName_spelled (hDomain : EndsAlt (canonicalName n))
    (hCase : toLower h = toLower n) :
    canonicalName (trimDot (spelled h dot)) = canonicalName n := by
  rw [canonicalName_lower, toLower_spelled hCase]
  cases dot with
  | true => exact (canonicalName_lower n).symm
  | false =>
    obtain ⟨w₁, d, w₂, hSpelling⟩ := exists_spelling (toLower n)
    have hHead := head_canonicalName n
    rw [canonicalName_lower] at hDomain hHead ⊢
    exact hSpelling.canonical_trimDot hDomain.1 rfl hHead

/-- **Whether the resolver captures a spelling.** -/
theorem captured_iff (hDomain : EndsAlt (canonicalName n)) (hCase : toLower h = toLower n) :
    matchesCapture ["alt".toList] (spelled h dot) = true ↔
      (∀ c ∈ n.getLast?, isSpaceRune c = false) ∧ ¬ (dot = true ∧ n.getLast? = some '.') := by
  have hAlt : toLower (trimDot (spelled h dot)) ≠ "alt".toList := by
    intro hEq
    have hCanonical : canonicalName (trimDot (spelled h dot)) = canonicalName n :=
      canonicalName_spelled hDomain hCase
    rw [canonicalName_lower, hEq] at hCanonical
    rw [← hCanonical] at hDomain
    exact absurd hDomain.1 (by decide)
  have hSuffix : matchesCapture ["alt".toList] (spelled h dot) = true ↔
      altSuffix <:+ toLower (trimDot (spelled h dot)) := by
    simp only [matchesCapture, any_cons, any_nil, Bool.or_false, decide_eq_true_eq,
      or_iff_right hAlt]
    exact Iff.rfl
  obtain ⟨w₁, d, w₂, hSpelling⟩ := exists_spelling (toLower n)
  rw [canonicalName_lower] at hDomain
  rw [hSuffix, toLower_spelled hCase, ← last_isSpace_lower, ← last_dot_lower]
  cases dot with
  | true =>
    rw [if_pos rfl, hSpelling.suffix_iff hDomain.1]
    simp
  | false =>
    rw [if_neg Bool.false_ne_true, hSpelling.suffix_trimDot_iff hDomain.1]
    simp

/-- The characters of a name that can be registered, in any spelling. -/
theorem mem_spelled {a : Char} (ha : toLowerRune a = a) (hName : validName n = none)
    (hCase : toLower h = toLower n) (hMem : a ∈ spelled h dot) :
    isSpaceRune a = true ∨ a = '.' ∨ isLabelChar a = true := by
  have hText : a ∈ h ∨ a = '.' := by
    cases dot with
    | false => exact .inl hMem
    | true => simpa [spelled] using hMem
  rcases hText with hText | hDot
  · have hLower : a ∈ toLower n := by
      rw [← hCase, toLower, ← ha]
      exact mem_map_of_mem hText
    obtain ⟨w₁, d, w₂, hSpelling⟩ := exists_spelling (toLower n)
    rw [← canonicalName_lower] at hSpelling
    have hLabels := (validName_iff.mp hName).split_labels
    rw [hSpelling.text, mem_append, mem_append, mem_append] at hLower
    rcases hLower with (hLeft | hKey | hLast) | hRight
    · exact .inl (hSpelling.left a hLeft)
    · exact .inr (ascii_of_labels hLabels hKey)
    · rcases hSpelling.dot with hNil | hDot
      · rw [hNil] at hLast
        cases hLast
      · rw [hDot] at hLast
        exact .inr (.inl (mem_singleton.mp hLast))
    · exact .inl (hSpelling.right a hRight)
  · exact .inr (.inl hDot)

/-- What is left of a spelling begins as the spelling does. -/
theorem head_trimDot_spelled (hNe : trimDot (spelled h dot) ≠ []) :
    (trimDot (spelled h dot)).head? = h.head? := by
  have hFront : trimDot (spelled h dot) <+: h := by
    cases dot with
    | false => exact trimDot_prefix h
    | true =>
      rw [spelled, if_pos rfl, trimDot, getLast?_concat, if_pos rfl, dropLast_concat]
  obtain ⟨rest, hRest⟩ := hFront
  have hHead : (trimDot (spelled h dot) ++ rest).head? = (trimDot (spelled h dot)).head? :=
    head?_append_of_ne_nil _ hNe
  rw [hRest] at hHead
  exact hHead.symm

/-- **Whether the gateway takes a spelling for a name.** -/
theorem resolvable_iff (hDomain : EndsAlt (canonicalName n)) (hName : validName n = none)
    (hCase : toLower h = toLower n) : isResolvableHost (trimDot (spelled h dot)) = true ↔
      ∀ c ∈ n.head?, ¬ ('0' ≤ c ∧ c ≤ '9') := by
  have hDot : '.' ∈ trimDot (spelled h dot) := by
    apply dot_mem_of_canonicalName
    rw [canonicalName_spelled hDomain hCase]
    exact hDomain.1.subset (by decide)
  have hBracket : (trimDot (spelled h dot)).head? ≠ some '[' := by
    intro hHead
    have hMem := ( trimDot_prefix _).subset (mem_of_mem_head? hHead)
    rcases mem_spelled (by decide) hName hCase hMem with hSpace | hChar | hLabel
    · exact absurd hSpace (by decide)
    · exact absurd hChar (by decide)
    · exact absurd hLabel (by decide)
  rw [isResolvableHost_iff hDot hBracket, head_trimDot_spelled (ne_nil_of_mem hDot),
    head_isDigit_congr hCase]

end Browse

theorem length_splitHead (p : GoString) : (splitHead p).2.length ≤ p.length - 1 := by
  rw [splitHead, length_tail]
  exact Nat.sub_le_sub_right (dropWhile_suffix _).length_le 1

/-- **What the gateway makes of a host**: a request is for the whole path under
the name of the host exactly when the host can be resolved. -/
theorem handle_host (host urlPath name : GoString) :
    gatewayHandle .get host urlPath = .serveName name (trimSlash urlPath) ↔
      isResolvableHost (trimDot (stripPort host)) = true ∧ trimDot (stripPort host) = name := by
  rw [gatewayHandle, if_neg (by decide)]
  by_cases hHost : isResolvableHost (trimDot (stripPort host)) = true
  · simp [hHost]
  refine iff_of_false ?_ fun h => hHost h.1
  simp only [if_neg hHost]
  split
  · exact Dispatch.noConfusion
  rename_i hPath
  split
  · exact Dispatch.noConfusion
  split
  · -- Under `/n/` the path that is left is shorter than the one that came.
    intro hServe
    have hLength : (splitHead (splitHead (trimSlash urlPath)).2).2.length =
        (trimSlash urlPath).length := by
      rw [(Dispatch.serveName.inj hServe).2]
    have hShort := length_splitHead (splitHead (trimSlash urlPath)).2
    have hRest := length_splitHead (trimSlash urlPath)
    have hPos := length_pos_iff.mpr hPath
    omega
  · exact Dispatch.noConfusion

/-- **Which names can be browsed.** A name that can be registered, in any letter
case, with a dot after it or not and a port or not, reaches `serveName` and the
name server exactly when it does not begin with a digit, does not end in white
space and does not end in two dots. -/
theorem browsable_iff (n h : GoString) (dot : Bool) (port : Option GoString) (urlPath : GoString)
    (hDomain : validateDomain (canonicalName n) = none) (hName : validName n = none)
    (hCase : toLower h = toLower n) (hPort : ∀ p ∈ port, ':' ∉ p) :
    ((∃ name, gatewayHandle .get (hostHeader (spelled h dot) port) urlPath =
          .serveName name (trimSlash urlPath) ∧ canonicalName name = canonicalName n) ∧
        matchesCapture ["alt".toList] (spelled h dot) = true) ↔
      (∀ c ∈ n.head?, ¬ ('0' ≤ c ∧ c ≤ '9')) ∧ (∀ c ∈ n.getLast?, isSpaceRune c = false) ∧
        ¬ (dot = true ∧ n.getLast? = some '.') := by
  have hAlt : EndsAlt (canonicalName n) := validateDomain_iff.mp hDomain
  have hColon : ':' ∉ spelled h dot := by
    intro hMem
    rcases mem_spelled (by decide) hName hCase hMem with hSpace | hChar | hLabel
    · exact absurd hSpace (by decide)
    · exact absurd hChar (by decide)
    · exact absurd hLabel (by decide)
  have hServed : (∃ name, gatewayHandle .get (hostHeader (spelled h dot) port) urlPath =
        .serveName name (trimSlash urlPath) ∧ canonicalName name = canonicalName n) ↔
      isResolvableHost (trimDot (spelled h dot)) = true := by
    simp only [handle_host, stripPort_hostHeader hColon hPort]
    constructor
    · rintro ⟨name, ⟨hHost, -⟩, -⟩
      exact hHost
    · intro hHost
      exact ⟨_, ⟨hHost, rfl⟩, canonicalName_spelled hAlt hCase⟩
  rw [hServed, resolvable_iff hAlt hName hCase, captured_iff hAlt hCase]

/-- A mixed-case spelling with a dot and a port is served and captured. -/
theorem browsable_shop :
    (∃ name, gatewayHandle .get (hostHeader (spelled "Shop.ALT".toList true) (some "8080".toList))
          "/a".toList = .serveName name (trimSlash "/a".toList) ∧
        canonicalName name = canonicalName "shop.alt".toList) ∧
      matchesCapture ["alt".toList] (spelled "Shop.ALT".toList true) = true :=
  (browsable_iff "shop.alt".toList "Shop.ALT".toList true (some "8080".toList) "/a".toList
    (by decide +kernel) (by decide +kernel) (by decide +kernel) (by decide +kernel)).mpr
    ⟨by rintro c ⟨⟩; decide, by rintro c ⟨⟩; decide, by decide⟩

/-- **A name that begins with a digit** can be registered and is captured, and
the gateway answers its root with the landing page. -/
theorem digit_name_not_served :
    validateDomain (canonicalName "1.alt".toList) = none ∧ validName "1.alt".toList = none ∧
      gatewayHandle .get "1.alt".toList "/".toList = .landing ∧
      matchesCapture ["alt".toList] "1.alt".toList = true := by
  decide +kernel

end AltNet
