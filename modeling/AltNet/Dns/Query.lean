import AltNet.Lib.Slice
import AltNet.Name.Labels

/-!
# AltNet — DNS queries (`apps/dns/dns.go`)

`parseQuery` reads the header and the first question of a packet that anyone may
have sent. `readName` walks over the labels of the name: each is a length octet
and that many octets, and a zero octet ends the name. Every access to the packet
is checked by the runtime, so a read past its end would be a panic here.

The limit on the length of a name is tested behind each label, before the zero
octet is counted. A name of 256 octets therefore passes.

Main results:

* `readName_ok_iff` — what `readName` accepts, in terms of the labels;
* `readName_safe` — it ends, and stays inside the packet;
* `readName_exact_iff` — it accepts the names of at most 255 octets and no
  others exactly on the packets that do not hold a name of 256 octets there;
* `parseQuery_ok_iff` — what `parseQuery` accepts.
-/

namespace AltNet

open List

/-! ## The source -/

/-- The errors of `parseQuery` and `readName`. -/
inductive DnsError
  | shortHeader
  | noQuestion
  | truncatedQuestion
  | nameTruncated
  | compression
  | labelTooLong
  | labelTruncated
  | nameTooLong
  deriving DecidableEq, Repr

/-- The loop of `readName`, cut off after `fuel` labels. -/
def readNameLoop (p : Bytes) (start : Nat) :
    Nat → Nat → List Bytes → Except (Fault DnsError) (List Bytes × Nat)
  | 0, _, _ => .error .running
  | fuel + 1, off, labels =>
    if p.length ≤ off then .error (.err .nameTruncated)
    else do
      let b ← byteAt p off
      let l := b.toNat
      if l = 0 then return (labels, off + 1)
      else if l &&& 0xC0 ≠ 0 then throw (.err .compression)
      else if 63 < l then throw (.err .labelTooLong)
      else if p.length < off + 1 + l then throw (.err .labelTruncated)
      else
        let label ← slice p (off + 1) (off + 1 + l)
        if 255 < off + 1 + l - start then throw (.err .nameTooLong)
        else readNameLoop p start fuel (off + 1 + l) (labels ++ [label])

/-- `strings.Join(labels, ".")`. -/
def joinLabels (labels : List Bytes) : Bytes := [asciiByte '.'].intercalate labels

/-- `readName`. Each turn of its loop consumes an octet, so one more turn than there
are octets is enough. -/
def readName (p : Bytes) (off : Nat) : Except (Fault DnsError) (Bytes × Nat) :=
  (readNameLoop p off (p.length + 1) off []).map fun r => (joinLabels r.1, r.2 - off)

/-- `parsedQuery` with its `question`. -/
structure ParsedQuery where
  id : Nat
  flags : Nat
  qdcount : Nat
  name : Bytes
  qtype : Nat
  qclass : Nat
  rawQuestionStart : Nat
  deriving DecidableEq, Repr

/-- `parseQuery`. -/
def parseQuery (p : Bytes) : Except (Fault DnsError) ParsedQuery :=
  if p.length < 12 then .error (.err .shortHeader)
  else do
    let id ← uint16At p 0
    let flags ← uint16At p 2
    let qdcount ← uint16At p 4
    if qdcount < 1 then throw (.err .noQuestion)
    else
      let (name, n) ← readName p 12
      let off := 12 + n
      if p.length < off + 4 then throw (.err .truncatedQuestion)
      else
        let qtype ← uint16At p off
        let qclass ← uint16At p (off + 2)
        return ⟨id, flags, qdcount, name, qtype, qclass, 12⟩

/-! ## Names on the wire -/

/-- What a label may be: one to 63 octets. -/
def IsWireLabel (label : Bytes) : Prop := 1 ≤ label.length ∧ label.length ≤ 63

instance (label : Bytes) : Decidable (IsWireLabel label) := inferInstanceAs (Decidable (_ ∧ _))

/-- A label behind its length octet. -/
def labelWire (label : Bytes) : Bytes := UInt8.ofNat label.length :: label

/-- The labels of a name one after another, and the zero octet. -/
def nameWire (labels : List Bytes) : Bytes := labels.flatMap labelWire ++ [0]

/-- From `off` on the packet starts with the uncompressed name of the labels. -/
structure WireName (p : Bytes) (off : Nat) (labels : List Bytes) : Prop where
  valid : ∀ label ∈ labels, IsWireLabel label
  starts : nameWire labels <+: p.drop off

@[simp] theorem nameWire_nil : nameWire [] = [0] := rfl

@[simp] theorem nameWire_cons (label : Bytes) (labels : List Bytes) :
    nameWire (label :: labels) = labelWire label ++ nameWire labels := by
  simp [nameWire]

@[simp] theorem length_labelWire (label : Bytes) :
    (labelWire label).length = label.length + 1 := by
  simp [labelWire]

theorem length_nameWire_pos (labels : List Bytes) : 0 < (nameWire labels).length := by
  simp [nameWire]

theorem toNat_labelLength {label : Bytes} (h : IsWireLabel label) :
    (UInt8.ofNat label.length).toNat = label.length := by
  rw [UInt8.toNat_ofNat']
  exact Nat.mod_eq_of_lt (by have := h.2; omega)

/-- The first octet of a name says whether it goes on, and how long its first
label is. -/
theorem nameWire_head {labels : List Bytes} {b : UInt8} {tail : Bytes}
    (hValid : ∀ label ∈ labels, IsWireLabel label) (hStarts : nameWire labels <+: b :: tail) :
    (labels = [] ∧ b.toNat = 0) ∨
      ∃ label more, labels = label :: more ∧ b.toNat = label.length ∧
        label ++ nameWire more <+: tail := by
  cases labels with
  | nil =>
    obtain ⟨rest, hRest⟩ := hStarts
    obtain ⟨rfl, -⟩ := cons.inj hRest
    exact .inl ⟨rfl, rfl⟩
  | cons label more =>
    obtain ⟨rest, hRest⟩ := hStarts
    rw [nameWire_cons, labelWire, cons_append, cons_append] at hRest
    obtain ⟨rfl, hTail⟩ := cons.inj hRest
    exact .inr ⟨label, more, rfl, toNat_labelLength (hValid label (by simp)), ⟨rest, hTail⟩⟩

/-- Behind a label stands the rest of the name. -/
theorem wireName_label {p : Bytes} {off : Nat} {label tail : Bytes} (hLabel : IsWireLabel label)
    (hDrop : p.drop off = labelWire label ++ tail) (labels : List Bytes) :
    WireName p off labels ↔
      ∃ more, labels = label :: more ∧ WireName p (off + (labelWire label).length) more := by
  have hTail : p.drop (off + (labelWire label).length) = tail := by
    rw [← drop_drop, hDrop, drop_left]
  constructor
  · intro h
    have hStarts := h.starts
    rw [hDrop, labelWire, cons_append] at hStarts
    rcases nameWire_head h.valid hStarts with ⟨-, hZero⟩ | ⟨first, more, rfl, hLength, hRest⟩
    · rw [toNat_labelLength hLabel] at hZero
      exact absurd hLabel.1 (by omega)
    -- the two labels have the same length and begin the same octets
    rw [toNat_labelLength hLabel] at hLength
    obtain ⟨rest, hEq⟩ := hRest
    rw [append_assoc] at hEq
    obtain ⟨rfl, rfl⟩ := append_inj hEq hLength.symm
    exact ⟨more, rfl, fun l hl => h.valid l (mem_cons_of_mem _ hl),
      hTail ▸ prefix_append _ _⟩
  · rintro ⟨more, rfl, h⟩
    refine ⟨forall_mem_cons.mpr ⟨hLabel, h.valid⟩, ?_⟩
    rw [hDrop, nameWire_cons]
    exact prefix_append_right_inj _ |>.mpr (hTail ▸ h.starts)

/-! ## The loop -/

theorem and_compression_mask : ∀ l < 256, (l &&& 0xC0 = 0 ↔ l < 64) := by
  decide +kernel

/-- A turn of the loop by the octet that it reads. The test for a label of more than
63 octets is never reached: the bits of a pointer are set in all of them. -/
theorem readNameLoop_octet {p : Bytes} {off : Nat} {b : UInt8} {tail : Bytes}
    (hDrop : p.drop off = b :: tail) (start fuel : Nat) (labels : List Bytes) :
    readNameLoop p start (fuel + 1) off labels =
      if b.toNat = 0 then .ok (labels, off + 1)
      else if 64 ≤ b.toNat then .error (.err .compression)
      else if tail.length < b.toNat then .error (.err .labelTruncated)
      else if 255 < off + 1 + b.toNat - start then .error (.err .nameTooLong)
      else readNameLoop p start fuel (off + 1 + b.toNat) (labels ++ [tail.take b.toNat]) := by
  have hLength := congrArg length hDrop
  rw [length_drop, length_cons] at hLength
  have hOff : off < p.length := by omega
  have hTail : p.drop (off + 1) = tail := by
    rw [← drop_drop, hDrop, drop_one, tail_cons]
  have hOctet : p.getD off 0 = b := by
    rw [drop_eq_getElem_cons hOff] at hDrop
    rw [getD_eq_getElem _ _ hOff]
    exact (cons.inj hDrop).1
  have hMask := and_compression_mask b.toNat b.toNat_lt
  rw [readNameLoop, if_neg (by omega), byteAt_of_lt hOff, hOctet]
  show (if b.toNat = 0 then _ else _) = _
  by_cases hZero : b.toNat = 0
  · rw [if_pos hZero, if_pos hZero]
    rfl
  rw [if_neg hZero, if_neg hZero]
  by_cases hLong : 64 ≤ b.toNat
  · rw [if_pos (fun h => absurd (hMask.mp h) (by omega)), if_pos hLong]
    rfl
  rw [if_neg (not_not_intro (hMask.mpr (by omega))), if_neg hLong, if_neg (by omega)]
  by_cases hShort : tail.length < b.toNat
  · rw [if_pos (by omega), if_pos hShort]
    rfl
  rw [if_neg (by omega), if_neg hShort, slice_of_le (by omega) (by omega),
    Nat.add_sub_cancel_left, hTail]
  rfl

/-- **One turn of the loop**, by what stands at `off`. -/
theorem readNameLoop_cases (p : Bytes) (start fuel off : Nat) (labels : List Bytes) :
    (p.drop off = [] ∧
      readNameLoop p start (fuel + 1) off labels = .error (.err .nameTruncated)) ∨
    (∃ tail, p.drop off = 0 :: tail ∧
      readNameLoop p start (fuel + 1) off labels = .ok (labels, off + 1)) ∨
    (∃ b tail, p.drop off = b :: tail ∧ 64 ≤ b.toNat ∧
      readNameLoop p start (fuel + 1) off labels = .error (.err .compression)) ∨
    (∃ b tail, p.drop off = b :: tail ∧ b.toNat ≠ 0 ∧ tail.length < b.toNat ∧
      readNameLoop p start (fuel + 1) off labels = .error (.err .labelTruncated)) ∨
    (∃ label tail, p.drop off = labelWire label ++ tail ∧ IsWireLabel label ∧
      255 < off + (labelWire label).length - start ∧
      readNameLoop p start (fuel + 1) off labels = .error (.err .nameTooLong)) ∨
    ∃ label tail, p.drop off = labelWire label ++ tail ∧ IsWireLabel label ∧
      off + (labelWire label).length - start ≤ 255 ∧
      readNameLoop p start (fuel + 1) off labels =
        readNameLoop p start fuel (off + (labelWire label).length) (labels ++ [label]) := by
  cases hDrop : p.drop off with
  | nil => exact .inl ⟨rfl, if_pos (drop_eq_nil_iff.mp hDrop)⟩
  | cons b tail =>
    refine .inr ?_
    rw [readNameLoop_octet hDrop]
    by_cases hZero : b.toNat = 0
    · rw [if_pos hZero]
      have hb : b = 0 := UInt8.toNat_inj.mp (hZero.trans UInt8.toNat_zero.symm)
      exact .inl ⟨tail, by rw [hb], rfl⟩
    refine .inr ?_
    rw [if_neg hZero]
    by_cases hLong : 64 ≤ b.toNat
    · rw [if_pos hLong]
      exact .inl ⟨b, tail, rfl, hLong, rfl⟩
    refine .inr ?_
    rw [if_neg hLong]
    by_cases hShort : tail.length < b.toNat
    · rw [if_pos hShort]
      exact .inl ⟨b, tail, rfl, hZero, hShort, rfl⟩
    refine .inr ?_
    rw [if_neg hShort]
    -- the label is there as a whole
    have hLength : (tail.take b.toNat).length = b.toNat := by
      rw [length_take]
      omega
    have hLabel : IsWireLabel (tail.take b.toNat) := ⟨by omega, by omega⟩
    have hWire : b :: tail = labelWire (tail.take b.toNat) ++ tail.drop b.toNat := by
      rw [labelWire, hLength, UInt8.ofNat_toNat, cons_append, take_append_drop]
    have hNext : off + (labelWire (tail.take b.toNat)).length = off + 1 + b.toNat := by
      rw [length_labelWire, hLength]
      omega
    by_cases hTooLong : 255 < off + 1 + b.toNat - start
    · exact .inl ⟨_, _, hWire, hLabel, by omega, if_pos hTooLong⟩
    · refine .inr ⟨_, _, hWire, hLabel, by omega, ?_⟩
      rw [if_neg hTooLong, hNext]

/-- **The loop accepts** the names that start at `off` and of which no more than 255
octets stand before the zero octet. -/
theorem readNameLoop_ok_iff {p : Bytes} {start fuel off : Nat} {labels : List Bytes}
    (hFuel : p.length < off + fuel) (hStart : start ≤ off) (hSoFar : off - start ≤ 255)
    (labels' : List Bytes) (last : Nat) :
    readNameLoop p start fuel off labels = .ok (labels', last) ↔
      ∃ more, WireName p off more ∧ off + (nameWire more).length ≤ start + 256 ∧
        labels' = labels ++ more ∧ last = off + (nameWire more).length := by
  induction fuel generalizing off labels with
  | zero =>
    simp only [readNameLoop, reduceCtorEq, false_iff, not_exists]
    rintro more ⟨h, -⟩
    have hDrop : p.drop off = [] := drop_eq_nil_of_le (by omega)
    have hLength := h.starts.length_le
    rw [hDrop] at hLength
    exact absurd (length_nameWire_pos more) (by simpa using hLength)
  | succ fuel ih =>
    rcases readNameLoop_cases p start fuel off labels with ⟨hDrop, hEq⟩ | ⟨tail, hDrop, hEq⟩ |
      ⟨b, tail, hDrop, hLong, hEq⟩ | ⟨b, tail, hDrop, hNonzero, hShort, hEq⟩ |
      ⟨label, tail, hDrop, hLabel, hTooLong, hEq⟩ | ⟨label, tail, hDrop, hLabel, hFits, hEq⟩
    · -- the packet ends here
      simp only [hEq, reduceCtorEq, false_iff, not_exists]
      rintro more ⟨h, -⟩
      have hLength := h.starts.length_le
      rw [hDrop] at hLength
      exact absurd (length_nameWire_pos more) (by simpa using hLength)
    · -- the zero octet
      rw [hEq]
      constructor
      · rintro ⟨⟩
        refine ⟨[], ⟨by simp, ?_⟩, ?_, (append_nil _).symm, rfl⟩
        · rw [hDrop]
          exact ⟨tail, rfl⟩
        · simp only [nameWire_nil, length_singleton]
          omega
      · rintro ⟨more, h, -, rfl, rfl⟩
        rcases nameWire_head h.valid (hDrop ▸ h.starts) with ⟨rfl, -⟩ | ⟨label, _, rfl, hZero, -⟩
        · simp
        · exact absurd (h.valid label (by simp)).1 (by rw [← hZero]; decide)
    · simp only [hEq, reduceCtorEq, false_iff, not_exists]
      rintro more ⟨h, -⟩
      rcases nameWire_head h.valid (hDrop ▸ h.starts) with ⟨-, hZero⟩ | ⟨label, _, rfl, hLen, -⟩
      · omega
      · have := (h.valid label (by simp)).2
        omega
    · simp only [hEq, reduceCtorEq, false_iff, not_exists]
      rintro more ⟨h, -⟩
      rcases nameWire_head h.valid (hDrop ▸ h.starts) with
        ⟨-, hZero⟩ | ⟨label, rest, rfl, hLen, hTail⟩
      · omega
      · have hLength := hTail.length_le
        rw [length_append] at hLength
        omega
    · -- the label ends behind the limit, so the name does too
      simp only [hEq, reduceCtorEq, false_iff, not_exists]
      rintro more ⟨h, hTotal, -⟩
      obtain ⟨rest, rfl, -⟩ := (wireName_label hLabel hDrop more).mp h
      have hPos := length_nameWire_pos rest
      rw [nameWire_cons, length_append] at hTotal
      omega
    · -- the loop goes on behind the label
      have hLength := length_labelWire label
      rw [hEq, ih (by omega) (by omega) hFits]
      constructor
      · rintro ⟨rest, h, hTotal, rfl, rfl⟩
        refine ⟨label :: rest, (wireName_label hLabel hDrop _).mpr ⟨rest, rfl, h⟩, ?_, by simp, ?_⟩
        · rw [nameWire_cons, length_append]
          omega
        · rw [nameWire_cons, length_append]
          omega
      · rintro ⟨more, h, hTotal, rfl, rfl⟩
        obtain ⟨rest, rfl, hRest⟩ := (wireName_label hLabel hDrop more).mp h
        rw [nameWire_cons, length_append] at hTotal
        refine ⟨rest, hRest, by omega, by simp, ?_⟩
        rw [nameWire_cons, length_append]
        omega

theorem readNameLoop_safe {p : Bytes} {start fuel off : Nat} {labels : List Bytes}
    (hFuel : p.length < off + fuel) :
    readNameLoop p start fuel off labels ≠ .error .panic ∧
      (0 < fuel → readNameLoop p start fuel off labels ≠ .error .running) := by
  induction fuel generalizing off labels with
  | zero => simp [readNameLoop]
  | succ fuel ih =>
    rcases readNameLoop_cases p start fuel off labels with ⟨_, hEq⟩ | ⟨_, _, hEq⟩ |
      ⟨_, _, _, _, hEq⟩ | ⟨_, _, _, _, _, hEq⟩ | ⟨_, _, _, _, _, hEq⟩ |
      ⟨label, tail, hDrop, hLabel, hFits, hEq⟩
    -- only the last case does not end here
    iterate 5 simp [hEq]
    have hLength := congrArg length hDrop
    rw [length_drop, length_append, length_labelWire] at hLength
    rw [hEq]
    obtain ⟨hPanic, hRunning⟩ := @ih (off + (labelWire label).length) (labels ++ [label])
      (by rw [length_labelWire]; omega)
    exact ⟨hPanic, fun _ => hRunning (by rw [length_labelWire] at *; omega)⟩

/-! ## Names -/

/-- **`readName` ends and stays inside the packet.** -/
theorem readName_safe (p : Bytes) (off : Nat) :
    readName p off ≠ .error .panic ∧ readName p off ≠ .error .running := by
  obtain ⟨hPanic, hRunning⟩ := @readNameLoop_safe p off (p.length + 1) off [] (by omega)
  have hEnds := hRunning (Nat.succ_pos _)
  rw [readName]
  cases hLoop : readNameLoop p off (p.length + 1) off [] with
  | error e =>
    rw [hLoop] at hPanic hEnds
    simpa [Except.map] using And.intro hPanic hEnds
  | ok r => simp [Except.map]

/-- **What `readName` accepts**: the names of up to 256 octets. -/
theorem readName_ok_iff (p : Bytes) (off : Nat) (name : Bytes) (n : Nat) :
    readName p off = .ok (name, n) ↔
      ∃ labels, WireName p off labels ∧ (nameWire labels).length ≤ 256 ∧
        name = joinLabels labels ∧ n = (nameWire labels).length := by
  have hLoop := @readNameLoop_ok_iff p off (p.length + 1) off [] (by omega) le_rfl (by omega)
  rw [readName]
  constructor
  · intro h
    cases hRun : readNameLoop p off (p.length + 1) off [] with
    | error e => simp [hRun, Except.map] at h
    | ok r =>
      obtain ⟨labels, hWire, hTotal, hLabels, hLast⟩ := (hLoop r.1 r.2).mp hRun
      rw [hRun] at h
      obtain ⟨rfl, rfl⟩ := Prod.mk.inj (Except.ok.inj h)
      exact ⟨labels, hWire, by omega, by rw [hLabels, nil_append], by omega⟩
  · rintro ⟨labels, hWire, hTotal, rfl, rfl⟩
    rw [(hLoop labels (off + (nameWire labels).length)).mpr
      ⟨labels, hWire, by omega, rfl, rfl⟩]
    simp [Except.map]

/-- **`readName` accepts exactly the uncompressed names** of at most 255 octets, unless
the packet holds one of 256 octets at `off`: the limit is tested before the zero
octet is counted. -/
theorem readName_exact_iff (p : Bytes) (off : Nat) :
    readName p off ≠ .error .panic ∧ readName p off ≠ .error .running ∧
      ((∀ name n, readName p off = .ok (name, n) ↔
          ∃ labels, WireName p off labels ∧ (nameWire labels).length ≤ 255 ∧
            name = joinLabels labels ∧ n = (nameWire labels).length) ↔
        ¬ ∃ labels, WireName p off labels ∧ (nameWire labels).length = 256) := by
  refine ⟨(readName_safe p off).1, (readName_safe p off).2, ?_⟩
  constructor
  · rintro hExact ⟨labels, hWire, hLength⟩
    -- it is accepted with 256 octets consumed, which no name of at most 255 does
    have hOk := (readName_ok_iff p off (joinLabels labels) 256).mpr
      ⟨labels, hWire, hLength.le, rfl, hLength.symm⟩
    obtain ⟨_, _, hShort, _, hCount⟩ := (hExact _ _).mp hOk
    omega
  · intro hNone name n
    rw [readName_ok_iff]
    constructor
    · rintro ⟨labels, hWire, hTotal, rfl, rfl⟩
      have hNot : (nameWire labels).length ≠ 256 := fun h => hNone ⟨labels, hWire, h⟩
      exact ⟨labels, hWire, by omega, rfl, rfl⟩
    · rintro ⟨labels, hWire, hTotal, rfl, rfl⟩
      exact ⟨labels, hWire, by omega, rfl, rfl⟩

/-- A name of three labels of 63 octets and one of 62. -/
def longName : List Bytes :=
  [replicate 63 97, replicate 63 97, replicate 63 97, replicate 62 97]

/-- A packet that holds nothing but a name of 256 octets, all of which are consumed. -/
theorem long_name_accepted :
    (nameWire longName).length = 256 ∧
      readName (nameWire longName) 0 = .ok (joinLabels longName, 256) := by
  decide +kernel

/-! ## Queries -/

/-- **What `parseQuery` accepts.** -/
theorem parseQuery_ok_iff (p : Bytes) (q : ParsedQuery) :
    parseQuery p = .ok q ↔
      1 ≤ uint16 p 4 ∧ ∃ n, readName p 12 = .ok (q.name, n) ∧ 12 + n + 4 ≤ p.length ∧
        q = ⟨uint16 p 0, uint16 p 2, uint16 p 4, q.name, uint16 p (12 + n),
          uint16 p (12 + n + 2), 12⟩ := by
  rw [parseQuery]
  by_cases hShort : p.length < 12
  · simp only [hShort, if_true, reduceCtorEq, false_iff]
    rintro ⟨-, n, -, hLength, -⟩
    omega
  rw [if_neg hShort, uint16At_of_le (by omega), uint16At_of_le (by omega),
    uint16At_of_le (by omega)]
  show (if uint16 p 4 < 1 then _ else _) = _ ↔ _
  by_cases hCount : uint16 p 4 < 1
  · rw [if_pos hCount]
    exact ⟨nofun, fun h => absurd h.1 (by omega)⟩
  rw [if_neg hCount]
  cases hName : readName p 12 with
  | error e => exact ⟨nofun, fun ⟨_, _, h, _⟩ => nomatch h⟩
  | ok r =>
    obtain ⟨name, n⟩ := r
    show (if p.length < 12 + n + 4 then _ else _) = _ ↔ _
    by_cases hQuestion : p.length < 12 + n + 4
    · rw [if_pos hQuestion]
      refine ⟨nofun, fun ⟨_, m, hRead, hLength, _⟩ => ?_⟩
      obtain ⟨-, rfl⟩ := Prod.mk.inj (Except.ok.inj hRead)
      omega
    rw [if_neg hQuestion, uint16At_of_le (by omega), uint16At_of_le (by omega)]
    constructor
    · intro h
      obtain rfl := Except.ok.inj h
      exact ⟨by omega, n, rfl, by omega, rfl⟩
    · rintro ⟨-, m, hRead, -, hq⟩
      obtain ⟨hq', rfl⟩ := Prod.mk.inj (Except.ok.inj hRead)
      rw [hq, ← hq']
      rfl

theorem parseQuery_of_readName {p name : Bytes} {n : Nat} (hCount : 1 ≤ uint16 p 4)
    (hName : readName p 12 = .ok (name, n)) (hLength : 12 + n + 4 ≤ p.length) :
    parseQuery p = .ok ⟨uint16 p 0, uint16 p 2, uint16 p 4, name, uint16 p (12 + n),
      uint16 p (12 + n + 2), 12⟩ :=
  (parseQuery_ok_iff p _).mpr ⟨hCount, n, hName, hLength, rfl⟩

/-- `parseQuery` too ends and stays inside the packet. -/
theorem parseQuery_safe (p : Bytes) :
    parseQuery p ≠ .error .panic ∧ parseQuery p ≠ .error .running := by
  rw [parseQuery]
  by_cases hShort : p.length < 12
  · simp [hShort]
  rw [if_neg hShort, uint16At_of_le (by omega), uint16At_of_le (by omega),
    uint16At_of_le (by omega)]
  show (if uint16 p 4 < 1 then _ else _) ≠ _ ∧ (if uint16 p 4 < 1 then _ else _) ≠ _
  by_cases hCount : uint16 p 4 < 1
  · rw [if_pos hCount]
    exact ⟨nofun, nofun⟩
  rw [if_neg hCount]
  obtain ⟨hPanic, hRunning⟩ := readName_safe p 12
  cases hName : readName p 12 with
  | error e =>
    rw [hName] at hPanic hRunning
    exact ⟨fun h => hPanic (congrArg Except.error (Except.error.inj h)),
      fun h => hRunning (congrArg Except.error (Except.error.inj h))⟩
  | ok r =>
    obtain ⟨name, n⟩ := r
    show (if p.length < 12 + n + 4 then _ else _) ≠ _ ∧ (if p.length < 12 + n + 4 then _ else _) ≠ _
    by_cases hQuestion : p.length < 12 + n + 4
    · rw [if_pos hQuestion]
      exact ⟨nofun, nofun⟩
    · rw [if_neg hQuestion, uint16At_of_le (by omega), uint16At_of_le (by omega)]
      exact ⟨nofun, nofun⟩

end AltNet
