import AltNet.Crypto

/-!
# AltNet — names (`core/name/name.go`)

The canonical form of a name, the grammar `validName` checks it against, and
the key a name's record is stored under.

`CanonicalName` strips one trailing dot only and trims before it strips, so it
is not idempotent on every text (`"a .alt .."` loses one dot at a time). It is
on texts whose canonical form ends in a character that is neither a dot nor
white space (`canonicalName_idem`), which is what `Publish` relies on when it
canonicalises a canonical name once more.
-/

namespace AltNet

/-- `strings.TrimSuffix(s, ".")`. -/
def trimDot (s : GoString) : GoString := if s.getLast? = some '.' then s.dropLast else s

/-- `CanonicalName`. -/
def canonicalName (name : GoString) : GoString := trimDot (toLower (trimSpace name))

/-- `RecordKey`. -/
def recordKey (cr : Crypto) (name : GoString) : NodeID := cr.sha256 (utf8 (canonicalName name))

/-- `MaxNameLen`. -/
def maxNameLen : Nat := 253

/-- The errors of `validName`. -/
inductive NameError where
  | empty
  | tooLong
  | edgeDot
  | emptyLabel
  | labelTooLong (label : GoString)
  | labelHyphen (label : GoString)
  | badChar (c : Char)
  deriving DecidableEq

/-- The characters of a label. -/
def isLabelChar (c : Char) : Bool :=
  c = '-' || (decide ('a' ≤ c) && decide (c ≤ 'z')) || (decide ('0' ≤ c) && decide (c ≤ '9'))

/-- The body of the loop of `validName`. -/
def labelError (label : GoString) : Option NameError :=
  if label = [] then some .emptyLabel
  else if 63 < (utf8 label).length then some (.labelTooLong label)
  else if label.head? = some '-' ∨ label.getLast? = some '-' then some (.labelHyphen label)
  else (label.find? fun c => !isLabelChar c).map .badChar

/-- `validName`; `none` is Go's `nil`. -/
def validName (name : GoString) : Option NameError :=
  let c := canonicalName name
  if c = [] then some .empty
  else if maxNameLen < (utf8 c).length then some .tooLong
  else if c.head? = some '.' ∨ c.getLast? = some '.' then some .edgeDot
  else (split c '.').findSome? labelError

/-! ## Canonical names -/

theorem trimDot_prefix (s : GoString) : trimDot s <+: s := by
  rw [trimDot]
  split
  · exact List.dropLast_prefix s
  · exact List.prefix_refl s

/-- A canonical name does not start with white space. -/
theorem head_canonicalName (name : GoString) :
    ∀ c ∈ (canonicalName name).head?, isSpaceRune c = false := by
  intro c hc
  obtain ⟨rest, hRest⟩ := trimDot_prefix (toLower (trimSpace name))
  apply head_toLower (head_trimSpace name) c
  have hFirst : (trimDot (toLower (trimSpace name))).head? = some c := hc
  rw [← hRest, List.head?_append, hFirst]
  rfl

/-- A canonical name that ends in neither a dot nor white space is its own
canonical form. -/
theorem canonicalName_idem {name : GoString}
    (hDot : (canonicalName name).getLast? ≠ some '.')
    (hSpace : ∀ c ∈ (canonicalName name).getLast?, isSpaceRune c = false) :
    canonicalName (canonicalName name) = canonicalName name := by
  have hLower : toLower (canonicalName name) = canonicalName name := by
    obtain ⟨rest, hRest⟩ := trimDot_prefix (toLower (trimSpace name))
    have hIdem := toLower_idem (trimSpace name)
    rw [← hRest] at hIdem
    simp only [toLower, List.map_append] at hIdem
    exact (List.append_inj hIdem (by simp)).1
  rw [canonicalName, trimSpace_of_ends (head_canonicalName name) hSpace, hLower, trimDot,
    if_neg hDot]

end AltNet
