import AltNet.Lib.GoMap
import AltNet.Name.Grammar

/-!
# AltNet — the registrar's registry (`apps/registrar/registrar.go`)

The registrar keeps a map from canonical names to registrations and publishes
a signed name record for every change. Each handler below is the section of
the source's handler that runs under the registry's lock, together with the
checks before it; requests are taken after the method, token and JSON checks,
which reject without any effect. A handler returns the registry, the response
and the name record it published, if any.

Times are in nanoseconds, and a record's version is the time it was signed at.
A publication fails exactly when the name breaks the grammar; the store behind
it accepts every record.
-/

namespace AltNet

/-- `RegistrationRecord`. -/
structure RegistrationRecord where
  name : GoString
  root : GoString
  owner : GoString
  registeredAt : Nat
  updatedAt : Nat
  version : Nat
  deriving DecidableEq

/-- The registry: canonical name to record. -/
abbrev Registry := GoMap GoString RegistrationRecord

/-- The name record `Publish` puts into the DHT, without its signature and
its times. -/
structure Announcement where
  name : GoString
  root : NodeID
  version : Nat
  deriving DecidableEq

/-- The errors of `ValidateDomain`. -/
inductive DomainError where
  | empty
  | tooShort
  | notAlt (canonical : GoString)
  | emptyPrefix
  deriving DecidableEq

/-- `.alt`. -/
def altSuffix : GoString := ['.', 'a', 'l', 't']

/-- `ValidateDomain`. -/
def validateDomain (canonical : GoString) : Option DomainError :=
  if canonical = [] then some .empty
  else if (utf8 canonical).length < 2 then some .tooShort
  else if ¬ altSuffix <:+ canonical then some (.notAlt canonical)
  else if canonical = altSuffix then some .emptyPrefix
  else none

/-- What a request can be refused for. -/
inductive ApiError where
  | domain (e : DomainError)
  | invalidRoot
  | alreadyRegistered (canonical : GoString)
  | notRegistered (canonical : GoString)
  | publishFailed (e : NameError)
  deriving DecidableEq

/-- The HTTP status and the body of a response. -/
structure ApiResponse where
  status : Nat
  body : Except ApiError Announcement

/-- `RegisterRequest`. -/
structure RegisterRequest where
  name : GoString
  root : GoString
  owner : GoString
  deriving DecidableEq

/-- `UpdateRequest`. -/
structure UpdateRequest where
  name : GoString
  root : GoString
  deriving DecidableEq

/-- `time.Time.Unix` of a time in nanoseconds. -/
def unixSeconds (now : Nat) : Nat := now / 1000000000

/-- `name.Publish`, which canonicalises the name it is given. -/
def publish (name : GoString) (root : NodeID) (version : Nat) : Except NameError Announcement :=
  match validName name with
  | some e => .error e
  | none => .ok ⟨canonicalName name, root, version⟩

/-- `handleRegister`. -/
def handleRegister (reg : Registry) (req : RegisterRequest) (now : Nat) :
    Registry × ApiResponse × Option Announcement :=
  let canonical := canonicalName req.name
  match validateDomain canonical with
  | some e => (reg, ⟨400, .error (.domain e)⟩, none)
  | none =>
    match idFromHex req.root with
    | none => (reg, ⟨400, .error .invalidRoot⟩, none)
    | some rootKey =>
      if (reg.lookup canonical).isSome then
        (reg, ⟨409, .error (.alreadyRegistered canonical)⟩, none)
      else
        match publish canonical rootKey now with
        | .error e => (reg, ⟨500, .error (.publishFailed e)⟩, none)
        | .ok dhtRec =>
          (reg.insert canonical
            { name := canonical, root := req.root, owner := req.owner,
              registeredAt := unixSeconds now, updatedAt := unixSeconds now,
              version := dhtRec.version },
            ⟨201, .ok dhtRec⟩, some dhtRec)

/-- `handleUpdate`. -/
def handleUpdate (reg : Registry) (req : UpdateRequest) (now : Nat) :
    Registry × ApiResponse × Option Announcement :=
  let canonical := canonicalName req.name
  match idFromHex req.root with
  | none => (reg, ⟨400, .error .invalidRoot⟩, none)
  | some rootKey =>
    match reg.lookup canonical with
    | none => (reg, ⟨404, .error (.notRegistered canonical)⟩, none)
    | some rec =>
      match publish canonical rootKey now with
      | .error e => (reg, ⟨500, .error (.publishFailed e)⟩, none)
      | .ok dhtRec =>
        (reg.insert canonical
          { rec with root := req.root, updatedAt := unixSeconds now, version := dhtRec.version },
          ⟨200, .ok dhtRec⟩, some dhtRec)

/-- The lock-held section of `handleUnregister` and of `handleRevoke`. -/
def removeName (reg : Registry) (name : GoString) : Registry := reg.erase (canonicalName name)

/-! ## What the handlers do -/

/-- A registrable name: canonical and within the grammar. -/
structure Registrable (n : GoString) : Prop where
  canonical : canonicalName n = n
  valid : validName n = none

theorem publish_ok {name : GoString} {root : NodeID} {version : Nat} {a : Announcement}
    (h : publish name root version = .ok a) :
    validName name = none ∧ a = ⟨canonicalName name, root, version⟩ := by
  rw [publish] at h
  split at h
  · cases h
  · cases h
    exact ⟨‹_›, rfl⟩

theorem Registrable.publish {n : GoString} (h : Registrable n) (root : NodeID) (version : Nat) :
    publish n root version = .ok ⟨n, root, version⟩ := by
  rw [AltNet.publish, h.valid, h.canonical]

/-- A domain that passes the check is canonical already. -/
theorem validateDomain_canonical {name : GoString}
    (h : validateDomain (canonicalName name) = none) :
    canonicalName (canonicalName name) = canonicalName name := by
  have hSuffix : altSuffix <:+ canonicalName name := by
    rw [validateDomain] at h
    split at h
    · cases h
    split at h
    · cases h
    split at h
    · cases h
    · rename_i hAlt
      exact not_not.mp hAlt
  have hLast : (canonicalName name).getLast? = some 't' := by
    obtain ⟨front, hEq⟩ := hSuffix
    rw [← hEq]
    simp [altSuffix]
  apply canonicalName_idem
  · rw [hLast]
    decide
  · intro c hc
    rw [hLast] at hc
    cases hc
    decide

/-- **What `handleRegister` can do**: nothing, or register a new name under
the root it publishes. -/
theorem handleRegister_cases (reg : Registry) (req : RegisterRequest) (now : Nat) :
    ((handleRegister reg req now).1 = reg ∧ (handleRegister reg req now).2.2 = none) ∨
      ∃ n rec root, Registrable n ∧ reg.lookup n = none ∧ rec.name = n ∧
        idFromHex rec.root = some root ∧ rec.version = now ∧
        (handleRegister reg req now).1 = reg.insert n rec ∧
        (handleRegister reg req now).2.2 = some ⟨n, root, now⟩ := by
  rw [handleRegister]
  split
  · exact .inl ⟨rfl, rfl⟩
  rename_i hDomain
  split
  · exact .inl ⟨rfl, rfl⟩
  rename_i rootKey hRoot
  split
  · exact .inl ⟨rfl, rfl⟩
  rename_i hFree
  split
  · exact .inl ⟨rfl, rfl⟩
  rename_i a hPublish
  obtain ⟨hValid, rfl⟩ := publish_ok hPublish
  have hCanon := validateDomain_canonical hDomain
  refine .inr ⟨_, _, rootKey, ⟨hCanon, hValid⟩, ?_, rfl, hRoot, rfl, rfl, ?_⟩
  · simpa using hFree
  · rw [hCanon]

/-- **What `handleUpdate` can do**: nothing, or point a registered name at the
root it publishes. -/
theorem handleUpdate_cases (reg : Registry) (req : UpdateRequest) (now : Nat)
    (hNames : ∀ n, n ∈ reg → Registrable n) :
    ((handleUpdate reg req now).1 = reg ∧ (handleUpdate reg req now).2.2 = none) ∨
      ∃ n old rec root, reg.lookup n = some old ∧ rec.name = old.name ∧
        idFromHex rec.root = some root ∧ rec.version = now ∧
        (handleUpdate reg req now).1 = reg.insert n rec ∧
        (handleUpdate reg req now).2.2 = some ⟨n, root, now⟩ := by
  rw [handleUpdate]
  split
  · exact .inl ⟨rfl, rfl⟩
  rename_i rootKey hRoot
  split
  · exact .inl ⟨rfl, rfl⟩
  rename_i old hOld
  split
  · exact .inl ⟨rfl, rfl⟩
  rename_i a hPublish
  obtain ⟨-, rfl⟩ := publish_ok hPublish
  have hCanon := (hNames _ (Finmap.mem_of_lookup_eq_some hOld)).canonical
  refine .inr ⟨_, old,
    { old with root := req.root, updatedAt := unixSeconds now, version := now },
    rootKey, hOld, rfl, hRoot, rfl, rfl, ?_⟩
  rw [hCanon]

end AltNet
