import AltNet.Lib.GoMap
import AltNet.Lib.Hex

/-!
# A directory of plain files

Names stand for files, and files have contents. A file that has been opened
stays the one it was, whatever becomes of its name: a write through the handle
goes to it also after a rename. No file has two names.

Main results: what each operation does to the name it is about (`read_remove`,
`openTrunc_spec`, `writeAt_spec`, `rename_spec`), and that it keeps all other
names, the files they stand for and their contents (`Keeps`).
-/

namespace AltNet

open List GoMap

structure Dir where
  names : GoMap GoString Nat
  files : List Bytes
  known : ∀ name i, names.lookup name = some i → i < files.length
  single : ∀ a b i, names.lookup a = some i → names.lookup b = some i → a = b

namespace Dir

variable (D : Dir)

def empty : Dir where
  names := ∅
  files := []
  known := fun _ _ h => by simp at h
  single := fun _ _ _ h => by simp at h

/-- `os.ReadFile`. -/
def read (name : GoString) : Option Bytes := (D.names.lookup name).bind fun i => D.files[i]?

/-- `os.Remove`. That there is no such file makes no difference. -/
def remove (name : GoString) : Dir where
  names := D.names.erase name
  files := D.files
  known := fun x i h => D.known x i (lookup_of_lookup_erase h).2
  single := fun a b i ha hb =>
    D.single a b i (lookup_of_lookup_erase ha).2 (lookup_of_lookup_erase hb).2

def truncate (i : Nat) : Dir where
  names := D.names
  files := D.files.set i []
  known := fun name j h => by rw [length_set]; exact D.known name j h
  single := D.single

def create (name : GoString) : Dir where
  names := D.names.insert name D.files.length
  files := D.files ++ [[]]
  known := by
    intro x j h
    rw [length_append, length_singleton]
    rcases lookup_insert_cases h with ⟨-, rfl⟩ | ⟨-, hOld⟩
    · omega
    · exact Nat.lt_succ_of_lt (D.known x j hOld)
  single := by
    intro a b j ha hb
    rcases lookup_insert_cases ha with ⟨rfl, rfl⟩ | ⟨-, hOld⟩
    · rcases lookup_insert_cases hb with ⟨rfl, -⟩ | ⟨-, hOld⟩
      · rfl
      · exact absurd (D.known b _ hOld) (Nat.lt_irrefl _)
    · rcases lookup_insert_cases hb with ⟨rfl, rfl⟩ | ⟨-, hOld'⟩
      · exact absurd (D.known a _ hOld) (Nat.lt_irrefl _)
      · exact D.single a b j hOld hOld'

/-- `os.OpenFile` with `O_CREATE` and `O_TRUNC`: the directory, and the file
that the handle is for. -/
def openTrunc (name : GoString) : Dir × Nat :=
  match D.names.lookup name with
  | some i => (D.truncate i, i)
  | none => (D.create name, D.files.length)

/-- `write` at an offset. What lies between the end of the file and the offset
is filled with zeros. -/
def overwrite (old : Bytes) (off : Nat) (bs : Bytes) : Bytes :=
  (old ++ List.replicate (off - old.length) 0).take off ++ bs ++ old.drop (off + bs.length)

def writeAt (i off : Nat) (bs : Bytes) : Dir where
  names := D.names
  files := D.files.modify i fun old => overwrite old off bs
  known := fun name j h => by rw [length_modify]; exact D.known name j h
  single := D.single

def move {src : GoString} {i : Nat} (h : D.names.lookup src = some i) (dst : GoString) : Dir where
  names := (D.names.erase src).insert dst i
  files := D.files
  known := by
    intro x j hx
    rcases lookup_insert_cases hx with ⟨-, rfl⟩ | ⟨-, hx⟩
    · exact D.known src _ h
    · exact D.known x j (lookup_of_lookup_erase hx).2
  single := by
    -- `src` had the file, so no other name has it
    have hFree : ∀ b, (D.names.erase src).lookup b ≠ some i := by
      intro b hb
      obtain ⟨hNe, hb⟩ := lookup_of_lookup_erase hb
      exact hNe (D.single b src i hb h)
    intro a b j ha hb
    rcases lookup_insert_cases ha with ⟨rfl, rfl⟩ | ⟨-, hOld⟩
    · rcases lookup_insert_cases hb with ⟨rfl, -⟩ | ⟨-, hOld⟩
      · rfl
      · exact absurd hOld (hFree b)
    rcases lookup_insert_cases hb with ⟨rfl, rfl⟩ | ⟨-, hOld'⟩
    · exact absurd hOld (hFree a)
    · exact D.single a b j (lookup_of_lookup_erase hOld).2
        (lookup_of_lookup_erase hOld').2

/-- `os.Rename`; `none` when there is no such file. -/
def rename (src dst : GoString) : Option Dir :=
  match h : D.names.lookup src with
  | none => none
  | some _ => some (D.move h dst)

variable {D} {D' : Dir} {name x : GoString}

/-- A name stands for the same file with the same content. -/
structure Keeps (D D' : Dir) (x : GoString) : Prop where
  file : D'.names.lookup x = D.names.lookup x
  read : D'.read x = D.read x

/-- What changes the content of one file keeps the names of others. -/
theorem keeps_of_files {i : Nat} (hNames : D'.names = D.names)
    (hFiles : ∀ j, j ≠ i → D'.files[j]? = D.files[j]?) (hOther : D.names.lookup x ≠ some i) :
    Keeps D D' x := by
  refine ⟨by rw [hNames], ?_⟩
  rw [Dir.read, Dir.read, hNames]
  cases hx : D.names.lookup x with
  | none => rfl
  | some j => exact hFiles j fun hEq => hOther (hx.trans (congrArg some hEq))

/-! ## Removing -/

theorem read_remove : (D.remove name).read name = none := by
  rw [Dir.read, show (D.remove name).names.lookup name = none from Finmap.lookup_erase _ _]
  rfl

theorem keeps_remove (h : x ≠ name) : Keeps D (D.remove name) x := by
  have hFile : (D.remove name).names.lookup x = D.names.lookup x := Finmap.lookup_erase_ne h
  refine ⟨hFile, ?_⟩
  rw [Dir.read, hFile]
  rfl

/-! ## Opening and writing -/

/-- An opened file is empty. -/
theorem openTrunc_spec (D : Dir) (name : GoString) :
    (D.openTrunc name).1.names.lookup name = some (D.openTrunc name).2 ∧
      (D.openTrunc name).1.read name = some [] := by
  unfold openTrunc
  split
  case h_1 i hName =>
    refine ⟨hName, ?_⟩
    rw [Dir.read, show (D.truncate i).names.lookup name = some i from hName]
    exact getElem?_set_self (D.known name i hName)
  case h_2 hName =>
    have hNew : (D.create name).names.lookup name = some D.files.length := Finmap.lookup_insert _
    refine ⟨hNew, ?_⟩
    rw [Dir.read, hNew]
    exact getElem?_concat_length

theorem keeps_openTrunc (h : x ≠ name) : Keeps D (D.openTrunc name).1 x := by
  unfold openTrunc
  split
  case h_1 i hName =>
    exact keeps_of_files rfl (fun j hj => getElem?_set_ne hj.symm)
      fun hx => h (D.single x name i hx hName)
  case h_2 hName =>
    have hFile : (D.create name).names.lookup x = D.names.lookup x := Finmap.lookup_insert_of_ne _ h
    refine ⟨hFile, ?_⟩
    rw [Dir.read, Dir.read, hFile]
    cases hx : D.names.lookup x with
    | none => rfl
    | some j => exact getElem?_append_left (D.known x j hx)

/-- Writing on where the file ends appends. -/
theorem overwrite_take {value : Bytes} {off n : Nat} (h : off ≤ value.length) :
    overwrite (value.take off) off ((value.drop off).take n) = value.take (off + n) := by
  have hLength : (value.take off).length = off := length_take_of_le h
  have hRest : (value.take off).drop (off + ((value.drop off).take n).length) = [] :=
    drop_eq_nil_of_le (by omega)
  rw [overwrite, hRest, append_nil, hLength, Nat.sub_self, replicate_zero,
    append_nil, take_take, Nat.min_self, take_add]

theorem writeAt_spec {i off : Nat} {bs old : Bytes} (hName : D.names.lookup name = some i)
    (hOld : D.read name = some old) :
    (D.writeAt i off bs).read name = some (overwrite old off bs) := by
  rw [Dir.read, hName] at hOld
  rw [Dir.read, show (D.writeAt i off bs).names.lookup name = some i from hName]
  show (D.files.modify i fun old => overwrite old off bs)[i]? = _
  rw [getElem?_modify_eq, show D.files[i]? = some old from hOld]
  rfl

theorem keeps_writeAt {i off : Nat} {bs : Bytes} (hName : D.names.lookup name = some i)
    (h : x ≠ name) : Keeps D (D.writeAt i off bs) x :=
  keeps_of_files rfl (fun _ hj => getElem?_modify_ne _ _ hj.symm)
    fun hx => h (D.single x name i hx hName)

/-! ## Renaming -/

/-- What stood under the one name stands under the other. -/
theorem rename_spec {src dst : GoString} (h : D.rename src dst = some D') :
    D'.read dst = D.read src := by
  unfold rename at h
  split at h
  case h_1 => cases h
  case h_2 i hSrc =>
    cases h
    have hDst : (D.move hSrc dst).names.lookup dst = D.names.lookup src :=
      (Finmap.lookup_insert _).trans hSrc.symm
    rw [Dir.read, Dir.read, hDst]
    rfl

theorem keeps_rename {src dst : GoString} (h : D.rename src dst = some D') (hSrc : x ≠ src)
    (hDst : x ≠ dst) : Keeps D D' x := by
  unfold rename at h
  split at h
  case h_1 => cases h
  case h_2 i hName =>
    cases h
    have hFile : (D.move hName dst).names.lookup x = D.names.lookup x := by
      show ((D.names.erase src).insert dst i).lookup x = _
      rw [Finmap.lookup_insert_of_ne _ hDst, Finmap.lookup_erase_ne hSrc]
    refine ⟨hFile, ?_⟩
    rw [Dir.read, Dir.read, hFile]
    rfl

end Dir

end AltNet
