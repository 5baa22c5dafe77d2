import AltNet.Lib.Path
import AltNet.Lib.Hex

/-!
# A file system

Files and directories under canonical paths, with `os.MkdirAll` and
`os.WriteFile`. The root and the working directory are always there; whatever
else can go wrong with a call than a file in the place of a directory, or a
directory in the place of a file, does not happen.

Main results:

* `mkdirAll_spec` — what `MkdirAll` makes where no file is in its way;
* `Holding.write` — a file whose path is apart from those of the files that are
  there is written beside them.
-/

namespace AltNet

open List Function

/-- A canonical path: whether it begins at the root, and its elements. -/
abbrev Location := Bool × List GoString

def location (p : GoString) : Location := (isRooted p, pathElems p)

inductive FsNode where
  | dir
  | file (data : Bytes)
  deriving DecidableEq

abbrev FileSystem := Location → Option FsNode

namespace FileSystem

/-- `os.MkdirAll` of a path with these elements, the last one first. -/
def mkdirRev (fs : FileSystem) (rooted : Bool) : List GoString → Option FileSystem
  | [] => some fs
  | e :: rest =>
    match fs (rooted, (e :: rest).reverse) with
    | some .dir => some fs
    | some (.file _) => none
    | none =>
      (mkdirRev fs rooted rest).map fun fs =>
        Function.update fs (rooted, (e :: rest).reverse) (some .dir)

/-- `os.MkdirAll`. -/
def mkdirAll (fs : FileSystem) (loc : Location) : Option FileSystem :=
  fs.mkdirRev loc.1 loc.2.reverse

/-- `os.WriteFile`. -/
def writeFile (fs : FileSystem) (loc : Location) (data : Bytes) : Option FileSystem :=
  if loc.2 = [] ∨ fs loc = some .dir then none
  else if loc.2.dropLast = [] ∨ fs (loc.1, loc.2.dropLast) = some .dir then
    some (Function.update fs loc (some (.file data)))
  else none

/-- No file is where a directory of this path would have to be. -/
def Passable (fs : FileSystem) (loc : Location) : Prop :=
  ∀ p, p <+: loc.2 → p ≠ [] → ∀ data, fs (loc.1, p) ≠ some (.file data)

/-- After `MkdirAll`: what was there is there, and what is new is a directory
on the path. -/
structure Made (fs fs' : FileSystem) (loc : Location) : Prop where
  dir : loc.2 ≠ [] → fs' loc = some .dir
  rest : ∀ l, fs' l = fs l ∨ fs l = none ∧ fs' l = some .dir ∧ l.1 = loc.1 ∧ l.2 <+: loc.2

theorem mkdirRev_spec {fs : FileSystem} {rooted : Bool} {rev : List GoString}
    (h : fs.Passable (rooted, rev.reverse)) :
    ∃ fs', fs.mkdirRev rooted rev = some fs' ∧ Made fs fs' (rooted, rev.reverse) := by
  induction rev with
  | nil => exact ⟨fs, rfl, fun hNe => absurd rfl hNe, fun l => .inl rfl⟩
  | cons e rest ih =>
    have hPrefix : rest.reverse <+: (e :: rest).reverse := by simp
    unfold mkdirRev
    cases hHere : fs (rooted, (e :: rest).reverse) with
    | some node =>
      cases node with
      | dir => exact ⟨fs, rfl, fun _ => hHere, fun l => .inl rfl⟩
      | file data => exact absurd hHere (h _ (prefix_refl _) (by simp) data)
    | none =>
      obtain ⟨fs', hMade, hDir, hRest⟩ := ih fun p hp hNe => h p (hp.trans hPrefix) hNe
      refine ⟨_, by rw [hMade]; rfl, fun _ => update_self _ _ _, fun l => ?_⟩
      by_cases hl : l = (rooted, (e :: rest).reverse)
      · subst hl
        exact .inr ⟨hHere, update_self _ _ _, rfl, prefix_refl _⟩
      rw [update_of_ne hl]
      rcases hRest l with hSame | ⟨hNone, hNew, hRooted, hOn⟩
      · exact .inl hSame
      · exact .inr ⟨hNone, hNew, hRooted, hOn.trans hPrefix⟩

/-- **`MkdirAll` succeeds** where no file is in its way. -/
theorem mkdirAll_spec {fs : FileSystem} {loc : Location} (h : fs.Passable loc) :
    ∃ fs', fs.mkdirAll loc = some fs' ∧ Made fs fs' loc := by
  have hRev : fs.Passable (loc.1, loc.2.reverse.reverse) := by
    rw [reverse_reverse]
    exact h
  have hSpec := mkdirRev_spec hRev
  rw [reverse_reverse] at hSpec
  exact hSpec

/-- What was there stays. -/
theorem Made.kept {fs fs' : FileSystem} {loc l : Location} {node : FsNode} (h : Made fs fs' loc)
    (hNode : fs l = some node) : fs' l = some node := by
  rcases h.rest l with hSame | ⟨hNone, -⟩
  · rw [hSame, hNode]
  · rw [hNone] at hNode
    cases hNode

/-- No file comes in anybody's way. -/
theorem Made.passable {fs fs' : FileSystem} {loc l : Location} (h : Made fs fs' loc)
    (hPassable : fs.Passable l) : fs'.Passable l := by
  intro p hp hNe data hFile
  rcases h.rest (l.1, p) with hSame | ⟨-, hDir, -⟩
  · exact hPassable p hp hNe data (hSame.symm.trans hFile)
  · rw [hDir] at hFile
    cases hFile

end FileSystem

/-! ## Writing into a vacant directory -/

/-- The place under a directory. -/
def Location.under (base : Location) (names : List GoString) : Location := (base.1, base.2 ++ names)

/-- Files with their paths, none of which is the beginning of another. -/
def Apart (files : List (List GoString × Bytes)) : Prop :=
  files.Pairwise fun f g => ¬ f.1 <+: g.1 ∧ ¬ g.1 <+: f.1

/-- Under `base` there are these files, the directories that they are in, and
nothing else. -/
structure Holding (fs : FileSystem) (base : Location) (files : List (List GoString × Bytes)) :
    Prop where
  passable : fs.Passable base
  there : base.2 = [] ∨ fs base = some .dir
  kept : ∀ f ∈ files, fs (base.under f.1) = some (.file f.2)
  only : ∀ names node, names ≠ [] → fs (base.under names) = some node →
    (∃ data, node = .file data ∧ (names, data) ∈ files) ∨
      node = .dir ∧ ∃ f ∈ files, names <+: f.1

theorem under_injective (base : Location) : Function.Injective base.under := by
  intro names names' h
  exact append_cancel_left (Prod.mk.inj h).2

/-- The directory that a file under `base` is in. -/
theorem under_dropLast (base : Location) {names : List GoString} (hNe : names ≠ []) :
    (base.under names).2.dropLast = base.2 ++ names.dropLast :=
  dropLast_append_of_ne_nil hNe

/-- A beginning of a path under `base` is a beginning of `base`, or under it. -/
theorem prefix_under {base : Location} {names p : List GoString} (h : p <+: (base.under names).2) :
    p <+: base.2 ∨ ∃ q, p = base.2 ++ q ∧ q <+: names := by
  rcases Nat.le_total p.length base.2.length with hShort | hLong
  · exact .inl (prefix_of_prefix_length_le h (prefix_append _ _) hShort)
  · obtain ⟨q, rfl⟩ := prefix_of_prefix_length_le (prefix_append base.2 names) h hLong
    exact .inr ⟨q, rfl, (prefix_append_right_inj _).mp h⟩

namespace Holding

variable {fs : FileSystem} {base : Location} {files : List (List GoString × Bytes)}

/-- A vacant place holds no files once it has been made. -/
theorem nil {fs' : FileSystem} (hPassable : fs.Passable base)
    (hEmpty : ∀ names, names ≠ [] → fs (base.under names) = none)
    (hMade : FileSystem.Made fs fs' base) : Holding fs' base [] where
  passable := hMade.passable hPassable
  there := (em (base.2 = [])).imp_right hMade.dir
  kept f hf := by cases hf
  only names node hNe hNode := by
    rcases hMade.rest (base.under names) with hSame | ⟨-, -, -, hOn⟩
    · rw [hSame, hEmpty names hNe] at hNode
      cases hNode
    have hLength := hOn.length_le
    have hPos := length_pos_of_ne_nil hNe
    rw [Location.under, length_append] at hLength
    omega

variable (h : Holding fs base files)

include h

theorem passable_under {names : List GoString} (hApart : ∀ g ∈ files, ¬ g.1 <+: names) :
    fs.Passable (base.under names) := by
  intro p hp hNe data hFile
  rcases prefix_under hp with hBase | ⟨q, rfl, hq⟩
  · exact h.passable p hBase hNe data hFile
  by_cases hNil : q = []
  · subst hNil
    rw [append_nil] at hFile hNe
    exact h.passable base.2 (prefix_refl _) hNe data hFile
  · rcases h.only q _ hNil hFile with ⟨data', hData, hMem⟩ | ⟨hDir, -⟩
    · exact hApart _ hMem hq
    · cases hDir

/-- **One more file.** If its path is apart from those of the files that are
there, `MkdirAll` of its directory and `WriteFile` succeed, and it is there
too. -/
theorem write {f : List GoString × Bytes} (hNe : f.1 ≠ [])
    (hApart : ∀ g ∈ files, ¬ f.1 <+: g.1 ∧ ¬ g.1 <+: f.1) :
    ∃ fs₁ fs₂, fs.mkdirAll (base.1, (base.under f.1).2.dropLast) = some fs₁ ∧
      fs₁.writeFile (base.under f.1) f.2 = some fs₂ ∧ Holding fs₂ base (f :: files) := by
  have hParent : (base.1, (base.under f.1).2.dropLast) = base.under f.1.dropLast := by
    rw [under_dropLast base hNe]
    rfl
  have hInside : f.1.dropLast <+: f.1 := dropLast_prefix _
  obtain ⟨fs₁, hMkdir, hMade⟩ := FileSystem.mkdirAll_spec
    (h.passable_under fun g hg hPre => (hApart g hg).2 (hPre.trans hInside))
  -- What `MkdirAll` has made under `base` is on the way to the file.
  have hOld : ∀ names, ¬ names <+: f.1.dropLast →
      fs₁ (base.under names) = fs (base.under names) := by
    intro names hOff
    rcases hMade.rest (base.under names) with hSame | ⟨-, -, -, hOn⟩
    · exact hSame
    · exact absurd ((prefix_append_right_inj _).mp hOn) hOff
  have hTarget : fs₁ (base.under f.1) = fs (base.under f.1) := by
    refine hOld f.1 fun hPre => ?_
    have hLength := hPre.length_le
    rw [length_dropLast] at hLength
    have := length_pos_of_ne_nil hNe
    omega
  have hNotDir : fs₁ (base.under f.1) ≠ some .dir := by
    rw [hTarget]
    intro hDir
    rcases h.only f.1 _ hNe hDir with ⟨data, hData, -⟩ | ⟨-, g, hg, hPre⟩
    · cases hData
    · exact (hApart g hg).1 hPre
  have hBaseNe : ∀ p, p <+: base.2 → (base.1, p) ≠ base.under f.1 := by
    intro p hp hEq
    have hLength := hp.length_le
    rw [(Prod.mk.inj hEq).2, length_append] at hLength
    have := length_pos_of_ne_nil hNe
    omega
  refine ⟨fs₁, Function.update fs₁ (base.under f.1) (some (.file f.2)), ?_, ?_, ?_⟩
  · rw [hParent]
    exact hMkdir
  · have hElems : (base.under f.1).2 ≠ [] := by simp [Location.under, hNe]
    rw [FileSystem.writeFile, if_neg (by simp [hElems, hNotDir]), if_pos]
    by_cases hTop : (base.under f.1).2.dropLast = []
    · exact .inl hTop
    refine .inr ?_
    show fs₁ (base.1, (base.under f.1).2.dropLast) = some .dir
    rw [hParent]
    rw [under_dropLast base hNe] at hTop
    exact hMade.dir hTop
  · constructor
    · intro p hp hpNe data hFile
      rw [update_of_ne (hBaseNe p hp)] at hFile
      exact hMade.passable h.passable p hp hpNe data hFile
    · rcases h.there with hTop | hDir
      · exact .inl hTop
      · exact .inr
          (by rw [update_of_ne (hBaseNe _ (prefix_refl _)), hMade.kept hDir])
    · intro g hg
      rcases mem_cons.mp hg with rfl | hOlder
      · exact update_self _ _ _
      have hOther : base.under g.1 ≠ base.under f.1 := fun hEq =>
        (hApart g hOlder).1 (under_injective base hEq ▸ prefix_refl _)
      rw [update_of_ne hOther]
      exact hMade.kept (h.kept g hOlder)
    · intro names node hNames hNode
      by_cases hSelf : names = f.1
      · subst hSelf
        rw [update_self] at hNode
        exact .inl ⟨f.2, (Option.some.inj hNode).symm, mem_cons_self⟩
      rw [update_of_ne fun hEq => hSelf (under_injective base hEq)] at hNode
      rcases hMade.rest (base.under names) with hSame | ⟨-, hDir, -, hOn⟩
      · rcases h.only names node hNames (hSame.symm.trans hNode) with
          ⟨data, hData, hMem⟩ | ⟨hDir, g, hg, hPre⟩
        · exact .inl ⟨data, hData, mem_cons_of_mem _ hMem⟩
        · exact .inr ⟨hDir, g, mem_cons_of_mem _ hg, hPre⟩
      · rw [hDir] at hNode
        refine .inr ⟨(Option.some.inj hNode).symm, f, mem_cons_self, ?_⟩
        exact ((prefix_append_right_inj _).mp hOn).trans hInside

/-- The files under `base` are these. -/
theorem file_iff {names : List GoString} {data : Bytes} (hNe : names ≠ []) :
    fs (base.under names) = some (.file data) ↔ (names, data) ∈ files := by
  constructor
  · intro hFile
    rcases h.only names _ hNe hFile with ⟨data', hData, hMem⟩ | ⟨hDir, -⟩
    · cases hData
      exact hMem
    · cases hDir
  · exact fun hMem => h.kept _ hMem

end Holding

end AltNet
