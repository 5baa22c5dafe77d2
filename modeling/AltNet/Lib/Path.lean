import AltNet.Lib.Text

/-!
# Slash-separated paths

`path.Clean` makes a path canonical: it drops empty elements and `.`, and lets
`..` take back the element before it. `path.Join` is `Clean` of the elements
with slashes between them, and `filepath.Rel` is the way from one path to
another.

Main results:

* `pathElems_cleanPath` — a canonical path has the elements it was made of;
* `pathElems_joinPath` — names that are joined to a path come after its
  elements;
* `pathElems_dirPath` — the directory of a path lacks its last element;
* `relPath_joined` — and `Rel` finds names that were joined again.
-/

namespace AltNet

open List

/-- A path that begins at the root. -/
def isRooted (p : GoString) : Bool := p.head? = some '/'

/-- One element of a path, over the elements before it, the last one first. A
`..` with nothing before it stays, except at the root. -/
def pushElem (rooted : Bool) (stack : List GoString) (e : GoString) : List GoString :=
  if e = [] ∨ e = ['.'] then stack
  else if e = ['.', '.'] then
    match stack with
    | [] => if rooted then [] else [e]
    | top :: rest => if top = ['.', '.'] then e :: top :: rest else rest
  else e :: stack

/-- The elements of a path that are left when it is made canonical. -/
def pathElems (p : GoString) : List GoString :=
  ((split p '/').foldl (pushElem (isRooted p)) []).reverse

/-- `path.Clean`. -/
def cleanPath (p : GoString) : GoString :=
  let body := join (pathElems p) ['/']
  if isRooted p then '/' :: body else if body = [] then ['.'] else body

/-- `path.Join`. -/
def joinPath (elems : List GoString) : GoString :=
  let given := elems.filter (· ≠ [])
  if given = [] then [] else cleanPath (join given ['/'])

/-- `filepath.Dir`: what stands before the last element. -/
def dirPath (p : GoString) : GoString := cleanPath (p.rdropWhile (· ≠ '/'))

/-- `filepath.Ext`: what begins at the last dot of the last element. -/
def pathExt (p : GoString) : GoString :=
  let last := (p.reverse.takeWhile (· ≠ '/')).reverse
  if '.' ∈ last then '.' :: (last.reverse.takeWhile (· ≠ '.')).reverse else []

/-- Two lists without what both begin with. -/
def dropCommon : List GoString → List GoString → List GoString × List GoString
  | a :: as, b :: bs => if a = b then dropCommon as bs else (a :: as, b :: bs)
  | as, bs => (as, bs)

/-- `filepath.Rel`; `none` is its error. -/
def relPath (base target : GoString) : Option GoString :=
  if pathElems base = pathElems target ∧ isRooted base = isRooted target then some ['.']
  else if isRooted base ≠ isRooted target then none
  else
    let (up, down) := dropCommon (pathElems base) (pathElems target)
    if up.head? = some ['.', '.'] then none
    else some (join (up.map (fun _ => ['.', '.']) ++ down) ['/'])

/-! ## Canonical paths -/

/-- A name: an element that stays what it is. -/
structure IsName (e : GoString) : Prop where
  ne_nil : e ≠ []
  ne_dot : e ≠ ['.']
  ne_dotdot : e ≠ ['.', '.']
  no_slash : '/' ∉ e

/-- The elements of a canonical path, the last one first: under a `..` there
are only others, and none at the root. -/
structure Canonical (rooted : Bool) (stack : List GoString) : Prop where
  ne_nil : ∀ e ∈ stack, e ≠ []
  ne_dot : ∀ e ∈ stack, e ≠ ['.']
  no_slash : ∀ e ∈ stack, '/' ∉ e
  dotdot : stack.Pairwise fun top below => top = ['.', '.'] → below = ['.', '.']
  at_root : rooted = true → ['.', '.'] ∉ stack

section Canonical

variable {rooted : Bool} {stack : List GoString} {e : GoString}

theorem Canonical.tail (h : Canonical rooted (e :: stack)) : Canonical rooted stack where
  ne_nil x hx := h.ne_nil x (mem_cons_of_mem _ hx)
  ne_dot x hx := h.ne_dot x (mem_cons_of_mem _ hx)
  no_slash x hx := h.no_slash x (mem_cons_of_mem _ hx)
  dotdot := (pairwise_cons.mp h.dotdot).2
  at_root hRoot hMem := h.at_root hRoot (mem_cons_of_mem _ hMem)

theorem Canonical.cons (h : Canonical rooted stack) (hNil : e ≠ []) (hDot : e ≠ ['.'])
    (hSlash : '/' ∉ e) (hBelow : e = ['.', '.'] → rooted = false ∧ ∀ b ∈ stack, b = ['.', '.']) :
    Canonical rooted (e :: stack) where
  ne_nil := forall_mem_cons.mpr ⟨hNil, h.ne_nil⟩
  ne_dot := forall_mem_cons.mpr ⟨hDot, h.ne_dot⟩
  no_slash := forall_mem_cons.mpr ⟨hSlash, h.no_slash⟩
  dotdot := pairwise_cons.mpr ⟨fun b hb hEq => (hBelow hEq).2 b hb, h.dotdot⟩
  at_root hRoot hMem := by
    rcases mem_cons.mp hMem with hEq | hOld
    · rw [(hBelow hEq.symm).1] at hRoot
      cases hRoot
    · exact h.at_root hRoot hOld

theorem Canonical.push (h : Canonical rooted stack) (hSlash : '/' ∉ e) :
    Canonical rooted (pushElem rooted stack e) := by
  unfold pushElem
  split
  · exact h
  rename_i hSkip
  push Not at hSkip
  split
  · split
    · split
      · exact h
      · rename_i hRelative
        exact h.cons hSkip.1 hSkip.2 hSlash fun _ => ⟨by simpa using hRelative, by simp⟩
    · rename_i top rest
      split
      · rename_i hDotDot hTop
        have hRelative : rooted = false := by
          by_contra hRoot
          exact h.at_root (by simpa using hRoot) (by rw [hTop]; exact mem_cons_self)
        refine h.cons hSkip.1 hSkip.2 hSlash fun _ => ⟨hRelative, ?_⟩
        refine forall_mem_cons.mpr ⟨hTop, fun b hb => ?_⟩
        exact (pairwise_cons.mp h.dotdot).1 b hb hTop
      · exact h.tail
  · rename_i hName
    exact h.cons hSkip.1 hSkip.2 hSlash fun hEq => absurd hEq hName

/-- On a canonical stack an element stays where it is put. -/
theorem Canonical.push_top (h : Canonical rooted (e :: stack)) :
    pushElem rooted stack e = e :: stack := by
  have hNil : e ≠ [] := h.ne_nil e mem_cons_self
  have hDot : e ≠ ['.'] := h.ne_dot e mem_cons_self
  unfold pushElem
  rw [if_neg (by simp [hNil, hDot])]
  split
  · rename_i hDotDot
    have hRelative : rooted = false := by
      by_contra hRoot
      exact h.at_root (by simpa using hRoot) (by rw [hDotDot]; exact mem_cons_self)
    cases stack with
    | nil => simp [hRelative]
    | cons top rest =>
      have hTop := (pairwise_cons.mp h.dotdot).1 top mem_cons_self hDotDot
      simp [hTop]
  · rfl

theorem Canonical.foldl_push (h : Canonical rooted stack) :
    stack.reverse.foldl (pushElem rooted) [] = stack := by
  induction stack with
  | nil => rfl
  | cons e stack ih =>
    rw [reverse_cons, foldl_append, ih h.tail]
    exact h.push_top

theorem canonical_foldl {elems : List GoString} (h : Canonical rooted stack)
    (hSlash : ∀ e ∈ elems, '/' ∉ e) : Canonical rooted (elems.foldl (pushElem rooted) stack) := by
  induction elems generalizing stack with
  | nil => exact h
  | cons e rest ih =>
    obtain ⟨hFirst, hRest⟩ := forall_mem_cons.mp hSlash
    exact ih (h.push hFirst) hRest

end Canonical

theorem canonical_pathElems (p : GoString) : Canonical (isRooted p) (pathElems p).reverse := by
  rw [pathElems, reverse_reverse]
  have hEmpty : Canonical (isRooted p) [] := ⟨by simp, by simp, by simp, List.Pairwise.nil, by simp⟩
  exact canonical_foldl hEmpty fun e he => not_mem_of_mem_split he

variable {elems names : List GoString} {p : GoString} {rooted : Bool}

theorem no_slash_pathElems {e : GoString} (h : e ∈ pathElems p) : '/' ∉ e :=
  (canonical_pathElems p).no_slash e (mem_reverse.mpr h)

theorem ne_nil_of_mem_pathElems {e : GoString} (h : e ∈ pathElems p) : e ≠ [] :=
  (canonical_pathElems p).ne_nil e (mem_reverse.mpr h)

theorem join_eq_nil (h : ∀ e ∈ elems, e ≠ []) : join elems ['/'] = [] ↔ elems = [] := by
  cases elems with
  | nil => simp [join]
  | cons e rest =>
    have hFirst : e ≠ [] := h e mem_cons_self
    cases rest with
    | nil => simp [join, hFirst]
    | cons e' rest => simp [join, intercalate_cons_cons]

/-- What a path begins with is what its first element begins with. -/
theorem head_join (hNil : ∀ e ∈ elems, e ≠ []) (hSlash : ∀ e ∈ elems, '/' ∉ e) :
    isRooted (join elems ['/']) = false := by
  refine decide_eq_false fun hHead => ?_
  cases elems with
  | nil => simp [join] at hHead
  | cons e rest =>
    obtain ⟨c, cs, rfl⟩ := exists_cons_of_ne_nil (hNil e mem_cons_self)
    have hFirst : c ≠ '/' := fun hEq => hSlash _ mem_cons_self (hEq ▸ mem_cons_self)
    cases rest with
    | nil => simp [join, hFirst] at hHead
    | cons e' rest => simp [join, intercalate_cons_cons, hFirst] at hHead

theorem isRooted_cleanPath (p : GoString) : isRooted (cleanPath p) = isRooted p := by
  unfold cleanPath
  cases hRooted : isRooted p with
  | true => rfl
  | false =>
    simp only [Bool.false_eq_true, if_false]
    split
    · rfl
    · exact head_join (fun e he => ne_nil_of_mem_pathElems he) fun e he => no_slash_pathElems he

/-- **To make a path canonical keeps its elements.** -/
theorem pathElems_cleanPath (p : GoString) : pathElems (cleanPath p) = pathElems p := by
  have hFold : (pathElems p).foldl (pushElem (isRooted p)) [] = (pathElems p).reverse := by
    have hCanonical := (canonical_pathElems p).foldl_push
    rwa [reverse_reverse] at hCanonical
  have hSplit : pathElems p ≠ [] → split (join (pathElems p) ['/']) '/' = pathElems p :=
    fun hNe => split_join hNe fun e he => no_slash_pathElems he
  have hBody : (split (join (pathElems p) ['/']) '/').foldl (pushElem (isRooted p)) [] =
      (pathElems p).reverse := by
    by_cases hNil : pathElems p = []
    · rw [hNil]
      rfl
    · rw [hSplit hNil, hFold]
  rw [pathElems, isRooted_cleanPath]
  unfold cleanPath
  cases hRooted : isRooted p with
  | true =>
    rw [hRooted] at hBody
    have hSlash : split ('/' :: join (pathElems p) ['/']) '/' =
        [] :: split (join (pathElems p) ['/']) '/' := by
      simpa [split] using splitOn_append_cons_self ([] : GoString) (join (pathElems p) ['/'])
    simp only [if_true, hSlash, foldl_cons]
    rw [show pushElem true [] [] = [] from rfl, hBody, reverse_reverse]
  | false =>
    rw [hRooted] at hBody
    simp only [Bool.false_eq_true, if_false]
    split
    · rename_i hNil
      rw [(join_eq_nil fun e he => ne_nil_of_mem_pathElems he).mp hNil]
      rfl
    · rw [hBody, reverse_reverse]

/-! ## Joining names -/

/-- Without a `..`, the elements of a path that are something come one after another. -/
theorem foldl_push_plain (hPlain : ∀ e ∈ elems, e ≠ ['.', '.']) (stack : List GoString) :
    elems.foldl (pushElem rooted) stack =
      (elems.filter fun e => e ≠ [] ∧ e ≠ ['.']).reverse ++ stack := by
  induction elems generalizing stack with
  | nil => rfl
  | cons e rest ih =>
    obtain ⟨hFirst, hRest⟩ := forall_mem_cons.mp hPlain
    rw [foldl_cons, ih hRest]
    unfold pushElem
    by_cases hSkip : e = [] ∨ e = ['.']
    · rw [if_pos hSkip, filter_cons_of_neg (by simp; tauto)]
    · rw [if_neg hSkip, if_neg hFirst, filter_cons_of_pos (by simpa using hSkip)]
      simp

theorem pathElems_plain (hPlain : ∀ e ∈ split p '/', e ≠ ['.', '.']) :
    pathElems p = (split p '/').filter fun e => e ≠ [] ∧ e ≠ ['.'] := by
  rw [pathElems, foldl_push_plain hPlain, append_nil, reverse_reverse]

theorem cleanPath_ne_nil (p : GoString) : cleanPath p ≠ [] := by
  unfold cleanPath
  dsimp only
  split
  · exact cons_ne_nil _ _
  · split
    · exact cons_ne_nil _ _
    · assumption

/-- `Join` of two paths, as the path that it makes canonical. -/
theorem joinPath_pair (hp : p ≠ []) (rel : GoString) :
    joinPath [p, rel] = cleanPath (if rel = [] then p else p ++ '/' :: rel) := by
  unfold joinPath
  by_cases hRel : rel = []
  · simp [hRel, hp, join]
  · simp [hRel, hp, join, intercalate_cons_cons]

/-- **What is joined to a path comes after its elements**, if there is no `..` in it. -/
theorem pathElems_joinPath_plain (hp : p ≠ []) {rel : GoString}
    (hPlain : ∀ e ∈ split rel '/', e ≠ ['.', '.']) :
    isRooted (joinPath [p, rel]) = isRooted p ∧
      pathElems (joinPath [p, rel]) = pathElems p ++ pathElems rel := by
  rw [joinPath_pair hp, isRooted_cleanPath, pathElems_cleanPath, pathElems_plain hPlain]
  by_cases hRel : rel = []
  · rw [if_pos hRel, hRel]
    exact ⟨rfl, (append_nil _).symm⟩
  have hRooted : isRooted (p ++ '/' :: rel) = isRooted p := by
    obtain ⟨c, cs, rfl⟩ := exists_cons_of_ne_nil hp
    rfl
  have hSplit : split (p ++ '/' :: rel) '/' = split p '/' ++ split rel '/' :=
    splitOn_append_cons_self _ _
  rw [if_neg hRel, hRooted, pathElems, hRooted, hSplit, foldl_append,
    foldl_push_plain hPlain, reverse_append, reverse_reverse, pathElems]
  exact ⟨rfl, rfl⟩

/-- **Names that are joined to a path come after its elements.** -/
theorem pathElems_joinPath (hp : p ≠ []) (hNe : names ≠ []) (hNames : ∀ e ∈ names, IsName e) :
    joinPath [p, join names ['/']] ≠ [] ∧
    isRooted (joinPath [p, join names ['/']]) = isRooted p ∧
      pathElems (joinPath [p, join names ['/']]) = pathElems p ++ names := by
  have hSplit : split (join names ['/']) '/' = names :=
    split_join hNe fun e he => (hNames e he).no_slash
  have hPlain : ∀ e ∈ split (join names ['/']) '/', e ≠ ['.', '.'] := by
    rw [hSplit]
    exact fun e he => (hNames e he).ne_dotdot
  have hElems : pathElems (join names ['/']) = names := by
    rw [pathElems_plain hPlain, hSplit]
    exact filter_eq_self.mpr fun e he => by simp [(hNames e he).ne_nil, (hNames e he).ne_dot]
  obtain ⟨hRooted, hJoined⟩ := pathElems_joinPath_plain hp hPlain
  rw [hElems] at hJoined
  refine ⟨?_, hRooted, hJoined⟩
  rw [joinPath_pair hp]
  exact cleanPath_ne_nil _

/-! ## The directory of a path -/

/-- The last element of a path is dropped, and the slash before it stays. -/
theorem rdropWhile_slash (front last : GoString) (hLast : '/' ∉ last) :
    (front ++ '/' :: last).rdropWhile (· ≠ '/') = front ++ ['/'] := by
  have hNone : ∀ c ∈ last.reverse, decide (c ≠ '/') = true := by
    intro c hc
    rw [decide_eq_true_eq]
    exact fun hEq => hLast (hEq ▸ mem_reverse.mp hc)
  rw [List.rdropWhile, reverse_append, reverse_cons, append_assoc,
    dropWhile_append_of_pos hNone]
  simp

theorem rdropWhile_no_slash (h : '/' ∉ p) : p.rdropWhile (· ≠ '/') = [] := by
  rw [rdropWhile_eq_nil_iff]
  intro c hc
  rw [decide_eq_true_eq]
  exact fun hEq => h (hEq ▸ hc)

theorem join_concat {front : List GoString} (hNe : front ≠ []) (last : GoString) :
    join (front ++ [last]) ['/'] = join front ['/'] ++ '/' :: last := by
  induction front with
  | nil => exact absurd rfl hNe
  | cons a rest ih =>
    cases rest with
    | nil => simp [join, intercalate_cons_cons]
    | cons b rest =>
      rw [cons_append, cons_append, join_cons_cons, ← cons_append,
        ih (cons_ne_nil _ _), join_cons_cons, append_assoc]
      rfl

/-- A canonical path as a text. -/
theorem cleanPath_text (p : GoString) :
    cleanPath p = if pathElems p = [] ∧ isRooted p = false then ['.'] else
      (if isRooted p then ['/'] else []) ++ join (pathElems p) ['/'] := by
  have hNil := @join_eq_nil (pathElems p) fun e he => ne_nil_of_mem_pathElems he
  unfold cleanPath
  cases isRooted p with
  | true => simp
  | false => simp [hNil]

/-- Canonical elements with a slash behind them. -/
theorem pathElems_slash (hNe : elems ≠ []) (h : Canonical rooted elems.reverse) :
    isRooted ((if rooted then ['/'] else []) ++ join elems ['/'] ++ ['/']) = rooted ∧
      pathElems ((if rooted then ['/'] else []) ++ join elems ['/'] ++ ['/']) = elems := by
  have hNil : ∀ e ∈ elems, e ≠ [] := fun e he => h.ne_nil e (mem_reverse.mpr he)
  have hSlash : ∀ e ∈ elems, '/' ∉ e := fun e he => h.no_slash e (mem_reverse.mpr he)
  have hSplit : split (join elems ['/'] ++ ['/']) '/' = elems ++ [[]] := by
    have hEnd : split (join elems ['/'] ++ ['/']) '/' = split (join elems ['/']) '/' ++ [[]] :=
      splitOn_append_cons_self _ _
    rw [hEnd, split_join hNe hSlash]
  have hFold : (elems ++ [[]]).foldl (pushElem rooted) [] = elems.reverse := by
    have hCanonical := h.foldl_push
    rw [reverse_reverse] at hCanonical
    rw [foldl_append, hCanonical]
    rfl
  cases rooted with
  | true =>
    have hFirst : split ('/' :: (join elems ['/'] ++ ['/'])) '/' = [] :: (elems ++ [[]]) := by
      rw [← hSplit]
      exact splitOn_append_cons_self [] _
    refine ⟨rfl, ?_⟩
    show pathElems ('/' :: (join elems ['/'] ++ ['/'])) = elems
    rw [pathElems, hFirst, foldl_cons]
    show (List.foldl (pushElem true) [] _).reverse = elems
    rw [hFold, reverse_reverse]
  | false =>
    have hRooted : isRooted (join elems ['/'] ++ ['/']) = false := by
      have hHead := head_join hNil hSlash
      have hSome : join elems ['/'] ≠ [] := fun hEq => hNe ((join_eq_nil hNil).mp hEq)
      rwa [isRooted, head?_append_of_ne_nil _ hSome]
    refine ⟨hRooted, ?_⟩
    show pathElems (join elems ['/'] ++ ['/']) = elems
    rw [pathElems, hRooted, hSplit, hFold, reverse_reverse]

/-- **The directory of a canonical path** has its elements but the last. -/
theorem pathElems_dirPath (p : GoString) :
    isRooted (dirPath (cleanPath p)) = isRooted p ∧
      pathElems (dirPath (cleanPath p)) = (pathElems p).dropLast := by
  rw [dirPath, isRooted_cleanPath, pathElems_cleanPath, cleanPath_text]
  have hCanonical := canonical_pathElems p
  rcases eq_nil_or_concat (pathElems p) with hNone | ⟨front, last, hElems⟩
  · rw [hNone]
    cases isRooted p with
    | true => exact ⟨rfl, rfl⟩
    | false => exact ⟨rfl, rfl⟩
  · have hLast : '/' ∉ last := no_slash_pathElems (by rw [hElems]; simp)
    rw [hElems, concat_eq_append, reverse_concat] at hCanonical
    rw [if_neg (by simp [hElems]), hElems, concat_eq_append, dropLast_concat]
    by_cases hFront : front = []
    · rw [hFront, nil_append, show join [last] ['/'] = last by simp [join]]
      cases isRooted p with
      | true =>
        have hDrop := rdropWhile_slash [] last hLast
        rw [nil_append] at hDrop
        rw [if_pos rfl, singleton_append, hDrop]
        exact ⟨rfl, rfl⟩
      | false =>
        rw [if_neg (by decide), nil_append, rdropWhile_no_slash hLast]
        exact ⟨rfl, rfl⟩
    · rw [join_concat hFront, ← append_assoc, rdropWhile_slash _ _ hLast]
      exact pathElems_slash hFront hCanonical.tail

theorem dropCommon_append (as bs : List GoString) : dropCommon as (as ++ bs) = ([], bs) := by
  induction as with
  | nil =>
    cases bs with
    | nil => rfl
    | cons b bs => rfl
  | cons a as ih =>
    rw [cons_append, dropCommon, if_pos rfl, ih]

/-- **`Rel` finds the names that were joined.** -/
theorem relPath_joined {base target : GoString} (hNe : names ≠ [])
    (hRooted : isRooted target = isRooted base)
    (hElems : pathElems target = pathElems base ++ names) :
    relPath base target = some (join names ['/']) := by
  unfold relPath
  rw [if_neg (by simp [hElems, hNe]), if_neg (by simp [hRooted]), hElems, dropCommon_append]
  rfl

end AltNet
