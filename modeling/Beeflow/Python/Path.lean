import Mathlib.Data.List.DropRight
import Mathlib.Data.List.Infix
import Beeflow.Lib.Fields

/-!
# Paths

`os.path.split` and `os.path.join` of POSIX, on the characters of a path, and
the names that the system walks along to what a path means. There are no
symbolic links, so `..` leads back to where a name came from.
-/

namespace Beeflow.Python

abbrev Path := List Char

/-- The names from the root to a file or a folder. -/
abbrev Names := List (List Char)

namespace Path

/-- `os.path.split` -/
def split (p : Path) : Path × Path :=
  let head := p.rdropWhile (· ≠ '/')
  let tail := p.rtakeWhile (· ≠ '/')
  if head.all (· = '/') then (head, tail) else (head.rdropWhile (· = '/'), tail)

def absolute (p : Path) : Bool := p.head? = some '/'

/-- `os.path.join` -/
def join (a b : Path) : Path :=
  if absolute b then b
  else if a = [] ∨ a.getLast? = some '/' then a ++ b
  else a ++ '/' :: b

def step (names : Names) (name : List Char) : Names :=
  if name = [] ∨ name = ['.'] then names
  else if name = ['.', '.'] then names.dropLast
  else names ++ [name]

def walk (names : Names) (parts : List (List Char)) : Names := parts.foldl step names

/-- What the path means to a process that works in `cwd`. -/
def resolve (cwd : Names) (p : Path) : Names :=
  walk (if absolute p then [] else cwd) (p.splitOn '/')

/-- Some front part leads to the place. -/
def Passes (names : Names) (parts : List (List Char)) (q : Names) : Prop :=
  ∃ dir, dir <+: parts ∧ walk names dir = q

/-- The places on the way, its end among them. -/
def visits (cwd : Names) (p : Path) : List Names :=
  (p.splitOn '/').inits.map (walk (if absolute p then [] else cwd))

/-- How often the parts of a path go up from where it starts, and the names that it goes down from
there: what `os.path.normpath` leaves of them. -/
def reduce : Nat × Names → List Char → Nat × Names
  | (ups, names), name =>
    if name = [] ∨ name = ['.'] then (ups, names)
    else if name = ['.', '.'] then if names = [] then (ups + 1, []) else (ups, names.dropLast)
    else (ups, names ++ [name])

def normal (parts : List (List Char)) : Nat × Names := parts.foldl reduce (0, [])

/-- A part that stands for itself. -/
def PlainName (name : List Char) : Prop := name ≠ [] ∧ name ≠ ['.'] ∧ name ≠ ['.', '.']

instance (name : List Char) : Decidable (PlainName name) := inferInstanceAs (Decidable (_ ∧ _ ∧ _))

example : split "a//b/c".toList = ("a//b".toList, ['c']) ∧
    split "//c".toList = ("//".toList, ['c']) := by decide

-- ---------------------------------------------------------------------------
-- Walking
-- ---------------------------------------------------------------------------

variable {cwd names q : Names} {p a b : Path} {parts dir : List (List Char)} {name : List Char}

theorem walk_append (names : Names) (parts parts' : List (List Char)) :
    walk names (parts ++ parts') = walk (walk names parts) parts' := List.foldl_append

theorem walk_concat (names : Names) (parts : List (List Char)) (name : List Char) :
    walk names (parts ++ [name]) = step (walk names parts) name := walk_append ..

/-- Nothing stands between two slashes in a row. -/
theorem walk_fields (names : Names) (parts : List (List Char)) :
    walk names (parts.filter fun name => !name.isEmpty) = walk names parts := by
  induction parts generalizing names with
  | nil => rfl
  | cons name parts ih =>
    cases name with
    | nil => exact ih names
    | cons c name => exact ih (step names (c :: name))

theorem mem_visits : q ∈ visits cwd p ↔
    Passes (if absolute p then [] else cwd) (p.splitOn '/') q := by
  simp only [visits, Passes, List.mem_map, List.mem_inits]

theorem passes_fields :
    Passes names (parts.filter fun name => !name.isEmpty) q ↔ Passes names parts q := by
  constructor
  · rintro ⟨dir, hdir, hq⟩
    obtain ⟨dir', hdir', rfl⟩ := List.prefix_filter_iff.mp hdir
    exact ⟨dir', hdir', (walk_fields names dir').symm.trans hq⟩
  · rintro ⟨dir, hdir, hq⟩
    exact ⟨_, hdir.filter _, (walk_fields names dir).trans hq⟩

theorem passes_append {parts' : List (List Char)} : Passes names (parts ++ parts') q ↔
    Passes names parts q ∨ Passes (walk names parts) parts' q := by
  constructor
  · rintro ⟨dir, hdir, hq⟩
    obtain hbefore | ⟨dir', rfl⟩ := List.prefix_or_prefix_of_prefix hdir (List.prefix_append _ _)
    · exact .inl ⟨dir, hbefore, hq⟩
    · exact .inr ⟨dir', (List.prefix_append_right_inj _).mp hdir,
        (walk_append names parts dir').symm.trans hq⟩
  · rintro (⟨dir, hdir, hq⟩ | ⟨dir, hdir, hq⟩)
    · exact ⟨dir, hdir.trans (List.prefix_append _ _), hq⟩
    · exact ⟨parts ++ dir, (List.prefix_append_right_inj _).mpr hdir,
        (walk_append names parts dir).trans hq⟩

/-- The way to a place from the root leads through all folders around it. -/
theorem passes_of_prefix (h : q <+: walk [] parts) : Passes [] parts q := by
  induction parts using List.reverseRecOn with
  | nil => exact ⟨[], List.prefix_refl _, (List.prefix_nil.mp h).symm⟩
  | append_singleton parts name ih =>
    by_cases hbefore : q <+: walk [] parts
    · obtain ⟨dir, hdir, hq⟩ := ih hbefore
      exact ⟨dir, hdir.trans (List.prefix_append _ _), hq⟩
    refine ⟨parts ++ [name], List.prefix_refl _, ?_⟩
    rw [walk_concat] at h ⊢
    unfold step at h ⊢
    split_ifs at h ⊢ with hsame hup
    · exact absurd h hbefore
    · exact absurd (h.trans (List.dropLast_prefix _)) hbefore
    · exact ((List.prefix_concat_iff.mp h).resolve_right hbefore).symm

theorem visits_absolute (h : absolute p = true) : visits cwd p = visits [] p := by
  rw [visits, visits, h, if_pos rfl, if_pos rfl]

theorem exists_visits_iff (h : absolute p = true) :
    (∃ r ∈ visits cwd p, q <+: r) ↔ q ∈ visits [] p := by
  rw [visits_absolute h]
  refine ⟨?_, fun hq => ⟨q, hq, List.prefix_refl _⟩⟩
  rintro ⟨r, hr, hq⟩
  rw [mem_visits, h, if_pos rfl] at hr ⊢
  obtain ⟨dir, hdir, rfl⟩ := hr
  obtain ⟨dir', hdir', hq⟩ := passes_of_prefix hq
  exact ⟨dir', hdir'.trans hdir, hq⟩

/-- Without `..` the way leads further down all the time. -/
theorem prefix_of_passes (h : ∀ name ∈ parts, name ≠ ['.', '.']) (hq : Passes names parts q) :
    q <+: walk names parts := by
  induction parts using List.reverseRecOn with
  | nil =>
    obtain ⟨dir, hdir, rfl⟩ := hq
    rw [List.prefix_nil.mp hdir]
  | append_singleton parts name ih =>
    have hdown : walk names parts <+: walk names (parts ++ [name]) := by
      rw [walk_concat, step, if_neg (h name (by simp))]
      split_ifs
      · exact List.prefix_refl _
      · exact List.prefix_append _ _
    have hbefore : ∀ name ∈ parts, name ≠ ['.', '.'] := fun name' hname' =>
      h name' (List.mem_append_left _ hname')
    obtain ⟨dir, hdir, rfl⟩ := hq
    rcases List.prefix_concat_iff.mp hdir with rfl | hdir
    · exact List.prefix_refl _
    · exact (ih hbefore ⟨dir, hdir, rfl⟩).trans hdown

theorem step_plain (names : Names) (h : PlainName name) : step names name = names ++ [name] := by
  obtain ⟨hnil, hdot, hdotdot⟩ := h
  simp [step, hnil, hdot, hdotdot]

theorem walk_plain (names : Names) (h : ∀ name ∈ parts, PlainName name) :
    walk names parts = names ++ parts := by
  induction parts generalizing names with
  | nil => exact (List.append_nil names).symm
  | cons name parts ih =>
    obtain ⟨hname, h⟩ := List.forall_mem_cons.mp h
    rw [walk, List.foldl_cons, step_plain names hname]
    exact (ih _ h).trans (List.append_cons ..).symm

/-- The place where a walk ends is that of the names it leaves, below those it keeps. -/
theorem walk_eq (names : Names) (parts : List (List Char)) :
    walk names parts = names.take (names.length - (normal parts).1) ++ (normal parts).2 := by
  induction parts using List.reverseRecOn with
  | nil => simp [normal, walk]
  | append_singleton parts name ih =>
    have hnormal : normal (parts ++ [name]) = reduce (normal parts) name := List.foldl_append
    rw [walk_concat, hnormal, ih]
    obtain ⟨ups, down⟩ := normal parts
    dsimp only [reduce, step]
    split_ifs with hsame hup hdown
    · rfl
    · -- one more name of the folder is left
      subst hdown
      rw [List.append_nil, List.append_nil, List.dropLast_eq_take, List.length_take, List.take_take]
      congr 1
      show min (min (names.length - ups) names.length - 1) (names.length - ups) =
        names.length - (ups + 1)
      omega
    · exact List.dropLast_append_of_ne_nil hdown
    · exact List.append_assoc ..

-- ---------------------------------------------------------------------------
-- Splitting and joining
-- ---------------------------------------------------------------------------

theorem absolute_append (ha : a ≠ []) (b : Path) : absolute (a ++ b) = absolute a := by
  cases a with
  | nil => exact absurd rfl ha
  | cons c a => rfl

theorem absolute_name (h : '/' ∉ name) : absolute name = false := by
  cases name with
  | nil => rfl
  | cons c name =>
    have hc : c ≠ '/' := fun he => h (he ▸ List.mem_cons_self)
    simpa [absolute] using hc

theorem split_name (h : '/' ∉ name) : split name = ([], name) := by
  have hall : ∀ c ∈ name, decide (c ≠ '/') = true := fun c hc =>
    decide_eq_true fun he => h (he ▸ hc)
  rw [split, List.rdropWhile_eq_nil_iff.mpr hall, List.rtakeWhile_eq_self_iff.mpr]
  · rfl
  · exact hall

/-- The last slash parts the folder from the name. -/
theorem split_slash (h : '/' ∉ name) : split (a ++ '/' :: name) =
    (if a.all (· = '/') then a ++ ['/'] else a.rdropWhile (· = '/'), name) := by
  have hall : ∀ c ∈ name, decide (c ≠ '/') = true := fun c hc =>
    decide_eq_true fun he => h (he ▸ hc)
  have hreverse : (a ++ '/' :: name).reverse = name.reverse ++ '/' :: a.reverse := by simp
  have hall' : ∀ c ∈ name.reverse, decide (c ≠ '/') = true := fun c hc =>
    hall c (List.mem_reverse.mp hc)
  have hhead : (a ++ '/' :: name).rdropWhile (· ≠ '/') = a ++ ['/'] := by
    rw [List.rdropWhile, hreverse, List.dropWhile_append_of_pos hall',
      List.dropWhile_cons_of_neg (by decide)]
    simp
  have htail : (a ++ '/' :: name).rtakeWhile (· ≠ '/') = name := by
    rw [List.rtakeWhile, hreverse, List.takeWhile_append_of_pos hall',
      List.takeWhile_cons_of_neg (by decide)]
    simp
  have hslashes : (a ++ ['/']).all (· = '/') = a.all (· = '/') := by simp
  rw [split, hhead, htail, hslashes, List.rdropWhile_concat_pos _ _ _ (by decide)]
  exact (apply_ite (·, name) ..).symm

/-- The parts of a path that are not empty. -/
abbrev fields (p : Path) : List (List Char) := Fields.fields (· == '/') p

theorem fields_slash (a b : Path) : fields (a ++ '/' :: b) = fields a ++ fields b :=
  Fields.fields_append_cons a b rfl

theorem fields_rdropWhile (a : Path) : fields (a.rdropWhile (· = '/')) = fields a := by
  induction a using List.reverseRecOn with
  | nil => rfl
  | append_singleton a c ih =>
    by_cases hc : c = '/'
    · subst hc
      rw [List.rdropWhile_concat_pos _ _ _ (by decide), ih, fields_slash]
      exact (List.append_nil _).symm
    · rw [List.rdropWhile_concat_neg _ _ _ (by simpa using hc)]

theorem fields_join (a : Path) (hb : absolute b = false) :
    fields (join a b) = fields a ++ fields b := by
  unfold join
  rw [hb, if_neg Bool.false_ne_true]
  split_ifs with hlast
  · rcases hlast with rfl | hlast
    · rfl
    · obtain ⟨a, rfl⟩ := List.getLast?_eq_some_iff.mp hlast
      rw [List.append_assoc, List.singleton_append, fields_slash, fields_slash]
      exact congrArg (· ++ fields b) (List.append_nil _).symm
  · exact fields_slash a b

theorem absolute_ne_nil (h : absolute p = true) : p ≠ [] := by
  rintro rfl
  exact absurd h (by decide)

theorem join_absolute (ha : absolute a = true) (b : Path) : absolute (join a b) = true := by
  unfold join
  split_ifs with hb
  · exact hb
  · rw [absolute_append (absolute_ne_nil ha), ha]
  · rw [absolute_append (absolute_ne_nil ha), ha]

theorem resolve_absolute (h : absolute p = true) : resolve cwd p = walk [] (fields p) := by
  rw [resolve, h, if_pos rfl]
  exact (walk_fields ..).symm

/-- Without a slash there is no folder, and the last slash stands before the name. -/
theorem split_cases (p : Path) : '/' ∉ p ∧ split p = ([], p) ∨
    ∃ a name, '/' ∉ name ∧ p = a ++ '/' :: name ∧
      split p = (if a.all (· = '/') then a ++ ['/'] else a.rdropWhile (· = '/'), name) := by
  by_cases hp : '/' ∈ p
  · obtain ⟨name, a, hrev, hname⟩ := List.eq_append_cons_of_mem (List.mem_reverse.mpr hp)
    have hname : '/' ∉ name.reverse := fun hmem => hname (List.mem_reverse.mp hmem)
    have hsplit : p = a.reverse ++ '/' :: name.reverse := by
      rw [← List.reverse_reverse p, hrev]
      simp
    exact .inr ⟨a.reverse, name.reverse, hname, hsplit, hsplit ▸ split_slash hname⟩
  · exact .inl ⟨hp, split_name hp⟩

theorem slash_not_mem_split (p : Path) : '/' ∉ (split p).2 := by
  obtain ⟨hp, hsplit⟩ | ⟨a, name, hname, -, hsplit⟩ := split_cases p
  · rwa [hsplit]
  · rwa [hsplit]

theorem splitOn_eq (p : Path) : p.splitOn '/' = (p.splitOn '/').dropLast ++ [(split p).2] := by
  obtain ⟨hp, hsplit⟩ | ⟨a, name, hname, hslash, hsplit⟩ := split_cases p
  · rw [hsplit, List.splitOn_eq_singleton hp]
    rfl
  · rw [hsplit, hslash, List.splitOn_append_cons_self, List.splitOn_eq_singleton hname,
      List.dropLast_concat]

theorem fields_split (p : Path) :
    fields (split p).1 = (p.splitOn '/').dropLast.filter fun name => !name.isEmpty := by
  obtain ⟨hp, hsplit⟩ | ⟨a, name, hname, hslash, hsplit⟩ := split_cases p
  · rw [hsplit, List.splitOn_eq_singleton hp]
    rfl
  · rw [hsplit, hslash, List.splitOn_append_cons_self, List.splitOn_eq_singleton hname,
      List.dropLast_concat]
    dsimp only
    split_ifs
    · exact (fields_slash a []).trans (List.append_nil _)
    · exact fields_rdropWhile a

theorem absolute_split (p : Path) : absolute (split p).1 = absolute p := by
  obtain ⟨hp, hsplit⟩ | ⟨a, name, hname, hslash, hsplit⟩ := split_cases p
  · rw [hsplit]
    exact (absolute_name hp).symm
  · rw [hsplit, hslash]
    dsimp only
    by_cases ha : a = []
    · subst ha
      rfl
    rw [absolute_append ha]
    split_ifs with hall
    · exact absolute_append ha _
    · have hne : a.rdropWhile (· = '/') ≠ [] := fun he => by
        refine hall (List.all_eq_true.mpr fun c hc => ?_)
        simpa using List.rdropWhile_eq_nil_iff.mp he c hc
      obtain ⟨slashes, hslashes⟩ := List.rdropWhile_prefix (· = '/') a
      rw [← absolute_append hne slashes, hslashes]

end Path

end Beeflow.Python
