import Mathlib.Data.List.Basic
import Mathlib.Data.List.Infix
import Mathlib.Logic.Function.Basic

/-!
# Trees of files

A tree maps the names from its root to what stands there. A file is written
into a folder that is there, and not over a folder. Paths none of which leads
through another can be filled in any order.
-/

namespace Beeflow.FileTree

inductive Entry (β : Type*)
  | dir
  | file (content : β)

def Entry.isFile {β : Type*} : Entry β → Bool
  | .dir => false
  | .file _ => true

def Entry.isDir {β : Type*} : Entry β → Bool
  | .dir => true
  | .file _ => false

abbrev Tree (κ β : Type*) := List κ → Option (Entry β)

variable {κ β : Type*}

section Writing

variable [DecidableEq κ]

/-- The folder and all folders on the way to it; no file may stand there. -/
def makedirs (t : Tree κ β) (p : List κ) : Option (Tree κ β) :=
  if p.inits.any fun q => (t q).any (·.isFile) then none
  else some fun q => if q <+: p then some .dir else t q

/-- One folder after another, up to the first that fails. -/
def makeEach : List (List κ) → Tree κ β → Tree κ β × Bool
  | [], t => (t, true)
  | p :: ps, t =>
    match makedirs t p with
    | none => (t, false)
    | some t' => makeEach ps t'

def write (t : Tree κ β) (p : List κ) (content : β) : Option (Tree κ β) :=
  if (t p.dropLast).any (·.isDir) ∧ !(t p).any (·.isDir) then
    some (Function.update t p (some (.file content)))
  else none

end Writing

def fileAt (t : Tree κ β) (p : List κ) : Option β :=
  match t p with
  | some (.file content) => some content
  | some .dir | none => none

/-- What stands at a path, stands in folders. -/
def Closed (t : Tree κ β) : Prop :=
  ∀ p q, p <+: q → p ≠ q → (t q).isSome → t p = some .dir

/-- Files stay, and everything stands in folders. -/
structure Grows (t t' : Tree κ β) : Prop where
  closed : Closed t → Closed t'
  files : ∀ p, (t p).any (·.isFile) → (t' p).any (·.isFile)

section Operations

variable {t t' : Tree κ β} {p q : List κ} {content : β}

theorem Grows.refl (t : Tree κ β) : Grows t t := ⟨id, fun _ => id⟩

theorem Grows.trans {t'' : Tree κ β} (h : Grows t t') (h' : Grows t' t'') : Grows t t'' :=
  ⟨h'.closed ∘ h.closed, fun p hp => h'.files p (h.files p hp)⟩

theorem prefix_dropLast (h : p <+: q) (hne : p ≠ q) : p <+: q.dropLast := by
  obtain ⟨r, rfl⟩ := h
  have hr : r ≠ [] := fun he => hne (by simp [he])
  rw [List.dropLast_append_of_ne_nil hr]
  exact List.prefix_append _ _

theorem prefix_dropLast_iff (hne : p ≠ []) {q : List κ} : q <+: p.dropLast ↔ q <+: p ∧ q ≠ p := by
  refine ⟨fun h => ⟨h.trans (List.dropLast_prefix p), ?_⟩, fun h => prefix_dropLast h.1 h.2⟩
  rintro rfl
  have hlength := h.length_le
  have hpos := List.length_pos_iff.mpr hne
  rw [List.length_dropLast] at hlength
  omega

theorem fileAt_eq_some : fileAt t p = some content ↔ t p = some (.file content) := by
  unfold fileAt
  split
  · simp_all
  · simp_all
  · simp_all

variable [DecidableEq κ]

theorem makedirs_eq_some : makedirs t p = some t' ↔
    (∀ q, q <+: p → (t q).any (·.isFile) = false) ∧
      t' = fun q => if q <+: p then some .dir else t q := by
  unfold makedirs
  split_ifs with h
  · refine iff_of_false (by simp) ?_
    rintro ⟨hclear, -⟩
    obtain ⟨q, hq, hfile⟩ := List.any_eq_true.mp h
    rw [hclear q ((List.mem_inits _ _).mp hq)] at hfile
    cases hfile
  · rw [Bool.not_eq_true, List.any_eq_false] at h
    have hclear : ∀ q, q <+: p → (t q).any (·.isFile) = false := fun q hq =>
      Bool.eq_false_iff.mpr (h q ((List.mem_inits _ _).mpr hq))
    rw [Option.some.injEq, eq_comm]
    exact (and_iff_right hclear).symm

theorem makedirs_eq_none : makedirs t p = none ↔ ∃ q, q <+: p ∧ (t q).any (·.isFile) = true := by
  simp [makedirs]

theorem makedirs_self (h : ∀ q, q <+: p → t q = some .dir) : makedirs t p = some t := by
  refine makedirs_eq_some.mpr ⟨fun q hq => ?_, funext fun q => ?_⟩
  · rw [h q hq]
    rfl
  · split_ifs with hq
    · exact h q hq
    · rfl

theorem makedirs_grows (h : makedirs t p = some t') : Grows t t' := by
  obtain ⟨hclear, rfl⟩ := makedirs_eq_some.mp h
  constructor
  · intro hclosed q r hqr hne hr
    dsimp only at hr ⊢
    split_ifs at hr with hrp
    · rw [if_pos (hqr.trans hrp)]
    · split_ifs
      · rfl
      · exact hclosed q r hqr hne hr
  · intro q hq
    have hnot : ¬q <+: p := fun hqp => by
      rw [hclear q hqp] at hq
      cases hq
    rwa [if_neg hnot]

theorem fileAt_makedirs (h : makedirs t p = some t') : fileAt t' = fileAt t := by
  obtain ⟨hclear, rfl⟩ := makedirs_eq_some.mp h
  funext q
  unfold fileAt
  dsimp only
  split_ifs with hq
  · cases hfile : t q with
    | none => rfl
    | some e =>
      cases e with
      | dir => rfl
      | file content =>
        have hnot := hclear q hq
        rw [hfile] at hnot
        cases hnot
  · rfl

theorem fileAt_write (h : write t p content = some t') :
    fileAt t' = Function.update (fileAt t) p (some content) := by
  unfold write at h
  split_ifs at h
  obtain rfl := Option.some.inj h
  funext q
  by_cases hq : q = p
  · subst hq
    rw [Function.update_self, fileAt_eq_some, Function.update_self]
  · rw [Function.update_of_ne hq]
    unfold fileAt
    rw [Function.update_of_ne hq]

/-- A file is not written over a folder. -/
theorem write_dir (h : write t p content = some t') : t' q = some .dir ↔ t q = some .dir := by
  unfold write at h
  split_ifs at h with hp
  obtain rfl := Option.some.inj h
  by_cases hq : q = p
  · subst hq
    rw [Function.update_self]
    refine iff_of_false (by simp) fun hdir => ?_
    simp [hdir, Entry.isDir] at hp
  · rw [Function.update_of_ne hq]

theorem write_grows (h : write t p content = some t') : Grows t t' := by
  unfold write at h
  split_ifs at h with hp
  obtain rfl := Option.some.inj h
  obtain ⟨hparent, hnotDir⟩ := hp
  have hparent : t p.dropLast = some .dir := by
    cases hd : t p.dropLast with
    | none => simp [hd] at hparent
    | some e => cases e <;> simp_all [Entry.isDir]
  have hdir : t p ≠ some .dir := fun he => by simp [he, Entry.isDir] at hnotDir
  constructor
  · intro hclosed q r hqr hne hr
    have hbelow : t q = some .dir := by
      by_cases hrp : r = p
      · subst hrp
        by_cases hlast : q = r.dropLast
        · rwa [hlast]
        · exact hclosed q r.dropLast (prefix_dropLast hqr hne) hlast (by simp [hparent])
      · rw [Function.update_of_ne hrp] at hr
        exact hclosed q r hqr hne hr
    have hqp : q ≠ p := fun he => hdir (he ▸ hbelow)
    rwa [Function.update_of_ne hqp]
  · intro q hq
    by_cases hqp : q = p
    · subst hqp
      simp [Entry.isFile]
    · rwa [Function.update_of_ne hqp]

/-- The folders can be made exactly where no file is in the way. -/
theorem makeEach_eq_true {ps : List (List κ)} : makeEach ps t = (t', true) ↔
    (∀ p ∈ ps, ∀ q, q <+: p → (t q).any (·.isFile) = false) ∧
      t' = fun q => if ∃ p ∈ ps, q <+: p then some .dir else t q := by
  induction ps generalizing t with
  | nil =>
    rw [makeEach, Prod.mk.injEq, and_iff_left rfl, eq_comm]
    simp
  | cons p ps ih =>
    unfold makeEach
    split
    · rename_i hnone
      refine iff_of_false (by simp) ?_
      rintro ⟨hclear, -⟩
      have hsome := makedirs_eq_some.mpr ⟨(List.forall_mem_cons.mp hclear).1, rfl⟩
      cases hnone.symm.trans hsome
    · rename_i t₁ hsome
      obtain ⟨hclear, rfl⟩ := makedirs_eq_some.mp hsome
      rw [ih, List.forall_mem_cons, and_iff_right hclear]
      refine and_congr ?_ ?_
      · refine forall₂_congr fun q hq => forall₂_congr fun r hr => ?_
        split_ifs with hrp
        · exact iff_of_true rfl (hclear r hrp)
        · rfl
      · refine Eq.congr_right (funext fun q => ?_)
        simp only [List.exists_mem_cons_iff]
        by_cases hqp : q <+: p
        · simp only [hqp, true_or, if_true, ite_self]
        · simp only [hqp, false_or, if_false]

theorem fileAt_makeEach (ps : List (List κ)) (t : Tree κ β) :
    fileAt (makeEach ps t).1 = fileAt t := by
  induction ps generalizing t with
  | nil => rfl
  | cons p ps ih =>
    unfold makeEach
    split
    · rfl
    · rename_i t₁ hsome
      exact (ih t₁).trans (fileAt_makedirs hsome)

/-- In the way of a file there are only folders that exist. -/
theorem makeEach_blocked {ps : List (List κ)} (ht : Closed t) (hfile : (t q).any (·.isFile) = true)
    (hps : ∀ p ∈ ps, q <+: p ∨ p <+: q) (hblocked : ∃ p ∈ ps, q <+: p) :
    makeEach ps t = (t, false) := by
  induction ps with
  | nil => simp at hblocked
  | cons p ps ih =>
    obtain ⟨hp, hrest⟩ := List.forall_mem_cons.mp hps
    unfold makeEach
    by_cases hqp : q <+: p
    · rw [makedirs_eq_none.mpr ⟨q, hqp, hfile⟩]
    · have hdirs : ∀ r, r <+: p → t r = some .dir := fun r hr =>
        ht r q (hr.trans (hp.resolve_left hqp)) (fun he => hqp (he ▸ hr))
          (Option.isSome_of_any hfile)
      rw [makedirs_self hdirs]
      exact ih hrest (((List.exists_mem_cons_iff ..).mp hblocked).resolve_left hqp)

/-- Making the folders on the way first makes no difference. -/
theorem makeEach_of_prefix {ps : List (List κ)} (ht : Closed t) (hps : ∀ q ∈ ps, q <+: p)
    (hp : p ∈ ps) : makeEach ps t = (makedirs t p).elim (t, false) fun t' => (t', true) := by
  cases hsome : makedirs t p with
  | none =>
    obtain ⟨q, hqp, hfile⟩ := makedirs_eq_none.mp hsome
    exact makeEach_blocked ht hfile
      (fun r hr => List.prefix_or_prefix_of_prefix hqp (hps r hr)) ⟨p, hp, hqp⟩
  | some t' =>
    obtain ⟨hclear, rfl⟩ := makedirs_eq_some.mp hsome
    refine makeEach_eq_true.mpr ⟨fun q hq r hr => hclear r (hr.trans (hps q hq)), ?_⟩
    funext q
    have hway : q <+: p ↔ ∃ r ∈ ps, q <+: r :=
      ⟨fun hq => ⟨p, hp, hq⟩, fun ⟨r, hr, hq⟩ => hq.trans (hps r hr)⟩
    simp only [hway]

end Operations

-- ---------------------------------------------------------------------------
-- Many files
-- ---------------------------------------------------------------------------

section Many

variable [DecidableEq κ]

/-- One file after another, each with its folders, up to the first that fails. -/
def putAll : List (List κ × β) → Tree κ β → Tree κ β × Bool
  | [], t => (t, true)
  | (p, content) :: objects, t =>
    match makedirs t p.dropLast with
    | none => (t, false)
    | some t₁ =>
      match write t₁ p content with
      | none => (t₁, false)
      | some t₂ => putAll objects t₂

def placed (t : Tree κ β) (p : List κ) (content : β) : Tree κ β := fun q =>
  if q = p then some (.file content) else if q <+: p then some .dir else t q

/-- Neither path leads through the other. -/
def Apart (p q : List κ) : Prop := ¬p <+: q ∧ ¬q <+: p

/-- The files stand at their paths, folders on the way to them, and the rest is as before. -/
structure Filled (objects : List (List κ × β)) (t t' : Tree κ β) : Prop where
  files : ∀ o ∈ objects, t' o.1 = some (.file o.2)
  dirs : ∀ o ∈ objects, ∀ q, q <+: o.1 → q ≠ o.1 → t' q = some .dir
  rest : ∀ q, (∀ o ∈ objects, ¬q <+: o.1) → t' q = t q

variable {t : Tree κ β} {p : List κ} {content : β} {objects : List (List κ × β)}

theorem putAll_grows (objects : List (List κ × β)) (t : Tree κ β) :
    Grows t (putAll objects t).1 := by
  induction objects generalizing t with
  | nil => exact .refl t
  | cons o objects ih =>
    unfold putAll
    split
    · exact .refl t
    rename_i t₁ hdirs
    split
    · exact makedirs_grows hdirs
    rename_i t₂ hfile
    exact ((makedirs_grows hdirs).trans (write_grows hfile)).trans (ih t₂)

/-- One file that fits. -/
theorem putAll_cons (hne : p ≠ [])
    (hclear : ∀ q, q <+: p → q ≠ p → (t q).any (·.isFile) = false) (hdir : t p ≠ some .dir) :
    putAll ((p, content) :: objects) t = putAll objects (placed t p content) := by
  have hdirs : makedirs t p.dropLast =
      some fun q => if q <+: p.dropLast then some .dir else t q :=
    makedirs_eq_some.mpr ⟨fun q hq =>
      hclear q ((prefix_dropLast_iff hne).mp hq).1 ((prefix_dropLast_iff hne).mp hq).2, rfl⟩
  have hself : ¬p <+: p.dropLast := fun h => ((prefix_dropLast_iff hne).mp h).2 rfl
  have hnotDir : (t p).any (·.isDir) = false := by
    cases hp : t p with
    | none => rfl
    | some e =>
      cases e with
      | dir => exact absurd hp hdir
      | file c => rfl
  have hfile : write (fun q => if q <+: p.dropLast then some .dir else t q) p content =
      some (placed t p content) := by
    have hguard : ((if p.dropLast <+: p.dropLast then some Entry.dir else t p.dropLast).any
        (·.isDir) ∧ !(if p <+: p.dropLast then some Entry.dir else t p).any (·.isDir)) := by
      rw [if_pos (List.prefix_refl _), if_neg hself, hnotDir]
      exact ⟨rfl, rfl⟩
    rw [write, if_pos hguard]
    congr 1
    funext q
    unfold placed
    by_cases hq : q = p
    · rw [hq, Function.update_self, if_pos rfl]
    · rw [Function.update_of_ne hq, if_neg hq]
      simp only [prefix_dropLast_iff hne, hq, ne_eq, not_false_eq_true, and_true]
  rw [putAll, hdirs]
  dsimp only
  rw [hfile]

theorem putAll_filled (hne : ∀ o ∈ objects, o.1 ≠ [])
    (hapart : objects.Pairwise fun o o' => Apart o.1 o'.1)
    (hclear : ∀ o ∈ objects, ∀ q, q <+: o.1 → q ≠ o.1 → (t q).any (·.isFile) = false)
    (hdir : ∀ o ∈ objects, t o.1 ≠ some .dir) :
    (putAll objects t).2 = true ∧ Filled objects t (putAll objects t).1 := by
  induction objects generalizing t with
  | nil => exact ⟨rfl, by simp, by simp, fun _ _ => rfl⟩
  | cons o objects ih =>
    obtain ⟨p, content⟩ := o
    obtain ⟨hp, hne⟩ := List.forall_mem_cons.mp hne
    obtain ⟨hpclear, hclear⟩ := List.forall_mem_cons.mp hclear
    obtain ⟨hpdir, hdir⟩ := List.forall_mem_cons.mp hdir
    obtain ⟨hpapart, hapart⟩ := List.pairwise_cons.mp hapart
    rw [putAll_cons hp hpclear hpdir]
    obtain ⟨hdone, hfilled⟩ := @ih (placed t p content) hne hapart
      (fun o ho q hq hqo => by
        have hqp : q ≠ p := fun he => (hpapart o ho).1 (he ▸ hq)
        rw [placed, if_neg hqp]
        split_ifs
        · rfl
        · exact hclear o ho q hq hqo)
      (fun o ho => by
        have hop : ¬o.1 <+: p := (hpapart o ho).2
        have hne : o.1 ≠ p := fun he => hop (he ▸ List.prefix_refl _)
        rw [placed, if_neg hne, if_neg hop]
        exact hdir o ho)
    have hkeeps : ∀ q, (∀ o ∈ objects, ¬q <+: o.1) → _ = placed t p content q := hfilled.rest
    refine ⟨hdone, ?_, ?_, fun q hq => ?_⟩
    · refine List.forall_mem_cons.mpr ⟨?_, hfilled.files⟩
      rw [hkeeps p fun o ho => (hpapart o ho).1, placed, if_pos rfl]
    · refine List.forall_mem_cons.mpr ⟨fun q hq hqp => ?_, hfilled.dirs⟩
      by_cases hthrough : ∃ o ∈ objects, q <+: o.1
      · obtain ⟨o, ho, hqo⟩ := hthrough
        exact hfilled.dirs o ho q hqo fun he => (hpapart o ho).2 (he ▸ hq)
      · push Not at hthrough
        rw [hkeeps q hthrough, placed, if_neg hqp, if_pos hq]
    · obtain ⟨hqp, hq⟩ := List.forall_mem_cons.mp hq
      have hne : q ≠ p := fun he => hqp (he ▸ List.prefix_refl _)
      rw [hkeeps q hq, placed, if_neg hne, if_neg hqp]

end Many

end Beeflow.FileTree
