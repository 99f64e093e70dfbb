import Mathlib.Data.List.AList
import Beeflow.Lib.FileTree
import Beeflow.Lib.Machine
import Beeflow.Python.Path

/-!
# Downloading the DAGs

`download_dags` writes the objects of the DAGs bucket below the DAGs folder and
removes nothing. The folder of a warm container keeps what earlier calls have
left, so it is the bucket's content only as long as no object goes.
-/

namespace Beeflow.DagsDownloader

open FileTree Python

/-- A disk without limits; on a real one a name has at most 255 bytes. -/
abbrev Disk (β : Type*) := Tree (List Char) β

variable {β : Type*}

-- ---------------------------------------------------------------------------
-- `download_dags`
-- ---------------------------------------------------------------------------

/-- `local_path` and `full_local_path` -/
def localPaths (dagsFolder key : Path) : Path × Path :=
  let (path, filename) := Path.split key
  let joined := Path.join dagsFolder path
  let localPath := if "dags/".toList.isPrefixOf joined then joined.drop "dags/".length else joined
  (localPath, Path.join localPath filename)

/-- The turn of the loop, and whether it ends well. -/
def downloadObject (dagsFolder : Path) (cwd : Names) (key : String) (content : β)
    (disk : Disk β) : Disk β × Bool :=
  let (localPath, fullLocalPath) := localPaths dagsFolder key.toList
  if localPath = [] then (disk, false)
  else
    match makeEach (Path.visits cwd localPath) disk with
    | (disk₁, false) => (disk₁, false)
    | (disk₁, true) =>
      match write disk₁ (Path.resolve cwd fullLocalPath) content with
      | none => (disk₁, false)
      | some disk₂ => (disk₂, true)

structure Download (β : Type*) where
  disk : Disk β
  downloadedDagFiles : Nat
  raised : Bool

/-- The objects of the bucket one after another, in any order. -/
def downloadDags (dagsFolder : Path) (cwd : Names) : List (String × β) → Disk β → Download β
  | [], disk => ⟨disk, 0, false⟩
  | (key, content) :: objects, disk =>
    match downloadObject dagsFolder cwd key content disk with
    | (disk, false) => ⟨disk, 0, true⟩
    | (disk, true) =>
      let rest := downloadDags dagsFolder cwd objects disk
      { rest with downloadedDagFiles := rest.downloadedDagFiles + 1 }

-- ---------------------------------------------------------------------------
-- Keys and folders
-- ---------------------------------------------------------------------------

/-- A relative path of names that stand for themselves. -/
def IsPlain (key : String) : Prop :=
  (∀ name ∈ key.toList.splitOn '/', Path.PlainName name) ∧ '\x00' ∉ key.toList

instance (key : String) : Decidable (IsPlain key) := inferInstanceAs (Decidable (_ ∧ _))

abbrev PlainKey := { key : String // IsPlain key }

def PlainKey.names (key : PlainKey) : Names := key.1.toList.splitOn '/'

/-- `settings.DAGS_FOLDER`: an absolute path without `..` -/
structure DagsFolder where
  path : Path
  absolute : Path.absolute path = true
  plain : ['.', '.'] ∉ path.splitOn '/'

def DagsFolder.names (folder : DagsFolder) : Names := Path.resolve [] folder.path

def place (folder : DagsFolder) (key : PlainKey) : Names := folder.names ++ key.names

section Paths

variable {folder : DagsFolder} {key key' : PlainKey} {cwd : Names}

theorem PlainKey.names_ne_nil (key : PlainKey) : key.names ≠ [] := List.splitOn_ne_nil _ _

theorem PlainKey.intercalate_names (key : PlainKey) :
    ['/'].intercalate key.names = key.1.toList := List.intercalate_splitOn '/'

theorem PlainKey.names_inj (h : key.names = key'.names) : key = key' := by
  refine Subtype.ext (String.toList_inj.mp ?_)
  rw [← key.intercalate_names, ← key'.intercalate_names, h]

theorem not_prefix_of_absolute {p : Path} (h : Path.absolute p = true) :
    "dags/".toList.isPrefixOf p = false := by
  cases p with
  | nil => rfl
  | cons c p =>
    obtain rfl : c = '/' := by simpa [Path.absolute] using h
    rfl

section Absolute

variable {dagsFolder : Path} (key : Path)

/-- Nothing is cut off from the path below an absolute folder. -/
theorem localPaths_fst (hfolder : Path.absolute dagsFolder = true) :
    (localPaths dagsFolder key).1 = Path.join dagsFolder (Path.split key).1 := by
  unfold localPaths
  dsimp only
  rw [not_prefix_of_absolute (Path.join_absolute hfolder _), if_neg Bool.false_ne_true]

theorem localPaths_snd : (localPaths dagsFolder key).2 =
    Path.join (localPaths dagsFolder key).1 (Path.split key).2 := rfl

theorem absolute_localPath (hfolder : Path.absolute dagsFolder = true) :
    Path.absolute (localPaths dagsFolder key).1 = true := by
  rw [localPaths_fst key hfolder]
  exact Path.join_absolute hfolder _

theorem fields_localPath (hfolder : Path.absolute dagsFolder = true) :
    Path.fields (localPaths dagsFolder key).1 =
      (if Path.absolute key then [] else Path.fields dagsFolder) ++
        (key.splitOn '/').dropLast.filter fun name => !name.isEmpty := by
  rw [localPaths_fst key hfolder, ← Path.fields_split]
  cases habsolute : Path.absolute key with
  | true =>
    rw [Path.join, Path.absolute_split, habsolute, if_pos rfl, if_pos rfl]
    rfl
  | false => exact Path.fields_join _ ((Path.absolute_split key).trans habsolute)

theorem fields_fullLocalPath (hfolder : Path.absolute dagsFolder = true) :
    Path.fields (localPaths dagsFolder key).2 =
      (if Path.absolute key then [] else Path.fields dagsFolder) ++
        (key.splitOn '/').filter fun name => !name.isEmpty := by
  have hslash := Path.slash_not_mem_split key
  have hname : Path.fields (Path.split key).2 =
      [(Path.split key).2].filter fun name => !name.isEmpty := by
    rw [← List.splitOn_eq_singleton hslash]
    rfl
  rw [localPaths_snd, Path.fields_join _ (Path.absolute_name hslash),
    fields_localPath key hfolder, List.append_assoc, hname, ← List.filter_append,
    ← Path.splitOn_eq]

/-- The characters of the key are in the local path, and those of the folder where it has it. -/
theorem mem_fullLocalPath (hfolder : Path.absolute dagsFolder = true) {c : Char} (hc : c ≠ '/') :
    c ∈ (localPaths dagsFolder key).2 ↔
      (Path.absolute key = false ∧ c ∈ dagsFolder) ∨ c ∈ key := by
  have hsep : (c == '/') = false := beq_eq_false_iff_ne.mpr hc
  have hfields (p : Path) : (∃ f ∈ Path.fields p, c ∈ f) ↔ c ∈ p := Fields.exists_mem_fields hsep
  rw [← hfields, ← hfields dagsFolder, ← hfields key, fields_fullLocalPath key hfolder]
  simp only [List.mem_append, or_and_right, exists_or]
  refine or_congr ?_ Iff.rfl
  cases Path.absolute key with
  | true => simp
  | false => simp

/-- The local path leads where the key leads from the DAGs folder. -/
theorem resolve_fullLocalPath (hfolder : Path.absolute dagsFolder = true) (cwd : Names) :
    Path.resolve cwd (localPaths dagsFolder key).2 =
      Path.resolve (Path.resolve [] dagsFolder) key := by
  have habsolute := Path.join_absolute (absolute_localPath key hfolder) (Path.split key).2
  rw [localPaths_snd, Path.resolve_absolute habsolute, ← localPaths_snd,
    fields_fullLocalPath key hfolder, Path.walk_append, Path.walk_fields, Path.resolve,
    Path.resolve_absolute hfolder]
  split_ifs
  · rfl
  · rfl

/-- The folders of the local path are those on the way of the key. -/
theorem mem_visits_localPath (hfolder : Path.absolute dagsFolder = true) {q : Names} :
    q ∈ Path.visits cwd (localPaths dagsFolder key).1 ↔
      (Path.absolute key = false ∧ q ∈ Path.visits [] dagsFolder) ∨
        Path.Passes (if Path.absolute key then [] else Path.resolve [] dagsFolder)
          (key.splitOn '/').dropLast q := by
  rw [Path.mem_visits, absolute_localPath key hfolder, if_pos rfl, ← Path.passes_fields]
  change Path.Passes [] (Path.fields _) q ↔ _
  rw [fields_localPath key hfolder, Path.passes_append, Path.passes_fields]
  cases Path.absolute key with
  | true =>
    have hroot : Path.Passes [] [] q → Path.Passes [] (key.splitOn '/').dropLast q := by
      rintro ⟨dir, hdir, hq⟩
      exact ⟨dir, hdir.trans (List.nil_prefix ..), hq⟩
    simp only [if_true, Bool.true_eq_false, false_and, false_or]
    exact or_iff_right_of_imp hroot
  | false =>
    have hvisits : q ∈ Path.visits [] dagsFolder ↔ Path.Passes [] (Path.fields dagsFolder) q := by
      rw [Path.mem_visits, hfolder, if_pos rfl]
      exact Path.passes_fields.symm
    simp only [Bool.false_eq_true, if_false, true_and, hvisits, Path.resolve_absolute hfolder]

end Absolute

theorem absolute_plain (key : PlainKey) : Path.absolute key.1.toList = false := by
  cases hkey : key.1.toList with
  | nil => rfl
  | cons c rest =>
    refine decide_eq_false fun hc => ?_
    obtain rfl : c = '/' := Option.some.inj hc
    have hfirst : [] ∈ key.1.toList.splitOn '/' := by
      rw [hkey]
      exact (List.splitOn_append_cons_self [] rest).symm ▸ List.mem_cons_self
    exact (key.2.1 [] hfirst).1 rfl

/-- The place that the path of a key comes to. -/
theorem resolve_plain (folder : DagsFolder) (cwd : Names) (key : PlainKey) :
    Path.resolve cwd (localPaths folder.path key.1.toList).2 = place folder key := by
  rw [resolve_fullLocalPath _ folder.absolute, Path.resolve, absolute_plain,
    if_neg Bool.false_ne_true]
  exact Path.walk_plain _ key.2.1

/-- The folders on the way to the place of a key are those around it. -/
theorem makeEach_plain (folder : DagsFolder) (cwd : Names) (key : PlainKey) {disk : Disk β}
    (hdisk : Closed disk) :
    makeEach (Path.visits cwd (localPaths folder.path key.1.toList).1) disk =
      (makedirs disk (place folder key).dropLast).elim (disk, false)
        fun disk' => (disk', true) := by
  have hparts : ∀ name ∈ key.names.dropLast, Path.PlainName name := fun name hname =>
    key.2.1 name (List.dropLast_subset _ hname)
  have hwalk : Path.walk folder.names key.names.dropLast = (place folder key).dropLast := by
    rw [Path.walk_plain _ hparts, place, List.dropLast_append_of_ne_nil key.names_ne_nil]
  have hup : ∀ name ∈ key.names.dropLast, name ≠ ['.', '.'] := fun name hname =>
    (hparts name hname).2.2
  refine makeEach_of_prefix hdisk (fun q hq => ?_) ?_
  · rw [mem_visits_localPath _ folder.absolute, absolute_plain, if_neg Bool.false_ne_true] at hq
    rw [← hwalk]
    rcases hq with ⟨-, hq⟩ | hq
    · rw [Path.mem_visits, folder.absolute, if_pos rfl] at hq
      have hfolder : q <+: folder.names := by
        rw [DagsFolder.names, Path.resolve, folder.absolute, if_pos rfl]
        exact Path.prefix_of_passes (fun name hname he => folder.plain (he ▸ hname)) hq
      rw [Path.walk_plain _ hparts]
      exact hfolder.trans (List.prefix_append _ _)
    · exact Path.prefix_of_passes hup hq
  · rw [mem_visits_localPath _ folder.absolute, absolute_plain, if_neg Bool.false_ne_true]
    exact .inr ⟨_, List.prefix_refl _, hwalk⟩

end Paths

-- ---------------------------------------------------------------------------
-- A warm container
-- ---------------------------------------------------------------------------

/-- The bucket, and what a container has on its disk. -/
structure Container (β : Type*) where
  bucket : AList fun _ : PlainKey => β
  disk : Disk β

inductive Label (β : Type*)
  | upload (key : PlainKey) (content : β)
  | delete (key : PlainKey)
  | download

def Container.objects (c : Container β) : List (String × β) :=
  c.bucket.entries.map fun e => (e.1.1, e.2)

section Step

variable (folder : DagsFolder) (cwd : Names)

def Container.download (c : Container β) : Container β :=
  { c with disk := (downloadDags folder.path cwd c.objects c.disk).disk }

def Container.step (c : Container β) : Label β → Option (Container β)
  | .upload key content => some { c with bucket := c.bucket.insert key content }
  | .delete key => some { c with bucket := c.bucket.erase key }
  | .download => some (c.download folder cwd)

/-- The files below the folder are the objects of the bucket. -/
def Mirrors (c : Container β) : Prop :=
  ∀ names content, c.disk (folder.names ++ names) = some (.file content) ↔
    ∃ key : PlainKey, key.names = names ∧ c.bucket.lookup key = some content

def MirrorsAfter (c : Container β) : Label β → Prop
  | .download => Mirrors folder (c.download folder cwd)
  | _ => True

/-- Every file that is there has its object still, and no key is a folder of another one. -/
structure Fits (c : Container β) : Prop where
  present : ∀ names content, c.disk (folder.names ++ names) = some (.file content) →
    ∃ key ∈ c.bucket, PlainKey.names key = names
  apart : ∀ key ∈ c.bucket, ∀ key' ∈ c.bucket, PlainKey.names key <+: PlainKey.names key' →
    key = key'

def FitsBefore (c : Container β) : Label β → Prop
  | .download => Fits folder c
  | _ => True

/-- Nothing is below the folder yet, and no file is in its way. -/
structure Fresh (disk : Disk β) : Prop where
  closed : Closed disk
  clear : ∀ names, names <+: folder.names → (disk names).any (·.isFile) = false
  empty : ∀ names, names ≠ [] → disk (folder.names ++ names) = none

/-- No file is in the way to the folder, and each folder below it holds a file. -/
structure Tidy (disk : Disk β) : Prop where
  closed : Closed disk
  clear : ∀ names, names <+: folder.names → (disk names).any (·.isFile) = false
  full : ∀ names, names ≠ [] → disk (folder.names ++ names) = some .dir →
    ∃ more content, disk (folder.names ++ (names ++ more)) = some (.file content)

end Step

section Runs

variable {folder : DagsFolder} {cwd : Names} {c c' : Container β}

def placed (folder : DagsFolder) (c : Container β) : List (Names × β) :=
  c.bucket.entries.map fun e => (place folder e.1, e.2)

/-- The loop puts the objects at the places of their keys. -/
theorem downloadDags_disk (folder : DagsFolder) (cwd : Names)
    (entries : List (Sigma fun _ : PlainKey => β)) {disk : Disk β} (hdisk : Closed disk) :
    (downloadDags folder.path cwd (entries.map fun e => (e.1.1, e.2)) disk).disk =
      (putAll (entries.map fun e => (place folder e.1, e.2)) disk).1 := by
  induction entries generalizing disk with
  | nil => rfl
  | cons e entries ih =>
    rw [List.map_cons, List.map_cons]
    unfold downloadDags putAll downloadObject
    dsimp only
    rw [if_neg (Path.absolute_ne_nil (absolute_localPath _ folder.absolute)),
      makeEach_plain folder cwd e.1 hdisk, resolve_plain]
    cases hdirs : makedirs disk (place folder e.1).dropLast with
    | none => rfl
    | some disk₁ =>
      dsimp only [Option.elim]
      cases hfile : write disk₁ (place folder e.1) e.2 with
      | none => rfl
      | some disk₂ => exact ih ((write_grows hfile).closed ((makedirs_grows hdirs).closed hdisk))

theorem download_disk (c : Container β) (hdisk : Closed c.disk) :
    (c.download folder cwd).disk = (putAll (placed folder c) c.disk).1 :=
  downloadDags_disk folder cwd c.bucket.entries hdisk

theorem mem_placed {names : Names} {content : β} :
    (names, content) ∈ placed folder c ↔
      ∃ key : PlainKey, place folder key = names ∧ c.bucket.lookup key = some content := by
  simp only [placed, List.mem_map, Prod.mk.injEq, AList.mem_lookup_iff, ← Option.mem_def]
  constructor
  · rintro ⟨⟨key, content⟩, he, hnames, rfl⟩
    exact ⟨key, hnames, he⟩
  · rintro ⟨key, hnames, he⟩
    exact ⟨⟨key, content⟩, he, hnames, rfl⟩

theorem exists_lookup {key : PlainKey} (h : key ∈ c.bucket) :
    ∃ content, c.bucket.lookup key = some content :=
  Option.isSome_iff_exists.mp (AList.lookup_isSome.mpr h)

theorem mem_of_lookup {key : PlainKey} {content : β} (h : c.bucket.lookup key = some content) :
    key ∈ c.bucket := AList.lookup_isSome.mp (by simp [h])

theorem prefix_place_iff {key key' : PlainKey} :
    place folder key <+: place folder key' ↔ key.names <+: key'.names :=
  List.prefix_append_right_inj _

theorem Fits.placed_apart (h : Fits folder c) :
    (placed folder c).Pairwise fun o o' => Apart o.1 o'.1 := by
  refine List.pairwise_map.mpr ?_
  refine (List.nodupKeys_iff_pairwise.mp c.bucket.nodupKeys).imp_of_mem ?_
  intro e e' he he' hne
  have hmem : e.1 ∈ c.bucket := mem_of_lookup (AList.mem_lookup_iff.mpr he)
  have hmem' : e'.1 ∈ c.bucket := mem_of_lookup (AList.mem_lookup_iff.mpr he')
  exact ⟨fun hp => hne (h.apart _ hmem _ hmem' (prefix_place_iff.mp hp)),
    fun hp => hne (h.apart _ hmem' _ hmem (prefix_place_iff.mp hp)).symm⟩

/-- On the way to the place of a key there is no file. -/
theorem Fits.clear (h : Fits folder c) (ht : Tidy folder c.disk) {key : PlainKey}
    (hkey : key ∈ c.bucket) {names : Names} (hp : names <+: place folder key)
    (hne : names ≠ place folder key) : (c.disk names).any (·.isFile) = false := by
  by_cases hfolder : names <+: folder.names
  · exact ht.clear names hfolder
  obtain ⟨below, rfl⟩ := (List.prefix_or_prefix_of_prefix hp (List.prefix_append _ _)).resolve_left
    hfolder
  have hbelow : below <+: key.names := (List.prefix_append_right_inj _).mp hp
  cases hfile : c.disk (folder.names ++ below) with
  | none => rfl
  | some e =>
    cases e with
    | dir => rfl
    | file content =>
      obtain ⟨key', hkey', rfl⟩ := h.present below content hfile
      exact absurd (congrArg (place folder) (h.apart key' hkey' key hkey hbelow)) hne

theorem Fits.not_dir (h : Fits folder c) (ht : Tidy folder c.disk) {key : PlainKey}
    (hkey : key ∈ c.bucket) : c.disk (place folder key) ≠ some .dir := by
  intro hdir
  obtain ⟨more, content, hfile⟩ := ht.full key.names key.names_ne_nil hdir
  obtain ⟨key', hkey', hnames⟩ := h.present _ content hfile
  obtain rfl := h.apart key hkey key' hkey' (hnames ▸ List.prefix_append _ _)
  rw [← hnames] at hfile
  cases hfile.symm.trans hdir

theorem Fits.filled (h : Fits folder c) (ht : Tidy folder c.disk) :
    Filled (placed folder c) c.disk (c.download folder cwd).disk := by
  have hkeys : ∀ o ∈ placed folder c, ∃ key ∈ c.bucket, o.1 = place folder key := by
    intro o ho
    obtain ⟨key, hplace, hlookup⟩ := mem_placed.mp ho
    exact ⟨key, mem_of_lookup hlookup, hplace.symm⟩
  rw [download_disk c ht.closed]
  refine (putAll_filled (fun o ho => ?_) h.placed_apart (fun o ho q hq hne => ?_)
    fun o ho => ?_).2
  · obtain ⟨key, -, ho⟩ := hkeys o ho
    rw [ho]
    exact List.append_ne_nil_of_right_ne_nil _ key.names_ne_nil
  · obtain ⟨key, hkey, ho⟩ := hkeys o ho
    rw [ho] at hq hne
    exact h.clear ht hkey hq hne
  · obtain ⟨key, hkey, ho⟩ := hkeys o ho
    rw [ho]
    exact h.not_dir ht hkey

/-- What stands below the folder after a call: an object, the way to one, or what was there. -/
theorem filled_cases (hf : Filled (placed folder c) c.disk c'.disk) (names : Names) :
    (∃ key content, PlainKey.names key = names ∧ c.bucket.lookup key = some content ∧
        c'.disk (folder.names ++ names) = some (.file content)) ∨
      (∃ key content more, PlainKey.names key = names ++ more ∧
        c.bucket.lookup key = some content ∧ c'.disk (folder.names ++ names) = some .dir) ∨
      (∀ key ∈ c.bucket, ¬names <+: PlainKey.names key) ∧
        c'.disk (folder.names ++ names) = c.disk (folder.names ++ names) := by
  by_cases hthrough : ∃ key ∈ c.bucket, names <+: PlainKey.names key
  · obtain ⟨key, hkey, more, hnames⟩ := hthrough
    obtain ⟨content, hlookup⟩ := exists_lookup hkey
    have hmem : (place folder key, content) ∈ placed folder c :=
      mem_placed.mpr ⟨key, rfl, hlookup⟩
    by_cases hend : names = key.names
    · refine .inl ⟨key, content, hend.symm, hlookup, ?_⟩
      rw [hend]
      exact hf.files _ hmem
    · refine .inr (.inl ⟨key, content, more, hnames.symm, hlookup, hf.dirs _ hmem _ ?_ ?_⟩)
      · exact (List.prefix_append_right_inj _).mpr ⟨more, hnames⟩
      · exact fun he => hend (List.append_cancel_left he)
  · push Not at hthrough
    refine .inr (.inr ⟨hthrough, hf.rest _ fun o ho hp => ?_⟩)
    obtain ⟨key, hplace, hlookup⟩ := mem_placed.mp ho
    rw [← hplace] at hp
    exact hthrough key (mem_of_lookup hlookup) ((List.prefix_append_right_inj _).mp hp)

theorem Fits.mirrors (h : Fits folder c) (hf : Filled (placed folder c) c.disk c'.disk)
    (hbucket : c'.bucket = c.bucket) : Mirrors folder c' := by
  intro names content
  rw [hbucket]
  constructor
  · intro hfile
    rcases filled_cases hf names with ⟨key, content', hnames, hlookup, he⟩ | ⟨_, _, _, _, _, he⟩ |
      ⟨hnone, he⟩
    · obtain rfl := Entry.file.inj (Option.some.inj (he.symm.trans hfile))
      exact ⟨key, hnames, hlookup⟩
    · cases he.symm.trans hfile
    · obtain ⟨key, hkey, rfl⟩ := h.present names content (he.symm.trans hfile)
      exact absurd (List.prefix_refl _) (hnone key hkey)
  · rintro ⟨key, rfl, hlookup⟩
    exact hf.files _ (mem_placed.mpr ⟨key, rfl, hlookup⟩)

theorem Fits.tidy (h : Fits folder c) (ht : Tidy folder c.disk)
    (hf : Filled (placed folder c) c.disk c'.disk) (hclosed : Closed c'.disk) :
    Tidy folder c'.disk := by
  refine ⟨hclosed, fun names hnames => ?_, fun names hne hdir => ?_⟩
  · by_cases hthrough : ∃ o ∈ placed folder c, names <+: o.1
    · obtain ⟨o, ho, hp⟩ := hthrough
      obtain ⟨key, hplace, -⟩ := mem_placed.mp ho
      have hend : names ≠ o.1 := by
        rintro rfl
        have hlength := hnames.length_le
        rw [← hplace, place, List.length_append] at hlength
        exact key.names_ne_nil (List.eq_nil_of_length_eq_zero (by omega))
      rw [hf.dirs o ho names hp hend]
      rfl
    · push Not at hthrough
      rw [hf.rest names hthrough]
      exact ht.clear names hnames
  · rcases filled_cases hf names with ⟨_, _, _, _, he⟩ | ⟨key, content, more, hnames, hlookup, -⟩ |
      ⟨hnone, he⟩
    · cases he.symm.trans hdir
    · refine ⟨more, content, ?_⟩
      rw [← hnames]
      exact hf.files _ (mem_placed.mpr ⟨key, rfl, hlookup⟩)
    · obtain ⟨more, content, hfile⟩ := ht.full names hne (he.symm.trans hdir)
      obtain ⟨key, hkey, hnames⟩ := h.present _ content hfile
      exact absurd (hnames ▸ List.prefix_append _ _) (hnone key hkey)

/-- A mirror shows that nothing stale was there and no object was in the way of another. -/
theorem Mirrors.fits (ht : Tidy folder c.disk) (h : Mirrors folder (c.download folder cwd)) :
    Fits folder c := by
  have hgrows : Grows c.disk (c.download folder cwd).disk := by
    rw [download_disk c ht.closed]
    exact putAll_grows _ _
  constructor
  · intro names content hfile
    have hstays := hgrows.files (folder.names ++ names) (by rw [hfile]; rfl)
    obtain ⟨e, he, hisFile⟩ := (Option.any_eq_true _ _).mp hstays
    cases e with
    | dir => cases hisFile
    | file content' =>
      obtain ⟨key, hnames, hlookup⟩ := (h names content').mp he
      exact ⟨key, mem_of_lookup hlookup, hnames⟩
  · intro key hkey key' hkey' hp
    by_contra hne
    obtain ⟨content, hlookup⟩ := exists_lookup hkey
    obtain ⟨content', hlookup'⟩ := exists_lookup hkey'
    have hfile := (h key.names content).mpr ⟨key, rfl, hlookup⟩
    have hfile' := (h key'.names content').mpr ⟨key', rfl, hlookup'⟩
    have hdir := hgrows.closed ht.closed (place folder key) (place folder key')
      (prefix_place_iff.mpr hp) (fun he => hne (PlainKey.names_inj (List.append_cancel_left he)))
      (Option.isSome_iff_exists.mpr ⟨_, hfile'⟩)
    cases hfile.symm.trans hdir

theorem mirrors_iff_fits (ht : Tidy folder c.disk) :
    Mirrors folder (c.download folder cwd) ↔ Fits folder c :=
  ⟨Mirrors.fits ht, fun h => h.mirrors (h.filled ht) rfl⟩

theorem Fresh.tidy {disk : Disk β} (h : Fresh folder disk) : Tidy folder disk where
  closed := h.closed
  clear := h.clear
  full := fun names hne hdir => by
    rw [h.empty names hne] at hdir
    cases hdir

theorem Tidy.step {l : Label β} (ht : Tidy folder c.disk) (hc : FitsBefore folder c l)
    (hstep : c.step folder cwd l = some c') : Tidy folder c'.disk := by
  cases l with
  | upload key content => exact Option.some.inj hstep ▸ ht
  | delete key => exact Option.some.inj hstep ▸ ht
  | download =>
    have hfits : Fits folder c := hc
    obtain rfl := Option.some.inj hstep
    refine hfits.tidy ht (hfits.filled ht) ?_
    rw [download_disk c ht.closed]
    exact (putAll_grows _ _).closed ht.closed

/-- After each call the folder mirrors the bucket exactly where each call found no file without
its object and no key that is a folder of another one. -/
theorem mirrors_along_iff (hfresh : Fresh folder c.disk) (ls : List (Label β)) :
    Machine.Along (Container.step folder cwd) (MirrorsAfter folder cwd) c ls ↔
      Machine.Along (Container.step folder cwd) (FitsBefore folder) c ls := by
  refine (Machine.along_congr (I := fun c => Tidy folder c.disk)
    (fun _ _ _ ht hc hstep => ht.step hc hstep) (fun c l ht => ?_) hfresh.tidy).symm
  cases l with
  | download => exact (mirrors_iff_fits ht).symm
  | upload | delete => exact .rfl

end Runs

def optAirflowDags : DagsFolder := ⟨"/opt/airflow/dags".toList, by decide, by decide⟩

def aPy : PlainKey := ⟨"a.py", by decide⟩

def bPy : PlainKey := ⟨"team/b.py", by decide⟩

/-- A container with an empty disk, and an empty bucket. -/
def newContainer : Container String where
  bucket := ∅
  disk := fun names => if names = [] then some .dir else none

theorem newContainer_fresh : Fresh optAirflowDags newContainer.disk := by
  refine ⟨fun p q hpq hne hq => ?_, fun names _ => ?_, fun names hne => ?_⟩
  · have hq : q = [] := by
      by_contra hnot
      simp [newContainer, hnot] at hq
    rw [hq] at hpq hne
    exact absurd (List.prefix_nil.mp hpq) hne
  · dsimp only [newContainer]
    split_ifs <;> rfl
  · simp [newContainer, hne]

def edits : List (Label String) :=
  [.upload aPy "1", .download, .upload aPy "2", .upload bPy "3", .download]

theorem mirrors_along_iff_edits :
    Machine.Along (Container.step optAirflowDags []) (MirrorsAfter optAirflowDags []) newContainer
        edits ↔
      Machine.Along (Container.step optAirflowDags []) (FitsBefore optAirflowDags) newContainer
        edits :=
  mirrors_along_iff newContainer_fresh edits

/-- The file of a deleted object is still there after the next call. -/
theorem deleted_not_mirrored :
    ¬Machine.Along (Container.step optAirflowDags []) (MirrorsAfter optAirflowDags []) newContainer
      [.upload aPy "1", .download, .delete aPy, .download] := by
  rintro ⟨-, -, -, hmirrors, -⟩
  obtain ⟨key, -, hlookup⟩ := (hmirrors aPy.names "1").mp (by rfl)
  change ((newContainer.bucket.insert aPy "1").erase aPy).lookup key = some "1" at hlookup
  by_cases hkey : key = aPy
  · rw [hkey, AList.lookup_erase] at hlookup
    cases hlookup
  · rw [AList.lookup_erase_ne hkey, AList.lookup_insert_ne hkey] at hlookup
    cases hlookup

end Beeflow.DagsDownloader
