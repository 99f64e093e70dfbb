import Mathlib.Data.Set.Function
import Beeflow.DagsDownloader.Download

/-!
# The files of the objects

A key of a bucket is any text, and `os.path.join` follows it where it leads: to
the root behind a leading slash, up at each `..`, nowhere at an empty part. The
objects have files of their own below the DAGs folder as long as the names that
are left of their keys without all that differ.
-/

namespace Beeflow.DagsDownloader

open FileTree Python

/-- `settings.DAGS_FOLDER` -/
abbrev AbsoluteFolder := { path : Path // Path.absolute path = true }

def AbsoluteFolder.names (folder : AbsoluteFolder) : Names := Path.resolve [] folder.1

def DagsFolder.toAbsolute (folder : DagsFolder) : AbsoluteFolder := ⟨folder.path, folder.absolute⟩

/-- The place of `full_local_path`; the path starts at the root. -/
def localFile (folder : AbsoluteFolder) (key : String) : Names :=
  Path.resolve [] (localPaths folder.1 key.toList).2

/-- The folders on the way to the DAGs folder, and those that `os.makedirs` makes for the keys, in
this call or an earlier one. -/
def folders (folder : AbsoluteFolder) (keys : Set String) : Set Names :=
  { names | names ∈ Path.visits [] folder.1 ∨
    ∃ key ∈ keys, names ∈ Path.visits [] (localPaths folder.1 key.toList).1 }

/-- The objects have files below the DAGs folder that are no folders, each one its own. A download
keeps what another one has written and what is outside. -/
structure LocalFiles (β : Type*) (folder : AbsoluteFolder) (keys : Set String) : Prop where
  inside : ∀ key ∈ keys, ∃ names, names ≠ [] ∧ localFile folder key = folder.names ++ names
  file : ∀ key ∈ keys, '\x00' ∉ (localPaths folder.1 key.toList).2 ∧
    localFile folder key ∉ folders folder keys
  distinct : keys.InjOn (localFile folder)
  kept : ∀ (cwd : Names) (objects : List (String × β)) (disk : Disk β),
    (∀ o ∈ objects, o.1 ∈ keys) → (objects.map Prod.fst).Nodup →
    ∀ o ∈ objects.take (downloadDags folder.1 cwd objects disk).downloadedDagFiles,
      fileAt (downloadDags folder.1 cwd objects disk).disk (localFile folder o.1) = some o.2
  outside : ∀ (cwd : Names) (objects : List (String × β)) (disk : Disk β),
    (∀ o ∈ objects, o.1 ∈ keys) → ∀ names, ¬folder.names <+: names →
      fileAt (downloadDags folder.1 cwd objects disk).disk names = fileAt disk names

-- ---------------------------------------------------------------------------
-- The spelling of the keys
-- ---------------------------------------------------------------------------

/-- The names that are left of some parts below the folder. What they go up, or all of the folder
behind a leading slash, they have to come down again. -/
def namesBelow (folder : Names) (absolute : Bool) (parts : List (List Char)) : Option Names :=
  let (ups, names) := Path.normal parts
  let back := if absolute then folder else folder.drop (folder.length - ups)
  if back <+: names then some (names.drop back.length) else none

def keyNames (folder : AbsoluteFolder) (key : String) : Option Names :=
  namesBelow folder.names (Path.absolute key.toList) (key.toList.splitOn '/')

/-- Each key has names below the folder, and other ones than the other keys. At none of their
slashes do the keys and the DAGs folder itself come by the names of a key. -/
structure SpelledApart (folder : AbsoluteFolder) (keys : Set String) : Prop where
  leads : ∀ key ∈ keys, ∃ names, names ≠ [] ∧ keyNames folder key = some names
  clean : ∀ key ∈ keys, '\x00' ∉ key.toList ∧ (Path.absolute key.toList ∨ '\x00' ∉ folder.1)
  passes : ∀ key ∈ keys, ∀ key' ∈ keys, ∀ dir, dir <+: (key'.toList.splitOn '/').dropLast →
    namesBelow folder.names (Path.absolute key'.toList) dir ≠ keyNames folder key
  clear : ∀ key ∈ keys, ∀ dir, dir <+: folder.1.splitOn '/' →
    namesBelow folder.names true dir ≠ keyNames folder key
  distinct : keys.InjOn (keyNames folder)

section Spelling

variable {folder : AbsoluteFolder} {keys : Set String} {key : String} {names more : Names}
  {parts : List (List Char)}

theorem namesBelow_eq_some {absolute : Bool} : namesBelow names absolute parts = some more ↔
    Path.walk (if absolute then [] else names) parts = names ++ more := by
  have hback (back down : Names) :
      (if back <+: down then some (down.drop back.length) else none) = some more ↔
        down = back ++ more := by
    split_ifs with hprefix
    · obtain ⟨rest, rfl⟩ := hprefix
      rw [List.drop_left, Option.some.injEq, List.append_cancel_left_eq]
    · refine iff_of_false (by simp) ?_
      rintro rfl
      exact hprefix (List.prefix_append _ _)
  cases absolute with
  | true =>
    rw [if_pos rfl, Path.walk_eq, List.take_nil, List.nil_append]
    exact hback names (Path.normal parts).2
  | false =>
    -- what the walk keeps of the folder stands in front on both sides
    have hkept : names ++ more = names.take (names.length - (Path.normal parts).1) ++
        (names.drop (names.length - (Path.normal parts).1) ++ more) := by
      rw [← List.append_assoc, List.take_append_drop]
    rw [if_neg Bool.false_ne_true, Path.walk_eq, hkept, List.append_cancel_left_eq]
    exact hback _ (Path.normal parts).2

theorem keyNames_eq_some : keyNames folder key = some more ↔
    localFile folder key = folder.names ++ more := by
  rw [localFile, resolve_fullLocalPath _ folder.2]
  exact namesBelow_eq_some

/-- No NUL is in the local path where none comes from the key or the folder. -/
theorem nul_not_mem_iff : '\x00' ∉ (localPaths folder.1 key.toList).2 ↔
    '\x00' ∉ key.toList ∧ (Path.absolute key.toList ∨ '\x00' ∉ folder.1) := by
  rw [mem_fullLocalPath _ folder.2 (by decide), not_or, and_comm, not_and_or, Bool.not_eq_false]

theorem mem_folders : names ∈ folders folder keys ↔
    (∃ dir, dir <+: folder.1.splitOn '/' ∧ Path.walk [] dir = names) ∨
      ∃ key ∈ keys, ∃ dir, dir <+: (key.toList.splitOn '/').dropLast ∧
        Path.walk (if Path.absolute key.toList then [] else folder.names) dir = names := by
  have hfolder : names ∈ Path.visits [] folder.1 ↔
      ∃ dir, dir <+: folder.1.splitOn '/' ∧ Path.walk [] dir = names := by
    rw [Path.mem_visits, folder.2, if_pos rfl]
    rfl
  rw [← hfolder]
  constructor
  · rintro (hvisit | ⟨key, hkey, hvisit⟩)
    · exact .inl hvisit
    · rcases (mem_visits_localPath _ folder.2).mp hvisit with ⟨-, hvisit⟩ | hpass
      · exact .inl hvisit
      · exact .inr ⟨key, hkey, hpass⟩
  · rintro (hvisit | ⟨key, hkey, hpass⟩)
    · exact .inl hvisit
    · exact .inr ⟨key, hkey, (mem_visits_localPath _ folder.2).mpr (.inr hpass)⟩

end Spelling

-- ---------------------------------------------------------------------------
-- The loop
-- ---------------------------------------------------------------------------

section Loop

variable {β : Type*} {folder : AbsoluteFolder} {cwd : Names} {objects : List (String × β)}
  {names : Names}

/-- A turn makes the folders, and writes the file if they are all there. -/
theorem downloadObject_cases (folder : AbsoluteFolder) (cwd : Names) (key : String) (content : β)
    (disk : Disk β) :
    downloadObject folder.1 cwd key content disk =
        ((makeEach (Path.visits cwd (localPaths folder.1 key.toList).1) disk).1, false) ∨
      ∃ disk₁ disk₂, makeEach (Path.visits cwd (localPaths folder.1 key.toList).1) disk =
          (disk₁, true) ∧ write disk₁ (localFile folder key) content = some disk₂ ∧
        downloadObject folder.1 cwd key content disk = (disk₂, true) := by
  have hfile : Path.resolve cwd (localPaths folder.1 key.toList).2 = localFile folder key := by
    rw [localFile, resolve_fullLocalPath _ folder.2, resolve_fullLocalPath _ folder.2]
  unfold downloadObject
  dsimp only
  rw [hfile, if_neg (Path.absolute_ne_nil (absolute_localPath _ folder.2))]
  obtain ⟨disk₁, made⟩ := makeEach (Path.visits cwd (localPaths folder.1 key.toList).1) disk
  cases made with
  | false => exact .inl rfl
  | true =>
    dsimp only
    cases hwrite : write disk₁ (localFile folder key) content with
    | none => exact .inl rfl
    | some disk₂ => exact .inr ⟨disk₁, disk₂, rfl, hwrite, rfl⟩

/-- A turn that ends well writes the one file, any other one none. -/
theorem fileAt_downloadObject (folder : AbsoluteFolder) (cwd : Names) (key : String) (content : β)
    (disk : Disk β) : fileAt (downloadObject folder.1 cwd key content disk).1 =
      if (downloadObject folder.1 cwd key content disk).2
      then Function.update (fileAt disk) (localFile folder key) (some content)
      else fileAt disk := by
  obtain hfailed | ⟨disk₁, disk₂, hmade, hwrite, hdone⟩ :=
    downloadObject_cases folder cwd key content disk
  · rw [hfailed, if_neg Bool.false_ne_true, fileAt_makeEach]
  · have hfolders := fileAt_makeEach (Path.visits cwd (localPaths folder.1 key.toList).1) disk
    rw [hmade] at hfolders
    rw [hdone, if_pos rfl, fileAt_write hwrite, hfolders]

theorem fileAt_downloadDags_of_ne {disk : Disk β}
    (h : ∀ o ∈ objects, localFile folder o.1 ≠ names) :
    fileAt (downloadDags folder.1 cwd objects disk).disk names = fileAt disk names := by
  induction objects generalizing disk with
  | nil => rfl
  | cons o objects ih =>
    obtain ⟨hne, hrest⟩ := List.forall_mem_cons.mp h
    obtain ⟨key, content⟩ := o
    have hturn : fileAt (downloadObject folder.1 cwd key content disk).1 names =
        fileAt disk names := by
      rw [fileAt_downloadObject]
      split_ifs
      · exact Function.update_of_ne hne.symm _ _
      · rfl
    unfold downloadDags
    split
    · rename_i disk₁ hobject
      rwa [hobject] at hturn
    · rename_i disk₁ hobject
      rw [hobject] at hturn
      exact (ih hrest).trans hturn

/-- An object that has been downloaded is in its file if the others have other files. -/
theorem fileAt_downloadDags {disk : Disk β}
    (h : objects.Pairwise fun o o' => localFile folder o.1 ≠ localFile folder o'.1) :
    ∀ o ∈ objects.take (downloadDags folder.1 cwd objects disk).downloadedDagFiles,
      fileAt (downloadDags folder.1 cwd objects disk).disk (localFile folder o.1) = some o.2 := by
  induction objects generalizing disk with
  | nil => simp
  | cons o objects ih =>
    obtain ⟨hne, hrest⟩ := List.pairwise_cons.mp h
    obtain ⟨key, content⟩ := o
    have hturn := congrFun (fileAt_downloadObject folder cwd key content disk)
      (localFile folder key)
    unfold downloadDags
    split
    · simp
    · rename_i disk₁ hobject
      rw [hobject, if_pos rfl, Function.update_self] at hturn
      dsimp only
      rw [List.take_succ_cons]
      refine List.forall_mem_cons.mpr ⟨?_, ih hrest⟩
      exact (fileAt_downloadDags_of_ne fun o ho => (hne o ho).symm).trans hturn

/-- The folders of a turn that ends well are those on the way of its local path. -/
theorem downloadObject_folders {key : String} {content : β} {disk disk' : Disk β}
    (h : downloadObject folder.1 cwd key content disk = (disk', true)) :
    disk' names = some .dir ↔
      disk names = some .dir ∨ names ∈ Path.visits [] (localPaths folder.1 key.toList).1 := by
  obtain hfailed | ⟨disk₁, disk₂, hmade, hwrite, hdone⟩ :=
    downloadObject_cases folder cwd key content disk
  · cases hfailed.symm.trans h
  · obtain rfl : disk₂ = disk' := congrArg Prod.fst (hdone.symm.trans h)
    obtain ⟨-, rfl⟩ := makeEach_eq_true.mp hmade
    rw [write_dir hwrite, ← Path.exists_visits_iff (absolute_localPath _ folder.2)]
    split_ifs with hway
    · exact iff_of_true rfl (.inr hway)
    · exact (or_iff_left hway).symm

/-- Once the loop has gone through, the folders of its objects are there, and no others but those
that were there before. -/
theorem downloadDags_folders {disk : Disk β}
    (h : (downloadDags folder.1 cwd objects disk).raised = false) :
    (downloadDags folder.1 cwd objects disk).disk names = some .dir ↔ disk names = some .dir ∨
      ∃ o ∈ objects, names ∈ Path.visits [] (localPaths folder.1 o.1.toList).1 := by
  induction objects generalizing disk with
  | nil => simp [downloadDags]
  | cons o objects ih =>
    obtain ⟨key, content⟩ := o
    unfold downloadDags at h ⊢
    split at h
    · cases h
    · rename_i disk₁ hobject
      refine (ih h).trans ?_
      rw [downloadObject_folders hobject, or_assoc, List.exists_mem_cons_iff]

end Loop

-- ---------------------------------------------------------------------------
-- The files and the spelling
-- ---------------------------------------------------------------------------

section Files

variable {β : Type*} {folder : AbsoluteFolder} {keys : Set String} {key : String}

theorem LocalFiles.place (h : LocalFiles β folder keys) (hkey : key ∈ keys) :
    ∃ names, names ≠ [] ∧ keyNames folder key = some names ∧
      localFile folder key = folder.names ++ names := by
  obtain ⟨names, hne, hfile⟩ := h.inside key hkey
  exact ⟨names, hne, keyNames_eq_some.mpr hfile, hfile⟩

theorem SpelledApart.place (h : SpelledApart folder keys) (hkey : key ∈ keys) :
    ∃ names, names ≠ [] ∧ keyNames folder key = some names ∧
      localFile folder key = folder.names ++ names := by
  obtain ⟨names, hne, hnames⟩ := h.leads key hkey
  exact ⟨names, hne, hnames, keyNames_eq_some.mp hnames⟩

theorem LocalFiles.spelledApart (h : LocalFiles β folder keys) : SpelledApart folder keys := by
  constructor
  case leads =>
    intro key hkey
    obtain ⟨names, hne, hnames, -⟩ := h.place hkey
    exact ⟨names, hne, hnames⟩
  case clean => exact fun key hkey => nul_not_mem_iff.mp (h.file key hkey).1
  case passes =>
    intro key hkey key' hkey' dir hdir hsame
    obtain ⟨names, -, hnames, hfile⟩ := h.place hkey
    have hwalk := namesBelow_eq_some.mp (hsame.trans hnames)
    exact (h.file key hkey).2 (mem_folders.mpr
      (.inr ⟨key', hkey', dir, hdir, hwalk.trans hfile.symm⟩))
  case clear =>
    intro key hkey dir hdir hsame
    obtain ⟨names, -, hnames, hfile⟩ := h.place hkey
    have hwalk := namesBelow_eq_some.mp (hsame.trans hnames)
    exact (h.file key hkey).2 (mem_folders.mpr (.inl ⟨dir, hdir, hwalk.trans hfile.symm⟩))
  case distinct =>
    intro key hkey key' hkey' hsame
    obtain ⟨names, -, hnames, hfile⟩ := h.place hkey
    exact h.distinct hkey hkey' (hfile.trans (keyNames_eq_some.mp (hsame ▸ hnames)).symm)

theorem SpelledApart.injOn (h : SpelledApart folder keys) : keys.InjOn (localFile folder) := by
  intro key hkey key' hkey' hsame
  obtain ⟨names, -, hnames, hfile⟩ := h.place hkey
  exact h.distinct hkey hkey' (hnames.trans (keyNames_eq_some.mpr (hsame ▸ hfile)).symm)

theorem SpelledApart.localFiles (h : SpelledApart folder keys) : LocalFiles β folder keys := by
  constructor
  case inside =>
    intro key hkey
    obtain ⟨names, hne, -, hfile⟩ := h.place hkey
    exact ⟨names, hne, hfile⟩
  case file =>
    refine fun key hkey => ⟨nul_not_mem_iff.mpr (h.clean key hkey), fun hmem => ?_⟩
    obtain ⟨names, -, hnames, hfile⟩ := h.place hkey
    rw [hfile] at hmem
    rcases mem_folders.mp hmem with ⟨dir, hdir, hwalk⟩ | ⟨key', hkey', dir, hdir, hwalk⟩
    · have hbelow : namesBelow folder.names true dir = some names := namesBelow_eq_some.mpr hwalk
      exact h.clear key hkey dir hdir (hbelow.trans hnames.symm)
    · exact h.passes key hkey key' hkey' dir hdir
        ((namesBelow_eq_some.mpr hwalk).trans hnames.symm)
  case distinct => exact h.injOn
  case kept =>
    intro cwd objects disk hkeys hnodup
    refine fileAt_downloadDags ((List.pairwise_map.mp hnodup).imp_of_mem ?_)
    intro o o' ho ho' hne hsame
    exact hne (h.injOn (hkeys o ho) (hkeys o' ho') hsame)
  case outside =>
    intro cwd objects disk hkeys names hnames
    refine fileAt_downloadDags_of_ne fun o ho hsame => hnames ?_
    obtain ⟨below, -, -, hfile⟩ := h.place (hkeys o ho)
    exact ⟨below, hfile.symm.trans hsame⟩

/-- Every object has a file of its own below the DAGs folder exactly where the keys are spelled
apart. -/
theorem localFiles_iff (β : Type*) (folder : AbsoluteFolder) (keys : Set String) :
    LocalFiles β folder keys ↔ SpelledApart folder keys :=
  ⟨LocalFiles.spelledApart, SpelledApart.localFiles⟩

end Files

/-- The file of a key with a leading slash is outside of the DAGs folder. -/
theorem root_not_inside : ¬LocalFiles String optAirflowDags.toAbsolute {"/a.py"} := by
  intro h
  obtain ⟨names, -, hfile⟩ := h.inside "/a.py" rfl
  have hroot : localFile optAirflowDags.toAbsolute "/a.py" = ["a.py".toList] := by decide
  have hfolder : optAirflowDags.toAbsolute.names.length = 3 := by decide
  have hlength := congrArg List.length (hroot.symm.trans hfile)
  rw [List.length_append, hfolder, List.length_singleton] at hlength
  omega

example : keyNames optAirflowDags.toAbsolute "team//b.py" =
      keyNames optAirflowDags.toAbsolute "team/b.py" ∧
    keyNames optAirflowDags.toAbsolute "../a.py" = none ∧
    keyNames optAirflowDags.toAbsolute "../dags/a.py" = some ["a.py".toList] := by decide

-- ---------------------------------------------------------------------------
-- Plain keys
-- ---------------------------------------------------------------------------

section Plain

variable {folder : DagsFolder} {keys : Set PlainKey}

theorem namesBelow_plain (folder : DagsFolder) {dir : Names}
    (h : ∀ name ∈ dir, Path.PlainName name) : namesBelow folder.names false dir = some dir :=
  namesBelow_eq_some.mpr (Path.walk_plain _ h)

theorem keyNames_plain (folder : DagsFolder) (key : PlainKey) :
    keyNames folder.toAbsolute key.1 = some key.names := by
  rw [keyNames, absolute_plain]
  exact namesBelow_plain folder key.2.1

/-- The DAGs folder itself has no names below it. -/
theorem namesBelow_folder {dir names : Names} (hdir : dir <+: folder.path.splitOn '/')
    (h : namesBelow folder.names true dir = some names) : names = [] := by
  have hwalk : Path.walk [] dir = folder.names ++ names := namesBelow_eq_some.mp h
  have hprefix : Path.walk [] dir <+: folder.names := by
    rw [DagsFolder.names, Path.resolve, folder.absolute, if_pos rfl]
    exact Path.prefix_of_passes (fun name hname he => folder.plain (he ▸ hname)) ⟨dir, hdir, rfl⟩
  have hlength := hprefix.length_le
  rw [hwalk, List.length_append] at hlength
  exact List.eq_nil_of_length_eq_zero (by omega)

/-- Keys of names that stand for themselves are spelled apart where none is a folder of another. -/
theorem spelledApart_plain (hfolder : '\x00' ∉ folder.path) :
    SpelledApart folder.toAbsolute (Subtype.val '' keys) ↔
      ∀ key ∈ keys, ∀ key' ∈ keys, PlainKey.names key <+: PlainKey.names key' → key = key' := by
  constructor
  · intro h key hkey key' hkey' hprefix
    by_contra hne
    have hnames : key.names ≠ key'.names := fun he => hne (PlainKey.names_inj he)
    have hpass := h.passes _ ⟨key, hkey, rfl⟩ _ ⟨key', hkey', rfl⟩ key.names
      (prefix_dropLast hprefix hnames)
    rw [absolute_plain, keyNames_plain] at hpass
    exact hpass (namesBelow_plain folder key.2.1)
  · intro h
    constructor
    case leads =>
      rintro _ ⟨key, -, rfl⟩
      exact ⟨_, PlainKey.names_ne_nil key, keyNames_plain folder key⟩
    case clean =>
      rintro _ ⟨key, -, rfl⟩
      exact ⟨key.2.2, .inr hfolder⟩
    case passes =>
      rintro _ ⟨key, hkey, rfl⟩ _ ⟨key', hkey', rfl⟩ dir hdir hsame
      have hplain : ∀ name ∈ dir, Path.PlainName name := fun name hname =>
        key'.2.1 name (List.dropLast_subset _ (hdir.subset hname))
      rw [absolute_plain, keyNames_plain] at hsame
      obtain rfl : dir = PlainKey.names key :=
        Option.some.inj ((namesBelow_plain folder hplain).symm.trans hsame)
      obtain rfl := h key hkey key' hkey' (hdir.trans (List.dropLast_prefix _))
      have hself : PlainKey.names key <+: (PlainKey.names key).dropLast := hdir
      exact ((prefix_dropLast_iff (PlainKey.names_ne_nil key)).mp hself).2 rfl
    case clear =>
      rintro _ ⟨key, -, rfl⟩ dir hdir hsame
      have hnames := hsame.trans (keyNames_plain folder key)
      exact PlainKey.names_ne_nil key (namesBelow_folder hdir hnames)
    case distinct =>
      rintro _ ⟨key, -, rfl⟩ _ ⟨key', -, rfl⟩ hsame
      rw [keyNames_plain, keyNames_plain] at hsame
      rw [PlainKey.names_inj (Option.some.inj hsame)]

end Plain

end Beeflow.DagsDownloader
