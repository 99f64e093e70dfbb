import Mathlib.Logic.Function.Basic
import Beeflow.Lib.FileTree
import Beeflow.Python.Json

/-!
# The bucket manager of the experiments

`publish_dags` uploads below a folder of the bucket and `clear_dags` deletes by
the folder's path as a prefix of the key, without the slash behind it. Other
objects whose keys start with the same characters go as well.
-/

namespace Beeflow.Experiments

open FileTree Python

abbrev Bucket (β : Type*) := String → Option β

structure BucketManager where
  s3DagsPath : Option String

variable {β : Type*}

namespace Bucket

def put (bucket : Bucket β) (key : String) (content : β) : Bucket β :=
  Function.update bucket key (some content)

/-- `.delete()` of a collection of the bucket's objects -/
def delete (bucket : Bucket β) (collection : String → Bool) : Bucket β :=
  fun key => if collection key then none else bucket key

/-- `upload_file` for one file after another -/
def upload (bucket : Bucket β) (key : String → String) (files : List (String × β)) : Bucket β :=
  files.foldl (fun bucket file => bucket.put (key file.1) file.2) bucket

theorem upload_of_ne {bucket : Bucket β} {key : String → String} {files : List (String × β)}
    {other : String} (h : ∀ file ∈ files, key file.1 ≠ other) :
    bucket.upload key files other = bucket other := by
  induction files generalizing bucket with
  | nil => rfl
  | cons file files ih =>
    obtain ⟨hne, h⟩ := List.forall_mem_cons.mp h
    exact (ih h).trans (Function.update_of_ne hne.symm _ _)

end Bucket

namespace BucketManager

def clearDags (m : BucketManager) (bucket : Bucket β) : Bucket β :=
  match m.s3DagsPath with
  | none => bucket.delete fun _ => true
  | some path => bucket.delete fun key => path.toList.isPrefixOf key.toList

def s3Key (m : BucketManager) (file : String) : String :=
  match m.s3DagsPath with
  | some path => path ++ "/" ++ file
  | none => file

/-- The files of a folder, in the order of `listdir`. -/
def dagFiles (entries : List (String × Entry β)) : List (String × β) :=
  entries.filterMap fun
    | (name, .file content) => if name = "BUILD" then none else some (name, content)
    | (_, .dir) => none

/-- The bucket afterwards, and what is returned; `listdir` knows the directories of the disk. -/
def publishDags (m : BucketManager) (listdir : String → Option (List (String × Entry β)))
    (dagsPath : String) (bucket : Bucket β) : Bucket β × Except PyError (List String) :=
  match listdir dagsPath with
  | none =>
    (bucket, .error (.valueError "Dag's path " (.str dagsPath) " is not a valid directory"))
  | some entries =>
    let files := dagFiles entries
    (bucket.upload m.s3Key files, .ok (files.map Prod.fst))

-- ---------------------------------------------------------------------------
-- The folder
-- ---------------------------------------------------------------------------

/-- The keys below the folder, all keys where there is none. -/
def InFolder (m : BucketManager) (key : String) : Prop :=
  match m.s3DagsPath with
  | some path => (path ++ "/").toList <+: key.toList
  | none => True

instance (m : BucketManager) (key : String) : Decidable (m.InFolder key) := by
  unfold InFolder
  split
  · infer_instance
  · infer_instance

/-- What `clear_dags` deletes is what is in the folder. -/
def ClearsFolder (m : BucketManager) (bucket : Bucket β) : Prop :=
  ∀ key, m.clearDags bucket key = if m.InFolder key then none else bucket key

/-- With nothing in the folder, publishing and clearing leaves the bucket as it was. -/
def Restores (m : BucketManager) (bucket : Bucket β) : Prop :=
  (∀ key, m.InFolder key → bucket key = none) →
    ∀ listdir dagsPath files bucket', m.publishDags listdir dagsPath bucket = (bucket', .ok files) →
      m.clearDags bucket' = bucket

/-- Every object whose key starts with the path is in the folder. -/
def Separate (m : BucketManager) (bucket : Bucket β) : Prop :=
  ∀ path, m.s3DagsPath = some path → ∀ key, (bucket key).isSome →
    path.toList <+: key.toList → (path ++ "/").toList <+: key.toList

section Frames

variable {m : BucketManager} {bucket : Bucket β} {key : String}

theorem inFolder_s3Key (m : BucketManager) (file : String) : m.InFolder (m.s3Key file) := by
  obtain ⟨_ | path⟩ := m
  · trivial
  · exact ⟨file.toList, by simp [s3Key]⟩

theorem upload_outside (files : List (String × β)) (hkey : ¬m.InFolder key) :
    bucket.upload m.s3Key files key = bucket key := by
  refine Bucket.upload_of_ne ?_
  rintro file - rfl
  exact hkey (m.inFolder_s3Key file.1)

/-- Publishing leaves everything outside the folder alone. -/
theorem publishDags_outside {listdir : String → Option (List (String × Entry β))}
    {dagsPath : String} {files : List String} {bucket' : Bucket β}
    (h : m.publishDags listdir dagsPath bucket = (bucket', .ok files)) (hkey : ¬m.InFolder key) :
    bucket' key = bucket key := by
  unfold publishDags at h
  cases hl : listdir dagsPath with
  | none => simp [hl] at h
  | some entries =>
    rw [hl] at h
    obtain ⟨rfl, -⟩ := Prod.mk.inj h
    exact upload_outside _ hkey

theorem clearDags_inFolder (hkey : m.InFolder key) : m.clearDags bucket key = none := by
  obtain ⟨_ | path⟩ := m
  · rfl
  · have hslash : path.toList <+: (path ++ "/").toList := by simp
    exact if_pos (List.isPrefixOf_iff_prefix.mpr (hslash.trans hkey))

/-- Clearing what is not in the folder takes an object only where its key starts with the path. -/
theorem clearDags_outside (bucket : Bucket β) (hkey : ¬m.InFolder key) :
    m.clearDags bucket key = bucket key ∨
      ∃ path, m.s3DagsPath = some path ∧ path.toList <+: key.toList ∧
        m.clearDags bucket key = none := by
  obtain ⟨_ | path⟩ := m
  · exact absurd trivial hkey
  · by_cases hpath : path.toList <+: key.toList
    · exact .inr ⟨path, rfl, hpath, if_pos (List.isPrefixOf_iff_prefix.mpr hpath)⟩
    · exact .inl (if_neg fun h => hpath (List.isPrefixOf_iff_prefix.mp h))

/-- Clearing leaves alone what another bucket has outside the folder, if that one is separate. -/
theorem Separate.clearDags_eq (h : m.Separate bucket) (hkey : ¬m.InFolder key)
    {bucket' : Bucket β} (hb : bucket' key = bucket key) :
    m.clearDags bucket' key = bucket key := by
  obtain hsame | ⟨path, hm, hpath, hnone⟩ := clearDags_outside bucket' hkey
  · exact hsame.trans hb
  · -- the object that a clearing by characters would take is not there
    rw [hnone, eq_comm, ← Option.not_isSome_iff_eq_none]
    intro hsome
    refine hkey ?_
    rw [InFolder, hm]
    exact h path hm key hsome hpath

theorem ClearsFolder.separate (h : m.ClearsFolder bucket) : m.Separate bucket := by
  intro path hm key hsome hpath
  by_contra hslash
  have hkey : ¬m.InFolder key := by
    rwa [InFolder, hm]
  have hnone : m.clearDags bucket key = none := by
    rw [clearDags, hm]
    exact if_pos (List.isPrefixOf_iff_prefix.mpr hpath)
  rw [h key, if_neg hkey] at hnone
  exact absurd hsome (by simp [hnone])

/-- A path is cleared as the folder it names exactly where the rest of the bucket keeps clear of
it, and then publishing and clearing undo each other. -/
theorem clears_iff (m : BucketManager) (bucket : Bucket β) :
    (m.ClearsFolder bucket ∧ m.Restores bucket) ↔ m.Separate bucket := by
  refine ⟨fun h => h.1.separate, fun hseparate => ⟨fun key => ?_, ?_⟩⟩
  · split_ifs with hkey
    · exact clearDags_inFolder hkey
    · exact hseparate.clearDags_eq hkey rfl
  · intro hempty listdir dagsPath files bucket' hpublish
    funext key
    by_cases hkey : m.InFolder key
    · rw [clearDags_inFolder hkey, hempty key hkey]
    · exact hseparate.clearDags_eq hkey (publishDags_outside hpublish hkey)

/-- A backup next to the folder is taken for a part of it. -/
theorem backup_cleared :
    let m : BucketManager := ⟨some "dags"⟩
    let bucket : Bucket Nat := Bucket.put (fun _ => none) "dags_backup/x.py" 0
    ¬m.ClearsFolder bucket ∧ ¬m.Restores bucket := by
  intro m bucket
  have hgone : ∀ bucket : Bucket Nat, m.clearDags bucket "dags_backup/x.py" = none := by
    have hpath : "dags".toList.isPrefixOf "dags_backup/x.py".toList = true := by decide
    intro bucket
    show (if "dags".toList.isPrefixOf "dags_backup/x.py".toList then none
      else bucket "dags_backup/x.py") = none
    rw [hpath, if_pos rfl]
  have hthere : bucket "dags_backup/x.py" = some 0 := by decide
  have hkey : ¬m.InFolder "dags_backup/x.py" := by decide
  constructor
  · intro h
    have hcleared := h "dags_backup/x.py"
    rw [hgone, if_neg hkey, hthere] at hcleared
    cases hcleared
  · intro h
    have hempty : ∀ key, m.InFolder key → bucket key = none := by
      intro key hin
      refine Function.update_of_ne ?_ _ _
      rintro rfl
      exact hkey hin
    have hrestored := congrFun (h hempty (fun _ => some [("dag.py", .file 1)]) "experiment"
      ["dag.py"] _ rfl) "dags_backup/x.py"
    rw [hgone, hthere] at hrestored
    cases hrestored

end Frames

end BucketManager

end Beeflow.Experiments
