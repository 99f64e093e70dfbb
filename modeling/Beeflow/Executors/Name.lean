import Beeflow.Executors.Event
import Beeflow.Lib.Decimals
import Mathlib

/-!
# The name of a Step Functions execution

`StepFunctionsNameCreator.from_ti_queued_event` feeds six fields of the event
to SHA-256, one behind the other and with nothing between them. SHA-256 is a
parameter; what is proved of it is assumed of the two inputs at hand.
-/

namespace Beeflow.Executors

open Decimals

/-- `bytes(s, 'UTF-8')` -/
def utf8 (s : String) : List UInt8 := s.toUTF8.data.toList

/-- The arguments of the six calls of `m.update`. -/
def updates (event : TaskInstanceQueued) : List (List UInt8) := [
  utf8 event.dagId,
  utf8 event.taskId,
  utf8 event.runId,
  utf8 event.queuedDttm,
  utf8 (toString event.mapIndex),
  utf8 (toString event.tryNumber)]

def hashed (event : TaskInstanceQueued) : List UInt8 := (updates event).flatten

/-- `sha256` is the hexadecimal digest. -/
def fromTiQueuedEvent (sha256 : List UInt8 → String) (event : TaskInstanceQueued) : String :=
  sha256 (hashed event)

theorem utf8_injective : Function.Injective utf8 := by
  intro s t h
  refine String.toByteArray_inj.mp ?_
  exact ByteArray.ext (Array.toList_inj.mp h)

theorem utf8_append (s t : String) : utf8 (s ++ t) = utf8 s ++ utf8 t := by
  unfold utf8
  rw [String.toUTF8_eq_toByteArray, String.toByteArray_append]
  simp

/-- The six texts behind one another. -/
def joined (event : TaskInstanceQueued) : String :=
  event.dagId ++ event.taskId ++ event.runId ++ event.queuedDttm ++
    toString event.mapIndex ++ toString event.tryNumber

theorem hashed_eq_utf8 (event : TaskInstanceQueued) : hashed event = utf8 (joined event) := by
  simp [hashed, updates, joined, utf8_append]

theorem hashed_inj {a b : TaskInstanceQueued} : hashed a = hashed b ↔ joined a = joined b := by
  rw [hashed_eq_utf8, hashed_eq_utf8, utf8_injective.eq_iff]

/-- The bytes differ and, unless the digest collides on just these two inputs, the names do. -/
def ToldApart (sha256 : List UInt8 → String) (a b : TaskInstanceQueued) : Prop :=
  hashed a ≠ hashed b ∧
    ((sha256 (hashed a) = sha256 (hashed b) → hashed a = hashed b) →
      fromTiQueuedEvent sha256 a ≠ fromTiQueuedEvent sha256 b)

theorem toldApart_iff (sha256 : List UInt8 → String) {a b : TaskInstanceQueued} :
    ToldApart sha256 a b ↔ joined a ≠ joined b := by
  unfold ToldApart
  rw [Ne, hashed_inj]
  constructor
  · exact And.left
  · intro hne
    exact ⟨hne, fun hsha hname => hne (hsha hname)⟩

theorem toldApart_imp_iff (sha256 : List UInt8 → String) {a b : TaskInstanceQueued} :
    (a.episode ≠ b.episode → ToldApart sha256 a b) ↔
      (joined a = joined b → a.episode = b.episode) := by
  rw [toldApart_iff, not_imp_not]

/-! ## Two events, by the lengths of their fields -/

/-- How long the six texts are, in characters. -/
def fieldLengths (event : TaskInstanceQueued) : List Nat := [
  event.dagId.length,
  event.taskId.length,
  event.runId.length,
  event.queuedDttm.length,
  (toString event.mapIndex).length,
  (toString event.tryNumber).length]

theorem length_joined (event : TaskInstanceQueued) :
    (joined event).length = (fieldLengths event).sum := by
  simp [joined, fieldLengths]
  omega

/-- Where the six fields have the same lengths, no border can be in another place. -/
theorem episode_eq_of_lengths {a b : TaskInstanceQueued} (hlen : fieldLengths a = fieldLengths b)
    (h : joined a = joined b) : a.episode = b.episode := by
  simp only [fieldLengths, List.cons.injEq, and_true, ← String.length_toList] at hlen
  obtain ⟨hdag, htask, hrun, hdttm, hmap, htry⟩ := hlen
  have hchars := congrArg String.toList h
  simp only [joined, String.toList_append] at hchars
  obtain ⟨hchars, htry⟩ := List.append_inj' hchars htry
  obtain ⟨hchars, hmap⟩ := List.append_inj' hchars hmap
  obtain ⟨hchars, hdttm⟩ := List.append_inj' hchars hdttm
  obtain ⟨hchars, hrun⟩ := List.append_inj' hchars hrun
  obtain ⟨hdag, htask⟩ := List.append_inj' hchars htask
  unfold TaskInstanceQueued.episode
  rw [String.toList_inj.mp hdag, String.toList_inj.mp htask, String.toList_inj.mp hrun,
    String.toList_inj.mp hdttm, Int.repr_injective (String.toList_inj.mp hmap),
    Int.repr_injective (String.toList_inj.mp htry)]

/-- An event of the same field lengths that is ones all through. -/
def allOnes (event : TaskInstanceQueued) : TaskInstanceQueued where
  dagId := ones event.dagId.length
  taskId := ones event.taskId.length
  runId := ones event.runId.length
  queuedDttm := ones event.queuedDttm.length
  mapIndex := repunit (toString event.mapIndex).length
  tryNumber := repunit (toString event.tryNumber).length
  pool := event.pool
  queue := event.queue

theorem toString_allOnes (event : TaskInstanceQueued) :
    toString (allOnes event).mapIndex = ones (toString event.mapIndex).length ∧
      toString (allOnes event).tryNumber = ones (toString event.tryNumber).length :=
  ⟨toString_repunit (length_toString_pos _), toString_repunit (length_toString_pos _)⟩

theorem fieldLengths_allOnes (event : TaskInstanceQueued) :
    fieldLengths (allOnes event) = fieldLengths event := by
  obtain ⟨hmap, htry⟩ := toString_allOnes event
  unfold fieldLengths
  rw [hmap, htry]
  simp only [allOnes, length_ones]

theorem joined_allOnes (event : TaskInstanceQueued) :
    joined (allOnes event) = ones (fieldLengths event).sum := by
  obtain ⟨hmap, htry⟩ := toString_allOnes event
  unfold joined
  rw [hmap, htry]
  simp [allOnes, ones_append, fieldLengths, Nat.add_assoc]

theorem fieldLengths_of_episode {a b : TaskInstanceQueued} (h : a.episode = b.episode) :
    fieldLengths a = fieldLengths b := by
  simp only [TaskInstanceQueued.episode, Episode.mk.injEq] at h
  obtain ⟨hdag, htask, hrun, hdttm, hmap, htry⟩ := h
  unfold fieldLengths
  rw [hdag, htask, hrun, hdttm, hmap, htry]

/-- What the lengths decide: with the same ones, or with other totals, no two events
are mistaken; any other two sets of lengths belong to two events that are. -/
theorem toldApart_lengths_iff (sha256 : List UInt8 → String) (x y : TaskInstanceQueued) :
    (∀ a b, fieldLengths a = fieldLengths x → fieldLengths b = fieldLengths y →
        a.episode ≠ b.episode → ToldApart sha256 a b) ↔
      fieldLengths x = fieldLengths y ∨ (fieldLengths x).sum ≠ (fieldLengths y).sum := by
  simp only [toldApart_imp_iff]
  constructor
  · intro h
    refine or_iff_not_imp_right.mpr fun hsum => ?_
    have hjoined : joined (allOnes x) = joined (allOnes y) := by
      rw [joined_allOnes, joined_allOnes, not_not.mp hsum]
    have hepisode := h _ _ (fieldLengths_allOnes x) (fieldLengths_allOnes y) hjoined
    rw [← fieldLengths_allOnes x, ← fieldLengths_allOnes y]
    exact fieldLengths_of_episode hepisode
  · rintro (hlen | hsum) a b ha hb hjoined
    · exact episode_eq_of_lengths (ha.trans (hlen.trans hb.symm)) hjoined
    · refine absurd ?_ hsum
      rw [← ha, ← hb, ← length_joined, ← length_joined, hjoined]

/-! ## One event among all others -/

/-- No byte of the event can be moved across a border: the texts are empty, the numbers
single digits. -/
structure Indivisible (event : TaskInstanceQueued) : Prop where
  dagId : event.dagId = ""
  taskId : event.taskId = ""
  runId : event.runId = ""
  queuedDttm : event.queuedDttm = ""
  mapIndex : 0 ≤ event.mapIndex ∧ event.mapIndex ≤ 9
  tryNumber : -9 ≤ event.tryNumber ∧ event.tryNumber ≤ 9

theorem Indivisible.joined_eq {event : TaskInstanceQueued} (h : Indivisible event) :
    joined event = toString event.mapIndex ++ toString event.tryNumber := by
  simp [joined, h.dagId, h.taskId, h.runId, h.queuedDttm]

theorem length_of_digit {n : Int} (h : 0 ≤ n) (h' : n ≤ 9) : (toString n).length = 1 := by
  rw [← String.length_toList, toString_digit h h']
  rfl

/-- The text is `d` and `d`, or `d`, `-` and `d`; of the latter's two cuts the
one behind the sign leaves no number in front of it. -/
theorem Indivisible.fieldLengths_eq {a b : TaskInstanceQueued} (ha : Indivisible a)
    (h : joined a = joined b) : fieldLengths a = fieldLengths b := by
  have hmapPos := length_toString_pos b.mapIndex
  have htryPos := length_toString_pos b.tryNumber
  have hmap := length_of_digit ha.mapIndex.1 ha.mapIndex.2
  have hlen := congrArg String.length h
  rw [length_joined, length_joined] at hlen
  simp only [fieldLengths, ha.dagId, ha.taskId, ha.runId, ha.queuedDttm, List.sum_cons,
    List.sum_nil, String.length_empty, List.cons.injEq, and_true] at hlen ⊢
  by_cases hsign : 0 ≤ a.tryNumber
  · have htry := length_of_digit hsign ha.tryNumber.2
    omega
  · have hneg := toString_neg (n := a.tryNumber) (by omega)
    have hdigit := length_of_digit (n := -a.tryNumber) (by omega) (by have := ha.tryNumber; omega)
    have htry : (toString a.tryNumber).length = 2 := by
      rw [hneg, String.length_append, hdigit]
      rfl
    have hcut : (toString b.tryNumber).length ≠ 1 := by
      intro hone
      have hchars := congrArg String.toList h
      rw [ha.joined_eq, hneg, ← String.append_assoc] at hchars
      simp only [joined, String.toList_append] at hchars
      obtain ⟨hfront, -⟩ := List.append_inj' hchars
        (by rw [String.length_toList, String.length_toList, hone, hdigit])
      obtain ⟨s, c, hc, hlast⟩ := toString_last b.mapIndex
      rw [hlast, ← List.append_assoc] at hfront
      obtain ⟨-, hsignDigit⟩ := List.append_inj' hfront rfl
      cases hsignDigit
      exact absurd hc (by decide)
    omega

theorem indivisible_of_unmistaken {a : TaskInstanceQueued}
    (h : ∀ b, joined a = joined b → a.episode = b.episode) : Indivisible a := by
  simp only [TaskInstanceQueued.episode, Episode.mk.injEq] at h
  have hdag : a.dagId = "" :=
    (h { a with dagId := "", taskId := a.dagId ++ a.taskId } (by simp [joined])).1
  have htask : a.taskId = "" :=
    (h { a with dagId := a.dagId ++ a.taskId, taskId := "" } (by simp [joined])).2.1
  have hrun : a.runId = "" :=
    (h { a with taskId := a.taskId ++ a.runId, runId := "" }
      (by simp [joined, String.append_assoc])).2.2.1
  have hdttm : a.queuedDttm = "" :=
    (h { a with runId := a.runId ++ a.queuedDttm, queuedDttm := "" }
      (by simp [joined, String.append_assoc])).2.2.2.1
  -- The digits of the two numbers, read behind a longer text.
  have hnumbers : ∀ (dttm : String) (m t : Int),
      toString a.mapIndex ++ toString a.tryNumber = dttm ++ toString m ++ toString t →
        dttm = "" := by
    intro dttm m t hcut
    have hb := h { a with queuedDttm := dttm, mapIndex := m, tryNumber := t }
      (by simpa [joined, hdag, htask, hrun, hdttm] using hcut)
    exact hb.2.2.2.1.symm.trans hdttm
  refine ⟨hdag, htask, hrun, hdttm, ⟨?_, ?_⟩, ?_, ?_⟩
  · by_contra hm
    have hcut := hnumbers "-" (-a.mapIndex) a.tryNumber (by rw [toString_neg (by omega)])
    exact absurd hcut (by decide)
  · by_contra hm
    have hcut := hnumbers (toString (a.mapIndex / 10)) (a.mapIndex % 10) a.tryNumber
      (by rw [toString_tens (by omega)])
    exact toString_ne_empty _ hcut
  · by_contra ht
    have hcut := hnumbers (toString a.mapIndex ++ "-") (-a.tryNumber / 10) (-a.tryNumber % 10)
      (by rw [toString_neg (n := a.tryNumber) (by omega), toString_tens (n := -a.tryNumber)
        (by omega), String.append_assoc, String.append_assoc])
    exact absurd (congrArg String.length hcut) (by simp)
  · by_contra ht
    have hcut := hnumbers (toString a.mapIndex) (a.tryNumber / 10) (a.tryNumber % 10)
      (by rw [toString_tens (n := a.tryNumber) (by omega), String.append_assoc])
    exact toString_ne_empty _ hcut

/-- Among all other events an event is told apart only where it has nothing that could
cross a border; two sets of field lengths are where they are one or differ in total. -/
theorem fromTiQueuedEvent_injective_iff (sha256 : List UInt8 → String) :
    (∀ a, (∀ b, a.episode ≠ b.episode → ToldApart sha256 a b) ↔ Indivisible a) ∧
      ∀ x y, (∀ a b, fieldLengths a = fieldLengths x → fieldLengths b = fieldLengths y →
          a.episode ≠ b.episode → ToldApart sha256 a b) ↔
        fieldLengths x = fieldLengths y ∨ (fieldLengths x).sum ≠ (fieldLengths y).sum := by
  refine ⟨fun a => ?_, toldApart_lengths_iff sha256⟩
  simp only [toldApart_imp_iff]
  constructor
  · exact indivisible_of_unmistaken
  · intro ha b h
    exact episode_eq_of_lengths (ha.fieldLengths_eq h) h

def mappedEvent (mapIndex tryNumber : Int) : TaskInstanceQueued where
  dagId := "dag%%%"
  runId := "!@#!@#$#%%$&&%scheduled__2022-10-25T19:55:00+00:00"
  taskId := "task2137"
  mapIndex := mapIndex
  tryNumber := tryNumber
  pool := ""
  queue := "lambda"
  queuedDttm := "132"

/-- The real digests of three inputs. -/
def sha256Table (bytes : List UInt8) : String :=
  if bytes = hashed (mappedEvent 1 1) then
    "d054340c095e27385ad378752434750b34e706359b8578e2f00bf4e8d99b9e4c"
  else if bytes = hashed (mappedEvent 1 2) then
    "458243891eb9ebab7d40fdb34ceebb9372ec219100ac5d1ad274ea1c5a02372c"
  else if bytes = utf8 "etlloadscheduled1970-01-01T00:00:00.000000Z-10" then
    "8235aff6032ae2f5f3d01a6730b15810984b122e7020c752eb3342c9adee567e"
  else ""

/-- Map index 1 on its eleventh try, and map index 11 on its first. -/
theorem mappedEvents_same_name :
    (mappedEvent 1 11).episode ≠ (mappedEvent 11 1).episode ∧
      hashed (mappedEvent 1 11) = hashed (mappedEvent 11 1) ∧
      ∀ sha256, fromTiQueuedEvent sha256 (mappedEvent 1 11) =
        fromTiQueuedEvent sha256 (mappedEvent 11 1) := by
  have hbytes : hashed (mappedEvent 1 11) = hashed (mappedEvent 11 1) := by decide
  exact ⟨by decide, hbytes, fun sha256 => congrArg sha256 hbytes⟩

end Beeflow.Executors
