/-
  RttRos2.Topics.Names — the name of the topic of a port (utilities.hpp of
  rtt_ros2_topics).

  The policy's `name_id` names the topic; without one the port's name does, converted from
  camel case. The loop of the conversion puts an underscore in front of a capital and steps
  over both, so the string grows under it and the positions ahead shift.

  A string is the list of its characters, `isupper` and `tolower` are those of ASCII.
  - `underscored`: the name it is meant to be.
  - `Scanned`: what the loop will end with stays the same from turn to turn, and taking out the
    underscores put in so far gives the port's name back.
  - `default_topic_name`: the loop ends, with that name.
-/

import RttRos2.Lib.While
import Mathlib.Data.List.Basic
import Mathlib.Data.List.InsertIdx

namespace RttRos2.Topics

open RttRos2.Lib

/-! ## utilities.hpp -/

/-- The variables of the loop. -/
structure Scan where
  str : List Char
  i : Nat
  deriving DecidableEq, Repr

/-- One turn of the loop, with the step of the index at its end. -/
def insertUnderscore (s : Scan) : Option Scan :=
  if h : s.i < s.str.length then
    if s.str[s.i].isUpper then some ⟨s.str.insertIdx s.i '_', s.i + 1 + 1⟩
    else some ⟨s.str, s.i + 1⟩
  else none

/-- `none` when the loop has not ended after `n` turns. -/
def convertCamelCaseToLowerCaseUnderscore (n : Nat) (str : List Char) : Option (List Char) :=
  (loop insertUnderscore n ⟨str, 1⟩).map fun s => s.str.map Char.toLower

def findTopic (n : Nat) (portName nameId : List Char) : Option (Except String (List Char)) := do
  let topic ← if nameId.isEmpty then convertCamelCaseToLowerCaseUnderscore n portName else some nameId
  if topic.isEmpty then return .error "policy.name_id cannot be empty for an unnamed port"
  else return .ok topic

/-! ## The name -/

/-- A character after the first. -/
def underscoredChar (c : Char) : List Char := if c.isUpper then ['_', c.toLower] else [c]

/-- In lower case, and with an underscore before each capital after the first character. -/
def underscored : List Char → List Char
  | [] => []
  | c :: cs => c.toLower :: cs.flatMap underscoredChar

/-- The positions where the loop puts underscores in, in the order of the turns. -/
def inserted (ss : List Scan) : List Nat :=
  ss.filterMap fun s => if (s.str[s.i]?).any Char.isUpper then some s.i else none

/-- The positions where the conversion of `str` puts underscores in. -/
def insertions (n : Nat) (str : List Char) : List Nat := inserted (turns insertUnderscore n ⟨str, 1⟩)

/-- Take out what was put in at `ps`, the last first. -/
def takeOut (ps : List Nat) (str : List Char) : List Char := ps.foldr (fun p str => str.eraseIdx p) str

/-! ## ASCII -/

theorem isUpper_iff_val (c : Char) : c.isUpper = true ↔ c.val ≥ 'A'.val ∧ c.val ≤ 'Z'.val :=
  decide_eq_true_iff

theorem isUpper_iff (c : Char) : c.isUpper = true ↔ 65 ≤ c.toNat ∧ c.toNat ≤ 90 := by
  rw [isUpper_iff_val]
  simp [UInt32.le_iff_toNat_le, ← Char.toNat_val]

theorem toNat_toLower {c : Char} (h : c.isUpper = true) : c.toLower.toNat = c.toNat + 32 := by
  have hv : c.toLower.val = c.val + 32 := congrArg Char.val (dif_pos ((isUpper_iff_val c).mp h))
  have hc := ((isUpper_iff c).mp h).2
  rw [← Char.toNat_val, hv, UInt32.toNat_add, Char.toNat_val]
  exact Nat.mod_eq_of_lt (by simp; omega)

theorem toLower_of_lower {c : Char} (h : c.isUpper = false) : c.toLower = c := by
  have hv : ¬(c.val ≥ 'A'.val ∧ c.val ≤ 'Z'.val) := by
    rw [← isUpper_iff_val, h]
    simp
  exact dif_neg hv

theorem isUpper_toLower (c : Char) : c.toLower.isUpper = false := by
  cases hc : c.isUpper with
  | false => rw [toLower_of_lower hc, hc]
  | true =>
    have hn := toNat_toLower hc
    have hu := (isUpper_iff c).mp hc
    rw [← Bool.not_eq_true, isUpper_iff]
    omega

theorem not_isUpper_of_mem {str : List Char} : ∀ c ∈ str.map Char.toLower, c.isUpper = false := by
  intro c hc
  obtain ⟨d, -, rfl⟩ := List.mem_map.mp hc
  exact isUpper_toLower d

/-! ## One turn -/

/-- What a turn makes of the character it is at. -/
def separate (c : Char) : List Char := if c.isUpper then ['_', c] else [c]

theorem insertIdx_length (xs ys : List Char) (c : Char) : (xs ++ ys).insertIdx xs.length c = xs ++ c :: ys := by
  induction xs with
  | nil => rfl
  | cons x xs ih => simp [ih]

theorem eraseIdx_length (xs ys : List Char) (c : Char) : (xs ++ c :: ys).eraseIdx xs.length = xs ++ ys := by
  rw [← insertIdx_length, List.eraseIdx_insertIdx_self]

/-- A turn goes on behind what it makes of the character. -/
theorem insertUnderscore_at (done ahead : List Char) (c : Char) :
    insertUnderscore ⟨done ++ c :: ahead, done.length⟩ =
      some ⟨done ++ separate c ++ ahead, (done ++ separate c).length⟩ := by
  have hi : done.length < (done ++ c :: ahead).length := by simp
  have hc : (done ++ c :: ahead)[done.length] = c := by simp
  simp only [insertUnderscore, dif_pos hi, hc, separate]
  split
  · simp [insertIdx_length]
  · simp

theorem insertUnderscore_none_iff (s : Scan) : insertUnderscore s = none ↔ s.str.length ≤ s.i := by
  simp only [insertUnderscore]
  split
  · split <;> simp <;> omega
  · simp; omega

theorem scan_at {s : Scan} (h : s.i < s.str.length) :
    ∃ done c ahead, s = ⟨done ++ c :: ahead, done.length⟩ := by
  refine ⟨s.str.take s.i, s.str[s.i], s.str.drop (s.i + 1), ?_⟩
  rw [← List.drop_eq_getElem_cons h, List.take_append_drop, List.length_take_of_le (Nat.le_of_lt h)]

theorem insertUnderscore_cases {s t : Scan} (h : insertUnderscore s = some t) :
    ∃ done c ahead, s = ⟨done ++ c :: ahead, done.length⟩ ∧
      t = ⟨done ++ separate c ++ ahead, (done ++ separate c).length⟩ := by
  have hi : s.i < s.str.length := by
    by_cases hi : s.i < s.str.length
    · exact hi
    · rw [(insertUnderscore_none_iff s).mpr (by omega)] at h
      cases h
  obtain ⟨done, c, ahead, rfl⟩ := scan_at hi
  rw [insertUnderscore_at] at h
  cases h
  exact ⟨done, c, ahead, rfl, rfl⟩

/-! ## The loop -/

/-- The string when the loop ends, seen from a turn. -/
def final (s : Scan) : List Char := s.str.take s.i ++ (s.str.drop s.i).flatMap separate

theorem final_at (done ahead : List Char) :
    final ⟨done ++ ahead, done.length⟩ = done ++ ahead.flatMap separate := by
  simp [final]

/-- Started with `str`, after the turns `ss`, in `s`. -/
structure Scanned (str : List Char) (ss : List Scan) (s : Scan) : Prop where
  unchanged : final s = final ⟨str, 1⟩
  undone : takeOut (inserted ss) s.str = str
  underscores : ∀ p ∈ inserted ss, p < s.i ∧ s.str[p]? = some '_'
  sorted : (inserted ss).Pairwise (· < ·)

/-! What the turn at `c` adds to the positions. -/

section Snoc

variable {ss : List Scan} {done ahead : List Char} {c : Char}

theorem inserted_snoc : inserted (ss ++ [⟨done ++ c :: ahead, done.length⟩]) =
    inserted ss ++ if c.isUpper then [done.length] else [] := by
  simp only [inserted, List.filterMap_append]
  congr 1
  cases hc : c.isUpper <;> simp [hc]

theorem mem_inserted_snoc {p : Nat} : p ∈ inserted (ss ++ [⟨done ++ c :: ahead, done.length⟩]) ↔
    p ∈ inserted ss ∨ c.isUpper = true ∧ p = done.length := by
  rw [inserted_snoc, List.mem_append]
  cases hc : c.isUpper <;> simp

theorem takeOut_inserted_snoc :
    takeOut (inserted (ss ++ [⟨done ++ c :: ahead, done.length⟩])) (done ++ separate c ++ ahead) =
      takeOut (inserted ss) (done ++ c :: ahead) := by
  rw [inserted_snoc]
  cases hc : c.isUpper with
  | false => simp [separate, hc]
  | true =>
    -- the underscore goes out from where it went in
    have he := eraseIdx_length done (c :: ahead) '_'
    simp [separate, hc, takeOut, he]

end Snoc

theorem Scanned.init (str : List Char) : Scanned str [] ⟨str, 1⟩ where
  unchanged := rfl
  undone := rfl
  underscores p hp := by cases hp
  sorted := .nil

/-- The invariant after a turn at `c`. -/
theorem Scanned.next {str : List Char} {ss : List Scan} {done ahead : List Char} {c : Char}
    (hI : Scanned str ss ⟨done ++ c :: ahead, done.length⟩) :
    Scanned str (ss ++ [⟨done ++ c :: ahead, done.length⟩])
      ⟨done ++ separate c ++ ahead, (done ++ separate c).length⟩ := by
  obtain ⟨hf, hu, hp, hs⟩ := hI
  refine ⟨?_, ?_, ?_, ?_⟩
  · rw [← hf, final_at, final_at, List.flatMap_cons, List.append_assoc]
  · rw [takeOut_inserted_snoc]
    exact hu
  · intro p hps
    rcases mem_inserted_snoc.mp hps with hps | ⟨hc, rfl⟩
    · -- one put in before: what the turn changes lies behind it
      obtain ⟨hlt, hget⟩ := hp p hps
      refine ⟨by simp at hlt ⊢; omega, ?_⟩
      rw [List.getElem?_append_left hlt] at hget
      rw [List.append_assoc, List.getElem?_append_left hlt]
      exact hget
    · simp [separate, hc]
  · rw [inserted_snoc, List.pairwise_append]
    refine ⟨hs, by split <;> simp, fun p hps q hq => ?_⟩
    have hlt : p < done.length := (hp p hps).1
    split at hq
    · rw [List.mem_singleton] at hq
      omega
    · cases hq

theorem Scanned.turn {str : List Char} {ss : List Scan} {s t : Scan} (hI : Scanned str ss s)
    (h : insertUnderscore s = some t) : Scanned str (ss ++ [s]) t ∧ t.str.length - t.i < s.str.length - s.i := by
  obtain ⟨done, c, ahead, rfl, rfl⟩ := insertUnderscore_cases h
  refine ⟨hI.next, ?_⟩
  simp
  omega

theorem final_of_none {s : Scan} (h : insertUnderscore s = none) : final s = s.str := by
  have hi := (insertUnderscore_none_iff s).mp h
  simp [final, List.take_of_length_le hi, List.drop_of_length_le hi]

/-- The loop ends, within as many turns as the string has characters. -/
theorem loop_scanned {str : List Char} {n : Nat} (hn : str.length ≤ n) :
    ∃ s, loop insertUnderscore n ⟨str, 1⟩ = some s ∧ s.str = final ⟨str, 1⟩ ∧
      Scanned str (turns insertUnderscore n ⟨str, 1⟩) s := by
  obtain ⟨s, hs, hnone, hI⟩ := loop_ends (fun s => s.str.length - s.i) (fun _ _ _ hI h => hI.turn h)
    (Nat.le_trans (Nat.sub_le _ _) hn) (Scanned.init str)
  exact ⟨s, hs, by rw [← final_of_none hnone, hI.unchanged], hI⟩

/-! ## The topic -/

theorem map_toLower_separate (c : Char) : (separate c).map Char.toLower = underscoredChar c := by
  cases hc : c.isUpper with
  | false => simp [separate, underscoredChar, hc, toLower_of_lower hc]
  | true => simp only [separate, underscoredChar, hc, if_true]; rfl

theorem map_toLower_final (str : List Char) : (final ⟨str, 1⟩).map Char.toLower = underscored str := by
  cases str with
  | nil => rfl
  | cons c cs => simp [final, underscored, List.map_flatMap, map_toLower_separate]

theorem convert_eq {str : List Char} {n : Nat} (hn : str.length ≤ n) :
    convertCamelCaseToLowerCaseUnderscore n str = some (underscored str) := by
  obtain ⟨s, hs, hf, -⟩ := loop_scanned hn
  simp only [convertCamelCaseToLowerCaseUnderscore, hs, Option.map_some, hf, map_toLower_final]

theorem underscored_isUpper (str : List Char) : ∀ c ∈ underscored str, c.isUpper = false := by
  rw [← map_toLower_final]
  exact not_isUpper_of_mem

theorem underscored_of_lower {str : List Char} (h : ∀ c ∈ str, c.isUpper = false) : underscored str = str := by
  cases str with
  | nil => rfl
  | cons c cs =>
    have hcs : cs.flatMap underscoredChar = cs.flatMap fun c => [c] :=
      List.flatMap_congr fun d hd => by simp [underscoredChar, h d (List.mem_cons_of_mem c hd)]
    rw [underscored, toLower_of_lower (h c List.mem_cons_self), hcs, List.flatMap_singleton']

theorem takeOut_map (f : Char → Char) (ps : List Nat) (str : List Char) :
    takeOut ps (str.map f) = (takeOut ps str).map f := by
  induction ps with
  | nil => rfl
  | cons p ps ih =>
    simp only [takeOut, List.foldr_cons] at *
    rw [ih, List.eraseIdx_map]

/-- The conversion ends with the name; it has no capital left, without the underscores put in it
is the string in lower case, and it is converted to itself. -/
theorem default_topic_name {str : List Char} {n : Nat} (hn : str.length ≤ n) :
    convertCamelCaseToLowerCaseUnderscore n str = some (underscored str) ∧
      (∀ c ∈ underscored str, c.isUpper = false) ∧
      (insertions n str).Pairwise (· < ·) ∧
      (∀ p ∈ insertions n str, (underscored str)[p]? = some '_') ∧
      takeOut (insertions n str) (underscored str) = str.map Char.toLower ∧
      ∀ m, (underscored str).length ≤ m →
        convertCamelCaseToLowerCaseUnderscore m (underscored str) = some (underscored str) := by
  obtain ⟨s, -, hf, hI⟩ := loop_scanned hn
  have hu : underscored str = s.str.map Char.toLower := by rw [hf, map_toLower_final]
  have hlow := underscored_isUpper str
  refine ⟨convert_eq hn, hlow, hI.sorted, fun p hp => ?_, ?_, fun m hm => ?_⟩
  · rw [hu, List.getElem?_map, (hI.underscores p hp).2]
    rfl
  · rw [hu, takeOut_map]
    exact congrArg _ hI.undone
  · rw [convert_eq hm, underscored_of_lower hlow]

theorem default_topic_name_laser_scan_a :
    convertCamelCaseToLowerCaseUnderscore 10 "LaserScanA".toList = some "laser_scan_a".toList :=
  (default_topic_name (by decide)).1

/-- The topic is the policy's name, or the port's, converted; without either there is none. -/
theorem findTopic_eq {portName nameId : List Char} {n : Nat} (hn : portName.length ≤ n) :
    findTopic n portName nameId = some (
      if nameId ≠ [] then .ok nameId
      else if portName = [] then .error "policy.name_id cannot be empty for an unnamed port"
      else .ok (underscored portName)) := by
  cases nameId with
  | nil =>
    cases portName with
    | nil => simp [findTopic, convert_eq hn, underscored]
    | cons c cs => simp [findTopic, convert_eq hn, underscored]
  | cons d ds => simp [findTopic]

end RttRos2.Topics
