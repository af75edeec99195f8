import Mathlib.Data.List.TakeWhile
import VHono.ByteScan

/-! # Trimming

    What is trimmed is a part of the text, between blanks, with no blank at its
    ends; a text with none there is left as it is. -/

namespace ByteString

theorem trimSpace_part (s : ByteString) : trimSpace s <:+: s := by
  have hright : trimSpace s <+: s.dropWhile isSpace := by
    rw [trimSpace, ← List.reverse_suffix, List.reverse_reverse]
    exact List.dropWhile_suffix _
  exact hright.isInfix.trans (List.dropWhile_suffix _).isInfix

theorem head_dropWhile {test : UInt8 → Bool} {s : ByteString} {b : UInt8}
    (h : (s.dropWhile test).head? = some b) : test b = false := by
  have hnot := List.head?_dropWhile_not test s
  rw [h] at hnot
  exact hnot

/-- Blanks, then a text with no blank at its ends, then blanks. -/
theorem exists_padded (s : ByteString) : ∃ before after, s = before ++ (trimSpace s ++ after) ∧
    (∀ b ∈ before, isSpace b = true) ∧ (∀ b ∈ after, isSpace b = true) ∧
    (∀ b, (trimSpace s).head? = some b → isSpace b = false) ∧
    (∀ b, (trimSpace s).getLast? = some b → isSpace b = false) := by
  let t := s.dropWhile isSpace
  have hs : s = s.takeWhile isSpace ++ t := List.takeWhile_append_dropWhile.symm
  have ht : t = trimSpace s ++ (t.reverse.takeWhile isSpace).reverse := by
    rw [trimSpace, ← List.reverse_append, List.takeWhile_append_dropWhile, List.reverse_reverse]
  refine ⟨s.takeWhile isSpace, (t.reverse.takeWhile isSpace).reverse, ?_, ?_, ?_, ?_, ?_⟩
  · rw [← ht]
    exact hs
  · exact fun b hb => List.mem_takeWhile_imp hb
  · exact fun b hb => List.mem_takeWhile_imp (List.mem_reverse.mp hb)
  · intro b hb
    have hhead : t.head? = some b := by
      rw [ht]
      cases htrim : trimSpace s with
      | nil => rw [htrim] at hb; cases hb
      | cons b' rest => rw [htrim] at hb; exact hb
    exact head_dropWhile hhead
  · intro b hb
    rw [trimSpace, List.getLast?_reverse] at hb
    exact head_dropWhile hb

theorem trimSpace_eq_self_iff {s : ByteString} : trimSpace s = s ↔
    (∀ b, s.head? = some b → isSpace b = false) ∧
      (∀ b, s.getLast? = some b → isSpace b = false) := by
  constructor
  · intro h
    obtain ⟨-, -, -, -, -, hhead, hlast⟩ := exists_padded s
    rw [h] at hhead hlast
    exact ⟨hhead, hlast⟩
  · rintro ⟨hhead, hlast⟩
    have hpad := @trimSpace_padded [] [] s (fun b hb => by cases hb)
      (fun b hb => by cases hb) hhead hlast
    rwa [List.append_nil, List.nil_append] at hpad

/-- Spaces at the end are trimmed off. -/
theorem trimSpace_append {s after : ByteString} (h : ∀ b ∈ after, isSpace b = true) :
    trimSpace (s ++ after) = trimSpace s := by
  have hafter : after.dropWhile isSpace = [] := List.dropWhile_eq_nil_iff.mpr h
  rw [trimSpace, trimSpace, List.dropWhile_append]
  split
  · rename_i hempty
    rw [hafter, List.isEmpty_iff.mp hempty]
  · rw [List.reverse_append, dropWhile_all (by simpa using h)]

theorem trimSpace_eq_of_length {s : ByteString} (h : s.length ≤ (trimSpace s).length) :
    trimSpace s = s :=
  (trimSpace_part s).eq_of_length_le h

end ByteString
