import Mathlib.Algebra.Group.Nat.Defs
import Mathlib.Data.List.TakeWhile

/-! # Decimal texts — a number printed to a buffer of limited size

    `text v` is the number as a `%d` prints it.  It has digits behind a sign that
    may be there, so its length says how large the number is.

    A formatter with a buffer of `size` characters writes as many as leave room for
    the NUL at the end, and returns the length of the whole text.  A caller that
    goes by what is returned reads `back` that many characters: the text, or a text
    with a NUL in it. -/

namespace Decimal

/-- The decimal digits, behind a minus sign where there is one. -/
def text (v : Int) : List Char := (toString v).toList

section Text
variable {v : Int}

theorem text_of_nonneg (h : 0 ≤ v) : text v = Nat.toDigits 10 v.toNat := by
  rw [text, Int.toString_eq_repr, Int.repr_eq_if, if_pos h, Nat.toList_repr]

theorem text_of_neg (h : v < 0) : text v = '-' :: Nat.toDigits 10 (-v).toNat := by
  rw [text, Int.toString_eq_repr, Int.repr_eq_if, if_neg (Int.not_le.mpr h), String.toList_append,
    Nat.toList_repr]
  rfl

/-- `toDigits` gives digits. -/
theorem isDigit_of_mem {n : Nat} {c : Char} (hc : c ∈ Nat.toDigits 10 n) : c.isDigit = true :=
  Nat.isDigit_of_mem_toDigits (by decide) (by decide) hc

/-- How long the text is says between which powers of ten the number lies. -/
theorem length_text_le_iff (v : Int) {k : Nat} (hk : 0 < k) :
    (text v).length ≤ k + 1 ↔ -((10 ^ k : Nat) : Int) < v ∧ v < ((10 ^ (k + 1) : Nat) : Int) := by
  by_cases h : 0 ≤ v
  · rw [text_of_nonneg h, Nat.length_toDigits_le_iff (by decide) (Nat.succ_pos k)]
    have hpow : 0 < 10 ^ k := Nat.pow_pos (by decide)
    omega
  · rw [text_of_neg (Int.not_le.mp h), List.length_cons, Nat.add_le_add_iff_right,
      Nat.length_toDigits_le_iff (by decide) hk]
    have hpow : 0 < 10 ^ (k + 1) := Nat.pow_pos (by decide)
    omega

/-- A number has digits and a sign, and nothing else. -/
theorem not_mem_text {c : Char} (hdigit : c.isDigit = false) (hc : c ≠ '-') : c ∉ text v := by
  have hdigits : ∀ n, c ∉ Nat.toDigits 10 n := by
    intro n hmem
    rw [isDigit_of_mem hmem] at hdigit
    cases hdigit
  by_cases h : 0 ≤ v
  · rw [text_of_nonneg h]
    exact hdigits _
  · rw [text_of_neg (Int.not_le.mp h), List.mem_cons, not_or]
    exact ⟨hc, hdigits _⟩

theorem text_ne_nil (v : Int) : text v ≠ [] := by
  by_cases h : 0 ≤ v
  · rw [text_of_nonneg h]
    exact Nat.toDigits_ne_nil
  · rw [text_of_neg (Int.not_le.mp h)]
    exact List.cons_ne_nil _ _

/-- Reading stops at the end of the digits. -/
theorem takeWhile_digits (n : Nat) {c : Char} (hc : c.isDigit = false) (rest : List Char) :
    (Nat.toDigits 10 n ++ c :: rest).takeWhile Char.isDigit = Nat.toDigits 10 n := by
  rw [List.takeWhile_append_of_pos fun d hd => isDigit_of_mem hd,
    List.takeWhile_cons_of_neg (by simp [hc]), List.append_nil]

end Text

/-! ## The buffer -/

/-- The first `n` characters of a buffer that held `page`, once `written` and a NUL
    have been put into it. -/
def back (n : Nat) (written page : List Char) : List Char :=
  (written ++ '\x00' :: page.drop (written.length + 1)).take n

/-- A formatter with room for `size` characters is read back exactly if the NUL is
    behind the text. -/
theorem back_eq_iff {size : Nat} (hsize : 0 < size) {t : List Char} (hnul : '\x00' ∉ t)
    (page : List Char) : back t.length (t.take (size - 1)) page = t ↔ t.length < size := by
  constructor
  · intro heq
    by_contra hlong
    refine hnul ?_
    have hcut : (t.take (size - 1)).length = size - 1 := by
      rw [List.length_take]
      omega
    rw [← heq, back, List.take_append, hcut]
    obtain ⟨k, hk⟩ : ∃ k, t.length - (size - 1) = k + 1 := ⟨t.length - size, by omega⟩
    rw [hk, List.take_succ_cons]
    exact List.mem_append_right _ List.mem_cons_self
  · intro hshort
    have hall : t.take (size - 1) = t := List.take_of_length_le (by omega)
    rw [back, hall, List.take_left]

end Decimal
