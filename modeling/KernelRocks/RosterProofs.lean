import Mathlib.Algebra.BigOperators.Group.Finset.Basic
import Mathlib.Algebra.Order.BigOperators.Group.Finset
import Mathlib.Data.Nat.Basic

/-! # Rounds of a roster

    A roster of `n` members comes in rounds: the arrivals are numbered, and number
    `k` is in round `k / n`.  If nobody arrives who has a number in the round that
    is filling, then every full round has every member once, and at any moment
    everybody has come to the full rounds and at most to the one that is filling:
    `InStep`, kept by every arrival (`InStep.concat`). -/

namespace Roster

variable {α : Type} [DecidableEq α] {crew A : List α}

/-- `w` has a number in the round that is filling. -/
def InRound (crew A : List α) (w : α) : Prop :=
  ∃ k, A[k]? = some w ∧ k / crew.length = A.length / crew.length

/-- Only members have come, each once in every full round, and once more if it is in the
    round that is filling. -/
structure InStep (crew A : List α) : Prop where
  mem : ∀ w ∈ A, w ∈ crew
  low : ∀ w ∈ crew, A.length / crew.length ≤ A.count w
  high : ∀ w ∈ crew, A.count w ≤ A.length / crew.length + 1
  last : ∀ w ∈ crew, A.count w = A.length / crew.length + 1 ↔ InRound crew A w

theorem inStep_nil : InStep crew ([] : List α) where
  mem _ h := nomatch h
  low w _ := by simp
  high w _ := by simp
  last w _ := by simp [InRound]

/-- Who is not in the round that is filling has come to the full ones. -/
theorem InStep.count_eq (h : InStep crew A) {w : α} (hw : w ∈ crew) (hnew : ¬ InRound crew A w) :
    A.count w = A.length / crew.length := by
  have hlow := h.low w hw
  have hhigh := h.high w hw
  have hne : A.count w ≠ A.length / crew.length + 1 := fun he => hnew ((h.last w hw).mp he)
  omega

theorem sum_count (hA : ∀ w ∈ A, w ∈ crew) : ∑ w ∈ crew.toFinset, A.count w = A.length := by
  have hsum := Multiset.sum_count_eq_card (s := crew.toFinset) (m := (A : Multiset α))
    fun w hw => List.mem_toFinset.mpr (hA w (Multiset.mem_coe.mp hw))
  simpa using hsum

/-- With everybody there at most `r` times and `r` rounds full, everybody has been there
    `r` times. -/
theorem count_of_full (hd : crew.Nodup) (hA : ∀ w ∈ A, w ∈ crew) {r : Nat}
    (hle : ∀ w ∈ crew, A.count w ≤ r) (hlen : A.length = crew.length * r) :
    ∀ w ∈ crew, A.count w = r := by
  have hsum : ∑ w ∈ crew.toFinset, A.count w = ∑ _w ∈ crew.toFinset, r := by
    rw [sum_count hA, Finset.sum_const, List.toFinset_card_of_nodup hd, hlen]
    rfl
  have hall := (Finset.sum_eq_sum_iff_of_le fun w hw => hle w (List.mem_toFinset.mp hw)).mp hsum
  exact fun w hw => hall w (List.mem_toFinset.mpr hw)

omit [DecidableEq α] in
/-- The numbers after an arrival. -/
theorem getElem?_concat {w x : α} {k : Nat} :
    (A ++ [w])[k]? = some x ↔ A[k]? = some x ∨ k = A.length ∧ w = x := by
  rcases Nat.lt_trichotomy k A.length with hlt | rfl | hgt
  · rw [List.getElem?_append_left hlt]
    exact ⟨.inl, fun h => h.resolve_right fun he => absurd he.1 (Nat.ne_of_lt hlt)⟩
  · rw [List.getElem?_concat_length, List.getElem?_eq_none (Nat.le_refl _)]
    simp
  · rw [List.getElem?_eq_none (by rw [List.length_append]; exact hgt),
      List.getElem?_eq_none (Nat.le_of_lt hgt)]
    simp [Nat.ne_of_gt hgt]

/-- **AN ARRIVAL** of a member who is not in the round that is filling. -/
theorem InStep.concat (h : InStep crew A) (hd : crew.Nodup) {w : α} (hw : w ∈ crew)
    (hnew : ¬ InRound crew A w) : InStep crew (A ++ [w]) := by
  have hn : 0 < crew.length := List.length_pos_of_mem hw
  have hlen : (A ++ [w]).length = A.length + 1 := by simp
  have hcount (x : α) : (A ++ [w]).count x = A.count x + if w = x then 1 else 0 := by
    rw [List.count_append, List.count_singleton]
    simp
  have hmem : ∀ x ∈ A ++ [w], x ∈ crew := by
    intro x hx
    rcases List.mem_append.mp hx with hx | hx
    · exact h.mem x hx
    · exact List.mem_singleton.mp hx ▸ hw
  have hself := h.count_eq hw hnew
  -- after the arrival everybody has come at most once more than there were full rounds
  have hle (x : α) (hx : x ∈ crew) : (A ++ [w]).count x ≤ A.length / crew.length + 1 := by
    rw [hcount]
    by_cases hwx : w = x
    · rw [if_pos hwx, ← hwx, hself]
    · rw [if_neg hwx]
      exact h.high x hx
  rcases Nat.lt_or_ge (A.length + 1) (crew.length * (A.length / crew.length + 1)) with hlt | hge
  · -- the round goes on
    have hr : (A ++ [w]).length / crew.length = A.length / crew.length := by
      rw [hlen]
      refine Nat.le_antisymm ?_ (Nat.div_le_div_right (Nat.le_succ _))
      exact Nat.le_of_lt_succ ((Nat.div_lt_iff_lt_mul hn).mpr (Nat.mul_comm _ _ ▸ hlt))
    refine ⟨hmem, fun x hx => ?_, fun x hx => ?_, fun x hx => ?_⟩
    · rw [hr, hcount]
      exact Nat.le_add_right_of_le (h.low x hx)
    · rw [hr]
      exact hle x hx
    · by_cases hwx : w = x
      · subst hwx
        rw [hr, hcount, if_pos rfl, hself]
        exact iff_of_true rfl ⟨A.length, getElem?_concat.mpr (.inr ⟨rfl, rfl⟩), hr.symm⟩
      · rw [hr, hcount, if_neg hwx, Nat.add_zero, h.last x hx, InRound, InRound, hr]
        simp only [getElem?_concat, hwx, and_false, or_false]
  · -- the round is full
    have hmul := Nat.mul_div_le A.length crew.length
    have hfull : (A ++ [w]).length = crew.length * (A.length / crew.length + 1) := by
      have hlt := Nat.lt_mul_div_succ A.length hn
      omega
    have hall := count_of_full hd hmem hle hfull
    have hr : (A ++ [w]).length / crew.length = A.length / crew.length + 1 := by
      rw [hfull, Nat.mul_div_cancel_left _ hn]
    refine ⟨hmem, fun x hx => ?_, fun x hx => ?_, fun x hx => ?_⟩
    · rw [hr, hall x hx]
    · rw [hr, hall x hx]
      exact Nat.le_succ _
    · rw [hr, hall x hx]
      refine iff_of_false (Nat.ne_of_lt (Nat.lt_succ_self _)) ?_
      rintro ⟨k, hk, hkr⟩
      have hlt : k < (A ++ [w]).length := (List.getElem?_eq_some_iff.mp hk).1
      rw [hfull, Nat.mul_comm, ← Nat.div_lt_iff_lt_mul hn] at hlt
      omega

end Roster
