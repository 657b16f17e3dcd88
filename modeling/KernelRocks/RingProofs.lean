import Mathlib.Data.Nat.ModEq

/-! # Rings — the last `N` items of a history

    `N` slots written round and round: item number `k` of a history goes into slot
    `k mod N`, over whatever was there.  `Laid` says what the slots hold then: the
    last `N` items, each in its own slot, and what was there at first in the slots
    that no item has reached.  An item more keeps it (`Laid.push`), whatever the
    items, the number of slots and the way the writer finds its slot. -/

namespace Ring

variable {α : Type} {N : Nat} {blank x : α} {slots slots' : Fin N → α} {items : List α}

/-- The slots hold the last `N` items, the others what they held at first. -/
structure Laid (blank : α) (slots : Fin N → α) (items : List α) : Prop where
  recent : ∀ (j : Fin N) (k : Nat) (x : α), items[k]? = some x → k % N = j →
    items.length ≤ k + N → slots j = x
  rest : ∀ j : Fin N, items.length ≤ j → slots j = blank

theorem Laid.nil (h : ∀ j, slots j = blank) : Laid blank slots [] where
  recent j k x hk := by simp at hk
  rest j _ := h j

/-- Two numbers of one slot are `N` apart. -/
theorem le_of_mod_eq {k n : Nat} (h : k % N = n % N) (hlt : k < n) : k + N ≤ n := by
  have hdvd : N ∣ n - k := (Nat.modEq_iff_dvd' (Nat.le_of_lt hlt)).mp h
  have hle := Nat.le_of_dvd (Nat.sub_pos_of_lt hlt) hdvd
  omega

/-- **ONE MORE ITEM**, in the slot of its number. -/
theorem Laid.push (h : Laid blank slots items) (hx : ∀ j : Fin N, j = items.length % N →
      slots' j = x) (ho : ∀ j : Fin N, j ≠ items.length % N → slots' j = slots j) :
    Laid blank slots' (items ++ [x]) where
  recent j k y hk hj hlen := by
    rw [List.length_append, List.length_singleton] at hlen
    by_cases hlast : k = items.length
    · subst hlast
      rw [List.getElem?_concat_length] at hk
      rw [hx j hj.symm]
      exact Option.some.inj hk
    · have hlt : k < items.length := by
        have := (List.getElem?_eq_some_iff.mp hk).1
        rw [List.length_append, List.length_singleton] at this
        omega
      rw [List.getElem?_append_left hlt] at hk
      -- the slot written is another one: the numbers are less than `N` apart
      rw [ho j, h.recent j k y hk hj (by omega)]
      intro he
      have := le_of_mod_eq (hj.trans he) hlt
      omega
  rest j hj := by
    rw [List.length_append, List.length_singleton] at hj
    have hN := j.isLt
    rw [ho j, h.rest j (by omega)]
    rw [Nat.mod_eq_of_lt (by omega)]
    omega

/-- The slot of the item that has `i` items after it. -/
theorem Laid.back (h : Laid blank slots items) {j : Fin N} {i : Nat} (hi : i < items.length)
    (hN : i < N) (hj : (items.length - 1 - i) % N = j) : items.reverse[i]? = some (slots j) := by
  rw [List.getElem?_reverse hi, List.getElem?_eq_getElem (by omega)]
  congr 1
  refine (h.recent j _ _ (List.getElem?_eq_getElem (by omega)) hj ?_).symm
  omega

/-- The last number of a slot that has been reached. -/
theorem exists_last {j n : Nat} (hN : j < N) (hj : j < n) :
    ∃ k, k % N = j ∧ k < n ∧ n ≤ k + N := by
  refine ⟨j + N * ((n - 1 - j) / N), ?_, ?_, ?_⟩
  · rw [Nat.add_mul_mod_self_left, Nat.mod_eq_of_lt hN]
  · have := Nat.mul_div_le (n - 1 - j) N
    omega
  · have := Nat.lt_mul_div_succ (n - 1 - j) (Nat.lt_of_le_of_lt (Nat.zero_le j) hN)
    rw [Nat.mul_add] at this
    omega

/-- A slot that has been reached holds an item. -/
theorem Laid.mem (h : Laid blank slots items) {j : Fin N} (hj : j < items.length) :
    slots j ∈ items := by
  obtain ⟨k, hk, hlt, hle⟩ := exists_last j.isLt hj
  rw [h.recent j k _ (List.getElem?_eq_getElem hlt) hk hle]
  exact List.getElem_mem hlt

end Ring
