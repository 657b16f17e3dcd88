import Mathlib.Logic.Relation
import Mathlib.Order.Basic
import Mathlib.Order.Nat

/-! # Waiting for a lock, and lock orders

    A task waits for another when it spins on a lock the other holds.  If every
    lock has a rank, and a task that spins holds only locks of smaller rank than
    the one it spins on, then no set of tasks can wait for each other in a
    circle: along a wait the rank of the lock spun on strictly grows.  This is
    the usual lock order, over arbitrary tasks, locks and ranks.  If moreover a
    lock is spun on only while it is held, somebody holds a lock and spins on
    none (`exists_holds_not_spins`). -/

namespace LockOrder

variable {T L R : Type}

/-- `A` spins on a lock that `B` holds. -/
def WaitsFor (spinsOn : T → Option L) (holds : T → L → Prop) (A B : T) : Prop :=
  ∃ l, spinsOn A = some l ∧ holds B l

/-- The tasks respect the order: what a spinning task holds ranks below what it
    spins on. -/
def Ordered [LT R] (rank : L → R) (spinsOn : T → Option L) (holds : T → L → Prop) : Prop :=
  ∀ A l l', spinsOn A = some l → holds A l' → rank l' < rank l

variable {spinsOn : T → Option L} {holds : T → L → Prop} {rank : L → R}

/-- Whoever `A` reaches along waits and who spins itself, spins on a lock of
    larger rank. -/
theorem rank_lt_of_transGen [Preorder R] (ho : Ordered rank spinsOn holds) {A B : T} {l l' : L}
    (h : Relation.TransGen (WaitsFor spinsOn holds) A B)
    (hA : spinsOn A = some l) (hB : spinsOn B = some l') : rank l < rank l' := by
  induction h generalizing l' with
  | single hw =>
      obtain ⟨k, hk, hh⟩ := hw
      rw [hA] at hk
      cases hk
      exact ho _ _ _ hB hh
  | tail _ hw ih =>
      obtain ⟨k, hk, hh⟩ := hw
      exact lt_trans (ih hk) (ho _ _ _ hB hh)

/-- **NO DEADLOCK**: tasks that respect a lock order never wait in a circle. -/
theorem not_transGen_self [Preorder R] (ho : Ordered rank spinsOn holds) (A : T) :
    ¬ Relation.TransGen (WaitsFor spinsOn holds) A A := by
  intro h
  obtain ⟨B, ⟨l, hl, _⟩, _⟩ := Relation.TransGen.head'_iff.mp h
  exact lt_irrefl _ (rank_lt_of_transGen ho h hl hl)

/-- **SOMEBODY CAN GO ON**: if locks that are spun on are held, and ranks are bounded,
    some task holds a lock and spins on none. -/
theorem exists_holds_not_spins {rank : L → Nat} (ho : Ordered rank spinsOn holds)
    (hheld : ∀ A l, spinsOn A = some l → ∃ B, holds B l) {n : Nat} (hn : ∀ l, rank l ≤ n)
    {A : T} {l : L} (hA : spinsOn A = some l) : ∃ B l', holds B l' ∧ spinsOn B = none := by
  -- along the waits the rank grows, so the distance to the bound shrinks
  induction hd : n - rank l using Nat.strong_induction_on generalizing A l with
  | _ d ih =>
      obtain ⟨B, hB⟩ := hheld A l hA
      cases hs : spinsOn B with
      | none => exact ⟨B, l, hB, hs⟩
      | some l' =>
          have hlt : rank l < rank l' := ho B l' l hs hB
          have hle := hn l'
          exact ih (n - rank l') (by omega) hs rfl

end LockOrder
