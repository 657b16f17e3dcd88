import KernelRocks.BarrierOwnershipProofs
import KernelRocks.LockOrderProofs
import Mathlib.Data.Nat.Basic

/-! # The barrier's spinlocks cannot deadlock

    `barrier_destroy` takes `g_tgid_list_lock` inside a `barrier_head_lock`
    section; no call takes a lock inside a `g_tgid_list_lock` or a `lock_total`
    section.  So "record locks below the list lock" is a lock order for every
    call, and the waits-for relation of every reachable state is acyclic
    (`LockOrder.not_transGen_self`). -/

namespace Barrier

open Interleaving LockOrder

/-- `g_tgid_list_lock` is taken last. -/
def Lock.rank : Lock → Nat
  | .gTgidList => 1
  | .barrierHead _ => 0
  | .lockTotal _ => 0

/-- The places where a call sleeps (`sleep_here`, and the `GFP_KERNEL` allocation
    of `barrier_init` 169) or has returned. -/
def Pc.offCpu : Pc → Bool
  | .sleepPrepare _ _ | .sleepSchedule _ _ | .sleepParked _ _ | .sleepFinish _ _ => true
  | .initAlloc _ _ _ => true
  | .user _ => true
  | _ => false

/-- A call that is about to take a lock holds only locks that come before it. -/
theorem rank_held_lt {q : Pc} {l l' : Lock} (hs : q.spinsOn = some l) (hh : l' ∈ q.held) :
    l'.rank < l.rank := by
  cases q with
  | destroyLockG p b =>
      cases hs
      rw [List.mem_singleton.mp hh]
      exact Nat.zero_lt_one
  | initLockG c => cases hh
  | initLockHead c p n => cases hh
  | getLockG who id => cases hh
  | getLockHead who p id => cases hh
  | loopLock k b => cases hh
  | destroyLockHead p b => cases hh
  | _ => cases hs

theorem held_eq_nil_of_offCpu {q : Pc} (h : q.offCpu = true) : q.held = [] := by
  cases q <;> first | rfl | cases h

/-- Task `A` spins on a lock whose word names `B`. -/
def State.WaitsFor (s : State) : Task → Task → Prop :=
  LockOrder.WaitsFor (fun t => (s.loc t).spinsOn) (fun t l => s.mem.holder l = some t)

theorem ordered_of_reach {proc : Task → Pid} {s : State} (h : Reachable proc s) :
    Ordered Lock.rank (fun t => (s.loc t).spinsOn) (fun t l => s.mem.holder l = some t) := by
  intro t l l' hs hl
  exact rank_held_lt hs (((reach_owns h).2 t).holds l' |>.mp hl)

/-- **NO SPINLOCK DEADLOCK**: in every state reached by any calls of any tasks of
    any processes, a call does not spin on a lock it holds, holds no lock while
    it sleeps or once it has returned, and no calls wait for each other's locks
    in a circle. -/
theorem spinlocks_cannot_deadlock (proc : Task → Pid) {s : State} (h : Reachable proc s) :
    (∀ t l, (s.loc t).spinsOn = some l → s.mem.holder l ≠ some t)
      ∧ (∀ t, (s.loc t).offCpu = true → ∀ l, s.mem.holder l ≠ some t)
      ∧ ∀ t, ¬ Relation.TransGen s.WaitsFor t t := by
  have ho := ordered_of_reach h
  refine ⟨?_, ?_, not_transGen_self ho⟩
  · intro t l hs hl
    exact Nat.lt_irrefl _ (ho t l l hs hl)
  · intro t ht l hl
    have hm := ((reach_owns h).2 t).holds l |>.mp hl
    rw [held_eq_nil_of_offCpu ht] at hm
    cases hm

/-- Task 1 destroys the last barrier of its process and has reached the nested
    lock while task 2 is in `get_ptgid`. -/
def nestedLock : List (Task × Act) :=
  wholeInit 1 1 ++ (1, .call (.destroy 0)) :: runs 1 11 ++ (2, .call (.wait 0)) :: runs 2 1

/-- There one call does wait for another, and not in a circle. -/
theorem spinlocks_cannot_deadlock_nested :
    (after (fun _ => 7) nestedLock).WaitsFor 1 2
      ∧ ¬ Relation.TransGen (after (fun _ => 7) nestedLock).WaitsFor 1 1 :=
  ⟨⟨.gTgidList, by decide, by decide⟩,
    (spinlocks_cannot_deadlock (fun _ => 7) (reachable_after _ nestedLock)).2.2 1⟩

end Barrier
