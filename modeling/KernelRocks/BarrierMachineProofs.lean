import KernelRocks.BarrierMemoryProofs
import KernelRocks.InterleavingProofs

/-! # The barrier calls as interleaved tasks

    `barrier_init`, `barrier_wait` and `barrier_destroy`, cut at every point
    where another task can get in between: a lock is taken in one turn, the
    section's body runs in the next, the lock is released in a third.
    `sleep_here` is four turns (`prepare_to_wait`, `schedule`, being parked,
    `finish_wait`), and `wake_up_interruptible_all` is a turn of its own.

    The three loops that sleep (`while(..) { spin_unlock; sleep_here;
    spin_lock }`) are one piece of code with the loop as a parameter, and so is
    `get_barrier_from_ptgid` with its caller. -/

namespace Barrier

open Interleaving

/-- The loops in which a call sleeps: `barrier_wait` 243 before the call enters
    its round, `barrier_wait` 259 before the call with arrival number `k` leaves
    it, `barrier_destroy` 303 (on a barrier of record `p`). -/
inductive Loop where
  | enter
  | leave (k : Nat)
  | drain (p : Addr)
  deriving DecidableEq

/-- The condition under which the loop goes on sleeping. -/
def Loop.sleeps : Loop → BitVec 64 → Bool
  | .enter, total => barrierFlag < total
  | .leave _, total => total < barrierFlag
  | .drain _, total => barrierFlag < total

/-- The callers of `get_ptgid`. -/
inductive Seeker where
  | wait
  | destroy
  deriving DecidableEq

/-- The callers of `get_barrier_from_ptgid`.  `barrier_init` looks for the id it
    read from `bid_count`; `seen` is the number of barriers the record had ever
    had at that moment. -/
inductive Client where
  | init (count : BitVec 32) (seen : Nat)
  | seek (who : Seeker)
  deriving DecidableEq

/-- Where a task is.  `user r`: in user mode, `r` being what its last call
    returned; `oops inside`: dead in the kernel, `inside` the `barrier_head_lock`
    section of that record if any. -/
inductive Pc where
  | user (ret : Option Int)
  | oops (inside : Option Addr)
  -- barrier_init
  | initLockG (count : BitVec 32)
  | initFind (count : BitVec 32)
  | initUnlockG (count : BitVec 32) (p : Addr)
  | initReadBid (count : BitVec 32) (p : Addr)
  | initAlloc (count : BitVec 32) (p : Addr) (seen : Nat)
  | initLockHead (count : BitVec 32) (p : Addr) (seen : Nat)
  | initLink (count : BitVec 32) (p : Addr) (seen : Nat)
  | initUnlockHead (count : BitVec 32) (p b : Addr) (id : BitVec 32)
  -- get_ptgid
  | getLockG (who : Seeker) (id : BitVec 32)
  | getFind (who : Seeker) (id : BitVec 32)
  | getUnlockG (who : Seeker) (id : BitVec 32) (r : Option Addr)
  -- get_barrier_from_ptgid
  | getLockHead (who : Client) (p : Addr) (id : BitVec 32)
  | getScan (who : Client) (p : Addr) (id : BitVec 32)
  | getUnlockHead (who : Client) (p : Addr) (r : Option Addr)
  -- the sleeping loops
  | loopLock (l : Loop) (b : Addr)
  | loopTest (l : Loop) (b : Addr)
  | loopUnlock (l : Loop) (b : Addr)
  | sleepPrepare (l : Loop) (b : Addr)
  | sleepSchedule (l : Loop) (b : Addr)
  | sleepParked (l : Loop) (b : Addr)
  | sleepFinish (l : Loop) (b : Addr)
  -- barrier_wait
  | waitEnter (b : Addr)
  | waitLeave (b : Addr) (k : Nat)
  | waitWake (b : Addr) (k : Nat)
  | waitUnlock (b : Addr) (k : Nat)
  | waitDone (b : Addr) (k : Nat)
  -- barrier_destroy
  | destroyUnlock (p b : Addr)
  | destroyLockHead (p b : Addr)
  | destroyUnlink (p b : Addr)
  | destroyLockG (p b : Addr)
  | destroyUnlinkPtgid (p b : Addr)
  | destroyUnlockG (p b : Addr)
  | destroyFreePtgid (p b : Addr)
  | destroyUnlockHead (p b : Addr)
  deriving DecidableEq

/-- The calls a task can make. -/
inductive Call where
  | init (count : BitVec 32)
  | wait (id : BitVec 32)
  | destroy (id : BitVec 32)
  deriving DecidableEq

/-- `barrier_init` 139, and the first lock of each call. -/
def Call.entry : Call → Pc
  | .init count => if count.toInt < 0 then .user (some (-1)) else .initLockG count
  | .wait id => .getLockG .wait id
  | .destroy id => .getLockG .destroy id

/-- After `get_ptgid` (`barrier_wait` 236 and 239: the NULL that
    `get_barrier_from_ptgid` makes of a missing record is dereferenced by
    `printSYNC_start`; `barrier_destroy` 288). -/
def Seeker.afterPtgid : Seeker → BitVec 32 → Option Addr → Pc
  | who, id, some p => .getLockHead (.seek who) p id
  | .wait, _, none => .oops none
  | .destroy, _, none => .user (some (-1))

/-- After `get_barrier_from_ptgid` (`barrier_init` 162, `barrier_wait` 239,
    `barrier_destroy` 294). -/
def Client.afterBarrier : Client → Addr → Option Addr → Pc
  | .init _ _, _, some _ => .user (some (-1))
  | .init count seen, p, none => .initAlloc count p seen
  | .seek .wait, _, some b => .loopLock .enter b
  | .seek .wait, _, none => .oops none
  | .seek .destroy, p, some b => .loopLock (.drain p) b
  | .seek .destroy, _, none => .user (some (-1))

/-- Where the loop goes on once its condition is false. -/
def Loop.exit : Loop → Addr → Pc
  | .enter, b => .waitEnter b
  | .leave k, b => .waitLeave b k
  | .drain p, b => .destroyUnlock p b

section Machine
variable (proc : Task → Pid)

/-- Taking a lock and going on at `q`. -/
def takeLock (t : Task) (m : Mem) (l : Lock) (q : Pc) : Option (Mem × Pc) :=
  (m.spinLock l t).map fun m' => (m', q)

/-- The next turn of a task that runs its own code.  `proc t` is
    `task_tgid_vnr(current)`. -/
def next (t : Task) (m : Mem) : Pc → Option (Mem × Pc)
  | .user _ => none
  | .oops _ => none
  | .initLockG c => takeLock t m .gTgidList (.initFind c)
  | .initFind c =>
      let r := m.findOrNewPtgid (proc t)
      some (r.1, .initUnlockG c r.2)
  | .initUnlockG c p => some (m.spinUnlock .gTgidList, .initReadBid c p)
  -- the argument ptgid->bid_count is read with no lock held
  | .initReadBid c p =>
      some (m, .getLockHead (.init c (m.links p)) p (m.ptgid p).bidCount)
  | .initAlloc c p n => some (m, .initLockHead c p n)
  | .initLockHead c p n => takeLock t m (.barrierHead p) (.initLink c p n)
  | .initLink c p _ =>
      some (m.linkBarrier p c, .initUnlockHead c p m.brk (m.ptgid p).bidCount)
  | .initUnlockHead c p b id =>
      let m' := m.spinUnlock (.barrierHead p)
      some ({ m' with made := ⟨proc t, id, c, b⟩ :: m'.made }, .user (some 0))
  | .getLockG who id => takeLock t m .gTgidList (.getFind who id)
  | .getFind who id => some (m, .getUnlockG who id (m.getPtgid (proc t)))
  | .getUnlockG who id r => some (m.spinUnlock .gTgidList, who.afterPtgid id r)
  | .getLockHead who p id => takeLock t m (.barrierHead p) (.getScan who p id)
  | .getScan who p id => some (m, .getUnlockHead who p (m.getBarrier p id))
  | .getUnlockHead who p r => some (m.spinUnlock (.barrierHead p), who.afterBarrier p r)
  | .loopLock l b => takeLock t m (.lockTotal b) (.loopTest l b)
  | .loopTest l b =>
      some (m, if l.sleeps (m.barrier b).total then .loopUnlock l b else l.exit b)
  | .loopUnlock l b => some (m.spinUnlock (.lockTotal b), .sleepPrepare l b)
  | .sleepPrepare l b => some (m.enqueue b t, .sleepSchedule l b)
  -- a task woken since prepare_to_wait is running again and does not park
  | .sleepSchedule l b =>
      some (m, if t ∈ (m.barrier b).waitQ then .sleepParked l b else .sleepFinish l b)
  | .sleepParked l b => if t ∈ (m.barrier b).waitQ then none else some (m, .sleepFinish l b)
  | .sleepFinish l b => some (m.dequeue b t, .loopLock l b)
  | .waitEnter b =>
      let k := (m.hist b).arrived.length
      let r := m.arrive b t
      some (r.1, if r.2 then .waitWake b k else .loopTest (.leave k) b)
  | .waitLeave b k =>
      let m' := m.depart b k
      some (m', if (m'.barrier b).total = barrierFlag then .waitWake b k else .waitUnlock b k)
  | .waitWake b k => some (m.wakeAll b, .waitUnlock b k)
  | .waitUnlock b k => some (m.spinUnlock (.lockTotal b), .waitDone b k)
  -- printSYNC_done still reads the barrier
  | .waitDone b k =>
      let h := m.hist b
      some (m.setHist b { h with returned := k :: h.returned }, .user (some 0))
  | .destroyUnlock p b => some (m.spinUnlock (.lockTotal b), .destroyLockHead p b)
  | .destroyLockHead p b => takeLock t m (.barrierHead p) (.destroyUnlink p b)
  | .destroyUnlink p b =>
      let m' := m.unlinkBarrier p b
      some (m', if (m'.ptgid p).barrierSize = 0 then .destroyLockG p b
        else .destroyUnlockHead p b)
  | .destroyLockG p b => takeLock t m .gTgidList (.destroyUnlinkPtgid p b)
  | .destroyUnlinkPtgid p b => some (m.unlinkPtgid p, .destroyUnlockG p b)
  | .destroyUnlockG p b => some (m.spinUnlock .gTgidList, .destroyFreePtgid p b)
  | .destroyFreePtgid p b => some (m.freePtgid p, .destroyUnlockHead p b)
  | .destroyUnlockHead p b =>
      let m' := m.spinUnlock (.barrierHead p)
      let h := m'.hist b
      some (m'.setHist b { h with destroyed := h.destroyed + 1 }, .user (some 0))

/-- What a turn of a task can be: it makes a call, runs its code, returns from
    `schedule` with nobody having woken it (which it does at every pass as long as a
    signal is pending), or faults on the poisoned links of a barrier that was unlinked
    before. -/
inductive Act where
  | call (c : Call)
  | run
  | signal
  | fault
  deriving DecidableEq

def exec (t : Task) (m : Mem) (q : Pc) : Act → Option (Mem × Pc)
  | .call c =>
      match q with
      | .user _ => some (m, c.entry)
      | _ => none
  | .run => next proc t m q
  | .signal =>
      match q with
      | .sleepSchedule l b => some (m, .sleepFinish l b)
      | .sleepParked l b => some (m, .sleepFinish l b)
      | _ => none
  | .fault =>
      match q with
      | .destroyUnlink p b => if b ∈ (m.ptgid p).barrierHead then none else some (m, .oops (some p))
      | _ => none

abbrev State := Sys Task Mem Pc

/-- Nobody is in the kernel. -/
def State.initial : State := ⟨Mem.initial, fun _ => .user none⟩

/-- The states of the driver reached by turns that all meet `C`. -/
abbrev ReachWhen (C : State → Task → Act → Prop) : State → Prop :=
  Reach (exec proc) C State.initial

/-- The states of the driver. -/
abbrev Reachable : State → Prop := ReachWhen proc Free

/-- The state after a schedule; one that is not possible leaves the initial
    state. -/
def after (sched : List (Task × Act)) : State :=
  (runWhen (exec proc) (fun _ _ _ => true) State.initial sched).getD State.initial

theorem reachable_after (sched : List (Task × Act)) : Reachable proc (after proc sched) := by
  rw [after]
  cases h : runWhen (exec proc) (fun _ _ _ => true) State.initial sched with
  | none => exact Reach.refl
  | some s =>
      exact Reach.of_runWhen (E := fun _ => True) (fun _ _ _ _ _ => trivial)
        (fun _ _ _ _ _ _ _ => trivial) trivial h

/-- Only the tasks below `n` have run. -/
def Only (n : Nat) (s : State) : Prop := ∀ u, n ≤ u → s.loc u = .user none

/-- A turn of one of them. -/
theorem Only.turn {n : Nat} {s s' : State} {t : Task} {a : Act} (h : Only n s) (ht : t < n)
    (hs : Interleaving.turn (exec proc) s t a = some s') : Only n s' := by
  intro u hu
  obtain ⟨m', q', -, rfl⟩ := turn_eq_some hs
  have hut : u ≠ t := fun h => absurd ht (Nat.not_lt.mpr (h ▸ hu))
  show Function.update s.loc t q' u = .user none
  rw [Function.update_of_ne hut]
  exact h u hu

/-- The state after a schedule of the tasks below `n` whose turns all pass a
    test. -/
def afterWhen (n : Nat) (ok : State → Task → Act → Bool) (sched : List (Task × Act)) : State :=
  (runWhen (exec proc) (fun s t a => decide (t < n) && ok s t a) State.initial sched).getD
    State.initial

theorem reach_afterWhen {n : Nat} {C : State → Task → Act → Prop}
    {ok : State → Task → Act → Bool} (hok : ∀ s t a, Only n s → ok s t a = true → C s t a)
    (sched : List (Task × Act)) :
    ReachWhen proc (fun s t a => C s t a ∧ t < n) (afterWhen proc n ok sched) := by
  rw [afterWhen]
  cases h : runWhen (exec proc) (fun s t a => decide (t < n) && ok s t a) State.initial sched with
  | none => exact Reach.refl
  | some s =>
      refine Reach.of_runWhen (E := Only n) ?_ ?_ (fun _ _ => rfl) h
      · intro s t a hE hta
        obtain ⟨ht, ha⟩ := Bool.and_eq_true_iff.mp hta
        exact ⟨hok s t a hE ha, of_decide_eq_true ht⟩
      · intro s s' t a hE hta hs
        exact hE.turn proc (of_decide_eq_true (Bool.and_eq_true_iff.mp hta).1) hs

theorem reachWhen_afterWhen {n : Nat} {C : State → Task → Act → Prop}
    {ok : State → Task → Act → Bool} (hok : ∀ s t a, Only n s → ok s t a = true → C s t a)
    (sched : List (Task × Act)) : ReachWhen proc C (afterWhen proc n ok sched) :=
  (reach_afterWhen proc hok sched).mono fun _ _ _ h => h.1

theorem only_afterWhen (n : Nat) (ok : State → Task → Act → Bool) (sched : List (Task × Act)) :
    Only n (afterWhen proc n ok sched) := by
  refine Reach.invariant (I := Only n) (fun _ _ => rfl) ?_
    (reach_afterWhen proc (C := Free) (fun _ _ _ _ _ => trivial) sched)
  intro s s' t a _ hI hC hs
  exact hI.turn proc hC.2 hs

end Machine

/-- A property of places that is tested on the tasks below `n`. -/
def allBelow (n : Nat) (f : Pc → Bool) (s : State) : Bool :=
  (List.range n).all fun u => f (s.loc u)

theorem forall_of_allBelow {n : Nat} {f : Pc → Bool} {s : State} (ho : Only n s)
    (hf : f (.user none) = true) (h : allBelow n f s = true) (u : Task) :
    f (s.loc u) = true := by
  by_cases hu : u < n
  · exact List.all_eq_true.mp h u (List.mem_range.mpr hu)
  · rw [ho u (Nat.not_lt.mp hu)]
    exact hf

/-- `n` turns of task `t` on its own code. -/
def runs (t : Task) (n : Nat) : List (Task × Act) := List.replicate n (t, .run)

/-- A whole `barrier_init` by a task that runs alone. -/
def wholeInit (t : Task) (count : BitVec 32) : List (Task × Act) :=
  (t, .call (.init count)) :: runs t 11

end Barrier
