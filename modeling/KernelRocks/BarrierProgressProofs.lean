import KernelRocks.BarrierDeadlockProofs
import KernelRocks.BarrierTotalProofs
import KernelRocks.BarrierWakeupProofs
import KernelRocks.PotentialProofs

/-! # The barrier calls come to rest

    A task that runs the code of the three calls can go on by itself only for a
    few turns: it returns, or it spins on a lock, or it is parked.  A parked task
    goes on after a wake-up, and a `barrier_wait` makes one wake-up at most.  So
    the calls cannot keep each other busy (`schedule_bounded`), under any
    scheduler.  What can is a pending signal: `sleep_here` does not look for one, and
    `schedule` returns at every pass of the loop.

    Where they have come to rest nobody spins, and a call that has not returned
    waits for calls that have not been made: its round is still filling
    (`rest_waits_for_arrivals`). -/

namespace Barrier

open Interleaving LockOrder

/-! ## What a task can still do -/

/-- The turns from the exit of the loop to the return of the call, a loop on the
    way counted once. -/
def Loop.turnsAfter : Loop → Nat
  | .enter => 14
  | .leave _ => 4
  | .drain _ => 8

/-- The turns to the return of the call or to the next sleep, where `asleep` says
    that the task is parked and on the queue. -/
def Pc.turnsLeft (asleep : Bool) : Pc → Nat
  | .user _ | .oops _ => 0
  | .initLockG _ => 30
  | .initFind _ => 29
  | .initUnlockG _ _ => 28
  | .initReadBid _ _ => 27
  | .initAlloc _ _ _ => 4
  | .initLockHead _ _ _ => 3
  | .initLink _ _ _ => 2
  | .initUnlockHead _ _ _ _ => 1
  | .getLockG _ _ => 29
  | .getFind _ _ => 28
  | .getUnlockG _ _ _ => 27
  | .getLockHead _ _ _ => 26
  | .getScan _ _ _ => 25
  | .getUnlockHead _ _ _ => 24
  | .loopLock l _ => l.turnsAfter + 6
  | .loopTest l _ => l.turnsAfter + 5
  | .loopUnlock l _ => l.turnsAfter + 4
  | .sleepPrepare l _ => l.turnsAfter + 3
  | .sleepSchedule l _ => l.turnsAfter + if asleep then 2 else 8
  | .sleepParked l _ => l.turnsAfter + if asleep then 1 else 8
  | .sleepFinish l _ => l.turnsAfter + 7
  | .waitEnter _ => 14
  | .waitLeave _ _ => 4
  | .waitWake _ _ => 3
  | .waitUnlock _ _ => 2
  | .waitDone _ _ => 1
  | .destroyUnlock _ _ => 8
  | .destroyLockHead _ _ => 7
  | .destroyUnlink _ _ => 6
  | .destroyLockG _ _ => 5
  | .destroyUnlinkPtgid _ _ => 4
  | .destroyUnlockG _ _ => 3
  | .destroyFreePtgid _ _ => 2
  | .destroyUnlockHead _ _ => 1

/-- `barrier_destroy` wakes nobody. -/
def Loop.wakes : Loop → Nat
  | .drain _ => 0
  | _ => 1

/-- The wake-ups the call may still make. -/
def Pc.wakesLeft : Pc → Nat
  | .getLockG .wait _ | .getFind .wait _ | .getUnlockG .wait _ _ => 1
  | .getLockHead (.seek .wait) _ _ | .getScan (.seek .wait) _ _ => 1
  | .getUnlockHead (.seek .wait) _ _ => 1
  | .loopLock l _ | .loopTest l _ | .loopUnlock l _ => l.wakes
  | .sleepPrepare l _ | .sleepSchedule l _ | .sleepParked l _ | .sleepFinish l _ => l.wakes
  | .waitEnter _ | .waitLeave _ _ | .waitWake _ _ => 1
  | _ => 0

/-- Parked, or about to be, and on the queue. -/
def asleep (t : Task) (m : Mem) (q : Pc) : Bool :=
  match q.parks with
  | some (_, b) => t ∈ (m.barrier b).waitQ
  | none => false

/-- The share of one of `n` tasks: a wake-up may give each of them the seven turns from
    `sleepFinish` back to the queue. -/
def share (n : Nat) (t : Task) (m : Mem) (q : Pc) : Nat :=
  7 * n * q.wakesLeft + q.turnsLeft (asleep t m q)

/-! ## What a turn costs -/

section Turns
variable {proc : Task → Pid} {t u : Task} {m m' : Mem} {q q' : Pc}

theorem turnsLeft_afterPtgid (z : Bool) (who : Seeker) (id : BitVec 32) (r : Option Addr) :
    (who.afterPtgid id r).turnsLeft z ≤ 26 := by
  cases who <;> cases r <;> simp [Seeker.afterPtgid, Pc.turnsLeft]

theorem turnsLeft_afterBarrier (z : Bool) (who : Client) (p : Addr) (r : Option Addr) :
    (who.afterBarrier p r).turnsLeft z ≤ 20 := by
  rcases who with ⟨c, n⟩ | ⟨_ | _⟩ <;> cases r <;>
    simp [Client.afterBarrier, Pc.turnsLeft, Loop.turnsAfter]

theorem wakesLeft_afterPtgid (who : Seeker) (id : BitVec 32) (r : Option Addr) :
    (who.afterPtgid id r).wakesLeft ≤ (Pc.getUnlockG who id r).wakesLeft := by
  cases who <;> cases r <;> simp [Seeker.afterPtgid, Pc.wakesLeft]

theorem wakesLeft_afterBarrier (who : Client) (p : Addr) (r : Option Addr) :
    (who.afterBarrier p r).wakesLeft ≤ (Pc.getUnlockHead who p r).wakesLeft := by
  rcases who with ⟨c, n⟩ | ⟨_ | _⟩ <;> cases r <;>
    simp [Client.afterBarrier, Pc.wakesLeft, Loop.wakes]

theorem wakesLeft_exit (l : Loop) (b : Addr) : (l.exit b).wakesLeft = l.wakes := by
  cases l <;> rfl

theorem turnsLeft_exit (z : Bool) (l : Loop) (b : Addr) :
    (l.exit b).turnsLeft z = l.turnsAfter := by
  cases l <;> rfl

/-- A turn is taken off what the call had left. -/
theorem next_turnsLeft (h : next proc t m q = some (m', q')) :
    q'.turnsLeft (asleep t m' q') + 1 ≤ q.turnsLeft (asleep t m q) := by
  cases q with
  | user r => cases h
  | oops i => cases h
  | initLockG c | initLockHead c p n | getLockG who id | getLockHead who p id | loopLock l b
  | destroyLockHead p b | destroyLockG p b =>
      obtain ⟨-, -, rfl⟩ := takeLock_eq_some h
      exact Nat.le_refl _
  | getUnlockG who id r =>
      cases h
      exact Nat.succ_le_succ (turnsLeft_afterPtgid _ who id r)
  | getUnlockHead who p r =>
      cases h
      exact Nat.le_trans (Nat.succ_le_succ (turnsLeft_afterBarrier _ who p r))
        (Nat.le_add_right 21 3)
  | loopTest l b =>
      cases h
      split
      · exact Nat.le_refl _
      · rw [turnsLeft_exit]
        exact Nat.add_le_add_left (by decide) _
  | sleepPrepare l b =>
      cases h
      have hz : asleep t (m.enqueue b t) (.sleepSchedule l b) = true := by
        simp [asleep, Pc.parks, Mem.enqueue]
      rw [hz]
      exact Nat.le_refl _
  | sleepSchedule l b =>
      cases h
      split
      · rename_i hmem
        have hz : asleep t m (.sleepSchedule l b) = true := decide_eq_true hmem
        have hz' : asleep t m (.sleepParked l b) = true := decide_eq_true hmem
        rw [hz, hz']
        exact Nat.le_refl _
      · rename_i hmem
        have hz : asleep t m (.sleepSchedule l b) = false := decide_eq_false hmem
        rw [hz]
        exact Nat.le_refl _
  | sleepParked l b =>
      rw [next] at h
      split at h
      · cases h
      · rename_i hmem
        cases h
        have hz : asleep t m (.sleepParked l b) = false := decide_eq_false hmem
        rw [hz]
        exact Nat.le_refl _
  | waitEnter b =>
      cases h
      split <;> exact of_decide_eq_true rfl
  | waitLeave b k =>
      cases h
      split <;> exact of_decide_eq_true rfl
  | destroyUnlink p b =>
      cases h
      split <;> exact of_decide_eq_true rfl
  | _ =>
      cases h
      exact Nat.le_refl _

/-- The turn makes a wake-up. -/
def Pc.wakes : Pc → Bool
  | .waitWake _ _ => true
  | _ => false

/-- A wake-up is taken off those the call may make; no other turn adds one. -/
theorem next_wakesLeft (h : next proc t m q = some (m', q')) :
    q'.wakesLeft + (if q.wakes then 1 else 0) ≤ q.wakesLeft := by
  cases q with
  | user r => cases h
  | oops i => cases h
  | initLockG c | initLockHead c p n | getLockG who id | loopLock l b
  | destroyLockHead p b | destroyLockG p b =>
      obtain ⟨-, -, rfl⟩ := takeLock_eq_some h
      first | exact Nat.le_refl _ | (cases who <;> exact Nat.le_refl _)
  | getLockHead who p id =>
      obtain ⟨-, -, rfl⟩ := takeLock_eq_some h
      rcases who with _ | ⟨_ | _⟩ <;> exact Nat.le_refl _
  | getFind who id =>
      cases h
      cases who <;> exact Nat.le_refl _
  | getScan who p id =>
      cases h
      rcases who with _ | ⟨_ | _⟩ <;> exact Nat.le_refl _
  | getUnlockG who id r =>
      cases h
      exact wakesLeft_afterPtgid who id r
  | getUnlockHead who p r =>
      cases h
      exact wakesLeft_afterBarrier who p r
  | loopTest l b =>
      cases h
      split
      · exact Nat.le_refl _
      · rw [wakesLeft_exit]
        exact Nat.le_refl _
  | sleepSchedule l b =>
      cases h
      split <;> exact Nat.le_refl _
  | sleepParked l b =>
      obtain ⟨-, rfl⟩ := next_sleepParked h
      exact Nat.le_refl _
  | waitEnter b =>
      cases h
      split <;> exact Nat.le_refl _
  | waitLeave b k =>
      cases h
      split <;> exact of_decide_eq_true rfl
  | destroyUnlink p b =>
      cases h
      split <;> exact Nat.le_refl _
  | _ =>
      cases h
      exact Nat.le_refl _

/-! ## Nobody else is taken off a queue -/

/-- Writing a barrier other than its queue. -/
theorem mem_waitQ_setBarrier {b b' : Addr} {x : BarrierStruct}
    (h : u ∈ (m.barrier b').waitQ → b = b' → u ∈ x.waitQ) (hu : u ∈ (m.barrier b').waitQ) :
    u ∈ ((m.setBarrier b x).barrier b').waitQ := by
  by_cases hb : b' = b
  · subst hb
    rw [Mem.setBarrier_barrier, Function.update_self]
    exact h hu rfl
  · rw [Mem.setBarrier_barrier, Function.update_of_ne hb]
    exact hu

theorem mem_waitQ_setHolder {l : Lock} {o : Option Task} {b : Addr}
    (hu : u ∈ (m.barrier b).waitQ) : u ∈ ((m.setHolder l o).barrier b).waitQ := by
  rw [Mem.setHolder_waitQ]
  exact hu

/-- A turn that makes no wake-up leaves the others on their queues. -/
theorem next_queue_kept (h : next proc t m q = some (m', q')) (hq : q.wakes = false)
    (htu : t ≠ u) {b : Addr} (hb : b < m.brk) (hu : u ∈ (m.barrier b).waitQ) :
    u ∈ (m'.barrier b).waitQ := by
  cases q with
  | user r => cases h
  | oops i => cases h
  | waitWake b' k => cases hq
  | initLockG c | initLockHead c p n | getLockG who id | getLockHead who p id | loopLock l b'
  | destroyLockHead p b' | destroyLockG p b' =>
      obtain ⟨-, rfl, -⟩ := takeLock_eq_some h
      exact mem_waitQ_setHolder hu
  | initUnlockG c p | getUnlockG who id r | getUnlockHead who p r | loopUnlock l b'
  | waitUnlock b' k | destroyUnlock p b' | destroyUnlockG p b' =>
      cases h
      exact mem_waitQ_setHolder hu
  | initUnlockHead c p b' id =>
      cases h
      exact mem_waitQ_setHolder (m := m) (l := .barrierHead p) (o := none) hu
  | destroyUnlockHead p b' =>
      cases h
      exact mem_waitQ_setHolder (m := m) (l := .barrierHead p) (o := none) hu
  | initFind c =>
      cases h
      unfold Mem.findOrNewPtgid
      split
      · exact hu
      · exact hu
  | initLink c p n =>
      cases h
      exact mem_waitQ_setBarrier (m := m) (b := m.brk) (fun _ hbb => absurd hb (by simp [hbb])) hu
  | sleepPrepare l b' =>
      cases h
      exact mem_waitQ_setBarrier (fun hu hbb => List.mem_cons_of_mem _ (hbb ▸ hu)) hu
  | sleepParked l b' =>
      obtain ⟨rfl, -⟩ := next_sleepParked h
      exact hu
  | sleepFinish l b' =>
      cases h
      refine mem_waitQ_setBarrier (fun hu hbb => ?_) hu
      exact (List.mem_erase_of_ne (Ne.symm htu)).mpr (hbb ▸ hu)
  | waitEnter b' =>
      cases h
      unfold Mem.arrive
      dsimp only
      split
      · exact mem_waitQ_setBarrier (m := m) (b := b') (fun hu hbb => hbb ▸ hu) hu
      · exact mem_waitQ_setBarrier (m := m) (b := b') (fun hu hbb => hbb ▸ hu) hu
  | waitLeave b' k =>
      cases h
      exact mem_waitQ_setBarrier (m := m) (b := b') (fun hu hbb => hbb ▸ hu) hu
  | destroyUnlink p b' =>
      cases h
      exact mem_waitQ_setBarrier (m := m) (b := b') (fun hu hbb => hbb ▸ hu) hu
  | _ =>
      cases h
      exact hu

/-- A wake-up gives a sleeper seven turns at most; falling asleep gives none. -/
theorem turnsLeft_le (z z' : Bool) (q : Pc) :
    q.turnsLeft z' ≤ q.turnsLeft z + 7
      ∧ ((z = true → z' = true) → q.turnsLeft z' ≤ q.turnsLeft z) := by
  cases q with
  | sleepSchedule l b | sleepParked l b =>
      cases z <;> cases z' <;> simp [Pc.turnsLeft]
  | _ => exact ⟨Nat.le_add_right _ _, fun _ => Nat.le_refl _⟩

/-- What another task can still do grows by a wake-up only. -/
theorem next_share_other (h : next proc t m q = some (m', q')) (htu : t ≠ u) {r : Pc}
    (hr : ∀ b ∈ r.addrs, b < m.brk) (n : Nat) :
    share n u m' r ≤ share n u m r + if q.wakes then 7 else 0 := by
  rw [share, share, Nat.add_assoc]
  refine Nat.add_le_add_left ?_ _
  split
  · exact (turnsLeft_le _ _ r).1
  · rename_i hw
    refine (turnsLeft_le _ _ r).2 fun hz => ?_
    rw [asleep] at hz ⊢
    split at hz
    · rename_i l b hp
      have hb : b < m.brk := hr b (parks_mem_addrs hp)
      exact decide_eq_true
        (next_queue_kept h (Bool.not_eq_true _ ▸ hw) htu hb (of_decide_eq_true hz))
    · cases hz

/-- What a turn brings in from outside. -/
def Act.cost (n : Nat) : Act → Nat
  | .call _ => 7 * n + 31
  | .signal => 7
  | .run | .fault => 0

theorem share_entry (n : Nat) (c : Call) : share n t m c.entry ≤ 7 * n + 30 := by
  cases c with
  | init count =>
      rw [Call.entry]
      split <;> simp [share, Pc.wakesLeft, Pc.turnsLeft]
  | wait id => simp [Call.entry, share, Pc.wakesLeft, Pc.turnsLeft]
  | destroy id => simp [Call.entry, share, Pc.wakesLeft, Pc.turnsLeft]

/-- A task's own turn, in which it pays for the wake-up it makes. -/
theorem exec_share {a : Act} (h : exec proc t m q a = some (m', q')) (n : Nat) :
    share n t m' q' + 1 + n * (if q.wakes then 7 else 0) ≤ share n t m q + a.cost n := by
  rcases exec_cases h with ⟨rfl, h⟩ | ⟨rfl, c, r, rfl, rfl, rfl⟩ | ⟨rfl, l, b, rfl, hq, rfl⟩ |
    ⟨rfl, p, b, rfl, rfl, -, rfl⟩
  · have hturns := next_turnsLeft h
    have hwakes := Nat.mul_le_mul_left (7 * n) (next_wakesLeft h)
    rw [Nat.mul_add] at hwakes
    have hpaid : 7 * n * (if q.wakes then 1 else 0) = n * (if q.wakes then 7 else 0) := by
      split <;> omega
    rw [share, share, Act.cost]
    omega
  · have hentry := share_entry (t := t) (m := m') n c
    show share n t m' c.entry + 1 + n * 0 ≤ _ + (7 * n + 31)
    omega
  · have hsleeps : share n t m' (.sleepFinish l b) + 1 + n * 0 ≤ share n t m' q + 7 := by
      rcases hq with rfl | rfl <;> simp only [share, Pc.wakesLeft, Pc.turnsLeft] <;> split <;> omega
    rcases hq with rfl | rfl <;> exact hsleeps
  · simp [share, Pc.wakesLeft, Pc.turnsLeft, Pc.wakes, Act.cost]

theorem exec_share_other {a : Act} (h : exec proc t m q a = some (m', q')) (htu : t ≠ u) {r : Pc}
    (hr : ∀ b ∈ r.addrs, b < m.brk) (n : Nat) :
    share n u m' r ≤ share n u m r + if q.wakes then 7 else 0 := by
  rcases exec_cases h with ⟨-, h⟩ | ⟨rfl, -⟩ | ⟨rfl, -⟩ | ⟨rfl, -⟩
  · exact next_share_other h htu hr n
  · exact Nat.le_add_right _ _
  · exact Nat.le_add_right _ _
  · exact Nat.le_add_right _ _

end Turns

/-! ## Schedules -/

def Act.isCall : Act → Bool
  | .call _ => true
  | _ => false

def Act.isSignal : Act → Bool
  | .signal => true
  | _ => false

/-- The calls that are made in a schedule. -/
def calls (sched : List (Task × Act)) : Nat := sched.countP fun x => x.2.isCall

/-- The returns from `schedule` with nobody having woken the task; a pending signal makes
    any number of them. -/
def earlyReturns (sched : List (Task × Act)) : Nat := sched.countP fun x => x.2.isSignal

theorem sum_cost (n : Nat) (sched : List (Task × Act)) :
    (sched.map fun x => x.2.cost n).sum = calls sched * (7 * n + 31) + earlyReturns sched * 7 := by
  induction sched with
  | nil => simp [calls, earlyReturns]
  | cons x rest ih =>
      obtain ⟨t, a⟩ := x
      rw [List.map_cons, List.sum_cons, ih, calls, calls, earlyReturns, earlyReturns,
        List.countP_cons, List.countP_cons, Nat.add_mul, Nat.add_mul]
      cases a <;> simp only [Act.cost, Act.isCall, Act.isSignal, if_true, Bool.false_eq_true,
        if_false] <;> omega

theorem wakesLeft_le (q : Pc) : q.wakesLeft ≤ 1 := by
  cases q with
  | getLockG who id | getFind who id | getUnlockG who id r => cases who <;> simp [Pc.wakesLeft]
  | getLockHead who p id | getScan who p id | getUnlockHead who p r =>
      rcases who with _ | ⟨_ | _⟩ <;> simp [Pc.wakesLeft]
  | loopLock l b | loopTest l b | loopUnlock l b | sleepPrepare l b | sleepSchedule l b
  | sleepParked l b | sleepFinish l b => cases l <;> simp [Pc.wakesLeft, Loop.wakes]
  | _ => simp [Pc.wakesLeft]

theorem share_le (n : Nat) (t : Task) (m : Mem) (q : Pc) : share n t m q ≤ 7 * n + 30 := by
  have hturns : q.turnsLeft (asleep t m q) ≤ 30 := by
    cases q with
    | loopLock l b | loopTest l b | loopUnlock l b | sleepPrepare l b | sleepSchedule l b
    | sleepParked l b | sleepFinish l b =>
        cases l <;> simp only [Pc.turnsLeft, Loop.turnsAfter] <;> (try split) <;> omega
    | _ => simp [Pc.turnsLeft]
  calc share n t m q ≤ 7 * n * 1 + 30 :=
        Nat.add_le_add (Nat.mul_le_mul_left _ (wakesLeft_le q)) hturns
    _ = 7 * n + 30 := by rw [Nat.mul_one]

/-- **HOW LONG A RUN IS**: a run of `n` tasks from any state of the driver is no longer
    than what they can do by themselves, what every call brings in, and seven turns for
    every return from `schedule` without a wake-up, under any scheduler and whether or
    not a wake-up is lost.  A task that spins or is parked has no turn; one with a signal
    pending has as many such returns as it likes. -/
theorem schedule_bounded (proc : Task → Pid) {s s' : State} (h : Reachable proc s)
    (ts : Finset Task) {sched : List (Task × Act)} (hrun : Run (exec proc) s sched s')
    (hts : ∀ x ∈ sched, x.1 ∈ ts) :
    sched.length ≤ ts.card * (7 * ts.card + 30) + calls sched * (7 * ts.card + 31)
      + earlyReturns sched * 7 := by
  have hlen := hrun.length_le (Reachable proc) (fun x => x.1 ∈ ts) (potential (share ts.card) ts)
    (Act.cost ts.card) (fun s t a s' hr hs => hr.turn t a trivial hs) ?_ h hts
  · rw [sum_cost] at hlen
    have hstart : potential (share ts.card) ts s ≤ ts.card * (7 * ts.card + 30) :=
      Finset.sum_le_card_nsmul ts _ _ fun t _ => share_le ts.card t s.mem (s.loc t)
    omega
  · intro s t a s' hr ht hs
    obtain ⟨m', q', he, rfl⟩ := turn_eq_some hs
    refine potential_turn ht (exec_share he ts.card) fun u _ hu => ?_
    exact exec_share_other he (Ne.symm hu) ((reach_owns hr).2 u).bounded ts.card

/-- Three tasks, one barrier and one round of two. -/
theorem schedule_bounded_crossing :
    ∃ s', Run (exec fun _ => 0) State.initial crossing s'
      ∧ crossing.length ≤ 3 * 51 + calls crossing * 52 + earlyReturns crossing * 7 := by
  have hsome : (runWhen (exec fun _ => 0) (fun _ _ _ => true) State.initial crossing).isSome
      = true := by
    decide
  obtain ⟨s', hs'⟩ := Option.isSome_iff_exists.mp hsome
  have hrun := Run.of_runWhen hs'
  exact ⟨s', hrun, schedule_bounded (fun _ => 0) Reach.refl {0, 1, 2} hrun (by decide)⟩

/-! ## At rest -/

/-- No task can go on by itself. -/
def Resting (proc : Task → Pid) (s : State) : Prop := ∀ t, next proc t s.mem (s.loc t) = none

/-- Why a task cannot go on. -/
theorem next_eq_none {proc : Task → Pid} {t : Task} {m : Mem} {q : Pc}
    (h : next proc t m q = none) :
    (∃ r, q = .user r) ∨ (∃ i, q = .oops i) ∨ (∃ l, q.spinsOn = some l ∧ m.holder l ≠ none)
      ∨ ∃ l b, q = .sleepParked l b ∧ t ∈ (m.barrier b).waitQ := by
  have spins {l : Lock} {q' : Pc} (hl : takeLock t m l q' = none) : m.holder l ≠ none := by
    intro hn
    rw [takeLock, Mem.spinLock, if_pos hn] at hl
    cases hl
  cases q with
  | user r => exact .inl ⟨r, rfl⟩
  | oops i => exact .inr (.inl ⟨i, rfl⟩)
  | initLockG c | initLockHead c p n | getLockG who id | getLockHead who p id | loopLock l b
  | destroyLockHead p b | destroyLockG p b => exact .inr (.inr (.inl ⟨_, rfl, spins h⟩))
  | sleepParked l b =>
      rw [next] at h
      split at h
      · rename_i hmem
        exact .inr (.inr (.inr ⟨l, b, rfl, hmem⟩))
      · cases h
  | _ => cases h

theorem rank_le (l : Lock) : l.rank ≤ 1 := by
  cases l <;> simp [Lock.rank]

section Resting
variable {proc : Task → Pid} {s : State}

/-- Nobody spins on a lock unless a task has died in its section. -/
theorem Resting.not_spins (hrest : Resting proc s) (hr : Reachable proc s)
    (hlive : ∀ t p, s.loc t ≠ .oops (some p)) (t : Task) : (s.loc t).spinsOn = none := by
  by_contra hne
  obtain ⟨l, hl⟩ := Option.ne_none_iff_exists'.mp hne
  have hheld (A : Task) (k : Lock) (hk : (s.loc A).spinsOn = some k) :
      ∃ B, s.mem.holder k = some B := by
    rcases next_eq_none (hrest A) with ⟨r, hq⟩ | ⟨i, hq⟩ | ⟨k', hk', hn⟩ | ⟨l, b, hq, -⟩
    · rw [hq] at hk
      cases hk
    · rw [hq] at hk
      cases hk
    · rw [hk'] at hk
      cases hk
      exact Option.ne_none_iff_exists'.mp hn
    · rw [hq] at hk
      cases hk
  obtain ⟨B, k, hB, hs⟩ := exists_holds_not_spins (ordered_of_reach hr) hheld
    rank_le hl
  -- the holder has a turn
  have hk : k ∈ (s.loc B).held := ((reach_owns hr).2 B).holds k |>.mp hB
  rcases next_eq_none (hrest B) with ⟨r, hq⟩ | ⟨i, hq⟩ | ⟨k', hk', -⟩ | ⟨l, b, hq, -⟩
  · rw [hq] at hk
    cases hk
  · cases i with
    | none =>
        rw [hq] at hk
        cases hk
    | some p => exact hlive B p hq
  · rw [hs] at hk'
    cases hk'
  · rw [hq] at hk
    cases hk

/-- A call that has not returned is parked. -/
theorem Resting.parked (hrest : Resting proc s) (hr : Reachable proc s)
    (hlive : ∀ t p, s.loc t ≠ .oops (some p)) (t : Task) :
    (∃ r, s.loc t = .user r) ∨ s.loc t = .oops none
      ∨ ∃ l b, s.loc t = .sleepParked l b ∧ t ∈ (s.mem.barrier b).waitQ := by
  rcases next_eq_none (hrest t) with h | ⟨i, hq⟩ | ⟨l, hl, -⟩ | h
  · exact .inl h
  · cases i with
    | none => exact .inr (.inl hq)
    | some p => exact absurd hq (hlive t p)
  · rw [hrest.not_spins hr hlive t] at hl
    cases hl
  · exact .inr (.inr h)

/-- **AT REST EVERY CALL WAITS FOR CALLS THAT HAVE NOT BEEN MADE**, on the runs in which
    no `prepare_to_wait` comes too late: when no task can go on, a task that has not
    returned (or died in `printSYNC_start` with no lock) is parked, and if the count of
    its barrier is not 0 it waits in a round that is filling and has fewer calls
    than the count.  So a full round is never stuck, nobody waits to enter, and no
    `barrier_destroy` waits.  `hlive`: nobody has died in the section on
    `barrier_head_lock`, as a `barrier_destroy` does that removes a barrier a second
    time; that lock is never released. -/
theorem rest_waits_for_arrivals (proc : Task → Pid) {s : State} (h : ReachWhen proc Prepared s)
    (hrest : Resting proc s) (hlive : ∀ t p, s.loc t ≠ .oops (some p)) (t : Task) :
    (∃ r, s.loc t = .user r) ∨ s.loc t = .oops none
      ∨ ∃ l b, s.loc t = .sleepParked l b ∧ (1 ≤ (s.mem.barrier b).count.toNat →
          (∃ k, l = .leave k) ∧ (s.mem.barrier b).total < (s.mem.barrier b).count
            ∧ (Waiting s b).encard = (s.mem.barrier b).total.toNat) := by
  have hr : Reachable proc s := h.mono fun _ _ _ _ => trivial
  -- nobody is about to wake anybody, and no wake-up was lost
  have hsleeps {u : Task} {l : Loop} {b : Addr} (hc : 1 ≤ (s.mem.barrier b).count.toNat)
      (hu : s.loc u = .sleepParked l b) (hmem : u ∈ (s.mem.barrier b).waitQ) :
      l.sleeps (s.mem.barrier b).total = true := by
    rcases reach_attended h u l b hc (by rw [hu]; rfl) hmem with hl | ⟨v, k, hv⟩
    · exact hl
    · have hnone := hrest v
      rw [hv] at hnone
      cases hnone
  rcases hrest.parked hr hlive t with ht | ht | ⟨l, b, ht, hmem⟩
  · exact .inl ht
  · exact .inr (.inl ht)
  · refine .inr (.inr ⟨l, b, ht, fun hc => ?_⟩)
    have hl := hsleeps hc ht hmem
    have hcount : (s.mem.barrier b).count.toNat < 2 ^ 31 := ((reach_encoded h).1 b).count
    rcases waiting_encoded h hc with ⟨h1, hlt, hcard⟩ | ⟨d, hd, hdc, hcard⟩
    · have htotal : (s.mem.barrier b).total.toNat ≤ 2 ^ 63 := by
        rw [BitVec.lt_def] at hlt
        omega
      exact ⟨(sleeps_lt hl htotal).2, hlt, hcard⟩
    · -- a round that drains has a call to leave, and that one does not sleep
      exfalso
      have hflag : barrierFlag.toNat = 2 ^ 63 := toNat_barrierFlag
      obtain ⟨u, k, hu⟩ : (Waiting s b).Nonempty := by
        by_contra hempty
        rw [Set.not_nonempty_iff_eq_empty.mp hempty, Set.encard_empty] at hcard
        have hd0 : d = 0 := by exact_mod_cast hcard.symm
        have hlt := (sleeps_lt hl (by omega)).1
        omega
      rcases hrest.parked hr hlive u with ⟨r, hq⟩ | hq | ⟨l', b', hq, hmem'⟩
      · rw [hq] at hu
        cases hu
      · rw [hq] at hu
        cases hu
      · rw [hq] at hu
        cases l' <;> cases hu
        have hlt : (s.mem.barrier b).total.toNat < barrierFlag.toNat := by
          simpa [Loop.sleeps, BitVec.lt_def] using hsleeps hc hq hmem'
        omega

end Resting

/-- One call of a round of two. -/
def firstOfTwo : State :=
  afterWhen (fun _ => 0) 3 preparedTest (wholeInit 0 2 ++ (1, .call (.wait 0)) :: runs 1 13)

theorem reach_firstOfTwo : ReachWhen (fun _ => 0) Prepared firstOfTwo :=
  reachWhen_afterWhen _ prepared_of_test _

theorem only_firstOfTwo : Only 3 firstOfTwo := only_afterWhen _ 3 preparedTest _

theorem resting_firstOfTwo : Resting (fun _ => 0) firstOfTwo := by
  intro t
  by_cases ht : t < 3
  · have hall : (List.range 3).all (fun u =>
        (next (fun _ => 0) u firstOfTwo.mem (firstOfTwo.loc u)).isNone) = true := by decide
    exact Option.isNone_iff_eq_none.mp (List.all_eq_true.mp hall t (List.mem_range.mpr ht))
  · rw [only_firstOfTwo t (Nat.not_lt.mp ht)]
    rfl

theorem rest_waits_for_arrivals_half :
    Resting (fun _ => 0) firstOfTwo ∧ (∀ t p, firstOfTwo.loc t ≠ .oops (some p))
      ∧ (Waiting firstOfTwo 1).encard = (firstOfTwo.mem.barrier 1).total.toNat := by
  have hlive (t : Task) (p : Addr) : firstOfTwo.loc t ≠ .oops (some p) := by
    intro ht
    have hall := forall_of_allBelow (f := fun q => match q with | .oops _ => false | _ => true)
      only_firstOfTwo rfl (show allBelow 3 _ firstOfTwo = true by decide) t
    rw [ht] at hall
    cases hall
  refine ⟨resting_firstOfTwo, hlive, ?_⟩
  have hloc : firstOfTwo.loc 1 = .sleepParked (.leave 0) 1 := by decide
  rcases rest_waits_for_arrivals (fun _ => 0) reach_firstOfTwo resting_firstOfTwo hlive 1 with
    ⟨r, h⟩ | h | ⟨l, b, h, hw⟩
  · rw [hloc] at h
    cases h
  · rw [hloc] at h
    cases h
  · rw [hloc] at h
    cases h
    exact (hw (by decide)).2.2

end Barrier
