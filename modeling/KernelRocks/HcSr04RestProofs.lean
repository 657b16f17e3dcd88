import KernelRocks.HcSr04DeadlockProofs
import KernelRocks.HcSr04ThreadProofs

/-! # Reads, writes and SETMODEs come to an end

    In `do_send` of the miscdevice driver the thread takes no `kconfig_lock`, so the
    ranks can stay as they are: `kconfig_lock`, `kthread_lock`, the end of a thread, and
    the two locks that a thread takes.

    The echo interrupt takes its locks above the code it has come upon, which has no
    turn until the handler returns: on the CPU of a holder of `ongoing_lock` or
    `cir_buf_lock` the handler spins for ever.  Rest is stated with the interrupted
    code standing still, and it is assumed to hold neither lock.

    * `misc_deadlock_free`: nobody waits in a circle, whatever is stopped when.
    * `misc_rest_idle`: with frequencies above zero, a state in which no task has a turn
      is one in which no call is in progress.
    * `sysfs_rest_idle`: the same of the SYSFS driver, where the threads that are stopped
      are past. -/

namespace HcSr04Machine

open Interleaving
open HcSr04 (ModeSet SpinLock oneShot periodic Version)

/-! ## No pin is read under `kconfig_lock` -/

def Pc.noPin : Pc → Bool
  | .lock _ k | .unlock _ k => k.noPin
  | .readPin _ => false
  | _ => true

section NoPin
variable {t : Task} {m m' : Mem} {q q' : Pc}

theorem noPin_back (b : Back) : b.pc.noPin = true := by
  cases b <;> rfl

theorem noPin_retry (p : Pulse) : (retry .misc p).noPin = true := by
  unfold retry
  split <;> rfl

theorem noPin_keeper (k : Keeper) :
    k.cleared.noPin = true ∧ k.started.noPin = true ∧ k.flagged.noPin = true := by
  cases k <;> exact ⟨rfl, rfl, rfl⟩

theorem noPin_next (hq : q.noPin = true) (h : next .misc t m q = some (m', q')) :
    q'.noPin = true := by
  cases q with
  | lock l k =>
      obtain ⟨-, rfl, rfl⟩ := next_lock h
      exact hq
  | unlock l k =>
      cases h
      exact hq
  | readPin p => cases hq
  | _ =>
      simp only [next] at h
      repeat' split at h
      all_goals cases h
      all_goals simp [Pc.noPin, send, doSend, noPin_back, noPin_retry, noPin_keeper]

theorem reach_noPin {C : State → Task → Act → Prop} {s : State} (h : ReachWhen .misc C s)
    (t : Task) :
    (s.loc t).noPin = true := by
  refine (Reach.modular (I := fun _ => True) (P := fun _ _ q => q.noPin = true) ?_ ?_ ?_ h).2 t
  · refine ⟨trivial, fun t => ?_⟩
    cases t <;> rfl
  · intro s t a m' q' _ _ _ hP he
    refine ⟨trivial, ?_⟩
    rcases exec_cases he with ⟨-, he⟩ | ⟨c, n, -, -, -, -, -, rfl⟩ | ⟨-, -, -, -, rfl⟩
      | ⟨ns, -, -, rfl⟩
    · exact noPin_next hP he
    · rcases entry_cases c with h | h | ⟨act, h⟩ | ⟨w, -, h⟩ | ⟨_, _, -, h | h⟩ <;> rw [h] <;> rfl
    · rfl
    · exact hP
  · exact fun s t u a m' q' _ _ _ _ _ hu _ => hu

/-- It has no `enable_store` either. -/
theorem reach_noEnable {C : State → Task → Act → Prop} {s : State} (h : ReachWhen .misc C s) :
    ReachWhen .misc NoEnable s := by
  refine Reach.strengthen (fun s s' t a _ _ _ hs => ?_) h
  rintro ret value rfl
  obtain ⟨m', q', he, -⟩ := turn_eq_some hs
  rcases exec_cases he with ⟨ha, -⟩ | ⟨c, n, ha, -, -, hv, -⟩ | ⟨ha, -⟩ | ⟨ns, ha, -⟩
  · cases ha
  · cases ha
    cases hv
  · cases ha
  · cases ha

end NoPin

/-! ## The order -/

/-- `kconfig_lock` is taken first, and what a thread takes last. -/
def miscRank : Resource → Nat
  | .lock .kconfig => 0
  | .lock .kthread => 1
  | .thread _ => 2
  | .lock _ => 3

/-- The threads take two locks, and neither of the first two. -/
theorem misc_lock_of_thread {l : SpinLock} {k : Pc} {n : Nat} (hw : (Pc.lock l k).Wf)
    (ho : (Pc.lock l k).ordered) (hof : (Pc.lock l k).of (.thread n))
    (hp : (Pc.lock l k).noPin = true) : miscRank (.lock l) = 3 := by
  obtain ⟨hkt, hkc⟩ := lock_of_thread hw ho hof
  cases l with
  | kthread => exact absurd rfl hkt
  | kconfig =>
      -- only the place that reads the pins is held back by it
      have hpast := hkc rfl
      have hhead := hw.1
      cases k with
      | readPin p => cases hp
      | lock _ _ | unlock _ _ => cases hw.2.1
      | _ => first | (cases hpast; done) | cases hhead
  | _ => rfl

section Order
variable {s : State}

theorem misc_ordered {C : State → Task → Act → Prop} (h : ReachWhen .misc C s) :
    LockOrder.Ordered miscRank (fun t => (s.loc t).waitsOn) (Holds s) := by
  intro t r r' hr hh
  change (s.loc t).waitsOn = some r at hr
  have hown := reach_owns h t
  have hof := reach_of h t
  have hord := reach_ordered (fun _ _ _ hC => hC) (reach_noEnable h) t
  have hpin := reach_noPin h t
  cases hq : s.loc t with
  | lock l k =>
      rw [hq] at hr hown hof hord hpin
      cases hr
      cases r' with
      | lock l' =>
          have hl := (hown.holds l').mp hh
          rcases hord.1 (List.ne_nil_of_mem hl) with ⟨rfl, rfl⟩ | ⟨rfl, rfl⟩
          · rw [List.mem_singleton.mp hl]
            exact Nat.zero_lt_one
          · rw [List.mem_singleton.mp hl]
            exact Nat.lt_of_sub_eq_succ rfl
      | thread n =>
          obtain ⟨rfl, -⟩ := hh
          rw [misc_lock_of_thread hown.wf hord hof hpin]
          exact Nat.lt_succ_self 2
  | stopWait k n =>
      rw [hq] at hr hown hof
      cases hr
      cases r' with
      | lock l' =>
          have hl : l' ∈ k.held := (hown.holds l').mp hh
          have hk : l' = .kthread ∨ l' = .kconfig := by
            cases k <;> simp_all [Keeper.held]
          rcases hk with rfl | rfl
          · exact Nat.lt_succ_self 1
          · exact Nat.zero_lt_two
      | thread j =>
          obtain ⟨rfl, -⟩ := hh
          obtain ⟨i, hi⟩ := hof
          cases hi
  | _ =>
      rw [hq] at hr
      cases hr

end Order

/-- **NO DEADLOCK** in the miscdevice driver: in no run does anybody wait in a circle, and a
    call never waits in `kthread_stop` with a lock that the thread spins on. -/
theorem misc_deadlock_free {s : State} (h : ReachWhen .misc Free s) : DeadlockFree s :=
  DeadlockFree.of_acyclic fun t => LockOrder.not_transGen_self (misc_ordered h) t

/-- SETMODE waits for the thread, which spins on `ongoing_lock` while the interrupt holds
    it. -/
def stoppedSpinning : State :=
  scheduled .misc [.caller 0, .thread 0, .irq] (fun _ _ _ => true)
    (threadRuns ++ List.replicate 3 (.thread 0, .run) ++ threadStopped
      ++ (.irq, .fire) :: [(.irq, .run)])

theorem misc_deadlock_free_spinning :
    (ReachWhen .misc Free stoppedSpinning ∧ stoppedSpinning.loc (.caller 0) = .stopWait .halt 0
      ∧ (stoppedSpinning.loc (.thread 0)).waitsOn.isSome = true
      ∧ stoppedSpinning.mem.holder .ongoing = some .irq)
      ∧ DeadlockFree stoppedSpinning := by
  have hr : ReachWhen .misc Free stoppedSpinning :=
    reach_scheduled .misc (fun _ _ _ _ _ => trivial) _
  exact ⟨⟨hr, by decide⟩, misc_deadlock_free hr⟩

/-! ## At rest -/

section Rest
variable {v : Version} {C : State → Task → Act → Prop} {t : Task} {m m' : Mem} {q q' : Pc} {a : Act}
  {s : State} {n : Nat}

/-- The places without a turn. -/
theorem stuck_cases (h : next v t m q = none) :
    q = .idle ∨ q = .ended ∨ q = .oops ∨ (∃ n, q = .unborn n ∧ m.born ≤ n)
      ∨ (∃ l k, q = .lock l k ∧ m.holder l ≠ none)
      ∨ ∃ k n, q = .stopWait k n ∧ m.ended n = false := by
  cases q with
  | idle => exact .inl rfl
  | ended => exact .inr (.inl rfl)
  | oops => exact .inr (.inr (.inl rfl))
  | unborn n =>
      simp only [next] at h
      split at h
      · split at h <;> cases h
      · exact .inr (.inr (.inr (.inl ⟨n, rfl, Nat.le_of_not_lt ‹_›⟩)))
  | lock l k =>
      simp only [next] at h
      split at h
      · cases h
      · exact .inr (.inr (.inr (.inr (.inl ⟨l, k, rfl, ‹_›⟩))))
  | stopWait k n =>
      simp only [next] at h
      split at h
      · cases h
      · exact .inr (.inr (.inr (.inr (.inr ⟨k, n, rfl, Bool.eq_false_iff.mpr ‹_›⟩))))
  | _ =>
      simp only [next] at h
      repeat' split at h
      all_goals cases h

theorem stops_entry (c : Call) : c.entry.stops = none := by
  rcases entry_cases c with h | h | ⟨act, h⟩ | ⟨w, -, h⟩ | ⟨_, _, -, h | h⟩ <;> rw [h] <;> rfl

/-- Without `enable_store` a thread is only started where the handle has been tested. -/
theorem reach_holding (h : ReachWhen v NoEnable s) (t : Task) : Holding v s.mem (s.loc t) := by
  have hord : ReachWhen v (fun s t _ => (s.loc t).ordered) s :=
    h.strengthen fun _ _ t _ hr _ _ _ => reach_ordered (fun _ _ _ hC => hC) hr t
  refine (reach_linked (fun s t ho _ hq => ?_) hord).2 t
  rw [hq] at ho
  exact absurd rfl ho.2

/-- A thread that is told to stop has been started. -/
theorem reach_stops_born (h : ReachWhen v NoEnable s) (hn : (s.loc t).stops = some n) :
    n < s.mem.born := by
  refine (Reach.modular (I := fun _ => True) (P := fun _ m q => ∀ n, q.stops = some n → n < m.born)
    ?_ ?_ ?_ h).2 t n hn
  · refine ⟨trivial, fun t => ?_⟩
    cases t <;> exact nofun
  · intro s t a m' q' hr _ _ hP he
    refine ⟨trivial, fun n hn => ?_⟩
    have hborn := exec_born he
    rcases exec_cases he with ⟨-, he⟩ | ⟨c, j, -, -, -, -, -, rfl⟩ | ⟨-, -, -, -, rfl⟩
      | ⟨ns, -, -, rfl⟩
    · rcases next_stops he hn with hq | ⟨k, hq⟩
      · exact Nat.lt_of_lt_of_le (hP n hq) hborn
      · have hhold := reach_holding hr t
        rw [hq] at hhold
        exact Nat.lt_of_lt_of_le ((hhold.1.handle n).mp hhold.2).1 hborn
    · rw [stops_entry] at hn
      cases hn
    · cases hn
    · exact Nat.lt_of_lt_of_le (hP n hn) hborn
  · intro s t u a m' q' _ _ _ _ _ hu he n hn
    exact Nat.lt_of_lt_of_le (hu n hn) (exec_born he)

/-- Somebody waits for what the task holds. -/
def HoldsUp (s : State) (t : Task) (r : Resource) : Prop :=
  Holds s t r ∧ ∃ u, (s.loc u).waitsOn = some r

/-- No task at all has a turn in its own code. -/
def Halted (v : Version) (s : State) : Prop := ∀ t, next v t s.mem (s.loc t) = none

/-- Who waits at rest is held up by somebody. -/
theorem Halted.holdsUp (hrest : Halted v s) (h : ReachWhen v C s) {r : Resource}
    (hr : (s.loc t).waitsOn = some r) : ∃ u, HoldsUp s u r := by
  rcases stuck_cases (hrest t) with hq | hq | hq | ⟨n, hq, -⟩ | ⟨l, k, hq, hl⟩ | ⟨k, n, hq, hn⟩
  · rw [hq] at hr
    cases hr
  · rw [hq] at hr
    cases hr
  · rw [hq] at hr
    cases hr
  · rw [hq] at hr
    cases hr
  · obtain ⟨u, hu⟩ := Option.ne_none_iff_exists'.mp hl
    obtain rfl : .lock l = r := by
      rw [hq] at hr
      exact Option.some.inj hr
    exact ⟨u, hu, t, hr⟩
  · obtain rfl : .thread n = r := by
      rw [hq] at hr
      exact Option.some.inj hr
    refine ⟨.thread n, ⟨rfl, fun hend => ?_⟩, t, hr⟩
    rw [(reach_runs h n).ended.mpr hend] at hn
    cases hn

/-- Who waits for nothing at rest holds up nobody, unless it is stuck. -/
theorem Halted.not_holdsUp (hrest : Halted v s) (h : ReachWhen v NoEnable s)
    (hoops : s.loc t ≠ .oops) (ht : (s.loc t).waitsOn = none) (r : Resource) : ¬ HoldsUp s t r := by
  rintro ⟨hh, u, hu⟩
  have hown := reach_owns h t
  have hof := reach_of h t
  cases r with
  | lock l =>
      have hl := (hown.holds l).mp hh
      rcases stuck_cases (hrest t) with hq | hq | hq | ⟨n, hq, -⟩ | ⟨l', k, hq, -⟩ | ⟨k, n, hq, -⟩
      · rw [hq] at hl
        cases hl
      · rw [hq] at hl
        cases hl
      · exact hoops hq
      · rw [hq] at hl
        cases hl
      · rw [hq] at ht
        cases ht
      · rw [hq] at ht
        cases ht
  | thread n =>
      obtain ⟨rfl, hend⟩ := hh
      have hborn := reach_stops_born h (stops_of_waitsOn hu)
      rcases stuck_cases (hrest (.thread n)) with hq | hq | hq | ⟨j, hq, hj⟩ | ⟨l', k, hq, -⟩ |
        ⟨k, j, hq, -⟩
      · rw [hq] at hof
        exact hof n rfl
      · exact hend hq
      · exact hoops hq
      · rw [hq] at hof
        obtain rfl : n = j := Task.thread.inj hof
        exact absurd hborn (Nat.not_lt_of_le hj)
      · rw [hq] at ht
        cases ht
      · rw [hq] at ht
        cases ht

/-- Nobody waits, if waiting is ordered: among those who wait for each other somebody
    could go on. -/
theorem Halted.waitsOn (hrest : Halted v s) (h : ReachWhen v NoEnable s)
    (hoops : ∀ t, s.loc t ≠ .oops) {rank : Resource → Nat}
    (hord : LockOrder.Ordered rank (fun t => (s.loc t).waitsOn) (HoldsUp s))
    {b : Nat} (hle : ∀ r, rank r ≤ b) (t : Task) : (s.loc t).waitsOn = none := by
  cases hw : (s.loc t).waitsOn with
  | none => rfl
  | some r =>
      obtain ⟨u, r', hh, hu⟩ :=
        LockOrder.exists_holds_not_spins hord (fun _ _ => hrest.holdsUp h) hle hw
      exact absurd hh (hrest.not_holdsUp h (hoops u) hu r')

/-- No lock is held, and no call, no interrupt and no thread is in progress. -/
structure Quiet (s : State) : Prop where
  holder : ∀ l, s.mem.holder l = none
  irq : s.loc .irq = .idle
  caller : ∀ n, s.loc (.caller n) = .idle
  thread : ∀ n, s.loc (.thread n) = if n < s.mem.born then .ended else .unborn n

/-- At rest, with nobody waiting. -/
theorem Halted.quiet (hrest : Halted v s) (h : ReachWhen v C s) (hoops : ∀ t, s.loc t ≠ .oops)
    (hwaits : ∀ t, (s.loc t).waitsOn = none) : Quiet s := by
  have hplace (t : Task) : s.loc t = .idle ∨ s.loc t = .ended
      ∨ ∃ n, s.loc t = .unborn n ∧ s.mem.born ≤ n := by
    have hw := hwaits t
    rcases stuck_cases (hrest t) with hq | hq | hq | hq | ⟨l, k, hq, -⟩ | ⟨k, n, hq, -⟩
    · exact .inl hq
    · exact .inr (.inl hq)
    · exact absurd hq (hoops t)
    · exact .inr (.inr hq)
    · rw [hq] at hw
      cases hw
    · rw [hq] at hw
      cases hw
  have hidle (t : Task) (ht : ∀ n, t ≠ .thread n) : s.loc t = .idle := by
    have hof := reach_of h t
    rcases hplace t with hq | hq | ⟨n, hq, -⟩
    · exact hq
    · rw [hq] at hof
      obtain ⟨n, hn⟩ := hof
      exact absurd hn (ht n)
    · rw [hq] at hof
      exact absurd hof (ht n)
  refine ⟨fun l => ?_, hidle .irq nofun, fun n => hidle (.caller n) nofun, fun n => ?_⟩
  · cases hl : s.mem.holder l with
    | none => rfl
    | some t =>
        have hheld := ((reach_owns h t).holds l).mp hl
        rcases hplace t with hq | hq | ⟨n, hq, -⟩
        · rw [hq] at hheld
          cases hheld
        · rw [hq] at hheld
          cases hheld
        · rw [hq] at hheld
          cases hheld
  · have hof := reach_of h (.thread n)
    rcases hplace (.thread n) with hq | hq | ⟨j, hq, hj⟩
    · rw [hq] at hof
      exact absurd rfl (hof n)
    · rw [hq, if_pos ((reach_runs h n).born (by rw [hq]; nofun))]
    · rw [hq] at hof
      obtain rfl : n = j := Task.thread.inj hof
      rw [hq, if_neg (Nat.not_lt_of_le hj)]

/-! ## Under an interrupt -/

/-- The code that the echo interrupt has come upon, while the handler is running.  `u` is
    `none` where the interrupt has come upon no code of the driver. -/
def Interrupted (u : Option Task) (s : State) (t : Task) : Prop :=
  u = some t ∧ t ≠ .irq ∧ s.loc .irq ≠ .idle

/-- It holds neither lock of the handler. -/
def Apart (u : Option Task) (s : State) : Prop :=
  ∀ t, Interrupted u s t → s.mem.holder .ongoing ≠ some t ∧ s.mem.holder .cirBuf ≠ some t

/-- No task has a turn in its own code, the interrupted code standing still. -/
def AtRest (v : Version) (u : Option Task) (s : State) : Prop :=
  ∀ t, ¬ Interrupted u s t → next v t s.mem (s.loc t) = none

/-- The locks under which somebody waits are none of the handler's. -/
theorem not_handler_lock {l : SpinLock} (hl : l = .ongoing ∨ l = .cirBuf)
    (hk : l = .kthread ∨ l = .kconfig) : False := by
  rcases hl with rfl | rfl
  · rcases hk with hk | hk <;> cases hk
  · rcases hk with hk | hk <;> cases hk

/-- Who holds a lock of the handler waits for nothing. -/
theorem holder_has_turn (h : ReachWhen v NoEnable s) {l : SpinLock}
    (hl : l = .ongoing ∨ l = .cirBuf) (ht : s.mem.holder l = some t) :
    next v t s.mem (s.loc t) ≠ none := by
  intro hstuck
  have hown := reach_owns h t
  have hord := reach_ordered (fun _ _ _ hC => hC) h t
  have hmem := (hown.holds l).mp ht
  rcases stuck_cases hstuck with hq | hq | hq | ⟨n, hq, -⟩ | ⟨l', k, hq, -⟩ | ⟨k, n, hq, -⟩
  · rw [hq] at hmem
    cases hmem
  · rw [hq] at hmem
    cases hmem
  · rw [hq] at hmem
    cases hmem
  · rw [hq] at hmem
    cases hmem
  · rw [hq] at hmem hord
    -- a lock is only waited for with kconfig_lock or kthread_lock held
    have hk : l = .kthread ∨ l = .kconfig := by
      rcases hord.1 (List.ne_nil_of_mem hmem) with ⟨rfl, rfl⟩ | ⟨rfl, rfl⟩
      · exact .inr (List.mem_singleton.mp hmem)
      · exact .inl (List.mem_singleton.mp hmem)
    exact not_handler_lock hl hk
  · rw [hq] at hmem
    have hk : l = .kthread ∨ l = .kconfig := by
      change l ∈ k.held at hmem
      cases k <;> simp_all [Keeper.held]
    exact not_handler_lock hl hk

theorem back_not_irq (b : Back) : ¬ b.of .irq := by
  cases b <;> exact id

/-- The handler waits for the two locks only, and holds none while it waits. -/
theorem handler_lock (h : ReachWhen v C s) {l : SpinLock} {k : Pc} (hq : s.loc .irq = .lock l k) :
    (l = .ongoing ∨ l = .cirBuf) ∧ s.mem.holder l ≠ some .irq := by
  have hown := reach_owns h .irq
  have hof := reach_of h .irq
  rw [hq] at hown hof
  have hhead := hown.wf.1
  cases k with
  | irqTest | irqStop =>
      cases hhead
      exact ⟨.inl rfl, fun hh => nomatch (hown.holds .ongoing).mp hh⟩
  | irqNewest x =>
      cases hhead
      exact ⟨.inr rfl, fun hh => nomatch (hown.holds .cirBuf).mp hh⟩
  | lock _ _ | unlock _ _ | irqData _ | perCopy => cases hown.wf.2.1
  | sendTest b => exact absurd hof (back_not_irq b)
  | shotTest b => exact absurd hof.1 (back_not_irq b)
  | readPin p | pollFirst p | timeOut p => exact absurd hof (back_not_irq p.back)
  | _ =>
      first
        | (cases hhead; done)
        | (obtain ⟨n, hn⟩ := hof; cases hn)

/-- With nobody interrupted under its locks the handler gets to its end. -/
theorem AtRest.halted {u : Option Task} (hrest : AtRest v u s) (h : ReachWhen v NoEnable s)
    (hu : Apart u s) : Halted v s := by
  have hirq : s.loc .irq = .idle := by
    by_contra hne
    have hof := reach_of h .irq
    rcases stuck_cases (hrest .irq fun hi => hi.2.1 rfl) with
      hq | hq | hq | ⟨n, hq, -⟩ | ⟨l, k, hq, hl⟩ | ⟨k, n, hq, -⟩
    · exact hne hq
    · rw [hq] at hof
      obtain ⟨n, hn⟩ := hof
      cases hn
    · rw [hq] at hof
      obtain ⟨n, hn⟩ := hof
      cases hn
    · rw [hq] at hof
      cases hof
    · obtain ⟨t, ht⟩ := Option.ne_none_iff_exists'.mp hl
      obtain ⟨hlock, hself⟩ := handler_lock h hq
      -- the holder is not the code that stands still, and has a turn
      refine holder_has_turn h hlock ht (hrest t fun hi => ?_)
      rcases hlock with rfl | rfl
      · exact (hu t hi).1 ht
      · exact (hu t hi).2 ht
    · rw [hq] at hof
      obtain ⟨n, hn⟩ := hof
      cases hn
  exact fun t => hrest t fun hi => hi.2.2 hirq

theorem Quiet.apart {u : Option Task} (h : Quiet s) : Apart u s :=
  fun _ hi => absurd h.irq hi.2.2

/-- With frequencies above zero no thread divides by zero. -/
theorem reach_no_fault (h : ReachWhen v Frequencies s) (t : Task) : s.loc t ≠ .oops := by
  intro hq
  have hpaced := (reach_paced h).2 t
  rw [hq] at hpaced
  exact hpaced

end Rest

theorem miscRank_le (r : Resource) : miscRank r ≤ 3 := by
  cases r with
  | lock l => cases l <;> decide
  | thread n => exact of_decide_eq_true rfl

/-- **AT REST NOTHING IS IN PROGRESS**: where no task of the miscdevice driver has a turn, every
    call and every interrupt has returned, no lock is held, and every thread that was started
    has ended, exactly if the interrupt has not come upon the holder of a lock that it
    takes. -/
theorem misc_rest_idle {s : State} (h : ReachWhen .misc Frequencies s) (u : Option Task)
    (hrest : AtRest .misc u s) : Quiet s ↔ Apart u s := by
  refine ⟨Quiet.apart, fun hu => ?_⟩
  have hhalted := hrest.halted (reach_noEnable h) hu
  have hoops := reach_no_fault h
  have hwaits := hhalted.waitsOn (reach_noEnable h) hoops
    (fun t r r' hr hh => misc_ordered h t r r' hr hh.1) miscRank_le
  exact hhalted.quiet h hoops hwaits

/-- Rest at the end of a schedule, tested on its tasks. -/
theorem atRest_scheduled {v : Version} {u : Option Task} {ts : List Task}
    {ok : State → Task → Act → Bool} {sched : List (Task × Act)} {b : Nat} {s : State}
    (hs : s = scheduled v ts ok sched)
    (hlisted : ∀ t ∈ ts, Interrupted u s t ∨ next v t s.mem (s.loc t) = none)
    (hborn : s.mem.born = b) (hthreads : ∀ n < b, .thread n ∈ ts) : AtRest v u s := by
  intro t hi
  by_cases ht : t ∈ ts
  · exact (hlisted t ht).resolve_left hi
  · have hloc : s.loc t = State.initial.loc t := by
      rw [hs]
      exact among_runAmong State.initial ts ok sched t ht
    rw [hloc]
    cases t with
    | thread n => exact if_neg fun hn => ht (hthreads n (hborn ▸ hn))
    | _ => rfl

/-- The thread has sent its pulse and polls when the echo comes upon it; the sample is stored,
    and SETMODE stops the thread. -/
def stoppedAfterEcho : State :=
  scheduled .misc [.caller 0, .thread 0, .irq] frequencies
    (threadRuns ++ List.replicate 6 (.thread 0, .run)
      ++ (.irq, .fire) :: List.replicate 12 (.irq, .run)
      ++ List.replicate 3 (.thread 0, .run) ++ threadStopped
      ++ List.replicate 2 (.thread 0, .run) ++ List.replicate 4 (.caller 0, .run))

theorem misc_rest_idle_stopped :
    (ReachWhen .misc Frequencies stoppedAfterEcho
      ∧ AtRest .misc (some (.thread 0)) stoppedAfterEcho)
      ∧ stoppedAfterEcho.mem.born = 1 ∧ stoppedAfterEcho.mem.newest = 0
      ∧ ∀ n, stoppedAfterEcho.loc (.caller n) = .idle := by
  have hr : ReachWhen .misc Frequencies stoppedAfterEcho := by
    refine reach_scheduled .misc ?_ _
    rintro s t a _ hok w rfl
    exact of_decide_eq_true hok
  have hborn : stoppedAfterEcho.mem.born = 1 := by decide
  have hrest : AtRest .misc (some (.thread 0)) stoppedAfterEcho :=
    atRest_scheduled rfl (fun t ht => .inr (by revert t; decide)) hborn (by decide)
  have hirq : stoppedAfterEcho.loc .irq = .idle := by decide
  have hquiet := (misc_rest_idle hr _ hrest).mpr fun _ hi => absurd hirq hi.2.2
  exact ⟨⟨hr, hrest⟩, hborn, by decide, hquiet.caller⟩

/-- The echo comes upon a reader that holds `ongoing_lock`. -/
def echoUponReader : State :=
  scheduled .misc [.caller 0, .irq] frequencies
    ((.caller 0, .call .read) :: List.replicate 4 (.caller 0, .run) ++ [(.irq, .fire)])

/-- The handler spins, and the reader does not go on. -/
theorem misc_rest_spinning :
    AtRest .misc (some (.caller 0)) echoUponReader
      ∧ (echoUponReader.loc .irq).spinsOn = some .ongoing
      ∧ echoUponReader.mem.holder .ongoing = some (.caller 0) := by
  refine ⟨atRest_scheduled (b := 0) rfl (fun t ht => ?_) (by decide) nofun, by decide, by decide⟩
  rcases List.mem_cons.mp ht with rfl | ht
  · exact .inl ⟨rfl, by decide, by decide⟩
  · rw [List.mem_singleton.mp ht]
    exact .inr (by decide)

/-! ## The SYSFS driver -/

/-- Frequencies above zero, and stops that meet past threads only. -/
structure PacedStops (s : State) (t : Task) (a : Act) : Prop extends StopsPast s t a where
  freq : Frequencies s t a

theorem rank_le (s : State) (r : Resource) : rank s r ≤ 4 := by
  cases r with
  | thread n => exact of_decide_eq_true rfl
  | lock l =>
      cases l with
      | kconfig =>
          rw [rank]
          split <;> decide
      | _ => exact of_decide_eq_true rfl

/-- **AT REST NOTHING IS IN PROGRESS** in the SYSFS driver either. -/
theorem sysfs_rest_idle {s : State} (h : ReachWhen .sysfs PacedStops s) (u : Option Task)
    (hrest : AtRest .sysfs u s) : Quiet s ↔ Apart u s := by
  refine ⟨Quiet.apart, fun hu => ?_⟩
  have hpast : ReachWhen .sysfs StopsPast s := h.mono fun _ _ _ hC => hC.toStopsPast
  have hoops := reach_no_fault (h.mono fun _ _ _ hC => hC.freq)
  have hord : LockOrder.Ordered (rank s) (fun t => (s.loc t).waitsOn) (HoldsUp s) := by
    rintro t r r' hr ⟨hh, u, hu⟩
    refine rank_ordered hpast t r r' hr ?_
    cases r' with
    | lock l => exact hh
    | thread n => exact ⟨hh.1, u, stops_of_waitsOn hu⟩
  have hno : ReachWhen .sysfs NoEnable s := hpast.mono fun _ _ _ hC => hC.noEnable
  have hhalted := hrest.halted hno hu
  have hwaits := hhalted.waitsOn hno hoops hord (rank_le s)
  exact hhalted.quiet h hoops hwaits

/-- The thread has had its echo and sleeps when it is stopped, and the stop goes through. -/
def stoppedPast : State :=
  scheduled .sysfs [.caller 0, .thread 0, .irq] (fun s t a => stopsPast s t a && frequencies s t a)
    (threadRuns ++ List.replicate 9 (.thread 0, .run)
      ++ (.irq, .fire) :: List.replicate 12 (.irq, .run)
      ++ List.replicate 3 (.thread 0, .run) ++ threadStopped
      ++ List.replicate 2 (.thread 0, .run) ++ List.replicate 4 (.caller 0, .run))

theorem sysfs_rest_idle_past :
    (ReachWhen .sysfs PacedStops stoppedPast ∧ AtRest .sysfs (some (.thread 0)) stoppedPast)
      ∧ stoppedPast.mem.newest = 0 ∧ stoppedPast.loc (.thread 0) = .ended := by
  have hr : ReachWhen .sysfs PacedStops stoppedPast := by
    refine reach_scheduled .sysfs (fun s t a ho hok => ?_) _
    obtain ⟨hs, hf⟩ := Bool.and_eq_true_iff.mp hok
    refine ⟨stopsPast_of_test ho hs, ?_⟩
    rintro w rfl
    exact of_decide_eq_true hf
  have hborn : stoppedPast.mem.born = 1 := by decide
  have hrest : AtRest .sysfs (some (.thread 0)) stoppedPast :=
    atRest_scheduled rfl (fun t ht => .inr (by revert t; decide)) hborn (by decide)
  have hirq : stoppedPast.loc .irq = .idle := by decide
  have hquiet := (sysfs_rest_idle hr _ hrest).mpr fun _ hi => absurd hirq hi.2.2
  refine ⟨⟨hr, hrest⟩, by decide, ?_⟩
  rw [hquiet.thread 0, if_pos (by rw [hborn]; exact Nat.one_pos)]

end HcSr04Machine
