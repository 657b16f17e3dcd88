import KernelRocks.HcSr04LockProofs
import KernelRocks.HcSr04MiscProofs

/-! # One `do_send` — the loop that ends

    `do_send` sends the pulse and polls `ongoing` until it is no longer ONGOING, or
    until its counter passes 50000.  The flag belongs to the interrupt and to the
    other threads as well, so what the polls read is any sequence of values.

    * `doSendLoop` is the loop as the source writes it, with its counter, observed
      for a number of rounds; `doSendLoop_eq`: with more than 50000 rounds it is
      `pollOngoing`, which has ended by then.
    * `polled_pollOngoing`: how many polls there are, and what decides the result.
    * `doSend_ends`: `do_send` of both drivers under every sequence. -/

namespace HcSr04

open Program

/-! ## The loop as it is written -/

/-- The loop of `do_send`; the first 0 is the end of the observation. -/
def doSendLoop : Nat → BitVec 32 → Bool → Code Int
  | 0, _, _ => do
      spin
      return 0
  | rounds + 1, counter, cnt => do
      let h ← load
      if h.ongoing = ongoingFlag then
        unlockOnce cnt
        -- ++counter > 50000
        if 50000 < counter + 1 then
          lock .ongoing
          store fun h => { h with ongoing := stoppingFlag }
          unlock .ongoing
          return -eagain
        else
          let _ ← call (.udelay 1)
          doSendLoop rounds (counter + 1) true
      else
        unlockOnce cnt
        return 0

/-- `do_send` around its loop; only the SYSFS driver locks the configuration. -/
def doSendWith (loop : Code Int) : Version → Code Int
  | .misc => do
      let h ← load
      let _ ← call (.gpioSetValue h.pins.triggerPin 1)
      let _ ← call (.udelay 10)
      let _ ← call (.gpioSetValue h.pins.triggerPin 0)
      let now ← call .ktimeGet
      store fun h => { h with kstart := now }
      lock .ongoing
      loop
  | .sysfs => do
      lock .kconfig
      let h ← load
      unlock .kconfig
      let _ ← call (.gpioSetValue h.pins.triggerPin 1)
      let _ ← call (.udelay 10)
      let _ ← call (.gpioSetValue h.pins.triggerPin 0)
      let now ← call .ktimeGet
      store fun h => { h with kstart := now }
      lock .ongoing
      loop

/-- With more rounds than the counter leaves, the loop has ended. -/
theorem doSendLoop_eq :
    ∀ (left rounds : Nat) (counter : BitVec 32) (cnt : Bool), counter.toNat + left = 50000 →
      left < rounds → doSendLoop rounds counter cnt = pollOngoing left cnt := by
  intro left
  induction left with
  | zero =>
      intro rounds counter cnt hcounter hrounds
      obtain ⟨rounds, rfl⟩ := Nat.exists_eq_add_of_lt hrounds
      have hlast : 50000 < counter + 1 := by bv_omega
      simp only [doSendLoop, pollOngoing, if_pos hlast]
  | succ left ih =>
      intro rounds counter cnt hcounter hrounds
      obtain ⟨rounds, rfl⟩ := Nat.exists_eq_add_of_lt hrounds
      have hmore : ¬ 50000 < counter + 1 := by bv_omega
      have hnext : (counter + 1).toNat + left = 50000 := by bv_omega
      have hrest := ih (left + 1 + rounds) (counter + 1) true hnext (by omega)
      simp only [doSendLoop, pollOngoing, if_neg hmore, hrest]

theorem doSendWith_misc {rounds : Nat} (hrounds : 50000 < rounds) :
    doSendWith (doSendLoop rounds 0 false) .misc = Misc.doSend := by
  rw [doSendLoop_eq 50000 rounds 0 false rfl hrounds]
  rfl

theorem doSendWith_sysfs {rounds : Nat} (hrounds : 50000 < rounds) :
    doSendWith (doSendLoop rounds 0 false) .sysfs = doSend := by
  rw [doSendLoop_eq 50000 rounds 0 false rfl hrounds]
  rfl

/-! ## The locks -/

theorem locks_doSendWith {env : Env} {ok : Fault → Prop} {H : List SpinLock} {loop : Code Int}
    {version : Version} (hk : version = .sysfs → .kconfig ∉ H) (ho : .ongoing ∉ H)
    (hloop : Locks env ok (.ongoing :: H) loop H) : Locks env ok H (doSendWith loop version) H := by
  -- from the pulse to the loop
  have hpulse (h : Hcsr) : Locks env ok H (do
      let _ ← call (.gpioSetValue h.pins.triggerPin 1)
      let _ ← call (.udelay 10)
      let _ ← call (.gpioSetValue h.pins.triggerPin 0)
      let now ← call .ktimeGet
      store fun h => { h with kstart := now }
      lock .ongoing
      loop) H := by
    refine .bind .call fun _ => .bind .call fun _ => .bind .call fun _ => .bind .call fun now => ?_
    exact .bind .store fun _ => .bind (.lock ho) fun _ => hloop
  cases version with
  | misc => exact .bind .load hpulse
  | sysfs =>
      exact .bind (.lock (hk rfl)) fun _ => .bind .load fun h => .bind .unlock fun _ => hpulse h

/-- Taking a lock that is held, and releasing one that is not, are faults. -/
theorem lock_answered {env : Env} {s : St} {l : SpinLock} {r : Unit × St}
    (h : sem env (.lock l) s = .ok r) : l ∉ s.held := by
  intro hl
  rw [sem, if_pos hl] at h
  cases h

theorem unlock_answered {env : Env} {s : St} {l : SpinLock} {r : Unit × St}
    (h : sem env (.unlock l) s = .ok r) : l ∈ s.held := by
  by_contra hl
  rw [sem, if_neg hl] at h
  cases h

/-! ## What the polls read -/

/-- The n-th read finds `ongoing` to be `v n`. -/
def Env.reading (env : Env) (v : Nat → Int) : Env :=
  { env with others := fun n x => (v n, (env.others n x).2) }

/-- The loop made `polls` reads at most, and returned 0 exactly if one of these reads,
    from the n-th on, was not ONGOING. -/
structure Polled (v : Nat → Int) (n polls : Nat) (ret : Int) (s' : St) : Prop where
  reads : s'.reads ≤ n + polls
  zero : ret = 0 ↔ ∃ k < polls, v (n + k) ≠ ongoingFlag
  timeOut : ret ≠ 0 → ret = -eagain ∧ s'.hcsr.ongoing = stoppingFlag

section Polls
variable {env : Env} {v : Nat → Int} {s : St}

/-- One more poll in front that read ONGOING. -/
theorem Polled.step {n polls : Nat} {ret : Int} {s' : St} (hv : v n = ongoingFlag)
    (h : Polled v (n + 1) polls ret s') : Polled v n (polls + 1) ret s' := by
  refine ⟨Nat.le_trans h.reads (by omega), h.zero.trans ?_, h.timeOut⟩
  rw [Nat.exists_lt_succ_left, or_iff_right (fun hne => hne hv)]
  refine exists_congr fun k => and_congr_right fun _ => ?_
  rw [Nat.add_assoc, Nat.add_comm 1 k]

theorem wp_unlockOnce {Q : Unit → St → Prop} (cnt : Bool)
    (h : ∀ held, Q () { s with held := held }) :
    wp (sem env) (fun _ => True) (unlockOnce cnt) s Q := by
  cases cnt with
  | false =>
      rw [unlockOnce, if_neg Bool.false_ne_true, wp_unlock]
      exact ⟨fun _ => h _, fun _ => trivial⟩
  | true => exact h s.held

/-- The loop under any sequence of values; its locks are another matter. -/
theorem polled_pollOngoing :
    ∀ (left : Nat) (cnt : Bool) (s : St), wp (sem (env.reading v)) (fun _ => True)
      (pollOngoing left cnt) s (Polled v s.reads (left + 1)) := by
  -- a poll that reads another value than ONGOING ends the loop
  have stops {polls : Nat} (cnt : Bool) (s : St) (hv : v s.reads ≠ ongoingFlag) :
      wp (sem (env.reading v)) (fun _ => True) (unlockOnce cnt >>= fun _ => pure (0 : Int))
        { s with hcsr := s.hcsr.seen (env.reading v) s.reads, reads := s.reads + 1 }
        (Polled v s.reads (polls + 1)) := by
    rw [wp_bind]
    refine wp_unlockOnce cnt fun held => ⟨?_, ?_, fun hne => absurd rfl hne⟩
    · show s.reads + 1 ≤ s.reads + (polls + 1)
      omega
    · exact iff_of_true rfl ⟨0, Nat.succ_pos polls, hv⟩
  intro left
  induction left with
  | zero =>
      intro cnt s
      rw [pollOngoing, wp_bind, wp_load, wp_ite]
      refine ⟨fun hon => ?_, stops cnt s⟩
      have hv : v s.reads = ongoingFlag := hon
      rw [wp_bind]
      refine wp_unlockOnce cnt fun held => ?_
      rw [wp_bind, wp_lock]
      refine ⟨fun _ => trivial, fun _ => ?_⟩
      rw [wp_bind, wp_store, wp_bind, wp_unlock]
      refine ⟨fun _ => ⟨Nat.le_refl _, ?_, fun _ => ⟨rfl, rfl⟩⟩, fun _ => trivial⟩
      refine iff_of_false (by decide) ?_
      rintro ⟨k, hk, hne⟩
      obtain rfl : k = 0 := by omega
      exact hne hv
  | succ left ih =>
      intro cnt s
      rw [pollOngoing, wp_bind, wp_load, wp_ite]
      refine ⟨fun hon => ?_, stops cnt s⟩
      have hv : v s.reads = ongoingFlag := hon
      rw [wp_bind]
      refine wp_unlockOnce cnt fun held => ?_
      rw [wp_bind, wp_call]
      exact wp_mono (ih true _) fun _ _ => Polled.step hv

/-- Before its loop `do_send` reads the structure once, for the trigger pin. -/
theorem polled_doSendWith {loop : Code Int} {polls : Nat}
    (hloop : ∀ s, wp (sem (env.reading v)) (fun _ => True) loop s (Polled v s.reads polls))
    (version : Version) (s : St) :
    wp (sem (env.reading v)) (fun _ => True) (doSendWith loop version) s
      (Polled v (s.reads + 1) polls) := by
  cases version with
  | misc =>
      simp only [doSendWith, wp_bind, wp_load, wp_call, wp_store, wp_lock]
      exact ⟨fun _ => trivial, fun _ => hloop _⟩
  | sysfs =>
      simp only [doSendWith, wp_bind, wp_load, wp_call, wp_store, wp_lock, wp_unlock]
      refine ⟨fun _ => trivial, fun _ => ⟨fun _ => ?_, fun _ => trivial⟩⟩
      exact ⟨fun _ => trivial, fun _ => hloop _⟩

end Polls

/-- **`do_send` ENDS**, in both drivers and whatever its polls of `ongoing` read, if its
    caller holds none of the locks that it takes.  Its loop, written out with the counter and
    observed for 50001 rounds or more, makes 50001 polls at most; no action takes
    `ongoing_lock` while it is held or releases it while it is not, and it is as free at
    the return as at the call.  The result is 0 exactly if one of the first 50001 polls
    reads another value than ONGOING; else it is -EAGAIN, with STOPPING stored. -/
theorem doSend_ends (version : Version) (env : Env) (v : Nat → Int) (rounds : Nat)
    (hrounds : 50001 ≤ rounds) (s : St) (ho : .ongoing ∉ s.held)
    (hk : version = .sysfs → .kconfig ∉ s.held) :
    ∃ ret s', (doSendWith (doSendLoop rounds 0 false) version).run (sem (env.reading v)) s
        = .ok (ret, s')
      ∧ s'.reads ≤ s.reads + 1 + 50001
      ∧ (∀ x ∈ (doSendWith (doSendLoop rounds 0 false) version).trace (sem (env.reading v)) s,
          (x.1 = .lock .ongoing → .ongoing ∉ x.2.held)
            ∧ (x.1 = .unlock .ongoing → .ongoing ∈ x.2.held))
      ∧ s'.held = s.held
      ∧ (ret = 0 ↔ ∃ k < 50001, v (s.reads + 1 + k) ≠ ongoingFlag)
      ∧ (ret ≠ 0 → ret = -eagain ∧ s'.hcsr.ongoing = stoppingFlag) := by
  rw [doSendLoop_eq 50000 rounds 0 false rfl hrounds]
  have hlocks : Locks (env.reading v) (fun _ => False) s.held
      (doSendWith (pollOngoing 50000 false) version) s.held :=
    locks_doSendWith hk ho (locks_pollOngoing ho 50000 false)
  obtain ⟨ret, s', hrun, hheld⟩ := run_of_wp (hlocks s rfl)
  have hpolled := of_run (polled_doSendWith (polled_pollOngoing 50000 false) version s) hrun
  refine ⟨ret, s', hrun, hpolled.reads, ?_, hheld, hpolled.zero, hpolled.timeOut⟩
  rintro ⟨a, t⟩ hx
  obtain ⟨r, hr⟩ := answered_of_run hrun _ hx
  constructor
  · rintro rfl
    exact lock_answered hr
  · rintro rfl
    exact unlock_answered hr

/-- Nobody clears the flag. -/
theorem doSend_ends_silent :
    50001 ≤ 50001 ∧ SpinLock.ongoing ∉ (idle Hcsr.zero [] 0).held
      ∧ SpinLock.kconfig ∉ (idle Hcsr.zero [] 0).held
      ∧ ∃ s', (doSendWith (doSendLoop 50001 0 false) .sysfs).run
            (sem (quietEnv.reading fun _ => ongoingFlag)) (idle Hcsr.zero [] 0) = .ok (-eagain, s')
          ∧ s'.held = [] ∧ s'.hcsr.ongoing = stoppingFlag := by
  have ho : SpinLock.ongoing ∉ (idle Hcsr.zero [] 0).held := List.not_mem_nil
  have hk : SpinLock.kconfig ∉ (idle Hcsr.zero [] 0).held := List.not_mem_nil
  obtain ⟨ret, s', hrun, -, -, hheld, hzero, htimeOut⟩ := doSend_ends .sysfs quietEnv
    (fun _ => ongoingFlag) 50001 (Nat.le_refl _) (idle Hcsr.zero [] 0) ho fun _ => hk
  have hne : ret ≠ 0 := by
    intro h
    obtain ⟨k, -, hk⟩ := hzero.mp h
    exact hk rfl
  obtain ⟨rfl, hstop⟩ := htimeOut hne
  exact ⟨Nat.le_refl _, ho, hk, s', hrun, hheld, hstop⟩

end HcSr04
