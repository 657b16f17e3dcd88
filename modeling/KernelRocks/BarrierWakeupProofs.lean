import KernelRocks.BarrierRoundProofs

/-! # Sleeping and being woken

    `sleep_here` enqueues the task with `prepare_to_wait` after `lock_total` has
    been dropped, and does not test the loop's condition again before
    `schedule`.  A wake-up that falls between the `spin_unlock` and the
    `prepare_to_wait` reaches nobody: `lost_wakeup_reached`.

    That window is the only one.  If no `prepare_to_wait` comes after the
    wake-up it was meant for (`Prepared`), no task sleeps past a wake-up, in all
    three loops: `no_lost_wakeup`. -/

namespace Barrier

open Interleaving

/-- Between `prepare_to_wait` and the return of `schedule`. -/
def Pc.parks : Pc → Option (Loop × Addr)
  | .sleepSchedule l b | .sleepParked l b => some (l, b)
  | _ => none

/-- Task `t` is parked on `waitQ` of `b`, no wake-up of `b` is about to be made,
    and the condition of its loop is already false. -/
def LostWakeup (s : State) (b : Addr) (t : Task) : Prop :=
  ∃ l, s.loc t = .sleepParked l b ∧ t ∈ (s.mem.barrier b).waitQ
    ∧ (∀ u k, s.loc u ≠ .waitWake b k) ∧ l.sleeps (s.mem.barrier b).total = false

/-- `prepare_to_wait` is not made too late: the loop's condition is still true, or
    its wake-up is still to come. -/
def Prepared (s : State) (t : Task) (a : Act) : Prop :=
  ∀ l b, a = .run → s.loc t = .sleepPrepare l b →
    l.sleeps (s.mem.barrier b).total = true ∨ ∃ u k, s.loc u = .waitWake b k

/-! ## What a turn does to the wait queues -/

/-- A task enqueues itself, or nobody is added. -/
inductive QueueMove (t : Task) (m : Mem) (q : Pc) (a : Act) (m' : Mem) (q' : Pc) : Prop where
  | prepare (l : Loop) (b : Addr) : a = .run → q = .sleepPrepare l b → q' = .sleepSchedule l b →
      m' = m.enqueue b t → QueueMove t m q a m' q'
  | less : (∀ b x, x ∈ (m'.barrier b).waitQ → x ∈ (m.barrier b).waitQ) →
      (∀ l b, q'.parks = some (l, b) → q.parks = some (l, b)) →
      (∀ b k, q = .waitWake b k → (m'.barrier b).waitQ = []) → QueueMove t m q a m' q'

/-- The queues after writing one barrier. -/
theorem waitQ_setBarrier {m : Mem} {b : Addr} {x : BarrierStruct}
    (h : ∀ y ∈ x.waitQ, y ∈ (m.barrier b).waitQ) (b' : Addr) (y : Task)
    (hy : y ∈ ((m.setBarrier b x).barrier b').waitQ) : y ∈ (m.barrier b').waitQ := by
  by_cases hb : b' = b
  · subst hb
    rw [Mem.setBarrier_barrier, Function.update_self] at hy
    exact h y hy
  · rw [Mem.setBarrier_barrier, Function.update_of_ne hb] at hy
    exact hy

theorem waitQ_setHolder {m : Mem} {l : Lock} {o : Option Task} (b : Addr) (y : Task)
    (hy : y ∈ ((m.setHolder l o).barrier b).waitQ) : y ∈ (m.barrier b).waitQ := by
  rw [Mem.setHolder_waitQ] at hy
  exact hy

theorem waitQ_arrive {m : Mem} {t : Task} {c : Addr} (b : Addr) (y : Task)
    (hy : y ∈ ((m.arrive c t).1.barrier b).waitQ) : y ∈ (m.barrier b).waitQ := by
  unfold Mem.arrive at hy
  dsimp only at hy
  split at hy
  · exact waitQ_setBarrier (m := m) (b := c) (by intro _ h; exact h) b y hy
  · exact waitQ_setBarrier (m := m) (b := c) (by intro _ h; exact h) b y hy

theorem waitQ_findOrNewPtgid {m : Mem} (g : Pid) (b : Addr) (y : Task)
    (hy : y ∈ ((m.findOrNewPtgid g).1.barrier b).waitQ) : y ∈ (m.barrier b).waitQ := by
  unfold Mem.findOrNewPtgid at hy
  split at hy
  · exact hy
  · exact hy

theorem waitQ_wakeAll (m : Mem) (b : Addr) : ((m.wakeAll b).barrier b).waitQ = [] := by
  simp [Mem.wakeAll]

theorem parks_afterPtgid (who : Seeker) (id : BitVec 32) (r : Option Addr) :
    (who.afterPtgid id r).parks = none := by
  cases who <;> cases r <;> rfl

theorem parks_afterBarrier (who : Client) (p : Addr) (r : Option Addr) :
    (who.afterBarrier p r).parks = none := by
  rcases who with ⟨c, n⟩ | ⟨_ | _⟩ <;> cases r <;> rfl

theorem parks_exit (l : Loop) (b : Addr) : (l.exit b).parks = none := by
  cases l <;> rfl

theorem parks_entry (c : Call) : c.entry.parks = none := by
  cases c with
  | init count => rw [Call.entry]; split <;> rfl
  | wait id => rfl
  | destroy id => rfl

section QueueMove
variable {t : Task} {m m' : Mem} {q q' : Pc} {a : Act}

/-- A turn that neither wakes nor goes to sleep. -/
theorem QueueMove.awake (hw : ∀ b x, x ∈ (m'.barrier b).waitQ → x ∈ (m.barrier b).waitQ)
    (hq' : q'.parks = none) (hq : ∀ b k, q ≠ .waitWake b k) : QueueMove t m q a m' q' := by
  refine .less hw ?_ ?_
  · intro l b hp
    rw [hq'] at hp
    cases hp
  · intro b k h
    exact absurd h (hq b k)

theorem QueueMove.takeLock {l : Lock} {q'' : Pc} (h : takeLock t m l q'' = some (m', q'))
    (hq' : q''.parks = none) (hq : ∀ b k, q ≠ .waitWake b k) : QueueMove t m q a m' q' := by
  obtain ⟨-, rfl, rfl⟩ := takeLock_eq_some h
  exact .awake waitQ_setHolder hq' hq

end QueueMove

theorem next_queueMove {proc : Task → Pid} {t : Task} {m m' : Mem} {q q' : Pc}
    (h : next proc t m q = some (m', q')) : QueueMove t m q .run m' q' := by
  cases q with
  | user r => cases h
  | oops i => cases h
  | initLockG c => exact .takeLock h rfl nofun
  | initLockHead c p n => exact .takeLock h rfl nofun
  | getLockG who id => exact .takeLock h rfl nofun
  | getLockHead who p id => exact .takeLock h rfl nofun
  | loopLock l b => exact .takeLock h rfl nofun
  | destroyLockHead p b => exact .takeLock h rfl nofun
  | destroyLockG p b => exact .takeLock h rfl nofun
  | initUnlockG c p => cases h; exact .awake waitQ_setHolder rfl nofun
  | initUnlockHead c p b id =>
      cases h; exact .awake (waitQ_setHolder (m := m) (l := .barrierHead p) (o := none)) rfl nofun
  | getUnlockG who id r => cases h; exact .awake waitQ_setHolder (parks_afterPtgid who id r) nofun
  | getUnlockHead who p r =>
      cases h; exact .awake waitQ_setHolder (parks_afterBarrier who p r) nofun
  | loopUnlock l b => cases h; exact .awake waitQ_setHolder rfl nofun
  | waitUnlock b k => cases h; exact .awake waitQ_setHolder rfl nofun
  | destroyUnlock p b => cases h; exact .awake waitQ_setHolder rfl nofun
  | destroyUnlockG p b => cases h; exact .awake waitQ_setHolder rfl nofun
  | destroyUnlockHead p b =>
      cases h; exact .awake (waitQ_setHolder (m := m) (l := .barrierHead p) (o := none)) rfl nofun
  | initFind c =>
      cases h
      exact .awake (waitQ_findOrNewPtgid (proc t)) rfl nofun
  | initReadBid c p => cases h; exact .awake (fun _ _ hy => hy) rfl nofun
  | initAlloc c p n => cases h; exact .awake (fun _ _ hy => hy) rfl nofun
  | initLink c p n =>
      cases h
      refine .awake (waitQ_setBarrier (m := m) (b := m.brk) ?_) rfl nofun
      intro y hy
      cases hy
  | getFind who id => cases h; exact .awake (fun _ _ hy => hy) rfl nofun
  | getScan who p id => cases h; exact .awake (fun _ _ hy => hy) rfl nofun
  | loopTest l b =>
      cases h
      refine .awake (fun _ _ hy => hy) ?_ nofun
      split
      · rfl
      · exact parks_exit l b
  | sleepPrepare l b => cases h; exact .prepare l b rfl rfl rfl rfl
  | sleepSchedule l b =>
      cases h
      split
      · exact .less (fun _ _ hy => hy) (fun _ _ hp => hp) nofun
      · exact .awake (fun _ _ hy => hy) rfl nofun
  | sleepParked l b =>
      obtain ⟨rfl, rfl⟩ := next_sleepParked h
      exact .awake (fun _ _ hy => hy) rfl nofun
  | sleepFinish l b =>
      cases h
      exact .awake (waitQ_setBarrier fun y hy => List.mem_of_mem_erase hy) rfl nofun
  | waitEnter b => cases h; exact .awake waitQ_arrive (by split <;> rfl) nofun
  | waitLeave b k =>
      cases h
      refine .awake (waitQ_setBarrier (m := m) (b := b) fun y hy => hy) ?_ nofun
      split <;> rfl
  | waitWake b k =>
      cases h
      refine .less (waitQ_setBarrier ?_) nofun ?_
      · intro y hy
        cases hy
      · rintro b' k' ⟨⟩
        exact waitQ_wakeAll m b
  | waitDone b k => cases h; exact .awake (fun _ _ hy => hy) rfl nofun
  | destroyUnlink p b =>
      cases h
      refine .awake (waitQ_setBarrier (m := m) (b := b) fun y hy => hy) ?_ nofun
      split <;> rfl
  | destroyUnlinkPtgid p b => cases h; exact .awake (fun _ _ hy => hy) rfl nofun
  | destroyFreePtgid p b => cases h; exact .awake (fun _ _ hy => hy) rfl nofun

theorem exec_queueMove {proc : Task → Pid} {t : Task} {m m' : Mem} {q q' : Pc} {a : Act}
    (h : exec proc t m q a = some (m', q')) : QueueMove t m q a m' q' := by
  rcases exec_cases h with ⟨rfl, h⟩ | ⟨rfl, c, r, -, rfl, rfl⟩ | ⟨rfl, l, b, -, hq, rfl⟩ |
    ⟨rfl, p, b, -, rfl, -, rfl⟩
  · exact next_queueMove h
  · exact .awake (fun _ _ hy => hy) (parks_entry c) nofun
  · refine .awake (fun _ _ hy => hy) rfl fun b' k h' => ?_
    rw [h'] at hq
    rcases hq with hq | hq <;> cases hq
  · exact .awake (fun _ _ hy => hy) rfl nofun

/-! ## No sleeper is forgotten -/

/-- Everybody on a wait queue still has to wait, or is about to be woken. -/
def Attended (s : State) : Prop :=
  ∀ t l b, 1 ≤ (s.mem.barrier b).count.toNat → (s.loc t).parks = some (l, b) →
    t ∈ (s.mem.barrier b).waitQ →
    l.sleeps (s.mem.barrier b).total = true ∨ ∃ u k, s.loc u = .waitWake b k

theorem parks_mem_addrs {q : Pc} {l : Loop} {b : Addr} (h : q.parks = some (l, b)) :
    b ∈ q.addrs := by
  cases q <;> simp_all [Pc.parks, Pc.addrs]

theorem sleeps_lt {l : Loop} {w : BitVec 64} (h : l.sleeps w = true) (hw : w.toNat ≤ 2 ^ 63) :
    w.toNat < 2 ^ 63 ∧ ∃ k, l = .leave k := by
  have hflag : barrierFlag.toNat = 2 ^ 63 := toNat_barrierFlag
  cases l with
  | leave k =>
      have hlt : w.toNat < barrierFlag.toNat := by simpa [Loop.sleeps, BitVec.lt_def] using h
      exact ⟨by omega, k, rfl⟩
  | enter =>
      have hlt : barrierFlag.toNat < w.toNat := by simpa [Loop.sleeps, BitVec.lt_def] using h
      omega
  | drain p =>
      have hlt : barrierFlag.toNat < w.toNat := by simpa [Loop.sleeps, BitVec.lt_def] using h
      omega

/-- The sleepers of a round that is filling wait on, or it is full. -/
theorem sleeps_arrive {T : Tally} (hT : Rounds T) (hn : T.count.toNat < 2 ^ 31)
    (ht : T.total.toNat ≤ 2 ^ 63) {l : Loop} (hl : l.sleeps T.total = true) (t : Task)
    (hf : ¬ T.fills = true) : l.sleeps (T.arrive t).total = true := by
  obtain ⟨hlt, k, rfl⟩ := sleeps_lt hl ht
  have hw : (T.arrive t).total.toNat < 2 ^ 31 := by
    rw [Tally.arrive, if_neg hf]
    show T.bumped.toNat < 2 ^ 31
    rw [toNat_bumped_of_lt hlt]
    obtain ⟨r, -, hphase⟩ := hT.phase
    rcases hphase with ⟨_, _, h2, _⟩ | ⟨_, _, h2⟩ <;> omega
  have hflag : barrierFlag.toNat = 2 ^ 63 := toNat_barrierFlag
  show decide ((T.arrive t).total < barrierFlag) = true
  rw [decide_eq_true_iff, BitVec.lt_def]
  omega

/-- The sleepers of a round that is draining wait on, or it is empty. -/
theorem sleeps_depart {T : Tally} {l : Loop} (hl : l.sleeps T.total = true)
    (ht : 2 ^ 63 < T.total.toNat) {k : Nat} (hne : T.total - 1 ≠ barrierFlag) :
    l.sleeps (T.depart k).total = true := by
  have hflag : barrierFlag.toNat = 2 ^ 63 := toNat_barrierFlag
  have hsub : (T.total - 1).toNat = T.total.toNat - 1 := by
    rw [BitVec.toNat_sub_of_le]
    · rfl
    · show 1 ≤ T.total.toNat
      omega
  have hlt : barrierFlag < T.total - 1 := by
    have hne' : (T.total - 1).toNat ≠ barrierFlag.toNat := fun h => hne (BitVec.eq_of_toNat_eq h)
    rw [BitVec.lt_def]
    omega
  cases l with
  | leave j =>
      have : T.total.toNat < barrierFlag.toNat := by simpa [Loop.sleeps, BitVec.lt_def] using hl
      omega
  | enter => exact decide_eq_true hlt
  | drain p => exact decide_eq_true hlt

section Attended
variable {proc : Task → Pid} {s : State} {u : Task} {a : Act} {m' : Mem} {q' : Pc}

/-- The state after a turn of `u`. -/
theorem loc_own : (⟨m', Function.update s.loc u q'⟩ : State).loc u = q' :=
  Function.update_self ..

theorem loc_other {v : Task} (h : v ≠ u) :
    (⟨m', Function.update s.loc u q'⟩ : State).loc v = s.loc v :=
  Function.update_of_ne h ..

/-- A sleeper whose condition is true before a turn. -/
theorem attended_sleeps {C : State → Task → Act → Prop} (hr : ReachWhen proc C s)
    (he : exec proc u s.mem (s.loc u) a = some (m', q')) {l : Loop} {b : Addr} (hb : b < s.mem.brk)
    (hc : 1 ≤ (s.mem.barrier b).count.toNat) (hl : l.sleeps (s.mem.barrier b).total = true) :
    l.sleeps (m'.barrier b).total = true ∨ ∃ k, q' = .waitWake b k := by
  obtain ⟨hE, hS⟩ := reach_encoded hr
  have hR : Rounds (s.mem.tally b) := (hE b).rounds hc
  -- a turn that does not change this `total`
  have same (h : (m'.tally b).total = (s.mem.tally b).total) :
      l.sleeps (m'.barrier b).total = true := by
    show l.sleeps (m'.tally b).total = true
    rw [h]
    exact hl
  cases exec_tallyMove (reach_owns hr).1 he with
  | keep _ _ hm => exact Or.inl (same (by rw [hm]))
  | link c p n id _ _ hm =>
      exact Or.inl (same (tally_update_congr Tally.total hm fun h => absurd h (Nat.ne_of_lt hb)))
  | done b' k _ _ hm =>
      exact Or.inl (same (tally_update_congr Tally.total hm fun h => by rw [h]; rfl))
  | arrive b' hq hq' hm =>
      by_cases hbb : b = b'
      · subst hbb
        by_cases hf : (s.mem.tally b).fills = true
        · exact Or.inr ⟨_, by rw [hq', if_pos hf]⟩
        · left
          show l.sleeps (m'.tally b).total = true
          rw [hm, Function.update_self]
          exact sleeps_arrive hR (hE b).count ((hS u).enter b hq) hl u hf
      · exact Or.inl (same (tally_update_congr Tally.total hm fun h => absurd h hbb))
  | depart b' k hq hq' hm =>
      by_cases hbb : b = b'
      · subst hbb
        obtain ⟨hk, hleft⟩ := (hS u).inside b k (by rw [hq]; rfl)
        have hflag := hR.flag_lt (hE b).count ((hS u).leave b k hq)
          (List.getElem?_eq_some_iff.mp hk).1 hleft
        by_cases hlast : (s.mem.tally b).total - 1 = barrierFlag
        · exact Or.inr ⟨k, by rw [hq', if_pos hlast]⟩
        · left
          show l.sleeps (m'.tally b).total = true
          rw [hm, Function.update_self]
          exact sleeps_depart hl hflag hlast
      · exact Or.inl (same (tally_update_congr Tally.total hm fun h => absurd h hbb))

/-- The count of a barrier in use does not change. -/
theorem count_exec (hf : Fresh s.mem) (he : exec proc u s.mem (s.loc u) a = some (m', q'))
    {b : Addr} (hb : b < s.mem.brk) : (m'.barrier b).count = (s.mem.barrier b).count := by
  cases exec_tallyMove hf he with
  | keep _ _ hm => exact congrArg Tally.count (congrFun hm b)
  | link c p n id _ _ hm =>
      exact tally_update_congr Tally.count hm fun hbb => absurd hbb (Nat.ne_of_lt hb)
  | arrive b' _ _ hm => exact tally_update_congr Tally.count hm fun hbb => by rw [hbb, count_arrive]
  | depart b' k _ _ hm => exact tally_update_congr Tally.count hm fun hbb => by rw [hbb]; rfl
  | done b' k _ _ hm => exact tally_update_congr Tally.count hm fun hbb => by rw [hbb]; rfl

end Attended

theorem reach_attended {proc : Task → Pid} {s : State} (h : ReachWhen proc Prepared s) :
    Attended s := by
  refine Reach.invariant (I := Attended) ?_ ?_ h
  · intro t l b hc
    exact absurd hc (Nat.not_succ_le_zero 0)
  · rintro s s' u a hr hI hC hs
    obtain ⟨m', q', he, rfl⟩ := turn_eq_some hs
    obtain ⟨hf, ho⟩ := reach_owns hr
    intro t l b hc hp hmem
    -- a wake-up that was pending and is not made by this turn is still pending
    have pending {v : Task} {k : Nat} (hv : s.loc v = .waitWake b k) (hu : v ≠ u) :
        ∃ v k, (⟨m', Function.update s.loc u q'⟩ : State).loc v = .waitWake b k :=
      ⟨v, k, by rw [loc_other hu, hv]⟩
    cases exec_queueMove he with
    | prepare l' b' ha hq hq' hm =>
        have htally : m'.tally = s.mem.tally := by
          rw [hm]
          exact tally_setBarrier (by rfl) (by rfl)
        have hcount : (m'.barrier b).count = (s.mem.barrier b).count :=
          congrArg Tally.count (congrFun htally b)
        have htotal : (m'.barrier b).total = (s.mem.barrier b).total :=
          congrArg Tally.total (congrFun htally b)
        have before : l.sleeps (s.mem.barrier b).total = true ∨ ∃ v k, s.loc v = .waitWake b k := by
          by_cases htu : t = u
          · -- the task that enqueues itself: the condition on its turn
            subst htu
            rw [loc_own, hq'] at hp
            cases hp
            exact hC l b ha hq
          · rw [loc_other htu] at hp
            rw [hcount] at hc
            refine hI t l b hc hp ?_
            rw [hm] at hmem
            by_cases hbb : b = b'
            · subst hbb
              simpa [Mem.enqueue, htu] using hmem
            · simpa [Mem.enqueue, hbb] using hmem
        rw [htotal]
        rcases before with hl | ⟨v, k, hv⟩
        · exact Or.inl hl
        · refine Or.inr (pending hv ?_)
          rintro rfl
          rw [hq] at hv
          cases hv
    | less hw hpk hwake =>
        have hp' : (s.loc t).parks = some (l, b) := by
          by_cases htu : t = u
          · subst htu
            rw [loc_own] at hp
            exact hpk l b hp
          · rwa [loc_other htu] at hp
        have hb : b < s.mem.brk := (ho t).bounded b (parks_mem_addrs hp')
        rw [count_exec hf he hb] at hc
        rcases hI t l b hc hp' (hw b t hmem) with hl | ⟨v, k, hv⟩
        · rcases attended_sleeps hr he hb hc hl with hl' | ⟨k, hk⟩
          · exact Or.inl hl'
          · exact Or.inr ⟨u, k, by rw [loc_own, hk]⟩
        · by_cases hvu : v = u
          · subst hvu
            rw [hwake b k hv] at hmem
            cases hmem
          · exact Or.inr (pending hv hvu)

/-- **NO LOST WAKE-UP** on the runs in which no `prepare_to_wait` comes too late:
    no task is parked while the condition of its loop is false and nobody is about
    to wake it, for every count of at least 1 and any number of tasks. -/
theorem no_lost_wakeup (proc : Task → Pid) {s : State} (h : ReachWhen proc Prepared s) (b : Addr)
    (hc : 1 ≤ (s.mem.barrier b).count.toNat) (t : Task) : ¬ LostWakeup s b t := by
  rintro ⟨l, hloc, hmem, hnone, hfalse⟩
  have hp : (s.loc t).parks = some (l, b) := by
    rw [hloc]
    rfl
  rcases reach_attended h t l b hc hp hmem with hl | ⟨u, k, hu⟩
  · rw [hl] at hfalse
    cases hfalse
  · exact hnone u k hu

/-- The test for `Prepared` in which no wake-up is pending. -/
def preparedTest (s : State) (t : Task) (_ : Act) : Bool :=
  match s.loc t with
  | .sleepPrepare l b => l.sleeps (s.mem.barrier b).total
  | _ => true

theorem prepared_of_test (s : State) (t : Task) (a : Act) (_ : Only 3 s)
    (h : preparedTest s t a = true) : Prepared s t a := by
  intro l b _ hq
  rw [preparedTest, hq] at h
  exact Or.inl h

/-- Task 1 sleeps in its round in time, and task 2 releases it. -/
theorem no_lost_wakeup_released :
    let s := afterWhen (fun _ => 0) 3 preparedTest
      (wholeInit 0 2 ++ (1, .call (.wait 0)) :: runs 1 13 ++ (2, .call (.wait 0)) :: runs 2 12)
    s.loc 1 = .sleepParked (.leave 0) 1 ∧ ¬ LostWakeup s 1 1 :=
  ⟨by decide,
    no_lost_wakeup (fun _ => 0) (reachWhen_afterWhen _ prepared_of_test _) 1 (by decide) 1⟩

/-- The condition is exact: a `prepare_to_wait` that comes too late loses its
    wake-up, the task's next turn parks it. -/
theorem late_prepare_loses {proc : Task → Pid} {s : State} {t : Task} {l : Loop} {b : Addr}
    (hq : s.loc t = .sleepPrepare l b) (hl : l.sleeps (s.mem.barrier b).total = false)
    (hw : ∀ u k, s.loc u ≠ .waitWake b k) :
    ∃ s1 s2, turn (exec proc) s t .run = some s1 ∧ turn (exec proc) s1 t .run = some s2
      ∧ LostWakeup s2 b t := by
  have hmem : t ∈ ((s.mem.enqueue b t).barrier b).waitQ := by simp [Mem.enqueue]
  refine ⟨⟨s.mem.enqueue b t, Function.update s.loc t (.sleepSchedule l b)⟩,
    ⟨s.mem.enqueue b t,
      Function.update (Function.update s.loc t (.sleepSchedule l b)) t (.sleepParked l b)⟩,
    ?_, ?_, l, ?_, hmem, ?_, ?_⟩
  · refine turn_of_exec ?_
    rw [hq]
    rfl
  · refine turn_of_exec ?_
    rw [loc_own, exec, next, if_pos hmem]
  · exact Function.update_self ..
  · intro u k hu
    by_cases hut : u = t
    · subst hut
      simp at hu
    · exact hw u k (by simpa [hut] using hu)
  · simpa [Mem.enqueue] using hl

/-- Task 1 has dropped `lock_total` and not yet enqueued itself when task 2 fills
    the round and wakes everybody; then it goes to sleep. -/
def tooLate : List (Task × Act) :=
  wholeInit 0 2 ++ (1, .call (.wait 0)) :: runs 1 11 ++ (2, .call (.wait 0)) :: runs 2 12
    ++ runs 1 2

theorem lost_wakeup_reached :
    ¬ ∀ (proc : Task → Pid) (s : State), Reachable proc s → ∀ b,
      1 ≤ (s.mem.barrier b).count.toNat → ∀ t, ¬ LostWakeup s b t := by
  intro h
  have hr := reachable_after (fun _ => 0) tooLate
  refine h (fun _ => 0) _ hr 1 (by decide) 1 ⟨.leave 0, by decide, by decide, ?_, by decide⟩
  -- a waker would be in its `lock_total` section
  intro u k hu
  have hheld : (after (fun _ => 0) tooLate).mem.holder (.lockTotal 1) = some u := by
    rw [((reach_owns hr).2 u).holds, hu]
    exact List.mem_singleton_self _
  have hfree : (after (fun _ => 0) tooLate).mem.holder (.lockTotal 1) = none := by decide
  rw [hfree] at hheld
  cases hheld

end Barrier
