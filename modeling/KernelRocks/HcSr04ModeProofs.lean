import KernelRocks.HcSr04ThreadProofs

/-! # The mode and the thread

    `hc_sr04_write` reads the mode in one critical section and starts its thread
    in the next.  A SETMODE to one-shot that gets in between finds no thread to
    end, and the thread is started behind its back.

    A thread that is alive in one-shot mode is harmless only as long as some call
    in progress still has to look at the handle and will end it: that call
    REVIEWS the handle (`Pc.reviews`).

    * `sampled_when_periodic`: if every start by `hc_sr04_write` is made in
      periodic mode or under such a call, then between calls a thread is alive in
      periodic mode only.
    * `stray_start`: a start that is neither leaves a thread nobody will end.
    * `sampled_in_one_shot`: one SETMODE between the two sections is enough. -/

namespace HcSr04Machine

open Interleaving
open HcSr04 (ModeSet SpinLock Version oneShot periodic)

/-! ## Calls that will end the thread -/

/-- The call has still to look at the handle and ends the thread it finds, or has begun
    to: SETMODE, and `hc_sr04_write` of 0 past its look at the mode. -/
def Pc.reviews : Pc → Bool
  | .lock .kconfig (.setMode _) | .setMode _ => true
  | .lock .kthread .testThread | .testThread => true
  | .lock .kthread (.writeThread act) | .writeThread act => act = 0
  | .stopThread k _ | .stopWait k _ => k ≠ .restart
  | _ => false

/-- When `hc_sr04_write` starts a thread the mode is not one-shot, or a call in progress
    reviews the handle. -/
def StartsInMode (s : State) (t : Task) (a : Act) : Prop :=
  a = .run → s.loc t = .runThread .write →
    s.mem.mode ≠ oneShot ∨ ∃ u, (s.loc u).reviews = true

/-- A mode that SETMODE lets through. -/
def Valid (mode : Int) : Prop := mode = oneShot ∨ mode = periodic

/-- What is known of the mode at a place: the argument of SETMODE has been checked, and a
    thread is restarted in periodic mode.  Behind a lock nothing is known of the memory. -/
def Switched : Pc → Mem → Prop
  | .lock _ k, _ | .unlock _ k, _ => ∀ m, Switched k m
  | .setMode w, _ => Valid w.mode
  | .stopThread .restart _, m | .stopWait .restart _, m => m.mode ≠ oneShot
  | .runThread k, m => k = .write ∨ (k = .restart ∧ m.mode ≠ oneShot)
  | .enableTest, _ | .enableMode, _ => False
  | _, _ => True

section Switched
variable {t u : Task} {m m' : Mem} {q q' : Pc} {a : Act}

theorem Switched.frame (h : Switched q m) (hm : m'.mode = m.mode) : Switched q m' := by
  cases q with
  | stopThread k n => cases k <;> first | exact (hm ▸ h : m'.mode ≠ oneShot) | trivial
  | stopWait k n => cases k <;> first | exact (hm ▸ h : m'.mode ≠ oneShot) | trivial
  | runThread k =>
      rcases h with h | ⟨h, hmode⟩
      · exact .inl h
      · exact .inr ⟨h, hm ▸ hmode⟩
  | _ => exact h

/-- Whoever relies on the mode holds `kconfig_lock`. -/
theorem Switched.outside (h : Switched q m) (hl : SpinLock.kconfig ∉ q.held) :
    Switched q m' := by
  cases q with
  | stopThread k n => cases k <;> first | trivial | simp [Pc.held, Keeper.held] at hl
  | stopWait k n => cases k <;> first | trivial | simp [Pc.held, Keeper.held] at hl
  | runThread k =>
      rcases h with rfl | ⟨rfl, -⟩
      · exact .inl rfl
      · simp [Pc.held, Keeper.held] at hl
  | _ => exact h

theorem switched_back (b : Back) : Switched b.pc m := by
  cases b <;> first | trivial | exact fun _ => trivial

theorem switched_doSend (v : Version) (p : Pulse) : Switched (doSend v p) m := by
  cases v <;> first | trivial | exact fun _ => trivial

theorem switched_retry (v : Version) (p : Pulse) : Switched (retry v p) m := by
  unfold retry
  split
  · trivial
  · exact switched_doSend v _

theorem switched_keeper (k : Keeper) :
    Switched k.cleared m ∧ Switched k.started m ∧ Switched k.flagged m := by
  cases k <;> simp [Keeper.cleared, Keeper.started, Keeper.flagged, Switched]

theorem Switched.next (hP : Switched q m) (h : next .misc t m q = some (m', q')) :
    Switched q' m' := by
  cases q with
  | lock l k =>
      obtain ⟨-, rfl, rfl⟩ := next_lock h
      exact hP _
  | unlock l k =>
      cases h
      exact hP _
  | sendTest b =>
      simp only [HcSr04Machine.next] at h
      split at h <;> cases h
      · exact fun _ => switched_back b
      · exact fun _ => switched_doSend _ _
  | pollFirst p =>
      cases h
      intro m
      split <;> trivial
  | count p c =>
      cases h
      split
      · exact fun _ => trivial
      · trivial
  | timeOut p =>
      cases h
      exact fun _ => switched_retry _ _
  | sendReturn b =>
      cases h
      exact switched_back b
  | shotTest b =>
      cases h
      intro m
      split
      · exact switched_back b
      · exact fun _ => trivial
  | readMode =>
      cases h
      intro m
      split <;> exact fun _ => trivial
  | recheck =>
      cases h
      intro m m
      split <;> trivial
  | writeMode act =>
      cases h
      intro m
      split
      · split <;> exact fun _ => trivial
      · exact fun _ => trivial
  | clearNewest =>
      cases h
      exact fun _ _ => trivial
  | writeThread act =>
      simp only [HcSr04Machine.next] at h
      split at h <;> cases h
      · split
        · exact fun _ => trivial
        · exact .inl rfl
      · split
        · trivial
        · exact fun _ => trivial
  | testThread =>
      simp only [HcSr04Machine.next] at h
      split at h <;> cases h
      · exact fun _ _ => trivial
      · split
        · assumption
        · trivial
  | stopThread k n =>
      cases h
      cases k <;> exact hP
  | stopWait k n =>
      simp only [HcSr04Machine.next] at h
      split at h
      · cases h
        split
        · rename_i hk
          subst hk
          exact .inr ⟨rfl, hP⟩
        · trivial
      · cases h
  | clearHandle k =>
      cases h
      exact (switched_keeper k).1
  | setHandle k n =>
      cases h
      exact (switched_keeper k).2.1
  | stopFlag k =>
      cases h
      exact (switched_keeper k).2.2
  | irqTest =>
      cases h
      intro m
      split <;> first | trivial | exact fun _ => trivial
  | enableTest => exact hP.elim
  | enableMode => exact hP.elim
  | disable =>
      simp only [HcSr04Machine.next] at h
      split at h <;> cases h
      · exact fun _ _ => trivial
      · trivial
  | _ =>
      simp only [HcSr04Machine.next] at h
      repeat' split at h
      all_goals cases h
      all_goals simp [Switched, send]

theorem valid_of_entry {w : ModeSet}
    (h : (Call.setMode (some w)).entry = .lock .kconfig (.setMode w)) : Valid w.mode := by
  by_contra hw
  have hn : oneShot ≠ w.mode ∧ periodic ≠ w.mode :=
    ⟨fun he => hw (.inl he.symm), fun he => hw (.inr he.symm)⟩
  have hidle : (Call.setMode (some w)).entry = .idle := if_pos hn
  rw [hidle] at h
  cases h

end Switched

/-- In every run of the miscdevice driver. -/
theorem reach_switched {C : State → Task → Act → Prop} {s : State} (h : ReachWhen .misc C s) :
    Valid s.mem.mode ∧ ∀ t, Switched (s.loc t) s.mem := by
  refine Reach.modular (I := fun m => Valid m.mode) (P := fun _ m q => Switched q m) ?_ ?_ ?_ h
  · refine ⟨.inl rfl, fun t => ?_⟩
    cases t <;> trivial
  · intro s t a m' q' _ _ hI hP he
    rcases exec_cases he with ⟨-, he⟩ | ⟨c, n, -, -, -, hv, rfl, rfl⟩ | ⟨-, -, -, rfl, rfl⟩
      | ⟨ns, -, rfl, rfl⟩
    · refine ⟨?_, hP.next he⟩
      rcases next_freq he with ⟨-, hm⟩ | ⟨w, hq, rfl⟩
      · rw [hm]
        exact hI
      · rw [hq] at hP
        exact hP
    · refine ⟨hI, ?_⟩
      rcases entry_cases c with h | h | ⟨act, h⟩ | ⟨w, rfl, h⟩ | ⟨_, _, rfl, -⟩
      · rw [h]
        trivial
      · rw [h]
        exact fun _ => trivial
      · rw [h]
        exact fun _ => trivial
      · rw [h]
        exact fun _ => valid_of_entry h
      -- the miscdevice driver has no enable_store
      · cases hv
    · exact ⟨hI, fun _ => trivial⟩
    · exact ⟨hI, hP.frame rfl⟩
  · intro s t u a m' q' hr _ htu _ _ hP he
    rcases exec_cases he with ⟨-, he⟩ | ⟨c, n, -, -, -, -, rfl, -⟩ | ⟨-, -, -, rfl, -⟩
      | ⟨ns, -, rfl, -⟩
    · rcases next_freq he with ⟨-, hm⟩ | ⟨w, hq, rfl⟩
      · exact hP.frame hm
      · refine hP.outside fun hu => htu (reach_exclusive hr ?_ hu)
        rw [hq]
        exact List.mem_singleton_self _
    · exact hP
    · exact hP
    · exact hP.frame rfl

/-! ## A thread in one-shot mode is being reviewed -/

/-- A thread is live in one-shot mode only under a call that will end it. -/
def Reviewed (s : State) : Prop :=
  s.mem.mode = oneShot → ∀ n, s.mem.live n → ∃ u, (s.loc u).reviews = true

section Reviewed
variable {v : Version} {s s' : State} {t u : Task} {m m' : Mem} {q q' : Pc} {a : Act} {n : Nat}

/-- Threads come to life in `kthread_run` only. -/
theorem next_live (h : next v t m q = some (m', q')) (hn : m'.live n) :
    m.live n ∨ ∃ k, q = .runThread k := by
  cases next_threads h with
  | same _ hb _ he =>
      left
      rw [Mem.live, hb, he] at hn
      exact hn
  | stop k j => exact .inl hn
  | clear k => exact .inl hn
  | run k => exact .inr ⟨k, rfl⟩
  | set k j => exact .inl hn
  | unborn j _ _ => exact .inl (live_of_ended hn).1
  | leave j _ => exact .inl (live_of_ended hn).1

theorem not_live_of_null (h : m.Tied) (hk : m.kthread = none) : ¬ m.live n := by
  intro hn
  rw [(h.handle n).mpr hn] at hk
  cases hk

theorem reviews_lock {l : SpinLock} {k : Pc} (h : (Pc.lock l k).reviews = true) :
    k.reviews = true := by
  cases l <;> cases k <;> first | exact h | cases h

/-- Only callers review the handle. -/
theorem caller_of_reviews (ho : q.of t) (h : q.reviews = true) : ∃ n, t = .caller n := by
  induction q with
  | lock l k ih => exact ih ho (reviews_lock h)
  | setMode w => exact ho
  | testThread => exact ho
  | writeThread act => exact ho
  | stopThread k n => exact ho
  | stopWait k n => exact ho
  | _ => cases h

/-- A call that reviews the handle goes on until no thread is left in one-shot mode. -/
theorem next_reviews (hP : Holding v m q) (h : next v t m q = some (m', q'))
    (hq : q.reviews = true) :
    q'.reviews = true ∨ m'.mode ≠ oneShot ∨ ∀ n, ¬ m'.live n := by
  cases q with
  | lock l k =>
      obtain ⟨-, -, rfl⟩ := next_lock h
      exact .inl (reviews_lock hq)
  | setMode w =>
      cases h
      exact .inl rfl
  | testThread =>
      simp only [next] at h
      split at h <;> cases h
      · rename_i hk
        exact .inr (.inr fun n => not_live_of_null hP hk)
      · by_cases hmode : m.mode = oneShot
        · left
          rw [if_neg (not_not.mpr hmode)]
          rfl
        · exact .inr (.inl hmode)
  | writeThread act =>
      have hact : act = 0 := of_decide_eq_true hq
      simp only [next] at h
      split at h <;> cases h
      · rename_i hk
        exact .inr (.inr fun n => not_live_of_null hP hk)
      · left
        rw [if_pos hact]
        rfl
  | stopThread k n =>
      cases h
      exact .inl hq
  | stopWait k n =>
      simp only [next] at h
      split at h
      · rename_i hend
        cases h
        -- the only live thread has ended
        refine .inr (.inr fun j hj => ?_)
        rw [← hP j hj, hj.2] at hend
        cases hend
      · cases h
  | _ => cases hq

/-- A call under review is not disturbed by the turn of another task. -/
theorem reviews_other (hu : (s.loc u).reviews = true) (htu : u ≠ t) :
    ∃ u, (Function.update s.loc t q' u).reviews = true := by
  refine ⟨u, ?_⟩
  rw [Function.update_of_ne htu]
  exact hu

/-- A task that does not review the handle, and its next turn. -/
theorem reviewed_of_next (hr : ReachWhen .misc StartsInMode s) (hJ : Reviewed s)
    (hC : StartsInMode s t .run) (h : next .misc t s.mem (s.loc t) = some (m', q'))
    (hq : (s.loc t).reviews = false) (hmode : m'.mode = oneShot) (hn : m'.live n) :
    ∃ u, (s.loc u).reviews = true := by
  have hm : s.mem.mode = oneShot := by
    rcases next_freq h with ⟨-, hm⟩ | ⟨w, hw, -⟩
    · rw [← hm]
      exact hmode
    · rw [hw] at hq
      cases hq
  rcases next_live h hn with hn | ⟨k, hk⟩
  · exact hJ hm n hn
  · have hP := (reach_switched hr).2 t
    rw [hk] at hP
    rcases hP with rfl | ⟨-, hne⟩
    · exact (hC rfl hk).resolve_left fun hne => hne hm
    · exact absurd hm hne

theorem Reviewed.turn (hr : ReachWhen .misc StartsInMode s) (hJ : Reviewed s)
    (hC : StartsInMode s t a) (hs : Interleaving.turn (exec .misc) s t a = some s') :
    Reviewed s' := by
  obtain ⟨m', q', he, rfl⟩ := turn_eq_some hs
  intro hmode n hn
  change m'.mode = oneShot at hmode
  change m'.live n at hn
  show ∃ u, (Function.update s.loc t q' u).reviews = true
  by_cases hq' : q'.reviews = true
  · refine ⟨t, ?_⟩
    rw [Function.update_self]
    exact hq'
  -- the moving task reviews nothing now; if it did before, there is nothing left to end
  have hother : (∃ u, (s.loc u).reviews = true) → (s.loc t).reviews = false →
      ∃ u, (Function.update s.loc t q' u).reviews = true := by
    rintro ⟨u, hu⟩ ht
    refine reviews_other hu ?_
    rintro rfl
    rw [ht] at hu
    cases hu
  rcases exec_cases he with ⟨rfl, he⟩ | ⟨c, j, -, -, hq, -, rfl, -⟩ | ⟨-, -, hq, rfl, -⟩
    | ⟨ns, -, rfl, rfl⟩
  · by_cases hq : (s.loc t).reviews = true
    · have hP := (reach_linked (fun _ _ _ => clearAt_misc) hr).2 t
      rcases next_reviews hP he hq with h | h | h
      · exact absurd h hq'
      · exact absurd hmode h
      · exact absurd hn (h n)
    · have hq := Bool.eq_false_iff.mpr hq
      exact hother (reviewed_of_next hr hJ hC he hq hmode hn) hq
  · exact hother (hJ hmode n hn) (by rw [hq]; rfl)
  · exact hother (hJ hmode n hn) (by rw [hq]; rfl)
  · exact hother (hJ hmode n hn) (Bool.eq_false_iff.mpr hq')

end Reviewed

theorem reach_reviewed {s : State} (h : ReachWhen .misc StartsInMode s) : Reviewed s := by
  refine Reach.invariant (I := Reviewed) ?_ ?_ h
  · intro _ n hn
    exact absurd hn.1 (Nat.not_lt_zero n)
  · intro s s' t a hr hJ hC hs
    exact hJ.turn hr hC hs

/-- **SAMPLING NEEDS THE MODE**: while no call is in progress a thread is alive in
    periodic mode only. -/
theorem sampled_when_periodic {s : State} (h : ReachWhen .misc StartsInMode s)
    (hidle : ∀ c, s.loc (.caller c) = .idle) : ∀ n, Alive s n → s.mem.mode = periodic := by
  intro n hn
  have hlive : s.mem.live n := by
    refine ⟨hn.1, Bool.eq_false_iff.mpr fun he => hn.2.1 ?_⟩
    exact (reach_runs h n).ended.mp he
  refine (reach_switched h).1.resolve_left fun hmode => ?_
  obtain ⟨u, hu⟩ := reach_reviewed h hmode n hlive
  obtain ⟨c, rfl⟩ := caller_of_reviews (reach_of h u) hu
  rw [hidle c] at hu
  cases hu

/-- A start in one-shot mode while no other call is in progress: the call returns, and
    its thread stays. -/
theorem stray_start {s : State} {c : Nat} (h : ReachWhen .misc StartsInMode s)
    (hq : s.loc (.caller c) = .runThread .write) (hmode : s.mem.mode = oneShot)
    (hothers : ∀ d, d ≠ c → s.loc (.caller d) = .idle) :
    ∃ s', Reach (exec .misc) Free s s' ∧ (∀ d, s'.loc (.caller d) = .idle)
      ∧ s'.mem.mode = oneShot ∧ Alive s' s.mem.born := by
  have hunborn : s.loc (.thread s.mem.born) = .unborn s.mem.born := by
    by_contra hb
    exact Nat.lt_irrefl _ ((reach_runs h s.mem.born).born hb)
  -- kthread_run, the handle, the lock
  let m1 : Mem := { s.mem with born := s.mem.born + 1 }
  let m2 : Mem := { m1 with kthread := some s.mem.born }
  have r : Solo (exec .misc) (.caller c) (s.mem, s.loc (.caller c))
      (m2.setHolder .kthread none, .idle) := by
    rw [hq]
    have hrun : exec .misc (.caller c) s.mem (.runThread .write) .run
        = some (m1, .setHandle .write s.mem.born) := rfl
    have hhandle : exec .misc (.caller c) m1 (.setHandle .write s.mem.born) .run
        = some (m2, .unlock .kthread .idle) := rfl
    exact .head .run hrun (.head .run hhandle (.head .run rfl .refl))
  obtain ⟨s', hr, heq, hloc⟩ := Reach.of_solo (s := s) r rfl
  obtain ⟨hmem, hpc⟩ := Prod.mk.inj heq
  refine ⟨s', hr, fun d => ?_, ?_, ?_, ?_⟩
  · by_cases hd : d = c
    · rw [hd]
      exact hpc
    · rw [hloc _ fun he => hd (Task.caller.inj he)]
      exact hothers d hd
  · rw [hmem]
    exact hmode
  · rw [hmem]
    exact Nat.lt_succ_self _
  · rw [hloc (.thread s.mem.born) (by rintro ⟨⟩), hunborn]
    exact ⟨nofun, nofun⟩

/-! ## A thread in its mode, and one that is not -/

/-- SETMODE to periodic, once a second, and a write of 1 that is done. -/
def sampledPeriodic : State :=
  scheduled .misc [.caller 0] (fun s t _ => decide (s.loc t = .runThread .write →
      s.mem.mode ≠ oneShot))
    ((.caller 0, .call (.setMode (some ⟨periodic, 1⟩))) :: List.replicate 6 (.caller 0, .run)
      ++ (.caller 0, .call (.write 1)) :: List.replicate 8 (.caller 0, .run))

/-- The callers of a schedule have returned, and the others have not called. -/
theorem idle_scheduled {ts : List Task} {ok : State → Task → Act → Bool}
    {sched : List (Task × Act)}
    (h : ∀ t ∈ ts, (scheduled .misc ts ok sched).loc t = .idle) (c : Nat) :
    (scheduled .misc ts ok sched).loc (.caller c) = .idle := by
  by_cases hc : .caller c ∈ ts
  · exact h _ hc
  · exact among_runAmong State.initial ts ok sched (.caller c) hc

theorem sampled_when_periodic_started :
    (ReachWhen .misc StartsInMode sampledPeriodic
      ∧ (∀ c, sampledPeriodic.loc (.caller c) = .idle) ∧ Alive sampledPeriodic 0)
      ∧ sampledPeriodic.mem.mode = periodic := by
  have hr : ReachWhen .misc StartsInMode sampledPeriodic := by
    refine reach_scheduled .misc ?_ _
    intro s t a _ hok _ hq
    exact .inl (of_decide_eq_true hok hq)
  have hidle : ∀ c, sampledPeriodic.loc (.caller c) = .idle := idle_scheduled (by decide)
  have halive : Alive sampledPeriodic 0 := ⟨by decide, by decide, by decide⟩
  exact ⟨⟨hr, hidle, halive⟩, sampled_when_periodic hr hidle 0 halive⟩

/-- A write of 1 has seen the periodic mode; SETMODE to one-shot finds no thread; and the
    write starts one. -/
def sampledOneShot : State :=
  scheduled .misc [.caller 0, .caller 1] (fun _ _ _ => true)
    ((.caller 0, .call (.setMode (some ⟨periodic, 1⟩))) :: List.replicate 6 (Task.caller 0, Act.run)
      ++ (.caller 0, .call (.write 1)) :: List.replicate 3 (Task.caller 0, Act.run)
      ++ (.caller 1, .call (.setMode (some ⟨oneShot, 1⟩)))
        :: List.replicate 6 (Task.caller 1, Act.run)
      ++ List.replicate 5 (Task.caller 0, Act.run))

theorem sampled_in_one_shot :
    ¬ ∀ s, ReachWhen .misc Free s → (∀ c, s.loc (.caller c) = .idle) →
      ∀ n, Alive s n → s.mem.mode = periodic := by
  intro h
  have hr : ReachWhen .misc Free sampledOneShot := by
    refine reach_scheduled .misc ?_ _
    exact fun _ _ _ _ _ => trivial
  have hmode := h sampledOneShot hr (idle_scheduled (by decide)) 0
    ⟨by decide, by decide, by decide⟩
  exact absurd hmode (by decide)

end HcSr04Machine
