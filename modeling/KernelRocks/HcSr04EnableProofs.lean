import KernelRocks.HcSr04ThreadProofs

/-! # The sampling thread of the SYSFS driver

    `enable_store` is the third function that starts a thread.  It tests the
    handle with no lock held and assigns it under `kthread_lock`: what it has
    seen may be OLD by then.

    * `one_thread_enabled`: in a run in which the handle is still NULL whenever
      `enable_store` takes the lock, and every thread finds a frequency to divide
      by, one thread at most is alive at any time and the handle names it.
    * `stale_start`: a start that finds the handle set makes a second thread.
    * `two_threads`: one `hc_sr04_write` between the test and the lock is enough. -/

namespace HcSr04Machine

open Interleaving
open HcSr04 (ModeSet SpinLock Version oneShot periodic)

/-- `enable_store` takes `kthread_lock` for its start only while the handle is NULL, and
    `thread_function` starts only with a frequency above zero. -/
structure StartsClear (s : State) (t : Task) (a : Act) : Prop where
  handle : a = .run → ClearAt s.mem (s.loc t)
  freq : ∀ n, a = .run → s.loc t = .period n → s.mem.freq ≠ 0

/-! ## At most one thread, in the sections as well -/

section Unique
variable {v : Version} {C : State → Task → Act → Prop} {s : State} {t : Task} {m m' : Mem}
  {q q' : Pc} {a : Act} {n n' : Nat}

theorem Mem.Tied.unique (h : m.Tied) (hn : m.live n) (hn' : m.live n') : n = n' :=
  Option.some.inj (((h.handle n).mpr hn).symm.trans ((h.handle n').mpr hn'))

/-- The task in a section knows of one thread at most. -/
theorem Holding.unique (h : Holding v m q) (hl : SpinLock.kthread ∈ q.held) (hn : m.live n)
    (hn' : m.live n') : n = n' := by
  induction q with
  | lock l k ih =>
      by_cases hlk : l = .kthread
      · subst hlk
        -- the lock is not held in front of the section
        rcases h with rfl | rfl | ⟨act, rfl⟩ | ⟨-, rfl⟩ <;> simp [Pc.held, Keeper.held] at hl
      · have hk : SpinLock.kthread ∈ k.held := List.mem_of_mem_tail hl
        cases l <;> first | exact absurd rfl hlk | exact ih h hk
  | unlock l k ih =>
      by_cases hlk : l = .kthread
      · subst hlk
        exact h.1.unique hn hn'
      · have hk : SpinLock.kthread ∈ k.held :=
          (List.mem_cons.mp hl).resolve_left fun he => hlk he.symm
        cases l <;> first | exact absurd rfl hlk | exact ih h hk
  | writeThread act => exact Mem.Tied.unique h hn hn'
  | testThread => exact Mem.Tied.unique h hn hn'
  | disable => exact Mem.Tied.unique h hn hn'
  | stopFlag k =>
      cases k with
      | write => exact Mem.Tied.unique h hn hn'
      | _ => simp [Pc.held] at hl
  | stopThread k j => exact h.1.unique hn hn'
  | stopWait k j => exact (h n hn).trans (h n' hn').symm
  | clearHandle k => exact absurd hn (h n)
  | runThread k => exact absurd hn (h n)
  | setHandle k j => exact ((h.2 n).mp hn).trans ((h.2 n').mp hn').symm
  | enableFlag value again => cases again <;> simp [Pc.held] at hl
  | _ => simp [Pc.held] at hl

/-- A thread is lost only where it divides by zero. -/
theorem next_oops (hw : q.Wf) (h : next v t m q = some (m', .oops)) :
    ∃ n, q = .period n ∧ m.freq = 0 := by
  cases q with
  | lock l k =>
      obtain ⟨-, -, rfl⟩ := next_lock h
      -- no lock is taken in front of that place
      cases hw.1
  | unlock l k =>
      cases h
      cases hw.1
  | period n =>
      simp only [next, Option.some.injEq, Prod.mk.injEq] at h
      refine ⟨n, rfl, ?_⟩
      by_contra hf
      rw [if_neg hf] at h
      cases h.2
  | sendReturn b => cases b <;> cases h
  | clearHandle k => cases k <;> cases h
  | setHandle k n => cases k <;> cases h
  | stopFlag k => cases k <;> cases h
  | _ =>
      simp only [next] at h
      repeat' split at h
      all_goals simp at h
      all_goals cases h.2

end Unique

/-- In a run in which every thread finds a frequency none is lost. -/
theorem reach_no_oops {v : Version} {s : State} (h : ReachWhen v StartsClear s) (t : Task) :
    s.loc t ≠ .oops := by
  refine (Reach.modular (I := fun _ => True) (P := fun _ _ q => q ≠ .oops) ?_ ?_ ?_ h).2 t
  · refine ⟨trivial, fun t => ?_⟩
    cases t <;> exact nofun
  · intro s t a m' q' hr hC _ hP he
    refine ⟨trivial, ?_⟩
    rintro rfl
    rcases exec_cases he with ⟨ha, he⟩ | ⟨c, n, -, -, -, -, -, hq⟩ | ⟨-, -, -, -, hq⟩
      | ⟨ns, -, -, hq⟩
    · obtain ⟨n, hq, hf⟩ := next_oops (reach_owns hr t).wf he
      exact hC.freq n ha hq hf
    · rcases entry_cases c with h | h | ⟨act, h⟩ | ⟨w, -, h⟩ | ⟨_, _, -, h | h⟩ <;> rw [h] at hq <;>
        cases hq
    · cases hq
    · exact hP hq.symm
  · intro s t u a m' q' _ _ _ _ _ hu _
    exact hu

/-- **ONE THREAD, ENABLED**: at any time one thread at most is alive, and whenever
    `kthread_lock` is free the handle names it. -/
theorem one_thread_enabled {s : State} (h : ReachWhen .sysfs StartsClear s) :
    (∀ n n', Alive s n → Alive s n' → n = n')
      ∧ (s.mem.holder .kthread = none → OneThread s) := by
  obtain ⟨hI, hP⟩ := reach_linked (fun _ _ hc _ => hc.handle rfl) h
  have hl : ∀ n, Alive s n ↔ s.mem.live n := fun n => alive_iff_live h (reach_no_oops h _)
  refine ⟨fun n n' hn hn' => ?_, fun hfree => .of_tied hl (hI.free hfree)⟩
  rw [hl] at hn hn'
  cases hh : s.mem.holder .kthread with
  | none => exact (hI.free hh).unique hn hn'
  | some u => exact (hP u).unique (((reach_owns h u).holds _).mp hh) hn hn'

/-- Whenever `enable_store` gets past the lock with the handle set, its two next turns
    leave two threads alive. -/
theorem stale_start {s : State} {c n : Nat} (h : ReachWhen .sysfs StartsClear s)
    (hq : s.loc (.caller c) = .lock .kthread (.runThread .enable))
    (hfree : s.mem.holder .kthread = none) (hk : s.mem.kthread = some n) :
    ∃ s', Reach (exec .sysfs) Free s s' ∧ Alive s' n ∧ Alive s' s.mem.born ∧ n ≠ s.mem.born := by
  have hn : Alive s n := ((one_thread_enabled h).2 hfree).refers n hk
  have hne : n ≠ s.mem.born := Nat.ne_of_lt hn.1
  have hunborn : s.loc (.thread s.mem.born) = .unborn s.mem.born := by
    by_contra hb
    exact Nat.lt_irrefl _ ((reach_runs h s.mem.born).born hb)
  -- the lock, then kthread_run
  let m1 := s.mem.setHolder .kthread (some (.caller c))
  have h1 : exec .sysfs (.caller c) s.mem (s.loc (.caller c)) .run
      = some (m1, .runThread .enable) := by
    rw [hq]
    exact if_pos hfree
  have r1 := Reach.refl.exec_turn h1
  have h2 : exec .sysfs (.caller c) m1
      (Function.update s.loc (.caller c) (.runThread .enable) (.caller c)) .run
      = some ({ m1 with born := m1.born + 1 }, .setHandle .enable m1.born) := by
    rw [Function.update_self]
    rfl
  have r2 := r1.exec_turn h2
  refine ⟨_, r2, ⟨Nat.lt_succ_of_lt hn.1, ?_⟩, ⟨Nat.lt_succ_self _, ?_⟩, hne⟩
  · simpa [Function.update_of_ne] using hn.2
  · simp [Function.update_of_ne, hunborn]

/-! ## A thread started through sysfs, and two of them -/

def startsClear (s : State) (t : Task) (_ : Act) : Bool :=
  decide (s.loc t = .lock .kthread (.runThread .enable) → s.mem.kthread = none)
    && match s.loc t with
      | .period _ => decide (s.mem.freq ≠ 0)
      | _ => true

/-- SETMODE to periodic, once a second; `enable_store` of 1; and the thread has computed
    its period. -/
def enabledThread : State :=
  scheduled .sysfs [.caller 0, .thread 0] startsClear
    ((.caller 0, .call (.setMode (some ⟨periodic, 1⟩))) :: List.replicate 6 (Task.caller 0, Act.run)
      ++ (.caller 0, .call (.enable 1 1)) :: List.replicate 7 (Task.caller 0, Act.run)
      ++ List.replicate 2 (Task.thread 0, Act.run))

theorem one_thread_enabled_started :
    (ReachWhen .sysfs StartsClear enabledThread
      ∧ enabledThread.mem.holder .kthread = none ∧ enabledThread.mem.kthread = some 0
      ∧ enabledThread.loc (.thread 0) = send (.thread 0))
      ∧ OneThread enabledThread := by
  have hr : ReachWhen .sysfs StartsClear enabledThread := by
    refine reach_scheduled .sysfs ?_ _
    intro s t a _ hok
    obtain ⟨hk, hf⟩ := Bool.and_eq_true_iff.mp hok
    refine ⟨fun _ hq => of_decide_eq_true hk hq, fun n _ hq => ?_⟩
    rw [hq] at hf
    exact of_decide_eq_true hf
  exact ⟨⟨hr, by decide⟩, (one_thread_enabled hr).2 (by decide)⟩

/-- `enable_store` of 1 has seen no thread; `hc_sr04_write` of 1 starts one; and
    `enable_store` starts another. -/
def twoThreads : State :=
  scheduled .sysfs [.caller 0, .caller 1] (fun _ _ _ => true)
    ((.caller 0, .call (.setMode (some ⟨periodic, 1⟩))) :: List.replicate 6 (Task.caller 0, Act.run)
      ++ (.caller 0, .call (.enable 1 1)) :: List.replicate 1 (Task.caller 0, Act.run)
      ++ (.caller 1, .call (.write 1)) :: List.replicate 8 (Task.caller 1, Act.run)
      ++ List.replicate 6 (Task.caller 0, Act.run))

theorem two_threads :
    ¬ ∀ s, ReachWhen .sysfs Free s → (∀ n n', Alive s n → Alive s n' → n = n')
      ∧ (s.mem.holder .kthread = none → OneThread s) := by
  intro h
  have hr : ReachWhen .sysfs Free twoThreads := by
    refine reach_scheduled .sysfs ?_ _
    exact fun _ _ _ _ _ => trivial
  have h01 := (h twoThreads hr).1 0 1 ⟨by decide, by decide, by decide⟩
    ⟨by decide, by decide, by decide⟩
  exact absurd h01 (by decide)

end HcSr04Machine
