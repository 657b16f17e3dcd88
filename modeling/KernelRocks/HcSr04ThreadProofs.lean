import KernelRocks.HcSr04MachineProofs

/-! # The sampling thread and its handle

    `kthread` is tested and changed under `kthread_lock`, in four branches of
    `hc_sr04_write` and SETMODE.  While the lock is free the handle and the live
    threads are TIED: the handle names the one live thread, and nobody has told
    that thread to stop.  Inside a section they come apart and together again;
    `Holding` says, place by place, how far.

    * `reach_runs`: a thread is alive from its start until it has left
      `thread_function`, in both drivers.
    * `one_thread`: the tie, in every run of the miscdevice driver with
      frequencies above zero. -/

namespace HcSr04Machine

open Interleaving
open HcSr04 (ModeSet SpinLock oneShot periodic Version)

/-! ## Live threads -/

/-- Started, and not yet out of `thread_function` or stuck in it. -/
def Alive (s : State) (n : Nat) : Prop :=
  n < s.mem.born ∧ s.loc (.thread n) ≠ .ended ∧ s.loc (.thread n) ≠ .oops

/-- What the memory knows of it. -/
def Mem.live (m : Mem) (n : Nat) : Prop := n < m.born ∧ m.ended n = false

/-- What a turn does to the threads and the handle. -/
inductive Threads (m : Mem) : Pc → Mem → Pc → Prop where
  | same {q m' q'} : m'.kthread = m.kthread → m'.born = m.born → m'.stop = m.stop →
      m'.ended = m.ended → Threads m q m' q'
  | stop (k n) :
      Threads m (.stopThread k n) { m with stop := Function.update m.stop n true } (.stopWait k n)
  | clear (k) : Threads m (.clearHandle k) { m with kthread := none } k.cleared
  | run (k) : Threads m (.runThread k) { m with born := m.born + 1 } (.setHandle k m.born)
  | set (k n) : Threads m (.setHandle k n) { m with kthread := some n } k.started
  | unborn (n) : n < m.born → m.stop n = true →
      Threads m (.unborn n) { m with ended := Function.update m.ended n true } .ended
  | leave (n) : m.stop n = true →
      Threads m (.stopTest n) { m with ended := Function.update m.ended n true } .ended

section Turns
variable {v : Version} {t : Task} {m m' : Mem} {q q' : Pc} {a : Act}

theorem next_threads (h : next v t m q = some (m', q')) : Threads m q m' q' := by
  cases q with
  | stopThread k n => cases h; exact .stop k n
  | clearHandle k => cases h; exact .clear k
  | runThread k => cases h; exact .run k
  | setHandle k n => cases h; exact .set k n
  | unborn n =>
      simp only [next] at h
      split at h
      · rename_i hn
        split at h
        · rename_i hs
          cases h
          exact .unborn n hn hs
        · cases h
          exact .same rfl rfl rfl rfl
      · cases h
  | stopTest n =>
      simp only [next] at h
      split at h
      · rename_i hs
        cases h
        exact .leave n hs
      · cases h
        exact .same rfl rfl rfl rfl
  | _ =>
      simp only [next] at h
      repeat' split at h
      all_goals cases h
      all_goals exact .same rfl rfl rfl rfl

/-- A turn with none of these effects. -/
theorem exec_threads (h : exec v t m q a = some (m', q')) :
    (a = .run ∧ Threads m q m' q')
      ∨ (m'.kthread = m.kthread ∧ m'.born = m.born ∧ m'.stop = m.stop ∧ m'.ended = m.ended
          ∧ m'.holder = m.holder) := by
  rcases exec_cases h with ⟨ha, h⟩ | ⟨c, n, -, -, -, -, rfl, -⟩ | ⟨-, -, -, rfl, -⟩
    | ⟨ns, -, rfl, -⟩
  · exact .inl ⟨ha, next_threads h⟩
  · exact .inr ⟨rfl, rfl, rfl, rfl, rfl⟩
  · exact .inr ⟨rfl, rfl, rfl, rfl, rfl⟩
  · exact .inr ⟨rfl, rfl, rfl, rfl, rfl⟩

end Turns

/-- A thread has ended exactly if it is at its end, and runs only once started. -/
structure Runs (n : Nat) (m : Mem) (q : Pc) : Prop where
  ended : m.ended n = true ↔ q = .ended
  born : q ≠ .unborn n → n < m.born

section Runs
variable {v : Version} {s : State} {n : Nat} {t : Task} {m m' : Mem} {q q' : Pc} {a : Act}

theorem exec_born (h : exec v t m q a = some (m', q')) : m.born ≤ m'.born := by
  rcases exec_threads h with ⟨-, h⟩ | ⟨-, hb, -⟩
  · cases h with
    | same _ hb _ _ => exact Nat.le_of_eq hb.symm
    | run k => exact Nat.le_succ _
    | _ => exact Nat.le_refl _
  · exact Nat.le_of_eq hb.symm

/-- Where a thread starts and where it ends. -/
def Pc.edge : Pc → Bool
  | .unborn _ => true
  | .ended => true
  | _ => false

theorem off_edge (hq : q'.edge = false) : (∀ n, q' ≠ .unborn n) ∧ q' ≠ .ended := by
  constructor
  · rintro n rfl
    cases hq
  · rintro rfl
    cases hq

/-- A turn leads to no thread's start, and to a thread's end only from the two places
    that test the request to stop. -/
theorem next_end (hw : q.Wf) (h : next v t m q = some (m', q')) :
    (∀ n, q' ≠ .unborn n)
      ∧ ((q' = .ended ∧ ∃ n, (q = .unborn n ∨ q = .stopTest n) ∧ m'.ended n = true)
        ∨ (q' ≠ .ended ∧ m'.ended = m.ended)) := by
  have inner (hq : q'.edge = false) (hm : m'.ended = m.ended) :
      (∀ n, q' ≠ .unborn n)
        ∧ ((q' = .ended ∧ ∃ n, (q = .unborn n ∨ q = .stopTest n) ∧ m'.ended n = true)
          ∨ (q' ≠ .ended ∧ m'.ended = m.ended)) :=
    ⟨(off_edge hq).1, .inr ⟨(off_edge hq).2, hm⟩⟩
  cases q with
  | lock l k =>
      obtain ⟨-, rfl, rfl⟩ := next_lock h
      -- neither place holds the lock just taken
      obtain ⟨hl, -, -⟩ := hw
      refine ⟨?_, .inr ⟨?_, rfl⟩⟩
      · rintro n rfl
        cases hl
      · rintro rfl
        cases hl
  | unlock l k =>
      cases h
      obtain ⟨hk, -⟩ := hw
      refine ⟨?_, .inr ⟨?_, rfl⟩⟩
      · rintro n rfl
        cases hk
      · rintro rfl
        cases hk
  | unborn n =>
      simp only [next] at h
      repeat' split at h
      all_goals cases h
      · refine ⟨?_, .inl ⟨rfl, n, .inl rfl, Function.update_self ..⟩⟩
        rintro n ⟨⟩
      · exact inner rfl rfl
  | stopTest n =>
      simp only [next] at h
      repeat' split at h
      all_goals cases h
      · refine ⟨?_, .inl ⟨rfl, n, .inr rfl, Function.update_self ..⟩⟩
        rintro n ⟨⟩
      · exact inner rfl rfl
  | sendReturn b => cases h; cases b <;> exact inner rfl rfl
  | clearHandle k => cases h; cases k <;> exact inner rfl rfl
  | setHandle k n => cases h; cases k <;> exact inner rfl rfl
  | stopFlag k => cases h; cases k <;> exact inner rfl rfl
  | _ =>
      simp only [next] at h
      repeat' split at h
      all_goals cases h
      all_goals exact inner rfl rfl

theorem Runs.next (hw : q.Wf) (ho : q.of (.thread n)) (hr : Runs n m q)
    (h : next v (.thread n) m q = some (m', q')) : Runs n m' q' := by
  have hne : q ≠ .ended := by
    rintro rfl
    cases h
  have hborn : n < m.born := by
    by_cases hq : q = .unborn n
    · subst hq
      simp only [HcSr04Machine.next] at h
      split at h
      · assumption
      · cases h
    · exact hr.born hq
  refine ⟨?_, fun _ => Nat.lt_of_lt_of_le hborn (exec_born (a := .run) h)⟩
  rcases (next_end hw h).2 with ⟨hq', j, hq, he⟩ | ⟨hq', he⟩
  · have hj : j = n := by
      rcases hq with rfl | rfl
      · exact (Task.thread.inj ho).symm
      · exact (Task.thread.inj ho).symm
    subst hj
    exact ⟨fun _ => hq', fun _ => he⟩
  · rw [he, hr.ended]
    exact ⟨fun h => absurd h hne, fun h => absurd h hq'⟩

/-- Nobody else ends a thread. -/
theorem ended_of_other (ho : q.of t) (htn : t ≠ .thread n)
    (h : exec v t m q a = some (m', q')) : m'.ended n = m.ended n := by
  rcases exec_threads h with ⟨-, h⟩ | ⟨-, -, -, he, -⟩
  · cases h with
    | same _ _ _ he => rw [he]
    | unborn j _ _ =>
        have hj : n ≠ j := by
          rintro rfl
          exact htn ho
        exact Function.update_of_ne hj _ _
    | leave j _ =>
        have hj : n ≠ j := by
          rintro rfl
          exact htn ho
        exact Function.update_of_ne hj _ _
    | _ => rfl
  · rw [he]

end Runs

/-- In every run of either driver. -/
theorem reach_runs {v : Version} {C : State → Task → Act → Prop} {s : State}
    (h : ReachWhen v C s) (n : Nat) : Runs n s.mem (s.loc (.thread n)) := by
  refine (Reach.modular (I := fun _ => True)
    (P := fun t m q => ∀ n, t = .thread n → Runs n m q) ?_ ?_ ?_ h).2 _ n rfl
  · refine ⟨trivial, ?_⟩
    rintro _ n rfl
    exact ⟨⟨nofun, nofun⟩, fun h => absurd rfl h⟩
  · intro s t a m' q' hr _ _ hP he
    refine ⟨trivial, ?_⟩
    rintro n rfl
    rcases exec_cases he with ⟨-, he⟩ | ⟨c, j, -, hj, -⟩ | ⟨-, hj, -⟩ | ⟨ns, -, rfl, rfl⟩
    · exact (hP n rfl).next (reach_owns hr _).wf (reach_of hr _) he
    · cases hj
    · cases hj
    · exact ⟨(hP n rfl).ended, (hP n rfl).born⟩
  · intro s t u a m' q' hr _ htu _ _ hP he n hu
    subst hu
    refine ⟨?_, fun hq => Nat.lt_of_lt_of_le ((hP n rfl).born hq) (exec_born he)⟩
    rw [ended_of_other (reach_of hr t) htu he]
    exact (hP n rfl).ended

/-! ## No thread is stuck -/

/-- Frequencies above zero. -/
def Frequencies (_ : State) (_ : Task) (a : Act) : Prop :=
  ∀ w, a = .call (.setMode (some w)) → w.freq ≠ 0

/-- The frequency is set when the mode is periodic or a thread has been started. -/
structure Ready (m : Mem) : Prop where
  mode : m.mode ≠ oneShot → m.freq ≠ 0
  born : 0 < m.born → m.freq ≠ 0

/-- The same on the way to a start. -/
def Paced (m : Mem) : Pc → Prop
  | .lock _ k | .unlock _ k => Paced m k
  | .setMode w => w.freq ≠ 0
  | .writeThread _ | .testThread | .stopThread .restart _ | .stopWait .restart _ | .runThread _
  | .period _ => m.freq ≠ 0
  | .oops => False
  | _ => True

section Paced
variable {v : Version} {t : Task} {m m' : Mem} {q q' : Pc} {a : Act}

theorem Paced.frame (h : Paced m q) (hf : m.freq ≠ 0 → m'.freq ≠ 0) : Paced m' q := by
  induction q with
  | lock l k ih => exact ih h
  | unlock l k ih => exact ih h
  | setMode w => exact h
  | writeThread act => exact hf h
  | testThread => exact hf h
  | stopThread k n => cases k <;> first | exact hf h | trivial
  | stopWait k n => cases k <;> first | exact hf h | trivial
  | runThread k => exact hf h
  | period n => exact hf h
  | oops => exact h
  | _ => trivial

theorem next_freq (h : next v t m q = some (m', q')) :
    (m'.freq = m.freq ∧ m'.mode = m.mode)
      ∨ ∃ w, q = .setMode w ∧ m' = { m with mode := w.mode, freq := w.freq } := by
  cases q with
  | setMode w =>
      cases h
      exact .inr ⟨w, rfl, rfl⟩
  | _ =>
      refine .inl ?_
      simp only [next] at h
      repeat' split at h
      all_goals cases h
      all_goals exact ⟨rfl, rfl⟩

/-- A frequency above zero is never lost. -/
theorem Paced.freq (hP : Paced m q) (h : next v t m q = some (m', q')) (hf : m.freq ≠ 0) :
    m'.freq ≠ 0 := by
  rcases next_freq h with ⟨h, -⟩ | ⟨w, rfl, rfl⟩
  · rw [h]
    exact hf
  · exact hP

theorem Ready.next (hI : Ready m) (hP : Paced m q) (h : next v t m q = some (m', q')) :
    Ready m' := by
  rcases next_freq h with ⟨hf, hm⟩ | ⟨w, rfl, rfl⟩
  · refine ⟨fun hmode => hf ▸ hI.mode (hm ▸ hmode), fun hborn => ?_⟩
    cases next_threads h with
    | same _ hb _ _ => exact hf ▸ hI.born (hb ▸ hborn)
    | run k => exact hP
    | _ => exact hI.born hborn
  · exact ⟨fun _ => hP, fun _ => hP⟩

theorem paced_back (m : Mem) (b : Back) : Paced m b.pc := by
  cases b <;> trivial

theorem paced_doSend (m : Mem) (p : Pulse) : Paced m (doSend v p) := by
  cases v <;> trivial

theorem paced_retry (m : Mem) (p : Pulse) : Paced m (retry v p) := by
  unfold retry
  split
  · trivial
  · exact paced_doSend m _

theorem paced_keeper (m : Mem) (k : Keeper) :
    Paced m k.cleared ∧ Paced m k.started ∧ Paced m k.flagged := by
  cases k <;> exact ⟨trivial, trivial, trivial⟩

theorem Paced.next (hI : Ready m) (hP : Paced m q) (h : next v t m q = some (m', q')) :
    Paced m' q' := by
  have hf := hP.freq h
  cases q with
  | lock l k =>
      obtain ⟨-, rfl, rfl⟩ := next_lock h
      exact Paced.frame hP hf
  | unlock l k =>
      cases h
      exact Paced.frame hP hf
  | writeMode act =>
      cases h
      show Paced m (if m.mode = oneShot then _ else Pc.lock .kthread (.writeThread act))
      split
      · split <;> trivial
      · rename_i hmode
        exact hI.mode hmode
  | enableMode =>
      cases h
      show Paced m (if m.mode = oneShot then _ else Pc.lock .kthread (.runThread .enable))
      split
      · trivial
      · rename_i hmode
        exact hI.mode hmode
  | setMode w =>
      cases h
      exact hP
  | writeThread act =>
      simp only [HcSr04Machine.next] at h
      repeat' split at h
      all_goals cases h
      all_goals first | exact hP | trivial
  | testThread =>
      simp only [HcSr04Machine.next] at h
      repeat' split at h
      all_goals cases h
      all_goals first | exact hP | trivial
  | stopThread k n =>
      cases h
      cases k <;> exact hP
  | stopWait k n =>
      simp only [HcSr04Machine.next] at h
      repeat' split at h
      all_goals cases h
      · rename_i hk
        subst hk
        exact hP
      · trivial
  | unborn n =>
      simp only [HcSr04Machine.next] at h
      split at h
      · rename_i hn
        split at h <;> cases h
        · trivial
        · exact hI.born (Nat.zero_lt_of_lt hn)
      · cases h
  | period n =>
      simp only [HcSr04Machine.next] at h
      cases h
      split
      · rename_i hf0
        exact absurd hf0 hP
      · trivial
  | _ =>
      simp only [HcSr04Machine.next] at h
      repeat' split at h
      all_goals cases h
      all_goals first
        | trivial
        | exact paced_back _ _
        | exact paced_doSend _ _
        | exact paced_retry _ _
        | exact (paced_keeper _ _).1
        | exact (paced_keeper _ _).2.1
        | exact (paced_keeper _ _).2.2

end Paced

theorem reach_paced {v : Version} {s : State} (h : ReachWhen v Frequencies s) :
    Ready s.mem ∧ ∀ t, Paced s.mem (s.loc t) := by
  refine Reach.modular (I := Ready) (P := fun _ => Paced) ?_ ?_ ?_ h
  · refine ⟨⟨fun h => absurd rfl h, nofun⟩, fun t => ?_⟩
    cases t <;> trivial
  · intro s t a m' q' _ hC hI hP he
    rcases exec_cases he with ⟨-, he⟩ | ⟨c, n, rfl, -, -, -, rfl, rfl⟩ | ⟨-, -, -, rfl, rfl⟩
      | ⟨ns, -, rfl, rfl⟩
    · exact ⟨hI.next hP he, hP.next hI he⟩
    · refine ⟨hI, ?_⟩
      rcases entry_cases c with h | h | ⟨act, h⟩ | ⟨w, hc, h⟩ | ⟨_, _, -, h | h⟩ <;> rw [h]
      · trivial
      · trivial
      · trivial
      · exact hC w (congrArg _ hc)
      · trivial
      · trivial
    · exact ⟨hI, trivial⟩
    · exact ⟨⟨hI.mode, hI.born⟩, hP.frame id⟩
  · intro s t u a m' q' _ _ _ _ ht hu he
    rcases exec_cases he with ⟨-, he⟩ | ⟨c, n, -, -, -, -, rfl, -⟩ | ⟨-, -, -, rfl, -⟩
      | ⟨ns, -, rfl, -⟩
    · exact hu.frame (ht.freq he)
    · exact hu
    · exact hu
    · exact hu.frame id

/-! ## The handle -/

/-- The handle names the one live thread, which nobody has told to stop. -/
structure Mem.Tied (m : Mem) : Prop where
  handle : ∀ n, m.kthread = some n ↔ m.live n
  asked : ∀ n, m.live n → m.stop n = false

/-- What is known of the threads at the places of the sections on `kthread_lock`.  In
    front of a section stands a place that tests the handle first; only `enable_store`,
    which the miscdevice driver does not have, starts its thread without a test. -/
def Holding (v : Version) (m : Mem) : Pc → Prop
  | .lock .kthread k =>
      k = .testThread ∨ k = .disable ∨ (∃ act, k = .writeThread act)
        ∨ (v = .sysfs ∧ k = .runThread .enable)
  | .unlock .kthread k => m.Tied ∧ Holding v m k
  | .lock _ k | .unlock _ k => Holding v m k
  | .writeThread _ | .testThread | .disable | .stopFlag .write => m.Tied
  | .stopThread _ n => m.Tied ∧ m.kthread = some n
  | .stopWait _ n => ∀ j, m.live j → j = n
  | .clearHandle _ | .runThread _ => ∀ j, ¬ m.live j
  | .setHandle _ n => m.stop n = false ∧ ∀ j, m.live j ↔ j = n
  | .enableTest | .enableMode => v = .sysfs
  | _ => True

section Holding
variable {v : Version} {t : Task} {m m' : Mem} {q q' : Pc} {n : Nat}

theorem Mem.Tied.frame (h : m.Tied) (hk : m'.kthread = m.kthread) (hb : m'.born = m.born)
    (hs : m'.stop = m.stop) (he : m'.ended = m.ended) : m'.Tied := by
  have hl : ∀ n, m'.live n ↔ m.live n := fun n => by rw [Mem.live, Mem.live, hb, he]
  exact ⟨fun n => by rw [hk, hl]; exact h.handle n,
    fun n hn => by rw [hs]; exact h.asked n ((hl n).mp hn)⟩

theorem Holding.frame (h : Holding v m q) (hk : m'.kthread = m.kthread) (hb : m'.born = m.born)
    (hs : m'.stop = m.stop) (he : m'.ended = m.ended) : Holding v m' q := by
  have hl : ∀ n, m'.live n ↔ m.live n := fun n => by rw [Mem.live, Mem.live, hb, he]
  induction q with
  | lock l k ih => cases l <;> first | exact h | exact ih h
  | unlock l k ih => cases l <;> first | exact ⟨h.1.frame hk hb hs he, ih h.2⟩ | exact ih h
  | writeThread act => exact Mem.Tied.frame h hk hb hs he
  | testThread => exact Mem.Tied.frame h hk hb hs he
  | disable => exact Mem.Tied.frame h hk hb hs he
  | stopFlag k => cases k <;> first | exact Mem.Tied.frame h hk hb hs he | trivial
  | stopThread k n => exact ⟨h.1.frame hk hb hs he, hk ▸ h.2⟩
  | stopWait k n => exact fun j hj => h j ((hl j).mp hj)
  | clearHandle k => exact fun j hj => h j ((hl j).mp hj)
  | runThread k => exact fun j hj => h j ((hl j).mp hj)
  | setHandle k n => exact ⟨hs ▸ h.1, fun j => (hl j).trans (h.2 j)⟩
  | enableTest => exact h
  | enableMode => exact h
  | _ => trivial

/-- A task outside the sections knows nothing of the threads. -/
theorem Holding.outside (h : Holding v m q) (hw : q.Wf) (hl : SpinLock.kthread ∉ q.held) :
    Holding v m' q := by
  induction q with
  | lock l k ih =>
      by_cases hlk : l = .kthread
      · subst hlk
        exact h
      · have hk : SpinLock.kthread ∉ k.held := by
          rw [hw.held_lock]
          exact fun hmem => (List.mem_cons.mp hmem).elim (fun h => hlk h.symm) hl
        cases l <;> first | exact absurd rfl hlk | exact ih h hw.2.2 hk
  | unlock l k ih =>
      have hk : SpinLock.kthread ∉ k.held := fun hmem => hl (List.mem_cons_of_mem l hmem)
      by_cases hlk : l = .kthread
      · subst hlk
        exact absurd List.mem_cons_self hl
      · cases l <;> first | exact absurd rfl hlk | exact ih h hw.2 hk
  | writeThread act => exact absurd List.mem_cons_self hl
  | testThread => exact absurd List.mem_cons_self hl
  | disable => exact absurd List.mem_cons_self hl
  | stopFlag k =>
      cases k with
      | write => exact absurd (List.mem_cons_of_mem _ List.mem_cons_self) hl
      | _ => trivial
  | stopThread k n => cases k <;> exact absurd List.mem_cons_self hl
  | stopWait k n => cases k <;> exact absurd List.mem_cons_self hl
  | clearHandle k => cases k <;> exact absurd List.mem_cons_self hl
  | runThread k => cases k <;> exact absurd List.mem_cons_self hl
  | setHandle k n => cases k <;> exact absurd List.mem_cons_self hl
  | enableTest => exact h
  | enableMode => exact h
  | _ => trivial

theorem live_of_ended {j : Nat}
    (h : Mem.live { m with ended := Function.update m.ended n true } j) : m.live j ∧ j ≠ n := by
  obtain ⟨hb, he⟩ := h
  change Function.update m.ended n true j = false at he
  by_cases hj : j = n
  · rw [hj, Function.update_self] at he
    cases he
  · rw [Function.update_of_ne hj] at he
    exact ⟨⟨hb, he⟩, hj⟩

/-- A thread that ends has been told to, so nobody counts on it. -/
theorem Holding.ends (h : Holding v m q) (hn : m.live n) (hs : m.stop n = true) :
    Holding v { m with ended := Function.update m.ended n true } q := by
  have ht : ¬ m.Tied := by
    intro ht
    rw [ht.asked n hn] at hs
    cases hs
  induction q with
  | lock l k ih => cases l <;> first | exact h | exact ih h
  | unlock l k ih => cases l <;> first | exact absurd h.1 ht | exact ih h
  | writeThread act => exact absurd h ht
  | testThread => exact absurd h ht
  | disable => exact absurd h ht
  | stopFlag k =>
      cases k with
      | write => exact absurd h ht
      | _ => trivial
  | stopThread k j => exact absurd h.1 ht
  | stopWait k j => exact fun i hi => h i (live_of_ended hi).1
  | clearHandle k => exact fun i hi => h i (live_of_ended hi).1
  | runThread k => exact fun i hi => h i (live_of_ended hi).1
  | setHandle k j =>
      -- the thread just started has not been told to stop
      obtain ⟨hj, hlive⟩ := h
      rw [← (hlive n).mp hn, hs] at hj
      cases hj
  | enableTest => exact h
  | enableMode => exact h
  | _ => trivial

theorem holding_back (m : Mem) (b : Back) : Holding v m b.pc := by
  cases b <;> trivial

theorem holding_doSend (m : Mem) (p : Pulse) : Holding v m (doSend v p) := by
  cases v <;> trivial

theorem holding_retry (m : Mem) (p : Pulse) : Holding v m (retry v p) := by
  unfold retry
  split
  · trivial
  · exact holding_doSend m _

theorem holding_keeper (h : m.Tied) (k : Keeper) :
    Holding v m k.cleared ∧ Holding v m k.started := by
  cases k <;> first | exact ⟨h, h, trivial⟩ | exact ⟨⟨h, trivial⟩, h, trivial⟩

/-- While nobody is in a section the threads are tied, and unborn threads are fresh. -/
structure Linked (m : Mem) : Prop where
  free : m.holder .kthread = none → m.Tied
  fresh : ∀ n, m.born ≤ n → m.stop n = false ∧ m.ended n = false

/-- The handle is NULL where `enable_store` takes the lock to start its thread. -/
def ClearAt (m : Mem) (q : Pc) : Prop :=
  q = .lock .kthread (.runThread .enable) → m.kthread = none

/-- The first turn of a section finds the tie, and the last one leaves it. -/
theorem Holding.next (hI : Linked m) (hP : Holding v m q) (hE : ClearAt m q)
    (h : next v t m q = some (m', q')) : Holding v m' q' := by
  cases q with
  | lock l k =>
      obtain ⟨hl, rfl, rfl⟩ := next_lock h
      refine Holding.frame (m := m) ?_ rfl rfl rfl rfl
      by_cases hlk : l = .kthread
      · subst hlk
        have ht := hI.free hl
        rcases hP with rfl | rfl | ⟨act, rfl⟩ | ⟨-, rfl⟩
        · exact ht
        · exact ht
        · exact ht
        · intro j hj
          have hk := (ht.handle j).mpr hj
          rw [hE rfl] at hk
          cases hk
      · cases l <;> first | exact absurd rfl hlk | exact hP
  | unlock l k =>
      cases h
      refine Holding.frame (m := m) ?_ rfl rfl rfl rfl
      cases l <;> first | exact hP.2 | exact hP
  | writeThread act =>
      simp only [HcSr04Machine.next] at h
      split at h
      · rename_i hk
        cases h
        split
        · exact ⟨hP, trivial⟩
        · intro j hj
          rw [(hP.handle j).mpr hj] at hk
          cases hk
      · rename_i n hk
        cases h
        split
        · exact ⟨hP, hk⟩
        · exact ⟨hP, trivial⟩
  | testThread =>
      simp only [HcSr04Machine.next] at h
      split at h
      · cases h
        exact ⟨hP, trivial⟩
      · rename_i n hk
        cases h
        exact ⟨hP, hk⟩
  | disable =>
      simp only [HcSr04Machine.next] at h
      split at h
      · cases h
        exact ⟨hP, trivial⟩
      · rename_i n hk
        cases h
        exact ⟨hP, hk⟩
  | stopThread k n =>
      cases h
      intro j hj
      have hk := (hP.1.handle j).mpr hj
      rw [hP.2] at hk
      exact (Option.some.inj hk).symm
  | stopWait k n =>
      simp only [HcSr04Machine.next] at h
      split at h
      · rename_i he
        -- the thread that was waited for is no longer live, and it was the only one
        have hno : ∀ j, ¬ m.live j := by
          intro j hj
          have hjn := hP j hj
          subst hjn
          rw [hj.2] at he
          cases he
        cases h
        split
        · exact hno
        · exact hno
      · cases h
  | clearHandle k =>
      cases h
      refine (holding_keeper (m := { m with kthread := none }) ⟨fun j => ?_, fun j hj => ?_⟩ k).1
      · refine ⟨?_, fun hj => absurd hj (hP j)⟩
        rintro ⟨⟩
      · exact absurd hj (hP j)
  | runThread k =>
      cases h
      obtain ⟨hstop, hend⟩ := hI.fresh m.born (Nat.le_refl _)
      refine ⟨hstop, fun j => ⟨fun hj => ?_, ?_⟩⟩
      · by_contra hne
        have hlt : j < m.born := Nat.lt_of_le_of_ne (Nat.le_of_lt_succ hj.1) hne
        exact hP j ⟨hlt, hj.2⟩
      · rintro rfl
        exact ⟨Nat.lt_succ_self _, hend⟩
  | setHandle k n =>
      cases h
      obtain ⟨hstop, hlive⟩ := hP
      refine (holding_keeper (m := { m with kthread := some n }) ⟨fun j => ?_, fun j hj => ?_⟩ k).2
      · exact ⟨fun hj => (hlive j).mpr (Option.some.inj hj).symm,
          fun hj => congrArg some ((hlive j).mp hj).symm⟩
      · rw [(hlive j).mp hj]
        exact hstop
  | stopFlag k =>
      cases h
      cases k with
      | write => exact ⟨Mem.Tied.frame hP rfl rfl rfl rfl, trivial⟩
      | _ => trivial
  | enableTest =>
      cases h
      split
      · exact hP
      · trivial
  | enableMode =>
      cases h
      split
      · trivial
      · exact .inr (.inr (.inr ⟨hP, rfl⟩))
  | _ =>
      simp only [HcSr04Machine.next] at h
      repeat' split at h
      all_goals cases h
      all_goals first
        | trivial
        | exact holding_back _ _
        | exact holding_doSend _ _
        | exact holding_retry _ _
        | exact .inl rfl
        | exact .inr (.inr (.inl ⟨_, rfl⟩))

/-- The effects other than a thread's end lie inside the sections. -/
theorem Threads.cases_held (h : Threads m q m' q') :
    (m'.kthread = m.kthread ∧ m'.born = m.born ∧ m'.stop = m.stop ∧ m'.ended = m.ended)
      ∨ SpinLock.kthread ∈ q.held
      ∨ ∃ n, (q = .unborn n ∧ n < m.born ∨ q = .stopTest n) ∧ m.stop n = true
          ∧ m' = { m with ended := Function.update m.ended n true } := by
  cases h with
  | same hk hb hs he => exact .inl ⟨hk, hb, hs, he⟩
  | stop k n => cases k <;> exact .inr (.inl List.mem_cons_self)
  | clear k => cases k <;> exact .inr (.inl List.mem_cons_self)
  | run k => cases k <;> exact .inr (.inl List.mem_cons_self)
  | set k n => cases k <;> exact .inr (.inl List.mem_cons_self)
  | unborn n hn hs => exact .inr (.inr ⟨n, .inl ⟨rfl, hn⟩, hs, rfl⟩)
  | leave n hs => exact .inr (.inr ⟨n, .inr rfl, hs, rfl⟩)

end Holding

section Linked
variable {v : Version} {C : State → Task → Act → Prop} {s : State} {t u : Task} {m' : Mem}
  {q' : Pc} {a : Act} {n : Nat}

/-- The thread that is about to end is live. -/
theorem live_at_end (hr : ReachWhen v C s)
    (hq : s.loc t = .unborn n ∧ n < s.mem.born ∨ s.loc t = .stopTest n) : s.mem.live n := by
  have hof := reach_of hr t
  have ht : t = .thread n := by
    rcases hq with ⟨hq, -⟩ | hq
    · rw [hq] at hof
      exact hof
    · rw [hq] at hof
      exact hof
  subst ht
  obtain ⟨hend, hborn⟩ := reach_runs hr n
  rcases hq with ⟨hq, hn⟩ | hq
  · refine ⟨hn, Bool.eq_false_iff.mpr fun he => ?_⟩
    rw [hq] at hend
    exact nomatch hend.mp he
  · rw [hq] at hend hborn
    exact ⟨hborn nofun, Bool.eq_false_iff.mpr fun he => nomatch hend.mp he⟩

theorem Linked.ended {m : Mem} (hI : Linked m) {j : Nat} (hj : m.live j) {n : Nat}
    (hn : m.born ≤ n) : m.stop n = false ∧ Function.update m.ended j true n = false := by
  have hne : n ≠ j := by
    rintro rfl
    exact absurd hn (Nat.not_le_of_lt hj.1)
  rw [Function.update_of_ne hne]
  exact hI.fresh n hn

theorem Threads.fresh {m m' : Mem} {q q' : Pc} (hI : Linked m) (hP : Holding v m q)
    (hl : ∀ n, q = .unborn n ∧ n < m.born ∨ q = .stopTest n → m.live n)
    (h : Threads m q m' q') : ∀ n, m'.born ≤ n → m'.stop n = false ∧ m'.ended n = false := by
  intro n hn
  cases h with
  | same _ hb hs he =>
      rw [hs, he]
      exact hI.fresh n (hb ▸ hn)
  | stop k j =>
      have hj : n ≠ j := by
        rintro rfl
        have := ((hP.1.handle n).mp hP.2).1
        exact absurd hn (Nat.not_le_of_lt this)
      refine ⟨?_, (hI.fresh n hn).2⟩
      show Function.update m.stop j true n = false
      rw [Function.update_of_ne hj]
      exact (hI.fresh n hn).1
  | clear k => exact hI.fresh n hn
  | run k => exact hI.fresh n (Nat.le_of_succ_le hn)
  | set k j => exact hI.fresh n hn
  | unborn j hj hs => exact hI.ended (hl j (.inl ⟨rfl, hj⟩)) hn
  | leave j hs => exact hI.ended (hl j (.inr rfl)) hn

theorem Linked.exec (hI : Linked s.mem) (hr : ReachWhen v C s) (hP : Holding v s.mem (s.loc t))
    (h : exec v t s.mem (s.loc t) a = some (m', q')) : Linked m' := by
  have ho := reach_owns hr t
  rcases exec_cases h with ⟨-, hn⟩ | ⟨c, n, -, -, -, -, rfl, -⟩ | ⟨-, -, -, rfl, -⟩
    | ⟨ns, -, rfl, -⟩
  · have ht := next_threads hn
    refine ⟨fun hfree => ?_, ht.fresh hI hP fun n hq => live_at_end hr hq⟩
    rcases next_locks hn ho.wf ho.nodup with ⟨l, hq, hl, rfl⟩ | ⟨l, hq, rfl⟩ | ⟨hh, -, -⟩
    · by_cases hlk : SpinLock.kthread = l
      · subst hlk
        rw [setHolder_holder_self] at hfree
        cases hfree
      · rw [setHolder_holder_of_ne _ _ hlk] at hfree
        exact (hI.free hfree).frame rfl rfl rfl rfl
    · by_cases hlk : SpinLock.kthread = l
      · subst hlk
        rw [hq] at hP
        exact hP.1.frame rfl rfl rfl rfl
      · rw [setHolder_holder_of_ne _ _ hlk] at hfree
        exact (hI.free hfree).frame rfl rfl rfl rfl
    · rw [hh] at hfree
      have htied := hI.free hfree
      rcases ht.cases_held with ⟨hk, hb, hs, he⟩ | hheld | ⟨n, hq, hs, -⟩
      · exact htied.frame hk hb hs he
      · rw [(ho.holds _).mpr hheld] at hfree
        cases hfree
      · rw [htied.asked n (live_at_end hr hq)] at hs
        cases hs
  · exact hI
  · exact hI
  · exact ⟨fun hfree => (hI.free hfree).frame rfl rfl rfl rfl, hI.fresh⟩

/-- What a task knows is not disturbed by the others. -/
theorem Holding.other (hr : ReachWhen v C s) (htu : t ≠ u) (hP : Holding v s.mem (s.loc u))
    (h : exec v t s.mem (s.loc t) a = some (m', q')) : Holding v m' (s.loc u) := by
  rcases exec_threads h with ⟨-, h⟩ | ⟨hk, hb, hs, he, -⟩
  · rcases h.cases_held with ⟨hk, hb, hs, he⟩ | hheld | ⟨n, hq, hs, rfl⟩
    · exact hP.frame hk hb hs he
    · refine hP.outside (reach_owns hr u).wf fun hu => ?_
      exact htu (reach_exclusive hr hheld hu)
    · exact hP.ends (live_at_end hr hq) hs
  · exact hP.frame hk hb hs he

end Linked

/-- In a run in which `enable_store` finds the handle NULL whenever it takes the lock. -/
theorem reach_linked {v : Version} {C : State → Task → Act → Prop} {s : State}
    (hC : ∀ s t, C s t .run → Holding v s.mem (s.loc t) → ClearAt s.mem (s.loc t))
    (h : ReachWhen v C s) : Linked s.mem ∧ ∀ t, Holding v s.mem (s.loc t) := by
  refine Reach.modular (I := Linked) (P := fun _ => Holding v) ?_ ?_ ?_ h
  · refine ⟨⟨fun _ => ⟨fun n => ⟨nofun, fun hn => absurd hn.1 (Nat.not_lt_zero n)⟩, fun _ _ => rfl⟩,
      fun _ _ => ⟨rfl, rfl⟩⟩, fun t => ?_⟩
    cases t <;> trivial
  · intro s t a m' q' hr hc hI hP he
    refine ⟨hI.exec hr hP he, ?_⟩
    rcases exec_cases he with ⟨rfl, he⟩ | ⟨c, n, -, -, -, hv, rfl, rfl⟩ | ⟨-, -, -, rfl, rfl⟩
      | ⟨ns, -, rfl, rfl⟩
    · exact hP.next hI (hC s t hc hP) he
    · rcases entry_cases c with h | h | ⟨act, h⟩ | ⟨w, -, h⟩ | ⟨ret, value, rfl, h | h⟩
      · rw [h]; trivial
      · rw [h]; trivial
      · rw [h]; trivial
      · rw [h]; trivial
      · rw [h]
        exact .inr (.inl rfl)
      -- the miscdevice driver has no enable_store
      · rw [h]
        cases v with
        | misc => cases hv
        | sysfs => exact rfl
    · trivial
    · exact hP.frame rfl rfl rfl rfl
  · intro s t u a m' q' hr _ htu _ _ hP he
    exact Holding.other hr htu hP he

/-- The miscdevice driver starts no thread without a test. -/
theorem clearAt_misc {m : Mem} {q : Pc} (h : Holding .misc m q) : ClearAt m q := by
  rintro rfl
  rcases h with h | h | ⟨act, h⟩ | ⟨h, -⟩ <;> cases h

/-- One sampling thread, tracked by its handle. -/
structure OneThread (s : State) : Prop where
  unique : ∀ n n', Alive s n → Alive s n' → n = n'
  handle : s.mem.kthread ≠ none ↔ ∃ n, Alive s n
  refers : ∀ n, s.mem.kthread = some n → Alive s n

/-- A thread that is not lost is alive until it ends. -/
theorem alive_iff_live {v : Version} {C : State → Task → Act → Prop} {s : State}
    (h : ReachWhen v C s) {n : Nat} (hn : s.loc (.thread n) ≠ .oops) :
    Alive s n ↔ s.mem.live n := by
  have hend := (reach_runs h n).ended
  constructor
  · rintro ⟨hb, he, -⟩
    exact ⟨hb, Bool.eq_false_iff.mpr fun h => he (hend.mp h)⟩
  · rintro ⟨hb, he⟩
    refine ⟨hb, fun hq => ?_, hn⟩
    rw [hend.mpr hq] at he
    cases he

theorem alive_iff {v : Version} {s : State} (h : ReachWhen v Frequencies s) (n : Nat) :
    Alive s n ↔ s.mem.live n := by
  refine alive_iff_live h fun hq => ?_
  have hpaced := (reach_paced h).2 (.thread n)
  rw [hq] at hpaced
  exact hpaced

/-- The tie, in terms of the threads themselves. -/
theorem OneThread.of_tied {s : State} (hl : ∀ n, Alive s n ↔ s.mem.live n) (ht : s.mem.Tied) :
    OneThread s := by
  refine ⟨fun n n' hn hn' => ?_, ⟨fun hk => ?_, ?_⟩, fun n hk => ?_⟩
  · have h1 := (ht.handle n).mpr ((hl n).mp hn)
    have h2 := (ht.handle n').mpr ((hl n').mp hn')
    exact Option.some.inj (h1.symm.trans h2)
  · obtain ⟨n, hn⟩ := Option.ne_none_iff_exists'.mp hk
    exact ⟨n, (hl n).mpr ((ht.handle n).mp hn)⟩
  · rintro ⟨n, hn⟩
    rw [(ht.handle n).mpr ((hl n).mp hn)]
    exact nofun
  · exact (hl n).mpr ((ht.handle n).mp hk)

/-- **ONE THREAD**: whenever `kthread_lock` is free, the handle names the one live
    thread, if there is one; and what is told to stop is alive and has not been
    told before. -/
theorem one_thread {s : State} (h : ReachWhen .misc Frequencies s) :
    (s.mem.holder .kthread = none → OneThread s)
      ∧ ∀ t k n, s.loc t = .stopThread k n → Alive s n ∧ s.mem.stop n = false := by
  obtain ⟨hI, hP⟩ := reach_linked (fun _ _ _ => clearAt_misc) h
  refine ⟨fun hfree => .of_tied (alive_iff h) (hI.free hfree), fun t k n hq => ?_⟩
  have hh := hP t
  rw [hq] at hh
  obtain ⟨ht, hk⟩ := hh
  have hlive := (ht.handle n).mp hk
  exact ⟨(alive_iff h n).mpr hlive, ht.asked n hlive⟩

/-! ## A thread started -/

def frequencies (_ : State) (_ : Task) : Act → Bool
  | .call (.setMode (some w)) => decide (w.freq ≠ 0)
  | _ => true

/-- SETMODE to periodic, once a second, and a write of 1. -/
def startedThread : State :=
  scheduled .misc [.caller 0] frequencies
    ((.caller 0, .call (.setMode (some ⟨periodic, 1⟩))) :: List.replicate 6 (.caller 0, .run)
      ++ (.caller 0, .call (.write 1)) :: List.replicate 8 (.caller 0, .run))

theorem one_thread_started :
    (ReachWhen .misc Frequencies startedThread
      ∧ startedThread.mem.holder .kthread = none ∧ startedThread.mem.kthread = some 0)
      ∧ OneThread startedThread := by
  have hr : ReachWhen .misc Frequencies startedThread := by
    refine reach_scheduled .misc ?_ _
    rintro s t a _ hok w rfl
    exact of_decide_eq_true hok
  exact ⟨⟨hr, by decide⟩, (one_thread hr).1 (by decide)⟩

end HcSr04Machine
