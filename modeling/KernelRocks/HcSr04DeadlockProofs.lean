import KernelRocks.HcSr04MachineProofs
import KernelRocks.LockOrderProofs
import Mathlib.Data.Nat.Basic

/-! # Stopping the sampling thread — who waits for whom

    `kthread_stop` waits until the thread has left `thread_function`, and SETMODE
    calls it with `kconfig_lock` and `kthread_lock` held.  In the SYSFS driver
    the thread takes `kconfig_lock` at the top of every `do_send`.  A thread is
    PAST when it cannot come to a `do_send` any more before it tests
    `kthread_should_stop`.

    * `stops_deadlock`: SETMODE stops a thread that is not past.
    * `stop_deadlock_free`: nobody waits in a circle in a run where a thread is
      past whenever it is stopped while a SETMODE holds `kconfig_lock`, and
      whenever a SETMODE takes that lock while the thread is being stopped.

    The rank of `kconfig_lock` depends on who holds it: below `kthread_lock` for
    SETMODE, above everything for the others, who release it without waiting. -/

namespace HcSr04Machine

open Interleaving
open HcSr04 (SpinLock Version)

/-! ## Waiting -/

/-- What a task can wait for: a lock, or the end of a thread. -/
inductive Resource where
  | lock (l : SpinLock)
  | thread (n : Nat)

def Pc.waitsOn : Pc → Option Resource
  | .lock l _ => some (.lock l)
  | .stopWait _ n => some (.thread n)
  | _ => none

/-- A lock is held by its holder, the end of a thread by the thread. -/
def Holds (s : State) (t : Task) : Resource → Prop
  | .lock l => s.mem.holder l = some t
  | .thread n => t = .thread n ∧ s.loc t ≠ .ended

def Waits (s : State) : Task → Task → Prop :=
  LockOrder.WaitsFor (fun t => (s.loc t).waitsOn) (Holds s)

/-- No call waits in `kthread_stop` with a lock the thread spins on, and nobody waits
    in a circle. -/
structure DeadlockFree (s : State) : Prop where
  stop : ∀ t k n l k', s.loc t = .stopWait k n → s.loc (.thread n) = .lock l k' →
    s.mem.holder l ≠ some t
  acyclic : ∀ t, ¬ Relation.TransGen (Waits s) t t

/-- SETMODE with `kconfig_lock`, until it gives `kthread_lock` back. -/
def Pc.inSetMode : Pc → Bool
  | .lock .kconfig (.setMode _) => false
  | .lock _ k | .unlock _ k => k.inSetMode
  | .setMode _ | .testThread => true
  | .stopThread k _ | .stopWait k _ => decide (SpinLock.kconfig ∈ k.held)
  | _ => false

/-- The thread whose end is waited for. -/
def Pc.stops : Pc → Option Nat
  | .lock _ k | .unlock _ k => k.stops
  | .stopWait _ n => some n
  | _ => none

/-- No `do_send` begins before the next test of `kthread_should_stop`. -/
def Pc.past : Pc → Bool
  | .lock _ k | .unlock _ k => k.past
  | .sendTest _ | .readPin _ | .period _ => false
  | .pulse p | .clock p | .stamp p _ | .pollFirst p | .count p _ | .poll p _ | .timeOut p =>
      decide (p.left = 0)
  | _ => true

/-- Neither driver's other calls; the SYSFS driver's `enable_store` is a matter of its
    own. -/
def NoEnable (_ : State) (_ : Task) (a : Act) : Prop := ∀ ret value, a ≠ .call (.enable ret value)

structure StopsPast (s : State) (t : Task) (a : Act) : Prop where
  noEnable : NoEnable s t a
  stop : ∀ k n u, a = .run → s.loc t = .stopThread k n → (s.loc u).inSetMode = true →
    (s.loc (.thread n)).past = true
  take : ∀ w u n, a = .run → s.loc t = .lock .kconfig (.setMode w) → (s.loc u).stops = some n →
    (s.loc (.thread n)).past = true

/-! ## What a turn does -/

section Turns
variable {v : Version} {t : Task} {m m' : Mem} {q q' : Pc} {n : Nat}

theorem inSetMode_back (b : Back) : b.pc.inSetMode = false ∧ b.pc.stops = none := by
  cases b <;> exact ⟨rfl, rfl⟩

theorem inSetMode_doSend (p : Pulse) :
    (doSend v p).inSetMode = false ∧ (doSend v p).stops = none := by
  cases v <;> exact ⟨rfl, rfl⟩

theorem inSetMode_retry (p : Pulse) :
    (retry v p).inSetMode = false ∧ (retry v p).stops = none := by
  unfold retry
  split
  · exact ⟨rfl, rfl⟩
  · exact inSetMode_doSend _

theorem inSetMode_keeper (k : Keeper) :
    (k.cleared.inSetMode = false ∧ k.cleared.stops = none)
      ∧ (k.started.inSetMode = false ∧ k.started.stops = none)
      ∧ (k.flagged.inSetMode = false ∧ k.flagged.stops = none) := by
  cases k <;> exact ⟨⟨rfl, rfl⟩, ⟨rfl, rfl⟩, rfl, rfl⟩

/-- A wait begins with the request. -/
theorem next_stops (h : next v t m q = some (m', q')) (hq : q'.stops = some n) :
    q.stops = some n ∨ ∃ k, q = .stopThread k n := by
  cases q with
  | lock l k =>
      obtain ⟨-, rfl, rfl⟩ := next_lock h
      exact .inl hq
  | unlock l k =>
      cases h
      exact .inl hq
  | stopThread k j =>
      cases h
      cases hq
      exact .inr ⟨k, rfl⟩
  | _ =>
      simp only [next] at h
      repeat' split at h
      all_goals cases h
      all_goals first
        | cases hq
        | simp [Pc.stops, inSetMode_back, inSetMode_doSend, inSetMode_retry, inSetMode_keeper] at hq

/-- SETMODE is entered with `kconfig_lock`. -/
theorem next_inSetMode (h : next v t m q = some (m', q')) (hq : q'.inSetMode = true) :
    q.inSetMode = true ∨ ∃ w, q = .lock .kconfig (.setMode w) := by
  cases q with
  | lock l k =>
      obtain ⟨-, rfl, rfl⟩ := next_lock h
      by_cases hk : ∃ w, Pc.lock l q' = .lock .kconfig (.setMode w)
      · exact .inr hk
      · refine .inl ?_
        rw [Pc.inSetMode]
        · exact hq
        · rintro w rfl rfl
          exact hk ⟨w, rfl⟩
  | unlock l k =>
      cases h
      exact .inl hq
  | setMode w => exact .inl rfl
  | testThread => exact .inl rfl
  | stopThread k j =>
      cases h
      exact .inl hq
  | _ =>
      simp only [next] at h
      repeat' split at h
      all_goals cases h
      all_goals first
        | cases hq
        | simp [Pc.inSetMode, inSetMode_back, inSetMode_doSend, inSetMode_retry,
            inSetMode_keeper] at hq

/-- A thread that has been told to stop and is past stays past. -/
theorem past_next (ho : q.of (.thread n)) (hs : m.stop n = true)
    (h : next v (.thread n) m q = some (m', q')) (hq : q.past = true) : q'.past = true := by
  cases q with
  | lock l k =>
      obtain ⟨-, rfl, rfl⟩ := next_lock h
      exact hq
  | unlock l k =>
      cases h
      exact hq
  | unborn j =>
      have hj : n = j := Task.thread.inj ho
      subst hj
      simp only [next, hs] at h
      split at h
      · cases h
        rfl
      · cases h
  | stopTest j =>
      have hj : n = j := Task.thread.inj ho
      subst hj
      simp only [next, hs] at h
      cases h
      rfl
  | timeOut p =>
      cases h
      have hp : p.left = 0 := of_decide_eq_true hq
      rw [Pc.past, retry, hp]
      rfl
  | sendReturn b =>
      cases h
      cases b <;> rfl
  | pollFirst p =>
      cases h
      show Pc.past (if m.ongoing then _ else _) = true
      split
      · exact hq
      · rfl
  | count p c =>
      cases h
      split <;> exact hq
  | poll p c =>
      cases h
      split
      · exact hq
      · rfl
  | pulse p => cases h; exact hq
  | clock p => cases h; exact hq
  | stamp p now => cases h; exact hq
  | sleep j => cases h; rfl
  | shotTest b =>
      obtain ⟨-, j, hj⟩ := ho
      cases hj
  | idle => cases h
  | ended => cases h
  | oops => cases h
  | sendTest b => cases hq
  | readPin p => cases hq
  | period j => cases hq
  | irqTest => cases ho
  | irqClock j => cases ho
  | irqDiff j kend => cases ho
  | irqNewest x => cases ho
  | irqData x => cases ho
  | irqStop => cases ho
  -- the other places are a caller's
  | _ =>
      obtain ⟨j, hj⟩ := ho
      cases hj

end Turns

/-! ## Locks inside locks -/

/-- Without `enable_store` only two locks are taken with another one held: SETMODE's
    second, and `ongoing_lock` behind the stop in `hc_sr04_write`. -/
def Pc.ordered : Pc → Prop
  | .lock l k => ((Pc.lock l k).held ≠ [] →
      (l = .kthread ∧ k = .testThread) ∨ (l = .ongoing ∧ k = .stopFlag .write)) ∧ k.ordered
  | .unlock _ k => k.ordered
  | .enableTest | .enableMode => False
  | .runThread k | .setHandle k _ => k ≠ .enable
  | _ => True

section Ordered
variable {v : Version} {t : Task} {m m' : Mem} {q q' : Pc} {a : Act}

theorem ordered_back (b : Back) : b.pc.ordered := by
  cases b <;> simp [Back.pc, Pc.ordered, Pc.held]

theorem ordered_doSend (p : Pulse) : (doSend v p).ordered := by
  cases v <;> simp [doSend, Pc.ordered, Pc.held]

theorem ordered_retry (p : Pulse) : (retry v p).ordered := by
  unfold retry
  split
  · trivial
  · exact ordered_doSend _

theorem ordered_keeper (k : Keeper) :
    k.cleared.ordered ∧ (k ≠ .enable → k.started.ordered) ∧ k.flagged.ordered := by
  cases k <;>
    simp [Keeper.cleared, Keeper.started, Keeper.flagged, Pc.ordered, Pc.held]

theorem Pc.ordered.next (hq : q.ordered) (h : next v t m q = some (m', q')) : q'.ordered := by
  cases q with
  | lock l k =>
      obtain ⟨-, rfl, rfl⟩ := next_lock h
      exact hq.2
  | unlock l k =>
      cases h
      exact hq
  | setHandle k n =>
      cases h
      exact (ordered_keeper k).2.1 hq
  | enableTest => exact hq.elim
  | enableMode => exact hq.elim
  | stopWait k n =>
      simp only [HcSr04Machine.next] at h
      repeat' split at h
      all_goals cases h
      · rename_i hk
        rw [hk]
        rintro ⟨⟩
      · trivial
  | _ =>
      simp only [HcSr04Machine.next] at h
      repeat' split at h
      all_goals cases h
      all_goals simp [Pc.ordered, Pc.held, send, ordered_back, ordered_doSend, ordered_retry,
        ordered_keeper]
      all_goals exact hq

end Ordered

theorem reach_ordered {v : Version} {C : State → Task → Act → Prop} {s : State}
    (hC : ∀ s t a, C s t a → NoEnable s t a) (h : ReachWhen v C s) (t : Task) :
    (s.loc t).ordered := by
  refine (Reach.modular (I := fun _ => True) (P := fun _ _ q => q.ordered) ?_ ?_ ?_ h).2 t
  · refine ⟨trivial, fun t => ?_⟩
    cases t <;> trivial
  · intro s t a m' q' _ hc _ hP he
    refine ⟨trivial, ?_⟩
    rcases exec_cases he with ⟨-, he⟩ | ⟨c, n, rfl, -, -, -, -, rfl⟩ | ⟨-, -, -, -, rfl⟩
      | ⟨ns, -, -, rfl⟩
    · exact hP.next he
    · rcases entry_cases c with h | h | ⟨act, h⟩ | ⟨w, -, h⟩ | ⟨ret, value, rfl, -⟩
      · rw [h]; trivial
      · rw [h]; simp [Pc.ordered, Pc.held]
      · rw [h]; simp [Pc.ordered, Pc.held]
      · rw [h]; simp [Pc.ordered, Pc.held]
      · exact absurd rfl (hC _ _ _ hc ret value)
    · simp [Pc.ordered, Pc.held]
    · exact hP
  · intro s t u a m' q' _ _ _ _ _ hu _
    exact hu

/-! ## Past threads -/

section Past
variable {v : Version} {C : State → Task → Act → Prop} {s s' : State} {t u : Task} {m m' : Mem}
  {q q' : Pc} {a : Act} {n : Nat}

theorem exec_stop (h : exec v t m q a = some (m', q')) (hs : m.stop n = true) :
    m'.stop n = true := by
  rcases exec_cases h with ⟨-, h⟩ | ⟨c, j, -, -, -, -, rfl, -⟩ | ⟨-, -, -, rfl, -⟩
    | ⟨ns, -, rfl, -⟩
  · cases q with
    | stopThread k j =>
        cases h
        show Function.update m.stop j true n = true
        by_cases hj : n = j
        · rw [hj, Function.update_self]
        · rw [Function.update_of_ne hj]
          exact hs
    | _ =>
        simp only [next] at h
        repeat' split at h
        all_goals cases h
        all_goals exact hs
  · exact hs
  · exact hs
  · exact hs

theorem exec_stops (h : exec v t m q a = some (m', q')) (hq : q'.stops = some n) :
    q.stops = some n ∨ (a = .run ∧ ∃ k, q = .stopThread k n) := by
  rcases exec_cases h with ⟨ha, h⟩ | ⟨c, j, -, -, -, -, -, rfl⟩ | ⟨-, -, -, -, rfl⟩
    | ⟨ns, -, -, rfl⟩
  · exact (next_stops h hq).imp id fun hk => ⟨ha, hk⟩
  · rcases entry_cases c with h | h | ⟨act, h⟩ | ⟨w, -, h⟩ | ⟨_, _, -, h | h⟩
    all_goals rw [h] at hq
    all_goals cases hq
  · cases hq
  · exact .inl hq

theorem exec_inSetMode (h : exec v t m q a = some (m', q')) (hq : q'.inSetMode = true) :
    q.inSetMode = true ∨ (a = .run ∧ ∃ w, q = .lock .kconfig (.setMode w)) := by
  rcases exec_cases h with ⟨ha, h⟩ | ⟨c, j, -, -, -, -, -, rfl⟩ | ⟨-, -, -, -, rfl⟩
    | ⟨ns, -, -, rfl⟩
  · exact (next_inSetMode h hq).imp id fun hw => ⟨ha, hw⟩
  · rcases entry_cases c with h | h | ⟨act, h⟩ | ⟨w, -, h⟩ | ⟨_, _, -, h | h⟩
    all_goals rw [h] at hq
    all_goals cases hq
  · cases hq
  · exact .inl hq

/-- Whoever is waited for has been told to stop. -/
theorem reach_asked (h : ReachWhen v C s) (hn : (s.loc t).stops = some n) :
    s.mem.stop n = true := by
  refine (Reach.modular (I := fun _ => True)
    (P := fun _ m q => ∀ n, q.stops = some n → m.stop n = true) ?_ ?_ ?_ h).2 t n hn
  · refine ⟨trivial, fun t => ?_⟩
    cases t <;> exact nofun
  · intro s t a m' q' _ _ _ hP he
    refine ⟨trivial, fun n hq => ?_⟩
    rcases exec_stops he hq with h | ⟨rfl, k, hq⟩
    · exact exec_stop he (hP n h)
    · rw [hq] at he
      cases he
      exact Function.update_self ..
  · intro s t u a m' q' _ _ _ _ _ hu he n hq
    exact exec_stop he (hu n hq)

/-- The thread that is stopped is past while a SETMODE has `kconfig_lock`. -/
def StoppedPast (s : State) : Prop :=
  ∀ t u n, (s.loc t).stops = some n → (s.loc u).inSetMode = true →
    (s.loc (.thread n)).past = true

theorem past_of_turn (hr : ReachWhen v C s) (hs : turn (exec v) s t a = some s')
    (hn : (s.loc u).stops = some n) (hp : (s.loc (.thread n)).past = true) :
    (s'.loc (.thread n)).past = true := by
  obtain ⟨m', q', he, rfl⟩ := turn_eq_some hs
  show (Function.update s.loc t q' (.thread n)).past = true
  by_cases ht : .thread n = t
  · subst ht
    rw [Function.update_self]
    rcases exec_cases he with ⟨-, he⟩ | ⟨c, j, -, hj, -⟩ | ⟨-, hj, -⟩ | ⟨ns, -, -, rfl⟩
    · exact past_next (reach_of hr _) (reach_asked hr hn) he hp
    · cases hj
    · cases hj
    · exact hp
  · rw [Function.update_of_ne ht]
    exact hp

theorem StoppedPast.turn (hI : StoppedPast s) (hr : ReachWhen v C s) (hC : StopsPast s t a)
    (hs : turn (exec v) s t a = some s') : StoppedPast s' := by
  intro t1 u1 n hstops hset
  have hp : (s.loc (.thread n)).past = true → (s.loc t1).stops = some n →
      (s'.loc (.thread n)).past = true := fun hp hn => past_of_turn hr hs hn hp
  obtain ⟨m', q', he, rfl⟩ := turn_eq_some hs
  -- the wait is an old one, or the moving task has just made its request
  have hA : (s.loc t1).stops = some n ∨ (a = .run ∧ ∃ k, s.loc t = .stopThread k n) := by
    change (Function.update s.loc t q' t1).stops = some n at hstops
    by_cases h1 : t1 = t
    · rw [h1, Function.update_self] at hstops
      rw [h1]
      exact exec_stops he hstops
    · rw [Function.update_of_ne h1] at hstops
      exact .inl hstops
  have hB : (s.loc u1).inSetMode = true
      ∨ (a = .run ∧ ∃ w, s.loc t = .lock .kconfig (.setMode w)) := by
    change (Function.update s.loc t q' u1).inSetMode = true at hset
    by_cases h1 : u1 = t
    · rw [h1, Function.update_self] at hset
      rw [h1]
      exact exec_inSetMode he hset
    · rw [Function.update_of_ne h1] at hset
      exact .inl hset
  rcases hA with hA | ⟨ha, k, hq⟩
  · rcases hB with hB | ⟨ha, w, hq⟩
    · exact hp (hI t1 u1 n hA hB) hA
    · exact hp (hC.take w t1 n ha hq hA) hA
  · rcases hB with hB | ⟨-, w, hq'⟩
    · have ht : Task.thread n ≠ t := by
        rintro rfl
        have hof := reach_of hr (.thread n)
        rw [hq] at hof
        obtain ⟨j, hj⟩ := hof
        cases hj
      show (Function.update s.loc t q' (.thread n)).past = true
      rw [Function.update_of_ne ht]
      exact hC.stop k n u1 ha hq hB
    · rw [hq] at hq'
      cases hq'

theorem reach_stoppedPast (h : ReachWhen v StopsPast s) : StoppedPast s := by
  refine Reach.invariant (I := StoppedPast) ?_ ?_ h
  · intro t u n hn _
    cases t <;> cases hn
  · intro s s' t a hr hI hC hs
    exact hI.turn hr hC hs

end Past

/-! ## The order -/

/-- SETMODE takes `kconfig_lock` first; whoever else holds it waits for nothing. -/
noncomputable def rank (s : State) : Resource → Nat
  | .lock .kconfig => open Classical in if ∃ u, (s.loc u).inSetMode = true then 0 else 4
  | .lock .kthread => 1
  | .thread _ => 2
  | .lock _ => 3

/-- The end of a thread counts only while somebody waits for it. -/
def HoldsAwaited (s : State) (t : Task) : Resource → Prop
  | .lock l => s.mem.holder l = some t
  | .thread n => t = .thread n ∧ ∃ u, (s.loc u).stops = some n

theorem stops_of_waitsOn {q : Pc} {n : Nat} (h : q.waitsOn = some (.thread n)) :
    q.stops = some n := by
  cases q with
  | stopWait k j =>
      cases h
      rfl
  | _ => cases h

theorem waits_awaited {s : State} {t u : Task} (h : Waits s t u) :
    LockOrder.WaitsFor (fun t => (s.loc t).waitsOn) (HoldsAwaited s) t u := by
  obtain ⟨r, hr, hh⟩ := h
  refine ⟨r, hr, ?_⟩
  cases r with
  | lock l => exact hh
  | thread n => exact ⟨hh.1, t, stops_of_waitsOn hr⟩

/-- A thread takes `kconfig_lock` in `do_send` only, and `kthread_lock` nowhere. -/
theorem lock_of_thread {l : SpinLock} {k : Pc} {n : Nat} (hw : (Pc.lock l k).Wf)
    (ho : (Pc.lock l k).ordered) (hof : (Pc.lock l k).of (.thread n)) :
    l ≠ .kthread ∧ (l = .kconfig → (Pc.lock l k).past = false) := by
  have hnil : (Pc.lock l k).held = [] := by
    by_contra hne
    rcases ho.1 hne with ⟨-, rfl⟩ | ⟨-, rfl⟩
    · obtain ⟨j, hj⟩ := hof
      cases hj
    · obtain ⟨j, hj⟩ := hof
      cases hj
  have hk := hw.held_lock
  rw [hnil] at hk
  cases k with
  | readPin p =>
      cases hk
      exact ⟨nofun, fun _ => rfl⟩
  | sendTest b => cases hk; exact ⟨nofun, nofun⟩
  | pollFirst p => cases hk; exact ⟨nofun, nofun⟩
  | timeOut p => cases hk; exact ⟨nofun, nofun⟩
  | lock l' k' => exact nomatch hw.2.1
  | unlock l' k' => exact nomatch hw.2.1
  | shotTest b =>
      obtain ⟨-, j, hj⟩ := hof
      cases hj
  -- the place holds no lock, or is not a thread's
  | _ =>
      first
        | (obtain ⟨j, hj⟩ := hof; cases hj; done)
        | (cases hof; done)
        | cases hk

section Rank
variable {v : Version} {s : State}

theorem rank_kconfig {u : Task} (h : (s.loc u).inSetMode = true) :
    rank s (.lock .kconfig) = 0 :=
  if_pos ⟨u, h⟩

/-- A call that waits for a lock. -/
theorem rank_lock (h : ReachWhen v StopsPast s) {t : Task} {l l' : SpinLock} {k : Pc}
    (hq : s.loc t = .lock l k) (hl : l' ∈ (Pc.lock l k).held) :
    rank s (.lock l') < rank s (.lock l) := by
  have ho := reach_ordered (fun _ _ _ hC => hC.noEnable) h t
  rw [hq] at ho
  rcases ho.1 (List.ne_nil_of_mem hl) with ⟨rfl, rfl⟩ | ⟨rfl, rfl⟩
  · have hset : (s.loc t).inSetMode = true := by
      rw [hq]
      rfl
    rw [List.mem_singleton.mp hl, rank_kconfig hset]
    exact Nat.zero_lt_one
  · rw [List.mem_singleton.mp hl]
    exact Nat.lt_of_sub_eq_succ rfl

/-- A thread that is waited for and waits for a lock itself. -/
theorem rank_thread (h : ReachWhen v StopsPast s) {n : Nat} {l : SpinLock} {k : Pc} {u : Task}
    (hq : s.loc (.thread n) = .lock l k) (hu : (s.loc u).stops = some n) :
    rank s (.thread n) < rank s (.lock l) := by
  have hw := (reach_owns h (.thread n)).wf
  have ho := reach_ordered (fun _ _ _ hC => hC.noEnable) h (.thread n)
  have hof := reach_of h (.thread n)
  rw [hq] at hw ho hof
  obtain ⟨hkt, hkc⟩ := lock_of_thread hw ho hof
  cases l with
  | kthread => exact absurd rfl hkt
  | kconfig =>
      by_cases hset : ∃ u, (s.loc u).inSetMode = true
      · obtain ⟨u', hu'⟩ := hset
        have hp := reach_stoppedPast h u u' n hu hu'
        rw [hq, hkc rfl] at hp
        cases hp
      · have hr : rank s (.lock .kconfig) = 4 := if_neg hset
        rw [hr]
        exact Nat.lt_of_sub_eq_succ rfl
  | irqDone => exact Nat.lt_succ_self 2
  | ongoing => exact Nat.lt_succ_self 2
  | cirBuf => exact Nat.lt_succ_self 2

/-- A call that waits for a thread. -/
theorem rank_stopWait {t : Task} {k : Keeper} {n : Nat} {l : SpinLock}
    (hq : s.loc t = .stopWait k n) (hl : l ∈ k.held) :
    rank s (.lock l) < rank s (.thread n) := by
  have hk : l = .kthread ∨ l = .kconfig := by
    cases k <;> simp_all [Keeper.held]
  rcases hk with rfl | rfl
  · exact Nat.lt_succ_self 1
  · have hset : (s.loc t).inSetMode = true := by
      rw [hq]
      exact decide_eq_true hl
    rw [rank_kconfig hset]
    exact Nat.zero_lt_two

theorem rank_ordered (h : ReachWhen v StopsPast s) :
    LockOrder.Ordered (rank s) (fun t => (s.loc t).waitsOn) (HoldsAwaited s) := by
  intro t r r' hr hh
  change (s.loc t).waitsOn = some r at hr
  have hown := reach_owns h t
  have hof := reach_of h t
  cases hq : s.loc t with
  | lock l k =>
      rw [hq] at hr hown
      cases hr
      cases r' with
      | lock l' => exact rank_lock h hq ((hown.holds l').mp hh)
      | thread n =>
          obtain ⟨rfl, u, hu⟩ := hh
          exact rank_thread h hq hu
  | stopWait k n =>
      rw [hq] at hr hown hof
      cases hr
      cases r' with
      | lock l' => exact rank_stopWait hq ((hown.holds l').mp hh)
      | thread j =>
          obtain ⟨rfl, -⟩ := hh
          obtain ⟨i, hi⟩ := hof
          cases hi
  | _ =>
      rw [hq] at hr
      cases hr

/-- The thread that is stopped holds its own end, so a lock between the two closes a
    circle. -/
theorem DeadlockFree.of_acyclic (h : ∀ t, ¬ Relation.TransGen (Waits s) t t) :
    DeadlockFree s := by
  refine ⟨fun t k n l k' ht hn hl => h t ?_, h⟩
  have h1 : Waits s t (.thread n) := by
    refine ⟨.thread n, ?_, rfl, ?_⟩
    · show (s.loc t).waitsOn = _
      rw [ht]
      rfl
    · rw [hn]
      exact nofun
  have h2 : Waits s (.thread n) t := by
    refine ⟨.lock l, ?_, hl⟩
    show (s.loc (.thread n)).waitsOn = _
    rw [hn]
    rfl
  exact .tail (.single h1) h2

end Rank

/-- **NO DEADLOCK**: in a run whose stops and whose SETMODEs meet past threads only,
    nobody ever waits in a circle. -/
theorem stop_deadlock_free {s : State} (h : ReachWhen .sysfs StopsPast s) : DeadlockFree s := by
  refine DeadlockFree.of_acyclic fun t hc => ?_
  refine LockOrder.not_transGen_self (rank_ordered h) t ?_
  exact Relation.TransGen.mono (fun _ _ hw => waits_awaited hw) _ _ hc

/-! ## Two stops -/

def noEnable : Act → Bool
  | .call (.enable _ _) => false
  | _ => true

theorem noEnable_of_test {s : State} {t : Task} {a : Act} (h : noEnable a = true) :
    NoEnable s t a := by
  rintro ret value rfl
  cases h

/-- SETMODE to periodic and a write of 1; the thread runs up to its first `do_send`. -/
def threadRuns : List (Task × Act) :=
  (.caller 0, .call (.setMode (some ⟨HcSr04.periodic, 1⟩))) :: List.replicate 6 (.caller 0, .run)
    ++ (.caller 0, .call (.write 1)) :: List.replicate 8 (.caller 0, .run)
    ++ List.replicate 5 (.thread 0, .run)

/-- SETMODE to one-shot, up to the wait in `kthread_stop`. -/
def threadStopped : List (Task × Act) :=
  (.caller 0, .call (.setMode (some ⟨HcSr04.oneShot, 1⟩))) :: List.replicate 5 (.caller 0, .run)

/-- The thread stands in front of `kconfig_lock`, and SETMODE, which holds it, waits for
    the thread. -/
def stoppedInSend : State :=
  scheduled .sysfs [.caller 0, .thread 0] (fun _ _ a => noEnable a) (threadRuns ++ threadStopped)

/-- The condition, tested on the tasks of the run. -/
def stopsPast (s : State) (t : Task) (a : Act) : Bool :=
  noEnable a && match s.loc t with
    | .stopThread _ n => (s.loc (.thread n)).past
    | .lock .kconfig (.setMode _) =>
        [Task.caller 0, .thread 0, .irq].all fun u => (s.loc u).stops.isNone
    | _ => true

theorem stopsPast_of_test {s : State} {t : Task} {a : Act}
    (ho : Among [.caller 0, .thread 0, .irq] State.initial s) (h : stopsPast s t a = true) :
    StopsPast s t a := by
  obtain ⟨hne, h⟩ := Bool.and_eq_true_iff.mp h
  refine ⟨noEnable_of_test hne, ?_, ?_⟩
  · intro k n u _ hq _
    rw [hq] at h
    exact h
  · intro w u n _ hq hn
    rw [hq] at h
    have h0 : ∀ u, (State.initial.loc u).stops.isNone = true := by
      intro u
      cases u <;> rfl
    have := ho.forall (f := fun q => q.stops.isNone) h h0 u
    rw [hn] at this
    cases this

/-- The thread has had its echo and sleeps when it is stopped. -/
def stoppedAsleep : State :=
  scheduled .sysfs [.caller 0, .thread 0, .irq] stopsPast
    (threadRuns ++ List.replicate 9 (.thread 0, .run)
      ++ (.irq, .fire) :: List.replicate 12 (.irq, .run)
      ++ List.replicate 3 (.thread 0, .run) ++ threadStopped)

theorem stop_deadlock_free_asleep :
    (ReachWhen .sysfs StopsPast stoppedAsleep
      ∧ stoppedAsleep.loc (.caller 0) = .stopWait .halt 0
      ∧ stoppedAsleep.loc (.thread 0) = .sleep 0)
      ∧ DeadlockFree stoppedAsleep := by
  have hr : ReachWhen .sysfs StopsPast stoppedAsleep := by
    refine reach_scheduled .sysfs ?_ _
    exact fun _ _ _ ho hok => stopsPast_of_test ho hok
  exact ⟨⟨hr, by decide⟩, stop_deadlock_free hr⟩

theorem stops_deadlock : ¬ ∀ s, ReachWhen .sysfs NoEnable s → DeadlockFree s := by
  intro h
  have hr : ReachWhen .sysfs NoEnable stoppedInSend := by
    refine reach_scheduled .sysfs ?_ _
    exact fun _ _ _ _ hok => noEnable_of_test hok
  exact (h stoppedInSend hr).stop (.caller 0) .halt 0 .kconfig (.readPin ⟨.thread 0, 3, 1⟩)
    (by decide) (by decide) (by decide)

end HcSr04Machine
