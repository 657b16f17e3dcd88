import KernelRocks.HcSr04MachineProofs

/-! # The echo interrupt on one CPU

    `echo_recv_isr` takes `ongoing_lock` and `cir_buf_lock` with a plain
    `spin_lock`, and so does the code it interrupts, with interrupts enabled.
    On one CPU the interrupted code moves again only when the handler has
    returned, so a lock it holds is never released under the handler.

    * `spins_under_reader`: the interrupt between two turns of `hc_sr04_read`
      spins on the lock that call holds.
    * `echo_never_spins`: it never does in a run where the echo only comes while
      `ongoing_lock` is free, and while `cir_buf_lock` is free unless the device
      is STOPPING.
    * `fire_clear_iff`: no weaker condition on the moment of the echo is enough. -/

namespace HcSr04Machine

open Interleaving
open HcSr04 (SpinLock Version)

/-- One CPU: while the interrupt is handled nothing else moves. -/
def OneCpu (s : State) (t : Task) (_ : Act) : Prop := t ≠ .irq → s.loc .irq = .idle

/-- The interrupt does not spin on a lock that the code it interrupted holds. -/
def NoSpin (s : State) : Prop :=
  ∀ l k t, s.loc .irq = .lock l k → t ≠ .irq → s.mem.holder l ≠ some t

/-- The echo may come: the locks the handler will take are free. -/
def Mem.clear (m : Mem) : Prop :=
  m.holder .ongoing = none ∧ (m.holder .cirBuf = none ∨ m.ongoing = false)

def FiresClear (s : State) (t : Task) (a : Act) : Prop :=
  OneCpu s t a ∧ (a = .fire → s.mem.clear)

/-! ## The handler on its own -/

/-- What is known of the locks at a place of the handler. -/
def Handling (m : Mem) : Pc → Prop
  | .idle => True
  | .lock .ongoing .irqTest => m.clear
  | .irqTest => m.holder .cirBuf = none ∨ m.ongoing = false
  | .unlock .ongoing (.irqClock _) => m.holder .cirBuf = none
  | .irqClock _ | .irqDiff _ _ => m.holder .ongoing = none ∧ m.holder .cirBuf = none
  | .lock .cirBuf (.irqNewest _) => m.holder .ongoing = none ∧ m.holder .cirBuf = none
  | .irqNewest _ | .irqData _ => m.holder .ongoing = none
  | .unlock .cirBuf (.lock .ongoing .irqStop) => m.holder .ongoing = none
  | .unlock .ongoing (.lock .ongoing .irqStop) => True
  | .lock .ongoing .irqStop => m.holder .ongoing = none
  | .irqStop | .unlock .ongoing .idle => True
  | _ => False

theorem Handling.free {m : Mem} {l : SpinLock} {k : Pc} (h : Handling m (.lock l k)) :
    m.holder l = none := by
  unfold Handling at h
  split at h
  all_goals simp_all [Mem.clear]

theorem Handling.next {v : Version} {m m' : Mem} {q q' : Pc} (h : Handling m q)
    (hs : next v .irq m q = some (m', q')) : Handling m' q' := by
  unfold Handling at h
  split at h
  all_goals simp only [HcSr04Machine.next] at hs
  all_goals repeat' split at hs
  all_goals cases hs
  all_goals simp_all [Handling, Mem.clear, Mem.setHolder]

theorem Handling.noSpin {s : State} (h : Handling s.mem (s.loc .irq)) : NoSpin s := by
  intro l k t hq _
  rw [hq] at h
  rw [h.free]
  exact nofun

theorem Handling.exec {m m' : Mem} {q q' : Pc} {a : Act} (h : Handling m q)
    (hf : a = .fire → m.clear) (hs : exec .misc .irq m q a = some (m', q')) : Handling m' q' := by
  rcases exec_cases hs with ⟨-, hs⟩ | ⟨c, n, -, hn, -⟩ | ⟨rfl, -, -, rfl, rfl⟩ | ⟨ns, -, rfl, rfl⟩
  · exact h.next hs
  · cases hn
  · exact hf rfl
  · exact h

/-- **NO SPIN**: the echo that comes while the locks of the handler are free never
    finds one of them held by the code it interrupted. -/
theorem echo_never_spins {s : State} (h : ReachWhen .misc FiresClear s) : NoSpin s := by
  refine Handling.noSpin ?_
  refine Reach.invariant (I := fun s : State => Handling s.mem (s.loc .irq)) ?_ ?_ h
  · exact trivial
  · intro s s' t a _ hI ⟨hcpu, hfire⟩ hs
    obtain ⟨m', q', he, rfl⟩ := turn_eq_some hs
    by_cases ht : t = .irq
    · subst ht
      show Handling m' (Function.update s.loc .irq q' .irq)
      rw [Function.update_self]
      exact hI.exec hfire he
    · -- another task moves only while no interrupt is handled
      show Handling m' (Function.update s.loc t q' .irq)
      rw [Function.update_of_ne (Ne.symm ht), hcpu ht]
      trivial

/-! ## When the echo may come -/

/-- What the handler does on its own. -/
def Handles : Mem × Pc → Mem × Pc → Prop :=
  Relation.ReflTransGen fun x y => next .misc .irq x.1 x.2 = some y

theorem Handling.handles {x y : Mem × Pc} (h : Handling x.1 x.2) (hs : Handles x y) :
    Handling y.1 y.2 := by
  induction hs with
  | refl => exact h
  | tail _ hn ih => exact ih.next hn

/-- The handler's way to its second lock. -/
theorem handles_cirBuf {m : Mem} (ho : m.holder .ongoing = none) (hg : m.ongoing = true) :
    ∃ m' x, Handles (m, .lock .ongoing .irqTest) (m', .lock .cirBuf (.irqNewest x))
      ∧ m'.holder .cirBuf = m.holder .cirBuf := by
  let m1 := m.setHolder .ongoing (some .irq)
  let m2 := m1.setHolder .ongoing none
  have h1 : next .misc .irq m (.lock .ongoing .irqTest) = some (m1, .irqTest) := if_pos ho
  have h2 : next .misc .irq m1 .irqTest = some (m1, .unlock .ongoing (.irqClock m.claims)) := by
    show some (m1, Pc.unlock .ongoing (if m.ongoing then _ else _)) = _
    rw [if_pos hg]
    rfl
  have h3 : next .misc .irq m1 (.unlock .ongoing (.irqClock m.claims))
      = some (m2, .irqClock m.claims) := rfl
  have h4 : next .misc .irq m2 (.irqClock m.claims)
      = some (m2, .irqDiff m.claims m2.clock) := rfl
  refine ⟨m2, ⟨m.claims, m2.stampedBy, m2.kstart, m2.clock, distance m2.clock m2.kstart⟩,
    ?_, ?_⟩
  · exact .tail (.tail (.tail (.tail (.single h1) h2) h3) h4) rfl
  · rw [setHolder_holder_of_ne _ _ (by decide), setHolder_holder_of_ne _ _ (by decide)]

/-- **EXACTNESS**: the handler, on its own, finds the locks it takes free if and only
    if the echo comes while they are. -/
theorem fire_clear_iff (m : Mem) :
    (∀ m' l k, Handles (m, .lock .ongoing .irqTest) (m', .lock l k) → m'.holder l = none)
      ↔ m.clear := by
  constructor
  · intro h
    have ho := h m _ _ .refl
    refine ⟨ho, ?_⟩
    by_cases hg : m.ongoing = true
    · obtain ⟨m', x, hs, hm⟩ := handles_cirBuf ho hg
      exact .inl (hm ▸ h m' _ _ hs)
    · exact .inr (Bool.eq_false_iff.mpr hg)
  · intro h m' l k hs
    have hh : Handling m (.lock .ongoing .irqTest) := h
    exact (Handling.handles (x := (m, _)) hh hs).free

/-! ## Two runs of `hc_sr04_read` -/

instance (m : Mem) : Decidable m.clear :=
  inferInstanceAs (Decidable (_ ∧ _))

/-- The run of a reader and the echo in which every turn passes the test. -/
def readAndEcho (ok : State → Task → Act → Bool) (sched : List (Task × Act)) : State :=
  scheduled .misc [.caller 0, .irq]
    (fun s t a => (decide (t = .irq) || decide (s.loc .irq = .idle)) && ok s t a) sched

theorem readAndEcho_oneCpu {ok : State → Task → Act → Bool} {C : State → Task → Act → Prop}
    (hok : ∀ s t a, OneCpu s t a → ok s t a = true → C s t a) (sched : List (Task × Act)) :
    ReachWhen .misc C (readAndEcho ok sched) := by
  refine reach_scheduled .misc ?_ sched
  intro s t a _ hta
  obtain ⟨hcpu, hta⟩ := Bool.and_eq_true_iff.mp hta
  refine hok s t a (fun ht => ?_) hta
  rcases Bool.or_eq_true_iff.mp hcpu with h | h
  · exact absurd (of_decide_eq_true h) ht
  · exact of_decide_eq_true h

/-- The reader has claimed the device, the echo comes and is handled up to the
    second lock. -/
def echoAnswered : State :=
  readAndEcho (fun s _ a => decide (a = .fire → s.mem.clear))
    ((.caller 0, .call .read) :: List.replicate 9 (.caller 0, .run)
      ++ (.irq, .fire) :: List.replicate 5 (.irq, .run))

theorem echo_never_spins_answered :
    (ReachWhen .misc FiresClear echoAnswered
      ∧ (echoAnswered.loc .irq).spinsOn = some .cirBuf) ∧ NoSpin echoAnswered := by
  have hr : ReachWhen .misc FiresClear echoAnswered :=
    readAndEcho_oneCpu (fun s t a hcpu hok => ⟨hcpu, of_decide_eq_true hok⟩) _
  exact ⟨⟨hr, by decide⟩, echo_never_spins hr⟩

/-- The reader is inside its first section on `ongoing` when the echo comes. -/
def echoInSection : State :=
  readAndEcho (fun _ _ _ => true)
    ((.caller 0, .call .read) :: List.replicate 4 (.caller 0, .run) ++ [(.irq, .fire)])

theorem spins_under_reader : ¬ ∀ s, ReachWhen .misc OneCpu s → NoSpin s := by
  intro h
  have hr : ReachWhen .misc OneCpu echoInSection :=
    readAndEcho_oneCpu (fun s t a hcpu _ => hcpu) _
  exact h echoInSection hr .ongoing .irqTest (.caller 0) (by decide) (by decide) (by decide)

end HcSr04Machine
