import KernelRocks.HcSr04MachineProofs

/-! # Distances — every sample from its own pulse

    `send` claims the device, `do_send` records `kstart` some turns later, and
    the interrupt subtracts whatever `kstart` it finds from its own clock, in 32
    bits.  A distance is measured when that `kstart` was recorded in the session
    in which the interrupt was accepted, and the difference fits.

    * `distances_own`: this holds of every sample ever stored in a run where the
      interrupt is accepted only after the pulse, `kstart` is not overwritten from
      another session under a running handler, and no echo takes 2^32 ns.
    * `distance_of_no_pulse`: an echo between the claim and the pulse is measured
      from a `kstart` nobody recorded. -/

namespace HcSr04Machine

open Interleaving
open HcSr04 (SpinLock Version)

/-! ## Measured samples -/

/-- The sample was accepted in a session, `kstart` was recorded by a `do_send` of
    that session, and the distance is the exact quotient. -/
structure Sample.Own (x : Sample) : Prop where
  claimed : 0 < x.session
  stamped : x.stampedBy = x.session
  order : x.kstart ≤ x.kend
  exact : x.distance = (x.kend - x.kstart) / 5800

/-- The session of an interrupt that has been accepted and has not yet read
    `kstart`. -/
def Pc.accepted : Pc → Option Nat
  | .lock _ k | .unlock _ k => k.accepted
  | .irqClock n | .irqDiff n _ => some n
  | _ => none

/-- The time at which it has read the clock. -/
def Pc.kend : Pc → Option Nat
  | .lock _ k | .unlock _ k => k.kend
  | .irqDiff _ kend => some kend
  | _ => none

/-- What the turns must avoid: an echo accepted before the pulse of its session; a
    `kstart` written under an accepted echo by another session, or read from the
    clock after it; an echo of 2^32 ns. -/
structure Measures (s : State) (t : Task) (a : Act) : Prop where
  pulse : a = .run → s.loc t = .irqTest → s.mem.ongoing = true →
    s.mem.stampedBy = s.mem.claims
  session : ∀ p now n, a = .run → s.loc t = .stamp p now → (s.loc .irq).accepted = some n →
    p.session = n
  before : ∀ p now kend, a = .run → s.loc t = .stamp p now → (s.loc .irq).kend = some kend →
    now ≤ kend
  fits : ∀ n kend, a = .run → s.loc t = .irqDiff n kend → kend - s.mem.kstart < 2 ^ 32

theorem distance_eq {kend kstart : Nat} (h : kstart ≤ kend) (hf : kend - kstart < 2 ^ 32) :
    distance kend kstart = (kend - kstart) / 5800 := by
  have hd : ((kend : Int) - kstart) % 2 ^ 32 = ((kend - kstart : Nat) : Int) := by
    rw [← Int.natCast_sub h]
    exact Int.emod_eq_of_lt (Int.natCast_nonneg _) (by exact_mod_cast hf)
  rw [distance, hd, Int.toNat_natCast]

/-! ## What a turn does to the stamps -/

section Turns
variable {v : Version} {t : Task} {m m' : Mem} {q q' : Pc} {a : Act}

theorem next_kstart (h : next v t m q = some (m', q')) :
    (m'.kstart = m.kstart ∧ m'.stampedBy = m.stampedBy)
      ∨ ∃ p now, q = .stamp p now ∧ m'.kstart = now ∧ m'.stampedBy = p.session := by
  cases q with
  | stamp p now =>
      cases h
      exact .inr ⟨p, now, rfl, rfl, rfl⟩
  | _ =>
      refine .inl ?_
      simp only [next] at h
      repeat' split at h
      all_goals cases h
      all_goals exact ⟨rfl, rfl⟩

theorem next_stored (h : next v t m q = some (m', q')) :
    m'.clock = m.clock
      ∧ (m'.stored = m.stored ∨ ∃ x, q = .irqData x ∧ m'.stored = x :: m.stored) := by
  cases q with
  | irqData x =>
      cases h
      exact ⟨rfl, .inr ⟨x, rfl, rfl⟩⟩
  | _ =>
      refine ⟨?_, .inl ?_⟩
      all_goals simp only [next] at h
      all_goals repeat' split at h
      all_goals cases h
      all_goals rfl

/-- ONGOING comes with a claim. -/
theorem next_claims (h : next v t m q = some (m', q')) (hm : m.ongoing = true → 0 < m.claims) :
    m'.ongoing = true → 0 < m'.claims := by
  cases q with
  | sendTest b =>
      rw [next] at h
      split at h
      · cases h
        exact hm
      · cases h
        exact fun _ => Nat.succ_pos _
  | _ =>
      simp only [next] at h
      repeat' split at h
      all_goals cases h
      all_goals first | exact hm | rintro ⟨⟩

end Turns

/-! ## The invariant -/

/-- The clock has passed `kstart`, and every stored sample is measured. -/
structure Recorded (m : Mem) : Prop where
  past : m.kstart ≤ m.clock
  claimed : m.ongoing = true → 0 < m.claims
  own : ∀ x ∈ m.stored, x.Own

/-- What is known at the places between the clock and the buffer. -/
def Measured (m : Mem) : Pc → Prop
  | .lock _ k | .unlock _ k => Measured m k
  | .stamp _ now => now ≤ m.clock
  | .irqClock n => 0 < n ∧ m.stampedBy = n
  | .irqDiff n kend => 0 < n ∧ m.stampedBy = n ∧ m.kstart ≤ kend
  | .irqNewest x | .irqData x => x.Own
  | _ => True

section Invariant
variable {v : Version} {s : State} {t u : Task} {m' : Mem} {q' : Pc} {a : Act}

theorem Recorded.exec (hI : Recorded s.mem) (hP : Measured s.mem (s.loc t))
    (h : exec v t s.mem (s.loc t) a = some (m', q')) : Recorded m' := by
  rcases exec_cases h with ⟨-, h⟩ | ⟨c, n, -, -, -, -, rfl, -⟩ | ⟨-, -, -, rfl, -⟩
    | ⟨ns, -, rfl, -⟩
  · obtain ⟨hclock, hst⟩ := next_stored h
    refine ⟨?_, next_claims h hI.claimed, ?_⟩
    · rw [hclock]
      rcases next_kstart h with ⟨hk, -⟩ | ⟨p, now, hq, hk, -⟩
      · rw [hk]
        exact hI.past
      · rw [hq] at hP
        rw [hk]
        exact hP
    · rcases hst with hst | ⟨x, hq, hst⟩
      · rw [hst]
        exact hI.own
      · rw [hq] at hP
        rw [hst]
        intro y hy
        rcases List.mem_cons.mp hy with rfl | hy
        · exact hP
        · exact hI.own y hy
  · exact hI
  · exact hI
  · exact ⟨Nat.le_add_right_of_le hI.past, hI.claimed, hI.own⟩

theorem measured_back (m : Mem) (b : Back) : Measured m b.pc := by
  cases b <;> trivial

theorem measured_doSend (m : Mem) (p : Pulse) : Measured m (doSend v p) := by
  cases v <;> trivial

theorem measured_retry (m : Mem) (p : Pulse) : Measured m (retry v p) := by
  unfold retry
  split
  · trivial
  · exact measured_doSend m _

theorem measured_keeper (m : Mem) (k : Keeper) :
    Measured m k.cleared ∧ Measured m k.started ∧ Measured m k.flagged := by
  cases k <;> exact ⟨trivial, trivial, trivial⟩

theorem measured_entry (m : Mem) (c : Call) : Measured m c.entry := by
  rcases entry_cases c with h | h | ⟨act, h⟩ | ⟨w, -, h⟩ | ⟨_, _, -, h | h⟩ <;> rw [h] <;> trivial

/-- What is known at a place outlasts time, and a stamp that fits. -/
theorem Measured.frame {m m' : Mem} {q : Pc} (h : Measured m q) (hc : m.clock ≤ m'.clock)
    (hs : ∀ n, q.accepted = some n → m.stampedBy = n → m'.stampedBy = n)
    (hk : ∀ kend, q.kend = some kend → m.kstart ≤ kend → m'.kstart ≤ kend) :
    Measured m' q := by
  induction q with
  | lock l k ih => exact ih h hs hk
  | unlock l k ih => exact ih h hs hk
  | stamp p now => exact Nat.le_trans h hc
  | irqClock n => exact ⟨h.1, hs n rfl h.2⟩
  | irqDiff n kend => exact ⟨h.1, hs n rfl h.2.1, hk kend rfl h.2.2⟩
  | irqNewest x => exact h
  | irqData x => exact h
  | _ => trivial

theorem accepted_of_kend {q : Pc} {kend : Nat} (h : q.kend = some kend) :
    ∃ n, q.accepted = some n := by
  induction q with
  | lock l k ih => exact ih h
  | unlock l k ih => exact ih h
  | irqDiff n kend' => exact ⟨n, rfl⟩
  | _ => cases h

/-- Only the interrupt is accepted. -/
theorem of_accepted {q : Pc} {n : Nat} (ho : q.of u) (h : q.accepted = some n) : u = .irq := by
  induction q with
  | lock l k ih => exact ih ho h
  | unlock l k ih => exact ih ho h
  | irqClock n => exact ho
  | irqDiff n kend => exact ho
  | _ => cases h

/-- Taking or releasing a lock moves no stamp. -/
theorem measured_setHolder {m : Mem} {l : SpinLock} {o : Option Task} {q : Pc} :
    Measured (m.setHolder l o) q ↔ Measured m q := by
  induction q with
  | lock l' k ih => exact ih
  | unlock l' k ih => exact ih
  | _ => exact Iff.rfl

/-- The handler's places are reached only through the handler's turns. -/
theorem Measured.next (hI : Recorded s.mem) (hC : Measures s t .run)
    (hP : Measured s.mem (s.loc t)) (h : next v t s.mem (s.loc t) = some (m', q')) :
    Measured m' q' := by
  cases hq : s.loc t with
  | clock p =>
      rw [hq] at h
      cases h
      exact Nat.le_refl _
  | irqTest =>
      rw [hq] at h
      cases h
      show Measured s.mem (if s.mem.ongoing then .irqClock _ else _)
      split
      · rename_i hg
        exact ⟨hI.claimed hg, hC.pulse rfl hq hg⟩
      · trivial
  | irqClock n =>
      rw [hq] at h hP
      cases h
      exact ⟨hP.1, hP.2, hI.past⟩
  | irqDiff n kend =>
      rw [hq] at h hP
      cases h
      obtain ⟨hn, hst, hk⟩ := hP
      exact ⟨hn, hst, hk, distance_eq hk (hC.fits n kend rfl hq)⟩
  | irqNewest x =>
      rw [hq] at h hP
      cases h
      exact hP
  | lock l k =>
      rw [hq] at h hP
      obtain ⟨-, rfl, rfl⟩ := next_lock h
      exact measured_setHolder.mpr hP
  | unlock l k =>
      rw [hq] at h hP
      cases h
      exact measured_setHolder.mpr hP
  | _ =>
      rw [hq] at h
      simp only [HcSr04Machine.next] at h
      repeat' split at h
      all_goals cases h
      all_goals first
        | trivial
        | exact measured_back _ _
        | exact measured_doSend _ _
        | exact measured_retry _ _
        | exact (measured_keeper _ _).1
        | exact (measured_keeper _ _).2.1
        | exact (measured_keeper _ _).2.2

theorem Measured.exec (hI : Recorded s.mem) (hC : Measures s t a)
    (hP : Measured s.mem (s.loc t)) (h : exec v t s.mem (s.loc t) a = some (m', q')) :
    Measured m' q' := by
  rcases exec_cases h with ⟨rfl, h⟩ | ⟨c, n, -, -, -, -, rfl, rfl⟩ | ⟨-, -, -, rfl, rfl⟩
    | ⟨ns, -, rfl, rfl⟩
  · exact Measured.next hI hC hP h
  · exact measured_entry _ c
  · trivial
  · exact hP.frame (Nat.le_add_right _ ns) (fun _ _ h => h) (fun _ _ h => h)

/-- The turn of another task leaves the clock, and writes `kstart` only as the
    condition allows. -/
theorem Measured.other (hof : (s.loc u).of u) (hC : Measures s t a)
    (hP : Measured s.mem (s.loc u))
    (h : HcSr04Machine.exec v t s.mem (s.loc t) a = some (m', q')) :
    Measured m' (s.loc u) := by
  rcases exec_cases h with ⟨rfl, h⟩ | ⟨c, n, -, -, -, -, rfl, -⟩ | ⟨-, -, -, rfl, -⟩
    | ⟨ns, -, rfl, -⟩
  · have hclock := (next_stored h).1
    rcases next_kstart h with ⟨hk, hst⟩ | ⟨p, now, hq, hk, hst⟩
    · refine hP.frame (Nat.le_of_eq hclock.symm) ?_ ?_
      · intro n _ hn
        rw [hst, hn]
      · intro kend _ hle
        rw [hk]
        exact hle
    · refine hP.frame (Nat.le_of_eq hclock.symm) ?_ ?_
      · intro n hn _
        have hu := of_accepted hof hn
        subst hu
        rw [hst]
        exact hC.session p now n rfl hq hn
      · intro kend hn _
        have hu := of_accepted hof (accepted_of_kend hn).choose_spec
        subst hu
        rw [hk]
        exact hC.before p now kend rfl hq hn
  · exact hP
  · exact hP
  · exact hP.frame (Nat.le_add_right _ ns) (fun _ _ h => h) (fun _ _ h => h)

end Invariant

theorem reach_recorded {v : Version} {s : State} (h : ReachWhen v Measures s) :
    Recorded s.mem ∧ ∀ t, Measured s.mem (s.loc t) := by
  refine Reach.modular (I := Recorded) (P := fun _ => Measured) ?_ ?_ ?_ h
  · refine ⟨⟨Nat.le_refl _, nofun, nofun⟩, fun t => ?_⟩
    cases t <;> trivial
  · intro s t a m' q' _ hC hI hP he
    exact ⟨hI.exec hP he, Measured.exec hI hC hP he⟩
  · intro s t u a m' q' hr hC _ _ _ hP he
    exact Measured.other (reach_of hr u) hC hP he

/-- **OWN PULSE**: every distance ever stored was measured from a pulse of the
    session in which the interrupt was accepted. -/
theorem distances_own {s : State} (h : ReachWhen .misc Measures s) :
    ∀ x ∈ s.mem.stored, x.Own :=
  (reach_recorded h).1.own

/-! ## A reader and two echoes -/

/-- The condition, tested: here no `kstart` is written under an accepted echo. -/
def measures (s : State) (t : Task) (_ : Act) : Bool :=
  match s.loc t with
  | .irqTest => !s.mem.ongoing || decide (s.mem.stampedBy = s.mem.claims)
  | .stamp _ _ => (s.loc .irq).accepted.isNone
  | .irqDiff _ kend => decide (kend - s.mem.kstart < 2 ^ 32)
  | _ => true

theorem measures_of_test {s : State} {t : Task} {a : Act} (h : measures s t a = true) :
    Measures s t a := by
  refine ⟨?_, ?_, ?_, ?_⟩
  · intro _ hq hg
    simpa [measures, hq, hg] using h
  · intro p now n _ hq hn
    simp [measures, hq, hn] at h
  · intro p now kend _ hq hk
    obtain ⟨n, hn⟩ := accepted_of_kend hk
    simp [measures, hq, hn] at h
  · intro n kend _ hq
    simpa [measures, hq] using h

/-- The pulse goes out, 580 microseconds pass, and the echo is stored. -/
def echoAfterPulse : State :=
  scheduled .misc [.caller 0, .irq] measures
    ((.caller 0, .call .read) :: List.replicate 15 (.caller 0, .run)
      ++ (.irq, .tick 580000) :: (.irq, .fire) :: List.replicate 8 (.irq, .run))

theorem distances_own_after_pulse :
    (ReachWhen .misc Measures echoAfterPulse
      ∧ echoAfterPulse.mem.stored = [⟨1, 1, 0, 580000, 100⟩])
      ∧ ∀ x ∈ echoAfterPulse.mem.stored, x.Own := by
  have hr : ReachWhen .misc Measures echoAfterPulse := by
    refine reach_scheduled .misc ?_ _
    intro s t a _ hok
    exact measures_of_test hok
  exact ⟨⟨hr, by decide⟩, distances_own hr⟩

/-- The echo comes when the device has been claimed and no pulse has gone out. -/
def echoBeforePulse : State :=
  scheduled .misc [.caller 0, .irq] (fun _ _ _ => true)
    ((.caller 0, .call .read) :: List.replicate 9 (.caller 0, .run)
      ++ (.irq, .tick 580000) :: (.irq, .fire) :: List.replicate 8 (.irq, .run))

theorem distance_of_no_pulse :
    ¬ ∀ s, ReachWhen .misc Free s → ∀ x ∈ s.mem.stored, x.Own := by
  intro h
  have hr : ReachWhen .misc Free echoBeforePulse := by
    refine reach_scheduled .misc ?_ _
    exact fun _ _ _ _ _ => trivial
  have hx : ⟨1, 0, 0, 580000, 100⟩ ∈ echoBeforePulse.mem.stored := by decide
  exact nomatch (h _ hr _ hx).stamped

end HcSr04Machine
