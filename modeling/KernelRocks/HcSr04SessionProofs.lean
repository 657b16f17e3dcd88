import KernelRocks.HcSr04MachineProofs

/-! # Measurement sessions — the flag `ongoing` as a lock

    A `send` that finds STOPPING sets ONGOING and has a session until it
    returns.  The flag would exclude a second session if only its owner cleared
    it.  The interrupt, the time-out and the stop branch of `hc_sr04_write` clear
    it as well, and the owner goes on: it polls again, tries again, returns.

    WINDOW: the flag is STOPPING and a session has not returned.

    * `window_opens`: only those three stores open one.
    * `sessions_exclusive`: in a run where no `send` tests the flag inside a
      window there is at most one session, and the first test inside a window
      is the end of that.
    * `two_sessions`: the interrupt's store and the test of another call are
      enough. -/

namespace HcSr04Machine

open Interleaving
open HcSr04 (SpinLock oneShot Version)

/-! ## Sessions -/

/-- A `send` between its claim and its return. -/
def Pc.inSession : Pc → Bool
  | .lock _ k | .unlock _ k => k.inSession
  | .readPin _ | .pulse _ | .clock _ | .stamp _ _ | .pollFirst _ | .count _ _ | .poll _ _
  | .timeOut _ | .sendReturn _ => true
  | _ => false

/-- The loop of `do_send`: the pulse is out, the echo is awaited. -/
def Pc.awaits : Pc → Bool
  | .lock _ k | .unlock _ k => k.awaits
  | .pollFirst _ | .count _ _ | .poll _ _ => true
  | _ => false

/-- At most one session, and nobody overwrites `kstart` under a call that awaits its
    echo. -/
structure Exclusive (s : State) : Prop where
  one : ∀ t u, (s.loc t).inSession = true → (s.loc u).inSession = true → t = u
  kstart : ∀ t u p now, s.loc t = .stamp p now → (s.loc u).awaits = true → t = u

/-- The flag has been cleared under a session that has not returned. -/
def Window (s : State) : Prop := s.mem.ongoing = false ∧ ∃ u, (s.loc u).inSession = true

/-- No `send` tests the flag inside a window. -/
def TestsOutside (s : State) (t : Task) (a : Act) : Prop :=
  ∀ b, s.loc t = .sendTest b → a = .run → ¬ Window s

section Turns
variable {v : Version} {t : Task} {m m' : Mem} {q q' : Pc} {a : Act}

theorem inSession_of_awaits (h : q.awaits = true) : q.inSession = true := by
  induction q with
  | lock l k ih => exact ih h
  | unlock l k ih => exact ih h
  | _ => simp_all [Pc.awaits, Pc.inSession]

theorem inSession_back (b : Back) : b.pc.inSession = false := by
  cases b <;> rfl

theorem inSession_doSend (p : Pulse) : (doSend v p).inSession = true := by
  cases v <;> rfl

theorem inSession_entry (c : Call) : c.entry.inSession = false := by
  rcases entry_cases c with h | h | ⟨act, h⟩ | ⟨w, -, h⟩ | ⟨_, _, -, h | h⟩ <;> rw [h] <;> rfl

/-- A session begins only with a claim. -/
theorem next_inSession (h : next v t m q = some (m', q')) (hq : q'.inSession = true) :
    q.inSession = true ∨ (∃ b, q = .sendTest b ∧ m.ongoing = false) := by
  cases q with
  | sendTest b =>
      rw [next] at h
      split at h
      · cases h
        rw [Pc.inSession, inSession_back] at hq
        cases hq
      · rename_i hg
        exact .inr ⟨b, rfl, Bool.eq_false_iff.mpr hg⟩
  | shotTest b =>
      cases h
      rw [Pc.inSession] at hq
      split at hq
      · rw [inSession_back] at hq
        cases hq
      · cases hq
  | lock l k =>
      obtain ⟨-, rfl, rfl⟩ := next_lock h
      exact .inl hq
  | unlock l k =>
      cases h
      exact .inl hq
  | clearHandle k => cases h; cases k <;> cases hq
  | setHandle k n => cases h; cases k <;> cases hq
  | stopFlag k => cases h; cases k <;> cases hq
  | _ =>
      simp only [next] at h
      repeat' split at h
      all_goals cases h
      all_goals first
        | exact .inl rfl
        | cases hq

theorem exec_inSession (h : exec v t m q a = some (m', q')) (hq : q'.inSession = true) :
    q.inSession = true ∨ (a = .run ∧ ∃ b, q = .sendTest b ∧ m.ongoing = false) := by
  rcases exec_cases h with ⟨ha, h⟩ | ⟨c, n, -, -, -, -, -, rfl⟩ | ⟨-, -, -, -, rfl⟩
    | ⟨ns, -, -, rfl⟩
  · rcases next_inSession h hq with h | h
    · exact .inl h
    · exact .inr ⟨ha, h⟩
  · rw [inSession_entry] at hq
    cases hq
  · cases hq
  · exact .inl hq

end Turns

/-! ## Exclusion -/

section Runs
variable {v : Version} {s s' : State} {t : Task} {a : Act}

/-- Whoever stamps and whoever awaits is in a session. -/
theorem Exclusive.of_one
    (h : ∀ t u, (s.loc t).inSession = true → (s.loc u).inSession = true → t = u) :
    Exclusive s := by
  refine ⟨h, fun t u p now ht hu => h t u ?_ (inSession_of_awaits hu)⟩
  rw [ht]
  rfl

/-- One turn keeps the sessions exclusive exactly if it is no test in a window. -/
theorem Exclusive.turn_iff (he : Exclusive s) (hs : turn (exec v) s t a = some s') :
    Exclusive s' ↔ TestsOutside s t a := by
  obtain ⟨m', q', hx, rfl⟩ := turn_eq_some hs
  constructor
  · rintro ⟨hone, -⟩ b hb rfl ⟨hg, u, hu⟩
    have hut : u ≠ t := by
      rintro rfl
      rw [hb] at hu
      cases hu
    rw [hb] at hx
    simp only [exec, next, hg] at hx
    cases hx
    refine hut (hone u t ?_ ?_)
    · show (Function.update s.loc t _ u).inSession = true
      rw [Function.update_of_ne hut]
      exact hu
    · show (Function.update s.loc t _ t).inSession = true
      rw [Function.update_self]
      exact inSession_doSend _
  · intro hw
    -- the task that moved had its session before, or has just claimed alone
    have key : ∀ u, u ≠ t → q'.inSession = true → (s.loc u).inSession = true → False := by
      intro u hut hq hu
      rcases exec_inSession hx hq with h | ⟨ha, b, hb, hg⟩
      · exact hut (he.one u t hu h)
      · exact hw b hb ha ⟨hg, u, hu⟩
    refine Exclusive.of_one fun t1 u1 h1 h2 => ?_
    change (Function.update s.loc t q' t1).inSession = true at h1
    change (Function.update s.loc t q' u1).inSession = true at h2
    by_cases ht1 : t1 = t
    · by_cases hu1 : u1 = t
      · rw [ht1, hu1]
      · rw [ht1, Function.update_self] at h1
        rw [Function.update_of_ne hu1] at h2
        exact (key u1 hu1 h1 h2).elim
    · rw [Function.update_of_ne ht1] at h1
      by_cases hu1 : u1 = t
      · rw [hu1, Function.update_self] at h2
        exact (key t1 ht1 h2 h1).elim
      · rw [Function.update_of_ne hu1] at h2
        exact he.one t1 u1 h1 h2

theorem reach_exclusive_sessions (h : ReachWhen v TestsOutside s) : Exclusive s := by
  refine Reach.invariant (I := Exclusive) ?_ ?_ h
  · refine Exclusive.of_one fun t u ht _ => ?_
    cases t <;> cases ht
  · intro s s' t a _ he hC hs
    exact (he.turn_iff hs).mpr hC

end Runs

/-- **EXCLUSIVE SESSIONS**: in a run with no test inside a window there is at most one
    session, and whatever is done next there is still at most one unless it is
    such a test. -/
theorem sessions_exclusive {s : State} (h : ReachWhen .misc TestsOutside s) :
    Exclusive s ∧ ∀ t a s', turn (exec .misc) s t a = some s' →
      (Exclusive s' ↔ TestsOutside s t a) := by
  have he := reach_exclusive_sessions h
  exact ⟨he, fun t a s' hs => he.turn_iff hs⟩

/-! ## Where windows come from -/

/-- The stores of STOPPING. -/
def Pc.clears : Pc → Bool
  | .timeOut _ | .stopFlag _ | .irqStop => true
  | _ => false

theorem next_ongoing {v : Version} {t : Task} {m m' : Mem} {q q' : Pc}
    (h : next v t m q = some (m', q')) (hm : m.ongoing = true) (hm' : m'.ongoing = false) :
    q.clears = true := by
  cases q with
  | timeOut p => rfl
  | stopFlag k => rfl
  | irqStop => rfl
  | _ =>
      simp only [next] at h
      repeat' split at h
      all_goals cases h
      all_goals simp_all [Mem.setHolder]

/-- A window is opened by the time-out, the stop branch or the interrupt: a claim
    itself leaves the flag ONGOING. -/
theorem window_opens {v : Version} {s s' : State} {t : Task} {a : Act}
    (hs : turn (exec v) s t a = some s') (h : ¬ Window s) (h' : Window s') :
    a = .run ∧ (s.loc t).clears = true := by
  obtain ⟨m', q', hx, rfl⟩ := turn_eq_some hs
  obtain ⟨hg', u, hu⟩ := h'
  by_cases hg : s.mem.ongoing = true
  · rcases exec_cases hx with ⟨ha, hx⟩ | ⟨c, n, -, -, -, -, rfl, -⟩ | ⟨-, -, -, rfl, -⟩
      | ⟨ns, -, rfl, -⟩
    · exact ⟨ha, next_ongoing hx hg hg'⟩
    · exact absurd hg (Bool.eq_false_iff.mp hg')
    · exact absurd hg (Bool.eq_false_iff.mp hg')
    · exact absurd hg (Bool.eq_false_iff.mp hg')
  · have hg := Bool.eq_false_iff.mpr hg
    change (Function.update s.loc t q' u).inSession = true at hu
    by_cases hut : u = t
    · rw [hut, Function.update_self] at hu
      rcases exec_inSession hx hu with hq | ⟨rfl, b, hb, -⟩
      · exact absurd ⟨hg, t, hq⟩ h
      · rw [hb] at hx
        simp only [exec, next, hg] at hx
        cases hx
        cases hg'
    · rw [Function.update_of_ne hut] at hu
      exact absurd ⟨hg, u, hu⟩ h

/-! ## Two readers and the echo -/

/-- Caller 0 has its pulse out, and the echo is handled. -/
def measured : List (Task × Act) :=
  (.caller 0, .call .read) :: List.replicate 15 (.caller 0, .run)
    ++ (.irq, .fire) :: List.replicate 12 (.irq, .run)

/-- Caller 1 up to its claim. -/
def secondClaim : List (Task × Act) :=
  (.caller 1, .call .read) :: List.replicate 8 (.caller 1, .run)

/-- No test while one of the three is in a session. -/
def testsAlone (s : State) (t : Task) (_ : Act) : Bool :=
  match s.loc t with
  | .sendTest _ => [Task.caller 0, .caller 1, .irq].all fun u => !(s.loc u).inSession
  | _ => true

theorem testsOutside_of_alone {s : State} {t : Task} {a : Act}
    (ho : Among [.caller 0, .caller 1, .irq] State.initial s) (h : testsAlone s t a = true) :
    TestsOutside s t a := by
  rintro b hb - ⟨-, u, hu⟩
  simp only [testsAlone, hb] at h
  have h0 : ∀ u, (!(State.initial.loc u).inSession) = true := by
    intro u
    cases u <;> rfl
  have := ho.forall (f := fun q => !q.inSession) h h0 u
  rw [hu] at this
  cases this

/-- Caller 0 polls, sees STOPPING and returns before caller 1 claims. -/
def inTurn : State :=
  scheduled .misc [.caller 0, .caller 1, .irq] testsAlone
    (measured ++ List.replicate 3 (.caller 0, .run) ++ secondClaim)

theorem sessions_exclusive_in_turn :
    (ReachWhen .misc TestsOutside inTurn ∧ (inTurn.loc (.caller 1)).inSession = true)
      ∧ Exclusive inTurn := by
  have hr : ReachWhen .misc TestsOutside inTurn := by
    refine reach_scheduled .misc ?_ _
    intro s t a ho hok
    exact testsOutside_of_alone ho hok
  exact ⟨⟨hr, by decide⟩, (sessions_exclusive hr).1⟩

/-- Caller 1 claims before caller 0 has polled. -/
def twoClaims : State :=
  scheduled .misc [.caller 0, .caller 1, .irq] (fun _ _ _ => true) (measured ++ secondClaim)

theorem two_sessions : ¬ ∀ s, ReachWhen .misc Free s → Exclusive s := by
  intro h
  have hr : ReachWhen .misc Free twoClaims := by
    refine reach_scheduled .misc ?_ _
    exact fun _ _ _ _ _ => trivial
  have h01 := (h twoClaims hr).one (.caller 0) (.caller 1) (by decide) (by decide)
  cases h01

end HcSr04Machine
