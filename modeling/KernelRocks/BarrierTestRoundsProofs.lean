import KernelRocks.BarrierTestPlacesProofs

/-! # The rounds of the test program

    Every thread of a `run_barriers` passes the barrier `SYNC_ROUNS` times, and they
    all pass it together: nobody has returned from its `k`-th `barrier_wait` before
    everybody has called its own (`rounds_in_step`).  The driver serves every call
    of the program (`test_served`). -/

namespace BarrierTest

open Barrier Interleaving KeyedList Roster

/-! ## Together -/

/-- The call is over. -/
def returned : Pc → Bool
  | .user _ => true
  | _ => false

section Count
variable (P : Plan)

/-- The `barrier_wait` calls a thread has made. -/
def entered (q : Pc × Place) : Nat :=
  match q.2 with
  | .reCnt _ cnt | .waitDone _ cnt => cnt
  | .done => P.syncRouns
  | _ => 0

/-- The `barrier_wait` calls a thread has returned from. -/
def passed (q : Pc × Place) : Nat :=
  match q.2 with
  | .reCnt _ cnt => cnt
  | .waitDone _ cnt => if returned q.1 then cnt else cnt - 1
  | .done => P.syncRouns
  | _ => 0

theorem visits_le (q : Pc × Place) : visits P q.1 q.2 ≤ entered P q := by
  obtain ⟨pc, p⟩ := q
  cases p with
  | waitDone id cnt =>
      show (if before pc = true then cnt - 1 else cnt) ≤ cnt
      split
      · exact Nat.sub_le _ _
      · exact Nat.le_refl _
  | _ => exact Nat.le_refl _

theorem passed_le (q : Pc × Place) : passed P q ≤ visits P q.1 q.2 := by
  obtain ⟨pc, p⟩ := q
  cases p with
  | waitDone id cnt =>
      show (if returned pc = true then cnt else cnt - 1) ≤ if before pc = true then cnt - 1 else cnt
      cases pc with
      | user r => exact Nat.le_refl _
      | _ =>
          rw [if_neg nofun]
          split
          · exact Nat.le_refl _
          · exact Nat.sub_le _ _
  | _ => exact Nat.le_refl _

end Count

section Inside
variable {P : Plan} {t v w : Task} {m : Mem} {u : User} {q : Pc} {p : Place} {b : Addr} {k : Nat}

theorem not_before_of_inside (hq : q.inside = some (b, k)) :
    before q = false ∧ returned q = false := by
  cases q with
  | loopLock l _ | loopTest l _ | loopUnlock l _ | sleepPrepare l _ | sleepSchedule l _
  | sleepParked l _ | sleepFinish l _ => cases l <;> first | exact ⟨rfl, rfl⟩ | cases hq
  | waitLeave _ _ => exact ⟨rfl, rfl⟩
  | _ => cases hq

/-- Inside its barrier a thread has arrived once more than it has returned. -/
theorem At.inside (hq : q.inside = some (b, k)) (h : At P t m u q p) :
    passed P (q, p) + 1 = visits P q p := by
  obtain ⟨hbefore, hover⟩ := not_before_of_inside hq
  cases p with
  | waitDone id cnt =>
      have h1 := h.2.1
      show (if returned q = true then cnt else cnt - 1) + 1
        = if before q = true then cnt - 1 else cnt
      rw [hover, hbefore]
      exact Nat.sub_add_cancel h1
  | initDone =>
      have hinit := h.1
      cases q with
      | loopLock l _ | loopTest l _ | loopUnlock l _ | sleepPrepare l _ | sleepSchedule l _
      | sleepParked l _ | sleepFinish l _ | waitLeave _ _ => cases hinit.1
      | _ => cases hq
  | destroyDone =>
      obtain ⟨-, b', -, hseek⟩ := h
      have haims := hseek.aims
      cases q with
      | loopLock l _ | loopTest l _ | loopUnlock l _ | sleepPrepare l _ | sleepSchedule l _
      | sleepParked l _ | sleepFinish l _ =>
          cases l with
          | leave j => cases haims.1
          | enter | drain p => cases hq
      | waitLeave _ _ => cases haims.1
      | _ => cases hq
  | init | create _ | join _ | runDone | idle =>
      rw [h.1] at hq
      cases hq
  | reCnt _ _ | done => rcases h.1 with rfl | rfl <;> cases hq

end Inside

section Run
variable {P : Plan} {s : TestState} {t v w : Task} {b : Addr}

/-- The barrier of a `run_barriers` counts to the number of its threads. -/
theorem count_of_ready (h : Reach P.exec (Apart P) P.start s) (hb : Ready P t s.mem.1 s.mem.2 b) :
    (s.mem.1.tally b).count.toNat = (P.tids t).length :=
  (congrArg BitVec.toNat (reach_made (kernel_kept h) hb.2)).trans (toNat_count P t)

/-- A thread in the round that is filling is inside the barrier. -/
theorem inside_of_inRound (h : Reach P.exec (Apart P) P.start s) (hv : s.mem.2.created v = true)
    (hb : s.mem.2.barrier (P.maker v) = some b)
    (hin : InRound (P.tids (P.maker v)) (s.mem.1.hist b).arrived v) :
    ∃ k, (s.loc v).1.inside = some (b, k) := by
  have hk := kernel_kept h
  obtain ⟨hmem, b', hready⟩ := (reach_mine h).1.made v hv
  obtain rfl : b' = b := Option.some.inj (hready.1.symm.trans hb)
  have hn := count_of_ready h hready
  have hpos : 0 < (s.mem.1.tally b').count.toNat := hn ▸ List.length_pos_of_mem hmem
  obtain ⟨k, hnum, hround⟩ := hin
  rw [← hn] at hround
  have hleft := not_left_of_filling (((reach_encoded hk).1 b').rounds hpos) hpos hround
  exact ⟨k, reach_seated hk v b' k hnum hleft⟩

/-- A thread has returned from full rounds only. -/
theorem passed_le_rounds (h : Reach P.exec (Apart P) P.start s) (hv : v ∈ P.tids t)
    (hb : s.mem.2.barrier t = some b) :
    passed P (s.loc v) ≤ (s.mem.1.hist b).arrived.length / (P.tids t).length := by
  obtain ⟨hI, hM⟩ := reach_mine h
  obtain rfl : P.maker v = t := (P.makes t v hv).1
  by_cases hcreated : s.mem.2.created v = true
  · have hcame := (hM v).came b hb hv
    have hroster := hI.rounds _ b hb
    by_cases hin : InRound (P.tids (P.maker v)) (s.mem.1.hist b).arrived v
    · obtain ⟨k, hinside⟩ := inside_of_inRound h hcreated hb hin
      have hpassed : passed P (s.loc v) + 1 = visits P (s.loc v).1 (s.loc v).2 :=
        (hM v).place.inside hinside
      have hhigh := hroster.high v hv
      rw [hcame] at hhigh
      omega
    · rw [← hroster.count_eq hv hin, hcame]
      exact passed_le P (s.loc v)
  · have hzero := visits_of_not_created (hM v).place (Bool.eq_false_iff.mpr hcreated)
    exact Nat.le_trans (passed_le P (s.loc v)) (hzero ▸ Nat.zero_le _)

/-- **THE THREADS PASS THE BARRIER TOGETHER**, with any number of threads, rounds and
    processes, under any scheduler and whenever `schedule` returns: a thread of a
    `run_barriers` has returned from its `k`-th `barrier_wait` only when all of
    them have called their `k`-th.  (With several `run_barriers` in a process this
    is so as long as they are `Apart`.) -/
theorem rounds_in_step (P : Plan) {s : TestState} (h : Reach P.exec (Orderly P) P.start s)
    {t v w : Task} (hv : v ∈ P.tids t) (hw : w ∈ P.tids t) :
    passed P (s.loc v) ≤ entered P (s.loc w) := by
  have hap := apart_of_orderly h
  obtain ⟨hI, hM⟩ := reach_mine hap
  by_cases hcreated : s.mem.2.created v = true
  · obtain ⟨-, b, hb, -⟩ := hI.made v hcreated
    rw [(P.makes t v hv).1] at hb
    have hcame := (hM w).came b (by rw [(P.makes t w hw).1]; exact hb)
      (by rw [(P.makes t w hw).1]; exact hw)
    calc passed P (s.loc v)
        ≤ (s.mem.1.hist b).arrived.length / (P.tids t).length := passed_le_rounds hap hv hb
      _ ≤ (s.mem.1.hist b).arrived.count w := (hI.rounds t b hb).low w hw
      _ = visits P (s.loc w).1 (s.loc w).2 := hcame
      _ ≤ entered P (s.loc w) := visits_le P (s.loc w)
  · have hzero := visits_of_not_created (hM v).place (Bool.eq_false_iff.mpr hcreated)
    exact Nat.le_trans (passed_le P (s.loc v)) (hzero ▸ Nat.zero_le _)

/-- `dev_run2` in its first round: thread 1 sleeps in it, thread 2 has passed it and
    calls again. -/
def firstRound : TestState :=
  runAmong devRun2.exec devRun2.start [0, 1, 2] (fun _ _ _ => true)
    (List.replicate 16 (0, .run) ++ List.replicate 15 (1, .run) ++ List.replicate 16 (2, .run))

theorem reach_firstRound : Reach devRun2.exec (Orderly devRun2) devRun2.start firstRound :=
  Reach.of_runAmong (fun _ _ _ _ _ => .inl (alone_devRun 2 100 _)) _

theorem rounds_in_step_dev_run2 :
    passed devRun2 (firstRound.loc 2) = 1 ∧ 1 ≤ entered devRun2 (firstRound.loc 1) := by
  have h2 : passed devRun2 (firstRound.loc 2) = 1 := by decide +kernel
  have hmem (v : Task) (hv : v ∈ List.range' 1 2) : v ∈ devRun2.tids 0 := hv
  exact ⟨h2, h2 ▸ rounds_in_step devRun2 reach_firstRound (hmem 2 (by decide)) (hmem 1 (by decide))⟩

/-- What a thread of the test is never at. -/
theorem At.sound {m : Mem} {u : User} {q : Pc} {p : Place} (h : At P t m u q p) :
    (∀ i, q ≠ .oops i) ∧ ∀ r, q = .user (some r) → r = 0 := by
  have husers {r : Option Int} (hr : r = none ∨ r = some 0) (hq : q = .user r) :
      (∀ i, q ≠ .oops i) ∧ ∀ r, q = .user (some r) → r = 0 := by
    subst hq
    refine ⟨fun i => nofun, fun r hq => ?_⟩
    cases hq
    rcases hr with hr | hr <;> cases hr
    rfl
  cases p with
  | init => exact husers (.inl rfl) h.1
  | initDone =>
      have hinit := h.1
      cases q with
      | user r => exact husers (.inr hinit.1) rfl
      | oops i => cases hinit.1
      | _ => exact ⟨fun _ => nofun, fun _ => nofun⟩
  | destroyDone | waitDone _ _ =>
      have haims : ∃ who id b, Aims m who id b q := by
        first
        | obtain ⟨-, b, -, hseek⟩ := h
          exact ⟨_, _, b, hseek.aims⟩
        | obtain ⟨-, -, -, b, -, hseek⟩ := h
          exact ⟨_, _, b, hseek.aims⟩
      obtain ⟨who, id, b, haims⟩ := haims
      cases q with
      | user r => exact husers (.inr haims) rfl
      | oops i => exact haims.elim
      | _ => exact ⟨fun _ => nofun, fun _ => nofun⟩
  | create _ | join _ | runDone => exact husers (.inr rfl) h.1
  | idle => exact husers (.inl rfl) h.1
  | reCnt _ _ | done =>
      rcases h.1 with hq | hq
      · exact husers (.inl rfl) hq
      · exact husers (.inr rfl) hq

/-- A `barrier_wait` under way is that of a thread that has not returned. -/
theorem At.waits {m : Mem} {u : User} {q : Pc} {p : Place} (hq : q.stage = .waits b)
    (h : At P t m u q p) :
    u.created t = true ∧ u.ended t = false ∧ u.barrier (P.maker t) = some b := by
  cases p with
  | waitDone id cnt =>
      obtain ⟨hpass, -, -, b', hb', hseek⟩ := h
      have haims := hseek.aims
      refine ⟨hpass.created, hpass.going, ?_⟩
      cases q with
      | getUnlockHead w p' r =>
          obtain ⟨rfl, rfl⟩ := haims
          cases hq
          exact hb'
      | loopLock l _ | loopTest l _ | loopUnlock l _ | sleepPrepare l _ | sleepSchedule l _
      | sleepParked l _ | sleepFinish l _ =>
          obtain ⟨-, rfl⟩ := haims
          cases l <;> cases hq <;> exact hb'
      | waitEnter _ | waitLeave _ _ | waitWake _ _ | waitUnlock _ _ | waitDone _ _ =>
          obtain ⟨-, rfl⟩ := haims
          cases hq
          exact hb'
      | getLockHead w _ _ | getScan w _ _ =>
          obtain ⟨rfl, -⟩ := haims
          cases hq
      | _ => first | exact haims.elim | cases hq
  | initDone =>
      have hinit := h.1
      cases q with
      | getLockHead w _ _ | getScan w _ _ =>
          rcases w with ⟨c, n⟩ | w
          · cases hq
          · cases hinit.1
      | getUnlockHead w _ r =>
          rcases w with ⟨c, n⟩ | w
          · obtain ⟨-, rfl, -⟩ := hinit
            cases hq
          · cases hinit.1
      | loopLock _ _ | loopTest _ _ | loopUnlock _ _ | sleepPrepare _ _ | sleepSchedule _ _
      | sleepParked _ _ | sleepFinish _ _ | waitEnter _ | waitLeave _ _ | waitWake _ _
      | waitUnlock _ _ | waitDone _ _ => cases hinit.1
      | _ => cases hq
  | destroyDone =>
      obtain ⟨-, b', -, hseek⟩ := h
      have haims := hseek.aims
      cases q with
      | getUnlockHead w p' r =>
          obtain ⟨rfl, rfl⟩ := haims
          cases hq
      | getLockHead w _ _ | getScan w _ _ =>
          obtain ⟨rfl, -⟩ := haims
          cases hq
      | loopLock l _ | loopTest l _ | loopUnlock l _ | sleepPrepare l _ | sleepSchedule l _
      | sleepParked l _ | sleepFinish l _ =>
          cases l with
          | drain p' => cases hq
          | enter | leave j => cases haims.1
      | waitEnter _ | waitLeave _ _ | waitWake _ _ | waitUnlock _ _ | waitDone _ _ => cases haims.1
      | _ => first | exact haims.elim | cases hq
  | init | create _ | join _ | runDone | idle =>
      rw [h.1] at hq
      cases hq
  | reCnt _ _ | done => rcases h.1 with rfl | rfl <;> cases hq

/-- **THE DRIVER SERVES THE TEST PROGRAM**: no thread of it dies in the kernel, every
    call that has returned has returned 0, and a `barrier_destroy` unlinks a barrier
    that is on its list and that no `barrier_wait` has in hand. -/
theorem test_served (P : Plan) {s : TestState} (h : Reach P.exec (Orderly P) P.start s) (t : Task) :
    (∀ i, (s.loc t).1 ≠ .oops i) ∧ (∀ r, (s.loc t).1 = .user (some r) → r = 0)
      ∧ ∀ p b, (s.loc t).1 = .destroyUnlink p b →
        b ∈ (s.mem.1.ptgid p).barrierHead ∧ ∀ w, (s.loc w).1.stage ≠ .waits b := by
  have hap := apart_of_orderly h
  obtain ⟨hI, hM⟩ := reach_mine hap
  obtain ⟨halive, hzero⟩ := (hM t).place.sound
  refine ⟨halive, hzero, fun p b hq => ⟨?_, fun w hw => ?_⟩⟩
  · have hR := reach_removal ((kernel_kept hap).mono fun _ _ _ h => h.once)
    refine hR.dooms t p b ?_
    show ((s.loc t).1.stage).dooms = some (p, b)
    rw [hq]
    rfl
  · obtain ⟨hcreated, hgoing, hb⟩ := (hM w).place.waits hw
    have hplace := (hM t).place
    rw [hq] at hplace
    obtain ⟨hj, hb'⟩ := hplace.unlinks
    have hmaker := hI.inj _ _ b hb hb'
    have hended := (hj w (hmaker ▸ (hI.made w hcreated).1)).2
    rw [hgoing] at hended
    cases hended

end Run

/-- `dev_run2` with one round: thread 1 has slept in it, thread 2 has filled it, both are
    back, and `barrier_destroy` is about to unlink the barrier. -/
def unlinking : TestState :=
  runAmong oneRound.exec oneRound.start [0, 1, 2] (fun _ _ _ => true)
    (List.replicate 16 (0, .run) ++ List.replicate 15 (1, .run) ++ List.replicate 16 (2, .run)
      ++ List.replicate 10 (1, .run) ++ List.replicate 13 (0, .run))

theorem test_served_one_round :
    ((unlinking.loc 0).1 = .destroyUnlink 0 1 ∧ (unlinking.loc 1).1 = .user (some 0))
      ∧ (∀ i, (unlinking.loc 1).1 ≠ .oops i) ∧ 1 ∈ (unlinking.mem.1.ptgid 0).barrierHead
      ∧ ∀ w, (unlinking.loc w).1.stage ≠ .waits 1 := by
  have hr : Reach oneRound.exec (Orderly oneRound) oneRound.start unlinking :=
    Reach.of_runAmong (fun _ _ _ _ _ => .inl (alone_devRun 2 1 _)) _
  have h0 : (unlinking.loc 0).1 = .destroyUnlink 0 1 := by decide +kernel
  have h1 : (unlinking.loc 1).1 = .user (some 0) := by decide +kernel
  obtain ⟨hlisted, hclear⟩ := (test_served oneRound hr 0).2.2 0 1 h0
  exact ⟨⟨h0, h1⟩, (test_served oneRound hr 1).1, hlisted, hclear⟩

end BarrierTest
