import KernelRocks.BarrierReleaseProofs
import KernelRocks.BarrierTestProofs

/-! # The places of the test program

    What a thread of the test program has at each place (`At`), and what the threads
    share (`Shared`), through every turn of the program and of the driver
    (`reach_mine`).

    `Seeks` follows a call to the barrier its id stands for; the arrivals of a barrier
    are a roster's (`InStep`), because a thread comes back only when the round it was
    in is full. -/

namespace BarrierTest

open Barrier Interleaving KeyedList Roster

/-! ## A call on its way to a barrier -/

section Driver
variable {proc : Task → Pid} {t : Task} {m m' : Mem} {q q' : Pc} {a : Act} {who : Seeker}
  {id : BitVec 32} {b : Addr}

/-- The arrivals of a barrier are the turns at 249. -/
theorem arrived_exec (hf : Fresh m) (h : Barrier.exec proc t m q a = some (m', q')) (b : Addr) :
    (m'.hist b).arrived
      = if q = .waitEnter b then (m.hist b).arrived ++ [t] else (m.hist b).arrived := by
  show (m'.tally b).arrived
    = if q = .waitEnter b then (m.tally b).arrived ++ [t] else (m.tally b).arrived
  cases exec_tallyMove hf h with
  | keep henter _ hm => rw [if_neg (henter b), hm]
  | link c p n id hlink _ hm =>
      rw [if_neg (by rw [hlink]; exact nofun), hm]
      by_cases hb : b = m.brk
      · rw [hb, Function.update_self, show (m.tally m.brk).arrived = _ from
          congrArg History.arrived (hf.hist m.brk (Nat.le_refl _))]
        rfl
      · rw [Function.update_of_ne hb]
  | arrive b' henter _ hm =>
      rw [hm, henter]
      by_cases hb : b = b'
      · rw [hb, Function.update_self, if_pos rfl, arrived_arrive]
      · rw [Function.update_of_ne hb, if_neg]
        rintro ⟨⟩
        exact hb rfl
  | depart b' k hleave _ hm =>
      rw [if_neg (by rw [hleave]; exact nofun)]
      exact tally_update_congr Tally.arrived hm fun hb => by rw [hb]; rfl
  | done b' k hdone _ hm =>
      rw [if_neg (by rw [hdone]; exact nofun)]
      exact tally_update_congr Tally.arrived hm fun hb => by rw [hb]; rfl

/-- Looking the process and the id up gives the barrier. -/
structure Live (m : Mem) (g : Pid) (id : BitVec 32) (b : Addr) : Prop where
  found : m.lookUp g id = some b
  scan : ∀ p, b ∈ (m.ptgid p).barrierHead → m.getBarrier p id = some b

def seeker : Loop → Seeker
  | .enter | .leave _ => .wait
  | .drain _ => .destroy

/-- A `barrier_wait` or `barrier_destroy` of `id` heads for `b`, has it in hand, or has
    returned 0. -/
def Aims (m : Mem) (who : Seeker) (id : BitVec 32) (b : Addr) : Pc → Prop
  | .user r => r = some 0
  | .getLockG w i | .getFind w i => w = who ∧ i = id
  | .getUnlockG w i r => w = who ∧ i = id ∧ ∃ p, r = some p ∧ b ∈ (m.ptgid p).barrierHead
  | .getLockHead w p i | .getScan w p i =>
      w = .seek who ∧ i = id ∧ b ∈ (m.ptgid p).barrierHead
  | .getUnlockHead w _ r => w = .seek who ∧ r = some b
  | .loopLock l c | .loopTest l c | .loopUnlock l c => seeker l = who ∧ c = b
  | .sleepPrepare l c | .sleepSchedule l c => seeker l = who ∧ c = b
  | .sleepParked l c | .sleepFinish l c => seeker l = who ∧ c = b
  | .waitEnter c | .waitLeave c _ | .waitWake c _ | .waitUnlock c _ | .waitDone c _ =>
      who = .wait ∧ c = b
  | .destroyUnlock _ c | .destroyLockHead _ c | .destroyUnlink _ c | .destroyLockG _ c =>
      who = .destroy ∧ c = b
  | .destroyUnlinkPtgid _ c | .destroyUnlockG _ c | .destroyFreePtgid _ c
  | .destroyUnlockHead _ c => who = .destroy ∧ c = b
  | _ => False

/-- The call has unlinked its barrier, or is over. -/
def past : Pc → Bool
  | .user _ | .destroyLockG _ _ | .destroyUnlinkPtgid _ _ | .destroyUnlockG _ _ => true
  | .destroyFreePtgid _ _ | .destroyUnlockHead _ _ => true
  | _ => false

structure Seeks (m : Mem) (who : Seeker) (id : BitVec 32) (b : Addr) (q : Pc) : Prop where
  aims : Aims m who id b q
  linked : past q = false → (m.hist b).unlinked = 0
  gone : who = .destroy → past q = true → (m.hist b).unlinked ≠ 0

theorem Aims.exit {l : Loop} (h : Aims m who id b (.loopTest l b)) :
    Aims m who id b (l.exit b) := by
  obtain ⟨rfl, -⟩ := h
  cases l <;> exact ⟨rfl, rfl⟩

/-- Only the lists the barrier is on matter. -/
theorem Aims.mono (hm : ∀ p, b ∈ (m.ptgid p).barrierHead → b ∈ (m'.ptgid p).barrierHead)
    (h : Aims m who id b q) : Aims m' who id b q := by
  cases q with
  | getUnlockG w i r =>
      obtain ⟨hw, hi, p, hr, hp⟩ := h
      exact ⟨hw, hi, p, hr, hm p hp⟩
  | getLockHead w p i | getScan w p i => exact ⟨h.1, h.2.1, hm p h.2.2⟩
  | _ => exact h

theorem Aims.of_past (hq : past q = true) (h : Aims m who id b q) : Aims m' who id b q := by
  cases q with
  | user r | destroyLockG _ _ | destroyUnlinkPtgid _ _ | destroyUnlockG _ _
  | destroyFreePtgid _ _ | destroyUnlockHead _ _ => exact h
  | _ => cases hq

/-- One turn of the call, on the memory before. -/
theorem aims_next (hlive : past q = false → Live m (proc t) id b) (h : Aims m who id b q)
    (he : next proc t m q = some (m', q')) : Aims m who id b q' := by
  cases q with
  | user r => cases he
  | getLockG w i | getLockHead w p i | loopLock l c | destroyLockHead p c | destroyLockG p c =>
      obtain ⟨-, -, rfl⟩ := takeLock_eq_some he
      exact h
  | getFind w i =>
      cases he
      obtain ⟨rfl, rfl⟩ := h
      obtain ⟨p, hp, hb⟩ := Option.bind_eq_some_iff.mp (hlive rfl).found
      exact ⟨rfl, rfl, p, hp, (getBarrier_mem hb).1⟩
  | getUnlockG w i r =>
      cases he
      obtain ⟨rfl, rfl, p, rfl, hb⟩ := h
      cases w <;> exact ⟨rfl, rfl, hb⟩
  | getScan w p i =>
      cases he
      obtain ⟨rfl, rfl, hb⟩ := h
      exact ⟨rfl, (hlive rfl).scan p hb⟩
  | getUnlockHead w p r =>
      cases he
      obtain ⟨rfl, rfl⟩ := h
      cases who <;> exact ⟨rfl, rfl⟩
  | loopTest l c =>
      cases he
      obtain ⟨hl, rfl⟩ := h
      split
      · exact ⟨hl, rfl⟩
      · exact Aims.exit ⟨hl, rfl⟩
  | sleepSchedule l c =>
      cases he
      split <;> exact h
  | sleepParked l c =>
      obtain ⟨-, rfl⟩ := next_sleepParked he
      exact h
  | waitEnter c =>
      cases he
      split
      · exact h
      · exact ⟨h.1.symm, h.2⟩
  | waitLeave c k =>
      cases he
      split <;> exact h
  | destroyUnlink p c =>
      cases he
      split <;> exact h
  | waitDone c k | destroyUnlockHead p c =>
      cases he
      rfl
  | loopUnlock l c | sleepPrepare l c | sleepFinish l c | waitWake c k | waitUnlock c k
  | destroyUnlock p c | destroyUnlinkPtgid p c | destroyUnlockG p c | destroyFreePtgid p c =>
      cases he
      exact h
  | _ => exact h.elim

/-- The call has not unlinked its barrier before it unlinks it. -/
theorem past_next (h : Aims m who id b q) (he : next proc t m q = some (m', q'))
    (hq' : past q' = false) : past q = false ∧ ∀ p c, q ≠ .destroyUnlink p c := by
  cases q with
  | user r => cases he
  | destroyLockG p c =>
      obtain ⟨-, -, rfl⟩ := takeLock_eq_some he
      cases hq'
  | destroyUnlink p c =>
      cases he
      split at hq' <;> cases hq'
  | destroyUnlinkPtgid p c | destroyUnlockG p c | destroyFreePtgid p c | destroyUnlockHead p c =>
      cases he
      cases hq'
  | _ => first | exact h.elim | exact ⟨rfl, nofun⟩

/-- A `barrier_destroy` is past it only once it has unlinked its barrier. -/
theorem past_of_next (h : Aims m .destroy id b q) (he : next proc t m q = some (m', q'))
    (hq' : past q' = true) : past q = true ∨ ∃ p, q = .destroyUnlink p b := by
  cases q with
  | user r => cases he
  | destroyUnlink p c =>
      obtain ⟨-, rfl⟩ := h
      exact .inr ⟨p, rfl⟩
  | getLockG w i | getLockHead w p i | loopLock l c | destroyLockHead p c =>
      obtain ⟨-, -, rfl⟩ := takeLock_eq_some he
      cases hq'
  | getUnlockG w i r =>
      obtain ⟨rfl, -, p, rfl, -⟩ := h
      cases he
      cases hq'
  | getUnlockHead w p r =>
      obtain ⟨rfl, rfl⟩ := h
      cases he
      cases hq'
  | loopTest l c =>
      obtain ⟨hl, -⟩ := h
      cases he
      cases l with
      | drain p => split at hq' <;> cases hq'
      | enter | leave k => cases hl
  | sleepSchedule l c =>
      cases he
      split at hq' <;> cases hq'
  | sleepParked l c =>
      obtain ⟨-, rfl⟩ := next_sleepParked he
      cases hq'
  | waitEnter c | waitLeave c k | waitWake c k | waitUnlock c k | waitDone c k => cases h.1
  | getFind w i | getScan w p i | loopUnlock l c | sleepPrepare l c | sleepFinish l c
  | destroyUnlock p c =>
      cases he
      cases hq'
  | destroyLockG p c | destroyUnlinkPtgid p c | destroyUnlockG p c | destroyFreePtgid p c
  | destroyUnlockHead p c => exact .inl rfl
  | _ => exact h.elim

/-- A turn of the call itself. -/
theorem Seeks.driver (hf : Fresh m) (hb : b < m.brk)
    (hlive : (m.hist b).unlinked = 0 → Live m (proc t) id b)
    (hlist : ∀ p, q = .destroyUnlink p b → b ∈ (m.ptgid p).barrierHead)
    (h : Seeks m who id b q) (hpc : ∀ r, q ≠ .user r)
    (he : Barrier.exec proc t m q a = some (m', q')) : Seeks m' who id b q' := by
  rcases driver_cases hpc he with hn | ⟨rfl, l, c, hq, rfl⟩ | ⟨-, p, c, rfl, hc⟩
  · have hm := exec_regMove hf he
    have haims := aims_next (fun hq => hlive (h.linked hq)) h.aims hn
    by_cases hunlink : ∃ p, q = .destroyUnlink p b
    · obtain ⟨p, rfl⟩ := hunlink
      have hpast : past q' = true := by
        cases hn
        split <;> rfl
      refine ⟨haims.of_past hpast, fun hq' => absurd hpast (by rw [hq']; exact nofun),
        fun _ _ => ?_⟩
      cases hn
      simp [Mem.unlinkBarrier]
    · have hne : ∀ p, q ≠ .destroyUnlink p b := fun p hq => hunlink ⟨p, hq⟩
      have hsame : (m'.hist b).unlinked = (m.hist b).unlinked := hm.unlinked hb hne
      refine ⟨haims.mono fun p hp => hm.stays hf hp (hne p), fun hq' => ?_, ?_⟩
      · exact hsame.trans (h.linked (past_next h.aims hn hq').1)
      · rintro rfl hq'
        rw [hsame]
        exact h.gone rfl ((past_of_next h.aims hn hq').resolve_right hunlink)
  · refine ⟨?_, ?_, fun _ hq' => ?_⟩
    · rcases hq with rfl | rfl <;> exact h.aims
    · rcases hq with rfl | rfl <;> exact h.linked
    · cases hq'
  · -- `b` is on the list, so nothing faults
    obtain ⟨-, rfl⟩ := h.aims
    exact absurd (hlist p rfl) hc

/-- A turn of another task that does not unlink the barrier. -/
theorem Seeks.other {r : Pc} (hf : Fresh m) (hb : b < m.brk)
    (hne : ∀ p, q ≠ .destroyUnlink p b) (h : Seeks m who id b r)
    (he : Barrier.exec proc t m q a = some (m', q')) : Seeks m' who id b r := by
  have hm := exec_regMove hf he
  have hsame : (m'.hist b).unlinked = (m.hist b).unlinked := hm.unlinked hb hne
  refine ⟨h.aims.mono fun p hp => hm.stays hf hp (hne p), fun hr => hsame.trans (h.linked hr), ?_⟩
  rw [hsame]
  exact h.gone

/-- A `barrier_wait` has not executed `total++` yet. -/
def before : Pc → Bool
  | .getLockG _ _ | .getFind _ _ | .getUnlockG _ _ _ => true
  | .getLockHead _ _ _ | .getScan _ _ _ | .getUnlockHead _ _ _ => true
  | .loopLock .enter _ | .loopTest .enter _ | .loopUnlock .enter _ => true
  | .sleepPrepare .enter _ | .sleepSchedule .enter _ => true
  | .sleepParked .enter _ | .sleepFinish .enter _ => true
  | .waitEnter _ => true
  | _ => false

/-- It does so in one turn. -/
theorem before_next (h : Aims m .wait id b q) (he : next proc t m q = some (m', q')) :
    if q = .waitEnter b then before q = true ∧ before q' = false else before q' = before q := by
  cases q with
  | user r => cases he
  | waitEnter c =>
      obtain ⟨-, rfl⟩ := h
      rw [if_pos rfl]
      refine ⟨rfl, ?_⟩
      cases he
      split <;> rfl
  | loopTest l c =>
      obtain ⟨hl, rfl⟩ := h
      cases he
      rw [if_neg nofun]
      cases l with
      | drain p => cases hl
      | enter | leave k => split <;> rfl
  | loopLock l c =>
      obtain ⟨-, -, rfl⟩ := takeLock_eq_some he
      rw [if_neg nofun]
      cases l <;> rfl
  | getLockG w i | getLockHead w p i =>
      obtain ⟨-, -, rfl⟩ := takeLock_eq_some he
      rw [if_neg nofun]
      rfl
  | getUnlockG w i r =>
      obtain ⟨rfl, rfl, p, rfl, -⟩ := h
      cases he
      rw [if_neg nofun]
      rfl
  | getUnlockHead w p r =>
      obtain ⟨rfl, rfl⟩ := h
      cases he
      rw [if_neg nofun]
      rfl
  | loopUnlock l c | sleepPrepare l c | sleepFinish l c =>
      cases he
      rw [if_neg nofun]
      cases l <;> rfl
  | sleepSchedule l c =>
      cases he
      rw [if_neg nofun]
      cases l <;> split <;> rfl
  | sleepParked l c =>
      obtain ⟨-, rfl⟩ := next_sleepParked he
      rw [if_neg nofun]
      cases l <;> rfl
  | waitLeave c k =>
      cases he
      rw [if_neg nofun]
      split <;> rfl
  | getFind w i | getScan w p i | waitWake c k | waitUnlock c k | waitDone c k =>
      cases he
      rw [if_neg nofun]
      rfl
  | destroyUnlock p c | destroyLockHead p c | destroyUnlink p c | destroyLockG p c
  | destroyUnlinkPtgid p c | destroyUnlockG p c | destroyFreePtgid p c
  | destroyUnlockHead p c => cases h.1
  | _ => exact h.elim

theorem before_driver (h : Aims m .wait id b q) (hpc : ∀ r, q ≠ .user r)
    (he : Barrier.exec proc t m q a = some (m', q')) :
    if q = .waitEnter b then before q = true ∧ before q' = false else before q' = before q := by
  rcases driver_cases hpc he with hn | ⟨-, l, c, hq, rfl⟩ | ⟨-, p, c, rfl, -⟩
  · exact before_next h hn
  · rcases hq with rfl | rfl <;> (rw [if_neg nofun]; cases l <;> rfl)
  · cases h.1

end Driver

/-! ## What holds at each place of the program -/

section Places
variable (P : Plan) (t : Task) (m : Mem) (u : User)

/-- `barrier_init` has returned the id of its barrier. -/
def Ready (b : Addr) : Prop :=
  u.barrier t = some b ∧ ⟨P.proc t, u.barrierId t, P.numThreads t, b⟩ ∈ m.made

/-- ... and the barrier is linked. -/
def Up : Prop := ∃ b, Ready P t m u b ∧ (m.hist b).unlinked = 0

/-- The `barrier_init` of a `run_barriers`. -/
def Inits : Pc → Prop
  | .user r => r = some 0 ∧ Up P t m u
  | .initUnlockHead c _ b _ =>
      c = P.numThreads t ∧ u.barrier t = some b ∧ (m.hist b).unlinked = 0
  | .getUnlockHead (.init c _) _ r => c = P.numThreads t ∧ r = none ∧ u.barrier t = none
  | q => q.initCount = some (P.numThreads t) ∧ u.barrier t = none

/-- The threads have been created and joined. -/
def Joined : Prop := ∀ w ∈ P.tids t, u.created w = true ∧ u.ended w = true

/-- A thread that has read `barrier_id` and not returned. -/
structure Passing (id : BitVec 32) : Prop where
  created : u.created t = true
  going : u.ended t = false
  id : id = u.barrierId (P.maker t)

/-- In user mode; the last call, if there was one, has returned 0. -/
def Back (q : Pc) : Prop := q = .user none ∨ q = .user (some 0)

def At (q : Pc) : Place → Prop
  | .init => q = .user none ∧ u.barrier t = none ∧ ∀ w ∈ P.tids t, u.created w = false
  | .initDone => Inits P t m u q ∧ ∀ w ∈ P.tids t, u.created w = false
  | .create idx => q = .user (some 0) ∧ Up P t m u ∧ ∀ w ∈ (P.tids t).take idx, u.created w = true
  | .join idx => q = .user (some 0) ∧ Up P t m u ∧ (∀ w ∈ P.tids t, u.created w = true)
      ∧ ∀ w ∈ (P.tids t).take idx, u.ended w = true
  | .destroyDone => Joined P t u
      ∧ ∃ b, Ready P t m u b ∧ Seeks m .destroy (u.barrierId t) b q
  | .runDone => q = .user (some 0) ∧ Joined P t u
      ∧ ∃ b, Ready P t m u b ∧ (m.hist b).unlinked ≠ 0
  | .idle => q = .user none ∧ u.ended t = false
  | .reCnt id cnt => Back q ∧ Passing P t u id ∧ cnt ≤ P.syncRouns
  | .waitDone id cnt => Passing P t u id ∧ 1 ≤ cnt ∧ cnt ≤ P.syncRouns
      ∧ ∃ b, u.barrier (P.maker t) = some b ∧ Seeks m .wait id b q
  | .done => Back q ∧ u.created t = true ∧ u.ended t = true

/-- How often a thread has arrived at its barrier. -/
def visits (q : Pc) : Place → Nat
  | .reCnt _ cnt => cnt
  | .waitDone _ cnt => if before q then cnt - 1 else cnt
  | .done => P.syncRouns
  | _ => 0

/-- Thread `t` has what its place says, and its arrivals are counted. -/
structure Mine (q : Pc) (p : Place) : Prop where
  place : At P t m u q p
  came : ∀ b, u.barrier (P.maker t) = some b → t ∈ P.tids (P.maker t) →
    (m.hist b).arrived.count t = visits P q p

/-- What the threads share: each `run_barriers` has a barrier of its own, which is linked
    as long as one of its threads has not returned, and on which its threads arrive
    in rounds. -/
structure Shared : Prop where
  fresh : ∀ t b, u.barrier t = some b → b < m.brk
  inj : ∀ t t' b, u.barrier t = some b → u.barrier t' = some b → t = t'
  made : ∀ w, u.created w = true → w ∈ P.tids (P.maker w) ∧ ∃ b, Ready P (P.maker w) m u b
  linked : ∀ t b, u.barrier t = some b → Joined P t u ∨ (m.hist b).unlinked = 0
  rounds : ∀ t b, u.barrier t = some b → InStep (P.tids t) (m.hist b).arrived

end Places

/-! ## Turns in user mode -/

section User
variable {P : Plan} {t v : Task} {m : Mem} {u u' : User} {q : Pc} {p p' : Place} {c : Option Call}

/-- Threads are created by their maker and return by themselves, and stay so. -/
structure Grows (P : Plan) (t : Task) (u u' : User) : Prop where
  barrier : u'.barrier = u.barrier
  barrierId : u'.barrierId = u.barrierId
  created : ∀ w, u.created w = true → u'.created w = true
  maker : ∀ w, u'.created w = true → u.created w = true ∨ w ∈ P.tids t
  ended : ∀ w, u.ended w = true → u'.ended w = true
  others : ∀ w, w ≠ t → u'.ended w = u.ended w

theorem Step.grows (h : Step P t u p u' c p') : Grows P t u u' := by
  cases h with
  | @create idx w hw =>
      have hmem : w ∈ P.tids t := List.mem_of_getElem? hw
      refine ⟨rfl, rfl, fun w' hw' => ?_, fun w' hw' => ?_, fun _ h => h, fun _ _ => rfl⟩
      · show Function.update u.created w true w' = true
        by_cases hww : w' = w
        · rw [hww, Function.update_self]
        · rw [Function.update_of_ne hww]
          exact hw'
      · by_cases hww : w' = w
        · exact .inr (hww ▸ hmem)
        · change Function.update u.created w true w' = true at hw'
          rw [Function.update_of_ne hww] at hw'
          exact .inl hw'
  | ret =>
      refine ⟨rfl, rfl, fun _ h => h, fun _ h => .inl h, fun w hw => ?_, fun w hw => ?_⟩
      · show Function.update u.ended t true w = true
        by_cases hwt : w = t
        · rw [hwt, Function.update_self]
        · rw [Function.update_of_ne hwt]
          exact hw
      · exact Function.update_of_ne hw _ _
  | _ => exact ⟨rfl, rfl, fun _ h => h, fun _ h => .inl h, fun _ h => h, fun _ _ => rfl⟩

theorem Grows.joined (h : Grows P t u u') (hj : Joined P v u) : Joined P v u' :=
  fun w hw => ⟨h.created w (hj w hw).1, h.ended w (hj w hw).2⟩

theorem Grows.ready (h : Grows P t u u') {b : Addr} (hb : Ready P v m u b) : Ready P v m u' b := by
  rw [Ready, h.barrier, h.barrierId]
  exact hb

theorem Grows.up (h : Grows P t u u') (hu : Up P v m u) : Up P v m u' := by
  obtain ⟨b, hb, h0⟩ := hu
  exact ⟨b, h.ready hb, h0⟩

theorem Grows.inits (h : Grows P t u u') (hq : Inits P v m u q) : Inits P v m u' q := by
  cases q with
  | user r => exact ⟨hq.1, h.up hq.2⟩
  | getLockHead w _ _ | getScan w _ _ | getUnlockHead w _ _ =>
      cases w <;> simpa only [Inits, h.barrier] using hq
  | _ => simpa only [Inits, h.barrier] using hq

/-- Another thread's own code does nothing to what a thread has. -/
theorem Grows.at_other (hg : Grows P t u u') (hvt : v ≠ t) (h : At P v m u q p) :
    At P v m u' q p := by
  -- what is not created yet is created by its maker only
  have hfresh (hw : ∀ w ∈ P.tids v, u.created w = false) :
      ∀ w ∈ P.tids v, u'.created w = false := by
    intro w hmem
    by_contra hne
    rcases hg.maker w (Bool.eq_true_of_not_eq_false hne) with hold | ht
    · rw [hw w hmem] at hold
      cases hold
    · exact hvt ((P.makes v w hmem).1.symm.trans (P.makes t w ht).1)
  have hpass {id : BitVec 32} (hp : Passing P v u id) : Passing P v u' id :=
    ⟨hg.created v hp.created, (hg.others v hvt).trans hp.going, by rw [hg.barrierId]; exact hp.id⟩
  cases p with
  | init => exact ⟨h.1, by rw [hg.barrier]; exact h.2.1, hfresh h.2.2⟩
  | initDone => exact ⟨hg.inits h.1, hfresh h.2⟩
  | create idx => exact ⟨h.1, hg.up h.2.1, fun w hw => hg.created w (h.2.2 w hw)⟩
  | join idx =>
      exact ⟨h.1, hg.up h.2.1, fun w hw => hg.created w (h.2.2.1 w hw),
        fun w hw => hg.ended w (h.2.2.2 w hw)⟩
  | destroyDone =>
      obtain ⟨hj, b, hb, hseek⟩ := h
      exact ⟨hg.joined hj, b, hg.ready hb, by rw [hg.barrierId]; exact hseek⟩
  | runDone =>
      obtain ⟨hq0, hj, b, hb, hgone⟩ := h
      exact ⟨hq0, hg.joined hj, b, hg.ready hb, hgone⟩
  | idle => exact ⟨h.1, (hg.others v hvt).trans h.2⟩
  | reCnt id cnt => exact ⟨h.1, hpass h.2.1, h.2.2⟩
  | waitDone id cnt => exact ⟨hpass h.1, h.2.1, h.2.2.1, by rw [hg.barrier]; exact h.2.2.2⟩
  | done => exact ⟨h.1, hg.created v h.2.1, hg.ended v h.2.2⟩

theorem Grows.mine_other (hg : Grows P t u u') (hvt : v ≠ t) (h : Mine P v m u q p) :
    Mine P v m u' q p :=
  ⟨hg.at_other hvt h.place, by rw [hg.barrier]; exact h.came⟩

theorem Shared.step (hI : Shared P m u) (hA : At P t m u q p) (hs : Step P t u p u' c p') :
    Shared P m u' := by
  have hg := hs.grows
  refine ⟨by rw [hg.barrier]; exact hI.fresh, by rw [hg.barrier]; exact hI.inj, fun w hw => ?_,
    fun t' b hb => ?_, by rw [hg.barrier]; exact hI.rounds⟩
  · have hmade : w ∈ P.tids (P.maker w) ∧ ∃ b, Ready P (P.maker w) m u b := by
      rcases hg.maker w hw with hold | hmem
      · exact hI.made w hold
      · rw [(P.makes t w hmem).1]
        cases hs with
        | create _ =>
            obtain ⟨b, hb, -⟩ := hA.2.1
            exact ⟨hmem, b, hb⟩
        | _ =>
            have hold := hI.made w hw
            rw [(P.makes t w hmem).1] at hold
            exact hold
    obtain ⟨hmem, b, hb⟩ := hmade
    exact ⟨hmem, b, hg.ready hb⟩
  · rw [hg.barrier] at hb
    exact (hI.linked t' b hb).imp_left hg.joined

theorem toInt_numThreads (P : Plan) (t : Task) : 0 ≤ (P.numThreads t).toInt := by
  have hlt := P.int t
  have hnat : (P.numThreads t).toNat = (P.tids t).length :=
    Nat.mod_eq_of_lt (Nat.lt_trans hlt (by decide))
  rw [BitVec.toInt_eq_toNat_of_lt (by omega)]
  omega

theorem mem_take_succ {l : List Task} {idx : Nat} {w x : Task} (hx : l[idx]? = some x)
    (hw : w ∈ l.take (idx + 1)) : w ∈ l.take idx ∨ w = x := by
  rw [List.take_add_one, hx, List.mem_append] at hw
  exact hw.imp_right fun h => by simpa using h

theorem take_of_none {l : List Task} {idx : Nat} (h : l[idx]? = none) : l.take idx = l :=
  List.take_of_length_le (List.getElem?_eq_none_iff.mp h)

/-- What a thread has after a turn of its own code, which may be a call. -/
theorem at_step (hI : Shared P m u) (hA : At P t m u q p) (hq : ∃ r, q = .user r)
    (hs : Step P t u p u' c p') : At P t m u' (c.elim q Call.entry) p' := by
  cases hs with
  | init =>
      obtain ⟨-, hnone, hw⟩ := hA
      have hentry : (Call.init (P.numThreads t)).entry = .initLockG (P.numThreads t) :=
        if_neg (Int.not_lt.mpr (toInt_numThreads P t))
      show At P t m u (Call.init (P.numThreads t)).entry .initDone
      rw [hentry]
      exact ⟨⟨rfl, hnone⟩, hw⟩
  | initDone =>
      obtain ⟨r, rfl⟩ := hq
      obtain ⟨⟨rfl, hup⟩, -⟩ := hA
      exact ⟨rfl, hup, nofun⟩
  | @create idx w hw =>
      obtain ⟨hq0, hup, htake⟩ := hA
      refine ⟨hq0, hup, fun w' hw' => ?_⟩
      show Function.update u.created w true w' = true
      by_cases hww : w' = w
      · rw [hww, Function.update_self]
      · rw [Function.update_of_ne hww]
        exact htake w' ((mem_take_succ hw hw').resolve_right hww)
  | created hnone =>
      obtain ⟨hq0, hup, htake⟩ := hA
      rw [take_of_none hnone] at htake
      exact ⟨hq0, hup, htake, nofun⟩
  | join hw hended =>
      obtain ⟨hq0, hup, hcreated, htake⟩ := hA
      refine ⟨hq0, hup, hcreated, fun w' hw' => ?_⟩
      rcases mem_take_succ hw hw' with hold | rfl
      · exact htake w' hold
      · exact hended
  | joined hnone =>
      obtain ⟨-, ⟨b, hb, h0⟩, hcreated, htake⟩ := hA
      rw [take_of_none hnone] at htake
      exact ⟨fun w hw => ⟨hcreated w hw, htake w hw⟩, b, hb, ⟨rfl, rfl⟩, fun _ => h0,
        fun _ => nofun⟩
  | destroyDone =>
      obtain ⟨r, rfl⟩ := hq
      obtain ⟨hj, b, hb, hseek⟩ := hA
      exact ⟨congrArg Pc.user hseek.aims, hj, b, hb, hseek.gone rfl rfl⟩
  | idle hcreated => exact ⟨.inl hA.1, ⟨hcreated, hA.2, rfl⟩, Nat.zero_le _⟩
  | ret => exact ⟨hA.1, hA.2.1.created, Function.update_self ..⟩
  | wait hcnt =>
      obtain ⟨-, hpass, hle⟩ := hA
      obtain ⟨hmem, b, hb⟩ := hI.made t hpass.created
      refine ⟨hpass, Nat.le_add_left .., Nat.lt_of_le_of_ne hle hcnt, b, hb.1, ⟨rfl, rfl⟩,
        fun _ => ?_, nofun⟩
      refine (hI.linked _ b hb.1).resolve_left fun hj => ?_
      have hended := (hj t hmem).2
      rw [hpass.going] at hended
      cases hended
  | waitDone =>
      obtain ⟨r, rfl⟩ := hq
      obtain ⟨hpass, -, hle, b, -, hseek⟩ := hA
      exact ⟨.inr (congrArg Pc.user hseek.aims), hpass, hle⟩

theorem visits_step (hq : ∃ r, q = .user r) (hs : Step P t u p u' c p') :
    visits P (c.elim q Call.entry) p' = visits P q p := by
  obtain ⟨r, rfl⟩ := hq
  cases hs <;> rfl

theorem mine_step (hI : Shared P m u) (h : Mine P t m u q p) (hq : ∃ r, q = .user r)
    (hs : Step P t u p u' c p') : Mine P t m u' (c.elim q Call.entry) p' := by
  refine ⟨at_step hI h.place hq hs, fun b hb ht => ?_⟩
  rw [hs.grows.barrier] at hb
  rw [visits_step hq hs]
  exact h.came b hb ht

end User

/-! ## Turns of the driver -/

/-- A call whose number is in the round that is filling has not left. -/
theorem not_left_of_filling {T : Tally} (h : Rounds T) (hn : 0 < T.count.toNat) {k : Nat}
    (hk : k / T.count.toNat = T.arrived.length / T.count.toNat) : k ∉ T.left := by
  intro hl
  -- the last number of the round would be given out
  have hlast : (T.count.toNat * (T.arrived.length / T.count.toNat) + (T.count.toNat - 1))
      / T.count.toNat = k / T.count.toNat := by
    rw [Nat.mul_add_div hn, Nat.div_eq_of_lt (Nat.sub_lt hn Nat.one_pos), Nat.add_zero, hk]
  have hlt := h.arrived_of_left hl hlast
  have hfill := Nat.lt_mul_div_succ T.arrived.length hn
  rw [Nat.mul_succ] at hfill
  omega

theorem toNat_count (P : Plan) (t : Task) :
    ((P.numThreads t).signExtend 64).toNat = (P.tids t).length := by
  have hlt := P.int t
  rw [toNat_signExtend (toNat_signExtend_lt (toInt_numThreads P t))]
  exact Nat.mod_eq_of_lt (Nat.lt_trans hlt (by decide))

/-- What is known of the driver's part of a reached state when thread `t` is at `q`. -/
structure Known (P : Plan) (t : Task) (m : Mem) (q : Pc) : Prop where
  fresh : Fresh m
  live : ∀ v id n b, (⟨P.proc v, id, n, b⟩ : Made) ∈ m.made → (m.hist b).unlinked = 0 →
    Live m (P.proc v) id b
  list : ∀ p b, q = .destroyUnlink p b → b ∈ (m.ptgid p).barrierHead
  free : ∀ c n p id, q = .getScan (.init c n) p id → m.getBarrier p id = none
  back : ∀ v id b, (⟨P.proc v, id, P.numThreads v, b⟩ : Made) ∈ m.made → q = .waitEnter b →
    t ∈ P.tids v → ¬ InRound (P.tids v) (m.hist b).arrived t

theorem known_of_reach {P : Plan} {s : TestState} {t : Task} {a : TestAct}
    (h : Reach P.exec (Apart P) P.start s) (hC : Apart P s t a) :
    Known P t s.mem.1 (s.loc t).1 := by
  have hk := kernel_kept h
  have hF := reach_findable hk
  have hN := reach_numbered (hk.mono fun _ _ _ h => h.turn)
  have hR := reach_removal (hk.mono fun _ _ _ h => h.once)
  refine ⟨(reach_owns hk).1, fun v id n b he hu => ?_, fun p b hq => ?_, hC.free,
    fun v id b he hq ht hin => ?_⟩
  · refine ⟨lookUp_of_made hF hN he hu, fun p hp => ?_⟩
    exact (lookup_eq_some_iff (hN.ids p)).mpr ⟨hp, (hF.made _ he).2.1⟩
  · refine hR.dooms t p b ?_
    show ((s.loc t).1.stage).dooms = some (p, b)
    rw [hq]
    rfl
  · -- it would still be inside
    obtain ⟨k, hnum, hround⟩ := hin
    have hn : (s.mem.1.tally b).count.toNat = (P.tids v).length :=
      (congrArg BitVec.toNat (reach_made hk he)).trans (toNat_count P v)
    have hpos : 0 < (s.mem.1.tally b).count.toNat := hn ▸ List.length_pos_of_mem ht
    rw [← hn] at hround
    have hleft := not_left_of_filling (((reach_encoded hk).1 b).rounds hpos) hpos hround
    have hseat := reach_seated hk t b k hnum hleft
    rw [show (kernel s).loc t = _ from hq] at hseat
    cases hseat

section Driver
variable {P : Plan} {t v : Task} {m m' : Mem} {u : User} {q q' r : Pc} {p pl : Place} {a : Act}
  {b : Addr}

theorem At.unlinks {p' : Addr} (h : At P t m u (.destroyUnlink p' b) p) :
    Joined P t u ∧ u.barrier t = some b := by
  cases p with
  | destroyDone =>
      obtain ⟨hj, b', hb', hseek⟩ := h
      obtain ⟨-, rfl⟩ := hseek.aims
      exact ⟨hj, hb'.1⟩
  | initDone => cases h.1.1
  | waitDone id cnt =>
      obtain ⟨-, -, -, b', -, hseek⟩ := h
      cases hseek.aims.1
  | init | create _ | join _ | runDone | idle => cases h.1
  | reCnt _ _ | done => rcases h.1 with hr | hr <;> cases hr

theorem At.enters (h : At P t m u (.waitEnter b) p) :
    (∃ id cnt, p = .waitDone id cnt) ∧ u.created t = true ∧ u.barrier (P.maker t) = some b := by
  cases p with
  | waitDone id cnt =>
      obtain ⟨hpass, -, -, b', hb', hseek⟩ := h
      obtain ⟨-, rfl⟩ := hseek.aims
      exact ⟨⟨id, cnt, rfl⟩, hpass.created, hb'⟩
  | initDone => cases h.1.1
  | destroyDone =>
      obtain ⟨-, b', -, hseek⟩ := h
      cases hseek.aims.1
  | init | create _ | join _ | runDone | idle => cases h.1
  | reCnt _ _ | done => rcases h.1 with hr | hr <;> cases hr

/-- A `barrier_init` is where its `run_barriers` waits for it. -/
theorem At.inits {c : BitVec 32} (hq : q.initCount = some c) (h : At P t m u q p) :
    p = .initDone ∧ Inits P t m u q ∧ ∀ w ∈ P.tids t, u.created w = false := by
  have hno {who : Seeker} {id : BitVec 32} {b : Addr} (ha : Aims m who id b q) : False := by
    cases q with
    | getLockHead w _ _ | getScan w _ _ | getUnlockHead w _ _ =>
        obtain ⟨rfl, -⟩ := ha
        cases hq
    | initLockG _ | initFind _ | initUnlockG _ _ | initReadBid _ _ | initAlloc _ _ _
    | initLockHead _ _ _ | initLink _ _ _ | initUnlockHead _ _ _ _ => exact ha
    | _ => cases hq
  cases p with
  | initDone => exact ⟨rfl, h⟩
  | destroyDone =>
      obtain ⟨-, b', -, hseek⟩ := h
      exact (hno hseek.aims).elim
  | waitDone id cnt =>
      obtain ⟨-, -, -, b', -, hseek⟩ := h
      exact (hno hseek.aims).elim
  | init | create _ | join _ | runDone | idle =>
      rw [h.1] at hq
      cases hq
  | reCnt _ _ | done => rcases h.1 with rfl | rfl <;> cases hq

theorem store_cases (t : Task) (m : Mem) (u : User) (q : Pc) :
    (∃ c p n, q = .initLink c p n
        ∧ store t m u q = { u with barrier := Function.update u.barrier t (some m.brk) })
      ∨ (∃ c p b id, q = .initUnlockHead c p b id
        ∧ store t m u q = { u with barrierId := Function.update u.barrierId t id })
      ∨ store t m u q = u := by
  cases q with
  | initLink c p n => exact .inl ⟨c, p, n, rfl, rfl⟩
  | initUnlockHead c p b id => exact .inr (.inl ⟨c, p, b, id, rfl, rfl⟩)
  | _ => exact .inr (.inr rfl)

/-- The barriers that are there keep their rosters. -/
theorem rounds_driver (hk : Known P t m q) (hI : Shared P m u) (hA : At P t m u q p)
    (he : Barrier.exec P.proc t m q a = some (m', q')) (hb : u.barrier v = some b) :
    InStep (P.tids v) (m'.hist b).arrived := by
  rw [arrived_exec hk.fresh he]
  split
  · rename_i hq
    subst hq
    obtain ⟨-, hcreated, hb'⟩ := hA.enters
    obtain ⟨hmem, b', hb'', hmade⟩ := hI.made t hcreated
    obtain rfl := hI.inj _ _ b hb' hb
    obtain rfl : b' = b := Option.some.inj (hb''.symm.trans hb')
    refine (hI.rounds _ b' hb').concat (P.nodup _) hmem (hk.back _ _ b' hmade rfl hmem)
  · exact hI.rounds v b hb

theorem linked_driver (hk : Known P t m q) (hI : Shared P m u) (hA : At P t m u q p)
    (he : Barrier.exec P.proc t m q a = some (m', q')) (hb : u.barrier v = some b) :
    Joined P v u ∨ (m'.hist b).unlinked = 0 := by
  by_cases hq : ∃ p', q = .destroyUnlink p' b
  · obtain ⟨p', rfl⟩ := hq
    obtain ⟨hj, hb'⟩ := hA.unlinks
    obtain rfl := hI.inj _ _ b hb' hb
    exact .inl hj
  · have hm := (exec_regMove hk.fresh he).unlinked (hI.fresh v b hb) fun p' hp' => hq ⟨p', hp'⟩
    exact (hI.linked v b hb).imp_right fun h0 => hm.trans h0

theorem store_flags (t : Task) (m : Mem) (u : User) (q : Pc) :
    (store t m u q).created = u.created ∧ (store t m u q).ended = u.ended := by
  cases q <;> exact ⟨rfl, rfl⟩

theorem store_of_aims {who : Seeker} {id : BitVec 32} (h : Aims m who id b q) :
    store t m u q = u := by
  cases q <;> first | rfl | exact h.elim

/-- The variables of the others stay, and those a thread that has been created was told
    of. -/
theorem store_other (hvt : v ≠ t) : (store t m u q).barrier v = u.barrier v
    ∧ (store t m u q).barrierId v = u.barrierId v := by
  rcases store_cases t m u q with ⟨c, p', n, -, hu⟩ | ⟨c, p', b', id, -, hu⟩ | hu
  · rw [hu]
    exact ⟨Function.update_of_ne hvt _ _, rfl⟩
  · rw [hu]
    exact ⟨rfl, Function.update_of_ne hvt _ _⟩
  · rw [hu]
    exact ⟨rfl, rfl⟩

theorem store_maker (hI : Shared P m u) (hA : At P t m u q p) (hv : u.created v = true) :
    (store t m u q).barrier (P.maker v) = u.barrier (P.maker v)
      ∧ (store t m u q).barrierId (P.maker v) = u.barrierId (P.maker v) := by
  -- a `run_barriers` that is still in `barrier_init` has created nobody
  have hmaker {c : BitVec 32} (hq : q.initCount = some c) : P.maker v ≠ t := by
    intro hm
    have hnew := (hA.inits hq).2.2 v (hm ▸ (hI.made v hv).1)
    rw [hv] at hnew
    cases hnew
  rcases store_cases t m u q with ⟨c, p', n, hq, -⟩ | ⟨c, p', b', id, hq, -⟩ | hu
  · exact store_other (hmaker (c := c) (by rw [hq]; rfl))
  · exact store_other (hmaker (c := c) (by rw [hq]; rfl))
  · rw [hu]
    exact ⟨rfl, rfl⟩

/-- A barrier that is somebody's after the turn was so before, or has just been linked. -/
theorem store_barrier_cases (hb : (store t m u q).barrier v = some b) :
    u.barrier v = some b ∨ v = t ∧ b = m.brk ∧ ∃ c p n, q = .initLink c p n := by
  rcases store_cases t m u q with ⟨c, p', n, hq, hu⟩ | ⟨c, p', b', id, -, hu⟩ | hu
  · rw [hu] at hb
    change Function.update u.barrier t (some m.brk) v = some b at hb
    by_cases hvt : v = t
    · rw [hvt, Function.update_self] at hb
      exact .inr ⟨hvt, (Option.some.inj hb).symm, c, p', n, hq⟩
    · rw [Function.update_of_ne hvt] at hb
      exact .inl hb
  · rw [hu] at hb
    exact .inl hb
  · rw [hu] at hb
    exact .inl hb

theorem link_turn {c : BitVec 32} {p' : Addr} {n : Nat}
    (he : Barrier.exec P.proc t m (.initLink c p' n) a = some (m', q')) :
    m' = m.linkBarrier p' c ∧ q' = .initUnlockHead c p' m.brk (m.ptgid p').bidCount := by
  have hpc : ∀ r, Pc.initLink c p' n ≠ .user r := fun _ => nofun
  rcases driver_cases hpc he with hn | ⟨-, l, x, hq | hq, -⟩ | ⟨-, p'', x, hq, -⟩
  · cases hn
    exact ⟨rfl, rfl⟩
  · cases hq
  · cases hq
  · cases hq

/-- A barrier that has just been linked. -/
theorem hist_link (hf : Fresh m) {c : BitVec 32} {p' : Addr} :
    ((m.linkBarrier p' c).hist m.brk).arrived = []
      ∧ ((m.linkBarrier p' c).hist m.brk).unlinked = 0 := by
  rw [show (m.linkBarrier p' c).hist m.brk = _ from hf.hist m.brk (Nat.le_refl _)]
  exact ⟨rfl, rfl⟩

theorem Ready.driver (hf : Fresh m) (he : Barrier.exec P.proc t m q a = some (m', q')) {u' : User}
    (hu : u'.barrier v = u.barrier v ∧ u'.barrierId v = u.barrierId v) (h : Ready P v m u b) :
    Ready P v m' u' b := by
  rw [Ready, hu.1, hu.2]
  exact ⟨h.1, (exec_regMove hf he).made_mono h.2⟩

theorem Shared.driver (hk : Known P t m q) (hq : ∀ x ∈ q.addrs, x < m.brk) (hI : Shared P m u)
    (hA : At P t m u q p) (he : Barrier.exec P.proc t m q a = some (m', q')) :
    Shared P m' (store t m u q) := by
  have hbrk := (exec_bounds hk.fresh hq he).brk
  obtain ⟨hcreated, hended⟩ := store_flags t m u q
  refine ⟨fun v b hb => ?_, fun v v' b hb hb' => ?_, fun w hw => ?_, fun v b hb => ?_,
    fun v b hb => ?_⟩
  · rcases store_barrier_cases hb with hold | ⟨-, rfl, c, p', n, rfl⟩
    · exact Nat.lt_of_lt_of_le (hI.fresh v b hold) hbrk
    · rw [(link_turn he).1]
      exact Nat.lt_succ_self _
  · rcases store_barrier_cases hb with hold | ⟨rfl, rfl, -⟩
    · rcases store_barrier_cases hb' with hold' | ⟨-, rfl, -⟩
      · exact hI.inj v v' b hold hold'
      · exact absurd (hI.fresh v _ hold) (Nat.lt_irrefl _)
    · rcases store_barrier_cases hb' with hold' | ⟨rfl, -, -⟩
      · exact absurd (hI.fresh v' _ hold') (Nat.lt_irrefl _)
      · rfl
  · rw [hcreated] at hw
    obtain ⟨hmem, b, hb⟩ := hI.made w hw
    exact ⟨hmem, b, hb.driver hk.fresh he (store_maker hI hA hw)⟩
  · rw [Joined, hcreated, hended]
    rcases store_barrier_cases hb with hold | ⟨-, rfl, c, p', n, rfl⟩
    · exact linked_driver hk hI hA he hold
    · rw [(link_turn he).1]
      exact .inr (hist_link hk.fresh).2
  · rcases store_barrier_cases hb with hold | ⟨-, rfl, c, p', n, rfl⟩
    · exact rounds_driver hk hI hA he hold
    · rw [(link_turn he).1, (hist_link hk.fresh).1]
      exact inStep_nil

/-- A turn of `barrier_init`. -/
theorem Inits.driver (hk : Known P t m q) (h : Inits P t m u q) (hpc : ∀ r, q ≠ .user r)
    (he : Barrier.exec P.proc t m q a = some (m', q')) : Inits P t m' (store t m u q) q' := by
  have hnext : next P.proc t m q = some (m', q') := by
    rcases driver_cases hpc he with hn | ⟨-, l, c, hq, -⟩ | ⟨-, p', c, rfl, -⟩
    · exact hn
    · rcases hq with rfl | rfl <;> cases h.1
    · cases h.1
  cases q with
  | user r => exact absurd rfl (hpc r)
  | initLockG c | initLockHead c p' n =>
      obtain ⟨-, rfl, rfl⟩ := takeLock_eq_some hnext
      exact h
  | getLockHead w p' id =>
      obtain ⟨-, rfl, rfl⟩ := takeLock_eq_some hnext
      rcases w with ⟨c, n⟩ | w
      · exact h
      · cases h.1
  | getScan w p' id =>
      cases hnext
      rcases w with ⟨c, n⟩ | w
      · exact ⟨Option.some.inj h.1, hk.free c n p' id rfl, h.2⟩
      · cases h.1
  | getUnlockHead w p' r =>
      cases hnext
      rcases w with ⟨c, n⟩ | w
      · obtain ⟨rfl, rfl, hnone⟩ := h
        exact ⟨rfl, hnone⟩
      · cases h.1
  | initLink c p' n =>
      obtain ⟨rfl, rfl⟩ := link_turn he
      exact ⟨Option.some.inj h.1, Function.update_self .., (hist_link hk.fresh).2⟩
  | initUnlockHead c p' b id =>
      cases hnext
      obtain ⟨rfl, hb, h0⟩ := h
      refine ⟨rfl, b, ⟨hb, ?_⟩, ?_⟩
      · show (⟨P.proc t, Function.update u.barrierId t id t, P.numThreads t, b⟩ : Made) ∈ _
        rw [Function.update_self]
        exact List.mem_cons_self ..
      · exact h0
  | initFind c | initUnlockG c p' | initReadBid c p' | initAlloc c p' n =>
      cases hnext
      exact h
  | _ => cases h.1

/-- What a thread has after a turn of its call. -/
theorem at_driver (hk : Known P t m q) (hI : Shared P m u) (hA : At P t m u q p)
    (hpc : ∀ r, q ≠ .user r) (he : Barrier.exec P.proc t m q a = some (m', q')) :
    At P t m' (store t m u q) q' p := by
  obtain ⟨hcreated, hended⟩ := store_flags t m u q
  cases p with
  | initDone =>
      refine ⟨hA.1.driver hk hpc he, ?_⟩
      rw [hcreated]
      exact hA.2
  | destroyDone =>
      obtain ⟨hj, b, hb, hseek⟩ := hA
      rw [store_of_aims hseek.aims]
      refine ⟨hj, b, hb.driver hk.fresh he ⟨rfl, rfl⟩, ?_⟩
      exact hseek.driver hk.fresh (hI.fresh t b hb.1) (hk.live t _ _ b hb.2)
        (fun p' => hk.list p' b)
        hpc he
  | waitDone id cnt =>
      obtain ⟨hpass, h1, h2, b, hb, hseek⟩ := hA
      rw [store_of_aims hseek.aims]
      refine ⟨hpass, h1, h2, b, hb, ?_⟩
      refine hseek.driver hk.fresh (hI.fresh _ b hb) (fun h0 => ?_) (fun p' => hk.list p' b) hpc he
      obtain ⟨hmem, b', hb', hmade⟩ := hI.made t hpass.created
      obtain rfl : b' = b := Option.some.inj (hb'.symm.trans hb)
      rw [(P.makes _ t hmem).2.1, hpass.id]
      exact hk.live _ _ _ b' hmade h0
  | init | create _ | join _ | runDone | idle => exact absurd hA.1 (hpc _)
  | reCnt _ _ | done => rcases hA.1 with hr | hr <;> exact absurd hr (hpc _)

/-- What a thread has after a turn of another thread's call. -/
theorem at_driver_other (hk : Known P t m q) (hI : Shared P m u) (hA : At P t m u q p)
    (he : Barrier.exec P.proc t m q a = some (m', q')) (hvt : v ≠ t) (hV : At P v m u r pl) :
    At P v m' (store t m u q) r pl := by
  obtain ⟨hcreated, hended⟩ := store_flags t m u q
  have hsame := store_other (m := m) (u := u) (q := q) hvt
  have hne {b : Addr} (hb : u.barrier v = some b) : ∀ p', q ≠ .destroyUnlink p' b := by
    rintro p' rfl
    exact hvt (hI.inj v t b hb hA.unlinks.2)
  have hlinked {b : Addr} (hb : u.barrier v = some b) (h0 : (m.hist b).unlinked = 0) :
      (m'.hist b).unlinked = 0 :=
    ((exec_regMove hk.fresh he).unlinked (hI.fresh v b hb) (hne hb)).trans h0
  have hup (h : Up P v m u) : Up P v m' (store t m u q) := by
    obtain ⟨b, hb, h0⟩ := h
    exact ⟨b, hb.driver hk.fresh he hsame, hlinked hb.1 h0⟩
  have hpass {id : BitVec 32} (h : Passing P v u id) : Passing P v (store t m u q) id := by
    refine ⟨by rw [hcreated]; exact h.created, by rw [hended]; exact h.going, ?_⟩
    rw [(store_maker hI hA h.created).2]
    exact h.id
  cases pl with
  | init => exact ⟨hV.1, by rw [hsame.1]; exact hV.2.1, by rw [hcreated]; exact hV.2.2⟩
  | initDone =>
      refine ⟨?_, by rw [hcreated]; exact hV.2⟩
      have hinit := hV.1
      cases r with
      | user x => exact ⟨hinit.1, hup hinit.2⟩
      | initUnlockHead c p' b id =>
          exact ⟨hinit.1, hsame.1.trans hinit.2.1, hlinked hinit.2.1 hinit.2.2⟩
      | getLockHead w _ _ | getScan w _ _ | getUnlockHead w _ _ =>
          cases w <;> simpa only [Inits, hsame.1] using hinit
      | _ => simpa only [Inits, hsame.1] using hinit
  | create idx => exact ⟨hV.1, hup hV.2.1, by rw [hcreated]; exact hV.2.2⟩
  | join idx =>
      exact ⟨hV.1, hup hV.2.1, by rw [hcreated]; exact hV.2.2.1, by rw [hended]; exact hV.2.2.2⟩
  | destroyDone =>
      obtain ⟨hj, b, hb, hseek⟩ := hV
      refine ⟨by rw [Joined, hcreated, hended]; exact hj, b, hb.driver hk.fresh he hsame, ?_⟩
      rw [hsame.2]
      exact hseek.other hk.fresh (hI.fresh v b hb.1) (hne hb.1) he
  | runDone =>
      obtain ⟨hq0, hj, b, hb, hgone⟩ := hV
      refine ⟨hq0, by rw [Joined, hcreated, hended]; exact hj, b, hb.driver hk.fresh he hsame, ?_⟩
      have hkept : (m'.hist b).unlinked = (m.hist b).unlinked :=
        (exec_regMove hk.fresh he).unlinked (hI.fresh v b hb.1) (hne hb.1)
      rw [hkept]
      exact hgone
  | idle => exact ⟨hV.1, by rw [hended]; exact hV.2⟩
  | reCnt id cnt => exact ⟨hV.1, hpass hV.2.1, hV.2.2⟩
  | waitDone id cnt =>
      obtain ⟨hp, h1, h2, b, hb, hseek⟩ := hV
      refine ⟨hpass hp, h1, h2, b, (store_maker hI hA hp.created).1.trans hb, ?_⟩
      refine hseek.other hk.fresh (hI.fresh _ b hb) ?_ he
      -- its maker waits for it before it destroys the barrier
      rintro p' rfl
      obtain ⟨hj, hb'⟩ := hA.unlinks
      have hmaker := hI.inj _ _ b hb hb'
      have hend := (hj v (hmaker ▸ (hI.made v hp.created).1)).2
      rw [hp.going] at hend
      cases hend
  | done => exact ⟨hV.1, by rw [hcreated]; exact hV.2.1, by rw [hended]; exact hV.2.2⟩

/-- Who has not been created has not arrived. -/
theorem visits_of_not_created (hA : At P v m u r pl) (hv : u.created v = false) :
    visits P r pl = 0 := by
  cases pl with
  | reCnt id cnt =>
      have := hA.2.1.created
      rw [hv] at this
      cases this
  | waitDone id cnt =>
      have := hA.1.created
      rw [hv] at this
      cases this
  | done =>
      have := hA.2.1
      rw [hv] at this
      cases this
  | _ => rfl

theorem mine_driver (hk : Known P t m q) (hI : Shared P m u) (hM : Mine P t m u q p)
    (hpc : ∀ r, q ≠ .user r) (he : Barrier.exec P.proc t m q a = some (m', q')) :
    Mine P t m' (store t m u q) q' p := by
  refine ⟨at_driver hk hI hM.place hpc he, fun b hb ht => ?_⟩
  rcases store_barrier_cases hb with hold | ⟨hmaker, rfl, c, p', n, rfl⟩
  · have hcame := hM.came b hold ht
    rw [arrived_exec hk.fresh he]
    by_cases hwait : ∃ id cnt, p = .waitDone id cnt
    · obtain ⟨id, cnt, rfl⟩ := hwait
      obtain ⟨-, h1, -, b', hb', hseek⟩ := hM.place
      obtain rfl : b' = b := Option.some.inj (hb'.symm.trans hold)
      have hbefore := before_driver hseek.aims hpc he
      split
      · rename_i hq
        rw [if_pos hq] at hbefore
        rw [List.count_append, hcame, visits, visits, if_pos hbefore.1,
          if_neg (by rw [hbefore.2]; exact nofun), List.count_singleton_self]
        omega
      · rename_i hq
        rw [if_neg hq] at hbefore
        rw [hcame, visits, visits, hbefore]
    · -- nobody arrives at another place
      have hq : q ≠ .waitEnter b := by
        rintro rfl
        exact hwait hM.place.enters.1
      rw [if_neg hq, hcame]
      cases p with
      | waitDone id cnt => exact absurd ⟨id, cnt, rfl⟩ hwait
      | _ => rfl
  · obtain ⟨rfl, -⟩ := hM.place.inits (c := c) rfl
    rw [(link_turn he).1, (hist_link hk.fresh).1]
    rfl

theorem mine_driver_other (hk : Known P t m q) (hI : Shared P m u) (hM : Mine P t m u q p)
    (he : Barrier.exec P.proc t m q a = some (m', q')) (hvt : v ≠ t) (hV : Mine P v m u r pl) :
    Mine P v m' (store t m u q) r pl := by
  refine ⟨at_driver_other hk hI hM.place he hvt hV.place, fun b hb hmem => ?_⟩
  rcases store_barrier_cases hb with hold | ⟨hmaker, rfl, c, p', n, rfl⟩
  · rw [arrived_exec hk.fresh he, ← hV.came b hold hmem]
    split
    · rw [List.count_append, List.count_singleton, if_neg (by simpa using Ne.symm hvt),
        Nat.add_zero]
    · rfl
  · have hnew := (hM.place.inits (c := c) rfl).2.2 v (hmaker ▸ hmem)
    rw [(link_turn he).1, (hist_link hk.fresh).1, visits_of_not_created hV.place hnew]
    rfl

end Driver

/-! ## Every run -/

theorem reach_mine {P : Plan} {s : TestState} (h : Reach P.exec (Apart P) P.start s) :
    Shared P s.mem.1 s.mem.2 ∧ ∀ t, Mine P t s.mem.1 s.mem.2 (s.loc t).1 (s.loc t).2 := by
  refine Reach.modular (I := fun x => Shared P x.1 x.2)
    (P := fun t x q => Mine P t x.1 x.2 q.1 q.2) ⟨?_, fun t => ?_⟩ ?_ ?_ h
  · exact ⟨nofun, nofun, nofun, nofun, nofun⟩
  · show Mine P t Mem.initial _ (.user none) (if P.tids t = [] then .idle else .init)
    refine ⟨?_, nofun⟩
    split
    · exact ⟨rfl, rfl⟩
    · exact ⟨rfl, rfl, fun _ _ => rfl⟩
  · intro s t a x' q' hr hC hI hM he
    cases turn_of_exec he with
    | own r u p hq hs hx hq' =>
        rw [hx, hq']
        exact ⟨hI.step hM.place (step_cases hs), mine_step hI hM ⟨r, hq⟩ (step_cases hs)⟩
    | call r u c p hq hs hx hq' =>
        rw [hx, hq']
        exact ⟨hI.step hM.place (step_cases hs), mine_step hI hM ⟨r, hq⟩ (step_cases hs)⟩
    | driver m pc hpc hb hx hq' =>
        have hk := known_of_reach hr hC
        have haddrs : ∀ y ∈ (s.loc t).1.addrs, y < s.mem.1.brk :=
          ((reach_owns (kernel_kept hr)).2 t).bounded
        rw [hx, hq']
        exact ⟨hI.driver hk haddrs hM.place hb, mine_driver hk hI hM hpc hb⟩
  · intro s t v a x' q' hr hC htv hI hM hV he
    cases turn_of_exec he with
    | own r u p hq hs hx hq' =>
        rw [hx]
        exact (step_cases hs).grows.mine_other (Ne.symm htv) hV
    | call r u c p hq hs hx hq' =>
        rw [hx]
        exact (step_cases hs).grows.mine_other (Ne.symm htv) hV
    | driver m pc hpc hb hx hq' =>
        rw [hx]
        exact mine_driver_other (known_of_reach hr hC) hI hM hb (Ne.symm htv) hV

/-- With one `run_barriers` in each process the turns are `Apart` by themselves. -/
theorem apart_of_alone {P : Plan} (ha : P.Alone) {s : TestState}
    (h : Reach P.exec Free P.start s) : Reach P.exec (Apart P) P.start s := by
  obtain ⟨boss, hboss⟩ := ha.boss
  refine h.strengthen fun s s' t a hr hap _ _ => ?_
  have hk := kernel_kept hap
  have hin := reach_inHand (kernel_oneManager hboss hr)
  have hR := reach_removal (hk.mono fun _ _ _ h => h.once)
  refine ⟨fun b => kept_turn hin hR t b, fun c n p id hq => ?_⟩
  have hq' : (kernel s).loc t = .getScan (.init c n) p id := hq
  have hruns : P.tids t ≠ [] := (reach_runs hr t).mp (reach_manages hr t (by rw [hq]; rfl))
  have hnone : s.mem.2.barrier t = none := by
    have hinit := (reach_mine hap).2 t |>.place.inits (c := c) (by rw [hq]; rfl)
    rw [hq] at hinit
    exact hinit.2.1.2
  have htg : (s.mem.1.reg.record p).tgid = P.proc t := (hin t).own p (by rw [hq']; rfl)
  have hlinks : (s.mem.1.reg.record p).links = 0 := reach_unlinked ha hr t hruns hnone p htg
  -- a record that has had no barrier has none
  refine lookup_eq_none_iff.mpr fun b hb => ?_
  obtain ⟨j, hj, -⟩ := (reach_numbered (hk.mono fun _ _ _ h => h.turn)).below p b hb
  exact absurd (hlinks ▸ hj) (Nat.not_lt_zero j)

/-- Turns of a program with one `run_barriers` in each process, or turns that are
    `Apart`. -/
def Orderly (P : Plan) (s : TestState) (t : Task) (a : TestAct) : Prop := P.Alone ∨ Apart P s t a

theorem apart_of_orderly {P : Plan} {s : TestState} (h : Reach P.exec (Orderly P) P.start s) :
    Reach P.exec (Apart P) P.start s := by
  by_cases ha : P.Alone
  · exact apart_of_alone ha (h.mono fun _ _ _ _ => trivial)
  · exact h.mono fun _ _ _ hC => hC.resolve_left ha

end BarrierTest
