import KernelRocks.BarrierManagerProofs
import KernelRocks.BarrierProgressProofs
import KernelRocks.RosterProofs

/-! # `barrier_user_sys.c` — the test program over the driver

    `run_barriers` makes a barrier for `num_threads` threads, creates the threads,
    joins them and destroys the barrier; `pfunction` passes the barrier `SYNC_ROUNS`
    times.  The program is a machine of its own, whose threads take turns in their
    own code and, during a call, in the driver's.

    * `Plan` — who runs `run_barriers` and who runs `pfunction`, in any number of
      processes; `Plan.exec` — one turn.
    * `kernel_reach` — what the driver sees of a run is a run of the driver.
    * `Apart` — what a process with several `run_barriers` needs of the turns; with one
      in each process it holds of all of them (`apart_of_alone`). -/

namespace BarrierTest

open Barrier Interleaving KeyedList Roster

/-- Thread `t` runs `run_barriers` for the threads `tids t`, if there are any; a thread
    of such a list runs `pfunction`.  The program has `SYNC_ROUNS` = 100 and lists
    of 2, 3, 5 and 20. -/
structure Plan where
  proc : Task → Pid
  tids : Task → List Task
  maker : Task → Task
  syncRouns : Nat
  nodup : ∀ t, (tids t).Nodup
  makes : ∀ t, ∀ u ∈ tids t, maker u = t ∧ proc u = proc t ∧ tids u = []
  int : ∀ t, (tids t).length < 2 ^ 31

/-- Where a thread is in its own code; during a call, where it goes on after it. -/
inductive Place where
  -- run_barriers
  | init
  | initDone
  | create (idx : Nat)
  | join (idx : Nat)
  | destroyDone
  | runDone
  -- pfunction
  | idle
  | reCnt (barrierId : BitVec 32) (cnt : Nat)
  | waitDone (barrierId : BitVec 32) (cnt : Nat)
  | done
  deriving DecidableEq

/-- The variable `barrier_id` of each `run_barriers`, and the threads that have been
    created and that have returned.  `barrier` is a ghost: the barrier that the
    `barrier_init` of a `run_barriers` has linked. -/
structure User where
  barrierId : Task → BitVec 32
  created : Task → Bool
  ended : Task → Bool
  barrier : Task → Option Addr

abbrev TestState := Sys Task (Mem × User) (Pc × Place)

/-- A turn runs code, or is one of the two turns of the driver that run none. -/
inductive TestAct where
  | run
  | signal
  | fault
  deriving DecidableEq

/-- The turn of the driver. -/
def TestAct.act : TestAct → Act
  | .run => .run
  | .signal => .signal
  | .fault => .fault

/-- What a turn of the driver leaves in user memory: `barrier_init` copies the id out. -/
def store (t : Task) (m : Mem) (u : User) : Pc → User
  | .initLink _ _ _ => { u with barrier := Function.update u.barrier t (some m.brk) }
  | .initUnlockHead _ _ _ id => { u with barrierId := Function.update u.barrierId t id }
  | _ => u

namespace Plan

variable (P : Plan)

def numThreads (t : Task) : BitVec 32 := BitVec.ofNat 32 (P.tids t).length

/-- The next turn of a thread in user mode, with the call it makes if any. -/
def step (t : Task) (u : User) : Place → Option (User × Option Call × Place)
  | .init => some (u, some (.init (P.numThreads t)), .initDone)
  | .initDone => some (u, none, .create 0)
  | .create idx =>
      match (P.tids t)[idx]? with
      | some w =>
          some ({ u with created := Function.update u.created w true }, none, .create (idx + 1))
      | none => some (u, none, .join 0)
  | .join idx =>
      match (P.tids t)[idx]? with
      | some w => if u.ended w then some (u, none, .join (idx + 1)) else none
      | none => some (u, some (.destroy (u.barrierId t)), .destroyDone)
  | .destroyDone => some (u, none, .runDone)
  | .runDone => none
  | .idle => if u.created t then some (u, none, .reCnt (u.barrierId (P.maker t)) 0) else none
  | .reCnt id cnt =>
      if P.syncRouns = cnt then
        some ({ u with ended := Function.update u.ended t true }, none, .done)
      else some (u, some (.wait id), .waitDone id (cnt + 1))
  | .waitDone id cnt => some (u, none, .reCnt id cnt)
  | .done => none

/-- One turn of thread `t`. -/
def exec (t : Task) (x : Mem × User) (q : Pc × Place) : TestAct → Option ((Mem × User) × Pc × Place)
  | .run =>
      match q.1 with
      | .user _ =>
          (P.step t x.2 q.2).map fun r => ((x.1, r.1), r.2.1.elim q.1 Call.entry, r.2.2)
      | pc => (next P.proc t x.1 pc).map fun r => ((r.1, store t x.1 x.2 pc), r.2, q.2)
  | .signal => (Barrier.exec P.proc t x.1 q.1 .signal).map fun r => ((r.1, x.2), r.2, q.2)
  | .fault => (Barrier.exec P.proc t x.1 q.1 .fault).map fun r => ((r.1, x.2), r.2, q.2)

/-- Nothing has been called or created. -/
def start : TestState where
  mem := (Mem.initial, ⟨fun _ => 0, fun _ => false, fun _ => false, fun _ => none⟩)
  loc t := (.user none, if P.tids t = [] then .idle else .init)

end Plan

/-- What the driver sees of a state. -/
abbrev kernel (s : TestState) : State := s.map Prod.fst Prod.fst

/-! ## A turn -/

section Turn
variable {P : Plan} {t : Task} {x x' : Mem × User} {q q' : Pc × Place} {a : TestAct}

/-- A turn in user mode without a call, one that makes a call, and a turn of the
    driver. -/
inductive Turn (P : Plan) (t : Task) (x : Mem × User) (q : Pc × Place) (a : TestAct)
    (x' : Mem × User) (q' : Pc × Place) : Prop where
  | own (r : Option Int) (u : User) (p : Place) : q.1 = .user r →
      P.step t x.2 q.2 = some (u, none, p) → x' = (x.1, u) → q' = (q.1, p) → Turn P t x q a x' q'
  | call (r : Option Int) (u : User) (c : Call) (p : Place) : q.1 = .user r →
      P.step t x.2 q.2 = some (u, some c, p) → x' = (x.1, u) → q' = (c.entry, p) →
      Turn P t x q a x' q'
  | driver (m : Mem) (pc : Pc) : (∀ r, q.1 ≠ .user r) →
      Barrier.exec P.proc t x.1 q.1 a.act = some (m, pc) → x' = (m, store t x.1 x.2 q.1) →
      q' = (pc, q.2) → Turn P t x q a x' q'

theorem exec_kernel {pc : Pc} (hpc : ∀ r, pc ≠ .user r) (p : Place) :
    P.exec t x (pc, p) .run
      = (next P.proc t x.1 pc).map fun r => ((r.1, store t x.1 x.2 pc), r.2, p) := by
  cases pc with
  | user r => exact absurd rfl (hpc r)
  | _ => rfl

theorem turn_of_exec (h : P.exec t x q a = some (x', q')) : Turn P t x q a x' q' := by
  obtain ⟨pc, p⟩ := q
  cases a with
  | run =>
      by_cases hpc : ∀ r, pc ≠ .user r
      · rw [exec_kernel hpc] at h
        obtain ⟨⟨m, pc'⟩, hs, he⟩ := Option.map_eq_some_iff.mp h
        cases he
        exact .driver m pc' hpc hs rfl rfl
      · obtain ⟨r, rfl⟩ := not_forall_not.mp hpc
        obtain ⟨⟨u, c, p'⟩, hs, he⟩ := Option.map_eq_some_iff.mp h
        cases he
        cases c with
        | none => exact .own r u p' rfl hs rfl rfl
        | some c => exact .call r u c p' rfl hs rfl rfl
  | signal =>
      obtain ⟨⟨m, pc'⟩, hs, he⟩ := Option.map_eq_some_iff.mp h
      cases he
      rcases exec_cases hs with ⟨ha, -⟩ | ⟨-, c, r, ha, -⟩ | ⟨-, l, b, -, hq, -⟩ | ⟨-, _, _, ha, -⟩
      · cases ha
      · cases ha
      · rcases hq with rfl | rfl <;> exact .driver m pc' nofun hs rfl rfl
      · cases ha
  | fault =>
      obtain ⟨⟨m, pc'⟩, hs, he⟩ := Option.map_eq_some_iff.mp h
      cases he
      rcases exec_cases hs with ⟨ha, -⟩ | ⟨-, c, r, ha, -⟩ | ⟨-, l, b, ha, -⟩ | ⟨-, _, _, -, rfl, -⟩
      · cases ha
      · cases ha
      · cases ha
      · exact .driver m pc' nofun hs rfl rfl

/-- A turn of the driver is not a call: the thread is in the kernel. -/
theorem driver_cases {b : Act} {m m' : Mem} {pc pc' : Pc} {proc : Task → Pid}
    (hpc : ∀ r, pc ≠ .user r) (h : Barrier.exec proc t m pc b = some (m', pc')) :
    next proc t m pc = some (m', pc')
      ∨ (m' = m ∧ ∃ l c, (pc = .sleepSchedule l c ∨ pc = .sleepParked l c) ∧ pc' = .sleepFinish l c)
      ∨ (m' = m ∧ ∃ p c, pc = .destroyUnlink p c ∧ c ∉ (m.ptgid p).barrierHead) := by
  rcases exec_cases h with ⟨-, h⟩ | ⟨-, c, r, -, hq, -⟩ | ⟨hm, l, c, -, hq, hq'⟩ |
    ⟨hm, p, c, -, hq, hc, -⟩
  · exact .inl h
  · exact absurd hq (hpc r)
  · exact .inr (.inl ⟨hm, l, c, hq, hq'⟩)
  · exact .inr (.inr ⟨hm, p, c, hq, hc⟩)

end Turn

/-- The driver's part of a run is a run of the driver. -/
theorem kernel_reach {P : Plan} {C : TestState → Task → TestAct → Prop}
    {K : State → Task → Act → Prop}
    (hK : ∀ s t a b, Reach P.exec C P.start s → C s t a →
      (b = a.act ∨ ∃ c r u p, b = .call c ∧ (s.loc t).1 = .user r
        ∧ P.step t s.mem.2 (s.loc t).2 = some (u, some c, p)) → K (kernel s) t b)
    {s : TestState} (h : Reach P.exec C P.start s) : ReachWhen P.proc K (kernel s) := by
  refine Reach.project Prod.fst Prod.fst ?_ h
  intro s t a x' q' hr hC he
  cases turn_of_exec he with
  | own r u p _ _ hx hq =>
      rw [hx, hq]
      exact .inl ⟨rfl, rfl⟩
  | call r u c p hpc hs hx hq =>
      refine .inr ⟨.call c, hK s t a _ hr hC (.inr ⟨c, r, u, p, rfl, hpc, hs⟩), ?_⟩
      rw [hx, hq, hpc]
      rfl
  | driver m pc hpc hb hx hq =>
      refine .inr ⟨a.act, hK s t a _ hr hC (.inl rfl), ?_⟩
      rw [hb, hx, hq]

/-! ## Who is where -/

/-- Whose code a place is in. -/
def Place.runs : Place → Bool
  | .init | .initDone | .create _ | .join _ | .destroyDone | .runDone => true
  | .idle | .reCnt _ _ | .waitDone _ _ | .done => false

section Step
variable {P : Plan} {t : Task} {u u' : User} {p p' : Place} {c : Option Call}

/-- The turns of a thread in user mode. -/
inductive Step (P : Plan) (t : Task) (u : User) : Place → User → Option Call → Place → Prop where
  | init : Step P t u .init u (some (.init (P.numThreads t))) .initDone
  | initDone : Step P t u .initDone u none (.create 0)
  | create {idx : Nat} {w : Task} : (P.tids t)[idx]? = some w →
      Step P t u (.create idx) { u with created := Function.update u.created w true } none
        (.create (idx + 1))
  | created {idx : Nat} : (P.tids t)[idx]? = none → Step P t u (.create idx) u none (.join 0)
  | join {idx : Nat} {w : Task} : (P.tids t)[idx]? = some w → u.ended w = true →
      Step P t u (.join idx) u none (.join (idx + 1))
  | joined {idx : Nat} : (P.tids t)[idx]? = none →
      Step P t u (.join idx) u (some (.destroy (u.barrierId t))) .destroyDone
  | destroyDone : Step P t u .destroyDone u none .runDone
  | idle : u.created t = true → Step P t u .idle u none (.reCnt (u.barrierId (P.maker t)) 0)
  | ret {id : BitVec 32} : Step P t u (.reCnt id P.syncRouns)
      { u with ended := Function.update u.ended t true } none .done
  | wait {id : BitVec 32} {cnt : Nat} : cnt ≠ P.syncRouns →
      Step P t u (.reCnt id cnt) u (some (.wait id)) (.waitDone id (cnt + 1))
  | waitDone {id : BitVec 32} {cnt : Nat} : Step P t u (.waitDone id cnt) u none (.reCnt id cnt)

theorem step_cases (h : P.step t u p = some (u', c, p')) : Step P t u p u' c p' := by
  cases p with
  | init => cases h; exact .init
  | initDone => cases h; exact .initDone
  | create idx =>
      rw [Plan.step] at h
      split at h
      · rename_i w hw
        cases h
        exact .create hw
      · rename_i hw
        cases h
        exact .created hw
  | join idx =>
      rw [Plan.step] at h
      split at h
      · rename_i w hw
        split at h
        · rename_i hended
          cases h
          exact .join hw hended
        · cases h
      · rename_i hw
        cases h
        exact .joined hw
  | destroyDone => cases h; exact .destroyDone
  | runDone => cases h
  | idle =>
      rw [Plan.step] at h
      split at h
      · rename_i hcreated
        cases h
        exact .idle hcreated
      · cases h
  | reCnt id cnt =>
      rw [Plan.step] at h
      split at h
      · rename_i hcnt
        cases h
        subst hcnt
        exact .ret
      · rename_i hcnt
        cases h
        exact .wait (Ne.symm hcnt)
  | waitDone id cnt => cases h; exact .waitDone
  | done => cases h

theorem Step.runs (h : Step P t u p u' c p') : p'.runs = p.runs := by
  cases h <;> rfl

/-- Only `run_barriers` makes barriers and destroys them. -/
theorem Step.manages {d : Call} (h : Step P t u p u' (some d) p') (hd : d.manages = true) :
    p.runs = true := by
  cases h with
  | init | joined => rfl
  | wait => cases hd

theorem Step.barrier (h : Step P t u p u' c p') :
    u'.barrier = u.barrier ∧ u'.barrierId = u.barrierId := by
  cases h <;> exact ⟨rfl, rfl⟩

end Step

/-- A thread stays in the code it was made for. -/
theorem reach_runs {P : Plan} {C : TestState → Task → TestAct → Prop} {s : TestState}
    (h : Reach P.exec C P.start s) (t : Task) : (s.loc t).2.runs = true ↔ P.tids t ≠ [] := by
  refine (Reach.modular (I := fun _ => True)
    (P := fun t _ q => q.2.runs = true ↔ P.tids t ≠ []) ⟨trivial, fun t => ?_⟩ ?_ ?_ h).2 t
  · show (if P.tids t = [] then Place.idle else Place.init).runs = true ↔ P.tids t ≠ []
    split
    · rename_i ht
      exact iff_of_false nofun (not_not_intro ht)
    · rename_i ht
      exact iff_of_true rfl ht
  · intro s t a x' q' _ _ _ hrole he
    refine ⟨trivial, ?_⟩
    cases turn_of_exec he with
    | own r u p _ hs _ hq => rw [hq, (step_cases hs).runs, hrole]
    | call r u c p _ hs _ hq => rw [hq, (step_cases hs).runs, hrole]
    | driver m pc _ _ _ hq => rw [hq, hrole]
  · exact fun s t u a m' q' _ _ _ _ _ hu _ => hu

/-- The calls that make and destroy barriers are made in `run_barriers`. -/
theorem reach_manages {P : Plan} {C : TestState → Task → TestAct → Prop} {s : TestState}
    (h : Reach P.exec C P.start s) (t : Task) (hq : (s.loc t).1.manages = true) :
    (s.loc t).2.runs = true := by
  refine (Reach.modular (I := fun _ => True)
    (P := fun _ _ q => q.1.manages = true → q.2.runs = true) ⟨trivial, fun t ht => ?_⟩ ?_ ?_ h).2
    t hq
  · cases ht
  · intro s t a x' q' _ _ _ hI he
    refine ⟨trivial, ?_⟩
    cases turn_of_exec he with
    | own r u p hpc hs _ hq =>
        rw [hq, hpc]
        exact nofun
    | call r u c p _ hs _ hq =>
        rw [hq]
        intro hc
        exact (step_cases hs).runs.trans ((step_cases hs).manages (manages_entry hc))
    | driver m pc _ hb _ hq =>
        rw [hq]
        intro hpc'
        rcases exec_manages hb hpc' with hold | ⟨c, ha, -⟩
        · exact hI hold
        · cases a <;> cases ha
  · exact fun s t u a m' q' _ _ _ _ _ hu _ => hu

/-! ## One `run_barriers` in each process, and several -/

/-- What several `run_barriers` of one process have to be spared: the crossings of `Kept`,
    and that the id one of them has read is taken by another before it looks for it. -/
structure Apart (P : Plan) (s : TestState) (t : Task) (_ : TestAct) : Prop where
  kept : ∀ b, Kept P.proc (kernel s) t b
  free : ∀ c n p id, (s.loc t).1 = .getScan (.init c n) p id → s.mem.1.getBarrier p id = none

theorem kernel_kept {P : Plan} {s : TestState} (h : Reach P.exec (Apart P) P.start s) :
    ReachWhen P.proc (Kept P.proc) (kernel s) :=
  kernel_reach (fun _ _ _ b _ hC _ => hC.kept b) h

/-- Each process has one `run_barriers`, as in `dev_run` and `dev_run2`. -/
def Plan.Alone (P : Plan) : Prop :=
  ∀ t t', P.tids t ≠ [] → P.tids t' ≠ [] → P.proc t = P.proc t' → t = t'

section Alone
variable {P : Plan} {s : TestState}

theorem Plan.Alone.boss (ha : P.Alone) :
    ∃ boss : Pid → Task, ∀ t, P.tids t ≠ [] → t = boss (P.proc t) := by
  let runner : Pid → Task → Prop := fun g t => P.tids t ≠ [] ∧ P.proc t = g
  refine ⟨fun g => Classical.epsilon (runner g), fun t ht => ?_⟩
  obtain ⟨hruns, hproc⟩ : runner (P.proc t) (Classical.epsilon (runner (P.proc t))) :=
    Classical.epsilon_spec ⟨t, ht, rfl⟩
  exact ha t _ ht hruns hproc.symm

theorem kernel_oneManager {C : TestState → Task → TestAct → Prop} {boss : Pid → Task}
    (hboss : ∀ t, P.tids t ≠ [] → t = boss (P.proc t)) (h : Reach P.exec C P.start s) :
    ReachWhen P.proc (OneManager P.proc boss) (kernel s) := by
  refine kernel_reach (fun s t a b hr _ hb => ?_) h
  rintro c rfl hc
  rcases hb with ha | ⟨c', r, u, p, ⟨⟩, -, hs⟩
  · cases a <;> cases ha
  · exact hboss t ((reach_runs hr t).mp ((step_cases hs).manages hc))

/-- A process whose `run_barriers` has not linked its barrier has had none. -/
def Unlinked (P : Plan) (s : TestState) : Prop :=
  ∀ t, P.tids t ≠ [] → s.mem.2.barrier t = none →
    ∀ p, (s.mem.1.reg.record p).tgid = P.proc t → (s.mem.1.reg.record p).links = 0

theorem store_barrier {t : Task} {m : Mem} {u : User} {pc : Pc} {v : Task}
    (h : (store t m u pc).barrier v = none) :
    u.barrier v = none ∧ (v = t → ∀ c p n, pc ≠ .initLink c p n) := by
  cases pc with
  | initLink c p n =>
      change Function.update u.barrier t (some m.brk) v = none at h
      by_cases hv : v = t
      · rw [hv, Function.update_self] at h
        cases h
      · rw [Function.update_of_ne hv] at h
        exact ⟨h, fun he => absurd he hv⟩
  | _ => exact ⟨h, fun _ _ _ _ => nofun⟩

theorem reach_unlinked {C : TestState → Task → TestAct → Prop} (ha : P.Alone)
    (h : Reach P.exec C P.start s) : Unlinked P s := by
  obtain ⟨boss, hboss⟩ := ha.boss
  refine Reach.invariant (I := Unlinked P) (fun t _ _ p _ => rfl) ?_ h
  intro s s' v a hr hI _ hs t ht hnone p hp
  obtain ⟨x', q', he, rfl⟩ := turn_eq_some hs
  cases turn_of_exec he with
  | own r u p' _ hst hx _ =>
      rw [hx] at hnone hp ⊢
      rw [show (s.mem.1, u).2.barrier = _ from (step_cases hst).barrier.1] at hnone
      exact hI t ht hnone p hp
  | call r u c p' _ hst hx _ =>
      rw [hx] at hnone hp ⊢
      rw [show (s.mem.1, u).2.barrier = _ from (step_cases hst).barrier.1] at hnone
      exact hI t ht hnone p hp
  | driver m pc hpc hb hx _ =>
      have hk := kernel_oneManager hboss hr
      rw [hx] at hnone hp ⊢
      obtain ⟨hold, hself⟩ := store_barrier hnone
      rcases (exec_regMove (reach_owns hk).1 hb).record p with ⟨-, h0⟩ | ⟨htgid, hlinks⟩
      · exact h0
      · have htg : (s.mem.1.reg.record p).tgid = P.proc t := htgid.symm.trans hp
        rcases hlinks with hlinks | ⟨c, n, hq⟩
        · exact hlinks.trans (hI t ht hold p htg)
        · -- the thread that links is the one `run_barriers` of the process
          have hv := reach_inHand hk v
          have hq' : (kernel s).loc v = .initLink c p n := hq
          rw [hq'] at hv
          have hproc : P.proc v = P.proc t := (hv.own p rfl).symm.trans htg
          have hvt : t = v :=
            calc t = boss (P.proc t) := hboss t ht
              _ = boss (P.proc v) := by rw [hproc]
              _ = v := (hv.manager rfl).symm
          exact absurd hq (hself hvt c p n)

end Alone

/-- `dev_run`, with `t_num` threads and `SYNC_ROUNS` rounds. -/
def devRun (tNum syncRouns : Nat) (h : tNum < 2 ^ 31) : Plan where
  proc _ := 0
  tids t := if t = 0 then List.range' 1 tNum else []
  maker _ := 0
  syncRouns := syncRouns
  nodup t := by
    split
    · exact List.nodup_range'
    · exact List.nodup_nil
  makes t u hu := by
    split at hu
    · rename_i ht
      refine ⟨ht.symm, rfl, if_neg ?_⟩
      rintro rfl
      exact absurd (List.mem_range'_1.mp hu).1 (by decide)
    · cases hu
  int t := by
    split
    · rw [List.length_range']
      exact h
    · exact Nat.two_pow_pos 31

theorem alone_devRun (tNum syncRouns : Nat) (h : tNum < 2 ^ 31) :
    (devRun tNum syncRouns h).Alone := by
  have hzero (t : Task) (ht : (devRun tNum syncRouns h).tids t ≠ []) : t = 0 := by
    by_contra hne
    exact ht (if_neg hne)
  exact fun t t' ht ht' _ => (hzero t ht).trans (hzero t' ht').symm

/-- `dev_run2`. -/
abbrev devRun2 : Plan := devRun 2 100 (by decide)

theorem two_lt_int : 2 < 2 ^ 31 := by decide

/-- `dev_run2` with one round. -/
abbrev oneRound : Plan := devRun 2 1 two_lt_int

end BarrierTest
