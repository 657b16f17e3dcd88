import KernelRocks.BarrierTendedProofs
import KernelRocks.BarrierTestRoundsProofs

/-! # The test program comes to its end

    The program has a bounded number of turns in it, whatever the scheduler and
    however many threads, beside the returns of `schedule` without a wake-up
    (`test_bounded`).  Where it has come to rest, and no
    `prepare_to_wait` came too late, it is done: every thread has passed its
    barrier `SYNC_ROUNS` times and has returned, and so has every `run_barriers`
    (`rest_all_done`). -/

namespace BarrierTest

open Barrier Interleaving KeyedList Roster

/-! ## The turns in the program -/

section Turns
variable {P : Plan} {t v : Task} {x x' : Mem × User} {q q' : Pc × Place} {a : TestAct}

/-- The turns a thread of `n` has in its own code, with those its calls bring in. -/
def Plan.left (P : Plan) (n : Nat) (t : Task) : Place → Nat
  | .init => 2 * (P.tids t).length + (14 * n + 65)
  | .initDone => 2 * (P.tids t).length + (7 * n + 34)
  | .create idx => (P.tids t).length - idx + (P.tids t).length + (7 * n + 33)
  | .join idx => (P.tids t).length - idx + (7 * n + 32)
  | .destroyDone => 1
  | .runDone | .done => 0
  | .idle => P.syncRouns * (7 * n + 32) + 2
  | .reCnt _ cnt => (P.syncRouns - cnt) * (7 * n + 32) + 1
  | .waitDone _ cnt => (P.syncRouns - cnt) * (7 * n + 32) + 2

/-- The turns of a `run_barriers`, and those of a `pfunction`. -/
def Plan.turns (P : Plan) (n : Nat) (t : Task) : Nat :=
  if P.tids t = [] then P.syncRouns * (7 * n + 32) + 2
  else 2 * (P.tids t).length + (14 * n + 65)

theorem Step.entered_le {u u' : User} {p p' : Place} {c : Option Call} {pc pc' : Pc}
    (h : Step P t u p u' c p') (hle : entered P (pc, p) ≤ P.syncRouns) :
    entered P (pc', p') ≤ P.syncRouns := by
  cases h with
  | wait hcnt => exact Nat.lt_of_le_of_ne hle hcnt
  | waitDone => exact hle
  | ret => exact Nat.le_refl _
  | _ => exact Nat.zero_le _

/-- Nobody counts past `SYNC_ROUNS`. -/
theorem reach_entered {C : TestState → Task → TestAct → Prop} {s : TestState}
    (h : Reach P.exec C P.start s) (t : Task) : entered P (s.loc t) ≤ P.syncRouns := by
  refine (Reach.modular (I := fun _ => True) (P := fun _ _ q => entered P q ≤ P.syncRouns)
    ⟨trivial, fun t => ?_⟩ ?_ ?_ h).2 t
  · show entered P (.user none, if P.tids t = [] then .idle else .init) ≤ P.syncRouns
    split <;> exact Nat.zero_le _
  · intro s t a x' q' _ _ _ hle he
    refine ⟨trivial, ?_⟩
    cases turn_of_exec he with
    | own r u p _ hs _ hq =>
        rw [hq]
        exact (step_cases hs).entered_le hle
    | call r u c p _ hs _ hq =>
        rw [hq]
        exact (step_cases hs).entered_le hle
    | driver m pc _ _ _ hq =>
        rw [hq]
        exact hle
  · exact fun s t u a m' q' _ _ _ _ _ hu _ => hu

/-- A turn in user mode pays for the call it makes. -/
theorem Step.left_lt {n : Nat} {m : Mem} {u u' : User} {r : Option Int} {p p' : Place}
    {c : Option Call} (h : Step P t u p u' c p') (hle : entered P (.user r, p) ≤ P.syncRouns) :
    share n t m (c.elim (.user r) Call.entry) + P.left n t p' + 1 ≤ P.left n t p := by
  have huser : share n t m (.user r) = 0 := rfl
  cases h with
  | init =>
      have hentry := share_entry (t := t) (m := m) n (.init (P.numThreads t))
      simp only [Option.elim, Plan.left]
      omega
  | joined hnone =>
      have hlen := List.getElem?_eq_none_iff.mp hnone
      have hentry := share_entry (t := t) (m := m) n (.destroy (u.barrierId t))
      simp only [Option.elim, Plan.left]
      omega
  | @wait id cnt hcnt =>
      have hlt : cnt < P.syncRouns := Nat.lt_of_le_of_ne hle hcnt
      have hentry := share_entry (t := t) (m := m) n (.wait id)
      have hround : (P.syncRouns - cnt) * (7 * n + 32)
          = (P.syncRouns - (cnt + 1)) * (7 * n + 32) + (7 * n + 32) := by
        rw [← Nat.succ_mul]
        congr 1
        omega
      simp only [Option.elim, Plan.left]
      omega
  | create hw | join hw _ =>
      have hlen := (List.getElem?_eq_some_iff.mp hw).1
      simp only [Option.elim, Plan.left]
      omega
  | created hnone =>
      have hlen := List.getElem?_eq_none_iff.mp hnone
      simp only [Option.elim, Plan.left]
      omega
  | initDone | destroyDone | idle _ | ret | waitDone =>
      simp only [Option.elim, Plan.left, Nat.sub_zero]
      omega

/-- What a thread of `n` can still do, in its own code and in its call. -/
def Plan.account (P : Plan) (n : Nat) (t : Task) (x : Mem × User) (q : Pc × Place) : Nat :=
  share n t x.1 q.1 + P.left n t q.2

/-- **ONE TURN** of the program takes one off. -/
theorem account_turn {s s' : TestState} {ts : Finset Task} (h : Reach P.exec Free P.start s)
    (ht : t ∈ ts) (hs : turn P.exec s t a = some s') :
    potential (P.account ts.card) ts s' + 1
      ≤ potential (P.account ts.card) ts s + a.act.cost ts.card := by
  obtain ⟨x', q', he, rfl⟩ := turn_eq_some hs
  have hown {r : Option Int} {u : User} {c : Option Call} {p : Place} (hpc : (s.loc t).1 = .user r)
      (hst : P.step t s.mem.2 (s.loc t).2 = some (u, c, p)) (hx : x' = (s.mem.1, u))
      (hq : q' = (c.elim (.user r) Call.entry, p)) :
      potential (P.account ts.card) ts ⟨x', Function.update s.loc t q'⟩ + 1
        ≤ potential (P.account ts.card) ts s + a.act.cost ts.card := by
    refine potential_turn (g := 0) ht ?_ fun v _ _ => ?_
    · have hle : entered P (.user r, (s.loc t).2) ≤ P.syncRouns := reach_entered h t
      have hlt := (step_cases hst).left_lt (n := ts.card) (m := s.mem.1) hle
      have huser : share ts.card t s.mem.1 (.user r) = 0 := rfl
      rw [hx, hq, Plan.account, Plan.account, hpc]
      dsimp only
      omega
    · rw [hx]
      exact Nat.le_refl _
  cases turn_of_exec he with
  | own r u p hpc hst hx hq =>
      exact hown hpc hst hx (by rw [hq, hpc]; rfl)
  | call r u c p hpc hst hx hq => exact hown hpc hst hx hq
  | driver m pc hpc hb hx hq =>
      have hk : ReachWhen P.proc Free (kernel s) := kernel_reach (fun _ _ _ _ _ _ _ => trivial) h
      have hshare := exec_share hb ts.card
      refine potential_turn (g := if (s.loc t).1.wakes then 7 else 0) ht ?_ fun v _ hv => ?_
      · rw [hx, hq, Plan.account, Plan.account]
        dsimp only
        omega
      · have hother : share ts.card v m (s.loc v).1
            ≤ share ts.card v s.mem.1 (s.loc v).1 + if (s.loc t).1.wakes then 7 else 0 :=
          exec_share_other hb (Ne.symm hv) ((reach_owns hk).2 v).bounded ts.card
        rw [hx, Plan.account, Plan.account]
        dsimp only
        omega

/-- The returns from `schedule` with nobody having woken the thread; a pending signal makes
    any number of them. -/
def earlyReturns (sched : List (Task × TestAct)) : Nat := sched.countP fun x => x.2 = .signal

theorem sum_act_cost (n : Nat) (sched : List (Task × TestAct)) :
    (sched.map fun x => x.2.act.cost n).sum = earlyReturns sched * 7 := by
  induction sched with
  | nil => rfl
  | cons x rest ih =>
      obtain ⟨t, a⟩ := x
      rw [List.map_cons, List.sum_cons, ih, earlyReturns, earlyReturns, List.countP_cons,
        Nat.add_mul]
      cases a <;> simp [TestAct.act, Act.cost, Nat.add_comm]

/-- **HOW LONG THE PROGRAM IS**: no run of its threads `ts` is longer than what is in their
    code, and seven turns for every return from `schedule` without a wake-up, of which a
    thread with a signal pending has any number.  So it is under any scheduler, with any
    number of `run_barriers` in a process and whether or not a wake-up is lost. -/
theorem test_bounded (P : Plan) (ts : Finset Task) {s : TestState}
    {sched : List (Task × TestAct)} (hrun : Run P.exec P.start sched s)
    (hts : ∀ x ∈ sched, x.1 ∈ ts) :
    sched.length ≤ ∑ t ∈ ts, P.turns ts.card t + earlyReturns sched * 7 := by
  have hlen := hrun.length_le (Reach P.exec Free P.start) (fun x => x.1 ∈ ts)
    (potential (P.account ts.card) ts) (fun a => a.act.cost ts.card)
    (fun s t a s' hr hs => hr.turn t a trivial hs) (fun s t a s' hr ht hs => account_turn hr ht hs)
    Reach.refl hts
  have hstart : potential (P.account ts.card) ts P.start = ∑ t ∈ ts, P.turns ts.card t := by
    refine Finset.sum_congr rfl fun t _ => ?_
    show 0 + P.left ts.card t (if P.tids t = [] then .idle else .init) = _
    rw [Nat.zero_add, Plan.turns]
    split <;> rfl
  rw [sum_act_cost, hstart] at hlen
  omega

/-- Thread 1 sleeps in the round, thread 2 fills it. -/
def wholeRound : List (Task × TestAct) :=
  List.replicate 16 (0, .run) ++ List.replicate 15 (1, .run) ++ List.replicate 16 (2, .run)
    ++ List.replicate 10 (1, .run) ++ List.replicate 20 (0, .run)

theorem test_bounded_one_round : ∃ s, Run oneRound.exec oneRound.start wholeRound s
    ∧ wholeRound.length ≤ ∑ t ∈ {0, 1, 2}, oneRound.turns 3 t + earlyReturns wholeRound * 7 := by
  have hsome : (runWhen oneRound.exec (fun _ _ _ => true) oneRound.start wholeRound).isSome
      = true := by
    decide +kernel
  obtain ⟨s, hs⟩ := Option.isSome_iff_exists.mp hsome
  have hrun := Run.of_runWhen hs
  exact ⟨s, hrun, test_bounded oneRound {0, 1, 2} hrun (by decide)⟩

end Turns

/-! ## At rest -/

/-- No thread can go on by itself. -/
def AtRest (P : Plan) (s : TestState) : Prop := ∀ t, P.exec t s.mem (s.loc t) .run = none

/-- Orderly turns, and no `prepare_to_wait` comes too late. -/
structure InTime (P : Plan) (s : TestState) (t : Task) (a : TestAct) : Prop where
  orderly : Orderly P s t a
  prepared : Prepared (kernel s) t a.act

section Rest
variable {P : Plan} {s : TestState} {t w : Task}

theorem kernel_prepared (h : Reach P.exec (InTime P) P.start s) :
    ReachWhen P.proc Prepared (kernel s) := by
  refine kernel_reach (fun s t a b _ hC hb => ?_) h
  rcases hb with rfl | ⟨c, r, u, p, rfl, -⟩
  · exact hC.prepared
  · exact nofun

theorem AtRest.resting (hrest : AtRest P s) : Resting P.proc (kernel s) := by
  intro t
  show next P.proc t s.mem.1 (s.loc t).1 = none
  by_cases hpc : ∀ r, (s.loc t).1 ≠ .user r
  · have h : P.exec t s.mem ((s.loc t).1, (s.loc t).2) .run = none := hrest t
    rw [exec_kernel hpc] at h
    exact Option.map_eq_none_iff.mp h
  · obtain ⟨r, hr⟩ := not_forall_not.mp hpc
    rw [hr]
    rfl

theorem AtRest.step (hrest : AtRest P s) {r : Option Int} (hr : (s.loc t).1 = .user r) :
    P.step t s.mem.2 (s.loc t).2 = none := by
  have h : P.exec t s.mem ((s.loc t).1, (s.loc t).2) .run = none := hrest t
  rw [hr] at h
  exact Option.map_eq_none_iff.mp h

/-- A parked thread sleeps on the barrier of a `run_barriers`. -/
theorem At.parked {m : Mem} {u : User} {l : Loop} {b : Addr} {p : Place} (hI : Shared P m u)
    (h : At P t m u (.sleepParked l b) p) :
    (∃ v, t ∈ P.tids v ∧ Ready P v m u b) ∨ Ready P t m u b ∧ seeker l = .destroy := by
  cases p with
  | waitDone id cnt =>
      obtain ⟨hpass, -, -, b', hb', hseek⟩ := h
      obtain ⟨-, rfl⟩ := hseek.aims
      obtain ⟨hmem, b'', hready⟩ := hI.made t hpass.created
      obtain rfl : b'' = b := Option.some.inj (hready.1.symm.trans hb')
      exact .inl ⟨_, hmem, hready⟩
  | destroyDone =>
      obtain ⟨-, b', hready, hseek⟩ := h
      obtain ⟨hl, rfl⟩ := hseek.aims
      exact .inr ⟨hready, hl⟩
  | initDone => cases h.1.1
  | init | create _ | join _ | runDone | idle => cases h.1
  | reCnt _ _ | done => rcases h.1 with hq | hq <;> cases hq

/-- A call that has not returned waits in a round of its `run_barriers` that is filling. -/
theorem AtRest.waits (h : Reach P.exec (InTime P) P.start s) (hrest : AtRest P s) (t : Task) :
    (∃ r, (s.loc t).1 = .user r) ∨ ∃ v b k, t ∈ P.tids v ∧ Ready P v s.mem.1 s.mem.2 b
      ∧ (s.loc t).1 = .sleepParked (.leave k) b
      ∧ (s.mem.1.tally b).total.toNat < (s.mem.1.tally b).count.toNat
      ∧ (Waiting (kernel s) b).encard = (s.mem.1.tally b).total.toNat := by
  have hord : Reach P.exec (Orderly P) P.start s := h.mono fun _ _ _ hC => hC.orderly
  have hap := apart_of_orderly hord
  obtain ⟨hI, hM⟩ := reach_mine hap
  have hlive (v : Task) (p : Addr) : (kernel s).loc v ≠ .oops (some p) :=
    (test_served P hord v).1 (some p)
  rcases rest_waits_for_arrivals P.proc (kernel_prepared h) hrest.resting hlive t with
    hq | hq | ⟨l, b, hq, hwaits⟩
  · exact .inl hq
  · exact absurd hq ((test_served P hord t).1 none)
  · have hq' : (s.loc t).1 = .sleepParked l b := hq
    have hplace := (hM t).place
    rw [hq'] at hplace
    rcases hplace.parked hI with ⟨v, hmem, hready⟩ | ⟨hready, hl⟩
    · have hpos : 1 ≤ (s.mem.1.tally b).count.toNat :=
        count_of_ready hap hready ▸ List.length_pos_of_mem hmem
      obtain ⟨⟨k, rfl⟩, hlt, hcard⟩ := hwaits hpos
      exact .inr ⟨v, b, k, hmem, hready, hq', BitVec.lt_def.mp hlt, hcard⟩
    · -- `run_barriers` has waited for everybody, so its `barrier_destroy` does not sleep
      have hruns : P.tids t ≠ [] :=
        (reach_runs hap t).mp (reach_manages hap t
          (by rw [hq']; cases l <;> first | rfl | cases hl))
      have hpos : 1 ≤ (s.mem.1.tally b).count.toNat :=
        count_of_ready hap hready ▸ List.length_pos_iff.mpr hruns
      obtain ⟨⟨k, rfl⟩, -, -⟩ := hwaits hpos
      cases hl

theorem visits_le_syncRouns {m : Mem} {u : User} {q : Pc} {p : Place} (h : At P t m u q p) :
    visits P q p ≤ P.syncRouns := by
  cases p with
  | reCnt id cnt => exact h.2.2
  | waitDone id cnt =>
      show (if before q = true then cnt - 1 else cnt) ≤ P.syncRouns
      split
      · exact Nat.le_trans (Nat.sub_le _ _) h.2.2.1
      · exact h.2.2.1
  | done => exact Nat.le_refl _
  | _ => exact Nat.zero_le _

/-- A thread of the round that is filling. -/
theorem inRound_of_waiting (h : Reach P.exec (Apart P) P.start s) {b : Addr} {k : Nat}
    (hq : (s.loc w).1.inside = some (b, k)) (hn : (s.mem.1.tally b).count.toNat = (P.tids t).length)
    (hpos : 1 ≤ (P.tids t).length) (ht : (s.mem.1.tally b).total.toNat ≤ 2 ^ 63) :
    InRound (P.tids t) (s.mem.1.hist b).arrived w := by
  obtain ⟨hE, hS⟩ := reach_encoded (kernel_kept h)
  obtain ⟨hnum, hleft⟩ := (hS w).inside b k hq
  have hrounds : Rounds (s.mem.1.tally b) := (hE b).rounds (hn ▸ hpos)
  refine ⟨k, hnum, Nat.le_antisymm ?_ (Nat.le_of_not_lt fun hlt => hleft ?_)⟩
  · exact Nat.div_le_div_right (Nat.le_of_lt (List.getElem?_eq_some_iff.mp hnum).1)
  · exact hrounds.left_of_enter (hn ▸ hpos) ht (hn ▸ hlt)

/-- Where its `run_barriers` has a barrier, a thread at rest that is not in a round has
    not been created or has returned. -/
theorem AtRest.returned (h : Reach P.exec (Apart P) P.start s) (hrest : AtRest P s)
    (hcreated : s.mem.2.created w = true) {r : Option Int} (hq : (s.loc w).1 = .user r) :
    (s.loc w).2 = .done := by
  obtain ⟨hI, hM⟩ := reach_mine h
  have hcode : ¬ (s.loc w).2.runs = true := fun hruns =>
    (reach_runs h w).mp hruns (P.makes _ w (hI.made w hcreated).1).2.2
  have hstep := hrest.step hq
  cases hp : (s.loc w).2 with
  | done => rfl
  | idle =>
      rw [hp, Plan.step, if_pos hcreated] at hstep
      cases hstep
  | reCnt id cnt =>
      rw [hp, Plan.step] at hstep
      split at hstep <;> cases hstep
  | waitDone id cnt =>
      rw [hp] at hstep
      cases hstep
  | _ =>
      rw [hp] at hcode
      exact absurd rfl hcode

/-- A round that is filling at rest would wait for a thread that has returned, and so has
    been in it. -/
theorem AtRest.no_waiters (h : Reach P.exec (InTime P) P.start s) (hrest : AtRest P s)
    (hcreated : ∀ v ∈ P.tids t, s.mem.2.created v = true) (hw : w ∈ P.tids t) :
    ∃ r, (s.loc w).1 = .user r := by
  have hap := apart_of_orderly (h.mono fun _ _ _ hC => hC.orderly)
  obtain ⟨hI, hM⟩ := reach_mine hap
  rcases hrest.waits h w with hq | ⟨v, b, k, hmem, hready, hq, hlt, hcard⟩
  · exact hq
  exfalso
  obtain rfl : v = t := (P.makes v w hmem).1.symm.trans (P.makes t w hw).1
  have hn := count_of_ready hap hready
  have hpos : 1 ≤ (P.tids v).length := List.length_pos_of_mem hmem
  have hword : (s.mem.1.tally b).total.toNat ≤ 2 ^ 63 := by
    have hint := P.int v
    omega
  have hround {x : Task} {j : Nat} (hx : (s.loc x).1.inside = some (b, j)) :
      InRound (P.tids v) (s.mem.1.hist b).arrived x := inRound_of_waiting hap hx hn hpos hword
  -- fewer wait than there are threads
  obtain ⟨x, hx, hout⟩ : ∃ x ∈ P.tids v, x ∉ Waiting (kernel s) b := by
    by_contra hall
    have hsub : ((P.tids v).toFinset : Set Task) ⊆ Waiting (kernel s) b := by
      intro x hx
      by_contra hout
      exact hall ⟨x, List.mem_toFinset.mp hx, hout⟩
    have hle := Set.encard_le_encard hsub
    rw [hcard, Set.encard_coe_eq_coe_finsetCard, List.toFinset_card_of_nodup (P.nodup v)] at hle
    have hle' : (P.tids v).length ≤ (s.mem.1.tally b).total.toNat := by exact_mod_cast hle
    omega
  have hmaker (y : Task) (hy : y ∈ P.tids v) : P.maker y = v := (P.makes v y hy).1
  have hcame (y : Task) (hy : y ∈ P.tids v) :
      (s.mem.1.hist b).arrived.count y = visits P (s.loc y).1 (s.loc y).2 :=
    (hM y).came b (by rw [hmaker y hy]; exact hready.1) (by rw [hmaker y hy]; exact hy)
  have hroster := hI.rounds v b hready.1
  -- it has returned after as many arrivals as anybody can have made
  obtain ⟨r, hr⟩ : ∃ r, (s.loc x).1 = .user r := by
    rcases hrest.waits h x with hr | ⟨v', b', j, hmem', hready', hq', -⟩
    · exact hr
    · obtain rfl : v' = v := (P.makes v' x hmem').1.symm.trans (hmaker x hx)
      obtain rfl : b' = b := Option.some.inj (hready'.1.symm.trans hready.1)
      exact absurd ⟨j, by show (s.loc x).1.inside = _; rw [hq']; rfl⟩ hout
  have hdone := hrest.returned hap (hcreated x hx) hr
  have hlow : visits P (s.loc w).1 (s.loc w).2 ≤ P.syncRouns := visits_le_syncRouns (hM w).place
  have hlast := (hroster.last w hw).mpr (hround (by rw [hq]; rfl))
  rw [hcame w hw] at hlast
  have hhigh := hroster.high x hx
  rw [hcame x hx, hdone] at hhigh
  have hin := (hroster.last x hx).mp (by
    rw [hcame x hx, hdone]
    exact Nat.le_antisymm hhigh (hlast ▸ hlow))
  obtain ⟨j, hj⟩ := inside_of_inRound hap (hcreated x hx) (by rw [hmaker x hx]; exact hready.1)
    (by rw [hmaker x hx]; exact hin)
  exact hout ⟨j, hj⟩

/-- At rest a `run_barriers` has returned, and so have its threads. -/
theorem AtRest.done (h : Reach P.exec (InTime P) P.start s) (hrest : AtRest P s)
    (ht : P.tids t ≠ []) : (s.loc t).2 = .runDone
      ∧ ∀ w ∈ P.tids t, (s.loc w).2 = .done ∧ passed P (s.loc w) = P.syncRouns := by
  have hap := apart_of_orderly (h.mono fun _ _ _ hC => hC.orderly)
  obtain ⟨-, hM⟩ := reach_mine hap
  have hdone (hcreated : ∀ v ∈ P.tids t, s.mem.2.created v = true) (w : Task)
      (hw : w ∈ P.tids t) : (s.loc w).2 = .done := by
    obtain ⟨r, hr⟩ := hrest.no_waiters h hcreated hw
    exact hrest.returned hap (hcreated w hw) hr
  have hrun : (s.loc t).2 = .runDone := by
    obtain ⟨r, hr⟩ : ∃ r, (s.loc t).1 = .user r := by
      rcases hrest.waits h t with hr | ⟨v, -, -, hmem, -⟩
      · exact hr
      · exact absurd (P.makes v t hmem).2.2 ht
    have hstep := hrest.step hr
    have hruns := (reach_runs hap t).mpr ht
    have hplace := (hM t).place
    cases hp : (s.loc t).2 with
    | runDone => rfl
    | create idx =>
        rw [hp, Plan.step] at hstep
        split at hstep <;> cases hstep
    | join idx =>
        -- the thread it joins would be at rest and not have returned
        rw [hp, Plan.step] at hstep
        rw [hp] at hplace
        split at hstep
        · rename_i w hw
          split at hstep
          · cases hstep
          · rename_i hended
            have hback := (hM w).place
            rw [hdone hplace.2.2.1 w (List.mem_of_getElem? hw)] at hback
            exact absurd hback.2.2 hended
        · cases hstep
    | init | initDone | destroyDone =>
        rw [hp] at hstep
        cases hstep
    | idle | reCnt _ _ | waitDone _ _ | done =>
        rw [hp] at hruns
        cases hruns
  refine ⟨hrun, fun w hw => ?_⟩
  have hj := (hM t).place
  rw [hrun] at hj
  have hw' := hdone (fun v hv => (hj.2.1 v hv).1) w hw
  exact ⟨hw', by rw [passed, hw']⟩

/-- A barrier that is on a list is that of a `run_barriers`. -/
theorem reach_owned (h : Reach P.exec (Apart P) P.start s) :
    ∀ p, ∀ b ∈ (s.mem.1.ptgid p).barrierHead, ∃ t, P.tids t ≠ [] ∧ s.mem.2.barrier t = some b := by
  refine Reach.invariant (I := fun s => ∀ p, ∀ b ∈ (s.mem.1.ptgid p).barrierHead,
    ∃ t, P.tids t ≠ [] ∧ s.mem.2.barrier t = some b) (fun p b hb => absurd hb List.not_mem_nil) ?_ h
  intro s s' t a hr hI hC hs p b hb
  obtain ⟨x', q', he, rfl⟩ := turn_eq_some hs
  cases turn_of_exec he with
  | own r u p' _ hst hx _ | call r u c p' _ hst hx _ =>
      rw [hx] at hb ⊢
      obtain ⟨v, hv, hvb⟩ := hI p b hb
      exact ⟨v, hv, (congrFun (step_cases hst).barrier.1 v).trans hvb⟩
  | driver m pc hpc hex hx _ =>
      rw [hx] at hb ⊢
      have hk := known_of_reach hr hC
      rcases (exec_regMove hk.fresh hex).listed hb with hold | ⟨rfl, c, n, hq⟩
      · obtain ⟨v, hv, hvb⟩ := hI p b hold
        refine ⟨v, hv, ?_⟩
        rcases store_cases t s.mem.1 s.mem.2 (s.loc t).1 with ⟨c, p', n, hq, hu⟩ |
          ⟨c, p', b', id, -, hu⟩ | hu
        · -- `run_barriers` links one barrier
          have hnone := ((reach_mine hr).2 t).place.inits (c := c) (by rw [hq]; rfl) |>.2.1
          rw [hq] at hnone
          have hvt : v ≠ t := fun hvt => by
            rw [hvt, hnone.2] at hvb
            cases hvb
          rw [hu]
          exact (Function.update_of_ne hvt _ _).trans hvb
        · rw [hu]
          exact hvb
        · rw [hu]
          exact hvb
      · refine ⟨t, (reach_runs hr t).mp (reach_manages hr t (by rw [hq]; rfl)), ?_⟩
        rw [hq]
        exact Function.update_self ..

/-- **THE PROGRAM COMES TO ITS END**, under any scheduler and whenever `schedule` returns,
    as long as no `prepare_to_wait` comes too late: when no thread can go on, every `run_barriers`
    has destroyed its barrier and returned, each of its threads has passed the barrier
    `SYNC_ROUNS` times and returned, and the driver has no record left. -/
theorem rest_all_done (P : Plan) {s : TestState} (h : Reach P.exec (InTime P) P.start s)
    (hrest : AtRest P s) :
    (∀ t, P.tids t ≠ [] → (s.loc t).2 = .runDone
      ∧ ∀ w ∈ P.tids t, (s.loc w).2 = .done ∧ passed P (s.loc w) = P.syncRouns)
      ∧ s.mem.1.tgidList = [] := by
  refine ⟨fun t => hrest.done h, List.eq_nil_iff_forall_not_mem.mpr fun p hp => ?_⟩
  have hap := apart_of_orderly (h.mono fun _ _ _ hC => hC.orderly)
  have honce := (kernel_kept hap).mono fun _ _ _ hC => hC.once
  obtain ⟨-, hM⟩ := reach_mine hap
  cases hlist : (s.mem.1.ptgid p).barrierHead with
  | nil =>
      -- the record would be in the hands of a call
      obtain ⟨t, ht⟩ := records_tended P.proc honce hp hlist
      have hq : (kernel s).loc t = (s.loc t).1 := rfl
      rw [hq] at ht
      rcases hrest.waits h t with ⟨r, hr⟩ | ⟨v, b, k, -, -, hr, -⟩
      · rw [hr] at ht
        exact ht
      · rw [hr] at ht
        exact ht
  | cons b rest =>
      -- the barrier would be one that has been destroyed
      have hb : b ∈ (s.mem.1.ptgid p).barrierHead := hlist ▸ List.mem_cons_self
      obtain ⟨t, ht, hbt⟩ := reach_owned hap p b hb
      have hplace := (hM t).place
      rw [(hrest.done h ht).1] at hplace
      obtain ⟨-, -, b', hready, hgone⟩ := hplace
      obtain rfl : b' = b := Option.some.inj (hready.1.symm.trans hbt)
      exact hgone ((reach_removal honce).linked p b' hb)

end Rest

/-- The end of that run. -/
def afterRound : TestState :=
  runAmong oneRound.exec oneRound.start [0, 1, 2] (fun s t a => preparedTest (kernel s) t a.act)
    wholeRound

theorem reach_afterRound : Reach oneRound.exec (InTime oneRound) oneRound.start afterRound := by
  refine Reach.of_runAmong (fun s t a hmoved hok => ⟨.inl (alone_devRun 2 1 _), ?_⟩) _
  refine prepared_of_test (kernel s) t a.act (fun u hu => ?_) hok
  refine congrArg Prod.fst (hmoved u fun hmem => ?_)
  have hlt : ∀ v ∈ [0, 1, 2], v < 3 := by decide
  exact absurd (hlt u hmem) (Nat.not_lt.mpr hu)

theorem atRest_afterRound : AtRest oneRound afterRound := by
  intro t
  by_cases ht : t ∈ [0, 1, 2]
  · have hall : [0, 1, 2].all (fun u =>
        (oneRound.exec u afterRound.mem (afterRound.loc u) .run).isNone) = true := by decide +kernel
    exact Option.isNone_iff_eq_none.mp (List.all_eq_true.mp hall t ht)
  · -- it is no thread of the program
    have hloc : afterRound.loc t = (.user none, .idle) :=
      (among_runAmong oneRound.start [0, 1, 2] _ wholeRound t ht).trans
        (congrArg (Prod.mk (Pc.user none))
          (if_pos (if_neg fun h0 : t = 0 => ht (h0 ▸ List.mem_cons_self))))
    have hap := apart_of_orderly (reach_afterRound.mono fun _ _ _ hC => hC.orderly)
    have hnew : ¬ afterRound.mem.2.created t = true := fun hcreated =>
      ht (List.mem_cons_of_mem 0 ((reach_mine hap).1.made t hcreated).1)
    rw [hloc]
    show (oneRound.step t afterRound.mem.2 .idle).map _ = none
    rw [Plan.step, if_neg hnew]
    rfl

theorem rest_all_done_one_round :
    (afterRound.loc 0).2 = .runDone ∧ afterRound.mem.1.tgidList = [] :=
  have hend := rest_all_done oneRound reach_afterRound atRest_afterRound
  ⟨(hend.1 0 (by decide)).1, hend.2⟩

end BarrierTest
