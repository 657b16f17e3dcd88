import KernelRocks.MonitorProofs
import KernelRocks.MprobeWriteProofs
import KernelRocks.PotentialProofs

/-! # mprobe — every call returns

    A write waits for `g_rbf_lock` and, in `unregister_kprobe`, for the handlers of the
    probe it takes away; these wait for the lock too.  No lock is held during the
    second wait.

    Two things can keep the lock from ever being released.  `handler_pre` reads
    addresses that it has from the request and from the registers, with the lock held:
    if one is not mapped it dies there.  And a probe that is hit on the CPU of whoever
    holds the lock spins on it above the holder.

    * `calls_return`: however the calls and the hits cross, all turns together are no
      more than they bring.  Where nobody has a turn, and no probe has been hit under
      the lock on its holder's CPU, either a handler has died with the lock, or every call
      and every handler has returned or has died in `mprobe_write`, at a NULL `kp` or at a
      `symbol_name` that is no pointer.
    * `never_oops`: with the windows apart, memory for every kprobe and mapped addresses
      all have returned. -/

namespace Mprobe

open Interleaving

/-! ## The lock and the handlers -/

/-- With `g_rbf_lock`. -/
def Pc.holds : Pc → Bool
  | .storeReq _ | .unlockReq _ | .readSection | .unlockRead _ _ | .hitSection _ | .unlockHit _ =>
      true
  | _ => false

/-- The probe whose handler is running. -/
def Pc.handles : Pc → Option Nat
  | .lockHit trap | .hitSection trap | .unlockHit trap | .hitReturn trap => some trap.probe
  | _ => none

/-- `running` lists the handlers; only a CPU is in one, and in nothing else. -/
def Listed (t : Task) (m : Mem) (q : Pc) : Prop :=
  match t with
  | .cpu c => (∀ p, (c, p) ∈ m.running ↔ q.handles = some p) ∧ (q.handles = none → q = .idle)
  | .caller _ => q.handles = none

/-- A turn as `g_rbf_lock` sees it; what the lock protects does not matter here. -/
abbrev LockTurn : Task → Mem → Pc → Mem → Pc → Prop :=
  MonitorTurn Mem.holder (fun q => q.holds = true) (fun _ => True) (fun _ _ => True)

section Turns
variable {t u : Task} {m m' : Mem} {q q' : Pc} {a : Act} {s : State}

/-- Outside the sections. -/
theorem LockTurn.aside (hq : q.holds = false) (hq' : q'.holds = false) (hm : m'.holder = m.holder) :
    LockTurn t m q m' q' :=
  .outside (hq ▸ Bool.false_ne_true) (hq' ▸ Bool.false_ne_true) hm (fun _ => trivial)
    fun _ _ _ => trivial

/-- What a turn does to the lock. -/
theorem next_holder (h : next t m q = some (m', q')) : LockTurn t m q m' q' := by
  cases q with
  | lockReq _ | lockRead | lockHit _ =>
      rw [next] at h
      split at h <;> cases h
      exact .take Bool.false_ne_true rfl ‹_› rfl fun _ => trivial
  | storeReq _ | readSection | hitSection _ =>
      cases h
      exact .inside rfl rfl rfl fun _ => trivial
  | unlockReq _ | unlockRead _ _ | unlockHit _ =>
      cases h
      exact .leave rfl Bool.false_ne_true rfl fun _ => trivial
  | testKp req =>
      cases h
      exact LockTurn.aside rfl (by split <;> rfl) rfl
  | _ =>
      simp only [next] at h
      repeat' split at h
      all_goals cases h
      all_goals exact LockTurn.aside rfl rfl rfl

theorem exec_holder (h : exec t m q a = some (m', q')) : LockTurn t m q m' q' := by
  rcases exec_cases h with ⟨-, h⟩ | ⟨n, req, -, -, rfl, rfl, rfl⟩ | ⟨n, -, -, rfl, rfl, rfl⟩
    | ⟨c, trap, -, -, rfl, -, rfl, rfl⟩ | ⟨w, -, rfl, rfl⟩
  · exact next_holder h
  · exact LockTurn.aside rfl rfl rfl
  · exact LockTurn.aside rfl rfl rfl
  · exact LockTurn.aside rfl rfl rfl
  · cases hq : q'.holds with
    | false => exact LockTurn.aside hq hq rfl
    | true => exact .inside hq hq rfl fun _ => trivial

/-- Who holds the lock is where it is held. -/
theorem reach_holder {C : State → Task → Act → Prop} (h : ReachWhen C s) (t : Task) :
    (s.loc t).holds = true ↔ s.mem.holder = some t := by
  have h0 : State.initial.mem.holder = none ∧ True ∧ ∀ t, ¬ (State.initial.loc t).holds = true :=
    ⟨rfl, trivial, fun _ => Bool.false_ne_true⟩
  exact (Reach.monitor h0 (fun _ _ _ _ _ _ _ _ he => exec_holder he) h).owner t

/-- A turn in its own code takes a CPU through its handler. -/
theorem next_running (h : next t m q = some (m', q')) :
    (m'.running = m.running ∧ q'.handles = q.handles)
      ∨ ∃ trap c, q = .hitReturn trap ∧ t = .cpu c
          ∧ m'.running = (m.running.filter fun x => x.1 ≠ c) ∧ q' = .idle := by
  cases q with
  | hitReturn trap =>
      cases t with
      | caller n => cases h
      | cpu c =>
          cases h
          exact .inr ⟨trap, c, rfl, rfl, rfl, rfl⟩
  | testKp req =>
      cases h
      exact .inl ⟨rfl, by split <;> rfl⟩
  | _ =>
      refine .inl ?_
      simp only [next] at h
      repeat' split at h
      all_goals cases h
      all_goals exact ⟨rfl, rfl⟩

theorem Listed.exec (hc : Listed t m q) (h : exec t m q a = some (m', q')) : Listed t m' q' := by
  rcases exec_cases h with ⟨-, h⟩ | ⟨n, req, -, rfl, rfl, rfl, rfl⟩ | ⟨n, -, rfl, rfl, rfl, rfl⟩
    | ⟨c, trap, -, rfl, rfl, -, rfl, rfl⟩ | ⟨w, -, rfl, rfl⟩
  · rcases next_running h with ⟨hr, hq⟩ | ⟨trap, c, rfl, rfl, hr, rfl⟩
    · cases t with
      | caller n => exact hq.trans hc
      | cpu c =>
          refine ⟨fun p => ?_, fun hnone => ?_⟩
          · rw [hr, hq]
            exact hc.1 p
          · rw [hc.2 (hq.symm.trans hnone)] at h
            cases h
    · refine ⟨fun p => ?_, fun _ => rfl⟩
      rw [hr]
      exact iff_of_false (fun hmem => by simp at hmem) nofun
  · rfl
  · rfl
  · refine ⟨fun p => ?_, nofun⟩
    have hold : (c, p) ∉ m.running := fun hmem => nomatch (hc.1 p).mp hmem
    show (c, p) ∈ (c, trap.probe) :: m.running ↔ some trap.probe = some p
    simp [hold, eq_comm]
  · exact hc

/-- The handlers of the others go on. -/
theorem exec_running (h : exec t m q a = some (m', q')) {c : Nat} (ht : t ≠ .cpu c) (p : Nat) :
    (c, p) ∈ m'.running ↔ (c, p) ∈ m.running := by
  rcases exec_cases h with ⟨-, h⟩ | ⟨n, req, -, -, -, rfl, -⟩ | ⟨n, -, -, -, rfl, -⟩
    | ⟨c', trap, -, rfl, -, -, rfl, -⟩ | ⟨w, -, rfl, -⟩
  · rcases next_running h with ⟨hr, -⟩ | ⟨trap, c', -, rfl, hr, -⟩
    · rw [hr]
    · have hne : c ≠ c' := fun hc => ht (congrArg Task.cpu hc.symm)
      rw [hr]
      simp [hne]
  · rfl
  · rfl
  · have hne : c ≠ c' := fun hc => ht (congrArg Task.cpu hc.symm)
    show (c, p) ∈ (c', trap.probe) :: m.running ↔ _
    simp [hne]
  · rfl

theorem reach_listed {C : State → Task → Act → Prop} (h : ReachWhen C s) (t : Task) :
    Listed t s.mem (s.loc t) := by
  refine (Reach.modular (I := fun _ => True) (P := Listed) ⟨trivial, fun t => ?_⟩ ?_ ?_ h).2 t
  · cases t with
    | caller n => rfl
    | cpu c => exact ⟨fun p => iff_of_false (fun hmem => nomatch hmem) nofun, fun _ => rfl⟩
  · exact fun s t a m' q' _ _ _ hP he => ⟨trivial, hP.exec he⟩
  · intro s t u a m' q' _ _ htu _ _ hu he
    cases u with
    | caller n => exact hu
    | cpu c => exact ⟨fun p => (exec_running he htu p).trans (hu.1 p), hu.2⟩

end Turns

/-! ## The turns in the calls -/

/-- The turns from a place to the return of the call or of the handler. -/
def Pc.left : Pc → Nat
  | .idle | .oops => 0
  | .testKp _ => 10
  | .unregister _ => 9
  | .unregisterWait _ _ => 8
  | .destroyKp _ => 7
  | .kmalloc _ => 6
  | .initKp _ => 5
  | .lockReq _ => 4
  | .storeReq _ => 3
  | .unlockReq _ => 2
  | .registerKp _ => 1
  | .lockRead | .lockHit _ => 4
  | .readSection | .hitSection _ => 3
  | .unlockRead _ _ | .unlockHit _ => 2
  | .readReturn _ _ | .hitReturn _ => 1

/-- The turns that a turn brings in. -/
def Act.brings : Act → Nat
  | .write _ => 10
  | .read | .hit _ => 4
  | .run | .world _ => 0

/-- The turns that a turn takes off. -/
def Act.takes : Act → Nat
  | .run => 1
  | _ => 0

section Turns
variable {t : Task} {m m' : Mem} {q q' : Pc} {a : Act} {s s' : State}

theorem next_left (h : next t m q = some (m', q')) : q'.left + 1 ≤ q.left := by
  cases q with
  | hitReturn trap =>
      cases t with
      | caller n => cases h
      | cpu c =>
          cases h
          exact Nat.le_refl _
  | testKp req =>
      cases h
      split <;> exact of_decide_eq_true rfl
  | _ =>
      simp only [next] at h
      repeat' split at h
      all_goals cases h
      all_goals exact of_decide_eq_true rfl

/-- **ONE TURN** takes one off, or brings in what a call or a handler takes. -/
theorem exec_left (h : exec t m q a = some (m', q')) :
    q'.left + a.takes ≤ q.left + a.brings := by
  rcases exec_cases h with ⟨rfl, h⟩ | ⟨n, req, rfl, -, rfl, -, rfl⟩ | ⟨n, rfl, -, rfl, -, rfl⟩
    | ⟨c, trap, rfl, -, rfl, -, -, rfl⟩ | ⟨w, rfl, -, rfl⟩
  · exact next_left h
  all_goals exact Nat.le_refl _

end Turns

/-- **TURNS ARE NO MORE** than the calls and the hits bring. -/
theorem takes_le_brings {s : State} {sched : List (Task × Act)}
    (hrun : Run exec State.initial sched s) :
    (sched.map fun x => x.2.takes).sum ≤ (sched.map fun x => x.2.brings).sum := by
  let ts : Finset Task := (sched.map Prod.fst).toFinset
  have hone (s : State) (t : Task) (a : Act) (s' : State) (_ : True)
      (ht : (t, a).1 ∈ ts) (hs : turn exec s t a = some s') :
      potential (fun _ _ => Pc.left) ts s' + a.takes
        ≤ potential (fun _ _ => Pc.left) ts s + a.brings := by
    obtain ⟨m', q', he, rfl⟩ := turn_eq_some hs
    have hmove := potential_move Pc.left (s := s) (t := t) m' q' ht
    have hleft := exec_left he
    omega
  have hpaid := hrun.paid_le (fun _ => True) (fun x => x.1 ∈ ts)
    (potential (fun _ _ => Pc.left) ts) Act.takes Act.brings (fun _ _ _ _ _ _ => trivial) hone
      trivial
    fun x hx => List.mem_toFinset.mpr (List.mem_map_of_mem hx)
  have hzero : potential (fun _ _ => Pc.left) ts State.initial = 0 :=
    Finset.sum_eq_zero fun _ _ => rfl
  omega

/-! ## Rest -/

section Rest
variable (mapped : BitVec 64 → Bool) (on : Nat → Option Nat)

/-- A handler reads what is not mapped, and dies at it. -/
def Died (s : State) (t : Task) : Prop :=
  ∃ trap, s.loc t = .hitSection trap ∧ ∃ x ∈ looksAt s.mem.rbf.req trap, mapped x = false

/-- A call on whose CPU a handler is running; `on` says which call a CPU was in when it
    ran into the probe. -/
def Trapped (s : State) (t : Task) : Prop :=
  ∃ c n, on c = some n ∧ t = .caller n ∧ s.loc (.cpu c) ≠ .idle

/-- No such call holds `g_rbf_lock`. -/
def Unlocked (s : State) : Prop := ∀ t, Trapped on s t → s.mem.holder ≠ some t

/-- Nobody has a turn on its own code. -/
def AtRest (s : State) : Prop :=
  ∀ t, ¬ Died mapped s t → ¬ Trapped on s t → next t s.mem (s.loc t) = none

end Rest

section Rest
variable {t : Task} {m : Mem} {q : Pc} {s : State} {C : State → Task → Act → Prop}
  {mapped : BitVec 64 → Bool} {on : Nat → Option Nat}

/-- Where a task has no turn. -/
theorem stuck_cases (hl : Listed t m q) (h : next t m q = none) :
    q = .idle ∨ q = .oops ∨ m.holder ≠ none ∧ q.holds = false
      ∨ ∃ req p, q = .unregisterWait req p ∧ ∃ x ∈ m.running, x.2 = p := by
  cases q with
  | idle => exact .inl rfl
  | oops => exact .inr (.inl rfl)
  | lockReq _ | lockRead | lockHit _ =>
      rw [next] at h
      split at h
      · cases h
      · exact .inr (.inr (.inl ⟨‹_›, rfl⟩))
  | unregisterWait req p =>
      rw [next] at h
      split at h
      · cases h
      · rename_i hrun
        push Not at hrun
        exact .inr (.inr (.inr ⟨req, p, rfl, hrun⟩))
  | hitReturn trap =>
      cases t with
      | cpu c => cases h
      | caller n => cases hl
  | _ =>
      simp only [next] at h
      repeat' split at h
      all_goals cases h

/-- A CPU has no call. -/
theorem not_trapped (c : Nat) : ¬ Trapped on s (.cpu c) := by
  rintro ⟨_, _, -, hc, -⟩
  cases hc

/-- Who holds the lock has a turn, so it is free. -/
theorem AtRest.holder (hrest : AtRest mapped on s) (h : ReachWhen C s) (hun : Unlocked on s)
    (halive : ∀ t, ¬ Died mapped s t) : s.mem.holder = none := by
  refine Option.eq_none_iff_forall_ne_some.mpr fun t ht => ?_
  have hq := (reach_holder h t).mpr ht
  have hstuck := hrest t (halive t) fun htr => hun t htr ht
  rcases stuck_cases (reach_listed h t) hstuck with hs | hs | ⟨-, hs⟩ | ⟨req, p, hs, -⟩
  all_goals
    rw [hs] at hq
    cases hq

/-- Then a handler has one. -/
theorem AtRest.cpu (hrest : AtRest mapped on s) (h : ReachWhen C s) (hun : Unlocked on s)
    (halive : ∀ t, ¬ Died mapped s t) (c : Nat) : s.loc (.cpu c) = .idle := by
  have hl := reach_listed h (.cpu c)
  refine hl.2 ?_
  rcases stuck_cases hl (hrest (.cpu c) (halive _) (not_trapped c)) with
    hs | hs | ⟨hs, -⟩ | ⟨req, p, hs, -⟩
  · rw [hs]
    rfl
  · rw [hs]
    rfl
  · exact absurd (hrest.holder h hun halive) hs
  · rw [hs]
    rfl

theorem AtRest.running (hrest : AtRest mapped on s) (h : ReachWhen C s) (hun : Unlocked on s)
    (halive : ∀ t, ¬ Died mapped s t) : s.mem.running = [] := by
  refine List.eq_nil_iff_forall_not_mem.mpr fun ⟨c, p⟩ hmem => ?_
  have hq := ((reach_listed h (.cpu c)).1 p).mp hmem
  rw [hrest.cpu h hun halive c] at hq
  cases hq

/-- And then a write that waits for handlers. -/
theorem AtRest.returned (hrest : AtRest mapped on s) (h : ReachWhen C s) (hun : Unlocked on s)
    (halive : ∀ t, ¬ Died mapped s t) (t : Task) : s.loc t = .idle ∨ s.loc t = .oops := by
  have hcpu := hrest.cpu h hun halive
  have hfree : ¬ Trapped on s t := fun ⟨c, _, _, _, hc⟩ => hc (hcpu c)
  rcases stuck_cases (reach_listed h t) (hrest t (halive t) hfree) with
    hs | hs | ⟨hs, -⟩ | ⟨req, p, -, x, hx, -⟩
  · exact .inl hs
  · exact .inr hs
  · exact absurd (hrest.holder h hun halive) hs
  · rw [hrest.running h hun halive] at hx
    cases hx

end Rest

/-- **CALLS RETURN**: in every schedule the calls and the handlers have no more turns than
    the writes, reads and hits in it bring.  Where nobody has a turn, and no call on whose CPU
    a handler runs holds the lock, a handler has died with the lock; or the lock is free,
    no handler is running, and each task has returned or has died in `mprobe_write`. -/
theorem calls_return (mapped : BitVec 64 → Bool) (on : Nat → Option Nat) {s : State}
    {sched : List (Task × Act)} (hrun : Run exec State.initial sched s) :
    (sched.map fun x => x.2.takes).sum ≤ (sched.map fun x => x.2.brings).sum
      ∧ (AtRest mapped on s → Unlocked on s →
          (∃ t, Died mapped s t ∧ s.mem.holder = some t)
            ∨ (s.mem.holder = none ∧ s.mem.running = []
              ∧ ∀ t, s.loc t = .idle ∨ s.loc t = .oops)) := by
  have h : ReachWhen Free s := hrun.reach (fun _ _ _ => trivial) Reach.refl
  refine ⟨takes_le_brings hrun, fun hrest hun => ?_⟩
  by_cases hdied : ∃ t, Died mapped s t
  · obtain ⟨t, ht⟩ := hdied
    obtain ⟨trap, hq, -⟩ := id ht
    have hholds : (s.loc t).holds = true := by
      rw [hq]
      rfl
    exact .inl ⟨t, ht, (reach_holder h t).mp hholds⟩
  · have halive : ∀ t, ¬ Died mapped s t := fun t ht => hdied ⟨t, ht⟩
    exact .inr ⟨hrest.holder h hun halive, hrest.running h hun halive, hrest.returned h hun halive⟩

/-! ## No fault -/

/-- The windows are apart, there is memory for every kprobe, and a handler that takes the lock
    will only read what is mapped. -/
structure Supplied (mapped : BitVec 64 → Bool) (s : State) (t : Task) (a : Act) : Prop
    extends Apart s t a where
  memory : ∀ req, s.loc t = .kmalloc req → a = .run → s.mem.world.memory = true
  reads : ∀ trap, s.loc t = .lockHit trap → a = .run →
    ∀ x ∈ looksAt s.mem.rbf.req trap, mapped x = true

/-- A kprobe has been made for `init_kp`, and the task goes on. -/
structure Made (_ : Task) (m : Mem) (q : Pc) : Prop where
  kp : ∀ req, q = .initKp req → m.kp ≠ none
  goes : q ≠ .oops

/-- Places that need no kprobe to have been made. -/
def Pc.plain : Pc → Bool
  | .initKp _ | .oops => false
  | _ => true

section Fault
variable {t : Task} {m m' : Mem} {q q' : Pc} {a : Act} {s : State} {mapped : BitVec 64 → Bool}

theorem Made.of_plain (hq : q.plain = true) : Made t m q := by
  constructor
  · rintro req rfl
    cases hq
  · rintro rfl
    cases hq

/-- A turn on what is known at its place does not run into a fault. -/
theorem Made.next (hmade : Made t m q) (hst : Stage t q m)
    (hmem : ∀ req, q = .kmalloc req → m.world.memory = true)
    (h : next t m q = some (m', q')) : Made t m' q' := by
  cases q with
  | testKp req =>
      cases h
      exact .of_plain (by split <;> rfl)
  | unregister req =>
      rw [Mprobe.next] at h
      split at h <;> rename_i hkp <;> cases h
      · exact absurd hkp hst.2.1
      · exact .of_plain rfl
  | destroyKp req =>
      obtain ⟨-, ⟨p, hp, hsym⟩, -⟩ := hst
      rw [Mprobe.next, hp] at h
      simp only [hsym, ne_eq, not_true_eq_false, if_false] at h
      cases h
      exact .of_plain rfl
  | kmalloc req =>
      rw [Mprobe.next, if_pos (hmem req rfl)] at h
      cases h
      constructor
      · intro _ _ hkp
        cases hkp
      · intro hq
        cases hq
  | initKp req =>
      rw [Mprobe.next, if_neg hst.1] at h
      split at h <;> rename_i hkp <;> cases h
      · exact absurd hkp (hmade.kp req rfl)
      · exact .of_plain rfl
  | registerKp req =>
      obtain ⟨⟨p, hp, -⟩, -⟩ := hst
      rw [Mprobe.next, hp] at h
      dsimp only at h
      split at h <;> cases h
      all_goals exact .of_plain rfl
  | hitReturn trap =>
      cases t with
      | caller n => cases h
      | cpu c =>
          cases h
          exact .of_plain rfl
  | _ =>
      simp only [Mprobe.next] at h
      repeat' split at h
      all_goals cases h
      all_goals exact .of_plain rfl

/-- One turn. -/
theorem Made.exec (hmade : Made t m q) (hst : Stage t q m)
    (hmem : ∀ req, q = .kmalloc req → a = .run → m.world.memory = true)
    (h : exec t m q a = some (m', q')) : Made t m' q' := by
  rcases exec_cases h with ⟨rfl, h⟩ | ⟨n, req, -, -, -, -, rfl⟩ | ⟨n, -, -, -, -, rfl⟩
    | ⟨c, trap, -, -, -, -, -, rfl⟩ | ⟨w, -, rfl, rfl⟩
  · exact hmade.next hst (fun req hq => hmem req hq rfl) h
  · exact .of_plain rfl
  · exact .of_plain rfl
  · exact .of_plain rfl
  · exact ⟨hmade.kp, hmade.goes⟩

/-- A turn outside the window leaves `kp` alone. -/
theorem exec_kp (hq : q.replaces = false) (h : exec t m q a = some (m', q')) : m'.kp = m.kp := by
  rcases exec_cases h with ⟨-, h⟩ | ⟨n, req, -, -, -, rfl, -⟩ | ⟨n, -, -, -, rfl, -⟩
    | ⟨c, trap, -, -, -, -, rfl, -⟩ | ⟨w, -, rfl, -⟩
  · exact (next_probe hq h).1
  all_goals rfl

theorem reach_made (h : ReachWhen (Supplied mapped) s) (t : Task) : Made t s.mem (s.loc t) := by
  have tidy {s : State} (h : ReachWhen (Supplied mapped) s) : Tidy s :=
    reach_tidy (h.mono fun _ _ _ hc => hc.toApart)
  refine (Reach.modular (I := fun _ => True) (P := Made)
    ⟨trivial, fun _ => .of_plain rfl⟩ ?_ ?_ h).2 t
  · intro s t a m' q' hr hC _ hmade he
    exact ⟨trivial, hmade.exec ((tidy hr).stage t) hC.memory he⟩
  · intro s t u a m' q' hr _ htu _ _ hmade he
    refine ⟨fun req hu => ?_, hmade.goes⟩
    -- the window of `u` is the only one
    have hq : (s.loc t).replaces = false :=
      Bool.eq_false_iff.mpr fun ht => htu ((tidy hr).one t u ht (by rw [hu]; rfl))
    rw [exec_kp hq he]
    exact hmade.kp req hu

/-- The request is stored with the lock held. -/
theorem exec_req (hq : q.holds = false) (h : exec t m q a = some (m', q')) :
    m'.rbf.req = m.rbf.req := by
  rcases exec_cases h with ⟨-, h⟩ | ⟨n, req, -, -, -, rfl, -⟩ | ⟨n, -, -, -, rfl, -⟩
    | ⟨c, trap, -, -, -, -, rfl, -⟩ | ⟨w, -, rfl, -⟩
  · cases q with
    | storeReq _ | unlockReq _ | readSection | unlockRead _ _ | hitSection _ | unlockHit _ =>
        cases hq
    | _ =>
        simp only [next] at h
        repeat' split at h
        all_goals cases h
        all_goals rfl
  all_goals rfl

/-- Only `spin_lock` leads into the section. -/
theorem exec_section {trap : Trap} (h : exec t m q a = some (m', .hitSection trap)) :
    q = .hitSection trap ∨ (q = .lockHit trap ∧ a = .run) := by
  rcases exec_cases h with ⟨rfl, hn⟩ | ⟨n, req, -, -, -, -, hq⟩ | ⟨n, -, -, -, -, hq⟩
    | ⟨c, trap, -, -, -, -, -, hq⟩ | ⟨w, -, -, hq⟩
  · cases q with
    | lockHit trap' =>
        rw [next] at hn
        split at hn <;> cases hn
        exact .inr ⟨rfl, rfl⟩
    | testKp req =>
        obtain ⟨-, hq⟩ := Prod.mk.inj (Option.some.inj hn)
        split at hq <;> cases hq
    | _ =>
        simp only [next] at hn
        repeat' split at hn
        all_goals cases hn
  · cases hq
  · cases hq
  · cases hq
  · exact .inl hq.symm

/-- A handler in its section reads what is mapped. -/
theorem reach_reads (h : ReachWhen (Supplied mapped) s) {trap : Trap}
    (hq : s.loc t = .hitSection trap) : ∀ x ∈ looksAt s.mem.rbf.req trap, mapped x = true := by
  let Reads (_ : Task) (m : Mem) (q : Pc) : Prop :=
    ∀ trap, q = .hitSection trap → ∀ x ∈ looksAt m.rbf.req trap, mapped x = true
  refine (Reach.modular (I := fun _ => True) (P := Reads)
    ⟨trivial, fun _ _ h0 => ?_⟩ ?_ ?_ h).2 t trap hq
  · cases h0
  · rintro s t a m' q' hr hC - hreads he
    refine ⟨trivial, ?_⟩
    rintro trap rfl
    rcases exec_section he with hloc | ⟨hloc, rfl⟩
    · rw [hloc] at he
      rcases exec_cases he with ⟨-, h⟩ | ⟨_, _, -, -, hq, -⟩ | ⟨_, -, -, hq, -⟩
        | ⟨_, _, -, -, hq, -⟩ | ⟨w, -, rfl, -⟩
      · cases h
      · cases hq
      · cases hq
      · cases hq
      · exact hreads trap hloc
    · rw [exec_req (by rw [hloc]; rfl) he]
      exact hC.reads trap hloc rfl
  · intro s t u a m' q' hr _ htu _ _ hreads he trap hu
    -- `u` has the lock, so `t` is not in a section
    have hlock : s.mem.holder = some u := (reach_holder hr u).mp (by rw [hu]; rfl)
    have hq : (s.loc t).holds = false := by
      refine Bool.eq_false_iff.mpr fun ht => htu ?_
      exact Option.some.inj (((reach_holder hr t).mp ht).symm.trans hlock)
    rw [exec_req hq he]
    exact hreads trap hu

theorem reach_alive (h : ReachWhen (Supplied mapped) s) (t : Task) : ¬ Died mapped s t := by
  rintro ⟨trap, hq, x, hx, hno⟩
  rw [reach_reads h hq x hx] at hno
  cases hno

end Fault

/-- **NO FAULT**: with the windows apart, memory for every kprobe and mapped addresses, no
    call follows a NULL `kp` or frees what is no pointer, and no handler dies; so where
    nobody has a turn, all have returned. -/
theorem never_oops (mapped : BitVec 64 → Bool) (on : Nat → Option Nat) {s : State}
    (h : ReachWhen (Supplied mapped) s) :
    (∀ t, s.loc t ≠ .oops) ∧ (∀ t, ¬ Died mapped s t)
      ∧ (AtRest mapped on s → Unlocked on s → ∀ t, s.loc t = .idle) :=
  ⟨fun t => (reach_made h t).goes, reach_alive h, fun hrest hun t =>
    (hrest.returned h hun (reach_alive h) t).resolve_right (reach_made h t).goes⟩

/-! ## A write that waits for a handler -/

/-- Nobody of these is in a window when `kp` is tested, and there is memory. -/
def supplied (ts : List Task) (s : State) (t : Task) (a : Act) : Bool :=
  apart ts s t a && match s.loc t with
    | .kmalloc _ => s.mem.world.memory
    | _ => true

theorem supplied_sound {ts : List Task} {s : State} {t : Task} {a : Act}
    (hE : Among ts State.initial s) (h : supplied ts s t a = true) :
    Supplied (fun _ => true) s t a := by
  obtain ⟨ha, hm⟩ := Bool.and_eq_true_iff.mp h
  refine ⟨(apart_sound hE ha).toApart, fun req hq _ => ?_, fun _ _ _ _ _ => rfl⟩
  rw [hq] at hm
  exact hm

/-- Rest at the end of a schedule, tested on its tasks. -/
theorem atRest_runAmong {mapped : BitVec 64 → Bool} {on : Nat → Option Nat} {ts : List Task}
    {ok : State → Task → Act → Bool} {sched : List (Task × Act)} {s : State}
    (hs : s = runAmong exec State.initial ts ok sched)
    (hlisted : ∀ t ∈ ts, Died mapped s t ∨ next t s.mem (s.loc t) = none) : AtRest mapped on s := by
  intro t halive _
  by_cases ht : t ∈ ts
  · exact (hlisted t ht).resolve_left halive
  · have hloc : s.loc t = .idle := by
      rw [hs]
      exact among_runAmong State.initial ts ok sched t ht
    rw [hloc]
    rfl

/-- The probe is moved while its handler is running, on the CPU of the call that moves it. -/
def waitedSchedule : List (Task × Act) :=
  wholeWrite 0 firstLine 7
    ++ (.cpu 0, .hit ⟨0, 0x7000, 0x7020, 0x109b, 1⟩) :: wholeWrite 0 secondLine 2
    ++ List.replicate 4 (.cpu 0, .run) ++ List.replicate 8 (.caller 0, .run)

def waitedProbe : State :=
  runAmong exec State.initial [.caller 0, .cpu 0] (supplied [.caller 0, .cpu 0]) waitedSchedule

theorem atRest_waitedProbe : AtRest (fun _ => true) some waitedProbe := by
  refine atRest_runAmong rfl fun t ht => .inr ?_
  have hlisted : ∀ t ∈ [Task.caller 0, .cpu 0],
      (next t waitedProbe.mem (waitedProbe.loc t)).isNone = true := by decide
  exact Option.isNone_iff_eq_none.mp (hlisted t ht)

theorem unlocked_waitedProbe : Unlocked some waitedProbe := by
  intro t _ hholder
  have hfree : waitedProbe.mem.holder = none := by decide
  rw [hfree] at hholder
  cases hholder

theorem calls_return_waited :
    (Run exec State.initial waitedSchedule waitedProbe ∧ AtRest (fun _ => true) some waitedProbe)
      ∧ (waitedSchedule.map fun x => x.2.takes).sum = 21
      ∧ ∀ t, waitedProbe.loc t = .idle ∨ waitedProbe.loc t = .oops := by
  have hrun : Run exec State.initial waitedSchedule waitedProbe := Run.of_runAmong (by decide)
  refine ⟨⟨hrun, atRest_waitedProbe⟩, by decide, ?_⟩
  rcases (calls_return (fun _ => true) some hrun).2 atRest_waitedProbe unlocked_waitedProbe with
    ⟨t, ⟨_, _, _, _, hno⟩, _⟩ | hall
  · cases hno
  · exact hall.2.2

theorem never_oops_waited :
    (ReachWhen (Supplied fun _ => true) waitedProbe ∧ waitedProbe.mem.kp = some 1)
      ∧ ∀ t, waitedProbe.loc t = .idle := by
  have hr : ReachWhen (Supplied fun _ => true) waitedProbe :=
    Reach.of_runAmong (fun _ _ _ hE hok => supplied_sound hE hok) _
  refine ⟨⟨hr, by decide⟩, ?_⟩
  exact (never_oops (fun _ => true) some hr).2.2 atRest_waitedProbe unlocked_waitedProbe

/-- Nothing is mapped where the global of `firstLine` should be. -/
def diedProbe : State :=
  runAmong exec State.initial [.caller 0, .cpu 0] (supplied [.caller 0, .cpu 0])
    (wholeWrite 0 firstLine 7
      ++ (.cpu 0, .hit ⟨0, 0x7000, 0x7020, 0x109b, 1⟩) :: (.cpu 0, .run) :: [(.caller 0, .read)])

/-- The handler dies with the lock, and the read never gets it. -/
theorem read_waits_for_died :
    AtRest (fun x => decide (x ≠ 0x3004)) (fun _ => none) diedProbe
      ∧ diedProbe.loc (.caller 0) = .lockRead ∧ diedProbe.mem.holder = some (.cpu 0) := by
  refine ⟨atRest_runAmong rfl fun t ht => ?_, rfl, by decide⟩
  rcases List.mem_cons.mp ht with rfl | ht
  · exact .inr (Option.isNone_iff_eq_none.mp (by decide))
  · rw [List.mem_singleton.mp ht]
    exact .inl ⟨_, rfl, 0x3004, by decide, by decide⟩

end Mprobe
