import KernelRocks.HcSr04LockProofs

/-! # Reconfiguring a running device — sysfs against ioctl

    SETMODE stops a running thread, or starts it again with the new period.
    `mode_store` and `frequency_store` write the same two fields and leave the
    thread as it is.  The two interfaces are compared on what an observer sees:
    the mode, the frequency, and the period of the thread that is running.

    `stores_agree_iff`: they leave the same picture exactly if there is no thread
    to rearm, or the thread is already what SETMODE would make of it. -/

namespace HcSr04

open Program

/-! ## The device with its thread -/

/-- The period `thread_function` computes at its start; at frequency 0 it divides by
    zero and is gone. -/
def threadPeriod (freq : BitVec 32) : Option Nat :=
  if freq = 0 then none else some (1000 / freq.toNat)

/-- The device, and the period of the sampling thread if one is running. -/
structure Sampling where
  st : St
  thread : Option Nat

/-- What comes of `kthread_run`, which answers a negative error pointer if it fails. -/
def spawned (r : Int) (freq : BitVec 32) : Option Nat :=
  if r < 0 then none else threadPeriod freq

/-- A thread keeps the period of its start until it is stopped. -/
def Sampling.threadAfter (d : Sampling) : (a : Act) → a.Answer → Option Nat
  | .call .kthreadRun, r => spawned r d.st.hcsr.workingMode.freq
  | .call (.kthreadStop _), _ => none
  | _, _ => d.thread

def sampling (env : Env) (a : Act) (d : Sampling) : Except Fault (a.Answer × Sampling) :=
  match sem env a d.st with
  | .ok (r, st) => .ok (r, ⟨st, d.threadAfter a r⟩)
  | .error e => .error e

/-- The mode, the frequency, and the running thread with its period. -/
structure Picture where
  mode : Int
  freq : BitVec 32
  thread : Option Nat
  deriving DecidableEq

def Sampling.picture (d : Sampling) : Picture :=
  ⟨d.st.hcsr.workingMode.mode, d.st.hcsr.workingMode.freq, d.thread⟩

/-- What `kthread_run` answers behind the `kthread_stop` of the old thread. -/
def rerun (env : Env) (log : List (Call × Int)) (task : Int) : Int :=
  env.answer ((.kthreadStop task, env.answer log (.kthreadStop task)) :: log) .kthreadRun

/-- What SETMODE makes of the thread with the handle `task`. -/
def rearmed (env : Env) (log : List (Call × Int)) (w : ModeSet) (task : Int) : Option Nat :=
  if w.mode = oneShot then none else spawned (rerun env log task) w.freq

/-! ## Its rules -/

section Rules
variable {env : Env} {ok : Fault → Prop} {d : Sampling}

/-- An action does to the device what it always does. -/
theorem wp_sampling (a : Act) (Q : a.Answer → Sampling → Prop) :
    wp (sampling env) ok (perform a) d Q ↔
      wp (sem env) ok (perform a) d.st fun r st => Q r ⟨st, d.threadAfter a r⟩ := by
  rw [wp_perform, wp_perform, sampling]
  cases sem env a d.st with
  | error e => rfl
  | ok x => rfl

theorem sampling_lock (l : SpinLock) (Q : Unit → Sampling → Prop) (h : l ∉ d.st.held)
    (hQ : Q () ⟨{ d.st with held := l :: d.st.held }, d.thread⟩) :
    wp (sampling env) ok (lock l) d Q := by
  rw [lock, wp_sampling]
  exact (wp_lock l _).mpr ⟨fun hl => absurd hl h, fun _ => hQ⟩

theorem sampling_unlock (l : SpinLock) (Q : Unit → Sampling → Prop) (h : l ∈ d.st.held)
    (hQ : Q () ⟨{ d.st with held := d.st.held.erase l }, d.thread⟩) :
    wp (sampling env) ok (unlock l) d Q := by
  rw [unlock, wp_sampling]
  exact (wp_unlock l _).mpr ⟨fun _ => hQ, fun hl => absurd h hl⟩

theorem sampling_load (Q : Hcsr → Sampling → Prop) :
    wp (sampling env) ok load d Q ↔
      Q (d.st.hcsr.seen env d.st.reads)
        ⟨{ d.st with hcsr := d.st.hcsr.seen env d.st.reads, reads := d.st.reads + 1 },
          d.thread⟩ := by
  rw [load, wp_sampling]
  exact wp_load _

theorem sampling_store (g : Hcsr → Hcsr) (Q : Unit → Sampling → Prop) :
    wp (sampling env) ok (store g) d Q ↔ Q () ⟨{ d.st with hcsr := g d.st.hcsr }, d.thread⟩ := by
  rw [store, wp_sampling]
  exact wp_store _ _

theorem sampling_call (c : Call) (Q : Int → Sampling → Prop) :
    wp (sampling env) ok (call c) d Q ↔
      Q (env.answer d.st.log c)
        ⟨{ d.st with log := (c, env.answer d.st.log c) :: d.st.log },
          d.threadAfter (.call c) (env.answer d.st.log c)⟩ := by
  rw [call, wp_sampling]
  exact wp_call _ _

end Rules

/-! ## What the three calls leave -/

section Calls
variable {env : Env} {d : Sampling}

/-- A write of the configuration changes nothing else. -/
theorem wp_storeConfig (hd : d.st.held = []) (g : Hcsr → Hcsr) (count : Nat) :
    wp (sampling env) (fun _ => False) (storeConfig g count) d fun _ d' =>
      d'.st.hcsr = g d.st.hcsr ∧ d'.thread = d.thread := by
  rw [storeConfig, wp_bind]
  refine sampling_lock _ _ (by simp [hd]) ?_
  rw [wp_bind, sampling_store, wp_bind]
  refine sampling_unlock _ _ (by simp) ?_
  exact ⟨rfl, rfl⟩

theorem wp_modeStore (hd : d.st.held = []) {buf : List Char} {m : Int} (hb : sscanf buf = (1, m))
    (hm : m = oneShot ∨ m = periodic) (count : Nat) :
    wp (sampling env) (fun _ => False) (modeStore buf count) d fun _ d' =>
      d'.picture = ⟨m, d.st.hcsr.workingMode.freq, d.thread⟩ := by
  rw [modeStore, hb]
  have hok : ¬ (oneShot ≠ m ∧ periodic ≠ m) := by
    rintro ⟨h0, h1⟩
    exact hm.elim (fun h => h0 h.symm) fun h => h1 h.symm
  rw [if_neg hok, if_neg (show ¬ (0 : Int) ≥ 1 by decide)]
  refine wp_mono (wp_storeConfig hd _ count) ?_
  rintro a d' ⟨hh, ht⟩
  rw [Sampling.picture, hh, ht]

theorem wp_frequencyStore (hd : d.st.held = []) {buf : List Char} {f : Int}
    (hb : sscanf buf = (1, f)) (hf : 0 ≠ f) (count : Nat) :
    wp (sampling env) (fun _ => False) (frequencyStore buf count) d fun _ d' =>
      d'.picture = ⟨d.st.hcsr.workingMode.mode, BitVec.ofInt 32 f, d.thread⟩ := by
  rw [frequencyStore, hb, if_neg (show ¬ (0 : Int) ≥ 1 by decide), if_neg hf]
  refine wp_mono (wp_storeConfig hd _ count) ?_
  rintro a d' ⟨hh, ht⟩
  rw [Sampling.picture, hh, ht]

theorem wp_rearmThread (h : Hcsr) (hh : h.kthread = d.st.hcsr.kthread)
    (hw : h.workingMode = d.st.hcsr.workingMode) :
    wp (sampling env) (fun _ => False) (rearmThread h) d fun _ d' =>
      d'.st.held = d.st.held ∧ d'.st.hcsr.workingMode = d.st.hcsr.workingMode
        ∧ d'.thread = d.st.hcsr.kthread.elim d.thread
            (rearmed env d.st.log d.st.hcsr.workingMode) := by
  rw [rearmThread, ← hh, ← hw]
  split
  · rename_i hk
    rw [wp_pure, hk]
    exact ⟨rfl, hw.symm, rfl⟩
  · rename_i task hk
    rw [hk, Option.elim_some, rearmed]
    split
    · rename_i hm
      rw [if_neg (Ne.symm hm), startThread, wp_bind, sampling_call, wp_bind, sampling_call,
        sampling_store, hw]
      exact ⟨rfl, rfl, rfl⟩
    · rename_i hm
      rw [if_pos (not_ne_iff.mp hm).symm, stopThread, hk, wp_bind, sampling_call, sampling_store]
      exact ⟨rfl, hw.symm, rfl⟩

/-- The copy from the caller succeeds. -/
def Env.copies (env : Env) : Prop := ∀ log, env.answer log .copyFromUser = 0

/-- The modes SETMODE accepts. -/
def ModeSet.accepted (w : ModeSet) : Prop := w.mode = oneShot ∨ w.mode = periodic

theorem wp_ioctlSETMODE (hd : d.st.held = []) (hc : env.copies) {w : ModeSet}
    (hw : w.accepted) :
    wp (sampling env) (fun _ => False) (ioctlSETMODE w) d fun _ d' =>
      d'.picture = ⟨w.mode, w.freq, d.st.hcsr.kthread.elim d.thread
        (rearmed env ((.copyFromUser, 0) :: d.st.log) w)⟩ := by
  have hok : ¬ (oneShot ≠ w.mode ∧ periodic ≠ w.mode) := by
    rintro ⟨h0, h1⟩
    exact hw.elim (fun h => h0 h.symm) fun h => h1 h.symm
  rw [ioctlSETMODE, wp_bind, sampling_call, hc, if_neg (by decide), if_neg hok, wp_bind]
  refine sampling_lock _ _ (by simp [hd]) ?_
  rw [wp_bind, sampling_store, wp_bind]
  refine sampling_lock _ _ (by simp [hd]) ?_
  rw [wp_bind, sampling_load, wp_bind]
  refine wp_mono (wp_rearmThread _ rfl rfl) ?_
  rintro _ d' ⟨hheld, hmode, hthread⟩
  rw [wp_bind]
  refine sampling_unlock _ _ (by rw [hheld]; simp) ?_
  rw [wp_bind]
  refine sampling_unlock _ _ (by rw [hheld]; simp [hd]) ?_
  rw [wp_pure, Sampling.picture, hmode, hthread]
  rfl

/-- A mode that is refused leaves everything. -/
theorem wp_ioctlSETMODE_refused (hc : env.copies) {w : ModeSet} (hw : ¬ w.accepted) :
    wp (sampling env) (fun _ => False) (ioctlSETMODE w) d fun _ d' => d'.picture = d.picture := by
  have hno : oneShot ≠ w.mode ∧ periodic ≠ w.mode :=
    ⟨fun h => hw (.inl h.symm), fun h => hw (.inr h.symm)⟩
  rw [ioctlSETMODE, wp_bind, sampling_call, hc, if_neg (by decide), if_pos hno, wp_pure]
  rfl

end Calls

/-! ## Agreement -/

/-- Both calls return from `d`, and leave the same picture exactly if `P` holds. -/
def AgreeIff (env : Env) (d : Sampling) (p q : Code Int) (P : Prop) : Prop :=
  ∃ r d₁ r' d₂, p.run (sampling env) d = .ok (r, d₁) ∧ q.run (sampling env) d = .ok (r', d₂)
    ∧ (d₁.picture = d₂.picture ↔ P)

theorem AgreeIff.of_wp {env : Env} {d : Sampling} {p q : Code Int} {x y : Picture}
    (hp : wp (sampling env) (fun _ => False) p d fun _ d' => d'.picture = x)
    (hq : wp (sampling env) (fun _ => False) q d fun _ d' => d'.picture = y) :
    AgreeIff env d p q (x = y) := by
  obtain ⟨r, d₁, h₁, hx⟩ := run_of_wp hp
  obtain ⟨r', d₂, h₂, hy⟩ := run_of_wp hq
  exact ⟨r, d₁, r', d₂, h₁, h₂, by rw [hx, hy]⟩

theorem AgreeIff.congr {env : Env} {d : Sampling} {p q : Code Int} {P P' : Prop}
    (h : AgreeIff env d p q P) (hP : P ↔ P') : AgreeIff env d p q P' := by
  obtain ⟨r, d₁, r', d₂, h₁, h₂, hiff⟩ := h
  exact ⟨r, d₁, r', d₂, h₁, h₂, hiff.trans hP⟩

/-- There is no thread to rearm, or the running one is what SETMODE makes of it: none
    in one-shot mode, and else one with the period of the frequency. -/
def Sampling.settled (env : Env) (d : Sampling) (w : ModeSet) : Prop :=
  ∀ task, d.st.hcsr.kthread = some task →
    d.thread = rearmed env ((.copyFromUser, 0) :: d.st.log) w task

theorem eq_elim_iff {α β : Type} (o : Option α) (b : β) (f : α → β) :
    b = o.elim b f ↔ ∀ a, o = some a → b = f a := by
  cases o with
  | none => simp
  | some a => simp

/-- **SYSFS AGAINST IOCTL**: `mode_store` of `m` and SETMODE with `m` and the current
    frequency, `frequency_store` of `f` and SETMODE with the current mode and `f`:
    they agree exactly if the device is settled for the new setting; where
    SETMODE refuses the current mode, exactly if the frequency stays what it is. -/
theorem stores_agree_iff (env : Env) (hc : env.copies) (d : Sampling) (hd : d.st.held = []) :
    (∀ buf count m, sscanf buf = (1, m) → m = oneShot ∨ m = periodic →
      AgreeIff env d (modeStore buf count) (ioctlSETMODE ⟨m, d.st.hcsr.workingMode.freq⟩)
        (d.settled env ⟨m, d.st.hcsr.workingMode.freq⟩))
    ∧ ∀ buf count f, sscanf buf = (1, f) → 0 < f →
      AgreeIff env d (frequencyStore buf count)
        (ioctlSETMODE ⟨d.st.hcsr.workingMode.mode, BitVec.ofInt 32 f⟩)
        (if d.st.hcsr.workingMode.mode = oneShot ∨ d.st.hcsr.workingMode.mode = periodic
          then d.settled env ⟨d.st.hcsr.workingMode.mode, BitVec.ofInt 32 f⟩
          else BitVec.ofInt 32 f = d.st.hcsr.workingMode.freq) := by
  constructor
  · intro buf count m hb hm
    refine (AgreeIff.of_wp (wp_modeStore hd hb hm count)
      (wp_ioctlSETMODE (w := ⟨m, d.st.hcsr.workingMode.freq⟩) hd hc hm)).congr ?_
    rw [Sampling.settled, ← eq_elim_iff]
    simp
  · intro buf count f hb hf
    have hf0 : 0 ≠ f := Int.ne_of_lt hf
    split
    · rename_i hm
      refine (AgreeIff.of_wp (wp_frequencyStore hd hb hf0 count)
        (wp_ioctlSETMODE (w := ⟨d.st.hcsr.workingMode.mode, BitVec.ofInt 32 f⟩)
          hd hc hm)).congr ?_
      rw [Sampling.settled, ← eq_elim_iff]
      simp
    · rename_i hm
      refine (AgreeIff.of_wp (wp_frequencyStore hd hb hf0 count)
        (wp_ioctlSETMODE_refused (w := ⟨d.st.hcsr.workingMode.mode, BitVec.ofInt 32 f⟩)
          hc hm)).congr ?_
      simp [Sampling.picture]

/-- Periodic at once a second, with the thread running. -/
def runningDevice : Sampling where
  st := idle { periodicDevice with workingMode.freq := 1, kthread := some 7 } [] 0
  thread := some 1000

/-- Written again, the mode and the frequency leave the thread as SETMODE does. -/
theorem stores_agree_iff_rewritten :
    runningDevice.settled quietEnv ⟨periodic, 1⟩
      ∧ AgreeIff quietEnv runningDevice (modeStore ['1'] 1) (ioctlSETMODE ⟨periodic, 1⟩)
          (runningDevice.settled quietEnv ⟨periodic, 1⟩)
      ∧ AgreeIff quietEnv runningDevice (frequencyStore ['1'] 1) (ioctlSETMODE ⟨periodic, 1⟩)
          (runningDevice.settled quietEnv ⟨periodic, 1⟩) := by
  obtain ⟨hmode, hfreq⟩ := stores_agree_iff quietEnv (fun _ => rfl) runningDevice rfl
  refine ⟨?_, hmode ['1'] 1 periodic (by decide) (.inr rfl),
    hfreq ['1'] 1 1 (by decide) (by decide)⟩
  rintro task ⟨⟩
  rfl

/-- `mode_store` of 0 leaves the thread running, SETMODE with mode 0 stops it. -/
theorem stores_disagree :
    ¬ ∀ env : Env, env.copies → ∀ d : Sampling, d.st.held = [] →
      ∀ buf count m, sscanf buf = (1, m) → m = oneShot ∨ m = periodic →
        AgreeIff env d (modeStore buf count) (ioctlSETMODE ⟨m, d.st.hcsr.workingMode.freq⟩)
          True := by
  intro h
  obtain ⟨_, _, _, _, ⟨⟩, ⟨⟩, hiff⟩ := h quietEnv (fun _ => rfl) runningDevice rfl ['0'] 1 oneShot
    (by decide) (.inl rfl)
  exact absurd (hiff.mpr trivial) (by decide)

end HcSr04
