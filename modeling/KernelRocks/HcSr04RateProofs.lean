import KernelRocks.HcSr04LockProofs
import KernelRocks.HcSr04MiscProofs

/-! # The sampling rate — `1000 / freq`

    `thread_function` divides by `working_mode.freq` when it starts.  The device
    starts in one-shot mode with a frequency of 0; `frequency_store` refuses 0,
    SETMODE does not, and `mode_store` switches to periodic without a look at the
    frequency.

    `Works w p Q`: started with the working mode `w`, `p` starts a thread only
    while the frequency is not 0, and returns with a working mode in `Q`.  Every
    function has its rule.

    * `rate_never_zero`: no call of either driver starts a thread at frequency 0,
      in a sequence where SETMODE to periodic brings a frequency and `mode_store`
      to periodic finds one.
    * `rate_zero`: SETMODE to periodic at 0 and a write are enough. -/

namespace HcSr04

open Program

/-! ## Rules -/

/-- A thread is started only at a frequency other than 0. -/
def StartsPaced (a : Act) (s : St) : Prop :=
  a = .call .kthreadRun → s.hcsr.workingMode.freq ≠ 0

/-- `p`, started in the working mode `w`, starts no thread at 0 Hz and ends in a mode with
    `Q`. -/
def Works {α : Type} (env : Env) (w : ModeSet) (p : Code α) (Q : ModeSet → Prop) : Prop :=
  ∀ s, s.hcsr.workingMode = w →
    along (sem env) StartsPaced p s fun _ s' => Q s'.hcsr.workingMode

section Rules
variable {env : Env} {α β : Type} {w : ModeSet} {Q : ModeSet → Prop}

/-- A result leaves the mode as it is. -/
theorem Works.pure (a : α) (h : Q w) : Works env w (pure a) Q := by
  rintro s rfl
  exact along_ret a h

/-- Behind a program that leaves the working mode alone. -/
theorem Works.bind {p : Code α} {f : α → Code β} (hp : Works env w p (· = w))
    (hf : ∀ a, Works env w (f a) Q) : Works env w (p >>= f) Q := by
  intro s hs
  refine along_bind (along_mono (hp s hs) ?_)
  intro a s' hs'
  exact hf a s' hs'

/-- Either branch may use the test. -/
theorem Works.ite {c : Prop} [Decidable c] {p q : Code α} (hp : c → Works env w p Q)
    (hq : ¬ c → Works env w q Q) : Works env w (if c then p else q) Q := by
  intro s hs
  exact along_ite (fun h => hp h s hs) (fun h => hq h s hs)

/-- The locks are no part of the mode. -/
theorem Works.lock {l : SpinLock} : Works env w (lock l) (· = w) := by
  rintro s rfl
  refine along_perform nofun ?_
  intro r s' h
  simp only [sem] at h
  split at h
  · cases h
  · cases h
    rfl

theorem Works.unlock {l : SpinLock} : Works env w (unlock l) (· = w) := by
  rintro s rfl
  refine along_perform nofun ?_
  intro r s' h
  simp only [sem] at h
  split at h
  · cases h
    rfl
  · cases h

/-- What is read is the working mode. -/
theorem Works.load {f : Hcsr → Code β} (hf : ∀ h, h.workingMode = w → Works env w (f h) Q) :
    Works env w (load >>= f) Q := by
  rintro s rfl
  refine along_bind (along_perform nofun ?_)
  rintro r s' ⟨⟩
  exact hf (s.hcsr.seen env s.reads) rfl
    { s with hcsr := s.hcsr.seen env s.reads, reads := s.reads + 1 } rfl

/-- A store may change the mode: the program goes on in the new one. -/
theorem Works.store {g : Hcsr → Hcsr} {w' : ModeSet}
    (hg : ∀ h, h.workingMode = w → (g h).workingMode = w') : Works env w (store g) (· = w') := by
  intro s hs
  refine along_perform nofun ?_
  rintro r s' ⟨⟩
  exact hg _ hs

/-- Of the calls into the kernel only `kthread_run` needs the frequency. -/
theorem Works.call {c : Call} (hc : c ≠ .kthreadRun) : Works env w (call c) (· = w) := by
  rintro s rfl
  refine along_perform ?_ ?_
  · rintro ⟨⟩
    exact absurd rfl hc
  · rintro r s' ⟨⟩
    rfl

/-- A write of the configuration changes the working mode. -/
theorem Works.bind_store {g : Hcsr → Hcsr} {u : ModeSet} {f : Unit → Code β}
    (hg : ∀ h, h.workingMode = w → (g h).workingMode = u) (hf : Works env u (f ()) Q) :
    Works env w (HcSr04.store g >>= f) Q := by
  intro s hs
  refine along_bind (along_mono (Works.store hg s hs) ?_)
  intro a s' hs'
  exact hf s' hs'

end Rules

/-! ## The pulse leaves the working mode alone -/

section Pulse
variable {env : Env} {w : ModeSet}

theorem works_unlockOnce (cnt : Bool) : Works env w (unlockOnce cnt) (· = w) := by
  rw [unlockOnce]
  exact .ite (fun _ => .pure _ rfl) (fun _ => .unlock)

/-- The polls read the flag. -/
theorem works_pollOngoing : ∀ left cnt, Works env w (pollOngoing left cnt) (· = w) := by
  intro left
  induction left with
  | zero =>
      intro cnt
      rw [pollOngoing]
      refine .load fun h _ => .ite (fun _ => ?_) (fun _ => ?_)
      · refine .bind (works_unlockOnce cnt) fun _ => .bind .lock fun _ => ?_
        refine .bind (.store fun _ h => h) fun _ => .bind .unlock fun _ => .pure _ rfl
      · exact .bind (works_unlockOnce cnt) fun _ => .pure _ rfl
  | succ left ih =>
      intro cnt
      rw [pollOngoing]
      refine .load fun h _ => .ite (fun _ => ?_) (fun _ => ?_)
      · exact .bind (works_unlockOnce cnt) fun _ => .bind (.call nofun) fun _ => ih true
      · exact .bind (works_unlockOnce cnt) fun _ => .pure _ rfl

/-- From the pulse on the two drivers' `do_send` are one text. -/
theorem works_pulse (pin : Int) : Works env w (do
    let _ ← call (.gpioSetValue pin 1)
    let _ ← call (.udelay 10)
    let _ ← call (.gpioSetValue pin 0)
    let now ← call .ktimeGet
    store fun h => { h with kstart := now }
    lock .ongoing
    pollOngoing 50000 false) (· = w) := by
  refine .bind (.call nofun) fun _ => .bind (.call nofun) fun _ => ?_
  refine .bind (.call nofun) fun _ => .bind (.call nofun) fun _ => ?_
  exact .bind (.store fun _ h => h) fun _ => .bind .lock fun _ => works_pollOngoing _ _

/-- `do_send` reads the pins and leaves the mode alone. -/
theorem works_doSend : Works env w doSend (· = w) := by
  rw [doSend]
  refine .bind .lock fun _ => .load fun h _ => .bind .unlock fun _ => ?_
  exact works_pulse _

theorem Misc.works_doSend : Works env w Misc.doSend (· = w) := by
  rw [Misc.doSend]
  exact .load fun h _ => works_pulse _

/-- So does each retry. -/
theorem works_sendRetry : ∀ left, Works env w (sendRetry left) (· = w) := by
  intro left
  induction left with
  | zero => exact works_doSend
  | succ left ih =>
      rw [sendRetry]
      exact .bind works_doSend fun _ => .ite (fun _ => ih) (fun _ => .pure _ rfl)

theorem Misc.works_sendRetry : ∀ left, Works env w (Misc.sendRetry left) (· = w) := by
  intro left
  induction left with
  | zero => exact Misc.works_doSend
  | succ left ih =>
      rw [Misc.sendRetry]
      exact .bind Misc.works_doSend fun _ => .ite (fun _ => ih) (fun _ => .pure _ rfl)

/-- So does `send`. -/
theorem works_send (retryCnt : Nat) : Works env w (send retryCnt) (· = w) := by
  rw [send]
  refine .bind .lock fun _ => .load fun h _ => .ite (fun _ => ?_) (fun _ => ?_)
  · exact .bind .unlock fun _ => .pure _ rfl
  · exact .bind (.store fun _ h => h) fun _ => .bind .unlock fun _ => works_sendRetry _

theorem Misc.works_send (retryCnt : Nat) : Works env w (Misc.send retryCnt) (· = w) := by
  rw [Misc.send]
  refine .bind .lock fun _ => .load fun h _ => .ite (fun _ => ?_) (fun _ => ?_)
  · exact .bind .unlock fun _ => .pure _ rfl
  · exact .bind (.store fun _ h => h) fun _ => .bind .unlock fun _ => Misc.works_sendRetry _

end Pulse

/-! ## The calls -/

section Calls
variable {env : Env} {w : ModeSet} {send : Nat → Code Int}

/-- And the one-shot trigger that calls it. -/
theorem works_sendIfStoppingWith (hsend : ∀ n, Works env w (send n) (· = w)) :
    Works env w (sendIfStoppingWith send) (· = w) := by
  rw [sendIfStoppingWith]
  refine .load fun h _ => .ite (fun _ => ?_) (fun _ => .unlock)
  exact .bind .unlock fun _ => .bind (hsend 5) fun _ => .pure _ rfl

/-- A thread is started if there is a frequency. -/
theorem works_startThread (hw : w.freq ≠ 0) : Works env w startThread (· = w) := by
  rw [startThread]
  refine .bind ?_ fun task => .store fun _ h => h
  rintro s rfl
  refine along_perform (fun _ => hw) ?_
  rintro r s' ⟨⟩
  rfl

/-- Stopping one needs none. -/
theorem works_stopThread (h : Hcsr) : Works env w (stopThread h) (· = w) := by
  rw [stopThread]
  split
  · exact .pure _ rfl
  · exact .bind (.call nofun) fun _ => .store fun _ h => h

/-- A write outside the one-shot mode starts, stops or leaves the thread. -/
theorem works_switchThread (act : Int) (h : Hcsr) (hw : w.freq ≠ 0) :
    Works env w (switchThread act h) (· = w) := by
  rw [switchThread]
  refine .ite (fun _ => ?_) (fun _ => ?_)
  · split
    · exact .pure _ rfl
    · refine .bind (works_stopThread h) fun _ => .bind .lock fun _ => ?_
      exact .bind (.store fun _ h => h) fun _ => .unlock
  · split
    · exact works_startThread hw
    · exact .pure _ rfl

/-- Clearing the buffer does not look at the mode. -/
theorem works_clearSamples (act : Int) : Works env w (clearSamples act) (· = w) := by
  rw [clearSamples]
  refine .ite (fun _ => ?_) (fun _ => .pure _ rfl)
  refine .bind .lock fun _ => .bind (.store fun _ h => h) fun _ => ?_
  exact .bind (.store fun _ h => h) fun _ => .unlock

/-- The mode and the frequency fit together. -/
def ModeSet.steady (w : ModeSet) : Prop := w.mode ≠ oneShot → w.freq ≠ 0

/-- `hc_sr04_write`, in the working mode it finds. -/
theorem works_hcSr04WriteWith (hsend : ∀ n, Works env w (send n) (· = w)) (act : Int)
    (hw : w.steady) : Works env w (hcSr04WriteWith send act) ModeSet.steady := by
  rw [hcSr04WriteWith]
  refine .bind (.call nofun) fun _ => .bind .lock fun _ => .load fun h hh => ?_
  refine .ite (fun _ => ?_) (fun hm => ?_)
  · refine .bind .unlock fun _ => .bind (works_clearSamples act) fun _ => .bind .lock fun _ => ?_
    exact .bind (works_sendIfStoppingWith hsend) fun _ => .pure _ hw
  · rw [hh] at hm
    refine .bind .unlock fun _ => .bind .lock fun _ => .load fun h _ => ?_
    exact .bind (works_switchThread act h (hw hm)) fun _ => .bind .unlock fun _ => .pure _ hw

/-- The thread behind a change of mode runs at the new frequency. -/
theorem works_rearmThread (h : Hcsr) (hh : h.workingMode = w) (hw : w.steady) :
    Works env w (rearmThread h) (· = w) := by
  rw [rearmThread]
  split
  · exact .pure _ rfl
  · refine .ite (fun hm => ?_) (fun _ => works_stopThread h)
    rw [hh] at hm
    exact .bind (.call nofun) fun _ => works_startThread (hw (Ne.symm hm))

/-- SETMODE, if periodic comes with a frequency. -/
theorem works_ioctlSETMODE (u : ModeSet) (hw : w.steady)
    (hu : u.mode = periodic → u.freq ≠ 0) : Works env w (ioctlSETMODE u) ModeSet.steady := by
  rw [ioctlSETMODE]
  refine .bind (.call nofun) fun _ => .ite (fun _ => .pure _ hw) (fun _ => ?_)
  refine .ite (fun _ => .pure _ hw) (fun hm => ?_)
  have hsteady : u.steady := by
    intro hne
    refine hu ?_
    by_contra hp
    exact hm ⟨Ne.symm hne, Ne.symm hp⟩
  refine .bind .lock fun _ => .bind_store (u := u) (fun _ _ => rfl) ?_
  refine .bind .lock fun _ => .load fun h hh => ?_
  refine .bind (works_rearmThread h hh hsteady) fun _ => ?_
  exact .bind .unlock fun _ => .bind .unlock fun _ => .pure _ hsteady

/-- A store of an attribute ends in the mode it writes. -/
theorem works_storeConfig {g : Hcsr → Hcsr} {u : ModeSet}
    (hg : ∀ h, h.workingMode = w → (g h).workingMode = u) (hu : u.steady) (count : Nat) :
    Works env w (storeConfig g count) ModeSet.steady := by
  rw [storeConfig]
  refine .bind .lock fun _ => .bind_store hg ?_
  exact .bind .unlock fun _ => .pure _ hu

/-- `mode_store`, if there is a frequency for the periodic mode. -/
theorem works_modeStore (buf : List Char) (count : Nat) (hw : w.steady)
    (hm : (sscanf buf).2 = periodic → w.freq ≠ 0) :
    Works env w (modeStore buf count) ModeSet.steady := by
  rw [modeStore]
  refine .ite (fun _ => .pure _ hw) (fun hok => .ite (fun _ => .pure _ hw) (fun _ => ?_))
  refine works_storeConfig (u := ⟨(sscanf buf).2, w.freq⟩) ?_ ?_ count
  · rintro h rfl
    rfl
  · intro hne
    refine hm ?_
    by_contra hp
    exact hok ⟨Ne.symm hne, Ne.symm hp⟩

/-- A number other than 0 read into an `int` is not 0 as an `unsigned int`. -/
theorem ofInt_wrapInt_ne_zero {n : Int} (h : wrapInt n ≠ 0) : BitVec.ofInt 32 (wrapInt n) ≠ 0 := by
  intro h0
  have hi := congrArg BitVec.toInt h0
  rw [BitVec.toInt_ofInt, wrapInt, Int.bmod_bmod] at hi
  exact h hi

/-- What `sscanf` stores is 0 or a number taken modulo 2^32. -/
theorem sscanf_wrapInt (buf : List Char) :
    (sscanf buf).2 = 0 ∨ ∃ n, (sscanf buf).2 = wrapInt n := by
  simp only [sscanf]
  repeat' split
  · exact .inl rfl
  · exact .inr ⟨_, rfl⟩
  · exact .inl rfl
  · exact .inr ⟨_, rfl⟩

/-- A value that passed the test is no frequency of 0. -/
theorem ofInt_sscanf_ne_zero {buf : List Char} (h : 0 ≠ (sscanf buf).2) :
    BitVec.ofInt 32 (sscanf buf).2 ≠ 0 := by
  rcases sscanf_wrapInt buf with h0 | ⟨n, hn⟩
  · exact absurd h0.symm h
  · rw [hn] at h ⊢
    exact ofInt_wrapInt_ne_zero (Ne.symm h)

/-- `frequency_store` refuses a frequency of 0. -/
theorem works_frequencyStore (buf : List Char) (count : Nat) (hw : w.steady) :
    Works env w (frequencyStore buf count) ModeSet.steady := by
  rw [frequencyStore]
  refine .ite (fun _ => .pure _ hw) (fun _ => .ite (fun _ => .pure _ hw) (fun hne => ?_))
  refine works_storeConfig (u := ⟨w.mode, BitVec.ofInt 32 (sscanf buf).2⟩) ?_ ?_ count
  · rintro h rfl
    rfl
  · intro _
    exact ofInt_sscanf_ne_zero hne

/-- `enable_store` starts the thread only outside the one-shot mode. -/
theorem works_enableStore (buf : List Char) (count : Nat) (hw : w.steady) :
    Works env w (enableStore buf count) ModeSet.steady := by
  rw [enableStore]
  have hflag : ∀ enable : Int, Works env w
      (storeConfig (fun h => { h with enable := enable }) count) ModeSet.steady := by
    intro enable
    refine works_storeConfig (u := w) ?_ hw count
    exact fun _ h => h
  refine .ite (fun _ => .pure _ hw) (fun _ => .ite (fun _ => ?_) (fun _ => ?_))
  · refine .bind .lock fun _ => .load fun h _ => .bind (works_stopThread h) fun _ => ?_
    refine .bind .unlock fun _ => .bind .lock fun _ => .bind (.store fun _ h => h) fun _ => ?_
    exact .bind .unlock fun _ => hflag _
  · refine .ite (fun _ => ?_) (fun _ => .pure _ hw)
    refine .load fun h _ => .ite (fun _ => .pure _ hw) (fun _ => ?_)
    refine .bind .lock fun _ => .load fun h hh => .ite (fun _ => ?_) (fun hm => ?_)
    · refine .bind .unlock fun _ => .bind .lock fun _ => ?_
      exact .bind (works_sendIfStoppingWith works_send) fun _ => hflag _
    · rw [hh] at hm
      refine .bind .lock fun _ => .bind (works_startThread (hw hm)) fun _ => ?_
      exact .bind .unlock fun _ => hflag _

end Calls

/-! ## Sequences of calls -/

/-- The calls that change the mode, the frequency or the thread. -/
inductive Setting where
  | write (act : Int)
  | setMode (workingMode : ModeSet)
  | mode (buf : List Char) (count : Nat)
  | frequency (buf : List Char) (count : Nat)
  | enable (buf : List Char) (count : Nat)

/-- The code of a call, if the driver has it. -/
def Setting.code : Version → Setting → Option (Code Int)
  | .misc, .write act => some (Misc.hcSr04Write act)
  | .misc, .setMode workingMode => some (Misc.ioctlSETMODE workingMode)
  | .misc, _ => none
  | .sysfs, .write act => some (hcSr04Write act)
  | .sysfs, .setMode workingMode => some (ioctlSETMODE workingMode)
  | .sysfs, .mode buf count => some (modeStore buf count)
  | .sysfs, .frequency buf count => some (frequencyStore buf count)
  | .sysfs, .enable buf count => some (enableStore buf count)

/-- The call returns, from one state to another. -/
def completes (v : Version) (o : Setting) (s s' : St) : Prop :=
  ∃ env p r, o.code v = some p ∧ p.run (sem env) s = .ok (r, s')

/-- The device after its initialisation. -/
def initialSt : Version → St
  | .misc => ⟨Misc.initHcsrStruct, [], [], 0⟩
  | .sysfs => ⟨initHcsrStruct, [], [], 0⟩

/-- SETMODE to periodic brings a frequency, `mode_store` to periodic finds one. -/
structure RateGiven (s : St) (o : Setting) : Prop where
  setMode : ∀ u, o = .setMode u → u.mode = periodic → u.freq ≠ 0
  mode : ∀ buf count, o = .mode buf count → (sscanf buf).2 = periodic →
    s.hcsr.workingMode.freq ≠ 0

/-- One call, from a mode that fits its frequency to another. -/
theorem works_setting {v : Version} {o : Setting} {p : Code Int} {s : St} (hp : o.code v = some p)
    (hs : s.hcsr.workingMode.steady) (hC : RateGiven s o) (env : Env) :
    Works env s.hcsr.workingMode p ModeSet.steady := by
  cases o with
  | write act =>
      cases v <;> cases hp
      · exact works_hcSr04WriteWith Misc.works_send act hs
      · rw [hcSr04Write]
        exact works_hcSr04WriteWith works_send act hs
  | setMode u => cases v <;> cases hp <;> exact works_ioctlSETMODE u hs (hC.setMode u rfl)
  | mode buf count =>
      cases v <;> cases hp
      exact works_modeStore buf count hs (hC.mode buf count rfl)
  | frequency buf count =>
      cases v <;> cases hp
      exact works_frequencyStore buf count hs
  | enable buf count =>
      cases v <;> cases hp
      exact works_enableStore buf count hs

/-- **BETWEEN CALLS** mode and frequency fit together. -/
theorem between_steady {v : Version} {s : St}
    (h : Between (completes v) RateGiven (initialSt v) s) : s.hcsr.workingMode.steady := by
  refine Between.invariant (I := fun s : St => s.hcsr.workingMode.steady) ?_ ?_ h
  · cases v <;> exact fun h => absurd rfl h
  · rintro s s' o hs hC ⟨env, p, r, hp, hr⟩
    exact (works_setting hp hs hC env s rfl).ends r s' hr

/-- **NO DIVISION BY ZERO**: between any complete calls, whatever call is made next
    starts `thread_function` only at a frequency other than 0. -/
theorem rate_never_zero (v : Version) {s : St} (h : Between (completes v) RateGiven (initialSt v) s)
    {o : Setting} (hC : RateGiven s o) {p : Code Int} (hp : o.code v = some p) (env : Env) :
    ∀ x ∈ p.trace (sem env) s, x.1 = .call .kthreadRun → x.2.hcsr.workingMode.freq ≠ 0 :=
  (works_setting hp (between_steady h) hC env s rfl).way

/-! ## A thread at once a second, and one at 0 -/

/-- SETMODE to periodic has returned. -/
def periodicAt (freq : BitVec 32) : St where
  hcsr := { Misc.initHcsrStruct with workingMode := ⟨periodic, freq⟩ }
  held := []
  log := [(.copyFromUser, 0)]
  reads := 1

theorem completes_setMode (freq : BitVec 32) :
    completes .misc (.setMode ⟨periodic, freq⟩) (initialSt .misc) (periodicAt freq) :=
  ⟨quietEnv, _, 0, rfl, rfl⟩

/-- The write of 1 that follows comes to `kthread_run`. -/
theorem starts_periodicAt (freq : BitVec 32) :
    ∃ x ∈ (Misc.hcSr04Write 1).trace (sem quietEnv) (periodicAt freq),
      x.1 = .call .kthreadRun ∧ x.2.hcsr.workingMode.freq = freq :=
  ⟨_, List.mem_of_getElem? (i := 6) rfl, rfl, rfl⟩

theorem rate_never_zero_started :
    (Between (completes .misc) RateGiven (initialSt .misc) (periodicAt 1)
      ∧ ∃ x ∈ (Misc.hcSr04Write 1).trace (sem quietEnv) (periodicAt 1), x.1 = .call .kthreadRun)
      ∧ ∀ x ∈ (Misc.hcSr04Write 1).trace (sem quietEnv) (periodicAt 1),
          x.1 = .call .kthreadRun → x.2.hcsr.workingMode.freq ≠ 0 := by
  have hB : Between (completes .misc) RateGiven (initialSt .misc) (periodicAt 1) := by
    refine .call (.setMode ⟨periodic, 1⟩) .start ⟨?_, nofun⟩ (completes_setMode 1)
    rintro u ⟨⟩ _
    decide
  obtain ⟨x, hx, hrun, -⟩ := starts_periodicAt 1
  exact ⟨⟨hB, x, hx, hrun⟩, rate_never_zero .misc hB (o := .write 1) ⟨nofun, nofun⟩ rfl quietEnv⟩

theorem rate_zero :
    ¬ ∀ v s o env p, Between (completes v) (fun _ _ => True) (initialSt v) s →
      Setting.code v o = some p → ∀ x ∈ p.trace (sem env) s,
        x.1 = .call .kthreadRun → x.2.hcsr.workingMode.freq ≠ 0 := by
  intro h
  have hB : Between (completes .misc) (fun _ _ => True) (initialSt .misc) (periodicAt 0) :=
    .call (.setMode ⟨periodic, 0⟩) .start trivial (completes_setMode 0)
  obtain ⟨x, hx, hrun, hfreq⟩ := starts_periodicAt 0
  exact h .misc _ (.write 1) quietEnv _ hB rfl x hx hrun hfreq

end HcSr04
