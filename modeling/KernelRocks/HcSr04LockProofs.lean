import KernelRocks.HcSr04InterfaceProofs

/-! # Lock discipline of the HC-SR04 interface

    Each interface function is run by itself from a state with no lock held.
    `Locks H p H'` says what `p` does to the locks: started with exactly `H`
    held it makes no mistake, and it returns with exactly `H'` held.  Every
    function has its lock rule, put together from those of its actions.

    Two paths break the discipline.  `enable_store` of 1 outside the one-shot
    mode starts the thread with `kconfig_lock` still held and then takes it
    again; SETPINS whose argument cannot be copied jumps to an exit that
    releases `irq_done_lock`, before it was taken, unless its stores through the
    `hcsr` that is still NULL have killed it.  `lock_discipline`: every other call
    of every function keeps it. -/

namespace HcSr04

open Program

section Rules
variable {env : Env} {ok : Fault → Prop} {α β : Type}
variable {H H₁ H₂ : List SpinLock}

/-- `p` goes from exactly the locks `H` to exactly the locks `H'`. -/
def Locks (env : Env) (ok : Fault → Prop) (H : List SpinLock) (p : Code α)
    (H' : List SpinLock) : Prop :=
  ∀ s, s.held = H → wp (sem env) ok p s fun _ s' => s'.held = H'

/-- A result holds what was held. -/
theorem Locks.pure (a : α) : Locks env ok H (pure a) H := by
  intro s hs
  rw [wp_pure]
  exact hs

/-- One program behind another. -/
theorem Locks.bind {p : Code α} {f : α → Code β} (hp : Locks env ok H p H₁)
    (hf : ∀ a, Locks env ok H₁ (f a) H₂) : Locks env ok H (p >>= f) H₂ := by
  intro s hs
  rw [wp_bind]
  exact wp_mono (hp s hs) fun a s' hs' => hf a s' hs'

/-- Both branches have to agree on the locks they leave. -/
theorem Locks.ite {c : Prop} [Decidable c] {p q : Code α} (hp : Locks env ok H p H₁)
    (hq : Locks env ok H q H₁) : Locks env ok H (if c then p else q) H₁ := by
  split
  · exact hp
  · exact hq

/-- A lock that is not held is taken. -/
theorem Locks.lock {l : SpinLock} (hl : l ∉ H) : Locks env ok H (lock l) (l :: H) := by
  rintro s rfl
  rw [wp_lock]
  exact ⟨fun h => absurd h hl, fun _ => rfl⟩

/-- The lock taken last is released. -/
theorem Locks.unlock {l : SpinLock} : Locks env ok (l :: H) (unlock l) H := by
  intro s hs
  have hl : l ∈ s.held := hs ▸ List.mem_cons_self ..
  rw [wp_unlock]
  refine ⟨fun _ => ?_, fun h => absurd hl h⟩
  rw [hs, List.erase_cons_head]

/-- A read of the device takes no lock, and neither does a write. -/
theorem Locks.load : Locks env ok H load H := by
  intro s hs
  rw [wp_load]
  exact hs

theorem Locks.store {f : Hcsr → Hcsr} : Locks env ok H (store f) H := by
  intro s hs
  rw [wp_store]
  exact hs

theorem Locks.slot {i : Int} : Locks env ok H (slot i) H := by
  intro s hs
  rw [wp_slot]
  exact hs

/-- The calls into the kernel are not made for their locks. -/
theorem Locks.call {c : Call} : Locks env ok H (call c) H := by
  intro s hs
  rw [wp_call]
  exact hs

/-! ## The pin functions take no lock -/

/-- A loop over the functions of a pin, if its body gives back what it takes. -/
theorem locks_eachFunc {body : PinFunc → Code (Option Leave)}
    (hbody : ∀ m, Locks env ok H (body m) H) :
    ∀ ms, Locks env ok H (eachFunc body ms) H := by
  intro ms
  induction ms with
  | nil => exact .pure _
  | cons m ms ih =>
      refine .bind (hbody m) ?_
      intro out
      cases out with
      | none => exact ih
      | some out => exact .pure _

/-- A loop over the rows of the pin table. -/
theorem locks_eachRow {pin : Int} {body : PinRow → PinFunc → Code (Option Leave)}
    (hbody : ∀ row m, Locks env ok H (body row m) H) :
    ∀ rows, Locks env ok H (eachRow pin body rows) H := by
  intro rows
  induction rows with
  | nil => exact .pure _
  | cons row rows ih =>
      rw [eachRow]
      refine .ite ih (.bind (locks_eachFunc (hbody row) _) ?_)
      intro out
      cases out with
      | none => exact ih
      | some out => exact .pure _

theorem locks_freeBody {skip : List PinFunc} (row : PinRow) (m : PinFunc) :
    Locks env ok H (freeBody skip row m) H := by
  rw [freeBody]
  exact .ite (.pure _) (.bind .call fun _ => .pure _)

theorem locks_setBody {skip : List PinFunc} {direction : PinFunc → Int × Int → Call}
    (row : PinRow) (m : PinFunc) : Locks env ok H (setBody skip direction row m) H := by
  rw [setBody]
  refine .ite (.pure _) (.bind .call fun ret => ?_)
  refine .ite (.pure _) (.bind .call fun ret => ?_)
  exact .ite (.pure _) (.pure _)

/-- Pins are requested and freed without a lock of the device. -/
theorem locks_freeTrig {pin : Int} : Locks env ok H (freeTrig pin) H :=
  .bind (locks_eachRow locks_freeBody _) fun _ => .pure _

theorem locks_freeEcho {pin : Int} : Locks env ok H (freeEcho pin) H :=
  .bind (locks_eachRow locks_freeBody _) fun _ => .pure _

theorem locks_setTrig {pin : Int} : Locks env ok H (setTrig pin) H := by
  refine .bind (locks_eachRow locks_setBody _) ?_
  intro out
  rcases out with _ | ⟨ret⟩ | ⟨ret⟩
  · exact .pure _
  · exact .bind .call fun _ => .pure _
  · exact .pure _

theorem locks_setEcho {pin : Int} : Locks env ok H (setEcho pin) H := by
  refine .bind (locks_eachRow locks_setBody _) ?_
  intro out
  rcases out with _ | ⟨ret⟩ | ⟨ret⟩
  · exact .pure _
  · exact .bind .call fun _ => .pure _
  · exact .pure _

/-- So is the interrupt line. -/
theorem locks_setISR : Locks env ok H setISR H := by
  refine .bind .load fun h => .bind .call fun ret => ?_
  refine .ite (.pure _) (.bind .store fun _ => ?_)
  refine .bind .load fun h => .bind .call fun ret => ?_
  exact .ite (.pure _) (.pure _)

/-! ## The pulse -/

/-- Which locks the loop of `do_send` has, before and after its first round. -/
def polling (cnt : Bool) (H : List SpinLock) : List SpinLock :=
  if cnt then H else .ongoing :: H

/-- The lock is released in the first round. -/
theorem locks_unlockOnce (cnt : Bool) :
    Locks env ok (polling cnt H) (unlockOnce cnt) H := by
  cases cnt with
  | false => exact .unlock
  | true => exact .pure _

/-- The loop ends with the lock released, whichever way and in whichever round. -/
theorem locks_pollOngoing (ho : .ongoing ∉ H) :
    ∀ left cnt, Locks env ok (polling cnt H) (pollOngoing left cnt) H := by
  intro left
  induction left with
  | zero =>
      intro cnt
      refine .bind .load fun h => .ite ?_ ?_
      · refine .bind (locks_unlockOnce cnt) fun _ => ?_
        exact .bind (.lock ho) fun _ => .bind .store fun _ => .bind .unlock fun _ => .pure _
      · exact .bind (locks_unlockOnce cnt) fun _ => .pure _
  | succ left ih =>
      intro cnt
      refine .bind .load fun h => .ite ?_ ?_
      · refine .bind (locks_unlockOnce cnt) fun _ => ?_
        exact .bind .call fun _ => ih true
      · exact .bind (locks_unlockOnce cnt) fun _ => .pure _

/-- `do_send` takes its locks one after the other. -/
theorem locks_doSend (hk : .kconfig ∉ H) (ho : .ongoing ∉ H) :
    Locks env ok H doSend H := by
  refine .bind (.lock hk) fun _ => .bind .load fun h => .bind .unlock fun _ => ?_
  refine .bind .call fun _ => .bind .call fun _ => .bind .call fun _ => ?_
  refine .bind .call fun now => .bind .store fun _ => ?_
  exact .bind (.lock ho) fun _ => locks_pollOngoing ho 50000 false

theorem locks_sendRetry (hk : .kconfig ∉ H) (ho : .ongoing ∉ H) :
    ∀ left, Locks env ok H (sendRetry left) H := by
  intro left
  induction left with
  | zero => exact locks_doSend hk ho
  | succ left ih => exact .bind (locks_doSend hk ho) fun ret => .ite ih (.pure _)

/-- `send` tests the flag under its lock and gives it back before the pulse. -/
theorem locks_send (hk : .kconfig ∉ H) (ho : .ongoing ∉ H) (retryCnt : Nat) :
    Locks env ok H (send retryCnt) H := by
  refine .bind (.lock ho) fun _ => .bind .load fun h => .ite ?_ ?_
  · exact .bind .unlock fun _ => .pure _
  · exact .bind .store fun _ => .bind .unlock fun _ => locks_sendRetry hk ho retryCnt

/-- The one-shot trigger is called with `ongoing_lock` and releases it on both paths. -/
theorem locks_sendIfStopping (hk : .kconfig ∉ H) (ho : .ongoing ∉ H) :
    Locks env ok (.ongoing :: H) sendIfStopping H := by
  refine .bind .load fun h => .ite ?_ .unlock
  exact .bind .unlock fun _ => .bind (locks_send hk ho 5) fun _ => .pure _

/-! ## The attributes -/

/-- The `show` functions read under one lock. -/
theorem locks_showConfig {field : Hcsr → Int} (hk : .kconfig ∉ H) :
    Locks env ok H (showConfig field) H :=
  .bind (.lock hk) fun _ => .bind .load fun _ => .bind .unlock fun _ => .pure _

theorem locks_distanceShow (hc : .cirBuf ∉ H) : Locks env ok H distanceShow H := by
  refine .bind (.lock hc) fun _ => .bind .load fun h => .ite ?_ ?_
  · exact .bind .unlock fun _ => .pure _
  · exact .bind .slot fun _ => .bind .unlock fun _ => .pure _

/-- The `store` functions write under one lock. -/
theorem locks_storeConfig {f : Hcsr → Hcsr} {count : Nat} (hk : .kconfig ∉ H) :
    Locks env ok H (storeConfig f count) H :=
  .bind (.lock hk) fun _ => .bind .store fun _ => .bind .unlock fun _ => .pure _

theorem locks_triggerStore {buf : List Char} {count : Nat} (hk : .kconfig ∉ H) :
    Locks env ok H (triggerStore buf count) H := by
  refine .bind .load fun h => .bind locks_freeTrig fun _ => ?_
  refine .ite (.pure _) (.bind locks_setTrig fun ret => ?_)
  exact .ite (.pure _) (locks_storeConfig hk)

/-- A failed assignment restores the pins and releases the lock. -/
theorem locks_failedSet {prevPins : PinSet} {ret : Int} :
    Locks env ok (.kconfig :: H) (failedSet prevPins ret) H :=
  .bind .store fun _ => .bind .unlock fun _ => .pure _

theorem locks_dropIrq {h : Hcsr} : Locks env ok H (dropIrq h) H :=
  .ite (.bind .call fun _ => .store) (.pure _)

/-- `echo_store` takes `irq_done_lock` by itself and then once more inside `kconfig_lock`. -/
theorem locks_echoStore {buf : List Char} {count : Nat} (hk : .kconfig ∉ H)
    (hi : .irqDone ∉ H) : Locks env ok H (echoStore buf count) H := by
  have hki : SpinLock.irqDone ∉ SpinLock.kconfig :: H := by simpa using hi
  refine .bind (.lock hi) fun _ => .bind .load fun h => ?_
  refine .bind locks_dropIrq fun _ => .bind .unlock fun _ => ?_
  refine .bind .load fun h => .bind locks_freeEcho fun _ => ?_
  -- from here to the end kconfig_lock is held
  refine .bind (.lock hk) fun _ => .bind .load fun h => ?_
  refine .ite locks_failedSet (.bind locks_setEcho fun ret => ?_)
  refine .ite locks_failedSet (.bind .store fun _ => .bind locks_setISR fun ret => ?_)
  refine .ite locks_failedSet (.bind (.lock hki) fun _ => .bind .store fun _ => ?_)
  exact .bind .unlock fun _ => .bind .unlock fun _ => .pure _

theorem locks_modeStore {buf : List Char} {count : Nat} (hk : .kconfig ∉ H) :
    Locks env ok H (modeStore buf count) H :=
  .ite (.pure _) (.ite (.pure _) (locks_storeConfig hk))

theorem locks_frequencyStore {buf : List Char} {count : Nat} (hk : .kconfig ∉ H) :
    Locks env ok H (frequencyStore buf count) H :=
  .ite (.pure _) (.ite (.pure _) (locks_storeConfig hk))

/-- Threads are started and stopped under locks that are not touched. -/
theorem locks_stopThread {h : Hcsr} : Locks env ok H (stopThread h) H := by
  unfold stopThread
  split
  · exact .pure _
  · exact .bind .call fun _ => .store

theorem locks_startThread : Locks env ok H startThread H :=
  .bind .call fun _ => .store

/-! ## The device file -/

theorem locks_freeOldIrq {h : Hcsr} : Locks env ok H (freeOldIrq h) H :=
  .ite (.bind .call fun _ => .pure _) (.pure _)

/-- The error exit of SETPINS with its lock held. -/
theorem locks_errSetpinReturn {ret : Int} :
    Locks env ok (.irqDone :: H) (errSetpinReturn false ret) H :=
  .bind .store fun _ => .bind .store fun _ => .bind .unlock fun _ => .pure _

/-- SETPINS, once its argument has been copied. -/
theorem locks_setPins {pins : PinSet} (hi : .irqDone ∉ H) {s : St} (hs : s.held = H)
    (hcopy : env.answer s.log .copyFromUser = 0) :
    wp (sem env) ok (ioctlSETPINs pins) s fun _ s' => s'.held = H := by
  rw [ioctlSETPINs, ioctlSETPINsWith, wp_bind, wp_call, hcopy]
  refine (?_ : Locks env ok H _ H) _ hs
  refine .bind (.lock hi) fun _ => .bind .load fun h => .bind locks_freeOldIrq fun _ => ?_
  refine .bind .load fun h => .bind locks_freeTrig fun _ => ?_
  refine .bind .load fun h => .bind locks_freeEcho fun _ => .bind .store fun _ => ?_
  refine .bind .load fun h => .bind locks_setTrig fun ret => .ite locks_errSetpinReturn ?_
  refine .bind .load fun h => .bind locks_setEcho fun ret => .ite locks_errSetpinReturn ?_
  refine .bind locks_setISR fun ret => .ite locks_errSetpinReturn ?_
  exact .bind .store fun _ => .bind .unlock fun _ => .pure _

/-- If the copy fails and the stores through NULL go through, it releases a lock that nobody
    took. -/
theorem setPins_releases {pins : PinSet} {s : St}
    (hcopy : env.answer s.log .copyFromUser ≠ 0) (hnull : env.nullPage = true)
    {Q : Int → St → Prop} (hs : s.held = [])
    (h : wp (sem env) ok (ioctlSETPINs pins) s Q) : ok (.notHeld .irqDone) := by
  simpa [ioctlSETPINs, ioctlSETPINsWith, errSetpinReturn, storeUnless, hcopy, hnull, hs] using h

/-- If they do not, it dies at the first of them. -/
theorem setPins_dies {pins : PinSet} {s : St} (hcopy : env.answer s.log .copyFromUser ≠ 0)
    (hnull : env.nullPage = false) (hok : ok .null) {Q : Int → St → Prop} :
    wp (sem env) ok (ioctlSETPINs pins) s Q := by
  simp [ioctlSETPINs, ioctlSETPINsWith, errSetpinReturn, storeUnless, hcopy, hnull, hok]

theorem locks_rearmThread {h : Hcsr} : Locks env ok H (rearmThread h) H := by
  unfold rearmThread
  split
  · exact .pure _
  · exact .ite (.bind .call fun _ => locks_startThread) locks_stopThread

/-- SETMODE nests `kthread_lock` in `kconfig_lock`. -/
theorem locks_ioctlSETMODE {workingMode : ModeSet} (hk : .kconfig ∉ H)
    (ht : .kthread ∉ H) : Locks env ok H (ioctlSETMODE workingMode) H := by
  have hkt : SpinLock.kthread ∉ SpinLock.kconfig :: H := by simpa using ht
  refine .bind .call fun left => .ite (.pure _) (.ite (.pure _) ?_)
  refine .bind (.lock hk) fun _ => .bind .store fun _ => .bind (.lock hkt) fun _ => ?_
  refine .bind .load fun h => .bind locks_rearmThread fun _ => ?_
  exact .bind .unlock fun _ => .bind .unlock fun _ => .pure _

/-- The copy to the user is made under `cir_buf_lock`. -/
theorem locks_deliver (hc : .cirBuf ∉ H) : Locks env ok H deliver H := by
  refine .bind (.lock hc) fun _ => .bind .load fun h => .bind .slot fun _ => ?_
  exact .bind .call fun ret => .bind .unlock fun _ => .ite (.pure _) (.pure _)

/-- `hc_sr04_read`, given what its two waiting loops do to the locks. -/
theorem locks_hcSr04Read {rounds : Nat} (hk : .kconfig ∉ H) (ho : .ongoing ∉ H)
    (hc : .cirBuf ∉ H) (hspin : Locks env ok H (spinOngoing rounds) H)
    (hbuf : Locks env ok H (recheckBuf rounds) H) :
    Locks env ok H (hcSr04Read rounds) H := by
  refine .bind (.lock hk) fun _ => .bind .load fun h => .ite ?_ ?_
  · refine .bind .unlock fun _ => .bind (.lock ho) fun _ => ?_
    exact .bind (locks_sendIfStopping hk ho) fun _ => .bind hspin fun _ => locks_deliver hc
  · refine .bind .unlock fun _ => .bind (.lock hc) fun _ => .bind .load fun h => .ite ?_ ?_
    · exact .bind .slot fun _ => .bind .call fun _ => .bind .unlock fun _ => .pure _
    · exact .bind .unlock fun _ => .bind hbuf fun _ => locks_deliver hc

theorem locks_clearSamples {act : Int} (hc : .cirBuf ∉ H) :
    Locks env ok H (clearSamples act) H :=
  .ite (.bind (.lock hc) fun _ => .bind .store fun _ => .bind .store fun _ => .unlock)
    (.pure _)

/-- Starting or stopping the thread leaves the locks as they are. -/
theorem locks_switchThread {act : Int} {h : Hcsr} (ho : .ongoing ∉ H) :
    Locks env ok H (switchThread act h) H := by
  refine .ite ?_ ?_
  · split
    · exact .pure _
    · refine .bind locks_stopThread fun _ => ?_
      exact .bind (.lock ho) fun _ => .bind .store fun _ => .unlock
  · split
    · exact locks_startThread
    · exact .pure _

/-- `hc_sr04_write`, on all its paths. -/
theorem locks_hcSr04Write {act : Int} (hk : .kconfig ∉ H) (ho : .ongoing ∉ H)
    (hc : .cirBuf ∉ H) (ht : .kthread ∉ H) : Locks env ok H (hcSr04Write act) H := by
  have hto : SpinLock.ongoing ∉ SpinLock.kthread :: H := by simpa using ho
  refine .bind .call fun _ => .bind (.lock hk) fun _ => .bind .load fun h => .ite ?_ ?_
  · refine .bind .unlock fun _ => .bind (locks_clearSamples hc) fun _ => ?_
    exact .bind (.lock ho) fun _ => .bind (locks_sendIfStopping hk ho) fun _ => .pure _
  · refine .bind .unlock fun _ => .bind (.lock ht) fun _ => .bind .load fun h => ?_
    exact .bind (locks_switchThread hto) fun _ => .bind .unlock fun _ => .pure _

/-! ## The waiting loops -/

/-- Rounds that are not observed to the end are no mistake. -/
theorem locks_spin (hok : ok .spinning) : Locks env ok H spin H := by
  intro s _
  rw [wp_spin]
  exact hok

/-- The inner loop on the flag, for as many rounds as are observed. -/
theorem locks_whileOngoing (hok : ok .spinning) :
    ∀ rounds, Locks env ok H (whileOngoing rounds) H := by
  intro rounds
  induction rounds with
  | zero => exact locks_spin hok
  | succ rounds ih => exact .bind .load fun h => .ite (.bind .call fun _ => ih) (.pure _)

/-- The outer one. -/
theorem locks_spinOngoing (hok : ok .spinning) :
    ∀ rounds, Locks env ok H (spinOngoing rounds) H := by
  intro rounds
  induction rounds with
  | zero => exact locks_spin hok
  | succ rounds ih =>
      refine .bind .load fun h => .ite ?_ (.pure _)
      exact .bind (locks_whileOngoing hok rounds) fun _ => ih

/-- The loop on the buffer takes and releases `cir_buf_lock` in every round. -/
theorem locks_recheckBuf (hok : ok .spinning) (hc : .cirBuf ∉ H) :
    ∀ rounds, Locks env ok H (recheckBuf rounds) H := by
  intro rounds
  induction rounds with
  | zero => exact locks_spin hok
  | succ rounds ih =>
      refine .bind (.lock hc) fun _ => .bind .load fun h => .ite ?_ .unlock
      exact .bind .unlock fun _ => .bind .call fun _ => ih

/-- From the N-th read on no measurement is under way and there is a sample. -/
def Settles (env : Env) (N : Nat) : Prop :=
  ∀ n x, N ≤ n → (env.others n x).1 ≠ ongoingFlag ∧ (env.others n x).2.newest ≠ -1

/-- The loops end once the others have settled.  Each round makes a read, so the
    rounds left and the reads made never fall below `N` together. -/
theorem whileOngoing_ends {N : Nat} (hN : Settles env N) :
    ∀ rounds s, N ≤ rounds + s.reads →
      wp (sem env) ok (whileOngoing (rounds + 1)) s fun _ s' =>
        s'.held = s.held ∧ s.reads ≤ s'.reads := by
  intro rounds
  induction rounds with
  | zero =>
      intro s hs
      have hseen : (s.hcsr.seen env s.reads).ongoing ≠ ongoingFlag :=
        (hN _ _ (by omega)).1
      rw [whileOngoing, wp_bind, wp_load, if_neg hseen, wp_pure]
      exact ⟨rfl, Nat.le_succ _⟩
  | succ rounds ih =>
      intro s hs
      rw [whileOngoing, wp_bind, wp_load, wp_ite]
      constructor
      · intro _
        rw [wp_bind, wp_call]
        refine wp_mono (ih _ ?_) ?_
        · simp only
          omega
        · intro _ s' hs'
          exact ⟨hs'.1, Nat.le_of_succ_le hs'.2⟩
      · intro _
        rw [wp_pure]
        exact ⟨rfl, Nat.le_succ _⟩

/-- So does the outer loop. -/
theorem spinOngoing_ends {N : Nat} (hN : Settles env N) :
    ∀ rounds s, N ≤ rounds + s.reads →
      wp (sem env) ok (spinOngoing (rounds + 1)) s fun _ s' => s'.held = s.held := by
  intro rounds
  induction rounds with
  | zero =>
      intro s hs
      have hseen : (s.hcsr.seen env s.reads).ongoing ≠ ongoingFlag :=
        (hN _ _ (by omega)).1
      rw [spinOngoing, wp_bind, wp_load, if_neg hseen, wp_pure]
  | succ rounds ih =>
      intro s hs
      rw [spinOngoing, wp_bind, wp_load, wp_ite]
      constructor
      · intro _
        rw [wp_bind]
        refine wp_mono (whileOngoing_ends hN rounds _ ?_) ?_
        · simp only
          omega
        · intro _ s₁ h₁
          have hreads : s.reads + 1 ≤ s₁.reads := h₁.2
          refine wp_mono (ih s₁ (by omega)) ?_
          intro _ s' hs'
          exact hs'.trans h₁.1
      · intro _
        rw [wp_pure]

/-- The loop on the buffer ends as well. -/
theorem recheckBuf_ends {N : Nat} (hN : Settles env N) :
    ∀ rounds s, N ≤ rounds + s.reads → .cirBuf ∉ s.held →
      wp (sem env) ok (recheckBuf (rounds + 1)) s fun _ s' => s'.held = s.held := by
  intro rounds
  induction rounds with
  | zero =>
      intro s hs hc
      have hseen : (s.hcsr.seen env s.reads).cirb.newest ≠ -1 := (hN _ _ (by omega)).2
      simp [recheckBuf, hc, hseen]
  | succ rounds ih =>
      intro s hs hc
      have hnext := ih { s with
        hcsr := s.hcsr.seen env s.reads
        log := (.msleep 10, env.answer s.log (.msleep 10)) :: s.log
        reads := s.reads + 1 } (by simp only; omega) hc
      rw [recheckBuf]
      simp [hc, hnext]

/-- With more than `N` rounds the loops return, whenever they start. -/
theorem locks_spinOngoing_settled {N rounds : Nat} (hN : Settles env N) (hlt : N < rounds) :
    Locks env ok H (spinOngoing rounds) H := by
  rintro s rfl
  obtain ⟨n, rfl⟩ := Nat.exists_eq_add_of_lt hlt
  exact spinOngoing_ends hN (N + n) s (by omega)

/-- For the loop on the buffer, too. -/
theorem locks_recheckBuf_settled {N rounds : Nat} (hN : Settles env N) (hlt : N < rounds)
    (hc : .cirBuf ∉ H) : Locks env ok H (recheckBuf rounds) H := by
  rintro s rfl
  obtain ⟨n, rfl⟩ := Nat.exists_eq_add_of_lt hlt
  exact recheckBuf_ends hN (N + n) s (by omega) hc

/-! ## `enable_store` -/

/-- `enable_store` starts the thread with `kconfig_lock` held: the value is 1, no
    thread runs, and the mode is not one-shot. -/
def StartsUnderLock (h : Hcsr) (buf : List Char) : Prop :=
  0 < (sscanf buf).1 ∧ (sscanf buf).2 = 1 ∧ h.kthread = none ∧ h.workingMode.mode ≠ oneShot

instance (h : Hcsr) (buf : List Char) : Decidable (StartsUnderLock h buf) :=
  inferInstanceAs (Decidable (_ ∧ _ ∧ _ ∧ _))

/-- The locks of `enable_store` on every other path. -/
theorem locks_enableStore {buf : List Char} {count : Nat} {s : St} (hs : s.held = [])
    (hstart : ¬ StartsUnderLock s.hcsr buf) :
    wp (sem env) ok (enableStore buf count) s fun _ s' => s'.held = [] := by
  rw [enableStore]
  by_cases hret : 0 ≥ (sscanf buf).1
  · rw [if_pos hret]
    exact Locks.pure _ s hs
  rw [if_neg hret]
  by_cases hzero : (sscanf buf).2 = 0
  · rw [if_pos hzero]
    refine (?_ : Locks env ok [] _ []) s hs
    refine .bind (.lock List.not_mem_nil) fun _ => .bind .load fun h => ?_
    refine .bind locks_stopThread fun _ => ?_
    refine .bind .unlock fun _ => .bind (.lock List.not_mem_nil) fun _ => .bind .store fun _ => ?_
    exact .bind .unlock fun _ => locks_storeConfig List.not_mem_nil
  rw [if_neg hzero]
  by_cases hone : (sscanf buf).2 = 1
  · rw [if_pos hone, wp_bind, wp_load, seen_kthread]
    by_cases hthread : s.hcsr.kthread.isSome
    · rw [if_pos hthread]
      exact Locks.pure _ _ hs
    rw [if_neg hthread, wp_bind, wp_lock]
    refine ⟨fun hl => ?_, fun _ => ?_⟩
    · rw [hs] at hl
      cases hl
    have hnone : s.hcsr.kthread = none := by simpa using hthread
    have hmode : s.hcsr.workingMode.mode = oneShot := by
      by_contra hmode
      exact hstart ⟨by omega, hone, hnone, hmode⟩
    rw [wp_bind, wp_load, seen_workingMode, seen_workingMode, if_pos hmode]
    refine (?_ : Locks env ok [.kconfig] _ []) _ (congrArg (List.cons _) hs)
    refine .bind .unlock fun _ => .bind (.lock List.not_mem_nil) fun _ => ?_
    refine .bind (locks_sendIfStopping List.not_mem_nil List.not_mem_nil) fun _ => ?_
    exact locks_storeConfig List.not_mem_nil
  · rw [if_neg hone]
    exact Locks.pure _ s hs

/-- There it takes `kconfig_lock` twice. -/
theorem enableStore_relocks {buf : List Char} {count : Nat} {s : St}
    (hstart : StartsUnderLock s.hcsr buf) {Q : Int → St → Prop} (hs : s.held = [])
    (h : wp (sem env) ok (enableStore buf count) s Q) : ok (.relock .kconfig) := by
  obtain ⟨hret, hone, hnone, hmode⟩ := hstart
  have hret' : ¬ 0 ≥ (sscanf buf).1 := by omega
  simpa [enableStore, storeConfig, startThread, hret', hone, hnone, hmode, hs] using h

end Rules

/-! ## Every call -/

/-- A call of the interface, with its argument. -/
inductive Op where
  | triggerShow
  | echoShow
  | modeShow
  | frequencyShow
  | enableShow
  | distanceShow
  | triggerStore (buf : List Char) (count : Nat)
  | echoStore (buf : List Char) (count : Nat)
  | modeStore (buf : List Char) (count : Nat)
  | frequencyStore (buf : List Char) (count : Nat)
  | enableStore (buf : List Char) (count : Nat)
  | ioctl (cmd : Command)
  | read
  | write (act : Int)

/-- The code of a call; `rounds` of its waiting loops are observed. -/
def Op.code (rounds : Nat) : Op → Code Int
  | .triggerShow => do return (← HcSr04.triggerShow).1
  | .echoShow => do return (← HcSr04.echoShow).1
  | .modeShow => do return (← HcSr04.modeShow).1
  | .frequencyShow => do return (← HcSr04.frequencyShow).1
  | .enableShow => do return (← HcSr04.enableShow).1
  | .distanceShow => do return (← HcSr04.distanceShow).1
  | .triggerStore buf count => HcSr04.triggerStore buf count
  | .echoStore buf count => HcSr04.echoStore buf count
  | .modeStore buf count => HcSr04.modeStore buf count
  | .frequencyStore buf count => HcSr04.frequencyStore buf count
  | .enableStore buf count => HcSr04.enableStore buf count
  | .ioctl cmd => hcSr04Ioctl cmd
  | .read => hcSr04Read rounds
  | .write act => hcSr04Write act

/-- A device no lock of which is held, after the calls `log` and `reads` reads. -/
def idle (h : Hcsr) (log : List (Call × Int)) (reads : Nat) : St :=
  { hcsr := h, held := [], log := log, reads := reads }

/-- The run never took a lock it held, never released one it did not hold, and
    holds none if it has returned. -/
def Disciplined : Except Fault (Int × St) → Prop
  | .ok (_, s) => s.held = []
  | .error .spinning => True
  | .error .null => True
  | .error (.relock _) => False
  | .error (.notHeld _) => False

/-- The ends of a run that are neither a return nor a mistake with the locks. -/
def Unobserved (e : Fault) : Prop := e = .spinning ∨ e = .null

theorem disciplined_iff {env : Env} {p : Code Int} {s : St} :
    Disciplined (p.run (sem env) s) ↔
      wp (sem env) Unobserved p s fun _ s' => s'.held = [] := by
  unfold wp
  cases p.run (sem env) s with
  | ok x => rfl
  | error e => cases e <;> simp [Disciplined, ends, Unobserved]

/-- What a call needs of its argument and of the device before it:
    `enable_store` does not start the thread outside the one-shot mode, and the
    argument of SETPINS can be copied, or SETPINS dies at NULL. -/
def Guarded (env : Env) (h : Hcsr) (log : List (Call × Int)) : Op → Prop
  | .enableStore buf _ => ¬ StartsUnderLock h buf
  | .ioctl (.setPins _) => env.answer log .copyFromUser = 0 ∨ env.nullPage = false
  | _ => True

/-- What a guarded call does, given what its waiting loops do. -/
theorem wp_guarded {env : Env} {ok : Fault → Prop} {rounds : Nat} {h : Hcsr}
    {log : List (Call × Int)} {reads : Nat} {op : Op} (hop : Guarded env h log op)
    (hnull : ∀ pins, op = .ioctl (.setPins pins) → env.answer log .copyFromUser = 0 ∨ ok .null)
    (hspin : op = .read → Locks env ok [] (spinOngoing rounds) [])
    (hbuf : op = .read → Locks env ok [] (recheckBuf rounds) []) :
    wp (sem env) ok (op.code rounds) (idle h log reads) fun _ s' => s'.held = [] := by
  have run : ∀ {α : Type} {p : Code α}, Locks env ok [] p [] →
      wp (sem env) ok p (idle h log reads) fun _ s' => s'.held = [] :=
    fun hp => hp _ rfl
  cases op with
  | triggerShow => exact run (.bind (locks_showConfig List.not_mem_nil) fun _ => .pure _)
  | echoShow => exact run (.bind (locks_showConfig List.not_mem_nil) fun _ => .pure _)
  | modeShow => exact run (.bind (locks_showConfig List.not_mem_nil) fun _ => .pure _)
  | frequencyShow => exact run (.bind (locks_showConfig List.not_mem_nil) fun _ => .pure _)
  | enableShow => exact run (.bind (locks_showConfig List.not_mem_nil) fun _ => .pure _)
  | distanceShow => exact run (.bind (locks_distanceShow List.not_mem_nil) fun _ => .pure _)
  | triggerStore buf count => exact run (locks_triggerStore List.not_mem_nil)
  | echoStore buf count => exact run (locks_echoStore List.not_mem_nil List.not_mem_nil)
  | modeStore buf count => exact run (locks_modeStore List.not_mem_nil)
  | frequencyStore buf count => exact run (locks_frequencyStore List.not_mem_nil)
  | enableStore buf count => exact locks_enableStore rfl hop
  | ioctl cmd =>
      cases cmd with
      | setPins pins =>
          by_cases hcopy : env.answer log .copyFromUser = 0
          · exact locks_setPins List.not_mem_nil rfl hcopy
          · exact setPins_dies hcopy (hop.resolve_left hcopy) ((hnull pins rfl).resolve_left hcopy)
      | setMode workingMode => exact run (locks_ioctlSETMODE List.not_mem_nil List.not_mem_nil)
      | other => exact run (.pure _)
  | read =>
      exact run (locks_hcSr04Read List.not_mem_nil List.not_mem_nil List.not_mem_nil (hspin rfl)
        (hbuf rfl))
  | write act =>
      exact run (locks_hcSr04Write List.not_mem_nil List.not_mem_nil List.not_mem_nil
        List.not_mem_nil)

/-- A call that is not guarded makes its mistake. -/
theorem guarded_of_wp {env : Env} {rounds : Nat} {h : Hcsr} {log : List (Call × Int)}
    {reads : Nat} {op : Op} {Q : Int → St → Prop}
    (hwp : wp (sem env) Unobserved (op.code rounds) (idle h log reads) Q) :
    Guarded env h log op := by
  unfold Guarded
  split
  · intro hstart
    exact (enableStore_relocks hstart rfl hwp).elim nofun nofun
  · by_contra hno
    obtain ⟨hcopy, hnull⟩ := not_or.mp hno
    have hok := setPins_releases hcopy (Bool.not_eq_false _ ▸ hnull) rfl hwp
    exact hok.elim nofun nofun
  · trivial

/-- **LOCK DISCIPLINE.**  Whatever the state of the device, the argument, the
    kernel's answers and the interrupts, a call run by itself keeps the lock
    discipline exactly if it is guarded. -/
theorem lock_discipline (env : Env) (rounds : Nat) (h : Hcsr) (log : List (Call × Int))
    (reads : Nat) (op : Op) :
    Disciplined ((op.code rounds).run (sem env) (idle h log reads)) ↔
      Guarded env h log op := by
  rw [disciplined_iff]
  constructor
  · intro hwp
    exact guarded_of_wp hwp
  · intro hop
    have hok : Unobserved .spinning := .inl rfl
    refine wp_guarded hop (fun _ _ => .inr (.inr rfl)) (fun _ => ?_) (fun _ => ?_)
    · exact locks_spinOngoing hok rounds
    · exact locks_recheckBuf hok List.not_mem_nil rounds

/-- A guarded call returns, with no lock held: SETPINS if its argument can be copied, and
    `hc_sr04_read` once there is something to read. -/
theorem guarded_returns {env : Env} {rounds : Nat} {h : Hcsr} {log : List (Call × Int)}
    {reads : Nat} {op : Op} (hop : Guarded env h log op)
    (hcopy : ∀ pins, op = .ioctl (.setPins pins) → env.answer log .copyFromUser = 0)
    (hread : op = .read → ∃ N, N < rounds ∧ Settles env N) :
    ∃ ret s', (op.code rounds).run (sem env) (idle h log reads) = .ok (ret, s') ∧
      s'.held = [] := by
  refine run_of_wp (wp_guarded hop (fun pins he => .inl (hcopy pins he)) ?_ ?_)
  · intro he
    obtain ⟨N, hlt, hN⟩ := hread he
    exact locks_spinOngoing_settled hN hlt
  · intro he
    obtain ⟨N, hlt, hN⟩ := hread he
    exact locks_recheckBuf_settled hN hlt List.not_mem_nil

/-- A device as it is after its initialisation, then switched to periodic mode. -/
def periodicDevice : Hcsr where
  pins := ⟨-1, -1⟩
  workingMode := ⟨periodic, 2⟩
  enable := 0
  irqDone := irqNotDoneFlag
  echoIsrNumber := -1
  kthread := none
  kstart := 0
  ongoing := stoppingFlag
  cirb := ⟨-1, fun _ => 0⟩

/-- Every call succeeds and no interrupt comes. -/
def quietEnv : Env where
  answer := fun _ _ => 0
  others := fun _ x => x
  beside := fun _ => 0
  nullPage := false

/-- `echo 1 > enable` in periodic mode waits for itself. -/
theorem enable_periodic_relocks :
    ¬ ∀ (env : Env) (rounds : Nat) (h : Hcsr) (log : List (Call × Int)) (reads : Nat)
      (op : Op), Disciplined ((op.code rounds).run (sem env) (idle h log reads)) := by
  intro h
  exact h quietEnv 0 periodicDevice [] 0 (.enableStore ['1', '\n'] 2)

end HcSr04
