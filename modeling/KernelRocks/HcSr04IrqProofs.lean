import KernelRocks.HcSr04PinsProofs
import KernelRocks.HcSr04RateProofs

/-! # `irq_done` and the registration of the interrupt

    SETPINS gives up the interrupt of the old echo pin if `irq_done` says that
    there is one, and sets `irq_done` when the new one is registered.  It does not
    clear `irq_done` in between: a call that fails halfway leaves it set, and the
    next one frees an interrupt that nobody has.

    The registrations are read off the calls that were made (`irqs`), as a ledger
    with the device as its only party.

    * `wp_setPins_irq`: what one SETPINS of either driver makes of the flag, the
      number and the registration.
    * `irq_done_true`: the flag tells the truth as long as no SETPINS on a device
      with `irq_done` set has a kernel call refused; the first one that has makes
      it lie. -/

namespace HcSr04

open Program Ledger

/-! ## Registrations and refusals -/

/-- What a call says about a registration. -/
def irqMove : Call × Int → Option (Move Unit Int)
  | (.requestIrq irq, ret) => if ret = 0 then some (.take () irq) else none
  | (.freeIrq irq, _) => some (.give () irq)
  | _ => none

/-- The moves of the interrupt lines. -/
def irqs (log : List (Call × Int)) : List (Move Unit Int) := log.filterMap irqMove

/-- `echo_recv_isr` is registered for `irq` and the device. -/
def Registered (log : List (Call × Int)) (irq : Int) : Prop := Holds () (irqs log) irq

/-- A line whose direction is set with a look at the result. -/
def Checked (line : Int) : Prop :=
  ∃ row ∈ allPins, line = (row.at .gpioLinux).1 ∨ line = (row.at .gpioLevel).1

instance (line : Int) : Decidable (Checked line) :=
  inferInstanceAs (Decidable (∃ row ∈ allPins,
    line = (row.at .gpioLinux).1 ∨ line = (row.at .gpioLevel).1))

/-- The kernel refuses a call, and the driver looks. -/
def Refused : Call × Int → Prop
  | (.gpioRequest _, ret) => ret ≠ 0
  | (.gpioDirectionOutput line _, ret) => Checked line ∧ ret ≠ 0
  | (.gpioDirectionInput line, ret) => Checked line ∧ ret ≠ 0
  | (.gpioToIrq _, ret) => ret < 0
  | (.requestIrq _, ret) => ret ≠ 0
  | _ => False

/-- From `x` to `y` nothing was refused. -/
def Passed (x y : List (Call × Int)) : Prop := ∃ new, y = new ++ x ∧ ∀ e ∈ new, ¬ Refused e

/-- From `x` to `y` something was refused. -/
def Barred (x y : List (Call × Int)) : Prop := ∃ new, y = new ++ x ∧ ∃ e ∈ new, Refused e

section Log
variable {x y z : List (Call × Int)}

theorem Passed.refl (x : List (Call × Int)) : Passed x x := ⟨[], rfl, nofun⟩

/-- Nothing is refused in either part. -/
theorem Passed.trans (h₁ : Passed x y) (h₂ : Passed y z) : Passed x z := by
  obtain ⟨new₁, rfl, hn₁⟩ := h₁
  obtain ⟨new₂, rfl, hn₂⟩ := h₂
  refine ⟨new₂ ++ new₁, (List.append_assoc _ _ _).symm, ?_⟩
  intro e he
  rcases List.mem_append.mp he with he | he
  · exact hn₂ e he
  · exact hn₁ e he

theorem Passed.one {e : Call × Int} (he : ¬ Refused e) : Passed x (e :: x) := by
  refine ⟨[e], rfl, ?_⟩
  intro f hf
  rw [List.mem_singleton.mp hf]
  exact he

/-- Something is refused in the second part. -/
theorem Passed.barred (h₁ : Passed x y) (h₂ : Barred y z) : Barred x z := by
  obtain ⟨new₁, rfl, -⟩ := h₁
  obtain ⟨new₂, rfl, e, he, href⟩ := h₂
  exact ⟨new₂ ++ new₁, (List.append_assoc _ _ _).symm, e, List.mem_append_left _ he, href⟩

theorem Barred.one {e : Call × Int} (he : Refused e) : Barred x (e :: x) :=
  ⟨[e], rfl, e, List.mem_cons_self, he⟩

theorem Barred.cons (h : Barred x y) (e : Call × Int) : Barred x (e :: y) := by
  obtain ⟨new, rfl, f, hf, href⟩ := h
  exact ⟨e :: new, rfl, f, List.mem_cons_of_mem _ hf, href⟩

theorem irqs_cons {e : Call × Int} (he : irqMove e = none) : irqs (e :: x) = irqs x :=
  List.filterMap_cons_none he

end Log

/-! ## The pin functions leave the interrupt alone -/

/-- The flag, the number, the locks and the registrations stay; the calls are in `R`. -/
structure Quiet (R : List (Call × Int) → List (Call × Int) → Prop) (s s' : St) : Prop where
  irqDone : s'.hcsr.irqDone = s.hcsr.irqDone
  number : s'.hcsr.echoIsrNumber = s.hcsr.echoIsrNumber
  held : s'.held = s.held
  irqs : irqs s'.log = irqs s.log
  log : R s.log s'.log

def Leave.ret : Leave → Int
  | .oper ret => ret
  | .request ret => ret

section Functions
variable {env : Env} {ok : Fault → Prop}

theorem Quiet.trans {s s₁ s₂ : St} (h₁ : Quiet Passed s s₁) (h₂ : Quiet Passed s₁ s₂) :
    Quiet Passed s s₂ :=
  ⟨h₂.irqDone.trans h₁.irqDone, h₂.number.trans h₁.number, h₂.held.trans h₁.held,
    h₂.irqs.trans h₁.irqs, h₁.log.trans h₂.log⟩

theorem Quiet.trans_barred {s s₁ s₂ : St} (h₁ : Quiet Passed s s₁) (h₂ : Quiet Barred s₁ s₂) :
    Quiet Barred s s₂ :=
  ⟨h₂.irqDone.trans h₁.irqDone, h₂.number.trans h₁.number, h₂.held.trans h₁.held,
    h₂.irqs.trans h₁.irqs, h₁.log.barred h₂.log⟩

/-- The loops on the pin table leave the interrupt alone, and report a refusal. -/
theorem quiet_rounds :
    Rounds (fun _ => Quiet Passed) fun s x s' => x.ret ≠ 0 ∧ Quiet Barred s s' where
  nil _ := ⟨rfl, rfl, rfl, rfl, .refl _⟩
  trans := Quiet.trans
  leave h₁ h₂ := ⟨h₂.1, h₁.trans_barred h₂.2⟩

theorem quiet_free : Rounds (fun _ => Quiet Passed) fun _ _ _ => False where
  nil _ := ⟨rfl, rfl, rfl, rfl, .refl _⟩
  trans := Quiet.trans
  leave _ hE := hE

/-- Freeing pins does not touch it. -/
theorem quiet_freeTrig (pin : Int) (s : St) :
    wp (sem env) ok (freeTrig pin) s fun _ s' => Quiet Passed s s' := by
  rw [freeTrig, wp_bind]
  exact wp_eachRow_free quiet_free (fun _ _ => ⟨rfl, rfl, rfl, rfl, .one id⟩) _ pin allPins s

theorem quiet_freeEcho (pin : Int) (s : St) :
    wp (sem env) ok (freeEcho pin) s fun _ s' => Quiet Passed s s' := by
  rw [freeEcho, wp_bind]
  exact wp_eachRow_free quiet_free (fun _ _ => ⟨rfl, rfl, rfl, rfl, .one id⟩) _ pin allPins s

/-- The lines of the other columns are never checked. -/
theorem not_checked : ∀ row ∈ allPins, ∀ m ∈ [PinFunc.gpioPull, .gpioMux0, .gpioMux1],
    (row.at m).1 ≠ -1 → ¬ Checked (row.at m).1 := by decide

/-- A call that sets a direction: refused if the line is looked at and it fails. -/
structure Directs (direction : PinFunc → Int × Int → Call) : Prop where
  irq : ∀ m p ret, irqMove (direction m p, ret) = none
  refused : ∀ m p ret, Refused (direction m p, ret) ↔ Checked p.1 ∧ ret ≠ 0

/-- The calls on the trigger's rows are such calls. -/
theorem directs_trig : Directs trigDirection := by
  constructor
  · intro m p ret
    cases m <;> rfl
  · intro m p ret
    cases m <;> rfl

theorem directs_echo : Directs echoDirection := by
  constructor
  · intro m p ret
    cases m <;> rfl
  · intro m p ret
    cases m <;> rfl

theorem checked_iff {row : PinRow} (hrow : row ∈ allPins) {m : PinFunc} (hm : (row.at m).1 ≠ -1) :
    Checked (row.at m).1 ↔ m = .gpioLinux ∨ m = .gpioLevel := by
  cases m with
  | gpioLinux => exact iff_of_true ⟨row, hrow, .inl rfl⟩ (.inl rfl)
  | gpioLevel => exact iff_of_true ⟨row, hrow, .inr rfl⟩ (.inr rfl)
  | gpioPull => exact iff_of_false (not_checked row hrow .gpioPull (by decide) hm) (by decide)
  | gpioMux0 => exact iff_of_false (not_checked row hrow .gpioMux0 (by decide) hm) (by decide)
  | gpioMux1 => exact iff_of_false (not_checked row hrow .gpioMux1 (by decide) hm) (by decide)

/-- One round of the loops that request pins. -/
theorem quiet_setBody {direction : PinFunc → Int × Int → Call} (hdir : Directs direction)
    {skip : List PinFunc} {row : PinRow} (hrow : row ∈ allPins) (m : PinFunc) (s : St) :
    wp (sem env) ok (setBody skip direction row m) s
      (Ended (fun _ => Quiet Passed) (fun s x s' => x.ret ≠ 0 ∧ Quiet Barred s s')
        (lineIn skip row m) s) := by
  rw [setBody]
  split
  · exact quiet_rounds.nil s
  · rename_i hline
    have hchecked := checked_iff hrow (not_or.mp hline).2
    rw [wp_bind, wp_call]
    split
    · rename_i hret
      exact ⟨hret, rfl, rfl, rfl, rfl, .one hret⟩
    · rename_i hret
      rw [wp_bind, wp_call]
      have hreq : Passed s.log ((.gpioRequest (row.at m).1, _) :: s.log) := .one hret
      split
      · rename_i hbad
        refine ⟨hbad.2, rfl, rfl, rfl, irqs_cons (hdir.irq _ _ _), hreq.barred (.one ?_)⟩
        exact (hdir.refused _ _ _).mpr ⟨hchecked.mpr hbad.1, hbad.2⟩
      · rename_i hgood
        refine ⟨rfl, rfl, rfl, irqs_cons (hdir.irq _ _ _), hreq.trans (.one ?_)⟩
        intro href
        obtain ⟨hc, hne⟩ := (hdir.refused _ _ _).mp href
        exact hgood ⟨hchecked.mp hc, hne⟩

/-- All rounds. -/
theorem quiet_setRows {direction : PinFunc → Int × Int → Call} (hdir : Directs direction)
    (skip : List PinFunc) (pin : Int) (s : St) :
    wp (sem env) ok (eachRow pin (setBody skip direction) allPins) s
      (Ended (fun _ => Quiet Passed) (fun s x s' => x.ret ≠ 0 ∧ Quiet Barred s s')
        (linesOf skip pin allPins) s) :=
  wp_eachRow quiet_rounds allPins
    (fun _ hrow _ => wp_eachFunc quiet_rounds (quiet_setBody hdir hrow) pinFuncs) s

/-- A return of 0 says that nothing was refused. -/
def Tells (s : St) (ret : Int) (s' : St) : Prop :=
  (ret = 0 ∧ Quiet Passed s s') ∨ (ret ≠ 0 ∧ Quiet Barred s s')

/-- The label `ERR_OPER_RETURN`. -/
theorem tells_freed {s s₁ : St} (h : Quiet Barred s s₁) {ret : Int} (hret : ret ≠ 0) (pin : Int) :
    wp (sem env) ok (do
      let _ ← call (.gpioFree pin)
      return ret) s₁ (Tells s) := by
  rw [wp_bind, wp_call]
  exact .inr ⟨hret, h.irqDone, h.number, h.held, h.irqs, h.log.cons _⟩

/-- `setTrig` returns 0 exactly if nothing was refused. -/
theorem quiet_setTrig (pin : Int) (s : St) : wp (sem env) ok (setTrig pin) s (Tells s) := by
  rw [setTrig, wp_bind]
  refine wp_mono (quiet_setRows directs_trig _ pin s) ?_
  intro out s₁ hend
  rcases out with _ | ⟨ret⟩ | ⟨ret⟩
  · exact .inl ⟨rfl, hend⟩
  · exact tells_freed hend.2 hend.1 pin
  · exact .inr hend

theorem Misc.quiet_setTrig (pin : Int) (s : St) :
    wp (sem env) ok (Misc.setTrig pin) s (Tells s) := by
  rw [Misc.setTrig, wp_bind]
  refine wp_mono (quiet_setRows directs_trig _ pin s) ?_
  intro out s₁ hend
  rcases out with _ | ⟨ret⟩ | ⟨ret⟩
  · exact .inl ⟨rfl, hend⟩
  · exact tells_freed hend.2 (by decide) pin
  · exact .inr ⟨by decide, hend.2⟩

theorem quiet_setEcho (pin : Int) (s : St) : wp (sem env) ok (setEcho pin) s (Tells s) := by
  rw [setEcho, wp_bind]
  refine wp_mono (quiet_setRows directs_echo _ pin s) ?_
  intro out s₁ hend
  rcases out with _ | ⟨ret⟩ | ⟨ret⟩
  · exact .inl ⟨rfl, hend⟩
  · exact tells_freed hend.2 (by decide) pin
  · exact .inr ⟨by decide, hend.2⟩

/-! ## SETPINS -/

/-- A new registration, of the number that is stored. -/
structure Renewed (s s' : St) : Prop where
  irqDone : s'.hcsr.irqDone = s.hcsr.irqDone
  held : s'.held = s.held
  irqs : irqs s'.log = .take () s'.hcsr.echoIsrNumber :: irqs s.log
  log : Passed s.log s'.log

/-- No new registration; the number that is stored may have changed. -/
structure Missed (s s' : St) : Prop where
  irqDone : s'.hcsr.irqDone = s.hcsr.irqDone
  held : s'.held = s.held
  irqs : irqs s'.log = irqs s.log
  log : Barred s.log s'.log

theorem Quiet.renewed {s s₁ s₂ : St} (h₁ : Quiet Passed s s₁) (h₂ : Renewed s₁ s₂) :
    Renewed s s₂ :=
  ⟨h₂.irqDone.trans h₁.irqDone, h₂.held.trans h₁.held, by rw [h₂.irqs, h₁.irqs],
    h₁.log.trans h₂.log⟩

theorem Quiet.missed {s s₁ s₂ : St} (h₁ : Quiet Passed s s₁) (h₂ : Missed s₁ s₂) : Missed s s₂ :=
  ⟨h₂.irqDone.trans h₁.irqDone, h₂.held.trans h₁.held, by rw [h₂.irqs, h₁.irqs],
    h₁.log.barred h₂.log⟩

/-- Reading the device is quiet. -/
theorem quiet_load (s : St) :
    Quiet Passed s { s with hcsr := s.hcsr.seen env s.reads, reads := s.reads + 1 } :=
  ⟨rfl, rfl, rfl, rfl, .refl _⟩

theorem Quiet.missed_of {s s' : St} (h : Quiet Barred s s') : Missed s s' :=
  ⟨h.irqDone, h.held, h.irqs, h.log⟩

/-- `set_ISR` renews the registration or reports why not. -/
theorem wp_setISR_irq (s : St) : wp (sem env) ok setISR s fun ret s' =>
    (ret = 0 ∧ Renewed s s') ∨ (ret ≠ 0 ∧ Missed s s') := by
  rw [setISR, wp_bind, wp_load, wp_bind, wp_call]
  split
  · rename_i hneg
    exact .inr ⟨by decide, rfl, rfl, rfl, .one hneg⟩
  · rename_i hpos
    have hirq : Passed s.log ((.gpioToIrq s.hcsr.pins.echoPin, _) :: s.log) := .one hpos
    rw [wp_bind, wp_store, wp_bind, wp_load, wp_bind, wp_call]
    split
    · rename_i hret
      refine .inr ⟨by decide, rfl, rfl, ?_, hirq.barred (.one hret)⟩
      exact irqs_cons (if_neg hret)
    · rename_i hret
      refine .inl ⟨rfl, rfl, rfl, ?_, hirq.trans (.one hret)⟩
      exact List.filterMap_cons_some (if_pos (not_ne_iff.mp hret))

/-- How SETPINS goes on from `s`, its new pins stored: it registers the interrupt and
    sets the flag, or something is refused and the flag stays. -/
def Concluded (s s' : St) : Prop :=
  s'.held = [] ∧
    ((s'.hcsr.irqDone = irqDoneFlag
        ∧ irqs s'.log = .take () s'.hcsr.echoIsrNumber :: irqs s.log ∧ Passed s.log s'.log)
      ∨ (s'.hcsr.irqDone = s.hcsr.irqDone ∧ irqs s'.log = irqs s.log ∧ Barred s.log s'.log))

theorem concluded_errSetpinReturn {ret : Int} {s s₁ : St} (hs : s.held = [.irqDone])
    (h : Missed s s₁) : wp (sem env) ok (errSetpinReturn false ret) s₁ fun _ => Concluded s := by
  rw [errSetpinReturn, wp_bind, storeUnless, if_neg Bool.false_ne_true, wp_store, wp_bind,
    storeUnless, if_neg Bool.false_ne_true, wp_store, wp_bind, wp_unlock, h.held, hs]
  refine ⟨fun _ => ⟨rfl, .inr ⟨h.irqDone, h.irqs, h.log⟩⟩, ?_⟩
  exact fun hl => absurd List.mem_cons_self hl

/-- SETPINS from the new pins on. -/
theorem wp_requestPins_irq {setTrig : Int → Code Int}
    (hset : ∀ pin s, wp (sem env) ok (setTrig pin) s (Tells s)) {s : St}
    (hs : s.held = [.irqDone]) :
    wp (sem env) ok (requestPinsWith setTrig) s fun _ => Concluded s := by
  rw [requestPinsWith, wp_bind, wp_load, wp_bind]
  refine wp_mono (hset _ _) ?_
  rintro ret s₁ (⟨rfl, h₁⟩ | ⟨hret, h₁⟩)
  swap
  · rw [if_pos hret]
    exact concluded_errSetpinReturn hs ((quiet_load s).missed h₁.missed_of)
  replace h₁ := (quiet_load s).trans h₁
  rw [if_neg (by decide), wp_bind, wp_load, wp_bind]
  refine wp_mono (quiet_setEcho _ _) ?_
  rintro ret s₂ (⟨rfl, h₂⟩ | ⟨hret, h₂⟩)
  swap
  · rw [if_pos hret]
    exact concluded_errSetpinReturn hs (h₁.missed ((quiet_load s₁).missed h₂.missed_of))
  have h₁₂ : Quiet Passed s s₂ := h₁.trans ((quiet_load s₁).trans h₂)
  rw [if_neg (by decide), wp_bind]
  refine wp_mono (wp_setISR_irq _) ?_
  rintro ret s₃ (⟨rfl, h₃⟩ | ⟨hret, h₃⟩)
  swap
  · rw [if_pos hret]
    exact concluded_errSetpinReturn hs (h₁₂.missed h₃)
  have hdone := h₁₂.renewed h₃
  rw [if_neg (by decide), wp_bind, wp_store, wp_bind, wp_unlock, hdone.held, hs]
  refine ⟨fun _ => ⟨rfl, .inl ⟨rfl, hdone.irqs, hdone.log⟩⟩, ?_⟩
  exact fun hl => absurd List.mem_cons_self hl

/-- The registrations without the one that the flag speaks of. -/
def givenUp (s : St) : List (Move Unit Int) :=
  if s.hcsr.irqDone = irqDoneFlag then .give () s.hcsr.echoIsrNumber :: irqs s.log
  else irqs s.log

/-- The old registration is given up where there is one. -/
theorem wp_freeOldIrq_irq {h : Hcsr} {s : St} (hdone : h.irqDone = s.hcsr.irqDone)
    (hnum : h.echoIsrNumber = s.hcsr.echoIsrNumber) :
    wp (sem env) ok (freeOldIrq h) s fun _ s' =>
      s'.hcsr.irqDone = s.hcsr.irqDone ∧ s'.held = s.held ∧ irqs s'.log = givenUp s
        ∧ Passed s.log s'.log := by
  rw [freeOldIrq, givenUp, ← hdone, ← hnum]
  split
  · rw [wp_bind, wp_call]
    exact ⟨hdone.symm, rfl, rfl, .one id⟩
  · exact ⟨hdone.symm, rfl, rfl, .refl _⟩

/-- SETPINS of either driver, once its argument has been copied: the interrupt of the
    old pins is given up in any case. -/
theorem wp_setPins_irq {setTrig : Int → Code Int}
    (hset : ∀ pin s, wp (sem env) ok (setTrig pin) s (Tells s)) (pins : PinSet) {s : St}
    (hs : s.held = []) (hcopy : env.answer s.log .copyFromUser = 0) :
    wp (sem env) ok (ioctlSETPINsWith setTrig pins) s fun _ s' => s'.held = [] ∧
      ((s'.hcsr.irqDone = irqDoneFlag
          ∧ irqs s'.log = .take () s'.hcsr.echoIsrNumber :: givenUp s ∧ Passed s.log s'.log)
        ∨ (s'.hcsr.irqDone = s.hcsr.irqDone ∧ irqs s'.log = givenUp s
          ∧ Barred s.log s'.log)) := by
  rw [ioctlSETPINsWith, wp_bind, wp_call, hcopy, if_neg (by decide), wp_bind, wp_lock]
  refine ⟨fun hl => absurd hl (by simp [hs]), fun _ => ?_⟩
  rw [wp_bind, wp_load, wp_bind]
  refine wp_mono (wp_freeOldIrq_irq rfl rfl) ?_
  rintro _ s₁ ⟨hdone₁, hheld₁, hirqs₁, hlog₁⟩
  rw [wp_bind, wp_load, wp_bind]
  refine wp_mono (quiet_freeTrig _ _) ?_
  intro _ s₂ h₂
  rw [wp_bind, wp_load, wp_bind]
  refine wp_mono (quiet_freeEcho _ _) ?_
  intro _ s₃ h₃
  have hfree : Quiet Passed s₁ s₃ :=
    ((quiet_load s₁).trans h₂).trans ((quiet_load s₂).trans h₃)
  have hlog : Passed s.log s₃.log :=
    (Passed.one (e := (.copyFromUser, 0)) id).trans (hlog₁.trans hfree.log)
  have hdone : s₃.hcsr.irqDone = s.hcsr.irqDone := hfree.irqDone.trans hdone₁
  have hirqs : irqs s₃.log = givenUp s := hfree.irqs.trans hirqs₁
  have hheld : s₃.held = [.irqDone] :=
    hfree.held.trans (hheld₁.trans (congrArg (SpinLock.irqDone :: ·) hs))
  rw [wp_bind, wp_store]
  refine wp_mono (wp_requestPins_irq hset hheld) ?_
  rintro _ s' ⟨hheld', hend⟩
  refine ⟨hheld', ?_⟩
  rcases hend with ⟨hset', hirqs', hlog'⟩ | ⟨hkept, hirqs', hlog'⟩
  · exact .inl ⟨hset', by rw [hirqs', ← hirqs], hlog.trans hlog'⟩
  · exact .inr ⟨hkept.trans hdone, by rw [hirqs', ← hirqs], hlog.barred hlog'⟩

/-! ## The exit -/

theorem quiet_freeGpio (s : St) : wp (sem env) ok freeGpio s fun _ s' => Quiet Passed s s' := by
  rw [freeGpio, wp_bind, wp_load, wp_bind]
  refine wp_mono (quiet_freeTrig _ _) ?_
  intro _ s₁ h₁
  rw [wp_bind, wp_load, wp_bind]
  refine wp_mono (quiet_freeEcho _ _) ?_
  intro _ s₂ h₂
  exact ((quiet_load s).trans h₁).trans ((quiet_load s₁).trans h₂)

theorem quiet_stopAtExit (h : Hcsr) (s : St) :
    wp (sem env) ok (stopAtExit h) s fun _ s' => Quiet Passed s s' := by
  rw [stopAtExit]
  split
  · exact ⟨rfl, rfl, rfl, rfl, .refl _⟩
  · rw [wp_bind, wp_call]
    exact ⟨rfl, rfl, rfl, rfl, .one id⟩

theorem Quiet.givenUp {s s' : St} (h : Quiet Passed s s') : givenUp s' = givenUp s := by
  rw [HcSr04.givenUp, HcSr04.givenUp, h.irqDone, h.number, h.irqs]

/-- At exit the registration is given up. -/
theorem wp_hcSr04Exit {s : St} (hs : s.held = []) :
    wp (sem env) ok hcSr04Exit s fun _ s' => irqs s'.log = givenUp s := by
  rw [hcSr04Exit, wp_bind, wp_load, wp_bind]
  refine wp_mono (quiet_stopAtExit _ _) ?_
  intro _ s₁ h₁
  replace h₁ := (quiet_load s).trans h₁
  have hheld₁ : s₁.held = [] := h₁.held.trans hs
  rw [wp_bind, wp_lock]
  refine ⟨fun hl => absurd hl (by simp [hheld₁]), fun _ => ?_⟩
  rw [wp_bind, wp_load, wp_bind]
  refine wp_mono (wp_freeOldIrq_irq rfl rfl) ?_
  rintro _ s₂ ⟨-, hheld₂, hirqs₂, -⟩
  rw [wp_bind]
  refine wp_mono (quiet_freeGpio _) ?_
  intro _ s₃ h₃
  have hheld₃ : .irqDone ∈ s₃.held := by
    rw [h₃.held, hheld₂]
    exact List.mem_cons_self
  rw [wp_unlock]
  refine ⟨fun _ => ?_, fun hl => absurd hheld₃ hl⟩
  rw [← h₁.givenUp]
  exact h₃.irqs.trans hirqs₂

theorem Misc.wp_hcSr04Exit (s : St) :
    wp (sem env) ok Misc.hcSr04Exit s fun _ s' => irqs s'.log = givenUp s := by
  rw [Misc.hcSr04Exit, wp_bind, wp_load, wp_bind]
  refine wp_mono (quiet_stopAtExit _ _) ?_
  intro _ s₁ h₁
  replace h₁ := (quiet_load s).trans h₁
  rw [wp_bind, wp_load, ← h₁.givenUp, HcSr04.givenUp]
  split
  · rename_i hdone
    rw [if_pos (show s₁.hcsr.irqDone = irqDoneFlag from hdone), wp_bind, wp_call]
    exact wp_mono (quiet_freeGpio _) fun _ s₂ h₂ => h₂.irqs
  · rename_i hdone
    rw [if_neg (show ¬ s₁.hcsr.irqDone = irqDoneFlag from hdone)]
    rfl

end Functions

/-! ## The calls of a run -/

/-- The kernel call of an action, with what it returns. -/
def madeBy (env : Env) (x : Act × St) : Option (Call × Int) :=
  match x.1 with
  | .call c => some (c, env.answer x.2.log c)
  | _ => none

/-- The kernel calls of a program, with what they return, the first one first. -/
def made {α : Type} (env : Env) (p : Code α) (s : St) : List (Call × Int) :=
  (p.trace (sem env) s).filterMap (madeBy env)

theorem sem_log {env : Env} {a : Act} {s s' : St} {r : a.Answer} (h : sem env a s = .ok (r, s')) :
    s'.log = (madeBy env (a, s)).toList ++ s.log := by
  cases a with
  | lock l =>
      simp only [sem] at h
      split at h
      · cases h
      · cases h
        rfl
  | unlock l =>
      simp only [sem] at h
      split at h
      · cases h
        rfl
      · cases h
  | load =>
      cases h
      rfl
  | store f =>
      cases h
      rfl
  | storeNull =>
      simp only [sem] at h
      split at h
      · cases h
        rfl
      · cases h
  | slot i =>
      cases h
      rfl
  | call c =>
      cases h
      rfl
  | spin => cases h

/-- The log has what was made, the last call first. -/
theorem run_log {α : Type} {env : Env} {p : Code α} {s s' : St} {a : α}
    (h : p.run (sem env) s = .ok (a, s')) : s'.log = (made env p s).reverse ++ s.log := by
  induction p generalizing s with
  | ret b =>
      cases h
      rfl
  | act b k ih =>
      cases hb : sem env b s with
      | error e =>
          simp only [Prog.run, hb] at h
          cases h
      | ok x =>
          simp only [Prog.run, hb] at h
          rw [ih x.1 h, sem_log hb]
          simp only [made, Prog.trace, hb, List.filterMap_cons]
          cases madeBy env (b, s) with
          | none => rfl
          | some c => simp

/-- A run that was refused nothing made no call that was refused. -/
theorem passed_made {α : Type} {env : Env} {p : Code α} {s s' : St} {a : α}
    (h : p.run (sem env) s = .ok (a, s')) (hp : Passed s.log s'.log) :
    ∀ e ∈ made env p s, ¬ Refused e := by
  obtain ⟨new, hnew, hn⟩ := hp
  rw [run_log h] at hnew
  intro e he
  refine hn e ?_
  rw [← List.append_cancel_right hnew]
  exact List.mem_reverse.mpr he

/-- A run that was refused something made a call that was. -/
theorem barred_made {α : Type} {env : Env} {p : Code α} {s s' : St} {a : α}
    (h : p.run (sem env) s = .ok (a, s')) (hb : Barred s.log s'.log) :
    ∃ e ∈ made env p s, Refused e := by
  obtain ⟨new, hnew, e, he, href⟩ := hb
  rw [run_log h] at hnew
  rw [← List.append_cancel_right hnew] at he
  exact ⟨e, List.mem_reverse.mp he, href⟩

/-! ## Sequences of SETPINS -/

/-- SETPINS of the two drivers. -/
def setPinsOf : Version → PinSet → Code Int
  | .misc, pins => Misc.ioctlSETPINs pins
  | .sysfs, pins => ioctlSETPINs pins

/-- The exit of the two drivers. -/
def exitOf : Version → Code Unit
  | .misc => Misc.hcSr04Exit
  | .sysfs => hcSr04Exit

/-- A SETPINS with its argument and what it meets in the kernel returns. -/
def setPinsReturns (v : Version) (o : Env × PinSet) (s s' : St) : Prop :=
  ∃ ret, (setPinsOf v o.2).run (sem o.1) s = .ok (ret, s')

/-- `irq_done` is set exactly if the interrupt that is stored is registered. -/
def Truthful (s : St) : Prop :=
  s.hcsr.irqDone = irqDoneFlag ↔ Registered s.log s.hcsr.echoIsrNumber

/-- If `irq_done` is set, the kernel refuses nothing that the call asks for. -/
def Unrefused (v : Version) (s : St) (o : Env × PinSet) : Prop :=
  s.hcsr.irqDone = irqDoneFlag → ∀ e ∈ made o.1 (setPinsOf v o.2) s, ¬ Refused e

/-- The flag is right, and nothing else is registered. -/
structure Kept (s : St) : Prop where
  held : s.held = []
  clean : Clean (irqs s.log)
  registered : s.hcsr.irqDone = irqDoneFlag → Registered s.log s.hcsr.echoIsrNumber
  sole : ∀ irq, Registered s.log irq →
    s.hcsr.irqDone = irqDoneFlag ∧ irq = s.hcsr.echoIsrNumber

theorem kept_initialSt (v : Version) : Kept (initialSt v) := by
  cases v with
  | misc => exact ⟨rfl, trivial, nofun, nofun⟩
  | sysfs => exact ⟨rfl, trivial, nofun, nofun⟩

section Kept
variable {v : Version} {s s' : St}

/-- The flag says whether the interrupt is registered. -/
theorem Kept.truthful (hk : Kept s) : Truthful s :=
  ⟨hk.registered, fun hr => (hk.sole _ hr).1⟩

/-- What SETPINS and the exit begin with: the interrupt is given up, and none is left. -/
theorem Kept.givenUp (hk : Kept s) :
    Clean (givenUp s) ∧ ∀ irq, ¬ Holds () (givenUp s) irq := by
  rw [HcSr04.givenUp]
  split
  · rename_i hdone
    refine ⟨⟨⟨hk.registered hdone, ?_⟩, hk.clean⟩, ?_⟩
    · exact fun e he => absurd rfl he
    · rintro irq ⟨hne, hirq⟩
      exact hne ⟨rfl, ((hk.sole irq hirq).2).symm⟩
  · rename_i hdone
    exact ⟨hk.clean, fun irq hirq => hdone (hk.sole irq hirq).1⟩

theorem wp_setPinsOf (v : Version) (env : Env) (pins : PinSet) (hs : s.held = [])
    (hcopy : env.answer s.log .copyFromUser = 0) :
    wp (sem env) (fun _ => False) (setPinsOf v pins) s fun _ s' => s'.held = [] ∧
      ((s'.hcsr.irqDone = irqDoneFlag
          ∧ irqs s'.log = .take () s'.hcsr.echoIsrNumber :: HcSr04.givenUp s
          ∧ Passed s.log s'.log)
        ∨ (s'.hcsr.irqDone = s.hcsr.irqDone ∧ irqs s'.log = HcSr04.givenUp s
          ∧ Barred s.log s'.log)) := by
  cases v with
  | misc => exact wp_setPins_irq Misc.quiet_setTrig pins hs hcopy
  | sysfs =>
      rw [setPinsOf, ioctlSETPINs]
      exact wp_setPins_irq quiet_setTrig pins hs hcopy

/-- A SETPINS that returns has copied its argument. -/
theorem copied_of_returns {o : Env × PinSet} (hs : s.held = []) (h : setPinsReturns v o s s') :
    o.1.answer s.log .copyFromUser = 0 := by
  obtain ⟨ret, hrun⟩ := h
  by_contra hcopy
  have hwp : wp (sem o.1) (fun _ => False) (setPinsOf v o.2) s fun _ _ => True := by
    rw [wp, hrun]
    trivial
  cases v with
  | misc => simp [setPinsOf, Misc.ioctlSETPINs, ioctlSETPINsWith, errSetpinReturn, storeUnless,
      hcopy, hs] at hwp
  | sysfs => simp [setPinsOf, ioctlSETPINs, ioctlSETPINsWith, errSetpinReturn, storeUnless, hcopy,
      hs] at hwp

/-- One SETPINS: nothing is refused and the flag stays right, or something is, and the
    flag stays as it is while the registration is gone. -/
theorem Kept.setPins {o : Env × PinSet} (hk : Kept s) (h : setPinsReturns v o s s') :
    (Kept s' ∧ ∀ e ∈ made o.1 (setPinsOf v o.2) s, ¬ Refused e)
      ∨ (s'.held = [] ∧ s'.hcsr.irqDone = s.hcsr.irqDone ∧ irqs s'.log = HcSr04.givenUp s
        ∧ ∃ e ∈ made o.1 (setPinsOf v o.2) s, Refused e) := by
  have hcopy := copied_of_returns hk.held h
  obtain ⟨ret, hrun⟩ := h
  have hwp := wp_setPinsOf v o.1 o.2 hk.held hcopy
  rw [wp, hrun] at hwp
  obtain ⟨hclean, hnone⟩ := hk.givenUp
  obtain ⟨hheld, ⟨hdone, hirqs, hlog⟩ | ⟨hdone, hirqs, hlog⟩⟩ := hwp
  · refine .inl ⟨⟨hheld, ?_, fun _ => ?_, ?_⟩, passed_made hrun hlog⟩
    · rw [hirqs]
      exact hclean
    · rw [Registered, hirqs]
      exact .inl ⟨rfl, rfl⟩
    · intro irq hirq
      rw [Registered, hirqs] at hirq
      rcases hirq with ⟨-, heq⟩ | hold
      · exact ⟨hdone, heq.symm⟩
      · exact absurd hold (hnone irq)
  · exact .inr ⟨hheld, hdone, hirqs, barred_made hrun hlog⟩

/-- **A SETPINS THAT IS REFUSED NOTHING** keeps it so. -/
theorem Kept.of_unrefused {o : Env × PinSet} (hk : Kept s) (h : setPinsReturns v o s s')
    (hun : Unrefused v s o) : Kept s' := by
  rcases hk.setPins h with ⟨hk', -⟩ | ⟨hheld, hdone, hirqs, e, he, href⟩
  · exact hk'
  · have hnot : s.hcsr.irqDone ≠ irqDoneFlag := fun hd => hun hd e he href
    obtain ⟨hclean, hnone⟩ := hk.givenUp
    rw [← hirqs] at hclean hnone
    refine ⟨hheld, hclean, ?_, fun irq hirq => absurd hirq (hnone irq)⟩
    exact fun hd => absurd (hdone.symm.trans hd) hnot

/-- The condition is exact. -/
theorem Kept.truthful_iff {o : Env × PinSet} (hk : Kept s) (h : setPinsReturns v o s s') :
    Truthful s' ↔ Unrefused v s o := by
  constructor
  · intro ht hd
    rcases hk.setPins h with ⟨-, hpass⟩ | ⟨-, hdone, hirqs, -⟩
    · exact hpass
    · have hreg := ht.mp (hdone.trans hd)
      rw [Registered, hirqs] at hreg
      exact absurd hreg (hk.givenUp.2 _)
  · exact fun hun => (hk.of_unrefused h hun).truthful

/-- At exit nothing stays registered, and nothing is given up twice. -/
theorem Kept.exit (hk : Kept s) (env : Env) :
    ∃ s', (exitOf v).run (sem env) s = .ok ((), s') ∧ Clean (irqs s'.log)
      ∧ ∀ irq, ¬ Registered s'.log irq := by
  have hwp : wp (sem env) (fun _ => False) (exitOf v) s fun _ s' =>
      irqs s'.log = HcSr04.givenUp s := by
    cases v with
    | misc => exact Misc.wp_hcSr04Exit s
    | sysfs => exact wp_hcSr04Exit hk.held
  obtain ⟨_, s', hrun, hirqs⟩ := run_of_wp hwp
  obtain ⟨hclean, hnone⟩ := hk.givenUp
  rw [← hirqs] at hclean hnone
  exact ⟨s', hrun, hclean, hnone⟩

end Kept

/-- **BETWEEN CALLS** it is so. -/
theorem between_kept {v : Version} {s : St}
    (h : Between (setPinsReturns v) (Unrefused v) (initialSt v) s) : Kept s := by
  refine Between.invariant (I := Kept) (kept_initialSt v) ?_ h
  intro s s' o hk hun hret
  exact hk.of_unrefused hret hun

/-- **`irq_done` TELLS THE TRUTH**: between the calls of a sequence of SETPINS in which
    the kernel refuses nothing while `irq_done` is set, the flag says what is
    registered, every `free_irq` was of a registered interrupt, and the exit leaves
    none.  The next SETPINS keeps the flag true exactly if it meets the condition. -/
theorem irq_done_true (v : Version) {s : St}
    (h : Between (setPinsReturns v) (Unrefused v) (initialSt v) s) :
    Truthful s ∧ Clean (irqs s.log)
      ∧ (∀ env, ∃ s', (exitOf v).run (sem env) s = .ok ((), s') ∧ Clean (irqs s'.log)
          ∧ ∀ irq, ¬ Registered s'.log irq)
      ∧ ∀ o : Env × PinSet, o.1.answer s.log .copyFromUser = 0 →
          ∃ s', setPinsReturns v o s s' ∧ (Truthful s' ↔ Unrefused v s o) := by
  have hk := between_kept h
  refine ⟨hk.truthful, hk.clean, hk.exit, ?_⟩
  intro o hcopy
  obtain ⟨ret, s', hrun, -⟩ := run_of_wp (wp_setPinsOf v o.1 o.2 hk.held hcopy)
  exact ⟨s', ⟨ret, hrun⟩, hk.truthful_iff ⟨ret, hrun⟩⟩

/-! ## A first SETPINS, and one that is refused -/

/-- After SETPINS with the pins 13 and 14, with nothing refused. -/
def pinsGiven : St :=
  match (Misc.ioctlSETPINs ⟨13, 14⟩).run (sem quietEnv) (initialSt .misc) with
  | .ok (_, s) => s
  | .error _ => initialSt .misc

theorem returns_pinsGiven :
    setPinsReturns .misc (quietEnv, ⟨13, 14⟩) (initialSt .misc) pinsGiven := ⟨0, rfl⟩

theorem irq_done_true_set :
    Between (setPinsReturns .misc) (Unrefused .misc) (initialSt .misc) pinsGiven
      ∧ pinsGiven.hcsr.irqDone = irqDoneFlag ∧ Truthful pinsGiven := by
  have hB : Between (setPinsReturns .misc) (Unrefused .misc) (initialSt .misc) pinsGiven :=
    .call (quietEnv, ⟨13, 14⟩) .start nofun returns_pinsGiven
  exact ⟨hB, rfl, (irq_done_true .misc hB).1⟩

/-- A kernel that grants no line. -/
def stingyEnv : Env where
  answer _ c :=
    match c with
    | .gpioRequest _ => -16
    | _ => 0
  others _ x := x
  beside _ := 0
  nullPage := false

/-- A second SETPINS that is refused its first line has freed the interrupt, and leaves
    `irq_done` set. -/
theorem irq_done_lies :
    ¬ ∀ v s, Between (setPinsReturns v) (fun _ _ => True) (initialSt v) s → Truthful s := by
  intro h
  have hB : Between (setPinsReturns .misc) (fun _ _ => True) (initialSt .misc) pinsGiven :=
    .call (quietEnv, ⟨13, 14⟩) .start trivial returns_pinsGiven
  have htrue := h .misc _ (.call (stingyEnv, ⟨13, 14⟩) hB trivial ⟨-22, rfl⟩)
  obtain ⟨hne, -⟩ := htrue.mp rfl
  exact hne ⟨rfl, rfl⟩

end HcSr04
