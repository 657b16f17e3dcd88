import KernelRocks.HcSr04HoldingProofs

/-! # The stores of the pins and of the mode

    `trigger_store` and `echo_store` free the lines of the old pin, then read the
    number, then request the lines of the new one.  What fails after the first of
    these steps has lost the old lines.  `mode_store` and `frequency_store` only
    read a number and write it down; all four return what `sscanf` returned where
    it found no number, and that is 0.

    * `wp_triggerStore`, `wp_echoStore`: what a store makes of the lines, the
      interrupt and the configuration.
    * `assignment_owns_iff`: an assignment that reports success has the lines of its
      pins exactly if its pins are in the table.
    * `store_atomic_iff`: when a store is done as a whole or not at all. -/

namespace HcSr04

open Program Ledger

/-! ## What `sscanf` answers -/

theorem sscanf_cases (buf : List Char) : (sscanf buf).1 = 1 ∨ sscanf buf = (0, 0) := by
  simp only [sscanf]
  split
  · split
    · exact .inr rfl
    · exact .inl rfl
  · split
    · exact .inr rfl
    · exact .inl rfl

theorem sscanf_unread {buf : List Char} (hread : ¬ 0 < (sscanf buf).1) : sscanf buf = (0, 0) :=
  (sscanf_cases buf).resolve_left fun h => hread (by rw [h]; decide)

/-! ## `trigger_store` -/

/-- A call about a line returns 0 or a negative error. -/
def Env.Coded (env : Env) : Prop :=
  ∀ log line, env.answer log (.gpioRequest line) ≤ 0
    ∧ ∀ value, env.answer log (.gpioDirectionOutput line value) ≤ 0

section Stores
variable {env : Env} {ok : Fault → Prop} {buf : List Char} {count : Nat} {s : St}

/-- With what the loops that request are left. -/
theorem wp_setRows_leave {P : Leave → Prop} {skip : List PinFunc}
    {direction : PinFunc → Int × Int → Call}
    (hreq : ∀ log line, P (.request (env.answer log (.gpioRequest line))))
    (hdir : ∀ log m p, P (.oper (env.answer log (direction m p)))) (pin : Int) (s : St) :
    wp (sem env) ok (eachRow pin (setBody skip direction) allPins) s
      (Ended (fun _ _ _ => True) (fun _ x _ => P x) (linesOf skip pin allPins) s) := by
  have hR : Rounds (fun _ _ _ => True) fun _ x _ => P x :=
    ⟨fun _ => trivial, fun _ _ => trivial, fun _ h => h⟩
  refine wp_eachRow hR allPins (fun row _ _ => wp_eachFunc hR (fun m s => ?_) pinFuncs) s
  rw [setBody]
  split
  · trivial
  · rw [wp_bind, wp_call]
    split
    · exact hreq _ _
    · rw [wp_bind, wp_call]
      split
      · exact hdir _ _ _
      · trivial

/-- `setTrig` returns what the kernel returned. -/
theorem setTrig_le (hc : env.Coded) (pin : Int) (s : St) :
    wp (sem env) ok (setTrig pin) s fun ret _ => ret ≤ 0 := by
  have hdir : ∀ log m p, env.answer log (trigDirection m p) ≤ 0 := by
    intro log m p
    cases m with
    | gpioLinux => exact (hc log p.1).2 0
    | gpioLevel => exact (hc log p.1).2 0
    | gpioPull => exact (hc log p.1).2 0
    | gpioMux0 => exact (hc log p.1).2 p.2
    | gpioMux1 => exact (hc log p.1).2 p.2
  rw [setTrig, wp_bind]
  refine wp_mono (wp_setRows_leave (P := fun x => x.ret ≤ 0) (fun log line => (hc log line).1) hdir
    pin s) ?_
  intro out s₁ hend
  rcases out with _ | ⟨ret⟩ | ⟨ret⟩
  · exact Int.le_refl 0
  · rw [wp_bind, wp_call]
    exact hend
  · exact hend

theorem setEcho_le (pin : Int) (s : St) : wp (sem env) ok (setEcho pin) s fun ret _ => ret ≤ 0 := by
  rw [setEcho, wp_bind]
  refine wp_mono (wp_setRows_leave (P := fun _ => True) (fun _ _ => trivial) (fun _ _ _ => trivial)
    pin s) ?_
  intro out s₁ _
  rcases out with _ | ⟨ret⟩ | ⟨ret⟩
  · exact Int.le_refl 0
  · rw [wp_bind, wp_call]
    exact (by decide : -einval ≤ 0)
  · exact (by decide : -einval ≤ 0)

theorem writes_storeConfig (f : Hcsr → Hcsr) (hs : s.held = []) :
    wp (sem env) ok (storeConfig f count) s fun ret s' =>
      ret = count ∧ s' = { s with hcsr := f s.hcsr } := by
  rw [storeConfig, wp_bind, wp_lock]
  refine ⟨fun hl => absurd hl (by simp [hs]), fun _ => ?_⟩
  rw [wp_bind, wp_store, wp_bind, wp_unlock]
  refine ⟨fun _ => ⟨rfl, ?_⟩, fun hl => absurd List.mem_cons_self hl⟩
  simp

/-- A number was read: the lines of the new pin are there and the pin is stored, or
    something was refused. -/
theorem wp_triggerStore (hc : env.Coded) (hs : s.held = []) (hread : 0 < (sscanf buf).1) :
    wp (sem env) ok (triggerStore buf count) s fun ret s' =>
      ∃ x, Cleared (trigLines s.hcsr.pins.triggerPin) s.log x ∧ irqs s'.log = irqs s.log ∧
        ((ret = count ∧ Passed x s'.log ∧ Gained (trigLines (sscanf buf).2) x s'.log
            ∧ s'.hcsr.pins.triggerPin = (sscanf buf).2)
          ∨ (ret < 0 ∧ Barred x s'.log ∧ s'.hcsr.settings = s.hcsr.settings
            ∧ (env.Refusing → ∃ ks, Botched (trigLines (sscanf buf).2) ks x s'.log))) := by
  rw [triggerStore, wp_bind, wp_load, wp_bind]
  refine wp_mono (gave_freeTrig _ _) ?_
  intro _ s₁ h₁
  rw [if_neg (Int.not_le.mpr hread), wp_bind]
  refine wp_mono (wp_and (acquires_setTrig _ _) (setTrig_le hc _ _)) ?_
  rintro ret s₂ ⟨⟨rfl, h₂⟩ | ⟨hret, hu, hlog, hleft⟩, hle⟩
  · rw [if_neg (by decide)]
    have hheld : s₂.held = [] := h₂.held.trans (h₁.held.trans hs)
    refine wp_mono (writes_storeConfig _ hheld) ?_
    rintro ret s' ⟨rfl, rfl⟩
    exact ⟨s₁.log, h₁.toCleared, h₂.irqs.trans h₁.irqs, .inl ⟨rfl, h₂.log, h₂.gained, rfl⟩⟩
  · have hneg : ret < 0 := by omega
    rw [if_pos hneg]
    exact ⟨s₁.log, h₁.toCleared, hu.irqs.trans h₁.irqs,
      .inr ⟨hneg, hlog, hu.settings.trans h₁.settings, hleft⟩⟩

/-- No number was read: the lines are gone all the same. -/
theorem triggerStore_unread (hread : ¬ 0 < (sscanf buf).1) :
    wp (sem env) ok (triggerStore buf count) s fun ret _ => ret = 0 := by
  rw [triggerStore, wp_bind, wp_load, wp_bind]
  refine wp_mono (gave_freeTrig _ _) ?_
  intro _ s₁ _
  rw [sscanf_unread hread]
  rfl

/-! ## `echo_store` -/

/-- The settings once the interrupt has been given up. -/
def Settings.dropped (t : Settings) : Settings :=
  if t.irqDone = irqDoneFlag then { t with irqDone := irqNotDoneFlag } else t

theorem Settings.dropped_pins (t : Settings) : t.dropped.pins = t.pins := by
  rw [dropped]
  split <;> rfl

theorem wp_dropIrq {h : Hcsr} (hset : h.settings = s.hcsr.settings)
    (hnum : h.echoIsrNumber = s.hcsr.echoIsrNumber) :
    wp (sem env) ok (dropIrq h) s fun _ s' => s'.hcsr.settings = s.hcsr.settings.dropped
      ∧ s'.held = s.held ∧ irqs s'.log = givenUp s ∧ Cleared [] s.log s'.log := by
  have hdone : h.irqDone = s.hcsr.irqDone := congrArg Settings.irqDone hset
  rw [dropIrq, givenUp, ← hnum, Settings.dropped, hdone]
  split
  · rename_i hflag
    rw [if_pos (show s.hcsr.settings.irqDone = irqDoneFlag from hflag), wp_bind, wp_call, wp_store]
    exact ⟨rfl, rfl, rfl, rfl, rfl, .one id⟩
  · rename_i hflag
    rw [if_neg (show ¬ s.hcsr.settings.irqDone = irqDoneFlag from hflag)]
    exact ⟨rfl, rfl, rfl, rfl, rfl, .refl _⟩

/-- The pins are stored back. -/
theorem settings_restored {h : Hcsr} {t : Settings} {pins prevPins : PinSet}
    (hset : h.settings = { t with pins := pins }) (hprev : prevPins = t.pins) :
    Hcsr.settings { h with pins := prevPins } = t := by
  show (⟨prevPins, h.settings.workingMode, h.settings.enable, h.settings.irqDone⟩ : Settings) = t
  rw [hset, hprev]

/-- The label `FAILED_SET`. -/
theorem wp_failedSet {prevPins : PinSet} {ret : Int} {Q : Int → St → Prop}
    (hs : s.held = [.kconfig])
    (hQ : Q ret { s with hcsr := { s.hcsr with pins := prevPins }, held := [] }) :
    wp (sem env) ok (failedSet prevPins ret) s Q := by
  rw [failedSet, wp_bind, wp_store, wp_bind, wp_unlock, hs]
  exact ⟨fun _ => hQ, fun hl => absurd List.mem_cons_self hl⟩

/-- `echo_store` from where the configuration is locked. -/
def assignEcho (buf : List Char) (count : Nat) : Code Int := do
  let h ← load
  if 0 ≥ (sscanf buf).1 then failedSet h.pins (sscanf buf).1
  else
    let ret ← setEcho (sscanf buf).2
    if 0 > ret then failedSet h.pins ret
    else
      store fun h => { h with pins.echoPin := (sscanf buf).2 }
      let ret ← setISR
      if 0 > ret then failedSet h.pins ret
      else
        lock .irqDone
        store fun h => { h with irqDone := irqDoneFlag }
        unlock .irqDone
        unlock .kconfig
        return count

theorem echoStore_eq (buf : List Char) (count : Nat) :
    echoStore buf count = (do
      lock .irqDone
      let h ← load
      dropIrq h
      unlock .irqDone
      let h ← load
      let _ ← freeEcho h.pins.echoPin
      lock .kconfig
      assignEcho buf count) := rfl

/-- The interrupt and the lines of the old echo pin are given up. -/
structure Released (s s' : St) : Prop where
  held : s'.held = [.kconfig]
  pins : s'.hcsr.pins = s.hcsr.pins
  settings : s'.hcsr.settings = s.hcsr.settings.dropped
  irqs : irqs s'.log = givenUp s
  lines : Cleared (echoLines s.hcsr.pins.echoPin) s.log s'.log

theorem wp_echoStore_of {Q : Int → St → Prop} (hs : s.held = [])
    (hassign : ∀ s', Released s s' → wp (sem env) ok (assignEcho buf count) s' Q) :
    wp (sem env) ok (echoStore buf count) s Q := by
  rw [echoStore_eq, wp_bind, wp_lock]
  refine ⟨fun hl => absurd hl (by simp [hs]), fun _ => ?_⟩
  rw [wp_bind, wp_load, wp_bind]
  refine wp_mono (wp_dropIrq rfl rfl) ?_
  rintro _ s₁ ⟨hset₁, hheld₁, hirqs₁, hclear₁⟩
  rw [wp_bind, wp_unlock, hheld₁]
  refine ⟨fun _ => ?_, fun hl => absurd List.mem_cons_self hl⟩
  rw [wp_bind, wp_load, wp_bind]
  refine wp_mono (gave_freeEcho _ _) ?_
  intro _ s₂ h₂
  have hpins₁ : s₁.hcsr.pins = s.hcsr.pins :=
    (congrArg Settings.pins hset₁).trans s.hcsr.settings.dropped_pins
  have hheld₂ : s₂.held = [] := by
    refine h₂.held.trans ?_
    show (SpinLock.irqDone :: s.held).erase .irqDone = []
    rw [hs]
    rfl
  have hfreed : Cleared (echoLines s₁.hcsr.pins.echoPin) s₁.log s₂.log := h₂.toCleared
  rw [hpins₁] at hfreed
  rw [wp_bind, wp_lock]
  refine ⟨fun hl => absurd hl (by simp [hheld₂]), fun _ => hassign _ ⟨?_, ?_, ?_, ?_, ?_⟩⟩
  · exact congrArg (SpinLock.kconfig :: ·) hheld₂
  · exact h₂.pins.trans hpins₁
  · exact h₂.settings.trans hset₁
  · exact h₂.irqs.trans hirqs₁
  · exact hclear₁.trans hfreed

/-- What a failure in `echo_store` leaves: the old pins are stored again, but the
    interrupt is given up, and of the lines `ks` are new. -/
structure EchoFailed (env : Env) (s : St) (x : List (Call × Int)) (s' : St) : Prop where
  settings : s'.hcsr.settings = s.hcsr.settings.dropped
  irqs : irqs s'.log = givenUp s
  log : Barred x s'.log
  left : env.Refusing → ∃ ks, Gained ks x s'.log ∧ ∀ l ∈ ks, ¬ HoldsLine x l

/-- How `echo_store` ends behind `x`, once it has read a number. -/
def Echoed (env : Env) (buf : List Char) (count : Nat) (s : St) (x : List (Call × Int)) (ret : Int)
    (s' : St) : Prop :=
  (ret = count ∧ Passed x s'.log ∧ Gained (echoLines (sscanf buf).2) x s'.log
      ∧ s'.hcsr.pins.echoPin = (sscanf buf).2)
    ∨ (ret < 0 ∧ EchoFailed env s x s')

theorem wp_assignEcho {s₂ : St} (hr : Released s s₂) (hread : 0 < (sscanf buf).1) :
    wp (sem env) ok (assignEcho buf count) s₂ (Echoed env buf count s s₂.log) := by
  have hprev : s₂.hcsr.pins = s.hcsr.settings.dropped.pins :=
    hr.pins.trans s.hcsr.settings.dropped_pins.symm
  rw [assignEcho, wp_bind, wp_load, if_neg (Int.not_le.mpr hread), wp_bind]
  refine wp_mono (wp_and (acquires_setEcho _ _) (setEcho_le _ _)) ?_
  rintro ret s₃ ⟨⟨rfl, h₃⟩ | ⟨hret, hu, hlog, hleft⟩, hle⟩
  swap
  · have hneg : ret < 0 := by omega
    rw [if_pos hneg]
    refine wp_failedSet (hu.held.trans hr.held) ?_
    refine .inr ⟨hneg, ?_, hu.irqs.trans hr.irqs, hlog, fun hk => ?_⟩
    · exact settings_restored (hu.settings.trans hr.settings) hprev
    · obtain ⟨ks, hks⟩ := hleft hk
      exact ⟨ks, hks.toGained, hks.fresh⟩
  have hheld₃ : s₃.held = [.kconfig] := h₃.held.trans hr.held
  rw [if_neg (by decide), wp_bind, wp_store, wp_bind]
  refine wp_mono (wp_and (wp_setISR_irq _) (spared_setISR _)) ?_
  rintro ret s₄ ⟨hirq, hle, hspare, hset₄⟩
  have hgot : Gained (echoLines (sscanf buf).2) s₂.log s₄.log := h₃.gained.spared hspare
  rcases hirq with ⟨rfl, h₄⟩ | ⟨hret, h₄⟩
  · have hheld₄ : s₄.held = [.kconfig] := h₄.held.trans hheld₃
    rw [if_neg (by decide), wp_bind, wp_lock]
    refine ⟨fun hl => absurd hl (by simp [hheld₄]), fun _ => ?_⟩
    rw [wp_bind, wp_store, wp_bind, wp_unlock]
    refine ⟨fun _ => ?_, fun hl => absurd List.mem_cons_self hl⟩
    rw [wp_bind, wp_unlock]
    refine ⟨fun _ => .inl ⟨rfl, h₃.log.trans h₄.log, hgot, ?_⟩, fun hl => absurd ?_ hl⟩
    · exact congrArg (fun t => t.pins.echoPin) hset₄
    · show SpinLock.kconfig ∈ (SpinLock.irqDone :: s₄.held).erase .irqDone
      rw [hheld₄]
      decide
  · have hneg : ret < 0 := by omega
    have hset₃ : s₃.hcsr.settings = s.hcsr.settings.dropped := h₃.settings.trans hr.settings
    have hstored : s₄.hcsr.settings = { s.hcsr.settings.dropped with
        pins := { s₃.hcsr.pins with echoPin := (sscanf buf).2 } } := by
      rw [← hset₃]
      exact hset₄
    rw [if_pos hneg]
    refine wp_failedSet (h₄.held.trans hheld₃) ?_
    refine .inr ⟨hneg, settings_restored hstored hprev, ?_, h₃.log.barred h₄.log, fun hk => ?_⟩
    · exact h₄.irqs.trans (h₃.irqs.trans hr.irqs)
    · exact ⟨_, hgot, granted_fresh (h₃.granted hk)⟩

theorem wp_echoStore (hs : s.held = []) (hread : 0 < (sscanf buf).1) :
    wp (sem env) ok (echoStore buf count) s fun ret s' =>
      ∃ x, Cleared (echoLines s.hcsr.pins.echoPin) s.log x ∧ Echoed env buf count s x ret s' := by
  refine wp_echoStore_of hs fun s₂ hr => ?_
  exact wp_mono (wp_assignEcho hr hread) fun _ _ hend => ⟨s₂.log, hr.lines, hend⟩

/-- No number was read: the interrupt and the lines are gone all the same. -/
theorem echoStore_unread (hs : s.held = []) (hread : ¬ 0 < (sscanf buf).1) :
    wp (sem env) ok (echoStore buf count) s fun ret _ => ret = 0 := by
  refine wp_echoStore_of hs fun s₂ hr => ?_
  rw [assignEcho, wp_bind, wp_load, sscanf_unread hread, if_pos (by decide)]
  exact wp_failedSet hr.held rfl

end Stores

/-! ## Assignments of pins -/

/-- The operations that assign pins. -/
inductive Assignment where
  | setPins (v : Version) (pins : PinSet)
  | trigger (buf : List Char) (count : Nat)
  | echo (buf : List Char) (count : Nat)

namespace Assignment

def code : Assignment → Code Int
  | .setPins v pins => setPinsOf v pins
  | .trigger buf count => triggerStore buf count
  | .echo buf count => echoStore buf count

/-- What it returns if all goes well. -/
def success : Assignment → Int
  | .setPins _ _ => 0
  | .trigger _ count => count
  | .echo _ count => count

/-- The pins it sets, each with the columns of the table that it leaves out. -/
def pins : Assignment → List (List PinFunc × Int)
  | .setPins _ pins => [([.gpioPull], pins.triggerPin), ([], pins.echoPin)]
  | .trigger buf _ => if 0 < (sscanf buf).1 then [([.gpioPull], (sscanf buf).2)] else []
  | .echo buf _ => if 0 < (sscanf buf).1 then [([], (sscanf buf).2)] else []

/-- The argument of SETPINS cannot be copied. -/
def Uncopied (env : Env) (s : St) : Assignment → Prop
  | .setPins _ _ => env.answer s.log .copyFromUser ≠ 0
  | _ => False

end Assignment

/-- The pin is the Linux line of a row, and the device has all lines of that row. -/
def OwnsPin (log : List (Call × Int)) (p : List PinFunc × Int) : Prop :=
  ∃ row ∈ allPins, p.2 = (row.at .gpioLinux).1 ∧
    ∀ m, m ∉ p.1 → (row.at m).1 ≠ -1 → HoldsLine log (row.at m).1

/-- If the assignment reports success, the device owns its pins. -/
def Assignment.Owns (o : Assignment) (env : Env) (s : St) : Prop :=
  ∀ ret s', o.code.run (sem env) s = .ok (ret, s') → ret = o.success →
    ∀ p ∈ o.pins, OwnsPin s'.log p

/-- How an assignment ends: its lines are there, or something was refused. -/
def Assignment.Ends (o : Assignment) (s : St) (ret : Int) (s' : St) : Prop :=
  (ret = o.success ∧ Passed s.log s'.log
      ∧ ∀ p ∈ o.pins, ∀ l ∈ linesOf p.1 p.2 allPins, HoldsLine s'.log l)
    ∨ (ret ≠ o.success ∧ Barred s.log s'.log)

section Assignments
variable {env : Env} {s s' : St} {o : Assignment}

theorem mem_pinFuncs (m : PinFunc) : m ∈ pinFuncs := by cases m <;> decide

theorem mem_linesOf {skip : List PinFunc} {row : PinRow} (hrow : row ∈ allPins) {m : PinFunc}
    (hskip : m ∉ skip) (hm : (row.at m).1 ≠ -1) :
    (row.at m).1 ∈ linesOf skip (row.at .gpioLinux).1 allPins := by
  refine List.mem_flatMap.mpr ⟨row, hrow, ?_⟩
  rw [if_neg (not_ne_iff.mpr rfl)]
  refine List.mem_flatMap.mpr ⟨m, mem_pinFuncs m, ?_⟩
  rw [lineIn, if_neg (not_or.mpr ⟨hskip, hm⟩)]
  exact List.mem_cons_self

/-- With the lines there, what decides is the table. -/
theorem ownsPin_iff {log : List (Call × Int)} {p : List PinFunc × Int}
    (hlines : ∀ l ∈ linesOf p.1 p.2 allPins, HoldsLine log l) : OwnsPin log p ↔ ¬ NoRow p.2 := by
  constructor
  · rintro ⟨row, hrow, hpin, -⟩ hno
    exact hno row hrow hpin
  · intro hrow
    obtain ⟨row, hrow, hpin⟩ : ∃ row ∈ allPins, p.2 = (row.at .gpioLinux).1 := by
      simpa [NoRow] using hrow
    refine ⟨row, hrow, hpin, fun m hskip hm => hlines _ ?_⟩
    rw [hpin]
    exact mem_linesOf hrow hskip hm

theorem Assignment.Ends.owns_iff {ret : Int} (hrun : o.code.run (sem env) s = .ok (ret, s'))
    (hend : o.Ends s ret s') : o.Owns env s ↔
      (∀ p ∈ o.pins, ¬ NoRow p.2) ∨ ∃ e ∈ made env o.code s, Refused e := by
  rw [Assignment.Owns, forall_run_iff hrun]
  rcases hend with ⟨hret, hpass, hlines⟩ | ⟨hret, hbar⟩
  · rw [or_iff_left fun ⟨e, he, href⟩ => passed_made hrun hpass e he href, forall_prop_of_true hret]
    exact forall₂_congr fun p hp => ownsPin_iff (hlines p hp)
  · exact iff_of_true (fun h => absurd h hret) (.inr (barred_made hrun hbar))

theorem ends_setPins {v : Version} {pins : PinSet} (hs : s.held = [])
    (hcopy : env.answer s.log .copyFromUser = 0) :
    wp (sem env) (fun _ => False) (setPinsOf v pins) s ((Assignment.setPins v pins).Ends s) := by
  refine wp_mono (assigned_setPinsOf v pins hs hcopy) ?_
  rintro ret s' ⟨x, hclear, ⟨rfl, hpass, hgot⟩ | ⟨hret, hbar, -, -⟩⟩
  · refine .inl ⟨rfl, hclear.log.trans hpass, fun p hp l hl => (hgot.lines l).mpr (.inl ?_)⟩
    rcases List.mem_cons.mp hp with rfl | hp
    · exact List.mem_append_left _ hl
    · rw [List.mem_singleton.mp hp] at hl
      exact List.mem_append_right _ hl
  · exact .inr ⟨hret, hclear.log.barred hbar⟩

/-- A store returns a negative error, which is not its count. -/
theorem ne_count {ret : Int} {count : Nat} (h : ret < 0) : ret ≠ (count : Int) := by omega

theorem ends_trigger {buf : List Char} {count : Nat} (hc : env.Coded) (hs : s.held = [])
    (hread : 0 < (sscanf buf).1) :
    wp (sem env) (fun _ => False) (triggerStore buf count) s
      ((Assignment.trigger buf count).Ends s) := by
  refine wp_mono (wp_triggerStore hc hs hread) ?_
  rintro ret s' ⟨x, hclear, -, ⟨rfl, hpass, hgot, -⟩ | ⟨hneg, hbar, -, -⟩⟩
  · refine .inl ⟨rfl, hclear.log.trans hpass, fun p hp l hl => (hgot.lines l).mpr (.inl ?_)⟩
    rw [Assignment.pins, if_pos hread] at hp
    rw [List.mem_singleton.mp hp] at hl
    exact hl
  · exact .inr ⟨ne_count hneg, hclear.log.barred hbar⟩

theorem ends_echo {buf : List Char} {count : Nat} (hs : s.held = []) (hread : 0 < (sscanf buf).1) :
    wp (sem env) (fun _ => False) (echoStore buf count) s ((Assignment.echo buf count).Ends s) := by
  refine wp_mono (wp_echoStore hs hread) ?_
  rintro ret s' ⟨x, hclear, ⟨rfl, hpass, hgot, -⟩ | ⟨hneg, hfail⟩⟩
  · refine .inl ⟨rfl, hclear.log.trans hpass, fun p hp l hl => (hgot.lines l).mpr (.inl ?_)⟩
    rw [Assignment.pins, if_pos hread] at hp
    rw [List.mem_singleton.mp hp] at hl
    exact hl
  · exact .inr ⟨ne_count hneg, hclear.log.barred hfail.log⟩

/-- An assignment that sets no pin. -/
theorem owns_iff_unread (hpins : o.pins = []) :
    o.Owns env s ↔ (∀ p ∈ o.pins, ¬ NoRow p.2) ∨ ∃ e ∈ made env o.code s, Refused e := by
  refine iff_of_true (fun ret s' _ _ => ?_) (.inl ?_)
  · rw [hpins]
    exact nofun
  · rw [hpins]
    exact nofun

theorem Assignment.ends_code (o : Assignment) (hc : env.Coded) (hs : s.held = [])
    (hcopy : ¬ o.Uncopied env s) :
    wp (sem env) (fun _ => False) o.code s fun ret s' => o.pins = [] ∨ o.Ends s ret s' := by
  cases o with
  | setPins v pins => exact wp_mono (ends_setPins hs (not_ne_iff.mp hcopy)) fun _ _ => .inr
  | trigger buf count =>
      by_cases hread : 0 < (sscanf buf).1
      · exact wp_mono (ends_trigger hc hs hread) fun _ _ => .inr
      · exact wp_mono (triggerStore_unread hread) fun _ _ _ => .inl (if_neg hread)
  | echo buf count =>
      by_cases hread : 0 < (sscanf buf).1
      · exact wp_mono (ends_echo hs hread) fun _ _ => .inr
      · exact wp_mono (echoStore_unread hs hread) fun _ _ _ => .inl (if_neg hread)

end Assignments

/-- **AN ASSIGNMENT OWNS ITS PINS** exactly if every pin it sets is in the table, or it
    fails.  The loops over the table find nothing to request for any other pin, and
    nothing to complain of. -/
theorem assignment_owns_iff (o : Assignment) (env : Env) (hc : env.Coded) (s : St)
    (hs : s.held = []) :
    (¬ o.Uncopied env s → ∃ ret s', o.code.run (sem env) s = .ok (ret, s'))
      ∧ (o.Owns env s ↔ (∀ p ∈ o.pins, ¬ NoRow p.2)
        ∨ (∃ e ∈ made env o.code s, Refused e) ∨ o.Uncopied env s) := by
  by_cases hcopy : o.Uncopied env s
  · refine ⟨fun h => absurd hcopy h, iff_of_true ?_ (.inr (.inr hcopy))⟩
    cases o with
    | setPins v pins =>
        intro ret s' hrun
        exact absurd (copied_of_returns (o := (env, pins)) hs ⟨ret, hrun⟩) hcopy
    | trigger buf count => exact hcopy.elim
    | echo buf count => exact hcopy.elim
  · obtain ⟨ret, s', hrun, hend⟩ := run_of_wp (o.ends_code hc hs hcopy)
    refine ⟨fun _ => ⟨ret, s', hrun⟩, ?_⟩
    rw [or_iff_left hcopy]
    rcases hend with hpins | hend
    · exact owns_iff_unread hpins
    · exact hend.owns_iff hrun

theorem lineEnv_coded (busy : List Int) : (lineEnv busy).Coded := by
  intro log line
  refine ⟨?_, fun _ => Int.le_refl 0⟩
  show (if line ∈ busy ∨ Taken (gpios log) line then (-16 : Int) else 0) ≤ 0
  split <;> decide

/-- IO 7, whose Linux line is 38. -/
theorem assignment_owns_trigger :
    (lineEnv []).Coded ∧ fitted.held = []
      ∧ (Assignment.trigger ['3', '8', '\n'] 3).Owns (lineEnv []) fitted := by
  refine ⟨lineEnv_coded [], rfl, ?_⟩
  refine (assignment_owns_iff (.trigger ['3', '8', '\n'] 3) (lineEnv []) (lineEnv_coded []) fitted
    rfl).2.mpr (.inl ?_)
  decide

/-- There is no line 99 in the table. -/
theorem assignment_owns_nothing :
    ¬ ∀ (o : Assignment) (env : Env) (s : St), env.Coded → s.held = [] → o.Owns env s := by
  intro h
  obtain ⟨row, hrow, hpin, -⟩ := h (.setPins .misc ⟨99, 14⟩) (lineEnv []) fitted (lineEnv_coded [])
    rfl 0 _ rfl rfl ([.gpioPull], 99) List.mem_cons_self
  have hno : NoRow 99 := by decide
  exact hno row hrow hpin

/-! ## All or nothing -/

/-- The attributes that a store sets to a number. -/
inductive Attribute where
  | trigger
  | echo
  | mode
  | frequency

namespace Attribute

def store : Attribute → List Char → Nat → Code Int
  | .trigger => triggerStore
  | .echo => echoStore
  | .mode => modeStore
  | .frequency => frequencyStore

/-- The attribute has this value. -/
def Is (v : Int) (h : Hcsr) : Attribute → Prop
  | .trigger => h.pins.triggerPin = v
  | .echo => h.pins.echoPin = v
  | .mode => h.workingMode.mode = v
  | .frequency => h.workingMode.freq = BitVec.ofInt 32 v

/-- The device has nothing that the store would give up. -/
def Bare (h : Hcsr) : Attribute → Prop
  | .trigger => NoRow h.pins.triggerPin
  | .echo => h.irqDone ≠ irqDoneFlag
  | .mode => True
  | .frequency => True

end Attribute

/-- The lines and the interrupt of the device are those of its pins. -/
structure Owned (s : St) : Prop where
  held : s.held = []
  lines : ∀ line, HoldsLine s.log line ↔ line ∈ s.hcsr.pins.lines
  irqs : ∀ irq, Registered s.log irq ↔ s.hcsr.irqDone = irqDoneFlag ∧ irq = s.hcsr.echoIsrNumber
  echo : ¬ NoRow s.hcsr.pins.echoPin → s.hcsr.irqDone = irqDoneFlag

/-- The settings, the lines and the registrations are what they were. -/
structure Unchanged (s s' : St) : Prop where
  settings : s'.hcsr.settings = s.hcsr.settings
  lines : ∀ line, HoldsLine s'.log line ↔ HoldsLine s.log line
  irqs : ∀ irq, Registered s'.log irq ↔ Registered s.log irq

/-- The store sets the attribute to the number it read, or fails and changes nothing. -/
def Attribute.Atomic (a : Attribute) (buf : List Char) (count : Nat) (env : Env) (s : St) : Prop :=
  ∃ ret s', (a.store buf count).run (sem env) s = .ok (ret, s') ∧
    ((ret = count ∧ 0 < (sscanf buf).1 ∧ a.Is (sscanf buf).2 s'.hcsr) ∨ (ret < 0 ∧ Unchanged s s'))

/-- How a store ends that has read a number. -/
def Attribute.Ends (a : Attribute) (buf : List Char) (count : Nat) (s : St) (ret : Int) (s' : St) :
    Prop :=
  (ret = count ∧ Passed s.log s'.log ∧ a.Is (sscanf buf).2 s'.hcsr)
    ∨ (ret < 0 ∧ Passed s.log s'.log ∧ Unchanged s s')
    ∨ (ret < 0 ∧ Barred s.log s'.log
      ∧ (Unchanged s s' ↔ a.Bare s.hcsr ∧ steered s'.log = steered s.log))

section Atomic
variable {env : Env} {ok : Fault → Prop} {buf : List Char} {count : Nat} {s s' : St}
  {a : Attribute}

theorem Attribute.Ends.atomic_iff {ret : Int}
    (hrun : (a.store buf count).run (sem env) s = .ok (ret, s')) (hread : 0 < (sscanf buf).1)
    (hend : a.Ends buf count s ret s') : a.Atomic buf count env s ↔
      (∀ e ∈ made env (a.store buf count) s, ¬ Refused e)
        ∨ (a.Bare s.hcsr ∧ ∀ e ∈ made env (a.store buf count) s, steers e = false) := by
  rw [Attribute.Atomic, exists_run_iff hrun]
  rcases hend with ⟨hret, hpass, his⟩ | ⟨hneg, hpass, hsame⟩ | ⟨hneg, hbar, hiff⟩
  · exact iff_of_true (.inl ⟨hret, hread, his⟩) (.inl (passed_made hrun hpass))
  · exact iff_of_true (.inr ⟨hneg, hsame⟩) (.inl (passed_made hrun hpass))
  · obtain ⟨e, he, href⟩ := barred_made hrun hbar
    rw [or_iff_right fun h => ne_count hneg h.1, and_iff_right hneg,
      or_iff_right fun h => h e he href, ← steered_made hrun, hiff]

/-- The Linux line of a row is in no other row. -/
theorem eq_of_mem_trigLines {pin pin' : Int} (hpin : ¬ NoRow pin) (hmem : pin ∈ trigLines pin') :
    pin = pin' := by
  have hrows : ∀ row ∈ allPins, ∀ row' ∈ allPins,
      (row.at .gpioLinux).1 ∈ trigLines (row'.at .gpioLinux).1 →
        (row.at .gpioLinux).1 = (row'.at .gpioLinux).1 := by decide +kernel
  have hpin' : ¬ NoRow pin' := by
    intro hno
    rw [trigLines, (linesOf_eq_nil_iff (by decide) pin').mpr hno] at hmem
    cases hmem
  obtain ⟨row, hrow, rfl⟩ : ∃ row ∈ allPins, pin = (row.at .gpioLinux).1 := by
    simpa [NoRow] using hpin
  obtain ⟨row', hrow', rfl⟩ : ∃ row ∈ allPins, pin' = (row.at .gpioLinux).1 := by
    simpa [NoRow] using hpin'
  exact hrows row hrow row' hrow' hmem

/-- A failed `trigger_store`: the lines of the old pin come back only if there were none.
    If the new pin is the old one, at least one of its lines is missing. -/
theorem trigger_unchanged_iff (ho : Owned s) {x : List (Call × Int)} {ks : List Int}
    (hclear : Cleared (trigLines s.hcsr.pins.triggerPin) s.log x)
    (hbot : Botched (trigLines (sscanf buf).2) ks x s'.log)
    (hset : s'.hcsr.settings = s.hcsr.settings) (hirqs : irqs s'.log = irqs s.log) :
    Unchanged s s' ↔ NoRow s.hcsr.pins.triggerPin ∧ steered s'.log = steered s.log := by
  have hx := holdsLine_giveAll hclear.lines
  rw [← hclear.steered, ← hbot.same_iff hbot.fresh]
  constructor
  · intro hsame
    -- a line of the old pin was freed, so it is there only if it was granted again
    have hold : ∀ line ∈ trigLines s.hcsr.pins.triggerPin, line ∈ ks := by
      intro line hmem
      have hheld : HoldsLine s.log line := (ho.lines line).mpr (List.mem_append_left _ hmem)
      rcases (hbot.lines line).mp ((hsame.lines line).mpr hheld) with hks | hline
      · exact hks
      · exact absurd hmem ((hx line).mp hline).1
    have hno : NoRow s.hcsr.pins.triggerPin := by
      by_contra hrow
      have hskip : PinFunc.gpioLinux ∉ [PinFunc.gpioPull] := by decide
      have hne := mt (linesOf_eq_nil_iff hskip s.hcsr.pins.triggerPin).mp hrow
      obtain ⟨rest, hcons⟩ := (linesOf_head hskip s.hcsr.pins.triggerPin allPins
        allPins_linux).resolve_left hne
      have hpin : s.hcsr.pins.triggerPin ∈ trigLines s.hcsr.pins.triggerPin := by
        rw [trigLines, hcons]
        exact List.mem_cons_self
      have heq := eq_of_mem_trigLines hrow (hbot.sub (hold _ hpin))
      obtain ⟨line, htarget, hlacks⟩ := hbot.lacks
      rw [← heq] at htarget
      exact hlacks (hold line htarget)
    refine ⟨hno, fun line => ?_⟩
    rw [trigLines, (linesOf_eq_nil_iff (by decide) _).mpr hno] at hx
    rw [hsame.lines, hx, and_iff_right List.not_mem_nil]
  · rintro ⟨hno, hsame⟩
    refine ⟨hset, fun line => ?_, fun irq => by rw [Registered, hirqs, Registered]⟩
    rw [trigLines, (linesOf_eq_nil_iff (by decide) _).mpr hno] at hx
    rw [hsame, hx, and_iff_right List.not_mem_nil]

theorem ends_triggerStore (hc : env.Coded) (hk : env.Refusing) (ho : Owned s)
    (hread : 0 < (sscanf buf).1) :
    wp (sem env) ok (triggerStore buf count) s (Attribute.trigger.Ends buf count s) := by
  refine wp_mono (wp_triggerStore hc ho.held hread) ?_
  rintro ret s' ⟨x, hclear, hirqs, ⟨hret, hpass, -, hpin⟩ | ⟨hneg, hbar, hset, hleft⟩⟩
  · exact .inl ⟨hret, hclear.log.trans hpass, hpin⟩
  · obtain ⟨ks, hbot⟩ := hleft hk
    exact .inr (.inr ⟨hneg, hclear.log.barred hbar,
      trigger_unchanged_iff ho hclear hbot hset hirqs⟩)

/-- A failed `echo_store`: `irq_done` does not come back. -/
theorem echo_unchanged_iff (ho : Owned s) {x : List (Call × Int)}
    (hclear : Cleared (echoLines s.hcsr.pins.echoPin) s.log x) (hfail : EchoFailed env s x s')
    (hk : env.Refusing) :
    Unchanged s s' ↔ s.hcsr.irqDone ≠ irqDoneFlag ∧ steered s'.log = steered s.log := by
  obtain ⟨ks, hgot, hfresh⟩ := hfail.left hk
  have hx := holdsLine_giveAll hclear.lines
  rw [← hclear.steered, ← hgot.same_iff hfresh]
  have hlines (hdone : s.hcsr.irqDone ≠ irqDoneFlag) (line : Int) :
      HoldsLine x line ↔ HoldsLine s.log line := by
    have hno : NoRow s.hcsr.pins.echoPin := by_contra fun hrow => hdone (ho.echo hrow)
    rw [echoLines, (linesOf_eq_nil_iff (by decide) _).mpr hno] at hx
    rw [hx, and_iff_right List.not_mem_nil]
  constructor
  · intro hsame
    have hdone : s.hcsr.irqDone ≠ irqDoneFlag := by
      intro hflag
      have hafter : s'.hcsr.settings.irqDone = irqNotDoneFlag := by
        rw [hfail.settings]
        exact congrArg Settings.irqDone (if_pos hflag)
      rw [hsame.settings] at hafter
      exact absurd (hflag.symm.trans hafter) (by decide)
    exact ⟨hdone, fun line => by rw [hsame.lines, hlines hdone]⟩
  · rintro ⟨hdone, hsame⟩
    refine ⟨?_, fun line => by rw [hsame, hlines hdone], fun irq => ?_⟩
    · rw [hfail.settings, Settings.dropped]
      exact if_neg hdone
    · rw [Registered, hfail.irqs, givenUp, if_neg hdone, Registered]

theorem ends_echoStore (hk : env.Refusing) (ho : Owned s) (hread : 0 < (sscanf buf).1) :
    wp (sem env) ok (echoStore buf count) s (Attribute.echo.Ends buf count s) := by
  refine wp_mono (wp_echoStore ho.held hread) ?_
  rintro ret s' ⟨x, hclear, ⟨hret, hpass, -, hpin⟩ | ⟨hneg, hfail⟩⟩
  · exact .inl ⟨hret, hclear.log.trans hpass, hpin⟩
  · exact .inr (.inr ⟨hneg, hclear.log.barred hfail.log, echo_unchanged_iff ho hclear hfail hk⟩)

theorem Unchanged.refl (s : St) : Unchanged s s := ⟨rfl, fun _ => Iff.rfl, fun _ => Iff.rfl⟩

theorem ends_modeStore (hs : s.held = []) (hread : 0 < (sscanf buf).1) :
    wp (sem env) ok (modeStore buf count) s (Attribute.mode.Ends buf count s) := by
  rw [modeStore]
  split
  · exact .inr (.inl ⟨by decide, .refl _, .refl s⟩)
  · rw [if_neg (Int.not_le.mpr hread)]
    refine wp_mono (writes_storeConfig _ hs) ?_
    rintro ret s' ⟨hret, rfl⟩
    exact .inl ⟨hret, .refl _, rfl⟩

theorem ends_frequencyStore (hs : s.held = []) (hread : 0 < (sscanf buf).1) :
    wp (sem env) ok (frequencyStore buf count) s (Attribute.frequency.Ends buf count s) := by
  rw [frequencyStore, if_neg (Int.not_le.mpr hread)]
  split
  · exact .inr (.inl ⟨by decide, .refl _, .refl s⟩)
  · refine wp_mono (writes_storeConfig _ hs) ?_
    rintro ret s' ⟨hret, rfl⟩
    exact .inl ⟨hret, .refl _, rfl⟩

theorem Attribute.ends_store (a : Attribute) (hc : env.Coded) (hk : env.Refusing) (ho : Owned s)
    (hread : 0 < (sscanf buf).1) :
    wp (sem env) ok (a.store buf count) s (a.Ends buf count s) := by
  cases a with
  | trigger => exact ends_triggerStore hc hk ho hread
  | echo => exact ends_echoStore hk ho hread
  | mode => exact ends_modeStore ho.held hread
  | frequency => exact ends_frequencyStore ho.held hread

/-- Every store returns 0 where it finds no number. -/
theorem Attribute.store_unread (a : Attribute) (hs : s.held = []) (hread : ¬ 0 < (sscanf buf).1) :
    wp (sem env) ok (a.store buf count) s fun ret _ => ret = 0 := by
  cases a with
  | trigger => exact triggerStore_unread hread
  | echo => exact echoStore_unread hs hread
  | mode =>
      show wp _ _ (modeStore buf count) _ _
      rw [modeStore, sscanf_unread hread]
      rfl
  | frequency =>
      show wp _ _ (frequencyStore buf count) _ _
      rw [frequencyStore, sscanf_unread hread]
      rfl

theorem Attribute.not_atomic_unread (a : Attribute) (hs : s.held = [])
    (hread : ¬ 0 < (sscanf buf).1) : ¬ a.Atomic buf count env s := by
  rintro ⟨ret, s', hrun, hor⟩
  have hwp : wp (sem env) (fun _ => False) (a.store buf count) s fun ret _ => ret = 0 :=
    a.store_unread hs hread
  rw [wp, hrun] at hwp
  rcases hor with ⟨-, h, -⟩ | ⟨hneg, -⟩
  · exact hread h
  · exact absurd hneg (by rw [show ret = 0 from hwp]; decide)

end Atomic

/-- **A STORE IS DONE AS A WHOLE OR NOT AT ALL** exactly if it finds a number, and
    nothing is refused, or the refusal comes before a direction was set and the device
    had nothing that the store gives up first: no trigger pin in the table, or no
    `irq_done`. -/
theorem store_atomic_iff (a : Attribute) (buf : List Char) (count : Nat) (env : Env)
    (hc : env.Coded) (hk : env.Refusing) (s : St) (ho : Owned s) :
    a.Atomic buf count env s ↔ 0 < (sscanf buf).1 ∧
      ((∀ e ∈ made env (a.store buf count) s, ¬ Refused e)
        ∨ (a.Bare s.hcsr ∧ ∀ e ∈ made env (a.store buf count) s, steers e = false)) := by
  by_cases hread : 0 < (sscanf buf).1
  · obtain ⟨ret, s', hrun, hend⟩ := run_of_wp (a.ends_store hc hk ho hread)
    rw [and_iff_right hread]
    exact hend.atomic_iff hrun hread
  · exact iff_of_false (a.not_atomic_unread ho.held hread) fun h => hread h.1

theorem owned_fitted : Owned fitted where
  held := rfl
  lines := fitted_lines
  irqs irq := by
    refine ⟨fitted_sole irq, ?_⟩
    rintro ⟨-, rfl⟩
    exact .inl ⟨rfl, rfl⟩
  echo _ := rfl

/-- The device after the probe. -/
theorem owned_initialSt : Owned (initialSt .sysfs) := by
  have hlines : (initialSt .sysfs).hcsr.pins.lines = [] := by decide
  refine ⟨rfl, fun line => ?_, fun irq => iff_of_false id ?_, fun h => absurd ?_ h⟩
  · rw [hlines]
    exact iff_of_false id List.not_mem_nil
  · exact fun h => absurd h.1 (by decide)
  · decide

/-- A first trigger pin, whose line is in use. -/
theorem store_atomic_refused :
    (lineEnv [13]).Coded ∧ (lineEnv [13]).Refusing ∧ Owned (initialSt .sysfs)
      ∧ Attribute.trigger.Atomic ['1', '3', '\n'] 3 (lineEnv [13]) (initialSt .sysfs) := by
  refine ⟨lineEnv_coded [13], lineEnv_refusing [13], owned_initialSt, ?_⟩
  refine (store_atomic_iff .trigger ['1', '3', '\n'] 3 (lineEnv [13]) (lineEnv_coded [13])
    (lineEnv_refusing [13]) (initialSt .sysfs) owned_initialSt).mpr ⟨by decide, .inr ⟨?_, ?_⟩⟩
  · show NoRow (-1)
    decide
  · decide +kernel

/-- A text that is no number: `trigger_store` returns 0, which is neither `count` nor an
    error. -/
theorem store_not_atomic :
    ¬ ∀ (a : Attribute) (buf : List Char) (count : Nat) (env : Env) (s : St), env.Coded →
      env.Refusing → Owned s → a.Atomic buf count env s := by
  intro h
  exact Attribute.not_atomic_unread .trigger rfl (by decide)
    (h .trigger ['x', '\n'] 2 (lineEnv []) fitted (lineEnv_coded []) (lineEnv_refusing [])
      owned_fitted)

end HcSr04
