import KernelRocks.HcSr04IrqProofs

/-! # What a device is left with

    The lines of one device, read off the calls it made.  `setTrig` and `setEcho`
    request the lines of a row one after the other and set the direction of each;
    where a call is refused they leave the loop with the lines they have, and free
    at most the Linux line.

    * `acquires_setTrig`, `acquires_setEcho`: the lines of the pin are all there, or
      which ones a refused call leaves behind.
    * `assigned_setPinsOf`: the same for a whole SETPINS of either driver.
    * `setpins_leaves_nothing_iff`: a SETPINS that fails leaves nothing behind exactly
      if it fails before any direction is set. -/

namespace HcSr04

open Program Ledger

/-! ## The lines of one device -/

/-- What a call says about a line. -/
def gpioMove : Call × Int → Option (Move Unit Int)
  | (.gpioRequest line, ret) => if ret = 0 then some (.take () line) else none
  | (.gpioFree line, _) => some (.give () line)
  | _ => none

/-- The moves of the gpio lines. -/
def gpios (log : List (Call × Int)) : List (Move Unit Int) := log.filterMap gpioMove

/-- The device holds the line. -/
def HoldsLine (log : List (Call × Int)) (line : Int) : Prop := Holds () (gpios log) line

/-- `gpio_request` fails for a line that the device already has. -/
def Env.Refusing (env : Env) : Prop :=
  ∀ log line, HoldsLine log line → env.answer log (.gpioRequest line) ≠ 0

/-- A call that sets a direction and is not refused. -/
def steers : Call × Int → Bool
  | (.gpioDirectionOutput line _, ret) => !decide (Checked line ∧ ret ≠ 0)
  | (.gpioDirectionInput line, ret) => !decide (Checked line ∧ ret ≠ 0)
  | _ => false

/-- How often a direction was set. -/
def steered (log : List (Call × Int)) : Nat := log.countP steers

section Log
variable {log : List (Call × Int)}

theorem gpios_granted (line : Int) :
    gpios ((.gpioRequest line, 0) :: log) = .take () line :: gpios log := rfl

theorem gpios_cons {e : Call × Int} (he : gpioMove e = none) : gpios (e :: log) = gpios log :=
  List.filterMap_cons_none he

theorem steered_cons {e : Call × Int} (he : steers e = false) : steered (e :: log) = steered log :=
  List.countP_cons_of_neg (by rw [he]; exact Bool.false_ne_true)

theorem steered_cons_true {e : Call × Int} (he : steers e = true) :
    steered (e :: log) = steered log + 1 :=
  List.countP_cons_of_pos he

/-- The directions set are counted along the log. -/
theorem steered_append (new : List (Call × Int)) :
    steered (new ++ log) = steered new + steered log := List.countP_append

/-- A call that sets a direction steers unless it is refused. -/
theorem Directs.steers_iff {direction : PinFunc → Int × Int → Call} (hdir : Directs direction)
    (hc : ∀ m p, (∃ value, direction m p = .gpioDirectionOutput p.1 value)
      ∨ direction m p = .gpioDirectionInput p.1) (m : PinFunc) (p : Int × Int) (ret : Int) :
    steers (direction m p, ret) = true ↔ ¬ Refused (direction m p, ret) := by
  rw [hdir.refused]
  rcases hc m p with ⟨value, h⟩ | h
  · rw [h, steers, Bool.not_eq_true', decide_eq_false_iff_not]
  · rw [h, steers, Bool.not_eq_true', decide_eq_false_iff_not]

end Log

/-! ## The loops -/

/-- The configuration and `irq_done`. -/
structure Settings where
  pins : PinSet
  workingMode : ModeSet
  enable : Int
  irqDone : Int

/-- The settings of a device. -/
def Hcsr.settings (h : Hcsr) : Settings := ⟨h.pins, h.workingMode, h.enable, h.irqDone⟩

/-- Only calls about lines were made. -/
structure Undisturbed (s s' : St) : Prop where
  settings : s'.hcsr.settings = s.hcsr.settings
  held : s'.held = s.held
  irqs : irqs s'.log = irqs s.log

/-- The lines in `ls` were granted, and their directions set. -/
structure Took (env : Env) (ls : List Int) (s s' : St) : Prop extends Undisturbed s s' where
  lines : gpios s'.log = takeAll () ls (gpios s.log)
  granted : env.Refusing → Granted () ls (gpios s.log) (gpios s'.log)
  steered : steered s'.log = steered s.log + ls.length
  log : Passed s.log s'.log

/-- The lines in `ls` were freed, and no direction set. -/
structure Cleared (ls : List Int) (x y : List (Call × Int)) : Prop where
  lines : gpios y = giveAll () ls (gpios x)
  steered : steered y = steered x
  log : Passed x y

structure Gave (ls : List Int) (s s' : St) : Prop extends Undisturbed s s', Cleared ls s.log s'.log

/-- The loop over `target` was left behind the lines `ls`: the next one was refused, or
    the direction of the last one. -/
def StoppedAt (target ls : List Int) (s : St) : Leave → St → Prop
  | .request _, s' =>
      (∃ r rest, target = ls ++ r :: rest) ∧ steered s'.log = steered s.log + ls.length
  | .oper _, s' => ls ≠ [] ∧ (∃ rest, target = ls ++ rest)
      ∧ steered s'.log + 1 = steered s.log + ls.length

/-- ... with these lines granted. -/
structure Stopped (env : Env) (target ls : List Int) (s : St) (x : Leave) (s' : St) : Prop
    extends Undisturbed s s' where
  granted : env.Refusing → Granted () ls (gpios s.log) (gpios s'.log)
  ret : x.ret ≠ 0
  log : Barred s.log s'.log
  place : StoppedAt target ls s x s'

section Loops
variable {env : Env} {ok : Fault → Prop}

theorem Undisturbed.refl (s : St) : Undisturbed s s := ⟨rfl, rfl, rfl⟩

theorem Undisturbed.trans {s s₁ s₂ : St} (h₁ : Undisturbed s s₁) (h₂ : Undisturbed s₁ s₂) :
    Undisturbed s s₂ :=
  ⟨h₂.settings.trans h₁.settings, h₂.held.trans h₁.held, h₂.irqs.trans h₁.irqs⟩

theorem Undisturbed.pins {s s' : St} (h : Undisturbed s s') : s'.hcsr.pins = s.hcsr.pins :=
  congrArg Settings.pins h.settings

/-- Two lists are given back one behind the other. -/
theorem Cleared.trans {ls ks : List Int} {x y z : List (Call × Int)} (h₁ : Cleared ls x y)
    (h₂ : Cleared ks y z) : Cleared (ls ++ ks) x z := by
  refine ⟨?_, h₂.steered.trans h₁.steered, h₁.log.trans h₂.log⟩
  rw [h₂.lines, h₁.lines, giveAll_append]

theorem Gave.trans {ls ks : List Int} {s s₁ s₂ : St} (h₁ : Gave ls s s₁) (h₂ : Gave ks s₁ s₂) :
    Gave (ls ++ ks) s s₂ :=
  ⟨h₁.toUndisturbed.trans h₂.toUndisturbed, h₁.toCleared.trans h₂.toCleared⟩

/-- Two lists are taken one behind the other. -/
theorem Took.trans {ls ks : List Int} {s s₁ s₂ : St} (h₁ : Took env ls s s₁)
    (h₂ : Took env ks s₁ s₂) : Took env (ls ++ ks) s s₂ := by
  refine ⟨h₁.toUndisturbed.trans h₂.toUndisturbed, ?_,
    fun hk => (h₁.granted hk).trans (h₂.granted hk), ?_, h₁.log.trans h₂.log⟩
  · rw [h₂.lines, h₁.lines, takeAll_append]
  · rw [h₂.steered, h₁.steered, List.length_append, Nat.add_assoc]

/-- The loops that free lines free those of each row. -/
theorem gave_rounds : Rounds Gave fun _ _ _ => False where
  nil s := ⟨.refl s, rfl, rfl, .refl _⟩
  trans := Gave.trans
  leave _ hE := hE

/-- The loops that request lines stop at the first that is refused. -/
theorem took_rounds :
    RoundsIn (Took env) fun target s x s' => ∃ ls, Stopped env target ls s x s' where
  nil s := ⟨.refl s, rfl, fun _ => .nil, rfl, .refl _⟩
  trans := Took.trans
  leave := by
    rintro ls ks s s₁ x s₂ h₁ ⟨ks', h₂⟩
    refine ⟨ls ++ ks', h₁.toUndisturbed.trans h₂.toUndisturbed,
      fun hk => (h₁.granted hk).trans (h₂.granted hk), h₂.ret, h₁.log.barred h₂.log, ?_⟩
    have hplace := h₂.place
    have hst := h₁.steered
    cases x with
    | request ret =>
        obtain ⟨⟨r, rest, rfl⟩, hsteer⟩ := hplace
        refine ⟨⟨r, rest, (List.append_assoc ..).symm⟩, ?_⟩
        rw [hsteer, hst, List.length_append, Nat.add_assoc]
    | oper ret =>
        obtain ⟨hne, ⟨rest, rfl⟩, hsteer⟩ := hplace
        refine ⟨List.append_ne_nil_of_right_ne_nil ls hne, ⟨rest, (List.append_assoc ..).symm⟩, ?_⟩
        rw [hsteer, hst, List.length_append, Nat.add_assoc]
  early := by
    rintro ls ks s x s' ⟨ls', h⟩
    refine ⟨ls', h.toUndisturbed, h.granted, h.ret, h.log, ?_⟩
    have hplace := h.place
    cases x with
    | request ret =>
        obtain ⟨⟨r, rest, rfl⟩, hsteer⟩ := hplace
        exact ⟨⟨r, rest ++ ks, by simp⟩, hsteer⟩
    | oper ret =>
        obtain ⟨hne, ⟨rest, rfl⟩, hsteer⟩ := hplace
        exact ⟨hne, ⟨rest ++ ks, by simp⟩, hsteer⟩

/-- The calls by which a loop sets directions. -/
structure Steering (direction : PinFunc → Int × Int → Call) : Prop extends Directs direction where
  gpio : ∀ m p ret, gpioMove (direction m p, ret) = none
  steers : ∀ m p ret, steers (direction m p, ret) = true ↔ ¬ Refused (direction m p, ret)

/-- The calls on the trigger's rows move no line. -/
theorem steering_trig : Steering trigDirection := by
  refine ⟨directs_trig, ?_, ?_⟩
  · intro m p ret
    cases m <;> rfl
  · refine directs_trig.steers_iff fun m p => .inl ?_
    cases m <;> exact ⟨_, rfl⟩

theorem steering_echo : Steering echoDirection := by
  refine ⟨directs_echo, ?_, ?_⟩
  · intro m p ret
    cases m <;> rfl
  · refine directs_echo.steers_iff fun m p => ?_
    cases m with
    | gpioLinux => exact .inr rfl
    | gpioLevel => exact .inl ⟨_, rfl⟩
    | gpioPull => exact .inl ⟨_, rfl⟩
    | gpioMux0 => exact .inl ⟨_, rfl⟩
    | gpioMux1 => exact .inl ⟨_, rfl⟩

/-- With one party, what is taken is what it holds. -/
theorem taken_iff_holds {h : List (Move Unit Int)} {l : Int} : Taken h l ↔ Holds () h l := by
  induction h with
  | nil => exact Iff.rfl
  | cons move h ih =>
      cases move with
      | take d k => simp [Taken, Holds, ih]
      | give d k => simp [Taken, Holds, ih]

/-- One round: a line is requested, and its direction set. -/
theorem took_setBody {direction : PinFunc → Int × Int → Call} (hdir : Steering direction)
    {skip : List PinFunc} {row : PinRow} (hrow : row ∈ allPins) (m : PinFunc) (s : St) :
    wp (sem env) ok (setBody skip direction row m) s
      (EndedIn (Took env) (fun target s x s' => ∃ ls, Stopped env target ls s x s')
        (lineIn skip row m) s) := by
  rw [setBody, lineIn]
  split
  · exact took_rounds.nil s
  · rename_i hline
    have hchecked := checked_iff hrow (not_or.mp hline).2
    rw [wp_bind, wp_call]
    split
    · rename_i hret
      have hno : gpioMove (.gpioRequest (row.at m).1, env.answer s.log (.gpioRequest (row.at m).1))
          = none := if_neg hret
      refine ⟨[], ⟨rfl, rfl, rfl⟩, fun _ => ?_, hret, .one hret, ⟨⟨_, [], rfl⟩, steered_cons rfl⟩⟩
      show Granted () [] (gpios s.log) (gpios (_ :: s.log))
      rw [gpios_cons hno]
      exact .nil
    · rename_i hret
      have hgrant : env.answer s.log (.gpioRequest (row.at m).1) = 0 := not_ne_iff.mp hret
      have hfree (hk : env.Refusing) : ¬ Taken (gpios s.log) (row.at m).1 :=
        fun ht => hk _ _ (taken_iff_holds.mp ht) hgrant
      rw [hgrant, wp_bind, wp_call]
      have hreq : Passed s.log ((.gpioRequest (row.at m).1, 0) :: s.log) := .one fun h => h rfl
      have hgpios (ret : Int) :
          gpios ((direction m (row.at m), ret) :: (.gpioRequest (row.at m).1, 0) :: s.log)
            = .take () (row.at m).1 :: gpios s.log := by
        rw [gpios_cons (hdir.gpio _ _ _), gpios_granted]
      have hgot (ret : Int) (hk : env.Refusing) : Granted () [(row.at m).1] (gpios s.log)
          (gpios ((direction m (row.at m), ret) :: (.gpioRequest (row.at m).1, 0) :: s.log)) := by
        rw [hgpios ret]
        exact .one (hfree hk)
      generalize env.answer _ (direction m (row.at m)) = ret
      split
      · rename_i hbad
        have href : Refused (direction m (row.at m), ret) :=
          (hdir.refused _ _ _).mpr ⟨hchecked.mpr hbad.1, hbad.2⟩
        refine ⟨[(row.at m).1], ⟨rfl, rfl, irqs_cons (hdir.irq _ _ _)⟩, hgot _, hbad.2,
          hreq.barred (.one href), List.cons_ne_nil _ _, ⟨[], rfl⟩, ?_⟩
        have hsteer : steers (direction m (row.at m), ret) = false :=
          Bool.eq_false_iff.mpr fun hst => (hdir.steers _ _ _).mp hst href
        show steered (_ :: _ :: s.log) + 1 = steered s.log + 1
        rw [steered_cons hsteer, steered_cons rfl]
      · rename_i hgood
        have hno : ¬ Refused (direction m (row.at m), ret) := by
          intro href
          obtain ⟨hc, hne⟩ := (hdir.refused _ _ _).mp href
          exact hgood ⟨hchecked.mp hc, hne⟩
        refine ⟨⟨rfl, rfl, irqs_cons (hdir.irq _ _ _)⟩, hgpios _, hgot _, ?_, hreq.trans (.one hno)⟩
        show steered (_ :: _ :: s.log) = steered s.log + 1
        rw [steered_cons_true ((hdir.steers _ _ _).mpr hno), steered_cons rfl]

/-- All rounds. -/
theorem took_setRows {direction : PinFunc → Int × Int → Call} (hdir : Steering direction)
    (skip : List PinFunc) (pin : Int) (s : St) :
    wp (sem env) ok (eachRow pin (setBody skip direction) allPins) s
      (EndedIn (Took env) (fun target s x s' => ∃ ls, Stopped env target ls s x s')
        (linesOf skip pin allPins) s) :=
  wp_eachRowIn took_rounds allPins
    (fun _ hrow _ => wp_eachFuncIn took_rounds (took_setBody hdir hrow) pinFuncs) s

/-- `freeTrig` gives back the lines of its pin. -/
theorem gave_freeTrig (pin : Int) (s : St) :
    wp (sem env) ok (freeTrig pin) s fun _ s' => Gave (trigLines pin) s s' := by
  rw [freeTrig, wp_bind]
  exact wp_eachRow_free gave_rounds
    (fun _ _ => ⟨⟨rfl, rfl, rfl⟩, rfl, rfl, .one id⟩) _ pin allPins s

/-- So does `freeEcho`. -/
theorem gave_freeEcho (pin : Int) (s : St) :
    wp (sem env) ok (freeEcho pin) s fun _ s' => Gave (echoLines pin) s s' := by
  rw [freeEcho, wp_bind]
  exact wp_eachRow_free gave_rounds
    (fun _ _ => ⟨⟨rfl, rfl, rfl⟩, rfl, rfl, .one id⟩) _ pin allPins s

end Loops

/-! ## The functions -/

/-- The first line of a pin is the pin. -/
theorem linesOf_head {skip : List PinFunc} (hskip : .gpioLinux ∉ skip) (pin : Int)
    (rows : List PinRow) (hrows : ∀ row ∈ rows, (row.at .gpioLinux).1 ≠ -1) :
    linesOf skip pin rows = [] ∨ ∃ rest, linesOf skip pin rows = pin :: rest := by
  induction rows with
  | nil => exact .inl rfl
  | cons row rows ih =>
      rw [linesOf, List.flatMap_cons, ← linesOf]
      by_cases hpin : pin ≠ (row.at .gpioLinux).1
      · rw [if_pos hpin]
        exact ih fun row' hmem => hrows row' (List.mem_cons_of_mem _ hmem)
      · have hpin := not_ne_iff.mp hpin
        have hlinux : lineIn skip row .gpioLinux = [pin] := by
          rw [lineIn, if_neg (not_or.mpr ⟨hskip, hrows row List.mem_cons_self⟩), hpin]
        rw [if_neg (not_ne_iff.mpr hpin), rowLines, pinFuncs, List.flatMap_cons, hlinux]
        exact .inr ⟨_, rfl⟩

/-- No line is in two places of a row. -/
theorem linesOf_nodup {skip : List PinFunc} (hskip : skip = [] ∨ skip = [.gpioPull]) (pin : Int) :
    (linesOf skip pin allPins).Nodup := by
  by_cases hno : NoRow pin
  · have hlinux : .gpioLinux ∉ skip := by rcases hskip with rfl | rfl <;> decide
    rw [(linesOf_eq_nil_iff hlinux pin).mpr hno]
    exact List.nodup_nil
  · have htrig : ∀ row ∈ allPins, (linesOf [.gpioPull] (row.at .gpioLinux).1 allPins).Nodup := by
      decide
    have hecho : ∀ row ∈ allPins, (linesOf [] (row.at .gpioLinux).1 allPins).Nodup := by decide
    obtain ⟨row, hrow, hpin⟩ : ∃ row ∈ allPins, pin = (row.at .gpioLinux).1 := by
      simpa [NoRow] using hno
    rw [hpin]
    rcases hskip with rfl | rfl
    · exact hecho row hrow
    · exact htrig row hrow

/-- Between `x` and `y` the device got the lines `ls`, one for every direction that was
    set. -/
structure Gained (ls : List Int) (x y : List (Call × Int)) : Prop where
  lines : ∀ l, HoldsLine y l ↔ l ∈ ls ∨ HoldsLine x l
  steered : steered y = steered x + ls.length

/-- What a failure leaves: the lines `ks`, which are not all of `target`. -/
structure Botched (target ks : List Int) (x y : List (Call × Int)) : Prop
    extends Gained ks x y where
  fresh : ∀ l ∈ ks, ¬ HoldsLine x l
  sub : ks ⊆ target
  lacks : ∃ l ∈ target, l ∉ ks

/-- How `setTrig` and `setEcho` end. -/
def Acquires (env : Env) (target : List Int) (s : St) (ret : Int) (s' : St) : Prop :=
  (ret = 0 ∧ Took env target s s')
    ∨ (ret ≠ 0 ∧ Undisturbed s s' ∧ Barred s.log s'.log
      ∧ (env.Refusing → ∃ ks, Botched target ks s.log s'.log))

section Functions
variable {env : Env} {ok : Fault → Prop} {target ls ks : List Int} {s s' s₁ : St}
  {x y z : List (Call × Int)}

/-- Gains add up. -/
theorem Gained.trans (h₁ : Gained ls x y) (h₂ : Gained ks y z) : Gained (ls ++ ks) x z := by
  refine ⟨fun l => ?_, ?_⟩
  · rw [h₂.lines, h₁.lines, List.mem_append, or_left_comm, or_assoc]
  · rw [h₂.steered, h₁.steered, List.length_append, Nat.add_assoc]

theorem holdsLine_takeAll (h : gpios y = takeAll () ls (gpios x)) (l : Int) :
    HoldsLine y l ↔ l ∈ ls ∨ HoldsLine x l := by
  rw [HoldsLine, h, holds_takeAll, HoldsLine]
  simp only [true_and]

theorem holdsLine_giveAll (h : gpios y = giveAll () ls (gpios x)) (l : Int) :
    HoldsLine y l ↔ l ∉ ls ∧ HoldsLine x l := by
  rw [HoldsLine, h, holds_giveAll, HoldsLine]
  simp only [true_and]

/-- What was taken is gained. -/
theorem Took.gained (h : Took env ls s s') : Gained ls s.log s'.log :=
  ⟨holdsLine_takeAll h.lines, h.steered⟩

theorem granted_fresh (h : Granted () ls (gpios x) (gpios y)) : ∀ l ∈ ls, ¬ HoldsLine x l :=
  fun l hl hheld => h.free l hl (taken_iff_holds.mpr hheld)

/-- A line was refused: those before it stay. -/
theorem Stopped.botched {ret : Int} (h : Stopped env target ls s (.request ret) s')
    (hn : target.Nodup) (hk : env.Refusing) : Botched target ls s.log s'.log := by
  have hgot := h.granted hk
  obtain ⟨⟨r, rest, rfl⟩, hsteer⟩ := h.place
  have hlast : r ∉ ls := fun hr => List.disjoint_of_nodup_append hn hr List.mem_cons_self
  refine ⟨⟨holdsLine_takeAll hgot.moves, hsteer⟩, granted_fresh hgot, ?_, r, ?_, hlast⟩
  · exact List.subset_append_left _ _
  · exact List.mem_append_right ls List.mem_cons_self

/-- A direction was refused: the first line is freed, and the others stay. -/
theorem Stopped.botched_freed {ret : Int} {pin : Int} {rest : List Int}
    (h : Stopped env (pin :: rest) ls s (.oper ret) s') (hk : env.Refusing) (a : Int) :
    Botched (pin :: rest) ls.tail s.log ((.gpioFree pin, a) :: s'.log) := by
  have hgot := h.granted hk
  have hfresh := granted_fresh hgot
  have hnodup := hgot.nodup
  have hheld := holdsLine_takeAll hgot.moves
  obtain ⟨hne, ⟨more, htarget⟩, hsteer⟩ := h.place
  cases ls with
  | nil => exact absurd rfl hne
  | cons k ks =>
      obtain ⟨rfl, rfl⟩ := List.cons.inj htarget
      have hpin : pin ∉ ks := (List.nodup_cons.mp hnodup).1
      refine ⟨⟨fun l => ?_, Nat.succ.inj hsteer⟩, ?_, ?_, pin, List.mem_cons_self, hpin⟩
      · show ¬ ((() : Unit) = () ∧ pin = l) ∧ HoldsLine s'.log l ↔ l ∈ ks ∨ HoldsLine s.log l
        rw [hheld, List.mem_cons]
        constructor
        · rintro ⟨hnot, (rfl | hmem) | hold⟩
          · exact absurd ⟨rfl, rfl⟩ hnot
          · exact .inl hmem
          · exact .inr hold
        · rintro (hmem | hold)
          · exact ⟨fun he => hpin (he.2 ▸ hmem), .inl (.inr hmem)⟩
          · exact ⟨fun he => hfresh pin List.mem_cons_self (he.2 ▸ hold), .inr hold⟩
      · exact fun l hl => hfresh l (List.mem_cons_of_mem _ hl)
      · exact fun l hl => List.mem_cons_of_mem _ (List.mem_append_left _ hl)

/-- The label `ERR_OPER_RETURN`. -/
theorem acquires_freed {skip : List PinFunc} (hskip : .gpioLinux ∉ skip) {pin ret a : Int}
    (hend : ∃ ls, Stopped env (linesOf skip pin allPins) ls s (.oper ret) s₁) (ha : a ≠ 0) :
    wp (sem env) ok (do
      let _ ← call (.gpioFree pin)
      return a) s₁ (Acquires env (linesOf skip pin allPins) s) := by
  obtain ⟨ls, h⟩ := hend
  rw [wp_bind, wp_call]
  refine .inr ⟨ha, ⟨h.settings, h.held, h.irqs⟩, h.log.cons _, fun hk => ?_⟩
  rcases linesOf_head hskip pin allPins allPins_linux with hnil | ⟨rest, hcons⟩
  · obtain ⟨hne, ⟨rest, htarget⟩, -⟩ := h.place
    rw [hnil] at htarget
    exact absurd (List.append_eq_nil_iff.mp htarget.symm).1 hne
  · rw [hcons] at h ⊢
    exact ⟨ls.tail, h.botched_freed hk _⟩

theorem acquires_refused {ret a : Int} (hn : target.Nodup)
    (hend : ∃ ls, Stopped env target ls s (.request ret) s') (ha : a ≠ 0) :
    Acquires env target s a s' := by
  obtain ⟨ls, h⟩ := hend
  exact .inr ⟨ha, h.toUndisturbed, h.log, fun hk => ⟨ls, h.botched hn hk⟩⟩

/-- `setTrig` acquires the lines of the pin, or stops on the way. -/
theorem acquires_setTrig (pin : Int) (s : St) :
    wp (sem env) ok (setTrig pin) s (Acquires env (trigLines pin) s) := by
  rw [setTrig, wp_bind]
  refine wp_mono (took_setRows steering_trig _ pin s) ?_
  intro out s₁ hend
  rcases out with _ | ⟨ret⟩ | ⟨ret⟩
  · exact .inl ⟨rfl, hend⟩
  · exact acquires_freed (by decide) hend hend.choose_spec.ret
  · exact acquires_refused (linesOf_nodup (.inr rfl) pin) hend hend.choose_spec.ret

theorem Misc.acquires_setTrig (pin : Int) (s : St) :
    wp (sem env) ok (Misc.setTrig pin) s (Acquires env (trigLines pin) s) := by
  rw [Misc.setTrig, wp_bind]
  refine wp_mono (took_setRows steering_trig _ pin s) ?_
  intro out s₁ hend
  rcases out with _ | ⟨ret⟩ | ⟨ret⟩
  · exact .inl ⟨rfl, hend⟩
  · exact acquires_freed (by decide) hend (by decide)
  · exact acquires_refused (linesOf_nodup (.inr rfl) pin) hend (by decide)

/-- So does `setEcho`. -/
theorem acquires_setEcho (pin : Int) (s : St) :
    wp (sem env) ok (setEcho pin) s (Acquires env (echoLines pin) s) := by
  rw [setEcho, wp_bind]
  refine wp_mono (took_setRows steering_echo _ pin s) ?_
  intro out s₁ hend
  rcases out with _ | ⟨ret⟩ | ⟨ret⟩
  · exact .inl ⟨rfl, hend⟩
  · exact acquires_freed (by decide) hend (by decide)
  · exact acquires_refused (linesOf_nodup (.inl rfl) pin) hend (by decide)

/-! ## SETPINS -/

/-- No line and no direction was touched. -/
structure Spared (x y : List (Call × Int)) : Prop where
  lines : gpios y = gpios x
  steered : steered y = steered x

theorem Gained.spared (h : Gained ls x y) (hs : Spared y z) : Gained ls x z := by
  refine ⟨fun l => ?_, hs.steered.trans h.steered⟩
  rw [HoldsLine, hs.lines]
  exact h.lines l

/-- The interrupt line is no gpio line. -/
theorem spared_setISR (s : St) :
    wp (sem env) ok setISR s fun ret s' =>
      ret ≤ 0 ∧ Spared s.log s'.log ∧ s'.hcsr.settings = s.hcsr.settings := by
  rw [setISR, wp_bind, wp_load, wp_bind, wp_call]
  split
  · exact ⟨by decide, ⟨rfl, rfl⟩, rfl⟩
  · rw [wp_bind, wp_store, wp_bind, wp_load, wp_bind, wp_call]
    split
    · exact ⟨by decide, ⟨rfl, rfl⟩, rfl⟩
    · exact ⟨by decide, ⟨rfl, rfl⟩, rfl⟩

/-- How SETPINS ends, once the lines of the old pins are freed: with all the lines of
    its pins, or with those that were granted before something was refused. -/
def Assigned (env : Env) (pins : PinSet) (x : List (Call × Int)) (ret : Int) (s' : St) : Prop :=
  (ret = 0 ∧ Passed x s'.log ∧ Gained pins.lines x s'.log)
    ∨ (ret ≠ 0 ∧ Barred x s'.log ∧ s'.hcsr.pins = noPins
      ∧ (env.Refusing → ∃ ks, Gained ks x s'.log))

theorem took_load (s : St) :
    Took env [] s { s with hcsr := s.hcsr.seen env s.reads, reads := s.reads + 1 } :=
  ⟨⟨rfl, rfl, rfl⟩, rfl, fun _ => .nil, rfl, .refl _⟩

/-- The error exit forgets the pins, and frees nothing. -/
theorem assigned_errSetpinReturn {pins : PinSet} {ret : Int} (hret : ret ≠ 0)
    (hs : s.held = [.irqDone]) (hlog : Barred x s.log)
    (hleft : env.Refusing → ∃ ks, Gained ks x s.log) :
    wp (sem env) ok (errSetpinReturn false ret) s (Assigned env pins x) := by
  rw [errSetpinReturn, wp_bind, storeUnless, if_neg Bool.false_ne_true, wp_store, wp_bind,
    storeUnless, if_neg Bool.false_ne_true, wp_store, wp_bind, wp_unlock, hs]
  refine ⟨fun _ => .inr ⟨hret, hlog, rfl, hleft⟩, ?_⟩
  exact fun hl => absurd List.mem_cons_self hl

/-- SETPINS from where the old lines are given back. -/
theorem assigned_requestPins {setTrig : Int → Code Int}
    (hset : ∀ pin s, wp (sem env) ok (setTrig pin) s (Acquires env (trigLines pin) s))
    (hs : s.held = [.irqDone]) :
    wp (sem env) ok (requestPinsWith setTrig) s (Assigned env s.hcsr.pins s.log) := by
  rw [requestPinsWith, wp_bind, wp_load, wp_bind]
  refine wp_mono (hset _ _) ?_
  rintro ret s₁ (⟨rfl, h₁⟩ | ⟨hret, hu, hlog, hleft⟩)
  swap
  · rw [if_pos hret]
    refine assigned_errSetpinReturn hret (hu.held.trans hs) hlog fun hk => ?_
    obtain ⟨ks, hks⟩ := hleft hk
    exact ⟨ks, hks.toGained⟩
  replace h₁ := (took_load s).trans h₁
  rw [if_neg (by decide), wp_bind, wp_load, wp_bind]
  refine wp_mono (acquires_setEcho _ _) ?_
  rintro ret s₂ (⟨rfl, h₂⟩ | ⟨hret, hu, hlog, hleft⟩)
  swap
  · rw [if_pos hret]
    refine assigned_errSetpinReturn hret (hu.held.trans (h₁.held.trans hs)) (h₁.log.barred hlog)
      fun hk => ?_
    obtain ⟨ks, hks⟩ := hleft hk
    exact ⟨_, h₁.gained.trans hks.toGained⟩
  have hpins : s₁.hcsr.pins = s.hcsr.pins := h₁.pins
  replace h₂ := h₁.trans ((took_load s₁).trans h₂)
  have hgot : Gained s.hcsr.pins.lines s.log s₂.log := by
    have hall := h₂.gained
    change Gained (trigLines s.hcsr.pins.triggerPin ++ echoLines s₁.hcsr.pins.echoPin) _ _ at hall
    rw [hpins] at hall
    exact hall
  rw [if_neg (by decide), wp_bind]
  refine wp_mono (wp_and (wp_setISR_irq s₂) (spared_setISR s₂)) ?_
  rintro ret s₃ ⟨hirq, -, hspare, -⟩
  have hgot₃ : Gained s.hcsr.pins.lines s.log s₃.log := hgot.spared hspare
  rcases hirq with ⟨rfl, h₃⟩ | ⟨hret, h₃⟩
  · rw [if_neg (by decide), wp_bind, wp_store, wp_bind, wp_unlock, h₃.held, h₂.held, hs]
    refine ⟨fun _ => .inl ⟨rfl, h₂.log.trans h₃.log, hgot₃⟩, ?_⟩
    exact fun hl => absurd List.mem_cons_self hl
  · rw [if_pos hret]
    exact assigned_errSetpinReturn hret (h₃.held.trans (h₂.held.trans hs)) (h₂.log.barred h₃.log)
      fun _ => ⟨_, hgot₃⟩

theorem cleared_freeOldIrq (h : Hcsr) (s : St) :
    wp (sem env) ok (freeOldIrq h) s fun _ s' =>
      Cleared [] s.log s'.log ∧ s'.hcsr.pins = s.hcsr.pins ∧ s'.held = s.held := by
  rw [freeOldIrq]
  split
  · rw [wp_bind, wp_call]
    exact ⟨⟨rfl, rfl, .one id⟩, rfl, rfl⟩
  · exact ⟨⟨rfl, rfl, .refl _⟩, rfl, rfl⟩

theorem gave_load (s : St) :
    Gave [] s { s with hcsr := s.hcsr.seen env s.reads, reads := s.reads + 1 } :=
  ⟨⟨rfl, rfl, rfl⟩, rfl, rfl, .refl _⟩

/-- SETPINS, once its argument is copied. -/
theorem assigned_setPins {setTrig : Int → Code Int}
    (hset : ∀ pin s, wp (sem env) ok (setTrig pin) s (Acquires env (trigLines pin) s))
    (pins : PinSet) (hs : s.held = []) (hcopy : env.answer s.log .copyFromUser = 0) :
    wp (sem env) ok (ioctlSETPINsWith setTrig pins) s fun ret s' =>
      ∃ x, Cleared s.hcsr.pins.lines s.log x ∧ Assigned env pins x ret s' := by
  rw [ioctlSETPINsWith, wp_bind, wp_call, hcopy, if_neg (by decide), wp_bind, wp_lock]
  refine ⟨fun hl => absurd hl (by simp [hs]), fun _ => ?_⟩
  rw [wp_bind, wp_load, wp_bind]
  refine wp_mono (cleared_freeOldIrq _ _) ?_
  rintro _ s₁ ⟨hclear₁, hpins₁, hheld₁⟩
  rw [wp_bind, wp_load, wp_bind]
  refine wp_mono (gave_freeTrig _ _) ?_
  intro _ s₂ h₂
  rw [wp_bind, wp_load, wp_bind]
  refine wp_mono (gave_freeEcho _ _) ?_
  intro _ s₃ h₃
  replace hpins₁ : s₁.hcsr.pins = s.hcsr.pins := hpins₁
  have hpins₂ : s₂.hcsr.pins = s.hcsr.pins := h₂.pins.trans hpins₁
  have hfree : Gave (trigLines s₁.hcsr.pins.triggerPin ++ echoLines s₂.hcsr.pins.echoPin) s₁ s₃ :=
    ((gave_load s₁).trans h₂).trans ((gave_load s₂).trans h₃)
  rw [hpins₁, hpins₂] at hfree
  have hcopied : Cleared [] s.log ((.copyFromUser, 0) :: s.log) := ⟨rfl, rfl, .one id⟩
  have hheld : s₃.held = [.irqDone] :=
    hfree.held.trans (hheld₁.trans (congrArg (SpinLock.irqDone :: ·) hs))
  rw [wp_bind, wp_store]
  refine wp_mono (assigned_requestPins hset hheld) ?_
  exact fun ret s' hend => ⟨s₃.log, hcopied.trans (hclear₁.trans hfree.toCleared), hend⟩

theorem assigned_setPinsOf (v : Version) (pins : PinSet) (hs : s.held = [])
    (hcopy : env.answer s.log .copyFromUser = 0) :
    wp (sem env) ok (setPinsOf v pins) s fun ret s' =>
      ∃ x, Cleared s.hcsr.pins.lines s.log x ∧ Assigned env pins x ret s' := by
  cases v with
  | misc => exact assigned_setPins Misc.acquires_setTrig pins hs hcopy
  | sysfs =>
      rw [setPinsOf, ioctlSETPINs]
      exact assigned_setPins acquires_setTrig pins hs hcopy

end Functions

/-! ## A SETPINS that fails -/

/-- If SETPINS returns an error, the device has no line and no interrupt. -/
def LeavesNothing (v : Version) (env : Env) (pins : PinSet) (s : St) : Prop :=
  ∀ ret s', (setPinsOf v pins).run (sem env) s = .ok (ret, s') → ret ≠ 0 →
    (∀ line, ¬ HoldsLine s'.log line) ∧ ∀ irq, ¬ Registered s'.log irq

/-- The only interrupt is the one that `irq_done` speaks of. -/
def Sole (s : St) : Prop :=
  ∀ irq, Registered s.log irq → s.hcsr.irqDone = irqDoneFlag ∧ irq = s.hcsr.echoIsrNumber

section Failing
variable {v : Version} {env : Env} {pins : PinSet} {s s' : St}

theorem sole_iff_givenUp : (∀ irq, ¬ Holds () (givenUp s) irq) ↔ Sole s := by
  refine forall_congr' fun irq => ?_
  rw [givenUp]
  split
  · rename_i hdone
    simp only [Holds, Registered, hdone, true_and, not_and]
    constructor
    · exact fun h hr => by_contra fun hne => h (fun he => hne he.symm) hr
    · exact fun h hne hr => hne (h hr).symm
  · rename_i hdone
    simp only [hdone, false_and, imp_false]
    rfl

/-- How many directions a program sets. -/
theorem steered_made {α : Type} {p : Code α} {a : α} (h : p.run (sem env) s = .ok (a, s')) :
    steered s'.log = steered s.log ↔ ∀ e ∈ made env p s, steers e = false := by
  rw [run_log h, steered_append, steered, List.countP_reverse]
  simp [List.countP_eq_zero]

theorem made_of_along {α : Type} {p : Code α} {C : Call × Int → Prop} {Q : α → St → Prop}
    (h : along (sem env) (fun a s => ∀ e, madeBy env (a, s) = some e → C e) p s Q) :
    ∀ e ∈ made env p s, C e := by
  intro e he
  obtain ⟨x, hx, hmade⟩ := List.mem_filterMap.mp he
  exact h.way x hx e hmade

/-- If the argument cannot be copied, SETPINS asks for nothing. -/
theorem made_uncopied (hcopy : env.answer s.log .copyFromUser ≠ 0) :
    ∀ e ∈ made env (setPinsOf v pins) s, ¬ Refused e := by
  refine made_of_along (Q := fun _ _ => True) ?_
  have herr (ret : Int) (s' : St) : along (sem env)
      (fun a s => ∀ e, madeBy env (a, s) = some e → ¬ Refused e) (errSetpinReturn true ret) s'
      fun _ _ => True := by
    refine along_act nofun fun _ _ _ => along_act nofun fun _ _ _ => along_act nofun fun _ _ _ => ?_
    exact along_ret _ trivial
  have hcall : ∀ e, madeBy env (.call .copyFromUser, s) = some e → ¬ Refused e := by
    rintro e ⟨⟩
    exact id
  obtain ⟨setTrig, heq⟩ : ∃ f, setPinsOf v pins = ioctlSETPINsWith f pins := by
    cases v with
    | misc => exact ⟨Misc.setTrig, rfl⟩
    | sysfs => exact ⟨HcSr04.setTrig, rfl⟩
  rw [heq]
  refine along_act hcall fun ret s' hsem => ?_
  cases hsem
  show along _ _ (if env.answer s.log .copyFromUser ≠ 0 then _ else _) _ _
  rw [if_pos hcopy]
  exact herr _ _

/-- The lines are the same exactly if no direction was set. -/
theorem Gained.same_iff {ks : List Int} {x y : List (Call × Int)} (h : Gained ks x y)
    (hfresh : ∀ line ∈ ks, ¬ HoldsLine x line) :
    (∀ line, HoldsLine y line ↔ HoldsLine x line) ↔ HcSr04.steered y = HcSr04.steered x := by
  rw [h.steered, Nat.add_eq_left, List.length_eq_zero_iff, List.eq_nil_iff_forall_not_mem]
  refine forall_congr' fun line => ?_
  rw [h.lines]
  exact ⟨fun hsame hmem => hfresh line hmem (hsame.mp (.inl hmem)), fun hno => or_iff_right hno⟩

theorem Cleared.none {x : List (Call × Int)}
    (hlines : ∀ line, HoldsLine s.log line ↔ line ∈ s.hcsr.pins.lines)
    (hx : Cleared s.hcsr.pins.lines s.log x) (line : Int) : ¬ HoldsLine x line := by
  rw [holdsLine_giveAll hx.lines, hlines]
  exact fun h => h.1 h.2

end Failing

/-- **A SETPINS THAT FAILS LEAVES NOTHING BEHIND** exactly if nothing is refused, or the
    refusal comes before a direction was set, on a device with no other interrupt than
    the one that `irq_done` speaks of.  Any later failure leaves lines that no pin of
    the device names any more. -/
theorem setpins_leaves_nothing_iff (v : Version) (env : Env) (hk : env.Refusing) (pins : PinSet)
    (s : St) (hs : s.held = [])
    (hlines : ∀ line, HoldsLine s.log line ↔ line ∈ s.hcsr.pins.lines) :
    (env.answer s.log .copyFromUser = 0 →
      ∃ ret s', (setPinsOf v pins).run (sem env) s = .ok (ret, s')
        ∧ (ret ≠ 0 → s'.hcsr.pins = noPins))
      ∧ (LeavesNothing v env pins s ↔
        (∀ e ∈ made env (setPinsOf v pins) s, ¬ Refused e)
          ∨ ((∀ e ∈ made env (setPinsOf v pins) s, steers e = false) ∧ Sole s)) := by
  by_cases hcopy : env.answer s.log .copyFromUser = 0
  swap
  · refine ⟨fun h => absurd h hcopy, iff_of_true ?_ (.inl (made_uncopied hcopy))⟩
    intro ret s' hrun
    exact absurd (copied_of_returns (o := (env, pins)) hs ⟨ret, hrun⟩) hcopy
  obtain ⟨ret, s', hrun, ⟨-, hirq⟩, x, hclear, hend⟩ := run_of_wp
    (wp_and (wp_setPinsOf v env pins hs hcopy) (assigned_setPinsOf v pins hs hcopy))
  rw [LeavesNothing, forall_run_iff hrun]
  rcases hend with ⟨rfl, hpass, -⟩ | ⟨hret, hbar, hpins, hleft⟩
  · refine ⟨fun _ => ⟨0, s', hrun, fun h => absurd rfl h⟩, ?_⟩
    exact iff_of_true (fun h => absurd rfl h) (.inl (passed_made hrun (hclear.log.trans hpass)))
  · refine ⟨fun _ => ⟨ret, s', hrun, fun _ => hpins⟩, ?_⟩
    obtain ⟨e, he, href⟩ := barred_made hrun (hclear.log.barred hbar)
    have hirqs : irqs s'.log = givenUp s := by
      rcases hirq with ⟨-, -, hpass⟩ | ⟨-, hirqs, -⟩
      · exact absurd href (passed_made hrun hpass e he)
      · exact hirqs
    obtain ⟨ks, hgot⟩ := hleft hk
    have hnone : (∀ line, ¬ HoldsLine s'.log line) ↔
        ∀ e ∈ made env (setPinsOf v pins) s, steers e = false := by
      have hx := hclear.none hlines
      rw [← steered_made hrun, ← hclear.steered, ← hgot.same_iff fun line _ => hx line]
      exact forall_congr' fun line => (iff_false_right (hx line)).symm
    have hsole : (∀ irq, ¬ Registered s'.log irq) ↔ Sole s := by
      rw [← sole_iff_givenUp, ← hirqs]
      rfl
    rw [or_iff_right fun h => h e he href, ← hnone, ← hsole]
    exact forall_prop_of_true hret

/-! ## A kernel with some lines in use -/

/-- Refuses the lines in `busy`, which other drivers have, and those of the device. -/
def lineEnv (busy : List Int) : Env where
  answer log c :=
    match c with
    | .gpioRequest line => if line ∈ busy ∨ Taken (gpios log) line then -16 else 0
    | .gpioToIrq line => line + 40
    | _ => 0
  others _ x := x
  beside _ := 0
  nullPage := false

/-- It never grants a line that the device has. -/
theorem lineEnv_refusing (busy : List Int) : (lineEnv busy).Refusing := by
  intro log line hheld
  show (if line ∈ busy ∨ Taken (gpios log) line then (-16 : Int) else 0) ≠ 0
  rw [if_pos (.inr (taken_iff_holds.mpr hheld))]
  decide

/-- After a SETPINS with the pins 13 and 14. -/
def fitted : St :=
  match (ioctlSETPINs ⟨13, 14⟩).run (sem (lineEnv [])) (initialSt .sysfs) with
  | .ok (_, s) => s
  | .error _ => initialSt .sysfs

theorem fitted_lines (line : Int) : HoldsLine fitted.log line ↔ line ∈ fitted.hcsr.pins.lines := by
  have hgpios : gpios fitted.log = takeAll () fitted.hcsr.pins.lines (gpios []) := rfl
  rw [holdsLine_takeAll hgpios]
  exact or_iff_left id

theorem fitted_sole : Sole fitted := by
  have hirqs : irqs fitted.log = [.take () fitted.hcsr.echoIsrNumber] := rfl
  intro irq hreg
  rw [Registered, hirqs] at hreg
  rcases hreg with ⟨-, heq⟩ | hreg
  · exact ⟨rfl, heq.symm⟩
  · exact hreg.elim

/-- The first line of the new trigger pin is in use. -/
theorem setpins_leaves_nothing_first :
    (lineEnv [1]).Refusing ∧ fitted.held = []
      ∧ (∀ line, HoldsLine fitted.log line ↔ line ∈ fitted.hcsr.pins.lines)
      ∧ LeavesNothing .sysfs (lineEnv [1]) ⟨1, 0⟩ fitted := by
  refine ⟨lineEnv_refusing [1], rfl, fitted_lines, ?_⟩
  refine (setpins_leaves_nothing_iff .sysfs (lineEnv [1]) (lineEnv_refusing [1]) ⟨1, 0⟩ fitted rfl
    fitted_lines).2.mpr (.inr ⟨?_, fitted_sole⟩)
  decide +kernel

/-- The second one is: line 1 stays with the device, whose pins are -1. -/
theorem setpins_leaves_line :
    ¬ ∀ v env pins s, env.Refusing → s.held = [] →
      (∀ line, HoldsLine s.log line ↔ line ∈ s.hcsr.pins.lines) → Sole s →
      LeavesNothing v env pins s := by
  intro h
  have hnone := (h .misc (lineEnv [20]) ⟨1, 0⟩ fitted (lineEnv_refusing [20]) rfl fitted_lines
    fitted_sole (-22) _ rfl (by decide)).1
  exact hnone 1 (.inl ⟨rfl, rfl⟩)

end HcSr04
