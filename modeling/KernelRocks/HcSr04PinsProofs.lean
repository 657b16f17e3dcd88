import KernelRocks.HcSr04LockProofs
import KernelRocks.HcSr04MiscProofs
import KernelRocks.LedgerProofs

/-! # The GPIO lines of the miscdevice driver

    SETPINS frees the lines of the pins that are stored, and requests those of
    the pins it is given.  Which lines belong to a pin is looked up in the table
    both times, so what is freed is what was requested only if the stored pins
    are those of a SETPINS that went through, or pins the table does not have.

    The calls of both devices are entered in one ledger (`lines`), from which the
    kernel knows what is taken.

    * `wp_setPins`: what one SETPINS enters, wherever it fails.
    * `frees_held_iff`: the ledger is clean exactly if SETPINS is called only on
      devices whose pins, at the start, are in no row of the table.  In this
      driver they start as 0, which is the line of IO 5. -/

namespace HcSr04

open Program Ledger

/-! ## Two devices and a kernel -/

/-- The two devices of the driver. -/
inductive Dev where
  | hcA
  | hcB
  deriving DecidableEq

/-- The kernel calls of both devices, with what they returned, last one first. -/
abbrev History : Type := List (Dev × Call × Int)

/-- What a call says about a line. -/
def lineMove : Dev × Call × Int → Option (Move Dev Int)
  | (d, .gpioRequest line, ret) => if ret = 0 then some (.take d line) else none
  | (d, .gpioFree line, _) => some (.give d line)
  | _ => none

def lines (h : History) : List (Move Dev Int) := h.filterMap lineMove

/-- Whatever is outside the driver. -/
structure World where
  answer : History → Dev → Call → Int
  /-- What the interrupt makes of the device during a call. -/
  others : History → Nat → Int × CirBuf → Int × CirBuf
  beside : Int → Int
  nullPage : Bool

/-- The kernel as a call of `d` meets it behind `h`. -/
def World.env (w : World) (d : Dev) (h : History) : Env where
  answer log c := w.answer (log.map (Prod.mk d) ++ h) d c
  others := w.others h
  beside := w.beside
  nullPage := w.nullPage

/-- `gpio_request` fails for a line that is taken.  The argument of SETPINS can be
    copied. -/
structure World.Honest (w : World) : Prop where
  refuses : ∀ h d line, Taken (lines h) line → w.answer h d (.gpioRequest line) ≠ 0
  copies : ∀ h d, w.answer h d .copyFromUser = 0

/-- The ledger during a call of `d`. -/
def ledger (d : Dev) (h : History) (log : List (Call × Int)) : List (Move Dev Int) :=
  lines (log.map (Prod.mk d) ++ h)

section Ledger
variable {d : Dev} {h : History} {log : List (Call × Int)}

theorem ledger_granted (line : Int) :
    ledger d h ((.gpioRequest line, 0) :: log) = .take d line :: ledger d h log := rfl

theorem ledger_refused (line : Int) {ret : Int} (hret : ret ≠ 0) :
    ledger d h ((.gpioRequest line, ret) :: log) = ledger d h log := by
  refine List.filterMap_cons_none ?_
  exact if_neg hret

theorem ledger_other {c : Call} {ret : Int} (hc : lineMove (d, c, ret) = none) :
    ledger d h ((c, ret) :: log) = ledger d h log :=
  List.filterMap_cons_none hc

end Ledger

/-! ## The lines of a pin -/

/-- The line of a column, unless the column is skipped or empty. -/
def lineIn (skip : List PinFunc) (row : PinRow) (m : PinFunc) : List Int :=
  if m ∈ skip ∨ (row.at m).1 = -1 then [] else [(row.at m).1]

def rowLines (skip : List PinFunc) (row : PinRow) : List Int := pinFuncs.flatMap (lineIn skip row)

/-- The lines a loop over the table comes to. -/
def linesOf (skip : List PinFunc) (pin : Int) (rows : List PinRow) : List Int :=
  rows.flatMap fun row => if pin ≠ (row.at .gpioLinux).1 then [] else rowLines skip row

def trigLines (pin : Int) : List Int := linesOf [.gpioPull] pin allPins

def echoLines (pin : Int) : List Int := linesOf [] pin allPins

/-- The lines that SETPINS requests for its pins, and frees the next time. -/
def PinSet.lines (pins : PinSet) : List Int := trigLines pins.triggerPin ++ echoLines pins.echoPin

/-! ## The loops over the table -/

section Loops
variable {env : Env} {ok : Fault → Prop} {R : List Int → St → St → Prop}
  {E : St → Leave → St → Prop}

/-- How a loop over `ls` ends: it comes to its end, or leaves. -/
def EndedIn (R : List Int → St → St → Prop) (E : List Int → St → Leave → St → Prop)
    (ls : List Int) (s : St) (out : Option Leave) (s' : St) : Prop :=
  out.elim (R ls s s') fun x => E ls s x s'

/-- The rounds of a loop make up the whole, also one that leaves with lines to come. -/
structure RoundsIn (R : List Int → St → St → Prop) (E : List Int → St → Leave → St → Prop) :
    Prop where
  nil : ∀ s, R [] s s
  trans : ∀ {ls ks s s₁ s₂}, R ls s s₁ → R ks s₁ s₂ → R (ls ++ ks) s s₂
  leave : ∀ {ls ks s s₁ x s₂}, R ls s s₁ → E ks s₁ x s₂ → E (ls ++ ks) s x s₂
  early : ∀ {ls ks s x s'}, E ls s x s' → E (ls ++ ks) s x s'

theorem RoundsIn.after {E : List Int → St → Leave → St → Prop} (hR : RoundsIn R E)
    {ls ks : List Int} {s s₁ s₂ : St} {out : Option Leave} (h₁ : R ls s s₁)
    (h₂ : EndedIn R E ks s₁ out s₂) : EndedIn R E (ls ++ ks) s out s₂ := by
  cases out with
  | none => exact hR.trans h₁ h₂
  | some x => exact hR.leave h₁ h₂

theorem wp_eachFuncIn {E : List Int → St → Leave → St → Prop} (hR : RoundsIn R E)
    {body : PinFunc → Code (Option Leave)} {f : PinFunc → List Int}
    (hbody : ∀ m s, wp (sem env) ok (body m) s (EndedIn R E (f m) s)) :
    ∀ ms s, wp (sem env) ok (eachFunc body ms) s (EndedIn R E (ms.flatMap f) s) := by
  intro ms
  induction ms with
  | nil => exact hR.nil
  | cons m ms ih =>
      intro s
      rw [eachFunc, wp_bind]
      refine wp_mono (hbody m s) ?_
      intro out s₁ hout
      cases out with
      | none => exact wp_mono (ih s₁) fun _ _ hend => hR.after hout hend
      | some x => exact hR.early hout

theorem wp_eachRowIn {E : List Int → St → Leave → St → Prop} (hR : RoundsIn R E) {pin : Int}
    {body : PinRow → PinFunc → Code (Option Leave)} {skip : List PinFunc} :
    ∀ rows, (∀ row ∈ rows, pin = (row.at .gpioLinux).1 → ∀ s,
        wp (sem env) ok (eachFunc (body row) pinFuncs) s (EndedIn R E (rowLines skip row) s)) →
      ∀ s, wp (sem env) ok (eachRow pin body rows) s (EndedIn R E (linesOf skip pin rows) s) := by
  intro rows
  induction rows with
  | nil => exact fun _ => hR.nil
  | cons row rows ih =>
      intro hrows s
      have hrest := ih fun row' hmem => hrows row' (List.mem_cons_of_mem _ hmem)
      rw [eachRow, linesOf, List.flatMap_cons, ← linesOf]
      by_cases hpin : pin ≠ (row.at .gpioLinux).1
      · rw [if_pos hpin, if_pos hpin]
        exact hrest s
      · rw [if_neg hpin, if_neg hpin, wp_bind]
        refine wp_mono (hrows row List.mem_cons_self (not_ne_iff.mp hpin) s) ?_
        intro out s₁ hout
        cases out with
        | none =>
            refine wp_mono (hrest s₁) ?_
            intro out s₂ hend
            exact hR.after hout hend
        | some x => exact hR.early hout

/-- The same, where it does not matter which lines were to come. -/
def Ended (R : List Int → St → St → Prop) (E : St → Leave → St → Prop) (ls : List Int) (s : St)
    (out : Option Leave) (s' : St) : Prop :=
  out.elim (R ls s s') fun x => E s x s'

/-- The rounds of a loop make up the whole. -/
structure Rounds (R : List Int → St → St → Prop) (E : St → Leave → St → Prop) : Prop where
  nil : ∀ s, R [] s s
  trans : ∀ {ls ks s s₁ s₂}, R ls s s₁ → R ks s₁ s₂ → R (ls ++ ks) s s₂
  leave : ∀ {ls s s₁ x s₂}, R ls s s₁ → E s₁ x s₂ → E s x s₂

theorem Rounds.roundsIn (hR : Rounds R E) : RoundsIn R fun _ => E :=
  ⟨hR.nil, hR.trans, hR.leave, fun h => h⟩

theorem wp_eachFunc (hR : Rounds R E) {body : PinFunc → Code (Option Leave)}
    {f : PinFunc → List Int} (hbody : ∀ m s, wp (sem env) ok (body m) s (Ended R E (f m) s)) :
    ∀ ms s, wp (sem env) ok (eachFunc body ms) s (Ended R E (ms.flatMap f) s) :=
  wp_eachFuncIn hR.roundsIn hbody

theorem wp_eachRow (hR : Rounds R E) {pin : Int} {body : PinRow → PinFunc → Code (Option Leave)}
    {skip : List PinFunc} :
    ∀ rows, (∀ row ∈ rows, pin = (row.at .gpioLinux).1 → ∀ s,
        wp (sem env) ok (eachFunc (body row) pinFuncs) s (Ended R E (rowLines skip row) s)) →
      ∀ s, wp (sem env) ok (eachRow pin body rows) s (Ended R E (linesOf skip pin rows) s) :=
  wp_eachRowIn hR.roundsIn

/-- The loop that frees, with one line a round. -/
theorem wp_eachRow_free (hR : Rounds R fun _ _ _ => False)
    (hfree : ∀ line (s : St), R [line] s
      { s with log := (.gpioFree line, env.answer s.log (.gpioFree line)) :: s.log })
    (skip : List PinFunc) (pin : Int) (rows : List PinRow) (s : St) :
    wp (sem env) ok (eachRow pin (freeBody skip) rows) s fun _ s' =>
      R (linesOf skip pin rows) s s' := by
  have hbody : ∀ row m s, wp (sem env) ok (freeBody skip row m) s
      (Ended R (fun _ _ _ => False) (lineIn skip row m) s) := by
    intro row m s
    rw [freeBody, lineIn]
    split
    · exact hR.nil s
    · rw [wp_bind, wp_call]
      exact hfree _ s
  refine wp_mono (wp_eachRow hR rows (fun row _ _ => wp_eachFunc hR (hbody row) pinFuncs) s) ?_
  intro out s' hend
  cases out with
  | none => exact hend
  | some x => exact hend.elim

end Loops

/-! ## What a function enters in the ledger -/

/-- The pins and the locks stay, and the ledger changes as `R` says. -/
structure Moved (d : Dev) (h : History) (R : List (Move Dev Int) → List (Move Dev Int) → Prop)
    (s s' : St) : Prop where
  pins : s'.hcsr.pins = s.hcsr.pins
  held : s'.held = s.held
  lines : R (ledger d h s.log) (ledger d h s'.log)

/-- The lines in `ls` are freed, one after the other. -/
def Freed (d : Dev) (h : History) (ls : List Int) : St → St → Prop :=
  Moved d h fun x y => y = giveAll d ls x

/-- The lines in `ls` are requested with success. -/
def Got (d : Dev) (h : History) (ls : List Int) : St → St → Prop := Moved d h (Granted d ls)

/-- A loop that requests leaves with some of its lines; if a direction cannot be set,
    with those in `need` among them. -/
def Left (d : Dev) (h : History) (need : List Int) (s : St) (x : Leave) (s' : St) : Prop :=
  ∃ ls, Got d h ls s s' ∧ ∀ ret, x = .oper ret → need ⊆ ls

section Functions
variable {w : World} {d : Dev} {h : History} {ok : Fault → Prop}

theorem freed_rounds : Rounds (Freed d h) fun _ _ _ => False where
  nil _ := ⟨rfl, rfl, rfl⟩
  trans := by
    rintro ls ks s s₁ s₂ ⟨hp, hh, hl⟩ ⟨hp', hh', hl'⟩
    refine ⟨hp'.trans hp, hh'.trans hh, ?_⟩
    rw [hl', hl, giveAll_append]
  leave _ hE := hE

theorem Got.trans {ls ks : List Int} {s s₁ s₂ : St} (h₁ : Got d h ls s s₁)
    (h₂ : Got d h ks s₁ s₂) : Got d h (ls ++ ks) s s₂ :=
  ⟨h₂.pins.trans h₁.pins, h₂.held.trans h₁.held, h₁.lines.trans h₂.lines⟩

theorem got_rounds (need : List Int) : Rounds (Got d h) (Left d h need) where
  nil _ := ⟨rfl, rfl, .nil⟩
  trans := Got.trans
  leave := by
    rintro ls s s₁ x s₂ hgot ⟨ks, hks, hneed⟩
    refine ⟨ls ++ ks, hgot.trans hks, ?_⟩
    intro ret hx l hl
    exact List.mem_append_right ls (hneed ret hx hl)

theorem wp_freeTrig (pin : Int) (s : St) :
    wp (sem (w.env d h)) ok (freeTrig pin) s fun _ s' => Freed d h (trigLines pin) s s' := by
  rw [freeTrig, wp_bind]
  exact wp_eachRow_free freed_rounds (fun _ _ => ⟨rfl, rfl, rfl⟩) _ pin allPins s

theorem wp_freeEcho (pin : Int) (s : St) :
    wp (sem (w.env d h)) ok (freeEcho pin) s fun _ s' => Freed d h (echoLines pin) s s' := by
  rw [freeEcho, wp_bind]
  exact wp_eachRow_free freed_rounds (fun _ _ => ⟨rfl, rfl, rfl⟩) _ pin allPins s

/-- A line that the kernel grants was not taken. -/
theorem World.Honest.free (hw : w.Honest) {log : List (Call × Int)} {line : Int}
    (hret : (w.env d h).answer log (.gpioRequest line) = 0) : ¬ Taken (ledger d h log) line :=
  fun htaken => hw.refuses _ d line htaken hret

/-- How the body for one column ends; if the direction cannot be set, with its line. -/
def LeftIn (d : Dev) (h : History) (ls : List Int) (s : St) : Leave → St → Prop
  | .oper _, s' => Got d h ls s s'
  | .request _, s' => Got d h [] s s'

theorem wp_setBody (hw : w.Honest) {skip : List PinFunc} {direction : PinFunc → Int × Int → Call}
    (hdir : ∀ m p ret, lineMove (d, direction m p, ret) = none) (row : PinRow) (m : PinFunc)
    (s : St) :
    wp (sem (w.env d h)) ok (setBody skip direction row m) s
      (Ended (Got d h) (fun s => LeftIn d h (lineIn skip row m) s) (lineIn skip row m) s) := by
  rw [setBody, lineIn]
  split
  · exact ⟨rfl, rfl, .nil⟩
  · rw [wp_bind, wp_call]
    split
    · rename_i hret
      refine ⟨rfl, rfl, ?_⟩
      show Granted d [] _ (ledger d h (_ :: s.log))
      rw [ledger_refused _ hret]
      exact .nil
    · rename_i hret
      have hgot : ∀ ret, Granted d [(row.at m).1] (ledger d h s.log)
          (ledger d h
            ((direction m (row.at m), ret) :: (.gpioRequest (row.at m).1, 0) :: s.log)) := by
        intro ret
        rw [ledger_other (hdir m _ ret), ledger_granted]
        exact .one (hw.free (not_ne_iff.mp hret))
      rw [not_ne_iff.mp hret, wp_bind, wp_call]
      split
      · exact ⟨rfl, rfl, hgot _⟩
      · exact ⟨rfl, rfl, hgot _⟩

/-- A loop over a row of the table.  The Linux line comes first, so it has been
    requested when the direction of any line is set. -/
theorem wp_setRow (hw : w.Honest) {skip : List PinFunc} (hskip : .gpioLinux ∉ skip)
    {direction : PinFunc → Int × Int → Call}
    (hdir : ∀ m p ret, lineMove (d, direction m p, ret) = none) {row : PinRow} {pin : Int}
    (hpin : pin = (row.at .gpioLinux).1) (hrow : (row.at .gpioLinux).1 ≠ -1) (s : St) :
    wp (sem (w.env d h)) ok (eachFunc (setBody skip direction row) pinFuncs) s
      (Ended (Got d h) (Left d h [pin]) (rowLines skip row) s) := by
  have hlinux : lineIn skip row .gpioLinux = [pin] := by
    rw [lineIn, if_neg (not_or.mpr ⟨hskip, hrow⟩), hpin]
  have hbody : ∀ m s, wp (sem (w.env d h)) ok (setBody skip direction row m) s
      (Ended (Got d h) (Left d h []) (lineIn skip row m) s) := by
    intro m s
    refine wp_mono (wp_setBody hw hdir row m s) ?_
    intro out s' hend
    rcases out with _ | ⟨ret⟩ | ⟨ret⟩
    · exact hend
    · exact ⟨_, hend, fun _ _ => List.nil_subset _⟩
    · exact ⟨_, hend, fun _ _ => List.nil_subset _⟩
  rw [rowLines, pinFuncs, eachFunc, wp_bind, List.flatMap_cons, hlinux]
  refine wp_mono (wp_setBody hw hdir row .gpioLinux s) ?_
  rw [hlinux]
  intro out s₁ hout
  rcases out with _ | ⟨ret⟩ | ⟨ret⟩
  · refine wp_mono (wp_eachFunc (got_rounds []) hbody _ s₁) ?_
    intro out s₂ hend
    cases out with
    | none => exact Got.trans hout hend
    | some x =>
        obtain ⟨ks, hks, -⟩ := hend
        exact ⟨[pin] ++ ks, Got.trans hout hks, fun _ _ => List.subset_append_left _ _⟩
  · exact ⟨[pin], hout, fun _ _ => List.Subset.refl _⟩
  · exact ⟨[], hout, nofun⟩

/-- Every row of the table has a Linux line. -/
theorem allPins_linux : ∀ row ∈ allPins, (row.at .gpioLinux).1 ≠ -1 := by decide

theorem wp_setRows (hw : w.Honest) {skip : List PinFunc} (hskip : .gpioLinux ∉ skip)
    {direction : PinFunc → Int × Int → Call}
    (hdir : ∀ m p ret, lineMove (d, direction m p, ret) = none) (pin : Int) (s : St) :
    wp (sem (w.env d h)) ok (eachRow pin (setBody skip direction) allPins) s
      (Ended (Got d h) (Left d h [pin]) (linesOf skip pin allPins) s) :=
  wp_eachRow (got_rounds [pin]) allPins
    (fun row hrow hpin => wp_setRow hw hskip hdir hpin (allPins_linux row hrow)) s

/-- What `setTrig` or `setEcho` leaves: the lines `ls`, or an error. -/
def Acquired (d : Dev) (h : History) (ls : List Int) (s : St) (ret : Int) (s' : St) : Prop :=
  (ret = 0 ∧ Got d h ls s s') ∨ (ret ≠ 0 ∧ Moved d h (Tried d) s s')

/-- The label `ERR_OPER_RETURN`. -/
theorem acquired_of_freed {pin : Int} {ls : List Int} {s s₁ : St} {x : Leave}
    (hleft : Left d h [pin] s x s₁) {ret : Int} (hx : x = .oper ret) :
    wp (sem (w.env d h)) ok (do
      let _ ← call (.gpioFree pin)
      return -einval) s₁ (Acquired d h ls s) := by
  obtain ⟨ks, hks, hpin⟩ := hleft
  have hmem : pin ∈ ks := hpin ret hx List.mem_cons_self
  rw [wp_bind, wp_call]
  exact .inr ⟨by decide, hks.pins, hks.held, ks, _, hks.lines, .inr ⟨pin, hmem, rfl⟩⟩

theorem acquired_of_left {need : List Int} {ls : List Int} {s s' : St} {x : Leave}
    (hleft : Left d h need s x s') : Acquired d h ls s (-einval) s' := by
  obtain ⟨ks, hks, -⟩ := hleft
  exact .inr ⟨by decide, hks.pins, hks.held, hks.lines.tried⟩

theorem wp_setTrig (hw : w.Honest) (pin : Int) (s : St) :
    wp (sem (w.env d h)) ok (Misc.setTrig pin) s (Acquired d h (trigLines pin) s) := by
  have hdir : ∀ m p ret, lineMove (d, trigDirection m p, ret) = none := by
    intro m p ret
    cases m <;> rfl
  rw [Misc.setTrig, wp_bind]
  refine wp_mono (wp_setRows hw (by decide) hdir pin s) ?_
  intro out s₁ hend
  rcases out with _ | ⟨ret⟩ | ⟨ret⟩
  · exact .inl ⟨rfl, hend⟩
  · exact acquired_of_freed hend rfl
  · exact acquired_of_left hend

theorem wp_setEcho (hw : w.Honest) (pin : Int) (s : St) :
    wp (sem (w.env d h)) ok (setEcho pin) s (Acquired d h (echoLines pin) s) := by
  have hdir : ∀ m p ret, lineMove (d, echoDirection m p, ret) = none := by
    intro m p ret
    cases m <;> rfl
  rw [setEcho, wp_bind]
  refine wp_mono (wp_setRows hw (by decide) hdir pin s) ?_
  intro out s₁ hend
  rcases out with _ | ⟨ret⟩ | ⟨ret⟩
  · exact .inl ⟨rfl, hend⟩
  · exact acquired_of_freed hend rfl
  · exact acquired_of_left hend

theorem wp_freeOldIrq (a : Hcsr) (s : St) :
    wp (sem (w.env d h)) ok (freeOldIrq a) s fun _ s' => Moved d h (fun x y => y = x) s s' := by
  rw [freeOldIrq]
  split
  · rw [wp_bind, wp_call]
    exact ⟨rfl, rfl, rfl⟩
  · exact ⟨rfl, rfl, rfl⟩

theorem wp_setISR (s : St) :
    wp (sem (w.env d h)) ok setISR s fun _ s' => Moved d h (fun x y => y = x) s s' := by
  rw [setISR, wp_bind, wp_load, wp_bind, wp_call]
  split
  · exact ⟨rfl, rfl, rfl⟩
  · rw [wp_bind, wp_store, wp_bind, wp_load, wp_bind, wp_call]
    split
    · exact ⟨rfl, rfl, rfl⟩
    · exact ⟨rfl, rfl, rfl⟩

/-- The pins that SETPINS leaves after an error. -/
def noPins : PinSet := ⟨-1, -1⟩

/-- What SETPINS makes of a ledger with the old pins' lines given back: it has the
    lines of its pins, or it stores no pins. -/
def Settled (d : Dev) (pins : PinSet) (x y : List (Move Dev Int)) (stored : PinSet) : Prop :=
  (stored = pins ∧ Granted d pins.lines x y) ∨ (stored = noPins ∧ Tried d x y)

theorem wp_errSetpinReturn {ret : Int} {pins : PinSet} {x : List (Move Dev Int)} {s : St}
    (hheld : s.held = [.irqDone]) (ht : Tried d x (ledger d h s.log)) :
    wp (sem (w.env d h)) ok (errSetpinReturn false ret) s fun _ s' =>
      s'.held = [] ∧ Settled d pins x (ledger d h s'.log) s'.hcsr.pins := by
  rw [errSetpinReturn, wp_bind, storeUnless, if_neg Bool.false_ne_true, wp_store, wp_bind,
    storeUnless, if_neg Bool.false_ne_true, wp_store, wp_bind, wp_unlock]
  rw [hheld]
  exact ⟨fun _ => ⟨rfl, .inr ⟨rfl, ht⟩⟩, fun hl => absurd List.mem_cons_self hl⟩

theorem wp_requestPins (hw : w.Honest) {s : St} (hheld : s.held = [.irqDone]) :
    wp (sem (w.env d h)) (fun _ => False) (requestPinsWith Misc.setTrig) s fun _ s' =>
      s'.held = [] ∧ Settled d s.hcsr.pins (ledger d h s.log) (ledger d h s'.log) s'.hcsr.pins := by
  rw [requestPinsWith, wp_bind, wp_load, wp_bind]
  refine wp_mono (wp_setTrig hw _ _) ?_
  rintro ret s₁ (⟨rfl, hp₁, hh₁, hl₁⟩ | ⟨hret, hp₁, hh₁, hl₁⟩)
  swap
  · rw [if_pos hret]
    exact wp_errSetpinReturn (hh₁.trans hheld) hl₁
  rw [if_neg (by decide), wp_bind, wp_load, wp_bind]
  refine wp_mono (wp_setEcho hw _ _) ?_
  rintro ret s₂ (⟨rfl, hp₂, hh₂, hl₂⟩ | ⟨hret, hp₂, hh₂, hl₂⟩)
  swap
  · rw [if_pos hret]
    exact wp_errSetpinReturn (hh₂.trans (hh₁.trans hheld)) (hl₁.trans_tried hl₂)
  have hpins₁ : s₁.hcsr.pins = s.hcsr.pins := hp₁
  have hgot : Granted d s.hcsr.pins.lines (ledger d h s.log) (ledger d h s₂.log) := by
    have hecho : Granted d (echoLines s₁.hcsr.pins.echoPin) (ledger d h s₁.log)
        (ledger d h s₂.log) := hl₂
    rw [hpins₁] at hecho
    exact hl₁.trans hecho
  rw [if_neg (by decide), wp_bind]
  refine wp_mono (wp_setISR _) ?_
  rintro ret s₃ ⟨hp₃, hh₃, hl₃⟩
  rw [← hl₃] at hgot
  have hheld₃ : s₃.held = [.irqDone] := hh₃.trans (hh₂.trans (hh₁.trans hheld))
  have hpins₃ : s₃.hcsr.pins = s.hcsr.pins := hp₃.trans (hp₂.trans hp₁)
  split
  · exact wp_errSetpinReturn hheld₃ hgot.tried
  · rw [wp_bind, wp_store, wp_bind, wp_unlock, hheld₃]
    exact ⟨fun _ => ⟨rfl, .inl ⟨hpins₃, hgot⟩⟩, fun hl => absurd List.mem_cons_self hl⟩

/-- SETPINS returns, whatever is stored and whatever fails. -/
theorem wp_setPins (hw : w.Honest) (pins : PinSet) {s : St} (hs : s.held = []) :
    wp (sem (w.env d h)) (fun _ => False) (Misc.ioctlSETPINs pins) s fun _ s' =>
      s'.held = [] ∧ Settled d pins (giveAll d s.hcsr.pins.lines (ledger d h s.log))
        (ledger d h s'.log) s'.hcsr.pins := by
  have hcopy : (w.env d h).answer s.log .copyFromUser = 0 := hw.copies _ d
  rw [Misc.ioctlSETPINs, ioctlSETPINsWith, wp_bind, wp_call, hcopy, if_neg (by decide), wp_bind,
    wp_lock]
  refine ⟨fun hl => absurd hl (by simp [hs]), fun _ => ?_⟩
  rw [wp_bind, wp_load, wp_bind]
  refine wp_mono (wp_freeOldIrq _ _) ?_
  rintro _ s₁ ⟨hp₁, hh₁, hl₁⟩
  rw [wp_bind, wp_load, wp_bind]
  refine wp_mono (wp_freeTrig _ _) ?_
  rintro _ s₂ ⟨hp₂, hh₂, hl₂⟩
  rw [wp_bind, wp_load, wp_bind]
  refine wp_mono (wp_freeEcho _ _) ?_
  rintro _ s₃ ⟨hp₃, hh₃, hl₃⟩
  rw [wp_bind, wp_store]
  have hpins₁ : s₁.hcsr.pins = s.hcsr.pins := hp₁
  have hpins₂ : s₂.hcsr.pins = s₁.hcsr.pins := hp₂
  have htrig : ledger d h s₂.log
      = giveAll d (trigLines s₁.hcsr.pins.triggerPin) (ledger d h s₁.log) := hl₂
  have hecho : ledger d h s₃.log
      = giveAll d (echoLines s₂.hcsr.pins.echoPin) (ledger d h s₂.log) := hl₃
  have hold : ledger d h s₁.log = ledger d h s.log := hl₁
  rw [PinSet.lines, giveAll_append, ← hold, ← hpins₁, ← htrig, ← hpins₂, ← hecho]
  refine wp_requestPins hw ?_
  exact hh₃.trans (hh₂.trans (hh₁.trans (congrArg (SpinLock.irqDone :: ·) hs)))

end Functions

/-! ## Sequences of calls -/

/-- The driver between two calls. -/
structure Driver where
  hcsr : Dev → Hcsr
  history : History

/-- SETPINS on `d`. -/
def Driver.setPins (w : World) (d : Dev) (pins : PinSet) (s : Driver) : Except Fault Driver :=
  match (Misc.ioctlSETPINs pins).run (sem (w.env d s.history)) (idle (s.hcsr d) [] 0) with
  | .ok (_, s') => .ok ⟨Function.update s.hcsr d s'.hcsr, s'.log.map (Prod.mk d) ++ s.history⟩
  | .error e => .error e

def Driver.runCalls (w : World) : List (Dev × PinSet) → Driver → Except Fault Driver
  | [], s => .ok s
  | (d, pins) :: calls, s =>
      match s.setPins w d pins with
      | .ok s' => s'.runCalls w calls
      | .error e => .error e

/-- Both devices as `init_hcsr_struct` leaves them, but for their pins. -/
def Driver.startingAt (pins : Dev → PinSet) : Driver where
  hcsr d := { Misc.initHcsrStruct with pins := pins d }
  history := []

/-- The driver after the module is loaded. -/
def Driver.loaded : Driver := ⟨fun _ => Misc.initHcsrStruct, []⟩

theorem setPins_settles {w : World} (hw : w.Honest) (d : Dev) (pins : PinSet) (s : Driver) :
    ∃ s', s.setPins w d pins = .ok s' ∧ (∀ e, e ≠ d → s'.hcsr e = s.hcsr e)
      ∧ Settled d pins (giveAll d (s.hcsr d).pins.lines (lines s.history)) (lines s'.history)
          (s'.hcsr d).pins := by
  obtain ⟨r, t, hrun, -, hset⟩ := run_of_wp (wp_setPins (d := d) (h := s.history) hw pins
    (s := idle (s.hcsr d) [] 0) rfl)
  refine ⟨_, by rw [Driver.setPins, hrun], fun e he => Function.update_of_ne he _ _, ?_⟩
  show Settled d pins _ _ (Function.update s.hcsr d t.hcsr d).pins
  rw [Function.update_self]
  exact hset

section Settled
variable {d : Dev} {pins stored : PinSet} {x y : List (Move Dev Int)}

theorem Settled.tried (hs : Settled d pins x y stored) : Tried d x y := by
  rcases hs with ⟨-, hg⟩ | ⟨-, ht⟩
  · exact hg.tried
  · exact ht

theorem Settled.backed (hs : Settled d pins x y stored) : Backed d y stored.lines := by
  rcases hs with ⟨rfl, hg⟩ | ⟨rfl, -⟩
  · exact hg.backed
  · have hnone : noPins.lines = [] := by decide
    rw [hnone]
    exact ⟨List.nodup_nil, nofun⟩

end Settled

/-- The device has the lines of its pins. -/
def Driver.Backs (s : Driver) (d : Dev) : Prop :=
  Backed d (lines s.history) (s.hcsr d).pins.lines

/-- Every device has the lines of its pins, or no line at all. -/
structure Accounted (s : Driver) : Prop where
  tidy : Tidy (lines s.history)
  known : ∀ d, s.Backs d ∨ ∀ line, ¬ Holds d (lines s.history) line

/-- A SETPINS on a device that has its lines. -/
theorem setPins_backed {w : World} (hw : w.Honest) {d : Dev} (pins : PinSet) {s : Driver}
    (hs : Accounted s) (hd : s.Backs d) :
    ∃ s', s.setPins w d pins = .ok s' ∧ Accounted s' ∧ ∀ e, s'.Backs e ↔ s.Backs e := by
  obtain ⟨s', hrun, hkeep, hset⟩ := setPins_settles hw d pins s
  have hother : ∀ e, e ≠ d → ∀ line,
      Holds e (lines s'.history) line ↔ Holds e (lines s.history) line := by
    intro e he line
    rw [hset.tried.holds_other he, holds_giveAll_other he]
  have hbacks : ∀ e, s'.Backs e ↔ s.Backs e := by
    intro e
    by_cases he : e = d
    · subst he
      exact iff_of_true hset.backed hd
    · rw [Driver.Backs, hkeep e he]
      refine ⟨fun hb => ⟨hb.nodup, ?_⟩, fun hb => ⟨hb.nodup, ?_⟩⟩
      · exact fun l hl => (hother e he l).mp (hb.held l hl)
      · exact fun l hl => (hother e he l).mpr (hb.held l hl)
  refine ⟨s', hrun, ⟨hset.tried.tidy (hs.tidy.giveAll hd), ?_⟩, hbacks⟩
  intro e
  rcases hs.known e with hb | hnone
  · exact .inl ((hbacks e).mpr hb)
  · by_cases he : e = d
    · subst he
      exact .inl hset.backed
    · exact .inr fun line hl => hnone line ((hother e he line).mp hl)

/-- A SETPINS on a device that has not. -/
theorem setPins_unbacked {w : World} (hw : w.Honest) {d : Dev} (pins : PinSet) {s : Driver}
    (hs : Accounted s) (hd : ¬ s.Backs d) :
    ∃ s', s.setPins w d pins = .ok s' ∧ ¬ Clean (lines s'.history) := by
  obtain ⟨s', hrun, -, hset⟩ := setPins_settles hw d pins s
  have hne : (s.hcsr d).pins.lines ≠ [] := by
    intro hnil
    refine hd ?_
    rw [Driver.Backs, hnil]
    exact ⟨List.nodup_nil, nofun⟩
  refine ⟨s', hrun, fun hc => ?_⟩
  exact not_clean_giveAll hne ((hs.known d).resolve_left hd) (hset.tried.clean_of hc)

/-- Further calls do not make a ledger clean. -/
theorem runCalls_unclean {w : World} (hw : w.Honest) (calls : List (Dev × PinSet)) :
    ∀ s : Driver, ¬ Clean (lines s.history) →
      ∃ s', s.runCalls w calls = .ok s' ∧ ¬ Clean (lines s'.history) := by
  induction calls with
  | nil => exact fun s hs => ⟨s, rfl, hs⟩
  | cons c calls ih =>
      intro s hs
      obtain ⟨s₁, hrun, -, hset⟩ := setPins_settles hw c.1 c.2 s
      obtain ⟨s', hrest, hs'⟩ := ih s₁ fun hc => hs (hset.tried.clean_of hc).of_giveAll
      exact ⟨s', by rw [Driver.runCalls, hrun]; exact hrest, hs'⟩

theorem runCalls_clean_iff {w : World} (hw : w.Honest) (calls : List (Dev × PinSet)) :
    ∀ s : Driver, Accounted s → ∃ s', s.runCalls w calls = .ok s'
      ∧ (Clean (lines s'.history) ↔ ∀ c ∈ calls, s.Backs c.1) := by
  induction calls with
  | nil => exact fun s hs => ⟨s, rfl, iff_of_true hs.tidy.clean nofun⟩
  | cons c calls ih =>
      intro s hs
      rw [Driver.runCalls]
      by_cases hd : s.Backs c.1
      · obtain ⟨s₁, hrun, hs₁, hbacks⟩ := setPins_backed hw c.2 hs hd
        obtain ⟨s', hrest, hiff⟩ := ih s₁ hs₁
        refine ⟨s', by rw [hrun]; exact hrest, ?_⟩
        rw [hiff, List.forall_mem_cons, and_iff_right hd]
        exact forall₂_congr fun e _ => hbacks e.1
      · obtain ⟨s₁, hrun, hs₁⟩ := setPins_unbacked hw c.2 hs hd
        obtain ⟨s', hrest, hs'⟩ := runCalls_unclean hw calls s₁ hs₁
        refine ⟨s', by rw [hrun]; exact hrest, iff_of_false hs' ?_⟩
        exact fun hall => hd (hall c List.mem_cons_self)

/-! ## The pins at the start -/

/-- No row of the table is the row of this pin. -/
def NoRow (pin : Int) : Prop := ∀ row ∈ allPins, pin ≠ (row.at .gpioLinux).1

instance (pin : Int) : Decidable (NoRow pin) :=
  inferInstanceAs (Decidable (∀ row ∈ allPins, pin ≠ (row.at .gpioLinux).1))

theorem linesOf_eq_nil_iff {skip : List PinFunc} (hskip : .gpioLinux ∉ skip) (pin : Int) :
    linesOf skip pin allPins = [] ↔ NoRow pin := by
  rw [linesOf, List.flatMap_eq_nil_iff]
  refine forall₂_congr fun row hrow => ?_
  constructor
  · intro hnil hpin
    rw [if_neg (not_ne_iff.mpr hpin), rowLines, List.flatMap_eq_nil_iff] at hnil
    have hlinux := hnil .gpioLinux List.mem_cons_self
    rw [lineIn, if_neg (not_or.mpr ⟨hskip, allPins_linux row hrow⟩)] at hlinux
    cases hlinux
  · exact fun hne => if_pos hne

theorem backs_startingAt_iff (pins : Dev → PinSet) (d : Dev) :
    (Driver.startingAt pins).Backs d ↔ NoRow (pins d).triggerPin ∧ NoRow (pins d).echoPin := by
  have hnil : (Driver.startingAt pins).Backs d ↔ (pins d).lines = [] := by
    constructor
    · intro hb
      refine List.eq_nil_iff_forall_not_mem.mpr fun line hl => ?_
      exact (hb.held line hl : Holds d [] line)
    · intro hnil
      rw [Driver.Backs]
      show Backed d _ (pins d).lines
      rw [hnil]
      exact ⟨List.nodup_nil, nofun⟩
  rw [hnil, PinSet.lines, List.append_eq_nil_iff]
  exact and_congr (linesOf_eq_nil_iff (by decide) _) (linesOf_eq_nil_iff (by decide) _)

theorem accounted_startingAt (pins : Dev → PinSet) : Accounted (Driver.startingAt pins) :=
  ⟨.nil, fun _ => .inr fun _ => id⟩

/-- **A DEVICE FREES ONLY LINES IT HOLDS** exactly if the pins it starts with are in
    no row of the table.  After the loading of the module they are 0, so the first
    SETPINS on a device frees lines that it never requested. -/
theorem frees_held_iff (w : World) (hw : w.Honest) (calls : List (Dev × PinSet)) :
    (∃ s, Driver.loaded.runCalls w calls = .ok s ∧ (Clean (lines s.history) ↔ calls = []))
      ∧ ∀ pins : Dev → PinSet, ∃ s, (Driver.startingAt pins).runCalls w calls = .ok s
          ∧ (Clean (lines s.history) ↔
            ∀ c ∈ calls, NoRow (pins c.1).triggerPin ∧ NoRow (pins c.1).echoPin) := by
  have hstart : ∀ pins : Dev → PinSet, ∃ s, (Driver.startingAt pins).runCalls w calls = .ok s
      ∧ (Clean (lines s.history) ↔
        ∀ c ∈ calls, NoRow (pins c.1).triggerPin ∧ NoRow (pins c.1).echoPin) := by
    intro pins
    obtain ⟨s, hrun, hiff⟩ := runCalls_clean_iff hw calls _ (accounted_startingAt pins)
    refine ⟨s, hrun, hiff.trans ?_⟩
    exact forall₂_congr fun c _ => backs_startingAt_iff pins c.1
  refine ⟨?_, hstart⟩
  obtain ⟨s, hrun, hiff⟩ := hstart fun _ => ⟨0, 0⟩
  refine ⟨s, hrun, hiff.trans ?_⟩
  have hzero : ¬ NoRow 0 := by decide
  cases calls with
  | nil => exact iff_of_true nofun rfl
  | cons c calls => exact iff_of_false (fun hall => hzero (hall c List.mem_cons_self).1) nofun

/-! ## A kernel, and a first SETPINS -/

/-- A kernel that refuses only the lines that are taken. -/
def plainWorld : World where
  answer h _ c :=
    match c with
    | .gpioRequest line => if Taken (lines h) line then -16 else 0
    | .gpioToIrq line => line + 40
    | _ => 0
  others _ _ x := x
  beside _ := 0
  nullPage := false

theorem plainWorld_honest : plainWorld.Honest := by
  refine ⟨?_, fun _ _ => rfl⟩
  intro h d line htaken
  show (if Taken (lines h) line then (-16 : Int) else 0) ≠ 0
  rw [if_pos htaken]
  decide

/-- With pins that are set to -1 at the start, as in the SYSFS driver. -/
theorem frees_held_iff_unset :
    plainWorld.Honest ∧ ∃ s, (Driver.startingAt fun _ => noPins).runCalls plainWorld
        [(.hcA, ⟨13, 14⟩), (.hcB, ⟨13, 6⟩), (.hcA, ⟨1, 0⟩)] = .ok s
      ∧ Clean (lines s.history) := by
  refine ⟨plainWorld_honest, ?_⟩
  obtain ⟨s, hrun, hiff⟩ := (frees_held_iff plainWorld plainWorld_honest
    [(.hcA, ⟨13, 14⟩), (.hcB, ⟨13, 6⟩), (.hcA, ⟨1, 0⟩)]).2 fun _ => noPins
  have hnone : NoRow (-1) := by decide
  exact ⟨s, hrun, hiff.mpr fun _ _ => ⟨hnone, hnone⟩⟩

/-- The first SETPINS after the loading frees line 0, that of IO 5. -/
theorem frees_not_held :
    plainWorld.Honest ∧ ∃ s, Driver.loaded.runCalls plainWorld [(.hcA, ⟨13, 14⟩)] = .ok s
      ∧ ¬ Clean (lines s.history) := by
  refine ⟨plainWorld_honest, ?_⟩
  have hzero : ¬ (Driver.startingAt fun _ => ⟨0, 0⟩).Backs .hcA := by
    rw [backs_startingAt_iff]
    decide
  obtain ⟨s, hrun, hs⟩ := setPins_unbacked plainWorld_honest ⟨13, 14⟩
    (accounted_startingAt fun _ => ⟨0, 0⟩) hzero
  have hloaded : Driver.loaded.setPins plainWorld .hcA ⟨13, 14⟩ = .ok s := hrun
  refine ⟨s, ?_, hs⟩
  rw [Driver.runCalls, hloaded]
  rfl

end HcSr04
