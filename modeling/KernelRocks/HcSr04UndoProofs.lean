import KernelRocks.HcSr04HoldingProofs

/-! # Setting a pin and freeing it

    Four loops go over the table of pins, each with its own rule for what it skips:
    `setTrig` and `freeTrig` leave out the pull line, `setEcho` and `freeEcho` do
    not, and all four leave out the columns that are -1.  What one of the first kind
    requests, the one of the second kind frees.

    Any lines may be in use already, by whomever; the kernel refuses these, and
    answers every other call as it likes.

    * `not_mem_of_took`: a line that was granted was not in use.
    * `undoes`: what a loop took, the other one gives back, line by line.
    * `free_undoes_set`: for the trigger, for the echo, and for both together, where
      the two pins may share their row. -/

namespace HcSr04

open Program Ledger

/-- The lines that are held after the calls of the log, if `H` was before them. -/
def linesHeld (H : Set Int) (log : List (Call × Int)) : Set Int := heldFrom H (gpios log)

/-- From here on `gpio_request` fails for these lines. -/
def Env.RefusesAfter (env : Env) (log : List (Call × Int)) (H : Set Int) : Prop :=
  ∀ new, ∀ line ∈ H, env.answer (new ++ log) (.gpioRequest line) ≠ 0

/-- `setTrig` of the two drivers. -/
def setTrigOf : Version → Int → Code Int
  | .misc => Misc.setTrig
  | .sysfs => setTrig

/-- If `set` returns 0, it took some lines that nobody held, and `free` performed next
    gives these back, each once, and no other: the lines held are those from before. -/
def Undoes (env : Env) (H : Set Int) (s : St) (set free : Code Int) : Prop :=
  ∀ s₁, set.run (sem env) s = .ok (0, s₁) → ∃ (ls : List Int) (ret : Int) (s₂ : St),
    gpios (made env set s) = ls.map (.take ())
      ∧ (∀ line ∈ ls, line ∉ linesHeld H s.log)
      ∧ free.run (sem env) s₁ = .ok (ret, s₂)
      ∧ gpios (made env free s₁) = ls.map (.give ())
      ∧ ls.Nodup
      ∧ linesHeld H s₂.log = linesHeld H s.log

section Runs
variable {env : Env} {p : Code Int} {s s' : St} {ret : Int} {ls : List Int} {H : Set Int}

/-! ## The calls of one function -/

theorem gpios_run (hrun : p.run (sem env) s = .ok (ret, s')) :
    gpios s'.log = (gpios (made env p s)).reverse ++ gpios s.log := by
  rw [run_log hrun, gpios, List.filterMap_append, List.filterMap_reverse]
  rfl

theorem gpios_made_took (hrun : p.run (sem env) s = .ok (ret, s'))
    (h : gpios s'.log = takeAll () ls (gpios s.log)) :
    gpios (made env p s) = ls.map (.take ()) := by
  rw [gpios_run hrun, takeAll_eq] at h
  exact List.reverse_injective (List.append_cancel_right h)

theorem gpios_made_gave (hrun : p.run (sem env) s = .ok (ret, s'))
    (h : gpios s'.log = giveAll () ls (gpios s.log)) :
    gpios (made env p s) = ls.map (.give ()) := by
  rw [gpios_run hrun, giveAll_eq] at h
  exact List.reverse_injective (List.append_cancel_right h)

/-- The log only grows. -/
theorem log_of_trace {x : Act × St} (hx : x ∈ p.trace (sem env) s) :
    ∃ new, x.2.log = new ++ s.log := by
  induction p generalizing s with
  | ret a => cases hx
  | act b k ih =>
      rw [Prog.trace] at hx
      rcases List.mem_cons.mp hx with rfl | hx
      · exact ⟨[], rfl⟩
      · cases hb : sem env b s with
        | error e =>
            rw [hb] at hx
            cases hx
        | ok r =>
            rw [hb] at hx
            obtain ⟨new, hnew⟩ := ih r.1 hx
            refine ⟨new ++ (madeBy env (b, s)).toList, ?_⟩
            rw [hnew, sem_log hb, List.append_assoc]

/-- What a call returned is what the kernel answered. -/
theorem answered_of_made {e : Call × Int} (he : e ∈ made env p s) :
    ∃ new, e.2 = env.answer (new ++ s.log) e.1 := by
  obtain ⟨⟨a, t⟩, htrace, hmade⟩ := List.mem_filterMap.mp he
  obtain ⟨new, hlog⟩ := log_of_trace htrace
  cases a with
  | call c =>
      cases hmade
      exact ⟨new, congrArg (env.answer · c) hlog⟩
  | _ => cases hmade

/-- Only a request that was granted takes a line. -/
theorem eq_of_gpioMove_take {e : Call × Int} {line : Int}
    (h : gpioMove e = some (.take () line)) : e = (.gpioRequest line, 0) := by
  obtain ⟨c, ret⟩ := e
  cases c with
  | gpioRequest k =>
      rw [gpioMove] at h
      split at h
      · rename_i hret
        cases h
        rw [hret]
      · cases h
  | gpioFree k => cases h
  | _ => cases h

/-- A line that was granted was not among those that the kernel refuses. -/
theorem not_mem_of_took (hk : env.RefusesAfter s.log H)
    (h : gpios (made env p s) = ls.map (.take ())) : ∀ line ∈ ls, line ∉ H := by
  intro line hl hmem
  have htake : Move.take () line ∈ gpios (made env p s) := by
    rw [h]
    exact List.mem_map_of_mem hl
  obtain ⟨e, he, hmove⟩ := List.mem_filterMap.mp htake
  obtain ⟨new, hret⟩ := answered_of_made he
  rw [eq_of_gpioMove_take hmove] at hret
  exact hk new line hmem hret.symm

theorem Env.RefusesAfter.run (hk : env.RefusesAfter s.log H)
    (hrun : p.run (sem env) s = .ok (ret, s')) : env.RefusesAfter s'.log H := by
  intro new line hl
  rw [run_log hrun, ← List.append_assoc]
  exact hk _ line hl

theorem mem_linesHeld_took (h : gpios s'.log = takeAll () ls (gpios s.log)) (line : Int) :
    line ∈ linesHeld H s'.log ↔ line ∈ ls ∨ line ∈ linesHeld H s.log := by
  rw [linesHeld, h, mem_heldFrom_takeAll]
  rfl

theorem mem_linesHeld_gave (h : gpios s'.log = giveAll () ls (gpios s.log)) (line : Int) :
    line ∈ linesHeld H s'.log ↔ line ∉ ls ∧ line ∈ linesHeld H s.log := by
  rw [linesHeld, h, mem_heldFrom_giveAll]
  rfl

/-- A `set` that returned 0 has all its lines. -/
theorem took_of_run (hset : ∀ s, wp (sem env) (fun _ => False) p s (Acquires env ls s))
    (hrun : p.run (sem env) s = .ok (0, s')) : gpios s'.log = takeAll () ls (gpios s.log) := by
  rcases of_run (hset s) hrun with ⟨-, htook⟩ | ⟨hne, -⟩
  · exact htook.lines
  · exact absurd rfl hne

/-! ## Set and free -/

theorem undoes {set free : Code Int} (hn : ls.Nodup)
    (hk : env.RefusesAfter s.log (linesHeld H s.log))
    (hset : ∀ s, wp (sem env) (fun _ => False) set s (Acquires env ls s))
    (hfree : ∀ s, wp (sem env) (fun _ => False) free s fun _ s' => Gave ls s s') :
    Undoes env H s set free := by
  intro s₁ hrun
  have htook := took_of_run hset hrun
  have hnew := not_mem_of_took hk (gpios_made_took hrun htook)
  obtain ⟨ret, s₂, hrun₂, hgave⟩ := run_of_wp (hfree s₁)
  refine ⟨ls, ret, s₂, gpios_made_took hrun htook, hnew, hrun₂, gpios_made_gave hrun₂ hgave.lines,
    hn, ?_⟩
  ext line
  rw [mem_linesHeld_gave hgave.lines, mem_linesHeld_took htook]
  constructor
  · rintro ⟨hnot, hl | hheld⟩
    · exact absurd hl hnot
    · exact hheld
  · exact fun hheld => ⟨fun hl => hnew line hl hheld, .inr hheld⟩

theorem acquires_setTrigOf (version : Version) (pin : Int) (s : St) :
    wp (sem env) (fun _ => False) (setTrigOf version pin) s (Acquires env (trigLines pin) s) := by
  cases version with
  | misc => exact Misc.acquires_setTrig pin s
  | sysfs => exact acquires_setTrig pin s

end Runs

/-- **FREEING UNDOES SETTING**, whatever lines are held at the start, by whomever, and
    whatever the kernel answers, as long as it refuses these: `freeTrig` undoes a `setTrig`
    that returned 0, `freeEcho` a
    `setEcho`, and one behind the other both, also where the second `set` was granted
    lines of the first. -/
theorem free_undoes_set (version : Version) (env : Env) (H : Set Int) (s : St)
    (hk : env.RefusesAfter s.log (linesHeld H s.log)) :
    (∀ pin, Undoes env H s (setTrigOf version pin) (freeTrig pin))
      ∧ (∀ pin, Undoes env H s (setEcho pin) (freeEcho pin))
      ∧ ∀ p q s₁ s₂, (setTrigOf version p).run (sem env) s = .ok (0, s₁) →
          (setEcho q).run (sem env) s₁ = .ok (0, s₂) →
          ∃ ret s₃ ret' s₄, (freeTrig p).run (sem env) s₂ = .ok (ret, s₃)
            ∧ (freeEcho q).run (sem env) s₃ = .ok (ret', s₄)
            ∧ linesHeld H s₄.log = linesHeld H s.log := by
  refine ⟨fun pin => ?_, fun pin => ?_, ?_⟩
  · exact undoes (linesOf_nodup (.inr rfl) pin) hk (acquires_setTrigOf version pin)
      (gave_freeTrig pin)
  · exact undoes (linesOf_nodup (.inl rfl) pin) hk (acquires_setEcho pin) (gave_freeEcho pin)
  · intro p q s₁ s₂ hrun₁ hrun₂
    have htrig := took_of_run (acquires_setTrigOf version p) hrun₁
    have hecho := took_of_run (acquires_setEcho q) hrun₂
    have hnewTrig := not_mem_of_took hk (gpios_made_took hrun₁ htrig)
    have hnewEcho := not_mem_of_took (hk.run hrun₁) (gpios_made_took hrun₂ hecho)
    obtain ⟨ret, s₃, hrun₃, hgave₃⟩ := run_of_wp (gave_freeTrig p s₂)
    obtain ⟨ret', s₄, hrun₄, hgave₄⟩ := run_of_wp (gave_freeEcho q s₃)
    refine ⟨ret, s₃, ret', s₄, hrun₃, hrun₄, ?_⟩
    ext line
    rw [mem_linesHeld_gave hgave₄.lines, mem_linesHeld_gave hgave₃.lines, mem_linesHeld_took hecho,
      mem_linesHeld_took htrig]
    constructor
    · rintro ⟨hne, hnt, he | ht | hheld⟩
      · exact absurd he hne
      · exact absurd ht hnt
      · exact hheld
    · intro hheld
      exact ⟨fun he => hnewEcho line he hheld, fun ht => hnewTrig line ht hheld, .inr (.inr hheld)⟩

/-- Line 20 is in use. -/
theorem free_undoes_set_busy :
    (lineEnv [20]).RefusesAfter (initialSt .misc).log (linesHeld {20} (initialSt .misc).log)
      ∧ ∃ s₁ ret s₂, (Misc.setTrig 13).run (sem (lineEnv [20])) (initialSt .misc) = .ok (0, s₁)
          ∧ (freeTrig 13).run (sem (lineEnv [20])) s₁ = .ok (ret, s₂)
          ∧ linesHeld {20} s₂.log = {20} := by
  have hk : (lineEnv [20]).RefusesAfter (initialSt .misc).log
      (linesHeld {20} (initialSt .misc).log) := by
    intro new line hline
    have heq : line = 20 := hline
    show (if line ∈ [20] ∨ Taken (gpios _) line then (-16 : Int) else 0) ≠ 0
    rw [if_pos (.inl (List.mem_singleton.mpr heq))]
    decide
  obtain ⟨ls, ret, s₂, -, -, hrun, -, -, hheld⟩ :=
    (free_undoes_set .misc (lineEnv [20]) {20} (initialSt .misc) hk).1 13 _ rfl
  exact ⟨hk, _, ret, s₂, rfl, hrun, hheld⟩

end HcSr04
