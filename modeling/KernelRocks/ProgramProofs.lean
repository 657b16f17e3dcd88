import Mathlib.Logic.Basic

/-! # Programs — an action, an answer, and the rest

    Code that takes locks and calls the kernel, kept as the tree of what it does
    next: a program has ended, or it performs an action and goes on with the
    answer.  One text can then be run to its end by itself (`Prog.run`), or be
    taken one action at a time.

    `wp` is the weakest precondition of a run.  A run may end in a fault; `ok`
    says which faults the postcondition tolerates.  Each construct of a program
    has its rule, and what a function does is stated once, as a rule of its own.

    `along` speaks about the way as well: every action meets a state in which it
    is allowed, also those of a run that faults further on.  `Between` is the
    states between complete calls, one after the other. -/

namespace Program

/-- A program over the actions `A`, with answers `R`. -/
inductive Prog (A : Type) (R : A → Type) (α : Type) where
  | ret (a : α)
  | act (a : A) (k : R a → Prog A R α)

section
variable {A : Type} {R : A → Type} {α β : Type}

def Prog.bind : Prog A R α → (α → Prog A R β) → Prog A R β
  | .ret a, f => f a
  | .act a k, f => .act a fun r => (k r).bind f

instance : Monad (Prog A R) where
  pure := .ret
  bind := .bind

/-- The program of a single action. -/
def perform (a : A) : Prog A R (R a) := .act a .ret

/-! ## Running a program by itself -/

variable {S F : Type}

/-- The run under `sem`, which answers an action and moves the state, or faults. -/
def Prog.run (sem : (a : A) → S → Except F (R a × S)) :
    Prog A R α → S → Except F (α × S)
  | .ret a, s => .ok (a, s)
  | .act a k, s =>
      match sem a s with
      | .ok (r, s') => (k r).run sem s'
      | .error e => .error e

variable (sem : (a : A) → S → Except F (R a × S))

/-- The run ends in `Q`, or in a tolerated fault. -/
def ends (ok : F → Prop) (Q : α → S → Prop) : Except F (α × S) → Prop
  | .ok (a, s) => Q a s
  | .error e => ok e

/-- The weakest precondition of `Q`. -/
def wp (ok : F → Prop) (p : Prog A R α) (s : S) (Q : α → S → Prop) : Prop :=
  ends ok Q (p.run sem s)

variable {sem} {ok : F → Prop}

theorem run_bind (p : Prog A R α) (f : α → Prog A R β) (s : S) :
    (p >>= f).run sem s =
      match p.run sem s with
      | .ok (a, s') => (f a).run sem s'
      | .error e => .error e := by
  change (p.bind f).run sem s = _
  induction p generalizing s with
  | ret a => rfl
  | act a k ih =>
      simp only [Prog.bind, Prog.run]
      cases h : sem a s with
      | error e => rfl
      | ok x => exact ih x.1 x.2

@[simp] theorem wp_pure (a : α) (s : S) (Q : α → S → Prop) :
    wp sem ok (pure a) s Q ↔ Q a s := Iff.rfl

@[simp] theorem wp_bind (p : Prog A R α) (f : α → Prog A R β) (s : S)
    (Q : β → S → Prop) :
    wp sem ok (p >>= f) s Q ↔ wp sem ok p s fun a s' => wp sem ok (f a) s' Q := by
  unfold wp
  rw [run_bind]
  cases h : p.run sem s with
  | error e => rfl
  | ok x => rfl

/-- What an action does is what `sem` says. -/
theorem wp_perform (a : A) (s : S) (Q : R a → S → Prop) :
    wp sem ok (perform a) s Q ↔ ends ok Q (sem a s) := by
  unfold wp perform
  simp only [Prog.run]
  cases h : sem a s with
  | error e => rfl
  | ok x => rfl

@[simp] theorem wp_ite (c : Prop) [Decidable c] (p q : Prog A R α) (s : S)
    (Q : α → S → Prop) :
    wp sem ok (if c then p else q) s Q ↔
      (c → wp sem ok p s Q) ∧ (¬ c → wp sem ok q s Q) := by
  by_cases h : c
  · simp [h]
  · simp [h]

/-- The rule of consequence. -/
theorem wp_mono {p : Prog A R α} {s : S} {Q Q' : α → S → Prop}
    (h : wp sem ok p s Q) (hQ : ∀ a s', Q a s' → Q' a s') : wp sem ok p s Q' := by
  unfold wp at h ⊢
  revert h
  cases p.run sem s with
  | error e => exact fun h => h
  | ok x => exact fun h => hQ x.1 x.2 h

/-- Two facts about one run. -/
theorem wp_and {p : Prog A R α} {s : S} {Q Q' : α → S → Prop} (h : wp sem ok p s Q)
    (h' : wp sem ok p s Q') : wp sem ok p s fun a s' => Q a s' ∧ Q' a s' := by
  unfold wp at h h' ⊢
  revert h h'
  cases p.run sem s with
  | error e => exact fun h _ => h
  | ok x => exact fun h h' => ⟨h, h'⟩

/-- With no fault tolerated, the run returns. -/
theorem run_of_wp {p : Prog A R α} {s : S} {Q : α → S → Prop}
    (h : wp sem (fun _ => False) p s Q) : ∃ a s', p.run sem s = .ok (a, s') ∧ Q a s' := by
  unfold wp at h
  cases hr : p.run sem s with
  | error e =>
      rw [hr] at h
      exact h.elim
  | ok x =>
      rw [hr] at h
      exact ⟨x.1, x.2, rfl, h⟩

/-- What is known of a run that returns. -/
theorem of_run {p : Prog A R α} {s s' : S} {a : α} {Q : α → S → Prop} (h : wp sem ok p s Q)
    (hr : p.run sem s = .ok (a, s')) : Q a s' := by
  unfold wp at h
  rw [hr] at h
  exact h

/-- There is one run, so what it returns in any case is what it returns. -/
theorem forall_run_iff {p : Prog A R α} {s s' : S} {a : α} (h : p.run sem s = .ok (a, s'))
    {P : α → S → Prop} : (∀ b t, p.run sem s = .ok (b, t) → P b t) ↔ P a s' := by
  constructor
  · exact fun hall => hall a s' h
  · intro hP b t hrun
    rw [h] at hrun
    cases hrun
    exact hP

theorem exists_run_iff {p : Prog A R α} {s s' : S} {a : α} (h : p.run sem s = .ok (a, s'))
    {P : α → S → Prop} : (∃ b t, p.run sem s = .ok (b, t) ∧ P b t) ↔ P a s' := by
  constructor
  · rintro ⟨b, t, hrun, hP⟩
    rw [h] at hrun
    cases hrun
    exact hP
  · exact fun hP => ⟨a, s', h, hP⟩

/-! ## Along a run -/

/-- The actions of a run, each with the state it meets. -/
def Prog.trace (sem : (a : A) → S → Except F (R a × S)) : Prog A R α → S → List (A × S)
  | .ret _, _ => []
  | .act a k, s =>
      (a, s) :: match sem a s with
        | .ok (r, s') => (k r).trace sem s'
        | .error _ => []

/-- In a run that returns no action faults. -/
theorem answered_of_run {sem : (a : A) → S → Except F (R a × S)} {p : Prog A R α} {s : S}
    {x : α × S}
    (h : p.run sem s = .ok x) : ∀ y ∈ p.trace sem s, ∃ r, sem y.1 y.2 = .ok r := by
  induction p generalizing s with
  | ret a => exact nofun
  | act a k ih =>
      intro y hy
      rw [Prog.run] at h
      rw [Prog.trace] at hy
      cases hsem : sem a s with
      | error e =>
          rw [hsem] at h
          cases h
      | ok r =>
          rw [hsem] at h hy
          rcases List.mem_cons.mp hy with rfl | hy
          · exact ⟨r, hsem⟩
          · exact ih r.1 h y hy

/-- Every action meets `J`, and if the run returns it ends in `Q`. -/
structure along (sem : (a : A) → S → Except F (R a × S)) (J : A → S → Prop) (p : Prog A R α)
    (s : S) (Q : α → S → Prop) : Prop where
  way : ∀ x ∈ p.trace sem s, J x.1 x.2
  ends : ∀ a s', p.run sem s = .ok (a, s') → Q a s'

variable {J : A → S → Prop} {s : S}

theorem along_ret (a : α) {Q : α → S → Prop} (h : Q a s) : along sem J (.ret a) s Q := by
  refine ⟨nofun, ?_⟩
  rintro a' s' ⟨⟩
  exact h

/-- An action in front. -/
theorem along_act {a : A} {k : R a → Prog A R α} {Q : α → S → Prop} (hJ : J a s)
    (hk : ∀ r s', sem a s = .ok (r, s') → along sem J (k r) s' Q) :
    along sem J (.act a k) s Q := by
  cases h : sem a s with
  | error e =>
      refine ⟨?_, ?_⟩
      · simp only [Prog.trace, h]
        rintro x hx
        rw [List.mem_singleton.mp hx]
        exact hJ
      · simp only [Prog.run, h]
        exact nofun
  | ok x =>
      obtain ⟨hway, hends⟩ := hk x.1 x.2 h
      refine ⟨?_, ?_⟩
      · simp only [Prog.trace, h]
        intro y hy
        rcases List.mem_cons.mp hy with rfl | hy
        · exact hJ
        · exact hway y hy
      · simp only [Prog.run, h]
        exact hends

theorem along_mono {p : Prog A R α} {Q Q' : α → S → Prop} (h : along sem J p s Q)
    (hQ : ∀ a s', Q a s' → Q' a s') : along sem J p s Q' :=
  ⟨h.way, fun a s' hr => hQ a s' (h.ends a s' hr)⟩

theorem along_bind {p : Prog A R α} {f : α → Prog A R β} {Q : β → S → Prop}
    (h : along sem J p s fun a s' => along sem J (f a) s' Q) : along sem J (p >>= f) s Q := by
  change along sem J (p.bind f) s Q
  induction p generalizing s with
  | ret a => exact h.ends a s rfl
  | act a k ih =>
      refine along_act ?_ fun r s' hr => ih r ⟨?_, ?_⟩
      · refine h.way (a, s) ?_
        rw [Prog.trace]
        exact List.mem_cons_self
      · intro x hx
        refine h.way x ?_
        simp only [Prog.trace, hr]
        exact List.mem_cons_of_mem _ hx
      · intro b s'' hb
        refine h.ends b s'' ?_
        simp only [Prog.run, hr]
        exact hb

theorem along_perform {a : A} {Q : R a → S → Prop} (hJ : J a s)
    (h : ∀ r s', sem a s = .ok (r, s') → Q r s') : along sem J (perform a) s Q :=
  along_act hJ fun r s' hr => along_ret r (h r s' hr)

theorem along_ite {c : Prop} [Decidable c] {p q : Prog A R α} {Q : α → S → Prop}
    (hp : c → along sem J p s Q) (hq : ¬ c → along sem J q s Q) :
    along sem J (if c then p else q) s Q := by
  split
  · exact hp ‹_›
  · exact hq ‹_›

end

/-! ## Complete calls, one after the other -/

/-- The states between the calls of a run whose calls all meet `C` when they are
    made. -/
inductive Between {S O : Type} (call : O → S → S → Prop) (C : S → O → Prop) (init : S) :
    S → Prop where
  | start : Between call C init init
  | call {s s' : S} (o : O) : Between call C init s → C s o → call o s s' →
      Between call C init s'

theorem Between.invariant {S O : Type} {call : O → S → S → Prop} {C : S → O → Prop} {init s : S}
    {I : S → Prop} (h0 : I init) (hcall : ∀ s s' o, I s → C s o → call o s s' → I s')
    (h : Between call C init s) : I s := by
  induction h with
  | start => exact h0
  | call o _ hc hs ih => exact hcall _ _ o ih hc hs

/-- The state behind these calls, each of which passes the test on the state before it;
    if that is not possible, the first state. -/
def afterCalls {S O : Type} (call : S → O → Option S) (ok : S → O → Bool) (s : S) : List O → S
  | [] => s
  | o :: os =>
      if ok s o then
        match call s o with
        | some s' => afterCalls call ok s' os
        | none => s
      else s

theorem Between.afterCalls {S O : Type} {call : S → O → Option S} {ok : S → O → Bool}
    {C : S → O → Prop} {init s : S} (hok : ∀ s o, ok s o = true → C s o)
    (h : Between (fun o s s' => call s o = some s') C init s) (os : List O) :
    Between (fun o s s' => call s o = some s') C init (afterCalls call ok s os) := by
  induction os generalizing s with
  | nil => exact h
  | cons o os ih =>
      rw [Program.afterCalls]
      split
      · rename_i ho
        cases hs : call s o with
        | none => exact h
        | some s' => exact ih (h.call o (hok s o ho) hs)
      · exact h

end Program
