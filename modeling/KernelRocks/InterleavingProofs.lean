import Mathlib.Logic.Function.Basic
import Mathlib.Logic.Relation

/-! # Interleaved tasks over a shared memory

    The concurrent part of every driver here has the same shape: any number
    of tasks, each with a local state (a program counter with its locals),
    take turns on one shared memory.  A task's own code is a partial function
    `exec`; a turn in which it is not defined is not possible (a lock is held,
    a sleeper has not been woken, the task is in user mode).

    This file holds what does not depend on the code:

    * `Reach` — the states reached by runs all of whose turns meet a condition
      on the state before the turn (`Free` when there is none);
    * `Reach.invariant` — what holds at first and is kept by every turn holds
      in every reached state;
    * `Reach.modular` — the same, task by task: an assertion about each task
      that its own turns keep and the turns of the others do not disturb. -/

namespace Interleaving

variable {T M Q A : Type} [DecidableEq T]

/-- A shared memory and the local state of every task. -/
structure Sys (T M Q : Type) where
  mem : M
  loc : T → Q

/-- One turn of task `t`: the memory and `t`'s own local state change, the
    local states of the others do not. -/
def turn (exec : T → M → Q → A → Option (M × Q)) (s : Sys T M Q) (t : T) (a : A) :
    Option (Sys T M Q) :=
  (exec t s.mem (s.loc t) a).map fun r => ⟨r.1, Function.update s.loc t r.2⟩

variable {exec : T → M → Q → A → Option (M × Q)}

/-- What a turn did. -/
theorem turn_eq_some {s s' : Sys T M Q} {t : T} {a : A} (h : turn exec s t a = some s') :
    ∃ m' q', exec t s.mem (s.loc t) a = some (m', q')
      ∧ s' = ⟨m', Function.update s.loc t q'⟩ := by
  obtain ⟨⟨m', q'⟩, he, hs⟩ := Option.map_eq_some_iff.mp h
  exact ⟨m', q', he, hs.symm⟩

theorem turn_of_exec {s : Sys T M Q} {t : T} {a : A} {m' : M} {q' : Q}
    (h : exec t s.mem (s.loc t) a = some (m', q')) :
    turn exec s t a = some ⟨m', Function.update s.loc t q'⟩ := by
  rw [turn, h]
  rfl

/-- No condition on the turns. -/
def Free : Sys T M Q → T → A → Prop := fun _ _ _ => True

/-- The states reached from `init` by turns that all meet `C`. -/
inductive Reach (exec : T → M → Q → A → Option (M × Q))
    (C : Sys T M Q → T → A → Prop) (init : Sys T M Q) : Sys T M Q → Prop where
  | refl : Reach exec C init init
  | turn {s s' : Sys T M Q} (t : T) (a : A) : Reach exec C init s → C s t a →
      turn exec s t a = some s' → Reach exec C init s'

namespace Reach

variable {C C' : Sys T M Q → T → A → Prop} {init s s' : Sys T M Q}

/-- A weaker condition on the turns reaches at least as much. -/
theorem mono (hC : ∀ s t a, C s t a → C' s t a) (h : Reach exec C init s) :
    Reach exec C' init s := by
  induction h with
  | refl => exact refl
  | turn t a _ hc hs ih => exact turn t a ih (hC _ _ _ hc) hs

/-- A condition that follows, in every state reached under both, from the one assumed. -/
theorem strengthen (hC : ∀ s s' t a, Reach exec C init s → Reach exec C' init s → C s t a →
      Interleaving.turn exec s t a = some s' → C' s t a) (h : Reach exec C init s) :
    Reach exec C' init s := by
  induction h with
  | refl => exact refl
  | turn t a hr hc hs ih => exact turn t a ih (hC _ _ t a hr ih hc hs) hs

theorem trans (h1 : Reach exec C init s) (h2 : Reach exec C s s') : Reach exec C init s' := by
  induction h2 with
  | refl => exact h1
  | turn t a _ hc hs ih => exact turn t a ih hc hs

/-- Appending one turn given by the task's own code. -/
theorem exec_turn {t : T} {a : A} {m' : M} {q' : Q} (h : Reach exec Free init s)
    (he : exec t s.mem (s.loc t) a = some (m', q')) :
    Reach exec Free init ⟨m', Function.update s.loc t q'⟩ :=
  turn t a h trivial (turn_of_exec he)

/-- **INVARIANT RULE**: the turns that meet `C`, taken in reached states, keep
    `I`. -/
theorem invariant {I : Sys T M Q → Prop} (h0 : I init)
    (hstep : ∀ s s' t a, Reach exec C init s → I s → C s t a →
      Interleaving.turn exec s t a = some s' → I s')
    (h : Reach exec C init s) : I s := by
  induction h with
  | refl => exact h0
  | turn t a hr hc hs ih => exact hstep _ _ t a hr ih hc hs

/-- **TASK-MODULAR RULE**: `I` is about the memory, `P t` about the memory and
    the local state of `t`.  A task's own turn keeps `I` and its `P`; the turn
    of another task, whose own `P` is known as well, does not disturb it.  What
    is already known of the reached states may be used in both. -/
theorem modular {I : M → Prop} {P : T → M → Q → Prop}
    (h0 : I init.mem ∧ ∀ t, P t init.mem (init.loc t))
    (own : ∀ s t a m' q', Reach exec C init s → C s t a → I s.mem → P t s.mem (s.loc t) →
      exec t s.mem (s.loc t) a = some (m', q') → I m' ∧ P t m' q')
    (other : ∀ s t u a m' q', Reach exec C init s → C s t a → t ≠ u → I s.mem →
      P t s.mem (s.loc t) → P u s.mem (s.loc u) →
      exec t s.mem (s.loc t) a = some (m', q') → P u m' (s.loc u))
    (h : Reach exec C init s) : I s.mem ∧ ∀ t, P t s.mem (s.loc t) := by
  refine invariant (I := fun s => I s.mem ∧ ∀ t, P t s.mem (s.loc t)) h0 ?_ h
  rintro s s' t a hr ⟨hI, hP⟩ hc hs
  obtain ⟨m', q', he, rfl⟩ := turn_eq_some hs
  obtain ⟨hI', hPt⟩ := own s t a _ _ hr hc hI (hP t) he
  refine ⟨hI', fun u => ?_⟩
  by_cases hu : u = t
  · subst hu
    show P u m' (Function.update s.loc u q' u)
    rw [Function.update_self]
    exact hPt
  · show P u m' (Function.update s.loc t q' u)
    rw [Function.update_of_ne hu]
    exact other s t u a _ _ hr hc (Ne.symm hu) hI (hP t) (hP u) he

end Reach

/-! ## A machine inside another -/

/-- What is seen of a state through a view of the memory and one of the local states. -/
def Sys.map {M' Q' : Type} (f : M → M') (g : Q → Q') (s : Sys T M Q) : Sys T M' Q' :=
  ⟨f s.mem, fun t => g (s.loc t)⟩

/-- **PROJECTION RULE**: if every turn of the outer machine is, as the inner one sees
    it, nothing at all or a turn of the inner machine that meets `C'`, then the
    inner machine's part of every reached state is reached under `C'`. -/
theorem Reach.project {M' Q' A' : Type} {exec' : T → M' → Q' → A' → Option (M' × Q')}
    {C : Sys T M Q → T → A → Prop} {C' : Sys T M' Q' → T → A' → Prop} {init s : Sys T M Q}
    (f : M → M') (g : Q → Q')
    (hstep : ∀ s t a m' q', Reach exec C init s → C s t a →
      exec t s.mem (s.loc t) a = some (m', q') →
      (f m' = f s.mem ∧ g q' = g (s.loc t))
        ∨ ∃ b, C' (s.map f g) t b ∧ exec' t (f s.mem) (g (s.loc t)) b = some (f m', g q'))
    (h : Reach exec C init s) : Reach exec' C' (init.map f g) (s.map f g) := by
  induction h with
  | refl => exact Reach.refl
  | @turn s s' t a hr hc hs ih =>
      obtain ⟨m', q', he, rfl⟩ := turn_eq_some hs
      have hmap : Sys.map f g ⟨m', Function.update s.loc t q'⟩
          = ⟨f m', Function.update (s.map f g).loc t (g q')⟩ :=
        congrArg (Sys.mk (f m')) (funext fun u => Function.apply_update (fun _ => g) s.loc t q' u)
      rw [hmap]
      rcases hstep s t a m' q' hr hc he with ⟨hf, hg⟩ | ⟨b, hb, he'⟩
      · rw [hf, hg]
        exact (Function.update_eq_self t (s.map f g).loc).symm ▸ ih
      · exact Reach.turn t b ih hb (turn_of_exec he')

/-! ## One task on its own -/

/-- What task `t` can do while no other task moves. -/
def Solo (exec : T → M → Q → A → Option (M × Q)) (t : T) : M × Q → M × Q → Prop :=
  Relation.ReflTransGen fun x y => ∃ a, exec t x.1 x.2 a = some y

omit [DecidableEq T] in
theorem Solo.refl {t : T} {x : M × Q} : Solo exec t x x := Relation.ReflTransGen.refl

omit [DecidableEq T] in
theorem Solo.trans {t : T} {x y z : M × Q} (h : Solo exec t x y) (h' : Solo exec t y z) :
    Solo exec t x z :=
  Relation.ReflTransGen.trans h h'

omit [DecidableEq T] in
/-- A turn in front. -/
theorem Solo.head {t : T} {m m' : M} {q q' : Q} {y : M × Q} (a : A)
    (h : exec t m q a = some (m', q')) (h' : Solo exec t (m', q') y) : Solo exec t (m, q) y :=
  Relation.ReflTransGen.head ⟨a, h⟩ h'

/-- The states reached when only `t` moves. -/
theorem Reach.of_solo {s : Sys T M Q} {t : T} {x y : M × Q} (h : Solo exec t x y) :
    x = (s.mem, s.loc t) → ∃ s', Reach exec Free s s' ∧ (s'.mem, s'.loc t) = y
      ∧ ∀ u, u ≠ t → s'.loc u = s.loc u := by
  intro hx
  induction h with
  | refl => exact ⟨s, Reach.refl, hx.symm, fun _ _ => rfl⟩
  | @tail y z _ hstep ih =>
      obtain ⟨s', hr, rfl, hloc⟩ := ih
      obtain ⟨a, ha⟩ := hstep
      refine ⟨⟨z.1, Function.update s'.loc t z.2⟩, hr.exec_turn (a := a) ha, ?_, fun u hu => ?_⟩
      · show (z.1, Function.update s'.loc t z.2 t) = z
        rw [Function.update_self]
      · show Function.update s'.loc t z.2 u = s.loc u
        rw [Function.update_of_ne hu]
        exact hloc u hu

/-! ## Schedules -/

/-- The turns of a schedule, one after the other, as long as each passes the test
    `ok` on the state before it. -/
def runWhen (exec : T → M → Q → A → Option (M × Q)) (ok : Sys T M Q → T → A → Bool) :
    Sys T M Q → List (T × A) → Option (Sys T M Q)
  | s, [] => some s
  | s, (t, a) :: rest =>
      if ok s t a then (turn exec s t a).bind fun s' => runWhen exec ok s' rest else none

/-- The end of a schedule is reached under any condition the test is enough for,
    given what holds along the schedule. -/
theorem Reach.of_runWhen {C : Sys T M Q → T → A → Prop} {ok : Sys T M Q → T → A → Bool}
    {E : Sys T M Q → Prop} (hok : ∀ s t a, E s → ok s t a = true → C s t a)
    (hE : ∀ s s' t a, E s → ok s t a = true → Interleaving.turn exec s t a = some s' → E s')
    {s s' : Sys T M Q} (h0 : E s) :
    ∀ {sched : List (T × A)}, runWhen exec ok s sched = some s' → Reach exec C s s' := by
  intro sched
  induction sched generalizing s with
  | nil =>
      intro h
      cases h
      exact Reach.refl
  | cons hd rest ih =>
      intro h
      obtain ⟨t, a⟩ := hd
      rw [runWhen] at h
      split at h
      · rename_i hta
        obtain ⟨s1, h1, h2⟩ := Option.bind_eq_some_iff.mp h
        have hr : Reach exec C s s1 := Reach.turn t a Reach.refl (hok s t a h0 hta) h1
        exact hr.trans (ih (hE s s1 t a h0 hta h1) h2)
      · cases h

/-- Only the tasks of the list have moved. -/
def Among (ts : List T) (init s : Sys T M Q) : Prop := ∀ u, u ∉ ts → s.loc u = init.loc u

theorem Among.turn {ts : List T} {init s s' : Sys T M Q} {t : T} {a : A}
    (h : Among ts init s) (ht : t ∈ ts) (hs : Interleaving.turn exec s t a = some s') :
    Among ts init s' := by
  intro u hu
  obtain ⟨m', q', -, rfl⟩ := turn_eq_some hs
  have hut : u ≠ t := fun h => hu (h ▸ ht)
  show Function.update s.loc t q' u = init.loc u
  rw [Function.update_of_ne hut]
  exact h u hu

/-- The state after a schedule of these tasks whose turns all pass a test; one that
    is not possible leaves the initial state. -/
def runAmong (exec : T → M → Q → A → Option (M × Q)) (init : Sys T M Q) (ts : List T)
    (ok : Sys T M Q → T → A → Bool) (sched : List (T × A)) : Sys T M Q :=
  (runWhen exec (fun s t a => decide (t ∈ ts) && ok s t a) init sched).getD init

theorem Reach.of_runAmong {init : Sys T M Q} {ts : List T} {C : Sys T M Q → T → A → Prop}
    {ok : Sys T M Q → T → A → Bool}
    (hok : ∀ s t a, Among ts init s → ok s t a = true → C s t a) (sched : List (T × A)) :
    Reach exec C init (runAmong exec init ts ok sched) := by
  rw [runAmong]
  cases h : runWhen exec (fun s t a => decide (t ∈ ts) && ok s t a) init sched with
  | none => exact Reach.refl
  | some s =>
      refine Reach.of_runWhen (E := Among ts init) ?_ ?_ (fun _ _ => rfl) h
      · intro s t a hE hta
        exact hok s t a hE (Bool.and_eq_true_iff.mp hta).2
      · intro s s' t a hE hta hs
        exact hE.turn (of_decide_eq_true (Bool.and_eq_true_iff.mp hta).1) hs

/-- Nobody else has moved at the end of such a schedule. -/
theorem among_runAmong (init : Sys T M Q) (ts : List T) (ok : Sys T M Q → T → A → Bool)
    (sched : List (T × A)) : Among ts init (runAmong exec init ts ok sched) := by
  rw [runAmong]
  cases h : runWhen exec (fun s t a => decide (t ∈ ts) && ok s t a) init sched with
  | none => exact fun _ _ => rfl
  | some s =>
      have hr : Reach exec (fun _ t _ => t ∈ ts) init s := by
        refine Reach.of_runWhen (E := fun _ => True) ?_ (fun _ _ _ _ _ _ _ => trivial) trivial h
        intro s t a _ hta
        exact of_decide_eq_true (Bool.and_eq_true_iff.mp hta).1
      refine Reach.invariant (I := Among ts init) (fun _ _ => rfl) ?_ hr
      intro s s' t a _ hE ht hs
      exact hE.turn ht hs

omit [DecidableEq T] in
/-- What is tested on the tasks of the list and holds of the others' first places
    holds of all. -/
theorem Among.forall {ts : List T} {init s : Sys T M Q} {f : Q → Bool}
    (ho : Among ts init s) (h : ts.all (fun u => f (s.loc u)) = true)
    (h0 : ∀ u, f (init.loc u) = true) (u : T) : f (s.loc u) = true := by
  by_cases hu : u ∈ ts
  · exact List.all_eq_true.mp h u hu
  · rw [ho u hu]
    exact h0 u

end Interleaving
