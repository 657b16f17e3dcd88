import KernelRocks.InterleavingProofs

/-! # Monitors — what a lock protects

    A lock has one holder, and the code that holds it works on something that the
    others leave alone.  While the lock is free the resource is as it should be
    (`R`); while a task holds it, that task's own assertion says how far it has
    come (`S`).

    `MonitorTurn` lists what a turn may be for one lock; `Reach.monitor` is the rule.
    A task outside may do what it likes to the rest of the memory. -/

namespace Interleaving

variable {T M Q A : Type} [DecidableEq T] {exec : T → M → Q → A → Option (M × Q)}

/-- A turn of task `t` as one lock sees it. -/
inductive MonitorTurn (holder : M → Option T) (held : Q → Prop) (R : M → Prop) (S : M → Q → Prop)
    (t : T) (m : M) (q : Q) (m' : M) (q' : Q) : Prop where
  | take : ¬ held q → held q' → holder m = none → holder m' = some t → (R m → S m' q') →
      MonitorTurn holder held R S t m q m' q'
  | inside : held q → held q' → holder m' = holder m → (S m q → S m' q') →
      MonitorTurn holder held R S t m q m' q'
  | leave : held q → ¬ held q' → holder m' = none → (S m q → R m') →
      MonitorTurn holder held R S t m q m' q'
  | outside : ¬ held q → ¬ held q' → holder m' = holder m → (R m → R m') →
      (∀ r, held r → S m r → S m' r) → MonitorTurn holder held R S t m q m' q'

/-- The lock's word names who is inside; the resource is as it should be when nobody is,
    and as the holder says when somebody is. -/
structure Monitored (holder : M → Option T) (held : Q → Prop) (R : M → Prop) (S : M → Q → Prop)
    (s : Sys T M Q) : Prop where
  owner : ∀ t, held (s.loc t) ↔ holder s.mem = some t
  free : holder s.mem = none → R s.mem
  within : ∀ t, held (s.loc t) → S s.mem (s.loc t)

variable {holder : M → Option T} {held : Q → Prop} {R : M → Prop} {S : M → Q → Prop} {s : Sys T M Q}

omit [DecidableEq T] in
/-- **MUTUAL EXCLUSION**. -/
theorem Monitored.exclusive (h : Monitored holder held R S s) {t u : T} (ht : held (s.loc t))
    (hu : held (s.loc u)) : t = u :=
  Option.some.inj (((h.owner t).mp ht).symm.trans ((h.owner u).mp hu))

/-- After a turn: what is to be said of its task, and of the others, who are where they
    were. -/
theorem Monitored.of_update {t : T} {m' : M} {q' : Q} (hself : held q' ↔ holder m' = some t)
    (hothers : ∀ u, u ≠ t → (held (s.loc u) ↔ holder m' = some u)) (hfree : holder m' = none → R m')
    (hS : held q' → S m' q') (hSothers : ∀ u, u ≠ t → held (s.loc u) → S m' (s.loc u)) :
    Monitored holder held R S ⟨m', Function.update s.loc t q'⟩ := by
  refine ⟨fun u => ?_, hfree, fun u => ?_⟩
  · show held (Function.update s.loc t q' u) ↔ holder m' = some u
    by_cases hut : u = t
    · rw [hut, Function.update_self]
      exact hself
    · rw [Function.update_of_ne hut]
      exact hothers u hut
  · show held (Function.update s.loc t q' u) → S m' (Function.update s.loc t q' u)
    by_cases hut : u = t
    · rw [hut, Function.update_self]
      exact hS
    · rw [Function.update_of_ne hut]
      exact hSothers u hut

/-- One turn. -/
theorem Monitored.turn (h : Monitored holder held R S s) {t : T} {m' : M} {q' : Q}
    (hm : MonitorTurn holder held R S t s.mem (s.loc t) m' q') :
    Monitored holder held R S ⟨m', Function.update s.loc t q'⟩ := by
  -- while a task is inside, nobody else is
  have alone {u : T} (hq : held (s.loc t)) (hut : u ≠ t) : ¬ held (s.loc u) := fun hu =>
    hut (h.exclusive hu hq)
  cases hm with
  | take hq hq' hfree hnew hS =>
      have empty (u : T) : ¬ held (s.loc u) := fun hu => by
        rw [h.owner u, hfree] at hu
        cases hu
      refine .of_update (iff_of_true hq' hnew) (fun u hut => ?_) (fun hn => ?_)
        (fun _ => hS (h.free hfree)) (fun u _ hu => absurd hu (empty u))
      · rw [hnew]
        exact iff_of_false (empty u) fun he => hut (Option.some.inj he).symm
      · exact absurd (hnew.symm.trans hn) nofun
  | inside hq hq' hsame hS =>
      refine .of_update (iff_of_true hq' (hsame.trans ((h.owner t).mp hq))) (fun u _ => ?_)
        (fun hn => ?_) (fun _ => hS (h.within t hq)) (fun u hut hu => absurd hu (alone hq hut))
      · rw [hsame]
        exact h.owner u
      · exact absurd ((hsame.symm.trans hn).symm.trans ((h.owner t).mp hq)) nofun
  | leave hq hq' hfree hR =>
      refine .of_update ?_ (fun u hut => ?_) (fun _ => hR (h.within t hq))
        (fun hin => absurd hin hq')
        (fun u hut hu => absurd hu (alone hq hut))
      · rw [hfree]
        exact iff_of_false hq' nofun
      · rw [hfree]
        exact iff_of_false (alone hq hut) nofun
  | outside hq hq' hsame hR hS =>
      refine .of_update (iff_of_false hq' ?_) (fun u _ => ?_)
        (fun hn => hR (h.free (hsame.symm.trans hn)))
        (fun hin => absurd hin hq') (fun u _ hu => hS _ hu (h.within u hu))
      · rw [hsame, ← h.owner t]
        exact hq
      · rw [hsame]
        exact h.owner u

/-- **MONITOR RULE**: if every turn is one of the four, the lock protects its resource in
    every reached state. -/
theorem Reach.monitor {C : Sys T M Q → T → A → Prop} {init : Sys T M Q}
    (h0 : holder init.mem = none ∧ R init.mem ∧ ∀ t, ¬ held (init.loc t))
    (hturn : ∀ s t a m' q', Reach exec C init s → Monitored holder held R S s → C s t a →
      exec t s.mem (s.loc t) a = some (m', q') →
      MonitorTurn holder held R S t s.mem (s.loc t) m' q')
    (h : Reach exec C init s) : Monitored holder held R S s := by
  obtain ⟨hfree, hR, hout⟩ := h0
  refine Reach.invariant ⟨fun t => ?_, fun _ => hR, fun t ht => absurd ht (hout t)⟩ ?_ h
  · rw [hfree]
    exact iff_of_false (hout t) nofun
  · intro s s' t a hr hI hC hs
    obtain ⟨m', q', he, rfl⟩ := turn_eq_some hs
    exact hI.turn (hturn s t a m' q' hr hI hC he)

end Interleaving
