import KernelRocks.InterleavingProofs
import Mathlib.Algebra.BigOperators.Group.Finset.Basic
import Mathlib.Algebra.GroupWithZero.Nat
import Mathlib.Algebra.Order.BigOperators.Group.Finset

/-! # How long tasks can run — potentials over schedules

    A schedule is a list of turns.  If a potential of the state drops with every
    turn, but for the turns that pay for what they add, then no schedule is
    longer than what was there and what was paid: `Run.length_le`, and `Run.paid_le`
    where not all turns count.  Then the tasks come to rest: `Run.exists_rest`.

    For interleaved tasks the potential is a sum over the tasks of what each can
    still do (`potential`).  A turn may add to the others' shares as long as it
    gives up as much of its own: `potential_turn`. -/

namespace Interleaving

variable {T M Q A : Type} [DecidableEq T] {exec : T → M → Q → A → Option (M × Q)}

/-- The turns of a schedule, one after the other. -/
inductive Run (exec : T → M → Q → A → Option (M × Q)) :
    Sys T M Q → List (T × A) → Sys T M Q → Prop where
  | nil (s : Sys T M Q) : Run exec s [] s
  | cons {s s1 s' : Sys T M Q} {t : T} {a : A} {sched : List (T × A)} :
      turn exec s t a = some s1 → Run exec s1 sched s' → Run exec s ((t, a) :: sched) s'

namespace Run

variable {s s' s1 : Sys T M Q} {sched sched' : List (T × A)}

theorem append (h : Run exec s sched s1) (h' : Run exec s1 sched' s') :
    Run exec s (sched ++ sched') s' := by
  induction h with
  | nil _ => exact h'
  | cons ht _ ih => exact cons ht (ih h')

/-- The end of a schedule is reached by turns that meet any condition which all turns
    of the schedule meet. -/
theorem reach {C : Sys T M Q → T → A → Prop} {init : Sys T M Q} (h : Run exec s sched s')
    (hC : ∀ s, ∀ x ∈ sched, C s x.1 x.2) (h0 : Reach exec C init s) : Reach exec C init s' := by
  induction h with
  | nil _ => exact h0
  | @cons s s1 s' t a sched ht _ ih =>
      refine ih (fun s x hx => hC s x (List.mem_cons_of_mem _ hx)) ?_
      exact h0.turn t a (hC s (t, a) List.mem_cons_self) ht

/-- The schedules that `runWhen` accepts. -/
theorem of_runWhen {ok : Sys T M Q → T → A → Bool}
    (h : runWhen exec ok s sched = some s') : Run exec s sched s' := by
  induction sched generalizing s with
  | nil =>
      cases h
      exact nil _
  | cons hd rest ih =>
      obtain ⟨t, a⟩ := hd
      rw [runWhen] at h
      split at h
      · obtain ⟨s1, h1, h2⟩ := Option.bind_eq_some_iff.mp h
        exact cons h1 (ih h2)
      · cases h

/-- The schedule that `runAmong` was given, if all of it was possible. -/
theorem of_runAmong {init : Sys T M Q} {ts : List T} {ok : Sys T M Q → T → A → Bool}
    (h : (runWhen exec (fun s t a => decide (t ∈ ts) && ok s t a) init sched).isSome = true) :
    Run exec init sched (runAmong exec init ts ok sched) := by
  obtain ⟨s, hs⟩ := Option.isSome_iff_exists.mp h
  rw [runAmong, hs]
  exact of_runWhen hs

/-- **WHAT A SCHEDULE TAKES** from a potential is no more than was there at its start and
    what its turns pay, if that is so of every turn. -/
theorem paid_le (I : Sys T M Q → Prop) (ok : T × A → Prop) (Φ : Sys T M Q → Nat)
    (takes cost : A → Nat) (hI : ∀ s t a s', I s → turn exec s t a = some s' → I s')
    (hΦ : ∀ s t a s', I s → ok (t, a) → turn exec s t a = some s' →
      Φ s' + takes a ≤ Φ s + cost a)
    (h : Run exec s sched s') (h0 : I s) (hok : ∀ x ∈ sched, ok x) :
    Φ s' + (sched.map fun x => takes x.2).sum ≤ Φ s + (sched.map fun x => cost x.2).sum := by
  induction h with
  | nil _ => exact Nat.le_refl _
  | @cons s s1 s' t a sched ht _ ih =>
      have hstep := hΦ s t a s1 h0 (hok (t, a) List.mem_cons_self) ht
      have hrest := ih (hI s t a s1 h0 ht) fun x hx => hok x (List.mem_cons_of_mem _ hx)
      rw [List.map_cons, List.map_cons, List.sum_cons, List.sum_cons]
      dsimp only
      omega

/-- **A SCHEDULE IS NO LONGER** than the potential at its start and what its turns
    pay, if every turn takes one off. -/
theorem length_le (I : Sys T M Q → Prop) (ok : T × A → Prop) (Φ : Sys T M Q → Nat)
    (cost : A → Nat) (hI : ∀ s t a s', I s → turn exec s t a = some s' → I s')
    (hΦ : ∀ s t a s', I s → ok (t, a) → turn exec s t a = some s' → Φ s' + 1 ≤ Φ s + cost a)
    (h : Run exec s sched s') (h0 : I s) (hok : ∀ x ∈ sched, ok x) :
    Φ s' + sched.length ≤ Φ s + (sched.map fun x => cost x.2).sum := by
  have hpaid := h.paid_le I ok Φ (fun _ => 1) cost hI hΦ h0 hok
  rwa [List.map_const', List.sum_replicate_nat, Nat.mul_one] at hpaid

/-- **TASKS COME TO REST**: where no schedule is longer than `N`, there is one after which
    nobody has a turn. -/
theorem exists_rest {N : Nat} (hN : ∀ sched s', Run exec s sched s' → sched.length ≤ N) :
    ∃ sched s', Run exec s sched s' ∧ ∀ t a, turn exec s' t a = none := by
  by_contra hmore
  -- otherwise there are schedules of every length
  have hlong (k : Nat) : ∃ sched s', Run exec s sched s' ∧ sched.length = k := by
    induction k with
    | zero => exact ⟨[], s, nil s, rfl⟩
    | succ k ih =>
        obtain ⟨sched, s', hrun, hlen⟩ := ih
        obtain ⟨t, a, hta⟩ : ∃ t a, turn exec s' t a ≠ none := by
          by_contra hrest
          exact hmore ⟨sched, s', hrun, fun t a => not_not.mp fun h => hrest ⟨t, a, h⟩⟩
        obtain ⟨s₁, hs₁⟩ := Option.ne_none_iff_exists'.mp hta
        refine ⟨sched ++ [(t, a)], s₁, hrun.append (cons hs₁ (nil s₁)), ?_⟩
        rw [List.length_append, hlen]
        rfl
  obtain ⟨sched, s', hrun, hlen⟩ := hlong (N + 1)
  exact absurd (hN sched s' hrun) (by omega)

end Run

/-- What the tasks of `ts` can still do, each by its own account. -/
def potential (w : T → M → Q → Nat) (ts : Finset T) (s : Sys T M Q) : Nat :=
  ∑ t ∈ ts, w t s.mem (s.loc t)

/-- The share of the task that has the turn, and those of the others. -/
theorem potential_update {w : T → M → Q → Nat} {ts : Finset T} {s : Sys T M Q} {t : T} (m' : M)
    (q' : Q) (ht : t ∈ ts) :
    potential w ts ⟨m', Function.update s.loc t q'⟩
      = w t m' q' + ∑ u ∈ ts.erase t, w u m' (s.loc u) := by
  rw [potential, ← Finset.add_sum_erase ts _ ht]
  refine congrArg₂ (· + ·) ?_ (Finset.sum_congr rfl fun u hu => ?_)
  · show w t m' (Function.update s.loc t q' t) = w t m' q'
    rw [Function.update_self]
  · show w u m' (Function.update s.loc t q' u) = w u m' (s.loc u)
    rw [Function.update_of_ne (Finset.ne_of_mem_erase hu)]

/-- **ONE TURN**: its task gives up one unit and `g` for each task; nobody else gains
    more than `g`. -/
theorem potential_turn {w : T → M → Q → Nat} {ts : Finset T} {s : Sys T M Q} {t : T} {m' : M}
    {q' : Q} {g c : Nat} (ht : t ∈ ts)
    (hown : w t m' q' + 1 + ts.card * g ≤ w t s.mem (s.loc t) + c)
    (hother : ∀ u ∈ ts, u ≠ t → w u m' (s.loc u) ≤ w u s.mem (s.loc u) + g) :
    potential w ts ⟨m', Function.update s.loc t q'⟩ + 1 ≤ potential w ts s + c := by
  have hnew := potential_update (w := w) m' q' (s := s) ht
  have hold : potential w ts s
      = w t s.mem (s.loc t) + ∑ u ∈ ts.erase t, w u s.mem (s.loc u) :=
    (Finset.add_sum_erase ts _ ht).symm
  have hsum : ∑ u ∈ ts.erase t, w u m' (s.loc u)
      ≤ ∑ u ∈ ts.erase t, (w u s.mem (s.loc u) + g) :=
    Finset.sum_le_sum fun u hu =>
      hother u (Finset.mem_of_mem_erase hu) (Finset.ne_of_mem_erase hu)
  have hgain : ∑ _u ∈ ts.erase t, g ≤ ts.card * g := by
    rw [Finset.sum_const_nat fun _ _ => rfl]
    exact Nat.mul_le_mul_right g (Finset.card_le_card (Finset.erase_subset t ts))
  rw [Finset.sum_add_distrib] at hsum
  omega

/-- **ONE TURN** where the shares depend on the places only: one is exchanged for another. -/
theorem potential_move (f : Q → Nat) {ts : Finset T} {s : Sys T M Q} {t : T} (m' : M) (q' : Q)
    (ht : t ∈ ts) :
    potential (fun _ _ => f) ts ⟨m', Function.update s.loc t q'⟩ + f (s.loc t)
      = potential (fun _ _ => f) ts s + f q' := by
  have hnew := potential_update (w := fun _ _ => f) m' q' (s := s) ht
  have hold : potential (fun _ _ => f) ts s = f (s.loc t) + ∑ u ∈ ts.erase t, f (s.loc u) :=
    (Finset.add_sum_erase ts _ ht).symm
  omega

end Interleaving
