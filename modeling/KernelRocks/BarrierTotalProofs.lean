import KernelRocks.BarrierRoundProofs
import Mathlib.Data.Set.Card

/-! # `total` — one word, two counters

    `barrier_struct.total` counts the calls of the round that is filling, and from
    the arrival that makes it full the calls still to leave, on top of
    `BARRIER_FLAG`.  `Rounds` says so about the numbers that the calls have been
    given; here the numbers are those of calls that are really there.

    * `reach_seated`: a number that was given out and has not left belongs to a
      task that is inside the barrier, at this number.
    * `encard_waiting`: so there are as many calls inside as numbers of that kind.
    * `total_encodes`: the two phases, for every count but 0, and the arithmetic on
      the word, which is exact. -/

namespace Barrier

open Interleaving

/-! ## Every number has its call -/

/-- A turn that is not a departure leaves a call at its number. -/
theorem next_inside {proc : Task → Pid} {t : Task} {m m' : Mem} {q q' : Pc} {b : Addr} {k : Nat}
    (h : next proc t m q = some (m', q')) (hq : q.inside = some (b, k)) :
    q = .waitLeave b k ∨ q'.inside = some (b, k) := by
  cases q with
  | loopLock l _ =>
      cases l <;> cases hq
      obtain ⟨-, -, rfl⟩ := takeLock_eq_some h
      exact .inr rfl
  | loopTest l _ =>
      cases l <;> cases hq
      cases h
      right
      split <;> rfl
  | loopUnlock l _ =>
      cases l <;> cases hq
      cases h
      exact .inr rfl
  | sleepPrepare l _ =>
      cases l <;> cases hq
      cases h
      exact .inr rfl
  | sleepSchedule l _ =>
      cases l <;> cases hq
      cases h
      right
      split <;> rfl
  | sleepParked l _ =>
      cases l <;> cases hq
      obtain ⟨-, rfl⟩ := next_sleepParked h
      exact .inr rfl
  | sleepFinish l _ =>
      cases l <;> cases hq
      cases h
      exact .inr rfl
  | waitLeave _ _ =>
      cases hq
      exact .inl rfl
  | _ => cases hq

theorem exec_inside {proc : Task → Pid} {t : Task} {m m' : Mem} {q q' : Pc} {a : Act} {b : Addr}
    {k : Nat} (h : exec proc t m q a = some (m', q')) (hq : q.inside = some (b, k)) :
    q = .waitLeave b k ∨ q'.inside = some (b, k) := by
  rcases exec_cases h with ⟨-, h⟩ | ⟨rfl, c, r, -, rfl, rfl⟩ | ⟨rfl, l, b', -, hl, rfl⟩ |
    ⟨rfl, p, b', -, rfl, -, rfl⟩
  · exact next_inside h hq
  · cases hq
  · right
    rcases hl with rfl | rfl
    · cases l <;> cases hq
      rfl
    · cases l <;> cases hq
      rfl
  · cases hq

/-- The numbers of a task that have not left are where the task is. -/
def Seated (t : Task) (m : Mem) (q : Pc) : Prop :=
  ∀ b k, (m.tally b).arrived[k]? = some t → k ∉ (m.tally b).left → q.inside = some (b, k)

/-- An arrival adds one number, and it is that of the task which arrives. -/
theorem arrived_arrive_cases {T : Tally} {t u : Task} {k : Nat}
    (h : (T.arrive t).arrived[k]? = some u) :
    T.arrived[k]? = some u ∨ k = T.arrived.length ∧ u = t := by
  rw [arrived_arrive] at h
  rcases Nat.lt_trichotomy k T.arrived.length with hlt | rfl | hgt
  · rw [List.getElem?_append_left hlt] at h
    exact .inl h
  · rw [List.getElem?_concat_length] at h
    exact .inr ⟨rfl, (Option.some.inj h).symm⟩
  · rw [List.getElem?_eq_none (by rw [List.length_append]; exact hgt)] at h
    cases h

/-- One tally changes.  What is asked about the others is only that the task stays there
    if it is there. -/
theorem Seated.update {t : Task} {m m' : Mem} {q q' : Pc} {b : Addr} {T : Tally}
    (hq : Seated t m q) (hm : m'.tally = Function.update m.tally b T)
    (hb : ∀ k : Nat, T.arrived[k]? = some t → k ∉ T.left → q'.inside = some (b, k))
    (hne : ∀ b' k, b' ≠ b → q.inside = some (b', k) → q'.inside = some (b', k)) :
    Seated t m' q' := by
  intro b' k hk hl
  rw [hm] at hk hl
  by_cases hbb : b' = b
  · subst hbb
    rw [Function.update_self] at hk hl
    exact hb k hk hl
  · rw [Function.update_of_ne hbb] at hk hl
    exact hne b' k hbb (hq b' k hk hl)

/-- A turn of another task gives `u` no number and takes none back. -/
theorem seated_other {proc : Task → Pid} {t u : Task} {m m' : Mem} {q q' r : Pc} {a : Act}
    (htu : t ≠ u) (hf : Fresh m) (hr : Seated u m r) (he : exec proc t m q a = some (m', q')) :
    Seated u m' r := by
  cases exec_tallyMove hf he with
  | keep _ _ hm =>
      intro b k hk hl
      rw [hm] at hk hl
      exact hr b k hk hl
  | link c p n id _ _ hm => exact hr.update hm nofun fun _ _ _ h => h
  | arrive b _ _ hm =>
      refine hr.update hm (fun k hk hl => ?_) fun _ _ _ h => h
      rcases arrived_arrive_cases hk with hk | ⟨-, hut⟩
      · exact hr b k hk fun hmem => hl ((undisturbed_arrive u t _).leaving k hmem)
      · exact absurd hut.symm htu
  | depart b k _ _ hm =>
      refine hr.update hm (fun j hj hl => ?_) fun _ _ _ h => h
      exact hr b j hj fun hmem => hl (List.mem_cons_of_mem _ hmem)
  | done b k _ _ hm => exact hr.update hm (hr b) fun _ _ _ h => h

/-- A task's own turn. -/
theorem exec_seated {proc : Task → Pid} {t : Task} {m m' : Mem} {q q' : Pc} {a : Act}
    (hf : Fresh m) (hq : Seated t m q) (he : exec proc t m q a = some (m', q')) :
    Seated t m' q' := by
  cases exec_tallyMove hf he with
  | keep _ hleave hm =>
      intro b k hk hl
      rw [hm] at hk hl
      exact (exec_inside he (hq b k hk hl)).resolve_left (hleave b k)
  | link c p n id hlink _ hm =>
      subst hlink
      exact hq.update hm nofun nofun
  | arrive b hb hq' hm =>
      subst hb
      refine hq.update hm (fun k hk hl => ?_) nofun
      rw [left_arrive] at hl
      rcases arrived_arrive_cases hk with hk | ⟨rfl, -⟩
      · -- the task had no number before
        have hin := hq b k hk fun hmem => hl ?_
        · cases hin
        · split
          · exact List.mem_cons_of_mem _ hmem
          · exact hmem
      · split at hl
        · exact absurd List.mem_cons_self hl
        · rename_i hfills
          rw [hq', if_neg hfills]
          rfl
  | depart b k hb _ hm =>
      subst hb
      refine hq.update hm (fun j hj hl => ?_) fun b' j hbb hin => ?_
      · have hin := hq b j hj fun hmem => hl (List.mem_cons_of_mem _ hmem)
        cases hin
        exact absurd List.mem_cons_self hl
      · cases hin
        exact absurd rfl hbb
  | done b k hb _ hm =>
      subst hb
      refine hq.update hm (fun j hj hl => ?_) nofun
      cases hq b j hj hl

/-- In every state of the driver the numbers that have not left are those of calls that
    are there. -/
theorem reach_seated {proc : Task → Pid} {C : State → Task → Act → Prop} {s : State}
    (h : ReachWhen proc C s) (t : Task) : Seated t s.mem (s.loc t) := by
  refine (Reach.modular (I := fun _ => True) (P := Seated)
    ⟨trivial, fun t b k hk => ?_⟩ ?_ ?_ h).2 t
  · cases hk
  · exact fun s t a m' q' hr _ _ hS he => ⟨trivial, exec_seated (reach_owns hr).1 hS he⟩
  · exact fun s t u a m' q' hr _ htu _ _ hu he => seated_other htu (reach_owns hr).1 hu he

/-! ## As many calls as numbers -/

/-- The calls that have executed `total++` on the barrier and not left it. -/
def Waiting (s : State) (b : Addr) : Set Task := {t | ∃ k, (s.loc t).inside = some (b, k)}

/-- The numbers that were given out and have not left. -/
def Tally.staying (T : Tally) : Finset Nat := Finset.range T.arrived.length \ T.left.toFinset

theorem Tally.mem_staying {T : Tally} {k : Nat} :
    k ∈ T.staying ↔ k < T.arrived.length ∧ k ∉ T.left := by
  rw [staying, Finset.mem_sdiff, Finset.mem_range, List.mem_toFinset]

theorem Tally.card_staying {T : Tally} (hd : T.left.Nodup)
    (hlt : ∀ k ∈ T.left, k < T.arrived.length) :
    T.staying.card = T.arrived.length - T.left.length := by
  have hsub : T.left.toFinset ⊆ Finset.range T.arrived.length := by
    intro k hk
    exact Finset.mem_range.mpr (hlt k (List.mem_toFinset.mp hk))
  rw [staying, Finset.card_sdiff_of_subset hsub, Finset.card_range, List.toFinset_card_of_nodup hd]

theorem encard_waiting {proc : Task → Pid} {C : State → Task → Act → Prop} {s : State}
    (h : ReachWhen proc C s) {b : Addr} (hc : 1 ≤ (s.mem.barrier b).count.toNat) :
    (Waiting s b).encard
      = ((s.mem.tally b).arrived.length - (s.mem.tally b).left.length : Nat) := by
  obtain ⟨hE, hS⟩ := reach_encoded h
  have hR : Rounds (s.mem.tally b) := (hE b).rounds hc
  let number : Nat → Task := fun k => ((s.mem.tally b).arrived[k]?).getD 0
  -- the call with number k sits at number k
  have hseat : ∀ k ∈ (s.mem.tally b).staying, (s.loc (number k)).inside = some (b, k) := by
    intro k hk
    obtain ⟨hlt, hleft⟩ := Tally.mem_staying.mp hk
    have hnum : (s.mem.tally b).arrived[k]? = some (number k) := by
      simp only [number, List.getElem?_eq_getElem hlt, Option.getD_some]
    exact reach_seated h _ b k hnum hleft
  have himage : Waiting s b = number '' (s.mem.tally b).staying := by
    ext t
    constructor
    · rintro ⟨k, hk⟩
      obtain ⟨hnum, hleft⟩ := (hS t).inside b k hk
      refine ⟨k, Tally.mem_staying.mpr ⟨(List.getElem?_eq_some_iff.mp hnum).1, hleft⟩, ?_⟩
      simp only [number, hnum, Option.getD_some]
    · rintro ⟨k, hk, rfl⟩
      exact ⟨k, hseat k hk⟩
  have hinj : Set.InjOn number (s.mem.tally b).staying := by
    intro k hk j hj heq
    have hboth : some (b, k) = some (b, j) := by
      rw [← hseat k hk, ← hseat j hj, heq]
    cases hboth
    rfl
  rw [himage, hinj.encard_image, Set.encard_coe_eq_coe_finsetCard,
    Tally.card_staying hR.nodup (hE b).left]

/-! ## The word -/

/-- The first arrival of a round finds the flag and starts from 0. -/
theorem toNat_bumped_lt {T : Tally} (ht : T.total.toNat ≤ 2 ^ 63) :
    (if barrierFlag = T.total then (0 : BitVec 64) else T.total).toNat + 1 < 2 ^ 64 := by
  split
  · decide
  · omega

/-- The two phases. -/
theorem waiting_encoded {proc : Task → Pid} {C : State → Task → Act → Prop} {s : State}
    (h : ReachWhen proc C s) {b : Addr} (hc : 1 ≤ (s.mem.barrier b).count.toNat) :
    (1 ≤ (s.mem.barrier b).total.toNat
        ∧ (s.mem.barrier b).total < (s.mem.barrier b).count
        ∧ (Waiting s b).encard = (s.mem.barrier b).total.toNat)
      ∨ ∃ d : Nat, (s.mem.barrier b).total.toNat = barrierFlag.toNat + d
          ∧ d ≤ (s.mem.barrier b).count.toNat - 1 ∧ (Waiting s b).encard = d := by
  have hR : Rounds (s.mem.tally b) := ((reach_encoded h).1 b).rounds hc
  rw [encard_waiting h hc]
  obtain ⟨r, -, ⟨hA, h1, h2, hL⟩ | ⟨-, hd, hT⟩⟩ := hR.phase
  · refine .inl ⟨h1, h2, congrArg Nat.cast ?_⟩
    show _ = (s.mem.tally b).total.toNat
    omega
  · refine .inr ⟨_, ?_, ?_, rfl⟩
    · rw [toNat_barrierFlag]
      exact hT
    · show _ ≤ (s.mem.tally b).count.toNat - 1
      omega

/-- **WHAT `total` SAYS**, for every barrier whose count is not 0, in every state of the
    driver, so also whenever `lock_total` is free: while a round is filling it is the
    number of calls that have executed `total++` and not left, at least 1 and below the
    count; otherwise it is the flag plus the number of calls still to leave, which is
    below the count.  The word never wraps: not where a call enters (249-254), and a
    call executes `total--` (265) only above the flag. -/
theorem total_encodes (proc : Task → Pid) {s : State} (h : Reachable proc s) (b : Addr)
    (hc : 1 ≤ (s.mem.barrier b).count.toNat) :
    ((1 ≤ (s.mem.barrier b).total.toNat
          ∧ (s.mem.barrier b).total < (s.mem.barrier b).count
          ∧ (Waiting s b).encard = (s.mem.barrier b).total.toNat)
        ∨ ∃ d : Nat, (s.mem.barrier b).total.toNat = barrierFlag.toNat + d
            ∧ d ≤ (s.mem.barrier b).count.toNat - 1 ∧ (Waiting s b).encard = d)
      ∧ (∀ t, s.loc t = .waitEnter b →
          (if barrierFlag = (s.mem.barrier b).total then (0 : BitVec 64)
              else (s.mem.barrier b).total).toNat + 1 < 2 ^ 64
            ∧ ((s.mem.barrier b).bumped = (s.mem.barrier b).count →
                (s.mem.barrier b).bumped.toNat + (barrierFlag - 1).toNat < 2 ^ 64))
      ∧ ∀ t k, s.loc t = .waitLeave b k → barrierFlag < (s.mem.barrier b).total := by
  obtain ⟨hE, hS⟩ := reach_encoded h
  have hcount : (s.mem.barrier b).count.toNat < 2 ^ 31 := (hE b).count
  refine ⟨waiting_encoded h hc, fun t ht => ⟨toNat_bumped_lt ((hS t).enter b ht), fun hfull => ?_⟩,
    fun t k ht => ?_⟩
  · have hflag : (barrierFlag - 1).toNat = 2 ^ 63 - 1 := by decide
    rw [hfull, hflag]
    omega
  · obtain ⟨hk, hleft⟩ := (hS t).inside b k (by rw [ht]; rfl)
    have hlt : 2 ^ 63 < (s.mem.tally b).total.toNat :=
      ((hE b).rounds hc).flag_lt (hE b).count ((hS t).leave b k ht)
        (List.getElem?_eq_some_iff.mp hk).1 hleft
    rw [BitVec.lt_def, toNat_barrierFlag]
    exact hlt

/-- Two calls have met, and one of them is still to leave. -/
theorem total_encodes_crossing :
    1 ≤ ((after (fun _ => 0) crossing).mem.barrier 1).count.toNat
      ∧ (Waiting (after (fun _ => 0) crossing) 1).encard = (1 : Nat) := by
  have hc : 1 ≤ ((after (fun _ => 0) crossing).mem.barrier 1).count.toNat := by decide
  refine ⟨hc, ?_⟩
  have hword : ((after (fun _ => 0) crossing).mem.barrier 1).total = barrierFlag + 1 := by decide
  rcases (total_encodes (fun _ => 0) (reachable_after _ crossing) 1 hc).1 with
    ⟨-, hlt, -⟩ | ⟨d, hd, -, hcard⟩
  · rw [hword] at hlt
    exact absurd hlt (by decide)
  · have hone : (barrierFlag + 1).toNat = barrierFlag.toNat + 1 := by decide
    rw [hword, hone] at hd
    rw [hcard, ← Nat.add_left_cancel hd]

end Barrier
