import KernelRocks.BarrierSequentialProofs
import KernelRocks.BarrierTotalProofs

/-! # Release — the round that cannot be filled

    `barrier_init` refuses a negative count and nothing else.  With a count of at
    least 1 the arrival that makes the round full meets `total == count` and moves
    `total` past the flag, so in a round that is still filling there are fewer
    calls than `count`.  With a count of ZERO no arrival ever meets the test: the
    first call to arrive is one too many, and nobody is ever released.

    * `reach_made`: a barrier has the count its `barrier_init` was asked for.
    * `waiting_le`: the calls of a filling round are as many as `total` says.
    * `full_round_released`: the arrival that makes them `count` calls releases the
      round, and a filling one holds fewer exactly if `count` is not zero. -/

namespace Barrier

open Interleaving KeyedList

/-! ## The count that was asked for -/

/-- The barrier is there, with this count. -/
def Reg.Counts (r : Reg) (b : Addr) (c : BitVec 32) : Prop :=
  b < r.brk ∧ (r.entry b).count = c.signExtend 64

section Counts
variable {g : Pid} {m m' : Mem} {q q' : Pc} {b : Addr} {c : BitVec 32}

/-- No turn changes the count of a barrier that is there. -/
theorem RegMove.counts (hm : RegMove g m q m' q') (h : m.reg.Counts b c) :
    m'.reg.Counts b c := by
  cases hm with
  | fresh c' _ _ hr _ =>
      rw [hr]
      exact ⟨Nat.lt_succ_of_lt h.1, h.2⟩
  | link c' p n _ hr _ =>
      rw [hr]
      refine ⟨Nat.lt_succ_of_lt h.1, ?_⟩
      rw [entry_link (Nat.ne_of_lt h.1)]
      exact h.2
  | unlink p b' _ hr _ =>
      rw [hr]
      exact ⟨h.1, (count_unlink b).trans h.2⟩
  | destroy p b' _ hr _ =>
      rw [hr]
      refine ⟨h.1, ?_⟩
      by_cases hb : b = b'
      · subst hb
        simpa [Reg.destroy] using h.2
      · simpa [Reg.destroy, hb] using h.2
  | create c' p b' id _ hr _ => rw [hr]; exact h
  | retire p b' _ hr _ => rw [hr]; exact h
  | _ => simp_all only

/-- The list of barriers made grows where the stage `linked` is left. -/
theorem RegMove.made (hm : RegMove g m q m' q') {e : Made} (he : e ∈ m'.reg.made) :
    e ∈ m.reg.made ∨ ∃ p, q.stage = .linked e.count p e.addr e.id := by
  cases hm with
  | create c p b id hq hr _ =>
      rw [hr] at he
      rcases List.mem_cons.mp he with rfl | he
      · exact .inr ⟨p, hq⟩
      · exact .inl he
  | _ =>
      left
      simp_all only [Reg.newPtgid, Reg.link, Reg.unlink, Reg.retire, Reg.destroy]

/-- That stage is reached by linking. -/
theorem RegMove.linked (hm : RegMove g m q m' q') {p : Addr} {id : BitVec 32}
    (hq : q'.stage = .linked c p b id) :
    q.stage = .linked c p b id ∨ m'.reg.Counts b c := by
  cases hm with
  | same _ hs => exact .inl (hs.symm.trans hq)
  | link c' p' n _ hr hs =>
      rw [hs] at hq
      cases hq
      rw [hr]
      exact .inr ⟨Nat.lt_succ_self _, congrArg Entry.count entry_link_brk⟩
  | unlink p' b' _ _ hs => rw [hs] at hq; split at hq <;> cases hq
  | _ => simp_all only [reduceCtorEq]

end Counts

/-- What was made, and what is about to be reported as made, has its count. -/
structure Counted (r : Reg) (σ : Task → Stage) : Prop where
  made : ∀ e ∈ r.made, r.Counts e.addr e.count
  linked : ∀ t c p b id, σ t = .linked c p b id → r.Counts b c

theorem reach_counted {proc : Task → Pid} {C : State → Task → Act → Prop} {s : State}
    (h : ReachWhen proc C s) : Counted s.mem.reg (stages s) := by
  refine reach_reg ⟨nofun, nofun⟩ ?_ h
  intro s t a m' q' _ _ hI hm
  refine ⟨fun e he => ?_, fun u c p b id hu => ?_⟩
  · rcases hm.made he with he | ⟨p, hq⟩
    · exact hm.counts (hI.made e he)
    · exact hm.counts (hI.linked t _ p _ _ hq)
  · by_cases hut : u = t
    · rw [hut, Function.update_self] at hu
      rcases hm.linked hu with hq | hc
      · exact hm.counts (hI.linked t c p b id hq)
      · exact hc
    · rw [Function.update_of_ne hut] at hu
      exact hm.counts (hI.linked u c p b id hu)

/-- A barrier has the count its `barrier_init` was asked for. -/
theorem reach_made {proc : Task → Pid} {C : State → Task → Act → Prop} {s : State}
    (h : ReachWhen proc C s) {e : Made} (he : e ∈ s.mem.made) :
    (s.mem.barrier e.addr).count = e.count.signExtend 64 :=
  ((reach_counted h).made e he).2

/-! ## The calls of a round that is filling -/

/-- While the round is filling there are `total` of them, which is below the count. -/
theorem waiting_le {proc : Task → Pid} {s : State} (h : Reachable proc s) {b : Addr}
    (hc : 1 ≤ (s.mem.barrier b).count.toNat) (ht : (s.mem.barrier b).total.toNat < 2 ^ 63) :
    (Waiting s b).encard ≤ (s.mem.barrier b).total.toNat
      ∧ (s.mem.barrier b).total.toNat < (s.mem.barrier b).count.toNat := by
  rcases waiting_encoded h hc with ⟨-, hlt, hcard⟩ | ⟨d, hd, -, -⟩
  · exact ⟨le_of_eq hcard, hlt⟩
  · rw [toNat_barrierFlag] at hd
    omega

/-- The call that fills its round moves `total` to the flag or above. -/
theorem flag_le_of_fills {T : Tally} (hn : T.count.toNat < 2 ^ 31) (ht : T.total.toNat ≤ 2 ^ 63)
    (hf : T.fills = true) (t : Task) : 2 ^ 63 ≤ (T.arrive t).total.toNat := by
  have hb : T.bumped.toNat = T.count.toNat := fills_iff.mp hf
  have h1 : 1 ≤ T.bumped.toNat := by
    rcases Nat.lt_or_eq_of_le ht with h | h
    · rw [toNat_bumped_of_lt h]
      exact Nat.le_add_left ..
    · rw [toNat_bumped_of_flag h]
  rw [Tally.arrive, if_pos hf]
  show 2 ^ 63 ≤ (T.bumped + (barrierFlag - 1)).toNat
  rw [toNat_released h1 (by omega)]
  exact Nat.le_add_right ..

/-- An arrival that does not release the round adds one call to it. -/
theorem waiting_arrive {proc : Task → Pid} {s s' : State} {t : Task} {a : Act} {b : Addr}
    (h : Reachable proc s) (hs : turn (exec proc) s t a = some s') (hb : b < s.mem.brk)
    (hne : (s'.mem.hist b).arrived ≠ (s.mem.hist b).arrived)
    (ht : (s'.mem.barrier b).total.toNat < 2 ^ 63) :
    (Waiting s b).encard + 1 ≤ (Waiting s' b).encard := by
  obtain ⟨hf, -⟩ := reach_owns h
  obtain ⟨hE, hS⟩ := reach_encoded h
  obtain ⟨m', q', he, rfl⟩ := turn_eq_some hs
  obtain ⟨hq, -⟩ := exec_arrived hf he hne hb
  have hq' : q' = .loopTest (.leave (s.mem.tally b).arrived.length) b := by
    cases exec_tallyMove hf he with
    | arrive b' hqb hq' hm =>
        rw [hq] at hqb
        cases hqb
        rw [hq', if_neg]
        intro hfill
        have hge := flag_le_of_fills (hE b).count ((hS t).enter b hq) hfill t
        have htot : (m'.tally b).total.toNat < 2 ^ 63 := ht
        rw [hm, Function.update_self] at htot
        omega
    | keep h1 _ _ => exact absurd hq (h1 b)
    | link c p n id hl _ _ => rw [hq] at hl; cases hl
    | depart b' k hl _ _ => rw [hq] at hl; cases hl
    | done b' k hl _ _ => rw [hq] at hl; cases hl
  have hnot : t ∉ Waiting s b := by
    rintro ⟨k, hk⟩
    rw [hq] at hk
    cases hk
  rw [← Set.encard_insert_of_notMem hnot]
  refine Set.encard_le_encard ?_
  rintro u (rfl | ⟨k, hk⟩)
  · refine ⟨(s.mem.tally b).arrived.length, ?_⟩
    show (Function.update s.loc u q' u).inside = _
    rw [Function.update_self, hq']
    rfl
  · have hut : u ≠ t := fun he => hnot (he ▸ ⟨k, hk⟩)
    refine ⟨k, ?_⟩
    show (Function.update s.loc t q' u).inside = _
    rw [Function.update_of_ne hut]
    exact hk

/-- A barrier that was made stays made. -/
theorem made_turn {proc : Task → Pid} {s s' : State} {t : Task} {a : Act}
    (hf : Fresh s.mem) (hs : turn (exec proc) s t a = some s') {e : Made} (he : e ∈ s.mem.made) :
    e ∈ s'.mem.made := by
  obtain ⟨m', q', hx, rfl⟩ := turn_eq_some hs
  show e ∈ m'.reg.made
  have he' : e ∈ s.mem.reg.made := he
  cases exec_regMove hf hx with
  | create c p b id _ hr _ =>
      rw [hr]
      exact List.mem_cons_of_mem _ he'
  | _ => simp_all only [Reg.newPtgid, Reg.link, Reg.unlink, Reg.retire, Reg.destroy]

theorem toNat_signExtend {c : BitVec 32} (h : (c.signExtend 64).toNat < 2 ^ 31) :
    (c.signExtend 64).toNat = c.toNat := by
  rw [BitVec.toNat_signExtend, BitVec.toNat_setWidth] at h ⊢
  split at h
  · omega
  · rename_i hm
    rw [if_neg hm]
    have := c.isLt
    omega

/-- **A FULL ROUND IS RELEASED**: for every barrier that `barrier_init` has made.  In a
    round that is filling there are fewer calls than `count` exactly if `count` is not 0,
    and the arrival that makes them `count` moves `total` to the flag or above. -/
theorem full_round_released (proc : Task → Pid) {s : State} (h : Reachable proc s) {e : Made}
    (he : e ∈ s.mem.made) :
    ((s.mem.barrier e.addr).total < barrierFlag →
        ((Waiting s e.addr).encard < e.count.toNat ↔ e.count ≠ 0))
      ∧ ∀ t a s', turn (exec proc) s t a = some s' →
          (s'.mem.hist e.addr).arrived ≠ (s.mem.hist e.addr).arrived →
          (Waiting s e.addr).encard + 1 = e.count.toNat →
          barrierFlag ≤ (s'.mem.barrier e.addr).total := by
  -- the count as a number, in any reachable state
  have hcount {s : State} (h : Reachable proc s) (he : e ∈ s.mem.made) :
      (s.mem.barrier e.addr).count.toNat = e.count.toNat := by
    have hlt := ((reach_encoded h).1 e.addr).count
    change (s.mem.barrier e.addr).count.toNat < 2 ^ 31 at hlt
    rw [reach_made h he] at hlt ⊢
    exact toNat_signExtend hlt
  have few {s : State} (h : Reachable proc s) (he : e ∈ s.mem.made) (hc : e.count ≠ 0)
      (ht : (s.mem.barrier e.addr).total < barrierFlag) :
      (Waiting s e.addr).encard < e.count.toNat := by
    have hpos : e.count.toNat ≠ 0 := fun h0 => hc (BitVec.eq_of_toNat_eq h0)
    have hlt : (s.mem.barrier e.addr).total.toNat < 2 ^ 63 := by
      rw [← toNat_barrierFlag]
      exact ht
    have hc1 : 1 ≤ (s.mem.barrier e.addr).count.toNat := by
      rw [hcount h he]
      omega
    obtain ⟨hle, htot⟩ := waiting_le h hc1 hlt
    rw [hcount h he] at htot
    exact lt_of_le_of_lt hle (Nat.cast_lt.mpr htot)
  refine ⟨fun ht => ⟨?_, fun hc => few h he hc ht⟩, fun t a s' hs hne hfull => ?_⟩
  · rintro hlt hzero
    rw [hzero] at hlt
    exact not_lt_bot hlt
  · by_contra hflag
    have ht : (s'.mem.barrier e.addr).total < barrierFlag := by
      rw [BitVec.lt_def]
      rw [BitVec.le_def] at hflag
      omega
    have hs' : Reachable proc s' := Reach.turn t a h trivial hs
    have he' : e ∈ s'.mem.made := made_turn (reach_owns h).1 hs he
    have hc : e.count ≠ 0 := by
      rintro hzero
      rw [hzero] at hfull
      simp at hfull
    have hadd := waiting_arrive h hs ((reach_counted h).made e he).1 hne (by
      rw [← toNat_barrierFlag]
      exact ht)
    rw [hfull] at hadd
    exact absurd (few hs' he' hc ht) (not_lt.mpr hadd)

/-- One of two calls has arrived and sleeps. -/
def oneOfTwo : List (Task × Act) :=
  wholeInit 0 2 ++ (1, .call (.wait 0)) :: runs 1 13

theorem full_round_released_half :
    ((⟨0, 0, 2, 1⟩ : Made) ∈ (after (fun _ => 0) oneOfTwo).mem.made
      ∧ ((after (fun _ => 0) oneOfTwo).mem.barrier 1).total = 1)
      ∧ (Waiting (after (fun _ => 0) oneOfTwo) 1).encard < (2 : Nat) := by
  refine ⟨by decide, ?_⟩
  have h := full_round_released (fun _ => 0) (reachable_after _ oneOfTwo) (e := ⟨0, 0, 2, 1⟩)
    (by decide)
  exact (h.1 (by decide)).mpr (by decide)

/-- A barrier of zero: its first caller has arrived and sleeps. -/
def roundOfZero : List (Task × Act) :=
  wholeInit 0 0 ++ (1, .call (.wait 0)) :: runs 1 13

theorem zero_round_overfull :
    ¬ ∀ (proc : Task → Pid) (s : State), Reachable proc s → ∀ e ∈ s.mem.made,
      (s.mem.barrier e.addr).total < barrierFlag →
      (Waiting s e.addr).encard < e.count.toNat := by
  intro h
  have hlt := h (fun _ => 0) (after (fun _ => 0) roundOfZero) (reachable_after _ _) ⟨0, 0, 0, 1⟩
    (by decide) (by decide)
  exact not_lt_bot hlt

end Barrier
