import KernelRocks.BarrierFindProofs

/-! # No record is left behind

    A `per_tgid` is on `g_tgid_list` for the sake of its barriers.  One that has none is
    in the hands of a call: of a `barrier_init` that has found or made it, or of the
    `barrier_destroy` that emptied it (`records_tended`), as long as no two
    `barrier_destroy` find one barrier.  So a process leaves no record behind when
    its calls are over. -/

namespace Barrier

open Interleaving KeyedList

/-- A `barrier_init` with record `p` that has not linked yet, or the `barrier_destroy` that
    is about to unlink `p`. -/
def Stage.tends (p : Addr) : Stage → Prop
  | .holds p' | .checks p' _ _ | .checked p' _ | .retires p' _ => p' = p
  | _ => False

section Turn
variable {proc : Task → Pid} {t : Task} {m m' : Mem} {q q' : Pc} {a : Act} {p : Addr}

/-- A call lets go of a record that has a barrier, or is no longer on the list. -/
theorem next_tends (hd : m.tgidList.Nodup) (h : next proc t m q = some (m', q'))
    (hq : q.stage.tends p) :
    q'.stage.tends p ∨ (m'.ptgid p).barrierHead ≠ [] ∨ p ∉ m'.tgidList := by
  cases q with
  | initUnlockG c p' | initReadBid c p' | initAlloc c p' n =>
      cases h
      exact .inl hq
  | initLockHead c p' n | destroyLockG p' b =>
      obtain ⟨-, -, rfl⟩ := takeLock_eq_some h
      exact .inl hq
  | getLockHead w p' id =>
      obtain ⟨-, -, rfl⟩ := takeLock_eq_some h
      rcases w with ⟨c, n⟩ | w
      · exact .inl hq
      · exact hq.elim
  | getScan w p' id =>
      cases h
      rcases w with ⟨c, n⟩ | w
      · obtain rfl : p' = p := hq
        cases hb : m.getBarrier p' id with
        | none => exact .inl rfl
        | some b =>
            -- the id was there, so the record has a barrier
            exact .inr (.inl (List.ne_nil_of_mem (getBarrier_mem hb).1))
      · exact hq.elim
  | getUnlockHead w p' r =>
      cases h
      rcases w with ⟨c, n⟩ | ⟨_ | _⟩
      · cases r with
        | none => exact .inl hq
        | some b => exact hq.elim
      · cases r <;> exact hq.elim
      · cases r <;> exact hq.elim
  | initLink c p' n =>
      cases h
      obtain rfl : p' = p := hq
      right; left
      simp [Mem.linkBarrier]
  | destroyUnlinkPtgid p' b =>
      cases h
      obtain rfl : p' = p := hq
      exact .inr (.inr fun hmem => ((List.Nodup.mem_erase_iff hd).mp hmem).1 rfl)
  | loopLock l _ | loopTest l _ | loopUnlock l _ | sleepPrepare l _ | sleepSchedule l _
  | sleepParked l _ | sleepFinish l _ => cases l <;> exact hq.elim
  | _ => exact hq.elim

theorem exec_tends (hd : m.tgidList.Nodup) (h : exec proc t m q a = some (m', q'))
    (hq : q.stage.tends p) :
    q'.stage.tends p ∨ (m'.ptgid p).barrierHead ≠ [] ∨ p ∉ m'.tgidList := by
  rcases exec_cases h with ⟨-, h⟩ | ⟨-, c, r, -, rfl, -⟩ | ⟨-, l, b, -, hl, -⟩ |
    ⟨-, p', b, -, rfl, -⟩
  · exact next_tends hd h hq
  · exact hq.elim
  · rcases hl with rfl | rfl <;> cases l <;> exact hq.elim
  · exact hq.elim

/-- A record without a barrier had none before the turn, or is one the turn has made or
    emptied. -/
theorem exec_empty (hf : Fresh m)
    (hsize : (m'.ptgid p).barrierHead = [] → (m'.ptgid p).barrierSize = 0)
    (h : exec proc t m q a = some (m', q')) (hp : p ∈ m'.tgidList)
    (hempty : (m'.ptgid p).barrierHead = []) :
    (p ∈ m.tgidList ∧ (m.ptgid p).barrierHead = []) ∨ q'.stage.tends p := by
  have hzero := hsize hempty
  change p ∈ m'.reg.tgidList at hp
  change (m'.reg.record p).barrierHead = [] at hempty
  change (m'.reg.record p).barrierSize = 0 at hzero
  cases exec_regMove hf h with
  | same hr _ | drop hr _ | found _ _ _ _ hr _ | read _ _ hr _ | check _ _ _ _ _ hr _
  | findWait _ _ _ _ _ hr _ | findDestroy _ _ _ _ _ hr _ | pass _ _ _ _ hr _ =>
      rw [hr] at hp hempty
      exact .inl ⟨hp, hempty⟩
  | create _ _ _ _ _ hr _ | destroy _ _ _ hr _ =>
      rw [hr] at hp hempty
      exact .inl ⟨hp, hempty⟩
  | fresh c _ _ hr hs =>
      rw [hr] at hp hempty
      rcases List.mem_cons.mp hp with rfl | hp
      · rw [hs]
        exact .inr rfl
      · rw [record_newPtgid (Nat.ne_of_lt (hf.tgidList p hp))] at hempty
        exact .inl ⟨hp, hempty⟩
  | link c p' n _ hr _ =>
      rw [hr] at hp hempty
      rw [head_link] at hempty
      split at hempty
      · cases hempty
      · exact .inl ⟨hp, hempty⟩
  | unlink p' b _ hr hs =>
      rw [hr] at hp hempty hzero
      rw [head_unlink] at hempty
      split at hempty
      · rename_i hpp
        subst hpp
        rw [hs, if_pos hzero]
        exact .inr rfl
      · exact .inl ⟨hp, hempty⟩
  | retire p' b _ hr _ =>
      rw [hr] at hp hempty
      exact .inl ⟨List.mem_of_mem_erase hp, hempty⟩

end Turn

/-! ## Every run -/

theorem reach_tgidList_nodup {proc : Task → Pid} {C : State → Task → Act → Prop} {s : State}
    (h : ReachWhen proc C s) : s.mem.tgidList.Nodup := by
  refine reach_reg (I := fun r _ => r.tgidList.Nodup) List.nodup_nil ?_ h
  intro s t a m' q' hr _ hI hm
  cases hm with
  | fresh c _ _ hreg _ =>
      rw [hreg]
      refine List.nodup_cons.mpr ⟨fun hmem => ?_, hI⟩
      exact Nat.lt_irrefl _ ((reach_owns hr).1.tgidList _ hmem)
  | retire p b _ hreg _ =>
      rw [hreg]
      exact hI.sublist List.erase_sublist
  | same hreg _ | drop hreg _ | found _ _ _ _ hreg _ | read _ _ hreg _ | check _ _ _ _ _ hreg _
  | link _ _ _ _ hreg _ | create _ _ _ _ _ hreg _ | findWait _ _ _ _ _ hreg _
  | findDestroy _ _ _ _ _ hreg _ | pass _ _ _ _ hreg _ | unlink _ _ _ hreg _
  | destroy _ _ _ hreg _ =>
      rw [hreg]
      exact hI

/-- **NO RECORD IS LEFT BEHIND** on the runs in which no `barrier_destroy` finds a barrier
    that another one under way has found: a record of the list without a barrier is in
    the hands of a call that is about to link a barrier or to unlink the record. -/
theorem records_tended (proc : Task → Pid) {s : State} (h : ReachWhen proc LookedUpOnce s)
    {p : Addr}
    (hp : p ∈ s.mem.tgidList) (hempty : (s.mem.ptgid p).barrierHead = []) :
    ∃ t, (s.loc t).stage.tends p := by
  refine Reach.invariant (I := fun s => ∀ p ∈ s.mem.tgidList, (s.mem.ptgid p).barrierHead = [] →
    ∃ t, (s.loc t).stage.tends p) (fun p hp _ => absurd hp List.not_mem_nil) ?_ h p hp hempty
  intro s s' t a hr hI hC hs p hp hempty
  have hsize : (s'.mem.ptgid p).barrierHead = [] → (s'.mem.ptgid p).barrierSize = 0 := fun hnil =>
    ((reach_removal (hr.turn t a hC hs)).size p).trans
      (congrArg (fun l => BitVec.ofNat 32 (List.length l)) hnil)
  obtain ⟨m', q', he, rfl⟩ := turn_eq_some hs
  have hself (hq : q'.stage.tends p) :
      ∃ u, ((⟨m', Function.update s.loc t q'⟩ : State).loc u).stage.tends p :=
    ⟨t, by
      show (Function.update s.loc t q' t).stage.tends p
      rw [Function.update_self]
      exact hq⟩
  rcases exec_empty (reach_owns hr).1 hsize he hp hempty with ⟨hmem, hold⟩ | hq
  · obtain ⟨u, hu⟩ := hI p hmem hold
    by_cases hut : u = t
    · subst hut
      rcases exec_tends (reach_tgidList_nodup hr) he hu with hq | hne | hout
      · exact hself hq
      · exact absurd hempty hne
      · exact absurd hp hout
    · refine ⟨u, ?_⟩
      show (Function.update s.loc t q' u).stage.tends p
      rw [Function.update_of_ne hut]
      exact hu
  · exact hself hq

/-- `barrier_init` has made a record and not linked its barrier. -/
theorem records_tended_first :
    let s := afterWhen (fun _ => 0) 3 lookedUpOnceTest ((0, .call (.init 2)) :: runs 0 3)
    s.mem.tgidList = [0] ∧ ∃ t, (s.loc t).stage.tends 0 :=
  ⟨by decide, records_tended (fun _ => 0) (reachWhen_afterWhen _ lookedUpOnce_of_test _) (by decide)
    (by decide)⟩

end Barrier
