import KernelRocks.BarrierSequentialProofs

/-! # A call that runs alone is the function

    `BarrierSequentialProofs` writes `barrier_init` and `barrier_destroy` as
    functions on the memory; the interleaved machine runs them turn by turn with
    their locks.  A task that runs alone, with all locks free, computes exactly
    the function (`solo_init`, `solo_destroy`), so every sequence of complete
    calls is a run of the machine (`served_reachable`). -/

namespace Barrier

open Interleaving

/-! ## Taking a lock and releasing it -/

section Locks
variable {m : Mem} {l : Lock} {t : Task}

theorem Mem.setHolder_self (h : m.holder l = none) : m.setHolder l none = m := by
  cases l with
  | gTgidList =>
      obtain ⟨_, _, _, _, _, _, _, _⟩ := m
      simp only [Mem.holder] at h
      subst h
      rfl
  | barrierHead p =>
      have hp : { m.ptgid p with barrierHeadLock := none } = m.ptgid p := by
        rw [← show (m.ptgid p).barrierHeadLock = none from h]
      show m.setPtgid p { m.ptgid p with barrierHeadLock := none } = m
      rw [hp, Mem.setPtgid, Function.update_eq_self]
  | lockTotal b =>
      have hb : { m.barrier b with lockTotal := none } = m.barrier b := by
        rw [← show (m.barrier b).lockTotal = none from h]
      show m.setBarrier b { m.barrier b with lockTotal := none } = m
      rw [hb, Mem.setBarrier, Function.update_eq_self]

theorem Mem.setHolder_setHolder (o o' : Option Task) :
    (m.setHolder l o).setHolder l o' = m.setHolder l o' := by
  cases l with
  | gTgidList => rfl
  | barrierHead p => simp [Mem.setHolder, Mem.setPtgid]
  | lockTotal b => simp [Mem.setHolder, Mem.setBarrier]

/-- A section that leaves the memory as it is. -/
theorem Mem.unlock_lock (h : m.holder l = none) : (m.setHolder l (some t)).spinUnlock l = m := by
  rw [Mem.spinUnlock, Mem.setHolder_setHolder, Mem.setHolder_self h]

theorem release (h : m.holder l = none) (q : Pc) :
    some ((m.setHolder l (some t)).spinUnlock l, q) = some (m, q) := by
  rw [Mem.unlock_lock h]

theorem takeLock_free (h : m.holder l = none) (q : Pc) :
    takeLock t m l q = some (m.setHolder l (some t), q) := by
  rw [takeLock, Mem.spinLock, if_pos h]
  rfl

theorem findOrNewPtgid_locked (o : Option Task) (g : Pid) :
    (m.setHolder .gTgidList o).findOrNewPtgid g
      = ((m.findOrNewPtgid g).1.setHolder .gTgidList o, (m.findOrNewPtgid g).2) := by
  unfold Mem.findOrNewPtgid
  rw [show (m.setHolder .gTgidList o).getPtgid g = m.getPtgid g from rfl]
  split <;> rfl

theorem getBarrier_locked (l : Lock) (o : Option Task) (p : Addr) (id : BitVec 32) :
    (m.setHolder l o).getBarrier p id = m.getBarrier p id := by
  simp [Mem.getBarrier]

theorem linkBarrier_locked (p : Addr) (o : Option Task) (c : BitVec 32) :
    (m.setHolder (.barrierHead p) o).linkBarrier p c
      = (m.linkBarrier p c).setHolder (.barrierHead p) o := by
  simp [Mem.linkBarrier, Mem.setHolder, Mem.setPtgid, Mem.setBarrier]

theorem unlinkBarrier_locked (p b : Addr) (o : Option Task) :
    (m.setHolder (.barrierHead p) o).unlinkBarrier p b
      = (m.unlinkBarrier p b).setHolder (.barrierHead p) o := by
  simp [Mem.unlinkBarrier, Mem.setHolder, Mem.setPtgid, Mem.setBarrier, Mem.setHist]

theorem freePtgid_locked (p : Addr) (o : Option Task) :
    (m.setHolder (.barrierHead p) o).freePtgid p
      = (m.freePtgid p).setHolder (.barrierHead p) o := by
  simp [Mem.freePtgid, Mem.setHolder, Mem.setPtgid]

end Locks

/-! ## The calls -/

/-- Nobody is in a section. -/
def Unlocked (m : Mem) : Prop := ∀ l, m.holder l = none

section Calls
variable {proc : Task → Pid} {m : Mem} {t : Task}

theorem unlocked_findOrNewPtgid (hf : Fresh m) (h : Unlocked m) (g : Pid) :
    Unlocked (m.findOrNewPtgid g).1 := by
  intro l
  unfold Mem.findOrNewPtgid
  split
  · exact h l
  · rw [holder_newPtgid hf g l]
    exact h l

/-- `get_barrier_from_ptgid` of a caller that runs alone. -/
theorem solo_getBarrier (h : Unlocked m) (who : Client) (p : Addr) (id : BitVec 32) :
    Solo (exec proc) t (m, .getLockHead who p id) (m, who.afterBarrier p (m.getBarrier p id)) := by
  refine .head .run (takeLock_free (h _) _) (.head .run rfl (.head .run ?_ .refl))
  rw [getBarrier_locked]
  exact release (h _) _

/-- `get_ptgid` of a caller that runs alone. -/
theorem solo_getPtgid (h : Unlocked m) (who : Seeker) (id : BitVec 32) :
    Solo (exec proc) t (m, .getLockG who id) (m, who.afterPtgid id (m.getPtgid (proc t))) := by
  refine .head .run (takeLock_free (h _) _) (.head .run rfl (.head .run ?_ .refl))
  exact release (h _) _

/-- `barrier_init` 143-159 alone. -/
theorem solo_initFind (hf : Fresh m) (h : Unlocked m) (c : BitVec 32) {m1 : Mem} {p : Addr}
    (hmp : m.findOrNewPtgid (proc t) = (m1, p)) :
    Solo (exec proc) t (m, .initLockG c) (m1, .initReadBid c p) := by
  have h1 : Unlocked m1 := by
    have := unlocked_findOrNewPtgid hf h (proc t)
    rwa [hmp] at this
  have hfind : exec proc t (m.setHolder .gTgidList (some t)) (.initFind c) .run
      = some (m1.setHolder .gTgidList (some t), .initUnlockG c p) := by
    rw [exec, next, findOrNewPtgid_locked, hmp]
  refine .head .run (takeLock_free (h _) _) (.head .run hfind ?_)
  exact .head .run (release (h1 _) _) .refl

/-- `barrier_init` 161-166 alone. -/
theorem solo_initCheck (h : Unlocked m) (c : BitVec 32) (p : Addr) :
    Solo (exec proc) t (m, .initReadBid c p)
      (m, (Client.init c (m.links p)).afterBarrier p (m.getBarrier p (m.ptgid p).bidCount)) :=
  .head .run rfl (solo_getBarrier h _ p _)

/-- `barrier_init` 169-186 alone. -/
theorem solo_initLink (h : Unlocked m) (c : BitVec 32) (p : Addr) (n : Nat) :
    Solo (exec proc) t (m, .initAlloc c p n)
      ({ m.linkBarrier p c with
          made := ⟨proc t, (m.ptgid p).bidCount, c, m.brk⟩ :: m.made }, .user (some 0)) := by
  have hlink : exec proc t (m.setHolder (.barrierHead p) (some t)) (.initLink c p n) .run
      = some ((m.linkBarrier p c).setHolder (.barrierHead p) (some t),
        .initUnlockHead c p m.brk (m.ptgid p).bidCount) := by
    rw [exec, next, linkBarrier_locked, Mem.setHolder_brk, Mem.setHolder_bidCount]
  have hfree : (m.linkBarrier p c).holder (.barrierHead p) = none := by
    have := h (.barrierHead p)
    simpa [Mem.holder, Mem.linkBarrier] using this
  refine .head .run rfl (.head .run (takeLock_free (h _) _) (.head .run hlink ?_))
  refine .head .run ?_ .refl
  rw [exec, next, Mem.unlock_lock hfree]
  rfl

/-- What a call that returned -1 or 0 leaves in the task. -/
def initReturn (r : Option (BitVec 32)) : Pc := .user (some (if r.isSome then 0 else -1))

/-- **`barrier_init` ALONE**: from free locks, the turns of the call compute
    `barrierInit`. -/
theorem solo_init (hf : Fresh m) (h : Unlocked m) (r : Option Int) (c : BitVec 32) :
    Solo (exec proc) t (m, .user r)
      ((barrierInit m (proc t) c).1, initReturn (barrierInit m (proc t) c).2) := by
  refine .head (.call (.init c)) rfl ?_
  rw [barrierInit, Call.entry]
  by_cases hc : c.toInt < 0
  · rw [if_pos hc, if_pos hc]
    exact .refl
  · rw [if_neg hc, if_neg hc]
    obtain ⟨m1, p, hmp⟩ : ∃ m1 p, m.findOrNewPtgid (proc t) = (m1, p) := ⟨_, _, rfl⟩
    have h1 : Unlocked m1 := by
      have := unlocked_findOrNewPtgid hf h (proc t)
      rwa [hmp] at this
    refine Solo.trans (solo_initFind hf h c hmp) (Solo.trans (solo_initCheck h1 c p) ?_)
    rw [hmp]
    dsimp only
    cases m1.getBarrier p (m1.ptgid p).bidCount with
    | some b => exact .refl
    | none => exact solo_initLink h1 c p (m1.links p)

/-- `barrier_destroy` 311-328 alone. -/
theorem solo_recycle (h : Unlocked m) (p b : Addr) :
    Solo (exec proc) t (m, .destroyLockHead p b) (recycle m p b, .user (some 0)) := by
  have hfree : (m.unlinkBarrier p b).holder (.barrierHead p) = none := by
    rw [holder_unlinkBarrier]
    exact h _
  have hg : ((m.unlinkBarrier p b).setHolder (.barrierHead p) (some t)).holder .gTgidList
      = none := by
    rw [Mem.holder_setHolder, if_neg nofun, holder_unlinkBarrier]
    exact h _
  have hunlink : exec proc t (m.setHolder (.barrierHead p) (some t)) (.destroyUnlink p b) .run
      = some ((m.unlinkBarrier p b).setHolder (.barrierHead p) (some t),
        if ((m.unlinkBarrier p b).ptgid p).barrierSize = 0 then .destroyLockG p b
          else .destroyUnlockHead p b) := by
    rw [exec, next, unlinkBarrier_locked, Mem.setHolder_barrierSize]
  refine .head .run (takeLock_free (h _) _) (.head .run hunlink ?_)
  rw [recycle]
  by_cases hz : ((m.unlinkBarrier p b).ptgid p).barrierSize = 0
  · rw [if_pos hz, if_pos hz]
    have hg' : (((m.unlinkBarrier p b).unlinkPtgid p).setHolder (.barrierHead p)
        (some t)).holder .gTgidList = none := hg
    have hfree' : (((m.unlinkBarrier p b).unlinkPtgid p).freePtgid p).holder (.barrierHead p)
        = none := by
      rw [Mem.freePtgid, holder_setPtgid (by rfl)]
      exact hfree
    have hfreePtgid : exec proc t (((m.unlinkBarrier p b).unlinkPtgid p).setHolder
        (.barrierHead p) (some t)) (.destroyFreePtgid p b) .run
        = some ((((m.unlinkBarrier p b).unlinkPtgid p).freePtgid p).setHolder (.barrierHead p)
          (some t), .destroyUnlockHead p b) := by
      rw [exec, next, freePtgid_locked]
    refine .head .run (takeLock_free hg _) (.head .run rfl (.head .run (release hg' _) ?_))
    refine .head .run hfreePtgid (.head .run ?_ .refl)
    rw [exec, next, Mem.unlock_lock hfree']
  · rw [if_neg hz, if_neg hz]
    refine .head .run ?_ .refl
    rw [exec, next, Mem.unlock_lock hfree]

/-- **`barrier_destroy` ALONE** computes `barrierDestroy`, where it returns. -/
theorem solo_destroy (h : Unlocked m) (r : Option Int) (id : BitVec 32) {m' : Mem} {ret : Int}
    (hret : barrierDestroy m (proc t) id = some (m', ret)) :
    Solo (exec proc) t (m, .user r) (m', .user (some ret)) := by
  refine .head (.call (.destroy id)) rfl (Solo.trans (solo_getPtgid h .destroy id) ?_)
  rw [barrierDestroy] at hret
  cases hp : m.getPtgid (proc t) with
  | none =>
      rw [hp] at hret
      cases hret
      exact .refl
  | some p =>
      rw [hp] at hret
      refine Solo.trans (solo_getBarrier h (.seek .destroy) p id) ?_
      cases hb : m.getBarrier p id with
      | none =>
          simp only [hb] at hret
          cases hret
          exact .refl
      | some b =>
          simp only [hb] at hret
          split at hret
          · cases hret
          · rename_i hn
            cases hret
            have hn' : ¬ (Loop.drain p).sleeps
                ((m.setHolder (.lockTotal b) (some t)).barrier b).total = true := by
              rw [Mem.setHolder_total]
              simpa [Loop.sleeps] using hn
            have htest : exec proc t (m.setHolder (.lockTotal b) (some t))
                (.loopTest (.drain p) b) .run
                = some (m.setHolder (.lockTotal b) (some t), .destroyUnlock p b) := by
              rw [exec, next, if_neg hn']
              rfl
            refine .head .run (takeLock_free (h _) _) (.head .run htest ?_)
            exact .head .run (release (h _) _) (solo_recycle h p b)

end Calls

/-! ## Sequences of calls are runs -/

/-- Nobody is in the kernel. -/
def Quiet (s : State) : Prop := ∀ u, ∃ r, s.loc u = .user r

theorem Quiet.unlocked {proc : Task → Pid} {s : State} (hr : Reachable proc s) (h : Quiet s) :
    Unlocked s.mem := by
  intro l
  cases hl : s.mem.holder l with
  | none => rfl
  | some u =>
      obtain ⟨r, hu⟩ := h u
      have hheld := (((reach_owns hr).2 u).holds l).mp hl
      rw [hu] at hheld
      cases hheld

/-- A task that returns to user mode leaves the kernel quiet. -/
theorem Quiet.solo {proc : Task → Pid} {s : State} (hr : Reachable proc s) (h : Quiet s) {t : Task}
    {m' : Mem} {ret : Option Int} (hs : Solo (exec proc) t (s.mem, s.loc t) (m', .user ret)) :
    ∃ s', Reachable proc s' ∧ s'.mem = m' ∧ Quiet s' := by
  obtain ⟨s', hr', hs', hother⟩ := Reach.of_solo hs rfl
  refine ⟨s', hr.trans hr', congrArg Prod.fst hs', ?_⟩
  intro u
  by_cases hu : u = t
  · exact ⟨ret, by rw [hu]; exact congrArg Prod.snd hs'⟩
  · rw [hother u hu]
    exact h u

/-- **SEQUENCES OF CALLS ARE RUNS**: the memory after any finite sequence of complete
    calls is reached by the machine, with nobody in the kernel. -/
theorem served_reachable {proc : Task → Pid} (hproc : Function.Surjective proc) {m : Mem}
    (h : Served m) : ∃ s, Reachable proc s ∧ s.mem = m ∧ Quiet s := by
  induction h with
  | start => exact ⟨State.initial, Reach.refl, rfl, fun _ => ⟨none, rfl⟩⟩
  | call g req hserved hs ih =>
      obtain ⟨s, hr, rfl, hq⟩ := ih
      obtain ⟨t, rfl⟩ := hproc g
      obtain ⟨r, hloc⟩ := hq t
      have hun := hq.unlocked hr
      cases req with
      | init c =>
          cases hs
          have hsolo : Solo (exec proc) t _ _ := solo_init (settled_of_served hserved).fresh hun r c
          rw [← hloc] at hsolo
          exact hq.solo hr hsolo
      | destroy id =>
          obtain ⟨⟨m', ret⟩, hd, rfl⟩ := Option.map_eq_some_iff.mp hs
          have hsolo := solo_destroy hun r id hd
          rw [← hloc] at hsolo
          exact hq.solo hr hsolo

end Barrier
