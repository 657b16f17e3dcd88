import KernelRocks.BarrierRegistryProofs

/-! # Destroying a barrier

    `barrier_destroy` looks the barrier up in one `barrier_head_lock` section,
    waits in its loop, and removes it in another.  Nothing stops a call from
    getting in between:

    * a `barrier_wait` may be under way on the barrier that is freed — the loop
      waits for a draining round only (`destroy_under_waiter`);
    * a second `barrier_destroy` may have found the barrier as well
      (`barrier_removed_twice`).

    The two conditions on the turns under which neither happens are `Spared` and
    `LookedUpOnce`; `no_waiter_at_unlink` and `barrier_removed_once` are what then
    holds in every reached state. -/

namespace Barrier

open Interleaving

/-! ## How a call gets to a stage -/

section Origin
variable {g : Pid} {m m' : Mem} {q q' : Pc}

/-- A `barrier_wait` got its barrier from a scan. -/
theorem RegMove.waits {b : Addr} (h : RegMove g m q m' q') (hq' : q'.stage = .waits b) :
    q.stage = .waits b
      ∨ ∃ p id, q = .getScan (.seek .wait) p id ∧ m.reg.getBarrier p id = some b := by
  cases h with
  | same _ hs => exact Or.inl (hs ▸ hq')
  | findWait p b' id hq hb _ hs =>
      rw [hs] at hq'
      cases hq'
      exact Or.inr ⟨p, id, hq, hb⟩
  | unlink p b' _ _ hs =>
      rw [hs] at hq'
      split at hq' <;> cases hq'
  | drop _ hs | found _ _ _ _ _ hs | fresh _ _ _ _ hs | read _ _ _ hs | check _ _ _ _ _ _ hs
  | link _ _ _ _ _ hs | create _ _ _ _ _ _ hs | findDestroy _ _ _ _ _ _ hs | pass _ _ _ _ _ hs
  | retire _ _ _ _ hs | destroy _ _ _ _ hs =>
      rw [hs] at hq'
      cases hq'

/-- A `barrier_destroy` removes a barrier after its loop has ended. -/
theorem RegMove.removes {p b : Addr} (h : RegMove g m q m' q') (hq' : q'.stage = .removes p b) :
    q.stage = .removes p b
      ∨ q = .loopTest (.drain p) b ∧ ¬ (Loop.drain p).sleeps (m.barrier b).total = true := by
  cases h with
  | same _ hs => exact Or.inl (hs ▸ hq')
  | pass p' b' hq hn _ hs =>
      rw [hs] at hq'
      cases hq'
      exact Or.inr ⟨hq, hn⟩
  | unlink p b' _ _ hs =>
      rw [hs] at hq'
      split at hq' <;> cases hq'
  | drop _ hs | found _ _ _ _ _ hs | fresh _ _ _ _ hs | read _ _ _ hs | check _ _ _ _ _ _ hs
  | link _ _ _ _ _ hs | create _ _ _ _ _ _ hs | findWait _ _ _ _ _ _ hs | findDestroy _ _ _ _ _ _ hs
  | retire _ _ _ _ hs | destroy _ _ _ _ hs =>
      rw [hs] at hq'
      cases hq'

end Origin

/-! ## Waiters -/

/-- A `barrier_destroy` ends its loop on a barrier only when no `barrier_wait` is
    under way on it, and a `barrier_wait` finds no barrier whose loop in
    `barrier_destroy` has ended. -/
def Spared (s : State) (t : Task) (_ : Act) : Prop :=
  (∀ p b, s.loc t = .loopTest (.drain p) b →
      ¬ (Loop.drain p).sleeps (s.mem.barrier b).total = true → ∀ u, (s.loc u).stage ≠ .waits b)
    ∧ ∀ p b id, s.loc t = .getScan (.seek .wait) p id → s.mem.getBarrier p id = some b →
      ∀ u p', (s.loc u).stage ≠ .removes p' b

theorem reach_spared {proc : Task → Pid} {s : State} (h : ReachWhen proc Spared s) :
    ∀ t p b, (s.loc t).stage = .removes p b → ∀ u, (s.loc u).stage ≠ .waits b := by
  refine Reach.invariant (I := fun s => ∀ t p b, (s.loc t).stage = .removes p b →
    ∀ u, (s.loc u).stage ≠ .waits b) ?_ ?_ h
  · intro t p b ht
    cases ht
  · intro s s' v a hr hI hC hs t p b ht u hu
    obtain ⟨m', q', he, rfl⟩ := turn_eq_some hs
    have hmove := exec_regMove (reach_owns hr).1 he
    simp only [Function.update_apply] at ht hu
    by_cases htv : t = v
    · by_cases huv : u = v
      · rw [if_pos htv] at ht
        rw [if_pos huv, ht] at hu
        cases hu
      · -- the destroyer has just ended its loop
        rw [if_pos htv] at ht
        rw [if_neg huv] at hu
        rcases hmove.removes ht with hq | ⟨hq, hn⟩
        · exact hI v p b hq u hu
        · exact hC.1 p b hq hn u hu
    · rw [if_neg htv] at ht
      by_cases huv : u = v
      · -- the waiter has just found the barrier
        rw [if_pos huv] at hu
        rcases hmove.waits hu with hq | ⟨p', id, hq, hb⟩
        · exact hI t p b ht v hq
        · exact hC.2 p' b id hq hb t p ht
      · rw [if_neg huv] at hu
        exact hI t p b ht u hu

/-- **NO BARRIER IS PULLED FROM UNDER A WAITER** on the runs whose turns are
    `Spared`: where `barrier_destroy` unlinks and frees a barrier, no
    `barrier_wait` has looked it up and not returned. -/
theorem no_waiter_at_unlink (proc : Task → Pid) {s : State} (h : ReachWhen proc Spared s)
    {t : Task} {p b : Addr} (ht : s.loc t = .destroyUnlink p b) (u : Task) :
    (s.loc u).stage ≠ .waits b := by
  refine reach_spared h t p b ?_ u
  rw [ht]
  rfl

/-- The condition on the end of the loop is exact: with the lock of the list free,
    a `barrier_destroy` that ends its loop under a waiter gets to the unlinking
    before the waiter moves. -/
theorem early_end_hits_waiter {proc : Task → Pid} {s : State} {t u : Task} {p b : Addr}
    (ht : s.loc t = .loopTest (.drain p) b)
    (hn : ¬ (Loop.drain p).sleeps (s.mem.barrier b).total = true)
    (hfree : s.mem.holder (.barrierHead p) = none) (hu : (s.loc u).stage = .waits b) :
    ∃ s', Reach (exec proc) Free s s' ∧ s'.loc t = .destroyUnlink p b
      ∧ (s'.loc u).stage = .waits b := by
  have hut : u ≠ t := by
    rintro rfl
    rw [ht] at hu
    cases hu
  have h1 : exec proc t s.mem (s.loc t) .run = some (s.mem, .destroyUnlock p b) := by
    rw [ht, exec, next, if_neg hn]
    rfl
  have hfree' : (s.mem.spinUnlock (.lockTotal b)).holder (.barrierHead p) = none := by
    rw [Mem.spinUnlock, Mem.holder_setHolder, if_neg (by simp)]
    exact hfree
  have h3 : exec proc t (s.mem.spinUnlock (.lockTotal b)) (.destroyLockHead p b) .run
      = some ((s.mem.spinUnlock (.lockTotal b)).setHolder (.barrierHead p) (some t),
        .destroyUnlink p b) := by
    rw [exec, next, takeLock, Mem.spinLock, if_pos hfree']
    rfl
  have hsolo : Solo (exec proc) t (s.mem, s.loc t)
      ((s.mem.spinUnlock (.lockTotal b)).setHolder (.barrierHead p) (some t), .destroyUnlink p b) :=
    .head .run h1 (.head .run rfl (.head .run h3 .refl))
  obtain ⟨s', hr, hs', hother⟩ := Reach.of_solo hsolo rfl
  refine ⟨s', hr, congrArg Prod.snd hs', ?_⟩
  rw [hother u hut]
  exact hu

def Stage.removesOn (b : Addr) : Stage → Bool
  | .removes _ b' => b' = b
  | _ => false

/-- The test for `Spared` on the first three tasks. -/
def sparedTest (s : State) (t : Task) (_ : Act) : Bool :=
  match s.loc t with
  | .loopTest (.drain p) b =>
      (Loop.drain p).sleeps (s.mem.barrier b).total || allBelow 3 (·.stage ≠ .waits b) s
  | .getScan (.seek .wait) p id =>
      match s.mem.getBarrier p id with
      | some b => allBelow 3 (fun q => !q.stage.removesOn b) s
      | none => true
  | _ => true

theorem spared_of_test (s : State) (t : Task) (a : Act) (ho : Only 3 s)
    (h : sparedTest s t a = true) : Spared s t a := by
  constructor
  · intro p b hq hn u
    rw [sparedTest, hq] at h
    rcases (Bool.or_eq_true_iff.mp h) with hs | hall
    · exact absurd hs hn
    · exact of_decide_eq_true (forall_of_allBelow ho rfl hall u)
  · intro p b id hq hb u p' hu
    rw [sparedTest, hq] at h
    simp only [hb] at h
    have hnot := forall_of_allBelow ho rfl h u
    rw [hu] at hnot
    simp [Stage.removesOn] at hnot

/-- Task 1 passes a barrier of one and returns; then task 2 destroys it. -/
theorem no_waiter_at_unlink_after_wait :
    let s := afterWhen (fun _ => 0) 3 sparedTest
      (wholeInit 0 1 ++ (1, .call (.wait 0)) :: runs 1 12 ++ (2, .call (.destroy 0)) :: runs 2 10)
    s.loc 2 = .destroyUnlink 0 1 ∧ (s.loc 1).stage ≠ .waits 1 := by
  refine ⟨by decide, ?_⟩
  exact no_waiter_at_unlink (fun _ => 0) (reachWhen_afterWhen _ spared_of_test _) (t := 2) (p := 0)
    (by decide) 1

/-- Task 1 sleeps in a round of two that is filling when task 2 destroys the
    barrier. -/
def underWaiter : List (Task × Act) :=
  wholeInit 0 2 ++ (1, .call (.wait 0)) :: runs 1 13 ++ (2, .call (.destroy 0)) :: runs 2 10

theorem destroy_under_waiter :
    ¬ ∀ (proc : Task → Pid) (s : State), Reachable proc s → ∀ t p b,
      s.loc t = .destroyUnlink p b → ∀ u, (s.loc u).stage ≠ .waits b := by
  intro h
  have hr := reachable_after (fun _ => 0) underWaiter
  exact h (fun _ => 0) _ hr 2 0 1 (by decide) 1 (by decide)

/-! ## Removal -/

/-- The record and the barrier of a `barrier_destroy` that has not unlinked yet. -/
def Stage.dooms : Stage → Option (Addr × Addr)
  | .drains p b | .removes p b => some (p, b)
  | _ => none

/-- The barrier of a `barrier_destroy` that has unlinked and not returned. -/
def Stage.ended : Stage → Option Addr
  | .retires _ b | .removed _ b => some b
  | _ => none

/-- The barrier a `barrier_destroy` under way has found. -/
def Stage.target : Stage → Option Addr
  | .drains _ b | .removes _ b | .retires _ b | .removed _ b => some b
  | _ => none

theorem Stage.target_of_dooms {x : Stage} {p b : Addr} (h : x.dooms = some (p, b)) :
    x.target = some b := by
  cases x <;> simp_all [Stage.dooms, Stage.target]

theorem Stage.target_of_ended {x : Stage} {b : Addr} (h : x.ended = some b) :
    x.target = some b := by
  cases x <;> simp_all [Stage.ended, Stage.target]

/-- No `barrier_destroy` finds a barrier that another one under way has found. -/
def LookedUpOnce (s : State) (t : Task) (_ : Act) : Prop :=
  ∀ p b id, s.loc t = .getScan (.seek .destroy) p id → s.mem.getBarrier p id = some b →
    ∀ u, (s.loc u).stage.target ≠ some b

/-- `barrier_size` counts the list, every barrier is in at most one place, and what
    is under way agrees with it. -/
structure Removal (r : Reg) (σ : Task → Stage) : Prop where
  size : ∀ p, (r.record p).barrierSize = BitVec.ofNat 32 (r.record p).barrierHead.length
  nodup : ∀ p, (r.record p).barrierHead.Nodup
  home : ∀ p p' b, b ∈ (r.record p).barrierHead → b ∈ (r.record p').barrierHead → p = p'
  linked : ∀ p b, b ∈ (r.record p).barrierHead → (r.entry b).unlinked = 0
  once : ∀ b, (r.entry b).destroyed ≤ (r.entry b).unlinked ∧ (r.entry b).unlinked ≤ 1
  dooms : ∀ t p b, (σ t).dooms = some (p, b) → b ∈ (r.record p).barrierHead
  ended : ∀ t b, (σ t).ended = some b → (r.entry b).unlinked = 1 ∧ (r.entry b).destroyed = 0
  unique : ∀ t u b, (σ t).target = some b → (σ u).target = some b → t = u

section Removal
variable {r : Reg} {σ : Task → Stage} {t : Task}

/-- A task changes its stage. -/
theorem Removal.stage (h : Removal r σ) {x : Stage}
    (hd : ∀ p b, x.dooms = some (p, b) → b ∈ (r.record p).barrierHead)
    (he : ∀ b, x.ended = some b → (r.entry b).unlinked = 1 ∧ (r.entry b).destroyed = 0)
    (hu : ∀ u b, u ≠ t → x.target = some b → (σ u).target ≠ some b) :
    Removal r (Function.update σ t x) where
  size := h.size
  nodup := h.nodup
  home := h.home
  linked := h.linked
  once := h.once
  dooms u p b hub := by
    by_cases hut : u = t
    · subst hut
      rw [Function.update_self] at hub
      exact hd p b hub
    · rw [Function.update_of_ne hut] at hub
      exact h.dooms u p b hub
  ended u b hub := by
    by_cases hut : u = t
    · subst hut
      rw [Function.update_self] at hub
      exact he b hub
    · rw [Function.update_of_ne hut] at hub
      exact h.ended u b hub
  unique u v b hub hvb := by
    by_cases hut : u = t
    · by_cases hvt : v = t
      · rw [hut, hvt]
      · subst hut
        rw [Function.update_self] at hub
        rw [Function.update_of_ne hvt] at hvb
        exact absurd hvb (hu v b hvt hub)
    · rw [Function.update_of_ne hut] at hub
      by_cases hvt : v = t
      · subst hvt
        rw [Function.update_self] at hvb
        exact absurd hub (hu u b hut hvb)
      · rw [Function.update_of_ne hvt] at hvb
        exact h.unique u v b hub hvb

/-- To a stage that has no barrier to destroy in hand. -/
theorem Removal.clear (h : Removal r σ) {x : Stage} (hx : x.target = none) :
    Removal r (Function.update σ t x) := by
  refine h.stage ?_ ?_ ?_
  · intro p b hd
    rw [Stage.target_of_dooms hd] at hx
    cases hx
  · intro b he
    rw [Stage.target_of_ended he] at hx
    cases hx
  · intro u b _ hb
    rw [hx] at hb
    cases hb

theorem Removal.create (h : Removal r σ) (e : Made) : Removal (r.create e) σ :=
  ⟨h.size, h.nodup, h.home, h.linked, h.once, h.dooms, h.ended, h.unique⟩

theorem Removal.retire (h : Removal r σ) (p : Addr) : Removal (r.retire p) σ :=
  ⟨h.size, h.nodup, h.home, h.linked, h.once, h.dooms, h.ended, h.unique⟩

theorem Removal.newPtgid (h : Removal r σ) (tgid : Pid)
    (hblank : (r.record r.brk).barrierHead = []) : Removal (r.newPtgid tgid) σ := by
  -- no list changes
  have hhead (p : Addr) :
      ((r.newPtgid tgid).record p).barrierHead = (r.record p).barrierHead := by
    by_cases hp : p = r.brk
    · subst hp
      simp [Reg.newPtgid, hblank]
    · simp [Reg.newPtgid, hp]
  refine ⟨fun p => ?_, fun p => ?_, fun p p' b => ?_, fun p b => ?_, h.once, fun t p b => ?_,
    h.ended, h.unique⟩
  · by_cases hp : p = r.brk
    · subst hp
      simp [Reg.newPtgid]
    · simpa [Reg.newPtgid, hp] using h.size p
  · rw [hhead]
    exact h.nodup p
  · rw [hhead, hhead]
    exact h.home p p' b
  · rw [hhead]
    exact h.linked p b
  · rw [hhead]
    exact h.dooms t p b

theorem Removal.link (h : Removal r σ) (p : Addr) (c : BitVec 32)
    (hbrk : ∀ p, r.brk ∉ (r.record p).barrierHead) (hnew : (r.entry r.brk).unlinked = 0) :
    Removal (r.link p c) σ := by
  have hold {p' b : Addr} (hb : b ∈ (r.record p').barrierHead) : b ≠ r.brk :=
    fun he => hbrk p' (he ▸ hb)
  refine ⟨fun p' => ?_, fun p' => ?_, fun p1 p2 b h1 h2 => ?_, fun p' b hb => ?_, fun b => ?_,
    fun t p' b hb => ?_, fun t b hb => ?_, h.unique⟩
  · by_cases hp : p' = p
    · subst hp
      simp [Reg.link, h.size p', BitVec.ofNat_add]
    · simpa [Reg.link, hp] using h.size p'
  · rw [head_link]
    split
    · exact List.nodup_cons.mpr ⟨hbrk p, h.nodup p⟩
    · exact h.nodup p'
  · rcases mem_head_link h1 with ⟨hb1, hp1⟩ | hm1
    · rcases mem_head_link h2 with ⟨-, hp2⟩ | hm2
      · rw [hp1, hp2]
      · exact absurd hb1 (hold hm2)
    · rcases mem_head_link h2 with ⟨hb2, -⟩ | hm2
      · exact absurd hb2 (hold hm1)
      · exact h.home p1 p2 b hm1 hm2
  · rcases mem_head_link hb with ⟨rfl, -⟩ | hb
    · rw [entry_link_brk]
    · rw [entry_link (hold hb)]
      exact h.linked p' b hb
  · by_cases hb : b = r.brk
    · rw [hb, entry_link_brk]
      exact ⟨Nat.le_refl _, Nat.zero_le _⟩
    · rw [entry_link hb]
      exact h.once b
  · have hb' := h.dooms t p' b hb
    rw [head_link]
    split
    · rename_i hp
      exact List.mem_cons_of_mem _ (hp ▸ hb')
    · exact hb'
  · have hne : b ≠ r.brk := by
      rintro rfl
      rw [(h.ended t r.brk hb).1] at hnew
      cases hnew
    rw [entry_link hne]
    exact h.ended t b hb

/-- Unlinking a barrier that is linked, by the only call that has found it. -/
theorem Removal.unlink (h : Removal r σ) {p b : Addr} (hb : b ∈ (r.record p).barrierHead)
    (hno : ∀ u, (σ u).target ≠ some b) : Removal (r.unlink p b) σ := by
  have hentry {b' : Addr} (hne : b' ≠ b) : (r.unlink p b).entry b' = r.entry b' := by
    simp [Reg.unlink, hne]
  have hsub {p' b' : Addr} (hb' : b' ∈ ((r.unlink p b).record p').barrierHead) :
      b' ∈ (r.record p').barrierHead ∧ b' ≠ b := by
    rw [head_unlink] at hb'
    split at hb'
    · rename_i hp
      subst hp
      exact ⟨List.mem_of_mem_erase hb', ((h.nodup p').mem_erase_iff.mp hb').1⟩
    · rename_i hp
      refine ⟨hb', ?_⟩
      rintro rfl
      exact hp (h.home p' p b' hb' hb)
  refine ⟨fun p' => ?_, fun p' => ?_, fun p1 p2 b' h1 h2 => ?_, fun p' b' hb' => ?_, fun b' => ?_,
    fun t p' b' ht => ?_, fun t b' ht => ?_, h.unique⟩
  · by_cases hp : p' = p
    · subst hp
      have hsize := ofNat_sub_one (List.length_pos_of_mem hb)
      simpa [Reg.unlink, h.size p', List.length_erase_of_mem hb] using hsize
    · simpa [Reg.unlink, hp] using h.size p'
  · rw [head_unlink]
    split
    · exact (h.nodup p).erase b
    · exact h.nodup p'
  · exact h.home p1 p2 b' (hsub h1).1 (hsub h2).1
  · rw [hentry (hsub hb').2]
    exact h.linked p' b' (hsub hb').1
  · by_cases hbb : b' = b
    · subst hbb
      have h0 := h.linked p b' hb
      have h1 := (h.once b').1
      simp [Reg.unlink, h0]
      omega
    · rw [hentry hbb]
      exact h.once b'
  · have hne : b' ≠ b := by
      rintro rfl
      exact hno t (Stage.target_of_dooms ht)
    rw [head_unlink]
    split
    · rename_i hp
      exact (List.mem_erase_of_ne hne).mpr (hp ▸ h.dooms t p' b' ht)
    · exact h.dooms t p' b' ht
  · have hne : b' ≠ b := by
      rintro rfl
      exact hno t (Stage.target_of_ended ht)
    rw [hentry hne]
    exact h.ended t b' ht

/-- A `barrier_destroy` returns 0. -/
theorem Removal.destroy (h : Removal r σ) {b : Addr} (hu : (r.entry b).unlinked = 1)
    (hd : (r.entry b).destroyed = 0) (hno : ∀ u, (σ u).target ≠ some b) :
    Removal (r.destroy b) σ := by
  have hentry {b' : Addr} (hne : b' ≠ b) : (r.destroy b).entry b' = r.entry b' := by
    simp [Reg.destroy, hne]
  have hunl (b' : Addr) : ((r.destroy b).entry b').unlinked = (r.entry b').unlinked := by
    by_cases hbb : b' = b
    · subst hbb; simp [Reg.destroy]
    · rw [hentry hbb]
  refine ⟨h.size, h.nodup, h.home, fun p b' hb' => ?_, fun b' => ?_, h.dooms, fun t b' ht => ?_,
    h.unique⟩
  · rw [hunl]
    exact h.linked p b' hb'
  · by_cases hbb : b' = b
    · subst hbb
      simp [Reg.destroy, hu, hd]
    · rw [hentry hbb]
      exact h.once b'
  · have hne : b' ≠ b := by
      rintro rfl
      exact hno t (Stage.target_of_ended ht)
    rw [hentry hne]
    exact h.ended t b' ht

end Removal

/-! ## Every run -/

/-- One turn.  The stage of the task whose turn it is changes last. -/
theorem removal_turn {g : Pid} {s : State} {t : Task} {a : Act} {m' : Mem} {q' : Pc}
    (hf : Fresh s.mem) (h : Removal s.mem.reg (stages s)) (hC : LookedUpOnce s t a)
    (hm : RegMove g s.mem (s.loc t) m' q') :
    Removal m'.reg (Function.update (stages s) t q'.stage) := by
  -- with `t` out of the way nobody else has `t`'s barrier in hand
  have alone {x : Stage} {b : Addr} (hx : x.target = none) (ht : (stages s t).target = some b)
      (u : Task) : (Function.update (stages s) t x u).target ≠ some b := by
    intro hu
    by_cases hut : u = t
    · subst hut
      rw [Function.update_self, hx] at hu
      cases hu
    · rw [Function.update_of_ne hut] at hu
      exact hut (h.unique u t b hu ht)
  cases hm with
  | same hr hs =>
      rw [hr, hs]
      exact (Function.update_eq_self t (stages s)).symm ▸ h
  | drop hr hs => rw [hr, hs]; exact h.clear rfl
  | found c p _ _ hr hs => rw [hr, hs]; exact h.clear rfl
  | fresh c _ _ hr hs =>
      rw [hr, hs]
      exact (h.newPtgid g (by rw [hf.record_brk])).clear rfl
  | read p _ hr hs => rw [hr, hs]; exact h.clear rfl
  | check p n id _ _ hr hs => rw [hr, hs]; exact h.clear rfl
  | link c p n _ hr hs => rw [hr, hs]; exact (h.link p c hf.brk_not_mem hf.entry_brk).clear rfl
  | create c p b id _ hr hs => rw [hr, hs]; exact (h.create _).clear rfl
  | findWait p b id _ _ hr hs => rw [hr, hs]; exact h.clear rfl
  | findDestroy p b id hq hb hr hs =>
      rw [hr, hs]
      have hmem : b ∈ (s.mem.reg.record p).barrierHead := (getBarrier_mem hb).1
      refine h.stage ?_ nofun ?_
      · rintro p' b' ⟨⟩
        exact hmem
      · rintro u b' _ ⟨⟩
        exact hC p b id hq hb u
  | pass p b hq _ hr hs =>
      rw [hr, hs]
      have hst : stages s t = .drains p b := by rw [stages, hq]; rfl
      refine h.stage ?_ nofun ?_
      · rintro p' b' ⟨⟩
        exact h.dooms t p b (by rw [hst]; rfl)
      · rintro u b' hut ⟨⟩ hu
        exact hut (h.unique u t b hu (by rw [hst]; rfl))
  | unlink p b hq hr hs =>
      have hst : stages s t = .removes p b := by rw [stages, hq]; rfl
      have hmem := h.dooms t p b (by rw [hst]; rfl)
      have h0 := h.linked p b hmem
      have h1 := (h.once b).1
      have hstep := (h.clear (t := t) (x := .idle) rfl).unlink hmem
        (alone rfl (by rw [hst]; rfl))
      have hentry : ((s.mem.reg.unlink p b).entry b).unlinked = 1
          ∧ ((s.mem.reg.unlink p b).entry b).destroyed = 0 := by
        simp [Reg.unlink, h0]
        omega
      rw [hr, hs, ← Function.update_idem (a := t) Stage.idle]
      refine hstep.stage ?_ ?_ ?_
      · intro p' b' hd
        split at hd <;> cases hd
      · intro b' hb'
        split at hb' <;> cases hb' <;> exact hentry
      · intro u b' hut hb'
        split at hb' <;> cases hb' <;> exact alone rfl (by rw [hst]; rfl) u
  | retire p b hq hr hs =>
      rw [hr, hs]
      have hst : stages s t = .retires p b := hq
      have hend := h.ended t b (by rw [hst]; rfl)
      refine (h.retire p).stage ?_ ?_ ?_
      · rintro p' b' ⟨⟩
      · rintro b' ⟨⟩
        exact hend
      · rintro u b' hut ⟨⟩ hu
        exact hut (h.unique u t b hu (by rw [hst]; rfl))
  | destroy p b hq hr hs =>
      rw [hr, hs]
      have hst : stages s t = .removed p b := hq
      have hend := h.ended t b (by rw [hst]; rfl)
      exact (h.clear (t := t) (x := .idle) rfl).destroy hend.1 hend.2 (alone rfl (by rw [hst]; rfl))

theorem reach_removal {proc : Task → Pid} {s : State} (h : ReachWhen proc LookedUpOnce s) :
    Removal s.mem.reg (stages s) := by
  refine reach_reg ?_ ?_ h
  · refine ⟨fun _ => rfl, fun _ => List.nodup_nil, ?_, ?_, ?_, ?_, ?_, ?_⟩
    · intro p p' b hb
      cases hb
    · intro p b hb
      cases hb
    · intro b
      exact ⟨Nat.le_refl _, Nat.zero_le _⟩
    · intro t p b hb
      cases hb
    · intro t b hb
      cases hb
    · intro t u b hb
      cases hb
  · intro s t a m' q' hr hC hI hm
    exact removal_turn (reach_owns hr).1 hI hC hm

/-- **EACH BARRIER IS REMOVED ONCE** on the runs in which no `barrier_destroy`
    finds a barrier that another one under way has found: `barrier_size` is the
    number of barriers on the list (as an `int`), no barrier has been unlinked more
    than once, and at most one `barrier_destroy` has returned 0 for it. -/
theorem barrier_removed_once (proc : Task → Pid) {s : State}
    (h : ReachWhen proc LookedUpOnce s) :
    (∀ p, (s.mem.ptgid p).barrierSize = BitVec.ofNat 32 (s.mem.ptgid p).barrierHead.length)
      ∧ ∀ b, (s.mem.hist b).unlinked ≤ 1 ∧ (s.mem.hist b).destroyed ≤ 1 := by
  have hR := reach_removal h
  refine ⟨hR.size, fun b => ⟨(hR.once b).2, ?_⟩⟩
  exact Nat.le_trans (hR.once b).1 (hR.once b).2

/-- On these runs no `list_del` gets a barrier that is not on the list. -/
theorem linked_at_unlink {proc : Task → Pid} {s : State} (h : ReachWhen proc LookedUpOnce s)
    {t : Task} {p b : Addr} (ht : s.loc t = .destroyUnlink p b) :
    b ∈ (s.mem.ptgid p).barrierHead := by
  refine (reach_removal h).dooms t p b ?_
  rw [stages, ht]
  rfl

/-- The test for `LookedUpOnce` on the first three tasks. -/
def lookedUpOnceTest (s : State) (t : Task) (_ : Act) : Bool :=
  match s.loc t with
  | .getScan (.seek .destroy) p id =>
      match s.mem.getBarrier p id with
      | some b => allBelow 3 (·.stage.target ≠ some b) s
      | none => true
  | _ => true

theorem lookedUpOnce_of_test (s : State) (t : Task) (a : Act) (ho : Only 3 s)
    (h : lookedUpOnceTest s t a = true) : LookedUpOnce s t a := by
  intro p b id hq hb u
  rw [lookedUpOnceTest, hq] at h
  simp only [hb] at h
  exact of_decide_eq_true (forall_of_allBelow ho rfl h u)

/-- Two barriers; tasks 1 and 2 destroy one each, the second while the first is on
    its way. -/
theorem barrier_removed_once_overlapping :
    let s := afterWhen (fun _ => 0) 3 lookedUpOnceTest
      (wholeInit 0 2 ++ wholeInit 0 2 ++ (1, .call (.destroy 0)) :: runs 1 9
        ++ (2, .call (.destroy 1)) :: runs 2 9 ++ runs 1 3)
    (s.mem.ptgid 0).barrierHead = [2] ∧ (s.mem.ptgid 0).barrierSize = 1
      ∧ (s.mem.hist 1).destroyed ≤ 1 := by
  refine ⟨by decide, ?_, ?_⟩
  · exact (barrier_removed_once (fun _ => 0)
      (reachWhen_afterWhen _ lookedUpOnce_of_test _)).1 0
  · exact ((barrier_removed_once (fun _ => 0)
      (reachWhen_afterWhen _ lookedUpOnce_of_test _)).2 1).2

/-- Two barriers; tasks 1 and 2 both find the first one, and both destroy it. -/
def bothFind : List (Task × Act) :=
  wholeInit 0 2 ++ wholeInit 0 2 ++ (1, .call (.destroy 0)) :: runs 1 9
    ++ (2, .call (.destroy 0)) :: runs 2 9 ++ runs 1 3 ++ runs 2 7

theorem barrier_removed_twice :
    ¬ ∀ (proc : Task → Pid) (s : State), Reachable proc s →
      (∀ u p, .barrierHead p ∉ (s.loc u).held) →
      (∀ p, (s.mem.ptgid p).barrierSize = BitVec.ofNat 32 (s.mem.ptgid p).barrierHead.length)
        ∧ ∀ b, (s.mem.hist b).unlinked ≤ 1 ∧ (s.mem.hist b).destroyed ≤ 1 := by
  intro h
  have ho := only_afterWhen (fun _ => 0) 3 (fun _ _ _ => true) bothFind
  have hr : Reachable (fun _ => 0) (afterWhen (fun _ => 0) 3 (fun _ _ _ => true) bothFind) :=
    reachWhen_afterWhen _ (fun _ _ _ _ _ => trivial) bothFind
  have hout (u : Task) : ((afterWhen (fun _ => 0) 3 (fun _ _ _ => true) bothFind).loc u).held
      = [] :=
    List.isEmpty_iff.mp (forall_of_allBelow (f := fun q => q.held.isEmpty) ho rfl (by decide) u)
  have hbad := (h (fun _ => 0) _ hr (fun u p => by simp [hout u])).2 1
  exact absurd hbad.2 (by decide)

end Barrier
