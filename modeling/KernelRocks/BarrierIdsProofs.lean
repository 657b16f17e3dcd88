import KernelRocks.BarrierSoloProofs

/-! # Ids of live barriers

    `barrier_init` checks that the id at `bid_count` is not live in one
    `barrier_head_lock` section and takes `bid_count` in another.  As long as the
    counter has not come round, the ids below it are all different and the check
    is not needed; once it has, the id that is taken must be the id that was
    checked.  `LinkInTurn` says just that of every link, and then the ids of a
    record are different in every reached state (`live_ids_unique`).

    Without it they need not be: after 2^32 barriers on one record, two crossing
    `barrier_init` calls check the id 0 and take 0 and 1 (`live_ids_repeat`). -/

namespace Barrier

open Interleaving KeyedList

/-- The record has had no further barrier since the call read `bid_count`, or fewer
    than 2^32 in all. -/
def LinkInTurn (s : State) (t : Task) (_ : Act) : Prop :=
  ∀ c p n, s.loc t = .initLink c p n → s.mem.links p = n ∨ s.mem.links p < 2 ^ 32

/-- `bid_count` counts the barriers of the record, the ids that are linked come
    from below it, and a call that has checked an id nobody has taken since would
    not repeat one. -/
structure Numbered (r : Reg) (σ : Task → Stage) : Prop where
  bid : ∀ p, (r.record p).bidCount = BitVec.ofNat 32 (r.record p).links
  below : ∀ p, ∀ b ∈ (r.record p).barrierHead,
    ∃ j < (r.record p).links, (r.entry b).id = BitVec.ofNat 32 j
  ids : ∀ p, UniqueKeys (fun b => (r.entry b).id) (r.record p).barrierHead
  checks : ∀ t p n id, σ t = .checks p n id → id = BitVec.ofNat 32 n ∧ n ≤ (r.record p).links
  checked : ∀ t p n, σ t = .checked p n → n ≤ (r.record p).links
    ∧ ((r.record p).links = n → ∀ b ∈ (r.record p).barrierHead,
      (r.entry b).id ≠ BitVec.ofNat 32 n)

section Numbered
variable {r r' : Reg} {σ : Task → Stage} {t : Task}

/-- A task changes its stage. -/
theorem Numbered.stage (h : Numbered r σ) {x : Stage}
    (hx : ∀ p n id, x = .checks p n id → id = BitVec.ofNat 32 n ∧ n ≤ (r.record p).links)
    (hy : ∀ p n, x = .checked p n → n ≤ (r.record p).links
      ∧ ((r.record p).links = n → ∀ b ∈ (r.record p).barrierHead,
        (r.entry b).id ≠ BitVec.ofNat 32 n)) :
    Numbered r (Function.update σ t x) where
  bid := h.bid
  below := h.below
  ids := h.ids
  checks u p n id hu := by
    by_cases hut : u = t
    · subst hut
      rw [Function.update_self] at hu
      exact hx p n id hu
    · rw [Function.update_of_ne hut] at hu
      exact h.checks u p n id hu
  checked u p n hu := by
    by_cases hut : u = t
    · subst hut
      rw [Function.update_self] at hu
      exact hy p n hu
    · rw [Function.update_of_ne hut] at hu
      exact h.checked u p n hu

/-- A change of the registry that adds no barrier. -/
theorem Numbered.shrink (h : Numbered r σ)
    (hbid : ∀ p, (r'.record p).bidCount = (r.record p).bidCount)
    (hlinks : ∀ p, (r'.record p).links = (r.record p).links)
    (hhead : ∀ p, (r'.record p).barrierHead.Sublist (r.record p).barrierHead)
    (hid : ∀ b, (r'.entry b).id = (r.entry b).id) : Numbered r' σ where
  bid p := by
    rw [hbid, hlinks]
    exact h.bid p
  below p b hb := by
    rw [hlinks, hid]
    exact h.below p b ((hhead p).subset hb)
  ids p := ((h.ids p).sublist (hhead p)).congr fun b _ => (hid b).symm
  checks u p n id hu := by
    rw [hlinks]
    exact h.checks u p n id hu
  checked u p n hu := by
    rw [hlinks]
    refine ⟨(h.checked u p n hu).1, fun hn b hb => ?_⟩
    rw [hid]
    exact (h.checked u p n hu).2 hn b ((hhead p).subset hb)

theorem Numbered.newPtgid (h : Numbered r σ) (g : Pid)
    (hblank : r.record r.brk = ⟨0, 0, 0, [], 0⟩) : Numbered (r.newPtgid g) σ := by
  -- the new record counts as the blank one did
  have hrec (p : Addr) : ((r.newPtgid g).record p).bidCount = (r.record p).bidCount
      ∧ ((r.newPtgid g).record p).links = (r.record p).links
      ∧ ((r.newPtgid g).record p).barrierHead = (r.record p).barrierHead := by
    by_cases hp : p = r.brk
    · subst hp
      rw [record_newPtgid_self, hblank]
      exact ⟨rfl, rfl, rfl⟩
    · rw [record_newPtgid hp]
      exact ⟨rfl, rfl, rfl⟩
  refine h.shrink (fun p => (hrec p).1) (fun p => (hrec p).2.1) (fun p => ?_) fun _ => rfl
  rw [(hrec p).2.2]

theorem Numbered.unlink (h : Numbered r σ) (p b : Addr) : Numbered (r.unlink p b) σ := by
  have hrec (p' : Addr) : ((r.unlink p b).record p').bidCount = (r.record p').bidCount
      ∧ ((r.unlink p b).record p').links = (r.record p').links := by
    by_cases hp : p' = p
    · subst hp; simp [Reg.unlink]
    · simp [Reg.unlink, hp]
  refine h.shrink (fun p' => (hrec p').1) (fun p' => (hrec p').2) (fun p' => ?_) id_unlink
  rw [head_unlink]
  split
  · rename_i hp
    subst hp
    exact List.erase_sublist
  · exact List.Sublist.refl _

theorem ofNat_ne_of_lt {i j : Nat} (hij : i < j) (hj : j < 2 ^ 32) :
    BitVec.ofNat 32 i ≠ BitVec.ofNat 32 j := by
  intro he
  have := congrArg BitVec.toNat he
  rw [BitVec.toNat_ofNat, BitVec.toNat_ofNat, Nat.mod_eq_of_lt hj,
    Nat.mod_eq_of_lt (Nat.lt_trans hij hj)] at this
  omega

/-- The id that is taken is not live: it was checked, or it is above all others. -/
theorem Numbered.fresh_id (h : Numbered r σ) {p : Addr} {n : Nat} (ht : σ t = .checked p n)
    (hturn : (r.record p).links = n ∨ (r.record p).links < 2 ^ 32) :
    ∀ b ∈ (r.record p).barrierHead, (r.entry b).id ≠ (r.record p).bidCount := by
  intro b hb
  rw [h.bid p]
  rcases hturn with hn | hlt
  · rw [hn]
    exact (h.checked t p n ht).2 hn b hb
  · obtain ⟨j, hj, hid⟩ := h.below p b hb
    rw [hid]
    exact ofNat_ne_of_lt hj hlt

theorem links_link (p p' : Addr) (c : BitVec 32) :
    ((r.link p c).record p').links
      = if p' = p then (r.record p).links + 1 else (r.record p').links := by
  by_cases hp : p' = p
  · subst hp; simp [Reg.link]
  · simp [Reg.link, hp]

theorem Numbered.link (h : Numbered r σ) {p : Addr} (c : BitVec 32)
    (hbrk : ∀ p, r.brk ∉ (r.record p).barrierHead)
    (hid : ∀ b ∈ (r.record p).barrierHead, (r.entry b).id ≠ (r.record p).bidCount) :
    Numbered (r.link p c) σ := by
  have hold {p' b : Addr} (hb : b ∈ (r.record p').barrierHead) :
      (r.link p c).entry b = r.entry b :=
    entry_link fun he => hbrk p' (he ▸ hb)
  have hnew : ((r.link p c).entry r.brk).id = (r.record p).bidCount := by simp [Reg.link]
  have hlinks (p' : Addr) : (r.record p').links ≤ ((r.link p c).record p').links := by
    rw [links_link]
    split
    · rename_i hp
      rw [hp]
      exact Nat.le_succ _
    · exact Nat.le_refl _
  refine ⟨fun p' => ?_, fun p' b hb => ?_, fun p' => ?_, fun u p' n id hu => ?_,
    fun u p' n hu => ?_⟩
  · by_cases hp : p' = p
    · subst hp
      simp [Reg.link, h.bid p', BitVec.ofNat_add]
    · simpa [Reg.link, hp] using h.bid p'
  · rcases mem_head_link hb with ⟨rfl, rfl⟩ | hb
    · refine ⟨(r.record p').links, ?_, ?_⟩
      · rw [links_link, if_pos rfl]
        exact Nat.lt_succ_self _
      · rw [hnew]
        exact h.bid p'
    · obtain ⟨j, hj, hjid⟩ := h.below p' b hb
      refine ⟨j, Nat.lt_of_lt_of_le hj (hlinks p'), ?_⟩
      rw [hold hb]
      exact hjid
  · have huniq : UniqueKeys (fun b => ((r.link p c).entry b).id) (r.record p').barrierHead := by
      refine (h.ids p').congr fun b hb => ?_
      rw [hold hb]
    rw [head_link]
    split
    · rename_i hp
      subst hp
      refine huniq.cons (lookup_eq_none_iff.mpr fun b hb => ?_)
      rw [hold hb, hnew]
      exact hid b hb
    · exact huniq
  · obtain ⟨hidn, hn⟩ := h.checks u p' n id hu
    exact ⟨hidn, Nat.le_trans hn (hlinks p')⟩
  · obtain ⟨hn, hfree⟩ := h.checked u p' n hu
    refine ⟨Nat.le_trans hn (hlinks p'), fun he b hb => ?_⟩
    rw [links_link] at he
    rw [head_link] at hb
    split at he
    · -- a link on its own record: the check is out of date
      rename_i hp
      subst hp
      omega
    · rename_i hp
      rw [if_neg hp] at hb
      rw [hold hb]
      exact hfree he b hb

end Numbered

theorem numbered_turn {g : Pid} {s : State} {t : Task} {a : Act} {m' : Mem} {q' : Pc}
    (hf : Fresh s.mem) (h : Numbered s.mem.reg (stages s)) (hC : LinkInTurn s t a)
    (hm : RegMove g s.mem (s.loc t) m' q') :
    Numbered m'.reg (Function.update (stages s) t q'.stage) := by
  -- a stage that is not about an id
  have plain {r : Reg} {x : Stage} (hr : Numbered r (stages s)) (hx : ∀ p n id, x ≠ .checks p n id)
      (hy : ∀ p n, x ≠ .checked p n) : Numbered r (Function.update (stages s) t x) :=
    hr.stage (fun p n id he => absurd he (hx p n id)) (fun p n he => absurd he (hy p n))
  cases hm with
  | same hr hs =>
      rw [hr, hs]
      exact (Function.update_eq_self t (stages s)).symm ▸ h
  | drop hr hs => rw [hr, hs]; exact plain h nofun nofun
  | found c p _ _ hr hs => rw [hr, hs]; exact plain h nofun nofun
  | fresh c _ _ hr hs => rw [hr, hs]; exact plain (h.newPtgid g hf.record_brk) nofun nofun
  | read p _ hr hs =>
      rw [hr, hs]
      refine h.stage ?_ nofun
      rintro p' n id ⟨⟩
      exact ⟨h.bid p, Nat.le_refl _⟩
  | check p n id hst hb hr hs =>
      rw [hr, hs]
      obtain ⟨rfl, hn⟩ := h.checks t p n id hst
      refine h.stage nofun ?_
      rintro p' n' ⟨⟩
      exact ⟨hn, fun _ b hmem => lookup_eq_none_iff.mp hb b hmem⟩
  | link c p n hq hr hs =>
      rw [hr, hs]
      have hst : stages s t = .checked p n := by rw [stages, hq]; rfl
      exact plain (h.link c hf.brk_not_mem (h.fresh_id hst (hC c p n hq))) nofun nofun
  | create c p b id _ hr hs =>
      rw [hr, hs]
      exact plain ⟨h.bid, h.below, h.ids, h.checks, h.checked⟩ nofun nofun
  | findWait p b id _ _ hr hs => rw [hr, hs]; exact plain h nofun nofun
  | findDestroy p b id _ _ hr hs => rw [hr, hs]; exact plain h nofun nofun
  | pass p b _ _ hr hs => rw [hr, hs]; exact plain h nofun nofun
  | unlink p b _ hr hs =>
      rw [hr, hs]
      refine plain (h.unlink p b) ?_ ?_
      · intro p' n id he
        split at he <;> cases he
      · intro p' n he
        split at he <;> cases he
  | retire p b _ hr hs =>
      rw [hr, hs]
      exact plain ⟨h.bid, h.below, h.ids, h.checks, h.checked⟩ nofun nofun
  | destroy p b _ hr hs =>
      rw [hr, hs]
      exact plain (h.shrink (fun _ => rfl) (fun _ => rfl) (fun _ => List.Sublist.refl _) id_destroy)
        nofun nofun

theorem reach_numbered {proc : Task → Pid} {s : State} (h : ReachWhen proc LinkInTurn s) :
    Numbered s.mem.reg (stages s) := by
  refine reach_reg ?_ ?_ h
  · refine ⟨fun _ => rfl, ?_, fun _ => uniqueKeys_nil, nofun, nofun⟩
    intro p b hb
    cases hb
  · intro s t a m' q' hr hC hI hm
    exact numbered_turn (reach_owns hr).1 hI hC hm

/-- **LIVE IDS ARE DIFFERENT** on the runs whose links are all in turn. -/
theorem live_ids_unique (proc : Task → Pid) {s : State} (h : ReachWhen proc LinkInTurn s)
    (p : Addr) : ((s.mem.ptgid p).barrierHead.map fun b => (s.mem.barrier b).id).Nodup :=
  (reach_numbered h).ids p

/-- The test for `LinkInTurn`. -/
def linkInTurnTest (s : State) (t : Task) (_ : Act) : Bool :=
  match s.loc t with
  | .initLink _ p n => s.mem.links p = n ∨ s.mem.links p < 2 ^ 32
  | _ => true

theorem linkInTurn_of_test (s : State) (t : Task) (a : Act) (_ : Only 3 s)
    (h : linkInTurnTest s t a = true) : LinkInTurn s t a := by
  intro c p n hq
  rw [linkInTurnTest, hq] at h
  exact of_decide_eq_true h

/-- Two crossing `barrier_init` calls on a young record. -/
theorem live_ids_unique_crossing :
    let s := afterWhen (fun _ => 0) 3 linkInTurnTest
      (wholeInit 0 1 ++ (1, .call (.init 1)) :: runs 1 7 ++ (2, .call (.init 1)) :: runs 2 7
        ++ runs 1 4 ++ runs 2 4)
    (s.mem.ptgid 0).barrierHead = [3, 2, 1]
      ∧ ((s.mem.ptgid 0).barrierHead.map fun b => (s.mem.barrier b).id).Nodup :=
  ⟨by decide, live_ids_unique (fun _ => 0) (reachWhen_afterWhen _ linkInTurn_of_test _) 0⟩

/-! ## The counter comes round -/

/-- One barrier `b` of process 0 is live, with id 1, and the counter of its record is
    at `k`. -/
structure OneLive (m : Mem) (p b : Addr) (k : BitVec 32) : Prop where
  served : Served m
  found : m.getPtgid 0 = some p
  head : (m.ptgid p).barrierHead = [b]
  id : (m.barrier b).id = 1
  bid : (m.ptgid p).bidCount = k

section Cycle
variable {m : Mem} {p b : Addr} {k : BitVec 32}

/-- Another barrier is made. -/
theorem OneLive.init (h : OneLive m p b k) (hk : k ≠ 1) :
    ∃ m', Served m' ∧ m'.reg = (m.reg.link p 1).create ⟨0, k, 1, m.brk⟩ := by
  have hnone : m.getBarrier p (m.ptgid p).bidCount = none := by
    simpa [Mem.getBarrier, h.head, h.id, h.bid] using Ne.symm hk
  have hr := barrierInit_found (m := m) (g := 0) (c := 1) (by decide) h.found
  rw [hnone] at hr
  refine ⟨(barrierInit m 0 1).1, .call 0 (.init 1) h.served rfl, ?_⟩
  rw [hr]
  show (m.linkBarrier p 1).reg.create ⟨0, (m.ptgid p).bidCount, 1, m.brk⟩ = _
  rw [reg_linkBarrier (settled_of_served h.served).fresh, h.bid]

/-- ... and destroyed: the counter has gone one further. -/
theorem OneLive.cycle (h : OneLive m p b k) (hk : k ≠ 1) : ∃ m', OneLive m' p b (k + 1) := by
  obtain ⟨m1, hserved, hreg⟩ := h.init hk
  have hS := settled_of_served h.served
  have hS1 := settled_of_served hserved
  have hbid : (m.reg.record p).bidCount = k := h.bid
  have hhead : (m.reg.record p).barrierHead = [b] := h.head
  have hne : b ≠ m.reg.brk := by
    refine Nat.ne_of_lt (hS.fresh.barrierHead p b ?_)
    rw [h.head]
    exact List.mem_singleton_self b
  have hget1 : m1.getPtgid 0 = some p := by
    rw [reg_getPtgid, hreg]
    exact (getPtgid_link 1 0).trans h.found
  have hbar1 : m1.getBarrier p k = some m.reg.brk := by
    rw [reg_getBarrier, hreg]
    show (m.reg.link p 1).getBarrier p k = _
    rw [getBarrier_link hS.tidy, if_pos ⟨rfl, hbid⟩]
  have hhead1 : (m1.reg.record p).barrierHead = [m.reg.brk, b] := by
    rw [hreg]
    show ((m.reg.link p 1).record p).barrierHead = _
    rw [head_link, if_pos rfl, hhead]
  have hmem : m.reg.brk ∈ (m1.ptgid p).barrierHead := by
    rw [show (m1.ptgid p).barrierHead = _ from hhead1]
    exact List.mem_cons_self ..
  have hnot : ¬ barrierFlag < (m1.barrier m.reg.brk).total := by
    rw [hS1.idle p _ hmem]
    exact BitVec.lt_irrefl _
  have hdestroy : serve m1 0 (.destroy k) = some (recycle m1 p m.reg.brk) := by
    rw [serve, barrierDestroy, hget1]
    simp only [hbar1]
    rw [if_neg hnot]
    rfl
  -- the record stays: `b` is still linked
  have hhead2 : ((m1.reg.unlink p m.reg.brk).record p).barrierHead = [b] := by
    rw [head_unlink, if_pos rfl, hhead1, List.erase_cons_head]
  have hsize : ((m1.reg.unlink p m.reg.brk).record p).barrierSize ≠ 0 := by
    intro hz
    have hp1 := (getPtgid_mem hget1).1
    rw [size_unlink_eq_zero (hS1.tidy.size p hp1) (hS1.tidy.ids p hp1) hmem, hhead2] at hz
    cases hz
  have hreg2 : (recycle m1 p m.reg.brk).reg
      = (m1.reg.unlink p m.reg.brk).destroy m.reg.brk := by
    rw [reg_recycle, if_neg hsize]
  refine ⟨recycle m1 p m.reg.brk, .call 0 (.destroy k) hserved hdestroy, ?_, ?_, ?_, ?_⟩
  · rw [reg_getPtgid, hreg2]
    exact (getPtgid_unlink 0).trans hget1
  · show ((recycle m1 p m.reg.brk).reg.record p).barrierHead = [b]
    rw [hreg2]
    exact hhead2
  · show ((recycle m1 p m.reg.brk).reg.entry b).id = 1
    rw [hreg2, id_destroy, id_unlink, hreg]
    show ((m.reg.link p 1).entry b).id = 1
    rw [entry_link hne]
    exact h.id
  · show ((recycle m1 p m.reg.brk).reg.record p).bidCount = k + 1
    rw [hreg2]
    show ((m1.reg.unlink p m.reg.brk).record p).bidCount = k + 1
    rw [show ((m1.reg.unlink p m.reg.brk).record p).bidCount = (m1.reg.record p).bidCount by
      simp [Reg.unlink], hreg]
    show ((m.reg.link p 1).record p).bidCount = k + 1
    simp [Reg.link, hbid]

end Cycle

/-- Process 0 has made two barriers and destroyed the first. -/
def secondOnly : Mem := recycle (barrierInit (barrierInit Mem.initial 0 1).1 0 1).1 0 1

theorem oneLive_secondOnly : OneLive secondOnly 0 2 2 where
  served := .call 0 (.destroy 0) (.call 0 (.init 1) (.call 0 (.init 1) .start rfl) rfl) rfl
  found := by decide
  head := by decide
  id := by decide
  bid := by decide

/-- As long as the counter has not come round to 1. -/
theorem oneLive_from_two (n : Nat) (hn : n ≤ 2 ^ 32 - 2) :
    ∃ m, OneLive m 0 2 (BitVec.ofNat 32 (2 + n)) := by
  induction n with
  | zero => exact ⟨secondOnly, oneLive_secondOnly⟩
  | succ n ih =>
      obtain ⟨m, hm⟩ := ih (by omega)
      have hne : BitVec.ofNat 32 (2 + n) ≠ 1 :=
        (ofNat_ne_of_lt (i := 1) (by omega) (by omega)).symm
      obtain ⟨m', hm'⟩ := hm.cycle hne
      refine ⟨m', ?_⟩
      rwa [← Nat.add_assoc, BitVec.ofNat_add]

/-- 2^32 barriers after the first. -/
theorem oneLive_wrapped : ∃ m, OneLive m 0 2 0 := by
  obtain ⟨m, hm⟩ := oneLive_from_two (2 ^ 32 - 2) (Nat.le_refl _)
  exact ⟨m, hm⟩

/-- A task of process `g` has checked the id at `bid_count` and links next. -/
theorem solo_init_checked {proc : Task → Pid} {t : Task} {m : Mem} {p : Addr} (hf : Fresh m)
    (h : Unlocked m) (r : Option Int) {c : BitVec 32} (hc : ¬ c.toInt < 0)
    (hp : m.getPtgid (proc t) = some p) (hb : m.getBarrier p (m.ptgid p).bidCount = none) :
    Solo (exec proc) t (m, .user r) (m, .initAlloc c p (m.links p)) := by
  have hfind : m.findOrNewPtgid (proc t) = (m, p) := by rw [Mem.findOrNewPtgid, hp]
  have hentry : (Call.init c).entry = .initLockG c := by rw [Call.entry, if_neg hc]
  refine .head (.call (.init c)) rfl ?_
  rw [hentry]
  refine Solo.trans (solo_initFind hf h c hfind) ?_
  have hcheck : Solo (exec proc) t _ _ := solo_initCheck h c p
  rw [hb] at hcheck
  exact hcheck

/-- **CROSSING INITS**: two calls that check the same id take it and the next one. -/
theorem crossing_inits {proc : Task → Pid} {s : State} (hr : Reachable proc s) (hq : Quiet s)
    {t u : Task} (htu : t ≠ u) (hproc : proc u = proc t) {p : Addr}
    (hp : s.mem.getPtgid (proc t) = some p)
    (hb : s.mem.getBarrier p (s.mem.ptgid p).bidCount = none) :
    ∃ s' e e', Reachable proc s'
      ∧ s'.mem.reg = (((s.mem.reg.link p 1).create e).link p 1).create e' := by
  have hc : ¬ (1 : BitVec 32).toInt < 0 := by decide
  have hf := (reach_owns hr).1
  have hun := hq.unlocked hr
  obtain ⟨rt, ht⟩ := hq t
  obtain ⟨ru, hu⟩ := hq u
  -- both check
  have h1 : Solo (exec proc) t (s.mem, .user rt) (s.mem, .initAlloc 1 p (s.mem.links p)) :=
    solo_init_checked hf hun rt hc hp hb
  obtain ⟨s1, r1, hs1, ho1⟩ := Reach.of_solo h1 (by rw [ht])
  have hm1 : s1.mem = s.mem := congrArg Prod.fst hs1
  have h2 : Solo (exec proc) u (s.mem, .user ru) (s.mem, .initAlloc 1 p (s.mem.links p)) :=
    solo_init_checked hf hun ru hc (hproc ▸ hp) hb
  obtain ⟨s2, r2, hs2, ho2⟩ := Reach.of_solo h2 (by rw [hm1, ho1 u htu.symm, hu])
  have hm2 : s2.mem = s.mem := congrArg Prod.fst hs2
  have ht2 : s2.loc t = .initAlloc 1 p (s.mem.links p) := by
    rw [ho2 t htu]
    exact congrArg Prod.snd hs1
  -- both link
  have h3 : Solo (exec proc) t _ _ := solo_initLink hun 1 p (s.mem.links p)
  obtain ⟨s3, r3, hs3, ho3⟩ := Reach.of_solo h3 (by rw [hm2, ht2])
  obtain ⟨hm3, -⟩ := Prod.mk.inj hs3
  have hu3 : s3.loc u = .initAlloc 1 p (s.mem.links p) := by
    rw [ho3 u htu.symm]
    exact congrArg Prod.snd hs2
  have hr3 : Reachable proc s3 := hr.trans (r1.trans (r2.trans r3))
  have hf3 := (reach_owns hr3).1
  have hun3 : Unlocked s3.mem := by
    intro l
    rw [hm3]
    have hl := holder_linkBarrier hf p 1 l
    rw [hun l] at hl
    cases l <;> exact hl
  have h4 : Solo (exec proc) u _ _ := solo_initLink hun3 1 p (s.mem.links p)
  obtain ⟨s4, r4, hs4, -⟩ := Reach.of_solo h4 (by rw [hu3])
  obtain ⟨hm4, -⟩ := Prod.mk.inj hs4
  have hreg3 : s3.mem.reg = (s.mem.reg.link p 1).create
      ⟨proc t, (s.mem.ptgid p).bidCount, 1, s.mem.brk⟩ := by
    rw [hm3]
    exact congrArg (Reg.create · _) (reg_linkBarrier hf p 1)
  refine ⟨s4, ⟨proc t, (s.mem.ptgid p).bidCount, 1, s.mem.brk⟩,
    ⟨proc u, (s3.mem.ptgid p).bidCount, 1, s3.mem.brk⟩, hr3.trans r4, ?_⟩
  rw [← hreg3, hm4]
  exact congrArg (Reg.create · _) (reg_linkBarrier hf3 p 1)

theorem live_ids_repeat :
    ¬ ∀ (proc : Task → Pid) (s : State), Reachable proc s → ∀ p,
      ((s.mem.ptgid p).barrierHead.map fun b => (s.mem.barrier b).id).Nodup := by
  intro h
  obtain ⟨m, hm⟩ := oneLive_wrapped
  -- tasks 0 and 1 are in process 0
  have hsurj : Function.Surjective fun t : Task => t / 2 := fun g => ⟨2 * g, by simp⟩
  obtain ⟨s, hr, rfl, hq⟩ := served_reachable hsurj hm.served
  have hnone : s.mem.getBarrier 0 (s.mem.ptgid 0).bidCount = none := by
    simp [Mem.getBarrier, hm.head, hm.id, hm.bid]
  obtain ⟨s', e, e', hr', hreg⟩ :=
    crossing_inits hr hq (t := 0) (u := 1) (by decide) rfl hm.found hnone
  have hlt : (2 : Addr) < s.mem.reg.brk := by
    refine (reach_owns hr).1.barrierHead 0 2 ?_
    rw [hm.head]
    exact List.mem_singleton_self 2
  have hne := Nat.ne_of_lt hlt
  have hbid : (s.mem.reg.record 0).bidCount = 0 := hm.bid
  have hid : (s.mem.reg.entry 2).id = 1 := hm.id
  have hhead : (s.mem.reg.record 0).barrierHead = [2] := hm.head
  have hdup := h _ s' hr' 0
  have hids : ((s'.mem.reg.record 0).barrierHead.map fun b => (s'.mem.reg.entry b).id)
      = [1, 0, 1] := by
    have hne' : (2 : Addr) ≠ s.mem.reg.brk + 1 := Nat.ne_of_lt (Nat.lt_succ_of_lt hlt)
    rw [hreg]
    simp [Reg.link, Reg.create, hbid, hid, hhead, hne, hne']
  have hids' : ((s'.mem.ptgid 0).barrierHead.map fun b => (s'.mem.barrier b).id) = [1, 0, 1] := hids
  rw [hids'] at hdup
  exact absurd hdup (by decide)

end Barrier
