import KernelRocks.BarrierDestroyProofs
import KernelRocks.BarrierIdsProofs

/-! # A created barrier stays findable

    `barrier_init` keeps using the record it found after `g_tgid_list_lock` is
    dropped, and the `barrier_destroy` of a record's last barrier unlinks and
    frees the record.  Where the two cross, the new barrier ends on a record
    nobody can find (`created_barrier_lost`).

    `Kept` names the crossings that lose a barrier: the two above and the ones
    of `LookedUpOnce` and `LinkInTurn`.  On the runs without them every barrier
    that was made and not removed is found, with its id and its count
    (`created_barrier_findable`). -/

namespace Barrier

open Interleaving KeyedList

/-- A `barrier_init` with record `p` that has not linked yet. -/
def Stage.creates (p : Addr) : Stage → Prop
  | .holds p' | .checks p' _ _ | .checked p' _ => p' = p
  | _ => False

/-- No record is emptied while a `barrier_init` has it, and none is found while the
    `barrier_destroy` that emptied it is about to unlink it. -/
structure Kept (proc : Task → Pid) (s : State) (t : Task) (a : Act) : Prop where
  once : LookedUpOnce s t a
  turn : LinkInTurn s t a
  last : ∀ p b, s.loc t = .destroyUnlink p b → (s.mem.ptgid p).barrierSize = 1 →
    ∀ u, ¬ (s.loc u).stage.creates p
  live : ∀ c p, s.loc t = .initFind c → s.mem.getPtgid (proc t) = some p →
    ∀ u b, (s.loc u).stage ≠ .retires p b

/-- What looking up the process and the id gives. -/
def Mem.lookUp (m : Mem) (tgid : Pid) (id : BitVec 32) : Option Addr :=
  (m.getPtgid tgid).bind fun p => m.getBarrier p id

/-- Whatever is linked is linked under a record of the list; a record that is being
    retired is empty and nobody makes a barrier on it. -/
structure Findable (proc : Task → Pid) (r : Reg) (σ : Task → Stage) : Prop where
  tgids : UniqueKeys (fun p => (r.record p).tgid) r.tgidList
  records : ∀ p ∈ r.tgidList, p < r.brk
  home : ∀ p, ∀ b ∈ (r.record p).barrierHead, p ∈ r.tgidList
  creates : ∀ t p, (σ t).creates p → p ∈ r.tgidList ∧ (r.record p).tgid = proc t
  retires : ∀ t p b, σ t = .retires p b → p < r.brk ∧ (r.record p).barrierHead = []
    ∧ ∀ u, ¬ (σ u).creates p
  linked : ∀ t c p b id, σ t = .linked c p b id → b < r.brk ∧ (r.entry b).id = id
    ∧ (r.entry b).count = c.signExtend 64
    ∧ ((r.entry b).unlinked = 0 → b ∈ (r.record p).barrierHead ∧ (r.record p).tgid = proc t)
  made : ∀ e ∈ r.made, e.addr < r.brk ∧ (r.entry e.addr).id = e.id
    ∧ (r.entry e.addr).count = e.count.signExtend 64
    ∧ ((r.entry e.addr).unlinked = 0 → ∃ p, e.addr ∈ (r.record p).barrierHead
      ∧ (r.record p).tgid = e.tgid)

section Findable
variable {proc : Task → Pid} {r : Reg} {σ : Task → Stage} {t : Task}

/-- A task changes its stage. -/
theorem Findable.stage (h : Findable proc r σ) {x : Stage}
    (hc : ∀ p, x.creates p → p ∈ r.tgidList ∧ (r.record p).tgid = proc t
      ∧ ∀ u b, u ≠ t → σ u ≠ .retires p b)
    (hr : ∀ p b, x = .retires p b → p < r.brk ∧ (r.record p).barrierHead = []
      ∧ ∀ u, u ≠ t → ¬ (σ u).creates p)
    (hl : ∀ c p b id, x = .linked c p b id → b < r.brk ∧ (r.entry b).id = id
      ∧ (r.entry b).count = c.signExtend 64
      ∧ ((r.entry b).unlinked = 0 → b ∈ (r.record p).barrierHead ∧ (r.record p).tgid = proc t)) :
    Findable proc r (Function.update σ t x) where
  tgids := h.tgids
  records := h.records
  home := h.home
  made := h.made
  creates u p hu := by
    by_cases hut : u = t
    · subst hut
      rw [Function.update_self] at hu
      exact ⟨(hc p hu).1, (hc p hu).2.1⟩
    · rw [Function.update_of_ne hut] at hu
      exact h.creates u p hu
  retires u p b hu := by
    by_cases hut : u = t
    · subst hut
      rw [Function.update_self] at hu
      obtain ⟨h1, h2, h3⟩ := hr p b hu
      refine ⟨h1, h2, fun v hv => ?_⟩
      by_cases hvu : v = u
      · subst hvu
        rw [Function.update_self, hu] at hv
        exact hv
      · rw [Function.update_of_ne hvu] at hv
        exact h3 v hvu hv
    · rw [Function.update_of_ne hut] at hu
      obtain ⟨h1, h2, h3⟩ := h.retires u p b hu
      refine ⟨h1, h2, fun v hv => ?_⟩
      by_cases hvt : v = t
      · subst hvt
        rw [Function.update_self] at hv
        exact (hc p hv).2.2 u b hut hu
      · rw [Function.update_of_ne hvt] at hv
        exact h3 v hv
  linked u c p b id hu := by
    by_cases hut : u = t
    · subst hut
      rw [Function.update_self] at hu
      exact hl c p b id hu
    · rw [Function.update_of_ne hut] at hu
      exact h.linked u c p b id hu

/-- To a stage without a record and without a barrier of its own. -/
theorem Findable.plain (h : Findable proc r σ) {x : Stage} (hc : ∀ p, ¬ x.creates p)
    (hr : ∀ p b, x ≠ .retires p b) (hl : ∀ c p b id, x ≠ .linked c p b id) :
    Findable proc r (Function.update σ t x) :=
  h.stage (fun p hp => absurd hp (hc p)) (fun p b he => absurd he (hr p b))
    (fun c p b id he => absurd he (hl c p b id))

/-- To a further stage of the same `barrier_init`. -/
theorem Findable.advance (h : Findable proc r σ) {p : Addr} (ht : (σ t).creates p) {x : Stage}
    (hx : ∀ p', x.creates p' → p' = p) (hr : ∀ p b, x ≠ .retires p b)
    (hl : ∀ c p b id, x ≠ .linked c p b id) : Findable proc r (Function.update σ t x) := by
  refine h.stage ?_ (fun p b he => absurd he (hr p b)) (fun c p b id he => absurd he (hl c p b id))
  intro p' hp'
  obtain rfl := hx p' hp'
  obtain ⟨h1, h2⟩ := h.creates t p' ht
  exact ⟨h1, h2, fun u b _ hu => (h.retires u p' b hu).2.2 t ht⟩

theorem Findable.newPtgid (h : Findable proc r σ) {g : Pid} (hg : r.getPtgid g = none)
    (hblank : r.record r.brk = ⟨0, 0, 0, [], 0⟩) : Findable proc (r.newPtgid g) σ := by
  have hne {p : Addr} (hp : p ∈ r.tgidList) : p ≠ r.brk := Nat.ne_of_lt (h.records p hp)
  have hhead (p : Addr) :
      ((r.newPtgid g).record p).barrierHead = (r.record p).barrierHead := by
    by_cases hp : p = r.brk
    · rw [hp, record_newPtgid_self, hblank]
    · rw [record_newPtgid hp]
  have htgid {p b : Addr} (hb : b ∈ (r.record p).barrierHead) :
      ((r.newPtgid g).record p).tgid = (r.record p).tgid := by
    rw [record_newPtgid (hne (h.home p b hb))]
  refine ⟨?_, fun p hp => ?_, fun p b hb => ?_, fun u p hu => ?_, fun u p b hu => ?_,
    fun u c p b id hu => ?_, fun e he => ?_⟩
  · have hold : UniqueKeys (fun p => ((r.newPtgid g).record p).tgid) r.tgidList := by
      refine h.tgids.congr fun p hp => ?_
      rw [record_newPtgid (hne hp)]
    refine hold.cons (lookup_eq_none_iff.mpr fun p hp => ?_)
    rw [record_newPtgid_self, record_newPtgid (hne hp)]
    exact lookup_eq_none_iff.mp hg p hp
  · rcases List.mem_cons.mp hp with rfl | hp
    · exact Nat.lt_succ_self _
    · exact Nat.lt_succ_of_lt (h.records p hp)
  · rw [hhead] at hb
    exact List.mem_cons_of_mem _ (h.home p b hb)
  · obtain ⟨h1, h2⟩ := h.creates u p hu
    rw [record_newPtgid (hne h1)]
    exact ⟨List.mem_cons_of_mem _ h1, h2⟩
  · obtain ⟨h1, h2, h3⟩ := h.retires u p b hu
    rw [hhead]
    exact ⟨Nat.lt_succ_of_lt h1, h2, h3⟩
  · obtain ⟨h1, h2, h3, h4⟩ := h.linked u c p b id hu
    refine ⟨Nat.lt_succ_of_lt h1, h2, h3, fun h0 => ?_⟩
    obtain ⟨hmem, htg⟩ := h4 h0
    rw [hhead, htgid hmem]
    exact ⟨hmem, htg⟩
  · obtain ⟨h1, h2, h3, h4⟩ := h.made e he
    refine ⟨Nat.lt_succ_of_lt h1, h2, h3, fun h0 => ?_⟩
    obtain ⟨p, hmem, htg⟩ := h4 h0
    refine ⟨p, ?_⟩
    rw [hhead, htgid hmem]
    exact ⟨hmem, htg⟩

/-- Linking on a record of the list; `t` is the task that had it. -/
theorem Findable.link (h : Findable proc r σ) {p : Addr} (ht : (σ t).creates p) (c : BitVec 32) :
    Findable proc (r.link p c) σ := by
  have hmono {p' b : Addr} (hb : b ∈ (r.record p').barrierHead) :
      b ∈ ((r.link p c).record p').barrierHead := by
    rw [head_link]
    split
    · rename_i hp
      exact List.mem_cons_of_mem _ (hp ▸ hb)
    · exact hb
  have hentry {b : Addr} (hb : b < r.brk) : (r.link p c).entry b = r.entry b :=
    entry_link (Nat.ne_of_lt hb)
  refine ⟨h.tgids.congr fun p' _ => (tgid_link c p').symm,
    fun p' hp' => Nat.lt_succ_of_lt (h.records p' hp'), fun p' b hb => ?_, fun u p' hu => ?_,
    fun u p' b hu => ?_, fun u c' p' b id hu => ?_, fun e he => ?_⟩
  · rcases mem_head_link hb with ⟨-, rfl⟩ | hb
    · exact (h.creates t p' ht).1
    · exact h.home p' b hb
  · rw [tgid_link]
    exact h.creates u p' hu
  · obtain ⟨h1, h2, h3⟩ := h.retires u p' b hu
    have hpp : p' ≠ p := by
      rintro rfl
      exact h3 t ht
    rw [head_link, if_neg hpp]
    exact ⟨Nat.lt_succ_of_lt h1, h2, h3⟩
  · obtain ⟨h1, h2, h3, h4⟩ := h.linked u c' p' b id hu
    rw [hentry h1, tgid_link]
    exact ⟨Nat.lt_succ_of_lt h1, h2, h3, fun h0 => ⟨hmono (h4 h0).1, (h4 h0).2⟩⟩
  · obtain ⟨h1, h2, h3, h4⟩ := h.made e he
    rw [hentry h1]
    refine ⟨Nat.lt_succ_of_lt h1, h2, h3, fun h0 => ?_⟩
    obtain ⟨p', hmem, htg⟩ := h4 h0
    exact ⟨p', hmono hmem, (tgid_link c p').trans htg⟩

theorem Findable.unlink (h : Findable proc r σ) {p b : Addr} : Findable proc (r.unlink p b) σ := by
  have hsub {p' b' : Addr} (hb' : b' ∈ ((r.unlink p b).record p').barrierHead) :
      b' ∈ (r.record p').barrierHead := by
    rw [head_unlink] at hb'
    split at hb'
    · rename_i hp
      exact hp ▸ List.mem_of_mem_erase hb'
    · exact hb'
  -- a barrier that has not been unlinked is still where it was
  have hkeep {p' b' : Addr} (h0 : ((r.unlink p b).entry b').unlinked = 0)
      (hb' : b' ∈ (r.record p').barrierHead) : b' ∈ ((r.unlink p b).record p').barrierHead := by
    have hne : b' ≠ b := by
      rintro rfl
      simp [Reg.unlink] at h0
    rw [head_unlink]
    split
    · rename_i hp
      exact (List.mem_erase_of_ne hne).mpr (hp ▸ hb')
    · exact hb'
  have hold {b' : Addr} (h0 : ((r.unlink p b).entry b').unlinked = 0) :
      (r.entry b').unlinked = 0 := by
    have hne : b' ≠ b := by
      rintro rfl
      simp [Reg.unlink] at h0
    simpa [Reg.unlink, hne] using h0
  refine ⟨h.tgids.congr fun p' _ => (tgid_unlink p').symm, h.records,
    fun p' b' hb' => h.home p' b' (hsub hb'), fun u p' hu => ?_, fun u p' b' hu => ?_,
    fun u c' p' b' id hu => ?_, fun e he => ?_⟩
  · rw [tgid_unlink]
    exact h.creates u p' hu
  · obtain ⟨h1, h2, h3⟩ := h.retires u p' b' hu
    refine ⟨h1, List.eq_nil_iff_forall_not_mem.mpr fun x hx => ?_, h3⟩
    have := hsub hx
    rw [h2] at this
    cases this
  · obtain ⟨h1, h2, h3, h4⟩ := h.linked u c' p' b' id hu
    rw [id_unlink, count_unlink, tgid_unlink]
    exact ⟨h1, h2, h3, fun h0 => ⟨hkeep h0 (h4 (hold h0)).1, (h4 (hold h0)).2⟩⟩
  · obtain ⟨h1, h2, h3, h4⟩ := h.made e he
    rw [id_unlink, count_unlink]
    refine ⟨h1, h2, h3, fun h0 => ?_⟩
    obtain ⟨p', hmem, htg⟩ := h4 (hold h0)
    exact ⟨p', hkeep h0 hmem, (tgid_unlink p').trans htg⟩

/-- Taking an empty record off the list. -/
theorem Findable.retire (h : Findable proc r σ) {p b : Addr} (ht : σ t = .retires p b) :
    Findable proc (r.retire p) σ := by
  obtain ⟨-, hempty, hnone⟩ := h.retires t p b ht
  refine ⟨h.tgids.sublist List.erase_sublist,
    fun p' hp' => h.records p' (List.mem_of_mem_erase hp'),
    fun p' b' hb' => ?_, fun u p' hu => ?_, h.retires, h.linked, h.made⟩
  · have hpp : p' ≠ p := by
      rintro rfl
      rw [show ((r.retire p').record p').barrierHead = _ from hempty] at hb'
      cases hb'
    exact (List.mem_erase_of_ne hpp).mpr (h.home p' b' hb')
  · have hpp : p' ≠ p := by
      rintro rfl
      exact hnone u hu
    obtain ⟨h1, h2⟩ := h.creates u p' hu
    exact ⟨(List.mem_erase_of_ne hpp).mpr h1, h2⟩

theorem Findable.create (h : Findable proc r σ) {c : BitVec 32} {p b : Addr} {id : BitVec 32}
    (ht : σ t = .linked c p b id) : Findable proc (r.create ⟨proc t, id, c, b⟩) σ := by
  refine ⟨h.tgids, h.records, h.home, h.creates, h.retires, h.linked, fun e he => ?_⟩
  rcases List.mem_cons.mp he with rfl | he
  · obtain ⟨h1, h2, h3, h4⟩ := h.linked t c p b id ht
    exact ⟨h1, h2, h3, fun h0 => ⟨p, h4 h0⟩⟩
  · exact h.made e he

theorem Findable.destroy (h : Findable proc r σ) (b : Addr) : Findable proc (r.destroy b) σ := by
  have hentry (b' : Addr) : ((r.destroy b).entry b').id = (r.entry b').id
      ∧ ((r.destroy b).entry b').count = (r.entry b').count
      ∧ ((r.destroy b).entry b').unlinked = (r.entry b').unlinked := by
    by_cases hb : b' = b
    · subst hb; simp [Reg.destroy]
    · simp [Reg.destroy, hb]
  refine ⟨h.tgids, h.records, h.home, h.creates, h.retires, fun u c p b' id hu => ?_,
    fun e he => ?_⟩
  · rw [(hentry b').1, (hentry b').2.1, (hentry b').2.2]
    exact h.linked u c p b' id hu
  · rw [(hentry e.addr).1, (hentry e.addr).2.1, (hentry e.addr).2.2]
    exact h.made e he

end Findable

/-! ## Every run -/

theorem creates_of_stage {x : Stage} {p : Addr}
    (h : x = .holds p ∨ (∃ n id, x = .checks p n id) ∨ ∃ n, x = .checked p n) : x.creates p := by
  rcases h with rfl | ⟨n, id, rfl⟩ | ⟨n, rfl⟩ <;> rfl

theorem findable_turn {proc : Task → Pid} {s : State} {t : Task} {a : Act} {m' : Mem} {q' : Pc}
    (hf : Fresh s.mem) (hb : ∀ x ∈ (s.loc t).addrs, x < s.mem.brk)
    (hR : Removal s.mem.reg (stages s)) (hN : Numbered s.mem.reg (stages s))
    (h : Findable proc s.mem.reg (stages s)) (hC : Kept proc s t a)
    (hm : RegMove (proc t) s.mem (s.loc t) m' q') :
    Findable proc m'.reg (Function.update (stages s) t q'.stage) := by
  cases hm with
  | same hr hs =>
      rw [hr, hs]
      exact (Function.update_eq_self t (stages s)).symm ▸ h
  | drop hr hs => rw [hr, hs]; exact h.plain nofun nofun nofun
  | found c p hq hp hr hs =>
      rw [hr, hs]
      obtain ⟨hmem, htg⟩ := mem_of_lookup hp
      refine h.stage ?_ nofun nofun
      rintro p' rfl
      exact ⟨hmem, htg, fun u b _ hu => hC.live c p hq hp u b hu⟩
  | fresh c hq hp hr hs =>
      rw [hr, hs]
      refine (h.newPtgid hp hf.record_brk).stage ?_ nofun nofun
      rintro p' rfl
      refine ⟨List.mem_cons_self .., ?_, fun u b _ hu => ?_⟩
      · show ((s.mem.reg.newPtgid (proc t)).record s.mem.reg.brk).tgid = proc t
        rw [record_newPtgid_self]
      · exact Nat.lt_irrefl _ (h.retires u s.mem.brk b hu).1
  | read p hst hr hs =>
      rw [hr, hs]
      exact h.advance (t := t) (p := p) (creates_of_stage (Or.inl hst)) (fun _ he => he.symm)
        nofun nofun
  | check p n id hst _ hr hs =>
      rw [hr, hs]
      exact h.advance (t := t) (p := p) (creates_of_stage (Or.inr (Or.inl ⟨n, id, hst⟩)))
        (fun _ he => he.symm) nofun nofun
  | link c p n hq hr hs =>
      rw [hr, hs]
      have hst : stages s t = .checked p n := congrArg Pc.stage hq
      have hcr : (stages s t).creates p := creates_of_stage (Or.inr (Or.inr ⟨n, hst⟩))
      refine (h.link hcr c).stage nofun nofun ?_
      rintro c' p' b' id' ⟨⟩
      have hentry : (s.mem.reg.link p c).entry s.mem.brk
          = ⟨(s.mem.reg.record p).bidCount, c.signExtend 64, 0, 0⟩ := entry_link_brk
      refine ⟨Nat.lt_succ_self _, by rw [hentry], by rw [hentry], fun _ => ⟨?_, ?_⟩⟩
      · rw [head_link, if_pos rfl]
        exact List.mem_cons_self ..
      · rw [tgid_link]
        exact (h.creates t p hcr).2
  | create c p b id hst hr hs =>
      rw [hr, hs]
      exact (h.create (t := t) hst).plain nofun nofun nofun
  | findWait p b id _ _ hr hs => rw [hr, hs]; exact h.plain nofun nofun nofun
  | findDestroy p b id _ _ hr hs => rw [hr, hs]; exact h.plain nofun nofun nofun
  | pass p b _ _ hr hs => rw [hr, hs]; exact h.plain nofun nofun nofun
  | unlink p b hq hr hs =>
      have hst : stages s t = .removes p b := congrArg Pc.stage hq
      have hmem := hR.dooms t p b (by rw [hst]; rfl)
      have hzero := size_unlink_eq_zero (hR.size p) (hN.ids p) hmem
      rw [hr, hs]
      refine h.unlink.stage ?_ ?_ ?_
      · intro p' hp'
        split at hp' <;> exact hp'.elim
      · intro p' b' he
        split at he
        · rename_i hz
          cases he
          refine ⟨hb p (by rw [hq]; exact List.mem_cons_self ..), hzero.mp hz, fun u _ => ?_⟩
          refine hC.last p b hq ?_ u
          have hz' : (s.mem.ptgid p).barrierSize - 1 = 0 := (size_unlink p b).symm.trans hz
          calc (s.mem.ptgid p).barrierSize
              = (s.mem.ptgid p).barrierSize - 1 + 1 := (BitVec.sub_add_cancel _ _).symm
            _ = 1 := by rw [hz']; rfl
        · cases he
      · intro c p' b' id he
        split at he <;> cases he
  | retire p b hst hr hs =>
      rw [hr, hs]
      exact (h.retire (t := t) hst).plain nofun nofun nofun
  | destroy p b _ hr hs => rw [hr, hs]; exact (h.destroy b).plain nofun nofun nofun

theorem reach_findable {proc : Task → Pid} {s : State} (h : ReachWhen proc (Kept proc) s) :
    Findable proc s.mem.reg (stages s) := by
  refine reach_reg ?_ ?_ h
  · refine ⟨uniqueKeys_nil, nofun, ?_, nofun, nofun, nofun, nofun⟩
    intro p b hb
    cases hb
  · intro s t a m' q' hr hC hI hm
    have hR := reach_removal (hr.mono fun _ _ _ hk => hk.once)
    have hN := reach_numbered (hr.mono fun _ _ _ hk => hk.turn)
    obtain ⟨hf, ho⟩ := reach_owns hr
    exact findable_turn hf (ho t).bounded hR hN hI hC hm

/-- **A CREATED BARRIER STAYS FINDABLE** on the runs whose turns are `Kept`: for every
    `barrier_init` that returned 0 and whose barrier nobody has unlinked, looking up
    its process and its id gives a barrier with that id and the requested count. -/
theorem created_barrier_findable (proc : Task → Pid) {s : State}
    (h : ReachWhen proc (Kept proc) s) {e : Made} (he : e ∈ s.mem.made)
    (hu : (s.mem.hist e.addr).unlinked = 0) :
    ∃ b, s.mem.lookUp e.tgid e.id = some b ∧ (s.mem.barrier b).id = e.id
      ∧ (s.mem.barrier b).count = e.count.signExtend 64 := by
  have hF := reach_findable h
  have hN := reach_numbered (h.mono fun _ _ _ hk => hk.turn)
  obtain ⟨-, hid, hcount, hlinked⟩ := hF.made e he
  obtain ⟨p, hmem, htg⟩ := hlinked hu
  have hp : s.mem.getPtgid e.tgid = some p :=
    (lookup_eq_some_iff hF.tgids).mpr ⟨hF.home p e.addr hmem, htg⟩
  have hb : s.mem.getBarrier p e.id = some e.addr :=
    (lookup_eq_some_iff (hN.ids p)).mpr ⟨hmem, hid⟩
  refine ⟨e.addr, ?_, hid, hcount⟩
  rw [Mem.lookUp, hp]
  exact hb

def Stage.creating : Stage → Bool
  | .holds _ | .checks _ _ _ | .checked _ _ => true
  | _ => false

def Stage.retiring : Stage → Bool
  | .retires _ _ => true
  | _ => false

/-- The test for `Kept` on the first three tasks. -/
def keptTest (s : State) (t : Task) (a : Act) : Bool :=
  lookedUpOnceTest s t a && linkInTurnTest s t a &&
    match s.loc t with
    | .destroyUnlink p _ =>
        decide ((s.mem.ptgid p).barrierSize ≠ 1) || allBelow 3 (fun q => !q.stage.creating) s
    | .initFind _ => allBelow 3 (fun q => !q.stage.retiring) s
    | _ => true

theorem kept_of_test (proc : Task → Pid) (s : State) (t : Task) (a : Act) (ho : Only 3 s)
    (h : keptTest s t a = true) : Kept proc s t a := by
  obtain ⟨h12, h3⟩ := Bool.and_eq_true_iff.mp h
  obtain ⟨h1, h2⟩ := Bool.and_eq_true_iff.mp h12
  refine ⟨lookedUpOnce_of_test s t a ho h1, linkInTurn_of_test s t a ho h2, ?_, ?_⟩
  · intro p b hq hsize u hu
    simp only [hq, hsize] at h3
    have hnot := forall_of_allBelow ho rfl (by simpa using h3) u
    cases hx : (s.loc u).stage <;> rw [hx] at hu hnot <;> first | exact hu | cases hnot
  · intro c p hq _ u b hu
    simp only [hq] at h3
    have hnot := forall_of_allBelow ho rfl h3 u
    rw [hu] at hnot
    cases hnot

/-- Task 1 makes a barrier while task 2 destroys another one of the process. -/
theorem created_barrier_findable_crossing :
    let s := afterWhen (fun _ => 0) 3 keptTest
      (wholeInit 0 3 ++ wholeInit 0 4 ++ (1, .call (.init 5)) :: runs 1 4
        ++ (2, .call (.destroy 0)) :: runs 2 12 ++ runs 1 7)
    s.mem.made = [⟨0, 2, 5, 3⟩, ⟨0, 1, 4, 2⟩, ⟨0, 0, 3, 1⟩]
      ∧ ∃ b, s.mem.lookUp 0 2 = some b ∧ (s.mem.barrier b).id = 2
        ∧ (s.mem.barrier b).count = (5 : BitVec 32).signExtend 64 := by
  refine ⟨by decide +kernel, ?_⟩
  exact created_barrier_findable (fun _ => 0) (reachWhen_afterWhen _ (kept_of_test _) _)
    (e := ⟨0, 2, 5, 3⟩) (by decide +kernel) (by decide +kernel)

/-- Task 1 has found the record of its process when task 2 destroys the only
    barrier on it; then task 1 goes on. -/
def crossedLast : List (Task × Act) :=
  wholeInit 0 3 ++ (1, .call (.init 5)) :: runs 1 3 ++ (2, .call (.destroy 0)) :: runs 2 16
    ++ runs 1 8

theorem created_barrier_lost :
    ¬ ∀ (proc : Task → Pid) (s : State), Reachable proc s → ∀ e ∈ s.mem.made,
      (s.mem.hist e.addr).unlinked = 0 →
      ∃ b, s.mem.lookUp e.tgid e.id = some b ∧ (s.mem.barrier b).id = e.id
        ∧ (s.mem.barrier b).count = e.count.signExtend 64 := by
  intro h
  have hr := reachable_after (fun _ => 0) crossedLast
  obtain ⟨b, hb, -⟩ := h (fun _ => 0) _ hr ⟨0, 1, 5, 2⟩ (by decide) (by decide)
  have hnone : (after (fun _ => 0) crossedLast).mem.lookUp 0 1 = none := by decide
  rw [hnone] at hb
  cases hb

end Barrier
