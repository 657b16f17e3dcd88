import KernelRocks.BarrierRegistryProofs
import Mathlib.Data.Set.Card

/-! # Calls that do not overlap — the registry is a finite map

    `barrier_init` and `barrier_destroy` as functions on the memory, made of the
    same sections as the interleaved machine.  The registry then represents a
    map from a process and an id to a count: `registry_refines_map`, for every
    finite sequence of complete calls of any processes.

    The route: `live` reads the map off the two levels of lists; one lemma per
    section says what it does to `live` (`live_newPtgid`, `live_link`,
    `live_unlink`, `live_retire`) and that the lists stay in order (`Tidy`); the
    calls are compositions of these. -/

namespace Barrier

open KeyedList

/-! ## The calls -/

/-- `barrier_init` of a process: `some id` when it returns 0 with that id, `none`
    when it returns -1. -/
def barrierInit (m : Mem) (tgid : Pid) (count : BitVec 32) : Mem × Option (BitVec 32) :=
  if count.toInt < 0 then (m, none)
  else
    let (m1, p) := m.findOrNewPtgid tgid
    let id := (m1.ptgid p).bidCount
    match m1.getBarrier p id with
    | some _ => (m1, none)
    | none =>
        let m2 := m1.linkBarrier p count
        ({ m2 with made := ⟨tgid, id, count, m1.brk⟩ :: m2.made }, some id)

/-- `barrier_destroy` 311-327 on a barrier that is not draining. -/
def recycle (m : Mem) (p b : Addr) : Mem :=
  let m1 := m.unlinkBarrier p b
  let m2 := if (m1.ptgid p).barrierSize = 0 then (m1.unlinkPtgid p).freePtgid p else m1
  m2.setHist b { m2.hist b with destroyed := (m2.hist b).destroyed + 1 }

/-- `barrier_destroy` of a process; `none` when it sleeps for ever, nobody being
    there to drain the barrier. -/
def barrierDestroy (m : Mem) (tgid : Pid) (id : BitVec 32) : Option (Mem × Int) :=
  match m.getPtgid tgid with
  | none => some (m, -1)
  | some p =>
      match m.getBarrier p id with
      | none => some (m, -1)
      | some b =>
          if barrierFlag < (m.barrier b).total then none else some (recycle m p b, 0)

/-- A complete call. -/
inductive Request where
  | init (count : BitVec 32)
  | destroy (id : BitVec 32)

def serve (m : Mem) (tgid : Pid) : Request → Option Mem
  | .init count => some (barrierInit m tgid count).1
  | .destroy id => (barrierDestroy m tgid id).map Prod.fst

/-- The memory after a finite sequence of complete calls by any processes. -/
inductive Served : Mem → Prop where
  | start : Served Mem.initial
  | call {m m' : Mem} (tgid : Pid) (req : Request) : Served m → serve m tgid req = some m' →
      Served m'

/-! ## The map -/

/-- For each process the counts of its live barriers, by id. -/
abbrev LiveMap := Pid → BitVec 32 → Option (BitVec 64)

/-- One entry changed. -/
def LiveMap.set (L : LiveMap) (g : Pid) (id : BitVec 32) (v : Option (BitVec 64)) : LiveMap :=
  fun g' id' => if g' = g ∧ id' = id then v else L g' id'

def Reg.live (r : Reg) : LiveMap := fun g id =>
  (r.getPtgid g).bind fun p => (r.getBarrier p id).map fun b => (r.entry b).count

def Mem.live (m : Mem) : LiveMap := m.reg.live

/-- The id `barrier_init` would use. -/
def Reg.bidAt (r : Reg) (g : Pid) : BitVec 32 :=
  match r.getPtgid g with
  | some p => (r.record p).bidCount
  | none => 0

/-- One record for a process, one barrier for an id, a right `barrier_size`, and
    nothing that is linked above the allocator's mark. -/
structure Tidy (r : Reg) : Prop where
  tgids : UniqueKeys (fun p => (r.record p).tgid) r.tgidList
  ids : ∀ p ∈ r.tgidList, UniqueKeys (fun b => (r.entry b).id) (r.record p).barrierHead
  size : ∀ p ∈ r.tgidList,
    (r.record p).barrierSize = BitVec.ofNat 32 (r.record p).barrierHead.length
  records : ∀ p ∈ r.tgidList, p < r.brk
  barriers : ∀ p, ∀ b ∈ (r.record p).barrierHead, b < r.brk

/-- Every record has a barrier. -/
def Occupied (r : Reg) : Prop := ∀ p ∈ r.tgidList, (r.record p).barrierHead ≠ []

section Sections
variable {r : Reg} {g : Pid} {p b : Addr}

theorem Tidy.getPtgid_iff (h : Tidy r) :
    r.getPtgid g = some p ↔ p ∈ r.tgidList ∧ (r.record p).tgid = g :=
  lookup_eq_some_iff h.tgids

/-! ### A new record -/

theorem record_newPtgid (hp : p ≠ r.brk) : (r.newPtgid g).record p = r.record p := by
  simp [Reg.newPtgid, hp]

theorem record_newPtgid_self : (r.newPtgid g).record r.brk = ⟨g, 0, 0, [], 0⟩ := by
  simp [Reg.newPtgid]

theorem Tidy.ne_brk (h : Tidy r) (hp : p ∈ r.tgidList) : p ≠ r.brk := Nat.ne_of_lt (h.records p hp)

/-- A new record is found by its own process, the others are found as before. -/
theorem getPtgid_newPtgid (h : Tidy r) (g' : Pid) :
    (r.newPtgid g).getPtgid g' = if g = g' then some r.brk else r.getPtgid g' := by
  have hold : lookup (fun p => ((r.newPtgid g).record p).tgid) r.tgidList g' = r.getPtgid g' := by
    refine lookup_congr (fun p hp => ?_) g'
    rw [record_newPtgid (h.ne_brk hp)]
  show lookup _ (r.brk :: r.tgidList) g' = _
  rw [lookup_cons, hold, record_newPtgid_self]

/-- A record for a process that has none. -/
theorem Tidy.newPtgid (h : Tidy r) (hg : r.getPtgid g = none) : Tidy (r.newPtgid g) where
  tgids := by
    have hold : UniqueKeys (fun p => ((r.newPtgid g).record p).tgid) r.tgidList := by
      refine h.tgids.congr fun p hp => ?_
      rw [record_newPtgid (h.ne_brk hp)]
    refine hold.cons (lookup_eq_none_iff.mpr fun p hp => ?_)
    rw [record_newPtgid_self, record_newPtgid (h.ne_brk hp)]
    exact lookup_eq_none_iff.mp hg p hp
  ids p hp := by
    rcases List.mem_cons.mp hp with rfl | hp
    · rw [record_newPtgid_self]
      exact uniqueKeys_nil
    · rw [record_newPtgid (h.ne_brk hp)]
      exact h.ids p hp
  size p hp := by
    rcases List.mem_cons.mp hp with rfl | hp
    · rw [record_newPtgid_self]
      rfl
    · rw [record_newPtgid (h.ne_brk hp)]
      exact h.size p hp
  records p hp := by
    rcases List.mem_cons.mp hp with rfl | hp
    · exact Nat.lt_succ_self _
    · exact Nat.lt_succ_of_lt (h.records p hp)
  barriers p b hb := by
    by_cases hp : p = r.brk
    · rw [hp, record_newPtgid_self] at hb
      cases hb
    · rw [record_newPtgid hp] at hb
      exact Nat.lt_succ_of_lt (h.barriers p b hb)

/-- An empty record represents nothing. -/
theorem live_newPtgid (h : Tidy r) (hg : r.getPtgid g = none) : (r.newPtgid g).live = r.live := by
  funext g' id
  rw [Reg.live, Reg.live, getPtgid_newPtgid h]
  by_cases hgg : g = g'
  · subst hgg
    rw [if_pos rfl, hg]
    show ((r.newPtgid g).getBarrier r.brk id).map _ = none
    rw [Reg.getBarrier, record_newPtgid_self]
    rfl
  · rw [if_neg hgg]
    cases hp : r.getPtgid g' with
    | none => rfl
    | some p =>
        show ((r.newPtgid g).getBarrier p id).map _ = (r.getBarrier p id).map _
        rw [Reg.getBarrier, record_newPtgid (h.ne_brk (mem_of_lookup hp).1)]
        rfl

/-! ### A new barrier -/

theorem tgid_link (c : BitVec 32) (p' : Addr) :
    ((r.link p c).record p').tgid = (r.record p').tgid := by
  by_cases hp : p' = p
  · subst hp; simp [Reg.link]
  · simp [Reg.link, hp]

/-- Linking a barrier moves no record. -/
theorem getPtgid_link (c : BitVec 32) (g : Pid) : (r.link p c).getPtgid g = r.getPtgid g :=
  lookup_congr (fun p' _ => tgid_link c p') g

/-- The barriers that were there keep their entries. -/
theorem entry_link_old (h : Tidy r) (c : BitVec 32) {p' : Addr}
    (hb : b ∈ (r.record p').barrierHead) :
    (r.link p c).entry b = r.entry b :=
  entry_link (Nat.ne_of_lt (h.barriers p' b hb))

theorem lookup_link_old (h : Tidy r) (c : BitVec 32) (p' : Addr) (id : BitVec 32) :
    lookup (fun b => ((r.link p c).entry b).id) (r.record p').barrierHead id = r.getBarrier p' id :=
  lookup_congr (fun b hb => by rw [entry_link_old h c hb]) id

/-- The new barrier is found under its id, the others as before. -/
theorem getBarrier_link (h : Tidy r) (c : BitVec 32) (p' : Addr) (id : BitVec 32) :
    (r.link p c).getBarrier p' id
      = if p' = p ∧ (r.record p).bidCount = id then some r.brk else r.getBarrier p' id := by
  have hnew : ((r.link p c).entry r.brk).id = (r.record p).bidCount := by simp [Reg.link]
  rw [Reg.getBarrier, head_link]
  by_cases hp : p' = p
  · subst hp
    rw [if_pos rfl, lookup_cons, lookup_link_old h c, hnew]
    simp
  · rw [if_neg hp, lookup_link_old h c]
    simp [hp]

/-- A barrier whose id is not on the list. -/
theorem Tidy.link (h : Tidy r) (hp : p ∈ r.tgidList) (c : BitVec 32)
    (hid : r.getBarrier p (r.record p).bidCount = none) : Tidy (r.link p c) where
  tgids := h.tgids.congr fun p' _ => (tgid_link c p').symm
  ids p' hp' := by
    have hold : UniqueKeys (fun b => ((r.link p c).entry b).id) (r.record p').barrierHead := by
      refine (h.ids p' hp').congr fun b hb => ?_
      rw [entry_link_old h c hb]
    rw [head_link]
    split
    · rename_i hpp
      subst hpp
      refine hold.cons ?_
      rw [lookup_link_old h c, show ((r.link p' c).entry r.brk).id = (r.record p').bidCount by
        simp [Reg.link]]
      exact hid
    · exact hold
  size p' hp' := by
    by_cases hpp : p' = p
    · subst hpp
      simp [Reg.link, h.size p' hp', BitVec.ofNat_add]
    · simpa [Reg.link, hpp] using h.size p' hp'
  records p' hp' := Nat.lt_succ_of_lt (h.records p' hp')
  barriers p' b hb := by
    rcases mem_head_link hb with ⟨rfl, -⟩ | hb
    · exact Nat.lt_succ_self _
    · exact Nat.lt_succ_of_lt (h.barriers p' b hb)

/-- **LINKING**, as the map sees it: one more live id. -/
theorem live_link (h : Tidy r) (hg : r.getPtgid g = some p) (c : BitVec 32) :
    (r.link p c).live = r.live.set g (r.record p).bidCount (some (c.signExtend 64)) := by
  have htgid := (mem_of_lookup hg).2
  funext g' id
  rw [Reg.live, LiveMap.set, getPtgid_link]
  cases hp : r.getPtgid g' with
  | none =>
      have hgg : g' ≠ g := by
        rintro rfl
        rw [hg] at hp
        cases hp
      simp [hgg, Reg.live, hp]
  | some p' =>
      -- one record for a process: `p'` is `p` exactly when `g'` is `g`
      have hiff : p' = p ↔ g' = g := by
        constructor
        · rintro rfl
          exact (mem_of_lookup hp).2.symm.trans htgid
        · rintro rfl
          rw [hg] at hp
          exact (Option.some.inj hp).symm
      simp only [Option.bind_some, getBarrier_link h, hiff]
      by_cases hnew : g' = g ∧ (r.record p).bidCount = id
      · rw [if_pos hnew, if_pos ⟨hnew.1, hnew.2.symm⟩]
        simp [Reg.link]
      · rw [if_neg hnew, if_neg fun hh => hnew ⟨hh.1, hh.2.symm⟩, Reg.live, hp]
        cases hb : r.getBarrier p' id with
        | none => simp [hb]
        | some b =>
            simp [hb, entry_link_old h c (mem_of_lookup hb).1]

/-! ### A barrier removed -/

theorem tgid_unlink (p' : Addr) : ((r.unlink p b).record p').tgid = (r.record p').tgid := by
  by_cases hp : p' = p
  · subst hp; simp [Reg.unlink]
  · simp [Reg.unlink, hp]

theorem getPtgid_unlink (g : Pid) : (r.unlink p b).getPtgid g = r.getPtgid g :=
  lookup_congr (fun p' _ => tgid_unlink p') g

theorem id_unlink (b' : Addr) : ((r.unlink p b).entry b').id = (r.entry b').id := by
  by_cases hb : b' = b
  · subst hb; simp [Reg.unlink]
  · simp [Reg.unlink, hb]

theorem count_unlink (b' : Addr) : ((r.unlink p b).entry b').count = (r.entry b').count := by
  by_cases hb : b' = b
  · subst hb; simp [Reg.unlink]
  · simp [Reg.unlink, hb]

/-- The barrier is not found any more. -/
theorem getBarrier_unlink (h : Tidy r) (hp : p ∈ r.tgidList)
    (hb : b ∈ (r.record p).barrierHead) (p' : Addr) (id : BitVec 32) :
    (r.unlink p b).getBarrier p' id
      = if p' = p ∧ (r.entry b).id = id then none else r.getBarrier p' id := by
  have hcongr : (r.unlink p b).getBarrier p' id
      = lookup (fun b => (r.entry b).id) ((r.unlink p b).record p').barrierHead id :=
    lookup_congr (fun b' _ => id_unlink b') id
  rw [hcongr, head_unlink]
  by_cases hpp : p' = p
  · subst hpp
    rw [if_pos rfl, lookup_erase (h.ids p' hp) hb]
    simp [Reg.getBarrier]
  · rw [if_neg hpp]
    simp [hpp, Reg.getBarrier]

/-- Taking a barrier off its list. -/
theorem Tidy.unlink (h : Tidy r) (hb : b ∈ (r.record p).barrierHead) : Tidy (r.unlink p b) where
  tgids := h.tgids.congr fun p' _ => (tgid_unlink p').symm
  ids p' hp' := by
    have hold : UniqueKeys (fun b => (r.entry b).id) ((r.unlink p b).record p').barrierHead := by
      rw [head_unlink]
      split
      · rename_i hpp
        subst hpp
        exact (h.ids p' hp').sublist List.erase_sublist
      · exact h.ids p' hp'
    exact hold.congr fun b' _ => (id_unlink b').symm
  size p' hp' := by
    by_cases hpp : p' = p
    · subst hpp
      have hsize := ofNat_sub_one (List.length_pos_of_mem hb)
      simpa [Reg.unlink, h.size p' hp', List.length_erase_of_mem hb] using hsize
    · simpa [Reg.unlink, hpp] using h.size p' hp'
  records := h.records
  barriers p' b' hb' := by
    rw [head_unlink] at hb'
    split at hb'
    · exact h.barriers p b' (List.mem_of_mem_erase hb')
    · exact h.barriers p' b' hb'

/-- **UNLINKING**: one live id less. -/
theorem live_unlink (h : Tidy r) (hg : r.getPtgid g = some p)
    (hb : b ∈ (r.record p).barrierHead) :
    (r.unlink p b).live = r.live.set g (r.entry b).id none := by
  obtain ⟨hmem, htgid⟩ := mem_of_lookup hg
  funext g' id
  rw [Reg.live, LiveMap.set, getPtgid_unlink]
  cases hp : r.getPtgid g' with
  | none => simp [Reg.live, hp]
  | some p' =>
      have hiff : p' = p ↔ g' = g := by
        constructor
        · rintro rfl
          exact (mem_of_lookup hp).2.symm.trans htgid
        · rintro rfl
          rw [hg] at hp
          exact (Option.some.inj hp).symm
      simp only [Option.bind_some, getBarrier_unlink h hmem hb, hiff]
      by_cases hold : g' = g ∧ (r.entry b).id = id
      · rw [if_pos hold, if_pos ⟨hold.1, hold.2.symm⟩]
        rfl
      · rw [if_neg hold, if_neg fun hh => hold ⟨hh.1, hh.2.symm⟩, Reg.live, hp]
        simp only [Option.bind_some, count_unlink]

/-! ### A record removed -/

theorem getPtgid_retire (h : Tidy r) (hp : p ∈ r.tgidList) (g : Pid) :
    (r.retire p).getPtgid g = if (r.record p).tgid = g then none else r.getPtgid g :=
  lookup_erase h.tgids hp g

/-- Taking a record off its list. -/
theorem Tidy.retire (h : Tidy r) (p : Addr) : Tidy (r.retire p) where
  tgids := h.tgids.sublist List.erase_sublist
  ids p' hp' := h.ids p' (List.mem_of_mem_erase hp')
  size p' hp' := h.size p' (List.mem_of_mem_erase hp')
  records p' hp' := h.records p' (List.mem_of_mem_erase hp')
  barriers := h.barriers

/-- Retiring an empty record takes nothing away. -/
theorem live_retire (h : Tidy r) (hp : p ∈ r.tgidList) (hempty : (r.record p).barrierHead = []) :
    (r.retire p).live = r.live := by
  funext g id
  rw [Reg.live, Reg.live, getPtgid_retire h hp]
  by_cases hg : (r.record p).tgid = g
  · have hsome : r.getPtgid g = some p := h.getPtgid_iff.mpr ⟨hp, hg⟩
    rw [if_pos hg, hsome, Option.bind_some, Reg.getBarrier, hempty]
    rfl
  · rw [if_neg hg]
    rfl

/-! ### A call counted -/

theorem id_destroy (b' : Addr) : ((r.destroy b).entry b').id = (r.entry b').id := by
  by_cases hb : b' = b
  · subst hb; simp [Reg.destroy]
  · simp [Reg.destroy, hb]

/-- Counting the return of a `barrier_destroy`. -/
theorem Tidy.destroy (h : Tidy r) (b : Addr) : Tidy (r.destroy b) where
  tgids := h.tgids
  ids p hp := (h.ids p hp).congr fun b' _ => (id_destroy b').symm
  size := h.size
  records := h.records
  barriers := h.barriers

theorem live_destroy : (r.destroy b).live = r.live := by
  have hcount (b' : Addr) : ((r.destroy b).entry b').count = (r.entry b').count := by
    by_cases hb : b' = b
    · subst hb; simp [Reg.destroy]
    · simp [Reg.destroy, hb]
  funext g id
  show ((r.getPtgid g).bind fun p => ((r.destroy b).getBarrier p id).map _) = _
  have hbar (p : Addr) : (r.destroy b).getBarrier p id = r.getBarrier p id :=
    lookup_congr (fun b' _ => id_destroy b') id
  simp only [hbar, hcount]
  rfl

end Sections

/-! ## The calls on the map -/

/-- The invariant of the memory between calls: no round has begun on a barrier that
    is linked. -/
structure Settled (m : Mem) : Prop where
  fresh : Fresh m
  tidy : Tidy m.reg
  occupied : Occupied m.reg
  idle : ∀ p, ∀ b ∈ (m.ptgid p).barrierHead, (m.barrier b).total = barrierFlag

section Calls
variable {m : Mem} {g : Pid}

/-- At load time. -/
theorem settled_initial : Settled Mem.initial where
  fresh := fresh_initial
  tidy := ⟨uniqueKeys_nil, nofun, nofun, nofun, nofun⟩
  occupied _ h := nomatch h
  idle _ _ h := nomatch h

/-- `barrier_init` as the composition of its sections. -/
theorem barrierInit_found {p : Addr} {c : BitVec 32} (hc : ¬ c.toInt < 0)
    (hp : m.getPtgid g = some p) :
    barrierInit m g c =
      match m.getBarrier p (m.ptgid p).bidCount with
      | some _ => (m, none)
      | none => ({ m.linkBarrier p c with
          made := ⟨g, (m.ptgid p).bidCount, c, m.brk⟩ :: m.made }, some (m.ptgid p).bidCount) := by
  rw [barrierInit, if_neg hc, Mem.findOrNewPtgid, hp]
  rfl

/-- The first `barrier_init` of a process. -/
theorem barrierInit_fresh {c : BitVec 32} (hc : ¬ c.toInt < 0) (hp : m.getPtgid g = none) :
    barrierInit m g c
      = ({ (m.newPtgid g).linkBarrier m.brk c with
          made := ⟨g, 0, c, m.brk + 1⟩ :: m.made }, some 0) := by
  have hid : ((m.newPtgid g).ptgid m.brk).bidCount = 0 := by simp [Mem.newPtgid]
  have hb : (m.newPtgid g).getBarrier m.brk 0 = none := by simp [Mem.getBarrier, Mem.newPtgid]
  rw [barrierInit, if_neg hc, Mem.findOrNewPtgid, hp]
  simp only [hid, hb]
  rfl

/-- Linking on a record of the process. -/
theorem settled_link {p : Addr} (hf : Fresh m) (ht : Tidy m.reg)
    (ho : ∀ p' ∈ m.tgidList, p' ≠ p → (m.ptgid p').barrierHead ≠ [])
    (hi : ∀ p, ∀ b ∈ (m.ptgid p).barrierHead, (m.barrier b).total = barrierFlag)
    (hp : p ∈ m.tgidList) (c : BitVec 32) (e : Made)
    (hid : m.getBarrier p (m.ptgid p).bidCount = none) :
    Settled { m.linkBarrier p c with made := e :: m.made } := by
  have hreg : (m.linkBarrier p c).reg = m.reg.link p c := reg_linkBarrier hf p c
  have hfl := hf.linkBarrier (ht.records p hp) c
  have htidy : Tidy (m.linkBarrier p c).reg := by
    rw [hreg]
    exact ht.link hp c hid
  refine ⟨⟨hfl.ptgid, hfl.barrier, hfl.hist, hfl.links, hfl.tgidList, hfl.barrierHead⟩,
    ⟨htidy.tgids, htidy.ids, htidy.size, htidy.records, htidy.barriers⟩, ?_, ?_⟩
  · intro p' hp'
    show ((m.linkBarrier p c).reg.record p').barrierHead ≠ []
    rw [hreg, head_link]
    split
    · exact List.cons_ne_nil _ _
    · rename_i hpp
      exact ho p' hp' hpp
  · intro p' b hb
    have hb' : b ∈ ((m.reg.link p c).record p').barrierHead := hreg ▸ hb
    rcases mem_head_link hb' with ⟨rfl, -⟩ | hold
    · simp [Mem.linkBarrier, Mem.reg, initBarrierStruct]
    · have hne : b ≠ m.brk := Nat.ne_of_lt (hf.barrierHead p' b hold)
      simpa [Mem.linkBarrier, hne] using hi p' b hold

/-- `barrier_init`, refused or not. -/
theorem settled_init (h : Settled m) (g : Pid) (c : BitVec 32) : Settled (barrierInit m g c).1 := by
  by_cases hc : c.toInt < 0
  · rw [barrierInit, if_pos hc]
    exact h
  · cases hp : m.getPtgid g with
    | some p =>
        have hmem := (getPtgid_mem hp).1
        rw [barrierInit_found hc hp]
        cases hb : m.getBarrier p (m.ptgid p).bidCount with
        | some b => exact h
        | none =>
            exact settled_link h.fresh h.tidy (fun p' hp' _ => h.occupied p' hp') h.idle hmem c _ hb
    | none =>
        rw [barrierInit_fresh hc hp]
        have hreg : (m.newPtgid g).reg = m.reg.newPtgid g := reg_newPtgid h.fresh g
        have hrec {p : Addr} (hne : p ≠ m.brk) :
            (m.newPtgid g).reg.record p = m.reg.record p := by
          rw [hreg]
          exact record_newPtgid hne
        refine settled_link (m := m.newPtgid g) (h.fresh.newPtgid g) ?_ ?_ ?_ ?_ c _ ?_
        · rw [hreg]
          exact h.tidy.newPtgid hp
        · intro p' hp' hne
          have hold : p' ∈ m.tgidList := by
            rcases List.mem_cons.mp hp' with he | hold
            · exact absurd he hne
            · exact hold
          show ((m.newPtgid g).reg.record p').barrierHead ≠ []
          rw [hrec hne]
          exact h.occupied p' hold
        · intro p b hb
          by_cases hpe : p = m.brk
          · subst hpe
            simp [Mem.newPtgid] at hb
          · exact h.idle p b (by simpa [Mem.newPtgid, hpe] using hb)
        · exact List.mem_cons_self ..
        · simp [Mem.getBarrier, Mem.newPtgid]

/-- `recycle` on the registry: the barrier goes, and the record with it if it was the
    last one. -/
theorem reg_recycle (p b : Addr) :
    (recycle m p b).reg =
      (if ((m.reg.unlink p b).record p).barrierSize = 0 then (m.reg.unlink p b).retire p
        else m.reg.unlink p b).destroy b := by
  rw [recycle, reg_setDestroyed, ← reg_unlinkBarrier p b]
  show (if ((m.unlinkBarrier p b).ptgid p).barrierSize = 0
      then ((m.unlinkBarrier p b).unlinkPtgid p).freePtgid p else m.unlinkBarrier p b).reg.destroy b
    = (if ((m.unlinkBarrier p b).ptgid p).barrierSize = 0 then (m.unlinkBarrier p b).reg.retire p
        else (m.unlinkBarrier p b).reg).destroy b
  split
  · rw [reg_freePtgid]
    rfl
  · rfl

/-- A list of different ids is shorter than the `int` that counts it wraps at. -/
theorem length_erase_lt {r : Reg} {p b : Addr}
    (hids : UniqueKeys (fun b => (r.entry b).id) (r.record p).barrierHead)
    (hb : b ∈ (r.record p).barrierHead) :
    ((r.record p).barrierHead.erase b).length < 2 ^ 32 := by
  have hnd : (((r.record p).barrierHead.map fun b => (r.entry b).id).map BitVec.toNat).Nodup :=
    List.Nodup.map (fun _ _ he => BitVec.eq_of_toNat_eq he) hids
  have hle := length_le_of_nodup hnd fun k hk => by
    obtain ⟨x, -, rfl⟩ := List.mem_map.mp hk
    exact x.isLt
  rw [List.length_map, List.length_map] at hle
  have hpos := List.length_pos_of_mem hb
  rw [List.length_erase_of_mem hb]
  omega

/-- `barrier_size` is 0 exactly when the list is empty. -/
theorem size_unlink_eq_zero {r : Reg} {p b : Addr}
    (hsize : (r.record p).barrierSize = BitVec.ofNat 32 (r.record p).barrierHead.length)
    (hids : UniqueKeys (fun b => (r.entry b).id) (r.record p).barrierHead)
    (hb : b ∈ (r.record p).barrierHead) :
    ((r.unlink p b).record p).barrierSize = 0 ↔ ((r.unlink p b).record p).barrierHead = [] := by
  have hlt := length_erase_lt hids hb
  have hhead : ((r.unlink p b).record p).barrierHead = (r.record p).barrierHead.erase b := by
    rw [head_unlink, if_pos rfl]
  have hsize' : ((r.unlink p b).record p).barrierSize
      = BitVec.ofNat 32 ((r.record p).barrierHead.erase b).length := by
    rw [List.length_erase_of_mem hb, ← ofNat_sub_one (List.length_pos_of_mem hb), ← hsize]
    simp [Reg.unlink]
  rw [hsize', hhead, ← List.length_eq_zero_iff]
  constructor
  · intro h0
    have h1 := congrArg BitVec.toNat h0
    rw [BitVec.toNat_ofNat, Nat.mod_eq_of_lt hlt] at h1
    exact h1
  · intro h0
    rw [h0]
    rfl

/-- A barrier goes, and its record with it if it was the last. -/
theorem settled_recycle (h : Settled m) {p b : Addr} (hp : p ∈ m.tgidList)
    (hb : b ∈ (m.ptgid p).barrierHead) : Settled (recycle m p b) := by
  have hpb : p < m.brk := h.fresh.tgidList p hp
  have hbb : b < m.brk := h.fresh.barrierHead p b hb
  have hfu := h.fresh.unlinkBarrier hpb hbb
  have hzero := size_unlink_eq_zero (h.tidy.size p hp) (h.tidy.ids p hp) hb
  have htidy : Tidy (recycle m p b).reg := by
    rw [reg_recycle]
    refine Tidy.destroy ?_ b
    split
    · exact (h.tidy.unlink hb).retire p
    · exact h.tidy.unlink hb
  have htotal (b' : Addr) : ((recycle m p b).barrier b').total = (m.barrier b').total := by
    have hunl : ((m.unlinkBarrier p b).barrier b').total = (m.barrier b').total := by
      by_cases hbb' : b' = b
      · subst hbb'; simp [Mem.unlinkBarrier]
      · simp [Mem.unlinkBarrier, hbb']
    rw [recycle]
    dsimp only
    split
    · exact hunl
    · exact hunl
  have hhead (p' : Addr) : ((recycle m p b).ptgid p').barrierHead
      = ((m.reg.unlink p b).record p').barrierHead := by
    show ((recycle m p b).reg.record p').barrierHead = _
    rw [reg_recycle]
    split <;> rfl
  refine ⟨?_, htidy, ?_, ?_⟩
  · rw [recycle]
    dsimp only
    split
    · have hfr : Fresh ((m.unlinkBarrier p b).unlinkPtgid p) :=
        ⟨hfu.ptgid, hfu.barrier, hfu.hist, hfu.links,
          fun p' hp' => hfu.tgidList p' (List.mem_of_mem_erase hp'), hfu.barrierHead⟩
      have hfp : Fresh (((m.unlinkBarrier p b).unlinkPtgid p).freePtgid p) :=
        hfr.setPtgid hpb (hfr.barrierHead p)
      exact hfp.setHist hbb
    · exact hfu.setHist hbb
  · intro p' hp'
    rw [show ((recycle m p b).reg.record p').barrierHead = _ from hhead p']
    have hp'' : p' ∈ (if ((m.reg.unlink p b).record p).barrierSize = 0
        then (m.reg.unlink p b).retire p else m.reg.unlink p b).tgidList := by
      have := hp'
      rw [reg_recycle] at this
      exact this
    by_cases hpp : p' = p
    · subst hpp
      split at hp''
      · -- the record of the last barrier is gone
        exact absurd rfl (h.tidy.tgids.nodup.mem_erase_iff.mp hp'').1
      · rename_i hne
        exact fun he => hne (hzero.mpr he)
    · rw [head_unlink, if_neg hpp]
      refine h.occupied p' ?_
      split at hp''
      · exact List.mem_of_mem_erase hp''
      · exact hp''
  · intro p' b' hb'
    rw [htotal]
    refine h.idle p' b' ?_
    rw [hhead, head_unlink] at hb'
    split at hb'
    · rename_i hpp
      subst hpp
      exact List.mem_of_mem_erase hb'
    · exact hb'

/-- **BETWEEN CALLS** the registry is settled. -/
theorem settled_of_served (h : Served m) : Settled m := by
  induction h with
  | start => exact settled_initial
  | call g req _ hs ih =>
      cases req with
      | init c =>
          cases hs
          exact settled_init ih g c
      | destroy id =>
          obtain ⟨⟨m', ret⟩, hd, rfl⟩ := Option.map_eq_some_iff.mp hs
          rw [barrierDestroy] at hd
          split at hd
          · cases hd
            exact ih
          · rename_i p hp
            split at hd
            · cases hd
              exact ih
            · rename_i b hb
              split at hd
              · cases hd
              · cases hd
                exact settled_recycle ih (getPtgid_mem hp).1 (getBarrier_mem hb).1

end Calls

/-! ## Refinement -/

/-- The linked structure represents `live`: what is linked under a record of the
    process is what the map holds, without repetition; a record is there exactly
    for the processes with a live barrier, and its `barrier_size` (32 bits) is
    their number. -/
structure Represents (m : Mem) : Prop where
  tgids : UniqueKeys (fun p => (m.ptgid p).tgid) m.tgidList
  ids : ∀ p ∈ m.tgidList, UniqueKeys (fun b => (m.barrier b).id) (m.ptgid p).barrierHead
  live : ∀ g id c, m.live g id = some c ↔ ∃ p ∈ m.tgidList, (m.ptgid p).tgid = g
    ∧ ∃ b ∈ (m.ptgid p).barrierHead, (m.barrier b).id = id ∧ (m.barrier b).count = c
  records : ∀ g, (∃ p ∈ m.tgidList, (m.ptgid p).tgid = g) ↔ ∃ id, (m.live g id).isSome
  size : ∀ p ∈ m.tgidList, (m.ptgid p).barrierSize
    = BitVec.ofNat 32 (Set.ncard {id | (m.live (m.ptgid p).tgid id).isSome})

/-- `barrier_init` on the map. -/
structure InitMeets (m : Mem) (g : Pid) (count : BitVec 32) : Prop where
  fails : (barrierInit m g count).2 = none
    ↔ count.toInt < 0 ∨ (m.live g (m.reg.bidAt g)).isSome
  unchanged : (barrierInit m g count).2 = none → (barrierInit m g count).1 = m
  adds : ∀ id, (barrierInit m g count).2 = some id → m.live g id = none
    ∧ (barrierInit m g count).1.live = m.live.set g id (some (count.signExtend 64))

/-- `barrier_destroy` on the map. -/
structure DestroyMeets (m : Mem) (g : Pid) (id : BitVec 32) : Prop where
  removes : ∀ c, m.live g id = some c → ∃ m', barrierDestroy m g id = some (m', 0)
    ∧ m'.live = m.live.set g id none
  absent : m.live g id = none → barrierDestroy m g id = some (m, -1)

section Refinement
variable {m : Mem} {g : Pid}

/-- What a process has live is what its record lists. -/
theorem live_of_getPtgid {p : Addr} (hp : m.getPtgid g = some p) (id : BitVec 32) :
    m.live g id = (m.getBarrier p id).map fun b => (m.barrier b).count := by
  show (m.reg.getPtgid g).bind _ = _
  rw [← reg_getPtgid, hp]
  rfl

/-- Without a record it has nothing. -/
theorem live_of_getPtgid_none (hp : m.getPtgid g = none) (id : BitVec 32) : m.live g id = none := by
  show (m.reg.getPtgid g).bind _ = _
  rw [← reg_getPtgid, hp]
  rfl

theorem live_eq_some (h : Settled m) {id : BitVec 32} {c : BitVec 64} :
    m.live g id = some c ↔ ∃ p ∈ m.tgidList, (m.ptgid p).tgid = g
      ∧ ∃ b ∈ (m.ptgid p).barrierHead, (m.barrier b).id = id ∧ (m.barrier b).count = c := by
  constructor
  · intro hl
    obtain ⟨p, hp, hb⟩ := Option.bind_eq_some_iff.mp hl
    obtain ⟨b, hb, hc⟩ := Option.map_eq_some_iff.mp hb
    obtain ⟨hpm, hpt⟩ := mem_of_lookup hp
    obtain ⟨hbm, hbi⟩ := mem_of_lookup hb
    exact ⟨p, hpm, hpt, b, hbm, hbi, hc⟩
  · rintro ⟨p, hpm, hpt, b, hbm, hbi, hc⟩
    have hp : m.getPtgid g = some p := h.tidy.getPtgid_iff.mpr ⟨hpm, hpt⟩
    have hb : m.getBarrier p id = some b := (lookup_eq_some_iff (h.tidy.ids p hpm)).mpr ⟨hbm, hbi⟩
    rw [live_of_getPtgid hp, hb, Option.map_some, hc]

/-- **THE REGISTRY REPRESENTS ITS MAP.** -/
theorem represents (h : Settled m) : Represents m where
  tgids := h.tidy.tgids
  ids := h.tidy.ids
  live _ _ _ := live_eq_some h
  records g := by
    constructor
    · rintro ⟨p, hp, hg⟩
      obtain ⟨b, hb⟩ := List.exists_mem_of_ne_nil _ (h.occupied p hp)
      have hl := (live_eq_some h).mpr ⟨p, hp, hg, b, hb, rfl, rfl⟩
      exact ⟨(m.barrier b).id, by rw [hl]; rfl⟩
    · rintro ⟨id, hl⟩
      obtain ⟨c, hc⟩ := Option.isSome_iff_exists.mp hl
      obtain ⟨p, hp, hg, -⟩ := (live_eq_some h).mp hc
      exact ⟨p, hp, hg⟩
  size p hp := by
    have hset : {id | (m.live (m.ptgid p).tgid id).isSome}
        = ↑((m.ptgid p).barrierHead.map fun b => (m.barrier b).id).toFinset := by
      ext id
      have hget : m.getPtgid (m.ptgid p).tgid = some p := h.tidy.getPtgid_iff.mpr ⟨hp, rfl⟩
      simp only [Set.mem_ofPred_eq, live_of_getPtgid hget, Option.isSome_map, List.coe_toFinset,
        List.mem_map]
      constructor
      · intro hs
        obtain ⟨b, hb⟩ := Option.isSome_iff_exists.mp hs
        exact ⟨b, mem_of_lookup hb⟩
      · rintro ⟨b, hb, hid⟩
        have hfind : m.getBarrier p id = some b :=
          (lookup_eq_some_iff (h.tidy.ids p hp)).mpr ⟨hb, hid⟩
        rw [hfind]
        rfl
    have hids : ((m.ptgid p).barrierHead.map fun b => (m.barrier b).id).Nodup := h.tidy.ids p hp
    rw [hset, Set.ncard_coe_finset, List.toFinset_card_of_nodup hids, List.length_map]
    exact h.tidy.size p hp

theorem bidAt_of_getPtgid {p : Addr} (hp : m.getPtgid g = some p) :
    m.reg.bidAt g = (m.ptgid p).bidCount := by
  rw [Reg.bidAt, ← reg_getPtgid, hp]
  rfl

/-- When `barrier_init` returns -1, and then nothing has happened. -/
theorem barrierInit_fails (m : Mem) (g : Pid) (c : BitVec 32) :
    (barrierInit m g c).2 = none ↔ c.toInt < 0 ∨ (m.live g (m.reg.bidAt g)).isSome := by
  by_cases hc : c.toInt < 0
  · rw [barrierInit, if_pos hc]
    exact ⟨fun _ => Or.inl hc, fun _ => rfl⟩
  · cases hp : m.getPtgid g with
    | none =>
        -- no record: the first barrier of the process, with id 0
        rw [barrierInit_fresh hc hp, live_of_getPtgid_none hp]
        simp [hc]
    | some p =>
        rw [barrierInit_found hc hp, bidAt_of_getPtgid hp, live_of_getPtgid hp]
        cases m.getBarrier p (m.ptgid p).bidCount with
        | some b => simp
        | none => simp [hc]

theorem barrierInit_unchanged {c : BitVec 32} (h : (barrierInit m g c).2 = none) :
    (barrierInit m g c).1 = m := by
  by_cases hc : c.toInt < 0
  · rw [barrierInit, if_pos hc]
  · cases hp : m.getPtgid g with
    | none =>
        rw [barrierInit_fresh hc hp] at h
        cases h
    | some p =>
        rw [barrierInit_found hc hp] at h ⊢
        cases hb : m.getBarrier p (m.ptgid p).bidCount with
        | some b => rfl
        | none =>
            rw [hb] at h
            cases h

/-- `barrier_init` does to the map what it should. -/
theorem initMeets (h : Settled m) (g : Pid) (c : BitVec 32) : InitMeets m g c where
  fails := barrierInit_fails m g c
  unchanged := barrierInit_unchanged
  adds id hid := by
    by_cases hc : c.toInt < 0
    · rw [barrierInit, if_pos hc] at hid
      cases hid
    · cases hp : m.getPtgid g with
      | none =>
          rw [barrierInit_fresh hc hp] at hid ⊢
          cases hid
          refine ⟨live_of_getPtgid_none hp 0, ?_⟩
          show ((m.newPtgid g).linkBarrier m.brk c).reg.live = _
          have hreg : (m.newPtgid g).reg = m.reg.newPtgid g := reg_newPtgid h.fresh g
          have hget : (m.reg.newPtgid g).getPtgid g = some m.brk := by
            rw [getPtgid_newPtgid h.tidy, if_pos rfl]
            rfl
          rw [reg_linkBarrier (h.fresh.newPtgid g), hreg,
            live_link (h.tidy.newPtgid hp) hget, live_newPtgid h.tidy hp,
            show (m.reg.newPtgid g).record m.brk = ⟨g, 0, 0, [], 0⟩ from record_newPtgid_self]
          rfl
      | some p =>
          rw [barrierInit_found hc hp] at hid ⊢
          cases hb : m.getBarrier p (m.ptgid p).bidCount with
          | some b =>
              rw [hb] at hid
              cases hid
          | none =>
              rw [hb] at hid
              cases hid
              refine ⟨by rw [live_of_getPtgid hp, hb]; rfl, ?_⟩
              show (m.linkBarrier p c).reg.live = _
              rw [reg_linkBarrier h.fresh]
              exact live_link h.tidy hp c

/-- So does `barrier_destroy`. -/
theorem destroyMeets (h : Settled m) (g : Pid) (id : BitVec 32) : DestroyMeets m g id where
  removes c hc := by
    obtain ⟨p, hp, hb⟩ := Option.bind_eq_some_iff.mp hc
    obtain ⟨b, hb, -⟩ := Option.map_eq_some_iff.mp hb
    obtain ⟨hpm, -⟩ := mem_of_lookup hp
    obtain ⟨hbm, hbi⟩ := mem_of_lookup hb
    have hidle : ¬ barrierFlag < (m.barrier b).total := by
      rw [h.idle p b hbm]
      exact BitVec.lt_irrefl _
    refine ⟨recycle m p b, ?_, ?_⟩
    · have hp' : m.getPtgid g = some p := hp
      have hb' : m.getBarrier p id = some b := hb
      rw [barrierDestroy, hp']
      simp only [hb']
      rw [if_neg hidle]
    · show (recycle m p b).reg.live = _
      have hlive : (m.reg.unlink p b).live = m.live.set g id none := by
        rw [← hbi]
        exact live_unlink h.tidy hp hbm
      rw [reg_recycle, live_destroy]
      split
      · rename_i hz
        have hempty := (size_unlink_eq_zero (h.tidy.size p hpm) (h.tidy.ids p hpm) hbm).mp hz
        rw [live_retire (h.tidy.unlink hbm) hpm hempty, hlive]
      · exact hlive
  absent hn := by
    cases hp : m.getPtgid g with
    | none => rw [barrierDestroy, hp]
    | some p =>
        rw [live_of_getPtgid hp] at hn
        have hb := Option.map_eq_none_iff.mp hn
        rw [barrierDestroy, hp]
        simp only [hb]

end Refinement

/-- **THE REGISTRY IS A MAP** from processes and ids to counts, after any finite
    sequence of complete calls by any processes: the lists represent it,
    `barrier_init` adds one entry under an id that was not live or fails and
    changes nothing, `barrier_destroy` removes one entry or fails and changes
    nothing. -/
theorem registry_refines_map {m : Mem} (h : Served m) :
    Represents m ∧ (∀ g count, InitMeets m g count) ∧ ∀ g id, DestroyMeets m g id := by
  have hs := settled_of_served h
  exact ⟨represents hs, initMeets hs, destroyMeets hs⟩

/-- Two processes with a barrier each. -/
def twoProcesses : Mem := (barrierInit (barrierInit Mem.initial 5 3).1 6 2).1

theorem registry_refines_map_two_processes :
    twoProcesses.live 6 0 = some 2 ∧ ∃ m', barrierDestroy twoProcesses 5 0 = some (m', 0)
      ∧ m'.live = twoProcesses.live.set 5 0 none := by
  have hserved : Served twoProcesses :=
    .call 6 (.init 2) (.call 5 (.init 3) .start rfl) rfl
  refine ⟨by decide, ?_⟩
  exact ((registry_refines_map hserved).2.2 5 0).removes 3 (by decide)

end Barrier
