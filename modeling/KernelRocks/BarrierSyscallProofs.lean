import KernelRocks.BarrierIdsProofs
import KernelRocks.UserMemoryProofs

/-! # The barrier calls as their callers see them

    Three promises to the callers and where the code keeps them.

    * `sys_barrier_init` delivers the id with `copy_to_user` after the barrier is
      linked and tests `0 > ret`: a copy that fails returns a positive number, so
      the barrier stays and the caller is told neither its id nor of an error
      (`sys_barrier_init_iff`).
    * An id that is not live: `barrier_destroy` returns -1, `barrier_wait` uses the
      NULL it was given (`wait_unknown_id`).
    * `bid_count` has 32 bits and goes on only when a barrier was made.  When it has
      come round to an id that is still live, `barrier_init` fails, and goes on
      failing (`init_available_iff`, `init_comes_round`). -/

namespace Barrier

open Interleaving KeyedList UserMemory

/-! ## `sys_barrier_init` -/

/-- `sys_barrier_init`: the memory of the driver, that of the caller and what it
    returns.  `none`: the last `printk` reads `*barrier_id` itself and faults. -/
def sysBarrierInit (m : Mem) (tgid : Pid) (count : BitVec 32) (u : UserMem)
    (barrierId : BitVec 64) :
    Option (Mem × UserMem × Int) :=
  match barrierInit m tgid count with
  | (m', none) => some (m', u, -1)
  | (m', some id) =>
      let copied := copyToUser u barrierId (bytesOf 4 id.toNat)
      let ret := (BitVec.ofNat 32 copied.2).toInt
      if ret < 0 then some (m', copied.1, ret)
      else if reach u.readable barrierId 4 = 4 then some (m', copied.1, ret)
      else none

/-- A new live barrier of that count and its id at `barrier_id`, or an error and the
    registry as it was. -/
def AllOrNothing (m : Mem) (g : Pid) (count : BitVec 32) (u : UserMem) (a : BitVec 64) : Prop :=
  (∃ m' u' id, sysBarrierInit m g count u a = some (m', u', 0) ∧ m.live g id = none
    ∧ m'.live g id = some (count.signExtend 64) ∧ u'.load a 4 = bytesOf 4 id.toNat)
  ∨ ∃ u' ret, sysBarrierInit m g count u a = some (m, u', ret) ∧ ret < 0

section Init
variable {m m' : Mem} {g : Pid} {count id : BitVec 32} {u : UserMem} {a : BitVec 64}

theorem getPtgid_linkBarrier (p : Addr) (c : BitVec 32) :
    (m.linkBarrier p c).getPtgid g = m.getPtgid g := by
  refine lookup_congr (fun p' _ => ?_) g
  by_cases hp : p' = p
  · subst hp; simp [Mem.linkBarrier]
  · simp [Mem.linkBarrier, hp]

/-- A barrier that `barrier_init` made, in any memory. -/
theorem live_barrierInit (h : barrierInit m g count = (m', some id)) :
    m.live g id = none ∧ m'.live g id = some (count.signExtend 64) := by
  by_cases hc : count.toInt < 0
  · rw [barrierInit, if_pos hc] at h
    cases h
  · cases hp : m.getPtgid g with
    | none =>
        rw [barrierInit_fresh hc hp] at h
        cases h
        refine ⟨live_of_getPtgid_none hp 0, ?_⟩
        have hget : ((m.newPtgid g).linkBarrier m.brk count).getPtgid g = some m.brk := by
          rw [getPtgid_linkBarrier]
          simp [Mem.getPtgid, Mem.newPtgid]
        refine (live_of_getPtgid hget 0).trans ?_
        simp [Mem.getBarrier, Mem.newPtgid, Mem.linkBarrier, initBarrierStruct]
    | some p =>
        rw [barrierInit_found hc hp] at h
        cases hb : m.getBarrier p (m.ptgid p).bidCount with
        | some b =>
            rw [hb] at h
            cases h
        | none =>
            rw [hb] at h
            cases h
            refine ⟨by rw [live_of_getPtgid hp, hb]; rfl, ?_⟩
            have hget : (m.linkBarrier p count).getPtgid g = some p := by
              rw [getPtgid_linkBarrier, hp]
            refine (live_of_getPtgid hget _).trans ?_
            simp [Mem.getBarrier, Mem.linkBarrier, initBarrierStruct]
/-- The `int` that a copy of four bytes returns is its number of bytes not copied. -/
theorem toInt_left {k : Nat} (hk : k ≤ 4) : (BitVec.ofNat 32 k).toInt = k := by
  have : ∀ n : Fin 5, (BitVec.ofNat 32 n.val).toInt = n.val := by decide
  exact this ⟨k, by omega⟩

theorem sysBarrierInit_failed (h : (barrierInit m g count).2 = none) :
    sysBarrierInit m g count u a = some (m, u, -1) := by
  have hr : barrierInit m g count = (m, none) := Prod.ext (barrierInit_unchanged h) h
  rw [sysBarrierInit, hr]

/-- The id fits where the caller wants it. -/
theorem sysBarrierInit_delivered (h : barrierInit m g count = (m', some id))
    (hw : Within u.writable a 4) :
    sysBarrierInit m g count u a = some (m', u.store a (bytesOf 4 id.toNat), 0) := by
  have hw' : Within u.writable a (bytesOf 4 id.toNat).length := by
    rw [length_bytesOf]
    exact hw
  have hr : reach u.readable a 4 = 4 :=
    reach_eq_iff.mpr fun i hi => u.readable_of_writable _ (hw i hi)
  rw [sysBarrierInit, h]
  simp only [copyToUser_within hw', hr]
  rfl

/-- It does not: no error and not 0 either. -/
theorem sysBarrierInit_lost (h : barrierInit m g count = (m', some id))
    (hw : ¬ Within u.writable a 4) {m'' : Mem} {u' : UserMem} {ret : Int}
    (hret : sysBarrierInit m g count u a = some (m'', u', ret)) : 0 < ret := by
  have hne : (copyToUser u a (bytesOf 4 id.toNat)).2 ≠ 0 := by
    rw [Ne, copyToUser_eq_zero_iff, length_bytesOf]
    exact hw
  have hle : (copyToUser u a (bytesOf 4 id.toNat)).2 ≤ 4 := by
    refine Nat.le_trans (Nat.sub_le ..) ?_
    rw [length_bytesOf]
  rw [sysBarrierInit, h] at hret
  simp only [toInt_left hle] at hret
  rw [if_neg (by omega)] at hret
  split at hret
  · cases hret
    omega
  · cases hret

end Init

/-- **ALL OR NOTHING, AND WHEN**: in any memory of the driver, for any caller, count and
    memory of the caller, `sys_barrier_init` either makes a barrier and delivers its id
    or returns an error and leaves the registry alone, exactly when the call fails
    before it links anything or the four bytes at `barrier_id` can be written. -/
theorem sys_barrier_init_iff (m : Mem) (g : Pid) (count : BitVec 32) (u : UserMem) (a : BitVec 64) :
    AllOrNothing m g count u a ↔ count.toInt < 0 ∨ (m.live g (m.reg.bidAt g)).isSome
      ∨ Within u.writable a 4 := by
  rw [← or_assoc, ← barrierInit_fails]
  obtain ⟨m', r, hinit⟩ : ∃ m' r, barrierInit m g count = (m', r) := ⟨_, _, rfl⟩
  cases r with
  | none =>
      have hfail : (barrierInit m g count).2 = none := by rw [hinit]
      exact ⟨fun _ => Or.inl hfail,
        fun _ => Or.inr ⟨u, -1, sysBarrierInit_failed hfail, by decide⟩⟩
  | some id =>
      have hmade : (barrierInit m g count).2 ≠ none := by
        rw [hinit]
        exact Option.some_ne_none id
      constructor
      · intro h
        by_contra hn
        have hw : ¬ Within u.writable a 4 := fun hw => hn (Or.inr hw)
        rcases h with ⟨_, _, _, hret, -⟩ | ⟨_, _, hret, hneg⟩
        · exact absurd (sysBarrierInit_lost hinit hw hret) (Int.lt_irrefl 0)
        · exact absurd (sysBarrierInit_lost hinit hw hret) (by omega)
      · rintro (hfail | hw)
        · exact absurd hfail hmade
        · obtain ⟨hnone, hlive⟩ := live_barrierInit hinit
          exact Or.inl ⟨m', _, id, sysBarrierInit_delivered hinit hw, hnone, hlive,
            load_bytesOf u a (by decide) id.toNat⟩

/-- Memory that may be read and not written. -/
def readOnly : UserMem := ⟨fun _ => 0, fun _ => true, fun _ => false, fun _ h => (by cases h)⟩

/-- The first barrier of process 5: it is live, its id reached nobody, and the caller
    is told 4. -/
theorem sys_barrier_init_lost :
    ∃ m', sysBarrierInit Mem.initial 5 2 readOnly 64 = some (m', readOnly, 4)
      ∧ Mem.initial.live 5 0 = none ∧ m'.live 5 0 = some 2
      ∧ ¬ AllOrNothing Mem.initial 5 2 readOnly 64 := by
  have hinit : barrierInit Mem.initial 5 2 = ((barrierInit Mem.initial 5 2).1, some 0) := rfl
  have hw : ¬ Within readOnly.writable 64 4 := fun h => absurd (h 0 (by decide)) (by decide)
  refine ⟨(barrierInit Mem.initial 5 2).1, rfl, rfl, by decide, ?_⟩
  rintro (⟨_, _, _, hret, -⟩ | ⟨_, _, hret, hneg⟩)
  · exact absurd (sysBarrierInit_lost hinit hw hret) (Int.lt_irrefl 0)
  · exact absurd (sysBarrierInit_lost hinit hw hret) (by omega)

/-! ## Ids that are not live -/

/-- The places of a `barrier_wait` that will not find its barrier in `m`, and the
    memory there. -/
inductive Doomed (m : Mem) (g : Pid) (t : Task) (id : BitVec 32) : Mem × Pc → Prop where
  | lockG : Doomed m g t id (m, .getLockG .wait id)
  | find : Doomed m g t id (m.setHolder .gTgidList (some t), .getFind .wait id)
  | unlockG : Doomed m g t id
      (m.setHolder .gTgidList (some t), .getUnlockG .wait id (m.getPtgid g))
  | lockHead (p : Addr) : m.getPtgid g = some p →
      Doomed m g t id (m, .getLockHead (.seek .wait) p id)
  | scan (p : Addr) : m.getPtgid g = some p →
      Doomed m g t id (m.setHolder (.barrierHead p) (some t), .getScan (.seek .wait) p id)
  | unlockHead (p : Addr) : m.getPtgid g = some p →
      Doomed m g t id (m.setHolder (.barrierHead p) (some t), .getUnlockHead (.seek .wait) p none)
  | oops : Doomed m g t id (m, .oops none)

section Unknown
variable {proc : Task → Pid} {m : Mem} {t : Task} {id : BitVec 32} {x y : Mem × Pc}

theorem getBarrier_none_of_live {p : Addr} (hdead : m.live (proc t) id = none)
    (hp : m.getPtgid (proc t) = some p) : m.getBarrier p id = none := by
  rw [live_of_getPtgid hp] at hdead
  exact Option.map_eq_none_iff.mp hdead

/-- Such a call can only run on. -/
theorem Doomed.run_only {a : Act} (hx : Doomed m (proc t) t id x)
    (h : exec proc t x.1 x.2 a = some y) : next proc t x.1 x.2 = some y := by
  cases a with
  | run => exact h
  | call c => cases hx <;> cases h
  | signal => cases hx <;> cases h
  | fault => cases hx <;> cases h

/-- One turn of it: no way leads back to the caller. -/
theorem Doomed.step (hun : Unlocked m) (hdead : m.live (proc t) id = none) {a : Act}
    (hx : Doomed m (proc t) t id x) (h : exec proc t x.1 x.2 a = some y) :
    Doomed m (proc t) t id y := by
  have hrun := hx.run_only h
  cases hx with
  | lockG =>
      cases (takeLock_free (hun _) _).symm.trans hrun
      exact .find
  | find =>
      cases hrun
      exact .unlockG
  | unlockG =>
      have hy : some (m, Seeker.wait.afterPtgid id (m.getPtgid (proc t))) = some y := by
        rw [← release (t := t) (hun .gTgidList)]
        exact hrun
      cases hy
      cases hp : m.getPtgid (proc t) with
      | none => exact .oops
      | some p => exact .lockHead p hp
  | lockHead p hp =>
      cases (takeLock_free (hun _) _).symm.trans hrun
      exact .scan p hp
  | scan p hp =>
      cases hrun
      have hnone : (m.setHolder (.barrierHead p) (some t)).getBarrier p id = none := by
        rw [getBarrier_locked, getBarrier_none_of_live hdead hp]
      rw [hnone]
      exact .unlockHead p hp
  | unlockHead p hp =>
      have hy : some (m, (Client.seek .wait).afterBarrier p none) = some y := by
        rw [← release (t := t) (hun (.barrierHead p))]
        exact hrun
      cases hy
      exact .oops
  | oops => cases hrun

theorem Doomed.solo (hun : Unlocked m) (hdead : m.live (proc t) id = none)
    (h : Solo (exec proc) t (m, (Call.wait id).entry) y) : Doomed m (proc t) t id y := by
  induction h with
  | refl => exact .lockG
  | tail _ hstep ih =>
      obtain ⟨a, ha⟩ := hstep
      exact ih.step hun hdead ha

/-- ... and it gets to its end. -/
theorem solo_wait_oops (hun : Unlocked m) (hdead : m.live (proc t) id = none) :
    Solo (exec proc) t (m, (Call.wait id).entry) (m, .oops none) := by
  refine Solo.trans (solo_getPtgid hun .wait id) ?_
  cases hp : m.getPtgid (proc t) with
  | none => exact .refl
  | some p =>
      have hscan : Solo (exec proc) t _ _ := solo_getBarrier hun (.seek .wait) p id
      rw [getBarrier_none_of_live hdead hp] at hscan
      exact hscan

theorem barrierDestroy_dead (hdead : m.live (proc t) id = none) :
    barrierDestroy m (proc t) id = some (m, -1) := by
  cases hp : m.getPtgid (proc t) with
  | none => rw [barrierDestroy, hp]
  | some p =>
      rw [barrierDestroy, hp]
      simp only [getBarrier_none_of_live hdead hp]

end Unknown

/-- **AN ID THAT IS NOT LIVE**: whatever calls there were before, once nobody is in the
    kernel, `barrier_destroy` of an id that is not live in the process of the caller
    returns -1 and changes nothing, and `barrier_wait` of it never returns, with an
    error or otherwise: it runs into the NULL and is dead in the kernel. -/
theorem wait_unknown_id (proc : Task → Pid) {s : State} (hr : Reachable proc s) (hq : Quiet s)
    (t : Task) (id : BitVec 32) (hdead : s.mem.live (proc t) id = none) :
    barrierDestroy s.mem (proc t) id = some (s.mem, -1)
      ∧ Solo (exec proc) t (s.mem, (Call.wait id).entry) (s.mem, .oops none)
      ∧ ¬ ∃ m' ret, Solo (exec proc) t (s.mem, (Call.wait id).entry) (m', .user ret) := by
  have hun := hq.unlocked hr
  refine ⟨barrierDestroy_dead hdead, solo_wait_oops hun hdead, ?_⟩
  rintro ⟨m', ret, hsolo⟩
  cases Doomed.solo hun hdead hsolo

/-- A `barrier_wait` before any `barrier_init`: task 0 does not come back. -/
theorem wait_unknown_id_first :
    State.initial.mem.live 0 3 = none
      ∧ (after (fun _ => 0) ((0, .call (.wait 3)) :: runs 0 3)).loc 0 = .oops none
      ∧ ¬ ∃ m' ret, Solo (exec fun _ => 0) 0 (State.initial.mem, (Call.wait 3).entry)
        (m', .user ret) := by
  have hun : Unlocked State.initial.mem := fun l => by cases l <;> rfl
  refine ⟨rfl, by decide, ?_⟩
  rintro ⟨m', ret, hsolo⟩
  cases Doomed.solo hun rfl hsolo

/-- Process 0 has made one barrier and process 1 two. -/
def twoOwners : State :=
  afterWhen (fun t => t) 2 (fun _ _ _ => true) (wholeInit 0 2 ++ wholeInit 1 3 ++ wholeInit 1 4)

/-- Task 0 asks for the id that only the other process has. -/
theorem wait_unknown_id_foreign :
    (twoOwners.mem.live 0 0 = some 2 ∧ twoOwners.mem.live 1 1 = some 4
        ∧ twoOwners.mem.live 0 1 = none)
      ∧ barrierDestroy twoOwners.mem 0 1 = some (twoOwners.mem, -1)
      ∧ ¬ ∃ m' ret, Solo (exec fun t => t) 0 (twoOwners.mem, (Call.wait 1).entry)
          (m', .user ret) := by
  have hr : Reachable (fun t => t) twoOwners :=
    reachWhen_afterWhen (C := Free) _ (fun _ _ _ _ _ => trivial) _
  have honly : Only 2 twoOwners := only_afterWhen _ 2 _ _
  have hquiet : Quiet twoOwners := by
    intro u
    match u with
    | 0 => exact ⟨some 0, by decide⟩
    | 1 => exact ⟨some 0, by decide⟩
    | u + 2 => exact ⟨none, honly _ (Nat.le_add_left 2 u)⟩
  have hdead : twoOwners.mem.live 0 1 = none := by decide
  obtain ⟨hdestroy, -, hwait⟩ := wait_unknown_id (fun t => t) hr hquiet 0 1 hdead
  exact ⟨by decide, hdestroy, hwait⟩

/-! ## The counter that has come round -/

/-- What a complete call of process `g` does to the registry. -/
inductive RegCall (g : Pid) (req : Request) (r r' : Reg) : Prop where
  | refused : r' = r → RegCall g req r r'
  | first (c : BitVec 32) (e : Made) : req = .init c → r.getPtgid g = none →
      r' = ((r.newPtgid g).link r.brk c).create e → RegCall g req r r'
  | further (c : BitVec 32) (e : Made) (p : Addr) : req = .init c → r.getPtgid g = some p →
      r.getBarrier p (r.record p).bidCount = none → r' = (r.link p c).create e → RegCall g req r r'
  | removed (id : BitVec 32) (p b : Addr) : req = .destroy id → r.getPtgid g = some p →
      r.getBarrier p id = some b →
      r' = (if ((r.unlink p b).record p).barrierSize = 0 then (r.unlink p b).retire p
        else r.unlink p b).destroy b → RegCall g req r r'

section Counter
variable {m m' : Mem} {g : Pid} {req : Request}

theorem serve_regCall (hf : Fresh m) (h : serve m g req = some m') :
    RegCall g req m.reg m'.reg := by
  cases req with
  | init c =>
      cases h
      by_cases hc : c.toInt < 0
      · rw [barrierInit, if_pos hc]
        exact .refused rfl
      · cases hp : m.getPtgid g with
        | none =>
            rw [barrierInit_fresh hc hp]
            refine .first c ⟨g, 0, c, m.brk + 1⟩ rfl hp ?_
            show ((m.newPtgid g).linkBarrier m.brk c).reg.create _ = _
            rw [reg_linkBarrier (hf.newPtgid g), reg_newPtgid hf]
            rfl
        | some p =>
            rw [barrierInit_found hc hp]
            cases hb : m.getBarrier p (m.ptgid p).bidCount with
            | some b => exact .refused rfl
            | none =>
                refine .further c ⟨g, (m.ptgid p).bidCount, c, m.brk⟩ p rfl hp hb ?_
                show (m.linkBarrier p c).reg.create _ = _
                rw [reg_linkBarrier hf]
  | destroy id =>
      obtain ⟨⟨m', ret⟩, hd, rfl⟩ := Option.map_eq_some_iff.mp h
      rw [barrierDestroy] at hd
      split at hd
      · cases hd
        exact .refused rfl
      · rename_i p hp
        split at hd
        · cases hd
          exact .refused rfl
        · rename_i b hb
          split at hd
          · cases hd
          · cases hd
            exact .removed id p b rfl hp hb (reg_recycle p b)

/-- `bid_count` numbers the barriers of a record after any calls. -/
theorem numbered_of_served (h : Served m) : Numbered m.reg fun _ => .idle := by
  induction h with
  | start => exact ⟨fun _ => rfl, nofun, fun _ => uniqueKeys_nil, nofun, nofun⟩
  | @call m m' g req hserved hs ih =>
      have hf := (settled_of_served hserved).fresh
      have create {r : Reg} {e : Made} (hr : Numbered r fun _ => .idle) :
          Numbered (r.create e) fun _ => .idle :=
        ⟨hr.bid, hr.below, hr.ids, hr.checks, hr.checked⟩
      cases serve_regCall hf hs with
      | refused hr => exact hr ▸ ih
      | first c e _ _ hr =>
          rw [hr]
          have hbrk := (hf.newPtgid g).brk_not_mem
          rw [reg_newPtgid hf] at hbrk
          refine create ((ih.newPtgid g hf.record_brk).link c hbrk fun b hb => ?_)
          rw [record_newPtgid_self] at hb
          cases hb
      | further c e p _ hp hb hr =>
          rw [hr]
          refine create (ih.link c hf.brk_not_mem fun b hmem => ?_)
          exact lookup_eq_none_iff.mp hb b hmem
      | removed id p b _ _ _ hr =>
          rw [hr]
          have hun := ih.unlink p b
          have hgone : Numbered (if ((m.reg.unlink p b).record p).barrierSize = 0
              then (m.reg.unlink p b).retire p else m.reg.unlink p b) fun _ => .idle := by
            split
            · exact ⟨hun.bid, hun.below, hun.ids, hun.checks, hun.checked⟩
            · exact hun
          exact hgone.shrink (fun _ => rfl) (fun _ => rfl) (fun _ => List.Sublist.refl _) id_destroy

/-- Ids repeat only after the record has had 2^32 barriers. -/
theorem live_bidAt_of_links (h : Served m) {p : Addr} (hp : m.getPtgid g = some p)
    (hlinks : m.links p < 2 ^ 32) : m.live g (m.reg.bidAt g) = none := by
  have hnum := numbered_of_served h
  rw [bidAt_of_getPtgid hp, live_of_getPtgid hp, Option.map_eq_none_iff]
  refine lookup_eq_none_iff.mpr fun b hb => ?_
  obtain ⟨j, hj, hid⟩ := hnum.below p b hb
  rw [show (m.barrier b).id = _ from hid, show (m.ptgid p).bidCount = _ from hnum.bid p]
  exact ofNat_ne_of_lt hj hlinks

/-- The id at the counter of the process is live. -/
def Blocked (m : Mem) (g : Pid) : Prop := (m.live g (m.reg.bidAt g)).isSome

theorem Blocked.getPtgid (h : Blocked m g) :
    ∃ p b, m.reg.getPtgid g = some p ∧ m.reg.getBarrier p (m.reg.record p).bidCount = some b := by
  cases hp : m.getPtgid g with
  | none =>
      rw [Blocked, live_of_getPtgid_none hp] at h
      cases h
  | some p =>
      rw [Blocked, bidAt_of_getPtgid hp, live_of_getPtgid hp, Option.isSome_map] at h
      obtain ⟨b, hb⟩ := Option.isSome_iff_exists.mp h
      exact ⟨p, b, hp, hb⟩

theorem bidAt_eq {r : Reg} {p : Addr} (hp : r.getPtgid g = some p) :
    r.bidAt g = (r.record p).bidCount := by
  rw [Reg.bidAt, hp]

/-- No call but the destruction of that barrier moves the counter. -/
theorem RegCall.bidAt {g' : Pid} {r r' : Reg} (ht : Tidy r) (h : RegCall g' req r r') {p b : Addr}
    (hp : r.getPtgid g = some p) (hb : r.getBarrier p (r.record p).bidCount = some b)
    (hne : ¬ (g' = g ∧ req = .destroy (r.record p).bidCount)) :
    r'.bidAt g = (r.record p).bidCount := by
  obtain ⟨hpm, hpt⟩ := mem_of_lookup hp
  cases h with
  | refused hr => rw [hr, bidAt_eq hp]
  | first c e _ hg' hr =>
      have hgg : g' ≠ g := by
        rintro rfl
        rw [hp] at hg'
        cases hg'
      have hget : ((r.newPtgid g').link r.brk c).getPtgid g = some p := by
        rw [getPtgid_link, getPtgid_newPtgid ht, if_neg hgg, hp]
      rw [hr]
      refine (bidAt_eq hget).trans ?_
      have hpb := ht.ne_brk hpm
      simp [Reg.link, hpb, record_newPtgid hpb]
  | further c e p' _ hp' hb' hr =>
      have hpp : p ≠ p' := by
        rintro rfl
        rw [hb] at hb'
        cases hb'
      have hget : (r.link p' c).getPtgid g = some p := by rw [getPtgid_link, hp]
      rw [hr]
      refine (bidAt_eq hget).trans ?_
      simp [Reg.link, hpp]
  | removed id p' b' hreq hp' hb' hr =>
      obtain ⟨hpm', hpt'⟩ := mem_of_lookup hp'
      obtain ⟨hbm', hbi'⟩ := mem_of_lookup hb'
      obtain ⟨hbm, hbi⟩ := mem_of_lookup hb
      have hbid : ((r.unlink p' b').record p).bidCount = (r.record p).bidCount := by
        by_cases hpp : p = p'
        · subst hpp; simp [Reg.unlink]
        · simp [Reg.unlink, hpp]
      have hget : (r.unlink p' b').getPtgid g = some p := by rw [getPtgid_unlink, hp]
      rw [hr]
      split
      · -- the record that goes is not the one of the process: `b` is still on that
        rename_i hz
        have hempty := (size_unlink_eq_zero (ht.size p' hpm') (ht.ids p' hpm') hbm').mp hz
        rw [head_unlink, if_pos rfl] at hempty
        have hgg : (r.record p').tgid ≠ g := by
          intro hg
          have hpp : p' = p := Option.some.inj ((ht.getPtgid_iff.mpr ⟨hpm', hg⟩).symm.trans hp)
          subst hpp
          have hbb : b = b' := by
            by_contra hbb
            have hstays := (List.mem_erase_of_ne hbb).mpr hbm
            rw [hempty] at hstays
            cases hstays
          subst hbb
          refine hne ⟨hpt'.symm.trans hpt, ?_⟩
          rw [hreq, ← hbi, hbi']
        have hget' : ((r.unlink p' b').retire p').getPtgid g = some p := by
          rw [getPtgid_retire (ht.unlink hbm') hpm', tgid_unlink, if_neg hgg, hget]
        exact (bidAt_eq (r := ((r.unlink p' b').retire p').destroy b') hget').trans hbid
      · exact (bidAt_eq (r := (r.unlink p' b').destroy b') hget).trans hbid

/-- ... and it stays live. -/
theorem Blocked.serve (hS : Settled m) (h : Blocked m g) {g' : Pid} (hs : serve m g' req = some m')
    (hne : ¬ (g' = g ∧ req = .destroy (m.reg.bidAt g))) :
    m'.reg.bidAt g = m.reg.bidAt g ∧ Blocked m' g := by
  obtain ⟨p, b, hp, hb⟩ := h.getPtgid
  have hbid := bidAt_eq hp
  have hsame : m'.reg.bidAt g = m.reg.bidAt g := by
    rw [hbid] at hne ⊢
    exact (serve_regCall hS.fresh hs).bidAt hS.tidy hp hb hne
  refine ⟨hsame, ?_⟩
  rw [Blocked, hsame]
  rw [Blocked] at h
  -- an entry that is there is not the one added, nor the one removed
  have kept {id : BitVec 32} {v : Option (BitVec 64)} (hid : ¬ (g' = g ∧ id = m.reg.bidAt g)) :
      ((m.live.set g' id v) g (m.reg.bidAt g)).isSome := by
    rw [LiveMap.set, if_neg fun he => hid ⟨he.1.symm, he.2.symm⟩]
    exact h
  cases req with
  | init c =>
      cases hs
      obtain ⟨-, hunch, hadds⟩ := initMeets hS g' c
      cases hr : (barrierInit m g' c).2 with
      | none =>
          rw [hunch hr]
          exact h
      | some id =>
          obtain ⟨hnone, hlive⟩ := hadds id hr
          rw [hlive]
          refine kept ?_
          rintro ⟨rfl, rfl⟩
          rw [hnone] at h
          cases h
  | destroy id =>
      obtain ⟨⟨m1, ret⟩, hd, rfl⟩ := Option.map_eq_some_iff.mp hs
      cases hl : m.live g' id with
      | none =>
          rw [(destroyMeets hS g' id).absent hl] at hd
          cases hd
          exact h
      | some c =>
          obtain ⟨m2, hd', hlive⟩ := (destroyMeets hS g' id).removes c hl
          rw [hd] at hd'
          cases hd'
          show (m1.live g _).isSome
          rw [hlive]
          refine kept ?_
          rintro ⟨rfl, rfl⟩
          exact hne ⟨rfl, rfl⟩

/-- Calls of any processes that do not destroy one barrier. -/
def Spares (g : Pid) (id : BitVec 32) (x y : Mem) : Prop :=
  ∃ g' req, ¬ (g' = g ∧ req = .destroy id) ∧ serve x g' req = some y

theorem Blocked.run (hs : Served m) (h : Blocked m g)
    (hrun : Relation.ReflTransGen (Spares g (m.reg.bidAt g)) m m') :
    Served m' ∧ m'.reg.bidAt g = m.reg.bidAt g ∧ Blocked m' g := by
  induction hrun with
  | refl => exact ⟨hs, rfl, h⟩
  | tail _ hstep ih =>
      obtain ⟨hserved, hbid, hblocked⟩ := ih
      obtain ⟨g', req, hne, hserve⟩ := hstep
      rw [← hbid] at hne
      obtain ⟨hbid', hblocked'⟩ := hblocked.serve (settled_of_served hserved) hserve hne
      exact ⟨.call g' req hserved hserve, hbid'.trans hbid, hblocked'⟩

/-- A blocked process makes no barrier, and the attempt changes nothing. -/
theorem Blocked.barrierInit (h : Blocked m g) (count : BitVec 32) :
    barrierInit m g count = (m, none) := by
  have hfail := (barrierInit_fails m g count).mpr (Or.inr h)
  exact Prod.ext (barrierInit_unchanged hfail) hfail

/-- There are 2^32 ids. -/
theorem ncard_lt_iff (ids : Set (BitVec 32)) : ids.ncard < 2 ^ 32 ↔ ∃ id, id ∉ ids := by
  have e : BitVec 32 ≃ Fin (2 ^ 32) := ⟨BitVec.toFin, BitVec.ofFin, fun _ => rfl, fun _ => rfl⟩
  have hfin : Finite (BitVec 32) := Finite.of_equiv _ e.symm
  have hcard : (Set.univ : Set (BitVec 32)).ncard = 2 ^ 32 := by
    rw [Set.ncard_univ, Nat.card_congr e, Nat.card_fin]
  constructor
  · intro h
    by_contra hn
    have hall : ids = Set.univ := Set.eq_univ_of_forall fun id => not_not.mp fun hid => hn ⟨id, hid⟩
    rw [hall, hcard] at h
    exact Nat.lt_irrefl _ h
  · rintro ⟨id, hid⟩
    rw [← hcard]
    exact Set.ncard_lt_ncard ⟨Set.subset_univ ids, fun h => hid (h trivial)⟩ (Set.toFinite _)

end Counter

/-- **WHEN A BARRIER CAN BE MADE**: after any complete calls, a process with fewer than
    2^32 live barriers gets another one from every `barrier_init` with a count that is
    not negative, exactly when the id its counter has come to is not live (or it has
    2^32 and the promise is void); and that is so as long as its record has had fewer
    than 2^32 barriers. -/
theorem init_available_iff {m : Mem} (h : Served m) (g : Pid) :
    ((Set.ncard {id | (m.live g id).isSome} < 2 ^ 32 →
        ∀ count : BitVec 32, 0 ≤ count.toInt → ((barrierInit m g count).2).isSome)
      ↔ m.live g (m.reg.bidAt g) = none ∨ ∀ id, (m.live g id).isSome)
    ∧ ∀ p, m.getPtgid g = some p → m.links p < 2 ^ 32 → m.live g (m.reg.bidAt g) = none := by
  refine ⟨?_, fun p hp hlinks => live_bidAt_of_links h hp hlinks⟩
  rw [ncard_lt_iff]
  constructor
  · intro havail
    by_cases hall : ∀ id, (m.live g id).isSome
    · exact Or.inr hall
    · obtain ⟨id, hid⟩ := not_forall.mp hall
      have hsome := havail ⟨id, hid⟩ 0 (by decide)
      refine Or.inl (Option.not_isSome_iff_eq_none.mp fun hblocked => ?_)
      rw [Blocked.barrierInit hblocked] at hsome
      cases hsome
  · rintro (hfree | hall) ⟨id, hid⟩ count hc
    · rw [Option.isSome_iff_ne_none, Ne, barrierInit_fails, hfree]
      rintro (hneg | hlive)
      · omega
      · cases hlive
    · exact absurd (hall id) hid

/-- Two barriers have been made, the first is destroyed, and a third can be had. -/
theorem init_available_iff_reused :
    (Served secondOnly ∧ secondOnly.live 0 0 = none ∧ secondOnly.live 0 1 = some 1)
      ∧ ((barrierInit secondOnly 0 3).2).isSome := by
  have hm := oneLive_secondOnly.served
  have hdead : secondOnly.live 0 0 = none := by decide
  refine ⟨⟨hm, hdead, by decide⟩, ?_⟩
  refine ((init_available_iff hm 0).1.mpr (.inl (by decide))) ?_ 3 (by decide)
  refine (ncard_lt_iff _).mpr ⟨0, ?_⟩
  show ¬ (secondOnly.live 0 0).isSome
  rw [hdead]
  exact Bool.false_ne_true

/-- **THE COUNTER HAS COME ROUND**: process 0 keeps the barrier with id 1 and makes and
    destroys others until its counter is at 1 again.  With one live barrier it gets no
    further one, whatever it and the others do, unless they destroy that one. -/
theorem init_comes_round :
    ∃ m, Served m ∧ (∀ id, (m.live 0 id).isSome ↔ id = 1)
      ∧ ∀ m', Relation.ReflTransGen (Spares 0 1) m m'
        → ∀ count, barrierInit m' 0 count = (m', none) := by
  obtain ⟨m₀, h₀⟩ := oneLive_wrapped
  obtain ⟨m, hm⟩ := h₀.cycle (by decide)
  have hbid : m.reg.bidAt 0 = 1 := (bidAt_of_getPtgid hm.found).trans hm.bid
  have hlive (id : BitVec 32) : (m.live 0 id).isSome ↔ id = 1 := by
    rw [live_of_getPtgid hm.found, Option.isSome_map, Mem.getBarrier, hm.head, List.find?_cons,
      hm.id]
    by_cases hid : 1 = id
    · simp [hid]
    · rw [decide_eq_false hid]
      exact ⟨fun h => (by cases h), fun h => absurd h.symm hid⟩
  have hblocked : Blocked m 0 := by
    rw [Blocked, hbid]
    exact (hlive 1).mpr rfl
  refine ⟨m, hm.served, hlive, fun m' hrun count => ?_⟩
  rw [← hbid] at hrun
  exact (hblocked.run hm.served hrun).2.2.barrierInit count

end Barrier
