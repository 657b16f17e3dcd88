import KernelRocks.BarrierOwnershipProofs
import KernelRocks.KeyedListProofs

/-! # The registry — what the calls do to the two levels of lists

    `Reg` is the part of the memory the records and their lists of barriers
    are: no lock words, no `total`, no wait queues.  `Stage` is what a call in
    progress has in hand of it.  `RegMove` says once what any turn of any call
    does to both; every invariant of the registry is a case split over it. -/

namespace Barrier

open Interleaving

/-! ## The registry of a memory -/

/-- A `per_tgid` without its lock, and the number of barriers it ever had. -/
structure Record where
  tgid : Pid
  bidCount : BitVec 32
  barrierSize : BitVec 32
  barrierHead : List Addr
  links : Nat

/-- A `barrier_struct` as the registry sees it, and how often it was removed. -/
structure Entry where
  id : BitVec 32
  count : BitVec 64
  unlinked : Nat
  destroyed : Nat

/-- The list of records, the records with their lists, and what was handed out. -/
structure Reg where
  tgidList : List Addr
  record : Addr → Record
  entry : Addr → Entry
  made : List Made
  brk : Addr

/-- What the registry is in a memory. -/
def Mem.reg (m : Mem) : Reg where
  tgidList := m.tgidList
  record p := ⟨(m.ptgid p).tgid, (m.ptgid p).bidCount, (m.ptgid p).barrierSize,
    (m.ptgid p).barrierHead, m.links p⟩
  entry b := ⟨(m.barrier b).id, (m.barrier b).count, (m.hist b).unlinked, (m.hist b).destroyed⟩
  made := m.made
  brk := m.brk

namespace Reg

/-- The first record of a process, as `get_ptgid` finds it. -/
def getPtgid (r : Reg) (tgid : Pid) : Option Addr :=
  KeyedList.lookup (fun p => (r.record p).tgid) r.tgidList tgid

/-- The first barrier with an id, as `get_barrier_from_ptgid` finds it. -/
def getBarrier (r : Reg) (p : Addr) (id : BitVec 32) : Option Addr :=
  KeyedList.lookup (fun b => (r.entry b).id) (r.record p).barrierHead id

/-- A record without barriers at the front of the list. -/
def newPtgid (r : Reg) (tgid : Pid) : Reg :=
  { r with tgidList := r.brk :: r.tgidList
           record := Function.update r.record r.brk ⟨tgid, 0, 0, [], 0⟩
           brk := r.brk + 1 }

/-- The barrier takes the id that `bid_count` has come to, and a fresh address. -/
def link (r : Reg) (p : Addr) (count : BitVec 32) : Reg :=
  let x := r.record p
  { r with record := Function.update r.record p
             ⟨x.tgid, x.bidCount + 1, x.barrierSize + 1, r.brk :: x.barrierHead, x.links + 1⟩
           entry := Function.update r.entry r.brk ⟨x.bidCount, count.signExtend 64, 0, 0⟩
           brk := r.brk + 1 }

/-- `barrier_init` returns the id. -/
def create (r : Reg) (e : Made) : Reg := { r with made := e :: r.made }

/-- `list_del` of the barrier.  Nothing is freed yet. -/
def unlink (r : Reg) (p b : Addr) : Reg :=
  let x := r.record p
  let y := r.entry b
  { r with record := Function.update r.record p
             { x with barrierSize := x.barrierSize - 1, barrierHead := x.barrierHead.erase b }
           entry := Function.update r.entry b { y with unlinked := y.unlinked + 1 } }

/-- `list_del` of a record. -/
def retire (r : Reg) (p : Addr) : Reg := { r with tgidList := r.tgidList.erase p }

/-- `barrier_destroy` is through with the barrier. -/
def destroy (r : Reg) (b : Addr) : Reg :=
  { r with entry := Function.update r.entry b
             { r.entry b with destroyed := (r.entry b).destroyed + 1 } }

end Reg

section Lists
variable {r : Reg}

/-- Linking puts the new barrier in front, on the list of its own record only. -/
theorem head_link (p p' : Addr) (c : BitVec 32) :
    ((r.link p c).record p').barrierHead
      = if p' = p then r.brk :: (r.record p).barrierHead else (r.record p').barrierHead := by
  by_cases hp : p' = p
  · subst hp; simp [Reg.link]
  · simp [Reg.link, hp]

/-- A barrier on a list was there before, or it is the new one. -/
theorem mem_head_link {p p' b : Addr} {c : BitVec 32}
    (hb : b ∈ ((r.link p c).record p').barrierHead) :
    b = r.brk ∧ p' = p ∨ b ∈ (r.record p').barrierHead := by
  rw [head_link] at hb
  split at hb
  · rename_i hp
    rcases List.mem_cons.mp hb with hb | hb
    · exact Or.inl ⟨hb, hp⟩
    · exact Or.inr (hp ▸ hb)
  · exact Or.inr hb

/-- Linking leaves the other barriers alone. -/
theorem entry_link {p b : Addr} {c : BitVec 32} (hb : b ≠ r.brk) :
    (r.link p c).entry b = r.entry b := by
  simp [Reg.link, hb]

/-- The new barrier starts with the id of its record and no removals. -/
theorem entry_link_brk {p : Addr} {c : BitVec 32} :
    (r.link p c).entry r.brk = ⟨(r.record p).bidCount, c.signExtend 64, 0, 0⟩ := by
  simp [Reg.link]

theorem size_unlink (p b : Addr) :
    ((r.unlink p b).record p).barrierSize = (r.record p).barrierSize - 1 := by
  simp [Reg.unlink]

/-- Unlinking shortens one list. -/
theorem head_unlink (p p' b : Addr) :
    ((r.unlink p b).record p').barrierHead
      = if p' = p then (r.record p).barrierHead.erase b else (r.record p').barrierHead := by
  by_cases hp : p' = p
  · subst hp; simp [Reg.unlink]
  · simp [Reg.unlink, hp]

theorem ofNat_sub_one {n : Nat} (h : 0 < n) :
    BitVec.ofNat 32 n - 1 = BitVec.ofNat 32 (n - 1) := by
  obtain ⟨k, rfl⟩ : ∃ k, n = k + 1 := ⟨n - 1, by omega⟩
  rw [BitVec.ofNat_add, Nat.add_sub_cancel]
  exact BitVec.add_sub_cancel _ _

end Lists

section View
variable {m : Mem}

theorem reg_getPtgid (tgid : Pid) : m.getPtgid tgid = m.reg.getPtgid tgid := rfl

theorem reg_getBarrier (p : Addr) (id : BitVec 32) :
    m.getBarrier p id = m.reg.getBarrier p id := rfl

/-- The lock words are no part of the registry. -/
theorem reg_setHolder (l : Lock) (o : Option Task) : (m.setHolder l o).reg = m.reg := by
  simp [Mem.reg]

/-- Writing a barrier other than its id and its count. -/
theorem reg_setBarrier {b : Addr} {x : BarrierStruct} (hi : x.id = (m.barrier b).id)
    (hc : x.count = (m.barrier b).count) : (m.setBarrier b x).reg = m.reg := by
  have h (b' : Addr) : ((m.setBarrier b x).barrier b').id = (m.barrier b').id
      ∧ ((m.setBarrier b x).barrier b').count = (m.barrier b').count := by
    by_cases hb : b' = b
    · subst hb; simp [hi, hc]
    · simp [hb]
  simp only [Mem.reg, h]
  rfl

/-- Writing a history other than its counts of removals. -/
theorem reg_setHist {b : Addr} {x : History} (hu : x.unlinked = (m.hist b).unlinked)
    (hd : x.destroyed = (m.hist b).destroyed) : (m.setHist b x).reg = m.reg := by
  have h (b' : Addr) : ((m.setHist b x).hist b').unlinked = (m.hist b').unlinked
      ∧ ((m.setHist b x).hist b').destroyed = (m.hist b').destroyed := by
    by_cases hb : b' = b
    · subst hb; simp [hu, hd]
    · simp [hb]
  simp only [Mem.reg, h]
  rfl

/-- Nor are the arrivals. -/
theorem reg_arrive (b : Addr) (t : Task) : (m.arrive b t).1.reg = m.reg := by
  unfold Mem.arrive
  dsimp only
  split
  · exact (reg_setHist (by rfl) (by rfl)).trans (reg_setBarrier (by rfl) (by rfl))
  · exact (reg_setHist (by rfl) (by rfl)).trans (reg_setBarrier (by rfl) (by rfl))

/-- The memory with a new record, seen as a registry. -/
theorem reg_newPtgid (hf : Fresh m) (tgid : Pid) : (m.newPtgid tgid).reg = m.reg.newPtgid tgid := by
  have hr : (m.newPtgid tgid).reg.record = (m.reg.newPtgid tgid).record := by
    funext p
    by_cases hp : p = m.brk
    · subst hp
      simp [Mem.reg, Mem.newPtgid, Reg.newPtgid, hf.links m.brk (Nat.le_refl _)]
    · simp [Mem.reg, Mem.newPtgid, Reg.newPtgid, hp]
  exact congrArg (fun f => { (m.reg.newPtgid tgid) with record := f }) hr

/-- The memory with a new barrier. -/
theorem reg_linkBarrier (hf : Fresh m) (p : Addr) (c : BitVec 32) :
    (m.linkBarrier p c).reg = m.reg.link p c := by
  have hr : (m.linkBarrier p c).reg.record = (m.reg.link p c).record := by
    funext p'
    by_cases hp : p' = p
    · subst hp
      simp [Mem.reg, Mem.linkBarrier, Reg.link]
    · simp [Mem.reg, Mem.linkBarrier, Reg.link, hp]
  have he : (m.linkBarrier p c).reg.entry = (m.reg.link p c).entry := by
    funext b
    by_cases hb : b = m.brk
    · subst hb
      simp [Mem.reg, Mem.linkBarrier, Reg.link, initBarrierStruct,
        hf.hist m.brk (Nat.le_refl _), blankHistory]
    · simp [Mem.reg, Mem.linkBarrier, Reg.link, hb]
  exact congrArg₂ (fun f g => { (m.reg.link p c) with record := f, entry := g }) hr he

/-- The memory without a barrier. -/
theorem reg_unlinkBarrier (p b : Addr) : (m.unlinkBarrier p b).reg = m.reg.unlink p b := by
  have hr : (m.unlinkBarrier p b).reg.record = (m.reg.unlink p b).record := by
    funext p'
    by_cases hp : p' = p
    · subst hp
      simp [Mem.reg, Mem.unlinkBarrier, Reg.unlink]
    · simp [Mem.reg, Mem.unlinkBarrier, Reg.unlink, hp]
  have he : (m.unlinkBarrier p b).reg.entry = (m.reg.unlink p b).entry := by
    funext b'
    by_cases hb : b' = b
    · subst hb
      simp [Mem.reg, Mem.unlinkBarrier, Reg.unlink]
    · simp [Mem.reg, Mem.unlinkBarrier, Reg.unlink, hb]
  exact congrArg₂ (fun f g => { (m.reg.unlink p b) with record := f, entry := g }) hr he

/-- Freeing a record that has left its list is not seen. -/
theorem reg_freePtgid (p : Addr) : (m.freePtgid p).reg = m.reg := by
  have hr : (m.freePtgid p).reg.record = m.reg.record := by
    funext p'
    by_cases hp : p' = p
    · subst hp
      simp [Mem.reg, Mem.freePtgid]
    · simp [Mem.reg, Mem.freePtgid, hp]
  exact congrArg (fun f => { m.reg with record := f }) hr

/-- The return of a `barrier_destroy` is counted. -/
theorem reg_setDestroyed (b : Addr) :
    (m.setHist b { m.hist b with destroyed := (m.hist b).destroyed + 1 }).reg
      = m.reg.destroy b := by
  have he : (m.setHist b { m.hist b with destroyed := (m.hist b).destroyed + 1 }).reg.entry
      = (m.reg.destroy b).entry := by
    funext b'
    by_cases hb : b' = b
    · subst hb
      simp [Mem.reg, Reg.destroy]
    · simp [Mem.reg, Reg.destroy, hb]
  exact congrArg (fun f => { m.reg.destroy b with entry := f }) he

end View

/-! ## What a call has in hand -/

/-- `holds p`: a `barrier_init` with record `p` that has not read `bid_count`;
    `checks p n id`: it looks for the id it read when `p` had had `n` barriers;
    `checked p n`: there was none; `linked c p b id`: it has linked `b`.
    `waits b`: a `barrier_wait` that found `b`.  A `barrier_destroy` that found
    `b` on `p` drains it, removes it once its loop is over, has removed it, and in
    between retires the record if `b` was the last one. -/
inductive Stage where
  | idle
  | holds (p : Addr)
  | checks (p : Addr) (seen : Nat) (id : BitVec 32)
  | checked (p : Addr) (seen : Nat)
  | linked (count : BitVec 32) (p b : Addr) (id : BitVec 32)
  | waits (b : Addr)
  | drains (p b : Addr)
  | removes (p b : Addr)
  | retires (p b : Addr)
  | removed (p b : Addr)
  deriving DecidableEq

/-- A waiter waits in either of its loops, a destroyer drains. -/
def Loop.stage : Loop → Addr → Stage
  | .enter, b | .leave _, b => .waits b
  | .drain p, b => .drains p b

/-- The stage of a place. -/
def Pc.stage : Pc → Stage
  | .initUnlockG _ p | .initReadBid _ p => .holds p
  | .getLockHead (.init _ n) p id | .getScan (.init _ n) p id => .checks p n id
  | .getUnlockHead (.init _ n) p none => .checked p n
  | .initAlloc _ p n | .initLockHead _ p n | .initLink _ p n => .checked p n
  | .initUnlockHead c p b id => .linked c p b id
  | .getUnlockHead (.seek .wait) _ (some b) => .waits b
  | .getUnlockHead (.seek .destroy) p (some b) => .drains p b
  | .loopLock l b | .loopTest l b | .loopUnlock l b => l.stage b
  | .sleepPrepare l b | .sleepSchedule l b | .sleepParked l b | .sleepFinish l b => l.stage b
  | .waitEnter b | .waitLeave b _ | .waitWake b _ | .waitUnlock b _ | .waitDone b _ => .waits b
  | .destroyUnlock p b | .destroyLockHead p b | .destroyUnlink p b => .removes p b
  | .destroyLockG p b | .destroyUnlinkPtgid p b => .retires p b
  | .destroyUnlockG p b | .destroyFreePtgid p b | .destroyUnlockHead p b => .removed p b
  | _ => .idle

/-- What a turn of task `t` of process `g` does to the registry and to what its
    call has in hand. -/
inductive RegMove (g : Pid) (m : Mem) (q : Pc) (m' : Mem) (q' : Pc) : Prop where
  | same : m'.reg = m.reg → q'.stage = q.stage → RegMove g m q m' q'
  | drop : m'.reg = m.reg → q'.stage = .idle → RegMove g m q m' q'
  | found (c : BitVec 32) (p : Addr) : q = .initFind c → m.reg.getPtgid g = some p →
      m'.reg = m.reg → q'.stage = .holds p → RegMove g m q m' q'
  | fresh (c : BitVec 32) : q = .initFind c → m.reg.getPtgid g = none →
      m'.reg = m.reg.newPtgid g → q'.stage = .holds m.brk → RegMove g m q m' q'
  | read (p : Addr) : q.stage = .holds p → m'.reg = m.reg →
      q'.stage = .checks p (m.reg.record p).links (m.reg.record p).bidCount → RegMove g m q m' q'
  | check (p : Addr) (n : Nat) (id : BitVec 32) : q.stage = .checks p n id →
      m.reg.getBarrier p id = none → m'.reg = m.reg → q'.stage = .checked p n →
      RegMove g m q m' q'
  | link (c : BitVec 32) (p : Addr) (n : Nat) : q = .initLink c p n →
      m'.reg = m.reg.link p c → q'.stage = .linked c p m.brk (m.reg.record p).bidCount →
      RegMove g m q m' q'
  | create (c : BitVec 32) (p b : Addr) (id : BitVec 32) : q.stage = .linked c p b id →
      m'.reg = m.reg.create ⟨g, id, c, b⟩ → q'.stage = .idle → RegMove g m q m' q'
  | findWait (p b : Addr) (id : BitVec 32) : q = .getScan (.seek .wait) p id →
      m.reg.getBarrier p id = some b → m'.reg = m.reg → q'.stage = .waits b → RegMove g m q m' q'
  | findDestroy (p b : Addr) (id : BitVec 32) : q = .getScan (.seek .destroy) p id →
      m.reg.getBarrier p id = some b → m'.reg = m.reg → q'.stage = .drains p b →
      RegMove g m q m' q'
  | pass (p b : Addr) : q = .loopTest (.drain p) b →
      ¬ (Loop.drain p).sleeps (m.barrier b).total = true →
      m'.reg = m.reg → q'.stage = .removes p b → RegMove g m q m' q'
  | unlink (p b : Addr) : q = .destroyUnlink p b → m'.reg = m.reg.unlink p b →
      q'.stage = (if ((m.reg.unlink p b).record p).barrierSize = 0 then .retires p b
        else .removed p b) → RegMove g m q m' q'
  | retire (p b : Addr) : q.stage = .retires p b → m'.reg = m.reg.retire p →
      q'.stage = .removed p b → RegMove g m q m' q'
  | destroy (p b : Addr) : q.stage = .removed p b → m'.reg = m.reg.destroy b →
      q'.stage = .idle → RegMove g m q m' q'

section RegMove
variable {proc : Task → Pid} {g : Pid} {t : Task} {m m' : Mem} {q q' : Pc} {a : Act}

/-- Taking a lock changes neither. -/
theorem RegMove.takeLock {l : Lock} {q'' : Pc} (h : takeLock t m l q'' = some (m', q'))
    (hq : q''.stage = q.stage) : RegMove g m q m' q' := by
  obtain ⟨-, rfl, rfl⟩ := takeLock_eq_some h
  exact .same (reg_setHolder l _) hq

/-- A call whose record was looked up has nothing in hand yet. -/
theorem stage_afterPtgid (who : Seeker) (id : BitVec 32) (r : Option Addr) :
    (who.afterPtgid id r).stage = .idle := by
  cases who <;> cases r <;> rfl

/-- What the lookup of a barrier found is in hand before its lock is released. -/
theorem stage_afterBarrier (who : Client) (p : Addr) (r : Option Addr) :
    (who.afterBarrier p r).stage = (Pc.getUnlockHead who p r).stage := by
  rcases who with ⟨c, n⟩ | ⟨_ | _⟩ <;> cases r <;> rfl

/-- A call begins with nothing in hand. -/
theorem stage_entry (c : Call) : c.entry.stage = .idle := by
  cases c with
  | init count => rw [Call.entry]; split <;> rfl
  | wait id => rfl
  | destroy id => rfl

/-- The scan of `get_barrier_from_ptgid` for each of its callers. -/
theorem regMove_scan (who : Client) (p : Addr) (id : BitVec 32) :
    RegMove g m (.getScan who p id) m (.getUnlockHead who p (m.getBarrier p id)) := by
  cases h : m.getBarrier p id with
  | none =>
      rcases who with ⟨c, n⟩ | ⟨_ | _⟩
      · exact .check p n id rfl h rfl rfl
      · exact .drop rfl rfl
      · exact .drop rfl rfl
  | some b =>
      rcases who with ⟨c, n⟩ | ⟨_ | _⟩
      · exact .drop rfl rfl
      · exact .findWait p b id rfl h rfl rfl
      · exact .findDestroy p b id rfl h rfl rfl

/-- **ONE TURN, SEEN BY THE REGISTRY**, place by place. -/
theorem next_regMove (hf : Fresh m) (h : next proc t m q = some (m', q')) :
    RegMove (proc t) m q m' q' := by
  cases q with
  | user r => cases h
  | oops i => cases h
  | initLockG c => exact .takeLock h rfl
  | initLockHead c p n => exact .takeLock h rfl
  | getLockG who id => exact .takeLock h rfl
  | getLockHead who p id =>
      refine .takeLock h ?_
      rcases who with ⟨c, n⟩ | ⟨_ | _⟩ <;> rfl
  | loopLock l b => exact .takeLock h rfl
  | destroyLockHead p b => exact .takeLock h rfl
  | destroyLockG p b => exact .takeLock h rfl
  | initUnlockG c p => cases h; exact .same (reg_setHolder _ _) rfl
  | getUnlockG who id r => cases h; exact .drop (reg_setHolder _ _) (stage_afterPtgid who id r)
  | getUnlockHead who p r => cases h; exact .same (reg_setHolder _ _) (stage_afterBarrier who p r)
  | loopUnlock l b => cases h; exact .same (reg_setHolder _ _) rfl
  | waitUnlock b k => cases h; exact .same (reg_setHolder _ _) rfl
  | destroyUnlock p b => cases h; exact .same (reg_setHolder _ _) rfl
  | destroyUnlockG p b => cases h; exact .same (reg_setHolder _ _) rfl
  | initFind c =>
      cases h
      unfold Mem.findOrNewPtgid
      split
      · rename_i p hp
        exact .found c p rfl hp rfl rfl
      · rename_i hp
        exact .fresh c rfl hp (reg_newPtgid hf _) rfl
  | initReadBid c p => cases h; exact .read p rfl rfl rfl
  | initAlloc c p n => cases h; exact .same rfl rfl
  | initLink c p n => cases h; exact .link c p n rfl (reg_linkBarrier hf p c) rfl
  | initUnlockHead c p b id =>
      cases h
      have hr : (m.spinUnlock (.barrierHead p)).reg = m.reg := reg_setHolder _ _
      exact .create c p b id rfl (congrArg (Reg.create · ⟨proc t, id, c, b⟩) hr) rfl
  | getFind who id => cases h; exact .same rfl rfl
  | getScan who p id => cases h; exact regMove_scan who p id
  | loopTest l b =>
      cases h
      split
      · exact .same rfl rfl
      · rename_i hs
        cases l with
        | enter => exact .same rfl rfl
        | leave k => exact .same rfl rfl
        | drain p => exact .pass p b rfl hs rfl rfl
  | sleepPrepare l b => cases h; exact .same (reg_setBarrier (by rfl) (by rfl)) rfl
  | sleepSchedule l b => cases h; exact .same rfl (by split <;> rfl)
  | sleepParked l b =>
      obtain ⟨rfl, rfl⟩ := next_sleepParked h
      exact .same rfl rfl
  | sleepFinish l b => cases h; exact .same (reg_setBarrier (by rfl) (by rfl)) rfl
  | waitEnter b => cases h; exact .same (reg_arrive b t) (by split <;> rfl)
  | waitLeave b k =>
      cases h
      refine .same ((reg_setHist ?_ ?_).trans (reg_setBarrier ?_ ?_)) (by split <;> rfl)
      · rfl
      · rfl
      · rfl
      · rfl
  | waitWake b k => cases h; exact .same (reg_setBarrier (by rfl) (by rfl)) rfl
  | waitDone b k => cases h; exact .drop (reg_setHist (by rfl) (by rfl)) rfl
  | destroyUnlink p b =>
      cases h
      refine .unlink p b rfl (reg_unlinkBarrier p b) ?_
      rw [← reg_unlinkBarrier p b]
      show (if ((m.unlinkBarrier p b).ptgid p).barrierSize = 0 then Pc.destroyLockG p b
        else Pc.destroyUnlockHead p b).stage = if ((m.unlinkBarrier p b).ptgid p).barrierSize = 0
          then Stage.retires p b else Stage.removed p b
      split <;> rfl
  | destroyUnlinkPtgid p b => cases h; exact .retire p b rfl rfl rfl
  | destroyFreePtgid p b => cases h; exact .same (reg_freePtgid p) rfl
  | destroyUnlockHead p b =>
      cases h
      have hr : (m.spinUnlock (.barrierHead p)).reg = m.reg := reg_setHolder _ _
      exact .destroy p b rfl (hr ▸ reg_setDestroyed b) rfl

/-- **EVERY ACT**: calls, wake-ups and returns of `schedule()` included. -/
theorem exec_regMove (hf : Fresh m) (h : exec proc t m q a = some (m', q')) :
    RegMove (proc t) m q m' q' := by
  rcases exec_cases h with ⟨-, h⟩ | ⟨rfl, c, r, -, rfl, rfl⟩ | ⟨rfl, l, b, -, hq, rfl⟩ |
    ⟨rfl, p, b, -, rfl, -, rfl⟩
  · exact next_regMove hf h
  · exact .drop rfl (stage_entry c)
  · refine .same rfl ?_
    rcases hq with rfl | rfl <;> rfl
  · exact .drop rfl rfl

end RegMove

/-! ## The invariant rule of the registry -/

section Rule
variable {m : Mem}

/-- What is not handed out yet. -/
theorem Fresh.record_brk (hf : Fresh m) : m.reg.record m.reg.brk = ⟨0, 0, 0, [], 0⟩ := by
  show m.reg.record m.brk = _
  simp [Mem.reg, hf.ptgid _ (Nat.le_refl _), hf.links _ (Nat.le_refl _), blankPtgid]

/-- An address that is not handed out is on no list. -/
theorem Fresh.brk_not_mem (hf : Fresh m) (p : Addr) :
    m.reg.brk ∉ (m.reg.record p).barrierHead :=
  fun hb => Nat.lt_irrefl _ (hf.barrierHead p _ hb)

/-- Nor has it ever been removed. -/
theorem Fresh.entry_brk (hf : Fresh m) : (m.reg.entry m.reg.brk).unlinked = 0 := by
  show (m.hist m.brk).unlinked = 0
  rw [hf.hist _ (Nat.le_refl _)]
  rfl

/-- What the calls under way have in hand. -/
def stages (s : State) : Task → Stage := fun u => (s.loc u).stage

/-- **REGISTRY RULE**: an assertion about the registry and the stages of all tasks
    that every `RegMove` of a turn meeting `C` keeps. -/
theorem reach_reg {proc : Task → Pid} {C : State → Task → Act → Prop}
    {I : Reg → (Task → Stage) → Prop} (h0 : I Mem.initial.reg fun _ => .idle)
    (step : ∀ s t a m' q', ReachWhen proc C s → C s t a → I s.mem.reg (stages s) →
      RegMove (proc t) s.mem (s.loc t) m' q' →
      I m'.reg (Function.update (stages s) t q'.stage))
    {s : State} (h : ReachWhen proc C s) : I s.mem.reg (stages s) := by
  refine Reach.invariant (I := fun s => I s.mem.reg (stages s)) h0 ?_ h
  intro s s' t a hr hI hC hs
  obtain ⟨m', q', he, rfl⟩ := turn_eq_some hs
  have hstep := step s t a m' q' hr hC hI (exec_regMove (reach_owns hr).1 he)
  have hloc : stages ⟨m', Function.update s.loc t q'⟩ = Function.update (stages s) t q'.stage := by
    funext u
    exact Function.apply_update (fun _ => Pc.stage) s.loc t q' u
  rw [hloc]
  exact hstep

end Rule

end Barrier
