import KernelRocks.BarrierMachineProofs

/-! # Addresses in use and lock ownership

    The two facts every later proof about the barrier calls starts from, for
    every run of any calls of any processes:

    * pointers point below the allocator's mark, and nothing was written above
      it (`Fresh`, `Bounded`);
    * a task holds exactly the locks its place in the code says (`Owns`).

    Both are proved task by task (`Reach.modular`); `LockMove` says once what a
    turn can do to the lock words. -/

namespace Barrier

open Interleaving

/-! ## What a place in the code points to and holds -/

/-- The record a drain loop will go back to. -/
def Loop.addrs : Loop → List Addr
  | .drain p => [p]
  | _ => []

/-- The records and barriers a call has pointers to. -/
def Pc.addrs : Pc → List Addr
  | .user _ | .initLockG _ | .initFind _ | .getLockG _ _ | .getFind _ _ => []
  | .oops inside => inside.toList
  | .initUnlockG _ p | .initReadBid _ p => [p]
  | .initAlloc _ p _ | .initLockHead _ p _ | .initLink _ p _ => [p]
  | .initUnlockHead _ p b _ => [p, b]
  | .getUnlockG _ _ r => r.toList
  | .getLockHead _ p _ | .getScan _ p _ => [p]
  | .getUnlockHead _ p r => p :: r.toList
  | .loopLock l b | .loopTest l b | .loopUnlock l b => b :: l.addrs
  | .sleepPrepare l b | .sleepSchedule l b | .sleepParked l b | .sleepFinish l b => b :: l.addrs
  | .waitEnter b => [b]
  | .waitLeave b _ | .waitWake b _ | .waitUnlock b _ | .waitDone b _ => [b]
  | .destroyUnlock p b | .destroyLockHead p b | .destroyUnlink p b | .destroyLockG p b => [p, b]
  | .destroyUnlinkPtgid p b | .destroyUnlockG p b => [p, b]
  | .destroyFreePtgid p b | .destroyUnlockHead p b => [p, b]

/-- The locks a call holds, the last one taken first. -/
def Pc.held : Pc → List Lock
  | .oops (some p) => [.barrierHead p]
  | .initFind _ | .initUnlockG _ _ | .getFind _ _ | .getUnlockG _ _ _ => [.gTgidList]
  | .initLink _ p _ | .initUnlockHead _ p _ _ => [.barrierHead p]
  | .getScan _ p _ | .getUnlockHead _ p _ => [.barrierHead p]
  | .loopTest _ b | .loopUnlock _ b => [.lockTotal b]
  | .waitEnter b | .waitLeave b _ | .waitWake b _ | .waitUnlock b _ => [.lockTotal b]
  | .destroyUnlock _ b => [.lockTotal b]
  | .destroyUnlink p _ | .destroyLockG p _ => [.barrierHead p]
  | .destroyUnlinkPtgid p _ | .destroyUnlockG p _ => [.gTgidList, .barrierHead p]
  | .destroyFreePtgid p _ | .destroyUnlockHead p _ => [.barrierHead p]
  | _ => []

/-- The lock a call is about to take. -/
def Pc.spinsOn : Pc → Option Lock
  | .initLockG _ | .getLockG _ _ | .destroyLockG _ _ => some .gTgidList
  | .initLockHead _ p _ | .getLockHead _ p _ | .destroyLockHead p _ => some (.barrierHead p)
  | .loopLock _ b => some (.lockTotal b)
  | _ => none

/-- The argument `barrier_init` has checked at 139. -/
def Pc.initCount : Pc → Option (BitVec 32)
  | .initLockG c | .initFind c | .initUnlockG c _ | .initReadBid c _ => some c
  | .getLockHead (.init c _) _ _ | .getScan (.init c _) _ _ => some c
  | .getUnlockHead (.init c _) _ _ => some c
  | .initAlloc c _ _ | .initLockHead c _ _ | .initLink c _ _ => some c
  | .initUnlockHead c _ _ _ => some c
  | _ => none

/-- `held` at the point where a lock is about to be released, and at the
    continuations of the shared code. -/
@[simp] theorem held_afterPtgid (who : Seeker) (id : BitVec 32) (r : Option Addr) :
    (who.afterPtgid id r).held = [] := by
  cases who <;> cases r <;> rfl

@[simp] theorem held_afterBarrier (who : Client) (p : Addr) (r : Option Addr) :
    (who.afterBarrier p r).held = [] := by
  rcases who with ⟨c, n⟩ | ⟨_ | _⟩ <;> cases r <;> rfl

/-- A loop is left with the lock of `total` still held. -/
@[simp] theorem held_exit (l : Loop) (b : Addr) : (l.exit b).held = [.lockTotal b] := by
  cases l <;> rfl

/-- A call begins with no lock. -/
@[simp] theorem held_entry (c : Call) : c.entry.held = [] := by
  cases c with
  | init count => rw [Call.entry]; split <;> rfl
  | wait id => rfl
  | destroy id => rfl

/-- `get_ptgid` hands on what it found, and nothing else. -/
theorem addrs_afterPtgid {who : Seeker} {id : BitVec 32} {r : Option Addr} {a : Addr}
    (h : a ∈ (who.afterPtgid id r).addrs) : a ∈ r.toList := by
  cases who <;> cases r <;> simp_all [Seeker.afterPtgid, Pc.addrs]

/-- `get_barrier_from_ptgid` hands on the record and what it found on its list. -/
theorem addrs_afterBarrier {who : Client} {p : Addr} {r : Option Addr} {a : Addr}
    (h : a ∈ (who.afterBarrier p r).addrs) : a ∈ p :: r.toList := by
  rcases who with ⟨c, n⟩ | ⟨_ | _⟩ <;> cases r <;>
    simp_all [Client.afterBarrier, Pc.addrs, Loop.addrs, or_comm]

/-- Behind a loop the pointers are those the loop had. -/
theorem addrs_exit {l : Loop} {b a : Addr} (h : a ∈ (l.exit b).addrs) : a ∈ b :: l.addrs := by
  cases l <;> simp_all [Loop.exit, Pc.addrs, Loop.addrs, or_comm]

/-- A call begins with no pointer. -/
theorem addrs_entry (c : Call) : c.entry.addrs = [] := by
  cases c with
  | init count => rw [Call.entry]; split <;> rfl
  | wait id => rfl
  | destroy id => rfl

/-! ## Nothing above the allocator's mark -/

/-- Addresses from `brk` on are untouched and in no list. -/
structure Fresh (m : Mem) : Prop where
  ptgid : ∀ a, m.brk ≤ a → m.ptgid a = blankPtgid
  barrier : ∀ a, m.brk ≤ a → m.barrier a = blankBarrier
  hist : ∀ a, m.brk ≤ a → m.hist a = blankHistory
  links : ∀ a, m.brk ≤ a → m.links a = 0
  tgidList : ∀ p ∈ m.tgidList, p < m.brk
  barrierHead : ∀ p, ∀ b ∈ (m.ptgid p).barrierHead, b < m.brk

/-- At load time nothing is in use. -/
theorem fresh_initial : Fresh Mem.initial where
  ptgid _ _ := rfl
  barrier _ _ := rfl
  hist _ _ := rfl
  links _ _ := rfl
  tgidList _ h := nomatch h
  barrierHead _ _ h := nomatch h

/-- A write to a record that was handed out. -/
theorem Fresh.setPtgid {m : Mem} (h : Fresh m) {p : Addr} {r : PerTgid} (hp : p < m.brk)
    (hr : ∀ b ∈ r.barrierHead, b < m.brk) : Fresh (m.setPtgid p r) where
  ptgid a ha := by
    have hne : a ≠ p := fun e => absurd hp (by rw [← e]; exact Nat.not_lt.mpr ha)
    show Function.update m.ptgid p r a = blankPtgid
    rw [Function.update_of_ne hne]
    exact h.ptgid a ha
  barrier := h.barrier
  hist := h.hist
  links := h.links
  tgidList := h.tgidList
  barrierHead p' b hb := by
    by_cases hpp : p' = p
    · subst hpp
      exact hr b (by simpa using hb)
    · exact h.barrierHead p' b (by simpa [hpp] using hb)

/-- A write to a barrier that was handed out. -/
theorem Fresh.setBarrier {m : Mem} (h : Fresh m) {b : Addr} {x : BarrierStruct}
    (hb : b < m.brk) : Fresh (m.setBarrier b x) where
  ptgid := h.ptgid
  barrier a ha := by
    have hne : a ≠ b := fun e => absurd hb (by rw [← e]; exact Nat.not_lt.mpr ha)
    show Function.update m.barrier b x a = blankBarrier
    rw [Function.update_of_ne hne]
    exact h.barrier a ha
  hist := h.hist
  links := h.links
  tgidList := h.tgidList
  barrierHead := h.barrierHead

/-- A note about such a barrier. -/
theorem Fresh.setHist {m : Mem} (h : Fresh m) {b : Addr} {x : History}
    (hb : b < m.brk) : Fresh (m.setHist b x) where
  ptgid := h.ptgid
  barrier := h.barrier
  hist a ha := by
    have hne : a ≠ b := fun e => absurd hb (by rw [← e]; exact Nat.not_lt.mpr ha)
    show Function.update m.hist b x a = blankHistory
    rw [Function.update_of_ne hne]
    exact h.hist a ha
  links := h.links
  tgidList := h.tgidList
  barrierHead := h.barrierHead

/-- The address a lock word is in. -/
def Lock.addrs : Lock → List Addr
  | .gTgidList => []
  | .barrierHead p => [p]
  | .lockTotal b => [b]

/-- Taking or releasing a lock is a write to the structure it is in. -/
theorem Fresh.setHolder {m : Mem} (h : Fresh m) {l : Lock} {o : Option Task}
    (hl : ∀ a ∈ l.addrs, a < m.brk) : Fresh (m.setHolder l o) := by
  cases l with
  | gTgidList => exact ⟨h.ptgid, h.barrier, h.hist, h.links, h.tgidList, h.barrierHead⟩
  | barrierHead p =>
      exact h.setPtgid (hl p (List.mem_singleton_self p)) (h.barrierHead p)
  | lockTotal b => exact h.setBarrier (hl b (List.mem_singleton_self b))

/-- Raising the mark past an address that is about to be written. -/
theorem Fresh.newPtgid {m : Mem} (h : Fresh m) (tgid : Pid) : Fresh (m.newPtgid tgid) where
  ptgid a ha := by
    have hne : a ≠ m.brk := Nat.ne_of_gt ha
    show Function.update m.ptgid m.brk _ a = blankPtgid
    rw [Function.update_of_ne hne]
    exact h.ptgid a (Nat.le_of_lt ha)
  barrier a ha := h.barrier a (Nat.le_of_lt ha)
  hist a ha := h.hist a (Nat.le_of_lt ha)
  links a ha := h.links a (Nat.le_of_lt ha)
  tgidList p hp := by
    rcases List.mem_cons.mp hp with rfl | hp
    · exact Nat.lt_succ_self _
    · exact Nat.lt_succ_of_lt (h.tgidList p hp)
  barrierHead p b hb := by
    by_cases hpp : p = m.brk
    · subst hpp
      simp [Mem.newPtgid] at hb
    · exact Nat.lt_succ_of_lt (h.barrierHead p b (by simpa [Mem.newPtgid, hpp] using hb))

/-- A new barrier takes the mark, and a record that was handed out lists it. -/
theorem Fresh.linkBarrier {m : Mem} (h : Fresh m) {p : Addr} (hp : p < m.brk)
    (c : BitVec 32) : Fresh (m.linkBarrier p c) where
  ptgid a ha := by
    have hne : a ≠ p := fun e => absurd (Nat.lt_trans hp ha) (by rw [e]; exact Nat.lt_irrefl _)
    show Function.update m.ptgid p _ a = blankPtgid
    rw [Function.update_of_ne hne]
    exact h.ptgid a (Nat.le_of_lt ha)
  barrier a ha := by
    have hne : a ≠ m.brk := Nat.ne_of_gt ha
    show Function.update m.barrier m.brk _ a = blankBarrier
    rw [Function.update_of_ne hne]
    exact h.barrier a (Nat.le_of_lt ha)
  hist a ha := h.hist a (Nat.le_of_lt ha)
  links a ha := by
    have hne : a ≠ p := fun e => absurd (Nat.lt_trans hp ha) (by rw [e]; exact Nat.lt_irrefl _)
    show Function.update m.links p _ a = 0
    rw [Function.update_of_ne hne]
    exact h.links a (Nat.le_of_lt ha)
  tgidList p' hp' := Nat.lt_succ_of_lt (h.tgidList p' hp')
  barrierHead p' b hb := by
    by_cases hpp : p' = p
    · subst hpp
      have hb' : b = m.brk ∨ b ∈ (m.ptgid p').barrierHead := by
        simpa [Mem.linkBarrier] using hb
      rcases hb' with rfl | hb'
      · exact Nat.lt_succ_self _
      · exact Nat.lt_succ_of_lt (h.barrierHead p' b hb')
    · exact Nat.lt_succ_of_lt (h.barrierHead p' b (by simpa [Mem.linkBarrier, hpp] using hb))

/-- What `get_ptgid` finds is on the list and belongs to the process. -/
theorem getPtgid_mem {m : Mem} {tgid : Pid} {p : Addr} (h : m.getPtgid tgid = some p) :
    p ∈ m.tgidList ∧ (m.ptgid p).tgid = tgid := by
  refine ⟨List.mem_of_find?_eq_some h, ?_⟩
  have := List.find?_some h
  simpa using this

/-- What `get_barrier_from_ptgid` finds is on the list of the record and has the id. -/
theorem getBarrier_mem {m : Mem} {p : Addr} {id : BitVec 32} {b : Addr}
    (h : m.getBarrier p id = some b) :
    b ∈ (m.ptgid p).barrierHead ∧ (m.barrier b).id = id := by
  refine ⟨List.mem_of_find?_eq_some h, ?_⟩
  have := List.find?_some h
  simpa using this

/-! ## What a turn does to the lock words -/

/-- A lock that is taken was free. -/
theorem takeLock_eq_some {t : Task} {m m' : Mem} {l : Lock} {q q' : Pc}
    (h : takeLock t m l q = some (m', q')) :
    m.holder l = none ∧ m' = m.setHolder l (some t) ∧ q' = q := by
  obtain ⟨m1, h1, h2⟩ := Option.map_eq_some_iff.mp h
  obtain ⟨hn, rfl⟩ := Mem.spinLock_eq_some h1
  cases h2
  exact ⟨hn, rfl, rfl⟩

/-- A turn takes the lock it spins on, releases the lock taken last, or leaves
    every lock word as it is. -/
inductive LockMove (t : Task) (m : Mem) (q : Pc) (m' : Mem) (q' : Pc) : Prop where
  | take (l : Lock) : q.spinsOn = some l → m.holder l = none → q'.held = l :: q.held →
      (∀ l', m'.holder l' = if l' = l then some t else m.holder l') → LockMove t m q m' q'
  | drop (l : Lock) : q.held = l :: q'.held →
      (∀ l', m'.holder l' = if l' = l then none else m.holder l') → LockMove t m q m' q'
  | keep : q'.held = q.held → (∀ l', m'.holder l' = m.holder l') → LockMove t m q m' q'

/-- The lock a place spins on is the one its turn takes. -/
theorem lockMove_takeLock {t : Task} {m m' : Mem} {l : Lock} {q q' q'' : Pc}
    (h : takeLock t m l q'' = some (m', q')) (hs : q.spinsOn = some l)
    (hh : q''.held = l :: q.held) : LockMove t m q m' q' := by
  obtain ⟨hn, rfl, rfl⟩ := takeLock_eq_some h
  exact .take l hs hn hh fun l' => Mem.holder_setHolder m l l' _

/-- Writing a record or a barrier without its lock word. -/
theorem holder_setPtgid {m : Mem} {p : Addr} {r : PerTgid}
    (h : r.barrierHeadLock = (m.ptgid p).barrierHeadLock) (l : Lock) :
    (m.setPtgid p r).holder l = m.holder l := by
  cases l with
  | gTgidList => rfl
  | lockTotal b => rfl
  | barrierHead p' =>
      by_cases hp : p' = p
      · subst hp; simpa [Mem.holder] using h
      · simp [Mem.holder, hp]

theorem holder_setBarrier {m : Mem} {b : Addr} {x : BarrierStruct}
    (h : x.lockTotal = (m.barrier b).lockTotal) (l : Lock) :
    (m.setBarrier b x).holder l = m.holder l := by
  cases l with
  | gTgidList => rfl
  | barrierHead p => rfl
  | lockTotal b' =>
      by_cases hb : b' = b
      · subst hb; simpa [Mem.holder] using h
      · simp [Mem.holder, hb]

@[simp] theorem holder_setHist (m : Mem) (b : Addr) (h : History) (l : Lock) :
    (m.setHist b h).holder l = m.holder l := by
  cases l <;> rfl

/-- A new record comes with its lock free, as the untouched memory has it. -/
theorem holder_newPtgid {m : Mem} (hf : Fresh m) (tgid : Pid) (l : Lock) :
    (m.newPtgid tgid).holder l = m.holder l := by
  cases l with
  | gTgidList => rfl
  | lockTotal b => rfl
  | barrierHead p =>
      by_cases hp : p = m.brk
      · subst hp
        simp [Mem.newPtgid, Mem.holder, hf.ptgid m.brk (Nat.le_refl _), blankPtgid]
      · simp [Mem.newPtgid, Mem.holder, hp]

/-- So does a new barrier. -/
theorem holder_linkBarrier {m : Mem} (hf : Fresh m) (p : Addr) (c : BitVec 32) (l : Lock) :
    (m.linkBarrier p c).holder l = m.holder l := by
  cases l with
  | gTgidList => rfl
  | lockTotal b =>
      by_cases hb : b = m.brk
      · subst hb
        simp [Mem.linkBarrier, Mem.holder, initBarrierStruct,
          hf.barrier m.brk (Nat.le_refl _), blankBarrier]
      · simp [Mem.linkBarrier, Mem.holder, hb]
  | barrierHead p' =>
      by_cases hp : p' = p
      · subst hp; simp [Mem.linkBarrier, Mem.holder]
      · simp [Mem.linkBarrier, Mem.holder, hp]

/-- `list_del` leaves the lock words alone. -/
theorem holder_unlinkBarrier (m : Mem) (p b : Addr) (l : Lock) :
    (m.unlinkBarrier p b).holder l = m.holder l := by
  rw [Mem.unlinkBarrier, holder_setHist]
  refine (holder_setPtgid ?_ l).trans (holder_setBarrier ?_ l)
  · rfl
  · rfl

theorem holder_arrive (m : Mem) (b : Addr) (t : Task) (l : Lock) :
    (m.arrive b t).1.holder l = m.holder l := by
  unfold Mem.arrive
  dsimp only
  split
  · rw [holder_setHist]
    apply holder_setBarrier
    rfl
  · rw [holder_setHist]
    apply holder_setBarrier
    rfl

/-- A parked task runs again once it is off the wait queue. -/
theorem next_sleepParked {proc : Task → Pid} {t : Task} {m m' : Mem} {l : Loop} {b : Addr} {q' : Pc}
    (h : next proc t m (.sleepParked l b) = some (m', q')) : m' = m ∧ q' = .sleepFinish l b := by
  rw [next] at h
  split at h
  · cases h
  · cases h
    exact ⟨rfl, rfl⟩

/-- **ONE TURN AND THE LOCKS**, place by place. -/
theorem next_lockMove {proc : Task → Pid} {t : Task} {m m' : Mem} {q q' : Pc} (hf : Fresh m)
    (h : next proc t m q = some (m', q')) : LockMove t m q m' q' := by
  cases q with
  | user r => cases h
  | oops i => cases h
  -- the seven places where a lock is taken
  | initLockG c => exact lockMove_takeLock h rfl rfl
  | initLockHead c p n => exact lockMove_takeLock h rfl rfl
  | getLockG who id => exact lockMove_takeLock h rfl rfl
  | getLockHead who p id => exact lockMove_takeLock h rfl rfl
  | loopLock l b => exact lockMove_takeLock h rfl rfl
  | destroyLockHead p b => exact lockMove_takeLock h rfl rfl
  | destroyLockG p b => exact lockMove_takeLock h rfl rfl
  -- the nine places where one is released
  | initUnlockG c p => cases h; exact .drop _ rfl (Mem.holder_setHolder m _ · _)
  | initUnlockHead c p b id => cases h; exact .drop _ rfl (Mem.holder_setHolder m _ · _)
  | getUnlockG who id r =>
      cases h
      exact .drop _ (by rw [held_afterPtgid]; rfl) (Mem.holder_setHolder m _ · _)
  | getUnlockHead who p r =>
      cases h
      exact .drop _ (by rw [held_afterBarrier]; rfl) (Mem.holder_setHolder m _ · _)
  | loopUnlock l b => cases h; exact .drop _ rfl (Mem.holder_setHolder m _ · _)
  | waitUnlock b k => cases h; exact .drop _ rfl (Mem.holder_setHolder m _ · _)
  | destroyUnlock p b => cases h; exact .drop _ rfl (Mem.holder_setHolder m _ · _)
  | destroyUnlockG p b => cases h; exact .drop _ rfl (Mem.holder_setHolder m _ · _)
  | destroyUnlockHead p b =>
      cases h
      refine .drop _ rfl fun l' => ?_
      rw [holder_setHist]
      exact Mem.holder_setHolder m _ l' _
  -- everywhere else the lock words stay
  | initFind c =>
      cases h
      refine .keep rfl fun l' => ?_
      unfold Mem.findOrNewPtgid
      split
      · rfl
      · exact holder_newPtgid hf _ l'
  | initReadBid c p => cases h; exact .keep rfl fun _ => rfl
  | initAlloc c p n => cases h; exact .keep rfl fun _ => rfl
  | initLink c p n => cases h; exact .keep rfl (holder_linkBarrier hf p c)
  | getFind who id => cases h; exact .keep rfl fun _ => rfl
  | getScan who p id => cases h; exact .keep rfl fun _ => rfl
  | loopTest l b =>
      cases h
      refine .keep ?_ fun _ => rfl
      split
      · rfl
      · exact held_exit l b
  | sleepPrepare l b => cases h; exact .keep rfl (holder_setBarrier (by rfl))
  | sleepSchedule l b => cases h; exact .keep (by split <;> rfl) fun _ => rfl
  | sleepParked l b =>
      obtain ⟨rfl, rfl⟩ := next_sleepParked h
      exact .keep rfl fun _ => rfl
  | sleepFinish l b => cases h; exact .keep rfl (holder_setBarrier (by rfl))
  | waitEnter b => cases h; exact .keep (by split <;> rfl) (holder_arrive m b t)
  | waitLeave b k =>
      cases h
      refine .keep (by split <;> rfl) fun l' => ?_
      rw [Mem.depart, holder_setHist]
      apply holder_setBarrier
      rfl
  | waitWake b k => cases h; exact .keep rfl (holder_setBarrier (by rfl))
  | waitDone b k => cases h; exact .keep rfl (holder_setHist m _ _)
  | destroyUnlink p b =>
      cases h; exact .keep (by split <;> rfl) (holder_unlinkBarrier m p b)
  | destroyUnlinkPtgid p b => cases h; exact .keep rfl fun l' => by cases l' <;> rfl
  | destroyFreePtgid p b => cases h; exact .keep rfl (holder_setPtgid (by rfl))

/-- The turns other than running code: entering the kernel, a return of `schedule()` without
    a wake-up, a fault. -/
theorem exec_cases {proc : Task → Pid} {t : Task} {m m' : Mem} {q q' : Pc} {a : Act}
    (h : exec proc t m q a = some (m', q')) :
    (a = .run ∧ next proc t m q = some (m', q'))
      ∨ (m' = m ∧ ∃ c r, a = .call c ∧ q = .user r ∧ q' = c.entry)
      ∨ (m' = m ∧ ∃ l b, a = .signal ∧ (q = .sleepSchedule l b ∨ q = .sleepParked l b)
          ∧ q' = .sleepFinish l b)
      ∨ (m' = m ∧ ∃ p b, a = .fault ∧ q = .destroyUnlink p b
          ∧ b ∉ (m.ptgid p).barrierHead ∧ q' = .oops (some p)) := by
  cases a with
  | run => exact Or.inl ⟨rfl, h⟩
  | call c =>
      cases q <;> cases h
      rename_i r
      exact Or.inr (Or.inl ⟨rfl, c, r, rfl, rfl, rfl⟩)
  | signal =>
      cases q <;> cases h
      · rename_i l b
        exact Or.inr (Or.inr (Or.inl ⟨rfl, l, b, rfl, Or.inl rfl, rfl⟩))
      · rename_i l b
        exact Or.inr (Or.inr (Or.inl ⟨rfl, l, b, rfl, Or.inr rfl, rfl⟩))
  | fault =>
      cases q <;> try cases h
      rename_i p b
      rw [exec] at h
      split at h
      · cases h
      · rename_i hb
        cases h
        exact Or.inr (Or.inr (Or.inr ⟨rfl, p, b, rfl, rfl, hb, rfl⟩))

/-! ## The invariant of a task -/

/-- Pointers are below the mark, and the lock words name the task exactly for
    the locks its place in the code holds. -/
structure Owns (t : Task) (m : Mem) (q : Pc) : Prop where
  bounded : ∀ a ∈ q.addrs, a < m.brk
  holds : ∀ l, m.holder l = some t ↔ l ∈ q.held

/-- No call holds a lock twice. -/
theorem held_nodup (q : Pc) : q.held.Nodup := by
  cases q with
  | oops inside => cases inside <;> simp [Pc.held]
  | _ => simp [Pc.held]

/-- A turn keeps the account of its own task. -/
theorem LockMove.own {t : Task} {m m' : Mem} {q q' : Pc} (h : LockMove t m q m' q')
    (ho : ∀ l, m.holder l = some t ↔ l ∈ q.held) (l : Lock) :
    m'.holder l = some t ↔ l ∈ q'.held := by
  cases h with
  | take k _ hn hh hm =>
      rw [hm l, hh, List.mem_cons]
      by_cases hl : l = k
      · simp [hl]
      · simp [hl, ho l]
  | drop k hh hm =>
      rw [hm l]
      have hnd := held_nodup q
      rw [hh] at hnd
      by_cases hl : l = k
      · subst hl
        simp [(List.nodup_cons.mp hnd).1]
      · simp [hl, ho l, hh]
  | keep hh hm => rw [hm l, hh, ho l]

/-- A lock word that names `u` is not touched by a turn of `t`. -/
theorem LockMove.other {t u : Task} {m m' : Mem} {q q' : Pc} (h : LockMove t m q m' q')
    (htu : t ≠ u) (ho : ∀ l, m.holder l = some t ↔ l ∈ q.held) (l : Lock) :
    m'.holder l = some u ↔ m.holder l = some u := by
  cases h with
  | take k _ hn hh hm =>
      rw [hm l]
      by_cases hl : l = k
      · subst hl
        simp [hn, htu]
      · simp [hl]
  | drop k hh hm =>
      rw [hm l]
      by_cases hl : l = k
      · subst hl
        have : m.holder l = some t := (ho l).mpr (by rw [hh]; exact List.mem_cons_self ..)
        simp [this, htu]
      · simp [hl]
  | keep hh hm => rw [hm l]

/-- Every act of a task is such a move. -/
theorem exec_lockMove {proc : Task → Pid} {t : Task} {m m' : Mem} {q q' : Pc} {a : Act}
    (hf : Fresh m) (h : exec proc t m q a = some (m', q')) : LockMove t m q m' q' := by
  rcases exec_cases h with ⟨-, h⟩ | ⟨rfl, c, r, -, rfl, rfl⟩ | ⟨rfl, l, b, -, hq, rfl⟩ |
    ⟨rfl, p, b, -, rfl, -, rfl⟩
  · exact next_lockMove hf h
  · exact .keep (held_entry c) fun _ => rfl
  · refine .keep ?_ fun _ => rfl
    rcases hq with rfl | rfl <;> rfl
  · exact .keep rfl fun _ => rfl

/-! ## What a turn does to the mark -/

/-- The pointers of the next place in the code are old ones, or were read from a
    list, or were just handed out. -/
structure Bounds (m : Mem) (m' : Mem) (q' : Pc) : Prop where
  fresh : Fresh m'
  brk : m.brk ≤ m'.brk
  addrs : ∀ a ∈ q'.addrs, a < m'.brk

/-- Taking a lock moves no mark. -/
theorem Bounds.takeLock {t : Task} {m m' : Mem} {l : Lock} {q q' : Pc}
    (h : takeLock t m l q = some (m', q')) (hf : Fresh m) (hl : ∀ a ∈ l.addrs, a < m.brk)
    (hq : ∀ a ∈ q.addrs, a < m.brk) : Bounds m m' q' := by
  obtain ⟨-, rfl, rfl⟩ := takeLock_eq_some h
  refine ⟨hf.setHolder hl, Nat.le_of_eq (Mem.setHolder_brk m l _).symm, fun a ha => ?_⟩
  rw [Mem.setHolder_brk]
  exact hq a ha

/-- Nor does releasing one. -/
theorem Bounds.spinUnlock {m : Mem} {l : Lock} {q : Pc} (hf : Fresh m)
    (hl : ∀ a ∈ l.addrs, a < m.brk) (hq : ∀ a ∈ q.addrs, a < m.brk) :
    Bounds m (m.spinUnlock l) q := by
  refine ⟨hf.setHolder hl, Nat.le_of_eq (Mem.setHolder_brk m l _).symm, fun a ha => ?_⟩
  rw [Mem.spinUnlock, Mem.setHolder_brk]
  exact hq a ha

/-- Writing a barrier and its history leaves the mark. -/
theorem Fresh.setBarrierHist {m : Mem} (hf : Fresh m) {b : Addr} (hb : b < m.brk)
    (x : BarrierStruct) (h : History) : Fresh ((m.setBarrier b x).setHist b h) :=
  (hf.setBarrier hb).setHist hb

/-- An arrival writes to the barrier and its history. -/
theorem Fresh.arrive {m : Mem} (hf : Fresh m) {b : Addr} (hb : b < m.brk) (t : Task) :
    Fresh (m.arrive b t).1 := by
  unfold Mem.arrive
  dsimp only
  split
  · exact hf.setBarrierHist hb _ _
  · exact hf.setBarrierHist hb _ _

/-- Unlinking makes a list shorter. -/
theorem Fresh.unlinkBarrier {m : Mem} (hf : Fresh m) {p b : Addr} (hp : p < m.brk)
    (hb : b < m.brk) : Fresh (m.unlinkBarrier p b) := by
  refine Fresh.setHist (Fresh.setPtgid (hf.setBarrier hb) hp ?_) hb
  intro b' hb'
  exact hf.barrierHead p b' (List.mem_of_mem_erase hb')

theorem brk_arrive (m : Mem) (b : Addr) (t : Task) : (m.arrive b t).1.brk = m.brk := by
  unfold Mem.arrive
  dsimp only
  split <;> rfl

/-- **ONE TURN AND THE MARK**, place by place. -/
theorem next_bounds {proc : Task → Pid} {t : Task} {m m' : Mem} {q q' : Pc} (hf : Fresh m)
    (hb : ∀ a ∈ q.addrs, a < m.brk) (h : next proc t m q = some (m', q')) :
    Bounds m m' q' := by
  cases q with
  | user r => cases h
  | oops i => cases h
  | initLockG c => exact .takeLock h hf (by simp [Lock.addrs]) (by simp [Pc.addrs])
  | getLockG who id => exact .takeLock h hf (by simp [Lock.addrs]) (by simp [Pc.addrs])
  | initLockHead c p n => exact .takeLock h hf hb hb
  | getLockHead who p id => exact .takeLock h hf hb hb
  | loopLock l b =>
      exact .takeLock h hf (by simpa [Lock.addrs] using hb b (List.mem_cons_self ..)) hb
  | destroyLockHead p b =>
      exact .takeLock h hf (by simpa [Lock.addrs] using hb p (List.mem_cons_self ..)) hb
  | destroyLockG p b => exact .takeLock h hf (by simp [Lock.addrs]) hb
  | initUnlockG c p => cases h; exact .spinUnlock hf (by simp [Lock.addrs]) hb
  | initUnlockHead c p b id =>
      cases h
      have hp : p < m.brk := hb p (List.mem_cons_self ..)
      have hu : Fresh (m.spinUnlock (.barrierHead p)) := hf.setHolder (by simpa [Lock.addrs])
      exact ⟨⟨hu.ptgid, hu.barrier, hu.hist, hu.links, hu.tgidList, hu.barrierHead⟩,
        Nat.le_refl _, by simp [Pc.addrs]⟩
  | getUnlockG who id r =>
      cases h
      exact .spinUnlock hf (by simp [Lock.addrs]) fun a ha => hb a (addrs_afterPtgid ha)
  | getUnlockHead who p r =>
      cases h
      exact .spinUnlock hf (by simpa [Lock.addrs] using hb p (List.mem_cons_self ..))
        fun a ha => hb a (addrs_afterBarrier ha)
  | loopUnlock l b =>
      cases h
      exact .spinUnlock hf (by simpa [Lock.addrs] using hb b (List.mem_cons_self ..)) hb
  | waitUnlock b k => cases h; exact .spinUnlock hf hb hb
  | destroyUnlock p b =>
      cases h
      exact .spinUnlock hf (by simpa [Lock.addrs] using hb b (by simp [Pc.addrs])) hb
  | destroyUnlockG p b => cases h; exact .spinUnlock hf (by simp [Lock.addrs]) hb
  | destroyUnlockHead p b =>
      cases h
      have hp : p < m.brk := hb p (List.mem_cons_self ..)
      have hbb : b < m.brk := hb b (by simp [Pc.addrs])
      have hu : Fresh (m.spinUnlock (.barrierHead p)) := hf.setHolder (by simpa [Lock.addrs])
      exact ⟨hu.setHist hbb, Nat.le_refl _, by simp [Pc.addrs]⟩
  | initFind c =>
      cases h
      unfold Mem.findOrNewPtgid
      split
      · rename_i p hp
        refine ⟨hf, Nat.le_refl _, ?_⟩
        simpa [Pc.addrs] using hf.tgidList p (getPtgid_mem hp).1
      · exact ⟨hf.newPtgid _, Nat.le_succ _, by simp [Pc.addrs, Mem.newPtgid]⟩
  | initReadBid c p => cases h; exact ⟨hf, Nat.le_refl _, hb⟩
  | initAlloc c p n => cases h; exact ⟨hf, Nat.le_refl _, hb⟩
  | initLink c p n =>
      cases h
      have hp : p < m.brk := hb p (List.mem_cons_self ..)
      refine ⟨hf.linkBarrier hp c, Nat.le_succ _, ?_⟩
      simpa [Pc.addrs, Mem.linkBarrier] using Nat.lt_succ_of_lt hp
  | getFind who id =>
      cases h
      refine ⟨hf, Nat.le_refl _, fun a ha => ?_⟩
      exact hf.tgidList a (getPtgid_mem (Option.mem_toList.mp ha)).1
  | getScan who p id =>
      cases h
      refine ⟨hf, Nat.le_refl _, fun a ha => ?_⟩
      rcases List.mem_cons.mp ha with rfl | ha
      · exact hb a (List.mem_cons_self ..)
      · exact hf.barrierHead p a (getBarrier_mem (Option.mem_toList.mp ha)).1
  | loopTest l b =>
      cases h
      refine ⟨hf, Nat.le_refl _, fun a ha => ?_⟩
      split at ha
      · exact hb a ha
      · exact hb a (addrs_exit ha)
  | sleepPrepare l b =>
      cases h; exact ⟨hf.setBarrier (hb b (List.mem_cons_self ..)), Nat.le_refl _, hb⟩
  | sleepSchedule l b => cases h; exact ⟨hf, Nat.le_refl _, by split <;> exact hb⟩
  | sleepParked l b =>
      obtain ⟨rfl, rfl⟩ := next_sleepParked h
      exact ⟨hf, Nat.le_refl _, hb⟩
  | sleepFinish l b =>
      cases h; exact ⟨hf.setBarrier (hb b (List.mem_cons_self ..)), Nat.le_refl _, hb⟩
  | waitEnter b =>
      cases h
      have hbb : b < m.brk := hb b (List.mem_cons_self ..)
      refine ⟨hf.arrive hbb t, Nat.le_of_eq (brk_arrive m b t).symm, ?_⟩
      rw [brk_arrive]
      split <;> simpa [Pc.addrs, Loop.addrs] using hbb
  | waitLeave b k =>
      cases h
      exact ⟨hf.setBarrierHist (hb b (List.mem_cons_self ..)) _ _, Nat.le_refl _,
        by split <;> exact hb⟩
  | waitWake b k =>
      cases h; exact ⟨hf.setBarrier (hb b (List.mem_cons_self ..)), Nat.le_refl _, hb⟩
  | waitDone b k =>
      cases h
      exact ⟨hf.setHist (hb b (List.mem_cons_self ..)), Nat.le_refl _, by simp [Pc.addrs]⟩
  | destroyUnlink p b =>
      cases h
      have hbb : b < m.brk := hb b (by simp [Pc.addrs])
      exact ⟨hf.unlinkBarrier (hb p (List.mem_cons_self ..)) hbb, Nat.le_refl _,
        by split <;> exact hb⟩
  | destroyUnlinkPtgid p b =>
      cases h
      refine ⟨⟨hf.ptgid, hf.barrier, hf.hist, hf.links, ?_, hf.barrierHead⟩, Nat.le_refl _, hb⟩
      intro p' hp'
      exact hf.tgidList p' (List.mem_of_mem_erase hp')
  | destroyFreePtgid p b =>
      cases h
      exact ⟨hf.setPtgid (hb p (List.mem_cons_self ..)) (hf.barrierHead p), Nat.le_refl _, hb⟩

/-- Every act of a task keeps to these bounds. -/
theorem exec_bounds {proc : Task → Pid} {t : Task} {m m' : Mem} {q q' : Pc} {a : Act}
    (hf : Fresh m) (hb : ∀ a ∈ q.addrs, a < m.brk)
    (h : exec proc t m q a = some (m', q')) : Bounds m m' q' := by
  rcases exec_cases h with ⟨-, h⟩ | ⟨rfl, c, r, -, rfl, rfl⟩ | ⟨rfl, l, b, -, hq, rfl⟩ |
    ⟨rfl, p, b, -, rfl, -, rfl⟩
  · exact next_bounds hf hb h
  · exact ⟨hf, Nat.le_refl _, by simp [addrs_entry]⟩
  · refine ⟨hf, Nat.le_refl _, fun a ha => hb a ?_⟩
    rcases hq with rfl | rfl <;> exact ha
  · refine ⟨hf, Nat.le_refl _, ?_⟩
    simpa [Pc.addrs] using hb p (List.mem_cons_self ..)

/-- **OWNERSHIP**: in every state of the driver, whatever the turns, nothing above
    the allocator's mark is in use and every task holds exactly the locks its
    place in the code says. -/
theorem reach_owns {proc : Task → Pid} {C : State → Task → Act → Prop} {s : State}
    (h : ReachWhen proc C s) : Fresh s.mem ∧ ∀ t, Owns t s.mem (s.loc t) := by
  refine Reach.modular (I := Fresh) (P := Owns) ?_ ?_ ?_ h
  · refine ⟨fresh_initial, fun t => ⟨fun a ha => ?_, fun l => ?_⟩⟩
    · cases ha
    · cases l <;> simp [State.initial, Mem.initial, Mem.holder, Pc.held, blankPtgid, blankBarrier]
  · intro s t a m' q' _ _ hf ho he
    have hb := exec_bounds hf ho.bounded he
    exact ⟨hb.fresh, hb.addrs, (exec_lockMove hf he).own ho.holds⟩
  · intro s t u a m' q' _ _ htu hf ho hu he
    have hb := exec_bounds hf ho.bounded he
    refine ⟨fun a ha => Nat.lt_of_lt_of_le (hu.bounded a ha) hb.brk, fun l => ?_⟩
    rw [(exec_lockMove hf he).other htu ho.holds l, hu.holds l]

/-- Two tasks are not in sections of the same lock. -/
theorem Owns.exclusive {t u : Task} {m : Mem} {q r : Pc} (ht : Owns t m q) (hu : Owns u m r)
    {l : Lock} (hq : l ∈ q.held) (hr : l ∈ r.held) : t = u := by
  have h1 := (ht.holds l).mpr hq
  have h2 := (hu.holds l).mpr hr
  rw [h1] at h2
  exact Option.some.inj h2

end Barrier
