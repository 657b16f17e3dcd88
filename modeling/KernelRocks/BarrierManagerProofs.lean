import KernelRocks.BarrierFindProofs

/-! # One manager for each process

    The races of `barrier_init` and `barrier_destroy` all need two calls of one process
    under way at once.  A process that leaves both calls to one of its threads, as
    one with a single `run_barriers` does, is safe (`kept_of_oneManager`), however
    the calls of the other processes and the `barrier_wait` calls fall, and however
    often the counter of ids comes round: the id of a barrier leads to it until it
    is unlinked, and it is unlinked once (`one_manager`). -/

namespace Barrier

open Interleaving KeyedList

/-- The record a call has in hand. -/
def Pc.record : Pc → Option Addr
  | .initUnlockG _ p | .initReadBid _ p | .initAlloc _ p _ | .initLockHead _ p _ => some p
  | .initLink _ p _ | .initUnlockHead _ p _ _ => some p
  | .getUnlockG _ _ r => r
  | .getLockHead _ p _ | .getScan _ p _ | .getUnlockHead _ p _ => some p
  | .loopLock (.drain p) _ | .loopTest (.drain p) _ | .loopUnlock (.drain p) _ => some p
  | .sleepPrepare (.drain p) _ | .sleepSchedule (.drain p) _ => some p
  | .sleepParked (.drain p) _ | .sleepFinish (.drain p) _ => some p
  | .destroyUnlock p _ | .destroyLockHead p _ | .destroyUnlink p _ => some p
  | .destroyLockG p _ | .destroyUnlinkPtgid p _ | .destroyUnlockG p _ => some p
  | .destroyFreePtgid p _ | .destroyUnlockHead p _ => some p
  | _ => none

def Call.manages : Call → Bool
  | .init _ | .destroy _ => true
  | .wait _ => false

def Seeker.manages : Seeker → Bool
  | .destroy => true
  | .wait => false

def Client.manages : Client → Bool
  | .init _ _ => true
  | .seek who => who.manages

def Loop.manages : Loop → Bool
  | .drain _ => true
  | _ => false

/-- The task is in `barrier_init` or in `barrier_destroy`. -/
def Pc.manages : Pc → Bool
  | .initLockG _ | .initFind _ | .initUnlockG _ _ | .initReadBid _ _ | .initAlloc _ _ _ => true
  | .initLockHead _ _ _ | .initLink _ _ _ | .initUnlockHead _ _ _ _ => true
  | .getLockG who _ | .getFind who _ | .getUnlockG who _ _ => who.manages
  | .getLockHead who _ _ | .getScan who _ _ | .getUnlockHead who _ _ => who.manages
  | .loopLock l _ | .loopTest l _ | .loopUnlock l _ => l.manages
  | .sleepPrepare l _ | .sleepSchedule l _ | .sleepParked l _ | .sleepFinish l _ => l.manages
  | .destroyUnlock _ _ | .destroyLockHead _ _ | .destroyUnlink _ _ | .destroyLockG _ _ => true
  | .destroyUnlinkPtgid _ _ | .destroyUnlockG _ _ | .destroyFreePtgid _ _ => true
  | .destroyUnlockHead _ _ => true
  | _ => false

/-- In each process one task makes the `barrier_init` and `barrier_destroy` calls. -/
def OneManager (proc : Task → Pid) (boss : Pid → Task) (_ : State) (t : Task) (a : Act) : Prop :=
  ∀ c, a = .call c → c.manages = true → t = boss (proc t)

/-! ## What a turn leaves in hand -/

section Hand
variable {proc : Task → Pid} {t : Task} {m m' : Mem} {q q' : Pc} {a : Act}

theorem record_afterPtgid {who : Seeker} {id : BitVec 32} {r : Option Addr} {p : Addr}
    (h : (who.afterPtgid id r).record = some p) : r = some p := by
  cases who <;> cases r <;> cases h <;> rfl

theorem record_afterBarrier {who : Client} {p p' : Addr} {r : Option Addr}
    (h : (who.afterBarrier p r).record = some p') : p = p' := by
  rcases who with ⟨c, n⟩ | ⟨_ | _⟩ <;> cases r <;> cases h <;> rfl

theorem record_exit (l : Loop) (b : Addr) :
    (l.exit b).record = (Pc.loopTest l b).record := by
  cases l <;> rfl

theorem record_entry (c : Call) : c.entry.record = none := by
  cases c with
  | init count => rw [Call.entry]; split <;> rfl
  | wait id => rfl
  | destroy id => rfl

/-- A record in hand was in hand before, or has just been found or made. -/
theorem next_record (hf : Fresh m) (h : next proc t m q = some (m', q')) {p : Addr}
    (hp : q'.record = some p) :
    q.record = some p ∨ (m.reg.getPtgid (proc t) = some p ∧ m'.reg = m.reg)
      ∨ (p = m.brk ∧ m'.reg = m.reg.newPtgid (proc t)) := by
  cases q with
  | user r => cases h
  | oops i => cases h
  | initLockG c | initLockHead c p' n | getLockG who id | getLockHead who p' id
  | destroyLockHead p' b | destroyLockG p' b =>
      obtain ⟨-, -, rfl⟩ := takeLock_eq_some h
      exact .inl hp
  | loopLock l b =>
      obtain ⟨-, -, rfl⟩ := takeLock_eq_some h
      cases l <;> exact .inl hp
  | initFind c =>
      cases h
      cases hp
      unfold Mem.findOrNewPtgid
      split
      · rename_i p hfound
        exact .inr (.inl ⟨hfound, rfl⟩)
      · exact .inr (.inr ⟨rfl, reg_newPtgid hf _⟩)
  | getFind who id =>
      cases h
      exact .inr (.inl ⟨hp, rfl⟩)
  | getUnlockG who id r =>
      cases h
      exact .inl (record_afterPtgid hp)
  | getUnlockHead who p' r =>
      cases h
      exact .inl (congrArg some (record_afterBarrier hp))
  | loopTest l b =>
      cases h
      split at hp
      · cases l <;> exact .inl hp
      · exact .inl (record_exit l b ▸ hp)
  | loopUnlock l b | sleepPrepare l b | sleepFinish l b =>
      cases h
      cases l <;> exact .inl hp
  | sleepSchedule l b =>
      cases h
      split at hp <;> cases l <;> exact .inl hp
  | sleepParked l b =>
      obtain ⟨-, rfl⟩ := next_sleepParked h
      cases l <;> exact .inl hp
  | waitEnter b =>
      cases h
      split at hp <;> cases hp
  | waitLeave b k =>
      cases h
      split at hp <;> cases hp
  | destroyUnlink p' b =>
      cases h
      split at hp <;> exact .inl hp
  | waitWake b k | waitUnlock b k | waitDone b k | initUnlockHead c p' b id
  | destroyUnlockHead p' b =>
      cases h
      cases hp
  | _ =>
      cases h
      exact .inl hp

theorem exec_record (hf : Fresh m) (h : exec proc t m q a = some (m', q')) {p : Addr}
    (hp : q'.record = some p) :
    q.record = some p ∨ (m.reg.getPtgid (proc t) = some p ∧ m'.reg = m.reg)
      ∨ (p = m.brk ∧ m'.reg = m.reg.newPtgid (proc t)) := by
  rcases exec_cases h with ⟨-, h⟩ | ⟨rfl, c, r, -, rfl, rfl⟩ | ⟨rfl, l, b, -, hq, rfl⟩ |
    ⟨rfl, p, b, -, rfl, -, rfl⟩
  · exact next_record hf h hp
  · rw [record_entry] at hp
    cases hp
  · rcases hq with rfl | rfl <;> cases l <;> exact .inl hp
  · cases hp

theorem manages_afterPtgid {who : Seeker} {id : BitVec 32} {r : Option Addr}
    (h : (who.afterPtgid id r).manages = true) : who.manages = true := by
  cases who <;> cases r <;> first | rfl | cases h

theorem manages_afterBarrier {who : Client} {p : Addr} {r : Option Addr}
    (h : (who.afterBarrier p r).manages = true) : who.manages = true := by
  rcases who with ⟨c, n⟩ | ⟨_ | _⟩ <;> cases r <;> first | rfl | cases h

theorem manages_exit {l : Loop} {b : Addr} (h : (l.exit b).manages = true) :
    l.manages = true := by
  cases l <;> first | rfl | cases h

theorem manages_entry {c : Call} (h : c.entry.manages = true) : c.manages = true := by
  cases c <;> first | rfl | cases h

theorem next_manages (h : next proc t m q = some (m', q')) (hq' : q'.manages = true) :
    q.manages = true := by
  cases q with
  | user r => cases h
  | oops i => cases h
  | initLockG c | initLockHead c p n | getLockG who id | getLockHead who p id | loopLock l b
  | destroyLockHead p b | destroyLockG p b =>
      obtain ⟨-, -, rfl⟩ := takeLock_eq_some h
      exact hq'
  | getUnlockG who id r =>
      cases h
      exact manages_afterPtgid hq'
  | getUnlockHead who p r =>
      cases h
      exact manages_afterBarrier hq'
  | loopTest l b =>
      cases h
      split at hq'
      · exact hq'
      · exact manages_exit hq'
  | sleepSchedule l b =>
      cases h
      split at hq' <;> exact hq'
  | sleepParked l b =>
      obtain ⟨-, rfl⟩ := next_sleepParked h
      exact hq'
  | waitEnter b =>
      cases h
      split at hq' <;> cases hq'
  | waitLeave b k =>
      cases h
      split at hq' <;> cases hq'
  | destroyUnlink p b => rfl
  | _ =>
      cases h
      first | rfl | exact hq'

/-- A task comes to `barrier_init` and `barrier_destroy` by calling them. -/
theorem exec_manages (h : exec proc t m q a = some (m', q')) (hq' : q'.manages = true) :
    q.manages = true ∨ ∃ c, a = .call c ∧ c.manages = true := by
  rcases exec_cases h with ⟨-, h⟩ | ⟨rfl, c, r, rfl, rfl, rfl⟩ | ⟨rfl, l, b, -, hq, rfl⟩ |
    ⟨rfl, p, b, -, rfl, -, rfl⟩
  · exact .inl (next_manages h hq')
  · exact .inr ⟨c, rfl, manages_entry hq'⟩
  · rcases hq with rfl | rfl <;> exact .inl hq'
  · cases hq'

/-- What becomes of a record: it is new and has had no barrier, or it keeps its process
    and, unless a barrier is linked on it, its number of barriers. -/
theorem RegMove.record {g : Pid} (h : RegMove g m q m' q') (p : Addr) :
    (p = m.brk ∧ (m'.reg.record p).links = 0)
      ∨ (m'.reg.record p).tgid = (m.reg.record p).tgid
        ∧ ((m'.reg.record p).links = (m.reg.record p).links ∨ ∃ c n, q = .initLink c p n) := by
  cases h with
  | fresh c _ _ hr _ =>
      rw [hr]
      by_cases hp : p = m.brk
      · subst hp
        refine .inl ⟨rfl, ?_⟩
        show ((m.reg.newPtgid g).record m.reg.brk).links = 0
        rw [record_newPtgid_self]
      · rw [record_newPtgid (r := m.reg) hp]
        exact .inr ⟨rfl, .inl rfl⟩
  | link c p' n hlink hr _ =>
      rw [hr, tgid_link]
      refine .inr ⟨rfl, ?_⟩
      by_cases hp : p = p'
      · subst hp
        exact .inr ⟨c, n, hlink⟩
      · refine .inl ?_
        rw [links_link, if_neg hp]
  | unlink p' b _ hr _ =>
      rw [hr, tgid_unlink]
      refine .inr ⟨rfl, .inl ?_⟩
      by_cases hp : p = p'
      · subst hp
        simp [Reg.unlink]
      · simp [Reg.unlink, hp]
  | same hr _ | drop hr _ | found _ _ _ _ hr _ | read _ _ hr _ | check _ _ _ _ _ hr _
  | findWait _ _ _ _ _ hr _ | findDestroy _ _ _ _ _ hr _ | pass _ _ _ _ hr _ =>
      rw [hr]
      exact .inr ⟨rfl, .inl rfl⟩
  | create _ _ _ _ _ hr _ | retire _ _ _ hr _ | destroy _ _ _ hr _ =>
      rw [hr]
      exact .inr ⟨rfl, .inl rfl⟩

/-- A record in use stays with its process. -/
theorem RegMove.tgid {g : Pid} (h : RegMove g m q m' q') {p : Addr} (hp : p < m.brk) :
    (m'.reg.record p).tgid = (m.reg.record p).tgid := by
  rcases h.record p with ⟨hbrk, -⟩ | ⟨htgid, -⟩
  · exact absurd hbrk (Nat.ne_of_lt hp)
  · exact htgid

/-- Only a link adds to the barriers a record has had. -/
theorem RegMove.links {g : Pid} (h : RegMove g m q m' q') {p : Addr} (hp : p < m.brk)
    (hq : ∀ c n, q ≠ .initLink c p n) : (m'.reg.record p).links = (m.reg.record p).links := by
  rcases h.record p with ⟨hbrk, -⟩ | ⟨-, hlinks | ⟨c, n, hlink⟩⟩
  · exact absurd hbrk (Nat.ne_of_lt hp)
  · exact hlinks
  · exact absurd hlink (hq c n)

/-- A barrier stays on its list until it is unlinked. -/
theorem RegMove.stays {g : Pid} (hf : Fresh m) (h : RegMove g m q m' q') {p b : Addr}
    (hb : b ∈ (m.reg.record p).barrierHead) (hq : q ≠ .destroyUnlink p b) :
    b ∈ (m'.reg.record p).barrierHead := by
  cases h with
  | fresh c _ _ hr _ =>
      have hp : p ≠ m.reg.brk := by
        rintro rfl
        rw [hf.record_brk] at hb
        cases hb
      rw [hr, record_newPtgid hp]
      exact hb
  | link c p' n _ hr _ =>
      rw [hr, head_link]
      split
      · rename_i hp
        exact List.mem_cons_of_mem _ (hp ▸ hb)
      · exact hb
  | unlink p' b' hunlink hr _ =>
      rw [hr, head_unlink]
      split
      · rename_i hp
        subst hp
        have hbb : b ≠ b' := fun hbb => hq (hbb ▸ hunlink)
        exact (List.mem_erase_of_ne hbb).mpr hb
      · exact hb
  | same hr _ | drop hr _ | found _ _ _ _ hr _ | read _ _ hr _ | check _ _ _ _ _ hr _
  | findWait _ _ _ _ _ hr _ | findDestroy _ _ _ _ _ hr _ | pass _ _ _ _ hr _ =>
      rw [hr]
      exact hb
  | create _ _ _ _ _ hr _ | retire _ _ _ hr _ | destroy _ _ _ hr _ =>
      rw [hr]
      exact hb

/-- Who has not been unlinked is not, but by an unlinking. -/
theorem RegMove.unlinked {g : Pid} (h : RegMove g m q m' q') {b : Addr} (hb : b < m.brk)
    (hq : ∀ p, q ≠ .destroyUnlink p b) : (m'.reg.entry b).unlinked = (m.reg.entry b).unlinked := by
  cases h with
  | link c p n _ hr _ =>
      rw [hr, entry_link (r := m.reg) (Nat.ne_of_lt hb)]
  | unlink p b' hunlink hr _ =>
      have hbb : b ≠ b' := fun hbb => hq p (hbb ▸ hunlink)
      rw [hr]
      simp [Reg.unlink, hbb]
  | destroy p b' _ hr _ =>
      rw [hr]
      by_cases hbb : b = b'
      · subst hbb
        simp [Reg.destroy]
      · simp [Reg.destroy, hbb]
  | same hr _ | drop hr _ | found _ _ _ _ hr _ | read _ _ hr _ | check _ _ _ _ _ hr _
  | findWait _ _ _ _ _ hr _ | findDestroy _ _ _ _ _ hr _ | pass _ _ _ _ hr _ => rw [hr]
  | fresh _ _ _ hr _ | create _ _ _ _ _ hr _ | retire _ _ _ hr _ =>
      rw [hr]
      rfl

/-- A barrier that is on a list was there before, or has just been linked. -/
theorem RegMove.listed {g : Pid} (h : RegMove g m q m' q') {p b : Addr}
    (hb : b ∈ (m'.reg.record p).barrierHead) :
    b ∈ (m.reg.record p).barrierHead ∨ b = m.brk ∧ ∃ c n, q = .initLink c p n := by
  cases h with
  | fresh c _ _ hr _ =>
      rw [hr] at hb
      by_cases hp : p = m.reg.brk
      · rw [hp, record_newPtgid_self] at hb
        cases hb
      · rw [record_newPtgid hp] at hb
        exact .inl hb
  | link c p' n hlink hr _ =>
      rw [hr] at hb
      rcases mem_head_link hb with ⟨hbrk, rfl⟩ | hold
      · exact .inr ⟨hbrk, c, n, hlink⟩
      · exact .inl hold
  | unlink p' b' _ hr _ =>
      rw [hr, head_unlink] at hb
      split at hb
      · rename_i hp
        exact .inl (hp ▸ List.mem_of_mem_erase hb)
      · exact .inl hb
  | same hr _ | drop hr _ | found _ _ _ _ hr _ | read _ _ hr _ | check _ _ _ _ _ hr _
  | findWait _ _ _ _ _ hr _ | findDestroy _ _ _ _ _ hr _ | pass _ _ _ _ hr _ =>
      rw [hr] at hb
      exact .inl hb
  | create _ _ _ _ _ hr _ | retire _ _ _ hr _ | destroy _ _ _ hr _ =>
      rw [hr] at hb
      exact .inl hb

theorem RegMove.made_mono {g : Pid} (h : RegMove g m q m' q') {e : Made} (he : e ∈ m.reg.made) :
    e ∈ m'.reg.made := by
  cases h with
  | create _ _ _ _ _ hr _ =>
      rw [hr]
      exact List.mem_cons_of_mem _ he
  | same hr _ | drop hr _ | found _ _ _ _ hr _ | read _ _ hr _ | check _ _ _ _ _ hr _
  | findWait _ _ _ _ _ hr _ | findDestroy _ _ _ _ _ hr _ | pass _ _ _ _ hr _ => rwa [hr]
  | fresh _ _ _ hr _ | link _ _ _ _ hr _ | unlink _ _ _ hr _ | retire _ _ _ hr _
  | destroy _ _ _ hr _ =>
      rw [hr]
      exact he

end Hand

/-! ## The hands of the one manager -/

section Stage
variable {q : Pc} {p b : Addr} {n : Nat} {id : BitVec 32}

theorem hand_of_creates (h : q.stage.creates p) : q.record = some p ∧ q.manages = true := by
  cases q with
  | getLockHead who | getScan who =>
      rcases who with ⟨c, n⟩ | ⟨_ | _⟩ <;> cases h
      exact ⟨rfl, rfl⟩
  | getUnlockHead who _ r =>
      rcases who with ⟨c, n⟩ | ⟨_ | _⟩ <;> cases r <;> cases h
      exact ⟨rfl, rfl⟩
  | loopLock l | loopTest l | loopUnlock l | sleepPrepare l | sleepSchedule l | sleepParked l
  | sleepFinish l => cases l <;> cases h
  | _ => cases h <;> exact ⟨rfl, rfl⟩

theorem hand_of_dooms (h : q.stage.dooms = some (p, b)) :
    q.record = some p ∧ q.manages = true := by
  cases q with
  | getLockHead who | getScan who => rcases who with ⟨c, n⟩ | ⟨_ | _⟩ <;> cases h
  | getUnlockHead who _ r =>
      rcases who with ⟨c, n⟩ | ⟨_ | _⟩ <;> cases r <;> cases h
      exact ⟨rfl, rfl⟩
  | loopLock l | loopTest l | loopUnlock l | sleepPrepare l | sleepSchedule l | sleepParked l
  | sleepFinish l =>
      cases l <;> cases h
      exact ⟨rfl, rfl⟩
  | _ => cases h <;> exact ⟨rfl, rfl⟩

theorem hand_of_retires (h : q.stage = .retires p b) : q.record = some p ∧ q.manages = true := by
  cases q with
  | getLockHead who | getScan who => rcases who with ⟨c, n⟩ | ⟨_ | _⟩ <;> cases h
  | getUnlockHead who _ r => rcases who with ⟨c, n⟩ | ⟨_ | _⟩ <;> cases r <;> cases h
  | loopLock l | loopTest l | loopUnlock l | sleepPrepare l | sleepSchedule l | sleepParked l
  | sleepFinish l => cases l <;> cases h
  | _ => cases h <;> exact ⟨rfl, rfl⟩

/-- A call with an id it has read or checked has not linked yet. -/
theorem creates_of_seen (h : (∃ id, q.stage = .checks p n id) ∨ q.stage = .checked p n) :
    q.stage.creates p := by
  rcases h with ⟨id, h⟩ | h
  · exact creates_of_stage (.inr (.inl ⟨n, id, h⟩))
  · exact creates_of_stage (.inr (.inr ⟨n, h⟩))

theorem mem_addrs_of_record (h : q.record = some p) : p ∈ q.addrs := by
  cases q with
  | getUnlockG who id r =>
      cases h
      exact List.mem_singleton_self p
  | loopLock l | loopTest l | loopUnlock l | sleepPrepare l | sleepSchedule l | sleepParked l
  | sleepFinish l =>
      cases l <;> cases h
      exact List.mem_cons_of_mem _ (List.mem_singleton_self p)
  | _ => cases h <;> exact List.mem_cons_self ..

end Stage

/-- The record in hand is the process's own, only the manager is in `barrier_init` and
    `barrier_destroy`, and no barrier has come on a record since the call that is
    about to link read the record's counter. -/
structure InHand (proc : Task → Pid) (boss : Pid → Task) (t : Task) (m : Mem) (q : Pc) : Prop where
  own : ∀ p, q.record = some p → (m.reg.record p).tgid = proc t
  manager : q.manages = true → t = boss (proc t)
  seen : ∀ p n, ((∃ id, q.stage = .checks p n id) ∨ q.stage = .checked p n) →
    (m.reg.record p).links = n

section InHand
variable {proc : Task → Pid} {boss : Pid → Task} {t u : Task} {m m' : Mem} {q r q' : Pc} {a : Act}

/-- Two managers with one record in hand are one task. -/
theorem InHand.same (ht : InHand proc boss t m q) (hu : InHand proc boss u m r) {p : Addr}
    (hq : q.record = some p) (hr : r.record = some p) (hqm : q.manages = true)
    (hrm : r.manages = true) : t = u :=
  calc t = boss (proc t) := ht.manager hqm
    _ = boss (proc u) := by rw [← ht.own p hq, hu.own p hr]
    _ = u := (hu.manager hrm).symm

/-- What a call has seen of the counter after a turn: what it had seen before, or what
    it has just read. -/
theorem RegMove.seen {g : Pid} (h : RegMove g m q m' q') {p : Addr} {n : Nat}
    (hq' : (∃ id, q'.stage = .checks p n id) ∨ q'.stage = .checked p n) :
    m'.reg = m.reg ∧ (((∃ id, q.stage = .checks p n id) ∨ q.stage = .checked p n)
      ∨ (m.reg.record p).links = n) := by
  cases h with
  | same hr hs => exact ⟨hr, .inl (hs ▸ hq')⟩
  | read p' _ hr hs =>
      rw [hs] at hq'
      rcases hq' with ⟨id, hq'⟩ | hq' <;> cases hq'
      exact ⟨hr, .inr rfl⟩
  | check p' n' id hst _ hr hs =>
      rw [hs] at hq'
      rcases hq' with ⟨id, hq'⟩ | hq' <;> cases hq'
      exact ⟨hr, .inl (.inl ⟨id, hst⟩)⟩
  | unlink p' b _ _ hs =>
      rw [hs] at hq'
      split at hq' <;> rcases hq' with ⟨id, hq'⟩ | hq' <;> cases hq'
  | drop _ hs | found _ _ _ _ _ hs | fresh _ _ _ _ hs | link _ _ _ _ _ hs | create _ _ _ _ _ _ hs
  | findWait _ _ _ _ _ _ hs | findDestroy _ _ _ _ _ _ hs | pass _ _ _ _ _ hs | retire _ _ _ _ hs
  | destroy _ _ _ _ hs =>
      rw [hs] at hq'
      rcases hq' with ⟨id, hq'⟩ | hq' <;> cases hq'

theorem inHand_own {s : State} (hf : Fresh s.mem) (hb : ∀ x ∈ (s.loc t).addrs, x < s.mem.brk)
    (hC : OneManager proc boss s t a) (h : InHand proc boss t s.mem (s.loc t))
    (he : exec proc t s.mem (s.loc t) a = some (m', q')) : InHand proc boss t m' q' := by
  have hm := exec_regMove hf he
  refine ⟨fun p hp => ?_, fun hq' => ?_, fun p n hseen => ?_⟩
  · rcases exec_record hf he hp with hq | ⟨hfound, hr⟩ | ⟨rfl, hr⟩
    · rw [hm.tgid (hb p (mem_addrs_of_record hq))]
      exact h.own p hq
    · rw [hr]
      exact (mem_of_lookup hfound).2
    · rw [hr]
      show ((s.mem.reg.newPtgid (proc t)).record s.mem.reg.brk).tgid = proc t
      rw [record_newPtgid_self]
  · rcases exec_manages he hq' with hq | ⟨c, rfl, hc⟩
    · exact h.manager hq
    · exact hC c rfl hc
  · obtain ⟨hr, hold | hlinks⟩ := hm.seen hseen
    · rw [hr]
      exact h.seen p n hold
    · rw [hr]
      exact hlinks

theorem inHand_other {s : State} (hf : Fresh s.mem) (hb : ∀ x ∈ (s.loc u).addrs, x < s.mem.brk)
    (htu : t ≠ u) (ht : InHand proc boss t s.mem (s.loc t))
    (hu : InHand proc boss u s.mem (s.loc u))
    (he : exec proc t s.mem (s.loc t) a = some (m', q')) : InHand proc boss u m' (s.loc u) := by
  have hm := exec_regMove hf he
  refine ⟨fun p hp => ?_, hu.manager, fun p n hseen => ?_⟩
  · rw [hm.tgid (hb p (mem_addrs_of_record hp))]
    exact hu.own p hp
  · obtain ⟨hrec, hman⟩ := hand_of_creates (creates_of_seen hseen)
    rw [hm.links (hb p (mem_addrs_of_record hrec))]
    · exact hu.seen p n hseen
    · -- a link on the record would be by the same manager
      intro c n' hq
      exact htu (ht.same hu (by rw [hq]; rfl) hrec (by rw [hq]; rfl) hman)

theorem reach_inHand {s : State} (h : ReachWhen proc (OneManager proc boss) s) (t : Task) :
    InHand proc boss t s.mem (s.loc t) := by
  refine (Reach.modular (I := fun _ => True) (P := InHand proc boss) ?_ ?_ ?_ h).2 t
  · refine ⟨trivial, fun t => ⟨nofun, nofun, ?_⟩⟩
    rintro p n (⟨id, hq⟩ | hq) <;> cases hq
  · intro s t a m' q' hr hC _ hI he
    obtain ⟨hf, ho⟩ := reach_owns hr
    exact ⟨trivial, inHand_own hf (ho t).bounded hC hI he⟩
  · intro s t u a m' q' hr _ htu _ hI hJ he
    obtain ⟨hf, ho⟩ := reach_owns hr
    exact inHand_other hf (ho u).bounded htu hI hJ he

end InHand

/-! ## One manager is enough -/

section Kept
variable {proc : Task → Pid} {boss : Pid → Task} {s : State}

/-- No other call that makes or removes a barrier has the record the task has in hand. -/
theorem kept_turn (hI : ∀ t, InHand proc boss t s.mem (s.loc t))
    (hR : Removal s.mem.reg (stages s)) (t : Task) (a : Act) : Kept proc s t a := by
  refine ⟨fun p b id hq hb u hu => ?_, fun c p n hq => .inl ?_, fun p b hq _ u hu => ?_,
    fun c p hq hp u b hu => ?_⟩
  · have hlinked := (getBarrier_mem hb).1
    cases hd : (s.loc u).stage.dooms with
    | none =>
        -- the other call has unlinked the barrier, which is on its list
        have hended : (s.loc u).stage.ended = some b := by
          cases hx : (s.loc u).stage <;> rw [hx] at hu hd <;> first | exact hu | cases hd
        have h1 := (hR.ended u b hended).1
        rw [hR.linked p b hlinked] at h1
        cases h1
    | some pb =>
        obtain ⟨p', b'⟩ := pb
        obtain rfl : b' = b := Option.some.inj ((Stage.target_of_dooms hd).symm.trans hu)
        obtain rfl : p' = p := hR.home p' p b' (hR.dooms u p' b' hd) hlinked
        obtain ⟨hrec, hman⟩ := hand_of_dooms hd
        obtain rfl := (hI u).same (hI t) hrec (by rw [hq]; rfl) hman (by rw [hq]; rfl)
        rw [hq] at hd
        cases hd
  · exact (hI t).seen p n (.inr (by rw [hq]; rfl))
  · obtain ⟨hrec, hman⟩ := hand_of_creates hu
    obtain rfl := (hI u).same (hI t) hrec (by rw [hq]; rfl) hman (by rw [hq]; rfl)
    rw [hq] at hu
    exact hu
  · obtain ⟨hrec, hman⟩ := hand_of_retires hu
    have hown : proc t = proc u := (mem_of_lookup hp).2.symm.trans ((hI u).own p hrec)
    have htu : t = u :=
      calc t = boss (proc t) := (hI t).manager (by rw [hq]; rfl)
        _ = boss (proc u) := by rw [hown]
        _ = u := ((hI u).manager hman).symm
    rw [← htu, hq] at hu
    cases hu

/-- Runs in which each process leaves its barriers to one task are `Kept`. -/
theorem kept_of_oneManager (h : ReachWhen proc (OneManager proc boss) s) :
    ReachWhen proc (Kept proc) s := by
  refine h.strengthen fun s s' t a hr hk _ _ => ?_
  exact kept_turn (reach_inHand hr) (reach_removal (hk.mono fun _ _ _ h => h.once)) t a

/-- A barrier that was made and is still linked is what its process and its id give. -/
theorem lookUp_of_made (hF : Findable proc s.mem.reg (stages s))
    (hN : Numbered s.mem.reg (stages s)) {e : Made} (he : e ∈ s.mem.made)
    (hu : (s.mem.hist e.addr).unlinked = 0) : s.mem.lookUp e.tgid e.id = some e.addr := by
  obtain ⟨-, hid, -, hlinked⟩ := hF.made e he
  obtain ⟨p, hmem, htg⟩ := hlinked hu
  have hp : s.mem.getPtgid e.tgid = some p :=
    (lookup_eq_some_iff hF.tgids).mpr ⟨hF.home p e.addr hmem, htg⟩
  rw [Mem.lookUp, hp]
  exact (lookup_eq_some_iff (hN.ids p)).mpr ⟨hmem, hid⟩

/-- **ONE MANAGER IS ENOUGH**: if in each process one task makes the `barrier_init` and
    `barrier_destroy` calls, then in every reached state the id that `barrier_init`
    gave out leads its process to the very barrier, with the count asked for, until
    the barrier is unlinked; no barrier is unlinked twice or destroyed twice; and
    `barrier_size` counts the list. -/
theorem one_manager (proc : Task → Pid) (boss : Pid → Task) {s : State}
    (h : ReachWhen proc (OneManager proc boss) s) :
    (∀ e ∈ s.mem.made, (s.mem.hist e.addr).unlinked = 0 →
        s.mem.lookUp e.tgid e.id = some e.addr
          ∧ (s.mem.barrier e.addr).count = e.count.signExtend 64)
      ∧ (∀ b, (s.mem.hist b).unlinked ≤ 1 ∧ (s.mem.hist b).destroyed ≤ 1)
      ∧ (∀ t p b, s.loc t = .destroyUnlink p b → b ∈ (s.mem.ptgid p).barrierHead)
      ∧ ∀ p, (s.mem.ptgid p).barrierSize = BitVec.ofNat 32 (s.mem.ptgid p).barrierHead.length := by
  have hk := kept_of_oneManager h
  have hF := reach_findable hk
  have hR := reach_removal (hk.mono fun _ _ _ h => h.once)
  have hN := reach_numbered (hk.mono fun _ _ _ h => h.turn)
  refine ⟨fun e he hu => ⟨lookUp_of_made hF hN he hu, (hF.made e he).2.2.1⟩, fun b => ?_,
    fun t p b hq => ?_, hR.size⟩
  · exact ⟨(hR.once b).2, Nat.le_trans (hR.once b).1 (hR.once b).2⟩
  · refine hR.dooms t p b ?_
    rw [stages, hq]
    rfl

/-- The test for `OneManager`. -/
def oneManagerTest (proc : Task → Pid) (boss : Pid → Task) (_ : State) (t : Task) : Act → Bool
  | .call c => !c.manages || decide (t = boss (proc t))
  | _ => true

theorem oneManager_of_test {n : Nat} (s : State) (t : Task) (a : Act) (_ : Only n s)
    (h : oneManagerTest proc boss s t a = true) : OneManager proc boss s t a := by
  rintro c rfl hc
  simpa [oneManagerTest, hc] using h

/-- Task 2 is a process of its own; tasks 0 and 2 are the managers. -/
def twoProcs : Task → Pid := fun t => if t = 2 then 1 else 0

def twoBosses : Pid → Task := fun g => if g = 1 then 2 else 0

/-- Task 0 destroys its first barrier while task 1 is in `barrier_wait` on the second and
    task 2 makes one for its process. -/
def managedCrossing : State :=
  afterWhen twoProcs 3 (oneManagerTest twoProcs twoBosses)
    (wholeInit 0 1 ++ wholeInit 0 2 ++ (1, .call (.wait 1)) :: runs 1 8
      ++ (2, .call (.init 3)) :: runs 2 6 ++ (0, .call (.destroy 0)) :: runs 0 12
      ++ runs 2 5 ++ runs 1 4)

theorem one_manager_two_processes :
    managedCrossing.mem.made = [⟨1, 0, 3, 4⟩, ⟨0, 1, 2, 2⟩, ⟨0, 0, 1, 1⟩]
      ∧ (managedCrossing.mem.hist 1).destroyed = 1
      ∧ managedCrossing.mem.lookUp 0 1 = some 2
      ∧ (managedCrossing.mem.barrier 2).count = (2 : BitVec 32).signExtend 64 := by
  have hr : ReachWhen twoProcs (OneManager twoProcs twoBosses) managedCrossing :=
    reachWhen_afterWhen twoProcs oneManager_of_test _
  have hfound := (one_manager twoProcs twoBosses hr).1 ⟨0, 1, 2, 2⟩ (by decide +kernel)
    (by decide +kernel)
  dsimp only at hfound
  exact ⟨by decide +kernel, by decide +kernel, hfound⟩

end Kept

end Barrier
