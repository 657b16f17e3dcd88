import Mathlib.Algebra.Group.Nat.Defs
import Mathlib.Data.List.Nodup
import Mathlib.Logic.Function.Basic

/-! # The barrier driver's memory — records, barriers, locks and the locked sections

    `eosi_barrier.c` (and the system-call version of it in `patch.file`, whose
    functions are the same but for `printk`s) keeps a list `tgid_list` of
    `per_tgid` records, one for each process, each with a list of its
    `barrier_struct`s.  This file embeds that memory and the bodies of the
    critical sections as functions on it; `BarrierMachineProofs` puts them in
    the order in which the calls run them.

    * An address is never handed out twice.  `kfree` sets `freed` and leaves the
      contents in place: a use after the free reads what was there.
    * Machine integers have the widths of the source (`unsigned int` ids and
      `bid_count`, `int barrier_size`, `unsigned long long count` and `total`).
    * `hist`, `links` and `made` are not in the source: no code reads them.
      They number the `barrier_wait` calls of a barrier by their `total++`,
      record who left, who returned and who removed the barrier, count the
      barriers ever linked on a record and list the successful
      `barrier_init` calls. -/

namespace Barrier

/-- A task (`current`). -/
abbrev Task := Nat

/-- `pid_t`, only ever compared for equality. -/
abbrev Pid := Nat

/-- Where `kmalloc` put a record or a barrier. -/
abbrev Addr := Nat

/-- `#define BARRIER_FLAG (1ULL<<63)`. -/
def barrierFlag : BitVec 64 := 1#64 <<< 63

theorem toNat_barrierFlag : barrierFlag.toNat = 2 ^ 63 := by decide

/-- `barrier_struct`, less the two fields that are only printed. -/
structure BarrierStruct where
  id : BitVec 32
  count : BitVec 64
  total : BitVec 64
  lockTotal : Option Task
  waitQ : List Task
  freed : Bool

/-- `per_tgid`. -/
structure PerTgid where
  tgid : Pid
  bidCount : BitVec 32
  barrierSize : BitVec 32
  barrierHeadLock : Option Task
  barrierHead : List Addr
  freed : Bool

/-- What happened to one barrier so far.  Position `k` of `arrived` is the task
    whose call executed the `k`-th `total++`; `left` and `returned` hold the
    numbers of the calls that made their last update of `total` and that
    returned; `unlinked` counts `list_del`s of the barrier, `destroyed` the
    `barrier_destroy` calls that returned 0 for it. -/
structure History where
  arrived : List Task
  left : List Nat
  returned : List Nat
  unlinked : Nat
  destroyed : Nat

/-- A `barrier_init` call that returned 0: its process, the id it delivered, the
    requested count and the barrier it made. -/
structure Made where
  tgid : Pid
  id : BitVec 32
  count : BitVec 32
  addr : Addr
  deriving DecidableEq

structure Mem where
  tgidList : List Addr
  gTgidListLock : Option Task
  ptgid : Addr → PerTgid
  barrier : Addr → BarrierStruct
  brk : Addr
  hist : Addr → History
  links : Addr → Nat
  made : List Made

/-- Memory nobody has written yet. -/
def blankBarrier : BarrierStruct := ⟨0, 0, 0, none, [], false⟩
def blankPtgid : PerTgid := ⟨0, 0, 0, none, [], false⟩
def blankHistory : History := ⟨[], [], [], 0, 0⟩

/-- The module has just been loaded: `LIST_HEAD(tgid_list)`,
    `DEFINE_SPINLOCK(g_tgid_list_lock)`. -/
def Mem.initial : Mem :=
  ⟨[], none, fun _ => blankPtgid, fun _ => blankBarrier, 0, fun _ => blankHistory,
    fun _ => 0, []⟩

/-- `init_barrier_struct`: the `int` count is converted to 64 bits. -/
def initBarrierStruct (count : BitVec 32) (id : BitVec 32) : BarrierStruct :=
  ⟨id, count.signExtend 64, barrierFlag, none, [], false⟩

/-- `barrier_wait` 249-251: `total` after an arrival, before the comparison with
    `count`. -/
def BarrierStruct.bumped (x : BarrierStruct) : BitVec 64 :=
  (if barrierFlag = x.total then 0 else x.total) + 1

/-! ## Writing one object -/

namespace Mem

def setPtgid (m : Mem) (p : Addr) (r : PerTgid) : Mem :=
  { m with ptgid := Function.update m.ptgid p r }

def setBarrier (m : Mem) (b : Addr) (x : BarrierStruct) : Mem :=
  { m with barrier := Function.update m.barrier b x }

def setHist (m : Mem) (b : Addr) (h : History) : Mem :=
  { m with hist := Function.update m.hist b h }

section Fields
variable (m : Mem) (p b : Addr) (r : PerTgid) (x : BarrierStruct) (h : History)

@[simp] theorem setPtgid_gLock : (m.setPtgid p r).gTgidListLock = m.gTgidListLock := rfl
@[simp] theorem setPtgid_ptgid : (m.setPtgid p r).ptgid = Function.update m.ptgid p r := rfl
@[simp] theorem setPtgid_barrier : (m.setPtgid p r).barrier = m.barrier := rfl
@[simp] theorem setPtgid_hist : (m.setPtgid p r).hist = m.hist := rfl
@[simp] theorem setPtgid_links : (m.setPtgid p r).links = m.links := rfl

@[simp] theorem setBarrier_gLock : (m.setBarrier b x).gTgidListLock = m.gTgidListLock := rfl
@[simp] theorem setBarrier_ptgid : (m.setBarrier b x).ptgid = m.ptgid := rfl
@[simp] theorem setBarrier_barrier :
    (m.setBarrier b x).barrier = Function.update m.barrier b x := rfl
@[simp] theorem setBarrier_hist : (m.setBarrier b x).hist = m.hist := rfl
@[simp] theorem setBarrier_links : (m.setBarrier b x).links = m.links := rfl

@[simp] theorem setHist_ptgid : (m.setHist b h).ptgid = m.ptgid := rfl
@[simp] theorem setHist_barrier : (m.setHist b h).barrier = m.barrier := rfl
@[simp] theorem setHist_hist : (m.setHist b h).hist = Function.update m.hist b h := rfl
@[simp] theorem setHist_links : (m.setHist b h).links = m.links := rfl

end Fields

end Mem

/-! ## The three kinds of spinlock -/

inductive Lock where
  | gTgidList
  | barrierHead (p : Addr)
  | lockTotal (b : Addr)
  deriving DecidableEq

namespace Mem

/-- The task in the lock's section, if any. -/
def holder (m : Mem) : Lock → Option Task
  | .gTgidList => m.gTgidListLock
  | .barrierHead p => (m.ptgid p).barrierHeadLock
  | .lockTotal b => (m.barrier b).lockTotal

def setHolder (m : Mem) : Lock → Option Task → Mem
  | .gTgidList, o => { m with gTgidListLock := o }
  | .barrierHead p, o => m.setPtgid p { m.ptgid p with barrierHeadLock := o }
  | .lockTotal b, o => m.setBarrier b { m.barrier b with lockTotal := o }

/-- `spin_lock`: not possible (the task spins) while the lock is held. -/
def spinLock (m : Mem) (l : Lock) (t : Task) : Option Mem :=
  if m.holder l = none then some (m.setHolder l (some t)) else none

/-- `spin_unlock`. -/
def spinUnlock (m : Mem) (l : Lock) : Mem := m.setHolder l none

@[simp] theorem holder_setHolder (m : Mem) (l l' : Lock) (o : Option Task) :
    (m.setHolder l o).holder l' = if l' = l then o else m.holder l' := by
  cases l <;> cases l' <;> simp [setHolder, holder, Function.update_apply] <;> split <;> simp_all

section LockFields
variable (m : Mem) (l : Lock) (o : Option Task)

@[simp] theorem setHolder_tgidList : (m.setHolder l o).tgidList = m.tgidList := by
  cases l <;> rfl
@[simp] theorem setHolder_brk : (m.setHolder l o).brk = m.brk := by cases l <;> rfl
@[simp] theorem setHolder_hist : (m.setHolder l o).hist = m.hist := by cases l <;> rfl
@[simp] theorem setHolder_links : (m.setHolder l o).links = m.links := by cases l <;> rfl
@[simp] theorem setHolder_made : (m.setHolder l o).made = m.made := by cases l <;> rfl

/-- Only the lock word of a record can change. -/
theorem setHolder_ptgid (p : Addr) :
    (m.setHolder l o).ptgid p
      = { m.ptgid p with barrierHeadLock := ((m.setHolder l o).ptgid p).barrierHeadLock } := by
  cases l with
  | gTgidList => rfl
  | lockTotal b => rfl
  | barrierHead p' =>
      by_cases h : p = p'
      · subst h; simp [setHolder]
      · simp [setHolder, h]

/-- Only the lock word of a barrier can change. -/
theorem setHolder_barrier (b : Addr) :
    (m.setHolder l o).barrier b
      = { m.barrier b with lockTotal := ((m.setHolder l o).barrier b).lockTotal } := by
  cases l with
  | gTgidList => rfl
  | barrierHead p => rfl
  | lockTotal b' =>
      by_cases h : b = b'
      · subst h; simp [setHolder]
      · simp [setHolder, h]

@[simp] theorem setHolder_tgid (p : Addr) :
    ((m.setHolder l o).ptgid p).tgid = (m.ptgid p).tgid := by rw [setHolder_ptgid]
@[simp] theorem setHolder_bidCount (p : Addr) :
    ((m.setHolder l o).ptgid p).bidCount = (m.ptgid p).bidCount := by rw [setHolder_ptgid]
@[simp] theorem setHolder_barrierSize (p : Addr) :
    ((m.setHolder l o).ptgid p).barrierSize = (m.ptgid p).barrierSize := by rw [setHolder_ptgid]
@[simp] theorem setHolder_barrierHead (p : Addr) :
    ((m.setHolder l o).ptgid p).barrierHead = (m.ptgid p).barrierHead := by rw [setHolder_ptgid]
@[simp] theorem setHolder_id (b : Addr) :
    ((m.setHolder l o).barrier b).id = (m.barrier b).id := by rw [setHolder_barrier]
@[simp] theorem setHolder_count (b : Addr) :
    ((m.setHolder l o).barrier b).count = (m.barrier b).count := by rw [setHolder_barrier]
@[simp] theorem setHolder_total (b : Addr) :
    ((m.setHolder l o).barrier b).total = (m.barrier b).total := by rw [setHolder_barrier]
@[simp] theorem setHolder_waitQ (b : Addr) :
    ((m.setHolder l o).barrier b).waitQ = (m.barrier b).waitQ := by rw [setHolder_barrier]

end LockFields

theorem spinLock_eq_some {m m' : Mem} {l : Lock} {t : Task} (h : m.spinLock l t = some m') :
    m.holder l = none ∧ m' = m.setHolder l (some t) := by
  rw [spinLock] at h
  split at h
  · rename_i hn
    exact ⟨hn, (Option.some.inj h).symm⟩
  · cases h

/-! ## The critical sections -/

/-- `get_ptgid_without_lock`; `get_ptgid` is the same scan inside its own
    `g_tgid_list_lock` section. -/
def getPtgid (m : Mem) (tgid : Pid) : Option Addr :=
  m.tgidList.find? fun p => (m.ptgid p).tgid = tgid

/-- The scan of `get_barrier_from_ptgid`. -/
def getBarrier (m : Mem) (p : Addr) (barrierId : BitVec 32) : Option Addr :=
  (m.ptgid p).barrierHead.find? fun b => (m.barrier b).id = barrierId

/-- `barrier_init` 147-156: a record for a process that has none. -/
def newPtgid (m : Mem) (tgid : Pid) : Mem :=
  { m.setPtgid m.brk ⟨tgid, 0, 0, none, [], false⟩ with
    tgidList := m.brk :: m.tgidList, brk := m.brk + 1 }

/-- `barrier_init` 144-158. -/
def findOrNewPtgid (m : Mem) (tgid : Pid) : Mem × Addr :=
  match m.getPtgid tgid with
  | some p => (m, p)
  | none => (m.newPtgid tgid, m.brk)

/-- `barrier_init` 174-178.  The block that `kmalloc` returned at 169 is not
    known to any other task before this section, so its address is drawn here. -/
def linkBarrier (m : Mem) (p : Addr) (count : BitVec 32) : Mem :=
  let r := m.ptgid p
  { (m.setBarrier m.brk (initBarrierStruct count r.bidCount)).setPtgid p
      { r with bidCount := r.bidCount + 1, barrierSize := r.barrierSize + 1,
               barrierHead := m.brk :: r.barrierHead } with
    brk := m.brk + 1, links := Function.update m.links p (m.links p + 1) }

/-- `barrier_destroy` 313-316.  `list_del` of a barrier that is no longer linked
    leaves the list as it is (or faults: `Act.fault`). -/
def unlinkBarrier (m : Mem) (p b : Addr) : Mem :=
  let r := m.ptgid p
  ((m.setBarrier b { m.barrier b with freed := true }).setPtgid p
    { r with barrierSize := r.barrierSize - 1, barrierHead := r.barrierHead.erase b }).setHist b
      { m.hist b with unlinked := (m.hist b).unlinked + 1 }

/-- `barrier_destroy` 322. -/
def unlinkPtgid (m : Mem) (p : Addr) : Mem :=
  { m with tgidList := m.tgidList.erase p }

/-- `barrier_destroy` 325. -/
def freePtgid (m : Mem) (p : Addr) : Mem :=
  m.setPtgid p { m.ptgid p with freed := true }

/-- `barrier_wait` 249-254 by task `t`: the new `total`, and whether this arrival
    released the round (then `t`'s call has made its last update of `total`). -/
def arrive (m : Mem) (b : Addr) (t : Task) : Mem × Bool :=
  let x := m.barrier b
  let h := m.hist b
  if x.bumped = x.count then
    ((m.setBarrier b { x with total := x.bumped + (barrierFlag - 1) }).setHist b
      { h with arrived := h.arrived ++ [t], left := h.arrived.length :: h.left }, true)
  else
    ((m.setBarrier b { x with total := x.bumped }).setHist b
      { h with arrived := h.arrived ++ [t] }, false)

/-- `barrier_wait` 265 by the call with arrival number `k`. -/
def depart (m : Mem) (b : Addr) (k : Nat) : Mem :=
  let x := m.barrier b
  let h := m.hist b
  (m.setBarrier b { x with total := x.total - 1 }).setHist b { h with left := k :: h.left }

/-- `prepare_to_wait`, `finish_wait` and `wake_up_interruptible_all`: a woken
    task is off the queue. -/
def enqueue (m : Mem) (b : Addr) (t : Task) : Mem :=
  m.setBarrier b { m.barrier b with waitQ := t :: (m.barrier b).waitQ }

def dequeue (m : Mem) (b : Addr) (t : Task) : Mem :=
  m.setBarrier b { m.barrier b with waitQ := (m.barrier b).waitQ.erase t }

def wakeAll (m : Mem) (b : Addr) : Mem :=
  m.setBarrier b { m.barrier b with waitQ := [] }

end Mem

end Barrier
