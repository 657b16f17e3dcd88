import KernelRocks.ProgramProofs
import Mathlib.Algebra.Group.Int.Defs
import Mathlib.Algebra.Group.Nat.Defs
import Mathlib.Data.List.Basic

/-! # The HC-SR04 device — its structure, its locks and the kernel around it

    `struct hcsr_struct` of the SYSFS driver, the five spinlocks in it, and the
    actions its functions are made of: taking and releasing a lock, reading and
    writing the structure, reading a slot of the sample buffer, and calling into
    the kernel.

    * A spinlock is not recursive.  Taking one that is held, and releasing one
      that is not, are faults.
    * What a kernel call returns is up to the environment, which may look at
      every call made so far; the calls are kept in a log.  So is whether the page
      at address 0 can be written: if it cannot, a store through NULL is a fault.
    * `ongoing` and the sample buffer also belong to the echo interrupt and to
      the sampling thread: before every read they may have changed, in any way. -/

namespace HcSr04

open Program

/-! ## The structure -/

/-- The two drivers: the miscdevice driver, and the SYSFS driver made from it. -/
inductive Version where
  | misc
  | sysfs
  deriving DecidableEq

/-- `pin_set`. -/
structure PinSet where
  triggerPin : Int
  echoPin : Int
  deriving DecidableEq

/-- `mode_set`. -/
structure ModeSet where
  mode : Int
  freq : BitVec 32
  deriving DecidableEq

/-- `cir_buf`, with `NUM_DATA` slots. -/
structure CirBuf where
  newest : Int
  data : Fin 5 → Int

/-- `hcsr_struct`: what the interface functions read and write of it. -/
structure Hcsr where
  pins : PinSet
  workingMode : ModeSet
  enable : Int
  irqDone : Int
  echoIsrNumber : Int
  /-- `NULL` is `none`. -/
  kthread : Option Int
  kstart : Int
  ongoing : Int
  cirb : CirBuf

def oneShot : Int := 0

def periodic : Int := 1

def ongoingFlag : Int := 1

def stoppingFlag : Int := 0

def irqDoneFlag : Int := 1

def irqNotDoneFlag : Int := 0

def eagain : Int := 11

def einval : Int := 22

/-- The spinlocks of the structure. -/
inductive SpinLock where
  | kconfig
  | kthread
  | irqDone
  | ongoing
  | cirBuf
  deriving DecidableEq

/-! ## The actions -/

/-- A call into the kernel. -/
inductive Call where
  | gpioRequest (line : Int)
  | gpioDirectionOutput (line value : Int)
  | gpioDirectionInput (line : Int)
  | gpioSetValue (line value : Int)
  | gpioFree (line : Int)
  | gpioToIrq (line : Int)
  | requestIrq (irq : Int)
  | freeIrq (irq : Int)
  | copyFromUser
  | copyToUser (value : Int)
  | kthreadRun
  | kthreadStop (task : Int)
  | ktimeGet
  | udelay (us : Nat)
  | msleep (ms : Nat)
  deriving DecidableEq

inductive Act where
  | lock (l : SpinLock)
  | unlock (l : SpinLock)
  /-- Reads the structure. -/
  | load
  /-- Writes a field of the structure. -/
  | store (f : Hcsr → Hcsr)
  /-- Writes through a NULL pointer. -/
  | storeNull
  /-- Reads `cirb.buf.data[i]`. -/
  | slot (i : Int)
  | call (c : Call)
  /-- A loop is still going round when the observation ends. -/
  | spin

/-- What an action answers. -/
@[reducible] def Act.Answer : Act → Type
  | .load => Hcsr
  | .slot _ => Int
  | .call _ => Int
  | .spin => Empty
  | _ => Unit

/-- A function of the driver. -/
abbrev Code (α : Type) : Type := Prog Act Act.Answer α

def lock (l : SpinLock) : Code Unit := perform (Act.lock l)

def unlock (l : SpinLock) : Code Unit := perform (Act.unlock l)

def load : Code Hcsr := perform Act.load

def store (f : Hcsr → Hcsr) : Code Unit := perform (Act.store f)

def storeNull : Code Unit := perform Act.storeNull

def slot (i : Int) : Code Int := perform (Act.slot i)

def call (c : Call) : Code Int := perform (Act.call c)

def spin : Code Unit := .act .spin fun e => nomatch e

/-! ## What the actions do -/

inductive Fault where
  /-- The lock is already held by the caller, which now waits for itself. -/
  | relock (l : SpinLock)
  | notHeld (l : SpinLock)
  | null
  | spinning
  deriving DecidableEq

structure St where
  hcsr : Hcsr
  /-- The locks the running function holds. -/
  held : List SpinLock
  /-- The calls made, with what they returned, last one first. -/
  log : List (Call × Int)
  /-- The reads of the structure so far. -/
  reads : Nat

/-- Whatever is outside the running function. -/
structure Env where
  answer : List (Call × Int) → Call → Int
  /-- What the interrupt and the sampling thread have made of `ongoing` and the
      buffer by the n-th read. -/
  others : Nat → Int × CirBuf → Int × CirBuf
  /-- The memory beside the array of samples. -/
  beside : Int → Int
  /-- The page at address 0 can be written. -/
  nullPage : Bool

/-- The structure as the n-th read finds it. -/
def Hcsr.seen (h : Hcsr) (env : Env) (n : Nat) : Hcsr :=
  { h with
    ongoing := (env.others n (h.ongoing, h.cirb)).1
    cirb := (env.others n (h.ongoing, h.cirb)).2 }

def CirBuf.at (b : CirBuf) (env : Env) (i : Int) : Int :=
  if h : 0 ≤ i ∧ i < 5 then b.data ⟨i.toNat, by omega⟩ else env.beside i

def sem (env : Env) : (a : Act) → St → Except Fault (a.Answer × St)
  | .lock l, s =>
      if l ∈ s.held then .error (.relock l)
      else .ok ((), { s with held := l :: s.held })
  | .unlock l, s =>
      if l ∈ s.held then .ok ((), { s with held := s.held.erase l })
      else .error (.notHeld l)
  | .load, s =>
      .ok (s.hcsr.seen env s.reads,
        { s with hcsr := s.hcsr.seen env s.reads, reads := s.reads + 1 })
  | .store f, s => .ok ((), { s with hcsr := f s.hcsr })
  -- the write misses the device, if it goes through
  | .storeNull, s => if env.nullPage then .ok ((), s) else .error .null
  | .slot i, s => .ok (s.hcsr.cirb.at env i, s)
  | .call c, s =>
      .ok (env.answer s.log c, { s with log := (c, env.answer s.log c) :: s.log })
  | .spin, _ => .error .spinning

/-! ## A rule for each action -/

section Rules
variable {env : Env} {ok : Fault → Prop} {s : St}

@[simp] theorem wp_lock (l : SpinLock) (Q : Unit → St → Prop) :
    wp (sem env) ok (lock l) s Q ↔
      (l ∈ s.held → ok (.relock l)) ∧
      (l ∉ s.held → Q () { s with held := l :: s.held }) := by
  rw [lock, wp_perform]
  by_cases h : l ∈ s.held
  · simp [sem, ends, h]
  · simp [sem, ends, h]

@[simp] theorem wp_unlock (l : SpinLock) (Q : Unit → St → Prop) :
    wp (sem env) ok (unlock l) s Q ↔
      (l ∈ s.held → Q () { s with held := s.held.erase l }) ∧
      (l ∉ s.held → ok (.notHeld l)) := by
  rw [unlock, wp_perform]
  by_cases h : l ∈ s.held
  · simp [sem, ends, h]
  · simp [sem, ends, h]

@[simp] theorem wp_load (Q : Hcsr → St → Prop) :
    wp (sem env) ok load s Q ↔
      Q (s.hcsr.seen env s.reads)
        { s with hcsr := s.hcsr.seen env s.reads, reads := s.reads + 1 } := by
  rw [load, wp_perform]
  rfl

@[simp] theorem wp_store (f : Hcsr → Hcsr) (Q : Unit → St → Prop) :
    wp (sem env) ok (store f) s Q ↔ Q () { s with hcsr := f s.hcsr } := by
  rw [store, wp_perform]
  rfl

@[simp] theorem wp_storeNull (Q : Unit → St → Prop) :
    wp (sem env) ok storeNull s Q ↔
      (env.nullPage = true → Q () s) ∧ (env.nullPage = false → ok .null) := by
  rw [storeNull, wp_perform]
  by_cases h : env.nullPage
  · simp [sem, ends, h]
  · simp [sem, ends, h]

@[simp] theorem wp_slot (i : Int) (Q : Int → St → Prop) :
    wp (sem env) ok (slot i) s Q ↔ Q (s.hcsr.cirb.at env i) s := by
  rw [slot, wp_perform]
  rfl

@[simp] theorem wp_call (c : Call) (Q : Int → St → Prop) :
    wp (sem env) ok (call c) s Q ↔
      Q (env.answer s.log c) { s with log := (c, env.answer s.log c) :: s.log } := by
  rw [call, wp_perform]
  rfl

@[simp] theorem wp_spin (Q : Unit → St → Prop) :
    wp (sem env) ok spin s Q ↔ ok .spinning := Iff.rfl

end Rules

/-- Nobody else writes the configuration or the thread's handle. -/
@[simp] theorem seen_workingMode (h : Hcsr) (env : Env) (n : Nat) :
    (h.seen env n).workingMode = h.workingMode := rfl

@[simp] theorem seen_kthread (h : Hcsr) (env : Env) (n : Nat) :
    (h.seen env n).kthread = h.kthread := rfl

end HcSr04
