import KernelRocks.HcSr04DeviceProofs
import KernelRocks.InterleavingProofs

/-! # The HC-SR04 drivers as interleaved tasks

    Callers in `hc_sr04_read`, `hc_sr04_write`, the SETMODE ioctl and
    `enable_store`, the sampling threads they start and stop, and the echo
    interrupt take turns on one device.  A turn is one access to the device: a
    lock taken, a lock released, or one statement between.

    The miscdevice driver and the SYSFS driver share this code; the one
    difference on it is `do_send`, which in the SYSFS driver takes
    `kconfig_lock` to read the trigger pin (`Version`).

    * `spin_lock` is not possible while the lock is held.
    * `kthread_stop` is two turns: the request, and the wait until the thread
      has left `thread_function`.
    * The clock counts nanoseconds and may advance at any moment.
    * The interrupt of one line is handled once at a time.
    * What the calls return, and which pin carries the pulse, is in the
      interface module. -/

namespace HcSr04Machine

open Interleaving
open HcSr04 (ModeSet SpinLock Version oneShot periodic)

/-! ## Tasks, memory and places -/

/-- The n-th caller, the n-th thread ever started, the interrupt. -/
inductive Task where
  | caller (n : Nat)
  | thread (n : Nat)
  | irq
  deriving DecidableEq

/-- A distance on its way from the interrupt to the buffer.  `session` is the
    claim under which the interrupt was accepted, `stampedBy` the claim whose
    `do_send` had recorded the `kstart` that was used. -/
structure Sample where
  session : Nat
  stampedBy : Nat
  kstart : Nat
  kend : Nat
  distance : Nat
  deriving DecidableEq

structure Mem where
  holder : SpinLock → Option Task
  mode : Int
  freq : BitVec 32
  enable : Int
  /-- `NULL` is `none`. -/
  kthread : Option Nat
  kstart : Nat
  /-- `ongoing == ONGOING`; the other value is `STOPPING`. -/
  ongoing : Bool
  newest : Int
  data : Fin 5 → Int
  /-- The threads started so far. -/
  born : Nat
  /-- `kthread_should_stop` of a thread. -/
  stop : Nat → Bool
  /-- The thread has left `thread_function`. -/
  ended : Nat → Bool
  clock : Nat
  /-- How often a `send` has found STOPPING and set ONGOING. -/
  claims : Nat
  /-- The claim whose `do_send` recorded `kstart` last. -/
  stampedBy : Nat
  /-- The samples since the buffer was last cleared. -/
  since : Nat
  /-- Every sample ever stored, the last one first. -/
  stored : List Sample

/-- The device has just been initialised. -/
def Mem.initial : Mem where
  holder := fun _ => none
  mode := oneShot
  freq := 0
  enable := 0
  kthread := none
  kstart := 0
  ongoing := false
  newest := -1
  data := fun _ => 0
  born := 0
  stop := fun _ => false
  ended := fun _ => false
  clock := 0
  claims := 0
  stampedBy := 0
  since := 0
  stored := []

/-- Where a `send` call returns to. -/
inductive Back where
  | read
  | write
  | enable
  | thread (n : Nat)
  deriving DecidableEq

/-- A `send` call that has claimed the device: where it returns to, how many more
    times it will try, and the number of its claim. -/
structure Pulse where
  back : Back
  left : Nat
  session : Nat
  deriving DecidableEq

/-- Who starts or stops the thread: `hc_sr04_write`, SETMODE to periodic, SETMODE to
    one-shot, `enable_store` of 0 and of 1. -/
inductive Keeper where
  | write
  | restart
  | halt
  | disable
  | enable
  deriving DecidableEq

/-- A place in the code. -/
inductive Pc where
  /-- In no call. -/
  | idle
  | lock (l : SpinLock) (k : Pc)
  | unlock (l : SpinLock) (k : Pc)
  /-- `send`, under the lock: test and claim. -/
  | sendTest (b : Back)
  /-- `do_send`: the pin, under `kconfig_lock` (SYSFS only). -/
  | readPin (p : Pulse)
  | pulse (p : Pulse)
  | clock (p : Pulse)
  | stamp (p : Pulse) (now : Nat)
  /-- The first test of the loop, under the lock. -/
  | pollFirst (p : Pulse)
  | count (p : Pulse) (counter : Nat)
  | poll (p : Pulse) (counter : Nat)
  | timeOut (p : Pulse)
  | sendReturn (b : Back)
  -- hc_sr04_read
  | readMode
  | shotTest (b : Back)
  | spinIf
  | spinWhile
  /-- The copy of `data[newest]` that ends both branches. -/
  | copy
  | perTest
  | perCopy
  | recheck
  -- hc_sr04_write
  | writeMode (act : Int)
  | clearBuf
  | clearNewest
  | writeThread (act : Int)
  -- ioctl_SETMODE
  | setMode (workingMode : ModeSet)
  | testThread
  -- starting and stopping the thread
  | stopThread (k : Keeper) (n : Nat)
  | stopWait (k : Keeper) (n : Nat)
  | clearHandle (k : Keeper)
  | runThread (k : Keeper)
  | setHandle (k : Keeper) (n : Nat)
  /-- `ongoing = STOPPING` behind a stop. -/
  | stopFlag (k : Keeper)
  -- enable_store
  | disable
  | enableTest
  | enableMode
  /-- The store at the end; `again` if `kconfig_lock` is still held from above. -/
  | enableFlag (value : Int) (again : Bool)
  -- thread_function
  | unborn (n : Nat)
  | period (n : Nat)
  | sleep (n : Nat)
  | stopTest (n : Nat)
  | ended
  /-- 1000 / 0. -/
  | oops
  -- echo_recv_isr
  | irqTest
  | irqClock (session : Nat)
  | irqDiff (session kend : Nat)
  | irqNewest (x : Sample)
  | irqData (x : Sample)
  | irqStop
  deriving DecidableEq

/-! ## The code -/

def send (b : Back) : Pc := .lock .ongoing (.sendTest b)

def Back.pc : Back → Pc
  | .read => .spinIf
  | .write => .idle
  | .enable => .lock .kconfig (.enableFlag 1 false)
  | .thread n => .sleep n

/-- `retry_cnt`. -/
def Back.retryCnt : Back → Nat
  | .thread _ => 3
  | _ => 5

def doSend (v : Version) (p : Pulse) : Pc :=
  match v with
  | .misc => .pulse p
  | .sysfs => .lock .kconfig (.readPin p)

/-- Behind a `do_send` that timed out. -/
def retry (v : Version) (p : Pulse) : Pc :=
  match p.left with
  | 0 => .sendReturn p.back
  | left + 1 => doSend v { p with left := left }

def Keeper.cleared : Keeper → Pc
  | .write => .lock .ongoing (.stopFlag .write)
  | .disable => .unlock .kthread (.lock .ongoing (.stopFlag .disable))
  | _ => .unlock .kthread (.unlock .kconfig .idle)

def Keeper.started : Keeper → Pc
  | .write | .disable => .unlock .kthread .idle
  | .enable => .unlock .kthread (.lock .kconfig (.enableFlag 1 true))
  | _ => .unlock .kthread (.unlock .kconfig .idle)

def Keeper.flagged : Keeper → Pc
  | .write => .unlock .ongoing (.unlock .kthread .idle)
  | _ => .unlock .ongoing (.lock .kconfig (.enableFlag 0 false))

/-- `data[newest] = distance`. -/
def setSlot (data : Fin 5 → Int) (i : Int) (x : Int) : Fin 5 → Int :=
  fun j => if (j : Int) = i then x else data j

/-- `diff/5800`, with `diff` an `unsigned int`. -/
def distance (kend kstart : Nat) : Nat := (((kend : Int) - kstart) % 2 ^ 32).toNat / 5800

def Mem.setHolder (m : Mem) (l : SpinLock) (o : Option Task) : Mem :=
  { m with holder := Function.update m.holder l o }

section Machine
variable (v : Version)

/-- The next turn of a task on its own code. -/
def next (t : Task) (m : Mem) : Pc → Option (Mem × Pc)
  | .idle => none
  | .lock l k => if m.holder l = none then some (m.setHolder l (some t), k) else none
  | .unlock l k => some (m.setHolder l none, k)
  | .sendTest b =>
      if m.ongoing then some (m, .unlock .ongoing b.pc)
      else some ({ m with ongoing := true, claims := m.claims + 1 },
        .unlock .ongoing (doSend v ⟨b, b.retryCnt, m.claims + 1⟩))
  | .readPin p => some (m, .unlock .kconfig (.pulse p))
  | .pulse p => some (m, .clock p)
  | .clock p => some (m, .stamp p m.clock)
  | .stamp p now =>
      some ({ m with kstart := now, stampedBy := p.session }, .lock .ongoing (.pollFirst p))
  | .pollFirst p =>
      some (m, .unlock .ongoing (if m.ongoing then .count p 0 else .sendReturn p.back))
  | .count p c =>
      some (m, if c + 1 > 50000 then .lock .ongoing (.timeOut p) else .poll p (c + 1))
  -- this test is made without the lock
  | .poll p c => some (m, if m.ongoing then .count p c else .sendReturn p.back)
  | .timeOut p => some ({ m with ongoing := false }, .unlock .ongoing (retry v p))
  | .sendReturn b => some (m, b.pc)
  | .readMode =>
      some (m, .unlock .kconfig (if m.mode = oneShot then .lock .ongoing (.shotTest .read)
        else .lock .cirBuf .perTest))
  | .shotTest b => some (m, .unlock .ongoing (if m.ongoing then b.pc else send b))
  | .spinIf => some (m, if m.ongoing then .spinWhile else .lock .cirBuf .copy)
  | .spinWhile => some (m, if m.ongoing then .spinWhile else .spinIf)
  | .copy => some (m, .unlock .cirBuf .idle)
  | .perTest =>
      some (m, if m.newest ≠ -1 then .perCopy else .unlock .cirBuf (.lock .cirBuf .recheck))
  | .perCopy => some (m, .unlock .cirBuf .idle)
  | .recheck =>
      some (m, .unlock .cirBuf (.lock .cirBuf (if m.newest = -1 then .recheck else .copy)))
  | .writeMode act =>
      some (m, .unlock .kconfig
        (if m.mode = oneShot then
          (if act ≠ 0 then .lock .cirBuf .clearBuf else .lock .ongoing (.shotTest .write))
        else .lock .kthread (.writeThread act)))
  | .clearBuf => some ({ m with data := fun _ => 0 }, .clearNewest)
  | .clearNewest =>
      some ({ m with newest := -1, since := 0 },
        .unlock .cirBuf (.lock .ongoing (.shotTest .write)))
  | .writeThread act =>
      match m.kthread with
      | none => some (m, if act = 0 then .unlock .kthread .idle else .runThread .write)
      | some n => some (m, if act = 0 then .stopThread .write n else .unlock .kthread .idle)
  | .setMode w => some ({ m with mode := w.mode, freq := w.freq }, .lock .kthread .testThread)
  | .testThread =>
      match m.kthread with
      | none => some (m, .unlock .kthread (.unlock .kconfig .idle))
      | some n => some (m, .stopThread (if m.mode ≠ oneShot then .restart else .halt) n)
  | .stopThread k n => some ({ m with stop := Function.update m.stop n true }, .stopWait k n)
  | .stopWait k n =>
      if m.ended n then some (m, if k = .restart then .runThread k else .clearHandle k) else none
  | .clearHandle k => some ({ m with kthread := none }, k.cleared)
  | .runThread k => some ({ m with born := m.born + 1 }, .setHandle k m.born)
  | .setHandle k n => some ({ m with kthread := some n }, k.started)
  | .stopFlag k => some ({ m with ongoing := false }, k.flagged)
  | .disable =>
      match m.kthread with
      | none => some (m, .unlock .kthread (.lock .ongoing (.stopFlag .disable)))
      | some n => some (m, .stopThread .disable n)
  -- the handle is tested with no lock held
  | .enableTest => some (m, if m.kthread = none then .lock .kconfig .enableMode else .idle)
  | .enableMode =>
      some (m, if m.mode = oneShot then .unlock .kconfig (.lock .ongoing (.shotTest .enable))
        else .lock .kthread (.runThread .enable))
  | .enableFlag value _ => some ({ m with enable := value }, .unlock .kconfig .idle)
  -- a thread told to stop before its first turn never enters thread_function
  | .unborn n =>
      if n < m.born then
        (if m.stop n then some ({ m with ended := Function.update m.ended n true }, .ended)
        else some (m, .period n))
      else none
  | .period n => some (m, if m.freq = 0 then .oops else send (.thread n))
  | .sleep n => some (m, .stopTest n)
  | .stopTest n =>
      if m.stop n then some ({ m with ended := Function.update m.ended n true }, .ended)
      else some (m, send (.thread n))
  | .ended => none
  | .oops => none
  | .irqTest =>
      some (m, .unlock .ongoing
        (if m.ongoing then .irqClock m.claims else .lock .ongoing .irqStop))
  | .irqClock s => some (m, .irqDiff s m.clock)
  | .irqDiff s kend =>
      some (m, .lock .cirBuf
        (.irqNewest ⟨s, m.stampedBy, m.kstart, kend, distance kend m.kstart⟩))
  | .irqNewest x =>
      some ({ m with newest := (m.newest + 1).tmod 5, since := m.since + 1 }, .irqData x)
  | .irqData x =>
      some ({ m with data := setSlot m.data m.newest x.distance, stored := x :: m.stored },
        .unlock .cirBuf (.lock .ongoing .irqStop))
  | .irqStop => some ({ m with ongoing := false }, .unlock .ongoing .idle)

/-- A call, with its argument.  SETMODE gets nothing when its copy fails;
    `enable_store` gets what `sscanf` returned and read. -/
inductive Call where
  | read
  | write (act : Int)
  | setMode (arg : Option ModeSet)
  | enable (ret value : Int)
  deriving DecidableEq

/-- The first place of a call; `idle` if it returns at once. -/
def Call.entry : Call → Pc
  | .read => .lock .kconfig .readMode
  | .write act => .lock .kconfig (.writeMode act)
  | .setMode none => .idle
  | .setMode (some w) =>
      if oneShot ≠ w.mode ∧ periodic ≠ w.mode then .idle else .lock .kconfig (.setMode w)
  | .enable ret value =>
      if 0 ≥ ret then .idle
      else if value = 0 then .lock .kthread .disable
      else if value = 1 then .enableTest
      else .idle

inductive Act where
  | call (c : Call)
  /-- The echo line rises. -/
  | fire
  | run
  /-- Time passes. -/
  | tick (ns : Nat)
  deriving DecidableEq

/-- `enable_store` is the SYSFS driver's. -/
def hasCall : Version → Call → Bool
  | .misc, .enable _ _ => false
  | _, _ => true

def exec (t : Task) (m : Mem) (q : Pc) : Act → Option (Mem × Pc)
  | .call c =>
      match t, q with
      | .caller _, .idle => if hasCall v c then some (m, c.entry) else none
      | _, _ => none
  | .fire =>
      match t, q with
      | .irq, .idle => some (m, .lock .ongoing .irqTest)
      | _, _ => none
  | .run => next v t m q
  | .tick ns => some ({ m with clock := m.clock + ns }, q)

abbrev State := Sys Task Mem Pc

/-- Nobody is in a call and no thread has been started. -/
def State.initial : State where
  mem := Mem.initial
  loc
    | .thread n => .unborn n
    | _ => .idle

abbrev ReachWhen (C : State → Task → Act → Prop) : State → Prop :=
  Reach (exec v) C State.initial

/-- The state after a schedule of these tasks whose turns all pass a test. -/
def scheduled (ts : List Task) (ok : State → Task → Act → Bool) (sched : List (Task × Act)) :
    State :=
  runAmong (exec v) State.initial ts ok sched

theorem reach_scheduled {ts : List Task} {ok : State → Task → Act → Bool}
    {C : State → Task → Act → Prop}
    (hok : ∀ s t a, Among ts State.initial s → ok s t a = true → C s t a)
    (sched : List (Task × Act)) : ReachWhen v C (scheduled v ts ok sched) :=
  Reach.of_runAmong hok sched

end Machine

/-! ## Who holds which lock -/

def Keeper.held : Keeper → List SpinLock
  | .write => [.kthread]
  | .disable => [.kthread]
  | _ => [.kthread, .kconfig]

/-- The locks a task holds at a place, the last one taken first. -/
def Pc.held : Pc → List SpinLock
  | .lock _ k => k.held.tail
  | .unlock l k => l :: k.held
  | .sendTest _ => [.ongoing]
  | .readPin _ => [.kconfig]
  | .pollFirst _ => [.ongoing]
  | .timeOut _ => [.ongoing]
  | .readMode => [.kconfig]
  | .shotTest _ => [.ongoing]
  | .copy => [.cirBuf]
  | .perTest => [.cirBuf]
  | .perCopy => [.cirBuf]
  | .recheck => [.cirBuf]
  | .writeMode _ => [.kconfig]
  | .clearBuf => [.cirBuf]
  | .clearNewest => [.cirBuf]
  | .writeThread _ => [.kthread]
  | .setMode _ => [.kconfig]
  | .testThread => [.kthread, .kconfig]
  | .stopThread k _ => k.held
  | .stopWait k _ => k.held
  | .clearHandle k => k.held
  | .runThread k => k.held
  | .setHandle k _ => k.held
  | .stopFlag .write => [.ongoing, .kthread]
  | .stopFlag _ => [.ongoing]
  | .disable => [.kthread]
  | .enableMode => [.kconfig]
  | .enableFlag _ true => [.kconfig, .kconfig]
  | .enableFlag _ false => [.kconfig]
  | .irqTest => [.ongoing]
  | .irqNewest _ => [.cirBuf]
  | .irqData _ => [.cirBuf]
  | .irqStop => [.ongoing]
  | _ => []

/-- The lock a task waits for. -/
def Pc.spinsOn : Pc → Option SpinLock
  | .lock l _ => some l
  | _ => none

/-- The place can be the first behind a `spin_lock`. -/
def Pc.start : Pc → Bool
  | .lock _ _ | .unlock _ _ | .perCopy | .irqData _ => false
  | _ => true

/-- The place can be the first behind a `spin_unlock`. -/
def Pc.resume : Pc → Bool
  | .copy | .perCopy | .irqData _ | .unborn _ | .ended | .oops => false
  | _ => true

/-- Behind every `spin_lock` the lock is the last one taken. -/
def Pc.Wf : Pc → Prop
  | .lock l k => k.held.head? = some l ∧ k.start = true ∧ k.Wf
  | .unlock _ k => k.resume = true ∧ k.Wf
  | _ => True

@[simp]
theorem wf_back (b : Back) : b.pc.Wf ∧ b.pc.resume = true := by
  cases b <;> simp [Back.pc, Pc.Wf, Pc.held, Pc.start, Pc.resume]

@[simp]
theorem held_back (b : Back) : b.pc.held = [] := by
  cases b <;> rfl

@[simp]
theorem wf_doSend (v : Version) (p : Pulse) :
    (doSend v p).Wf ∧ (doSend v p).resume = true := by
  cases v <;> simp [doSend, Pc.Wf, Pc.held, Pc.start, Pc.resume]

@[simp]
theorem held_doSend (v : Version) (p : Pulse) : (doSend v p).held = [] := by
  cases v <;> rfl

@[simp]
theorem wf_retry (v : Version) (p : Pulse) : (retry v p).Wf ∧ (retry v p).resume = true := by
  unfold retry
  split
  · exact ⟨trivial, rfl⟩
  · exact wf_doSend v _

@[simp]
theorem held_retry (v : Version) (p : Pulse) : (retry v p).held = [] := by
  unfold retry
  split
  · rfl
  · exact held_doSend v _

@[simp]
theorem wf_send (b : Back) : (send b).Wf ∧ (send b).resume = true :=
  ⟨⟨rfl, rfl, trivial⟩, rfl⟩

@[simp]
theorem held_send (b : Back) : (send b).held = [] := rfl

@[simp]
theorem wf_keeper (k : Keeper) : k.cleared.Wf ∧ k.started.Wf ∧ k.flagged.Wf := by
  cases k <;> simp [Keeper.cleared, Keeper.started, Keeper.flagged, Pc.Wf, Pc.held, Pc.start,
    Pc.resume]

@[simp]
theorem held_cleared (k : Keeper) : k.cleared.held = k.held := by
  cases k <;> rfl

@[simp]
theorem held_started (k : Keeper) : k.started.held = k.held := by
  cases k <;> rfl

@[simp]
theorem held_flagged (k : Keeper) : k.flagged.held = (Pc.stopFlag k).held := by
  cases k <;> rfl

/-- Where a call starts. -/
theorem entry_cases (c : Call) :
    c.entry = .idle ∨ c.entry = .lock .kconfig .readMode
      ∨ (∃ act, c.entry = .lock .kconfig (.writeMode act))
      ∨ (∃ w, c = .setMode (some w) ∧ c.entry = .lock .kconfig (.setMode w))
      ∨ (∃ ret value, c = .enable ret value
          ∧ (c.entry = .lock .kthread .disable ∨ c.entry = .enableTest)) := by
  cases c with
  | read => exact .inr (.inl rfl)
  | write act => exact .inr (.inr (.inl ⟨act, rfl⟩))
  | setMode arg =>
      cases arg with
      | none => exact .inl rfl
      | some w =>
          simp only [Call.entry]
          split
          · exact .inl rfl
          · exact .inr (.inr (.inr (.inl ⟨w, rfl, rfl⟩)))
  | enable ret value =>
      simp only [Call.entry]
      split_ifs
      · exact .inl rfl
      · exact .inr (.inr (.inr (.inr ⟨ret, value, rfl, .inl rfl⟩)))
      · exact .inr (.inr (.inr (.inr ⟨ret, value, rfl, .inr rfl⟩)))
      · exact .inl rfl

theorem wf_entry (c : Call) : c.entry.Wf ∧ c.entry.held = [] := by
  rcases entry_cases c with h | h | ⟨act, h⟩ | ⟨w, -, h⟩ | ⟨_, _, -, h | h⟩ <;> rw [h]
  all_goals simp [Pc.Wf, Pc.held, Pc.start]

section Turns
variable {v : Version} {t u : Task} {m m' : Mem} {q q' : Pc} {a : Act}

@[simp]
theorem setHolder_holder_self (m : Mem) (l : SpinLock) (o : Option Task) :
    (m.setHolder l o).holder l = o := by
  simp [Mem.setHolder]

theorem setHolder_holder_of_ne (m : Mem) {l l' : SpinLock} (o : Option Task) (h : l' ≠ l) :
    (m.setHolder l o).holder l' = m.holder l' := by
  simp [Mem.setHolder, h]

/-- A task gets past `spin_lock` once the lock is free. -/
theorem next_lock {l : SpinLock} {k : Pc} (h : next v t m (.lock l k) = some (m', q')) :
    m.holder l = none ∧ m' = m.setHolder l (some t) ∧ q' = k := by
  rw [next] at h
  split at h
  · rename_i hl
    cases h
    exact ⟨hl, rfl, rfl⟩
  · cases h

/-- What a turn does to the locks. -/
theorem next_locks (h : next v t m q = some (m', q')) (hw : q.Wf) (hn : q.held.Nodup) :
    (∃ l, q = .lock l q' ∧ m.holder l = none ∧ m' = m.setHolder l (some t))
      ∨ (∃ l, q = .unlock l q' ∧ m' = m.setHolder l none)
      ∨ (m'.holder = m.holder ∧ q'.held = q.held ∧ q'.Wf) := by
  cases q with
  | lock l k =>
      obtain ⟨hl, rfl, rfl⟩ := next_lock h
      exact .inl ⟨l, rfl, hl, rfl⟩
  | unlock l k =>
      cases h
      exact .inr (.inl ⟨l, rfl, rfl⟩)
  | enableFlag value again =>
      cases h
      cases again with
      | false => exact .inr (.inr ⟨rfl, rfl, rfl, trivial⟩)
      -- kconfig_lock would have been taken twice
      | true => simp [Pc.held] at hn
  | _ =>
      refine .inr (.inr ?_)
      simp only [next] at h
      repeat' split at h
      all_goals cases h
      all_goals simp [Pc.held, Pc.Wf, Keeper.held]
      all_goals simp [Pc.start, Pc.resume]

/-- A turn is the task's own code, a call, the interrupt or the clock. -/
theorem exec_cases (h : exec v t m q a = some (m', q')) :
    (a = .run ∧ next v t m q = some (m', q'))
      ∨ (∃ c n, a = .call c ∧ t = .caller n ∧ q = .idle ∧ hasCall v c = true ∧ m' = m
        ∧ q' = c.entry)
      ∨ (a = .fire ∧ t = .irq ∧ q = .idle ∧ m' = m ∧ q' = .lock .ongoing .irqTest)
      ∨ (∃ ns, a = .tick ns ∧ m' = { m with clock := m.clock + ns } ∧ q' = q) := by
  cases a with
  | run => exact .inl ⟨rfl, h⟩
  | call c =>
      simp only [exec] at h
      split at h
      · rename_i n
        split at h
        · rename_i hc
          cases h
          exact .inr (.inl ⟨c, n, rfl, rfl, rfl, hc, rfl, rfl⟩)
        · cases h
      · cases h
  | fire =>
      simp only [exec] at h
      split at h
      · cases h
        exact .inr (.inr (.inl ⟨rfl, rfl, rfl, rfl, rfl⟩))
      · cases h
  | tick ns =>
      cases h
      exact .inr (.inr (.inr ⟨ns, rfl, rfl, rfl⟩))

/-- A task holds exactly the locks its place says, each once. -/
structure Owns (t : Task) (m : Mem) (q : Pc) : Prop where
  wf : q.Wf
  nodup : q.held.Nodup
  holds : ∀ l, m.holder l = some t ↔ l ∈ q.held

theorem Pc.Wf.held_lock {l : SpinLock} {k : Pc} (h : (Pc.lock l k).Wf) :
    k.held = l :: (Pc.lock l k).held := by
  obtain ⟨hl, -⟩ := h
  rw [Pc.held]
  cases hk : k.held with
  | nil => rw [hk] at hl; cases hl
  | cons x xs =>
      rw [hk] at hl
      cases hl
      rfl

theorem Owns.next (ho : Owns t m q) (h : next v t m q = some (m', q')) : Owns t m' q' := by
  rcases next_locks h ho.wf ho.nodup with ⟨l, rfl, hl, rfl⟩ | ⟨l, rfl, rfl⟩ | ⟨hh, hq, hw⟩
  · have hk := ho.wf.held_lock
    have hnl : l ∉ (Pc.lock l q').held := by
      intro hmem
      rw [(ho.holds l).mpr hmem] at hl
      cases hl
    refine ⟨ho.wf.2.2, ?_, fun l' => ?_⟩
    · rw [hk]
      exact List.nodup_cons.mpr ⟨hnl, ho.nodup⟩
    · rw [hk]
      by_cases hl' : l' = l
      · subst hl'
        simp
      · rw [setHolder_holder_of_ne m _ hl', ho.holds l']
        simp [hl']
  · have hnd := List.nodup_cons.mp ho.nodup
    refine ⟨ho.wf.2, hnd.2, fun l' => ?_⟩
    by_cases hl' : l' = l
    · subst hl'
      simp [hnd.1]
    · rw [setHolder_holder_of_ne m _ hl', ho.holds l']
      show l' ∈ l :: q'.held ↔ _
      simp [hl']
  · exact ⟨hw, hq ▸ ho.nodup, fun l => by rw [hh, hq]; exact ho.holds l⟩

/-- What another task does to the locks does not change what a task holds. -/
theorem Owns.holder_iff (ho : Owns t m q) (h : exec v t m q a = some (m', q')) (htu : t ≠ u)
    (l : SpinLock) : m'.holder l = some u ↔ m.holder l = some u := by
  rcases exec_cases h with ⟨-, h⟩ | ⟨c, n, -, -, -, -, rfl, -⟩ | ⟨-, -, -, rfl, -⟩
    | ⟨ns, -, rfl, -⟩
  · rcases next_locks h ho.wf ho.nodup with ⟨l', rfl, hl, rfl⟩ | ⟨l', rfl, rfl⟩ | ⟨hh, -, -⟩
    · by_cases hl' : l = l'
      · subst hl'
        simp [hl, htu]
      · rw [setHolder_holder_of_ne m _ hl']
    · by_cases hl' : l = l'
      · subst hl'
        have := (ho.holds l).mpr List.mem_cons_self
        simp [this, htu]
      · rw [setHolder_holder_of_ne m _ hl']
    · rw [hh]
  · rfl
  · rfl
  · rfl

theorem Owns.exec (ho : Owns t m q) (h : exec v t m q a = some (m', q')) : Owns t m' q' := by
  rcases exec_cases h with ⟨-, h⟩ | ⟨c, n, -, -, rfl, -, rfl, rfl⟩ | ⟨-, -, rfl, rfl, rfl⟩
    | ⟨ns, -, rfl, rfl⟩
  · exact ho.next h
  · obtain ⟨hw, hh⟩ := wf_entry c
    exact ⟨hw, by simp [hh], fun l => by rw [hh]; exact ho.holds l⟩
  · exact ⟨⟨rfl, rfl, trivial⟩, List.nodup_nil, ho.holds⟩
  · exact ⟨ho.wf, ho.nodup, ho.holds⟩

end Turns

/-- **OWNERSHIP**: in every run each task holds exactly the locks its place says. -/
theorem reach_owns {v : Version} {C : State → Task → Act → Prop} {s : State}
    (h : ReachWhen v C s) (t : Task) : Owns t s.mem (s.loc t) := by
  refine (Reach.modular (I := fun _ => True) (P := Owns) ?_ ?_ ?_ h).2 t
  · refine ⟨trivial, fun t => ?_⟩
    cases t <;> exact ⟨trivial, List.nodup_nil, fun _ => ⟨nofun, nofun⟩⟩
  · intro s t a m' q' _ _ _ hP he
    exact ⟨trivial, hP.exec he⟩
  · intro s t u a m' q' _ _ htu _ ht hu he
    exact ⟨hu.wf, hu.nodup, fun l => (ht.holder_iff he htu l).trans (hu.holds l)⟩

/-- Two tasks never hold one lock. -/
theorem reach_exclusive {v : Version} {C : State → Task → Act → Prop} {s : State}
    (h : ReachWhen v C s) {t u : Task} {l : SpinLock} (ht : l ∈ (s.loc t).held)
    (hu : l ∈ (s.loc u).held) : t = u := by
  have h1 := ((reach_owns h t).holds l).mpr ht
  have h2 := ((reach_owns h u).holds l).mpr hu
  exact Option.some.inj (h1.symm.trans h2)

/-! ## Which task runs which code -/

/-- The task a `send` returns into. -/
def Back.of (b : Back) (t : Task) : Prop :=
  match b, t with
  | .thread n, .thread n' => n = n'
  | .thread _, _ => False
  | _, .caller _ => True
  | _, _ => False

/-- The place lies in the code the task runs. -/
def Pc.of (t : Task) : Pc → Prop
  | .idle => ∀ n, t ≠ .thread n
  | .lock _ k | .unlock _ k => k.of t
  | .sendTest b | .sendReturn b => b.of t
  | .shotTest b => b.of t ∧ ∃ n, t = .caller n
  | .readPin p | .pulse p | .clock p | .stamp p _ | .pollFirst p | .count p _ | .poll p _
  | .timeOut p => p.back.of t
  | .unborn n | .period n | .sleep n | .stopTest n => t = .thread n
  | .ended | .oops => ∃ n, t = .thread n
  | .irqTest | .irqClock _ | .irqDiff _ _ | .irqNewest _ | .irqData _ | .irqStop => t = .irq
  | _ => ∃ n, t = .caller n

section Code
variable {v : Version} {t : Task} {m m' : Mem} {q q' : Pc} {a : Act}

theorem of_back {b : Back} (h : b.of t) : b.pc.of t := by
  cases b <;> cases t <;> simp_all [Back.of, Back.pc, Pc.of]

theorem of_doSend {p : Pulse} (h : p.back.of t) : (doSend v p).of t := by
  cases v <;> exact h

theorem of_retry {p : Pulse} (h : p.back.of t) : (retry v p).of t := by
  unfold retry
  split
  · exact h
  · exact of_doSend h

theorem of_entry (c : Call) (n : Nat) : c.entry.of (.caller n) := by
  rcases entry_cases c with h | h | ⟨act, h⟩ | ⟨w, -, h⟩ | ⟨_, _, -, h | h⟩ <;> rw [h]
  · exact nofun
  all_goals exact ⟨n, rfl⟩

theorem of_keeper {k : Keeper} {n : Nat} :
    k.cleared.of (.caller n) ∧ k.started.of (.caller n) ∧ k.flagged.of (.caller n) := by
  cases k <;> simp [Keeper.cleared, Keeper.started, Keeper.flagged, Pc.of]

theorem Pc.of.next (ho : q.of t) (h : next v t m q = some (m', q')) : q'.of t := by
  cases q with
  | sendTest b =>
      rw [HcSr04Machine.next] at h
      split at h <;> cases h
      · exact of_back ho
      · exact of_doSend ho
  | timeOut p =>
      cases h
      exact of_retry ho
  | sendReturn b =>
      cases h
      exact of_back ho
  | shotTest b =>
      cases h
      show Pc.of t (if m.ongoing then b.pc else send b)
      split
      · exact of_back ho.1
      · exact ho.1
  | _ =>
      simp only [HcSr04Machine.next] at h
      repeat' split at h
      all_goals cases h
      all_goals simp_all [Pc.of, send, Back.of]
      all_goals obtain ⟨n, rfl⟩ := ho
      all_goals simp [of_keeper]

theorem Pc.of.exec (ho : q.of t) (h : exec v t m q a = some (m', q')) : q'.of t := by
  rcases exec_cases h with ⟨-, h⟩ | ⟨c, n, -, rfl, -, -, -, rfl⟩ | ⟨-, rfl, -, -, rfl⟩
    | ⟨ns, -, -, rfl⟩
  · exact ho.next h
  · exact of_entry c n
  · exact rfl
  · exact ho

end Code

/-- In every run each task is at a place of its own code. -/
theorem reach_of {v : Version} {C : State → Task → Act → Prop} {s : State}
    (h : ReachWhen v C s) (t : Task) : (s.loc t).of t := by
  refine (Reach.modular (I := fun _ => True) (P := fun t _ q => q.of t) ?_ ?_ ?_ h).2 t
  · refine ⟨trivial, fun t => ?_⟩
    cases t with
    | thread n => exact rfl
    | caller n => exact nofun
    | irq => exact nofun
  · intro s t a m' q' _ _ _ hP he
    exact ⟨trivial, hP.exec he⟩
  · intro s t u a m' q' _ _ _ _ _ hu _
    exact hu

end HcSr04Machine
