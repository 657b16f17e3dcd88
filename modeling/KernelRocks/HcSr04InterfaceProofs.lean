import KernelRocks.HcSr04DeviceProofs

/-! # The HC-SR04 interface — sysfs attributes, ioctl, read and write

    The functions of `hc_sr04_kernel.h` and `hc_sr04.h` of the SYSFS driver, as
    programs over the actions of the device: the pin functions with their table
    of GPIO lines, the pulse and its retries, the `_show` and `_store` function
    of every attribute, the two ioctl requests, `hc_sr04_read` and
    `hc_sr04_write`.  A label that several places jump to is a function of its
    own.

    * Messages to the kernel log are left out.
    * The loops that wait for the interrupt have no bound of their own; they
      take the number of rounds that are observed. -/

namespace HcSr04

open Program

/-! ## Text in and out -/

/-- A number as an `int` holds it. -/
def wrapInt (n : Int) : Int := n.bmod (2 ^ 32)

def isSpace (c : Char) : Bool := c ∈ [' ', '\t', '\n', '\x0b', '\x0c', '\r']

def readDigits (ds : List Char) : Int :=
  ds.foldl (fun n d => 10 * n + (d.toNat - '0'.toNat : Nat)) 0

/-- The kernel's `sscanf(buf, "%d", &v)` with `v` 0 before: the number of values
    read, and `v`. -/
def sscanf (buf : List Char) : Int × Int :=
  let text := buf.dropWhile isSpace
  match text with
  | '-' :: rest =>
      let digits := rest.takeWhile Char.isDigit
      if digits.isEmpty then (0, 0) else (1, wrapInt (-readDigits digits))
  | _ =>
      let digits := text.takeWhile Char.isDigit
      if digits.isEmpty then (0, 0) else (1, wrapInt (readDigits digits))

/-- `snprintf(buf, 10, "%d\n", v)`: what it returns, and what it leaves in the
    buffer. -/
def snprintfInt (v : Int) : Int × List Char :=
  let text := (toString v).toList ++ ['\n']
  (text.length, text.take 9)

/-! ## Pins -/

/-- The columns of the pin table. -/
inductive PinFunc where
  | gpioLinux
  | gpioLevel
  | gpioPull
  | gpioMux0
  | gpioMux1
  deriving DecidableEq

def pinFuncs : List PinFunc := [.gpioLinux, .gpioLevel, .gpioPull, .gpioMux0, .gpioMux1]

/-- A row of the table: the GPIO line of each column, -1 for none, and its value. -/
structure PinRow where
  gpioLinux : Int × Int
  gpioLevel : Int × Int
  gpioPull : Int × Int
  gpioMux0 : Int × Int
  gpioMux1 : Int × Int

def PinRow.at (row : PinRow) : PinFunc → Int × Int
  | .gpioLinux => row.gpioLinux
  | .gpioLevel => row.gpioLevel
  | .gpioPull => row.gpioPull
  | .gpioMux0 => row.gpioMux0
  | .gpioMux1 => row.gpioMux1

/-- `all_pins`, IO 0 to IO 19. -/
def allPins : List PinRow := [
  ⟨(11, 0), (32, -1), (33, 0), (-1, -1), (-1, -1)⟩,
  ⟨(12, 0), (28, -1), (29, 0), (45, 0), (-1, -1)⟩,
  ⟨(13, 0), (34, -1), (35, 0), (77, 0), (-1, -1)⟩,
  ⟨(14, 0), (16, -1), (17, 0), (76, 0), (64, 0)⟩,
  ⟨(6, 0), (36, -1), (37, 0), (-1, -1), (-1, -1)⟩,
  ⟨(0, 0), (18, -1), (19, 0), (66, 0), (-1, -1)⟩,
  ⟨(1, 0), (20, -1), (21, 0), (68, 0), (-1, -1)⟩,
  ⟨(38, 0), (-1, 0), (-1, 0), (-1, -1), (-1, -1)⟩,
  ⟨(40, 0), (-1, 0), (-1, 0), (-1, -1), (-1, -1)⟩,
  ⟨(4, 0), (22, -1), (23, 0), (70, 0), (-1, -1)⟩,
  ⟨(10, 0), (26, -1), (27, 0), (74, 0), (-1, -1)⟩,
  ⟨(5, 0), (24, -1), (25, 0), (44, 0), (72, 0)⟩,
  ⟨(15, 0), (42, -1), (43, 0), (-1, -1), (-1, -1)⟩,
  ⟨(7, 0), (30, -1), (31, 0), (46, 0), (-1, -1)⟩,
  ⟨(48, 0), (-1, 0), (-1, 0), (-1, -1), (-1, -1)⟩,
  ⟨(50, 0), (-1, 0), (-1, 0), (-1, -1), (-1, -1)⟩,
  ⟨(52, 0), (-1, 0), (-1, 0), (-1, -1), (-1, -1)⟩,
  ⟨(54, 0), (-1, 0), (-1, 0), (-1, -1), (-1, -1)⟩,
  ⟨(56, 0), (-1, 0), (-1, 0), (-1, -1), (-1, -1)⟩,
  ⟨(58, 0), (-1, 0), (-1, 0), (-1, -1), (-1, -1)⟩]

/-- Where a body leaves the two loops over the table. -/
inductive Leave where
  /-- `ERR_OPER_RETURN`. -/
  | oper (ret : Int)
  /-- `ERR_setTrig_RETURN`, `ERR_SETECHO_RETURN`. -/
  | request (ret : Int)

/-- The loop over the columns of a row. -/
def eachFunc (body : PinFunc → Code (Option Leave)) : List PinFunc → Code (Option Leave)
  | [] => pure none
  | m :: ms => do
      match ← body m with
      | none => eachFunc body ms
      | some out => pure (some out)

/-- The loop over the rows, which skips those of other pins. -/
def eachRow (pin : Int) (body : PinRow → PinFunc → Code (Option Leave)) :
    List PinRow → Code (Option Leave)
  | [] => pure none
  | row :: rows =>
      if pin ≠ (row.at .gpioLinux).1 then eachRow pin body rows
      else do
        match ← eachFunc (body row) pinFuncs with
        | none => eachRow pin body rows
        | some out => pure (some out)

def freeBody (skip : List PinFunc) (row : PinRow) (m : PinFunc) : Code (Option Leave) :=
  if m ∈ skip ∨ (row.at m).1 = -1 then pure none
  else do
    let _ ← call (.gpioFree (row.at m).1)
    pure none

def freeTrig (pin : Int) : Code Int := do
  let _ ← eachRow pin (freeBody [.gpioPull]) allPins
  return 0

def freeEcho (pin : Int) : Code Int := do
  let _ ← eachRow pin (freeBody []) allPins
  return 0

/-- Requests a line and sets its direction.  Only the results for the Linux and
    the level line are looked at. -/
def setBody (skip : List PinFunc) (direction : PinFunc → Int × Int → Call)
    (row : PinRow) (m : PinFunc) : Code (Option Leave) :=
  if m ∈ skip ∨ (row.at m).1 = -1 then pure none
  else do
    let ret ← call (.gpioRequest (row.at m).1)
    if ret ≠ 0 then pure (some (.request ret))
    else
      let ret ← call (direction m (row.at m))
      if (m = .gpioLinux ∨ m = .gpioLevel) ∧ ret ≠ 0 then pure (some (.oper ret))
      else pure none

def trigDirection : PinFunc → Int × Int → Call
  | .gpioMux0, (line, val) => .gpioDirectionOutput line val
  | .gpioMux1, (line, val) => .gpioDirectionOutput line val
  | _, (line, _) => .gpioDirectionOutput line 0

def echoDirection : PinFunc → Int × Int → Call
  | .gpioLinux, (line, _) => .gpioDirectionInput line
  | .gpioLevel, (line, _) => .gpioDirectionOutput line 1
  | .gpioPull, (line, _) => .gpioDirectionOutput line 0
  | _, (line, val) => .gpioDirectionOutput line val

def setTrig (pin : Int) : Code Int := do
  match ← eachRow pin (setBody [.gpioPull] trigDirection) allPins with
  | none => return 0
  | some (.oper ret) =>
      let _ ← call (.gpioFree pin)
      return ret
  | some (.request ret) => return ret

def setEcho (pin : Int) : Code Int := do
  match ← eachRow pin (setBody [] echoDirection) allPins with
  | none => return 0
  | some (.oper _) =>
      let _ ← call (.gpioFree pin)
      return -einval
  | some (.request _) => return -einval

def setISR : Code Int := do
  let h ← load
  let ret ← call (.gpioToIrq h.pins.echoPin)
  if 0 > ret then return -eagain
  else
    store fun h => { h with echoIsrNumber := ret }
    let h ← load
    let ret ← call (.requestIrq h.echoIsrNumber)
    if ret ≠ 0 then return -eagain
    else return 0

/-! ## The pulse -/

/-- Drops the lock of the first test of the loop; `cnt` says whether that is done. -/
def unlockOnce (cnt : Bool) : Code Unit :=
  if cnt then pure () else unlock .ongoing

/-- The loop of `do_send`, with `left` more rounds before the time-out. -/
def pollOngoing : Nat → Bool → Code Int
  | 0, cnt => do
      let h ← load
      if h.ongoing = ongoingFlag then
        unlockOnce cnt
        lock .ongoing
        store fun h => { h with ongoing := stoppingFlag }
        unlock .ongoing
        return -eagain
      else
        unlockOnce cnt
        return 0
  | left + 1, cnt => do
      let h ← load
      if h.ongoing = ongoingFlag then
        unlockOnce cnt
        let _ ← call (.udelay 1)
        pollOngoing left true
      else
        unlockOnce cnt
        return 0

def doSend : Code Int := do
  lock .kconfig
  let h ← load
  unlock .kconfig
  let _ ← call (.gpioSetValue h.pins.triggerPin 1)
  let _ ← call (.udelay 10)
  let _ ← call (.gpioSetValue h.pins.triggerPin 0)
  let now ← call .ktimeGet
  store fun h => { h with kstart := now }
  lock .ongoing
  pollOngoing 50000 false

/-- The loop of `send`. -/
def sendRetry : Nat → Code Int
  | 0 => doSend
  | left + 1 => do
      let ret ← doSend
      if ret ≠ 0 then sendRetry left
      else return ret

def send (retryCnt : Nat) : Code Int := do
  lock .ongoing
  let h ← load
  if h.ongoing = ongoingFlag then
    unlock .ongoing
    return 0
  else
    store fun h => { h with ongoing := ongoingFlag }
    unlock .ongoing
    sendRetry retryCnt

/-- The pulse of the one-shot mode, unless a measurement is under way; `send` is the
    driver's. -/
def sendIfStoppingWith (send : Nat → Code Int) : Code Unit := do
  let h ← load
  if h.ongoing = stoppingFlag then
    unlock .ongoing
    let _ ← send 5
  else
    unlock .ongoing

def sendIfStopping : Code Unit := sendIfStoppingWith send

/-! ## The attributes -/

/-- Shows a field of the configuration. -/
def showConfig (field : Hcsr → Int) : Code (Int × List Char) := do
  lock .kconfig
  let h ← load
  unlock .kconfig
  return snprintfInt (field h)

def triggerShow : Code (Int × List Char) := showConfig fun h => h.pins.triggerPin

def echoShow : Code (Int × List Char) := showConfig fun h => h.pins.echoPin

def modeShow : Code (Int × List Char) := showConfig fun h => h.workingMode.mode

def frequencyShow : Code (Int × List Char) := showConfig fun h => h.workingMode.freq.toInt

def enableShow : Code (Int × List Char) := showConfig fun h => h.enable

def distanceShow : Code (Int × List Char) := do
  lock .cirBuf
  let h ← load
  if h.cirb.newest = -1 then
    unlock .cirBuf
    return snprintfInt 0
  else
    let distance ← slot h.cirb.newest
    unlock .cirBuf
    return snprintfInt distance

/-- Writes a field of the configuration and returns `count`. -/
def storeConfig (f : Hcsr → Hcsr) (count : Nat) : Code Int := do
  lock .kconfig
  store f
  unlock .kconfig
  return count

def triggerStore (buf : List Char) (count : Nat) : Code Int := do
  let h ← load
  let _ ← freeTrig h.pins.triggerPin
  if 0 ≥ (sscanf buf).1 then return (sscanf buf).1
  else
    let ret ← setTrig (sscanf buf).2
    if 0 > ret then return ret
    else storeConfig (fun h => { h with pins.triggerPin := (sscanf buf).2 }) count

/-- `FAILED_SET` of `echo_store`. -/
def failedSet (prevPins : PinSet) (ret : Int) : Code Int := do
  store fun h => { h with pins := prevPins }
  unlock .kconfig
  return ret

/-- The interrupt of the old echo pin is given up before anything else. -/
def dropIrq (h : Hcsr) : Code Unit :=
  if h.irqDone = irqDoneFlag then do
    let _ ← call (.freeIrq h.echoIsrNumber)
    store fun h => { h with irqDone := irqNotDoneFlag }
  else pure ()

def echoStore (buf : List Char) (count : Nat) : Code Int := do
  lock .irqDone
  let h ← load
  dropIrq h
  unlock .irqDone
  let h ← load
  let _ ← freeEcho h.pins.echoPin
  lock .kconfig
  let h ← load
  if 0 ≥ (sscanf buf).1 then failedSet h.pins (sscanf buf).1
  else
    let ret ← setEcho (sscanf buf).2
    if 0 > ret then failedSet h.pins ret
    else
      store fun h => { h with pins.echoPin := (sscanf buf).2 }
      let ret ← setISR
      if 0 > ret then failedSet h.pins ret
      else
        lock .irqDone
        store fun h => { h with irqDone := irqDoneFlag }
        unlock .irqDone
        unlock .kconfig
        return count

def modeStore (buf : List Char) (count : Nat) : Code Int :=
  if oneShot ≠ (sscanf buf).2 ∧ periodic ≠ (sscanf buf).2 then return -einval
  else if 0 ≥ (sscanf buf).1 then return (sscanf buf).1
  else storeConfig (fun h => { h with workingMode.mode := (sscanf buf).2 }) count

def frequencyStore (buf : List Char) (count : Nat) : Code Int :=
  if 0 ≥ (sscanf buf).1 then return (sscanf buf).1
  else if 0 = (sscanf buf).2 then return -einval
  else storeConfig (fun h => { h with workingMode.freq := BitVec.ofInt 32 (sscanf buf).2 }) count

/-- `kthread_stop(hcsr->kthread)` and the handle cleared, if there is a thread. -/
def stopThread (h : Hcsr) : Code Unit :=
  match h.kthread with
  | none => pure ()
  | some task => do
      let _ ← call (.kthreadStop task)
      store fun h => { h with kthread := none }

/-- `hcsr->kthread = kthread_run(thread_function, ...)`. -/
def startThread : Code Unit := do
  let task ← call .kthreadRun
  store fun h => { h with kthread := some task }

def enableStore (buf : List Char) (count : Nat) : Code Int :=
  let enable := (sscanf buf).2
  if 0 ≥ (sscanf buf).1 then return (sscanf buf).1
  else if enable = 0 then do
    lock .kthread
    let h ← load
    stopThread h
    unlock .kthread
    lock .ongoing
    store fun h => { h with ongoing := stoppingFlag }
    unlock .ongoing
    storeConfig (fun h => { h with enable := enable }) count
  else if enable = 1 then do
    let h ← load
    if h.kthread.isSome then return count
    else
      lock .kconfig
      let h ← load
      if h.workingMode.mode = oneShot then
        unlock .kconfig
        lock .ongoing
        sendIfStopping
        storeConfig (fun h => { h with enable := enable }) count
      else
        -- kconfig_lock is still held
        lock .kthread
        startThread
        unlock .kthread
        storeConfig (fun h => { h with enable := enable }) count
  else return -einval

/-! ## The device file -/

/-- A write through `hcsr`, which may be NULL. -/
def storeUnless (null : Bool) (f : Hcsr → Hcsr) : Code Unit :=
  if null then storeNull else store f

/-- `ERR_SETPIN_RETURN`; `null` says whether `hcsr` is still NULL. -/
def errSetpinReturn (null : Bool) (ret : Int) : Code Int := do
  storeUnless null fun h => { h with pins.triggerPin := -1 }
  storeUnless null fun h => { h with pins.echoPin := -1 }
  unlock .irqDone
  return ret

/-- As `dropIrq`, but `irq_done` stays as it is. -/
def freeOldIrq (h : Hcsr) : Code Unit :=
  if h.irqDone = irqDoneFlag then do
    let _ ← call (.freeIrq h.echoIsrNumber)
    pure ()
  else pure ()

/-- SETPINS from where the new pins are stored; `setTrig` is the driver's. -/
def requestPinsWith (setTrig : Int → Code Int) : Code Int := do
  let h ← load
  let ret ← setTrig h.pins.triggerPin
  if ret ≠ 0 then errSetpinReturn false ret
  else
    let h ← load
    let ret ← setEcho h.pins.echoPin
    if ret ≠ 0 then errSetpinReturn false ret
    else
      let ret ← setISR
      if ret ≠ 0 then errSetpinReturn false ret
      else
        store fun h => { h with irqDone := irqDoneFlag }
        unlock .irqDone
        return 0

def ioctlSETPINsWith (setTrig : Int → Code Int) (pins : PinSet) : Code Int := do
  let left ← call .copyFromUser
  if left ≠ 0 then errSetpinReturn true (-eagain)
  else
    lock .irqDone
    let h ← load
    freeOldIrq h
    let h ← load
    let _ ← freeTrig h.pins.triggerPin
    let h ← load
    let _ ← freeEcho h.pins.echoPin
    store fun h => { h with pins := pins }
    requestPinsWith setTrig

def ioctlSETPINs (pins : PinSet) : Code Int := ioctlSETPINsWith setTrig pins

/-- A thread that is running goes on with the new period, or ends in one-shot mode. -/
def rearmThread (h : Hcsr) : Code Unit :=
  match h.kthread with
  | none => pure ()
  | some task =>
      if oneShot ≠ h.workingMode.mode then do
        let _ ← call (.kthreadStop task)
        startThread
      else stopThread h

def ioctlSETMODE (workingMode : ModeSet) : Code Int := do
  let left ← call .copyFromUser
  if left ≠ 0 then return -eagain
  else if oneShot ≠ workingMode.mode ∧ periodic ≠ workingMode.mode then return -einval
  else
    lock .kconfig
    store fun h => { h with workingMode := workingMode }
    lock .kthread
    let h ← load
    rearmThread h
    unlock .kthread
    unlock .kconfig
    return 0

/-- The request of an ioctl, with what its argument points to. -/
inductive Command where
  | setPins (pins : PinSet)
  | setMode (workingMode : ModeSet)
  | other

def hcSr04Ioctl : Command → Code Int
  | .setPins pins => ioctlSETPINs pins
  | .setMode workingMode => ioctlSETMODE workingMode
  | .other => return -einval

/-- The inner loop of `spin_ongoing`. -/
def whileOngoing : Nat → Code Unit
  | 0 => spin
  | rounds + 1 => do
      let h ← load
      if h.ongoing = ongoingFlag then
        let _ ← call (.udelay 1)
        whileOngoing rounds
      else pure ()

def spinOngoing : Nat → Code Unit
  | 0 => spin
  | rounds + 1 => do
      let h ← load
      if h.ongoing = ongoingFlag then
        whileOngoing rounds
        spinOngoing rounds
      else pure ()

/-- `RECHECK_BUF`: waits for a first sample. -/
def recheckBuf : Nat → Code Unit
  | 0 => spin
  | rounds + 1 => do
      lock .cirBuf
      let h ← load
      if h.cirb.newest = -1 then
        unlock .cirBuf
        let _ ← call (.msleep 10)
        recheckBuf rounds
      else unlock .cirBuf

/-- Copies the newest sample to the caller, with the buffer locked. -/
def deliver : Code Int := do
  lock .cirBuf
  let h ← load
  let distance ← slot h.cirb.newest
  let ret ← call (.copyToUser distance)
  unlock .cirBuf
  if ret ≠ 0 then return -eagain
  else return 0

def hcSr04Read (rounds : Nat) : Code Int := do
  lock .kconfig
  let h ← load
  if h.workingMode.mode = oneShot then
    unlock .kconfig
    lock .ongoing
    sendIfStopping
    spinOngoing rounds
    deliver
  else
    unlock .kconfig
    lock .cirBuf
    let h ← load
    if h.cirb.newest ≠ -1 then
      let distance ← slot h.cirb.newest
      -- the result of this copy is not looked at
      let _ ← call (.copyToUser distance)
      unlock .cirBuf
      return 0
    else
      unlock .cirBuf
      recheckBuf rounds
      deliver

/-- A write other than 0 empties the buffer. -/
def clearSamples (act : Int) : Code Unit :=
  if act ≠ 0 then do
    lock .cirBuf
    store fun h => { h with cirb.data := fun _ => 0 }
    store fun h => { h with cirb.newest := -1 }
    unlock .cirBuf
  else pure ()

/-- The periodic mode: 0 ends the thread, anything else starts one. -/
def switchThread (act : Int) (h : Hcsr) : Code Unit :=
  if act = 0 then
    match h.kthread with
    | none => pure ()
    | some _ => do
        stopThread h
        lock .ongoing
        store fun h => { h with ongoing := stoppingFlag }
        unlock .ongoing
  else
    match h.kthread with
    | none => startThread
    | some _ => pure ()

/-- `act` is what the copy from the caller leaves in the variable; whether it
    succeeded is not looked at. -/
def hcSr04WriteWith (send : Nat → Code Int) (act : Int) : Code Int := do
  let _ ← call .copyFromUser
  lock .kconfig
  let h ← load
  if h.workingMode.mode = oneShot then
    unlock .kconfig
    clearSamples act
    lock .ongoing
    sendIfStoppingWith send
    return 0
  else
    unlock .kconfig
    lock .kthread
    let h ← load
    switchThread act h
    unlock .kthread
    return 0

def hcSr04Write (act : Int) : Code Int := hcSr04WriteWith send act

end HcSr04
