import KernelRocks.HcSr04InterfaceProofs

/-! # The miscdevice driver — where its code differs

    `hc_sr04.c` and `hc_sr04_kernel.h` of the miscdevice driver are the older
    text of the same functions.  Against the SYSFS driver

    * `do_send` reads the trigger pin without `kconfig_lock`;
    * `setTrig` returns -EINVAL whatever failed;
    * the pins of a new device are 0, not -1.

    What the two share is written once, over the function that differs (the `With` forms
    of the interface). -/

namespace HcSr04

open Program

/-! ## A new device -/

/-- A structure that is all zero. -/
def Hcsr.zero : Hcsr where
  pins := ⟨0, 0⟩
  workingMode := ⟨0, 0⟩
  enable := 0
  irqDone := 0
  echoIsrNumber := 0
  kthread := none
  kstart := 0
  ongoing := 0
  cirb := ⟨0, fun _ => 0⟩

/-- What the two versions of `init_hcsr_struct` share. -/
def Hcsr.initialised (h : Hcsr) : Hcsr :=
  { h with
    kthread := none
    irqDone := irqNotDoneFlag
    echoIsrNumber := -1
    workingMode.mode := 0
    cirb.newest := -1 }

/-- `init_hcsr_struct` of the SYSFS driver, after `memset`. -/
def initHcsrStruct : Hcsr :=
  { Hcsr.zero.initialised with
    pins.triggerPin := -1
    pins.echoPin := -1 }

/-- `free_gpio`. -/
def freeGpio : Code Unit := do
  let h ← load
  let _ ← freeTrig h.pins.triggerPin
  let h ← load
  let _ ← freeEcho h.pins.echoPin

/-- `kthread_stop` of a running thread, at the exit. -/
def stopAtExit (h : Hcsr) : Code Unit :=
  match h.kthread with
  | none => pure ()
  | some task => do
      let _ ← call (.kthreadStop task)

/-- `hc_sr04_exit` of the SYSFS driver, up to the deregistration. -/
def hcSr04Exit : Code Unit := do
  let h ← load
  stopAtExit h
  lock .irqDone
  let h ← load
  freeOldIrq h
  freeGpio
  unlock .irqDone

/-! ## The miscdevice driver -/

namespace Misc

def doSend : Code Int := do
  let h ← load
  let _ ← call (.gpioSetValue h.pins.triggerPin 1)
  let _ ← call (.udelay 10)
  let _ ← call (.gpioSetValue h.pins.triggerPin 0)
  let now ← call .ktimeGet
  store fun h => { h with kstart := now }
  lock .ongoing
  pollOngoing 50000 false

/-- The loop of `send`. -/
def sendRetry : Nat → Code Int
  | 0 => doSend
  | left + 1 => do
      let ret ← doSend
      if ret ≠ 0 then sendRetry left
      else return ret

def send (retryCnt : Nat) : Code Int := do
  lock .ongoing
  let h ← load
  if h.ongoing = ongoingFlag then
    unlock .ongoing
    return 0
  else
    store fun h => { h with ongoing := ongoingFlag }
    unlock .ongoing
    sendRetry retryCnt

def hcSr04Write (act : Int) : Code Int := hcSr04WriteWith send act

/-- The same text in both drivers. -/
def ioctlSETMODE (workingMode : ModeSet) : Code Int := HcSr04.ioctlSETMODE workingMode

def setTrig (pin : Int) : Code Int := do
  match ← eachRow pin (setBody [.gpioPull] trigDirection) allPins with
  | none => return 0
  | some (.oper _) =>
      let _ ← call (.gpioFree pin)
      return -einval
  | some (.request _) => return -einval

def ioctlSETPINs (pins : PinSet) : Code Int := ioctlSETPINsWith setTrig pins

/-- `init_hcsr_struct`, on a structure with static storage. -/
def initHcsrStruct : Hcsr := Hcsr.zero.initialised

/-- The part of `hc_sr04_exit` for one device. -/
def hcSr04Exit : Code Unit := do
  let h ← load
  stopAtExit h
  let h ← load
  if h.irqDone = irqDoneFlag then
    let _ ← call (.freeIrq h.echoIsrNumber)
    freeGpio
  else pure ()

end Misc

end HcSr04
