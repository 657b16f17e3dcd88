import KernelRocks.InterleavingProofs
import Mathlib.Data.List.OfFn

/-! # mprobe — one probe, ten results

    `mprobe.c`: a write to `/dev/mprobe` moves the module's one kprobe to a new
    address, a hit of the probe stores a result in a ring of ten, and a read
    copies the ring.  Callers and the CPUs that run into the probe take turns.

    * A turn is one access to `kp` or one call into the kernel, which no lock
      covers; or `g_rbf_lock` taken, or released, or the section between.  All of
      `rbf` is only touched with that lock held.
    * The arguments of the calls name the global `kp`, and it is read again for
      each of them.
    * `unregister_kprobe` is two turns: no new hit, and the wait until no handler
      of the probe is running.
    * What the rest of the kernel does is the `World`: the cycle counter, the
      words the handler looks at, what lies in fresh memory, and whether
      `kmalloc` and `register_kprobe` succeed.  It may change at any moment.
    * `copy_to_user` returns how much it has not copied, which is never negative;
      so `mprobe_read` never fails behind it.
    * A request lies in the caller's memory and stays there as it is until the
      call returns.
    * A run of `handler_pre` is the run of one that gets through: what it reads is
      mapped.  One that does not ends between its store of the index and its
      `spin_unlock`, and stays at its section; its CPU goes no further. -/

namespace Mprobe

open Interleaving

/-! ## Data -/

/-- `debug_request`, with its `module_sections`. -/
structure DebugRequest where
  ofLine : BitVec 64
  ofLocal : BitVec 32
  ofGbl : BitVec 32
  bss : BitVec 64
  text : BitVec 64
  deriving DecidableEq

/-- `debug_result`. -/
structure DebugResult where
  addr : BitVec 64
  pid : BitVec 64
  xtc : BitVec 64
  gVar : BitVec 32
  localVar : BitVec 32
  deriving DecidableEq

/-- `ringbuffer`, with `RING_SIZE` results. -/
structure Ringbuffer where
  idx : BitVec 32
  req : DebugRequest
  rst : Fin 10 → DebugResult

/-- `struct kprobe`: what the module writes or reads of it. -/
structure Kprobe where
  addr : BitVec 64
  /-- A pointer, 0 for NULL. -/
  symbolName : BitVec 64
  deriving DecidableEq

def einval : Int := 22

/-- `req->of_line + req->sect.text`. -/
def DebugRequest.addr (req : DebugRequest) : BitVec 64 := req.ofLine + req.text

/-- A static variable. -/
def Ringbuffer.zero : Ringbuffer where
  idx := 0
  req := ⟨0, 0, 0, 0, 0⟩
  rst := fun _ => ⟨0, 0, 0, 0, 0⟩

/-! ## The sections on `g_rbf_lock` -/

/-- A CPU runs into a probe: the probe, the registers, and `current->pid`. -/
structure Trap where
  probe : Nat
  sp : BitVec 64
  bp : BitVec 64
  ip : BitVec 64
  pid : BitVec 64
  deriving DecidableEq

structure World where
  /-- `get_cycles()`. -/
  cycles : BitVec 64
  /-- The `int` at an address, if it is mapped. -/
  ram : BitVec 64 → BitVec 32
  /-- What is in the memory that `kmalloc` hands out. -/
  junk : Kprobe
  /-- `kmalloc` finds memory. -/
  memory : Bool
  /-- `register_kprobe` succeeds. -/
  registers : Bool

/-- The five stores through `drst`. -/
def result (req : DebugRequest) (trap : Trap) (w : World) : DebugResult :=
  let localAddr := trap.sp + req.ofLocal.setWidth 64
  let gAddr := req.bss + req.ofGbl.setWidth 64
  { addr := trap.ip
    pid := trap.pid
    xtc := w.cycles
    gVar := w.ram gAddr
    localVar := w.ram localAddr }

/-- What `handler_pre` reads with the lock held: the local, the global, and `*bp`. -/
def looksAt (req : DebugRequest) (trap : Trap) : List (BitVec 64) :=
  [trap.sp + req.ofLocal.setWidth 64, req.bss + req.ofGbl.setWidth 64, trap.bp]

def handlerPre (rbf : Ringbuffer) (trap : Trap) (w : World) : Ringbuffer :=
  { rbf with
    idx := (rbf.idx + 1) % 10
    rst := fun j => if (j : Nat) = rbf.idx.toNat then result rbf.req trap w else rbf.rst j }

/-- The loop of `mprobe_read`. -/
def scan : List DebugResult → Nat → Nat
  | [], i => i
  | r :: rest, i => if 0 = r.xtc then i else scan rest (i + 1)

/-- What `mprobe_read` returns, and what it copies to the caller. -/
def mprobeRead (rst : Fin 10 → DebugResult) : Int × List DebugResult :=
  if 0 = (rst 0).xtc then (-einval, [])
  else
    let i := scan (List.ofFn rst) 0
    (32 * i, (List.ofFn rst).take i)

/-! ## Tasks, memory and places -/

inductive Task where
  | caller (n : Nat)
  | cpu (n : Nat)
  deriving DecidableEq

/-- A call of `register_kprobe` that succeeded: the kprobe, the address in it, and the
    request of the write that made the call. -/
structure Registration where
  probe : Nat
  addr : BitVec 64
  req : DebugRequest
  deriving DecidableEq

/-- A run of `handler_pre`, and what it stored. -/
structure Hit where
  trap : Trap
  world : World
  record : DebugResult

structure Mem where
  /-- Of `g_rbf_lock`. -/
  holder : Option Task
  /-- `NULL` is `none`. -/
  kp : Option Nat
  rbf : Ringbuffer
  world : World
  /-- The kprobes made so far; none is ever freed. -/
  born : Nat
  kprobe : Nat → Kprobe
  /-- The kprobe is registered. -/
  armed : Nat → Bool
  /-- The handlers in progress, each CPU with its probe. -/
  running : List (Nat × Nat)
  /-- Every registration, the last one first. -/
  registrations : List Registration
  /-- Every result ever stored, the last one first. -/
  hits : List Hit

/-- The module has just been loaded. -/
def Mem.initial : Mem where
  holder := none
  kp := none
  rbf := Ringbuffer.zero
  world := ⟨0, fun _ => 0, ⟨0, 0⟩, true, true⟩
  born := 0
  kprobe := fun _ => ⟨0, 0⟩
  armed := fun _ => false
  running := []
  registrations := []
  hits := []

/-- A place in the code. -/
inductive Pc where
  /-- In no call, in no handler. -/
  | idle
  -- mprobe_write
  | testKp (req : DebugRequest)
  | unregister (req : DebugRequest)
  | unregisterWait (req : DebugRequest) (p : Nat)
  | destroyKp (req : DebugRequest)
  | kmalloc (req : DebugRequest)
  | initKp (req : DebugRequest)
  | lockReq (req : DebugRequest)
  | storeReq (req : DebugRequest)
  | unlockReq (req : DebugRequest)
  | registerKp (req : DebugRequest)
  /-- A NULL pointer is followed, or what is no pointer is freed. -/
  | oops
  -- mprobe_read
  | lockRead
  | readSection
  /-- The results behind are those that had been stored at the section. -/
  | unlockRead (out : Int × List DebugResult) (hits : List Hit)
  | readReturn (out : Int × List DebugResult) (hits : List Hit)
  -- handler_pre
  | lockHit (trap : Trap)
  | hitSection (trap : Trap)
  | unlockHit (trap : Trap)
  | hitReturn (trap : Trap)

/-! ## The code -/

/-- The next turn of a task on its own code. -/
def next (t : Task) (m : Mem) : Pc → Option (Mem × Pc)
  | .idle => none
  | .testKp req => some (m, if m.kp ≠ none then .unregister req else .kmalloc req)
  | .unregister req =>
      match m.kp with
      | none => some (m, .oops)
      | some p => some ({ m with armed := Function.update m.armed p false }, .unregisterWait req p)
  | .unregisterWait req p =>
      if ∀ x ∈ m.running, x.2 ≠ p then some (m, .destroyKp req) else none
  | .destroyKp req =>
      match m.kp with
      | none => some (m, .kmalloc req)
      | some p =>
          if (m.kprobe p).symbolName ≠ 0 then some (m, .oops)
          else some ({ m with kp := none }, .kmalloc req)
  | .kmalloc req =>
      if m.world.memory then
        some ({ m with
          kp := some m.born
          born := m.born + 1
          kprobe := Function.update m.kprobe m.born m.world.junk }, .initKp req)
      else some ({ m with kp := none }, .initKp req)
  | .initKp req =>
      if req.addr = 0 then some (m, .lockReq req)
      else
        match m.kp with
        | none => some (m, .oops)
        | some p =>
            some ({ m with kprobe := Function.update m.kprobe p ⟨req.addr, 0⟩ }, .lockReq req)
  | .lockReq req =>
      if m.holder = none then some ({ m with holder := some t }, .storeReq req) else none
  | .storeReq req => some ({ m with rbf.req := req }, .unlockReq req)
  | .unlockReq req => some ({ m with holder := none }, .registerKp req)
  | .registerKp req =>
      match m.kp with
      | none => some (m, .oops)
      | some p =>
          -- what it returns is not looked at
          if m.world.registers then
            some ({ m with
              armed := Function.update m.armed p true
              registrations := ⟨p, (m.kprobe p).addr, req⟩ :: m.registrations }, .idle)
          else some (m, .idle)
  | .oops => none
  | .lockRead =>
      if m.holder = none then some ({ m with holder := some t }, .readSection) else none
  | .readSection => some (m, .unlockRead (mprobeRead m.rbf.rst) m.hits)
  | .unlockRead out hits => some ({ m with holder := none }, .readReturn out hits)
  | .readReturn _ _ => some (m, .idle)
  | .lockHit trap =>
      if m.holder = none then some ({ m with holder := some t }, .hitSection trap) else none
  | .hitSection trap =>
      some ({ m with
        rbf := handlerPre m.rbf trap m.world
        hits := ⟨trap, m.world, result m.rbf.req trap m.world⟩ :: m.hits }, .unlockHit trap)
  | .unlockHit trap => some ({ m with holder := none }, .hitReturn trap)
  | .hitReturn _ =>
      match t with
      | .cpu c => some ({ m with running := m.running.filter fun x => x.1 ≠ c }, .idle)
      | .caller _ => none

inductive Act where
  | write (req : DebugRequest)
  | read
  | hit (trap : Trap)
  | run
  | world (w : World)

def exec (t : Task) (m : Mem) (q : Pc) : Act → Option (Mem × Pc)
  | .write req =>
      match t, q with
      | .caller _, .idle => some (m, .testKp req)
      | _, _ => none
  | .read =>
      match t, q with
      | .caller _, .idle => some (m, .lockRead)
      | _, _ => none
  -- only a registered probe is run into
  | .hit trap =>
      match t, q with
      | .cpu c, .idle =>
          if m.armed trap.probe then
            some ({ m with running := (c, trap.probe) :: m.running }, .lockHit trap)
          else none
      | _, _ => none
  | .run => next t m q
  | .world w => some ({ m with world := w }, q)

abbrev State := Sys Task Mem Pc

def State.initial : State where
  mem := Mem.initial
  loc := fun _ => .idle

abbrev ReachWhen (C : State → Task → Act → Prop) : State → Prop :=
  Reach exec C State.initial

/-- A turn is the task's own code, a call, a hit or the world. -/
theorem exec_cases {t : Task} {m m' : Mem} {q q' : Pc} {a : Act}
    (h : exec t m q a = some (m', q')) :
    (a = .run ∧ next t m q = some (m', q'))
      ∨ (∃ n req, a = .write req ∧ t = .caller n ∧ q = .idle ∧ m' = m ∧ q' = .testKp req)
      ∨ (∃ n, a = .read ∧ t = .caller n ∧ q = .idle ∧ m' = m ∧ q' = .lockRead)
      ∨ (∃ c trap, a = .hit trap ∧ t = .cpu c ∧ q = .idle ∧ m.armed trap.probe = true
          ∧ m' = { m with running := (c, trap.probe) :: m.running } ∧ q' = .lockHit trap)
      ∨ (∃ w, a = .world w ∧ m' = { m with world := w } ∧ q' = q) := by
  cases a with
  | run => exact .inl ⟨rfl, h⟩
  | write req =>
      simp only [exec] at h
      split at h
      · rename_i n
        cases h
        exact .inr (.inl ⟨n, req, rfl, rfl, rfl, rfl, rfl⟩)
      · cases h
  | read =>
      simp only [exec] at h
      split at h
      · rename_i n
        cases h
        exact .inr (.inr (.inl ⟨n, rfl, rfl, rfl, rfl, rfl⟩))
      · cases h
  | hit trap =>
      simp only [exec] at h
      split at h
      · rename_i c
        split at h
        · rename_i harm
          cases h
          exact .inr (.inr (.inr (.inl ⟨c, trap, rfl, rfl, rfl, harm, rfl, rfl⟩)))
        · cases h
      · cases h
  | world w =>
      cases h
      exact .inr (.inr (.inr (.inr ⟨w, rfl, rfl, rfl⟩)))

end Mprobe
