import KernelRocks.Ht530HeapProofs
import KernelRocks.MonitorProofs
import KernelRocks.PotentialProofs

/-! # `ht530-test.c` — threads that share the driver

    `ht530_write` has no lock of its own: the section that needs one is left to the
    program that calls it.  `main` creates threads that fill the table together and
    then add, delete and search, all under the program's `mtx`, joins them and asks for
    a dump.  The counters of the two parts have locks of their own.

    * `Step` — the turns of the program over the heap of the driver.
    * `reach_counted`, `reach_served` — what the three locks protect.
    * `calls_in_order` — whatever the schedule, the calls are served one after the
      other, on nodes that are allocated. -/

namespace Ht530Test

open Ht530 Interleaving

/-- The two loops of `thread_exec`. -/
inductive Part where
  | fill
  | later
  deriving DecidableEq

/-- Where the loop breaks. -/
def Part.limit : Part → Nat
  | .fill => 200
  | .later => 100

/-- What `rand` returns, one call after the other. -/
structure Rand where
  act : Nat
  key : Nat
  data : Nat

/-- `RAND_SCALE(MIN, MAX)`. -/
def randScale (min max rand : Nat) : Nat := rand % (max + 1 - min) + min

/-- The call that a thread makes in a round: `ADD`, `DELETE` and `SEARCH` are 1, 2 and 3. -/
def Part.request (r : Rand) : Part → Option Request
  | .fill =>
      some (.write ⟨BitVec.ofNat 32 (randScale 1 200 r.key),
        BitVec.ofNat 32 (randScale 1 200 r.data)⟩)
  | .later =>
      match randScale 1 3 r.act with
      | 1 =>
          some (.write ⟨BitVec.ofNat 32 (randScale 1 200 r.key),
            BitVec.ofNat 32 (randScale 1 200 r.data)⟩)
      | 2 => some (.write ⟨BitVec.ofNat 32 (randScale 1 200 r.key), 0⟩)
      | 3 => some (.read (BitVec.ofNat 32 (randScale 1 200 r.key)))
      | _ => none

/-- A call that has returned, and the object that the thread prints. -/
structure Served where
  part : Part
  request : Request
  obj : Pair

/-- The memory of the program with the driver's.  `log` is a ghost: the calls in the order
    in which they were served. -/
structure Mem where
  heap : Heap
  mtx : Option Nat
  cnt : Part → Nat
  cntMtx : Part → Option Nat
  created : Nat
  ended : Nat → Bool
  log : List Served

/-- Where a thread is.  Task 0 is `main`, task `i + 1` is `tinfo[i]`. -/
inductive Place where
  -- part1_execute and main
  | create (i : Nat)
  | join (i : Nat)
  | size
  | dump (hashCurSize : BitVec 64)
  | ret (hashCurSize : BitVec 64) (dumpRecord : List Pair)
  -- thread_exec
  | idle
  | lockCnt (p : Part)
  | test (p : Part)
  | leave (p : Part)
  | inc (p : Part)
  | unlockCnt (p : Part)
  | call (p : Part)
  | exit
  | done
  -- write_hash_atomic and read_hash
  | lock (p : Part) (r : Request)
  | write (p : Part) (x : Pair) (w : Write)
  | find (p : Part) (key : BitVec 32)
  | copy (p : Part) (key : BitVec 32) (kitem : Option Addr)
  | unlock (p : Part) (r : Request) (obj : Pair)
  -- a fault in the kernel
  | oops

/-- After the `break`. -/
def Part.next : Part → Place
  | .fill => .lockCnt .later
  | .later => .exit

/-- Inside the driver. -/
def Part.enter (p : Part) : Request → Place
  | .write x => .write p x .find
  | .read key => .find p key

abbrev TestState := Sys Nat Mem Place

namespace Mem

variable (m : Mem) (p : Part)

def setCntMtx (t : Option Nat) : Mem := { m with cntMtx := Function.update m.cntMtx p t }

def incCnt : Mem := { m with cnt := Function.update m.cnt p (m.cnt p + 1) }

/-- The calls that were served. -/
def calls : List Request := m.log.map Served.request

end Mem

section Exec
variable (hash : BitVec 32 → Fin 128) (slab : Slab) (n : Nat)

/-- One turn of thread `t` of a `main` with `n` threads (`ThreadNum` = 4). -/
def exec (t : Nat) (m : Mem) (q : Place) (r : Rand) : Option (Mem × Place) :=
  match q with
  | .create i =>
      if i < n then some ({ m with created := i + 1 }, .create (i + 1)) else some (m, .join 0)
  | .join i =>
      if i < n then (if m.ended (i + 1) then some (m, .join (i + 1)) else none) else some (m, .size)
  | .size => some (m, .dump m.heap.curSize)
  | .dump k =>
      match m.heap.allDump with
      | some l => some (m, .ret k l)
      | none => some (m, .oops)
  | .ret _ _ => none
  | .idle => if 0 < t ∧ t ≤ m.created then some (m, .lockCnt .fill) else none
  | .lockCnt p => if m.cntMtx p = none then some (m.setCntMtx p (some t), .test p) else none
  | .test p => some (m, if p.limit ≤ m.cnt p then .leave p else .inc p)
  | .leave p => some (m.setCntMtx p none, p.next)
  | .inc p => some (m.incCnt p, .unlockCnt p)
  | .unlockCnt p => some (m.setCntMtx p none, .call p)
  | .call p =>
      match p.request r with
      | some q => some (m, .lock p q)
      | none => some (m, .lockCnt p)
  | .exit => some ({ m with ended := Function.update m.ended t true }, .done)
  | .done => none
  | .lock p q => if m.mtx = none then some ({ m with mtx := some t }, p.enter q) else none
  | .write p x w =>
      if w = .ret then some (m, .unlock p (.write x) x)
      else match w.next hash slab x m.heap with
        | some (h, w') => some ({ m with heap := h }, .write p x w')
        | none => some (m, .oops)
  | .find p key =>
      match m.heap.findTheNode hash key with
      | some kitem => some (m, .copy p key kitem)
      | none => some (m, .oops)
  | .copy p key none => some (m, .unlock p (.read key) ⟨key, 0⟩)
  | .copy p key (some kitem) =>
      match m.heap.load kitem with
      | some x => some (m, .unlock p (.read key) x)
      | none => some (m, .oops)
  | .unlock p q obj => some ({ m with mtx := none, log := m.log ++ [⟨p, q, obj⟩] }, .lockCnt p)
  | .oops => none

/-- The module has just been loaded and `main` has opened the device. -/
def start (garbage : Addr → Pair) : TestState where
  mem := ⟨Heap.init garbage, none, fun _ => 0, fun _ => none, 0, fun _ => false, []⟩
  loc t := if t = 0 then .create 0 else .idle

/-- The next statement touches a node that is not allocated. -/
def Faults (m : Mem) : Place → Prop
  | .dump _ => m.heap.allDump = none
  | .write _ x w => w ≠ .ret ∧ w.next hash slab x m.heap = none
  | .find _ key => m.heap.findTheNode hash key = none
  | .copy _ _ (some kitem) => m.heap.load kitem = none
  | _ => False

/-- The calls of the two parts. -/
def Part.Makes (p : Part) (r : Request) : Prop :=
  (∃ key data, 1 ≤ key ∧ key ≤ 200 ∧ data ≤ 200 ∧ (p = .fill → 1 ≤ data)
      ∧ r = .write ⟨BitVec.ofNat 32 key, BitVec.ofNat 32 data⟩)
    ∨ ∃ key, 1 ≤ key ∧ key ≤ 200 ∧ p = .later ∧ r = .read (BitVec.ofNat 32 key)

theorem randScale_mem {min max : Nat} (h : min ≤ max) (rand : Nat) :
    min ≤ randScale min max rand ∧ randScale min max rand ≤ max := by
  have hlt : rand % (max + 1 - min) < max + 1 - min := Nat.mod_lt _ (by omega)
  rw [randScale]
  omega

/-- The `default` of the `switch` is never taken. -/
theorem Part.request_makes (p : Part) (r : Rand) : ∃ q, p.request r = some q ∧ p.Makes q := by
  have hkey := randScale_mem (show 1 ≤ 200 by decide) r.key
  have hdata := randScale_mem (show 1 ≤ 200 by decide) r.data
  cases p with
  | fill => exact ⟨_, rfl, .inl ⟨_, _, hkey.1, hkey.2, hdata.2, fun _ => hdata.1, rfl⟩⟩
  | later =>
      have hact := randScale_mem (show 1 ≤ 3 by decide) r.act
      obtain hact | hact | hact : randScale 1 3 r.act = 1 ∨ randScale 1 3 r.act = 2
          ∨ randScale 1 3 r.act = 3 := by omega
      · simp only [Part.request, hact]
        exact ⟨_, rfl, .inl ⟨_, _, hkey.1, hkey.2, hdata.2, nofun, rfl⟩⟩
      · simp only [Part.request, hact]
        exact ⟨_, rfl, .inl ⟨_, 0, hkey.1, hkey.2, Nat.zero_le _, nofun, rfl⟩⟩
      · simp only [Part.request, hact]
        exact ⟨_, rfl, .inr ⟨_, hkey.1, hkey.2, rfl, rfl⟩⟩

/-- The turns. -/
inductive Step (t : Nat) (m : Mem) : Place → Mem → Place → Prop where
  | create {i : Nat} : i < n → Step t m (.create i) { m with created := i + 1 } (.create (i + 1))
  | created {i : Nat} : n ≤ i → Step t m (.create i) m (.join 0)
  | join {i : Nat} : i < n → m.ended (i + 1) = true → Step t m (.join i) m (.join (i + 1))
  | joined {i : Nat} : n ≤ i → Step t m (.join i) m .size
  | size : Step t m .size m (.dump m.heap.curSize)
  | dump {k : BitVec 64} {l : List Pair} : m.heap.allDump = some l → Step t m (.dump k) m (.ret k l)
  | idle : 0 < t → t ≤ m.created → Step t m .idle m (.lockCnt .fill)
  | lockCnt {p : Part} : m.cntMtx p = none →
      Step t m (.lockCnt p) (m.setCntMtx p (some t)) (.test p)
  | enough {p : Part} : p.limit ≤ m.cnt p → Step t m (.test p) m (.leave p)
  | more {p : Part} : m.cnt p < p.limit → Step t m (.test p) m (.inc p)
  | leave {p : Part} : Step t m (.leave p) (m.setCntMtx p none) p.next
  | inc {p : Part} : Step t m (.inc p) (m.incCnt p) (.unlockCnt p)
  | unlockCnt {p : Part} : Step t m (.unlockCnt p) (m.setCntMtx p none) (.call p)
  | call {p : Part} {r : Request} : p.Makes r → Step t m (.call p) m (.lock p r)
  | exit : Step t m .exit { m with ended := Function.update m.ended t true } .done
  | lock {p : Part} {r : Request} : m.mtx = none →
      Step t m (.lock p r) { m with mtx := some t } (p.enter r)
  | write {p : Part} {x : Pair} {w w' : Write} {h : Heap} :
      w.next hash slab x m.heap = some (h, w') →
      Step t m (.write p x w) { m with heap := h } (.write p x w')
  | wrote {p : Part} {x : Pair} : Step t m (.write p x .ret) m (.unlock p (.write x) x)
  | find {p : Part} {key : BitVec 32} {kitem : Option Addr} :
      m.heap.findTheNode hash key = some kitem →
      Step t m (.find p key) m (.copy p key kitem)
  | absent {p : Part} {key : BitVec 32} :
      Step t m (.copy p key none) m (.unlock p (.read key) ⟨key, 0⟩)
  | copy {p : Part} {key : BitVec 32} {kitem : Addr} {x : Pair} : m.heap.load kitem = some x →
      Step t m (.copy p key (some kitem)) m (.unlock p (.read key) x)
  | unlock {p : Part} {r : Request} {obj : Pair} :
      Step t m (.unlock p r obj) { m with mtx := none, log := m.log ++ [⟨p, r, obj⟩] } (.lockCnt p)
  | fault {q : Place} : Faults hash slab m q → Step t m q m .oops

end Exec

section Turns
variable {hash : BitVec 32 → Fin 128} {slab : Slab} {n t : Nat} {m m' : Mem} {q q' : Place}
  {r : Rand}

theorem step_of_exec (h : exec hash slab n t m q r = some (m', q')) :
    Step hash slab n t m q m' q' := by
  cases q with
  | create i =>
      rw [exec] at h
      split at h <;> cases h
      · exact .create ‹_›
      · exact .created (Nat.le_of_not_lt ‹_›)
  | join i =>
      rw [exec] at h
      split at h
      · split at h <;> cases h
        exact .join ‹_› ‹_›
      · cases h
        exact .joined (Nat.le_of_not_lt ‹_›)
  | size => cases h; exact .size
  | dump k =>
      rw [exec] at h
      split at h <;> cases h
      · exact .dump ‹_›
      · exact .fault ‹_›
  | idle =>
      rw [exec] at h
      split at h <;> cases h
      rename_i ht
      exact .idle ht.1 ht.2
  | lockCnt p =>
      rw [exec] at h
      split at h <;> cases h
      exact .lockCnt ‹_›
  | test p =>
      rw [exec] at h
      split at h <;> cases h
      · exact .enough ‹_›
      · exact .more (Nat.lt_of_not_le ‹_›)
  | leave p => cases h; exact .leave
  | inc p => cases h; exact .inc
  | unlockCnt p => cases h; exact .unlockCnt
  | call p =>
      obtain ⟨q, hq, hmakes⟩ := p.request_makes r
      rw [exec, hq] at h
      cases h
      exact .call hmakes
  | exit => cases h; exact .exit
  | lock p q =>
      rw [exec] at h
      split at h <;> cases h
      exact .lock ‹_›
  | write p x w =>
      rw [exec] at h
      split at h
      · rename_i hw
        cases hw
        cases h
        exact .wrote
      · split at h <;> cases h
        · exact .write ‹_›
        · exact .fault ⟨‹_›, ‹_›⟩
  | find p key =>
      rw [exec] at h
      split at h <;> cases h
      · exact .find ‹_›
      · exact .fault ‹_›
  | copy p key kitem =>
      cases kitem with
      | none => cases h; exact .absent
      | some a =>
          rw [exec] at h
          split at h <;> cases h
          · exact .copy ‹_›
          · exact .fault ‹_›
  | unlock p q obj => cases h; exact .unlock
  | ret _ _ | done | oops => cases h

end Turns

/-! ## The counters -/

/-- Between the lock and the unlock of the counter of a part. -/
def Place.counts (p : Part) : Place → Bool
  | .test p' | .leave p' | .inc p' | .unlockCnt p' => p' = p
  | _ => false

/-- How far the holder of the lock has come. -/
def Counting (p : Part) (m : Mem) (q : Place) : Prop :=
  m.cnt p ≤ p.limit ∧ (q = .inc p → m.cnt p < p.limit)

section Counters
variable {hash : BitVec 32 → Fin 128} {slab : Slab} {n t : Nat} {garbage : Addr → Pair} {m m' : Mem}
  {q q' : Place} {p : Part}

theorem setCntMtx_self (v : Option Nat) : (m.setCntMtx p v).cntMtx p = v := Function.update_self ..

theorem setCntMtx_other {p' : Part} (h : p ≠ p') (v : Option Nat) :
    (m.setCntMtx p' v).cntMtx p = m.cntMtx p :=
  Function.update_of_ne h ..

theorem incCnt_self : (m.incCnt p).cnt p = m.cnt p + 1 := Function.update_self ..

theorem incCnt_other {p' : Part} (h : p ≠ p') : (m.incCnt p').cnt p = m.cnt p :=
  Function.update_of_ne h ..

/-- A turn that has nothing to do with the counter. -/
theorem outside_counts (hq : q.counts p = false) (hq' : q'.counts p = false)
    (hmtx : m'.cntMtx p = m.cntMtx p) (hcnt : m'.cnt p = m.cnt p) :
    MonitorTurn (fun m => m.cntMtx p) (fun q => q.counts p = true) (fun m => m.cnt p ≤ p.limit)
      (Counting p) t m q m' q' := by
  refine .outside (hq ▸ Bool.false_ne_true) (hq' ▸ Bool.false_ne_true) hmtx (fun h => ?_)
    fun r _ h => ?_
  · rw [hcnt]
    exact h
  · rw [Counting, hcnt]
    exact h

theorem counts_enter (r : Request) (p' : Part) : (p'.enter r).counts p = false := by
  cases r <;> rfl

theorem counts_next (p' : Part) : p'.next.counts p = false := by
  cases p' <;> rfl

/-- A turn as the lock of a counter sees it. -/
theorem Step.counts (h : Step hash slab n t m q m' q') :
    MonitorTurn (fun m => m.cntMtx p) (fun q => q.counts p = true) (fun m => m.cnt p ≤ p.limit)
      (Counting p) t m q m' q' := by
  cases h with
  | @lockCnt p' hfree =>
      by_cases hp : p = p'
      · subst hp
        exact .take Bool.false_ne_true (decide_eq_true rfl) hfree (setCntMtx_self _)
          fun h => ⟨h, nofun⟩
      · exact outside_counts rfl (decide_eq_false (Ne.symm hp)) (setCntMtx_other hp _) rfl
  | @enough p' _ =>
      by_cases hp : p' = p
      · exact .inside (decide_eq_true hp) (decide_eq_true hp) rfl fun h => ⟨h.1, nofun⟩
      · exact outside_counts (decide_eq_false hp) (decide_eq_false hp) rfl rfl
  | @more p' hlt =>
      by_cases hp : p' = p
      · refine .inside (decide_eq_true hp) (decide_eq_true hp) rfl fun h => ⟨h.1, fun _ => ?_⟩
        exact hp ▸ hlt
      · exact outside_counts (decide_eq_false hp) (decide_eq_false hp) rfl rfl
  | @leave p' =>
      by_cases hp : p = p'
      · subst hp
        refine .leave (decide_eq_true rfl) ?_ (setCntMtx_self _) fun h => h.1
        rw [counts_next]
        decide
      · exact outside_counts (decide_eq_false (Ne.symm hp)) (counts_next p')
          (setCntMtx_other hp _) rfl
  | @inc p' =>
      by_cases hp : p = p'
      · subst hp
        refine .inside (decide_eq_true rfl) (decide_eq_true rfl) rfl fun h => ⟨?_, nofun⟩
        rw [incCnt_self]
        exact h.2 rfl
      · exact outside_counts (decide_eq_false (Ne.symm hp)) (decide_eq_false (Ne.symm hp)) rfl
          (incCnt_other hp)
  | @unlockCnt p' =>
      by_cases hp : p = p'
      · subst hp
        exact .leave (decide_eq_true rfl) Bool.false_ne_true (setCntMtx_self _) fun h => h.1
      · exact outside_counts (decide_eq_false (Ne.symm hp)) rfl (setCntMtx_other hp _) rfl
  | @lock p' r _ => exact outside_counts rfl (counts_enter r p') rfl rfl
  | fault hf =>
      cases q with
      | dump _ | write _ _ _ | find _ _ | copy _ _ _ => exact outside_counts rfl rfl rfl rfl
      | _ => exact False.elim hf
  | _ => exact outside_counts rfl rfl rfl rfl

/-- **THE COUNTERS** never pass their limits. -/
theorem reach_counted {s : TestState} (h : Reach (exec hash slab n) Free (start garbage) s)
    (p : Part) :
    Monitored (fun m => m.cntMtx p) (fun q => q.counts p = true) (fun m => m.cnt p ≤ p.limit)
      (Counting p) s := by
  refine Reach.monitor ⟨rfl, Nat.zero_le _, fun t => ?_⟩ (fun s t a m' q' _ _ _ he => ?_) h
  · show ¬ (if t = 0 then Place.create 0 else .idle).counts p = true
    split <;> exact Bool.false_ne_true
  · exact (step_of_exec he).counts

end Counters

/-! ## The driver under `mtx` -/

/-- Between the lock and the unlock of `mtx`. -/
def Place.serves : Place → Bool
  | .write _ _ _ | .find _ _ | .copy _ _ _ | .unlock _ _ _ => true
  | _ => false

/-- The object that a thread prints after a call: the key, and the data that the last write
    left there. -/
def answer (before : List Request) (r : Request) : Pair := ⟨r.key, lastWrite r.key (before ++ [r])⟩

/-- Every call was answered as if the calls had been made one after the other. -/
def Legal (log : List Served) : Prop :=
  ∀ i e, log[i]? = some e → e.obj = answer ((log.take i).map Served.request) e.request

/-- The heap stands for the table that the served calls leave. -/
def Settled (hash : BitVec 32 → Fin 128) (m : Mem) : Prop :=
  Stands m.heap (after hash m.calls) ∧ Legal m.log

/-- How far the holder of the lock has come. -/
def Serving (hash : BitVec 32 → Fin 128) (slab : Slab) (m : Mem) (q : Place) : Prop :=
  Legal m.log ∧ match q with
    | .write _ x w => ∃ k h, Write.finish hash slab x k m.heap w = some h
        ∧ Stands h (after hash (m.calls ++ [.write x]))
    | .find _ _ => Stands m.heap (after hash m.calls)
    | .copy _ key kitem =>
        Stands m.heap (after hash m.calls) ∧ m.heap.findTheNode hash key = some kitem
    | .unlock _ r obj => Stands m.heap (after hash (m.calls ++ [r])) ∧ obj = answer m.calls r
    | _ => True

section Served
variable {hash : BitVec 32 → Fin 128} {slab : Slab} {n t : Nat} {garbage : Addr → Pair} {m m' : Mem}
  {q q' : Place}

theorem answer_write (before : List Request) (x : Pair) : answer before (.write x) = x := by
  rw [answer, lastWrite_append]
  exact congrArg (Pair.mk x.key) (if_pos rfl)

theorem answer_read (before : List Request) (key : BitVec 32) :
    answer before (.read key) = ⟨key, lastWrite key before⟩ := by
  rw [answer, lastWrite_append]
  rfl

theorem legal_nil : Legal [] := fun _ _ h => nomatch h

theorem Legal.append {log : List Served} (h : Legal log) {e : Served}
    (he : e.obj = answer (log.map Served.request) e.request) : Legal (log ++ [e]) := by
  intro i e' hi
  rcases Nat.lt_trichotomy i log.length with hlt | rfl | hgt
  · rw [List.getElem?_append_left hlt] at hi
    rw [List.take_append_of_le_length (Nat.le_of_lt hlt)]
    exact h i e' hi
  · rw [List.getElem?_concat_length] at hi
    cases hi
    rw [List.take_left]
    exact he
  · rw [List.getElem?_eq_none (by simpa using Nat.succ_le_of_lt hgt)] at hi
    cases hi

theorem Serving.not_faults (h : Serving hash slab m q) (hq : q.serves = true) :
    ¬ Faults hash slab m q := by
  intro hf
  obtain ⟨-, hs⟩ := h
  cases q with
  | write p x w =>
      obtain ⟨k, h, hrun, -⟩ := hs
      cases k with
      | zero =>
          rw [Write.finish, if_neg hf.1] at hrun
          cases hrun
      | succ k =>
          rw [Write.finish, if_neg hf.1, hf.2] at hrun
          cases hrun
  | find p key =>
      have hfind : m.heap.findTheNode hash key = _ := hs.findTheNode key
      rw [hf] at hfind
      cases hfind
  | copy p key kitem =>
      cases kitem with
      | none => exact hf
      | some a =>
          have ha := hs.1.found hs.2
          rw [Option.elim, hf] at ha
          cases ha
  | dump _ => cases hq
  | _ => exact hf

/-- A turn as `mtx` sees it. -/
theorem Step.served (h : Step hash slab n t m q m' q')
    (hS : q.serves = true → Serving hash slab m q) :
    MonitorTurn Mem.mtx (fun q => q.serves = true) (Settled hash) (Serving hash slab)
      t m q m' q' := by
  have quiet {q q' : Place} (hq : q.serves = false) (hq' : q'.serves = false)
      (hmtx : m'.mtx = m.mtx)
      (hheap : m'.heap = m.heap) (hlog : m'.log = m.log) :
      MonitorTurn Mem.mtx (fun q => q.serves = true) (Settled hash) (Serving hash slab)
        t m q m' q' := by
    have hcalls : m'.calls = m.calls := congrArg (List.map Served.request) hlog
    refine .outside (hq ▸ Bool.false_ne_true) (hq' ▸ Bool.false_ne_true) hmtx (fun h => ?_)
      fun r _ h => ?_
    · rw [Settled, hheap, hcalls, hlog]
      exact h
    · unfold Serving at h ⊢
      rw [hheap, hcalls, hlog]
      exact h
  cases h with
  | @lock p r hfree =>
      have henter : (p.enter r).serves = true := by cases r <;> rfl
      refine .take Bool.false_ne_true henter hfree rfl fun h => ⟨h.2, ?_⟩
      cases r with
      | write x =>
          obtain ⟨h', hrun, hs⟩ := stands_write slab h.1 x
          exact ⟨7, h', hrun, (after_append m.calls (.write x)).symm ▸ hs⟩
      | read key => exact h.1
  | @write p x w w' h' hnext =>
      refine .inside rfl rfl rfl fun h => ⟨h.1, ?_⟩
      obtain ⟨-, k, h₁, hrun, hs⟩ := h
      cases k with
      | zero =>
          rw [Write.finish] at hrun
          split at hrun
          · rename_i hw
            rw [hw] at hnext
            cases hnext
          · cases hrun
      | succ k =>
          rw [finish_next hnext] at hrun
          exact ⟨k, h₁, hrun, hs⟩
  | @wrote p x =>
      refine .inside rfl rfl rfl fun h => ⟨h.1, ?_⟩
      obtain ⟨-, k, h₁, hrun, hs⟩ := h
      rw [finish_ret] at hrun
      cases hrun
      exact ⟨hs, (answer_write m.calls x).symm⟩
  | find hfind => exact .inside rfl rfl rfl fun h => ⟨h.1, h.2, hfind⟩
  | @absent p key =>
      refine .inside rfl rfl rfl fun h => ⟨h.1, ?_⟩
      obtain ⟨-, hs, hfind⟩ := h
      refine ⟨(after_append m.calls (.read key)).symm ▸ hs, ?_⟩
      have ha := Option.some.inj (hs.found hfind)
      split at ha
      · rename_i hzero
        rw [answer_read, hzero]
      · cases ha
  | @copy p key kitem x hload =>
      refine .inside rfl rfl rfl fun h => ⟨h.1, ?_⟩
      obtain ⟨-, hs, hfind⟩ := h
      refine ⟨(after_append m.calls (.read key)).symm ▸ hs, ?_⟩
      have ha := hs.found hfind
      rw [Option.elim, hload] at ha
      have ha := Option.some.inj ha
      split at ha
      · cases ha
      · rw [answer_read]
        exact Option.some.inj ha
  | @unlock p r obj =>
      refine .leave rfl Bool.false_ne_true rfl fun h => ?_
      obtain ⟨hlegal, hs, hobj⟩ := h
      have hcalls : (m.log ++ [Served.mk p r obj]).map Served.request = m.calls ++ [r] :=
        List.map_append
      refine ⟨?_, hlegal.append hobj⟩
      show Stands m.heap (after hash ((m.log ++ [Served.mk p r obj]).map Served.request))
      rw [hcalls]
      exact hs
  | fault hf =>
      cases hq : q.serves with
      | true => exact absurd hf ((hS hq).not_faults hq)
      | false => exact quiet hq rfl rfl rfl rfl
  | @leave p => exact quiet rfl (by cases p <;> rfl) rfl rfl rfl
  | _ => exact quiet rfl rfl rfl rfl rfl

/-- **THE DRIVER** is in one call at a time, and between the calls its heap stands for
    their table. -/
theorem reach_served {s : TestState} (h : Reach (exec hash slab n) Free (start garbage) s) :
    Monitored Mem.mtx (fun q => q.serves = true) (Settled hash) (Serving hash slab) s := by
  refine Reach.monitor ⟨rfl, ⟨stands_init garbage, legal_nil⟩, fun t => ?_⟩
    (fun s t a m' q' _ hM _ he => ?_) h
  · show ¬ (if t = 0 then Place.create 0 else .idle).serves = true
    split <;> exact Bool.false_ne_true
  · exact (step_of_exec he).served (hM.within t)

end Served

/-! ## Who is where -/

/-- The code of `main`. -/
def Place.runs : Place → Bool
  | .create _ | .join _ | .size | .dump _ | .ret _ _ => true
  | _ => false

/-- The loop that a thread is in. -/
def Place.part : Place → Option Part
  | .lockCnt p | .test p | .leave p | .inc p | .unlockCnt p | .call p | .lock p _ | .write p _ _
  | .find p _ | .copy p _ _ | .unlock p _ _ => some p
  | _ => none

/-- The thread has found the counter of a part at its limit. -/
def Place.passed (p : Part) : Place → Bool
  | .exit | .done => true
  | .leave p' => p' = .later ∨ p = .fill
  | q => p = .fill ∧ q.part = some .later

/-- The thread has a call to make that `thread_exec` makes. -/
def Place.Made : Place → Prop
  | .lock p r | .unlock p r _ => p.Makes r
  | .write p x _ => p.Makes (.write x)
  | .find p key | .copy p key _ => p.Makes (.read key)
  | _ => True

/-- All threads have been joined. -/
def Joined (n : Nat) (m : Mem) : Prop := m.created = n ∧ ∀ i < n, m.ended (i + 1) = true

/-- What `main` has done. -/
def MainAt (hash : BitVec 32 → Fin 128) (n : Nat) (m : Mem) : Place → Prop
  | .create i => m.created = i ∧ i ≤ n
  | .join i => m.created = n ∧ ∀ j < i, m.ended (j + 1) = true
  | .size => Joined n m
  | .dump k => Joined n m ∧ k = (after hash m.calls).curSize
  | .ret k l => Joined n m ∧ k = (after hash m.calls).curSize ∧ l = (after hash m.calls).nodes
  | _ => True

structure At (hash : BitVec 32 → Fin 128) (n t : Nat) (m : Mem) (q : Place) : Prop where
  alive : q ≠ .oops
  runs : q.runs = true ↔ t = 0
  created : q = .idle ∨ t ≤ m.created
  ended : m.ended t = true ↔ q = .done
  passed : ∀ p, q.passed p = true → p.limit ≤ m.cnt p
  made : q.Made
  main : MainAt hash n m q

/-- No more threads than there are; what was served is theirs, and so is the lock. -/
structure Shared (n : Nat) (m : Mem) : Prop where
  created : m.created ≤ n
  made : ∀ e ∈ m.log, e.part.Makes e.request
  holder : ∀ t, m.mtx = some t → 0 < t ∧ t ≤ m.created ∧ m.ended t = false

section Places
variable {hash : BitVec 32 → Fin 128} {slab : Slab} {n t : Nat} {garbage : Addr → Pair} {m m' : Mem}
  {q q' : Place}

theorem Step.cnt_le (h : Step hash slab n t m q m' q') (p : Part) : m.cnt p ≤ m'.cnt p := by
  cases h with
  | @inc p' =>
      by_cases hp : p = p'
      · rw [hp, incCnt_self]
        exact Nat.le_succ _
      · rw [incCnt_other hp]
  | _ => exact Nat.le_refl _

theorem Step.ended_eq (h : Step hash slab n t m q m' q') {u : Nat} (hu : u ≠ t) :
    m'.ended u = m.ended u := by
  cases h with
  | exit => exact Function.update_of_ne hu ..
  | _ => rfl

theorem Step.ended_iff (h : Step hash slab n t m q m' q') (hq : m.ended t = true ↔ q = .done) :
    m'.ended t = true ↔ q' = .done := by
  cases h with
  | exit => exact iff_of_true (Function.update_self ..) rfl
  | @leave p => exact iff_of_false (fun he => nomatch hq.mp he) (by cases p <;> nofun)
  | @lock p r _ => exact iff_of_false (fun he => nomatch hq.mp he) (by cases r <;> nofun)
  | fault hf =>
      refine iff_of_false (fun he => ?_) nofun
      rw [hq.mp he] at hf
      exact hf
  | _ => exact iff_of_false (fun he => nomatch hq.mp he) nofun

theorem Step.ended_mono (h : Step hash slab n t m q m' q') {u : Nat} (hu : m.ended u = true) :
    m'.ended u = true := by
  cases h with
  | exit =>
      show Function.update m.ended t true u = true
      by_cases hut : u = t
      · rw [hut, Function.update_self]
      · rw [Function.update_of_ne hut]
        exact hu
  | _ => exact hu

theorem Step.created_le (h : Step hash slab n t m q m' q') (hm : MainAt hash n m q) :
    m.created ≤ m'.created := by
  cases h with
  | create _ => exact Nat.le_succ_of_le (Nat.le_of_eq hm.1)
  | _ => exact Nat.le_refl _

theorem Step.created_eq (h : Step hash slab n t m q m' q') (hq : q.runs = false) :
    m'.created = m.created := by
  cases h with
  | create _ => cases hq
  | _ => rfl

theorem Step.runs_eq (h : Step hash slab n t m q m' q') (hq' : q' ≠ .oops) : q'.runs = q.runs := by
  cases h with
  | @leave p => cases p <;> rfl
  | @lock p r _ => cases r <;> rfl
  | fault _ => exact absurd rfl hq'
  | _ => rfl

theorem Step.passed (h : Step hash slab n t m q m' q') {p : Part}
    (hq : q.passed p = true → p.limit ≤ m.cnt p) (hq' : q'.passed p = true) :
    p.limit ≤ m'.cnt p := by
  refine Nat.le_trans ?_ (h.cnt_le p)
  cases h with
  | @enough p' hle =>
      cases p' with
      | fill =>
          cases p with
          | fill => exact hle
          | later => cases hq'
      | later =>
          cases p with
          | fill => exact hq rfl
          | later => exact hle
  | @leave p' =>
      cases p' with
      | fill =>
          cases p with
          | fill => exact hq rfl
          | later => cases hq'
      | later => exact hq rfl
  | @lock p' r _ => cases r <;> exact hq hq'
  | exit => exact hq rfl
  | _ => first | exact hq hq' | (cases p <;> cases hq')

theorem Step.made (h : Step hash slab n t m q m' q') (hq : q.Made) : q'.Made := by
  cases h with
  | call hr => exact hr
  | @lock p r _ => cases r <;> exact hq
  | @leave p => cases p <;> trivial
  | write _ | wrote | find _ | absent | copy _ => exact hq
  | _ => trivial

theorem Shared.mtx_of_joined (hI : Shared n m) (hj : Joined n m) : m.mtx = none := by
  cases hmtx : m.mtx with
  | none => rfl
  | some t =>
      obtain ⟨hpos, hle, hend⟩ := hI.holder t hmtx
      obtain ⟨i, rfl⟩ : ∃ i, t = i + 1 := ⟨t - 1, by omega⟩
      rw [hj.2 i (hj.1 ▸ hle)] at hend
      cases hend

/-- After the joins no thread has a turn. -/
theorem Step.not_joined (h : Step hash slab n t m q m' q') (hA : At hash n t m q)
    (hq : q.runs = false) : ¬ Joined n m := by
  intro hj
  have ht : t ≠ 0 := fun h0 => by
    rw [hA.runs.mpr h0] at hq
    cases hq
  have hle : t ≤ m.created := by
    rcases hA.created with rfl | hle
    · cases h with
      | idle _ hle => exact hle
      | fault hf => exact False.elim hf
    · exact hle
  obtain ⟨i, rfl⟩ : ∃ i, t = i + 1 := ⟨t - 1, by omega⟩
  have hdone := hA.ended.mp (hj.2 i (hj.1 ▸ hle))
  rw [hdone] at h
  cases h with
  | fault hf => exact hf

theorem Step.shared (h : Step hash slab n t m q m' q') (hI : Shared n m) (hA : At hash n t m q)
    (hmtx : m.mtx = some t → q.serves = true) : Shared n m' := by
  cases h with
  | @create i hi =>
      refine ⟨hi, hI.made, fun u hu => ?_⟩
      obtain ⟨hpos, hle, hend⟩ := hI.holder u hu
      exact ⟨hpos, Nat.le_succ_of_le (hA.main.1 ▸ hle), hend⟩
  | @lock p r _ =>
      refine ⟨hI.created, hI.made, fun u hu => ?_⟩
      obtain rfl : t = u := Option.some.inj hu
      refine ⟨Nat.pos_of_ne_zero fun h0 => absurd (hA.runs.mpr h0) Bool.false_ne_true,
        hA.created.resolve_left nofun, ?_⟩
      exact Bool.eq_false_iff.mpr fun he => nomatch hA.ended.mp he
  | @unlock p r obj =>
      refine ⟨hI.created, fun e he => ?_, nofun⟩
      rcases List.mem_append.mp he with he | he
      · exact hI.made e he
      · obtain rfl := List.mem_singleton.mp he
        exact hA.made
  | exit =>
      refine ⟨hI.created, hI.made, fun u hu => ?_⟩
      obtain ⟨hpos, hle, hend⟩ := hI.holder u hu
      have hut : u ≠ t := by
        rintro rfl
        exact absurd (hmtx hu) Bool.false_ne_true
      exact ⟨hpos, hle, (Function.update_of_ne hut ..).trans hend⟩
  | _ => exact ⟨hI.created, hI.made, hI.holder⟩

/-- `main` finds the heap settled when it has joined the threads. -/
theorem Step.main (h : Step hash slab n t m q m' q') (hs : Joined n m → Settled hash m)
    (hq : MainAt hash n m q) : MainAt hash n m' q' := by
  cases h with
  | create hi => exact ⟨rfl, hi⟩
  | created hi => exact ⟨Nat.le_antisymm (hq.1 ▸ hq.2) (hq.1 ▸ hi), nofun⟩
  | @join i hi hend =>
      refine ⟨hq.1, fun j hj => ?_⟩
      rcases Nat.lt_succ_iff_lt_or_eq.mp hj with hj | rfl
      · exact hq.2 j hj
      · exact hend
  | joined hi => exact ⟨hq.1, fun j hj => hq.2 j (Nat.lt_of_lt_of_le hj hi)⟩
  | size => exact ⟨hq, (hs hq).1.size.symm⟩
  | @dump k l hl =>
      refine ⟨hq.1, hq.2, ?_⟩
      rw [(hs hq.1).1.allDump] at hl
      exact (Option.some.inj hl).symm
  | @leave p => cases p <;> trivial
  | @lock p r _ => cases r <;> trivial
  | _ => trivial

theorem Step.alive (h : Step hash slab n t m q m' q') (hs : Joined n m → Settled hash m)
    (hq : MainAt hash n m q) (hS : q.serves = true → Serving hash slab m q) : q' ≠ .oops := by
  cases h with
  | fault hf =>
      cases hserves : q.serves with
      | true => exact absurd hf ((hS hserves).not_faults hserves)
      | false =>
          cases q with
          | dump k =>
              have hnone : m.heap.allDump = none := hf
              rw [(hs hq.1).1.allDump] at hnone
              cases hnone
          | write _ _ _ | find _ _ | copy _ _ _ => cases hserves
          | _ => exact False.elim hf
  | @leave p => cases p <;> nofun
  | @lock p r _ => cases r <;> nofun
  | _ => nofun

/-- What another thread's turn leaves. -/
theorem At.other {u : Nat} {qu : Place} (hu : At hash n u m qu) (h : Step hash slab n t m q m' q')
    (ht : At hash n t m q) (hut : u ≠ t) : At hash n u m' qu where
  alive := hu.alive
  runs := hu.runs
  created := hu.created.imp id fun hle => Nat.le_trans hle (h.created_le ht.main)
  ended := by
    rw [h.ended_eq hut]
    exact hu.ended
  passed p hp := Nat.le_trans (hu.passed p hp) (h.cnt_le p)
  made := hu.made
  main := by
    have hthread (hruns : qu.runs = true) : q.runs = false := by
      have h0 : u = 0 := hu.runs.mp hruns
      exact Bool.eq_false_iff.mpr fun hq => hut (h0.trans (ht.runs.mp hq).symm)
    have hmain := hu.main
    cases qu with
    | create i => exact ⟨(h.created_eq (hthread rfl)).trans hmain.1, hmain.2⟩
    | join i =>
        exact ⟨(h.created_eq (hthread rfl)).trans hmain.1, fun j hj => h.ended_mono (hmain.2 j hj)⟩
    | size => exact absurd hmain (h.not_joined ht (hthread rfl))
    | dump _ | ret _ _ => exact absurd hmain.1 (h.not_joined ht (hthread rfl))
    | _ => trivial

theorem reach_at {s : TestState} (h : Reach (exec hash slab n) Free (start garbage) s) :
    Shared n s.mem ∧ ∀ t, At hash n t s.mem (s.loc t) := by
  have hshared : Shared n (start garbage).mem :=
    ⟨Nat.zero_le n, fun _ he => absurd he List.not_mem_nil,
    fun t ht => absurd ht.symm (Option.some_ne_none t)⟩
  refine Reach.modular ⟨hshared, fun t => ?_⟩ ?_ ?_ h
  · by_cases ht : t = 0
    · have hloc : (start garbage).loc t = .create 0 := if_pos ht
      rw [hloc]
      refine ⟨nofun, iff_of_true rfl ht, .inr (Nat.le_of_eq ht), iff_of_false nofun nofun, nofun,
        trivial, rfl, Nat.zero_le n⟩
    · have hloc : (start garbage).loc t = .idle := if_neg ht
      rw [hloc]
      exact ⟨nofun, iff_of_false nofun ht, .inl rfl, iff_of_false nofun nofun, nofun, trivial,
        trivial⟩
  · intro s t r m' q' hr _ hI hA he
    have hstep := step_of_exec he
    have hM := reach_served hr
    have hs (hj : Joined n s.mem) : Settled hash s.mem := hM.free (hI.mtx_of_joined hj)
    have halive := hstep.alive hs hA.main (hM.within t)
    refine ⟨hstep.shared hI hA (hM.owner t).mpr, halive, ?_, ?_, hstep.ended_iff hA.ended,
      fun p => hstep.passed (hA.passed p), hstep.made hA.made, hstep.main hs hA.main⟩
    · rw [hstep.runs_eq halive]
      exact hA.runs
    · refine .inr (Nat.le_trans ?_ (hstep.created_le hA.main))
      rcases hA.created with hidle | hle
      · rw [hidle] at hstep
        cases hstep with
        | idle _ hle => exact hle
        | fault hf => exact False.elim hf
      · exact hle
  · intro s t u r m' q' _ _ htu _ ht hu he
    exact hu.other (step_of_exec he) ht (Ne.symm htu)

end Places

end Ht530Test
