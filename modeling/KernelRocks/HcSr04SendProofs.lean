import KernelRocks.HcSr04MachineProofs

/-! # One `send` — what its result says

    A single call of `send` with any `retry_cnt`, and the echo interrupt as often
    and whenever it likes.  The turns are those of the device machine; a log
    beside the memory keeps what the call has done: its claim, its attempts with
    every poll of the flag, and its return.

    The flag is set once, in `send`.  The time-out of `do_send` clears it, and the
    attempt behind that one finds it cleared: it takes the time-out for an echo.

    * `reach_stage`: what is known at each place of `send`, as long as the claim
      is not made in front of a store of STOPPING that belongs to an older
      interrupt, no attempt times out before a sample while another is left, and
      the last one times out with the flag set and no handler about to clear it.
    * `reach_unanswered`: then no echo has been accepted since the claim.
    * `send_measures`: then 0 means a sample, and -EAGAIN that nothing came.
    * `silent_send`: without a single echo `send` returns 0, if it may retry. -/

namespace HcSr04Send

open Interleaving
open HcSr04 (Version eagain)
open HcSr04Machine (Mem Pc Pulse Back doSend retry send next next_lock)

/-! ## The call and its log -/

inductive Task where
  | sender
  | irq
  deriving DecidableEq

def Task.task : Task → HcSr04Machine.Task
  | .sender => .caller 0
  | .irq => .irq

/-- A `do_send`: what its polls have read, the last one first. -/
structure Attempt where
  polls : List Bool
  timedOut : Bool
  deriving DecidableEq

/-- The samples stored and the echoes accepted by a moment. -/
structure Mark where
  stored : Nat
  accepted : Nat
  deriving DecidableEq

structure Log where
  /-- `send` has found STOPPING and set ONGOING. -/
  claim : Option Mark
  accepted : Nat
  attempts : List Attempt
  /-- The last `ret`, once the loop of `send` is left. -/
  ret : Option Int
  returned : Option Mark

def Log.initial : Log := ⟨none, 0, [], none, none⟩

structure Bench where
  mem : Mem
  log : Log

def Bench.mark (b : Bench) : Mark := ⟨b.mem.stored.length, b.log.accepted⟩

/-- One more poll of the running attempt. -/
def Log.poll (l : Log) (ongoing : Bool) : Log :=
  match l.attempts with
  | [] => l
  | a :: rest =>
      { l with
        attempts := { a with polls := ongoing :: a.polls } :: rest
        ret := if ongoing then l.ret else some 0 }

/-- The running attempt times out. -/
def Log.timeOut (l : Log) (left : Nat) : Log :=
  match l.attempts with
  | [] => l
  | a :: rest =>
      { l with
        attempts := { a with timedOut := true } :: rest
        ret := if left = 0 then some (-eagain) else l.ret }

/-- What a turn at a place adds to the log. -/
def note (b : Bench) : Pc → Log
  | .sendTest _ => if b.mem.ongoing then b.log else { b.log with claim := some b.mark }
  | .pulse _ => { b.log with attempts := ⟨[], false⟩ :: b.log.attempts }
  | .pollFirst _ | .poll _ _ => b.log.poll b.mem.ongoing
  | .timeOut p => b.log.timeOut p.left
  | .sendReturn _ => { b.log with returned := some b.mark }
  | .irqTest => if b.mem.ongoing then { b.log with accepted := b.log.accepted + 1 } else b.log
  | _ => b.log

section Machine
variable (v : Version) (retryCnt : Nat)

/-- The claim is made for `retry_cnt`; the rest is the code of the device. -/
def step (t : Task) (m : Mem) : Pc → Option (Mem × Pc)
  | .sendTest b =>
      if m.ongoing then some (m, .unlock .ongoing b.pc)
      else some ({ m with ongoing := true, claims := m.claims + 1 },
        .unlock .ongoing (doSend v ⟨b, retryCnt, m.claims + 1⟩))
  | q => next v t.task m q

inductive Act where
  | run
  /-- The echo line rises. -/
  | fire
  /-- Time passes. -/
  | tick (ns : Nat)
  deriving DecidableEq

def exec (t : Task) (b : Bench) (q : Pc) : Act → Option (Bench × Pc)
  | .run => (step v retryCnt t b.mem q).map fun r => (⟨r.1, note b q⟩, r.2)
  | .fire =>
      match t, q with
      | .irq, .idle => some (b, .lock .ongoing .irqTest)
      | _, _ => none
  | .tick ns => some ({ b with mem.clock := b.mem.clock + ns }, q)

abbrev State := Sys Task Bench Pc

/-- `send` is called on a device in any state, with no interrupt being handled. -/
def State.calling (m : Mem) : State where
  mem := ⟨m, Log.initial⟩
  loc
    | .sender => send .write
    | .irq => .idle

abbrev ReachWhen (C : State → Task → Act → Prop) (m : Mem) : State → Prop :=
  Reach (exec v retryCnt) C (State.calling m)

end Machine

theorem exec_run {v : Version} {retryCnt : Nat} {t : Task} {b b' : Bench} {q q' : Pc}
    (h : exec v retryCnt t b q .run = some (b', q')) :
    ∃ m', step v retryCnt t b.mem q = some (m', q') ∧ b' = ⟨m', note b q⟩ := by
  obtain ⟨⟨m', k⟩, hn, he⟩ := Option.map_eq_some_iff.mp h
  cases he
  exact ⟨m', hn, rfl⟩

/-! ## What the result should say -/

/-- The attempt read ONGOING at every poll, and ran into the limit. -/
def Attempt.silent (a : Attempt) : Prop := a.timedOut = true ∧ a.polls = List.replicate 50001 true

/-- 0 means that a sample was stored between the claim and the return; -EAGAIN that every
    attempt there is was made in vain, and no echo was accepted. -/
structure Measures (retryCnt : Nat) (l : Log) : Prop where
  success : ∀ c r, l.claim = some c → l.returned = some r → l.ret = some 0 → c.stored < r.stored
  failure : ∀ r, l.returned = some r → l.ret = some (-eagain) →
    (l.attempts.length = retryCnt + 1 ∧ ∀ a ∈ l.attempts, a.silent)
      ∧ ∃ c, l.claim = some c ∧ r.accepted = c.accepted

/-- A handler that will store STOPPING and no sample. -/
def ending : Pc → Bool
  | .lock _ k | .unlock _ k => ending k
  | .irqStop => true
  | _ => false

/-- A handler that has left its test of the flag and not stored STOPPING yet. -/
def handling : Pc → Bool
  | .lock _ k | .unlock _ k => handling k
  | .irqClock _ | .irqDiff _ _ | .irqNewest _ | .irqData _ | .irqStop => true
  | _ => false

/-- The turns of `send` that its result depends on. -/
structure Undisturbed (s : State) (t : Task) (a : Act) : Prop where
  /-- The claim is not made in front of such a store. -/
  claim : ∀ b, s.loc t = .sendTest b → a = .run → s.mem.mem.ongoing = false →
    ending (s.loc .irq) = false
  /-- No attempt times out before a sample while another one is left. -/
  retry : ∀ p, s.loc t = .timeOut p → a = .run → p.left ≠ 0 →
    ∀ c, s.mem.log.claim = some c → c.stored < s.mem.mem.stored.length
  /-- The last one times out with the flag still set and no handler on its way to clear it. -/
  last : ∀ p, s.loc t = .timeOut p → a = .run → p.left = 0 →
    s.mem.mem.ongoing = true ∧ handling (s.loc .irq) = false

/-! ## What is known at a place -/

/-- A sample has been stored since the claim, if there is one. -/
def Sampled (b : Bench) : Prop := ∀ c, b.log.claim = some c → c.stored < b.mem.stored.length

/-- A cleared flag means a sample, until the last attempt has timed out. -/
def Cleared (b : Bench) : Prop :=
  b.log.ret ≠ some (-eagain) → b.mem.ongoing = false → Sampled b

/-- So does a handler that is about to clear it. -/
def Ends (q : Pc) (b : Bench) : Prop :=
  b.log.ret ≠ some (-eagain) → ending q = true → Sampled b

/-- `send` has claimed the device and not left its loop. -/
structure Underway (p : Pulse) (b : Bench) : Prop where
  back : p.back = .write
  claim : b.log.claim ≠ none
  ret : b.log.ret = none
  returned : b.log.returned = none

/-- The attempts before this one: none, or the flag is cleared for good. -/
def After (retryCnt : Nat) (p : Pulse) (b : Bench) (before : List Attempt) : Prop :=
  (before = [] → p.left = retryCnt) ∧ (before ≠ [] → b.mem.ongoing = false)

/-- The first attempt, with `n` polls behind it. -/
structure Polling (retryCnt : Nat) (p : Pulse) (n : Nat) (b : Bench) : Prop
    extends Underway p b where
  attempts : b.log.attempts = [⟨List.replicate n true, false⟩]
  left : p.left = retryCnt

/-- The only attempt has timed out, and nobody sets the flag again. -/
structure Failed (retryCnt : Nat) (b : Bench) : Prop where
  ret : b.log.ret = some (-eagain)
  attempts : b.log.attempts = [⟨List.replicate 50001 true, true⟩]
  only : retryCnt = 0
  claim : ∃ c, b.log.claim = some c ∧ c.accepted = b.log.accepted
  ongoing : b.mem.ongoing = false

def Decided (retryCnt : Nat) (b : Bench) : Prop :=
  b.log.returned = none ∧ ((b.log.ret = some 0 ∧ Sampled b) ∨ Failed retryCnt b)

def Stage (retryCnt : Nat) (b : Bench) : Pc → Prop
  | .lock _ k | .unlock _ k => Stage retryCnt b k
  | .sendTest back => back = .write ∧ b.log.claim = none ∧ b.log.attempts = []
      ∧ b.log.ret = none ∧ b.log.returned = none
  | .readPin p | .pulse p => Underway p b ∧ After retryCnt p b b.log.attempts
  | .clock p | .stamp p _ | .pollFirst p => Underway p b
      ∧ ∃ before, b.log.attempts = ⟨[], false⟩ :: before ∧ After retryCnt p b before
  | .count p c => Polling retryCnt p (c + 1) b ∧ c ≤ 50000
  | .poll p c => Polling retryCnt p c b ∧ c ≤ 50000
  | .timeOut p => Polling retryCnt p 50001 b
  | .sendReturn back => back = .write ∧ Decided retryCnt b
  | .idle => Measures retryCnt b.log
  | _ => False

/-! ## The interrupt -/

section Irq
variable {v : Version} {retryCnt : Nat} {b b' : Bench} {q q' : Pc} {a : Act}

/-- What a turn of the interrupt does. -/
structure Moved (b : Bench) (q : Pc) (b' : Bench) (q' : Pc) : Prop where
  claim : b'.log.claim = b.log.claim
  attempts : b'.log.attempts = b.log.attempts
  ret : b'.log.ret = b.log.ret
  returned : b'.log.returned = b.log.returned
  accepted : b'.log.accepted = b.log.accepted ∨ b.mem.ongoing = true
  stored : b.mem.stored.length ≤ b'.mem.stored.length
  raises : b'.mem.ongoing = true → b.mem.ongoing = true
  clears : b'.mem.ongoing = false → b.mem.ongoing = false ∨ ending q = true
  ends : ending q' = true → ending q = true ∨ b.mem.ongoing = false
    ∨ b.mem.stored.length < b'.mem.stored.length
  /-- Nothing is accepted by a turn that leaves the flag set and no handler behind its test. -/
  unanswered : handling q' = false → b'.mem.ongoing = true →
    handling q = false ∧ b'.log.accepted = b.log.accepted

theorem Moved.still (hl : b'.log = b.log) (hs : b'.mem.stored = b.mem.stored)
    (hg : b'.mem.ongoing = b.mem.ongoing) (he : ending q' = true → ending q = true)
    (hh : handling q' = false → handling q = false) : Moved b q b' q' := by
  constructor
  · rw [hl]
  · rw [hl]
  · rw [hl]
  · rw [hl]
  · rw [hl]
    exact .inl rfl
  · exact Nat.le_of_eq (congrArg List.length hs.symm)
  · rw [hg]
    exact id
  · rw [hg]
    exact .inl
  · exact fun h => .inl (he h)
  · intro hq _
    rw [hl]
    exact ⟨hh hq, rfl⟩

theorem not_of_irq (back : Back) : ¬ back.of .irq := by
  cases back <;> exact id

theorem irq_run (ho : q.of .irq) (h : exec v retryCnt .irq b q .run = some (b', q')) :
    Moved b q b' q' := by
  obtain ⟨m', hn, rfl⟩ := exec_run h
  cases q with
  | lock l k =>
      obtain ⟨-, rfl, rfl⟩ := next_lock (v := v) hn
      exact Moved.still rfl rfl rfl id id
  | unlock l k =>
      cases hn
      exact Moved.still rfl rfl rfl id id
  | idle => cases hn
  | irqTest =>
      cases hn
      by_cases hg : b.mem.ongoing = true
      · have hl : note b .irqTest = { b.log with accepted := b.log.accepted + 1 } := if_pos hg
        rw [hl]
        refine ⟨rfl, rfl, rfl, rfl, .inr hg, Nat.le_refl _, fun _ => hg, .inl, ?_, ?_⟩
        · show ending (if b.mem.ongoing then _ else _) = true → _
          rw [if_pos hg]
          exact nofun
        · show handling (if b.mem.ongoing then _ else _) = false → _
          rw [if_pos hg]
          exact nofun
      · have hl : note b .irqTest = b.log := if_neg hg
        rw [hl]
        refine ⟨rfl, rfl, rfl, rfl, .inl rfl, Nat.le_refl _, id, .inl, fun _ => .inr (.inl ?_),
          fun _ _ => ⟨rfl, rfl⟩⟩
        exact Bool.eq_false_iff.mpr hg
  | irqClock _ | irqDiff _ _ | irqNewest _ =>
      cases hn
      exact Moved.still rfl rfl rfl id id
  | irqData x =>
      cases hn
      refine ⟨rfl, rfl, rfl, rfl, .inl rfl, Nat.le_succ _, id, .inl, fun _ => .inr (.inr ?_), nofun⟩
      exact Nat.lt_succ_self _
  | irqStop =>
      cases hn
      exact ⟨rfl, rfl, rfl, rfl, .inl rfl, Nat.le_refl _, nofun, fun _ => .inr rfl, nofun,
        fun _ => nofun⟩
  | _ => simp [Pc.of, not_of_irq] at ho

theorem step_eq {t : Task} {m : Mem} (hq : ∀ back, q ≠ .sendTest back) :
    step v retryCnt t m q = next v t.task m q := by
  cases q with
  | sendTest back => exact absurd rfl (hq back)
  | _ => rfl

theorem irq_of (ho : q.of .irq) (h : exec v retryCnt .irq b q .run = some (b', q')) :
    q'.of .irq := by
  obtain ⟨m', hn, rfl⟩ := exec_run h
  have hq : ∀ back, q ≠ .sendTest back := by
    rintro back rfl
    exact not_of_irq back ho
  rw [step_eq hq] at hn
  exact HcSr04Machine.Pc.of.next ho hn

theorem irq_exec (ho : q.of .irq) (h : exec v retryCnt .irq b q a = some (b', q')) :
    q'.of .irq ∧ Moved b q b' q' := by
  cases a with
  | run => exact ⟨irq_of ho h, irq_run ho h⟩
  | fire =>
      simp only [exec] at h
      split at h
      · cases h
        exact ⟨rfl, Moved.still rfl rfl rfl id id⟩
      · cases h
  | tick ns =>
      cases h
      exact ⟨ho, Moved.still rfl rfl rfl id id⟩

theorem Moved.sampled (h : Moved b q b' q') (hs : Sampled b) : Sampled b' := by
  intro c hc
  rw [h.claim] at hc
  exact Nat.lt_of_lt_of_le (hs c hc) h.stored

/-- The claim was made when the samples were at most these. -/
def Bounded (b : Bench) : Prop := ∀ c, b.log.claim = some c → c.stored ≤ b.mem.stored.length

theorem Moved.cleared (h : Moved b q b' q') (hI : Cleared b) (hP : Ends q b) : Cleared b' := by
  intro hret hg
  rw [h.ret] at hret
  rcases h.clears hg with hg | he
  · exact h.sampled (hI hret hg)
  · exact h.sampled (hP hret he)

theorem Moved.endsWith (h : Moved b q b' q') (hB : Bounded b) (hI : Cleared b) (hP : Ends q b) :
    Ends q' b' := by
  intro hret he
  rw [h.ret] at hret
  rcases h.ends he with he | hg | hlt
  · exact h.sampled (hP hret he)
  · exact h.sampled (hI hret hg)
  · intro c hc
    rw [h.claim] at hc
    exact Nat.lt_of_le_of_lt (hB c hc) hlt

theorem Moved.off (h : Moved b q b' q') (hg : b.mem.ongoing = false) : b'.mem.ongoing = false := by
  refine Bool.eq_false_iff.mpr fun hg' => ?_
  rw [h.raises hg'] at hg
  cases hg

theorem Moved.underway (h : Moved b q b' q') {p : Pulse} (hu : Underway p b) : Underway p b' :=
  ⟨hu.back, h.claim ▸ hu.claim, h.ret.trans hu.ret, h.returned.trans hu.returned⟩

theorem Moved.after (h : Moved b q b' q') {p : Pulse} {before : List Attempt}
    (ha : After retryCnt p b before) : After retryCnt p b' before :=
  ⟨ha.1, fun hne => h.off (ha.2 hne)⟩

theorem Moved.polling (h : Moved b q b' q') {p : Pulse} {n : Nat} (hp : Polling retryCnt p n b) :
    Polling retryCnt p n b' :=
  ⟨h.underway hp.toUnderway, h.attempts.trans hp.attempts, hp.left⟩

theorem Moved.decided (h : Moved b q b' q') (hd : Decided retryCnt b) : Decided retryCnt b' := by
  obtain ⟨hr, ⟨h0, hs⟩ | hf⟩ := hd
  · exact ⟨h.returned.trans hr, .inl ⟨h.ret.trans h0, h.sampled hs⟩⟩
  · refine ⟨h.returned.trans hr, .inr ⟨h.ret.trans hf.ret, h.attempts.trans hf.attempts, hf.only,
      ?_, h.off hf.ongoing⟩⟩
    -- an echo would have been accepted with the flag cleared
    have hacc : b'.log.accepted = b.log.accepted := by
      refine h.accepted.resolve_right fun hg => ?_
      rw [hf.ongoing] at hg
      cases hg
    rw [h.claim, hacc]
    exact hf.claim

theorem Moved.measures (h : Moved b q b' q') (hm : Measures retryCnt b.log) :
    Measures retryCnt b'.log := by
  constructor
  · rw [h.claim, h.returned, h.ret]
    exact hm.success
  · rw [h.claim, h.returned, h.ret, h.attempts]
    exact hm.failure

/-- The interrupt does not disturb `send`. -/
theorem Moved.stage {i i' : Pc} (h : Moved b i b' i') (hst : Stage retryCnt b q) :
    Stage retryCnt b' q := by
  induction q with
  | lock l k ih => exact ih hst
  | unlock l k ih => exact ih hst
  | sendTest back =>
      obtain ⟨hb, hc, ha, hr, hret⟩ := hst
      exact ⟨hb, h.claim.trans hc, h.attempts.trans ha, h.ret.trans hr, h.returned.trans hret⟩
  | readPin _ | pulse _ =>
      obtain ⟨hu, ha⟩ := hst
      refine ⟨h.underway hu, ?_⟩
      rw [h.attempts]
      exact h.after ha
  | clock _ | stamp _ _ | pollFirst _ =>
      obtain ⟨hu, before, ha, hb⟩ := hst
      exact ⟨h.underway hu, before, h.attempts.trans ha, h.after hb⟩
  | count _ _ | poll _ _ => exact ⟨h.polling hst.1, hst.2⟩
  | timeOut p => exact h.polling hst
  | sendReturn back => exact ⟨hst.1, h.decided hst.2⟩
  | idle => exact h.measures hst
  | _ => exact hst.elim

end Irq

/-! ## The call -/

section Sender
variable {v : Version} {retryCnt : Nat} {b b' : Bench} {q q' : Pc} {a : Act} {m' : Mem}

/-- What a turn of `send` does to the claim, the flag and the result. -/
inductive Turned (b : Bench) (q : Pc) (b' : Bench) : Prop where
  | claimed (back : Back) : q = .sendTest back → b.mem.ongoing = false →
      b'.log.claim = some b.mark → b'.mem.ongoing = true → Turned b q b'
  | same : b'.log.claim = b.log.claim → b'.mem.ongoing = b.mem.ongoing →
      (b'.log.ret ≠ some (-eagain) → b.log.ret ≠ some (-eagain)) → Turned b q b'
  | out : b'.log.claim = b.log.claim → (b'.log.ret = some (-eagain) ∨ Sampled b) → Turned b q b'

/-- The state behind a turn of `send`. -/
structure Sent (retryCnt : Nat) (b : Bench) (q : Pc) (b' : Bench) (q' : Pc) : Prop where
  stage : Stage retryCnt b' q'
  stored : b'.mem.stored = b.mem.stored
  turned : Turned b q b'

theorem Sampled.same (hs : Sampled b) (h : b'.mem.stored = b.mem.stored)
    (hc : b'.log.claim = b.log.claim) : Sampled b' := by
  rw [Sampled, hc, h]
  exact hs

theorem Sent.bounded (h : Sent retryCnt b q b' q') (hB : Bounded b) : Bounded b' := by
  intro c hc
  rw [h.stored]
  rcases h.turned with ⟨-, -, -, hclaim, -⟩ | ⟨hclaim, -, -⟩ | ⟨hclaim, -⟩
  · obtain rfl := Option.some.inj (hclaim.symm.trans hc)
    exact Nat.le_refl _
  · exact hB c (hclaim.symm.trans hc)
  · exact hB c (hclaim.symm.trans hc)

theorem Sent.cleared (h : Sent retryCnt b q b' q') (hI : Cleared b) : Cleared b' := by
  intro hret hg
  rcases h.turned with ⟨-, -, -, -, hon⟩ | ⟨hclaim, hon, hr⟩ | ⟨hclaim, hr | hs⟩
  · rw [hon] at hg
    cases hg
  · exact (hI (hr hret) (hon.symm.trans hg)).same h.stored hclaim
  · exact absurd hr hret
  · exact hs.same h.stored hclaim

theorem Sent.endsWith (h : Sent retryCnt b q b' q') {i : Pc} (hP : Ends i b)
    (hC : ∀ back, q = .sendTest back → b.mem.ongoing = false → ending i = false) : Ends i b' := by
  intro hret he
  rcases h.turned with ⟨back, hq, hg, -, -⟩ | ⟨hclaim, -, hr⟩ | ⟨hclaim, hr | hs⟩
  · rw [hC back hq hg] at he
    cases he
  · exact (hP (hr hret) he).same h.stored hclaim
  · exact absurd hr hret
  · exact hs.same h.stored hclaim

/-- A turn that changes nothing the call knows. -/
theorem Sent.still (hl : b'.log = b.log) (hs : b'.mem.stored = b.mem.stored)
    (hg : b'.mem.ongoing = b.mem.ongoing) (hst : Stage retryCnt b q') :
    Sent retryCnt b q b' q' := by
  have hmoved : Moved b .idle b' .idle := .still hl hs hg id id
  refine ⟨hmoved.stage hst, hs, .same ?_ hg ?_⟩
  · rw [hl]
  · rw [hl]
    exact id

theorem stage_doSend {p : Pulse} (h : Stage retryCnt b (.pulse p)) :
    Stage retryCnt b (doSend v p) := by
  cases v <;> exact h

theorem sent_sendTest {back : Back} (hst : Stage retryCnt b (.sendTest back))
    (h : exec v retryCnt .sender b (.sendTest back) .run = some (b', q')) :
    Sent retryCnt b (.sendTest back) b' q' := by
  obtain ⟨m', hn, rfl⟩ := exec_run h
  obtain ⟨rfl, hc, ha, hr, hret⟩ := hst
  rw [step] at hn
  split at hn <;> rename_i hg <;> cases hn
  · have hl : note b (.sendTest .write) = b.log := if_pos hg
    refine Sent.still hl rfl rfl ⟨fun c r hc' => ?_, fun r hr' => ?_⟩
    · rw [hc] at hc'
      cases hc'
    · rw [hret] at hr'
      cases hr'
  · have hl : note b (.sendTest .write) = { b.log with claim := some b.mark } := if_neg hg
    rw [hl]
    refine ⟨stage_doSend ⟨⟨rfl, nofun, hr, hret⟩, fun _ => rfl, fun hne => absurd ha hne⟩, rfl, ?_⟩
    exact .claimed .write rfl (Bool.eq_false_iff.mpr hg) rfl rfl

/-- A poll that reads STOPPING is the end of the loop. -/
theorem sent_zero {p : Pulse} (hu : Underway p b) (hI : Cleared b) (hg : b.mem.ongoing = false)
    (hl : b'.log.claim = b.log.claim ∧ b'.log.returned = b.log.returned ∧ b'.log.ret = some 0)
    (hm : b'.mem = b.mem) (hq : Stage retryCnt b' q' = Stage retryCnt b' (.sendReturn p.back)) :
    Sent retryCnt b q b' q' := by
  obtain ⟨hc, hr, h0⟩ := hl
  have hret : b.log.ret ≠ some (-eagain) := by
    rw [hu.ret]
    exact nofun
  refine ⟨?_, by rw [hm], .same hc (by rw [hm]) fun _ => hret⟩
  rw [hq]
  refine ⟨hu.back, hr.trans hu.returned, .inl ⟨h0, (hI hret hg).same ?_ hc⟩⟩
  rw [hm]

theorem sent_pollFirst {p : Pulse} (hst : Stage retryCnt b (.pollFirst p)) (hI : Cleared b)
    (h : exec v retryCnt .sender b (.pollFirst p) .run = some (b', q')) :
    Sent retryCnt b (.pollFirst p) b' q' := by
  obtain ⟨m', hn, rfl⟩ := exec_run h
  cases hn
  obtain ⟨hu, before, ha, hafter⟩ := hst
  cases hg : b.mem.ongoing with
  | true =>
      have hnil : before = [] := by
        by_contra hne
        rw [hafter.2 hne] at hg
        cases hg
      have hl : note b (.pollFirst p) = { b.log with attempts := [⟨[true], false⟩] } := by
        simp [note, Log.poll, ha, hg, hnil]
      rw [hl]
      refine ⟨⟨⟨⟨hu.back, hu.claim, hu.ret, hu.returned⟩, rfl, hafter.1 hnil⟩, Nat.zero_le _⟩,
        rfl, ?_⟩
      exact .same rfl rfl id
  | false =>
      refine sent_zero hu hI hg ?_ rfl rfl
      simp [note, Log.poll, ha, hg]

theorem sent_poll {p : Pulse} {c : Nat} (hst : Stage retryCnt b (.poll p c)) (hI : Cleared b)
    (h : exec v retryCnt .sender b (.poll p c) .run = some (b', q')) :
    Sent retryCnt b (.poll p c) b' q' := by
  obtain ⟨m', hn, rfl⟩ := exec_run h
  cases hn
  obtain ⟨hp, hc⟩ := hst
  cases hg : b.mem.ongoing with
  | true =>
      have hl : note b (.poll p c)
          = { b.log with attempts := [⟨List.replicate (c + 1) true, false⟩] } := by
        simp [note, Log.poll, hp.attempts, hg, List.replicate_succ]
      rw [hl]
      refine ⟨⟨⟨⟨hp.back, hp.claim, hp.ret, hp.returned⟩, rfl, hp.left⟩, hc⟩, rfl, ?_⟩
      exact .same rfl rfl id
  | false =>
      refine sent_zero hp.toUnderway hI hg ?_ rfl rfl
      simp [note, Log.poll, hp.attempts, hg]

theorem sent_timeOut {p : Pulse} (hst : Stage retryCnt b (.timeOut p))
    (hretry : p.left ≠ 0 → Sampled b)
    (hlast : p.left = 0 → ∀ c, b.log.claim = some c → c.accepted = b.log.accepted)
    (h : exec v retryCnt .sender b (.timeOut p) .run = some (b', q')) :
    Sent retryCnt b (.timeOut p) b' q' := by
  obtain ⟨m', hn, rfl⟩ := exec_run h
  cases hn
  have hp : Polling retryCnt p 50001 b := hst
  cases hleft : p.left with
  | zero =>
      have hl : note b (.timeOut p) = { b.log with
          attempts := [⟨List.replicate 50001 true, true⟩]
          ret := some (-eagain) } := by
        simp only [note, Log.timeOut, hp.attempts, hleft, if_true]
      obtain ⟨c, hc⟩ := Option.ne_none_iff_exists'.mp hp.claim
      rw [hl]
      refine ⟨?_, rfl, .out rfl (.inl rfl)⟩
      show Stage retryCnt _ (retry v p)
      rw [retry, hleft]
      refine ⟨hp.back, hp.returned, .inr ⟨rfl, rfl, hp.left.symm.trans hleft, ⟨c, hc, ?_⟩, rfl⟩⟩
      exact hlast hleft c hc
  | succ left =>
      have hl : note b (.timeOut p) = { b.log with
          attempts := [⟨List.replicate 50001 true, true⟩] } := by
        simp only [note, Log.timeOut, hp.attempts, hleft, Nat.succ_ne_zero, if_false]
      rw [hl]
      refine ⟨?_, rfl, .out rfl (.inr (hretry (hleft ▸ Nat.succ_ne_zero left)))⟩
      show Stage retryCnt _ (retry v p)
      rw [retry, hleft]
      refine stage_doSend ⟨⟨hp.back, hp.claim, hp.ret, hp.returned⟩, nofun, fun _ => rfl⟩

theorem sent_sendReturn {back : Back} (hst : Stage retryCnt b (.sendReturn back))
    (h : exec v retryCnt .sender b (.sendReturn back) .run = some (b', q')) :
    Sent retryCnt b (.sendReturn back) b' q' := by
  obtain ⟨m', hn, rfl⟩ := exec_run h
  cases hn
  obtain ⟨rfl, -, hd⟩ := hst
  refine ⟨⟨?_, ?_⟩, rfl, .same rfl rfl id⟩
  · rintro c r hc ⟨⟩ h0
    rcases hd with ⟨-, hs⟩ | hf
    · exact hs c hc
    · have := hf.ret.symm.trans h0
      cases this
  · rintro r ⟨⟩ he
    rcases hd with ⟨h0, -⟩ | hf
    · have := h0.symm.trans he
      cases this
    · obtain ⟨c, hc, hacc⟩ := hf.claim
      refine ⟨⟨?_, ?_⟩, c, hc, hacc.symm⟩
      · show b.log.attempts.length = _
        rw [hf.attempts, hf.only]
        rfl
      · intro a ha
        change a ∈ b.log.attempts at ha
        rw [hf.attempts] at ha
        rw [List.mem_singleton.mp ha]
        exact ⟨rfl, rfl⟩

/-- **ONE TURN OF `send`**, place by place. -/
theorem sender_run (hst : Stage retryCnt b q) (hI : Cleared b)
    (hretry : ∀ p, q = .timeOut p → p.left ≠ 0 → Sampled b)
    (hlast : ∀ p, q = .timeOut p → p.left = 0 →
      ∀ c, b.log.claim = some c → c.accepted = b.log.accepted)
    (h : exec v retryCnt .sender b q .run = some (b', q')) : Sent retryCnt b q b' q' := by
  cases q with
  | sendTest back => exact sent_sendTest hst h
  | pollFirst p => exact sent_pollFirst hst hI h
  | poll p c => exact sent_poll hst hI h
  | timeOut p => exact sent_timeOut hst (hretry p rfl) (hlast p rfl) h
  | sendReturn back => exact sent_sendReturn hst h
  | lock l k =>
      obtain ⟨m', hn, rfl⟩ := exec_run h
      obtain ⟨-, rfl, rfl⟩ := next_lock (v := v) hn
      exact Sent.still rfl rfl rfl hst
  | unlock l k =>
      obtain ⟨m', hn, rfl⟩ := exec_run h
      cases hn
      exact Sent.still rfl rfl rfl hst
  | readPin _ | clock _ | stamp _ _ =>
      cases h
      exact Sent.still rfl rfl rfl hst
  | pulse p =>
      cases h
      obtain ⟨hu, hafter⟩ := hst
      refine ⟨⟨⟨hu.back, hu.claim, hu.ret, hu.returned⟩, b.log.attempts, rfl, hafter⟩, rfl, ?_⟩
      exact .same rfl rfl id
  | count p c =>
      cases h
      obtain ⟨hp, hc⟩ := hst
      refine Sent.still rfl rfl rfl ?_
      split
      · have hc' : c = 50000 := by omega
        subst hc'
        exact hp
      · exact ⟨hp, by omega⟩
  | idle => cases h
  | _ => exact hst.elim

end Sender

/-! ## The last time-out -/

section Unanswered
variable {v : Version} {retryCnt : Nat} {b b' : Bench} {q q' : Pc} {m : Mem} {s : State}
  {C : State → Task → Act → Prop}

/-- With the flag set and no handler behind its test, no echo has been accepted since the
    claim. -/
def Unanswered (q : Pc) (b : Bench) : Prop :=
  handling q = false → b.mem.ongoing = true →
    ∀ c, b.log.claim = some c → c.accepted = b.log.accepted

theorem Moved.keeps_unanswered (h : Moved b q b' q') (hP : Unanswered q b) :
    Unanswered q' b' := by
  intro hq hg c hc
  obtain ⟨hq, hacc⟩ := h.unanswered hq hg
  rw [hacc]
  exact hP hq (h.raises hg) c (h.claim.symm.trans hc)

theorem caller_of (ho : q.of (.caller 0))
    (h : exec v retryCnt .sender b q .run = some (b', q')) : q'.of (.caller 0) := by
  obtain ⟨m', hn, rfl⟩ := exec_run h
  cases q with
  | sendTest back =>
      rw [step] at hn
      split at hn <;> cases hn
      · exact HcSr04Machine.of_back ho
      · exact HcSr04Machine.of_doSend ho
  | idle => cases hn
  | _ => exact ho.next (v := v) (m := b.mem) hn

theorem Log.poll_claim (l : Log) (ongoing : Bool) :
    (l.poll ongoing).claim = l.claim ∧ (l.poll ongoing).accepted = l.accepted := by
  unfold Log.poll
  split <;> exact ⟨rfl, rfl⟩

theorem Log.timeOut_accepted (l : Log) (left : Nat) : (l.timeOut left).accepted = l.accepted := by
  unfold Log.timeOut
  split <;> rfl

/-- What a turn of `send` does to the flag, the claim and the count of echoes. -/
theorem caller_run (ho : q.of (.caller 0))
    (h : exec v retryCnt .sender b q .run = some (b', q')) :
    b'.log.accepted = b.log.accepted ∧ (b'.mem.ongoing = true →
      b'.log.claim = some b.mark ∨ (b'.log.claim = b.log.claim ∧ b.mem.ongoing = true)) := by
  obtain ⟨m', hn, rfl⟩ := exec_run h
  cases q with
  | sendTest back =>
      rw [step] at hn
      split at hn <;> rename_i hg <;> cases hn
      · have hl : note b (.sendTest back) = b.log := if_pos hg
        exact ⟨congrArg _ hl, fun hg' => .inr ⟨congrArg _ hl, hg'⟩⟩
      · have hl : note b (.sendTest back) = { b.log with claim := some b.mark } := if_neg hg
        rw [hl]
        exact ⟨rfl, fun _ => .inl rfl⟩
  | pollFirst p | poll p c =>
      cases hn
      obtain ⟨hclaim, hacc⟩ := b.log.poll_claim b.mem.ongoing
      exact ⟨hacc, fun hg => .inr ⟨hclaim, hg⟩⟩
  | timeOut p =>
      cases hn
      refine ⟨b.log.timeOut_accepted p.left, fun hg => ?_⟩
      cases hg
  | irqTest => cases ho
  | _ =>
      refine ⟨rfl, fun hg => .inr ⟨rfl, ?_⟩⟩
      simp only [step, next] at hn
      repeat' split at hn
      all_goals cases hn
      -- a turn that clears the flag does not leave it set
      all_goals first | exact hg | cases hg

/-- Each task is in its own code, and the interrupt has left nothing unanswered. -/
def Placed (t : Task) (b : Bench) (q : Pc) : Prop :=
  match t with
  | .sender => q.of (.caller 0)
  | .irq => q.of .irq ∧ Unanswered q b

/-- The flag and the place of the handler tell, in any run, whether an echo has been accepted
    since the claim. -/
theorem reach_unanswered (h : ReachWhen v retryCnt C m s) : Unanswered (s.loc .irq) s.mem := by
  suffices hall : True ∧ ∀ t, Placed t s.mem (s.loc t) from (hall.2 .irq).2
  refine Reach.modular (I := fun _ => True) ?_ ?_ ?_ h
  · refine ⟨trivial, fun t => ?_⟩
    cases t with
    | sender => exact trivial
    | irq =>
        refine ⟨nofun, fun _ _ c hc => ?_⟩
        cases hc
  · intro s t a b' q' _ _ _ hP he
    refine ⟨trivial, ?_⟩
    cases t with
    | sender =>
        cases a with
        | run => exact caller_of hP he
        | fire => cases he
        | tick ns =>
            cases he
            exact hP
    | irq =>
        obtain ⟨ho, hm⟩ := irq_exec hP.1 he
        exact ⟨ho, hm.keeps_unanswered hP.2⟩
  · intro s t u a b' q' _ _ htu _ hPt hPu he
    cases t with
    | irq =>
        cases u with
        | irq => exact absurd rfl htu
        | sender => exact hPu
    | sender =>
        cases u with
        | sender => exact absurd rfl htu
        | irq =>
            refine ⟨hPu.1, ?_⟩
            cases a with
            | run =>
                obtain ⟨hacc, hturn⟩ := caller_run hPt he
                intro hq hg c hc
                rw [hacc]
                rcases hturn hg with hclaim | ⟨hclaim, hg⟩
                · obtain rfl := Option.some.inj (hclaim.symm.trans hc)
                  rfl
                · exact hPu.2 hq hg c (hclaim.symm.trans hc)
            | fire => cases he
            | tick ns =>
                cases he
                exact hPu.2

end Unanswered

/-! ## Every run -/

section Runs
variable {v : Version} {retryCnt : Nat} {m : Mem} {s : State}

/-- What is known of a task. -/
def Known (retryCnt : Nat) (t : Task) (b : Bench) (q : Pc) : Prop :=
  match t with
  | .sender => Stage retryCnt b q
  | .irq => q.of .irq ∧ Ends q b

/-- The clock is in nobody's way. -/
theorem moved_tick (b : Bench) (q : Pc) (ns : Nat) :
    Moved b q { b with mem.clock := b.mem.clock + ns } q :=
  Moved.still rfl rfl rfl id id

theorem Undisturbed.sent (hC : Undisturbed s .sender .run)
    (hU : Unanswered (s.loc .irq) s.mem)
    (hst : Stage retryCnt s.mem (s.loc .sender)) (hI : Cleared s.mem) {b' : Bench} {q' : Pc}
    (h : exec v retryCnt .sender s.mem (s.loc .sender) .run = some (b', q')) :
    Sent retryCnt s.mem (s.loc .sender) b' q' :=
  sender_run hst hI (fun p hq => hC.retry p hq rfl)
    (fun p hq hleft => have hlast := hC.last p hq rfl hleft; hU hlast.2 hlast.1) h

theorem reach_stage (h : ReachWhen v retryCnt Undisturbed m s) :
    (Cleared s.mem ∧ Bounded s.mem) ∧ ∀ t, Known retryCnt t s.mem (s.loc t) := by
  refine Reach.modular (I := fun b => Cleared b ∧ Bounded b) (P := Known retryCnt) ?_ ?_ ?_ h
  · refine ⟨⟨fun _ _ => nofun, nofun⟩, fun t => ?_⟩
    cases t with
    | sender => exact ⟨rfl, rfl, rfl, rfl, rfl⟩
    | irq => exact ⟨nofun, fun _ => nofun⟩
  · intro s t a b' q' hr hC hI hP he
    cases t with
    | sender =>
        cases a with
        | run =>
            have hsent := hC.sent (reach_unanswered hr) hP hI.1 he
            exact ⟨⟨hsent.cleared hI.1, hsent.bounded hI.2⟩, hsent.stage⟩
        | fire => cases he
        | tick ns =>
            cases he
            exact ⟨hI, (moved_tick s.mem .idle ns).stage hP⟩
    | irq =>
        obtain ⟨ho, hm⟩ := irq_exec hP.1 he
        refine ⟨⟨hm.cleared hI.1 hP.2, fun c hc => ?_⟩, ho, hm.endsWith hI.2 hI.1 hP.2⟩
        rw [hm.claim] at hc
        exact Nat.le_trans (hI.2 c hc) hm.stored
  · intro s t u a b' q' hr hC htu hI hPt hPu he
    cases t with
    | sender =>
        cases u with
        | sender => exact absurd rfl htu
        | irq =>
            cases a with
            | run =>
                have hsent := hC.sent (reach_unanswered hr) hPt hI.1 he
                exact ⟨hPu.1, hsent.endsWith hPu.2 fun back hq => hC.claim back hq rfl⟩
            | fire => cases he
            | tick ns =>
                cases he
                exact hPu
    | irq =>
        cases u with
        | irq => exact absurd rfl htu
        | sender => exact (irq_exec hPt.1 he).2.stage hPu

/-- A call that has not returned has no result to measure. -/
theorem Measures.of_none {l : Log} (h : l.returned = none) : Measures retryCnt l := by
  constructor
  · intro c r _ hr
    rw [h] at hr
    cases hr
  · intro r hr
    rw [h] at hr
    cases hr

theorem Stage.measures {b : Bench} {q : Pc} (h : Stage retryCnt b q) : Measures retryCnt b.log := by
  induction q with
  | lock l k ih => exact ih h
  | unlock l k ih => exact ih h
  | sendTest back => exact .of_none h.2.2.2.2
  | readPin _ | pulse _ | clock _ | stamp _ _ | pollFirst _ | count _ _ | poll _ _ =>
      exact .of_none h.1.returned
  | timeOut p => exact .of_none (Polling.toUnderway h).returned
  | sendReturn back => exact .of_none h.2.1
  | idle => exact h
  | _ => exact h.elim

end Runs

/-- **A RESULT THAT SAYS WHAT HAPPENED**: when the call has returned, 0 means a sample since
    its claim, and -EAGAIN that all its attempts were in vain. -/
theorem send_measures (v : Version) (retryCnt : Nat) (m : Mem) {s : State}
    (h : ReachWhen v retryCnt Undisturbed m s) : Measures retryCnt s.mem.log :=
  Stage.measures ((reach_stage h).2 .sender)

/-! ## A call that nothing answers -/

section Silent
variable {v : Version} {retryCnt : Nat} {b : Bench} {p : Pulse}

/-- What an attempt leaves as it was. -/
structure Onward (b b' : Bench) : Prop where
  holder : b'.mem.holder = b.mem.holder
  stored : b'.mem.stored = b.mem.stored
  claim : b'.log.claim = b.log.claim
  attempts : b'.log.attempts ≠ []

abbrev Alone (v : Version) (retryCnt : Nat) : Bench × Pc → Bench × Pc → Prop :=
  Solo (exec v retryCnt) .sender

theorem update_none {l : HcSr04.SpinLock} {f : HcSr04.SpinLock → Option HcSr04Machine.Task}
    (h : f l = none) (o : Option HcSr04Machine.Task) :
    Function.update (Function.update f l o) l none = f := by
  rw [Function.update_idem, ← h, Function.update_eq_self]

/-- A lock that is free is taken. -/
theorem alone_lock {l : HcSr04.SpinLock} {k : Pc} {y : Bench × Pc} (h : b.mem.holder l = none)
    (hy : Alone v retryCnt ({ b with mem := b.mem.setHolder l (some (.caller 0)) }, k) y) :
    Alone v retryCnt (b, .lock l k) y := by
  refine Solo.head .run ?_ hy
  simp [exec, step, next, h, note, Task.task]

/-- A section of one turn. -/
theorem alone_section {l : HcSr04.SpinLock} {k k' : Pc} {m : Mem} {log : Log} {y : Bench × Pc}
    (h : b.mem.holder l = none)
    (hturn : exec v retryCnt .sender { b with mem := b.mem.setHolder l (some (.caller 0)) } k .run
      = some (⟨m.setHolder l (some (.caller 0)), log⟩, .unlock l k'))
    (hm : m.holder = b.mem.holder) (hy : Alone v retryCnt (⟨m, log⟩, k') y) :
    Alone v retryCnt (b, .lock l k) y := by
  have hback : (m.setHolder l (some (.caller 0))).setHolder l none = m := by
    show { m with holder := Function.update (Function.update m.holder l _) l none } = m
    rw [update_none (by rw [hm]; exact h)]
  refine alone_lock h (.head .run hturn (.head .run ?_ hy))
  show some ((⟨(m.setHolder l (some (.caller 0))).setHolder l none, log⟩ : Bench), k') = _
  rw [hback]

variable (v retryCnt p)

/-- The pulse goes out. -/
theorem alone_pulse (hk : b.mem.holder .kconfig = none) :
    ∃ b', Alone v retryCnt (b, doSend v p) (b', .lock .ongoing (.pollFirst p)) ∧ Onward b b'
      ∧ b'.mem.ongoing = b.mem.ongoing ∧ b'.log.ret = b.log.ret := by
  cases v with
  | misc =>
      refine ⟨_, .head .run rfl (.head .run rfl (.head .run rfl .refl)),
        ⟨rfl, rfl, rfl, nofun⟩, rfl, rfl⟩
  | sysfs =>
      refine ⟨_, alone_lock hk (.head .run rfl (.head .run rfl (.head .run rfl (.head .run rfl
        (.head .run rfl .refl))))), ⟨?_, rfl, rfl, nofun⟩, rfl, rfl⟩
      exact update_none hk _

/-- Nobody clears the flag, and the polls run into the limit. -/
theorem alone_polls (hg : b.mem.ongoing = true) (ha : b.log.attempts ≠ []) {c : Nat}
    (hc : c ≤ 50000) :
    ∃ b', Alone v retryCnt (b, .count p c) (b', .lock .ongoing (.timeOut p)) ∧ Onward b b'
      ∧ b'.mem.ongoing = true ∧ b'.log.ret = b.log.ret := by
  induction hn : 50000 - c generalizing b c with
  | zero =>
      obtain rfl : c = 50000 := by omega
      exact ⟨b, .head .run rfl .refl, ⟨rfl, rfl, rfl, ha⟩, hg, rfl⟩
  | succ n ih =>
      obtain ⟨a, before, hab⟩ := List.exists_cons_of_ne_nil ha
      have hcount : exec v retryCnt .sender b (.count p c) .run = some (b, .poll p (c + 1)) := by
        simp only [exec, step, next, note, Option.map_some]
        rw [if_neg (by omega)]
      have hpoll : exec v retryCnt .sender b (.poll p (c + 1)) .run
          = some (⟨b.mem, b.log.poll true⟩, .count p (c + 1)) := by
        simp only [exec, step, next, note, Option.map_some, hg, if_true]
      have hlog : b.log.poll true = { b.log with
          attempts := { a with polls := true :: a.polls } :: before } := by
        simp only [Log.poll, hab, if_true]
      obtain ⟨b', hb', ho, hg', hr'⟩ := ih (b := ⟨b.mem, b.log.poll true⟩) (c := c + 1) hg
        (by rw [hlog]; exact List.cons_ne_nil _ _) (by omega) (by omega)
      refine ⟨b', .head .run hcount (.head .run hpoll hb'), ⟨ho.holder, ho.stored, ?_, ho.attempts⟩,
        hg', ?_⟩
      · rw [ho.claim, hlog]
      · rw [hr', hlog]

/-- The first poll reads ONGOING. -/
theorem alone_pollFirst (ho : b.mem.holder .ongoing = none) (hg : b.mem.ongoing = true)
    (ha : b.log.attempts ≠ []) :
    ∃ b', Alone v retryCnt (b, .lock .ongoing (.pollFirst p)) (b', .count p 0) ∧ Onward b b'
      ∧ b'.mem.ongoing = true := by
  obtain ⟨a, before, hab⟩ := List.exists_cons_of_ne_nil ha
  refine ⟨⟨b.mem, b.log.poll true⟩, alone_section ho ?_ rfl .refl, ⟨rfl, rfl, ?_, ?_⟩, hg⟩
  · simp [exec, step, next, note, HcSr04Machine.Mem.setHolder, hg]
  · simp [Log.poll, hab]
  · simp [Log.poll, hab]

/-- An attempt with nobody answering: the flag is cleared, and the next one is made. -/
theorem alone_retry {left : Nat} (hleft : p.left = left + 1) (hk : b.mem.holder .kconfig = none)
    (ho : b.mem.holder .ongoing = none) (hg : b.mem.ongoing = true) :
    ∃ b', Alone v retryCnt (b, doSend v p) (b', doSend v { p with left := left })
      ∧ Onward b b' ∧ b'.mem.ongoing = false := by
  obtain ⟨b₁, h₁, ho₁, hg₁, -⟩ := alone_pulse v retryCnt p hk
  have hfree₁ : b₁.mem.holder .ongoing = none := ho₁.holder ▸ ho
  obtain ⟨b₂, h₂, ho₂, hg₂⟩ := alone_pollFirst v retryCnt p hfree₁
    (hg₁.trans hg) ho₁.attempts
  obtain ⟨b₃, h₃, ho₃, -, -⟩ := alone_polls v retryCnt p hg₂
    ho₂.attempts (Nat.zero_le _)
  have hfree₃ : b₃.mem.holder .ongoing = none := ho₃.holder ▸ ho₂.holder ▸ hfree₁
  obtain ⟨a, before, hab⟩ := List.exists_cons_of_ne_nil ho₃.attempts
  have h₄ : Alone v retryCnt (b₃, .lock .ongoing (.timeOut p))
      (⟨{ b₃.mem with ongoing := false }, b₃.log.timeOut p.left⟩,
        doSend v { p with left := left }) := by
    refine alone_section (m := { b₃.mem with ongoing := false }) hfree₃ ?_ rfl .refl
    simp [exec, step, next, note, HcSr04Machine.Mem.setHolder, retry, hleft]
  refine ⟨_, h₁.trans (h₂.trans (h₃.trans h₄)), ⟨?_, ?_, ?_, ?_⟩, rfl⟩
  · exact ho₃.holder.trans (ho₂.holder.trans ho₁.holder)
  · exact ho₃.stored.trans (ho₂.stored.trans ho₁.stored)
  · show (b₃.log.timeOut p.left).claim = _
    simp only [Log.timeOut, hab]
    exact ho₃.claim.trans (ho₂.claim.trans ho₁.claim)
  · show (b₃.log.timeOut p.left).attempts ≠ []
    simp only [Log.timeOut, hab]
    exact List.cons_ne_nil _ _

/-- An attempt that finds the flag cleared. -/
theorem alone_zero (hback : p.back = .write) (hk : b.mem.holder .kconfig = none)
    (ho : b.mem.holder .ongoing = none) (hg : b.mem.ongoing = false) :
    ∃ b', Alone v retryCnt (b, doSend v p) (b', .idle) ∧ b'.log.claim = b.log.claim
      ∧ b'.log.ret = some 0 ∧ ∃ r, b'.log.returned = some r ∧ r.stored = b.mem.stored.length := by
  obtain ⟨b₁, h₁, ho₁, hg₁, -⟩ := alone_pulse v retryCnt p hk
  have hfree₁ : b₁.mem.holder .ongoing = none := ho₁.holder ▸ ho
  obtain ⟨a, before, hab⟩ := List.exists_cons_of_ne_nil ho₁.attempts
  have hoff : b₁.mem.ongoing = false := hg₁.trans hg
  have h₂ : Alone v retryCnt (b₁, .lock .ongoing (.pollFirst p))
      (⟨b₁.mem, b₁.log.poll false⟩, .sendReturn p.back) := by
    refine alone_section hfree₁ ?_ rfl .refl
    simp [exec, step, next, note, HcSr04Machine.Mem.setHolder, hoff]
  have hlog : b₁.log.poll false = { b₁.log with
      attempts := { a with polls := false :: a.polls } :: before
      ret := some 0 } := by
    simp [Log.poll, hab]
  let r : Mark := ⟨b₁.mem.stored.length, (b₁.log.poll false).accepted⟩
  have h₃ : Alone v retryCnt (⟨b₁.mem, b₁.log.poll false⟩, .sendReturn p.back)
      (⟨b₁.mem, { b₁.log.poll false with returned := some r }⟩, .idle) := by
    rw [hback]
    exact .head .run rfl .refl
  refine ⟨_, h₁.trans (h₂.trans h₃), ?_, ?_, r, rfl, ?_⟩
  · show (b₁.log.poll false).claim = _
    rw [hlog]
    exact ho₁.claim
  · show (b₁.log.poll false).ret = _
    rw [hlog]
  · show b₁.mem.stored.length = _
    rw [ho₁.stored]

/-- **WITHOUT AN ECHO**: a `send` that may try again returns 0, and nothing has been
    stored. -/
theorem silent_send (hr : retryCnt ≠ 0) {m : Mem} (hk : m.holder .kconfig = none)
    (ho : m.holder .ongoing = none) (hg : m.ongoing = false) :
    ∃ s, ReachWhen v retryCnt Free m s ∧ s.loc .irq = .idle ∧ s.mem.log.ret = some 0
      ∧ ∃ c r, s.mem.log.claim = some c ∧ s.mem.log.returned = some r ∧ r.stored = c.stored := by
  obtain ⟨left, rfl⟩ := Nat.exists_eq_succ_of_ne_zero hr
  -- the claim
  let b₁ : Bench := ⟨{ m with ongoing := true, claims := m.claims + 1 },
    { Log.initial with claim := some ⟨m.stored.length, 0⟩ }⟩
  let p : Pulse := ⟨.write, left + 1, m.claims + 1⟩
  have h₁ : Alone v (left + 1) (⟨m, Log.initial⟩, send .write) (b₁, doSend v p) := by
    refine alone_section (m := { m with ongoing := true, claims := m.claims + 1 }) ho ?_ rfl .refl
    simp [exec, step, note, HcSr04Machine.Mem.setHolder, hg, Bench.mark, Log.initial, p]
  obtain ⟨b₂, h₂, ho₂, hg₂⟩ := alone_retry v (left + 1) p (b := b₁) rfl hk ho rfl
  obtain ⟨b₃, h₃, hc₃, hr₃, r, hret, hst⟩ := alone_zero v (left + 1)
    { p with left := left } rfl (ho₂.holder ▸ hk) (ho₂.holder ▸ ho) hg₂
  obtain ⟨s, hs, hend, hloc⟩ := Reach.of_solo (s := State.calling m) (h₁.trans (h₂.trans h₃)) rfl
  obtain ⟨hmem, -⟩ := Prod.mk.inj hend
  have hirq : Task.irq ≠ .sender := by
    intro he
    cases he
  refine ⟨s, hs, hloc .irq hirq, ?_⟩
  rw [hmem]
  refine ⟨hr₃, ⟨m.stored.length, 0⟩, r, ?_, hret, ?_⟩
  · rw [hc₃, ho₂.claim]
  · rw [hst, ho₂.stored]

end Silent

/-! ## A call that is answered, and one that is not -/

def undisturbed (s : State) (t : Task) (_ : Act) : Bool :=
  match s.loc t with
  | .sendTest _ => !ending (s.loc .irq)
  | .timeOut _ => false
  | _ => true

/-- The pulse goes out, the echo is stored, and `send` returns. -/
def answered : State :=
  runAmong (exec .misc 5) (State.calling Mem.initial) [.sender, .irq] undisturbed
    (List.replicate 9 (Task.sender, Act.run)
      ++ (.irq, .fire) :: List.replicate 12 (Task.irq, Act.run)
      ++ List.replicate 3 (Task.sender, Act.run))

theorem send_measures_answered :
    (ReachWhen .misc 5 Undisturbed Mem.initial answered
      ∧ answered.loc .sender = .idle ∧ answered.mem.log.ret = some 0
      ∧ answered.mem.log.claim = some ⟨0, 0⟩ ∧ answered.mem.log.returned = some ⟨1, 1⟩)
      ∧ Measures 5 answered.mem.log := by
  have hr : ReachWhen .misc 5 Undisturbed Mem.initial answered := by
    refine Reach.of_runAmong ?_ _
    intro s t a _ hok
    constructor
    · intro back hq _ _
      rw [undisturbed, hq] at hok
      exact Bool.not_eq_true' _ ▸ hok
    · intro p hq
      rw [undisturbed, hq] at hok
      cases hok
    · intro p hq
      rw [undisturbed, hq] at hok
      cases hok
  exact ⟨⟨hr, by decide⟩, send_measures .misc 5 Mem.initial hr⟩

theorem zero_without_sample :
    ¬ ∀ v retryCnt m s, ReachWhen v retryCnt Free m s → Measures retryCnt s.mem.log := by
  intro h
  obtain ⟨s, hs, -, h0, c, r, hc, hr, heq⟩ :=
    silent_send .misc 5 (by decide) (m := Mem.initial) rfl rfl rfl
  have hlt := (h .misc 5 Mem.initial s hs).success c r hc hr h0
  rw [heq] at hlt
  exact Nat.lt_irrefl _ hlt

end HcSr04Send
