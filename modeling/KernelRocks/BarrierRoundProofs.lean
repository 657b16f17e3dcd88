import KernelRocks.BarrierOwnershipProofs
import KernelRocks.KeyedListProofs
import Mathlib.Data.Nat.Basic

/-! # Rounds — one word for filling and draining

    `total` counts the arrivals of the round that is filling; the arrival that
    makes the round full moves it to `BARRIER_FLAG` plus the number of calls
    still to leave.  The ghost numbering of the calls (`arrived`, `left`,
    `returned`) says what that word means: `Rounds`, kept by every arrival and
    every departure, for any number of rounds.

    The route: `Tally` is the part of a barrier the argument is about;
    `TallyMove` says what a turn can do to it; `Seat` ties a task's place in the
    code to its number; the headline is `barrier_round_separation`. -/

namespace Barrier

open Interleaving KeyedList

/-! ## The tally of a barrier -/

structure Tally where
  count : BitVec 64
  total : BitVec 64
  arrived : List Task
  left : List Nat
  returned : List Nat

def Mem.tally (m : Mem) (b : Addr) : Tally :=
  ⟨(m.barrier b).count, (m.barrier b).total, (m.hist b).arrived, (m.hist b).left,
    (m.hist b).returned⟩

namespace Tally

/-- The word after an arrival, before it is compared with `count`. -/
def bumped (T : Tally) : BitVec 64 := (if barrierFlag = T.total then 0 else T.total) + 1

/-- This arrival makes the round full. -/
def fills (T : Tally) : Bool := T.bumped = T.count

def arrive (T : Tally) (t : Task) : Tally :=
  if T.fills then
    { T with total := T.bumped + (barrierFlag - 1), arrived := T.arrived ++ [t],
             left := T.arrived.length :: T.left }
  else { T with total := T.bumped, arrived := T.arrived ++ [t] }

def depart (T : Tally) (k : Nat) : Tally :=
  { T with total := T.total - 1, left := k :: T.left }

def returns (T : Tally) (k : Nat) : Tally := { T with returned := k :: T.returned }

/-- A barrier as `init_barrier_struct` makes it. -/
def start (count : BitVec 32) : Tally := ⟨count.signExtend 64, barrierFlag, [], [], []⟩

end Tally

/-- **THE ENCODING**: with `r` full rounds so far, either a further round is
    filling — all calls of the full rounds have left and `total` counts the
    others — or none is, and `total` is the flag plus the number of calls that
    have not left. -/
structure Rounds (T : Tally) : Prop where
  nodup : T.left.Nodup
  returned : ∀ k ∈ T.returned, k ∈ T.left
  phase : ∃ r, (∀ k ∈ T.left, k < r * T.count.toNat)
    ∧ ((T.arrived.length = r * T.count.toNat + T.total.toNat ∧ 1 ≤ T.total.toNat
          ∧ T.total.toNat < T.count.toNat ∧ T.left.length = r * T.count.toNat)
      ∨ (T.arrived.length = r * T.count.toNat ∧ T.arrived.length < T.left.length + T.count.toNat
          ∧ T.total.toNat = 2 ^ 63 + (T.arrived.length - T.left.length)))

theorem rounds_start {c : BitVec 32} (hc : 1 ≤ (c.signExtend 64).toNat) :
    Rounds (Tally.start c) where
  nodup := List.nodup_nil
  returned _ h := nomatch h
  phase := by
    refine ⟨0, ?_, Or.inr ⟨by simp [Tally.start], ?_, ?_⟩⟩
    · intro k hk
      cases hk
    · simpa [Tally.start] using Nat.lt_of_lt_of_le Nat.zero_lt_one hc
    · simp [Tally.start, toNat_barrierFlag]

/-- The word after the first arrival of a round, and after a later one. -/
theorem toNat_bumped_of_flag {T : Tally} (h : T.total.toNat = 2 ^ 63) : T.bumped.toNat = 1 := by
  have hf : barrierFlag = T.total := by
    apply BitVec.eq_of_toNat_eq
    rw [toNat_barrierFlag, h]
  rw [Tally.bumped, if_pos hf]
  rfl

theorem toNat_bumped_of_lt {T : Tally} (h : T.total.toNat < 2 ^ 63) :
    T.bumped.toNat = T.total.toNat + 1 := by
  have hf : ¬ barrierFlag = T.total := by
    intro he
    rw [← he, toNat_barrierFlag] at h
    exact Nat.lt_irrefl _ h
  rw [Tally.bumped, if_neg hf, BitVec.toNat_add]
  exact Nat.mod_eq_of_lt (by simp; omega)

theorem toNat_released {w : BitVec 64} (h1 : 1 ≤ w.toNat) (h2 : w.toNat < 2 ^ 31) :
    (w + (barrierFlag - 1)).toNat = 2 ^ 63 + (w.toNat - 1) := by
  have hf : (barrierFlag - 1).toNat = 2 ^ 63 - 1 := by decide
  rw [BitVec.toNat_add, hf, Nat.mod_eq_of_lt (by omega)]
  omega

theorem fills_iff {T : Tally} : T.fills = true ↔ T.bumped.toNat = T.count.toNat := by
  rw [Tally.fills, decide_eq_true_iff]
  exact ⟨fun h => by rw [h], fun h => BitVec.eq_of_toNat_eq h⟩

/-- An arrival in a state in which `barrier_wait` lets a call enter. -/
theorem Rounds.arrive {T : Tally} (h : Rounds T) (hn : T.count.toNat < 2 ^ 31)
    (ht : T.total.toNat ≤ 2 ^ 63) (t : Task) : Rounds (T.arrive t) := by
  obtain ⟨r, hlt, hphase⟩ := h.phase
  -- both phases in one: `w` arrivals in the round that is filling, possibly none
  obtain ⟨w, hA, hL, hb, hw⟩ : ∃ w, T.arrived.length = r * T.count.toNat + w
      ∧ T.left.length = r * T.count.toNat ∧ T.bumped.toNat = w + 1 ∧ w < T.count.toNat := by
    rcases hphase with ⟨hA, _, h2, hL⟩ | ⟨hA, hd, hT⟩
    · exact ⟨T.total.toNat, hA, hL, toNat_bumped_of_lt (by omega), h2⟩
    · have hle := length_le_of_nodup h.nodup hlt
      exact ⟨0, by omega, by omega, toNat_bumped_of_flag (by omega), by omega⟩
  rw [Tally.arrive]
  by_cases hf : T.fills = true
  · rw [if_pos hf]
    have hcount := fills_iff.mp hf
    have hrel := toNat_released (w := T.bumped) (by omega) (by omega)
    have hsucc : (r + 1) * T.count.toNat = r * T.count.toNat + T.count.toNat := Nat.succ_mul _ _
    refine ⟨List.nodup_cons.mpr ⟨fun hm => ?_, h.nodup⟩, ?_, r + 1, ?_, Or.inr ⟨?_, ?_, ?_⟩⟩
    · have := hlt _ hm
      omega
    · intro k hk
      exact List.mem_cons_of_mem _ (h.returned k hk)
    · intro k hk
      rcases List.mem_cons.mp hk with rfl | hk
      · show T.arrived.length < (r + 1) * T.count.toNat
        omega
      · show k < (r + 1) * T.count.toNat
        have := hlt k hk
        omega
    · simp only [List.length_append, List.length_singleton]
      omega
    · simp only [List.length_append, List.length_cons, List.length_nil]
      omega
    · simp only [List.length_append, List.length_cons, List.length_nil, hrel]
      omega
  · rw [if_neg hf]
    have hcount : T.bumped.toNat ≠ T.count.toNat := fun he => hf (fills_iff.mpr he)
    refine ⟨h.nodup, h.returned, r, hlt, Or.inl ⟨?_, ?_, ?_, hL⟩⟩
    · simp only [List.length_append, List.length_singleton, hb]
      omega
    · show 1 ≤ T.bumped.toNat
      omega
    · show T.bumped.toNat < T.count.toNat
      omega

/-- A departure of a call that has arrived and not left, in a state in which
    `barrier_wait` lets it leave: somebody is still to leave. -/
theorem Rounds.flag_lt {T : Tally} (h : Rounds T) (hn : T.count.toNat < 2 ^ 31)
    (ht : 2 ^ 63 ≤ T.total.toNat) {k : Nat} (hk : k < T.arrived.length) (hl : k ∉ T.left) :
    2 ^ 63 < T.total.toNat := by
  obtain ⟨r, hlt, hphase⟩ := h.phase
  rcases hphase with ⟨_, _, h2, _⟩ | ⟨hA, _, hT⟩
  · omega
  · have hle := length_le_of_nodup h.nodup hlt
    have hne : T.left.length ≠ r * T.count.toNat := by
      intro he
      exact hl (mem_of_nodup_of_length h.nodup hlt he (by omega))
    omega

theorem Rounds.depart {T : Tally} (h : Rounds T) (hn : T.count.toNat < 2 ^ 31)
    (ht : 2 ^ 63 ≤ T.total.toNat) {k : Nat} (hk : k < T.arrived.length) (hl : k ∉ T.left) :
    Rounds (T.depart k) := by
  have hflag := h.flag_lt hn ht hk hl
  have hsub : (T.total - 1).toNat = T.total.toNat - 1 := by
    rw [BitVec.toNat_sub_of_le]
    · rfl
    · show 1 ≤ T.total.toNat
      omega
  obtain ⟨r, hlt, hphase⟩ := h.phase
  rcases hphase with ⟨_, _, h2, _⟩ | ⟨hA, hd, hT⟩
  · omega
  · refine ⟨List.nodup_cons.mpr ⟨hl, h.nodup⟩, ?_, r, ?_, Or.inr ⟨hA, ?_, ?_⟩⟩
    · intro j hj
      exact List.mem_cons_of_mem _ (h.returned j hj)
    · intro j hj
      rcases List.mem_cons.mp hj with rfl | hj
      · show j < r * T.count.toNat
        omega
      · exact hlt j hj
    · show T.arrived.length < (k :: T.left).length + T.count.toNat
      rw [List.length_cons]
      omega
    · show (T.total - 1).toNat = 2 ^ 63 + (T.arrived.length - (k :: T.left).length)
      rw [List.length_cons, hsub]
      omega

theorem Rounds.returns {T : Tally} (h : Rounds T) {k : Nat} (hk : k ∈ T.left) :
    Rounds (T.returns k) where
  nodup := h.nodup
  returned j hj := by
    rcases List.mem_cons.mp hj with rfl | hj
    · exact hk
    · exact h.returned j hj
  phase := h.phase

/-! ## What a turn does to the tallies -/

/-- An arrival, a departure, a return, a new barrier, or nothing. -/
inductive TallyMove (t : Task) (m : Mem) (q : Pc) (m' : Mem) (q' : Pc) : Prop where
  | keep : (∀ b, q ≠ .waitEnter b) → (∀ b k, q ≠ .waitLeave b k) → m'.tally = m.tally →
      TallyMove t m q m' q'
  | link (c : BitVec 32) (p : Addr) (n : Nat) (id : BitVec 32) : q = .initLink c p n →
      q' = .initUnlockHead c p m.brk id →
      m'.tally = Function.update m.tally m.brk (Tally.start c) → TallyMove t m q m' q'
  | arrive (b : Addr) : q = .waitEnter b →
      q' = (if (m.tally b).fills then .waitWake b (m.tally b).arrived.length
        else .loopTest (.leave (m.tally b).arrived.length) b) →
      m'.tally = Function.update m.tally b ((m.tally b).arrive t) → TallyMove t m q m' q'
  | depart (b : Addr) (k : Nat) : q = .waitLeave b k →
      q' = (if (m.tally b).total - 1 = barrierFlag then .waitWake b k else .waitUnlock b k) →
      m'.tally = Function.update m.tally b ((m.tally b).depart k) → TallyMove t m q m' q'
  | done (b : Addr) (k : Nat) : q = .waitDone b k → q' = .user (some 0) →
      m'.tally = Function.update m.tally b ((m.tally b).returns k) → TallyMove t m q m' q'

theorem tally_setHolder (m : Mem) (l : Lock) (o : Option Task) :
    (m.setHolder l o).tally = m.tally := by
  funext b
  simp [Mem.tally]

/-- Writing a barrier other than `count` and `total`. -/
theorem tally_setBarrier {m : Mem} {b : Addr} {x : BarrierStruct}
    (hc : x.count = (m.barrier b).count) (ht : x.total = (m.barrier b).total) :
    (m.setBarrier b x).tally = m.tally := by
  funext b'
  by_cases hb : b' = b
  · subst hb; simp [Mem.tally, hc, ht]
  · simp [Mem.tally, hb]

/-- Writing a history other than its three lists. -/
theorem tally_setHist {m : Mem} {b : Addr} {h : History} (ha : h.arrived = (m.hist b).arrived)
    (hl : h.left = (m.hist b).left) (hr : h.returned = (m.hist b).returned) :
    (m.setHist b h).tally = m.tally := by
  funext b'
  by_cases hb : b' = b
  · subst hb; simp [Mem.tally, ha, hl, hr]
  · simp [Mem.tally, hb]

/-- Writing a barrier and its history. -/
theorem tally_setBarrierHist (m : Mem) (b : Addr) (x : BarrierStruct) (h : History) :
    ((m.setBarrier b x).setHist b h).tally
      = Function.update m.tally b ⟨x.count, x.total, h.arrived, h.left, h.returned⟩ := by
  funext b'
  by_cases hb : b' = b
  · subst hb; simp [Mem.tally]
  · simp [Mem.tally, hb]

theorem tally_arrive (m : Mem) (b : Addr) (t : Task) :
    (m.arrive b t).1.tally = Function.update m.tally b ((m.tally b).arrive t)
      ∧ (m.arrive b t).2 = (m.tally b).fills := by
  have hfill : (m.tally b).fills = decide ((m.barrier b).bumped = (m.barrier b).count) := rfl
  rw [Tally.arrive, hfill]
  unfold Mem.arrive
  dsimp only
  by_cases hf : (m.barrier b).bumped = (m.barrier b).count
  · rw [if_pos hf, if_pos (decide_eq_true hf)]
    exact ⟨tally_setBarrierHist m b _ _, (decide_eq_true hf).symm⟩
  · rw [if_neg hf, if_neg (by simpa using hf)]
    exact ⟨tally_setBarrierHist m b _ _, (decide_eq_false hf).symm⟩

theorem tally_linkBarrier {m : Mem} (hf : Fresh m) (p : Addr) (c : BitVec 32) :
    (m.linkBarrier p c).tally = Function.update m.tally m.brk (Tally.start c) := by
  funext b
  by_cases hb : b = m.brk
  · subst hb
    simp [Mem.tally, Mem.linkBarrier, initBarrierStruct, Tally.start,
      hf.hist m.brk (Nat.le_refl _), blankHistory]
  · simp [Mem.tally, Mem.linkBarrier, hb]

/-- What is read off the tally of `b` stays when another tally is written, or this
    one in another part. -/
theorem tally_update_congr {α : Type} (f : Tally → α) {m m' : Mem} {b b' : Addr} {T : Tally}
    (hm : m'.tally = Function.update m.tally b' T) (hT : b = b' → f T = f (m.tally b)) :
    f (m'.tally b) = f (m.tally b) := by
  rw [hm]
  by_cases hbb : b = b'
  · rw [← hT hbb, hbb, Function.update_self]
  · rw [Function.update_of_ne hbb]

theorem TallyMove.takeLock {t : Task} {m m' : Mem} {l : Lock} {q q' q'' : Pc}
    (h : takeLock t m l q'' = some (m', q')) (h1 : ∀ b, q ≠ .waitEnter b)
    (h2 : ∀ b k, q ≠ .waitLeave b k) : TallyMove t m q m' q' := by
  obtain ⟨-, rfl, rfl⟩ := takeLock_eq_some h
  exact .keep h1 h2 (tally_setHolder m l _)

theorem tally_findOrNewPtgid (m : Mem) (g : Pid) : (m.findOrNewPtgid g).1.tally = m.tally := by
  unfold Mem.findOrNewPtgid
  split
  · rfl
  · rfl

theorem total_depart (m : Mem) (b : Addr) (k : Nat) :
    ((m.depart b k).barrier b).total = (m.tally b).total - 1 := by
  simp [Mem.depart, Mem.tally]

/-- A call that returns is entered with its number. -/
theorem tally_returns (m : Mem) (b : Addr) (k : Nat) :
    (m.setHist b { m.hist b with returned := k :: (m.hist b).returned }).tally
      = Function.update m.tally b ((m.tally b).returns k) := by
  funext b'
  by_cases hb : b' = b
  · subst hb; simp [Mem.tally, Tally.returns]
  · simp [Mem.tally, hb]

theorem next_tallyMove {proc : Task → Pid} {t : Task} {m m' : Mem} {q q' : Pc} (hf : Fresh m)
    (h : next proc t m q = some (m', q')) : TallyMove t m q m' q' := by
  cases q with
  | user r => cases h
  | oops i => cases h
  | initLockG c => exact .takeLock h nofun nofun
  | initLockHead c p n => exact .takeLock h nofun nofun
  | getLockG who id => exact .takeLock h nofun nofun
  | getLockHead who p id => exact .takeLock h nofun nofun
  | loopLock l b => exact .takeLock h nofun nofun
  | destroyLockHead p b => exact .takeLock h nofun nofun
  | destroyLockG p b => exact .takeLock h nofun nofun
  | initUnlockG c p => cases h; exact .keep nofun nofun (tally_setHolder m _ _)
  | initUnlockHead c p b id =>
      cases h
      have hm : (m.spinUnlock (.barrierHead p)).tally = m.tally := tally_setHolder m _ _
      exact .keep nofun nofun hm
  | getUnlockG who id r => cases h; exact .keep nofun nofun (tally_setHolder m _ _)
  | getUnlockHead who p r => cases h; exact .keep nofun nofun (tally_setHolder m _ _)
  | loopUnlock l b => cases h; exact .keep nofun nofun (tally_setHolder m _ _)
  | waitUnlock b k => cases h; exact .keep nofun nofun (tally_setHolder m _ _)
  | destroyUnlock p b => cases h; exact .keep nofun nofun (tally_setHolder m _ _)
  | destroyUnlockG p b => cases h; exact .keep nofun nofun (tally_setHolder m _ _)
  | destroyUnlockHead p b =>
      cases h
      refine .keep nofun nofun ((tally_setHist ?_ ?_ ?_).trans
        (tally_setHolder m (.barrierHead p) none))
      · rfl
      · rfl
      · rfl
  | initFind c =>
      cases h
      exact .keep nofun nofun (tally_findOrNewPtgid m _)
  | initReadBid c p => cases h; exact .keep nofun nofun rfl
  | initAlloc c p n => cases h; exact .keep nofun nofun rfl
  | initLink c p n => cases h; exact .link c p n _ rfl rfl (tally_linkBarrier hf p c)
  | getFind who id => cases h; exact .keep nofun nofun rfl
  | getScan who p id => cases h; exact .keep nofun nofun rfl
  | loopTest l b => cases h; exact .keep nofun nofun rfl
  | sleepPrepare l b => cases h; exact .keep nofun nofun (tally_setBarrier (by rfl) (by rfl))
  | sleepSchedule l b => cases h; exact .keep nofun nofun rfl
  | sleepParked l b =>
      obtain ⟨rfl, rfl⟩ := next_sleepParked h
      exact .keep nofun nofun rfl
  | sleepFinish l b => cases h; exact .keep nofun nofun (tally_setBarrier (by rfl) (by rfl))
  | waitEnter b =>
      cases h
      obtain ⟨hT, hfill⟩ := tally_arrive m b t
      refine .arrive b rfl ?_ hT
      rw [hfill]
      rfl
  | waitLeave b k =>
      cases h
      refine .depart b k rfl ?_ (tally_setBarrierHist m b _ _)
      rw [total_depart]
  | waitWake b k => cases h; exact .keep nofun nofun (tally_setBarrier (by rfl) (by rfl))
  | waitDone b k =>
      cases h
      exact .done b k rfl rfl (tally_returns m b k)
  | destroyUnlink p b =>
      cases h
      refine .keep nofun nofun ((tally_setHist ?_ ?_ ?_).trans (tally_setBarrier ?_ ?_))
      · rfl
      · rfl
      · rfl
      · rfl
      · rfl
  | destroyUnlinkPtgid p b => cases h; exact .keep nofun nofun rfl
  | destroyFreePtgid p b => cases h; exact .keep nofun nofun rfl

theorem exec_tallyMove {proc : Task → Pid} {t : Task} {m m' : Mem} {q q' : Pc} {a : Act}
    (hf : Fresh m) (h : exec proc t m q a = some (m', q')) : TallyMove t m q m' q' := by
  rcases exec_cases h with ⟨-, h⟩ | ⟨rfl, c, r, -, rfl, rfl⟩ | ⟨rfl, l, b, -, hq, rfl⟩ |
    ⟨rfl, p, b, -, rfl, -, rfl⟩
  · exact next_tallyMove hf h
  · exact .keep nofun nofun rfl
  · rcases hq with rfl | rfl <;> exact .keep nofun nofun rfl
  · exact .keep nofun nofun rfl

/-! ## A task's place and its number -/

/-- The call has executed `total++` on `b` as number `k` and not yet left. -/
def Pc.inside : Pc → Option (Addr × Nat)
  | .loopLock (.leave k) b | .loopTest (.leave k) b | .loopUnlock (.leave k) b => some (b, k)
  | .sleepPrepare (.leave k) b | .sleepSchedule (.leave k) b => some (b, k)
  | .sleepParked (.leave k) b | .sleepFinish (.leave k) b => some (b, k)
  | .waitLeave b k => some (b, k)
  | _ => none

/-- The call has left and not yet returned. -/
def Pc.leaving : Pc → Option (Addr × Nat)
  | .waitWake b k | .waitUnlock b k | .waitDone b k => some (b, k)
  | _ => none

structure Seat (t : Task) (m : Mem) (q : Pc) : Prop where
  count : ∀ c, q.initCount = some c → 0 ≤ c.toInt
  inside : ∀ b k, q.inside = some (b, k) →
    (m.tally b).arrived[k]? = some t ∧ k ∉ (m.tally b).left
  leaving : ∀ b k, q.leaving = some (b, k) → k ∈ (m.tally b).left
  enter : ∀ b, q = .waitEnter b → (m.tally b).total.toNat ≤ 2 ^ 63
  leave : ∀ b k, q = .waitLeave b k → 2 ^ 63 ≤ (m.tally b).total.toNat

/-- A count that fits an `int`, numbers of calls that arrived, and, if the count is
    not 0, the encoding. -/
structure Sound (T : Tally) : Prop where
  count : T.count.toNat < 2 ^ 31
  left : ∀ k ∈ T.left, k < T.arrived.length
  rounds : 1 ≤ T.count.toNat → Rounds T

def Encoded (m : Mem) : Prop := ∀ b, Sound (m.tally b)

/-- The shared code hands over no number and no count. -/
theorem Seat.of_blank {t : Task} {m : Mem} {q : Pc} (hc : q.initCount = none)
    (hi : q.inside = none) (hl : q.leaving = none) (he : ∀ b, q ≠ .waitEnter b) : Seat t m q where
  count c h := by rw [hc] at h; cases h
  inside b k h := by rw [hi] at h; cases h
  leaving b k h := by rw [hl] at h; cases h
  enter b h := absurd h (he b)
  leave b k h := by subst h; cases hi

/-- A place with the same number and count as one that is already seated. -/
theorem Seat.move {t : Task} {m : Mem} {q q' : Pc} (h : Seat t m q)
    (hc : q'.initCount = q.initCount) (hi : q'.inside = q.inside) (hl : q'.leaving = q.leaving)
    (he : ∀ b, q' ≠ .waitEnter b) (hv : ∀ b k, q' ≠ .waitLeave b k) : Seat t m q' where
  count c hq := h.count c (hc ▸ hq)
  inside b k hq := h.inside b k (hi ▸ hq)
  leaving b k hq := h.leaving b k (hl ▸ hq)
  enter b hq := absurd hq (he b)
  leave b k hq := absurd hq (hv b k)

/-- The barrier a call is inside of is one of its addresses. -/
theorem mem_addrs_of_inside {q : Pc} {b : Addr} {k : Nat} (h : q.inside = some (b, k)) :
    b ∈ q.addrs := by
  cases q with
  | loopLock l _ | loopTest l _ | loopUnlock l _ | sleepPrepare l _ | sleepSchedule l _
  | sleepParked l _ | sleepFinish l _ =>
      cases l <;> cases h
      exact List.mem_cons_self
  | waitLeave _ _ =>
      cases h
      exact List.mem_cons_self
  | _ => cases h

theorem mem_addrs_of_leaving {q : Pc} {b : Addr} {k : Nat} (h : q.leaving = some (b, k)) :
    b ∈ q.addrs := by
  cases q with
  | waitWake _ _ | waitUnlock _ _ | waitDone _ _ =>
      cases h
      exact List.mem_cons_self
  | _ => cases h

theorem Seat.of_tally {t : Task} {m m' : Mem} {q : Pc} (h : Seat t m q)
    (hT : ∀ b ∈ q.addrs, m'.tally b = m.tally b) : Seat t m' q := by
  refine ⟨h.count, ?_, ?_, ?_, ?_⟩
  · intro b k hq
    rw [hT b (mem_addrs_of_inside hq)]
    exact h.inside b k hq
  · intro b k hq
    rw [hT b (mem_addrs_of_leaving hq)]
    exact h.leaving b k hq
  · rintro b rfl
    rw [hT b (List.mem_singleton_self b)]
    exact h.enter b rfl
  · rintro b k rfl
    rw [hT b (List.mem_singleton_self b)]
    exact h.leave b k rfl

theorem seat_afterPtgid {t : Task} {m : Mem} (who : Seeker) (id : BitVec 32) (r : Option Addr) :
    Seat t m (who.afterPtgid id r) := by
  cases who <;> cases r <;> exact .of_blank rfl rfl rfl nofun

theorem seat_afterBarrier {t : Task} {m : Mem} {who : Client} {p : Addr} {r r' : Option Addr}
    (h : Seat t m (.getUnlockHead who p r')) : Seat t m (who.afterBarrier p r) := by
  rcases who with ⟨c, n⟩ | ⟨_ | _⟩
  · cases r with
    | some b => exact .of_blank rfl rfl rfl nofun
    | none => exact h.move rfl rfl rfl nofun nofun
  · cases r <;> exact .of_blank rfl rfl rfl nofun
  · cases r <;> exact .of_blank rfl rfl rfl nofun

/-- The test that ends a loop is the fact the next section starts from. -/
theorem seat_exit {t : Task} {m : Mem} {l : Loop} {b : Addr} (h : Seat t m (.loopTest l b))
    (hs : ¬ l.sleeps (m.barrier b).total = true) : Seat t m (l.exit b) := by
  have hflag : barrierFlag.toNat = 2 ^ 63 := toNat_barrierFlag
  cases l with
  | enter =>
      refine ⟨nofun, nofun, nofun, ?_, nofun⟩
      rintro b' ⟨⟩
      have hle : ¬ barrierFlag.toNat < (m.tally b).total.toNat := by
        simpa [Loop.sleeps, BitVec.lt_def, Mem.tally] using hs
      omega
  | leave k =>
      refine ⟨nofun, h.inside, nofun, nofun, ?_⟩
      rintro b' k' ⟨⟩
      have hge : ¬ (m.tally b).total.toNat < barrierFlag.toNat := by
        simpa [Loop.sleeps, BitVec.lt_def, Mem.tally] using hs
      omega
  | drain p => exact .of_blank rfl rfl rfl nofun

/-- A turn that is not an arrival, a departure or a return, on the memory before. -/
theorem next_seat {proc : Task → Pid} {t : Task} {m m' : Mem} {q q' : Pc} (h : Seat t m q)
    (he : next proc t m q = some (m', q')) (h1 : ∀ b, q ≠ .waitEnter b)
    (h2 : ∀ b k, q ≠ .waitLeave b k) : Seat t m q' := by
  have lock {l : Lock} {q1 : Pc} (ht : takeLock t m l q1 = some (m', q'))
      (hs : Seat t m q1) : Seat t m q' := by
    obtain ⟨-, -, rfl⟩ := takeLock_eq_some ht
    exact hs
  cases q with
  | user r => cases he
  | oops i => cases he
  | initLockG c => exact lock he (h.move rfl rfl rfl nofun nofun)
  | initFind c => cases he; exact h.move rfl rfl rfl nofun nofun
  | initUnlockG c p => cases he; exact h.move rfl rfl rfl nofun nofun
  | initReadBid c p => cases he; exact h.move rfl rfl rfl nofun nofun
  | initAlloc c p n => cases he; exact h.move rfl rfl rfl nofun nofun
  | initLockHead c p n => exact lock he (h.move rfl rfl rfl nofun nofun)
  | initLink c p n => cases he; exact h.move rfl rfl rfl nofun nofun
  | initUnlockHead c p b id => cases he; exact .of_blank rfl rfl rfl nofun
  | getLockG who id => exact lock he (h.move rfl rfl rfl nofun nofun)
  | getFind who id => cases he; exact h.move rfl rfl rfl nofun nofun
  | getUnlockG who id r => cases he; exact seat_afterPtgid who id r
  | getLockHead who p id =>
      refine lock he (h.move ?_ rfl rfl nofun nofun)
      rcases who with ⟨c, n⟩ | w <;> rfl
  | getScan who p id =>
      cases he
      refine h.move ?_ rfl rfl nofun nofun
      rcases who with ⟨c, n⟩ | w <;> rfl
  | getUnlockHead who p r => cases he; exact seat_afterBarrier h
  | loopLock l b =>
      refine lock he (h.move rfl ?_ rfl nofun nofun)
      cases l <;> rfl
  | loopTest l b =>
      cases he
      split
      · refine h.move rfl ?_ rfl nofun nofun
        cases l <;> rfl
      · rename_i hs
        exact seat_exit h hs
  | loopUnlock l b => cases he; refine h.move rfl ?_ rfl nofun nofun; cases l <;> rfl
  | sleepPrepare l b => cases he; refine h.move rfl ?_ rfl nofun nofun; cases l <;> rfl
  | sleepSchedule l b =>
      cases he
      split
      · refine h.move rfl ?_ rfl nofun nofun
        cases l <;> rfl
      · refine h.move rfl ?_ rfl nofun nofun
        cases l <;> rfl
  | sleepParked l b =>
      obtain ⟨rfl, rfl⟩ := next_sleepParked he
      refine h.move rfl ?_ rfl nofun nofun
      cases l <;> rfl
  | sleepFinish l b => cases he; refine h.move rfl ?_ rfl nofun nofun; cases l <;> rfl
  | waitEnter b => exact absurd rfl (h1 b)
  | waitLeave b k => exact absurd rfl (h2 b k)
  | waitWake b k => cases he; exact h.move rfl rfl rfl nofun nofun
  | waitUnlock b k => cases he; exact h.move rfl rfl rfl nofun nofun
  | waitDone b k => cases he; exact .of_blank rfl rfl rfl nofun
  | destroyUnlock p b => cases he; exact .of_blank rfl rfl rfl nofun
  | destroyLockHead p b => exact lock he (.of_blank rfl rfl rfl nofun)
  | destroyUnlink p b => cases he; split <;> exact .of_blank rfl rfl rfl nofun
  | destroyLockG p b => exact lock he (.of_blank rfl rfl rfl nofun)
  | destroyUnlinkPtgid p b => cases he; exact .of_blank rfl rfl rfl nofun
  | destroyUnlockG p b => cases he; exact .of_blank rfl rfl rfl nofun
  | destroyFreePtgid p b => cases he; exact .of_blank rfl rfl rfl nofun
  | destroyUnlockHead p b => cases he; exact .of_blank rfl rfl rfl nofun

theorem exec_seat {proc : Task → Pid} {t : Task} {m m' : Mem} {q q' : Pc} {a : Act}
    (h : Seat t m q) (he : exec proc t m q a = some (m', q')) (h1 : ∀ b, q ≠ .waitEnter b)
    (h2 : ∀ b k, q ≠ .waitLeave b k) : Seat t m q' := by
  rcases exec_cases he with ⟨-, he⟩ | ⟨rfl, c, r, -, rfl, rfl⟩ | ⟨rfl, l, b, -, hq, rfl⟩ |
    ⟨rfl, p, b, -, rfl, -, rfl⟩
  · exact next_seat h he h1 h2
  · cases c with
    | init count =>
        by_cases hneg : count.toInt < 0
        · have hentry : (Call.init count).entry = .user (some (-1)) := if_pos hneg
          rw [hentry]
          exact .of_blank rfl rfl rfl nofun
        · have hentry : (Call.init count).entry = .initLockG count := if_neg hneg
          rw [hentry]
          refine ⟨?_, nofun, nofun, nofun, nofun⟩
          rintro c ⟨⟩
          omega
    | wait id => exact .of_blank rfl rfl rfl nofun
    | destroy id => exact .of_blank rfl rfl rfl nofun
  · rcases hq with rfl | rfl
    · refine h.move rfl ?_ rfl nofun nofun
      cases l <;> rfl
    · refine h.move rfl ?_ rfl nofun nofun
      cases l <;> rfl
  · exact .of_blank rfl rfl rfl nofun

/-! ## The invariant of every run -/

theorem Encoded.update {m m' : Mem} (h : Encoded m) {b : Addr} {T : Tally}
    (hm : m'.tally = Function.update m.tally b T) (hT : Sound T) : Encoded m' := by
  intro b'
  rw [hm]
  by_cases hb : b' = b
  · subst hb
    rw [Function.update_self]
    exact hT
  · rw [Function.update_of_ne hb]
    exact h b'

theorem count_arrive (T : Tally) (t : Task) : (T.arrive t).count = T.count := by
  rw [Tally.arrive]
  split <;> rfl

/-- The `int` counts that `barrier_init` lets through. -/
theorem toNat_signExtend_lt {c : BitVec 32} (h : 0 ≤ c.toInt) :
    (c.signExtend 64).toNat < 2 ^ 31 := by
  have hmsb : c.msb = false := by
    rw [BitVec.msb_eq_toInt]
    exact decide_eq_false (by omega)
  have hlt := BitVec.toNat_lt_of_msb_false hmsb
  rw [BitVec.toNat_signExtend, hmsb]
  have hmod : c.toNat % 2 ^ 64 = c.toNat := Nat.mod_eq_of_lt (by omega)
  simp only [BitVec.toNat_setWidth, Bool.false_eq_true, if_false, Nat.add_zero, hmod]
  omega

theorem arrived_arrive (T : Tally) (t : Task) : (T.arrive t).arrived = T.arrived ++ [t] := by
  rw [Tally.arrive]
  split <;> rfl

/-- The arrival that fills its round leaves it at the same time. -/
theorem left_arrive (T : Tally) (t : Task) :
    (T.arrive t).left = if T.fills then T.arrived.length :: T.left else T.left := by
  rw [Tally.arrive]
  split <;> rfl

theorem Sound.start {c : BitVec 32} (hc : 0 ≤ c.toInt) : Sound (Tally.start c) where
  count := toNat_signExtend_lt hc
  left _ h := nomatch h
  rounds := rounds_start

theorem Sound.arrive {T : Tally} (h : Sound T) (ht : T.total.toNat ≤ 2 ^ 63) (t : Task) :
    Sound (T.arrive t) where
  count := by
    rw [count_arrive]
    exact h.count
  left k hk := by
    rw [left_arrive] at hk
    rw [arrived_arrive, List.length_append, List.length_singleton]
    split at hk
    · rcases List.mem_cons.mp hk with rfl | hk
      · exact Nat.lt_succ_self _
      · exact Nat.lt_succ_of_lt (h.left k hk)
    · exact Nat.lt_succ_of_lt (h.left k hk)
  rounds hc := by
    rw [count_arrive] at hc
    exact (h.rounds hc).arrive h.count ht t

theorem Sound.depart {T : Tally} (h : Sound T) (ht : 2 ^ 63 ≤ T.total.toNat) {k : Nat}
    (hk : k < T.arrived.length) (hl : k ∉ T.left) : Sound (T.depart k) where
  count := h.count
  left j hj := by
    rcases List.mem_cons.mp hj with rfl | hj
    · exact hk
    · exact h.left j hj
  rounds hc := (h.rounds hc).depart h.count ht hk hl

theorem Sound.returns {T : Tally} (h : Sound T) {k : Nat} (hk : k ∈ T.left) :
    Sound (T.returns k) where
  count := h.count
  left := h.left
  rounds hc := (h.rounds hc).returns hk

/-- The place after an arrival: past its departure, or inside with a new number. -/
theorem seat_arrive {t : Task} {m : Mem} {b : Addr} {T : Tally} (h : Sound T)
    (hm : m.tally b = T.arrive t) :
    Seat t m (if T.fills then .waitWake b T.arrived.length
      else .loopTest (.leave T.arrived.length) b) := by
  by_cases hf : T.fills = true
  · rw [if_pos hf]
    refine ⟨nofun, nofun, ?_, nofun, nofun⟩
    rintro b' k ⟨⟩
    rw [hm, left_arrive, if_pos hf]
    exact List.mem_cons_self ..
  · rw [if_neg hf]
    refine ⟨nofun, ?_, nofun, nofun, nofun⟩
    rintro b' k ⟨⟩
    rw [hm, left_arrive, if_neg hf, arrived_arrive]
    refine ⟨by simp, fun hk => ?_⟩
    exact Nat.lt_irrefl _ (h.left _ hk)

theorem seat_depart {t : Task} {m : Mem} {b : Addr} {T : Tally} {k : Nat} (c : Prop) [Decidable c]
    (hm : m.tally b = T.depart k) : Seat t m (if c then .waitWake b k else .waitUnlock b k) := by
  have hmem : k ∈ (m.tally b).left := by
    rw [hm]
    exact List.mem_cons_self ..
  split
  · refine ⟨nofun, nofun, ?_, nofun, nofun⟩
    rintro b' k' ⟨⟩
    exact hmem
  · refine ⟨nofun, nofun, ?_, nofun, nofun⟩
    rintro b' k' ⟨⟩
    exact hmem

/-- A task's own turn. -/
theorem exec_encoded {proc : Task → Pid} {t : Task} {m m' : Mem} {q q' : Pc} {a : Act}
    (hf : Fresh m) (hE : Encoded m) (hS : Seat t m q)
    (he : exec proc t m q a = some (m', q')) : Encoded m' ∧ Seat t m' q' := by
  cases exec_tallyMove hf he with
  | keep h1 h2 hm =>
      have hE' : Encoded m' := by
        intro b
        rw [hm]
        exact hE b
      exact ⟨hE', Seat.of_tally (exec_seat hS he h1 h2) fun b _ => congrFun hm b⟩
  | link c p n id hq hq' hm =>
      subst hq hq'
      exact ⟨hE.update hm (.start (hS.count c rfl)), hS.count, nofun, nofun, nofun, nofun⟩
  | arrive b hq hq' hm =>
      subst hq hq'
      refine ⟨hE.update hm ((hE b).arrive (hS.enter b rfl) t), seat_arrive (hE b) ?_⟩
      rw [hm, Function.update_self]
  | depart b k hq hq' hm =>
      subst hq hq'
      obtain ⟨hk, hl⟩ := hS.inside b k rfl
      have hlt := (List.getElem?_eq_some_iff.mp hk).1
      refine ⟨hE.update hm ((hE b).depart (hS.leave b k rfl) hlt hl),
        seat_depart (T := m.tally b) _ ?_⟩
      rw [hm, Function.update_self]
  | done b k hq hq' hm =>
      subst hq hq'
      exact ⟨hE.update hm ((hE b).returns (hS.leaving b k rfl)), .of_blank rfl rfl rfl nofun⟩

/-- What the turn of another task does to a tally a call is inside of. -/
structure Undisturbed (u : Task) (T T' : Tally) : Prop where
  inside : ∀ k : Nat, T.arrived[k]? = some u → k ∉ T.left → T'.arrived[k]? = some u ∧ k ∉ T'.left
  leaving : ∀ k ∈ T.left, k ∈ T'.left

theorem Undisturbed.refl (u : Task) (T : Tally) : Undisturbed u T T where
  inside _ h1 h2 := ⟨h1, h2⟩
  leaving _ h := h

theorem undisturbed_arrive (u t : Task) (T : Tally) : Undisturbed u T (T.arrive t) where
  inside k h1 h2 := by
    have hlt := (List.getElem?_eq_some_iff.mp h1).1
    rw [arrived_arrive, left_arrive, List.getElem?_append_left hlt]
    refine ⟨h1, fun hk => ?_⟩
    split at hk
    · rcases List.mem_cons.mp hk with rfl | hk
      · exact Nat.lt_irrefl _ hlt
      · exact h2 hk
    · exact h2 hk
  leaving k hk := by
    rw [left_arrive]
    split
    · exact List.mem_cons_of_mem _ hk
    · exact hk

/-- Two tasks do not have one number. -/
theorem undisturbed_depart {u t : Task} (htu : t ≠ u) {T : Tally} {j : Nat}
    (hj : T.arrived[j]? = some t) : Undisturbed u T (T.depart j) where
  inside k h1 h2 := by
    refine ⟨h1, fun hk => ?_⟩
    rcases List.mem_cons.mp hk with rfl | hk
    · rw [hj] at h1
      exact htu (Option.some.inj h1)
    · exact h2 hk
  leaving k hk := List.mem_cons_of_mem _ hk

theorem Seat.undisturbed {u : Task} {m m' : Mem} {q : Pc} (h : Seat u m q)
    (hu : ∀ b, Undisturbed u (m.tally b) (m'.tally b))
    (ht : ∀ b, .lockTotal b ∈ q.held → (m'.tally b).total = (m.tally b).total) : Seat u m' q where
  count := h.count
  inside b k hq := (hu b).inside k (h.inside b k hq).1 (h.inside b k hq).2
  leaving b k hq := (hu b).leaving k (h.leaving b k hq)
  enter b hq := by
    subst hq
    rw [ht b (List.mem_singleton_self _)]
    exact h.enter b rfl
  leave b k hq := by
    subst hq
    rw [ht b (List.mem_singleton_self _)]
    exact h.leave b k rfl

/-- The turn of another task. -/
theorem seat_other {proc : Task → Pid} {t u : Task} {m m' : Mem} {q q' r : Pc} {a : Act}
    (htu : t ≠ u) (hf : Fresh m) (ht : Owns t m q) (hu : Owns u m r) (hS : Seat t m q)
    (hr : Seat u m r) (he : exec proc t m q a = some (m', q')) : Seat u m' r := by
  -- one tally changes, and `u` is in no section of its barrier
  have upd {b : Addr} {T : Tally} (hm : m'.tally = Function.update m.tally b T)
      (hT : Undisturbed u (m.tally b) T) (hb : .lockTotal b ∉ r.held) : Seat u m' r := by
    refine hr.undisturbed (fun b' => ?_) (fun b' hb' => ?_)
    · by_cases hbb : b' = b
      · subst hbb
        rw [hm, Function.update_self]
        exact hT
      · rw [hm, Function.update_of_ne hbb]
        exact Undisturbed.refl u _
    · rw [hm, Function.update_of_ne (fun hbb => hb (by rwa [hbb] at hb'))]
  cases exec_tallyMove hf he with
  | keep _ _ hm => exact hr.of_tally fun b _ => congrFun hm b
  | link c p n id _ _ hm =>
      have hblank : m.tally m.brk = ⟨0, 0, [], [], []⟩ := by
        rw [Mem.tally, hf.barrier _ (Nat.le_refl _), hf.hist _ (Nat.le_refl _)]
        rfl
      refine upd hm ?_ ?_
      · rw [hblank]
        exact ⟨nofun, nofun⟩
      · intro hb
        have hold := (hu.holds _).mpr hb
        rw [Mem.holder, hf.barrier _ (Nat.le_refl _)] at hold
        cases hold
  | arrive b hq _ hm =>
      subst hq
      refine upd hm (undisturbed_arrive u t _) fun hb => htu (ht.exclusive hu ?_ hb)
      exact List.mem_singleton_self _
  | depart b k hq _ hm =>
      subst hq
      refine upd hm (undisturbed_depart htu (hS.inside b k rfl).1)
        fun hb => htu (ht.exclusive hu ?_ hb)
      exact List.mem_singleton_self _
  | done b k _ _ hm =>
      -- `total` stays, so it does not matter where `u` is
      refine hr.undisturbed (fun b' => ?_) (fun b' _ => ?_)
      · by_cases hbb : b' = b
        · subst hbb
          rw [hm, Function.update_self]
          exact ⟨fun _ h1 h2 => ⟨h1, h2⟩, fun _ h => h⟩
        · rw [hm, Function.update_of_ne hbb]
          exact Undisturbed.refl u _
      · by_cases hbb : b' = b
        · subst hbb
          rw [hm, Function.update_self]
          rfl
        · rw [hm, Function.update_of_ne hbb]

/-- In every state of the driver the encoding is right and every task is where its
    number says. -/
theorem reach_encoded {proc : Task → Pid} {C : State → Task → Act → Prop} {s : State}
    (h : ReachWhen proc C s) : Encoded s.mem ∧ ∀ t, Seat t s.mem (s.loc t) := by
  refine Reach.modular (I := Encoded) (P := Seat) ?_ ?_ ?_ h
  · refine ⟨fun b => ⟨Nat.two_pow_pos 31, nofun, fun h => ?_⟩, fun t => .of_blank rfl rfl rfl nofun⟩
    exact absurd h (Nat.not_succ_le_zero 0)
  · intro s t a m' q' hr _ hE hS he
    exact exec_encoded (reach_owns hr).1 hE hS he
  · intro s t u a m' q' hr _ htu _ hS hu he
    obtain ⟨hf, ho⟩ := reach_owns hr
    exact seat_other htu hf (ho t) (ho u) hS hu he

/-! ## Separation -/

/-- The calls of the round of a call that has left have all arrived. -/
theorem Rounds.arrived_of_left {T : Tally} (h : Rounds T) {i j : Nat} (hi : i ∈ T.left)
    (hj : j / T.count.toNat = i / T.count.toNat) : j < T.arrived.length := by
  obtain ⟨r, hlt, hphase⟩ := h.phase
  have hpos : 0 < T.count.toNat := by
    rcases hphase with ⟨_, _, h2, _⟩ | ⟨_, _, _⟩
    · omega
    · have := hlt i hi
      exact Nat.pos_of_mul_pos_left (Nat.lt_of_le_of_lt (Nat.zero_le _) this)
  have hr : j < r * T.count.toNat := by
    rw [← Nat.div_lt_iff_lt_mul hpos, hj, Nat.div_lt_iff_lt_mul hpos]
    exact hlt i hi
  rcases hphase with ⟨hA, _⟩ | ⟨hA, _⟩ <;> omega

/-- While `barrier_wait` lets calls enter, every call of the rounds before the one
    that the next call belongs to has left. -/
theorem Rounds.left_of_enter {T : Tally} (h : Rounds T)
    (hc : 1 ≤ T.count.toNat) (ht : T.total.toNat ≤ 2 ^ 63) {j : Nat}
    (hj : j / T.count.toNat < T.arrived.length / T.count.toNat) : j ∈ T.left := by
  obtain ⟨r, hlt, hphase⟩ := h.phase
  have hle := length_le_of_nodup h.nodup hlt
  have hlen : T.left.length = r * T.count.toNat := by
    rcases hphase with ⟨_, _, _, hL⟩ | ⟨hA, _, hT⟩
    · exact hL
    · omega
  have hr : T.arrived.length / T.count.toNat = r := by
    rcases hphase with ⟨hA, _, h2, _⟩ | ⟨hA, _⟩
    · rw [hA, Nat.mul_comm, Nat.mul_add_div hc, Nat.div_eq_of_lt h2, Nat.add_zero]
    · rw [hA, Nat.mul_div_cancel _ hc]
  rw [hr, Nat.div_lt_iff_lt_mul hc] at hj
  exact mem_of_nodup_of_length h.nodup hlt hlen hj

/-- A call arrives only at 249, and is then the last of the numbers given out. -/
theorem exec_arrived {proc : Task → Pid} {t : Task} {m m' : Mem} {q q' : Pc} {a : Act} {b : Addr}
    (hf : Fresh m) (h : exec proc t m q a = some (m', q'))
    (hne : (m'.hist b).arrived ≠ (m.hist b).arrived) (hb : b < m.brk) :
    q = .waitEnter b ∧ (m'.hist b).arrived = (m.hist b).arrived ++ [t] := by
  have hne' : (m'.tally b).arrived ≠ (m.tally b).arrived := hne
  cases exec_tallyMove hf h with
  | keep _ _ hm => exact absurd (by rw [hm]) hne'
  | link c p n id _ _ hm =>
      refine absurd (tally_update_congr Tally.arrived hm fun hbb => ?_) hne'
      exact absurd hbb (Nat.ne_of_lt hb)
  | arrive b' hq _ hm =>
      by_cases hbb : b = b'
      · subst hbb
        refine ⟨hq, ?_⟩
        show (m'.tally b).arrived = (m.tally b).arrived ++ [t]
        rw [hm, Function.update_self, arrived_arrive]
      · exact absurd (by rw [hm, Function.update_of_ne hbb]) hne'
  | depart b' k _ _ hm =>
      exact absurd (tally_update_congr Tally.arrived hm fun hbb => by rw [hbb]; rfl) hne'
  | done b' k _ _ hm =>
      exact absurd (tally_update_congr Tally.arrived hm fun hbb => by rw [hbb]; rfl) hne'

/-- **ROUND SEPARATION**: number the `barrier_wait` calls of a barrier by their
    `total++` and put call `i` in round `i / count`.  In every state, whatever the
    calls, the turns and the wake-ups before it, a call that has returned belongs
    to a round all of whose calls have arrived; and a turn in which a call arrives
    gives it the next number and finds every call of the round before its own
    gone. -/
theorem barrier_round_separation (proc : Task → Pid) {s : State} (h : Reachable proc s) (b : Addr)
    (hc : 1 ≤ (s.mem.barrier b).count.toNat) :
    (∀ i ∈ (s.mem.hist b).returned, ∀ j : Nat,
        j / (s.mem.barrier b).count.toNat = i / (s.mem.barrier b).count.toNat →
        j < (s.mem.hist b).arrived.length)
      ∧ (∀ t a s', turn (exec proc) s t a = some s' →
          (s'.mem.hist b).arrived ≠ (s.mem.hist b).arrived →
          (s'.mem.hist b).arrived = (s.mem.hist b).arrived ++ [t]
            ∧ ∀ j : Nat, j / (s.mem.barrier b).count.toNat + 1
                = (s.mem.hist b).arrived.length / (s.mem.barrier b).count.toNat →
              j ∈ (s.mem.hist b).left) := by
  obtain ⟨hf, -⟩ := reach_owns h
  obtain ⟨hE, hS⟩ := reach_encoded h
  have hR : Rounds (s.mem.tally b) := (hE b).rounds hc
  have hb : b < s.mem.brk := by
    by_contra hle
    rw [hf.barrier b (Nat.not_lt.mp hle)] at hc
    exact absurd hc (by decide)
  refine ⟨fun i hi j hj => hR.arrived_of_left (hR.returned i hi) hj, ?_⟩
  intro t a s' hs hne
  obtain ⟨m', q', he, rfl⟩ := turn_eq_some hs
  obtain ⟨hq, happ⟩ := exec_arrived hf he hne hb
  refine ⟨happ, fun j hj => hR.left_of_enter hc ((hS t).enter b hq) ?_⟩
  show j / (s.mem.barrier b).count.toNat
    < (s.mem.hist b).arrived.length / (s.mem.barrier b).count.toNat
  omega

/-- Two calls have met at a barrier of two: the second has returned, the first is
    still in `schedule`. -/
def crossing : List (Task × Act) :=
  wholeInit 0 2 ++ (1, .call (.wait 0)) :: runs 1 13 ++ (2, .call (.wait 0)) :: runs 2 12

theorem barrier_round_separation_crossing :
    ((after (fun _ => 0) crossing).mem.hist 1).returned = [1]
      ∧ ∀ j : Nat, j / 2 = 0 → j < ((after (fun _ => 0) crossing).mem.hist 1).arrived.length := by
  refine ⟨by decide, fun j hj => ?_⟩
  exact (barrier_round_separation (fun _ => 0) (reachable_after _ crossing) 1 (by decide)).1 1
    (by decide) j hj

end Barrier
