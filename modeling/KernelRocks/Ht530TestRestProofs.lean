import KernelRocks.Ht530TestProofs
import KernelRocks.Ht530UserProofs

/-! # What a run of `ht530-test.c` comes to

    The driver has no lock, and with those of the program it needs none
    (`calls_in_order`).  Every run is bounded (`test_ends`), and where it has come
    to rest the program has made all its calls and `main` has the dump of what they
    left (`rest_all_served`). -/

namespace Ht530Test

open Ht530 Interleaving KeyedList

section InOrder
variable {hash : BitVec 32 → Fin 128} {slab : Slab} {garbage : Addr → Pair} {n t : Nat} {m m' : Mem}
  {q q' : Place} {s : TestState}

theorem reach_legal (h : Reach (exec hash slab n) Free (start garbage) s) : Legal s.mem.log := by
  have hM := reach_served h
  cases hmtx : s.mem.mtx with
  | none => exact (hM.free hmtx).2
  | some t => exact (hM.within t ((hM.owner t).mpr hmtx)).1

theorem reach_cnt_le (h : Reach (exec hash slab n) Free (start garbage) s) (p : Part) :
    s.mem.cnt p ≤ p.limit := by
  have hM := reach_counted h p
  cases hmtx : s.mem.cntMtx p with
  | none => exact hM.free hmtx
  | some t => exact (hM.within t ((hM.owner t).mpr hmtx)).1

end InOrder

/-- **CALLS ARE SERVED IN ORDER**: with any number of threads, in every state of every run,
    no statement of the driver has touched a node that is not allocated, at most one
    thread is in the driver, every thread was answered as if the calls had been made
    one after the other in the order of `log`, and while nobody is in the driver the
    nodes that are allocated are those of the table that these calls leave. -/
theorem calls_in_order (hash : BitVec 32 → Fin 128) (slab : Slab) (garbage : Addr → Pair) (n : Nat)
    {s : TestState} (h : Reach (exec hash slab n) Free (start garbage) s) :
    (∀ t, s.loc t ≠ .oops)
      ∧ (∀ t u, (s.loc t).serves = true → (s.loc u).serves = true → t = u)
      ∧ (∀ (i : Nat) (e : Served), s.mem.log[i]? = some e → e.obj = ⟨e.request.key,
          lastWrite e.request.key ((s.mem.log.take (i + 1)).map Served.request)⟩)
      ∧ (s.mem.mtx = none → s.mem.heap.nodes.Nodup
        ∧ s.mem.heap.nodes.toFinset = s.mem.heap.allocated
          ∧ s.mem.heap.allDump = some (after hash s.mem.calls).nodes) := by
  have hM := reach_served h
  refine ⟨fun t => ((reach_at h).2 t).alive, fun t u => hM.exclusive, fun i e he => ?_,
    fun hmtx => ?_⟩
  · rw [reach_legal h i e he, answer]
    obtain ⟨hlt, rfl⟩ := List.getElem?_eq_some_iff.mp he
    rw [List.take_succ_eq_append_getElem hlt, List.map_append]
    rfl
  · obtain ⟨hs, -⟩ := hM.free hmtx
    exact ⟨hs.nodup_nodes, hs.toFinset_nodes, hs.allDump⟩

/-- Thread 1 stores a pair while thread 2 waits for `mtx`, and thread 2 takes it then. -/
def twoThreads : List (Nat × Rand) :=
  [0, 0, 1, 1, 1, 1, 1, 1, 1, 1, 1, 1, 2, 2, 2, 2, 2, 2, 1, 1, 1, 1, 1, 2, 2].map (·, ⟨0, 6, 4⟩)

theorem calls_in_order_two_threads :
    ∃ s, Reach (exec (fun _ => 0) Slab.bump 2) Free (start fun _ => ⟨0, 0⟩) s
      ∧ s.mem.log.length = 1 ∧ s.mem.mtx = some 2
      ∧ ∀ (i : Nat) (e : Served), s.mem.log[i]? = some e → e.obj = ⟨e.request.key,
          lastWrite e.request.key ((s.mem.log.take (i + 1)).map Served.request)⟩ := by
  have hsome : ((runWhen (exec (fun _ => 0) Slab.bump 2) (fun _ _ _ => true) (start fun _ => ⟨0, 0⟩)
      twoThreads).map fun s => (s.mem.log.length, s.mem.mtx)) = some (1, some 2) := by
    decide +kernel
  obtain ⟨s, hs, hlog⟩ := Option.map_eq_some_iff.mp hsome
  have hreach : Reach (exec (fun _ => 0) Slab.bump 2) Free (start fun _ => ⟨0, 0⟩) s :=
    Reach.of_runWhen (E := fun _ => True) (fun _ _ _ _ _ => trivial) (fun _ _ _ _ _ _ _ => trivial)
      trivial hs
  exact ⟨s, hreach, congrArg Prod.fst hlog, congrArg Prod.snd hlog,
    (calls_in_order (fun _ => 0) Slab.bump (fun _ => ⟨0, 0⟩) 2 hreach).2.2.1⟩

/-! ## The turns in the program -/

/-- What a thread can still do, but for the rounds that nobody has begun. -/
def Place.left (n : Nat) : Place → Nat
  | .create i => n - i + (n + 4)
  | .join i => n - i + 3
  | .size => 2
  | .dump _ => 1
  | .ret _ _ => 0
  | .idle => 8
  | .lockCnt .fill => 7
  | .test .fill => 6
  | .leave .fill => 5
  | .lockCnt .later => 4
  | .test .later => 3
  | .leave .later => 2
  | .exit => 1
  | .inc _ | .done | .oops => 0
  | .unlockCnt _ => 19
  | .call _ => 18
  | .lock _ _ => 17
  | .write _ _ w => w.left + 9
  | .find _ _ => 10
  | .copy _ _ _ => 9
  | .unlock _ _ _ => 8

/-- The rounds that nobody has begun. -/
def Mem.rounds (m : Mem) : Nat := (200 - m.cnt .fill) + (100 - m.cnt .later)

section Bound
variable {hash : BitVec 32 → Fin 128} {slab : Slab} {garbage : Addr → Pair} {n t : Nat} {m m' : Mem}
  {q q' : Place} {s : TestState}

theorem rounds_incCnt {p : Part} (hlt : m.cnt p < p.limit) :
    (m.incCnt p).rounds + 1 = m.rounds := by
  cases p with
  | fill =>
      have hfill : (m.incCnt .fill).cnt .fill = m.cnt .fill + 1 := incCnt_self
      have hlater : (m.incCnt .fill).cnt .later = m.cnt .later := incCnt_other nofun
      have hlim : m.cnt .fill < 200 := hlt
      rw [Mem.rounds, Mem.rounds, hfill, hlater]
      omega
  | later =>
      have hfill : (m.incCnt .later).cnt .fill = m.cnt .fill := incCnt_other nofun
      have hlater : (m.incCnt .later).cnt .later = m.cnt .later + 1 := incCnt_self
      have hlim : m.cnt .later < 100 := hlt
      rw [Mem.rounds, Mem.rounds, hfill, hlater]
      omega

/-- A turn takes one off, and a round that begins brings twenty. -/
theorem Step.left (h : Step hash slab n t m q m' q') (hlt : ∀ p, q = .inc p → m.cnt p < p.limit) :
    q'.left n + 20 * m'.rounds + 1 ≤ q.left n + 20 * m.rounds ∧ m'.rounds ≤ m.rounds := by
  cases h with
  | @inc p =>
      have hrounds := rounds_incCnt (hlt p rfl)
      simp only [Place.left]
      omega
  | create hi | join hi _ =>
      refine ⟨?_, Nat.le_refl _⟩
      show _ + 20 * m.rounds + 1 ≤ _
      simp only [Place.left]
      omega
  | created hi | joined hi =>
      simp only [Place.left]
      omega
  | @lockCnt p _ | @enough p _ | @more p _ | @leave p | @unlock p _ _ =>
      refine ⟨?_, Nat.le_refl _⟩
      show _ + 20 * m.rounds + 1 ≤ _
      cases p <;> simp only [Place.left, Part.next] <;> omega
  | @lock p r _ =>
      refine ⟨?_, Nat.le_refl _⟩
      show _ + 20 * m.rounds + 1 ≤ _
      cases r <;> simp only [Place.left, Part.enter, Write.left] <;> omega
  | @write p x w w' h' hnext =>
      refine ⟨?_, Nat.le_refl _⟩
      have hless := Write.next_left hash slab hnext
      show _ + 20 * m.rounds + 1 ≤ _
      simp only [Place.left]
      omega
  | fault hf =>
      refine ⟨?_, Nat.le_refl _⟩
      cases q with
      | dump _ | write _ _ _ | find _ _ | copy _ _ _ =>
          simp only [Place.left]
          omega
      | _ => exact False.elim hf
  | _ =>
      refine ⟨?_, Nat.le_refl _⟩
      show _ + 20 * m.rounds + 1 ≤ _
      simp only [Place.left]
      omega

/-- Only `main` and the threads it has created have turns. -/
theorem Step.le (h : Step hash slab n t m q m' q') (hI : Shared n m) (hA : At hash n t m q) :
    t ≤ n := by
  rcases hA.created with rfl | hle
  · cases h with
    | idle _ hle => exact Nat.le_trans hle hI.created
    | fault hf => exact False.elim hf
  · exact Nat.le_trans hle hI.created

/-- The turns that are left. -/
def turnsLeft (n : Nat) (s : TestState) : Nat :=
  20 * s.mem.rounds + potential (fun _ _ q => q.left n) (Finset.range (n + 1)) s

/-- **ONE TURN** of the program takes one off. -/
theorem turnsLeft_turn {r : Rand} {s' : TestState}
    (h : Reach (exec hash slab n) Free (start garbage) s)
    (hs : turn (exec hash slab n) s t r = some s') :
    turnsLeft n s' + 1 ≤ turnsLeft n s := by
  obtain ⟨m', q', he, rfl⟩ := turn_eq_some hs
  obtain ⟨hI, hA⟩ := reach_at h
  have hstep := step_of_exec he
  have ht : t ∈ Finset.range (n + 1) :=
    Finset.mem_range.mpr (Nat.lt_succ_of_le (hstep.le hI (hA t)))
  have hlt (p : Part) (hp : s.loc t = .inc p) : s.mem.cnt p < p.limit :=
    ((reach_counted h p).within t (by rw [hp]; exact decide_eq_true rfl)).2 hp
  obtain ⟨hdrop, hrounds⟩ := hstep.left hlt
  have hmove := potential_move (fun q => q.left n) (s := s) m' q' ht
  show 20 * m'.rounds + potential _ _ ⟨m', Function.update s.loc t q'⟩ + 1 ≤ _
  rw [turnsLeft]
  omega

theorem turnsLeft_run {s' : TestState} {sched : List (Nat × Rand)}
    (h : Reach (exec hash slab n) Free (start garbage) s)
    (hrun : Run (exec hash slab n) s sched s') :
    turnsLeft n s' + sched.length ≤ turnsLeft n s := by
  have hlen := hrun.length_le (Reach (exec hash slab n) Free (start garbage)) (fun _ => True)
    (turnsLeft n) (fun _ => 0) (fun s t a s' hr hs => hr.turn t a trivial hs)
    (fun s t a s' hr _ hs => turnsLeft_turn hr hs) h fun _ _ => trivial
  have hcost : (sched.map fun _ => 0).sum = 0 := by simp
  rwa [hcost] at hlen

theorem turnsLeft_start : turnsLeft n (start garbage) = 10 * n + 6004 := by
  have hthreads : ∀ t ∈ Finset.range n, ((start garbage).loc (t + 1)).left n = 8 := fun t _ => rfl
  rw [turnsLeft, potential, Finset.sum_range_succ', Finset.sum_congr rfl hthreads, Finset.sum_const,
    Finset.card_range]
  show 20 * (200 - 0 + (100 - 0)) + (n * 8 + (n - 0 + (n + 4))) = _
  omega

/-- Nobody has a turn. -/
def AtRest (hash : BitVec 32 → Fin 128) (slab : Slab) (n : Nat) (s : TestState) : Prop :=
  ∀ t r, exec hash slab n t s.mem (s.loc t) r = none

theorem exists_atRest (h : Reach (exec hash slab n) Free (start garbage) s) :
    ∃ sched s', Run (exec hash slab n) s sched s' ∧ AtRest hash slab n s' := by
  obtain ⟨sched, s', hrun, hrest⟩ := Run.exists_rest (N := turnsLeft n s) fun sched s' hrun =>
    Nat.le_of_add_left_le (turnsLeft_run h hrun)
  exact ⟨sched, s', hrun, fun t r => Option.map_eq_none_iff.mp (hrest t r)⟩

end Bound

/-- **THE PROGRAM HAS AN END**: no schedule of it is longer than its 300 rounds and the
    beginning and the end of each of its `n` threads, whatever `rand` returns, and every
    schedule can be continued until nobody has a turn. -/
theorem test_ends (hash : BitVec 32 → Fin 128) (slab : Slab) (garbage : Addr → Pair) (n : Nat)
    {sched : List (Nat × Rand)} {s : TestState}
    (hrun : Run (exec hash slab n) (start garbage) sched s) :
    sched.length ≤ 10 * n + 6004
      ∧ ∃ sched' s', Run (exec hash slab n) s sched' s' ∧ AtRest hash slab n s' := by
  have hreach : Reach (exec hash slab n) Free (start garbage) s :=
    hrun.reach (fun _ _ _ => trivial) Reach.refl
  refine ⟨?_, exists_atRest hreach⟩
  have hlen := turnsLeft_run Reach.refl hrun
  rw [turnsLeft_start] at hlen
  omega

theorem test_ends_two_threads :
    ∃ s, Run (exec (fun _ => 0) Slab.bump 2) (start fun _ => ⟨0, 0⟩) twoThreads s
      ∧ twoThreads.length ≤ 10 * 2 + 6004
      ∧ ∃ sched' s', Run (exec (fun _ => 0) Slab.bump 2) s sched' s'
        ∧ AtRest (fun _ => 0) Slab.bump 2 s' := by
  have hsome : (runWhen (exec (fun _ => 0) Slab.bump 2) (fun _ _ _ => true) (start fun _ => ⟨0, 0⟩)
      twoThreads).isSome = true := by
    decide +kernel
  obtain ⟨s, hs⟩ := Option.isSome_iff_exists.mp hsome
  have hrun := Run.of_runWhen hs
  exact ⟨s, hrun, test_ends (fun _ => 0) Slab.bump (fun _ => ⟨0, 0⟩) 2 hrun⟩

/-! ## At rest -/

/-- A thread has begun a round of a part and its call is not in the log. -/
def Place.owes (p : Part) : Place → Nat
  | .unlockCnt p' | .call p' | .lock p' _ | .write p' _ _ | .find p' _ | .copy p' _ _
  | .unlock p' _ _ => if p' = p then 1 else 0
  | _ => 0

/-- The calls of a part that were served. -/
def Mem.served (m : Mem) (p : Part) : Nat := m.log.countP fun e => e.part = p

section Rest
variable {hash : BitVec 32 → Fin 128} {slab : Slab} {garbage : Addr → Pair} {n t : Nat} {m m' : Mem}
  {q q' : Place} {s : TestState} {p : Part}

theorem Step.owes (h : Step hash slab n t m q m' q') (hq' : q' ≠ .oops) (p : Part) :
    m'.cnt p + m.served p + q.owes p = m.cnt p + m'.served p + q'.owes p := by
  cases h with
  | @inc p' =>
      show (m.incCnt p').cnt p + m.served p + 0 = m.cnt p + m.served p + if p' = p then 1 else 0
      by_cases hp : p = p'
      · rw [hp, incCnt_self, if_pos rfl]
        omega
      · rw [incCnt_other hp, if_neg (Ne.symm hp)]
  | @unlock p' r obj =>
      have hserved : ({ m with mtx := none, log := m.log ++ [⟨p', r, obj⟩] } : Mem).served p
          = m.served p + if p' = p then 1 else 0 := by
        simp [Mem.served, List.countP_append, List.countP_cons]
      rw [hserved]
      simp only [Place.owes]
      omega
  | fault _ => exact absurd rfl hq'
  | @leave p' => cases p' <;> rfl
  | @lock p' r _ => cases r <;> rfl
  | _ => rfl

/-- Every round that was begun is served or under way. -/
theorem reach_served_cnt (h : Reach (exec hash slab n) Free (start garbage) s) (p : Part) :
    s.mem.cnt p = s.mem.served p + potential (fun _ _ q => q.owes p) (Finset.range (n + 1)) s := by
  refine Reach.invariant (I := fun s => s.mem.cnt p
    = s.mem.served p + potential (fun _ _ q => q.owes p) (Finset.range (n + 1)) s) ?_ ?_ h
  · have hstart : potential (fun _ _ q => q.owes p) (Finset.range (n + 1)) (start garbage) = 0 := by
      refine Finset.sum_eq_zero fun t _ => ?_
      show (if t = 0 then Place.create 0 else .idle).owes p = 0
      split <;> rfl
    rw [hstart]
    rfl
  · intro s s' t r hr hI _ hs
    have hr' := hr.turn t r trivial hs
    obtain ⟨m', q', he, rfl⟩ := turn_eq_some hs
    obtain ⟨hS, hA⟩ := reach_at hr
    have hstep := step_of_exec he
    have ht : t ∈ Finset.range (n + 1) :=
      Finset.mem_range.mpr (Nat.lt_succ_of_le (hstep.le hS (hA t)))
    have halive : Function.update s.loc t q' t ≠ .oops := ((reach_at hr').2 t).alive
    rw [Function.update_self] at halive
    have hmove := potential_move (fun q => q.owes p) (s := s) m' q' ht
    have howes := hstep.owes halive p
    show m'.cnt p = m'.served p + _
    omega

/-- At rest no lock is held: its holder could go on. -/
theorem AtRest.not_serves (hrest : AtRest hash slab n s) (t : Nat) : (s.loc t).serves = false := by
  have h := hrest t ⟨0, 0, 0⟩
  cases hq : s.loc t with
  | write p x w =>
      rw [hq, exec] at h
      split at h
      · cases h
      · split at h <;> cases h
  | find p key =>
      rw [hq, exec] at h
      split at h <;> cases h
  | copy p key kitem =>
      rw [hq] at h
      cases kitem with
      | none => cases h
      | some a =>
          rw [exec] at h
          split at h <;> cases h
  | unlock p r obj =>
      rw [hq] at h
      cases h
  | _ => rfl

theorem AtRest.not_counts (hrest : AtRest hash slab n s) (t : Nat) :
    (s.loc t).counts p = false := by
  have h := hrest t ⟨0, 0, 0⟩
  cases hq : s.loc t with
  | test _ | leave _ | inc _ | unlockCnt _ =>
      rw [hq] at h
      cases h
  | _ => rfl

/-- Who is at rest waits for a thread, has not been created, or has come to its end. -/
theorem AtRest.places (h : Reach (exec hash slab n) Free (start garbage) s)
    (hrest : AtRest hash slab n s) (t : Nat) :
    s.loc t = .done ∨ (s.loc t = .idle ∧ ¬ (0 < t ∧ t ≤ s.mem.created))
      ∨ (∃ i, s.loc t = .join i ∧ i < n ∧ s.mem.ended (i + 1) = false)
      ∨ ∃ k l, s.loc t = .ret k l := by
  have hmtx : s.mem.mtx = none := by
    cases hm : s.mem.mtx with
    | none => rfl
    | some u =>
        exact absurd (((reach_served h).owner u).mpr hm) (by rw [hrest.not_serves u]; decide)
  have hcnt (p : Part) : s.mem.cntMtx p = none := by
    cases hm : s.mem.cntMtx p with
    | none => rfl
    | some u =>
        exact absurd (((reach_counted h p).owner u).mpr hm) (by rw [hrest.not_counts u]; decide)
  have hr := hrest t ⟨0, 0, 0⟩
  have hserves := hrest.not_serves t
  cases hq : s.loc t with
  | done => exact .inl rfl
  | idle =>
      rw [hq, exec] at hr
      split at hr
      · cases hr
      · exact .inr (.inl ⟨rfl, ‹_›⟩)
  | join i =>
      rw [hq, exec] at hr
      split at hr
      · rename_i hi
        split at hr
        · cases hr
        · exact .inr (.inr (.inl ⟨i, rfl, hi, Bool.eq_false_iff.mpr ‹_›⟩))
      · cases hr
  | ret k l => exact .inr (.inr (.inr ⟨k, l, rfl⟩))
  | create i =>
      rw [hq, exec] at hr
      split at hr <;> cases hr
  | dump k =>
      rw [hq, exec] at hr
      split at hr <;> cases hr
  | lockCnt p =>
      rw [hq, exec, if_pos (hcnt p)] at hr
      cases hr
  | lock p r =>
      rw [hq, exec, if_pos hmtx] at hr
      cases hr
  | call p =>
      rw [hq, exec] at hr
      split at hr <;> cases hr
  | write _ _ _ | find _ _ | copy _ _ _ | unlock _ _ _ =>
      rw [hq] at hserves
      cases hserves
  | oops => exact absurd hq ((reach_at h).2 t).alive
  | _ =>
      rw [hq] at hr
      cases hr

/-- At rest everything has been done. -/
theorem AtRest.joined (h : Reach (exec hash slab n) Free (start garbage) s)
    (hrest : AtRest hash slab n s) :
    (∃ k l, s.loc 0 = .ret k l) ∧ ∀ t, 0 < t → t ≤ n → s.loc t = .done := by
  obtain ⟨-, hA⟩ := reach_at h
  -- a thread that was created is done
  have hdone {t : Nat} (hpos : 0 < t) (hle : t ≤ s.mem.created) : s.loc t = .done := by
    have hruns : ¬ (s.loc t).runs = true := fun hq => Nat.ne_of_gt hpos ((hA t).runs.mp hq)
    rcases hrest.places h t with hq | ⟨-, hq⟩ | ⟨i, hq, -⟩ | ⟨k, l, hq⟩
    · exact hq
    · exact absurd ⟨hpos, hle⟩ hq
    · exact absurd (by rw [hq]; rfl) hruns
    · exact absurd (by rw [hq]; rfl) hruns
  have hmain : (s.loc 0).runs = true := (hA 0).runs.mpr rfl
  rcases hrest.places h 0 with hq | ⟨hq, -⟩ | ⟨i, hq, hi, hend⟩ | ⟨k, l, hq⟩
  · rw [hq] at hmain
    cases hmain
  · rw [hq] at hmain
    cases hmain
  · have hjoin := (hA 0).main
    rw [hq] at hjoin
    have hthread := hdone (Nat.succ_pos i) (hjoin.1 ▸ hi)
    rw [(hA (i + 1)).ended.mpr hthread] at hend
    cases hend
  · have hjoin := (hA 0).main
    rw [hq] at hjoin
    exact ⟨⟨k, l, hq⟩, fun t hpos hle => hdone hpos (hjoin.1.1 ▸ hle)⟩

/-- The pairs in the table are those that the last writes left. -/
theorem mem_nodes_of_holds {T : Table} {L : BitVec 32 → BitVec 32} (h : Holds hash T L) {x : Pair} :
    x ∈ T.nodes ↔ x.data ≠ 0 ∧ L x.key = x.data := by
  rw [mem_nodes_iff h.hashed, h.find]
  constructor
  · intro hx
    split at hx
    · cases hx
    · rename_i hdata
      have hL : L x.key = x.data := congrArg Pair.data (Option.some.inj hx)
      exact ⟨hL ▸ hdata, hL⟩
  · rintro ⟨hdata, hL⟩
    rw [if_neg (hL ▸ hdata), hL]

/-- A key with data has been written. -/
theorem mem_of_lastWrite {key : BitVec 32} {reqs : List Request} :
    lastWrite key reqs ≠ 0 → .write ⟨key, lastWrite key reqs⟩ ∈ reqs := by
  induction reqs using List.reverseRecOn with
  | nil => exact fun h => absurd rfl h
  | append_singleton reqs r ih =>
      rw [lastWrite_append]
      intro h
      refine List.mem_append.mpr ?_
      cases r with
      | read k => exact .inl (ih h)
      | write x =>
          rw [Request.data] at h ⊢
          split at h
          · rename_i hk
            rw [if_pos hk, ← hk]
            exact .inr List.mem_cons_self
          · rename_i hk
            rw [if_neg hk]
            exact .inl (ih h)

/-- The keys that `thread_exec` writes. -/
theorem Part.Makes.key_le {x : Pair} (h : p.Makes (.write x)) :
    1 ≤ x.key.toNat ∧ x.key.toNat ≤ 200 := by
  rcases h with ⟨key, data, hpos, hle, -, -, heq⟩ | ⟨key, -, -, -, heq⟩
  · cases heq
    rw [BitVec.toNat_ofNat, Nat.mod_eq_of_lt (by omega)]
    exact ⟨hpos, hle⟩
  · cases heq

/-- There are not more pairs than keys. -/
theorem length_le_of_keys {l : List Pair} (hu : UniqueKeys Pair.key l) {k : Nat}
    (hkey : ∀ x ∈ l, 1 ≤ x.key.toNat ∧ x.key.toNat ≤ k) : l.length ≤ k := by
  have hnodup : (l.map fun x => x.key.toNat - 1).Nodup := by
    refine hu.nodup.map_on fun x hx y hy hxy => hu.eq_of_key hx hy (BitVec.eq_of_toNat_eq ?_)
    have hx1 := (hkey x hx).1
    have hy1 := (hkey y hy).1
    omega
  have hlen := length_le_of_nodup hnodup (n := k) fun i hi => by
    obtain ⟨x, hx, rfl⟩ := List.mem_map.mp hi
    have hx1 := hkey x hx
    omega
  rwa [List.length_map] at hlen

end Rest

/-- **AT REST ALL IS SERVED**: where a run with at least one thread has come to rest, `main` has
    joined all threads, the 200 calls of the first part and the 100 of the second have
    been served, and the dump holds as many pairs as `hash_cur_size`, at most 200, each
    once and exactly those that the last write of their key left there. -/
theorem rest_all_served (hash : BitVec 32 → Fin 128) (slab : Slab) (garbage : Addr → Pair) {n : Nat}
    (hn : 0 < n) {s : TestState} (h : Reach (exec hash slab n) Free (start garbage) s)
    (hrest : AtRest hash slab n s) :
    (∀ t, 0 < t → t ≤ n → s.loc t = .done) ∧ (∀ p, s.mem.served p = p.limit)
      ∧ ∃ (hashCurSize : BitVec 64) (dumpRecord : List Pair), s.loc 0 = .ret hashCurSize dumpRecord
          ∧ dumpRecord.length = hashCurSize.toNat ∧ dumpRecord.length ≤ 200 ∧ dumpRecord.Nodup
          ∧ ∀ x, x ∈ dumpRecord ↔ x.data ≠ 0 ∧ lastWrite x.key s.mem.calls = x.data := by
  obtain ⟨hS, hA⟩ := reach_at h
  obtain ⟨⟨k, l, hmain⟩, hdone⟩ := hrest.joined h
  refine ⟨hdone, fun p => ?_, k, l, hmain, ?_⟩
  · have hpassed : p.limit ≤ s.mem.cnt p := (hA 1).passed p (by rw [hdone 1 Nat.one_pos hn]; rfl)
    have hzero : potential (fun _ _ q => q.owes p) (Finset.range (n + 1)) s = 0 := by
      refine Finset.sum_eq_zero fun t ht => ?_
      rcases Nat.eq_zero_or_pos t with rfl | hpos
      · rw [hmain]
        rfl
      · rw [hdone t hpos (Nat.le_of_lt_succ (Finset.mem_range.mp ht))]
        rfl
    have hcnt := reach_served_cnt h p
    have hle := reach_cnt_le h p
    omega
  · have hplace := (hA 0).main
    rw [hmain] at hplace
    obtain ⟨-, rfl, rfl⟩ := hplace
    have hh : Holds hash (after hash s.mem.calls) (lastWrite · s.mem.calls) :=
      holds_after s.mem.calls
    have hkey : ∀ x ∈ (after hash s.mem.calls).nodes, 1 ≤ x.key.toNat ∧ x.key.toNat ≤ 200 := by
      intro x hx
      obtain ⟨hdata, hlast⟩ := (mem_nodes_of_holds hh).mp hx
      have hwrite := mem_of_lastWrite (hlast ▸ hdata)
      obtain ⟨e, he, hreq⟩ := List.mem_map.mp hwrite
      have hmakes := hS.made e he
      rw [hreq] at hmakes
      exact hmakes.key_le
    exact ⟨hh.hashed.curSize_eq.symm, length_le_of_keys hh.hashed.unique_nodes hkey,
      hh.hashed.unique_nodes.nodup, fun x => mem_nodes_of_holds hh⟩

/-- Some run of the program as it is, with its four threads, comes to rest. -/
theorem rest_all_served_four_threads :
    ∃ s, Reach (exec (fun _ => 0) Slab.bump 4) Free (start fun _ => ⟨0, 0⟩) s
      ∧ AtRest (fun _ => 0) Slab.bump 4 s ∧ ∀ p, s.mem.served p = p.limit := by
  obtain ⟨sched, s, hrun, hrest⟩ :=
    @exists_atRest (fun _ => 0) Slab.bump (fun _ => ⟨0, 0⟩) 4 _ Reach.refl
  have hreach : Reach (exec (fun _ => 0) Slab.bump 4) Free (start fun _ => ⟨0, 0⟩) s :=
    hrun.reach (fun _ _ _ => trivial) Reach.refl
  exact ⟨s, hreach, hrest,
    (rest_all_served (fun _ => 0) Slab.bump (fun _ => ⟨0, 0⟩) (by decide) hreach hrest).2.1⟩

end Ht530Test
