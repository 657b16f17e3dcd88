import KernelRocks.HcSr04InterfaceProofs
import KernelRocks.HcSr04SamplesProofs
import KernelRocks.RingProofs

/-! # The sample buffer — what it holds

    Five slots and one index.  A clearing write empties the slots and sets the
    index to -1; sample number `k` since then (from 0) goes into slot `k mod 5`
    and leaves the index there.  Both are two stores under `cir_buf_lock`, and the
    buffer is WHOLE (`Buffered`) unless somebody is between the two (`Filled`).

    * `reach_filled`: in every run of either driver.
    * `buffer_holds_recent`: read off it, the contents slot by slot, the value the
      periodic branch of `hc_sr04_read` copies, and the text of `distance_show`. -/

namespace HcSr04Machine

open Interleaving
open Program (wp wp_bind wp_ite wp_pure)
open HcSr04 (SpinLock Version oneShot)

/-! ## A whole buffer -/

/-- The first of the last `n` samples is the oldest. -/
def Mem.samples (m : Mem) (n : Nat) : List Int :=
  ((m.stored.take n).map fun x => (x.distance : Int)).reverse

/-- The index after `n` samples. -/
def newestOf : Nat → Int
  | 0 => -1
  | n + 1 => (n % 5 : Nat)

/-- The last samples since the buffer was cleared lie in its slots, and the index is at
    the last one. -/
structure Buffered (m : Mem) : Prop where
  newest : m.newest = newestOf m.since
  count : m.since ≤ m.stored.length
  laid : Ring.Laid 0 m.data (m.samples m.since)

/-- The index has been advanced, and the slot is not written yet. -/
structure Advanced (m : Mem) : Prop where
  newest : m.newest = newestOf m.since
  count : 1 ≤ m.since ∧ m.since ≤ m.stored.length + 1
  laid : Ring.Laid 0 m.data (m.samples (m.since - 1))

/-! ## The four stores -/

section Stores
variable {m m' : Mem} {x : Sample}

theorem length_samples {n : Nat} (h : n ≤ m.stored.length) : (m.samples n).length = n := by
  simp [Mem.samples, h]

theorem newestOf_succ (n : Nat) : (newestOf n + 1).tmod 5 = newestOf (n + 1) := by
  cases n with
  | zero => rfl
  | succ n =>
      have h0 : (0 : Int) ≤ newestOf (n + 1) + 1 := by
        show (0 : Int) ≤ (n % 5 : Nat) + 1
        omega
      rw [Int.tmod_eq_emod_of_nonneg h0]
      show ((n % 5 : Nat) + 1 : Int) % 5 = ((n + 1) % 5 : Nat)
      omega

theorem Buffered.frame (h : Buffered m) (hn : m'.newest = m.newest) (hs : m'.since = m.since)
    (hd : m'.data = m.data) (ht : m'.stored = m.stored) : Buffered m' := by
  refine ⟨?_, ?_, ?_⟩
  · rw [hn, hs]
    exact h.newest
  · rw [hs, ht]
    exact h.count
  · rw [Mem.samples, hs, hd, ht]
    exact h.laid

/-- `newest = (newest+1)%NUM_DATA`. -/
theorem Buffered.advance (h : Buffered m) :
    Advanced { m with newest := (m.newest + 1).tmod 5, since := m.since + 1 } where
  newest := by
    show (m.newest + 1).tmod 5 = newestOf (m.since + 1)
    rw [h.newest, newestOf_succ]
  count := ⟨Nat.le_add_left .., Nat.succ_le_succ h.count⟩
  laid := h.laid

/-- `data[newest] = distance`. -/
theorem Advanced.store (h : Advanced m) :
    Buffered { m with data := setSlot m.data m.newest x.distance, stored := x :: m.stored } := by
  obtain ⟨n, hn⟩ : ∃ n, m.since = n + 1 := ⟨m.since - 1, by have := h.count; omega⟩
  have hnew : m.newest = (n % 5 : Nat) := by
    rw [h.newest, hn]
    rfl
  have hlen : (m.samples n).length = n := length_samples (by have := h.count; omega)
  have hlaid : Ring.Laid 0 m.data (m.samples n) := by
    have := h.laid
    rwa [hn] at this
  refine ⟨h.newest, h.count.2, ?_⟩
  show Ring.Laid 0 (setSlot m.data m.newest x.distance)
    (((x :: m.stored).take m.since).map fun x => (x.distance : Int)).reverse
  rw [hn, List.take_succ_cons, List.map_cons, List.reverse_cons]
  refine hlaid.push (fun j hj => ?_) (fun j hj => ?_)
  · rw [hlen] at hj
    rw [setSlot, if_pos (by omega)]
  · rw [hlen] at hj
    rw [setSlot, if_neg (by omega)]

/-- `memset`, then `newest = -1`. -/
theorem Buffered.cleared (h : ∀ j, m.data j = 0) :
    Buffered { m with newest := -1, since := 0 } where
  newest := rfl
  count := Nat.zero_le _
  laid := Ring.Laid.nil h

end Stores

/-! ## The whole buffer in every run -/

/-- Between the two stores of a sample or of a clear. -/
def Pc.mid : Pc → Bool
  | .lock _ k | .unlock _ k => k.mid
  | .irqData _ | .clearNewest => true
  | _ => false

/-- The buffer is whole, or one of the two stores is still to come. -/
structure Filled (s : State) : Prop where
  whole : (∀ t, (s.loc t).mid = false) → Buffered s.mem
  between : ∀ t, (s.loc t).mid = true →
    (∃ x, s.loc t = .irqData x ∧ Advanced s.mem)
      ∨ (s.loc t = .clearNewest ∧ ∀ j, s.mem.data j = 0)

section Turns
variable {v : Version} {t u : Task} {m m' : Mem} {q q' : Pc} {a : Act}

theorem mid_back (b : Back) : b.pc.mid = false := by
  cases b <;> rfl

theorem mid_doSend (p : Pulse) : (doSend v p).mid = false := by
  cases v <;> rfl

theorem mid_retry (p : Pulse) : (retry v p).mid = false := by
  unfold retry
  split
  · rfl
  · exact mid_doSend _

theorem mid_keeper (k : Keeper) :
    k.cleared.mid = false ∧ k.started.mid = false ∧ k.flagged.mid = false := by
  cases k <;> exact ⟨rfl, rfl, rfl⟩

theorem mid_entry (c : Call) : c.entry.mid = false := by
  rcases entry_cases c with h | h | ⟨act, h⟩ | ⟨w, -, h⟩ | ⟨_, _, -, h | h⟩ <;> rw [h] <;> rfl

/-- The buffer and its history stay. -/
structure SameBuffer (m m' : Mem) : Prop where
  newest : m'.newest = m.newest
  since : m'.since = m.since
  data : m'.data = m.data
  stored : m'.stored = m.stored

/-- What a turn does to the buffer. -/
theorem next_buffer (h : next v t m q = some (m', q')) :
    (SameBuffer m m' ∧ q'.mid = q.mid ∧ (∀ x, q ≠ .irqData x) ∧ q ≠ .clearNewest)
      ∨ (∃ x, q = .irqNewest x ∧ q' = .irqData x
          ∧ m' = { m with newest := (m.newest + 1).tmod 5, since := m.since + 1 })
      ∨ (∃ x, q = .irqData x ∧ q'.mid = false
          ∧ m' = { m with data := setSlot m.data m.newest x.distance, stored := x :: m.stored })
      ∨ (q = .clearBuf ∧ q' = .clearNewest ∧ m' = { m with data := fun _ => 0 })
      ∨ (q = .clearNewest ∧ q'.mid = false ∧ m' = { m with newest := -1, since := 0 }) := by
  cases q with
  | irqNewest x =>
      cases h
      exact .inr (.inl ⟨x, rfl, rfl, rfl⟩)
  | irqData x =>
      cases h
      exact .inr (.inr (.inl ⟨x, rfl, rfl, rfl⟩))
  | clearBuf =>
      cases h
      exact .inr (.inr (.inr (.inl ⟨rfl, rfl, rfl⟩)))
  | clearNewest =>
      cases h
      exact .inr (.inr (.inr (.inr ⟨rfl, rfl, rfl⟩)))
  | lock l k =>
      obtain ⟨-, rfl, rfl⟩ := next_lock h
      exact .inl ⟨⟨rfl, rfl, rfl, rfl⟩, rfl, fun x hx => (by cases hx), fun hx => (by cases hx)⟩
  | _ =>
      refine .inl ?_
      simp only [next] at h
      repeat' split at h
      all_goals cases h
      all_goals refine ⟨⟨rfl, rfl, rfl, rfl⟩, ?_, fun x hx => (by cases hx),
        fun hx => (by cases hx)⟩
      all_goals simp [Pc.mid, send, mid_back, mid_doSend, mid_retry, mid_keeper]

theorem Buffered.same (h : Buffered m) (hm : SameBuffer m m') : Buffered m' :=
  h.frame hm.newest hm.since hm.data hm.stored

end Turns

section Runs
variable {v : Version} {C : State → Task → Act → Prop} {s s' : State} {t u : Task} {m' : Mem}
  {q' : Pc} {a : Act}

theorem Filled.held (hf : Filled s) (h : (s.loc t).mid = true) :
    SpinLock.cirBuf ∈ (s.loc t).held := by
  rcases hf.between t h with ⟨x, hq, -⟩ | ⟨hq, -⟩ <;> rw [hq] <;> exact List.mem_singleton_self _

/-- Beside the one that holds the lock nobody is between the two stores. -/
theorem Filled.not_mid (hf : Filled s) (hr : ReachWhen v C s)
    (ht : SpinLock.cirBuf ∈ (s.loc t).held) (hut : u ≠ t) : (s.loc u).mid = false := by
  refine Bool.eq_false_iff.mpr fun hu => hut ?_
  exact reach_exclusive hr (hf.held hu) ht

/-- Nor is anybody if the holder is not. -/
theorem Filled.not_mid_of_held (hf : Filled s) (hr : ReachWhen v C s)
    (ht : SpinLock.cirBuf ∈ (s.loc t).held) (hm : (s.loc t).mid = false) (u : Task) :
    (s.loc u).mid = false := by
  by_cases hut : u = t
  · rw [hut]
    exact hm
  · exact hf.not_mid hr ht hut

theorem Filled.not_mid_of_free (hf : Filled s) (hr : ReachWhen v C s)
    (h : s.mem.holder .cirBuf = none) (u : Task) : (s.loc u).mid = false := by
  refine Bool.eq_false_iff.mpr fun hu => ?_
  have := ((reach_owns hr u).holds .cirBuf).mpr (hf.held hu)
  rw [h] at this
  cases this

/-- A turn with nobody else between the stores. -/
theorem Filled.alone (ho : ∀ u, u ≠ t → (s.loc u).mid = false)
    (hw : q'.mid = false → Buffered m')
    (hb : q'.mid = true → (∃ x, q' = .irqData x ∧ Advanced m')
      ∨ (q' = .clearNewest ∧ ∀ j, m'.data j = 0)) :
    Filled ⟨m', Function.update s.loc t q'⟩ := by
  constructor
  · intro hall
    have ht : (Function.update s.loc t q' t).mid = false := hall t
    rw [Function.update_self] at ht
    exact hw ht
  · intro u hu
    change (Function.update s.loc t q' u).mid = true at hu
    show (∃ x, Function.update s.loc t q' u = .irqData x ∧ _)
      ∨ (Function.update s.loc t q' u = .clearNewest ∧ _)
    by_cases hut : u = t
    · rw [hut, Function.update_self] at hu ⊢
      exact hb hu
    · rw [Function.update_of_ne hut, ho u hut] at hu
      cases hu

/-- A turn that leaves the buffer alone. -/
theorem Filled.same (hf : Filled s) (hm : SameBuffer s.mem m') (hq : q'.mid = (s.loc t).mid)
    (ht : (s.loc t).mid = true → q' = s.loc t) : Filled ⟨m', Function.update s.loc t q'⟩ := by
  have hmid : ∀ u, (Function.update s.loc t q' u).mid = (s.loc u).mid := by
    intro u
    by_cases hut : u = t
    · rw [hut, Function.update_self, hq]
    · rw [Function.update_of_ne hut]
  constructor
  · intro hall
    exact (hf.whole fun u => (hmid u).symm.trans (hall u)).same hm
  · intro u hu
    have hloc : Function.update s.loc t q' u = s.loc u := by
      by_cases hut : u = t
      · rw [hut, Function.update_self]
        rw [hut, hmid t] at hu
        exact ht hu
      · exact Function.update_of_ne hut _ _
    change (Function.update s.loc t q' u).mid = true at hu
    show (∃ x, Function.update s.loc t q' u = .irqData x ∧ _)
      ∨ (Function.update s.loc t q' u = .clearNewest ∧ _)
    rw [hloc] at hu ⊢
    rw [hm.data]
    rcases hf.between u hu with ⟨x, hx, ha⟩ | hc
    · refine .inl ⟨x, hx, ?_, ?_, ?_⟩
      · rw [hm.newest, hm.since]
        exact ha.newest
      · rw [hm.since, hm.stored]
        exact ha.count
      · rw [Mem.samples, hm.since, hm.data, hm.stored]
        exact ha.laid
    · exact .inr hc

theorem Filled.turn (hf : Filled s) (hr : ReachWhen v C s) (hs : turn (exec v) s t a = some s') :
    Filled s' := by
  obtain ⟨m', q', he, rfl⟩ := turn_eq_some hs
  rcases exec_cases he with ⟨-, h⟩ | ⟨c, n, -, -, hq, -, rfl, rfl⟩ | ⟨-, -, hq, rfl, rfl⟩
    | ⟨ns, -, rfl, rfl⟩
  · have alone (ht : SpinLock.cirBuf ∈ (s.loc t).held) : ∀ u, u ≠ t → (s.loc u).mid = false :=
      fun u => hf.not_mid hr ht
    rcases next_buffer h with ⟨hm, hq, hx, hc⟩ | ⟨x, hq, rfl, rfl⟩ | ⟨x, hq, hq', rfl⟩
      | ⟨hq, rfl, rfl⟩ | ⟨hq, hq', rfl⟩
    · refine hf.same hm hq fun hmid => ?_
      rcases hf.between t hmid with ⟨x, hx', -⟩ | ⟨hc', -⟩
      · exact absurd hx' (hx x)
      · exact absurd hc' hc
    · have ht : SpinLock.cirBuf ∈ (s.loc t).held := by
        rw [hq]
        exact List.mem_singleton_self _
      have hb : Buffered s.mem := hf.whole (hf.not_mid_of_held hr ht (by rw [hq]; rfl))
      exact Filled.alone (alone ht) nofun fun _ => .inl ⟨x, rfl, hb.advance⟩
    · have hmid : (s.loc t).mid = true := by
        rw [hq]
        rfl
      refine Filled.alone (alone (hf.held hmid)) (fun _ => ?_) (by rw [hq']; exact nofun)
      rcases hf.between t hmid with ⟨_, _, ha⟩ | ⟨hc, -⟩
      · exact ha.store
      · rw [hq] at hc
        cases hc
    · have ht : SpinLock.cirBuf ∈ (s.loc t).held := by
        rw [hq]
        exact List.mem_singleton_self _
      exact Filled.alone (alone ht) nofun fun _ => .inr ⟨rfl, fun _ => rfl⟩
    · have hmid : (s.loc t).mid = true := by
        rw [hq]
        rfl
      refine Filled.alone (alone (hf.held hmid)) (fun _ => ?_) (by rw [hq']; exact nofun)
      rcases hf.between t hmid with ⟨x, hx, -⟩ | ⟨-, hz⟩
      · rw [hq] at hx
        cases hx
      · exact Buffered.cleared hz
  · refine hf.same ⟨rfl, rfl, rfl, rfl⟩ ?_ ?_ <;> rw [hq]
    · exact mid_entry c
    · exact nofun
  · refine hf.same ⟨rfl, rfl, rfl, rfl⟩ ?_ ?_ <;> rw [hq]
    · rfl
    · exact nofun
  · exact hf.same ⟨rfl, rfl, rfl, rfl⟩ rfl fun _ => rfl

/-- **THE WHOLE BUFFER**: in every run, the last samples are in their slots unless
    somebody is between two stores. -/
theorem reach_filled (h : ReachWhen v C s) : Filled s := by
  refine Reach.invariant (I := Filled) ?_ ?_ h
  · refine ⟨fun _ => ⟨rfl, Nat.zero_le _, Ring.Laid.nil fun _ => rfl⟩, ?_⟩
    intro t ht
    cases t <;> cases ht
  · intro s s' t a hr hf _ hs
    exact hf.turn hr hs

end Runs

/-! ## Slot by slot, and what the readers get -/

/-- Nobody is between two stores to the buffer. -/
def Settled (s : State) : Prop := ∀ t, (s.loc t).mid = false

/-- The buffer holds the most recent samples: the `j`-th one before the last is `j` slots
    behind the index, and a slot that none of them is in is 0. -/
structure HoldsRecent (m : Mem) : Prop where
  empty : m.newest = -1 ↔ m.since = 0
  recent : ∀ j, j < min m.since 5 → ∃ (x : Sample) (i : Fin 5), m.stored[j]? = some x
    ∧ (i : Int) = (m.newest - j) % 5 ∧ m.data i = x.distance
  rest : m.since < 5 → ∀ i : Fin 5, (∀ j, j < m.since → (i : Int) ≠ (m.newest - j) % 5) →
    m.data i = 0

/-- The last sample, and 0 if there is none since the last clear. -/
def Mem.last (m : Mem) : Int :=
  match m.since, m.stored with
  | _ + 1, x :: _ => x.distance
  | _, _ => 0

def Mem.cirb (m : Mem) : HcSr04.CirBuf := ⟨m.newest, m.data⟩

/-- What `distance_show`, and `hc_sr04_read` in a periodic mode, make of the buffer they
    find under the lock. -/
structure Delivers (m : Mem) : Prop where
  distanceShow : ∀ (env : HcSr04.Env) (st : HcSr04.St), SpinLock.cirBuf ∉ st.held →
    (st.hcsr.seen env st.reads).cirb = m.cirb →
    wp (HcSr04.sem env) (fun _ => False) HcSr04.distanceShow st fun r _ =>
      r = HcSr04.snprintfInt m.last
  hcSr04Read : ∀ (env : HcSr04.Env) (st : HcSr04.St) (rounds : Nat), st.held = [] →
    st.hcsr.workingMode.mode ≠ oneShot → m.newest ≠ -1 →
    ((st.hcsr.seen env st.reads).seen env (st.reads + 1)).cirb = m.cirb →
    wp (HcSr04.sem env) (fun _ => False) (HcSr04.hcSr04Read rounds) st fun r st' =>
      r = 0 ∧ ∃ left, st'.log = (.copyToUser m.last, left) :: st.log

section Contents
variable {m : Mem}

theorem Buffered.empty (h : Buffered m) : m.newest = -1 ↔ m.since = 0 := by
  rw [h.newest]
  cases m.since with
  | zero => exact iff_of_true rfl rfl
  | succ n =>
      refine iff_of_false ?_ (Nat.succ_ne_zero n)
      show ((n % 5 : Nat) : Int) ≠ -1
      omega

/-- The slot `j` behind the index, by the number of the sample in it. -/
theorem Buffered.slot (h : Buffered m) {j : Nat} {i : Fin 5} (hj : j < m.since)
    (h5 : j < 5) : (i : Int) = (m.newest - j) % 5 ↔ (m.since - 1 - j) % 5 = i := by
  obtain ⟨n, hn⟩ : ∃ n, m.since = n + 1 := ⟨m.since - 1, by omega⟩
  have hnew : m.newest = (n % 5 : Nat) := by
    rw [h.newest, hn]
    rfl
  omega

theorem Buffered.back (h : Buffered m) {j : Nat} {i : Fin 5} (hj : j < m.since)
    (h5 : j < 5) (hi : (i : Int) = (m.newest - j) % 5) :
    ∃ x, m.stored[j]? = some x ∧ m.data i = x.distance := by
  have hlen := length_samples h.count
  have hback := h.laid.back (j := i) (i := j) (by omega) h5
    (by rw [hlen]; exact (h.slot hj h5).mp hi)
  rw [Mem.samples, List.reverse_reverse, List.getElem?_map, List.getElem?_take_of_lt hj] at hback
  obtain ⟨x, hx, hd⟩ := Option.map_eq_some_iff.mp hback
  exact ⟨x, hx, hd.symm⟩

theorem Buffered.holdsRecent (h : Buffered m) : HoldsRecent m where
  empty := h.empty
  recent j hj := by
    have hlt : ((m.newest - j) % 5).toNat < 5 := by omega
    have hi : ((⟨_, hlt⟩ : Fin 5) : Int) = (m.newest - j) % 5 := by
      show (((m.newest - j) % 5).toNat : Int) = _
      omega
    obtain ⟨x, hx, hd⟩ := h.back (by omega) (by omega) hi
    exact ⟨x, _, hx, hi, hd⟩
  rest h5 i hi := by
    refine h.laid.rest i ?_
    rw [length_samples h.count]
    -- otherwise sample number `i` is in it
    refine Nat.le_of_not_lt fun hlt => hi (m.since - 1 - i) (by omega) ?_
    refine (h.slot (by omega) (by omega)).mpr ?_
    omega

/-- The index is at the last sample. -/
theorem Buffered.last (h : Buffered m) (hn : m.newest ≠ -1) (env : HcSr04.Env) :
    m.cirb.at env m.newest = m.last := by
  have hpos : 0 < m.since := Nat.pos_of_ne_zero (hn ∘ h.empty.mpr)
  obtain ⟨n, hs⟩ : ∃ n, m.since = n + 1 := ⟨m.since - 1, by omega⟩
  have hnew : m.newest = (n % 5 : Nat) := by
    rw [h.newest, hs]
    rfl
  have hr : 0 ≤ m.newest ∧ m.newest < 5 := by omega
  obtain ⟨x, hx, hd⟩ := h.back (i := ⟨m.newest.toNat, by omega⟩) hpos (by omega)
    (by show (m.newest.toNat : Int) = (m.newest - (0 : Nat)) % 5; omega)
  show (if h : 0 ≤ m.newest ∧ m.newest < 5 then m.data ⟨m.newest.toNat, _⟩ else _) = _
  rw [dif_pos hr, hd, Mem.last, hs]
  cases hst : m.stored with
  | nil =>
      rw [hst] at hx
      cases hx
  | cons y ys =>
      rw [hst] at hx
      cases hx
      rfl

theorem Buffered.last_zero (h : Buffered m) (hn : m.newest = -1) : m.last = 0 := by
  rw [Mem.last, h.empty.mp hn]

theorem Buffered.delivers (h : Buffered m) : Delivers m where
  distanceShow env st hheld hfound := by
    have hnew : (st.hcsr.seen env st.reads).cirb.newest = m.newest := by
      rw [hfound]
      rfl
    simp only [HcSr04.distanceShow, wp_bind, HcSr04.wp_lock, HcSr04.wp_load, wp_ite,
      HcSr04.wp_unlock, HcSr04.wp_slot, wp_pure, hnew]
    refine ⟨fun hmem => hheld hmem, fun _ => ⟨fun hn => ⟨fun _ => ?_, ?_⟩,
      fun hn => ⟨fun _ => ?_, ?_⟩⟩⟩
    · rw [h.last_zero hn]
    · exact fun hmem => hmem List.mem_cons_self
    · rw [hfound, h.last hn]
    · exact fun hmem => hmem List.mem_cons_self
  hcSr04Read env st rounds hheld hmode hn hfound := by
    have hnew : ((st.hcsr.seen env st.reads).seen env (st.reads + 1)).cirb.newest = m.newest := by
      rw [hfound]
      rfl
    have hval : ((st.hcsr.seen env st.reads).seen env (st.reads + 1)).cirb.at env
        ((st.hcsr.seen env st.reads).seen env (st.reads + 1)).cirb.newest = m.last := by
      rw [hfound]
      exact h.last hn env
    have hm : ¬ (st.hcsr.seen env st.reads).workingMode.mode = oneShot := hmode
    rw [HcSr04.hcSr04Read, wp_bind, HcSr04.wp_lock, hheld]
    refine ⟨List.not_mem_nil, fun _ => ?_⟩
    rw [wp_bind, HcSr04.wp_load, if_neg hm, wp_bind, HcSr04.wp_unlock]
    refine ⟨fun _ => ?_, fun hmem => hmem List.mem_cons_self⟩
    rw [wp_bind, HcSr04.wp_lock]
    refine ⟨List.not_mem_nil, fun _ => ?_⟩
    rw [wp_bind, HcSr04.wp_load, if_pos (by rw [hnew]; exact hn), wp_bind, HcSr04.wp_slot, wp_bind,
      HcSr04.wp_call, wp_bind, HcSr04.wp_unlock]
    refine ⟨fun _ => ?_, fun hmem => hmem List.mem_cons_self⟩
    refine ⟨rfl, env.answer st.log (.copyToUser m.last), ?_⟩
    exact congrArg
      (fun x => (HcSr04.Call.copyToUser x, env.answer st.log (.copyToUser x)) :: st.log) hval

end Contents

/-- **THE MOST RECENT SAMPLES**: with the buffer unlocked, or locked by a task that is
    not between two stores, it holds the most recent samples, and its readers get the last
    one. -/
theorem buffer_holds_recent (v : Version) {s : State} (h : ReachWhen v Free s) :
    (s.mem.holder .cirBuf = none → Settled s)
      ∧ (∀ t, SpinLock.cirBuf ∈ (s.loc t).held → (s.loc t).mid = false → Settled s)
      ∧ (Settled s → HoldsRecent s.mem ∧ Delivers s.mem) := by
  have hf := reach_filled h
  refine ⟨fun hfree t => ?_, fun t ht hmid u => ?_, fun hs => ?_⟩
  · exact hf.not_mid_of_free h hfree t
  · exact hf.not_mid_of_held h ht hmid u
  · exact ⟨(hf.whole hs).holdsRecent, (hf.whole hs).delivers⟩

/-- A call whose echo comes after `ns`, with the caller's turns before it and behind it. -/
def answeredCall (c : Call) (ns before behind : Nat) : List (Task × Act) :=
  (.caller 0, .call c) :: List.replicate before (.caller 0, .run)
    ++ (.irq, .tick ns) :: (.irq, .fire) :: List.replicate 12 (.irq, .run)
    ++ List.replicate behind (.caller 0, .run)

/-- Two samples, a write that clears them, and seven samples from there on; the last read is
    about to copy. -/
def wrappedBuffer : State :=
  scheduled .misc [.caller 0, .irq] (fun _ _ _ => true)
    (answeredCall .read 5800 15 7 ++ answeredCall .read 11600 15 7
      ++ answeredCall (.write 1) 17400 19 3
      ++ ([2, 3, 4, 5, 6].flatMap fun k => answeredCall .read (k * 5800) 15 7)
      ++ answeredCall .read 40600 15 5)

theorem buffer_holds_recent_wrapped :
    (ReachWhen .misc Free wrappedBuffer
      ∧ wrappedBuffer.loc (.caller 0) = .copy ∧ wrappedBuffer.mem.since = 7
      ∧ List.ofFn wrappedBuffer.mem.data = [6, 7, 3, 4, 5] ∧ wrappedBuffer.mem.newest = 1)
      ∧ HoldsRecent wrappedBuffer.mem ∧ Delivers wrappedBuffer.mem := by
  have hr : ReachWhen .misc Free wrappedBuffer := by
    refine reach_scheduled .misc ?_ _
    exact fun _ _ _ _ _ => trivial
  obtain ⟨-, hheld, hholds⟩ := buffer_holds_recent .misc hr
  refine ⟨⟨hr, by decide +kernel⟩, hholds (hheld (.caller 0) ?_ ?_)⟩
  · decide +kernel
  · decide +kernel

end HcSr04Machine
