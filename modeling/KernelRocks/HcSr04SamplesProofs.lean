import KernelRocks.HcSr04MachineProofs

/-! # The sample buffer — indices in range

    `newest` is -1 until the first sample, counts 0..4 round and round, and is
    set back to -1 by a clearing write.  The interrupt and the first branch of
    `hc_sr04_read` make sure of a sample; the one-shot branch and the reader
    that has been blocked copy `data[newest]` whatever it is.

    * `reach_cursor`: -1 means exactly that no sample was stored since the last
      clear.
    * `indices_in_range`: `newest` stays in -1..4 and every access is in 0..4,
      in a run where those two copies are made only after a sample; and the
      first copy made before one is out of range.
    * `index_out_of_range`: one read and one stray echo are enough.

    All of it holds for both drivers. -/

namespace HcSr04Machine

open Interleaving
open HcSr04 (SpinLock Version)

/-! ## The index -/

/-- The next access of the task is to `data[newest]`. -/
def Pc.indexes : Pc → Bool
  | .copy | .perCopy | .irqData _ => true
  | _ => false

/-- The index is legal, and so is every access. -/
structure InRange (s : State) : Prop where
  newest : -1 ≤ s.mem.newest ∧ s.mem.newest < 5
  access : ∀ t, (s.loc t).indexes = true → 0 ≤ s.mem.newest ∧ s.mem.newest < 5

/-- The copy that tests nothing is made only when a sample has been stored since the
    buffer was last cleared. -/
def CopiesAfter (s : State) (t : Task) (a : Act) : Prop :=
  s.loc t = .lock .cirBuf .copy → a = .run → 0 < s.mem.since

/-- The index says whether there is a sample. -/
structure Cursor (m : Mem) : Prop where
  low : -1 ≤ m.newest
  high : m.newest < 5
  empty : m.newest = -1 ↔ m.since = 0

theorem Cursor.nonneg_iff {m : Mem} (h : Cursor m) : 0 ≤ m.newest ↔ 0 < m.since := by
  have := h.low
  have := h.empty
  omega

section Turns
variable {v : Version} {t u : Task} {m m' : Mem} {q q' : Pc} {a : Act}

/-- What a turn does to the index. -/
theorem next_newest (h : next v t m q = some (m', q')) :
    (m'.newest = m.newest ∧ m'.since = m.since)
      ∨ (q = .clearNewest ∧ m'.newest = -1 ∧ m'.since = 0)
      ∨ (∃ x, q = .irqNewest x ∧ m'.newest = (m.newest + 1).tmod 5
          ∧ m'.since = m.since + 1) := by
  cases q with
  | clearNewest =>
      cases h
      exact .inr (.inl ⟨rfl, rfl, rfl⟩)
  | irqNewest x =>
      cases h
      exact .inr (.inr ⟨x, rfl, rfl, rfl⟩)
  | _ =>
      refine .inl ?_
      simp only [next] at h
      repeat' split at h
      all_goals cases h
      all_goals exact ⟨rfl, rfl⟩

theorem tmod_five {i : Int} (h : -1 ≤ i) (h5 : i < 5) :
    0 ≤ (i + 1).tmod 5 ∧ (i + 1).tmod 5 < 5 := by
  have h0 : 0 ≤ i + 1 := by omega
  rw [Int.tmod_eq_emod_of_nonneg h0]
  omega

theorem Cursor.next (hI : Cursor m) (h : next v t m q = some (m', q')) : Cursor m' := by
  rcases next_newest h with ⟨hn, hs⟩ | ⟨-, hn, hs⟩ | ⟨x, -, hn, hs⟩
  · exact ⟨hn ▸ hI.low, hn ▸ hI.high, by rw [hn, hs]; exact hI.empty⟩
  · constructor <;> omega
  · have hr := tmod_five hI.low hI.high
    rw [← hn] at hr
    constructor <;> omega

theorem Cursor.exec (hI : Cursor m) (h : exec v t m q a = some (m', q')) : Cursor m' := by
  rcases exec_cases h with ⟨-, h⟩ | ⟨c, n, -, -, -, -, rfl, -⟩ | ⟨-, -, -, rfl, -⟩
    | ⟨ns, -, rfl, -⟩
  · exact hI.next h
  · exact hI
  · exact hI
  · exact ⟨hI.low, hI.high, hI.empty⟩

end Turns

/-- In every run -1 stands for an empty buffer. -/
theorem reach_cursor {v : Version} {C : State → Task → Act → Prop} {s : State}
    (h : ReachWhen v C s) : Cursor s.mem := by
  refine Reach.invariant (I := fun s : State => Cursor s.mem) ?_ ?_ h
  · exact ⟨Int.le_refl _, by decide, by decide⟩
  · intro s s' t a _ hI _ hs
    obtain ⟨m', q', he, rfl⟩ := turn_eq_some hs
    exact hI.exec he

/-! ## The accesses -/

section Access
variable {v : Version} {s : State} {t u : Task} {m m' : Mem} {q q' : Pc} {a : Act}

theorem held_of_indexes (h : q.indexes = true) : SpinLock.cirBuf ∈ q.held := by
  cases q with
  | copy => exact List.mem_singleton_self _
  | perCopy => exact List.mem_singleton_self _
  | irqData x => exact List.mem_singleton_self _
  | _ => cases h

theorem indexes_back (b : Back) : b.pc.indexes = false := by
  cases b <;> rfl

theorem indexes_keeper (k : Keeper) :
    k.cleared.indexes = false ∧ k.started.indexes = false ∧ k.flagged.indexes = false := by
  cases k <;> exact ⟨rfl, rfl, rfl⟩

theorem indexes_entry (c : Call) : c.entry.indexes = false := by
  rcases entry_cases c with h | h | ⟨act, h⟩ | ⟨w, -, h⟩ | ⟨_, _, -, h | h⟩ <;> rw [h] <;> rfl

/-- Of the accesses only the untested copy stands right behind a `spin_lock`. -/
theorem lock_of_indexes {l : SpinLock} {k : Pc} (hw : (Pc.lock l k).Wf)
    (h : k.indexes = true) : Pc.lock l k = .lock .cirBuf .copy := by
  obtain ⟨hl, hs, -⟩ := hw
  cases k with
  | copy =>
      cases hl
      rfl
  | perCopy => cases hs
  | irqData x => cases hs
  | _ => cases h

theorem resume_of_indexes {k : Pc} (h : k.indexes = true) : k.resume = false := by
  cases k with
  | copy => rfl
  | perCopy => rfl
  | irqData x => rfl
  | _ => cases h

/-- Whoever comes to an access has taken the lock for the untested copy, or knows of a
    sample. -/
theorem next_indexes (hI : Cursor m) (hq : q.Wf) (h : next v t m q = some (m', q'))
    (hq' : q'.indexes = true) : q = .lock .cirBuf .copy ∨ 0 ≤ m'.newest := by
  cases q with
  | lock l k =>
      obtain ⟨-, rfl, rfl⟩ := next_lock h
      exact .inl (lock_of_indexes hq hq')
  | unlock l k =>
      cases h
      have := hq.1
      rw [resume_of_indexes hq'] at this
      cases this
  | perTest =>
      rw [next] at h
      cases h
      split at hq'
      · rename_i hn
        have := hI.low
        exact .inr (by omega)
      · cases hq'
  | irqNewest x =>
      cases h
      exact .inr (tmod_five hI.low hI.high).1
  | _ =>
      simp only [next] at h
      repeat' split at h
      all_goals cases h
      all_goals first
        | cases hq'
        | simp [indexes_back, indexes_keeper] at hq'

theorem exec_indexes (hI : Cursor m) (hq : q.Wf) (h : exec v t m q a = some (m', q'))
    (hq' : q'.indexes = true) :
    (a = .run ∧ q = .lock .cirBuf .copy) ∨ (q' = q ∧ m'.newest = m.newest)
      ∨ 0 ≤ m'.newest := by
  rcases exec_cases h with ⟨ha, h⟩ | ⟨c, n, -, -, -, -, -, rfl⟩ | ⟨-, -, -, -, rfl⟩
    | ⟨ns, -, rfl, rfl⟩
  · rcases next_indexes hI hq h hq' with h | h
    · exact .inl ⟨ha, h⟩
    · exact .inr (.inr h)
  · rw [indexes_entry c] at hq'
    cases hq'
  · cases hq'
  · exact .inr (.inl ⟨rfl, rfl⟩)

end Access

section Range
variable {v : Version} {C : State → Task → Act → Prop} {s s' : State} {t u : Task} {m' : Mem}
  {q' : Pc} {a : Act}

theorem InRange.of_nonneg (hI : Cursor s.mem)
    (h : ∀ t, (s.loc t).indexes = true → 0 ≤ s.mem.newest) : InRange s :=
  ⟨⟨hI.low, hI.high⟩, fun t ht => ⟨h t ht, hI.high⟩⟩

/-- The index does not change under a task that accesses the buffer. -/
theorem newest_of_other (hr : ReachWhen v C s) (htu : t ≠ u)
    (hu : (s.loc u).indexes = true) (h : exec v t s.mem (s.loc t) a = some (m', q')) :
    m'.newest = s.mem.newest := by
  have hno : SpinLock.cirBuf ∉ (s.loc t).held := by
    intro ht
    exact htu (reach_exclusive hr ht (held_of_indexes hu))
  rcases exec_cases h with ⟨-, h⟩ | ⟨c, n, -, -, -, -, rfl, -⟩ | ⟨-, -, -, rfl, -⟩
    | ⟨ns, -, rfl, -⟩
  · rcases next_newest h with ⟨hn, -⟩ | ⟨hq, -⟩ | ⟨x, hq, -⟩
    · exact hn
    · rw [hq] at hno
      exact absurd (List.mem_singleton_self _) hno
    · rw [hq] at hno
      exact absurd (List.mem_singleton_self _) hno
  · rfl
  · rfl
  · rfl

/-- One turn keeps the accesses in range exactly if it is no untested copy of an empty
    buffer. -/
theorem InRange.turn_iff (hr : ReachWhen v C s) (hi : InRange s)
    (hs : turn (exec v) s t a = some s') : InRange s' ↔ CopiesAfter s t a := by
  have hI := reach_cursor hr
  obtain ⟨m', q', he, rfl⟩ := turn_eq_some hs
  have hI' : Cursor m' := hI.exec he
  constructor
  · rintro ⟨-, hacc⟩ hq rfl
    rw [hq] at he
    simp only [exec, next] at he
    split at he
    · cases he
      refine hI.nonneg_iff.mp (hacc t ?_).1
      show (Function.update s.loc t _ t).indexes = true
      rw [Function.update_self]
      rfl
    · cases he
  · intro hC
    refine InRange.of_nonneg hI' fun u hu => ?_
    change (Function.update s.loc t q' u).indexes = true at hu
    show 0 ≤ m'.newest
    by_cases hut : u = t
    · rw [hut, Function.update_self] at hu
      rcases exec_indexes hI (reach_owns hr t).wf he hu with ⟨ha, hq⟩ | ⟨hq, hnew⟩ | h
      · have hnew : m'.newest = s.mem.newest := by
          rw [ha, hq] at he
          simp only [exec, next] at he
          split at he
          · cases he
            rfl
          · cases he
        rw [hnew]
        exact hI.nonneg_iff.mpr (hC hq ha)
      · rw [hq] at hu
        rw [hnew]
        exact (hi.access t hu).1
      · exact h
    · rw [Function.update_of_ne hut] at hu
      rw [newest_of_other hr (Ne.symm hut) hu he]
      exact (hi.access u hu).1

theorem reach_inRange (h : ReachWhen v CopiesAfter s) : InRange s := by
  refine Reach.invariant (I := InRange) ?_ ?_ h
  · refine InRange.of_nonneg (reach_cursor (C := Free) (v := v) Reach.refl) fun t ht => ?_
    cases t <;> cases ht
  · intro s s' t a hr hi hC hs
    exact (hi.turn_iff hr hs).mpr hC

end Range

/-- **INDICES IN RANGE**: in a run where no untested copy meets an empty buffer, every
    index is in range, and whatever is done next it stays there unless it is such
    a copy. -/
theorem indices_in_range (v : Version) {s : State} (h : ReachWhen v CopiesAfter s) :
    InRange s ∧ ∀ t a s', turn (exec v) s t a = some s' → (InRange s' ↔ CopiesAfter s t a) := by
  have hi := reach_inRange h
  exact ⟨hi, fun t a s' hs => hi.turn_iff h hs⟩

/-! ## A read that copies a sample, and one that does not -/

def copiesAfter (s : State) (t : Task) (_ : Act) : Bool :=
  decide (s.loc t = .lock .cirBuf .copy → 0 < s.mem.since)

/-- The pulse goes out, the echo is stored, and the reader is about to copy. -/
def copiedSample : State :=
  scheduled .misc [.caller 0, .irq] copiesAfter
    ((.caller 0, .call .read) :: List.replicate 15 (.caller 0, .run)
      ++ (.irq, .fire) :: List.replicate 12 (.irq, .run)
      ++ List.replicate 5 (.caller 0, .run))

theorem indices_in_range_copied :
    (ReachWhen .misc CopiesAfter copiedSample
      ∧ copiedSample.loc (.caller 0) = .copy ∧ copiedSample.mem.newest = 0)
      ∧ InRange copiedSample := by
  have hr : ReachWhen .misc CopiesAfter copiedSample := by
    refine reach_scheduled .misc ?_ _
    intro s t a _ hok hq _
    exact of_decide_eq_true hok hq
  exact ⟨⟨hr, by decide⟩, (indices_in_range .misc hr).1⟩

/-- A stray echo has seen STOPPING, a read claims the device, and the echo's handler
    stores STOPPING once more: the read takes that for its own echo. -/
def copiedNothing : State :=
  scheduled .misc [.caller 0, .irq] (fun _ _ _ => true)
    ((.irq, .fire) :: List.replicate 3 (.irq, .run)
      ++ (.caller 0, .call .read) :: List.replicate 9 (.caller 0, .run)
      ++ List.replicate 3 (.irq, .run)
      ++ List.replicate 9 (.caller 0, .run))

theorem index_out_of_range : ¬ ∀ s, ReachWhen .misc Free s → InRange s := by
  intro h
  have hr : ReachWhen .misc Free copiedNothing := by
    refine reach_scheduled .misc ?_ _
    exact fun _ _ _ _ _ => trivial
  have hacc := (h copiedNothing hr).access (.caller 0) (by decide)
  exact absurd hacc (by decide)

end HcSr04Machine
