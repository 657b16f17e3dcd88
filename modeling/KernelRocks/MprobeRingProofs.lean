import KernelRocks.MprobeMachineProofs
import KernelRocks.RingProofs

/-! # mprobe — the last ten results

    How many results there are is not stored: a result with time-stamp 0 is one
    that was never written, and `mprobe_read` counts up to the first of these.
    With a cycle counter that is never 0 this is the number of hits up to ten.

    * `reach_rung`: after `n` hits the index is `n mod 10`, and hit number `k` of
      the last ten is in slot `k mod 10`.
    * `last_ten_hits`: so a read copies exactly these. -/

namespace Mprobe

open Interleaving

/-! ## The ring -/

/-- The counter is never 0 when a handler reads it. -/
def Counted (s : State) (t : Task) (a : Act) : Prop :=
  ∀ trap, s.loc t = .hitSection trap → a = .run → s.mem.world.cycles ≠ 0

/-- The results in the order of the hits. -/
def records (hits : List Hit) : List DebugResult := (hits.map Hit.record).reverse

/-- The ring after these hits. -/
structure Rung (rbf : Ringbuffer) (hits : List Hit) : Prop where
  idx : rbf.idx.toNat = hits.length % 10
  xtc : ∀ r ∈ records hits, r.xtc ≠ 0
  laid : Ring.Laid ⟨0, 0, 0, 0, 0⟩ rbf.rst (records hits)

/-- What a read should make of these results. -/
structure LastTen (results : List DebugResult) (out : Int × List DebugResult) : Prop where
  fails : out.1 = -einval ↔ results = []
  returns : results ≠ [] → out.1 = 32 * out.2.length
  number : out.2.length = min results.length 10
  each : ∀ k, k < results.length → results.length ≤ k + 10 → out.2[k % 10]? = results[k]?

@[simp]
theorem length_records (hits : List Hit) : (records hits).length = hits.length := by
  simp [records]

theorem records_cons (x : Hit) (hits : List Hit) :
    records (x :: hits) = records hits ++ [x.record] := by
  simp [records]

section Turns
variable {t : Task} {m m' : Mem} {q q' : Pc} {a : Act} {rbf : Ringbuffer} {hits : List Hit}

/-- One more hit. -/
theorem Rung.hit (h : Rung rbf hits) {trap : Trap} {w : World} (hw : w.cycles ≠ 0) :
    Rung (handlerPre rbf trap w) (⟨trap, w, result rbf.req trap w⟩ :: hits) := by
  refine ⟨?_, ?_, ?_⟩
  · have hidx := h.idx
    show ((rbf.idx + 1) % 10).toNat = (hits.length + 1) % 10
    rw [BitVec.toNat_umod, BitVec.toNat_add, hidx]
    show (hits.length % 10 + 1) % 2 ^ 32 % 10 = _
    omega
  · rw [records_cons]
    intro r hr
    rcases List.mem_append.mp hr with hr | hr
    · exact h.xtc r hr
    · rw [List.mem_singleton.mp hr]
      exact hw
  · rw [records_cons]
    have hnum : (records hits).length % 10 = rbf.idx.toNat := by
      rw [length_records, h.idx]
    refine h.laid.push (fun j hj => ?_) (fun j hj => ?_)
    · exact if_pos (hj.trans hnum)
    · exact if_neg fun he => hj (he.trans hnum.symm)

/-- What a turn does to the ring. -/
theorem next_rbf (h : next t m q = some (m', q')) :
    (m'.rbf.idx = m.rbf.idx ∧ m'.rbf.rst = m.rbf.rst ∧ m'.hits = m.hits)
      ∨ (∃ trap, q = .hitSection trap ∧ m'.rbf = handlerPre m.rbf trap m.world
          ∧ m'.hits = ⟨trap, m.world, result m.rbf.req trap m.world⟩ :: m.hits) := by
  cases q with
  | hitSection trap =>
      cases h
      exact .inr ⟨trap, rfl, rfl, rfl⟩
  | _ =>
      refine .inl ?_
      simp only [next] at h
      repeat' split at h
      all_goals cases h
      all_goals exact ⟨rfl, rfl, rfl⟩

theorem Rung.same {rbf' : Ringbuffer} (h : Rung rbf hits) (hi : rbf'.idx = rbf.idx)
    (hr : rbf'.rst = rbf.rst) : Rung rbf' hits :=
  ⟨hi ▸ h.idx, h.xtc, hr ▸ h.laid⟩

end Turns

/-- In every run the ring holds the last results. -/
theorem reach_rung {s : State} (h : ReachWhen Counted s) : Rung s.mem.rbf s.mem.hits := by
  refine Reach.invariant (I := fun s : State => Rung s.mem.rbf s.mem.hits) ?_ ?_ h
  · exact ⟨rfl, nofun, Ring.Laid.nil fun _ => rfl⟩
  · intro s s' t a _ hI hC hs
    obtain ⟨m', q', he, rfl⟩ := turn_eq_some hs
    rcases exec_cases he with ⟨ha, h⟩ | ⟨n, req, -, -, -, rfl, -⟩ | ⟨n, -, -, -, rfl, -⟩
      | ⟨c, trap, -, -, -, -, rfl, -⟩ | ⟨w, -, rfl, -⟩
    · rcases next_rbf h with ⟨hi, hr, hh⟩ | ⟨trap, hq, hr, hh⟩
      · show Rung m'.rbf m'.hits
        rw [hh]
        exact hI.same hi hr
      · show Rung m'.rbf m'.hits
        rw [hr, hh]
        exact hI.hit (hC trap hq ha)
    all_goals exact hI

/-! ## The read -/

/-- The loop ends at the first time-stamp 0. -/
theorem scan_eq (l : List DebugResult) (i : Nat) {n : Nat} (hn : n ≤ l.length)
    (hne : ∀ k r, k < n → l[k]? = some r → r.xtc ≠ 0)
    (h0 : ∀ r, l[n]? = some r → r.xtc = 0) : scan l i = i + n := by
  induction l generalizing i n with
  | nil =>
      obtain rfl : n = 0 := Nat.le_zero.mp hn
      rfl
  | cons r rest ih =>
      rw [scan]
      cases n with
      | zero => rw [if_pos (h0 r rfl).symm, Nat.add_zero]
      | succ n =>
          rw [if_neg (hne 0 r (Nat.succ_pos n) rfl).symm,
            ih (i + 1) (Nat.le_of_succ_le_succ hn)
              (fun k r hk hr => hne (k + 1) r (Nat.succ_lt_succ hk) hr) h0]
          omega

section Read
variable {rbf : Ringbuffer} {hits : List Hit}

/-- A slot that a hit has reached has its time-stamp. -/
theorem Rung.xtc_ne (h : Rung rbf hits) {j : Fin 10} (hj : j < hits.length) :
    (rbf.rst j).xtc ≠ 0 := by
  refine h.xtc _ (h.laid.mem ?_)
  rw [length_records]
  exact hj

/-- A slot that none has reached is 0. -/
theorem Rung.xtc_eq (h : Rung rbf hits) {j : Fin 10} (hj : hits.length ≤ j) :
    (rbf.rst j).xtc = 0 := by
  rw [h.laid.rest j (by rw [length_records]; exact hj)]

theorem Rung.scan (h : Rung rbf hits) : scan (List.ofFn rbf.rst) 0 = min hits.length 10 := by
  rw [scan_eq _ 0 (n := min hits.length 10), Nat.zero_add]
  · rw [List.length_ofFn]
    exact Nat.min_le_right _ _
  · intro k r hk hr
    obtain ⟨hk10, hr⟩ := List.getElem?_eq_some_iff.mp hr
    rw [List.getElem_ofFn] at hr
    rw [← hr]
    exact h.xtc_ne (by show k < hits.length; omega)
  · intro r hr
    obtain ⟨hk10, hr⟩ := List.getElem?_eq_some_iff.mp hr
    rw [List.getElem_ofFn] at hr
    rw [List.length_ofFn] at hk10
    rw [← hr]
    exact h.xtc_eq (by show hits.length ≤ min hits.length 10; omega)

/-- **A READ** of the ring copies the last ten results. -/
theorem Rung.lastTen (h : Rung rbf hits) : LastTen (records hits) (mprobeRead rbf.rst) := by
  by_cases hn : hits = []
  · subst hn
    have h0 : 0 = (rbf.rst 0).xtc := (h.xtc_eq (j := 0) (Nat.le_refl 0)).symm
    rw [mprobeRead, if_pos h0]
    exact ⟨iff_of_true rfl rfl, fun h => absurd rfl h, rfl, nofun⟩
  · have hpos : 0 < hits.length := List.length_pos_iff.mpr hn
    have h0 : ¬ 0 = (rbf.rst 0).xtc := (h.xtc_ne (j := 0) hpos).symm
    have hne : records hits ≠ [] := by
      rw [← List.length_pos_iff, length_records]
      exact hpos
    have hlen : ((List.ofFn rbf.rst).take (min hits.length 10)).length = min hits.length 10 := by
      rw [List.length_take, List.length_ofFn]
      omega
    rw [mprobeRead, if_neg h0]
    simp only [h.scan]
    refine ⟨iff_of_false ?_ hne, fun _ => ?_, ?_, ?_⟩
    · show (32 * (min hits.length 10 : Nat) : Int) ≠ -22
      omega
    · rw [hlen]
    · rw [hlen, length_records]
    · intro k hk hk10
      obtain ⟨r, hr⟩ : ∃ r, (records hits)[k]? = some r := ⟨_, List.getElem?_eq_getElem hk⟩
      have hlt : k % 10 < 10 := Nat.mod_lt _ (by decide)
      have hslot : rbf.rst ⟨k % 10, hlt⟩ = r := h.laid.recent ⟨k % 10, hlt⟩ k r hr rfl hk10
      rw [length_records] at hk
      rw [List.getElem?_take_of_lt (by omega), hr]
      refine List.getElem?_eq_some_iff.mpr ⟨by rw [List.length_ofFn]; exact hlt, ?_⟩
      rw [List.getElem_ofFn]
      exact hslot

end Read

/-- A reader behind its section has read the ring of the hits there were then. -/
def Read (m : Mem) : Pc → Prop
  | .unlockRead out hits | .readReturn out hits =>
      LastTen (records hits) out ∧ hits <:+ m.hits
  | _ => True

section Reads
variable {t : Task} {m m' : Mem} {q q' : Pc} {a : Act}

theorem Read.grow (h : Read m q) (hm : m.hits <:+ m'.hits) : Read m' q := by
  cases q with
  | unlockRead out hits => exact ⟨h.1, h.2.trans hm⟩
  | readReturn out hits => exact ⟨h.1, h.2.trans hm⟩
  | _ => trivial

/-- No result is ever forgotten. -/
theorem exec_hits (h : exec t m q a = some (m', q')) : m.hits <:+ m'.hits := by
  rcases exec_cases h with ⟨-, h⟩ | ⟨n, req, -, -, -, rfl, -⟩ | ⟨n, -, -, -, rfl, -⟩
    | ⟨c, trap, -, -, -, -, rfl, -⟩ | ⟨w, -, rfl, -⟩
  · rcases next_rbf h with ⟨-, -, hh⟩ | ⟨trap, -, -, hh⟩
    · exact hh.symm ▸ List.suffix_refl m.hits
    · exact hh.symm ▸ List.suffix_cons _ m.hits
  all_goals exact List.suffix_refl _

theorem Read.exec (hP : Read m q) (hI : Rung m.rbf m.hits) (h : exec t m q a = some (m', q')) :
    Read m' q' := by
  have hgrow := exec_hits h
  rcases exec_cases h with ⟨-, h⟩ | ⟨n, req, -, -, -, rfl, rfl⟩ | ⟨n, -, -, -, rfl, rfl⟩
    | ⟨c, trap, -, -, -, -, rfl, rfl⟩ | ⟨w, -, rfl, rfl⟩
  · cases q with
    | readSection =>
        cases h
        exact ⟨hI.lastTen, List.suffix_refl _⟩
    | unlockRead out hits =>
        cases h
        exact hP
    | _ =>
        simp only [next] at h
        repeat' split at h
        all_goals cases h
        all_goals trivial
  · trivial
  · trivial
  · trivial
  · exact hP.grow hgrow

end Reads

/-- In every run each read ends with the last ten results of its section. -/
theorem reach_read {s : State} (h : ReachWhen Counted s) (t : Task) : Read s.mem (s.loc t) := by
  refine (Reach.modular (I := fun _ => True) (P := fun _ m q => Read m q) ?_ ?_ ?_ h).2 t
  · exact ⟨trivial, fun _ => trivial⟩
  · intro s t a m' q' hr _ _ hP he
    exact ⟨trivial, hP.exec (reach_rung hr) he⟩
  · intro s t u a m' q' _ _ _ _ _ hu he
    exact hu.grow (exec_hits he)

/-- **THE LAST TEN HITS**: after any number of hits, with writes and reads between them,
    the index is that number modulo ten, a read of the ring gets the last ten results, and
    every read that was made has got those of its moment. -/
theorem last_ten_hits {s : State} (h : ReachWhen Counted s) :
    s.mem.rbf.idx.toNat = s.mem.hits.length % 10
      ∧ LastTen (records s.mem.hits) (mprobeRead s.mem.rbf.rst)
      ∧ ∀ t out hits, s.loc t = .readReturn out hits →
          LastTen (records hits) out ∧ hits <:+ s.mem.hits := by
  have hI := reach_rung h
  refine ⟨hI.idx, hI.lastTen, fun t out hits hq => ?_⟩
  have := reach_read h t
  rwa [hq] at this

/-! ## Twelve hits and a read -/

def counted (s : State) (t : Task) (_ : Act) : Bool :=
  match s.loc t with
  | .hitSection _ => decide (s.mem.world.cycles ≠ 0)
  | _ => true

/-- The line 0x9a of a module at 0x1000. -/
def lineRequest : DebugRequest := ⟨0x9a, 8, 4, 0x3000, 0x1000⟩

/-- A probe is hit once by each of these processes. -/
def hitsBy (probe : Nat) (pids : List (BitVec 64)) : List (Task × Act) :=
  pids.flatMap fun pid =>
    (.cpu 0, .hit ⟨probe, 0x7000, 0x7020, 0x109b, pid⟩) :: List.replicate 4 (.cpu 0, .run)

/-- A probe is set and hit seven times, and set again and hit five times; and a read is about
    to return. -/
def readWrapped : State :=
  runAmong exec State.initial [.caller 0, .cpu 0] counted
    ((.caller 0, .write lineRequest) :: List.replicate 7 (Task.caller 0, Act.run)
      ++ (.cpu 0, .world ⟨5, fun a => a.setWidth 32, ⟨0, 0⟩, true, true⟩)
      :: hitsBy 0 [1, 2, 3, 4, 5, 6, 7]
      ++ (.caller 0, .write lineRequest) :: List.replicate 10 (Task.caller 0, Act.run)
      ++ hitsBy 1 [8, 9, 10, 11, 12]
      ++ (.caller 0, .read) :: List.replicate 3 (Task.caller 0, Act.run))

theorem last_ten_hits_wrapped :
    (ReachWhen Counted readWrapped ∧ readWrapped.mem.hits.length = 12
      ∧ (mprobeRead readWrapped.mem.rbf.rst).2.map DebugResult.pid
        = [11, 12, 3, 4, 5, 6, 7, 8, 9, 10])
      ∧ LastTen (records readWrapped.mem.hits) (mprobeRead readWrapped.mem.rbf.rst) := by
  have hr : ReachWhen Counted readWrapped := by
    refine Reach.of_runAmong ?_ _
    intro s t a _ hok trap hq _
    rw [counted, hq] at hok
    exact of_decide_eq_true hok
  exact ⟨⟨hr, by decide +kernel⟩, (last_ten_hits hr).2.1⟩

end Mprobe
