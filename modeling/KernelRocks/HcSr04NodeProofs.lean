import KernelRocks.HcSr04DriverProofs
import KernelRocks.KeyedListProofs

/-! # The two nodes of a device — which structure an open finds

    Every device has a misc node and a cdev node, both with `hc_sr04_fops`.
    `hc_sr04_open` walks `hcsr_list` for the minor of the node that is opened and
    compares it with the minor of the miscdevice.  The cdev node has minor 1,
    from its own major.

    * `reached_noded`: what the nodes and the list are like after any probes and
      removals, with the minors of the live miscdevices distinct.
    * `open_finds_own`: an open of the misc node finds its device; an open of the
      cdev node does so only for the device whose miscdevice has minor 1.
    * `open_finds_null`: with one device there is none. -/

namespace HcSr04Driver

open Program KeyedList

/-! ## The open -/

/-- `get_curr_hcsr`, for the minor of the inode; `NULL` is `none`. -/
def getCurrHcsr (s : St) (minor : Nat) : Option Nat :=
  lookup (fun c => (s.hcsr c).minor) s.hcsrList minor

/-- `file->private_data`.  The name of the device is printed in any case, so NULL is an
    oops. -/
def hcSr04Open (s : St) (node : Node) : Except St Nat :=
  match getCurrHcsr s node.minor with
  | none => .error s
  | some c => .ok c

/-! ## Nodes and list -/

/-- Every `hc_sr04_init` succeeds, with a minor for the miscdevice that no other one has. -/
def Distinct (s : St) : Op → Prop
  | .probe _ ans => ∃ minor major, ans.granted minor major
      ∧ ∀ n ∈ s.nodes, n.kind = .misc → n.minor ≠ minor
  | .remove _ => True

structure Noded (s : St) : Prop where
  live : s.bound = s.live
  owned : ∀ n ∈ s.nodes, n.owner ∈ s.hcsrList
  misc : ∀ n ∈ s.nodes, n.kind = .misc → n.minor = (s.hcsr n.owner).minor
  cdev : ∀ n ∈ s.nodes, n.kind = .cdev → n.minor = 1
  born : ∀ p ∈ s.hcsrList, p < s.born
  node : ∀ p ∈ s.hcsrList, ∃ n ∈ s.nodes, n.kind = .misc ∧ n.owner = p
  device : ∀ p ∈ s.hcsrList, ∃ d ∈ s.live, s.pdev d = some p
  unique : UniqueKeys (fun c => (s.hcsr c).minor) s.hcsrList

section Noded
variable {s s' : St} {d p minor major : Nat} {ans : Answers}

theorem Noded.initialised (h : Noded s) (hk : Kept s) (hd : d ∉ s.bound)
    (hfresh : ∀ n ∈ s.nodes, n.kind = .misc → n.minor ≠ minor) :
    Noded { initialised d minor major s with
      bound := d :: (HcSr04Driver.initialised d minor major s).bound } := by
  obtain ⟨-, -, -, -, -, -, hbound, -⟩ := classGet_fields s
  have hold : ∀ p ∈ s.hcsrList, ∀ x, Function.update s.hcsr s.born x p = s.hcsr p :=
    fun p hp x => Function.update_of_ne (Nat.ne_of_lt (h.born p hp)) ..
  refine ⟨?_, ?_, ?_, ?_, ?_, ?_, ?_, ?_⟩
  · show d :: (HcSr04Driver.classGet s).bound = d :: s.live
    rw [hbound, h.live]
  · intro n hn
    rcases List.mem_cons.mp hn with rfl | hn
    · exact List.mem_cons_self
    rcases List.mem_cons.mp hn with rfl | hn
    · exact List.mem_cons_self
    · exact List.mem_cons_of_mem _ (h.owned n hn)
  · intro n hn hkind
    show n.minor = (Function.update s.hcsr s.born _ n.owner).minor
    rcases List.mem_cons.mp hn with rfl | hn
    · cases hkind
    rcases List.mem_cons.mp hn with rfl | hn
    · rw [Function.update_self]
    · rw [hold _ (h.owned n hn)]
      exact h.misc n hn hkind
  · intro n hn hkind
    rcases List.mem_cons.mp hn with rfl | hn
    · rfl
    rcases List.mem_cons.mp hn with rfl | hn
    · cases hkind
    · exact h.cdev n hn hkind
  · intro p hp
    rcases List.mem_cons.mp hp with rfl | hp
    · exact Nat.lt_succ_self _
    · exact Nat.lt_succ_of_lt (h.born p hp)
  · intro p hp
    rcases List.mem_cons.mp hp with rfl | hp
    · exact ⟨_, List.mem_cons_of_mem _ List.mem_cons_self, rfl, rfl⟩
    · obtain ⟨n, hn, hof⟩ := h.node p hp
      exact ⟨n, List.mem_cons_of_mem _ (List.mem_cons_of_mem _ hn), hof⟩
  · intro p hp
    rcases List.mem_cons.mp hp with rfl | hp
    · exact ⟨d, List.mem_cons_self, Function.update_self ..⟩
    · obtain ⟨d', hd', hpd⟩ := h.device p hp
      refine ⟨d', List.mem_cons_of_mem _ hd', ?_⟩
      have hne : d' ≠ d := fun he => hd (he ▸ hk.bound d' hd')
      show Function.update s.pdev d (some s.born) d' = some p
      rw [Function.update_of_ne hne]
      exact hpd
  · refine UniqueKeys.cons (h.unique.congr fun p hp => ?_) ?_
    · show (s.hcsr p).minor = (Function.update s.hcsr s.born _ p).minor
      rw [hold p hp]
    · refine lookup_eq_none_iff.mpr fun p hp hminor => ?_
      change (Function.update s.hcsr s.born _ p).minor
        = (Function.update s.hcsr s.born _ s.born).minor at hminor
      rw [hold p hp, Function.update_self] at hminor
      -- the miscdevice of `p` is still registered with that minor
      obtain ⟨n, hn, hkind, rfl⟩ := h.node p hp
      exact hfresh n hn hkind ((h.misc n hn hkind).trans hminor)

theorem Noded.exited (h : Noded s) (hp : Made s d p) :
    Noded { exited p s with bound := s.bound.erase d, live := s.live.erase d } := by
  have hnodes : ∀ n, n ∈ s.nodes.filter (fun n => n.owner ≠ p) ↔ n ∈ s.nodes ∧ n.owner ≠ p := by
    intro n
    rw [List.mem_filter, decide_eq_true_iff]
  have hlist : ∀ c, c ∈ s.hcsrList.erase p ↔ c ≠ p ∧ c ∈ s.hcsrList :=
    fun c => h.unique.nodup.mem_erase_iff
  refine ⟨?_, ?_, ?_, ?_, ?_, ?_, ?_, h.unique.sublist List.erase_sublist⟩
  · show s.bound.erase d = s.live.erase d
    rw [h.live]
  · intro n hn
    obtain ⟨hn, ho⟩ := (hnodes n).mp hn
    exact (hlist _).mpr ⟨ho, h.owned n hn⟩
  · intro n hn hkind
    exact h.misc n ((hnodes n).mp hn).1 hkind
  · intro n hn hkind
    exact h.cdev n ((hnodes n).mp hn).1 hkind
  · intro c hc
    exact h.born c ((hlist c).mp hc).2
  · intro c hc
    obtain ⟨hne, hc⟩ := (hlist c).mp hc
    obtain ⟨n, hn, hkind, ho⟩ := h.node c hc
    exact ⟨n, (hnodes n).mpr ⟨hn, ho ▸ hne⟩, hkind, ho⟩
  · intro c hc
    obtain ⟨hne, hc⟩ := (hlist c).mp hc
    obtain ⟨d', hd', hpd⟩ := h.device c hc
    refine ⟨d', (List.mem_erase_of_ne ?_).mpr hd', hpd⟩
    rintro rfl
    exact hne (Option.some.inj (hpd.symm.trans hp.pdev))

theorem Noded.step (h : Noded s) (hk : Kept s) {o : Op} (hC : Distinct s o)
    (hs : step s o = some s') : Noded s' ∧ RemovesLive s o := by
  cases o with
  | probe d ans =>
      refine ⟨?_, trivial⟩
      rw [HcSr04Driver.step] at hs
      split at hs <;> cases hs
      rename_i hno
      obtain ⟨minor, major, rfl, hfresh⟩ := hC
      obtain ⟨k, -, hc, -⟩ := hk.classGet
      unfold driverProbe
      rw [hcSr04Init_granted hc]
      exact h.initialised hk (fun hd => hno (.inr hd)) hfresh
  | remove d =>
      rw [HcSr04Driver.step] at hs
      split at hs <;> cases hs
      rename_i hno
      have hd : d ∈ s.live := by
        rw [← h.live]
        exact not_not.mp fun hd => hno (.inr hd)
      obtain ⟨p, hp⟩ := hk.made d hd
      refine ⟨?_, hd⟩
      unfold driverRemove
      rw [hk.hcSr04Exit hd hp]
      exact h.exited hp

end Noded

/-- In every run of successful calls. -/
theorem reached_noded {s : St} (h : Reached Distinct s) : Noded s ∧ Kept s := by
  refine Between.invariant (I := fun s => Noded s ∧ Kept s) ?_ ?_ h
  · refine ⟨⟨rfl, nofun, nofun, nofun, nofun, nofun, nofun, uniqueKeys_nil⟩, ?_⟩
    exact reached_kept Between.start
  · intro s s' o hI hC hs
    obtain ⟨hn, hlive⟩ := hI.1.step hI.2 hC hs
    exact ⟨hn, hI.2.step hlive hs⟩

/-- **WHAT AN OPEN FINDS**: every node belongs to a live device, and opening it finds the
    structure of that device exactly if it is the misc node or the minor of the miscdevice
    is 1. -/
theorem open_finds_own {s : St} (h : Reached Distinct s) {n : Node} (hn : n ∈ s.nodes) :
    (∃ d ∈ s.live, s.pdev d = some n.owner)
      ∧ (hcSr04Open s n = .ok n.owner ↔ n.kind = .misc ∨ (s.hcsr n.owner).minor = 1) := by
  obtain ⟨hI, -⟩ := reached_noded h
  refine ⟨hI.device _ (hI.owned n hn), ?_⟩
  have hfind : hcSr04Open s n = .ok n.owner ↔ getCurrHcsr s n.minor = some n.owner := by
    unfold hcSr04Open
    cases getCurrHcsr s n.minor with
    | none => exact iff_of_false nofun nofun
    | some c => simp
  rw [hfind, getCurrHcsr, lookup_eq_some_iff hI.unique]
  cases hkind : n.kind with
  | misc => exact iff_of_true ⟨hI.owned n hn, (hI.misc n hn hkind).symm⟩ (.inl rfl)
  | cdev =>
      rw [hI.cdev n hn hkind]
      exact ⟨fun h => .inr h.2, fun h => ⟨hI.owned n hn, h.resolve_left nofun⟩⟩

/-! ## One device, and two -/

def distinct (s : St) : Op → Bool
  | .probe _ ⟨some minor, some _, true, true⟩ =>
      s.nodes.all fun n => decide (n.kind = .misc → n.minor ≠ minor)
  | .probe _ _ => false
  | .remove _ => true

theorem distinct_sound (s : St) (o : Op) (hok : distinct s o = true) : Distinct s o := by
  unfold distinct at hok
  split at hok
  · rename_i minor major
    refine ⟨minor, major, rfl, fun n hn => ?_⟩
    exact of_decide_eq_true (List.all_eq_true.mp hok n hn)
  · cases hok
  · trivial

/-- The first device gets the first dynamic minor, which is 63. -/
def oneDevice : St :=
  afterCalls step distinct St.initial [.probe 0 (granted 63 250)]

/-- The second gets the next minor and another major. -/
def twoDevices : St :=
  afterCalls step distinct St.initial [.probe 0 (granted 63 250), .probe 1 (granted 62 249)]

theorem open_finds_own_two :
    ((⟨.misc, 10, 63, 0⟩ : Node) ∈ twoDevices.nodes ∧ (⟨.misc, 10, 62, 1⟩ : Node) ∈ twoDevices.nodes
        ∧ (⟨.cdev, 249, 1, 1⟩ : Node) ∈ twoDevices.nodes)
      ∧ hcSr04Open twoDevices ⟨.misc, 10, 63, 0⟩ = .ok 0
      ∧ hcSr04Open twoDevices ⟨.misc, 10, 62, 1⟩ = .ok 1
      ∧ hcSr04Open twoDevices ⟨.cdev, 249, 1, 1⟩ ≠ .ok 1 := by
  have hr : Reached Distinct twoDevices := Between.start.afterCalls distinct_sound _
  have hn : (⟨.misc, 10, 63, 0⟩ : Node) ∈ twoDevices.nodes
      ∧ (⟨.misc, 10, 62, 1⟩ : Node) ∈ twoDevices.nodes
      ∧ (⟨.cdev, 249, 1, 1⟩ : Node) ∈ twoDevices.nodes := by decide
  refine ⟨hn, (open_finds_own hr hn.1).2.mpr (.inl rfl),
    (open_finds_own hr hn.2.1).2.mpr (.inl rfl), fun hopen => ?_⟩
  exact absurd ((open_finds_own hr hn.2.2).2.mp hopen) (by decide)

theorem open_finds_null :
    ¬ ∀ s, Reached Distinct s → ∀ n ∈ s.nodes, hcSr04Open s n = .ok n.owner := by
  intro h
  have hopen := h oneDevice (Between.start.afterCalls distinct_sound _) ⟨.cdev, 250, 1, 0⟩
    (by decide)
  cases hopen

end HcSr04Driver
