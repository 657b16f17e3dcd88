import KernelRocks.ProgramProofs
import Mathlib.Data.List.Basic
import Mathlib.Data.List.Nodup

/-! # The platform driver — probe, remove, and the class they share

    `HCSR_driver_probe` runs `hc_sr04_init`, which registers a miscdevice and a
    character device and creates the class HCSR for the first device;
    `HCSR_driver_remove` runs `hc_sr04_exit`, which undoes all of it and
    destroys the class behind the last device.  `class_cnt` counts.

    The kernel may refuse four of the calls in `hc_sr04_init`.  It returns early
    then, `HCSR_driver_probe` returns 0 all the same, and the device that is half
    made is removed like any other one.

    * `class_counted`: the count, the class and the list agree as long as no
      such device is removed; the first removal of one is the end of that.
    * `removed_half_made`: one device is enough.

    An early return leaves NULL pointers in the structure.  Following one is an
    oops, and nothing comes behind it.  What `hc_sr04_exit` does with the thread,
    the interrupt and the pins is in the miscdevice module. -/

namespace HcSr04Driver

open Program

/-! ## The structures -/

/-- What `class_create` returns: a class, or an error in the place of a pointer. -/
inductive ClassPtr where
  | null
  | err
  | at (n : Nat)
  deriving DecidableEq

/-- `hcsr_struct`: what is registered for the device. -/
structure Hcsr where
  /-- `hc_sr04->minor`. -/
  minor : Nat
  /-- Major and minor. -/
  devt : Nat × Nat
  /-- `hcsr_cdev` is not NULL. -/
  hcsrCdev : Bool
  hcsrClass : ClassPtr
  deriving DecidableEq

def miscDynamicMinor : Nat := 255

def miscMajor : Nat := 10

/-- After `memset`. -/
def Hcsr.zero : Hcsr := ⟨0, (0, 0), false, .null⟩

inductive NodeKind where
  | misc
  | cdev
  deriving DecidableEq

/-- A character node with `hc_sr04_fops`, and the structure it was registered for. -/
structure Node where
  kind : NodeKind
  major : Nat
  minor : Nat
  owner : Nat
  deriving DecidableEq

structure St where
  classCnt : Int
  /-- The global `HCSR_class`. -/
  hcsrClass : ClassPtr
  hcsrList : List Nat
  /-- The structure at an address, and the addresses handed out so far. -/
  hcsr : Nat → Hcsr
  born : Nat
  /-- `pplat_dev->pdev` of a device; `NULL` is `none`. -/
  pdev : Nat → Option Nat
  /-- The class HCSR that the kernel has, and the classes made so far. -/
  kernelClass : Option Nat
  classes : Nat
  nodes : List Node
  /-- The devices whose probe has returned 0 and which have not been removed. -/
  bound : List Nat
  /-- Those of them whose `hc_sr04_init` has come to its end. -/
  live : List Nat
  oops : Bool

/-- The driver has just been loaded. -/
def St.initial : St where
  classCnt := 0
  hcsrClass := .null
  hcsrList := []
  hcsr := fun _ => Hcsr.zero
  born := 0
  pdev := fun _ => none
  kernelClass := none
  classes := 0
  nodes := []
  bound := []
  live := []
  oops := false

def St.setHcsr (s : St) (p : Nat) (f : Hcsr → Hcsr) : St :=
  { s with hcsr := Function.update s.hcsr p (f (s.hcsr p)) }

/-! ## `hc_sr04_init` -/

/-- What the kernel answers to the calls of one `hc_sr04_init`. -/
structure Answers where
  /-- `misc_register`: the minor, or an error. -/
  misc : Option Nat
  /-- `alloc_chrdev_region`: the major, or an error. -/
  chrdev : Option Nat
  cdevAlloc : Bool
  cdevAdd : Bool
  deriving DecidableEq

/-- `kmalloc` and `memset` of the structure and of its miscdevice. -/
def allocHcsr (d : Nat) (s : St) : St :=
  { s with
    born := s.born + 1
    hcsr := Function.update s.hcsr s.born { Hcsr.zero with minor := miscDynamicMinor }
    pdev := Function.update s.pdev d (some s.born) }

def miscRegister (p minor : Nat) (s : St) : St :=
  { s.setHcsr p fun h => { h with minor := minor } with
    nodes := ⟨.misc, miscMajor, minor, p⟩ :: s.nodes }

def cdevAdd (p : Nat) (s : St) : St :=
  { s with nodes := ⟨.cdev, (s.hcsr p).devt.1, (s.hcsr p).devt.2, p⟩ :: s.nodes }

/-- A second class of that name is refused. -/
def classCreate (s : St) : St :=
  match s.kernelClass with
  | some _ => { s with hcsrClass := .err }
  | none =>
      { s with
        hcsrClass := .at s.classes
        kernelClass := some s.classes
        classes := s.classes + 1 }

def classGet (s : St) : St :=
  let s := if 0 = s.classCnt then classCreate s else s
  { s with classCnt := s.classCnt + 1 }

/-- The class and the list; the other fields are in the miscdevice module. -/
def initHcsrStruct (p : Nat) (s : St) : St :=
  { s.setHcsr p fun h => { h with hcsrClass := s.hcsrClass } with
    hcsrList := p :: s.hcsrList }

/-- `device_create` and the attributes: without a class the device is an error, and the
    attributes are created in it. -/
def deviceCreate (p : Nat) (s : St) : Except St St :=
  match (s.hcsr p).hcsrClass with
  | .at _ => .ok s
  | _ => .error s

/-- What it returns, or the state of an oops. -/
def hcSr04Init (d : Nat) (ans : Answers) (s : St) : Except St (Int × St) :=
  let p := s.born
  let s := allocHcsr d s
  match ans.misc with
  | none => .ok (0, s)
  | some minor =>
      let s := miscRegister p minor s
      match ans.chrdev with
      | none => .ok (-1, s)
      | some major =>
          let s := s.setHcsr p fun h => { h with devt := (major, 1) }
          if ¬ ans.cdevAlloc then .ok (-1, s)
          else
            let s := s.setHcsr p fun h => { h with hcsrCdev := true }
            if ¬ ans.cdevAdd then .ok (-1, s)
            else do
              let s := cdevAdd p s
              let s := classGet s
              let s := initHcsrStruct p s
              let s ← deviceCreate p s
              return (0, { s with live := d :: s.live })

/-! ## `hc_sr04_exit` -/

def classDestroy (c : ClassPtr) (s : St) : Except St St :=
  match c with
  | .at n => if s.kernelClass = some n then .ok { s with kernelClass := none } else .error s
  | _ => .ok s

def classPut (p : Nat) (s : St) : Except St St :=
  let s := { s with classCnt := s.classCnt - 1 }
  if s.classCnt = 0 then classDestroy (s.hcsr p).hcsrClass s else .ok s

/-- The node of a kind that was registered for a structure. -/
def Node.of (n : Node) (kind : NodeKind) (p : Nat) : Bool := n.kind = kind && n.owner = p

def cdevDel (p : Nat) (s : St) : Except St St :=
  if (s.hcsr p).hcsrCdev then .ok { s with nodes := s.nodes.filter fun n => !n.of .cdev p }
  else .error s

/-- A miscdevice that is not registered is in no list, and its links are NULL. -/
def miscDeregister (p : Nat) (s : St) : Except St St :=
  if s.nodes.any fun n => n.of .misc p then
    .ok { s with nodes := s.nodes.filter fun n => !n.of .misc p }
  else .error s

/-- `list_del`, with NULL links if the structure is not in the list. -/
def uninitHcsrStruct (p : Nat) (s : St) : Except St St :=
  if p ∈ s.hcsrList then .ok { s with hcsrList := s.hcsrList.erase p } else .error s

def hcSr04Exit (d : Nat) (s : St) : Except St St :=
  match s.pdev d with
  | none => .error s
  | some p => do
      let s ← classPut p s
      let s ← cdevDel p s
      let s ← miscDeregister p s
      uninitHcsrStruct p s

/-! ## The driver -/

def driverProbe (d : Nat) (ans : Answers) (s : St) : St :=
  match hcSr04Init d ans s with
  -- whatever `hc_sr04_init` returned
  | .ok (_, s) => { s with bound := d :: s.bound }
  | .error s => { s with oops := true }

def driverRemove (d : Nat) (s : St) : St :=
  match hcSr04Exit d s with
  | .ok s => { s with bound := s.bound.erase d, live := s.live.erase d }
  | .error s => { s with bound := s.bound.erase d, live := s.live.erase d, oops := true }

inductive Op where
  | probe (d : Nat) (ans : Answers)
  | remove (d : Nat)
  deriving DecidableEq

/-- The platform bus probes a device that is not bound, and removes one that is. -/
def step (s : St) : Op → Option St
  | .probe d ans => if s.oops ∨ d ∈ s.bound then none else some (driverProbe d ans s)
  | .remove d => if s.oops ∨ d ∉ s.bound then none else some (driverRemove d s)

abbrev Reached (C : St → Op → Prop) : St → Prop :=
  Between (fun o s s' => step s o = some s') C St.initial

/-! ## What a probe does -/

/-- The four calls all succeed. -/
def Answers.granted (ans : Answers) (minor major : Nat) : Prop :=
  ans = ⟨some minor, some major, true, true⟩

/-- The structure of a device whose `hc_sr04_init` has come to its end. -/
def initialised (d minor major : Nat) (s : St) : St :=
  { classGet s with
    born := s.born + 1
    hcsr := Function.update s.hcsr s.born ⟨minor, (major, 1), true, (classGet s).hcsrClass⟩
    pdev := Function.update s.pdev d (some s.born)
    nodes := ⟨.cdev, major, 1, s.born⟩ :: ⟨.misc, miscMajor, minor, s.born⟩ :: s.nodes
    hcsrList := s.born :: s.hcsrList
    live := d :: s.live }

/-- An early return: a structure has been made, and perhaps nodes, and nothing counts it. -/
structure Early (d : Nat) (s s' : St) : Prop where
  classCnt : s'.classCnt = s.classCnt
  hcsrClass : s'.hcsrClass = s.hcsrClass
  hcsrList : s'.hcsrList = s.hcsrList
  kernelClass : s'.kernelClass = s.kernelClass
  live : s'.live = s.live
  bound : s'.bound = s.bound
  oops : s'.oops = s.oops
  born : s'.born = s.born + 1
  pdev : s'.pdev = Function.update s.pdev d (some s.born)
  hcsr : ∀ p, p ≠ s.born → s'.hcsr p = s.hcsr p
  nodes : ∀ n ∈ s.nodes, n ∈ s'.nodes

section Probe
variable {s : St} {d minor major : Nat} {ans : Answers}

theorem classGet_fields (s : St) :
    (classGet s).classCnt = s.classCnt + 1 ∧ (classGet s).born = s.born
      ∧ (classGet s).hcsr = s.hcsr ∧ (classGet s).nodes = s.nodes
      ∧ (classGet s).hcsrList = s.hcsrList ∧ (classGet s).live = s.live
      ∧ (classGet s).bound = s.bound ∧ (classGet s).oops = s.oops := by
  unfold classGet classCreate
  split
  · split <;> exact ⟨rfl, rfl, rfl, rfl, rfl, rfl, rfl, rfl⟩
  · exact ⟨rfl, rfl, rfl, rfl, rfl, rfl, rfl, rfl⟩

/-- With the class there, `hc_sr04_init` comes to its end. -/
theorem hcSr04Init_granted {k : Nat} (hcls : (classGet s).hcsrClass = .at k) :
    hcSr04Init d ⟨some minor, some major, true, true⟩ s
      = .ok (0, initialised d minor major s) := by
  unfold classGet classCreate at hcls
  split at hcls
  · rename_i h0
    split at hcls
    · cases hcls
    · rename_i hk
      simp [hcSr04Init, allocHcsr, miscRegister, St.setHcsr, cdevAdd, classGet, classCreate,
        initHcsrStruct, deviceCreate, initialised, ← h0, hk, Hcsr.zero, bind, Except.bind, pure,
        Except.pure]
  · rename_i h0
    simp [hcSr04Init, allocHcsr, miscRegister, St.setHcsr, cdevAdd, classGet, h0, initHcsrStruct,
      deviceCreate, initialised, Hcsr.zero, hcls, bind, Except.bind, pure, Except.pure]

/-- Otherwise it returns early. -/
theorem hcSr04Init_refused (h : ∀ minor major, ¬ ans.granted minor major) :
    ∃ r s', hcSr04Init d ans s = .ok (r, s') ∧ Early d s s' := by
  obtain ⟨misc, chrdev, alloc, add⟩ := ans
  have other {x : Hcsr} {p : Nat} (hp : p ≠ s.born) :
      Function.update s.hcsr s.born x p = s.hcsr p :=
    Function.update_of_ne hp x s.hcsr
  cases misc with
  | none =>
      exact ⟨0, _, rfl, rfl, rfl, rfl, rfl, rfl, rfl, rfl, rfl, rfl, fun p hp => other hp,
        fun _ hn => hn⟩
  | some minor =>
      have cons {n : Node} : ∀ m ∈ s.nodes, m ∈ n :: s.nodes :=
        fun m hm => List.mem_cons_of_mem _ hm
      cases chrdev with
      | none =>
          refine ⟨-1, _, rfl, rfl, rfl, rfl, rfl, rfl, rfl, rfl, rfl, rfl, fun p hp => ?_, cons⟩
          simp [miscRegister, St.setHcsr, allocHcsr, other hp]
      | some major =>
          cases alloc with
          | false =>
              refine ⟨-1, _, rfl, rfl, rfl, rfl, rfl, rfl, rfl, rfl, rfl, rfl, fun p hp => ?_, cons⟩
              simp [miscRegister, St.setHcsr, allocHcsr, other hp]
          | true =>
              cases add with
              | false =>
                  refine ⟨-1, _, rfl, rfl, rfl, rfl, rfl, rfl, rfl, rfl, rfl, rfl,
                    fun p hp => ?_, cons⟩
                  simp [miscRegister, St.setHcsr, allocHcsr, other hp]
              | true => exact absurd rfl (h minor major)

end Probe

/-! ## The count -/

/-- The count, the class and the list agree, and nothing has gone wrong. -/
structure Counted (s : St) : Prop where
  cnt : s.classCnt = s.live.length
  exist : s.kernelClass ≠ none ↔ 0 < s.classCnt
  listed : ∀ d ∈ s.live, ∃ p, s.pdev d = some p ∧ p ∈ s.hcsrList
  unlinks : s.oops = false

/-- Only a device whose `hc_sr04_init` has come to its end is removed. -/
def RemovesLive (s : St) : Op → Prop
  | .probe _ _ => True
  | .remove d => d ∈ s.live

/-- What is registered for a live device. -/
structure Made (s : St) (d p : Nat) : Prop where
  pdev : s.pdev d = some p
  born : p < s.born
  listed : p ∈ s.hcsrList
  cdev : (s.hcsr p).hcsrCdev = true
  misc : ∃ n ∈ s.nodes, n.of .misc p = true
  cls : (s.hcsr p).hcsrClass = s.hcsrClass

structure Kept (s : St) : Prop where
  oops : s.oops = false
  cnt : s.classCnt = s.live.length
  nodup : s.live.Nodup
  bound : ∀ d ∈ s.live, d ∈ s.bound
  gone : s.live = [] → s.kernelClass = none
  here : s.live ≠ [] → ∃ k, s.kernelClass = some k ∧ s.hcsrClass = .at k
  made : ∀ d ∈ s.live, ∃ p, Made s d p
  inj : ∀ d ∈ s.live, ∀ d' ∈ s.live, s.pdev d = s.pdev d' → d = d'

section Kept
variable {s s' : St} {d p : Nat} {ans : Answers}

theorem Kept.counted (h : Kept s) : Counted s where
  cnt := h.cnt
  exist := by
    rw [h.cnt]
    by_cases hl : s.live = []
    · rw [h.gone hl, hl]
      exact iff_of_false (fun hn => hn rfl) (Int.lt_irrefl 0)
    · obtain ⟨k, hk, -⟩ := h.here hl
      rw [hk]
      refine iff_of_true nofun ?_
      exact Int.natCast_pos.mpr (List.length_pos_iff.mpr hl)
  listed d hd := by
    obtain ⟨p, hp⟩ := h.made d hd
    exact ⟨p, hp.pdev, hp.listed⟩
  unlinks := h.oops

/-- The other devices of a probe. -/
theorem Made.begun (h : Made s d p) {d₀ : Nat} (hd : d ≠ d₀)
    (hpdev : s'.pdev = Function.update s.pdev d₀ (some s.born)) (hborn : s'.born = s.born + 1)
    (hhcsr : ∀ p, p ≠ s.born → s'.hcsr p = s.hcsr p) (hlist : ∀ p ∈ s.hcsrList, p ∈ s'.hcsrList)
    (hnodes : ∀ n ∈ s.nodes, n ∈ s'.nodes) (hcls : s'.hcsrClass = s.hcsrClass) : Made s' d p := by
  have hp : p ≠ s.born := Nat.ne_of_lt h.born
  obtain ⟨n, hn, hof⟩ := h.misc
  refine ⟨?_, ?_, hlist p h.listed, ?_, ⟨n, hnodes n hn, hof⟩, ?_⟩
  · rw [hpdev, Function.update_of_ne hd]
    exact h.pdev
  · rw [hborn]
    exact Nat.lt_succ_of_lt h.born
  · rw [hhcsr p hp]
    exact h.cdev
  · rw [hhcsr p hp, hcls]
    exact h.cls

theorem Kept.early (h : Kept s) (hd : d ∉ s.bound) (he : Early d s s') :
    Kept { s' with bound := d :: s'.bound } := by
  have hne : ∀ d' ∈ s.live, d' ≠ d := fun d' hd' he => hd (he ▸ h.bound d' hd')
  refine ⟨he.oops.trans h.oops, ?_, ?_, ?_, ?_, ?_, ?_, ?_⟩
  · show s'.classCnt = s'.live.length
    rw [he.classCnt, he.live]
    exact h.cnt
  · show s'.live.Nodup
    rw [he.live]
    exact h.nodup
  · intro d' hd'
    change d' ∈ s'.live at hd'
    rw [he.live] at hd'
    show d' ∈ d :: s'.bound
    rw [he.bound]
    exact List.mem_cons_of_mem _ (h.bound d' hd')
  · show s'.live = [] → s'.kernelClass = none
    rw [he.live, he.kernelClass]
    exact h.gone
  · show s'.live ≠ [] → ∃ k, s'.kernelClass = some k ∧ s'.hcsrClass = .at k
    rw [he.live, he.kernelClass, he.hcsrClass]
    exact h.here
  · intro d' hd'
    change d' ∈ s'.live at hd'
    rw [he.live] at hd'
    obtain ⟨p, hp⟩ := h.made d' hd'
    refine ⟨p, hp.begun (hne d' hd') he.pdev he.born he.hcsr ?_ he.nodes he.hcsrClass⟩
    show ∀ p ∈ s.hcsrList, p ∈ s'.hcsrList
    rw [he.hcsrList]
    exact fun _ hp => hp
  · show ∀ d₁ ∈ s'.live, ∀ d₂ ∈ s'.live, s'.pdev d₁ = s'.pdev d₂ → d₁ = d₂
    rw [he.live, he.pdev]
    intro d₁ h₁ d₂ h₂ heq
    rw [Function.update_of_ne (hne d₁ h₁), Function.update_of_ne (hne d₂ h₂)] at heq
    exact h.inj d₁ h₁ d₂ h₂ heq

/-- The class of a device that is initialised: a new one, or that of the others. -/
theorem Kept.classGet (h : Kept s) :
    ∃ k, (classGet s).kernelClass = some k ∧ (classGet s).hcsrClass = .at k
      ∧ (s.live ≠ [] → (HcSr04Driver.classGet s).hcsrClass = s.hcsrClass) := by
  unfold HcSr04Driver.classGet
  by_cases hl : s.live = []
  · have h0 : 0 = s.classCnt := by
      rw [h.cnt, hl]
      rfl
    rw [if_pos h0]
    unfold classCreate
    rw [h.gone hl]
    exact ⟨s.classes, rfl, rfl, fun hne => absurd hl hne⟩
  · have h0 : ¬ 0 = s.classCnt := by
      rw [h.cnt]
      have := List.length_pos_iff.mpr hl
      omega
    rw [if_neg h0]
    obtain ⟨k, hk, hc⟩ := h.here hl
    exact ⟨k, hk, hc, fun _ => rfl⟩

theorem Kept.initialised (h : Kept s) (hd : d ∉ s.bound) (minor major : Nat) :
    Kept { initialised d minor major s with
      bound := d :: (HcSr04Driver.initialised d minor major s).bound } := by
  obtain ⟨hcnt, -, -, -, -, -, hbound, hoops⟩ := classGet_fields s
  obtain ⟨k, hk, hc, hsame⟩ := h.classGet
  have hne : ∀ d' ∈ s.live, d' ≠ d := fun d' hd' he => hd (he ▸ h.bound d' hd')
  have hother : ∀ d' ∈ s.live, Function.update s.pdev d (some s.born) d' = s.pdev d' :=
    fun d' hd' => Function.update_of_ne (hne d' hd') ..
  -- the structures of the others are older
  have hold : ∀ d' ∈ s.live, s.pdev d' ≠ some s.born := by
    intro d' hd' he
    obtain ⟨p, hp⟩ := h.made d' hd'
    have : p = s.born := Option.some.inj (hp.pdev.symm.trans he)
    exact Nat.ne_of_lt hp.born this
  refine ⟨hoops.trans h.oops, ?_, ?_, ?_, nofun, fun _ => ⟨k, hk, hc⟩, ?_, ?_⟩
  · show (HcSr04Driver.classGet s).classCnt = ((s.live.length + 1 : Nat) : Int)
    rw [hcnt, h.cnt]
    rfl
  · exact List.nodup_cons.mpr ⟨fun hmem => hd (h.bound d hmem), h.nodup⟩
  · intro d' hd'
    show d' ∈ d :: (HcSr04Driver.classGet s).bound
    rw [hbound]
    rcases List.mem_cons.mp hd' with rfl | hd'
    · exact List.mem_cons_self
    · exact List.mem_cons_of_mem _ (h.bound d' hd')
  · intro d' hd'
    rcases List.mem_cons.mp hd' with rfl | hd'
    · refine ⟨s.born, Function.update_self .., Nat.lt_succ_self _, List.mem_cons_self, ?_, ?_, ?_⟩
      · show (Function.update s.hcsr s.born _ s.born).hcsrCdev = true
        rw [Function.update_self]
      · refine ⟨_, List.mem_cons_of_mem _ List.mem_cons_self, ?_⟩
        simp [Node.of]
      · show (Function.update s.hcsr s.born _ s.born).hcsrClass = _
        rw [Function.update_self]
        rfl
    · obtain ⟨p, hp⟩ := h.made d' hd'
      refine ⟨p, hp.begun (hne d' hd') rfl rfl ?_ ?_ ?_ ?_⟩
      · exact fun p hp => Function.update_of_ne hp ..
      · exact fun _ => List.mem_cons_of_mem _
      · exact fun _ hn => List.mem_cons_of_mem _ (List.mem_cons_of_mem _ hn)
      · exact hsame (List.ne_nil_of_mem hd')
  · show ∀ d₁ ∈ d :: s.live, ∀ d₂ ∈ d :: s.live, Function.update s.pdev d (some s.born) d₁
      = Function.update s.pdev d (some s.born) d₂ → d₁ = d₂
    intro d₁ hm₁ d₂ hm₂ heq
    rcases List.mem_cons.mp hm₁ with rfl | h₁ <;> rcases List.mem_cons.mp hm₂ with rfl | h₂
    · rfl
    · rw [Function.update_self, hother d₂ h₂] at heq
      exact absurd heq.symm (hold d₂ h₂)
    · rw [Function.update_self, hother d₁ h₁] at heq
      exact absurd heq (hold d₁ h₁)
    · rw [hother d₁ h₁, hother d₂ h₂] at heq
      exact h.inj d₁ h₁ d₂ h₂ heq

/-- A probe never does harm by itself. -/
theorem Kept.driverProbe (h : Kept s) (hd : d ∉ s.bound) : Kept (driverProbe d ans s) := by
  unfold HcSr04Driver.driverProbe
  by_cases hg : ∃ minor major, ans.granted minor major
  · obtain ⟨minor, major, rfl⟩ := hg
    obtain ⟨k, -, hc, -⟩ := h.classGet
    rw [hcSr04Init_granted hc]
    exact h.initialised hd minor major
  · have hno : ∀ minor major, ¬ ans.granted minor major :=
      fun minor major he => hg ⟨minor, major, he⟩
    obtain ⟨r, s', hr, he⟩ := hcSr04Init_refused (d := d) (s := s) hno
    rw [hr]
    exact h.early hd he

/-! ## What a removal does -/

/-- The state behind the `hc_sr04_exit` of a live device. -/
def exited (p : Nat) (s : St) : St :=
  { s with
    classCnt := s.classCnt - 1
    kernelClass := if s.classCnt = 1 then none else s.kernelClass
    nodes := s.nodes.filter fun n => n.owner ≠ p
    hcsrList := s.hcsrList.erase p }

theorem filter_of (l : List Node) (p : Nat) :
    (l.filter fun n => !n.of .cdev p).filter (fun n => !n.of .misc p)
      = l.filter fun n => n.owner ≠ p := by
  rw [List.filter_filter]
  refine List.filter_congr fun n _ => ?_
  obtain ⟨kind, major, minor, owner⟩ := n
  cases kind <;> by_cases ho : owner = p <;> simp [Node.of, ho]

theorem Kept.hcSr04Exit (h : Kept s) (hd : d ∈ s.live) (hp : Made s d p) :
    hcSr04Exit d s = .ok (exited p s) := by
  obtain ⟨k, hk, hc⟩ := h.here (List.ne_nil_of_mem hd)
  have hcls : (s.hcsr p).hcsrClass = .at k := hp.cls.trans hc
  have hput : classPut p s = .ok { s with
      classCnt := s.classCnt - 1
      kernelClass := if s.classCnt = 1 then none else s.kernelClass } := by
    unfold classPut
    by_cases h1 : s.classCnt = 1
    · simp [h1, hcls, classDestroy, hk]
    · have h0 : ¬ s.classCnt - 1 = 0 := by omega
      simp [h1, h0]
  have hmisc : (s.nodes.filter fun n => !n.of .cdev p).any (fun n => n.of .misc p) = true := by
    obtain ⟨n, hn, hof⟩ := hp.misc
    refine List.any_eq_true.mpr ⟨n, List.mem_filter.mpr ⟨hn, ?_⟩, hof⟩
    obtain ⟨kind, major, minor, owner⟩ := n
    cases kind <;> simp_all [Node.of]
  simp only [HcSr04Driver.hcSr04Exit, hp.pdev, hput, bind, Except.bind, cdevDel, hp.cdev, if_true,
    miscDeregister, hmisc, uninitHcsrStruct, hp.listed, filter_of]
  rfl

theorem Kept.driverRemove (h : Kept s) (hd : d ∈ s.live) : Kept (driverRemove d s) := by
  obtain ⟨p, hp⟩ := h.made d hd
  unfold HcSr04Driver.driverRemove
  rw [h.hcSr04Exit hd hp]
  have hlen : (s.live.erase d).length = s.live.length - 1 := List.length_erase_of_mem hd
  have hpos : 0 < s.live.length := List.length_pos_of_mem hd
  have hone : s.classCnt = 1 ↔ s.live.erase d = [] := by
    rw [h.cnt, ← List.length_eq_zero_iff, hlen]
    omega
  refine ⟨h.oops, ?_, h.nodup.erase d, ?_, ?_, ?_, ?_, ?_⟩
  · show s.classCnt - 1 = ((s.live.erase d).length : Int)
    rw [h.cnt, hlen]
    omega
  · intro d' hd'
    obtain ⟨hne, hmem⟩ := h.nodup.mem_erase_iff.mp hd'
    exact (List.mem_erase_of_ne hne).mpr (h.bound d' hmem)
  · intro hnil
    exact if_pos (hone.mpr hnil)
  · intro hnil
    obtain ⟨k, hk, hc⟩ := h.here (List.ne_nil_of_mem hd)
    refine ⟨k, ?_, hc⟩
    show (if s.classCnt = 1 then none else s.kernelClass) = some k
    rw [if_neg fun h1 => hnil (hone.mp h1)]
    exact hk
  · intro d' hd'
    obtain ⟨hne, hmem⟩ := h.nodup.mem_erase_iff.mp hd'
    obtain ⟨p', hp'⟩ := h.made d' hmem
    have hpp : p' ≠ p := by
      rintro rfl
      exact hne (h.inj d' hmem d hd (hp'.pdev.trans hp.pdev.symm))
    obtain ⟨n, hn, hof⟩ := hp'.misc
    refine ⟨p', hp'.pdev, hp'.born, (List.mem_erase_of_ne hpp).mpr hp'.listed, hp'.cdev,
      ⟨n, List.mem_filter.mpr ⟨hn, ?_⟩, hof⟩, hp'.cls⟩
    have ho : n.owner = p' := of_decide_eq_true (Bool.and_eq_true_iff.mp hof).2
    rw [ho]
    exact decide_eq_true hpp
  · intro d₁ h₁ d₂ h₂ heq
    exact h.inj d₁ (List.mem_of_mem_erase h₁) d₂ (List.mem_of_mem_erase h₂) heq

/-- A call that comes to its end has counted down by `n`. -/
def Downs (n : Int) (s s' : St) : Prop := s'.classCnt = s.classCnt - n ∧ s'.live = s.live

theorem downs_bind {x : Except St St} {f : St → Except St St} {n : Int}
    (h : (do let s ← x; f s) = .ok s') (hx : ∀ s₁, x = .ok s₁ → Downs n s s₁)
    (hf : ∀ s₁, f s₁ = .ok s' → Downs 0 s₁ s') : Downs n s s' := by
  cases hx' : x with
  | error e =>
      rw [hx'] at h
      cases h
  | ok s₁ =>
      rw [hx'] at h
      obtain ⟨hc, hl⟩ := hx s₁ hx'
      obtain ⟨hc', hl'⟩ := hf s₁ h
      exact ⟨by rw [hc', hc]; omega, hl'.trans hl⟩

theorem downs_classPut (h : classPut p s = .ok s') : Downs 1 s s' := by
  simp only [classPut, classDestroy] at h
  repeat' split at h
  all_goals cases h
  all_goals exact ⟨rfl, rfl⟩

theorem downs_cdevDel (h : cdevDel p s = .ok s') : Downs 0 s s' := by
  unfold cdevDel at h
  split at h <;> cases h
  exact ⟨(Int.sub_zero _).symm, rfl⟩

theorem downs_miscDeregister (h : miscDeregister p s = .ok s') : Downs 0 s s' := by
  unfold miscDeregister at h
  split at h <;> cases h
  exact ⟨(Int.sub_zero _).symm, rfl⟩

theorem downs_uninit (h : uninitHcsrStruct p s = .ok s') : Downs 0 s s' := by
  unfold uninitHcsrStruct at h
  split at h <;> cases h
  exact ⟨(Int.sub_zero _).symm, rfl⟩

/-- Whatever was made of the device, its removal counts down. -/
theorem downs_hcSr04Exit (h : hcSr04Exit d s = .ok s') : Downs 1 s s' := by
  unfold HcSr04Driver.hcSr04Exit at h
  cases hp : s.pdev d with
  | none =>
      rw [hp] at h
      cases h
  | some p =>
      rw [hp] at h
      refine downs_bind h (fun _ => downs_classPut) fun s₁ h₁ => ?_
      refine downs_bind h₁ (fun _ => downs_cdevDel) fun s₂ h₂ => ?_
      exact downs_bind h₂ (fun _ => downs_miscDeregister) fun s₃ h₃ => downs_uninit h₃

/-- The removal of a device that is half made is counted, or does not come to its end. -/
theorem not_counted_of_remove (h : Counted s) (hd : d ∉ s.live) :
    ¬ Counted (HcSr04Driver.driverRemove d s) := by
  unfold HcSr04Driver.driverRemove
  intro hc
  cases he : HcSr04Driver.hcSr04Exit d s with
  | error s' =>
      rw [he] at hc
      cases hc.unlinks
  | ok s' =>
      rw [he] at hc
      obtain ⟨hcnt, hlive⟩ := downs_hcSr04Exit he
      have := hc.cnt
      change s'.classCnt = ((s'.live.erase d).length : Int) at this
      rw [hlive, List.erase_of_not_mem hd, hcnt, h.cnt] at this
      omega

end Kept

section Runs
variable {s s' : St} {o : Op}

theorem Kept.step (h : Kept s) (hC : RemovesLive s o) (hs : step s o = some s') : Kept s' := by
  cases o with
  | probe d ans =>
      rw [HcSr04Driver.step] at hs
      split at hs <;> cases hs
      rename_i hno
      exact h.driverProbe fun hd => hno (.inr hd)
  | remove d =>
      rw [HcSr04Driver.step] at hs
      split at hs <;> cases hs
      exact h.driverRemove hC

/-- In every run without such a removal. -/
theorem reached_kept (h : Reached RemovesLive s) : Kept s := by
  refine Between.invariant (I := Kept) ?_ ?_ h
  · exact ⟨rfl, rfl, List.nodup_nil, nofun, fun _ => rfl, fun hne => absurd rfl hne, nofun, nofun⟩
  · intro s s' o hI hC hs
    exact hI.step hC hs

end Runs

/-- **THE CLASS IS COUNTED**: in a run where only devices are removed whose `hc_sr04_init`
    has come to its end, and whatever is done next it stays so unless it is the removal of
    another one. -/
theorem class_counted {s : St} (h : Reached RemovesLive s) :
    Counted s ∧ ∀ o s', step s o = some s' → (Counted s' ↔ RemovesLive s o) := by
  have hk := reached_kept h
  refine ⟨hk.counted, fun o s' hs => ⟨fun hc => ?_, fun hC => (hk.step hC hs).counted⟩⟩
  cases o with
  | probe d ans => trivial
  | remove d =>
      by_contra hd
      rw [step] at hs
      split at hs <;> cases hs
      exact not_counted_of_remove hk.counted hd hc

/-! ## Two devices, and one that is half made -/

def granted (minor major : Nat) : Answers := ⟨some minor, some major, true, true⟩

/-- `misc_register` fails. -/
def refused : Answers := ⟨none, none, false, false⟩

def removesLive (s : St) : Op → Bool
  | .probe _ _ => true
  | .remove d => decide (d ∈ s.live)

/-- Two of three devices are made, and one of these is removed. -/
def oneLeft : St :=
  afterCalls step removesLive St.initial
    [.probe 0 (granted 63 250), .probe 1 refused, .probe 2 (granted 62 251), .remove 0]

theorem class_counted_left :
    (Reached RemovesLive oneLeft ∧ oneLeft.live = [2] ∧ oneLeft.bound = [2, 1])
      ∧ Counted oneLeft := by
  have hr : Reached RemovesLive oneLeft := by
    refine Between.start.afterCalls ?_ _
    intro s o hok
    cases o with
    | probe d ans => trivial
    | remove d => exact (of_decide_eq_true hok : d ∈ s.live)
  exact ⟨⟨hr, by decide⟩, (class_counted hr).1⟩

/-- `misc_register` fails in the only probe, and the device is removed. -/
def halfMade : St :=
  afterCalls step (fun _ _ => true) St.initial [.probe 0 refused, .remove 0]

theorem removed_half_made : ¬ ∀ s, Reached (fun _ _ => True) s → Counted s := by
  intro h
  have hr : Reached (fun _ _ => True) halfMade :=
    Between.start.afterCalls (fun _ _ _ => trivial) _
  have hcnt := (h halfMade hr).cnt
  exact absurd hcnt (by decide)

end HcSr04Driver
