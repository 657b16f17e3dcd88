import KernelRocks.MprobeMachineProofs

/-! # mprobe — the probe that is set, and whose request it serves

    A write replaces the probe in steps that no lock covers: it tests `kp`,
    unregisters and forgets the old probe, makes a new one, stores the request,
    registers.  WINDOW: from the test of `kp` to the end of `register_kprobe`.

    * `reach_tidy`: in a run where no write tests `kp` inside the window of
      another, the registered probe is the one `kp` names, and `rbf.req` is the
      request it was registered for as long as one of its handlers runs.
    * `one_probe`: so at most one probe is registered, and none is forgotten.
    * `two_probes`: two writes that cross leave two, and `kp` names one of them.
    * `hits_own_request`: each result was read with the offsets of the request
      that the probe was set for, whatever `register_kprobe` answers; and the
      results are what the sections have stored (`record_in_ring`). -/

namespace Mprobe

open Interleaving

/-! ## The window -/

/-- A write between its test of `kp` and the end of `register_kprobe`. -/
def Pc.replaces : Pc → Bool
  | .unregister _ | .unregisterWait _ _ | .destroyKp _ | .kmalloc _ | .initKp _ | .lockReq _
  | .storeReq _ | .unlockReq _ | .registerKp _ => true
  | _ => false

/-- No write tests `kp` inside the window of another, and no request is for address 0. -/
structure Apart (s : State) (t : Task) (a : Act) : Prop where
  alone : ∀ req, s.loc t = .testKp req → a = .run → ∀ u, (s.loc u).replaces = false
  addr : ∀ req, a = .write req → req.addr ≠ 0

/-- No request is for address 0, and every `register_kprobe` succeeds. -/
structure Granted (s : State) (t : Task) (a : Act) : Prop where
  addr : ∀ req, a = .write req → req.addr ≠ 0
  registers : ∀ req, s.loc t = .registerKp req → a = .run → s.mem.world.registers = true

structure Succeeding (s : State) (t : Task) (a : Act) : Prop extends Apart s t a, Granted s t a

/-! ## What is known in every state -/

/-- The request in `rbf` is the one `p` was registered for. -/
def Serves (m : Mem) (p : Nat) : Prop :=
  ∃ r ∈ m.registrations, r.probe = p ∧ r.req = m.rbf.req

/-- The result was computed from the request its probe was registered for. -/
def Own (m : Mem) (h : Hit) : Prop :=
  ∃ r ∈ m.registrations, r.probe = h.trap.probe ∧ h.record = result r.req h.trap h.world

structure Sound (m : Mem) : Prop where
  named : ∀ p, m.armed p = true → m.kp = some p
  serves : ∀ p, m.armed p = true → Serves m p
  running : ∀ x ∈ m.running, Serves m x.2
  addr : ∀ r ∈ m.registrations, r.addr = r.req.addr ∧ r.probe < m.born
  once : ∀ r ∈ m.registrations, ∀ r' ∈ m.registrations, r.probe = r'.probe → r = r'
  hits : ∀ h ∈ m.hits, Own m h

/-- Outside every window. -/
structure Rest (m : Mem) : Prop where
  running : ∀ x ∈ m.running, m.armed x.2 = true
  symbol : ∀ p, m.kp = some p → (m.kprobe p).symbolName = 0

/-- No probe, and no handler. -/
structure Calm (m : Mem) : Prop where
  armed : ∀ p, m.armed p = false
  running : m.running = []

/-- The new probe is made and not yet registered. -/
def Ready (req : DebugRequest) (m : Mem) : Prop :=
  ∃ p, m.kp = some p ∧ p < m.born ∧ m.kprobe p = ⟨req.addr, 0⟩
    ∧ ∀ r ∈ m.registrations, r.probe ≠ p

/-- What is known at a place. -/
def Stage (t : Task) : Pc → Mem → Prop
  | .testKp req, _ => req.addr ≠ 0
  | .unregister req, m => req.addr ≠ 0 ∧ m.kp ≠ none ∧ Rest m
  | .unregisterWait req p, m => req.addr ≠ 0 ∧ (m.kp = some p ∧ (m.kprobe p).symbolName = 0)
      ∧ (∀ p', m.armed p' = false) ∧ ∀ x ∈ m.running, x.2 = p
  | .destroyKp req, m => req.addr ≠ 0
      ∧ (∃ p, m.kp = some p ∧ (m.kprobe p).symbolName = 0) ∧ Calm m
  | .kmalloc req, m => req.addr ≠ 0 ∧ m.kp = none ∧ Calm m
  | .initKp req, m => req.addr ≠ 0
      ∧ (∀ p, m.kp = some p → p < m.born ∧ ∀ r ∈ m.registrations, r.probe ≠ p) ∧ Calm m
  | .lockReq req, m | .storeReq req, m => Ready req m ∧ Calm m
  | .unlockReq req, m | .registerKp req, m => Ready req m ∧ Calm m ∧ m.rbf.req = req
  | .lockHit trap, m | .hitSection trap, m => ∃ c, t = .cpu c ∧ (c, trap.probe) ∈ m.running
  | _, _ => True

/-- What every state of a run with the windows apart is like. -/
structure Tidy (s : State) : Prop where
  sound : Sound s.mem
  one : ∀ t u, (s.loc t).replaces = true → (s.loc u).replaces = true → t = u
  rest : (∀ t, (s.loc t).replaces = false) → Rest s.mem
  stage : ∀ t, Stage t (s.loc t) s.mem

/-! ## Turns outside a window -/

/-- The probe, its registration and its request stay; a handler may begin for a probe
    that is registered, and `t` may end its own. -/
structure Beside (t : Task) (m m' : Mem) : Prop where
  kp : m'.kp = m.kp
  born : m'.born = m.born
  kprobe : m'.kprobe = m.kprobe
  armed : m'.armed = m.armed
  registrations : m'.registrations = m.registrations
  req : m'.rbf.req = m.rbf.req
  running : ∀ x ∈ m'.running, x ∈ m.running ∨ m.armed x.2 = true
  others : ∀ c p, t ≠ .cpu c → (c, p) ∈ m.running → (c, p) ∈ m'.running

section Turns
variable {t u : Task} {m m' : Mem} {q q' : Pc} {a : Act}

theorem Beside.serves (h : Beside t m m') {p : Nat} : Serves m' p ↔ Serves m p := by
  rw [Serves, Serves, h.registrations, h.req]

theorem Beside.own (h : Beside t m m') {x : Hit} : Own m' x ↔ Own m x := by
  rw [Own, Own, h.registrations]

theorem Beside.calm (h : Beside t m m') (hc : Calm m) : Calm m' := by
  refine ⟨fun p => ?_, List.eq_nil_iff_forall_not_mem.mpr fun x hx => ?_⟩
  · rw [h.armed]
    exact hc.armed p
  · rcases h.running x hx with hx | hx
    · rw [hc.running] at hx
      cases hx
    · rw [hc.armed] at hx
      cases hx

theorem Beside.rest (h : Beside t m m') (hr : Rest m) : Rest m' := by
  refine ⟨fun x hx => ?_, fun p hp => ?_⟩
  · rw [h.armed]
    exact (h.running x hx).elim (hr.running x) id
  · rw [h.kprobe]
    exact hr.symbol p (h.kp ▸ hp)

theorem Beside.ready (h : Beside t m m') {req : DebugRequest} (hr : Ready req m) :
    Ready req m' := by
  rw [Ready, h.kp, h.born, h.kprobe, h.registrations]
  exact hr

theorem Sound.beside (hs : Sound m) (h : Beside t m m') (hh : ∀ x ∈ m'.hits, Own m x) :
    Sound m' where
  named p hp := by
    rw [h.kp]
    exact hs.named p (h.armed ▸ hp)
  serves p hp := h.serves.mpr (hs.serves p (h.armed ▸ hp))
  running x hx := h.serves.mpr ((h.running x hx).elim (hs.running x) (hs.serves x.2))
  addr := by
    rw [h.registrations, h.born]
    exact hs.addr
  once := by
    rw [h.registrations]
    exact hs.once
  hits x hx := h.own.mpr (hh x hx)

theorem Stage.beside (hst : Stage u q m) (h : Beside t m m')
    (hown : ∀ c p, u = .cpu c → (c, p) ∈ m.running → (c, p) ∈ m'.running) : Stage u q m' := by
  cases q with
  | testKp req => exact hst
  | unregister req => exact ⟨hst.1, h.kp ▸ hst.2.1, h.rest hst.2.2⟩
  | unregisterWait req p =>
      obtain ⟨ha, hkp, harm, hrun⟩ := hst
      refine ⟨ha, ?_, ?_, fun x hx => ?_⟩
      · rw [h.kp, h.kprobe]
        exact hkp
      · rw [h.armed]
        exact harm
      · rcases h.running x hx with hx | hx
        · exact hrun x hx
        · rw [harm] at hx
          cases hx
  | destroyKp req =>
      refine ⟨hst.1, ?_, h.calm hst.2.2⟩
      rw [h.kp, h.kprobe]
      exact hst.2.1
  | kmalloc req => exact ⟨hst.1, h.kp ▸ hst.2.1, h.calm hst.2.2⟩
  | initKp req =>
      refine ⟨hst.1, ?_, h.calm hst.2.2⟩
      rw [h.kp, h.born, h.registrations]
      exact hst.2.1
  | lockReq _ | storeReq _ => exact ⟨h.ready hst.1, h.calm hst.2⟩
  | unlockReq _ | registerKp _ => exact ⟨h.ready hst.1, h.calm hst.2.1, h.req ▸ hst.2.2⟩
  | lockHit _ | hitSection _ =>
      obtain ⟨c, rfl, hmem⟩ := hst
      exact ⟨c, rfl, hown c _ rfl hmem⟩
  | _ => trivial

/-- What a turn on the task's own code does outside the window. -/
theorem next_beside (hq : q.replaces = false) (htest : ∀ req, q ≠ .testKp req)
    (h : next t m q = some (m', q')) : Beside t m m' ∧ q'.replaces = false := by
  cases q with
  | testKp req => exact absurd rfl (htest req)
  | hitReturn trap =>
      cases t with
      | caller n => cases h
      | cpu c =>
          cases h
          refine ⟨⟨rfl, rfl, rfl, rfl, rfl, rfl, fun x hx => .inl (List.mem_filter.mp hx).1, ?_⟩,
            rfl⟩
          intro c' p hc hmem
          refine List.mem_filter.mpr ⟨hmem, decide_eq_true fun he => hc ?_⟩
          exact congrArg Task.cpu he.symm
  | _ =>
      first
        | exact Bool.noConfusion hq
        | simp only [next] at h
          repeat' split at h
          all_goals cases h
          all_goals refine ⟨⟨rfl, rfl, rfl, rfl, rfl, rfl, fun _ hx => .inl hx, fun _ _ _ hx => hx⟩,
            rfl⟩

/-- Outside the window `kp` and the registered probes stay. -/
theorem next_probe (hq : q.replaces = false) (h : next t m q = some (m', q')) :
    m'.kp = m.kp ∧ m'.armed = m.armed := by
  by_cases htest : ∃ req, q = .testKp req
  · obtain ⟨req, rfl⟩ := htest
    cases h
    exact ⟨rfl, rfl⟩
  · obtain ⟨hb, -⟩ := next_beside hq (fun req he => htest ⟨req, he⟩) h
    exact ⟨hb.kp, hb.armed⟩

/-- A turn outside the window stores a result of the probe's own request, or none. -/
theorem next_own (hs : Sound m) (hst : Stage t q m) (h : next t m q = some (m', q')) :
    ∀ x ∈ m'.hits, Own m x := by
  cases q with
  | hitSection trap =>
      cases h
      intro x hx
      rcases List.mem_cons.mp hx with rfl | hx
      · obtain ⟨c, -, hmem⟩ := hst
        obtain ⟨r, hr, hp, hreq⟩ := hs.running _ hmem
        refine ⟨r, hr, hp, ?_⟩
        rw [hreq]
      · exact hs.hits x hx
  | _ =>
      simp only [next] at h
      repeat' split at h
      all_goals cases h
      all_goals exact hs.hits

/-- A handler that is waiting for the lock goes on with it. -/
theorem Stage.next_outside (hst : Stage t q m) (hq : q.replaces = false)
    (htest : ∀ req, q ≠ .testKp req) (h : next t m q = some (m', q')) : Stage t q' m' := by
  cases q with
  | testKp req => exact absurd rfl (htest req)
  | lockHit trap =>
      rw [next] at h
      split at h <;> cases h
      exact hst
  | _ =>
      first
        | exact Bool.noConfusion hq
        | simp only [next] at h
          repeat' split at h
          all_goals cases h
          all_goals trivial

/-! ## Turns in the window -/

/-- The test of `kp`, with nobody in a window. -/
theorem Stage.test {req : DebugRequest} (hs : Sound m) (hr : Rest m) (ha : req.addr ≠ 0) :
    Stage t (if m.kp ≠ none then .unregister req else .kmalloc req) m := by
  by_cases hkp : m.kp = none
  · have harm : ∀ p, m.armed p = false := by
      intro p
      refine Bool.eq_false_iff.mpr fun hp => ?_
      have := hs.named p hp
      rw [hkp] at this
      cases this
    rw [if_neg (not_not_intro hkp)]
    refine ⟨ha, hkp, harm, List.eq_nil_iff_forall_not_mem.mpr fun x hx => ?_⟩
    have := hr.running x hx
    rw [harm] at this
    cases this
  · rw [if_pos hkp]
    exact ⟨ha, hkp, hr⟩

/-- Nothing is running, so whatever is known of running handlers is kept. -/
theorem Sound.calm (hs : Sound m) (hc : Calm m') (hreg : m'.registrations = m.registrations)
    (hb : m.born ≤ m'.born) (hh : m'.hits = m.hits) : Sound m' where
  named p hp := by
    rw [hc.armed] at hp
    cases hp
  serves p hp := by
    rw [hc.armed] at hp
    cases hp
  running x hx := by
    rw [hc.running] at hx
    cases hx
  addr := by
    rw [hreg]
    exact fun r hr => ⟨(hs.addr r hr).1, Nat.lt_of_lt_of_le (hs.addr r hr).2 hb⟩
  once := by
    rw [hreg]
    exact hs.once
  hits := by
    intro x hx
    rw [hh] at hx
    obtain ⟨r, hr, h⟩ := hs.hits x hx
    exact ⟨r, by rw [hreg]; exact hr, h⟩

theorem Calm.rest (hc : Calm m) (h : ∀ p, m.kp = some p → (m.kprobe p).symbolName = 0) :
    Rest m := by
  refine ⟨fun x hx => ?_, h⟩
  rw [hc.running] at hx
  cases hx

/-- What a turn in the window establishes. -/
structure Goes (t : Task) (m m' : Mem) (q' : Pc) : Prop where
  sound : Sound m'
  stage : Stage t q' m'
  rest : q'.replaces = false → Rest m'
  running : m'.running = m.running

theorem goes_unregister {req : DebugRequest} (hs : Sound m) (hst : Stage t (.unregister req) m)
    (h : next t m (.unregister req) = some (m', q')) : Goes t m m' q' := by
  obtain ⟨ha, hkp, hr⟩ := hst
  rw [next] at h
  split at h
  · rename_i hnone
    exact absurd hnone hkp
  rename_i p hp
  cases h
  have harm : ∀ p', Function.update m.armed p false p' = false := by
    intro p'
    by_cases he : p' = p
    · rw [he, Function.update_self]
    · rw [Function.update_of_ne he]
      refine Bool.eq_false_iff.mpr fun hp' => he ?_
      exact Option.some.inj ((hs.named p' hp').symm.trans hp)
  refine ⟨⟨?_, ?_, hs.running, hs.addr, hs.once, hs.hits⟩, ?_, nofun, rfl⟩
  · intro p' hp'
    exact absurd hp' (Bool.eq_false_iff.mp (harm p'))
  · intro p' hp'
    exact absurd hp' (Bool.eq_false_iff.mp (harm p'))
  · refine ⟨ha, ⟨hp, hr.symbol p hp⟩, harm, fun x hx => ?_⟩
    exact Option.some.inj ((hs.named x.2 (hr.running x hx)).symm.trans hp)

theorem goes_kmalloc {req : DebugRequest} (hs : Sound m) (hst : Stage t (.kmalloc req) m)
    (h : next t m (.kmalloc req) = some (m', q')) : Goes t m m' q' := by
  obtain ⟨ha, -, hc⟩ := hst
  have hcalm {m' : Mem} (harm : m'.armed = m.armed) (hrun : m'.running = m.running) : Calm m' :=
    ⟨fun p => by rw [harm]; exact hc.armed p, hrun.trans hc.running⟩
  rw [next] at h
  split at h <;> cases h
  · have hc' : Calm { m with
        kp := some m.born
        born := m.born + 1
        kprobe := Function.update m.kprobe m.born m.world.junk } := hcalm rfl rfl
    refine ⟨hs.calm hc' rfl (Nat.le_succ _) rfl, ⟨ha, ?_, hc'⟩, nofun, rfl⟩
    rintro p ⟨⟩
    exact ⟨Nat.lt_succ_self _, fun r hr => Nat.ne_of_lt (hs.addr r hr).2⟩
  · have hc' : Calm { m with kp := none } := hcalm rfl rfl
    exact ⟨hs.calm hc' rfl (Nat.le_refl _) rfl, ⟨ha, nofun, hc'⟩, nofun, rfl⟩

theorem goes_register {req : DebugRequest} (hs : Sound m) (hst : Stage t (.registerKp req) m)
    (h : next t m (.registerKp req) = some (m', q')) : Goes t m m' q' := by
  obtain ⟨⟨p, hp, hborn, hkprobe, hnew⟩, hc, hreq⟩ := hst
  have hsym : ∀ p', m.kp = some p' → (m.kprobe p').symbolName = 0 := by
    intro p' hp'
    obtain rfl := Option.some.inj (hp.symm.trans hp')
    rw [hkprobe]
  rw [next] at h
  split at h
  · rename_i hnone
    rw [hp] at hnone
    cases hnone
  rename_i p' hp'
  obtain rfl := Option.some.inj (hp.symm.trans hp')
  split at h <;> cases h
  · have harm : ∀ p', Function.update m.armed p true p' = true → p' = p := by
      intro p' hp'
      by_contra he
      rw [Function.update_of_ne he, hc.armed] at hp'
      cases hp'
    refine ⟨⟨?_, ?_, ?_, ?_, ?_, ?_⟩, trivial, fun _ => ⟨?_, hsym⟩, rfl⟩
    · intro p' hp'
      rw [harm p' hp']
      exact hp
    · intro p' hp'
      exact ⟨_, List.mem_cons_self, (harm p' hp').symm, hreq.symm⟩
    · intro x hx
      rw [show m.running = [] from hc.running] at hx
      cases hx
    · intro r hr
      rcases List.mem_cons.mp hr with rfl | hr
      · exact ⟨by rw [hkprobe], hborn⟩
      · exact hs.addr r hr
    · intro r hr r' hr' he
      rcases List.mem_cons.mp hr with rfl | hr <;> rcases List.mem_cons.mp hr' with rfl | hr'
      · rfl
      · exact absurd he.symm (hnew r' hr')
      · exact absurd he (hnew r hr)
      · exact hs.once r hr r' hr' he
    · intro x hx
      obtain ⟨r, hr, h⟩ := hs.hits x hx
      exact ⟨r, List.mem_cons_of_mem _ hr, h⟩
    · intro x hx
      rw [show m.running = [] from hc.running] at hx
      cases hx
  · exact ⟨hs, trivial, fun _ => hc.rest hsym, rfl⟩

/-- **IN THE WINDOW**: one turn of the task that replaces the probe. -/
theorem Stage.window (hs : Sound m) (hst : Stage t q m) (hq : q.replaces = true)
    (h : next t m q = some (m', q')) : Goes t m m' q' := by
  cases q with
  | unregister req => exact goes_unregister hs hst h
  | unregisterWait req p =>
      rw [next] at h
      split at h <;> cases h
      rename_i hrun
      obtain ⟨ha, hkp, harm, hall⟩ := hst
      refine ⟨hs, ⟨ha, ⟨p, hkp⟩, harm, ?_⟩, nofun, rfl⟩
      exact List.eq_nil_iff_forall_not_mem.mpr fun x hx => hrun x hx (hall x hx)
  | destroyKp req =>
      obtain ⟨ha, ⟨p, hp, hsym⟩, hc⟩ := hst
      rw [next, hp] at h
      simp only [hsym, ne_eq, not_true_eq_false, if_false] at h
      cases h
      have hc' : Calm { m with kp := none } := ⟨hc.armed, hc.running⟩
      exact ⟨hs.calm hc' rfl (Nat.le_refl _) rfl, ⟨ha, rfl, hc'⟩, nofun, rfl⟩
  | kmalloc req => exact goes_kmalloc hs hst h
  | initKp req =>
      obtain ⟨ha, hp, hc⟩ := hst
      rw [next, if_neg ha] at h
      split at h <;> rename_i hkp <;> cases h
      · refine ⟨hs, trivial, fun _ => hc.rest fun p hp => ?_, rfl⟩
        rw [hkp] at hp
        cases hp
      · rename_i p
        have hc' : Calm { m with kprobe := Function.update m.kprobe p ⟨req.addr, 0⟩ } :=
          ⟨hc.armed, hc.running⟩
        refine ⟨hs.calm hc' rfl (Nat.le_refl _) rfl,
          ⟨⟨p, hkp, (hp p hkp).1, ?_, (hp p hkp).2⟩, hc'⟩, nofun, rfl⟩
        exact Function.update_self ..
  | lockReq req =>
      rw [next] at h
      split at h <;> cases h
      have hc' : Calm { m with holder := some t } := ⟨hst.2.armed, hst.2.running⟩
      exact ⟨hs.calm hc' rfl (Nat.le_refl _) rfl, ⟨hst.1, hc'⟩, nofun, rfl⟩
  | storeReq req =>
      cases h
      have hc' : Calm { m with rbf.req := req } := ⟨hst.2.armed, hst.2.running⟩
      exact ⟨hs.calm hc' rfl (Nat.le_refl _) rfl, ⟨hst.1, hc', rfl⟩, nofun, rfl⟩
  | unlockReq req =>
      cases h
      have hc' : Calm { m with holder := none } := ⟨hst.2.1.armed, hst.2.1.running⟩
      exact ⟨hs.calm hc' rfl (Nat.le_refl _) rfl, ⟨hst.1, hc', hst.2.2⟩, nofun, rfl⟩
  | registerKp req => exact goes_register hs hst h
  | _ => cases hq

/-- A task outside a window only has to keep its running handler. -/
theorem Stage.outside (hst : Stage u q m) (hq : q.replaces = false)
    (hr : m'.running = m.running) : Stage u q m' := by
  cases q with
  | testKp req => exact hst
  | lockHit _ | hitSection _ =>
      obtain ⟨c, hu, hmem⟩ := hst
      exact ⟨c, hu, hr ▸ hmem⟩
  | _ =>
      first
        | exact Bool.noConfusion hq
        | trivial

end Turns

/-! ## Runs with the windows apart -/

section Runs
variable {C : State → Task → Act → Prop} {s s' : State} {t u : Task} {m' : Mem} {q' : Pc} {a : Act}

/-- A turn of a task outside a window, or one of the world. -/
theorem Tidy.beside (ht : Tidy s) (hb : Beside t s.mem m') (hs : Sound m')
    (hq : q'.replaces = (s.loc t).replaces) (hst : Stage t q' m') :
    Tidy ⟨m', Function.update s.loc t q'⟩ := by
  have hrep : ∀ u, (Function.update s.loc t q' u).replaces = (s.loc u).replaces := by
    intro u
    by_cases hut : u = t
    · rw [hut, Function.update_self, hq]
    · rw [Function.update_of_ne hut]
  refine ⟨hs, fun u v hu hv => ?_, fun hall => ?_, fun u => ?_⟩
  · exact ht.one u v ((hrep u).symm.trans hu) ((hrep v).symm.trans hv)
  · exact hb.rest (ht.rest fun u => (hrep u).symm.trans (hall u))
  · show Stage u (Function.update s.loc t q' u) m'
    by_cases hut : u = t
    · rw [hut, Function.update_self]
      exact hst
    · rw [Function.update_of_ne hut]
      refine (ht.stage u).beside hb fun c p hu => hb.others c p fun he => ?_
      exact hut (hu.trans he.symm)

/-- A turn of the only task that may be in a window. -/
theorem Tidy.alone (ht : Tidy s) (ho : ∀ u, u ≠ t → (s.loc u).replaces = false)
    (hg : Goes t s.mem m' q') : Tidy ⟨m', Function.update s.loc t q'⟩ := by
  have honly : ∀ u, (Function.update s.loc t q' u).replaces = true → u = t := by
    intro u hu
    by_contra hut
    rw [Function.update_of_ne hut, ho u hut] at hu
    cases hu
  refine ⟨hg.sound, fun u v hu hv => (honly u hu).trans (honly v hv).symm, fun hall => ?_,
    fun u => ?_⟩
  · have hq' := hall t
    change (Function.update s.loc t q' t).replaces = false at hq'
    rw [Function.update_self] at hq'
    exact hg.rest hq'
  · show Stage u (Function.update s.loc t q' u) m'
    by_cases hut : u = t
    · rw [hut, Function.update_self]
      exact hg.stage
    · rw [Function.update_of_ne hut]
      exact (ht.stage u).outside (ho u hut) hg.running

/-- One turn on the task's own code. -/
theorem Tidy.next (ht : Tidy s) (hC : Apart s t .run)
    (h : next t s.mem (s.loc t) = some (m', q')) : Tidy ⟨m', Function.update s.loc t q'⟩ := by
  have hst := ht.stage t
  by_cases hq : (s.loc t).replaces = true
  · refine ht.alone (fun u hut => ?_) (hst.window ht.sound hq h)
    exact Bool.eq_false_iff.mpr fun hu => hut (ht.one u t hu hq)
  rw [Bool.not_eq_true] at hq
  by_cases htest : ∃ req, s.loc t = .testKp req
  · obtain ⟨req, hloc⟩ := htest
    have hall := hC.alone req hloc rfl
    have hrest := ht.rest hall
    rw [hloc] at h hst
    cases h
    refine ht.alone (fun u _ => hall u) ⟨ht.sound, ?_, fun _ => hrest, rfl⟩
    exact Stage.test ht.sound hrest hst
  · have hno : ∀ req, s.loc t ≠ .testKp req := fun req he => htest ⟨req, he⟩
    obtain ⟨hb, hq'⟩ := next_beside hq hno h
    refine ht.beside hb (ht.sound.beside hb (next_own ht.sound hst h)) (hq'.trans hq.symm) ?_
    exact hst.next_outside hq hno h

theorem Tidy.turn (ht : Tidy s) (hC : Apart s t a) (hs : turn exec s t a = some s') :
    Tidy s' := by
  obtain ⟨m', q', he, rfl⟩ := turn_eq_some hs
  have same (hm : m' = s.mem) : Beside t s.mem m' := by
    rw [hm]
    exact ⟨rfl, rfl, rfl, rfl, rfl, rfl, fun _ hx => .inl hx, fun _ _ _ hx => hx⟩
  rcases exec_cases he with ⟨rfl, h⟩ | ⟨n, req, rfl, -, hq, rfl, rfl⟩ | ⟨n, -, -, hq, rfl, rfl⟩
    | ⟨c, trap, -, rfl, hq, harm, rfl, rfl⟩ | ⟨w, -, rfl, rfl⟩
  · exact ht.next hC h
  · refine ht.beside (same rfl) ht.sound ?_ (hC.addr req rfl)
    rw [hq]
    rfl
  · refine ht.beside (same rfl) ht.sound ?_ trivial
    rw [hq]
    rfl
  · have hb : Beside (.cpu c) s.mem { s.mem with running := (c, trap.probe) :: s.mem.running } := by
      refine ⟨rfl, rfl, rfl, rfl, rfl, rfl, fun x hx => ?_, fun _ _ _ => List.mem_cons_of_mem _⟩
      rcases List.mem_cons.mp hx with rfl | hx
      · exact .inr harm
      · exact .inl hx
    refine ht.beside hb (ht.sound.beside hb ht.sound.hits) ?_ ⟨c, rfl, List.mem_cons_self⟩
    rw [hq]
    rfl
  · have hb : Beside t s.mem { s.mem with world := w } :=
      ⟨rfl, rfl, rfl, rfl, rfl, rfl, fun _ hx => .inl hx, fun _ _ _ hx => hx⟩
    refine ht.beside hb (ht.sound.beside hb ht.sound.hits) rfl ?_
    exact (ht.stage t).beside hb fun _ _ _ hx => hx

/-- **TIDY**: in every run with the windows apart. -/
theorem reach_tidy (h : ReachWhen Apart s) : Tidy s := by
  refine Reach.invariant (I := Tidy) ?_ ?_ h
  · refine ⟨⟨nofun, nofun, nofun, nofun, nofun, nofun⟩, nofun, fun _ => ⟨nofun, nofun⟩, ?_⟩
    exact fun _ => trivial
  · intro s s' t a _ ht hC hs
    exact ht.turn hC hs

/-- With every registration succeeding, outside the windows `kp` names a registered
    probe. -/
def Kept (s : State) : Prop :=
  (∀ t, (s.loc t).replaces = false) → ∀ p, s.mem.kp = some p → s.mem.armed p = true

/-- The window is left with the probe registered, or with none. -/
theorem Stage.kept {m : Mem} {q : Pc} (hst : Stage t q m) (hq : q.replaces = true)
    (h : Mprobe.next t m q = some (m', q')) (hq' : q'.replaces = false)
    (hreg : ∀ req, q = .registerKp req → m.world.registers = true) {p : Nat}
    (hp : m'.kp = some p) : m'.armed p = true := by
  cases q with
  | unregister req =>
      rw [Mprobe.next] at h
      split at h <;> rename_i hkp <;> cases h
      · exact absurd hkp hst.2.1
      · cases hq'
  | destroyKp req =>
      obtain ⟨-, ⟨p', hp', hsym⟩, -⟩ := hst
      rw [Mprobe.next, hp'] at h
      simp only [hsym, ne_eq, not_true_eq_false, if_false] at h
      cases h
      cases hq'
  | initKp req =>
      rw [Mprobe.next, if_neg hst.1] at h
      split at h <;> rename_i hkp <;> cases h
      · rw [hkp] at hp
        cases hp
      · cases hq'
  | registerKp req =>
      obtain ⟨⟨p', hp', -⟩, -, -⟩ := hst
      rw [Mprobe.next] at h
      split at h
      · rename_i hkp
        rw [hp'] at hkp
        cases hkp
      · rename_i p'' hkp
        rw [if_pos (hreg req rfl)] at h
        cases h
        obtain rfl := Option.some.inj (hkp.symm.trans hp)
        exact Function.update_self ..
  | _ =>
      simp only [Mprobe.next] at h
      repeat' split at h
      all_goals cases h
      all_goals first
        | exact Bool.noConfusion hq'
        | exact Bool.noConfusion hq

theorem Kept.turn (hk : Kept s) (ht : Tidy s) (hC : Succeeding s t a)
    (hs : turn exec s t a = some s') : Kept s' := by
  obtain ⟨m', q', he, rfl⟩ := turn_eq_some hs
  intro hall
  have hother : ∀ u, u ≠ t → (s.loc u).replaces = false := by
    intro u hut
    have := hall u
    change (Function.update s.loc t q' u).replaces = false at this
    rwa [Function.update_of_ne hut] at this
  have hq' : q'.replaces = false := by
    have := hall t
    change (Function.update s.loc t q' t).replaces = false at this
    rwa [Function.update_self] at this
  -- nobody was in a window, and `kp` and the registrations have not changed
  have same (hq : (s.loc t).replaces = false) (hkp : m'.kp = s.mem.kp)
      (harm : m'.armed = s.mem.armed) : ∀ p, m'.kp = some p → m'.armed p = true := by
    rw [hkp, harm]
    refine hk fun u => ?_
    by_cases hut : u = t
    · rw [hut]
      exact hq
    · exact hother u hut
  show ∀ p, m'.kp = some p → m'.armed p = true
  rcases exec_cases he with ⟨rfl, h⟩ | ⟨n, req, rfl, -, hq, rfl, rfl⟩ | ⟨n, -, -, hq, rfl, rfl⟩
    | ⟨c, trap, -, rfl, hq, harm, rfl, rfl⟩ | ⟨w, -, rfl, rfl⟩
  · by_cases hq : (s.loc t).replaces = true
    · intro p hp
      exact (ht.stage t).kept hq h hq' (fun req hloc => hC.registers req hloc rfl) hp
    · rw [Bool.not_eq_true] at hq
      obtain ⟨hkp, harm⟩ := next_probe hq h
      exact same hq hkp harm
  · exact same (by rw [hq]; rfl) rfl rfl
  · exact same (by rw [hq]; rfl) rfl rfl
  · exact same (by rw [hq]; rfl) rfl rfl
  · exact same hq' rfl rfl

theorem reach_kept (h : ReachWhen Succeeding s) : Kept s := by
  refine Reach.invariant (I := Kept) ?_ ?_ h
  · exact fun _ => nofun
  · intro s s' t a hr hk hC hs
    exact hk.turn (reach_tidy (hr.mono fun _ _ _ hc => hc.toApart)) hC hs

end Runs

/-- **ONE PROBE**: at most one probe is registered, outside the windows it is the one `kp`
    names, and no turn takes a registered probe out of `kp`. -/
theorem one_probe {s : State} (h : ReachWhen Succeeding s) :
    (∀ p p', s.mem.armed p = true → s.mem.armed p' = true → p = p')
      ∧ ((∀ t, (s.loc t).replaces = false) → ∀ p, s.mem.kp = some p ↔ s.mem.armed p = true)
      ∧ ∀ t a s', Succeeding s t a → turn exec s t a = some s' →
          ∀ p, s.mem.kp = some p → s.mem.armed p = true →
            s'.mem.kp = some p ∨ s'.mem.armed p = false := by
  have apart {s : State} (h : ReachWhen Succeeding s) : Tidy s :=
    reach_tidy (h.mono fun _ _ _ hc => hc.toApart)
  have hs := (apart h).sound
  refine ⟨fun p p' hp hp' => ?_, fun hall p => ⟨reach_kept h hall p, hs.named p⟩, ?_⟩
  · exact Option.some.inj ((hs.named p hp).symm.trans (hs.named p' hp'))
  · intro t a s' hC hturn p _ _
    have hs' := (apart (h.turn t a hC hturn)).sound
    cases harm : s'.mem.armed p with
    | false => exact .inr rfl
    | true => exact .inl (hs'.named p harm)

/-- The index stays inside the ring. -/
theorem exec_idx {t : Task} {m m' : Mem} {q q' : Pc} {a : Act} (hi : m.rbf.idx.toNat < 10)
    (h : exec t m q a = some (m', q')) : m'.rbf.idx.toNat < 10 := by
  rcases exec_cases h with ⟨-, h⟩ | ⟨n, req, -, -, -, rfl, -⟩ | ⟨n, -, -, -, rfl, -⟩
    | ⟨c, trap, -, -, -, -, rfl, -⟩ | ⟨w, -, rfl, -⟩
  · cases q with
    | hitSection trap =>
        cases h
        show ((m.rbf.idx + 1) % 10).toNat < 10
        rw [BitVec.toNat_umod]
        exact Nat.mod_lt _ (by decide)
    | _ =>
        simp only [next] at h
        repeat' split at h
        all_goals cases h
        all_goals exact hi
  all_goals exact hi

/-- **THE RECORD OF A HIT** is what its section leaves in the slot that the index named. -/
theorem record_in_ring {C : State → Task → Act → Prop} {s : State} (h : ReachWhen C s) {t : Task}
    {trap : Trap} (hq : s.loc t = .hitSection trap) {m' : Mem} {q' : Pc}
    (he : next t s.mem (s.loc t) = some (m', q')) :
    ∃ j : Fin 10, (j : Nat) = s.mem.rbf.idx.toNat
      ∧ m'.hits = ⟨trap, s.mem.world, m'.rbf.rst j⟩ :: s.mem.hits := by
  have hidx : s.mem.rbf.idx.toNat < 10 := by
    refine Reach.invariant (I := fun s : State => s.mem.rbf.idx.toNat < 10) (by decide) ?_ h
    intro s s' t a _ hI _ hs
    obtain ⟨m', q', he, rfl⟩ := turn_eq_some hs
    exact exec_idx hI he
  rw [hq] at he
  cases he
  refine ⟨⟨s.mem.rbf.idx.toNat, hidx⟩, rfl, ?_⟩
  have hslot : (handlerPre s.mem.rbf trap s.mem.world).rst ⟨s.mem.rbf.idx.toNat, hidx⟩
      = result s.mem.rbf.req trap s.mem.world := if_pos rfl
  rw [hslot]

/-- **EACH RESULT BY ITS OWN REQUEST**: it was computed from the one request that the probe
    of the hit was registered for, at the address in that request. -/
theorem hits_own_request {s : State} (h : ReachWhen Apart s) {x : Hit} (hx : x ∈ s.mem.hits) :
    ∃ r ∈ s.mem.registrations, r.probe = x.trap.probe ∧ r.addr = r.req.addr
      ∧ x.record = result r.req x.trap x.world
      ∧ ∀ r' ∈ s.mem.registrations, r'.probe = x.trap.probe → r' = r := by
  have hs := (reach_tidy h).sound
  obtain ⟨r, hr, hp, hrec⟩ := hs.hits x hx
  refine ⟨r, hr, hp, (hs.addr r hr).1, hrec, fun r' hr' hp' => ?_⟩
  exact hs.once r' hr' r hr (hp'.trans hp.symm)

/-! ## One write after the other, and two that cross -/

def granted (s : State) (t : Task) : Act → Bool
  | .write req => decide (req.addr ≠ 0)
  | .run =>
      match s.loc t with
      | .registerKp _ => s.mem.world.registers
      | _ => true
  | _ => true

theorem granted_sound {s : State} {t : Task} {a : Act} (h : granted s t a = true) :
    Granted s t a := by
  constructor
  · rintro req rfl
    exact of_decide_eq_true h
  · rintro req hq rfl
    rw [granted, hq] at h
    exact h

/-- Nobody of these is in a window when `kp` is tested. -/
def apart (ts : List Task) (s : State) (t : Task) (a : Act) : Bool :=
  granted s t a && match s.loc t with
    | .testKp _ => ts.all fun u => !(s.loc u).replaces
    | _ => true

theorem apart_sound {ts : List Task} {s : State} {t : Task} {a : Act}
    (hE : Among ts State.initial s) (h : apart ts s t a = true) : Succeeding s t a := by
  obtain ⟨hg, ht⟩ := Bool.and_eq_true_iff.mp h
  have hg := granted_sound hg
  refine ⟨⟨fun req hq _ u => ?_, hg.addr⟩, hg.registers⟩
  rw [hq] at ht
  have hu := hE.forall (f := fun q => !q.replaces) ht (fun _ => rfl) u
  exact Bool.not_eq_true' _ ▸ hu

/-- The line 0x9a of a module at 0x1000, and another line of it. -/
def firstLine : DebugRequest := ⟨0x9a, 8, 4, 0x3000, 0x1000⟩

def secondLine : DebugRequest := ⟨0x10a, 16, 4, 0x3000, 0x1000⟩

def wholeWrite (n : Nat) (req : DebugRequest) (turns : Nat) : List (Task × Act) :=
  (.caller n, .write req) :: List.replicate turns (.caller n, .run)

/-- A probe is set and hit, and then moved and hit again. -/
def movedProbe : State :=
  runAmong exec State.initial [.caller 0, .caller 1, .cpu 0] (apart [.caller 0, .caller 1, .cpu 0])
    (wholeWrite 0 firstLine 7
      ++ (.cpu 0, .hit ⟨0, 0x7000, 0x7020, 0x109b, 1⟩) :: List.replicate 4 (Task.cpu 0, Act.run)
      ++ wholeWrite 1 secondLine 10
      ++ (.cpu 0, .hit ⟨1, 0x7000, 0x7020, 0x110b, 1⟩) :: List.replicate 4 (Task.cpu 0, Act.run))

theorem reach_movedProbe : ReachWhen Succeeding movedProbe :=
  Reach.of_runAmong (fun _ _ _ hE hok => apart_sound hE hok) _

theorem one_probe_moved :
    (ReachWhen Succeeding movedProbe
      ∧ movedProbe.mem.kp = some 1 ∧ movedProbe.mem.armed 1 = true)
      ∧ ∀ p p', movedProbe.mem.armed p = true → movedProbe.mem.armed p' = true → p = p' :=
  ⟨⟨reach_movedProbe, by decide⟩, (one_probe reach_movedProbe).1⟩

theorem hits_own_request_moved :
    ReachWhen Apart movedProbe ∧ movedProbe.mem.hits.length = 2
      ∧ ∀ x ∈ movedProbe.mem.hits, ∃ r ∈ movedProbe.mem.registrations,
          r.probe = x.trap.probe ∧ x.record = result r.req x.trap x.world := by
  have hr : ReachWhen Apart movedProbe := reach_movedProbe.mono fun _ _ _ hc => hc.toApart
  refine ⟨hr, by decide, fun x hx => ?_⟩
  obtain ⟨r, hr, hp, -, hrec, -⟩ := hits_own_request hr hx
  exact ⟨r, hr, hp, hrec⟩

/-- The first caller has seen no probe; the second sets one; and the first goes on. -/
def crossedWrites : State :=
  runAmong exec State.initial [.caller 0, .caller 1] granted
    (wholeWrite 0 firstLine 1 ++ wholeWrite 1 secondLine 7
      ++ List.replicate 6 (.caller 0, .run))

theorem two_probes :
    ¬ ∀ s, ReachWhen Granted s →
      ∀ p p', s.mem.armed p = true → s.mem.armed p' = true → p = p' := by
  intro h
  have hr : ReachWhen Granted crossedWrites := by
    refine Reach.of_runAmong ?_ _
    exact fun _ _ _ _ hok => granted_sound hok
  have h01 := h crossedWrites hr 0 1 (by decide) (by decide)
  cases h01

end Mprobe
