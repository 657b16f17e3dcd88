import KernelRocks.DecimalProofs
import KernelRocks.HcSr04StoreProofs

/-! # What sysfs shows

    The `_show` functions print a number and a newline with `snprintf` into 10
    characters of the page, and return what `snprintf` returned.  That is the length
    of the whole text; the reader gets so many characters of the page, and with a
    longer text one of them is the NUL.

    * `sscanf_text`: what is printed is read back.
    * `shows_iff`: a number is shown as it is exactly if it has at most 8 characters.
    * `shown_is_stored_iff`: the same, for a number that a store has accepted. -/

namespace HcSr04

open Program Decimal

/-! ## Printing and reading -/

theorem readDigits_toDigits (n : Nat) : readDigits (Nat.toDigits 10 n) = n := by
  have hfold : ∀ (ds : List Char) (m : Nat),
      ds.foldl (fun (n : Int) d => 10 * n + (d.toNat - '0'.toNat : Nat)) (m : Int)
        = (Nat.ofDigitChars 10 ds m : Nat) := by
    intro ds
    induction ds with
    | nil =>
        intro m
        rw [Nat.ofDigitChars_nil]
        rfl
    | cons d ds ih =>
        intro m
        rw [Nat.ofDigitChars_cons, ← ih, List.foldl_cons]
        push_cast
        rfl
  rw [readDigits]
  refine (hfold _ 0).trans ?_
  rw [Nat.ofDigitChars_ten_toDigits]

/-- The first character is a digit or the sign, and no space. -/
theorem dropWhile_text (v : Int) (rest : List Char) :
    (text v ++ rest).dropWhile isSpace = text v ++ rest := by
  have hspace : ∀ c : Char, isSpace c = true → c.isDigit = false ∧ c ≠ '-' := by
    intro c hc
    simp only [isSpace, decide_eq_true_eq, List.mem_cons, List.not_mem_nil, or_false] at hc
    rcases hc with rfl | rfl | rfl | rfl | rfl | rfl <;> decide
  cases htext : text v with
  | nil => exact absurd htext (text_ne_nil v)
  | cons c t =>
      refine List.dropWhile_cons_of_neg fun hc => ?_
      obtain ⟨hdigit, hsign⟩ := hspace c hc
      refine not_mem_text (v := v) hdigit hsign ?_
      rw [htext]
      exact List.mem_cons_self

/-- **WHAT IS PRINTED IS READ BACK**, as an `int` holds it. -/
theorem sscanf_text (v : Int) : sscanf (text v ++ ['\n']) = (1, wrapInt v) := by
  have hread (n : Nat) : (Nat.toDigits 10 n ++ ['\n']).takeWhile Char.isDigit = Nat.toDigits 10 n :=
    takeWhile_digits n (by decide) []
  by_cases h : 0 ≤ v
  · have hdrop := dropWhile_text v ['\n']
    rw [text_of_nonneg h] at hdrop ⊢
    simp only [sscanf, hdrop]
    split
    · rename_i rest heq
      have hmem : '-' ∈ Nat.toDigits 10 v.toNat ++ ['\n'] := by
        rw [heq]
        exact List.mem_cons_self
      rcases List.mem_append.mp hmem with hmem | hmem
      · exact absurd (isDigit_of_mem hmem) (by decide)
      · exact absurd (List.mem_singleton.mp hmem) (by decide)
    · rw [hread, readDigits_toDigits, if_neg (by simp), Int.toNat_of_nonneg h]
  · rw [sscanf, dropWhile_text, text_of_neg (Int.not_le.mp h), List.cons_append]
    show (if ((Nat.toDigits 10 (-v).toNat ++ ['\n']).takeWhile Char.isDigit).isEmpty = true
      then _ else _) = _
    rw [hread, readDigits_toDigits, if_neg (by simp), Int.toNat_of_nonneg (by omega), Int.neg_neg]

/-- A number that was read fits an `int`. -/
theorem wrapInt_sscanf (buf : List Char) : wrapInt (sscanf buf).2 = (sscanf buf).2 := by
  have hwrap : ∀ n, wrapInt (wrapInt n) = wrapInt n := fun n => Int.bmod_bmod
  simp only [sscanf]
  split
  · split
    · rfl
    · exact hwrap _
  · split
    · rfl
    · exact hwrap _

/-- The page has room for 8 characters, the newline and the NUL. -/
theorem back_snprintfInt (v : Int) (page : List Char) :
    back (snprintfInt v).1.toNat (snprintfInt v).2 page = text v ++ ['\n']
      ↔ -9999999 ≤ v ∧ v ≤ 99999999 := by
  have hnul : '\x00' ∉ text v ++ ['\n'] := by
    rw [List.mem_append, not_or]
    exact ⟨not_mem_text (by decide) (by decide), by decide⟩
  have hback := back_eq_iff (by decide : 0 < 10) hnul page
  have hlen := length_text_le_iff v (by decide : 0 < 7)
  refine hback.trans (Iff.trans ?_ (hlen.trans ?_))
  · rw [List.length_append, List.length_singleton]
    omega
  · show -10000000 < v ∧ v < 100000000 ↔ _
    omega

/-! ## Shown as stored -/

/-- The `_show` function of an attribute. -/
def showOf : Attribute → Code (Int × List Char)
  | .trigger => triggerShow
  | .echo => echoShow
  | .mode => modeShow
  | .frequency => frequencyShow

/-- The reader gets the text of `v` and a newline, and the store would read `v` again;
    `page` is what was in the page before. -/
def Shows (a : Attribute) (env : Env) (s : St) (page : List Char) (v : Int) : Prop :=
  ∃ out s', (showOf a).run (sem env) s = .ok (out, s')
    ∧ back out.1.toNat out.2 page = text v ++ ['\n'] ∧ sscanf (back out.1.toNat out.2 page) = (1, v)

section Shown
variable {env : Env} {ok : Fault → Prop} {buf : List Char} {count : Nat} {s s' : St}
  {a : Attribute} {v : Int}

theorem wp_showConfig (field : Hcsr → Int) (hs : s.held = []) :
    wp (sem env) ok (showConfig field) s fun out _ =>
      out = snprintfInt (field (s.hcsr.seen env s.reads)) := by
  rw [showConfig, wp_bind, wp_lock]
  refine ⟨fun hl => absurd hl (by simp [hs]), fun _ => ?_⟩
  rw [wp_bind, wp_load, wp_bind, wp_unlock]
  exact ⟨fun _ => rfl, fun hl => absurd List.mem_cons_self hl⟩

/-- The frequency is kept as an `unsigned int` and shown as an `int`. -/
theorem wp_showOf (hs : s.held = []) (his : a.Is v s.hcsr) (hint : wrapInt v = v) :
    wp (sem env) ok (showOf a) s fun out _ => out = snprintfInt v := by
  cases a with
  | trigger => exact his ▸ wp_showConfig _ hs
  | echo => exact his ▸ wp_showConfig _ hs
  | mode => exact his ▸ wp_showConfig _ hs
  | frequency =>
      refine wp_mono (wp_showConfig _ hs) ?_
      rintro out _ rfl
      have hfreq : s.hcsr.workingMode.freq = BitVec.ofInt 32 v := his
      rw [seen_workingMode, hfreq, BitVec.toInt_ofInt]
      exact congrArg snprintfInt hint

theorem shows_iff (hs : s.held = []) (his : a.Is v s.hcsr) (hint : wrapInt v = v)
    (page : List Char) : Shows a env s page v ↔ -9999999 ≤ v ∧ v ≤ 99999999 := by
  have hwp : wp (sem env) (fun _ => False) (showOf a) s fun out _ => out = snprintfInt v :=
    wp_showOf hs his hint
  obtain ⟨out, s', hrun, rfl⟩ := run_of_wp hwp
  rw [Shows, exists_run_iff hrun, ← back_snprintfInt v page]
  refine and_iff_left_of_imp fun hback => ?_
  rw [hback, sscanf_text, hint]

/-! ## What a store has accepted -/

theorem sets_triggerStore (hs : s.held = []) (hread : 0 < (sscanf buf).1) :
    wp (sem env) ok (triggerStore buf count) s fun ret s' =>
      ret = count → Attribute.trigger.Is (sscanf buf).2 s'.hcsr := by
  rw [triggerStore, wp_bind, wp_load, wp_bind]
  refine wp_mono (gave_freeTrig _ _) ?_
  intro _ s₁ h₁
  rw [if_neg (Int.not_le.mpr hread), wp_bind]
  refine wp_mono (acquires_setTrig _ _) ?_
  intro ret s₂ hend
  have hheld : s₂.held = [] := by
    rcases hend with ⟨-, h₂⟩ | ⟨-, hu, -⟩
    · exact h₂.held.trans (h₁.held.trans hs)
    · exact hu.held.trans (h₁.held.trans hs)
  split
  · rename_i hneg
    exact fun hret => absurd hret (ne_count hneg)
  · refine wp_mono (writes_storeConfig _ hheld) ?_
    rintro ret s' ⟨-, rfl⟩ _
    rfl

theorem Attribute.sets_store (a : Attribute) (hs : s.held = []) (hread : 0 < (sscanf buf).1) :
    wp (sem env) ok (a.store buf count) s fun ret s' =>
      ret = count → a.Is (sscanf buf).2 s'.hcsr := by
  have hends : ∀ {ret s'}, a.Ends buf count s ret s' →
      ret = count → a.Is (sscanf buf).2 s'.hcsr := by
    rintro ret s' (⟨-, -, his⟩ | ⟨hneg, -⟩ | ⟨hneg, -⟩) hret
    · exact his
    · exact absurd hret (ne_count hneg)
    · exact absurd hret (ne_count hneg)
  cases a with
  | trigger => exact sets_triggerStore hs hread
  | echo =>
      refine wp_mono (wp_echoStore hs hread) ?_
      rintro ret s' ⟨x, -, ⟨-, -, -, hpin⟩ | ⟨hneg, -⟩⟩ hret
      · exact hpin
      · exact absurd hret (ne_count hneg)
  | mode => exact wp_mono (ends_modeStore hs hread) fun _ _ => hends
  | frequency => exact wp_mono (ends_frequencyStore hs hread) fun _ _ => hends

theorem Attribute.locks_store (a : Attribute) : Locks env ok [] (a.store buf count) [] := by
  cases a with
  | trigger => exact locks_triggerStore List.not_mem_nil
  | echo => exact locks_echoStore List.not_mem_nil List.not_mem_nil
  | mode => exact locks_modeStore List.not_mem_nil
  | frequency => exact locks_frequencyStore List.not_mem_nil

end Shown

/-- **A NUMBER IS SHOWN AS IT WAS STORED** exactly if it lies between -9999999 and
    99999999.  The text of any other number does not fit, and its tenth character, which
    may be the newline, comes to the reader as a NUL. -/
theorem shown_is_stored_iff (a : Attribute) (buf : List Char) (count : Nat) (env : Env) (s s' : St)
    (hs : s.held = []) (hread : 0 < (sscanf buf).1)
    (hstore : (a.store buf count).run (sem env) s = .ok ((count : Int), s')) (env' : Env)
    (page : List Char) :
    Shows a env' s' page (sscanf buf).2
      ↔ -9999999 ≤ (sscanf buf).2 ∧ (sscanf buf).2 ≤ 99999999 := by
  have hwp : wp (sem env) (fun _ => False) (a.store buf count) s fun ret s' =>
      (ret = count → a.Is (sscanf buf).2 s'.hcsr) ∧ s'.held = [] :=
    wp_and (a.sets_store hs hread) (a.locks_store s hs)
  rw [wp, hstore] at hwp
  obtain ⟨his, hheld⟩ := hwp
  exact shows_iff hheld (his rfl) (wrapInt_sscanf buf) page

/-! ## Two frequencies -/

/-- After this text was written to `frequency` of a device that was just probed. -/
def tuned (buf : List Char) : St :=
  match (frequencyStore buf buf.length).run (sem quietEnv) (initialSt .sysfs) with
  | .ok (_, s) => s
  | .error _ => initialSt .sysfs

/-- 99999999 and a newline. -/
def longest : List Char := ['9', '9', '9', '9', '9', '9', '9', '9', '\n']

/-- 100000000 and a newline. -/
def tooLong : List Char := ['1', '0', '0', '0', '0', '0', '0', '0', '0', '\n']

theorem shown_is_stored_longest :
    (initialSt .sysfs).held = [] ∧ 0 < (sscanf longest).1
      ∧ (Attribute.frequency.store longest 9).run (sem quietEnv) (initialSt .sysfs)
        = .ok ((9 : Nat), tuned longest)
      ∧ Shows .frequency quietEnv (tuned longest) [] (sscanf longest).2 := by
  refine ⟨rfl, by decide, rfl, ?_⟩
  refine (shown_is_stored_iff .frequency longest 9 quietEnv (initialSt .sysfs) (tuned longest) rfl
    (by decide) rfl quietEnv []).mpr ?_
  decide

theorem shown_is_not_stored :
    ¬ ∀ (a : Attribute) (buf : List Char) (count : Nat) (env : Env) (s s' : St), s.held = [] →
      0 < (sscanf buf).1 → (a.store buf count).run (sem env) s = .ok ((count : Int), s') →
      ∀ env' page, Shows a env' s' page (sscanf buf).2 := by
  intro h
  have hshow :=
    h .frequency tooLong 10 quietEnv (initialSt .sysfs) (tuned tooLong) rfl (by decide) rfl
    quietEnv []
  have hheld : (tuned tooLong).held = [] := rfl
  have his : Attribute.frequency.Is (sscanf tooLong).2 (tuned tooLong).hcsr := rfl
  have hrange := (shows_iff hheld his (wrapInt_sscanf tooLong) []).mp hshow
  exact absurd hrange (by decide)

end HcSr04
