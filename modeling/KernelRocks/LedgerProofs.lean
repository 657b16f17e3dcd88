import Mathlib.Data.List.Nodup
import Mathlib.Data.Set.Insert

/-! # A ledger — who holds what

    Parties take resources and give them back, and a ledger has their moves, the
    last one first.  A party holds what it took and has not given back since; a
    resource is taken if the last move about it, by whichever party, took it.

    `Clean`: every move that gives something back is by the only holder.  A
    ledger stays clean as long as parties give back what they hold, each thing
    once (`Tidy.giveAll`), and only what is not taken is handed out
    (`Tidy.takeAll`). -/

namespace Ledger

variable {D L : Type}

/-- A move of the party `d` about the resource `l`. -/
inductive Move (D L : Type) where
  | take (d : D) (l : L)
  | give (d : D) (l : L)
  deriving DecidableEq

/-- `d` took `l` and has not given it back since. -/
def Holds (d : D) : List (Move D L) → L → Prop
  | [], _ => False
  | .take e k :: h, l => (e = d ∧ k = l) ∨ Holds d h l
  | .give e k :: h, l => ¬ (e = d ∧ k = l) ∧ Holds d h l

/-- The books of the one who hands out: only the resource counts. -/
def Taken : List (Move D L) → L → Prop
  | [], _ => False
  | .take _ k :: h, l => k = l ∨ Taken h l
  | .give _ k :: h, l => k ≠ l ∧ Taken h l

instance decidableTaken [DecidableEq L] (l : L) :
    (h : List (Move D L)) → Decidable (Taken h l)
  | [] => inferInstanceAs (Decidable False)
  | .take _ k :: h =>
      have := decidableTaken l h
      inferInstanceAs (Decidable (k = l ∨ Taken h l))
  | .give _ k :: h =>
      have := decidableTaken l h
      inferInstanceAs (Decidable (k ≠ l ∧ Taken h l))

/-- `d` holds `l`, and nobody else does. -/
def HoldsAlone (d : D) (h : List (Move D L)) (l : L) : Prop :=
  Holds d h l ∧ ∀ e, e ≠ d → ¬ Holds e h l

/-- Every move that gives something back is by the only holder. -/
def Clean : List (Move D L) → Prop
  | [] => True
  | .take _ _ :: h => Clean h
  | .give d l :: h => HoldsAlone d h l ∧ Clean h

/-- A clean ledger with one holder for each thing, who is in the books. -/
structure Tidy (h : List (Move D L)) : Prop where
  clean : Clean h
  one : ∀ {l d e}, Holds d h l → Holds e h l → d = e
  taken : ∀ {l d}, Holds d h l → Taken h l

/-- `d` holds everything in the list, which names nothing twice. -/
structure Backed (d : D) (h : List (Move D L)) (ls : List L) : Prop where
  nodup : ls.Nodup
  held : ∀ l ∈ ls, Holds d h l

/-- Nobody holds anything at first. -/
theorem Tidy.nil : Tidy ([] : List (Move D L)) := ⟨trivial, nofun, nofun⟩

/-- What is not taken may be handed out. -/
theorem Tidy.take {h : List (Move D L)} {l : L} (hh : Tidy h) (d : D) (hl : ¬ Taken h l) :
    Tidy (.take d l :: h) := by
  refine ⟨hh.clean, ?_, ?_⟩
  · rintro k e f (⟨rfl, rfl⟩ | he) (⟨rfl, hk⟩ | hf)
    · rfl
    · exact absurd (hh.taken hf) hl
    · exact absurd (hh.taken (hk ▸ he)) hl
    · exact hh.one he hf
  · rintro k e (⟨-, rfl⟩ | he)
    · exact .inl rfl
    · exact .inr (hh.taken he)

/-- A holder may give back what it holds. -/
theorem Tidy.give {h : List (Move D L)} {d : D} {l : L} (hh : Tidy h) (hl : Holds d h l) :
    Tidy (.give d l :: h) := by
  have halone : HoldsAlone d h l := ⟨hl, fun e hne he => hne (hh.one he hl)⟩
  refine ⟨⟨halone, hh.clean⟩, ?_, ?_⟩
  · rintro k e f ⟨-, he⟩ ⟨-, hf⟩
    exact hh.one he hf
  · rintro k e ⟨hne, he⟩
    refine ⟨?_, hh.taken he⟩
    rintro rfl
    exact hne ⟨hh.one hl he, rfl⟩

/-! ## Several moves of one party -/

/-- `d` takes the things in the list, one by one. -/
def takeAll (d : D) : List L → List (Move D L) → List (Move D L)
  | [], h => h
  | l :: ls, h => takeAll d ls (.take d l :: h)

/-- `d` gives them back. -/
def giveAll (d : D) : List L → List (Move D L) → List (Move D L)
  | [], h => h
  | l :: ls, h => giveAll d ls (.give d l :: h)

/-- Two lists are taken one behind the other. -/
theorem takeAll_append (d : D) (ls ks : List L) :
    ∀ h, takeAll d (ls ++ ks) h = takeAll d ks (takeAll d ls h) := by
  induction ls with
  | nil => exact fun _ => rfl
  | cons l ls ih => exact fun h => ih _

theorem giveAll_append (d : D) (ls ks : List L) :
    ∀ h, giveAll d (ls ++ ks) h = giveAll d ks (giveAll d ls h) := by
  induction ls with
  | nil => exact fun _ => rfl
  | cons l ls ih => exact fun h => ih _

/-- A party holds what it just took and what it held. -/
theorem holds_takeAll {d e : D} {l : L} (ls : List L) :
    ∀ {h}, Holds e (takeAll d ls h) l ↔ (d = e ∧ l ∈ ls) ∨ Holds e h l := by
  induction ls with
  | nil => simp [takeAll]
  | cons k ls ih =>
      intro h
      rw [takeAll, ih, Holds, List.mem_cons]
      tauto

/-- A party holds what it held, less what it gave back. -/
theorem holds_giveAll {d e : D} {l : L} (ls : List L) :
    ∀ {h}, Holds e (giveAll d ls h) l ↔ ¬ (d = e ∧ l ∈ ls) ∧ Holds e h l := by
  induction ls with
  | nil => simp [giveAll]
  | cons k ls ih =>
      intro h
      rw [giveAll, ih, Holds, List.mem_cons]
      tauto

/-- What has been taken is in the books. -/
theorem taken_takeAll {d : D} {l : L} (ls : List L) :
    ∀ {h}, Taken (takeAll d ls h) l ↔ l ∈ ls ∨ Taken h l := by
  induction ls with
  | nil => simp [takeAll]
  | cons k ls ih =>
      intro h
      rw [takeAll, ih, Taken, List.mem_cons]
      tauto

/-- Taking never soils a ledger, so a clean one was clean before. -/
theorem Clean.of_takeAll {d : D} (ls : List L) : ∀ {h}, Clean (takeAll d ls h) → Clean h := by
  induction ls with
  | nil => exact id
  | cons l ls ih => exact fun hc => (ih hc : Clean (.take d l :: _))

/-- A clean ledger was clean before the things were given back. -/
theorem Clean.of_giveAll {d : D} (ls : List L) : ∀ {h}, Clean (giveAll d ls h) → Clean h := by
  induction ls with
  | nil => exact id
  | cons l ls ih => exact fun hc => (ih hc).2

/-- Whoever holds a list of things may give them all back. -/
theorem Tidy.giveAll {d : D} {ls : List L} :
    ∀ {h}, Tidy h → Backed d h ls → Tidy (giveAll d ls h) := by
  induction ls with
  | nil => exact fun hh _ => hh
  | cons l ls ih =>
      intro h hh hb
      obtain ⟨hl, hls⟩ := List.nodup_cons.mp hb.nodup
      refine ih (hh.give (hb.held l List.mem_cons_self)) ⟨hls, ?_⟩
      intro k hk
      refine ⟨?_, hb.held k (List.mem_cons_of_mem _ hk)⟩
      rintro ⟨-, rfl⟩
      exact hl hk

/-- A party that holds nothing and gives something back. -/
theorem not_clean_giveAll {d : D} {ls : List L} {h : List (Move D L)} (hne : ls ≠ [])
    (hd : ∀ l, ¬ Holds d h l) : ¬ Clean (giveAll d ls h) := by
  cases ls with
  | nil => exact absurd rfl hne
  | cons l ls =>
      intro hc
      have hcl : Clean (.give d l :: h) := Clean.of_giveAll ls hc
      exact hd l hcl.1.1

/-! ## What is handed out -/

/-- The things in `ls` were handed out to `d`, each while it was not taken. -/
structure Granted (d : D) (ls : List L) (h h' : List (Move D L)) : Prop where
  nodup : ls.Nodup
  free : ∀ l ∈ ls, ¬ Taken h l
  moves : h' = takeAll d ls h

section Granted
variable {d : D} {ls ks : List L} {h h₁ h₂ : List (Move D L)}

theorem Granted.nil : Granted d [] h h := ⟨List.nodup_nil, nofun, rfl⟩

/-- One thing that is not taken can be handed out. -/
theorem Granted.one {l : L} (hl : ¬ Taken h l) : Granted d [l] h (.take d l :: h) := by
  refine ⟨List.nodup_singleton l, ?_, rfl⟩
  intro k hk
  rw [List.mem_singleton.mp hk]
  exact hl

/-- What is handed out in two parts is handed out. -/
theorem Granted.trans (hl : Granted d ls h h₁) (hk : Granted d ks h₁ h₂) :
    Granted d (ls ++ ks) h h₂ := by
  obtain ⟨hln, hlf, rfl⟩ := hl
  obtain ⟨hkn, hkf, rfl⟩ := hk
  have hsep : ∀ k ∈ ks, k ∉ ls ∧ ¬ Taken h k := by
    intro k hmem
    have hnot := hkf k hmem
    rw [taken_takeAll] at hnot
    exact not_or.mp hnot
  refine ⟨List.Nodup.append hln hkn ?_, ?_, (takeAll_append d ls ks h).symm⟩
  · exact fun l hl hk => (hsep l hk).1 hl
  · intro l hmem
    rcases List.mem_append.mp hmem with hl | hk
    · exact hlf l hl
    · exact (hsep l hk).2

/-- **HANDING OUT IS SAFE**: the ledger stays tidy. -/
theorem Granted.tidy (hg : Granted d ls h h₁) (hh : Tidy h) : Tidy h₁ := by
  obtain ⟨hn, hf, rfl⟩ := hg
  induction ls generalizing h with
  | nil => exact hh
  | cons l ls ih =>
      obtain ⟨hl, hls⟩ := List.nodup_cons.mp hn
      refine ih (hh.take d (hf l List.mem_cons_self)) hls ?_
      rintro k hk (rfl | hT)
      · exact hl hk
      · exact hf k (List.mem_cons_of_mem _ hk) hT

/-- The party holds what was handed out to it, each thing once. -/
theorem Granted.backed (hg : Granted d ls h h₁) : Backed d h₁ ls := by
  obtain ⟨hn, -, rfl⟩ := hg
  exact ⟨hn, fun l hl => (holds_takeAll ls).mpr (.inl ⟨rfl, hl⟩)⟩

/-- Something may have been handed out and one thing of it given back at once. -/
def Tried (d : D) (h h' : List (Move D L)) : Prop :=
  ∃ ls h₁, Granted d ls h h₁ ∧ (h' = h₁ ∨ ∃ l ∈ ls, h' = .give d l :: h₁)

/-- Handing out without giving anything back is a try as well. -/
theorem Granted.tried (hg : Granted d ls h h₁) : Tried d h h₁ := ⟨ls, h₁, hg, .inl rfl⟩

/-- A try after something was handed out. -/
theorem Granted.trans_tried (hg : Granted d ls h h₁) (ht : Tried d h₁ h₂) : Tried d h h₂ := by
  obtain ⟨ks, h', hk, hend⟩ := ht
  refine ⟨ls ++ ks, h', hg.trans hk, ?_⟩
  rcases hend with rfl | ⟨l, hl, rfl⟩
  · exact .inl rfl
  · exact .inr ⟨l, List.mem_append_right ls hl, rfl⟩

/-- A try leaves the ledger tidy. -/
theorem Tried.tidy (ht : Tried d h h₁) (hh : Tidy h) : Tidy h₁ := by
  obtain ⟨ls, h', hg, rfl | ⟨l, hl, rfl⟩⟩ := ht
  · exact hg.tidy hh
  · exact (hg.tidy hh).give (hg.backed.held l hl)

/-- It was clean before, if it is now. -/
theorem Tried.clean_of (ht : Tried d h h₁) (hc : Clean h₁) : Clean h := by
  obtain ⟨ls, h', ⟨-, -, rfl⟩, rfl | ⟨l, hl, rfl⟩⟩ := ht
  · exact hc.of_takeAll
  · exact Clean.of_takeAll ls hc.2

/-- What the others hold is what they held. -/
theorem Tried.holds_other (ht : Tried d h h₁) {e : D} (he : e ≠ d) {l : L} :
    Holds e h₁ l ↔ Holds e h l := by
  have htake : ∀ ls, Holds e (takeAll d ls h) l ↔ Holds e h l := by
    intro ls
    rw [holds_takeAll]
    exact ⟨fun hor => hor.resolve_left fun hd => he hd.1.symm, .inr⟩
  obtain ⟨ls, h', ⟨-, -, rfl⟩, rfl | ⟨k, hk, rfl⟩⟩ := ht
  · exact htake ls
  · rw [Holds, htake ls]
    exact ⟨fun hand => hand.2, fun hl => ⟨fun hd => he hd.1.symm, hl⟩⟩

end Granted

/-! ## What was held before -/

/-- What is held after the moves, by whomever, if `H` was held before the first. -/
def heldFrom (H : Set L) : List (Move D L) → Set L
  | [] => H
  | .take _ l :: h => insert l (heldFrom H h)
  | .give _ l :: h => heldFrom H h \ {l}

/-- The moves of a list, the last one first. -/
theorem takeAll_eq (d : D) (ls : List L) :
    ∀ h, takeAll d ls h = (ls.map (.take d)).reverse ++ h := by
  induction ls with
  | nil => exact fun _ => rfl
  | cons l ls ih =>
      intro h
      rw [takeAll, ih, List.map_cons, List.reverse_cons, List.append_assoc]
      rfl

theorem giveAll_eq (d : D) (ls : List L) :
    ∀ h, giveAll d ls h = (ls.map (.give d)).reverse ++ h := by
  induction ls with
  | nil => exact fun _ => rfl
  | cons l ls ih =>
      intro h
      rw [giveAll, ih, List.map_cons, List.reverse_cons, List.append_assoc]
      rfl

/-- Afterwards the things of the list are held. -/
theorem mem_heldFrom_takeAll {H : Set L} {d : D} {l : L} (ls : List L) :
    ∀ {h}, l ∈ heldFrom H (takeAll d ls h) ↔ l ∈ ls ∨ l ∈ heldFrom H h := by
  induction ls with
  | nil => simp [takeAll]
  | cons k ls ih =>
      intro h
      rw [takeAll, ih, heldFrom, Set.mem_insert_iff, List.mem_cons]
      tauto

/-- Afterwards they are not. -/
theorem mem_heldFrom_giveAll {H : Set L} {d : D} {l : L} (ls : List L) :
    ∀ {h}, l ∈ heldFrom H (giveAll d ls h) ↔ l ∉ ls ∧ l ∈ heldFrom H h := by
  induction ls with
  | nil => simp [giveAll]
  | cons k ls ih =>
      intro h
      rw [giveAll, ih, heldFrom, Set.mem_sdiff, Set.mem_singleton_iff, List.mem_cons]
      tauto

/-- What one party gives back changes nothing for another. -/
theorem holds_giveAll_other {d e : D} (he : e ≠ d) {ls : List L} {h : List (Move D L)} {l : L} :
    Holds e (giveAll d ls h) l ↔ Holds e h l := by
  rw [holds_giveAll]
  exact ⟨fun hand => hand.2, fun hl => ⟨fun hd => he hd.1.symm, hl⟩⟩

end Ledger
