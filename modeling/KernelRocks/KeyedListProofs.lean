import Mathlib.Data.List.Nodup
import Mathlib.Data.List.Perm.Subperm

/-! # Lists searched by a key

    The drivers keep their objects on kernel lists and find them by walking the
    list until a key matches: `list_for_each` over the records of the processes,
    over the barriers of a record, over a hash bucket.  This file holds what
    does not depend on the objects: `lookup` is that walk, `UniqueKeys` says that no
    key occurs twice, and the lemmas say what an insertion in front and a
    removal do to every lookup. -/

namespace KeyedList

variable {α κ : Type} {key : α → κ} {l : List α}

/-! ## Lists without a repeated key -/

/-- No key occurs twice. -/
def UniqueKeys (key : α → κ) (l : List α) : Prop := (l.map key).Nodup

theorem uniqueKeys_nil : UniqueKeys key [] := List.nodup_nil

/-- A key names one element. -/
theorem UniqueKeys.eq_of_key (h : UniqueKeys key l) {x y : α} (hx : x ∈ l) (hy : y ∈ l)
    (hk : key x = key y) : x = y :=
  List.inj_on_of_nodup_map h hx hy hk

theorem UniqueKeys.nodup (h : UniqueKeys key l) : l.Nodup := List.Nodup.of_map key h

theorem UniqueKeys.sublist (h : UniqueKeys key l) {l' : List α} (hs : l'.Sublist l) :
    UniqueKeys key l' :=
  List.Nodup.sublist (hs.map key) h

theorem UniqueKeys.congr (h : UniqueKeys key l) {key' : α → κ} (hk : ∀ x ∈ l, key x = key' x) :
    UniqueKeys key' l := by
  rw [UniqueKeys, ← List.map_congr_left hk]
  exact h

/-! ## Counting numbers -/

/-- Different numbers below `n` are at most `n`, and if they are `n` they are all
    of them. -/
theorem length_le_of_nodup {l : List Nat} {n : Nat} (hd : l.Nodup) (hlt : ∀ k ∈ l, k < n) :
    l.length ≤ n := by
  have hsub := List.subperm_of_subset hd fun k hk => List.mem_range.mpr (hlt k hk)
  simpa using hsub.length_le

/-- `n` different numbers below `n` are all of them. -/
theorem mem_of_nodup_of_length {l : List Nat} {n : Nat} (hd : l.Nodup) (hlt : ∀ k ∈ l, k < n)
    (hlen : l.length = n) {k : Nat} (hk : k < n) : k ∈ l := by
  have hsub := List.subperm_of_subset hd fun k hk => List.mem_range.mpr (hlt k hk)
  have hperm := hsub.perm_of_length_le (by simp [hlen])
  exact hperm.mem_iff.mpr (List.mem_range.mpr hk)

/-! ## The walk -/

section Lookup
variable [DecidableEq κ]

/-- The first element with the key. -/
def lookup (key : α → κ) (l : List α) (k : κ) : Option α := l.find? fun x => key x = k

theorem lookup_cons (x : α) (k : κ) :
    lookup key (x :: l) k = if key x = k then some x else lookup key l k := by
  rw [lookup, List.find?_cons]
  by_cases h : key x = k
  · simp [h]
  · simp [h, lookup]

theorem mem_of_lookup {k : κ} {x : α} (h : lookup key l k = some x) : x ∈ l ∧ key x = k :=
  ⟨List.mem_of_find?_eq_some h, by simpa using List.find?_some h⟩

/-- A key that is not found is not there. -/
theorem lookup_eq_none_iff {k : κ} : lookup key l k = none ↔ ∀ x ∈ l, key x ≠ k := by
  simp [lookup, List.find?_eq_none]

/-- Only the keys of the elements matter. -/
theorem lookup_congr {key' : α → κ} (h : ∀ x ∈ l, key x = key' x) (k : κ) :
    lookup key l k = lookup key' l k := by
  induction l with
  | nil => rfl
  | cons x l ih =>
      rw [lookup_cons, lookup_cons, h x (List.mem_cons_self ..)]
      rw [ih fun y hy => h y (List.mem_cons_of_mem _ hy)]

/-- With unique keys the walk finds whatever is there. -/
theorem lookup_eq_some_iff (h : UniqueKeys key l) {k : κ} {x : α} :
    lookup key l k = some x ↔ x ∈ l ∧ key x = k := by
  constructor
  · exact mem_of_lookup
  · rintro ⟨hx, hk⟩
    cases hy : lookup key l k with
    | none => exact absurd hk (lookup_eq_none_iff.mp hy x hx)
    | some y =>
        obtain ⟨hmem, hky⟩ := mem_of_lookup hy
        rw [h.eq_of_key hmem hx (hky.trans hk.symm)]

/-- An element whose key is not found may be put in front. -/
theorem UniqueKeys.cons (h : UniqueKeys key l) {x : α} (hx : lookup key l (key x) = none) :
    UniqueKeys key (x :: l) := by
  refine List.nodup_cons.mpr ⟨fun hm => ?_, h⟩
  obtain ⟨y, hy, hk⟩ := List.mem_map.mp hm
  exact lookup_eq_none_iff.mp hx y hy hk

/-- Removing an element takes its key away and leaves every other lookup. -/
theorem lookup_erase [DecidableEq α] (h : UniqueKeys key l) {x : α} (hx : x ∈ l) (k : κ) :
    lookup key (l.erase x) k = if key x = k then none else lookup key l k := by
  induction l with
  | nil => cases hx
  | cons y l ih =>
      obtain ⟨hy, hl⟩ := List.nodup_cons.mp h
      by_cases hyx : y = x
      · subst hyx
        rw [List.erase_cons_head, lookup_cons]
        split
        · rename_i hk
          refine lookup_eq_none_iff.mpr fun z hz hzk => hy ?_
          exact List.mem_map.mpr ⟨z, hz, hzk.trans hk.symm⟩
        · rfl
      · have hxl : x ∈ l := by
          rcases List.mem_cons.mp hx with hxy | hxl
          · exact absurd hxy.symm hyx
          · exact hxl
        rw [List.erase_cons_tail (by simpa using hyx), lookup_cons, lookup_cons, ih hl hxl]
        by_cases hyk : key y = k
        · have hxk : key x ≠ k := fun hxk => hy (List.mem_map.mpr ⟨x, hxl, hxk.trans hyk.symm⟩)
          rw [if_pos hyk, if_neg hxk, if_pos hyk]
        · rw [if_neg hyk, if_neg hyk]

/-! ## Writing in place and removing by key -/

/-- The first element with the key of `x` becomes `x`. -/
def put (key : α → κ) (x : α) : List α → List α
  | [] => []
  | y :: l => if key y = key x then x :: l else y :: put key x l

/-- The first element with the key goes. -/
def remove (key : α → κ) (k : κ) (l : List α) : List α := l.eraseP fun x => key x = k

theorem map_put (x : α) : (put key x l).map key = l.map key := by
  induction l with
  | nil => rfl
  | cons y l ih =>
      rw [put]
      split
      · rename_i h
        rw [List.map_cons, List.map_cons, h]
      · rw [List.map_cons, List.map_cons, ih]

theorem length_put (x : α) : (put key x l).length = l.length := by
  have h : (put key x l).map key = l.map key := map_put x
  have hlen := congrArg List.length h
  rwa [List.length_map, List.length_map] at hlen

/-- What is there after `put` was there, or is what was put. -/
theorem mem_put {x y : α} (h : y ∈ put key x l) : y = x ∨ y ∈ l := by
  induction l with
  | nil => cases h
  | cons z l ih =>
      rw [put] at h
      split at h
      · rcases List.mem_cons.mp h with hy | hy
        · exact Or.inl hy
        · exact Or.inr (List.mem_cons_of_mem _ hy)
      · rcases List.mem_cons.mp h with hy | hy
        · exact Or.inr (hy ▸ List.mem_cons_self ..)
        · rcases ih hy with hx | hl
          · exact Or.inl hx
          · exact Or.inr (List.mem_cons_of_mem _ hl)

/-- Writing in place where the key is there. -/
theorem lookup_put {x : α} (hx : (lookup key l (key x)).isSome) (k : κ) :
    lookup key (put key x l) k = if key x = k then some x else lookup key l k := by
  induction l with
  | nil => cases hx
  | cons y l ih =>
      rw [put]
      by_cases hyx : key y = key x
      · rw [if_pos hyx, lookup_cons, lookup_cons, hyx]
        by_cases hk : key x = k
        · rw [if_pos hk, if_pos hk]
        · rw [if_neg hk, if_neg hk, if_neg hk]
      · rw [lookup_cons, if_neg hyx] at hx
        rw [if_neg hyx, lookup_cons, lookup_cons, ih hx]
        by_cases hyk : key y = k
        · have hxk : key x ≠ k := fun h => hyx (hyk.trans h.symm)
          rw [if_pos hyk, if_neg hxk, if_pos hyk]
        · rw [if_neg hyk, if_neg hyk]

/-- Removing a key leaves every other lookup. -/
theorem lookup_remove (h : UniqueKeys key l) (k k' : κ) :
    lookup key (remove key k l) k' = if k = k' then none else lookup key l k' := by
  induction l with
  | nil => rw [remove, List.eraseP_nil]; split <;> rfl
  | cons y l ih =>
      obtain ⟨hy, hl⟩ := List.nodup_cons.mp h
      by_cases hyk : key y = k
      · have hnone : lookup key l k = none :=
          lookup_eq_none_iff.mpr fun z hz hzk => hy (List.mem_map.mpr ⟨z, hz, hzk.trans hyk.symm⟩)
        rw [remove, List.eraseP_cons_of_pos (by simpa using hyk), lookup_cons, hyk]
        split
        · rename_i hkk
          exact hkk ▸ hnone
        · rfl
      · rw [remove, List.eraseP_cons_of_neg (by simpa using hyk), lookup_cons, lookup_cons]
        rw [show lookup key (l.eraseP fun x => key x = k) k' = _ from ih hl]
        by_cases hyk' : key y = k'
        · have hkk : k ≠ k' := fun he => hyk (hyk'.trans he.symm)
          rw [if_pos hyk', if_neg hkk, if_pos hyk']
        · rw [if_neg hyk', if_neg hyk']

/-! ## Lists of references

    A list that stands for the one of what its elements point to: `f` is what is at a
    reference. -/

section Image
variable {β : Type} {f : β → α} {as : List β} {k : κ} {a : β}

theorem lookup_map : lookup key (as.map f) k = (lookup (fun b => key (f b)) as k).map f := by
  induction as with
  | nil => rfl
  | cons b as ih =>
      rw [List.map_cons, lookup_cons, lookup_cons]
      by_cases hb : key (f b) = k
      · rw [if_pos hb, if_pos hb]
        rfl
      · rw [if_neg hb, if_neg hb, ih]

/-- Removing by the key is removing the reference that the walk finds. -/
theorem remove_map [DecidableEq β] (h : lookup (fun b => key (f b)) as k = some a) :
    remove key k (as.map f) = (as.erase a).map f := by
  induction as with
  | nil => cases h
  | cons b as ih =>
      rw [lookup_cons] at h
      rw [remove, List.map_cons]
      by_cases hb : key (f b) = k
      · rw [if_pos hb] at h
        cases h
        rw [List.eraseP_cons_of_pos (by simpa using hb), List.erase_cons_head]
      · rw [if_neg hb] at h
        have hne : b ≠ a := by
          rintro rfl
          exact hb (mem_of_lookup h).2
        rw [List.eraseP_cons_of_neg (by simpa using hb), List.erase_cons_tail (by simpa using hne),
          List.map_cons]
        exact congrArg (f b :: ·) (ih h)

/-- Writing in place is writing where the reference points that the walk finds. -/
theorem put_map [DecidableEq β] (hd : as.Nodup) {x : α}
    (h : lookup (fun b => key (f b)) as (key x) = some a) :
    put key x (as.map f) = as.map (Function.update f a x) := by
  induction as with
  | nil => cases h
  | cons b as ih =>
      obtain ⟨hb, has⟩ := List.nodup_cons.mp hd
      rw [lookup_cons] at h
      rw [List.map_cons, put, List.map_cons]
      by_cases hk : key (f b) = key x
      · rw [if_pos hk] at h
        cases h
        rw [if_pos hk, Function.update_self]
        refine congrArg (x :: ·) (List.map_congr_left fun c hc => ?_)
        rw [Function.update_of_ne fun hca : c = a => hb (hca ▸ hc)]
      · rw [if_neg hk] at h
        have hne : b ≠ a := by
          rintro rfl
          exact hk (mem_of_lookup h).2
        rw [if_neg hk, Function.update_of_ne hne, ih has h]

end Image

/-- Removing a key that is found makes the list one shorter. -/
theorem length_remove {k : κ} {x : α} (hx : lookup key l k = some x) :
    (remove key k l).length + 1 = l.length := by
  obtain ⟨hmem, hk⟩ := mem_of_lookup hx
  have hpos := List.length_pos_of_mem hmem
  rw [remove, List.length_eraseP_of_mem hmem (by simpa using hk)]
  omega

end Lookup

end KeyedList
