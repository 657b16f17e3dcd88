import Mathlib.Algebra.Group.Nat.Defs
import Mathlib.Data.List.Basic

/-! # User memory — what crosses between the kernel and a process

    A system call reads its arguments from the memory of the calling process and
    leaves its results there.  The process may have passed any address, so
    `copy_from_user` and `copy_to_user` go as far as the memory can be accessed
    and return how many bytes they did not copy; what `copy_from_user` could not
    read is 0 in the kernel's copy.  Addresses have 64 bits and wrap; numbers are
    stored little-endian. -/

namespace UserMemory

/-- The memory of a process and what the process may do with it: a page it can write
    it can read.  No address of the kernel is among them. -/
structure UserMem where
  byte : BitVec 64 → BitVec 8
  readable : BitVec 64 → Bool
  writable : BitVec 64 → Bool
  readable_of_writable : ∀ a, writable a = true → readable a = true

section Bytes

/-- The bytes of a number, the lowest first. -/
def bytesOf : Nat → Nat → List (BitVec 8)
  | 0, _ => []
  | n + 1, v => BitVec.ofNat 8 v :: bytesOf n (v / 256)

/-- The number that bytes stand for. -/
def littleEndian : List (BitVec 8) → Nat
  | [] => 0
  | b :: bs => b.toNat + 256 * littleEndian bs

@[simp] theorem length_bytesOf (n v : Nat) : (bytesOf n v).length = n := by
  induction n generalizing v with
  | zero => rfl
  | succ n ih => rw [bytesOf, List.length_cons, ih]

/-- The bytes of a number are read back as it is stored. -/
theorem littleEndian_bytesOf (n v : Nat) : littleEndian (bytesOf n v) = v % 256 ^ n := by
  induction n generalizing v with
  | zero => rw [Nat.pow_zero, Nat.mod_one]; rfl
  | succ n ih =>
      have hpow : 256 ^ (n + 1) = 256 * 256 ^ n := Nat.pow_succ'
      rw [bytesOf, littleEndian, ih, BitVec.toNat_ofNat, hpow, Nat.mod_mul]

end Bytes

variable {u : UserMem} {ok : BitVec 64 → Bool} {a : BitVec 64} {n : Nat} {bs : List (BitVec 8)}

/-! ## Bytes in place -/

def UserMem.set (u : UserMem) (a : BitVec 64) (b : BitVec 8) : UserMem :=
  { u with byte := fun x => if x = a then b else u.byte x }

/-- The bytes from an address on. -/
def UserMem.store (u : UserMem) (a : BitVec 64) : List (BitVec 8) → UserMem
  | [] => u
  | b :: bs => (u.set a b).store (a + 1) bs

/-- The bytes from an address on. -/
def UserMem.load (u : UserMem) (a : BitVec 64) (n : Nat) : List (BitVec 8) :=
  (List.range n).map fun i => u.byte (a + BitVec.ofNat 64 i)

/-- `n` bytes from an address on can all be accessed. -/
def Within (ok : BitVec 64 → Bool) (a : BitVec 64) (n : Nat) : Prop :=
  ∀ i < n, ok (a + BitVec.ofNat 64 i) = true

/-- How many of `n` bytes can be accessed before the first that cannot. -/
def reach (ok : BitVec 64 → Bool) : BitVec 64 → Nat → Nat
  | _, 0 => 0
  | a, n + 1 => if ok a then reach ok (a + 1) n + 1 else 0

theorem succ_add (a : BitVec 64) (i : Nat) :
    a + 1 + BitVec.ofNat 64 i = a + BitVec.ofNat 64 (i + 1) := by
  have hsucc : BitVec.ofNat 64 (i + 1) = 1 + BitVec.ofNat 64 i := by
    rw [Nat.add_comm, BitVec.ofNat_add]
    rfl
  rw [hsucc, ← BitVec.add_assoc]

theorem length_load : (u.load a n).length = n := by
  rw [UserMem.load, List.length_map, List.length_range]

@[simp] theorem writable_store : (u.store a bs).writable = u.writable := by
  induction bs generalizing u a with
  | nil => rfl
  | cons b bs ih => exact ih

/-- Bytes are stored one part behind the other. -/
theorem store_append (xs ys : List (BitVec 8)) :
    u.store a (xs ++ ys) = (u.store a xs).store (a + BitVec.ofNat 64 xs.length) ys := by
  induction xs generalizing u a with
  | nil => rw [List.length_nil, BitVec.add_zero]; rfl
  | cons x xs ih =>
      rw [List.cons_append, UserMem.store, UserMem.store, ih, List.length_cons, succ_add]

/-- A store that does not go round the address space puts every byte in its place. -/
theorem byte_store (hlen : bs.length ≤ 2 ^ 64) (x : BitVec 64) :
    (u.store a bs).byte x = (bs[(x - a).toNat]?).getD (u.byte x) := by
  induction bs generalizing u a with
  | nil => rfl
  | cons b bs ih =>
      rw [List.length_cons] at hlen
      rw [UserMem.store, ih (by omega)]
      by_cases hx : x = a
      · subst hx
        have hfar : (x - (x + 1)).toNat = 2 ^ 64 - 1 := by
          rw [show x - (x + 1) = -1 by grind]
          rfl
        rw [hfar, List.getElem?_eq_none (by omega), BitVec.sub_self]
        exact if_pos rfl
      · have hnext : (x - a).toNat = (x - (a + 1)).toNat + 1 := by
          have hne : x.toNat ≠ a.toNat := fun h => hx (BitVec.eq_of_toNat_eq h)
          bv_omega
        rw [hnext, List.getElem?_cons_succ]
        exact congrArg _ (if_neg hx)

/-- What was stored is read back. -/
theorem load_store (hlen : bs.length ≤ 2 ^ 64) : (u.store a bs).load a bs.length = bs := by
  refine List.ext_getElem length_load fun i _ hi => ?_
  have hback : (a + BitVec.ofNat 64 i - a).toNat = i := by
    rw [BitVec.add_comm, BitVec.add_sub_cancel, BitVec.toNat_ofNat]
    exact Nat.mod_eq_of_lt (by omega)
  simp only [UserMem.load, List.getElem_map, List.getElem_range]
  rw [byte_store hlen, hback, List.getElem?_eq_getElem hi]
  rfl

/-- **WHAT IS STORED IS LOADED.** -/
theorem load_bytesOf (u : UserMem) (a : BitVec 64) (hn : n ≤ 2 ^ 64) (v : Nat) :
    (u.store a (bytesOf n v)).load a n = bytesOf n v := by
  have hlen : (bytesOf n v).length ≤ 2 ^ 64 := by
    rw [length_bytesOf]
    exact hn
  have h : (u.store a (bytesOf n v)).load a (bytesOf n v).length = bytesOf n v := load_store hlen
  rwa [length_bytesOf] at h

/-- A range in two parts. -/
theorem Within.append {m : Nat} (h : Within ok a (n + m)) :
    Within ok a n ∧ Within ok (a + BitVec.ofNat 64 n) m := by
  refine ⟨fun i hi => h i (by omega), fun i hi => ?_⟩
  rw [BitVec.add_assoc, ← BitVec.ofNat_add]
  exact h (n + i) (by omega)

theorem reach_le : reach ok a n ≤ n := by
  induction n generalizing a with
  | zero => exact Nat.le_refl 0
  | succ n ih =>
      rw [reach]
      split
      · exact Nat.succ_le_succ ih
      · exact Nat.zero_le _

theorem reach_eq_iff : reach ok a n = n ↔ Within ok a n := by
  induction n generalizing a with
  | zero => exact ⟨fun _ i hi => absurd hi (Nat.not_lt_zero i), fun _ => rfl⟩
  | succ n ih =>
      have hhead : a + BitVec.ofNat 64 0 = a := BitVec.add_zero a
      rw [reach]
      constructor
      · intro h
        split at h
        · rename_i ha
          intro i hi
          cases i with
          | zero => rw [hhead]; exact ha
          | succ i => rw [← succ_add]; exact ih.mp (Nat.succ.inj h) i (by omega)
        · cases h
      · intro h
        have ha := h 0 (Nat.succ_pos n)
        rw [hhead] at ha
        rw [if_pos ha, ih.mpr]
        intro i hi
        rw [succ_add]
        exact h (i + 1) (by omega)

/-! ## The two copies -/

/-- `copy_to_user`: the memory afterwards and how many bytes were not copied. -/
def copyToUser (u : UserMem) (dst : BitVec 64) (src : List (BitVec 8)) : UserMem × Nat :=
  let k := reach u.writable dst src.length
  (u.store dst (src.take k), src.length - k)

/-- `copy_from_user`: what the kernel has afterwards and how many bytes were not
    copied. -/
def copyFromUser (u : UserMem) (src : BitVec 64) (n : Nat) : List (BitVec 8) × Nat :=
  let k := reach u.readable src n
  (u.load src k ++ List.replicate (n - k) 0, n - k)

/-- A copy to memory that can be written is complete. -/
theorem copyToUser_within (h : Within u.writable a bs.length) :
    copyToUser u a bs = (u.store a bs, 0) := by
  rw [copyToUser, reach_eq_iff.mpr h, List.take_length, Nat.sub_self]

/-- Nothing is copied to an address that the process cannot write. -/
theorem copyToUser_refused (h : u.writable a = false) : (copyToUser u a bs).1 = u := by
  have hreach : reach u.writable a bs.length = 0 := by
    cases bs with
    | nil => rfl
    | cons b bs => rw [List.length_cons, reach, if_neg (by rw [h]; exact Bool.false_ne_true)]
  rw [copyToUser, hreach, List.take_zero]
  rfl

/-- A copy from memory that can be read is complete. -/
theorem copyFromUser_within (h : Within u.readable a n) : copyFromUser u a n = (u.load a n, 0) := by
  rw [copyFromUser, reach_eq_iff.mpr h, Nat.sub_self, List.replicate_zero, List.append_nil]

theorem take_load {m : Nat} (h : m ≤ n) : (u.load a n).take m = u.load a m := by
  rw [UserMem.load, ← List.map_take, List.take_range, Nat.min_eq_left h]
  rfl

/-- Everything was copied exactly when everything can be accessed. -/
theorem copyToUser_eq_zero_iff : (copyToUser u a bs).2 = 0 ↔ Within u.writable a bs.length := by
  have hle : reach u.writable a bs.length ≤ bs.length := reach_le
  rw [← reach_eq_iff, copyToUser]
  dsimp only
  omega

end UserMemory
