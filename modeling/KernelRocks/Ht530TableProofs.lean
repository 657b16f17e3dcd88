import KernelRocks.KeyedListProofs
import Mathlib.Algebra.BigOperators.Fin
import Mathlib.Data.List.FinRange
import Mathlib.Logic.Function.Basic

/-! # The ht530 hash table — writes and reads on 128 buckets

    `ht530.c` keeps pairs of a 32-bit key and 32-bit data in a kernel hash table
    of 2^7 buckets and a counter `cur_size` beside it.  A write with data 0
    deletes, any other write inserts or overwrites.  This file embeds
    `find_the_bucket`, `find_the_node`, `ht530_write` and `ht530_read`, with
    what the copies from and to the caller can do, and proves that the table
    is a finite map: `table_refines_map`, for every sequence of complete calls
    whose copies succeed.

    * `hash` is `hash_min(key, HT530_HT_BITS)`, any function of the key.
    * `unsigned long` and `size_t` have 64 bits, `int` has 32; the structure is
      laid out little-endian. -/

namespace Ht530

open KeyedList

/-- `ht_object_t`. -/
structure Pair where
  key : BitVec 32
  data : BitVec 32
  deriving DecidableEq

/-- `EINVAL`. -/
def einval : Int := 22

/-- The four bytes of an `int`. -/
def intBytes (x : BitVec 32) : List (BitVec 8) :=
  [x.extractLsb' 0 8, x.extractLsb' 8 8, x.extractLsb' 16 8, x.extractLsb' 24 8]

/-- The structure in memory. -/
def Pair.bytes (x : Pair) : List (BitVec 8) := intBytes x.key ++ intBytes x.data

/-- What `copy_from_user` makes of a structure when its last `left` bytes could not
    be read: they are 0. -/
def Pair.truncate (x : Pair) (left : Nat) : Pair :=
  let whole : BitVec 64 := x.data ++ x.key
  let got : BitVec 64 := (whole.setWidth (8 * (8 - left))).setWidth 64
  ⟨got.extractLsb' 0 32, got.extractLsb' 32 32⟩

theorem truncate_zero (x : Pair) : x.truncate 0 = x := by
  obtain ⟨k, d⟩ := x
  simp only [Pair.truncate, Nat.sub_zero, Nat.reduceMul, BitVec.setWidth_eq]
  have hk : (d ++ k).extractLsb' 0 32 = k := BitVec.extractLsb'_append_eq_right
  have hd : (d ++ k).extractLsb' 32 32 = d := BitVec.extractLsb'_append_eq_left
  rw [hk, hd]

/-- `DEFINE_HASHTABLE(ht530_tbl, HT530_HT_BITS)` and `cur_size`. -/
structure Table where
  bucket : Fin 128 → List Pair
  curSize : BitVec 64

/-- The module has just been loaded. -/
def Table.empty : Table := ⟨fun _ => [], 0⟩

def Table.setBucket (T : Table) (i : Fin 128) (l : List Pair) (size : BitVec 64) : Table :=
  ⟨Function.update T.bucket i l, size⟩

section Calls
variable (hash : BitVec 32 → Fin 128)

/-- `find_the_bucket`: NULL for an empty bucket. -/
def findTheBucket (T : Table) (key : BitVec 32) : Option (List Pair) :=
  if (T.bucket (hash key)).isEmpty then none else some (T.bucket (hash key))

/-- `find_the_node(key, NULL)`. -/
def findTheNode (T : Table) (key : BitVec 32) : Option Pair :=
  match findTheBucket hash T key with
  | none => none
  | some bucket => bucket.find? fun node => node.key = key

/-- `ht530_write`: `left` bytes of the argument could not be copied. -/
def ht530Write (T : Table) (buf : Pair) (left : Nat) : Table × Int :=
  let uitem := buf.truncate left
  let failedCopy := BitVec.ofNat 32 left
  let bucket := T.bucket (hash uitem.key)
  if failedCopy.toInt < 0 then (T, -einval)
  else
    match findTheNode hash T uitem.key with
    | none =>
        if uitem.data = 0 then (T, 0)
        -- hash_add puts the node in front, the pair is stored below
        else (T.setBucket (hash uitem.key) (uitem :: bucket) (T.curSize + 1), 0)
    | some _ =>
        if uitem.data ≠ 0 then
          (T.setBucket (hash uitem.key) (put Pair.key uitem bucket) T.curSize, 0)
        else
          (T.setBucket (hash uitem.key) (remove Pair.key uitem.key bucket) (T.curSize - 1), 0)

/-- `ht530_read`: what it returns and the bytes it delivers.  `count` is the
    caller's, `beyond` the memory behind the pair of the node, `left` and
    `leftOut` what the two copies could not copy. -/
def ht530Read (T : Table) (beyond : Nat → BitVec 8) (buf : Pair) (left : Nat)
    (count : BitVec 64) (leftOut : Nat) : Int × List (BitVec 8) :=
  let uitem := buf.truncate left
  if (BitVec.ofNat 32 left).toInt < 0 then (-einval, [])
  else
    match findTheNode hash T uitem.key with
    | none => (-einval, [])
    | some kitem =>
        let source := kitem.bytes ++ (List.range (count.toNat - kitem.bytes.length)).map beyond
        let delivered := source.take (count.toNat - leftOut)
        let failedCopy := BitVec.ofNat 32 leftOut
        if failedCopy.toInt < 0 then (-einval, delivered)
        else ((count - failedCopy.signExtend 64).toInt, delivered)

end Calls

/-! ## Sequences of calls -/

/-- A complete call whose copies succeed. -/
inductive Request where
  | write (x : Pair)
  | read (key : BitVec 32)

section Runs
variable (hash : BitVec 32 → Fin 128)

/-- A read leaves the table as it is. -/
def serve (T : Table) : Request → Table
  | .write x => (ht530Write hash T x 0).1
  | .read _ => T

/-- The table after a sequence of calls. -/
def after (reqs : List Request) : Table := reqs.foldl (serve hash) Table.empty

end Runs

/-- What is known of a key after one more call. -/
def Request.data (key : BitVec 32) (d : BitVec 32) : Request → BitVec 32
  | .write x => if x.key = key then x.data else d
  | .read _ => d

/-- The data of the last write to a key, 0 if there was none. -/
def lastWrite (key : BitVec 32) (reqs : List Request) : BitVec 32 :=
  reqs.foldl (Request.data key) 0

/-! ## The invariant -/

def Table.total (T : Table) : Nat := ∑ i, (T.bucket i).length

/-- All nodes, bucket by bucket. -/
def Table.nodes (T : Table) : List Pair := (List.finRange 128).flatMap T.bucket

/-- Nodes are in their buckets, once for each key, with data; `cur_size` counts
    them. -/
structure Hashed (hash : BitVec 32 → Fin 128) (T : Table) : Prop where
  placed : ∀ i, ∀ x ∈ T.bucket i, hash x.key = i
  unique : ∀ i, UniqueKeys Pair.key (T.bucket i)
  live : ∀ i, ∀ x ∈ T.bucket i, x.data ≠ 0
  size : T.curSize = BitVec.ofNat 64 T.total

section Invariant
variable {hash : BitVec 32 → Fin 128} {T : Table}

theorem findTheNode_eq (key : BitVec 32) :
    findTheNode hash T key = lookup Pair.key (T.bucket (hash key)) key := by
  rw [findTheNode, findTheBucket]
  split
  · rename_i h
    split at h
    · rename_i he
      rw [List.isEmpty_iff.mp he]
      rfl
    · cases h
  · rename_i l h
    split at h
    · cases h
    · cases h
      rfl

theorem hashed_empty : Hashed hash Table.empty where
  placed _ _ h := nomatch h
  unique _ := uniqueKeys_nil
  live _ _ h := nomatch h
  size := by
    simp [Table.empty, Table.total]

theorem bucket_setBucket_self {i : Fin 128} {l : List Pair} {size : BitVec 64} :
    (T.setBucket i l size).bucket i = l :=
  Function.update_self ..

theorem bucket_setBucket_other {i j : Fin 128} {l : List Pair} {size : BitVec 64} (h : j ≠ i) :
    (T.setBucket i l size).bucket j = T.bucket j :=
  Function.update_of_ne h ..

theorem total_setBucket (i : Fin 128) (l : List Pair) (size : BitVec 64) :
    (T.setBucket i l size).total + (T.bucket i).length = T.total + l.length := by
  have hsame : ∑ j ∈ Finset.univ.erase i, ((T.setBucket i l size).bucket j).length
      = ∑ j ∈ Finset.univ.erase i, (T.bucket j).length := by
    refine Finset.sum_congr rfl fun j hj => ?_
    rw [bucket_setBucket_other (Finset.ne_of_mem_erase hj)]
  have hself : ((T.setBucket i l size).bucket i).length = l.length := by
    rw [bucket_setBucket_self]
  have h1 := Finset.add_sum_erase Finset.univ (fun j => ((T.setBucket i l size).bucket j).length)
    (Finset.mem_univ i)
  have h2 := Finset.add_sum_erase Finset.univ (fun j => (T.bucket j).length) (Finset.mem_univ i)
  rw [Table.total, Table.total, ← h1, ← h2, hsame, hself]
  omega

/-- A bucket is replaced by one that keeps the invariant. -/
theorem Hashed.setBucket (h : Hashed hash T) {i : Fin 128} {l : List Pair} {size : BitVec 64}
    (hp : ∀ x ∈ l, hash x.key = i) (hu : UniqueKeys Pair.key l) (hl : ∀ x ∈ l, x.data ≠ 0)
    (hs : size = BitVec.ofNat 64 (T.setBucket i l size).total) :
    Hashed hash (T.setBucket i l size) where
  placed j x hx := by
    by_cases hj : j = i
    · subst hj
      rw [bucket_setBucket_self] at hx
      exact hp x hx
    · rw [bucket_setBucket_other hj] at hx
      exact h.placed j x hx
  unique j := by
    by_cases hj : j = i
    · subst hj
      rw [bucket_setBucket_self]
      exact hu
    · rw [bucket_setBucket_other hj]
      exact h.unique j
  live j x hx := by
    by_cases hj : j = i
    · subst hj
      rw [bucket_setBucket_self] at hx
      exact hl x hx
    · rw [bucket_setBucket_other hj] at hx
      exact h.live j x hx
  size := hs

/-- Looking up a key after one bucket was replaced. -/
theorem findTheNode_setBucket {i : Fin 128} {l : List Pair} {size : BitVec 64} (key : BitVec 32) :
    findTheNode hash (T.setBucket i l size) key
      = if hash key = i then lookup Pair.key l key else findTheNode hash T key := by
  rw [findTheNode_eq, findTheNode_eq]
  by_cases hi : hash key = i
  · rw [if_pos hi, hi, bucket_setBucket_self]
  · rw [if_neg hi, bucket_setBucket_other hi]

/-! ## One write -/

/-- The write as the source runs it when the copy succeeds. -/
theorem write_eq (x : Pair) :
    (ht530Write hash T x 0).1 = match findTheNode hash T x.key with
      | none => if x.data = 0 then T
          else T.setBucket (hash x.key) (x :: T.bucket (hash x.key)) (T.curSize + 1)
      | some _ => if x.data ≠ 0
          then T.setBucket (hash x.key) (put Pair.key x (T.bucket (hash x.key))) T.curSize
          else T.setBucket (hash x.key) (remove Pair.key x.key (T.bucket (hash x.key)))
            (T.curSize - 1) := by
  rw [ht530Write, truncate_zero]
  have h0 : ¬ (BitVec.ofNat 32 0).toInt < 0 := by decide
  simp only [if_neg h0]
  cases findTheNode hash T x.key with
  | none =>
      dsimp only
      split <;> rfl
  | some y =>
      dsimp only
      split <;> rfl

theorem Hashed.write (h : Hashed hash T) (x : Pair) : Hashed hash (ht530Write hash T x 0).1 := by
  rw [write_eq]
  cases hx : findTheNode hash T x.key with
  | none =>
      rw [findTheNode_eq] at hx
      dsimp only
      split
      · exact h
      · rename_i hd
        refine h.setBucket ?_ ((h.unique _).cons hx) ?_ ?_
        · intro y hy
          rcases List.mem_cons.mp hy with rfl | hy
          · rfl
          · exact h.placed _ y hy
        · intro y hy
          rcases List.mem_cons.mp hy with rfl | hy
          · exact hd
          · exact h.live _ y hy
        · have ht := total_setBucket (T := T) (hash x.key) (x :: T.bucket (hash x.key))
            (T.curSize + 1)
          rw [List.length_cons] at ht
          have ht' : (T.setBucket (hash x.key) (x :: T.bucket (hash x.key))
              (T.curSize + 1)).total = T.total + 1 := by omega
          rw [ht', BitVec.ofNat_add, h.size]
          rfl
  | some y =>
      rw [findTheNode_eq] at hx
      dsimp only
      split
      · rename_i hd
        have hput : ∀ z ∈ put Pair.key x (T.bucket (hash x.key)),
            z = x ∨ z ∈ T.bucket (hash x.key) :=
          fun z hz => mem_put hz
        refine h.setBucket ?_ ?_ ?_ ?_
        · intro z hz
          rcases hput z hz with rfl | hz
          · rfl
          · exact h.placed _ z hz
        · rw [UniqueKeys, map_put]
          exact h.unique _
        · intro z hz
          rcases hput z hz with rfl | hz
          · exact hd
          · exact h.live _ z hz
        · have ht := total_setBucket (T := T) (hash x.key)
            (put Pair.key x (T.bucket (hash x.key))) T.curSize
          rw [length_put] at ht
          have ht' : (T.setBucket (hash x.key) (put Pair.key x (T.bucket (hash x.key)))
              T.curSize).total = T.total := by omega
          rw [ht']
          exact h.size
      · have hsub : (remove Pair.key x.key (T.bucket (hash x.key))).Sublist
            (T.bucket (hash x.key)) :=
          List.eraseP_sublist
        refine h.setBucket ?_ ((h.unique _).sublist hsub) ?_ ?_
        · intro z hz
          exact h.placed _ z (hsub.subset hz)
        · intro z hz
          exact h.live _ z (hsub.subset hz)
        · have ht := total_setBucket (T := T) (hash x.key)
            (remove Pair.key x.key (T.bucket (hash x.key))) (T.curSize - 1)
          have hlen := length_remove hx
          obtain ⟨n, hn⟩ : ∃ n, (T.setBucket (hash x.key)
              (remove Pair.key x.key (T.bucket (hash x.key))) (T.curSize - 1)).total = n := ⟨_, rfl⟩
          have htotal : T.total = n + 1 := by omega
          rw [hn, h.size, htotal, BitVec.ofNat_add]
          exact BitVec.add_sub_cancel _ _

/-- What a write does to every key. -/
theorem find_write (h : Hashed hash T) (x : Pair) (key : BitVec 32) :
    findTheNode hash (ht530Write hash T x 0).1 key
      = if x.key = key then (if x.data = 0 then none else some x) else findTheNode hash T key := by
  have hold : lookup Pair.key (T.bucket (hash key)) key = findTheNode hash T key :=
    (findTheNode_eq key).symm
  rw [write_eq]
  cases hx : findTheNode hash T x.key with
  | none =>
      dsimp only
      by_cases hd : x.data = 0
      · rw [if_pos hd, if_pos hd]
        split
        · rename_i hk
          rw [← hk, hx]
        · rfl
      · rw [if_neg hd, if_neg hd, findTheNode_setBucket]
        by_cases hh : hash key = hash x.key
        · rw [if_pos hh, lookup_cons, ← hh, hold]
        · have hk : x.key ≠ key := fun hk => hh (by rw [hk])
          rw [if_neg hh, if_neg hk]
  | some y =>
      have hsome : (lookup Pair.key (T.bucket (hash x.key)) x.key).isSome := by
        rw [← findTheNode_eq, hx]
        rfl
      dsimp only
      by_cases hd : x.data = 0
      · rw [if_neg (not_not.mpr hd), if_pos hd, findTheNode_setBucket]
        by_cases hh : hash key = hash x.key
        · rw [if_pos hh, lookup_remove (h.unique _), ← hh, hold]
        · have hk : x.key ≠ key := fun hk => hh (by rw [hk])
          rw [if_neg hh, if_neg hk]
      · rw [if_pos hd, if_neg hd, findTheNode_setBucket]
        by_cases hh : hash key = hash x.key
        · rw [if_pos hh, lookup_put hsome, ← hh, hold]
        · have hk : x.key ≠ key := fun hk => hh (by rw [hk])
          rw [if_neg hh, if_neg hk]

end Invariant

/-! ## Every sequence of calls -/

section Runs
variable {hash : BitVec 32 → Fin 128}

/-- The node of a key is its last write. -/
structure Holds (hash : BitVec 32 → Fin 128) (T : Table) (L : BitVec 32 → BitVec 32) : Prop where
  hashed : Hashed hash T
  find : ∀ key, findTheNode hash T key = if L key = 0 then none else some ⟨key, L key⟩

theorem Holds.serve {T : Table} {L : BitVec 32 → BitVec 32} (h : Holds hash T L) (r : Request) :
    Holds hash (serve hash T r) fun key => r.data key (L key) := by
  cases r with
  | read k => exact h
  | write x =>
      refine ⟨h.hashed.write x, fun key => ?_⟩
      show findTheNode hash (ht530Write hash T x 0).1 key = _
      rw [find_write h.hashed]
      by_cases hk : x.key = key
      · subst hk
        simp only [Request.data, if_true]
      · simp only [Request.data, if_neg hk]
        exact h.find key

theorem holds_foldl (reqs : List Request) {T : Table} {L : BitVec 32 → BitVec 32}
    (h : Holds hash T L) :
    Holds hash (reqs.foldl (serve hash) T) fun key => reqs.foldl (Request.data key) (L key) := by
  induction reqs generalizing T L with
  | nil => exact h
  | cons r rest ih => exact ih (h.serve r)

theorem holds_after (reqs : List Request) : Holds hash (after hash reqs) (lastWrite · reqs) := by
  refine holds_foldl reqs ⟨hashed_empty, fun key => ?_⟩
  rw [if_pos rfl]
  rfl

theorem length_nodes (T : Table) : T.nodes.length = T.total := by
  rw [Table.nodes, List.length_flatMap, Table.total, Fin.sum_univ_def]

theorem mem_nodes {T : Table} {x : Pair} : x ∈ T.nodes ↔ ∃ i, x ∈ T.bucket i := by
  simp [Table.nodes]

/-- Nodes with one key are in one bucket. -/
theorem Hashed.unique_nodes {T : Table} (h : Hashed hash T) : UniqueKeys Pair.key T.nodes := by
  rw [UniqueKeys, Table.nodes, List.map_flatMap, List.nodup_flatMap]
  refine ⟨fun i _ => h.unique i, ?_⟩
  refine (List.nodup_finRange 128).imp fun {i j} hij => ?_
  intro k hk hk'
  obtain ⟨x, hx, rfl⟩ := List.mem_map.mp hk
  obtain ⟨y, hy, hxy⟩ := List.mem_map.mp hk'
  apply hij
  rw [← h.placed i x hx, ← h.placed j y hy, hxy]

/-- There are fewer nodes than `cur_size` can count. -/
theorem Hashed.curSize_eq {T : Table} (h : Hashed hash T) : T.curSize.toNat = T.nodes.length := by
  have hnd : ((T.nodes.map Pair.key).map BitVec.toNat).Nodup :=
    List.Nodup.map (fun _ _ he => BitVec.eq_of_toNat_eq he) h.unique_nodes
  have hle := length_le_of_nodup hnd fun k hk => by
    obtain ⟨x, -, rfl⟩ := List.mem_map.mp hk
    exact x.isLt
  rw [List.length_map, List.length_map] at hle
  rw [h.size, ← length_nodes, BitVec.toNat_ofNat]
  exact Nat.mod_eq_of_lt (by omega)

/-- A read of the size of the pair when both copies succeed. -/
theorem read_eq {T : Table} (beyond : Nat → BitVec 8) (buf : Pair) :
    ht530Read hash T beyond buf 0 8 0 = match findTheNode hash T buf.key with
      | none => (-einval, [])
      | some kitem => (8, kitem.bytes) := by
  rw [ht530Read, truncate_zero]
  have h0 : ¬ (BitVec.ofNat 32 0).toInt < 0 := by decide
  simp only [if_neg h0]
  cases findTheNode hash T buf.key with
  | none => rfl
  | some kitem =>
      have hret : ((8 : BitVec 64) - (BitVec.ofNat 32 0).signExtend 64).toInt = 8 := by decide
      dsimp only
      rw [hret]
      simp [Pair.bytes, intBytes]

end Runs

/-- **THE TABLE IS A MAP**: after any sequence of complete calls, for any hash, every
    node is in its bucket, no key is in two nodes, no node has data 0, `cur_size`
    is the number of nodes, a read of a key gives the pair of its last write or
    `-EINVAL` if that was a deletion or there was none, and a write changes no
    other key. -/
theorem table_refines_map (hash : BitVec 32 → Fin 128) (reqs : List Request) :
    (∀ i, ∀ x ∈ (after hash reqs).bucket i, hash x.key = i)
      ∧ UniqueKeys Pair.key (after hash reqs).nodes
      ∧ (∀ x ∈ (after hash reqs).nodes, x.data ≠ 0)
      ∧ (after hash reqs).curSize.toNat = (after hash reqs).nodes.length
      ∧ (∀ beyond buf, ht530Read hash (after hash reqs) beyond buf 0 8 0
          = if lastWrite buf.key reqs ≠ 0 then (8, (Pair.mk buf.key (lastWrite buf.key reqs)).bytes)
            else (-einval, []))
      ∧ ∀ x key, key ≠ x.key →
          findTheNode hash (ht530Write hash (after hash reqs) x 0).1 key
            = findTheNode hash (after hash reqs) key := by
  obtain ⟨hh, hfind⟩ := holds_after reqs
  refine ⟨hh.placed, hh.unique_nodes, ?_, hh.curSize_eq, ?_, ?_⟩
  · intro x hx
    obtain ⟨i, hi⟩ := mem_nodes.mp hx
    exact hh.live i x hi
  · intro beyond buf
    rw [read_eq, hfind]
    by_cases h0 : lastWrite buf.key reqs = 0
    · rw [if_pos h0, if_neg (not_not.mpr h0)]
    · rw [if_neg h0, if_pos h0]
  · intro x key hne
    rw [find_write hh, if_neg hne.symm]

end Ht530
