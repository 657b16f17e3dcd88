import KernelRocks.Ht530TableProofs
import KernelRocks.UserMemoryProofs

/-! # The ht530 table and its callers — partial copies, reads and dumps

    What passes between the driver and the memory of the process that calls it.
    Both `ht530_write` and `ht530_read` test `0 > failed_copy`, and a copy never
    returns a negative number: a write whose argument could not be read is served
    as a write of what did arrive, with zeros behind it (`write_short`,
    `partial_write_is_served`).  `ht530_read` copies as many bytes as the caller
    asks for, from a structure of eight (`read_discloses_iff`).  `ht530_unlocked_ioctl`
    is embedded whole over the memory of the caller; its `ALL_DUMP` request lays the
    live pairs one after the other, as many as `RET_CUR_SIZE` reports
    (`all_dump_enumerates`).  Its `HASH_DUMP` request fills the copy of the caller's
    structure that is on the kernel's stack, by way of `copy_to_user`, which refuses
    such an address: nothing is delivered (`hash_dump_returns_iff`). -/

namespace Ht530

open KeyedList UserMemory

section PartialCopies
variable {hash : BitVec 32 → Fin 128} {T : Table}

/-! ## Writes that could not be read -/

/-- No count of bytes left over is taken for an error. -/
theorem failed_copy_nonneg {left : Nat} (h : left ≤ 8) : ¬ (BitVec.ofNat 32 left).toInt < 0 := by
  have : ∀ n : Fin 9, ¬ (BitVec.ofNat 32 n.val).toInt < 0 := by decide
  exact this ⟨left, by omega⟩

/-- A write is the write of what the kernel has after the copy. -/
theorem write_short (buf : Pair) {left : Nat} (h : left ≤ 8) :
    ht530Write hash T buf left = ht530Write hash T (buf.truncate left) 0 := by
  have h0 : ¬ (BitVec.ofNat 32 0).toInt < 0 := by decide
  rw [ht530Write, ht530Write, truncate_zero]
  simp only [if_neg (failed_copy_nonneg h), if_neg h0]

theorem write_returns_zero (x : Pair) : (ht530Write hash T x 0).2 = 0 := by
  have h0 : ¬ (BitVec.ofNat 32 0).toInt < 0 := by decide
  rw [ht530Write]
  simp only [if_neg h0]
  split
  · split <;> rfl
  · split <;> rfl

end PartialCopies

/-- **A WRITE THAT CANNOT BE READ IS SERVED**: whatever the table and however many of
    the eight bytes did not arrive, it reports success and does what a write of the
    rest, filled up with zeros, does. -/
theorem partial_write_is_served (hash : BitVec 32 → Fin 128) (T : Table) (buf : Pair) (left : Nat)
    (hleft : 0 < left ∧ left ≤ 8) :
    ¬ ((ht530Write hash T buf left).2 < 0 ∧ (ht530Write hash T buf left).1 = T)
      ∧ (ht530Write hash T buf left).2 = 0
      ∧ (ht530Write hash T buf left).1 = (ht530Write hash T (buf.truncate left) 0).1 := by
  have hret : (ht530Write hash T buf left).2 = 0 := by
    rw [write_short buf hleft.2, write_returns_zero]
  refine ⟨fun h => ?_, hret, ?_⟩
  · rw [hret] at h
    exact absurd h.1 (by decide)
  · rw [write_short buf hleft.2]

/-- A deletion that nobody asked for: key 7 is there, its new data cannot be read. -/
theorem partial_write_deletes :
    (ht530Write (fun _ => 0) (after (fun _ => 0) [.write ⟨7, 5⟩]) ⟨7, 9⟩ 4).2 = 0
      ∧ findTheNode (fun _ => 0) (after (fun _ => 0) [.write ⟨7, 5⟩]) 7 = some ⟨7, 5⟩
      ∧ findTheNode (fun _ => 0)
          (ht530Write (fun _ => 0) (after (fun _ => 0) [.write ⟨7, 5⟩]) ⟨7, 9⟩ 4).1 7 = none := by
  decide

/-- With three nodes in one bucket, and the upper half of the data of key 3 missing. -/
theorem partial_write_is_served_two :
    (0 < 2 ∧ 2 ≤ 8)
      ∧ (ht530Write (fun _ => 0) (after (fun _ => 0) [.write ⟨7, 5⟩, .write ⟨3, 8⟩, .write ⟨1, 4⟩])
          ⟨3, 0x70009⟩ 2).2 = 0
      ∧ findTheNode (fun _ => 0) (ht530Write (fun _ => 0)
          (after (fun _ => 0) [.write ⟨7, 5⟩, .write ⟨3, 8⟩, .write ⟨1, 4⟩]) ⟨3, 0x70009⟩ 2).1 3
        = some ⟨3, 9⟩ := by
  obtain ⟨-, hret, htable⟩ := partial_write_is_served (fun _ => 0)
    (after (fun _ => 0) [.write ⟨7, 5⟩, .write ⟨3, 8⟩, .write ⟨1, 4⟩]) ⟨3, 0x70009⟩ 2 (by decide)
  refine ⟨by decide, hret, ?_⟩
  rw [htable]
  decide

/-! ## What a read gives away -/

section Reads
variable {hash : BitVec 32 → Fin 128} {T : Table}

/-- A read as the source runs it when eight bytes at most of the key were not copied. -/
theorem read_short (beyond : Nat → BitVec 8) (buf : Pair) {left : Nat} (h : left ≤ 8)
    (count : BitVec 64) (leftOut : Nat) :
    ht530Read hash T beyond buf left count leftOut
      = match findTheNode hash T (buf.truncate left).key with
      | none => (-einval, [])
      | some kitem =>
          (if (BitVec.ofNat 32 leftOut).toInt < 0 then -einval
            else (count - (BitVec.ofNat 32 leftOut).signExtend 64).toInt,
          (kitem.bytes ++ (List.range (count.toNat - kitem.bytes.length)).map beyond).take
            (count.toNat - leftOut)) := by
  rw [ht530Read]
  simp only [if_neg (failed_copy_nonneg h)]
  cases findTheNode hash T (buf.truncate left).key with
  | none => rfl
  | some kitem =>
      dsimp only
      split <;> rfl

theorem length_bytes (x : Pair) : x.bytes.length = 8 := rfl

/-- The caller gets bytes of the pair only. -/
theorem take_bytes (x : Pair) (beyond : Nat → BitVec 8) {count n : Nat} (hn : n ≤ 8) :
    (x.bytes ++ (List.range (count - x.bytes.length)).map beyond).take n = x.bytes.take n :=
  List.take_append_of_le_length hn

/-- Byte 8 is the first one behind the pair. -/
theorem ninth_byte (x : Pair) (beyond : Nat → BitVec 8) {count n : Nat} (hn : 8 < n)
    (hc : n ≤ count) :
    ((x.bytes ++ (List.range (count - x.bytes.length)).map beyond).take n)[8]?
      = some (beyond 0) := by
  rw [List.getElem?_take_of_lt hn, List.getElem?_append_right (Nat.le_of_eq (length_bytes x)),
    length_bytes, List.getElem?_map, List.getElem?_range (by omega)]
  rfl

end Reads

/-- **WHAT A READ GIVES AWAY**: the answer to a read depends on the entry of the key
    alone, over every two sequences of calls and whatever lies behind the node,
    exactly when there is no entry or no more than the eight bytes of the pair are
    delivered. -/
theorem read_discloses_iff (hash : BitVec 32 → Fin 128) (reqs : List Request) (buf : Pair)
    (left leftOut : Nat) (count : BitVec 64) (hleft : left ≤ 8) :
    (∀ reqs' beyond beyond',
        findTheNode hash (after hash reqs') (buf.truncate left).key
          = findTheNode hash (after hash reqs) (buf.truncate left).key →
        ht530Read hash (after hash reqs') beyond' buf left count leftOut
          = ht530Read hash (after hash reqs) beyond buf left count leftOut)
      ↔ findTheNode hash (after hash reqs) (buf.truncate left).key = none
        ∨ count.toNat - leftOut ≤ 8 := by
  constructor
  · intro h
    cases hnode : findTheNode hash (after hash reqs) (buf.truncate left).key with
    | none => exact Or.inl rfl
    | some kitem =>
        refine Or.inr (Nat.le_of_not_lt fun hlong => ?_)
        -- the same table, and two memories that differ behind the node
        have hsame := h reqs (fun _ => 0) (fun _ => 1) rfl
        rw [read_short _ buf hleft, read_short _ buf hleft, hnode] at hsame
        have hbyte := congrArg (fun r => r.2[8]?) hsame
        dsimp only at hbyte
        rw [ninth_byte kitem _ hlong (Nat.sub_le ..),
          ninth_byte kitem _ hlong (Nat.sub_le ..)] at hbyte
        exact absurd hbyte (by decide)
  · intro h reqs' beyond beyond' hagree
    rw [read_short beyond' buf hleft, read_short beyond buf hleft, hagree]
    rcases h with hnone | hshort
    · rw [hnone]
    · cases findTheNode hash (after hash reqs) (buf.truncate left).key with
      | none => rfl
      | some kitem =>
          dsimp only
          rw [take_bytes kitem beyond' hshort, take_bytes kitem beyond hshort]

/-- One byte more than the pair, and the neighbour of the node shows. -/
theorem read_leaks_ninth :
    findTheNode (fun _ => 0) (after (fun _ => 0) [.write ⟨7, 5⟩]) 7 = some ⟨7, 5⟩
      ∧ ht530Read (fun _ => 0) (after (fun _ => 0) [.write ⟨7, 5⟩]) (fun _ => 0) ⟨7, 0⟩ 0 9 0
          = (9, [7, 0, 0, 0, 5, 0, 0, 0, 0])
      ∧ ht530Read (fun _ => 0) (after (fun _ => 0) [.write ⟨7, 5⟩]) (fun _ => 1) ⟨7, 0⟩ 0 9 0
          = (9, [7, 0, 0, 0, 5, 0, 0, 0, 1]) := by
  decide

theorem read_discloses_iff_pair :
    0 ≤ 8 ∧ ht530Read (fun _ => 0) (after (fun _ => 0) [.write ⟨7, 5⟩, .write ⟨9, 3⟩]) (fun _ => 1)
        ⟨7, 0⟩ 0 8 0
      = ht530Read (fun _ => 0) (after (fun _ => 0) [.write ⟨7, 5⟩]) (fun _ => 0) ⟨7, 0⟩ 0 8 0 :=
  ⟨by decide, (read_discloses_iff (fun _ => 0) [.write ⟨7, 5⟩] ⟨7, 0⟩ 0 0 8 (by decide)).mpr
    (Or.inr (by decide)) [.write ⟨7, 5⟩, .write ⟨9, 3⟩] (fun _ => 0) (fun _ => 1) (by decide)⟩

/-! ## The requests of `ht530_unlocked_ioctl` -/

/-- `_IOWR(DUMP_MAGIC, nr, int*)`. -/
def iowr (nr : BitVec 32) : BitVec 32 := 3 <<< 30 ||| 8 <<< 16 ||| 0x44 <<< 8 ||| nr

/-- `ALL_DUMP`. -/
def allDumpReq : BitVec 32 := iowr 1

/-- `HASH_DUMP`. -/
def hashDumpReq : BitVec 32 := iowr 2

/-- `RET_CUR_SIZE`. -/
def retCurSizeReq : BitVec 32 := iowr 3

/-- `&ht530_tbl[n]`.  Outside the table the list head is whatever lies there; `none`
    when walking it ends in a fault. -/
def hlistAt (T : Table) (outside : Int → Option (List Pair)) (n : Int) : Option (List Pair) :=
  if h : 0 ≤ n ∧ n < 128 then some (T.bucket ⟨n.toNat, by omega⟩) else outside n

/-- The loop of `HASH_DUMP`.  `dump_set` is the structure on the kernel's stack, its
    `object_array` starts 4 bytes into it. -/
def hashDump (u : UserMem) (dumpSet : BitVec 64) : Nat → List Pair → UserMem
  | _, [] => u
  | accN, obj :: rest =>
      let u' := (copyToUser u (dumpSet + BitVec.ofNat 64 (4 + 8 * accN)) obj.bytes).1
      if 8 ≤ accN + 1 then u' else hashDump u' dumpSet (accN + 1) rest

/-- The body of `hash_for_each` in `ALL_DUMP`, with `back_storage`. -/
def dumpNode (s : UserMem × BitVec 64) (drvNode : Pair) : UserMem × BitVec 64 :=
  ((copyToUser s.1 s.2 drvNode.bytes).1, s.2 + 8)

/-- `hash_for_each`: bucket by bucket. -/
def allDump (T : Table) (u : UserMem) (backStorage : BitVec 64) : UserMem :=
  ((List.finRange 128).foldl (fun s bkt => (T.bucket bkt).foldl dumpNode s) (u, backStorage)).1

/-- `ht530_unlocked_ioctl`: the table, the caller's memory and what it returns;
    `none` is a fault in the kernel.  `dumpSet` is the address of `real_dump_set`. -/
def ht530UnlockedIoctl (T : Table) (outside : Int → Option (List Pair)) (dumpSet : BitVec 64)
    (u : UserMem) (req1 : BitVec 32) (req2 : BitVec 64) : Option (Table × UserMem × Int) :=
  let copied := copyFromUser u req2 68
  let n := (BitVec.ofNat 32 (littleEndian (copied.1.take 4))).toInt
  if (BitVec.ofNat 32 copied.2).toInt < 0 then some (T, u, -einval)
  else if req1 = hashDumpReq then
    if 128 ≤ n then some (T, u, -einval)
    else (hlistAt T outside n).map fun h => (T, hashDump u dumpSet 0 h, 0)
  else if req1 = retCurSizeReq then
    some (T, (copyToUser u req2 (bytesOf 8 T.curSize.toNat)).1, 0)
  else if req1 = allDumpReq then some (T, allDump T u req2, 0)
  else some (T, u, 0)

section Dump
variable {hash : BitVec 32 → Fin 128} {T : Table}

theorem allDump_eq (u : UserMem) (a : BitVec 64) :
    allDump T u a = (T.nodes.foldl dumpNode (u, a)).1 := by
  rw [allDump, Table.nodes, List.foldl_flatMap]

/-- Where the caller has room for all of them, the pairs lie one after the other. -/
theorem foldl_dumpNode (l : List Pair) {u : UserMem} {a : BitVec 64}
    (h : Within u.writable a (8 * l.length)) :
    (l.foldl dumpNode (u, a)).1 = u.store a (l.flatMap Pair.bytes) := by
  induction l generalizing u a with
  | nil => rfl
  | cons x l ih =>
      have hlen : 8 * (x :: l).length = x.bytes.length + 8 * l.length := by
        rw [List.length_cons, length_bytes]
        omega
      rw [hlen] at h
      obtain ⟨hhead, htail⟩ := Within.append h
      have hnode : dumpNode (u, a) x = (u.store a x.bytes, a + BitVec.ofNat 64 x.bytes.length) := by
        rw [dumpNode, copyToUser_within hhead]
        rfl
      have hrest : Within (u.store a x.bytes).writable (a + BitVec.ofNat 64 x.bytes.length)
          (8 * l.length) := by
        intro i hi
        rw [writable_store]
        exact htail i hi
      rw [List.foldl_cons, hnode, ih hrest, List.flatMap_cons, store_append]

/-- The copy of the request is never taken for a failed one. -/
theorem ioctl_copied (u : UserMem) (a : BitVec 64) :
    ¬ (BitVec.ofNat 32 (copyFromUser u a 68).2).toInt < 0 := by
  have hle : (copyFromUser u a 68).2 ≤ 68 := Nat.sub_le ..
  have hall : ∀ n : Fin 69, ¬ (BitVec.ofNat 32 n.val).toInt < 0 := by decide
  exact hall ⟨(copyFromUser u a 68).2, Nat.lt_succ_of_le hle⟩

theorem ioctl_retCurSize (outside : Int → Option (List Pair)) (dumpSet : BitVec 64) {u : UserMem}
    {a : BitVec 64} (h : Within u.writable a 8) :
    ht530UnlockedIoctl T outside dumpSet u retCurSizeReq a
      = some (T, u.store a (bytesOf 8 T.curSize.toNat), 0) := by
  have hlen : Within u.writable a (bytesOf 8 T.curSize.toNat).length := by
    rw [length_bytesOf]
    exact h
  rw [ht530UnlockedIoctl]
  simp only [if_neg (ioctl_copied u a), copyToUser_within hlen]
  rfl

theorem ioctl_allDump (outside : Int → Option (List Pair)) (dumpSet : BitVec 64) {u : UserMem}
    {a : BitVec 64} (h : Within u.writable a (8 * T.nodes.length)) :
    ht530UnlockedIoctl T outside dumpSet u allDumpReq a
      = some (T, u.store a (T.nodes.flatMap Pair.bytes), 0) := by
  rw [ht530UnlockedIoctl]
  simp only [if_neg (ioctl_copied u a), allDump_eq, foldl_dumpNode T.nodes h]
  rfl

/-- The `unsigned long` that a caller finds at an address. -/
def readLong (u : UserMem) (a : BitVec 64) : Nat := littleEndian (u.load a 8)

theorem readLong_store (u : UserMem) (a : BitVec 64) (x : BitVec 64) :
    readLong (u.store a (bytesOf 8 x.toNat)) a = x.toNat := by
  rw [readLong, load_bytesOf u a (by decide), littleEndian_bytesOf]
  exact Nat.mod_eq_of_lt x.isLt

/-- The nodes are the live pairs. -/
theorem mem_nodes_iff (h : Hashed hash T) {x : Pair} :
    x ∈ T.nodes ↔ findTheNode hash T x.key = some x := by
  rw [mem_nodes, findTheNode_eq, lookup_eq_some_iff (h.unique _)]
  constructor
  · rintro ⟨i, hi⟩
    rw [h.placed i x hi]
    exact ⟨hi, rfl⟩
  · rintro ⟨hx, -⟩
    exact ⟨_, hx⟩

end Dump

/-- **ALL_DUMP ENUMERATES THE TABLE**: after any sequence of complete calls there is one
    list of pairs, each once, exactly those that are live, as many as `RET_CUR_SIZE`
    reports to the caller; an `ALL_DUMP` into an array of that size stores them one
    after the other from its start on and changes nothing else, neither in the
    caller's memory nor in the table. -/
theorem all_dump_enumerates (hash : BitVec 32 → Fin 128) (reqs : List Request)
    (outside : Int → Option (List Pair)) (dumpSet : BitVec 64) (u : UserMem) (size : BitVec 64)
    (hsize : Within u.writable size 8) :
    ∃ (u₁ : UserMem) (l : List Pair),
      ht530UnlockedIoctl (after hash reqs) outside dumpSet u retCurSizeReq size
          = some (after hash reqs, u₁, 0)
      ∧ l.length = readLong u₁ size
      ∧ l.Nodup
      ∧ (∀ x, x ∈ l ↔ x.data ≠ 0 ∧ lastWrite x.key reqs = x.data)
      ∧ ∀ (u₂ : UserMem) (array : BitVec 64), Within u₂.writable array (8 * readLong u₁ size) →
          ht530UnlockedIoctl (after hash reqs) outside dumpSet u₂ allDumpReq array
            = some (after hash reqs, u₂.store array (l.flatMap Pair.bytes), 0) := by
  obtain ⟨hh, hfind⟩ : Holds hash (after hash reqs) (lastWrite · reqs) := holds_after reqs
  have hlen : (after hash reqs).nodes.length
      = readLong (u.store size (bytesOf 8 (after hash reqs).curSize.toNat)) size := by
    rw [readLong_store, hh.curSize_eq]
  refine ⟨_, (after hash reqs).nodes, ioctl_retCurSize outside dumpSet hsize, hlen,
    hh.unique_nodes.nodup, ?_, ?_⟩
  · intro x
    rw [mem_nodes_iff hh, hfind]
    constructor
    · intro hx
      split at hx
      · cases hx
      · rename_i hdata
        have hpair := Option.some.inj hx
        have hd : lastWrite x.key reqs = x.data := congrArg Pair.data hpair
        exact ⟨hd ▸ hdata, hd⟩
    · rintro ⟨hdata, hlast⟩
      rw [if_neg (by rw [hlast]; exact hdata), hlast]
  · intro u₂ array hmap
    rw [← hlen] at hmap
    exact ioctl_allDump outside dumpSet hmap

/-- Memory that may all be written. -/
def openMem : UserMem := ⟨fun _ => 0, fun _ => true, fun _ => true, fun _ h => h⟩

/-- Two pairs, and room for their number at address 8. -/
theorem all_dump_enumerates_two :
    Within openMem.writable 8 8
      ∧ ∃ (u₁ : UserMem) (l : List Pair),
          ht530UnlockedIoctl (after (fun _ => 0) [.write ⟨7, 5⟩, .write ⟨9, 3⟩]) (fun _ => none) 0
              openMem retCurSizeReq 8
            = some (after (fun _ => 0) [.write ⟨7, 5⟩, .write ⟨9, 3⟩], u₁, 0)
          ∧ l.length = readLong u₁ 8 ∧ (⟨7, 5⟩ : Pair) ∈ l := by
  have hmap : Within openMem.writable 8 8 := fun _ _ => rfl
  obtain ⟨u₁, l, hret, hlen, -, hmem, -⟩ := all_dump_enumerates (fun _ => 0)
    [.write ⟨7, 5⟩, .write ⟨9, 3⟩] (fun _ => none) 0 openMem 8 hmap
  exact ⟨hmap, u₁, l, hret, hlen, (hmem ⟨7, 5⟩).mpr (by decide)⟩

/-! ## HASH_DUMP -/

/-- `n` of the caller's `dump_org`. -/
def dumpN (u : UserMem) (a : BitVec 64) : Int := (BitVec.ofNat 32 (littleEndian (u.load a 4))).toInt

/-- An `object_array` with the first `MAX_DUMP` pairs of a bucket; the slots behind them
    are zero. -/
def objectArray (l : List Pair) : List (BitVec 8) :=
  let pairs := (l.take 8).flatMap Pair.bytes
  pairs ++ List.replicate (64 - pairs.length) 0

/-- The request delivers the bucket that the caller names, and refuses a number that
    names none, whatever lies outside the table. -/
def ReturnsBucket (T : Table) (dumpSet : BitVec 64) (u : UserMem) (a : BitVec 64) : Prop :=
  (∀ n : Fin 128, dumpN u a = (n.val : Int) → ∀ outside, ∃ u',
      ht530UnlockedIoctl T outside dumpSet u hashDumpReq a = some (T, u', 0)
        ∧ u'.load (a + 4) 64 = objectArray (T.bucket n))
    ∧ (¬ (0 ≤ dumpN u a ∧ dumpN u a < 128) → ∀ outside, ∃ u',
      ht530UnlockedIoctl T outside dumpSet u hashDumpReq a = some (T, u', -einval))

section HashDump
variable {T : Table} {dumpSet : BitVec 64} {u : UserMem} {a : BitVec 64}

/-- The copies to the structure on the kernel's stack do nothing. -/
theorem hashDump_kernel (hkernel : ∀ i < 68, u.writable (dumpSet + BitVec.ofNat 64 i) = false)
    (l : List Pair) : ∀ accN < 8, hashDump u dumpSet accN l = u := by
  induction l with
  | nil => exact fun _ _ => rfl
  | cons obj rest ih =>
      intro accN hacc
      have hsame : (copyToUser u (dumpSet + BitVec.ofNat 64 (4 + 8 * accN)) obj.bytes).1 = u :=
        copyToUser_refused (hkernel (4 + 8 * accN) (by omega))
      rw [hashDump, hsame]
      split
      · rfl
      · rename_i hmore
        exact ih (accN + 1) (Nat.not_le.mp hmore)

/-- What the request does: only an `n` that is too large is refused, and the caller's
    memory stays as it is. -/
theorem ioctl_hashDump (outside : Int → Option (List Pair))
    (hkernel : ∀ i < 68, u.writable (dumpSet + BitVec.ofNat 64 i) = false)
    (hreq : Within u.readable a 68) :
    ht530UnlockedIoctl T outside dumpSet u hashDumpReq a
      = if 128 ≤ dumpN u a then some (T, u, -einval)
        else (hlistAt T outside (dumpN u a)).map fun _ => (T, u, 0) := by
  have hn : (copyFromUser u a 68).1.take 4 = u.load a 4 := by
    rw [copyFromUser_within hreq]
    exact take_load (by decide)
  have hdump : ∀ l, hashDump u dumpSet 0 l = u := fun l => hashDump_kernel hkernel l 0 (by decide)
  rw [ht530UnlockedIoctl]
  simp only [if_neg (ioctl_copied u a), hn, hdump]
  rfl

theorem hlistAt_bucket (outside : Int → Option (List Pair)) (n : Fin 128) :
    hlistAt T outside (n.val : Int) = some (T.bucket n) := by
  have hn : (0 : Int) ≤ n.val ∧ (n.val : Int) < 128 := by omega
  rw [hlistAt, dif_pos hn]
  rfl

/-- A number that names a bucket is served, and nothing is delivered. -/
theorem ioctl_hashDump_bucket (outside : Int → Option (List Pair))
    (hkernel : ∀ i < 68, u.writable (dumpSet + BitVec.ofNat 64 i) = false)
    (hreq : Within u.readable a 68) {n : Fin 128} (hn : dumpN u a = (n.val : Int)) :
    ht530UnlockedIoctl T outside dumpSet u hashDumpReq a = some (T, u, 0) := by
  have hlt : ¬ (128 : Int) ≤ n.val := by omega
  rw [ioctl_hashDump outside hkernel hreq, hn, if_neg hlt, hlistAt_bucket]
  rfl

/-- A negative number is served as well: the walk starts in front of the table. -/
theorem ioctl_hashDump_negative (outside : Int → Option (List Pair))
    (hkernel : ∀ i < 68, u.writable (dumpSet + BitVec.ofNat 64 i) = false)
    (hreq : Within u.readable a 68) (hn : dumpN u a < 0) :
    ht530UnlockedIoctl T outside dumpSet u hashDumpReq a
      = (outside (dumpN u a)).map fun _ => (T, u, 0) := by
  have hlt : ¬ (128 : Int) ≤ dumpN u a := by omega
  have hout : ¬ (0 ≤ dumpN u a ∧ dumpN u a < 128) := by omega
  rw [ioctl_hashDump outside hkernel hreq, if_neg hlt, hlistAt, dif_neg hout]

end HashDump

/-- **HASH_DUMP RETURNS THE BUCKET** exactly if the number is too large, and the request
    is refused, or if the caller's array happens to hold the bucket's pairs before the
    call: what the call copies goes to the kernel's own structure.  A negative number is
    never refused. -/
theorem hash_dump_returns_iff (T : Table) (dumpSet : BitVec 64) (u : UserMem) (a : BitVec 64)
    (hkernel : ∀ i < 68, u.writable (dumpSet + BitVec.ofNat 64 i) = false)
    (hreq : Within u.readable a 68) :
    ReturnsBucket T dumpSet u a ↔
      128 ≤ dumpN u a
        ∨ ∃ n : Fin 128, dumpN u a = (n.val : Int)
          ∧ u.load (a + 4) 64 = objectArray (T.bucket n) := by
  constructor
  · rintro ⟨hin, hout⟩
    by_cases hlarge : 128 ≤ dumpN u a
    · exact .inl hlarge
    by_cases hneg : dumpN u a < 0
    · -- the memory in front of the table may be such that the walk faults
      obtain ⟨u', hrun⟩ := hout (fun h => by omega) fun _ => none
      rw [ioctl_hashDump_negative _ hkernel hreq hneg] at hrun
      cases hrun
    · have hn : dumpN u a = ((⟨(dumpN u a).toNat, by omega⟩ : Fin 128).val : Int) := by
        show dumpN u a = ((dumpN u a).toNat : Int)
        omega
      obtain ⟨u', hrun, hload⟩ := hin _ hn fun _ => none
      rw [ioctl_hashDump_bucket _ hkernel hreq hn] at hrun
      cases hrun
      exact .inr ⟨_, hn, hload⟩
  · rintro (hlarge | ⟨n, hn, hload⟩)
    · refine ⟨fun n hn => by omega, fun _ outside => ⟨u, ?_⟩⟩
      rw [ioctl_hashDump outside hkernel hreq, if_pos hlarge]
    · refine ⟨fun m hm outside => ⟨u, ioctl_hashDump_bucket outside hkernel hreq hm, ?_⟩,
        fun hout => absurd ⟨by omega, by omega⟩ hout⟩
      obtain rfl : m = n := Fin.ext (by omega)
      exact hload

/-- A process that can use the lower half of the addresses, in which all bytes are 0. -/
def lowMem : UserMem := ⟨fun _ => 0, fun a => !a.msb, fun a => !a.msb, fun _ h => h⟩

/-- A kernel stack. -/
def stackTop : BitVec 64 := 0xffff880000000000

theorem lowMem_kernel : ∀ i < 68, lowMem.writable (stackTop + BitVec.ofNat 64 i) = false := by
  decide

theorem lowMem_request : Within lowMem.readable 4096 68 := by
  show ∀ i < 68, lowMem.readable (4096 + BitVec.ofNat 64 i) = true
  decide

/-- Bucket 0 is empty, and the caller's array is zero. -/
theorem hash_dump_returns_iff_empty :
    ((∀ i < 68, lowMem.writable (stackTop + BitVec.ofNat 64 i) = false)
        ∧ Within lowMem.readable 4096 68)
      ∧ ReturnsBucket (after (fun _ => 1) [.write ⟨7, 5⟩]) stackTop lowMem 4096 := by
  refine ⟨⟨lowMem_kernel, lowMem_request⟩, ?_⟩
  exact (hash_dump_returns_iff (after (fun _ => 1) [.write ⟨7, 5⟩]) stackTop lowMem 4096
    lowMem_kernel
    lowMem_request).mpr (.inr ⟨0, by decide, by decide⟩)

/-- The caller asks for bucket 0, in which there is one pair, and gets nothing. -/
theorem hash_dump_delivers_nothing :
    ¬ ∀ (hash : BitVec 32 → Fin 128) (reqs : List Request) (dumpSet : BitVec 64) (u : UserMem)
        (a : BitVec 64), (∀ i < 68, u.writable (dumpSet + BitVec.ofNat 64 i) = false) →
      Within u.writable a 68 → ReturnsBucket (after hash reqs) dumpSet u a := by
  intro h
  have hn : dumpN lowMem 4096 = ((0 : Fin 128).val : Int) := by decide
  obtain ⟨u', hrun, hload⟩ := (h (fun _ => 0) [.write ⟨7, 5⟩] stackTop lowMem 4096 lowMem_kernel
    lowMem_request).1 0 hn fun _ => none
  rw [ioctl_hashDump_bucket _ lowMem_kernel lowMem_request hn] at hrun
  cases hrun
  exact absurd hload (by decide)

end Ht530
