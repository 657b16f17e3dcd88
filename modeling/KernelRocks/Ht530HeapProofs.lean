import KernelRocks.Ht530TableProofs
import Mathlib.Data.Finset.Lattice.Fold
import Mathlib.Order.Lattice.Nat

/-! # The nodes of ht530 on the heap

    The table does not hold pairs but nodes, which `ht530_write` allocates and
    frees.  A write is taken apart into its statements (`Write.next`); what is left of
    it from any of them is `Write.finish`.  Touching a node that is not allocated is a
    fault.  `kmalloc` may give out what was freed before, and it does not fail.

    * `Linked`: the nodes that are allocated are those that are on a list, each on one.
    * `Stands`: such a heap, read as a table of pairs.
    * `stands_write`: a whole write runs through, and does what `ht530_write` does to
      the table.
    * `heap_stands`: so it is for every sequence of calls, and `ht530_exit` then frees
      every node. -/

namespace Ht530

open KeyedList

abbrev Addr := Nat

/-- What `kmalloc` gives out is not in use. -/
structure Slab where
  pick : Finset Addr → Addr
  fresh : ∀ used, pick used ∉ used

/-- One that never gives out a hole. -/
def Slab.bump : Slab where
  pick used := used.sup id + 1
  fresh _ h := Nat.not_succ_le_self _ (Finset.le_sup (f := id) h)

instance : Inhabited Slab := ⟨Slab.bump⟩

/-- `ht530_tbl` with its nodes, and `cur_size`.  What is in a new node is whatever was
    there. -/
structure Heap where
  tbl : Fin 128 → List Addr
  pair : Addr → Pair
  allocated : Finset Addr
  curSize : BitVec 64

namespace Heap

/-- `ht530_init` on a heap with `garbage` in it. -/
def init (garbage : Addr → Pair) : Heap := ⟨fun _ => [], garbage, ∅, 0⟩

/-- Reading a node. -/
def load (h : Heap) (a : Addr) : Option Pair := if a ∈ h.allocated then some (h.pair a) else none

/-- Writing to a node. -/
def store (h : Heap) (a : Addr) (x : Pair) : Option Heap :=
  if a ∈ h.allocated then some { h with pair := Function.update h.pair a x } else none

def kmalloc (slab : Slab) (h : Heap) : Heap × Addr :=
  ({ h with allocated := insert (slab.pick h.allocated) h.allocated }, slab.pick h.allocated)

/-- Freeing what is not allocated is a fault. -/
def kfree (h : Heap) (a : Addr) : Option Heap :=
  if a ∈ h.allocated then some { h with allocated := h.allocated.erase a } else none

/-- `hash_del` needs no bucket: the node is on one list. -/
def hashDel (h : Heap) (a : Addr) : Heap := { h with tbl := fun i => (h.tbl i).erase a }

section Hash
variable (hash : BitVec 32 → Fin 128)

def hashAdd (h : Heap) (a : Addr) (key : BitVec 32) : Heap :=
  { h with tbl := Function.update h.tbl (hash key) (a :: h.tbl (hash key)) }

/-- The loop of `find_the_node`. -/
def walk (h : Heap) (key : BitVec 32) : List Addr → Option (Option Addr)
  | [] => some none
  | node :: rest =>
      (h.load node).bind fun x => if x.key = key then some (some node) else walk h key rest

/-- `find_the_node(key, NULL)`: NULL for an empty bucket. -/
def findTheNode (h : Heap) (key : BitVec 32) : Option (Option Addr) :=
  if (h.tbl (hash key)).isEmpty then some none else h.walk key (h.tbl (hash key))

end Hash

/-- The nodes, bucket by bucket. -/
def nodes (h : Heap) : List Addr := (List.finRange 128).flatMap h.tbl

/-- What `ALL_DUMP` copies, node by node. -/
def allDump (h : Heap) : Option (List Pair) := h.nodes.mapM h.load

/-- `hash_empty`. -/
def hashEmpty (h : Heap) : Bool := (List.finRange 128).all fun i => (h.tbl i).isEmpty

/-- The body of the loop in `ht530_exit`: the pair is printed between `hash_del` and
    `kfree`. -/
def exitNode (h : Heap) (a : Addr) : Option Heap :=
  (h.hashDel a).load a |>.bind fun _ => (h.hashDel a).kfree a

/-- `hash_for_each_safe` of one bucket. -/
def exitBucket (h : Heap) (bkt : Fin 128) : Option Heap := (h.tbl bkt).foldlM exitNode h

/-- `ht530_exit`. -/
def ht530Exit (h : Heap) : Option Heap :=
  if h.hashEmpty then some h else (List.finRange 128).foldlM exitBucket h

end Heap

/-! ## `ht530_write` statement by statement -/

/-- Where `ht530_write` is, once it has its argument. -/
inductive Write where
  | find
  | alloc
  | add (kitem : Addr)
  | count (kitem : Addr)
  | setKey (kitem : Addr)
  | setData (kitem : Addr)
  | del (kitem : Addr)
  | uncount (kitem : Addr)
  | free (kitem : Addr)
  | ret
  deriving DecidableEq

section Write
variable (hash : BitVec 32 → Fin 128) (slab : Slab)

/-- One statement; `none` is a fault. -/
def Write.next (uitem : Pair) (h : Heap) : Write → Option (Heap × Write)
  | .find =>
      (h.findTheNode hash uitem.key).map fun
        | none => (h, if uitem.data = 0 then .ret else .alloc)
        | some kitem => (h, if uitem.data ≠ 0 then .setKey kitem else .del kitem)
  | .alloc => some ((h.kmalloc slab).1, .add (h.kmalloc slab).2)
  | .add kitem => some (h.hashAdd hash kitem uitem.key, .count kitem)
  | .count kitem => some ({ h with curSize := h.curSize + 1 }, .setKey kitem)
  | .setKey kitem =>
      (h.load kitem).bind fun x =>
        (h.store kitem { x with key := uitem.key }).map (·, .setData kitem)
  | .setData kitem =>
      (h.load kitem).bind fun x => (h.store kitem { x with data := uitem.data }).map (·, .ret)
  | .del kitem => some (h.hashDel kitem, .uncount kitem)
  | .uncount kitem => some ({ h with curSize := h.curSize - 1 }, .free kitem)
  | .free kitem => (h.kfree kitem).map (·, .ret)
  | .ret => none

/-- The statements that are left, at most. -/
def Write.left : Write → Nat
  | .find => 7
  | .alloc => 6
  | .add _ => 5
  | .count _ => 4
  | .setKey _ | .del _ => 3
  | .setData _ | .uncount _ => 2
  | .free _ => 1
  | .ret => 0

theorem Write.next_left {uitem : Pair} {h h' : Heap} {w w' : Write}
    (hw : w.next hash slab uitem h = some (h', w')) : w'.left < w.left := by
  cases w with
  | find =>
      obtain ⟨r, -, hr⟩ := Option.map_eq_some_iff.mp hw
      cases r with
      | none =>
          cases hr
          split <;> decide
      | some a =>
          cases hr
          split <;> exact of_decide_eq_true rfl
  | setKey a | setData a =>
      obtain ⟨x, -, hx⟩ := Option.bind_eq_some_iff.mp hw
      obtain ⟨_, -, hr⟩ := Option.map_eq_some_iff.mp hx
      cases hr
      exact of_decide_eq_true rfl
  | free a =>
      obtain ⟨_, -, hr⟩ := Option.map_eq_some_iff.mp hw
      cases hr
      exact of_decide_eq_true rfl
  | ret => cases hw
  | _ =>
      cases hw
      exact of_decide_eq_true rfl

/-- What is left of the call, run for so many statements at most. -/
def Write.finish (uitem : Pair) : Nat → Heap → Write → Option Heap
  | 0, h, w => if w = .ret then some h else none
  | n + 1, h, w =>
      if w = .ret then some h
      else (w.next hash slab uitem h).bind fun r => Write.finish uitem n r.1 r.2

/-- `ht530_write` of a pair that was copied. -/
def Heap.ht530Write (h : Heap) (uitem : Pair) : Option Heap :=
  Write.finish hash slab uitem 7 h .find

/-- `ht530_read` of a key that was copied: the pair that it has in hand.  The copy of
    `count` bytes from there, which runs past the node if `count` is more than 8, is no
    access of this heap. -/
def Heap.ht530Read (h : Heap) (key : BitVec 32) : Option (Option Pair) :=
  (h.findTheNode hash key).bind fun
    | none => some none
    | some kitem => (h.load kitem).map some

/-- A complete call. -/
def Heap.serve (h : Heap) : Request → Option Heap
  | .write x => h.ht530Write hash slab x
  | .read key => (h.ht530Read hash key).map fun _ => h

/-- The heap after a sequence of calls. -/
def Heap.after (garbage : Addr → Pair) (reqs : List Request) : Option Heap :=
  reqs.foldlM (Heap.serve hash slab) (Heap.init garbage)

end Write

/-! ## Heaps without leaks -/

/-- The nodes that are allocated are those that are on a list, each on one and once. -/
structure Linked (h : Heap) : Prop where
  nodup : ∀ i, (h.tbl i).Nodup
  home : ∀ {i j a}, a ∈ h.tbl i → a ∈ h.tbl j → i = j
  linked : ∀ a, a ∈ h.allocated ↔ ∃ i, a ∈ h.tbl i

section Linked
variable {h : Heap}

theorem linked_init (garbage : Addr → Pair) : Linked (Heap.init garbage) where
  nodup _ := List.nodup_nil
  home h := nomatch h
  linked a := iff_of_false (Finset.notMem_empty a) fun ⟨_, h⟩ => nomatch h

/-- Only the lists and what is allocated matter. -/
theorem Linked.congr (hl : Linked h) {h' : Heap} (htbl : h'.tbl = h.tbl)
    (halloc : h'.allocated = h.allocated) : Linked h' where
  nodup := htbl ▸ hl.nodup
  home := by
    rw [htbl]
    exact hl.home
  linked := by
    rw [htbl, halloc]
    exact hl.linked

theorem Linked.load (hl : Linked h) {i : Fin 128} {a : Addr} (ha : a ∈ h.tbl i) :
    h.load a = some (h.pair a) :=
  if_pos ((hl.linked a).mpr ⟨i, ha⟩)

/-- A new node in front of a list. -/
theorem Linked.add (hl : Linked h) {a : Addr} (ha : a ∉ h.allocated) (i : Fin 128) {h' : Heap}
    (htbl : h'.tbl = Function.update h.tbl i (a :: h.tbl i))
    (halloc : h'.allocated = insert a h.allocated) : Linked h' := by
  have hold {j : Fin 128} {b : Addr} (hb : b ∈ h.tbl j) : b ≠ a := fun hba =>
    ha (hba ▸ (hl.linked b).mpr ⟨j, hb⟩)
  have hmem (j : Fin 128) (b : Addr) : b ∈ h'.tbl j ↔ b = a ∧ j = i ∨ b ∈ h.tbl j := by
    rw [htbl]
    by_cases hj : j = i
    · rw [hj, Function.update_self, List.mem_cons]
      simp
    · rw [Function.update_of_ne hj]
      simp [hj]
  refine ⟨fun j => ?_, fun {j k b} hj hk => ?_, fun b => ?_⟩
  · rw [htbl]
    by_cases hj : j = i
    · rw [hj, Function.update_self]
      exact List.nodup_cons.mpr ⟨fun hin => hold hin rfl, hl.nodup i⟩
    · rw [Function.update_of_ne hj]
      exact hl.nodup j
  · rcases (hmem j b).mp hj with ⟨rfl, rfl⟩ | hj
    · rcases (hmem k b).mp hk with ⟨-, rfl⟩ | hk
      · rfl
      · exact absurd rfl (hold hk)
    · rcases (hmem k b).mp hk with ⟨rfl, -⟩ | hk
      · exact absurd rfl (hold hj)
      · exact hl.home hj hk
  · rw [halloc, Finset.mem_insert, hl.linked b]
    simp only [hmem]
    by_cases hb : b = a <;> simp [hb]

/-- A node is taken off its list and freed. -/
theorem Linked.del (hl : Linked h) {a : Addr} {h' : Heap}
    (htbl : h'.tbl = fun i => (h.tbl i).erase a) (halloc : h'.allocated = h.allocated.erase a) :
    Linked h' := by
  have hmem (i : Fin 128) (b : Addr) : b ∈ h'.tbl i ↔ b ≠ a ∧ b ∈ h.tbl i := by
    rw [htbl]
    exact (hl.nodup i).mem_erase_iff
  refine ⟨fun i => ?_, fun {i j b} hi hj => ?_, fun b => ?_⟩
  · rw [htbl]
    exact (hl.nodup i).erase a
  · exact hl.home ((hmem i b).mp hi).2 ((hmem j b).mp hj).2
  · rw [halloc, Finset.mem_erase, hl.linked b]
    simp only [hmem]
    exact exists_and_left.symm

theorem mem_heap_nodes {a : Addr} : a ∈ h.nodes ↔ ∃ i, a ∈ h.tbl i := by
  simp [Heap.nodes]

theorem Linked.nodup_nodes (hl : Linked h) : h.nodes.Nodup := by
  rw [Heap.nodes, List.nodup_flatMap]
  refine ⟨fun i _ => hl.nodup i, (List.nodup_finRange 128).imp fun {i j} hij => ?_⟩
  exact fun a hi hj => hij (hl.home hi hj)

theorem Linked.toFinset_nodes (hl : Linked h) : h.nodes.toFinset = h.allocated := by
  ext a
  rw [List.mem_toFinset, mem_heap_nodes, hl.linked a]

/-! ## `ht530_exit` -/

/-- One round of the loop. -/
theorem Linked.exitNode (hl : Linked h) {i : Fin 128} {a : Addr} {l : List Addr}
    (hi : h.tbl i = a :: l) :
    ∃ h', h.exitNode a = some h' ∧ Linked h' ∧ h'.tbl = Function.update h.tbl i l := by
  have hin : a ∈ h.tbl i := hi ▸ List.mem_cons_self
  have halloc : a ∈ h.allocated := (hl.linked a).mpr ⟨i, hin⟩
  refine ⟨{ h.hashDel a with allocated := h.allocated.erase a }, ?_, hl.del rfl rfl,
    funext fun j => ?_⟩
  · simp [Heap.exitNode, Heap.load, Heap.kfree, Heap.hashDel, halloc]
  · show (h.tbl j).erase a = _
    by_cases hj : j = i
    · rw [hj, Function.update_self, hi, List.erase_cons_head]
    · rw [Function.update_of_ne hj, List.erase_of_not_mem fun hja => hj (hl.home hja hin)]

/-- One bucket. -/
theorem Linked.exitBucket {i : Fin 128} {l : List Addr} :
    ∀ {h : Heap}, Linked h → h.tbl i = l →
      ∃ h', l.foldlM Heap.exitNode h = some h' ∧ Linked h'
        ∧ h'.tbl = Function.update h.tbl i [] := by
  induction l with
  | nil =>
      intro h hl hi
      exact ⟨h, rfl, hl, by rw [← hi, Function.update_eq_self]⟩
  | cons a l ih =>
      intro h hl hi
      obtain ⟨h₁, hnode, hl₁, htbl⟩ := hl.exitNode hi
      obtain ⟨h', hrest, hl', htbl'⟩ := ih hl₁ (by rw [htbl, Function.update_self])
      refine ⟨h', ?_, hl', by rw [htbl', htbl, Function.update_idem]⟩
      rw [List.foldlM_cons, hnode]
      exact hrest

/-- The buckets one after the other. -/
theorem Linked.exitBuckets (is : List (Fin 128)) :
    ∀ {h : Heap}, Linked h → ∃ h', is.foldlM Heap.exitBucket h = some h' ∧ Linked h'
      ∧ ∀ i, h'.tbl i = if i ∈ is then [] else h.tbl i := by
  induction is with
  | nil =>
      intro h hl
      exact ⟨h, rfl, hl, fun i => (if_neg List.not_mem_nil).symm⟩
  | cons i is ih =>
      intro h hl
      obtain ⟨h₁, hbucket, hl₁, htbl⟩ := hl.exitBucket (i := i) rfl
      obtain ⟨h', hrest, hl', htbl'⟩ := ih hl₁
      refine ⟨h', ?_, hl', fun j => ?_⟩
      · rw [List.foldlM_cons, Heap.exitBucket, hbucket]
        exact hrest
      · rw [htbl', htbl]
        by_cases hj : j = i
        · rw [hj, Function.update_self, ite_self, if_pos List.mem_cons_self]
        · rw [Function.update_of_ne hj]
          simp [hj]

/-- **NOTHING IS LEFT** when the module is unloaded. -/
theorem Linked.exit (hl : Linked h) :
    ∃ h', h.ht530Exit = some h' ∧ (∀ i, h'.tbl i = []) ∧ h'.allocated = ∅ := by
  have hall {h' : Heap} (hl' : Linked h') (hempty : ∀ i, h'.tbl i = []) : h'.allocated = ∅ := by
    refine Finset.eq_empty_of_forall_notMem fun a ha => ?_
    obtain ⟨i, hi⟩ := (hl'.linked a).mp ha
    rw [hempty i] at hi
    cases hi
  rw [Heap.ht530Exit]
  split
  · rename_i hempty
    have hnil (i : Fin 128) : h.tbl i = [] :=
      List.isEmpty_iff.mp (List.all_eq_true.mp hempty i (List.mem_finRange i))
    exact ⟨h, rfl, hnil, hall hl hnil⟩
  · obtain ⟨h', hrun, hl', htbl⟩ := exitBuckets (List.finRange 128) hl
    have hnil (i : Fin 128) : h'.tbl i = [] := (htbl i).trans (if_pos (List.mem_finRange i))
    exact ⟨h', hrun, hnil, hall hl' hnil⟩

end Linked

/-! ## A heap that stands for a table -/

/-- The buckets are those of the table. -/
structure Stands (h : Heap) (T : Table) : Prop extends Linked h where
  bucket : ∀ i, T.bucket i = (h.tbl i).map h.pair
  size : T.curSize = h.curSize

section Stands
variable {hash : BitVec 32 → Fin 128} {slab : Slab} {h : Heap} {T : Table}

theorem stands_init (garbage : Addr → Pair) : Stands (Heap.init garbage) Table.empty where
  toLinked := linked_init garbage
  bucket _ := rfl
  size := rfl

/-- A walk over nodes that are allocated. -/
theorem walk_eq {l : List Addr} (hl : ∀ a ∈ l, h.load a = some (h.pair a)) (key : BitVec 32) :
    h.walk key l = some (lookup (fun a => (h.pair a).key) l key) := by
  induction l with
  | nil => rfl
  | cons a l ih =>
      rw [Heap.walk, hl a List.mem_cons_self, Option.bind_some, lookup_cons]
      split
      · rfl
      · exact ih fun b hb => hl b (List.mem_cons_of_mem a hb)

theorem Stands.findTheNode (hs : Stands h T) (key : BitVec 32) :
    h.findTheNode hash key = some (lookup (fun a => (h.pair a).key) (h.tbl (hash key)) key) := by
  rw [Heap.findTheNode]
  split
  · rename_i hempty
    rw [List.isEmpty_iff.mp hempty]
    rfl
  · exact walk_eq (fun a ha => hs.load ha) key

/-- The node that is found holds the pair that is found. -/
theorem Stands.find_pair (hs : Stands h T) (key : BitVec 32) :
    Ht530.findTheNode hash T key
      = (lookup (fun a => (h.pair a).key) (h.tbl (hash key)) key).map h.pair := by
  rw [findTheNode_eq, hs.bucket, lookup_map]

theorem Stands.nodes (hs : Stands h T) : T.nodes = h.nodes.map h.pair := by
  rw [Table.nodes, Heap.nodes, List.map_flatMap]
  exact congrArg (fun f => (List.finRange 128).flatMap f) (funext hs.bucket)

/-- What the dump copies. -/
theorem Stands.allDump (hs : Stands h T) : h.allDump = some T.nodes := by
  have hload {l : List Addr} (hl : ∀ a ∈ l, h.load a = some (h.pair a)) :
      l.mapM h.load = some (l.map h.pair) := by
    induction l with
    | nil => rfl
    | cons a l ih =>
        rw [List.mapM_cons, hl a List.mem_cons_self,
          ih fun b hb => hl b (List.mem_cons_of_mem a hb)]
        rfl
  rw [Heap.allDump, hs.nodes]
  refine hload fun a ha => ?_
  obtain ⟨i, hi⟩ := mem_heap_nodes.mp ha
  exact hs.load hi

/-! ## The statements of a write -/

theorem finish_ret (x : Pair) (n : Nat) (h : Heap) :
    Write.finish hash slab x n h .ret = some h := by
  cases n <;> exact if_pos rfl

theorem finish_next {x : Pair} {n : Nat} {h h' : Heap} {w w' : Write}
    (hw : w.next hash slab x h = some (h', w')) :
    Write.finish hash slab x (n + 1) h w = Write.finish hash slab x n h' w' := by
  have hne : w ≠ .ret := by
    rintro rfl
    cases hw
  rw [Write.finish, if_neg hne, hw]
  rfl

/-- The pair is stored in two statements. -/
theorem finish_setKey {x : Pair} {n : Nat} {h : Heap} {a : Addr} (ha : a ∈ h.allocated) :
    Write.finish hash slab x (n + 2) h (.setKey a)
      = some { h with pair := Function.update h.pair a x } := by
  have hkey : (Write.setKey a).next hash slab x h = some ({ h with
      pair := Function.update h.pair a { h.pair a with key := x.key } }, .setData a) := by
    simp [Write.next, Heap.load, Heap.store, ha]
  have hdata : (Write.setData a).next hash slab x
      { h with pair := Function.update h.pair a { h.pair a with key := x.key } }
      = some ({ h with pair := Function.update h.pair a x }, .ret) := by
    simp [Write.next, Heap.load, Heap.store, ha]
  rw [finish_next hkey, finish_next hdata, finish_ret]

/-- A new node. -/
theorem finish_alloc {x : Pair} {n : Nat} {h : Heap} :
    Write.finish hash slab x (n + 5) h .alloc = some
      { tbl := Function.update h.tbl (hash x.key) (slab.pick h.allocated :: h.tbl (hash x.key)),
        pair := Function.update h.pair (slab.pick h.allocated) x,
        allocated := insert (slab.pick h.allocated) h.allocated,
        curSize := h.curSize + 1 } := by
  obtain ⟨a, ha⟩ : ∃ a, slab.pick h.allocated = a := ⟨_, rfl⟩
  have halloc : Write.alloc.next hash slab x h
      = some ({ h with allocated := insert a h.allocated }, .add a) := by
    rw [← ha]
    rfl
  have hadd : (Write.add a).next hash slab x { h with allocated := insert a h.allocated }
      = some ({ h with allocated := insert a h.allocated,
                       tbl := Function.update h.tbl (hash x.key) (a :: h.tbl (hash x.key)) },
        .count a) := rfl
  have hcount : (Write.count a).next hash slab x
      { h with allocated := insert a h.allocated,
               tbl := Function.update h.tbl (hash x.key) (a :: h.tbl (hash x.key)) }
      = some ({ h with allocated := insert a h.allocated,
                       tbl := Function.update h.tbl (hash x.key) (a :: h.tbl (hash x.key)),
                       curSize := h.curSize + 1 }, .setKey a) := rfl
  rw [ha, finish_next halloc, finish_next hadd, finish_next hcount,
    finish_setKey (Finset.mem_insert_self a h.allocated)]

/-- A node goes. -/
theorem finish_del {x : Pair} {n : Nat} {h : Heap} {a : Addr} (ha : a ∈ h.allocated) :
    Write.finish hash slab x (n + 3) h (.del a) = some
      { h with tbl := fun i => (h.tbl i).erase a, curSize := h.curSize - 1,
               allocated := h.allocated.erase a } := by
  have hdel : (Write.del a).next hash slab x h = some (h.hashDel a, .uncount a) := rfl
  have huncount : (Write.uncount a).next hash slab x (h.hashDel a)
      = some ({ h.hashDel a with curSize := h.curSize - 1 }, .free a) := rfl
  have hfree : (Write.free a).next hash slab x { h.hashDel a with curSize := h.curSize - 1 }
      = some ({ h with tbl := fun i => (h.tbl i).erase a, curSize := h.curSize - 1,
                       allocated := h.allocated.erase a }, .ret) := by
    simp [Write.next, Heap.kfree, Heap.hashDel, ha]
  rw [finish_next hdel, finish_next huncount, finish_next hfree, finish_ret]

/-! ## What they do to the table -/

/-- A pair is written in place. -/
theorem Stands.put (hs : Stands h T) {x : Pair} {a : Addr}
    (ha : lookup (fun a => (h.pair a).key) (h.tbl (hash x.key)) x.key = some a) :
    Stands { h with pair := Function.update h.pair a x }
      (T.setBucket (hash x.key) (put Pair.key x (T.bucket (hash x.key))) T.curSize) := by
  refine ⟨hs.toLinked.congr rfl rfl, fun i => ?_, hs.size⟩
  show _ = (h.tbl i).map (Function.update h.pair a x)
  by_cases hi : i = hash x.key
  · rw [hi, bucket_setBucket_self, hs.bucket]
    exact put_map (hs.nodup _) ha
  · rw [bucket_setBucket_other hi, hs.bucket]
    refine List.map_congr_left fun b hb => ?_
    have hba : b ≠ a := by
      rintro rfl
      exact hi (hs.home hb (mem_of_lookup ha).1)
    rw [Function.update_of_ne hba]

/-- A node is added in front. -/
theorem Stands.add (hs : Stands h T) {a : Addr} (ha : a ∉ h.allocated) (x : Pair) :
    Stands { tbl := Function.update h.tbl (hash x.key) (a :: h.tbl (hash x.key)),
             pair := Function.update h.pair a x, allocated := insert a h.allocated,
             curSize := h.curSize + 1 }
      (T.setBucket (hash x.key) (x :: T.bucket (hash x.key)) (T.curSize + 1)) := by
  have hmap (i : Fin 128) : (h.tbl i).map (Function.update h.pair a x) = (h.tbl i).map h.pair := by
    refine List.map_congr_left fun b hb => Function.update_of_ne (fun hba => ha ?_) _ _
    exact (hs.linked a).mpr ⟨i, hba ▸ hb⟩
  refine ⟨hs.toLinked.add ha (hash x.key) rfl rfl, fun i => ?_, congrArg (· + 1) hs.size⟩
  show _ = (Function.update h.tbl (hash x.key) (a :: h.tbl (hash x.key)) i).map
    (Function.update h.pair a x)
  by_cases hi : i = hash x.key
  · rw [hi, bucket_setBucket_self, Function.update_self, List.map_cons, Function.update_self, hmap,
      hs.bucket]
  · rw [bucket_setBucket_other hi, Function.update_of_ne hi, hmap, hs.bucket]

/-- A node is taken away. -/
theorem Stands.del (hs : Stands h T) {key : BitVec 32} {a : Addr}
    (ha : lookup (fun a => (h.pair a).key) (h.tbl (hash key)) key = some a) :
    Stands { h with tbl := fun i => (h.tbl i).erase a, curSize := h.curSize - 1,
                    allocated := h.allocated.erase a }
      (T.setBucket (hash key) (remove Pair.key key (T.bucket (hash key))) (T.curSize - 1)) := by
  refine ⟨hs.toLinked.del rfl rfl, fun i => ?_, congrArg (· - 1) hs.size⟩
  show _ = ((h.tbl i).erase a).map h.pair
  by_cases hi : i = hash key
  · rw [hi, bucket_setBucket_self, hs.bucket]
    exact remove_map ha
  · have hout : a ∉ h.tbl i := fun hin => hi (hs.home hin (mem_of_lookup ha).1)
    rw [bucket_setBucket_other hi, List.erase_of_not_mem hout, hs.bucket]

/-- **A WHOLE WRITE** touches only nodes that are allocated, and does to the table what
    `ht530_write` does. -/
theorem stands_write (slab : Slab) (hs : Stands h T) (x : Pair) :
    ∃ h', h.ht530Write hash slab x = some h' ∧ Stands h' (ht530Write hash T x 0).1 := by
  rw [write_eq, hs.find_pair, Heap.ht530Write]
  cases hfind : lookup (fun a => (h.pair a).key) (h.tbl (hash x.key)) x.key with
  | none =>
      have hnext : Write.find.next hash slab x h
          = some (h, if x.data = 0 then .ret else .alloc) := by
        rw [Write.next, hs.findTheNode, hfind]
        rfl
      rw [finish_next hnext]
      dsimp only [Option.map_none]
      by_cases hd : x.data = 0
      · rw [if_pos hd, if_pos hd]
        exact ⟨h, finish_ret x 6 h, hs⟩
      · rw [if_neg hd, if_neg hd]
        exact ⟨_, finish_alloc, hs.add (slab.fresh h.allocated) x⟩
  | some a =>
      have halloc := (hs.linked a).mpr ⟨_, (mem_of_lookup hfind).1⟩
      have hnext : Write.find.next hash slab x h
          = some (h, if x.data ≠ 0 then .setKey a else .del a) := by
        rw [Write.next, hs.findTheNode, hfind]
        rfl
      rw [finish_next hnext]
      dsimp only [Option.map_some]
      by_cases hd : x.data = 0
      · rw [if_neg (not_not_intro hd), if_neg (not_not_intro hd)]
        exact ⟨_, finish_del halloc, hs.del hfind⟩
      · rw [if_pos hd, if_pos hd]
        exact ⟨_, finish_setKey halloc, hs.put hfind⟩

theorem stands_read (hs : Stands h T) (key : BitVec 32) :
    h.ht530Read hash key = some (Ht530.findTheNode hash T key) := by
  rw [Heap.ht530Read, hs.findTheNode, Option.bind_some, hs.find_pair]
  cases hfind : lookup (fun a => (h.pair a).key) (h.tbl (hash key)) key with
  | none => rfl
  | some a =>
      dsimp only
      rw [hs.load (mem_of_lookup hfind).1]
      rfl

/-! ## Sequences of calls -/

theorem Stands.serve (hs : Stands h T) (r : Request) :
    ∃ h', h.serve hash slab r = some h' ∧ Stands h' (Ht530.serve hash T r) := by
  cases r with
  | write x => exact stands_write slab hs x
  | read key =>
      refine ⟨h, ?_, hs⟩
      rw [Heap.serve, stands_read hs]
      rfl

theorem stands_foldlM (reqs : List Request) (hs : Stands h T) :
    ∃ h', reqs.foldlM (Heap.serve hash slab) h = some h'
      ∧ Stands h' (reqs.foldl (Ht530.serve hash) T) := by
  induction reqs generalizing h T with
  | nil => exact ⟨h, rfl, hs⟩
  | cons r rest ih =>
      obtain ⟨h₁, hr, hs₁⟩ := hs.serve r
      obtain ⟨h', hrest, hs'⟩ := ih hs₁
      refine ⟨h', ?_, hs'⟩
      rw [List.foldlM_cons, hr]
      exact hrest

end Stands

/-! ## One more call -/

/-- The key that a call is about. -/
def Request.key : Request → BitVec 32
  | .write x => x.key
  | .read key => key

section Append
variable {hash : BitVec 32 → Fin 128}

theorem after_append (reqs : List Request) (r : Request) :
    after hash (reqs ++ [r]) = serve hash (after hash reqs) r := by
  rw [after, List.foldl_append]
  rfl

theorem lastWrite_append (key : BitVec 32) (reqs : List Request) (r : Request) :
    lastWrite key (reqs ++ [r]) = r.data key (lastWrite key reqs) := by
  rw [lastWrite, List.foldl_append]
  rfl

/-- The node that is found holds the last write. -/
theorem Stands.found {h : Heap} {reqs : List Request} (hs : Stands h (after hash reqs))
    {key : BitVec 32} {kitem : Option Addr} (hfind : h.findTheNode hash key = some kitem) :
    (kitem.elim (some none) fun a => (h.load a).map some)
      = some (if lastWrite key reqs = 0 then none else some ⟨key, lastWrite key reqs⟩) := by
  have hread : h.ht530Read hash key = _ := stands_read hs key
  rw [Heap.ht530Read, hfind, (holds_after reqs).find] at hread
  cases kitem <;> exact hread

end Append

/-- **THE HEAP STANDS FOR THE TABLE**: every sequence of complete calls, wherever `kmalloc`
    puts the nodes, runs without a fault; then the nodes that are allocated are those on
    the lists, as many as `cur_size` says, a read gets the last write of its key, and
    `ht530_exit` frees them all, each once. -/
theorem heap_stands (hash : BitVec 32 → Fin 128) (slab : Slab) (garbage : Addr → Pair)
    (reqs : List Request) :
    ∃ h, Heap.after hash slab garbage reqs = some h
      ∧ h.nodes.Nodup ∧ h.nodes.toFinset = h.allocated ∧ h.nodes.length = h.curSize.toNat
      ∧ h.allDump = some (after hash reqs).nodes
      ∧ (∀ key, h.ht530Read hash key = some (if lastWrite key reqs = 0 then none
          else some ⟨key, lastWrite key reqs⟩))
      ∧ ∃ h', h.ht530Exit = some h' ∧ (∀ i, h'.tbl i = []) ∧ h'.allocated = ∅ := by
  obtain ⟨h, hrun, hs⟩ :
      ∃ h, Heap.after hash slab garbage reqs = some h ∧ Stands h (after hash reqs) :=
    stands_foldlM reqs (stands_init garbage)
  obtain ⟨hh, hfind⟩ : Holds hash (after hash reqs) (lastWrite · reqs) := holds_after reqs
  refine ⟨h, hrun, hs.nodup_nodes, hs.toFinset_nodes, ?_, hs.allDump, fun key => ?_, hs.exit⟩
  · rw [← hs.size, hh.curSize_eq, hs.nodes, List.length_map]
  · rw [stands_read hs, hfind]

end Ht530
