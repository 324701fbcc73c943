import Mathlib.Logic.Function.Basic
import Mathlib.Data.List.Basic
import Mathlib.Algebra.Order.Ring.Nat

/-!
# The btree node cache: containers, locks and list heads

The state `btree_cache.c` works on. A `struct btree` is a *container*: it outlives the
node it holds, moving between the three list heads of `struct cache_set`

* `btree_cache` — nodes that are hashed and in use,
* `btree_cache_freeable` — containers whose data pages are still allocated,
* `btree_cache_freed` — bare containers,

and in and out of `btree_cache_table`, an rhashtable keyed by the first word of the
node's first extent pointer (`PTR_HASH`).

Containers are addressed by `Nat`; `kzalloc` hands out the next address `nr`. Of a
node's key we keep only `PTR_HASH`, which is all the cache reads of it. Each of a
container's three locks (`struct six_lock`) records its holders by task, so that later
modules can say which task holds what.
-/

namespace Libbcache

/-! ## Six locks -/

/-- `struct six_lock`: any number of readers, one intent holder, and a write lock that
only the intent holder can take and only while there are no readers. -/
structure SixLock where
  readers : List Nat
  intent : Option Nat
  write : Bool
  deriving DecidableEq, Repr

namespace SixLock

/-- An unlocked lock (`six_lock_init`). -/
def free : SixLock := ⟨[], none, false⟩

/-- `six_trylock_intent`. -/
def trylockIntent (l : SixLock) (t : Nat) : Option SixLock :=
  if l.intent = none then some { l with intent := some t } else none

/-- `six_trylock_write`, called by the intent holder: fails while anyone reads. -/
def trylockWrite (l : SixLock) : Option SixLock :=
  if l.readers = [] then some { l with write := true } else none

/-- `six_unlock_write`. -/
def unlockWrite (l : SixLock) : SixLock := { l with write := false }

/-- `six_unlock_intent`. -/
def unlockIntent (l : SixLock) : SixLock := { l with intent := none }

/-- `six_lock_downgrade`: the intent holder `t` becomes a reader. -/
def downgrade (l : SixLock) (t : Nat) : SixLock :=
  { l with intent := none, readers := t :: l.readers }

/-- Task `t` holds the lock with intent and write (what `mca_reap` leaves behind). -/
def HeldWrite (l : SixLock) (t : Nat) : Prop := l.intent = some t ∧ l.write = true

instance (l : SixLock) (t : Nat) : Decidable (l.HeldWrite t) :=
  inferInstanceAs (Decidable (_ ∧ _))

theorem trylockIntent_eq_some {l l' : SixLock} {t : Nat}
    (h : l.trylockIntent t = some l') : l.intent = none ∧ l' = { l with intent := some t } := by
  unfold trylockIntent at h
  split at h
  · exact ⟨‹_›, (Option.some.inj h).symm⟩
  · cases h

theorem trylockWrite_eq_some {l l' : SixLock}
    (h : l.trylockWrite = some l') : l.readers = [] ∧ l' = { l with write := true } := by
  unfold trylockWrite at h
  split at h
  · exact ⟨‹_›, (Option.some.inj h).symm⟩
  · cases h

end SixLock

/-! ## Containers -/

/-- The bits of `b->flags` that `btree_cache.c` tests or sets. -/
structure BtreeFlags where
  readError : Bool
  dirty : Bool
  writeInFlight : Bool
  writeError : Bool
  noevict : Bool
  accessed : Bool
  deriving DecidableEq, Repr

/-- `b->flags = 0`. -/
def BtreeFlags.zero : BtreeFlags := ⟨false, false, false, false, false, false⟩

/-- A `struct btree` container. `key` is `PTR_HASH(&b->key)`, `data` says whether
`b->data` is allocated, and `writeBlocked` whether `b->write_blocked` is non-empty. -/
structure Btree where
  key : Nat
  level : Nat
  btreeId : Nat
  data : Bool
  flags : BtreeFlags
  writeBlocked : Bool
  lock : SixLock
  deriving DecidableEq, Repr

/-- A container straight out of `kzalloc`, before `mca_data_alloc`. -/
def Btree.zero : Btree := ⟨0, 0, 0, false, .zero, false, .free⟩

/-! ## The cache set -/

/-- The three list heads a container's `list` member can be on. -/
inductive ListHead
  | btreeCache
  | freeable
  | freed
  deriving DecidableEq, Repr

/-- The node-cache part of `struct cache_set`. `table` is `btree_cache_table`, as the
pairs (hash it was inserted under, container); `allocLock` is
`btree_cache_alloc_lock`, the task that may cannibalize. -/
structure CacheSet where
  nodes : Nat → Btree
  nr : Nat
  lists : ListHead → List Nat
  table : List (Nat × Nat)
  btreeCacheUsed : Nat
  btreeCacheReserve : Nat
  allocLock : Option Nat
  shrinkerDisabled : Bool
  btreePages : Nat

namespace CacheSet

/-- Change container `b`. -/
def setNode (c : CacheSet) (b : Nat) (f : Btree → Btree) : CacheSet :=
  { c with nodes := Function.update c.nodes b (f (c.nodes b)) }

/-- `list_del` / `list_del_init`: take `b` off the list it is on. -/
def listDel (c : CacheSet) (b : Nat) : CacheSet :=
  { c with lists := fun h => (c.lists h).erase b }

/-- `list_add`: put `b` at the head of `h`. -/
def listAdd (c : CacheSet) (h : ListHead) (b : Nat) : CacheSet :=
  { c with lists := Function.update c.lists h (b :: c.lists h) }

/-- `list_move`: `list_del` then `list_add`. -/
def listMove (c : CacheSet) (h : ListHead) (b : Nat) : CacheSet :=
  (c.listDel b).listAdd h b

/-- Replace the order of `btree_cache` (the scan's saved position). -/
def setCacheList (c : CacheSet) (l : List Nat) : CacheSet :=
  { c with lists := Function.update c.lists .btreeCache l }

/-- Replace `btree_cache_table`. -/
def setTable (c : CacheSet) (t : List (Nat × Nat)) : CacheSet := { c with table := t }

/-- Container `b` is in `btree_cache_table`. -/
def Hashed (c : CacheSet) (b : Nat) : Prop := ∃ e ∈ c.table, e.2 = b

/-- `b` is on list head `h`. -/
def OnList (c : CacheSet) (b : Nat) : Prop := ∃ h, b ∈ c.lists h

/-- The number of containers with data allocated. -/
def dataCount (c : CacheSet) : Nat := (List.range c.nr).countP fun b => (c.nodes b).data

@[simp] theorem setNode_nodes_self (c : CacheSet) (b : Nat) (f : Btree → Btree) :
    (c.setNode b f).nodes b = f (c.nodes b) := by simp [setNode]

@[simp] theorem setNode_nodes_ne (c : CacheSet) {b b' : Nat} (f : Btree → Btree)
    (h : b' ≠ b) : (c.setNode b f).nodes b' = c.nodes b' := by simp [setNode, h]

@[simp] theorem setNode_setNode (c : CacheSet) (b : Nat) (f g : Btree → Btree) :
    (c.setNode b f).setNode b g = c.setNode b fun n => g (f n) := by
  simp only [setNode, Function.update_same, Function.update_idem]

@[simp] theorem setNode_lists (c : CacheSet) (b : Nat) (f : Btree → Btree) :
    (c.setNode b f).lists = c.lists := rfl

@[simp] theorem setNode_table (c : CacheSet) (b : Nat) (f : Btree → Btree) :
    (c.setNode b f).table = c.table := rfl

@[simp] theorem setNode_nr (c : CacheSet) (b : Nat) (f : Btree → Btree) :
    (c.setNode b f).nr = c.nr := rfl

@[simp] theorem setNode_used (c : CacheSet) (b : Nat) (f : Btree → Btree) :
    (c.setNode b f).btreeCacheUsed = c.btreeCacheUsed := rfl

@[simp] theorem setNode_reserve (c : CacheSet) (b : Nat) (f : Btree → Btree) :
    (c.setNode b f).btreeCacheReserve = c.btreeCacheReserve := rfl

@[simp] theorem setNode_allocLock (c : CacheSet) (b : Nat) (f : Btree → Btree) :
    (c.setNode b f).allocLock = c.allocLock := rfl

@[simp] theorem listDel_nodes (c : CacheSet) (b : Nat) : (c.listDel b).nodes = c.nodes := rfl
@[simp] theorem listDel_table (c : CacheSet) (b : Nat) : (c.listDel b).table = c.table := rfl
@[simp] theorem listDel_nr (c : CacheSet) (b : Nat) : (c.listDel b).nr = c.nr := rfl
@[simp] theorem listDel_used (c : CacheSet) (b : Nat) :
    (c.listDel b).btreeCacheUsed = c.btreeCacheUsed := rfl
@[simp] theorem listDel_reserve (c : CacheSet) (b : Nat) :
    (c.listDel b).btreeCacheReserve = c.btreeCacheReserve := rfl
@[simp] theorem listDel_allocLock (c : CacheSet) (b : Nat) :
    (c.listDel b).allocLock = c.allocLock := rfl
@[simp] theorem listDel_lists (c : CacheSet) (b : Nat) (h : ListHead) :
    (c.listDel b).lists h = (c.lists h).erase b := rfl

@[simp] theorem listAdd_nodes (c : CacheSet) (h : ListHead) (b : Nat) :
    (c.listAdd h b).nodes = c.nodes := rfl
@[simp] theorem listAdd_table (c : CacheSet) (h : ListHead) (b : Nat) :
    (c.listAdd h b).table = c.table := rfl
@[simp] theorem listAdd_nr (c : CacheSet) (h : ListHead) (b : Nat) :
    (c.listAdd h b).nr = c.nr := rfl
@[simp] theorem listAdd_used (c : CacheSet) (h : ListHead) (b : Nat) :
    (c.listAdd h b).btreeCacheUsed = c.btreeCacheUsed := rfl
@[simp] theorem listAdd_reserve (c : CacheSet) (h : ListHead) (b : Nat) :
    (c.listAdd h b).btreeCacheReserve = c.btreeCacheReserve := rfl
@[simp] theorem listAdd_allocLock (c : CacheSet) (h : ListHead) (b : Nat) :
    (c.listAdd h b).allocLock = c.allocLock := rfl
@[simp] theorem listAdd_lists (c : CacheSet) (h h' : ListHead) (b : Nat) :
    (c.listAdd h b).lists h' = if h' = h then b :: c.lists h else c.lists h' := by
  by_cases e : h' = h
  · subst e; simp [listAdd]
  · simp [listAdd, e]

@[simp] theorem setCacheList_nodes (c : CacheSet) (l : List Nat) :
    (c.setCacheList l).nodes = c.nodes := rfl
@[simp] theorem setCacheList_table (c : CacheSet) (l : List Nat) :
    (c.setCacheList l).table = c.table := rfl
@[simp] theorem setCacheList_nr (c : CacheSet) (l : List Nat) :
    (c.setCacheList l).nr = c.nr := rfl
@[simp] theorem setCacheList_used (c : CacheSet) (l : List Nat) :
    (c.setCacheList l).btreeCacheUsed = c.btreeCacheUsed := rfl
@[simp] theorem setCacheList_reserve (c : CacheSet) (l : List Nat) :
    (c.setCacheList l).btreeCacheReserve = c.btreeCacheReserve := rfl
@[simp] theorem setCacheList_allocLock (c : CacheSet) (l : List Nat) :
    (c.setCacheList l).allocLock = c.allocLock := rfl
@[simp] theorem setCacheList_lists (c : CacheSet) (l : List Nat) (h : ListHead) :
    (c.setCacheList l).lists h = if h = .btreeCache then l else c.lists h := by
  by_cases e : h = .btreeCache
  · subst e; simp [setCacheList]
  · simp [setCacheList, e]

@[simp] theorem listMove_nodes (c : CacheSet) (h : ListHead) (b : Nat) :
    (c.listMove h b).nodes = c.nodes := rfl
@[simp] theorem listMove_table (c : CacheSet) (h : ListHead) (b : Nat) :
    (c.listMove h b).table = c.table := rfl
@[simp] theorem listMove_nr (c : CacheSet) (h : ListHead) (b : Nat) :
    (c.listMove h b).nr = c.nr := rfl
@[simp] theorem listMove_used (c : CacheSet) (h : ListHead) (b : Nat) :
    (c.listMove h b).btreeCacheUsed = c.btreeCacheUsed := rfl

@[simp] theorem listMove_lists (c : CacheSet) (h h' : ListHead) (b : Nat) :
    (c.listMove h b).lists h' = if h' = h then b :: (c.lists h).erase b else (c.lists h').erase b := by
  simp [listMove]

@[simp] theorem setTable_nodes (c : CacheSet) (t : List (Nat × Nat)) :
    (c.setTable t).nodes = c.nodes := rfl
@[simp] theorem setTable_lists (c : CacheSet) (t : List (Nat × Nat)) :
    (c.setTable t).lists = c.lists := rfl
@[simp] theorem setTable_table (c : CacheSet) (t : List (Nat × Nat)) : (c.setTable t).table = t := rfl
@[simp] theorem setTable_nr (c : CacheSet) (t : List (Nat × Nat)) : (c.setTable t).nr = c.nr := rfl
@[simp] theorem setTable_used (c : CacheSet) (t : List (Nat × Nat)) :
    (c.setTable t).btreeCacheUsed = c.btreeCacheUsed := rfl
@[simp] theorem setTable_reserve (c : CacheSet) (t : List (Nat × Nat)) :
    (c.setTable t).btreeCacheReserve = c.btreeCacheReserve := rfl
@[simp] theorem setTable_allocLock (c : CacheSet) (t : List (Nat × Nat)) :
    (c.setTable t).allocLock = c.allocLock := rfl

@[simp] theorem setTable_setNode (c : CacheSet) (t : List (Nat × Nat)) (b : Nat)
    (f : Btree → Btree) : (c.setTable t).setNode b f = (c.setNode b f).setTable t := rfl

@[simp] theorem listAdd_setNode (c : CacheSet) (h : ListHead) (b x : Nat) (f : Btree → Btree) :
    (c.listAdd h b).setNode x f = (c.setNode x f).listAdd h b := rfl

theorem mem_listAdd_lists {c : CacheSet} {h h' : ListHead} {b x : Nat} :
    x ∈ (c.listAdd h b).lists h' ↔ (x = b ∧ h' = h) ∨ x ∈ c.lists h' := by
  by_cases e : h' = h
  · subst e; simp
  · simp [e]

end CacheSet

end Libbcache
