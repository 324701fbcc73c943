import Libbcache.BtreeCache.Node

/-!
# Data pages, the hash table and reaping

The small operations of `btree_cache.c` that every path of the node cache is built
from: allocating and freeing a container's data (`mca_data_alloc`, `mca_data_free`,
`mca_bucket_alloc`), entering and leaving `btree_cache_table` (`mca_hash_insert`,
`mca_hash_remove`, `mca_find`), and `mca_reap_notrace`, which decides whether a
container may be taken from its users.

The `BUG_ON`s and `EBUG_ON`s of these functions are part of the model: a function that
asserts returns `Except Stop`, and an assertion that fires is `.error`. Memory
allocation is an oracle argument (`true` when the allocation succeeds).

`mca_reap_notrace` calls the btree write path, which is not in this repository. Of it
we use only what its callers rely on: starting a write clears `dirty` and sets
`write_in_flight`, and the write's completion clears `write_in_flight`.
-/

namespace Libbcache

/-- Why an operation of the node cache does not return normally. -/
inductive Stop
  /-- `EBUG_ON(btree_node_write_in_flight(b))` in `__mca_data_free`, or the
  `BUG_ON` on the same flag in `mca_alloc`. -/
  | writeInFlight
  /-- `BUG_ON(btree_node_dirty(b))` in `mca_hash_remove`. -/
  | dirty
  /-- `BUG_ON(bkey_extent_is_data(&b->key.k) && PTR_HASH(&b->key))` in `mca_alloc`. -/
  | ptrHash
  /-- `BUG_ON(!six_trylock_intent(..))` or `BUG_ON(!six_trylock_write(..))` in `mca_alloc`. -/
  | trylock
  /-- `mca_cannibalize` found nothing it could reap and busy-waits forever. -/
  | spin
  deriving DecidableEq, Repr

/-- Starting a node write (`__bch_btree_node_write`): the node is clean and has a write
in flight. -/
def BtreeFlags.nodeWrite (f : BtreeFlags) : BtreeFlags :=
  { f with dirty := false, writeInFlight := true }

/-- `wait_on_bit_io(&b->flags, BTREE_NODE_write_in_flight, ..)`: the write in flight, if
any, completes. -/
def BtreeFlags.waitWrite (f : BtreeFlags) : BtreeFlags := { f with writeInFlight := false }

namespace CacheSet

/-! ## Data pages -/

/-- Set `btree_cache_used`. -/
def setUsed (c : CacheSet) (n : Nat) : CacheSet := { c with btreeCacheUsed := n }

@[simp] theorem setUsed_nodes (c : CacheSet) (n : Nat) : (c.setUsed n).nodes = c.nodes := rfl
@[simp] theorem setUsed_lists (c : CacheSet) (n : Nat) : (c.setUsed n).lists = c.lists := rfl
@[simp] theorem setUsed_table (c : CacheSet) (n : Nat) : (c.setUsed n).table = c.table := rfl
@[simp] theorem setUsed_nr (c : CacheSet) (n : Nat) : (c.setUsed n).nr = c.nr := rfl
@[simp] theorem setUsed_used (c : CacheSet) (n : Nat) : (c.setUsed n).btreeCacheUsed = n := rfl
@[simp] theorem setUsed_reserve (c : CacheSet) (n : Nat) :
    (c.setUsed n).btreeCacheReserve = c.btreeCacheReserve := rfl
@[simp] theorem setUsed_allocLock (c : CacheSet) (n : Nat) :
    (c.setUsed n).allocLock = c.allocLock := rfl

/-- `mca_data_free`: release `b`'s data pages and move it to `btree_cache_freed`. -/
def mcaDataFree (c : CacheSet) (b : Nat) : Except Stop CacheSet :=
  if (c.nodes b).flags.writeInFlight then .error .writeInFlight
  else .ok (((c.setNode b fun n => { n with data := false }).setUsed
    (c.btreeCacheUsed - 1)).listMove .freed b)

/-- `mca_data_alloc`: with `ok` the allocation succeeds and `b` moves to
`btree_cache_freeable`; otherwise `b` ends on `btree_cache_freed` without data. -/
def mcaDataAlloc (c : CacheSet) (b : Nat) (ok : Bool) : CacheSet :=
  if ok then
    ((c.setNode b fun n => { n with data := true }).setUsed
      (c.btreeCacheUsed + 1)).listMove .freeable b
  else (c.setNode b fun n => { n with data := false }).listMove .freed b

@[simp] theorem mcaDataAlloc_true (c : CacheSet) (b : Nat) :
    c.mcaDataAlloc b true = ((c.setNode b fun n => { n with data := true }).setUsed
      (c.btreeCacheUsed + 1)).listMove .freeable b := rfl

@[simp] theorem mcaDataAlloc_false (c : CacheSet) (b : Nat) :
    c.mcaDataAlloc b false = (c.setNode b fun n => { n with data := false }).listMove .freed b := rfl

theorem mcaDataAlloc_nodes (c : CacheSet) (b : Nat) (ok : Bool) :
    (c.mcaDataAlloc b ok).nodes = Function.update c.nodes b { c.nodes b with data := ok } := by
  cases ok <;> simp [setNode]

theorem mcaDataAlloc_nr (c : CacheSet) (b : Nat) (ok : Bool) : (c.mcaDataAlloc b ok).nr = c.nr := by
  cases ok <;> simp

/-- `mca_bucket_alloc`: `kzalloc` a fresh container at address `nr` (when `kzOk`) and
give it data. Returns the container only if it has data. -/
def mcaBucketAlloc (c : CacheSet) (kzOk dataOk : Bool) : CacheSet × Option Nat :=
  if kzOk then
    let c' := { c with nodes := Function.update c.nodes c.nr .zero, nr := c.nr + 1 }
    let c'' := c'.mcaDataAlloc c.nr dataOk
    (c'', if dataOk then some c.nr else none)
  else (c, none)

/-! ## The hash table -/

/-- `mca_hash_remove`: unhash `b` and zero its pointer hash, so that later lookups miss. -/
def mcaHashRemove (c : CacheSet) (b : Nat) : Except Stop CacheSet :=
  if (c.nodes b).flags.dirty then .error .dirty
  else .ok ((c.setTable (c.table.filter (·.2 != b))).setNode b fun n => { n with key := 0 })

/-- `mca_hash_insert`: set level and btree id, then insert `b` under its pointer hash
unless some container is hashed under it already (`-EEXIST`); on success `b` goes on
`btree_cache`. The `Bool` is `true` on success. -/
def mcaHashInsert (c : CacheSet) (b level id : Nat) : CacheSet × Bool :=
  let c' := c.setNode b fun n => { n with level := level, btreeId := id }
  let k := (c'.nodes b).key
  if c'.table.any (·.1 == k) then (c', false)
  else ((c'.setTable ((k, b) :: c'.table)).listAdd .btreeCache b, true)

/-- `mca_find`: the container hashed under `k`, if any. -/
def mcaFind (c : CacheSet) (k : Nat) : Option Nat :=
  (c.table.find? (·.1 == k)).map (·.2)

/-! ## Reaping -/

/-- `mca_reap_notrace`: trylock `b` for intent and write on behalf of task `t`, then
refuse a node with a write error, the noevict flag or blocked writes, and (unless
`flush`) a dirty node or one with a write in flight. With `flush` a dirty node is
written out and the write waited for. `none` is `-ENOMEM`: every lock taken has been
dropped again, so the cache set is unchanged. -/
def mcaReapNotrace (c : CacheSet) (b : Nat) (flush : Bool) (t : Nat) : Option CacheSet :=
  match (c.nodes b).lock.trylockIntent t with
  | none => none
  | some l =>
    match l.trylockWrite with
    | none => none
    | some l =>
      let n := c.nodes b
      if n.flags.writeError || n.flags.noevict then none
      else if n.writeBlocked then none
      else if !flush && (n.flags.dirty || n.flags.writeInFlight) then none
      else
        let f := if n.flags.dirty then n.flags.nodeWrite else n.flags
        some (c.setNode b fun n => { n with lock := l, flags := f.waitWrite })

/-- `six_unlock_write` then `six_unlock_intent` on `b`. -/
def unlockNode (c : CacheSet) (b : Nat) : CacheSet :=
  c.setNode b fun n => { n with lock := n.lock.unlockWrite.unlockIntent }

/-- What a successful reap leaves: `t` holds `b` for intent and write, and `b` is clean,
has no write in flight, no write error, no noevict flag and no blocked writes. -/
def Reaped (c : CacheSet) (b t : Nat) : Prop :=
  (c.nodes b).lock.HeldWrite t ∧ (c.nodes b).flags.dirty = false ∧
  (c.nodes b).flags.writeInFlight = false ∧ (c.nodes b).flags.writeError = false ∧
  (c.nodes b).flags.noevict = false ∧ (c.nodes b).writeBlocked = false

/-- What a successful reap requires and what it leaves: from a lock nobody holds, `t`'s
intent and write lock, and the flags after the node was written out if it was dirty. -/
theorem mcaReapNotrace_spec {c c' : CacheSet} {b t : Nat} {flush : Bool}
    (h : c.mcaReapNotrace b flush t = some c') :
    (c.nodes b).lock.intent = none ∧ (c.nodes b).lock.readers = [] ∧
    (c.nodes b).flags.writeError = false ∧ (c.nodes b).flags.noevict = false ∧
    (c.nodes b).writeBlocked = false ∧
    (flush = false → (c.nodes b).flags.dirty = false ∧ (c.nodes b).flags.writeInFlight = false) ∧
    c' = c.setNode b fun n =>
      { n with
        lock := ⟨[], some t, true⟩
        flags := (if (c.nodes b).flags.dirty then (c.nodes b).flags.nodeWrite else (c.nodes b).flags).waitWrite } := by
  unfold mcaReapNotrace at h
  split at h
  · cases h
  rename_i l hl
  obtain ⟨hi, rfl⟩ := SixLock.trylockIntent_eq_some hl
  split at h
  · cases h
  rename_i l' hl'
  obtain ⟨hr, rfl⟩ := SixLock.trylockWrite_eq_some hl'
  replace hr : (c.nodes b).lock.readers = [] := hr
  dsimp only at h
  split_ifs at h with h1 h2 h3 hd <;> cases h <;>
    simp only [Bool.or_eq_true, not_or, Bool.not_eq_true] at h1 h2 <;>
    exact ⟨hi, hr, h1.1, h1.2, h2, fun hf => by simpa [hf] using h3, by simp [hr, hd]⟩

/-- A successful reap changes only `b`'s lock and its `dirty` and `write_in_flight`
bits, and leaves `b` reaped by `t`. -/
theorem mcaReapNotrace_eq_some {c c' : CacheSet} {b t : Nat} {flush : Bool}
    (h : c.mcaReapNotrace b flush t = some c') :
    (∃ l f, c' = c.setNode b (fun n => { n with lock := l, flags := f })) ∧
    Reaped c' b t ∧ (c.nodes b).lock.intent = none ∧ (c.nodes b).lock.readers = [] := by
  obtain ⟨hi, hr, he, hn, hw, -, rfl⟩ := mcaReapNotrace_spec h
  refine ⟨⟨_, _, rfl⟩, ?_, hi, hr⟩
  cases hd : (c.nodes b).flags.dirty <;>
    simp [Reaped, SixLock.HeldWrite, BtreeFlags.nodeWrite, BtreeFlags.waitWrite, hd, he, hn, hw]

@[simp] theorem unlockNode_lists (c : CacheSet) (b : Nat) : (c.unlockNode b).lists = c.lists := rfl
@[simp] theorem unlockNode_table (c : CacheSet) (b : Nat) : (c.unlockNode b).table = c.table := rfl
@[simp] theorem unlockNode_nr (c : CacheSet) (b : Nat) : (c.unlockNode b).nr = c.nr := rfl
@[simp] theorem unlockNode_used (c : CacheSet) (b : Nat) :
    (c.unlockNode b).btreeCacheUsed = c.btreeCacheUsed := rfl

end CacheSet

end Libbcache
