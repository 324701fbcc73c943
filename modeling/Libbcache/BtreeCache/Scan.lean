import Libbcache.BtreeCache.Alloc

/-!
# The shrinker: `bch_mca_scan` and `bch_mca_count`

`bch_mca_scan` computes its budget once, under `btree_cache_lock`, as
`min(nr_to_scan / btree_pages, mca_can_free(c))`. It then frees reapable containers of
`btree_cache_freeable` (skipping the first three) and walks `btree_cache` from its
head, clearing the accessed bit of every node it passes and evicting the first
unaccessed node it can reap. An eviction drops `btree_cache_lock` before unhashing the
node (`mca_hash_remove` may not run under it), and the walk then restarts from the
list head, which the eviction moved to just after the evicted node.

So a scan is a sequence of atomic sections of three kinds, and we model it as such
(`ScanPc`, `scanStep`): the first section under the lock, the tail of an eviction
outside the lock, and each restart under the lock. `bchMcaScan` runs them back to back;
the concurrent model of later modules interleaves them with other tasks.
-/

namespace Libbcache

/-- `struct shrink_control`, as far as `bch_mca_scan` reads it. The `__GFP_IO` bit
only chooses between `mutex_lock` and `mutex_trylock`; with atomic sections the lock
is always free when a section starts, so both succeed and the bit is not modelled. -/
structure ShrinkControl where
  nrToScan : Nat
  deriving DecidableEq, Repr

/-- `SHRINK_STOP` (`~0UL`), which is also what `return -1` becomes as an `unsigned long`. -/
def shrinkStop : Nat := 2 ^ 64 - 1

/-- Where a running `bch_mca_scan` is between two of its atomic sections. -/
inductive ScanPc
  /-- Not started. -/
  | start
  /-- `b`'s data was freed and `btree_cache_lock` dropped; `mca_hash_remove` is next. -/
  | evicted (b nr freed : Nat)
  /-- Between an eviction's tail and retaking `btree_cache_lock` (`goto restart`). -/
  | restart (nr freed : Nat)
  /-- Returned `ret`. -/
  | done (ret : Nat)
  deriving DecidableEq, Repr

namespace CacheSet

/-- `mca_can_free(c)`. `btree_cache_used - btree_cache_reserve` is taken as exact: the
node counts stay far below `2^31`, where the `int` cast would make it negative. -/
def mcaCanFree (c : CacheSet) : Nat := c.btreeCacheUsed - c.btreeCacheReserve

/-- `bch_mca_count`. -/
def bchMcaCount (c : CacheSet) : Nat :=
  if c.shrinkerDisabled then 0
  else if c.allocLock.isSome then 0
  else c.mcaCanFree * c.btreePages

/-- The loop over `btree_cache_freeable`: `i` counts the containers seen, the first three
are never freed, and every later one that reaps is freed, until `freed` reaches `nr`. -/
def scanFreeable (t nr : Nat) : CacheSet → List Nat → Nat → Nat → Except Stop (CacheSet × Nat)
  | c, [], _, freed => .ok (c, freed)
  | c, b :: l, i, freed =>
    if nr ≤ freed then .ok (c, freed)
    else if 3 < i + 1 then
      match c.mcaReapNotrace b false t with
      | some c' => do
        let c' ← c'.mcaDataFree b
        scanFreeable t nr (c'.unlockNode b) l (i + 1) (freed + 1)
      | none => scanFreeable t nr c l (i + 1) freed
    else scanFreeable t nr c l (i + 1) freed

/-- One walk of `btree_cache` under `btree_cache_lock`, with `pre` the nodes already
passed. Meeting the budget saves the position and ends the scan; evicting a node saves
the position (`list_move_tail(&c->btree_cache, &t->list)` puts the passed nodes and the
evicted one behind the rest), frees its data and drops the lock; any other node has its
accessed bit cleared. -/
def scanWalk (t nr : Nat) : CacheSet → List Nat → List Nat → Nat → Except Stop (CacheSet × ScanPc)
  | c, _, [], freed => .ok (c, .done (freed * c.btreePages))
  | c, pre, b :: rest, freed =>
    if nr ≤ freed then .ok (c.setCacheList (rest ++ pre ++ [b]), .done (freed * c.btreePages))
    else
      match if (c.nodes b).flags.accessed then none else c.mcaReapNotrace b false t with
      | some c' => do
        let c' ← (c'.setCacheList (rest ++ pre ++ [b])).mcaDataFree b
        return (c', .evicted b nr (freed + 1))
      | none =>
        scanWalk t nr (c.setNode b fun n => { n with flags := { n.flags with accessed := false } })
          (pre ++ [b]) rest freed

/-- One atomic section of `bch_mca_scan` run by task `t`. -/
def scanStep (c : CacheSet) (t : Nat) (sc : ShrinkControl) : ScanPc → Except Stop (CacheSet × ScanPc)
  | .start =>
    if c.shrinkerDisabled then .ok (c, .done shrinkStop)
    else if c.allocLock.isSome then .ok (c, .done shrinkStop)
    else do
      let nr := min (sc.nrToScan / c.btreePages) c.mcaCanFree
      let (c, freed) ← c.scanFreeable t nr (c.lists .freeable) 0 0
      scanWalk t nr c [] (c.lists .btreeCache) freed
  | .evicted b nr freed => do
    let c ← c.mcaHashRemove b
    let c := c.unlockNode b
    return (c, if nr ≤ freed then .done (freed * c.btreePages) else .restart nr freed)
  | .restart nr freed => scanWalk t nr c [] (c.lists .btreeCache) freed
  | .done r => .ok (c, .done r)

/-- Run at most `fuel` sections of a scan, stopping when it returns. -/
def scanRun (t : Nat) (sc : ShrinkControl) : Nat → CacheSet → ScanPc → Except Stop (CacheSet × ScanPc)
  | 0, c, pc => .ok (c, pc)
  | fuel + 1, c, pc =>
    match pc with
    | .done r => .ok (c, .done r)
    | pc => do
      let (c', pc') ← c.scanStep t sc pc
      scanRun t sc fuel c' pc'

/-- `bch_mca_scan` run to completion by task `t`, with no other task in between:
the cache set after it and the value it returns. Every eviction but the last is
followed by a restart, and there are at most `mca_can_free(c)` evictions, so
`2 * mca_can_free(c) + 2` sections are enough (`scanRun_done`). -/
def bchMcaScan (c : CacheSet) (t : Nat) (sc : ShrinkControl) : Except Stop (CacheSet × Nat) := do
  let (c', pc) ← scanRun t sc (2 * c.mcaCanFree + 2) c .start
  match pc with
  | .done r => return (c', r)
  | _ => return (c', 0)

end CacheSet

end Libbcache
