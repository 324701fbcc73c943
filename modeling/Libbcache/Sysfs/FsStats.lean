import Libbcache.BtreeCache.Exit

/-!
# Cache set statistics in sysfs

Three of the values `SHOW(bch_fs)` prints:

* `btree_cache_size`, from `bch_btree_cache_size`: `btree_bytes(c)` for each node on
  `btree_cache`. In every reachable state of the node cache it is at most the memory
  `btree_cache_used` accounts for, less the pages still held by the containers on
  `btree_cache_freeable`, which it leaves out (`bchBtreeCacheSize_le_used`).
* `root_usage_percent`, from `bch_root_usage`: the key bytes of the extents root as a
  percentage of `btree_bytes(c)`. The root can be replaced while the reader waits for its
  lock, so the reader locks the root it read, reads the root again, and starts over if it
  changed. Whatever the interleaving, it releases every lock it takes, holds one at a time,
  and reads the node that was the root once locked (`bchRootUsage_locks`).
* `cache_available_percent`, from `bch_fs_available_percent`.

Both percentages are computed in the source's unsigned arithmetic (`percentOf`), and are
at most 100 while the part is at most the whole and the product by 100 does not wrap
(`percentOf_le`).
-/

namespace Libbcache

/-! ## Percentages -/

/-- `(x * 100) / d` in `w`-bit unsigned arithmetic. -/
def percentOf (w x d : Nat) : Nat := x * 100 % 2 ^ w / d

theorem percentOf_le {w x d : Nat} (hx : x ≤ d) (hd : d * 100 < 2 ^ w) :
    percentOf w x d ≤ 100 := by
  have hlt : x * 100 < 2 ^ w := lt_of_le_of_lt (Nat.mul_le_mul_right 100 hx) hd
  rw [percentOf, Nat.mod_eq_of_lt hlt]
  exact Nat.div_le_of_le_mul (Nat.mul_le_mul_right 100 hx)

/-- `bch_fs_available_percent`: `div64_u64((u64) sectors_available(c) * 100,
c->capacity ?: 1)`. -/
def bchFsAvailablePercent (sectorsAvailable capacity : Nat) : Nat :=
  percentOf 64 sectorsAvailable (if capacity = 0 then 1 else capacity)

/-! ## `btree_cache_size` -/

namespace CacheSet

/-- `bch_btree_cache_size`: `ret += btree_bytes(c)` for each node on `btree_cache`. -/
def bchBtreeCacheSize (c : CacheSet) (btreeBytes : Nat) : Nat :=
  (c.lists .btreeCache).foldl (fun ret _ => ret + btreeBytes) 0

theorem foldl_add_const (k : Nat) :
    ∀ (l : List Nat) (init : Nat), l.foldl (fun ret _ => ret + k) init = init + l.length * k
  | [], init => by simp
  | _ :: l, init => by
    rw [List.foldl_cons, foldl_add_const k l, List.length_cons, Nat.succ_mul]; omega

theorem bchBtreeCacheSize_eq (c : CacheSet) (btreeBytes : Nat) :
    c.bchBtreeCacheSize btreeBytes = (c.lists .btreeCache).length * btreeBytes := by
  rw [bchBtreeCacheSize, foldl_add_const, Nat.zero_add]

/-- A list of distinct containers that all hold data is no longer than the count of
containers with data. -/
theorem length_le_dataCount {c : CacheSet} {l : List Nat} (hl : l.Nodup)
    (h : ∀ b ∈ l, b < c.nr ∧ (c.nodes b).data = true) : l.length ≤ c.dataCount := by
  rw [dataCount, List.countP_eq_length_filter]
  exact (hl.subperm fun b hb => List.mem_filter.2
    ⟨List.mem_range.2 (h b hb).1, (h b hb).2⟩).length_le

/-- In every reachable state, `btree_cache_size` and the pages of the containers on
`btree_cache_freeable` together take at most the memory `btree_cache_used` counts. -/
theorem bchBtreeCacheSize_le_used {c : CacheSet} (h : Reachable c) (btreeBytes : Nat) :
    c.bchBtreeCacheSize btreeBytes + (c.lists .freeable).length * btreeBytes ≤
      c.btreeCacheUsed * btreeBytes := by
  have hc := h.cacheInv
  have hnd : (c.lists .btreeCache ++ c.lists .freeable).Nodup :=
    (List.nodup_append.1 hc.allLists_nodup).1
  have hdata : ∀ b ∈ c.lists .btreeCache ++ c.lists .freeable,
      b < c.nr ∧ (c.nodes b).data = true := by
    intro b hb
    rcases List.mem_append.1 hb with hb | hb
    · exact ⟨hc.listed _ b hb, hc.cacheData b hb⟩
    · exact ⟨hc.listed _ b hb, (hc.freeable b hb).1⟩
  have hle := length_le_dataCount hnd hdata
  rw [List.length_append] at hle
  rw [bchBtreeCacheSize_eq, ← Nat.add_mul, hc.used]
  exact Nat.mul_le_mul_right _ hle

theorem bchBtreeCacheSize_le_used_breachStart :
    Reachable breachStart ∧
      breachStart.bchBtreeCacheSize 4096 + (breachStart.lists .freeable).length * 4096 ≤
        breachStart.btreeCacheUsed * 4096 :=
  ⟨reachable_breachStart, bchBtreeCacheSize_le_used reachable_breachStart 4096⟩

end CacheSet

/-! ## `root_usage_percent` -/

/-- A read lock taken or released on a node. -/
inductive RootLockOp
  | lock (b : Nat)
  | unlock (b : Nat)
  deriving DecidableEq, Repr

/-- The loop at `lock_root` of `bch_root_usage`, over a tape of what it reads: in each
round, the extents root `b` it read and locked, and the root `r` it read once the lock was
held. It stops when the two agree, holding the lock on `b`; otherwise it unlocks `b` and
goes round again. The tape running out means the root never held still. -/
def lockRoot : List (Nat × Nat) → Option Nat × List RootLockOp
  | [] => (none, [])
  | (b, r) :: rest =>
    if b = r then (some b, [.lock b])
    else ((lockRoot rest).1, .lock b :: .unlock b :: (lockRoot rest).2)

/-- `bch_root_usage`: lock the root as above, add up `bkey_bytes` of its keys in an
`unsigned`, unlock it, and return `(bytes * 100) / btree_bytes(c)`. `keyBytes b` lists
the sizes of the keys of node `b`. Returns the node read, the percentage and the lock
operations in order. -/
def bchRootUsage (keyBytes : Nat → List Nat) (btreeBytes : Nat) (tape : List (Nat × Nat)) :
    Option (Nat × Nat × List RootLockOp) :=
  match lockRoot tape with
  | (some b, ops) =>
    some (b, percentOf 32 ((keyBytes b).foldl (fun bytes k => (bytes + k) % 2 ^ 32) 0)
      btreeBytes, ops ++ [.unlock b])
  | (none, _) => none

/-- Lock, then unlock, each of `bs` in turn: never two locks at once, and none kept. -/
def lockEach (bs : List Nat) : List RootLockOp := bs.flatMap fun b => [.lock b, .unlock b]

theorem lockRoot_spec : ∀ (tape : List (Nat × Nat)) {b : Nat} {ops : List RootLockOp},
    lockRoot tape = (some b, ops) →
      ∃ pre rest, tape = pre ++ (b, b) :: rest ∧ (∀ p ∈ pre, p.1 ≠ p.2) ∧
        ops = lockEach (pre.map Prod.fst) ++ [.lock b]
  | [], _, _, h => by simp [lockRoot] at h
  | (b', r) :: rest, b, ops, h => by
    unfold lockRoot at h
    split at h
    · obtain ⟨hb, rfl⟩ := Prod.mk.inj h
      cases Option.some.inj hb
      exact ⟨[], rest, by simp [*], by simp, by simp [lockEach]⟩
    · obtain ⟨hb, rfl⟩ := Prod.mk.inj h
      obtain ⟨pre, rest', rfl, hpre, hops⟩ := lockRoot_spec rest (Prod.ext hb rfl)
      refine ⟨(b', r) :: pre, rest', rfl, ?_, ?_⟩
      · simpa [*] using hpre
      · simp [lockEach, hops]

/-- The sum `bch_root_usage` forms is the true sum while it stays below `2^32`. -/
theorem foldl_add_mod (ks : List Nat) : ∀ init : Nat, init + ks.sum < 2 ^ 32 →
    ks.foldl (fun bytes k => (bytes + k) % 2 ^ 32) init = init + ks.sum := by
  induction ks with
  | nil => simp
  | cons k ks ih =>
    intro init h
    simp only [List.sum_cons] at h
    rw [List.foldl_cons, Nat.mod_eq_of_lt (by omega), ih _ (by omega), List.sum_cons,
      Nat.add_assoc]

/-- Whatever the interleaving with root replacements, `bch_root_usage` locks the roots it
reads one at a time and releases each, ending on the node it found to be the root once
locked; and when that node's keys fit in `btree_bytes(c)`, which is small enough that
the product by 100 does not wrap, it returns at most 100. -/
theorem bchRootUsage_locks {keyBytes : Nat → List Nat} {btreeBytes : Nat}
    {tape : List (Nat × Nat)} {b pct : Nat} {ops : List RootLockOp}
    (h : bchRootUsage keyBytes btreeBytes tape = some (b, pct, ops)) :
    ∃ pre rest, tape = pre ++ (b, b) :: rest ∧ (∀ p ∈ pre, p.1 ≠ p.2) ∧
      ops = lockEach (pre.map Prod.fst ++ [b]) ∧
      ((keyBytes b).sum ≤ btreeBytes → btreeBytes * 100 < 2 ^ 32 → pct ≤ 100) := by
  unfold bchRootUsage at h
  split at h
  · rename_i b' ops' hl
    obtain ⟨rfl, hpo⟩ := Prod.mk.inj (Option.some.inj h)
    obtain ⟨rfl, rfl⟩ := Prod.mk.inj hpo
    obtain ⟨pre, rest, rfl, hpre, rfl⟩ := lockRoot_spec tape hl
    refine ⟨pre, rest, rfl, hpre, by simp [lockEach], fun hk hd => percentOf_le ?_ hd⟩
    rw [foldl_add_mod _ 0 (by omega), Nat.zero_add]
    exact hk
  · cases h

/-- The root moves from node 3 to node 5 while the reader waits for node 3's lock; the
reader retries and reads node 5, whose keys take 64 of its 256 bytes. -/
theorem bchRootUsage_locks_moved :
    bchRootUsage (fun _ => [40, 24]) 256 [(3, 5), (5, 5)] =
        some (5, 25, [.lock 3, .unlock 3, .lock 5, .unlock 5]) ∧
      ∃ pre rest, [(3, 5), (5, 5)] = pre ++ (5, 5) :: rest ∧ (∀ p ∈ pre, p.1 ≠ p.2) ∧
        [.lock 3, .unlock 3, .lock 5, .unlock 5] = lockEach (pre.map Prod.fst ++ [5]) ∧
        (([40, 24] : List Nat).sum ≤ 256 → 256 * 100 < 2 ^ 32 → 25 ≤ 100) :=
  have h : bchRootUsage (fun _ => [40, 24]) 256 [(3, 5), (5, 5)] =
      some (5, 25, [.lock 3, .unlock 3, .lock 5, .unlock 5]) := by decide
  ⟨h, bchRootUsage_locks h⟩

end Libbcache
