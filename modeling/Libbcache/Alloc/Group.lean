import Mathlib.Logic.Function.Basic
import Mathlib.Data.List.Range
import Mathlib.Algebra.Order.Ring.Nat

/-!
# Walking the devices of a cache group

`struct cache_group` has `nr` slots in use; the `dev` of a slot is `NULL` while its device
is not online. `alloc.h` walks a group in two ways:

* `group_for_each_cache_rcu`, under RCU, with `cache_group_next_rcu` skipping from `*iter`
  to the next slot that has a device;
* `group_for_each_cache`, which also holds a reference on each device while the body of
  the loop runs: `cache_group_next` takes it with `percpu_ref_get`, and the step of the
  loop drops it with `percpu_ref_put` before moving on.

`open_bucket_for_each_online_device` walks the pointers of an open bucket the same way,
skipping those whose device is not online (`PTR_CACHE` is `NULL`). All three are one walk
(`nextOnline`, `walkOnline`) over a different table of slots.

Each walk visits exactly the online devices, in slot order (`walkOnline_eq`), and
`group_for_each_cache` runs the body on each with one reference more on that device and no
other change, and leaves every count as it found it (`groupForEachCache_refs`).
`prio_buckets` reserves enough buckets for the priority of every bucket, and no more
(`prioBuckets_spec`).
-/

namespace Libbcache

/-! ## The walk -/

section Walk

variable (dev : Nat → Option Nat) (n : Nat)

/-- The loop `while (*iter < n && !(ret = dev(*iter))) (*iter)++;`, looking at no more
than `fuel` slots: the device it stops at, if any, and the final `*iter`. -/
def nextOnline : Nat → Nat → Option Nat × Nat
  | 0, iter => (none, iter)
  | fuel + 1, iter =>
    if iter < n then
      match dev iter with
      | some ca => (some ca, iter)
      | none => nextOnline fuel (iter + 1)
    else (none, iter)

/-- `for ((iter) = start; (ca = next(&iter)); (iter)++)`: the devices the loop visits,
over at most `rounds` rounds. -/
def walkOnline : Nat → Nat → List Nat
  | 0, _ => []
  | rounds + 1, iter =>
    match nextOnline dev n n iter with
    | (some ca, i) => ca :: walkOnline rounds (i + 1)
    | (none, _) => []

/-- The devices of the slots from `iter` up to `n`. -/
def onlineFrom (iter : Nat) : List Nat := (List.range' iter (n - iter)).filterMap dev

variable {dev n}

theorem onlineFrom_of_le {iter : Nat} (h : n ≤ iter) : onlineFrom dev n iter = [] := by
  rw [onlineFrom, Nat.sub_eq_zero_of_le h, List.range'_zero, List.filterMap_nil]

theorem onlineFrom_of_lt {iter : Nat} (h : iter < n) :
    onlineFrom dev n iter = (dev iter).toList ++ onlineFrom dev n (iter + 1) := by
  obtain ⟨k, hk⟩ : ∃ k, n - iter = k + 1 := ⟨n - iter - 1, by omega⟩
  have hk' : n - (iter + 1) = k := by omega
  rw [onlineFrom, onlineFrom, hk, hk', List.range'_succ, List.filterMap_cons]
  cases dev iter <;> rfl

/-- With enough fuel, `nextOnline` stops at the first online slot from `iter`, or finds
none. -/
theorem nextOnline_spec : ∀ {fuel iter : Nat}, n - iter ≤ fuel →
    (∃ i, nextOnline dev n fuel iter = (none, i) ∧ onlineFrom dev n iter = []) ∨
      ∃ ca i, nextOnline dev n fuel iter = (some ca, i) ∧ iter ≤ i ∧
        onlineFrom dev n iter = ca :: onlineFrom dev n (i + 1)
  | 0, iter, h => .inl ⟨iter, rfl, onlineFrom_of_le (by omega)⟩
  | fuel + 1, iter, h => by
    by_cases hi : iter < n
    · rw [onlineFrom_of_lt hi]
      cases hd : dev iter with
      | some ca => exact .inr ⟨ca, iter, by simp [nextOnline, hi, hd], le_rfl, rfl⟩
      | none =>
        have hn : nextOnline dev n (fuel + 1) iter = nextOnline dev n fuel (iter + 1) := by
          simp [nextOnline, hi, hd]
        rw [hn, Option.toList_none, List.nil_append]
        rcases nextOnline_spec (show n - (iter + 1) ≤ fuel by omega) with
          h' | ⟨ca, i, h1, h2, h3⟩
        · exact .inl h'
        · exact .inr ⟨ca, i, h1, by omega, h3⟩
    · exact .inl ⟨iter, by simp [nextOnline, hi], onlineFrom_of_le (by omega)⟩

/-- With enough rounds, the walk from `iter` visits the online slots from `iter`, in
order. -/
theorem walkOnline_eq : ∀ {rounds iter : Nat}, n - iter ≤ rounds →
    walkOnline dev n rounds iter = onlineFrom dev n iter
  | 0, iter, h => (onlineFrom_of_le (by omega)).symm
  | rounds + 1, iter, h => by
    rcases @nextOnline_spec dev n n iter (by omega) with
      ⟨i, h1, h2⟩ | ⟨ca, i, h1, h2, h3⟩
    · rw [walkOnline, h1, h2]
    · rw [walkOnline, h1, h3]
      exact congrArg (ca :: ·) (walkOnline_eq (show n - (i + 1) ≤ rounds by omega))

end Walk

/-! ## Cache groups -/

/-- The part of `struct cache_group` the walks read: `nr`, and the device of each slot. -/
structure CacheGroup where
  nr : Nat
  dev : Nat → Option Nat

namespace CacheGroup

/-- `cache_group_next_rcu(devs, &iter)`. -/
def cacheGroupNextRcu (devs : CacheGroup) (iter : Nat) : Option Nat × Nat :=
  nextOnline devs.dev devs.nr devs.nr iter

/-- `group_for_each_cache_rcu(ca, devs, iter)`: the devices it visits. -/
def groupForEachCacheRcu (devs : CacheGroup) : List Nat := walkOnline devs.dev devs.nr devs.nr 0

/-- The devices of the group, in slot order. -/
def online (devs : CacheGroup) : List Nat := (List.range devs.nr).filterMap devs.dev

theorem groupForEachCacheRcu_eq (devs : CacheGroup) : devs.groupForEachCacheRcu = devs.online := by
  rw [groupForEachCacheRcu, walkOnline_eq (by omega), onlineFrom, online, Nat.sub_zero,
    List.range_eq_range']

/-- Slot 1 of four is offline. -/
example : groupForEachCacheRcu ⟨4, fun i => if i = 1 then none else some (10 + i)⟩ =
    [10, 12, 13] := by decide

/-- `cache_group_next(devs, &iter)` with the reference counts `refs` of the devices:
`cache_group_next_rcu`, then `percpu_ref_get` on the device found. -/
def cacheGroupNext (devs : CacheGroup) (iter : Nat) (refs : Nat → Int) :
    Option Nat × Nat × (Nat → Int) :=
  match devs.cacheGroupNextRcu iter with
  | (some ca, i) => (some ca, i, Function.update refs ca (refs ca + 1))
  | (none, i) => (none, i, refs)

/-- `group_for_each_cache(ca, devs, iter)`, over at most `rounds` rounds from `iter`: each
device visited, with the reference counts its body runs with; and the counts at the end.
The step of the loop is `percpu_ref_put(&ca->ref), (iter)++`. -/
def groupForEachCache (devs : CacheGroup) :
    Nat → Nat → (Nat → Int) → List (Nat × (Nat → Int)) × (Nat → Int)
  | 0, _, refs => ([], refs)
  | rounds + 1, iter, refs =>
    match devs.cacheGroupNext iter refs with
    | (some ca, i, held) =>
      let rest := groupForEachCache devs rounds (i + 1)
        (Function.update held ca (held ca - 1))
      ((ca, held) :: rest.1, rest.2)
    | (none, _, refs) => ([], refs)

theorem update_get_put (refs : Nat → Int) (ca : Nat) :
    Function.update (Function.update refs ca (refs ca + 1)) ca
      (Function.update refs ca (refs ca + 1) ca - 1) = refs := by
  simp

theorem groupForEachCache_eq (devs : CacheGroup) (refs : Nat → Int) :
    ∀ {rounds iter : Nat}, devs.nr - iter ≤ rounds →
      devs.groupForEachCache rounds iter refs =
        ((onlineFrom devs.dev devs.nr iter).map
          fun ca => (ca, Function.update refs ca (refs ca + 1)), refs)
  | 0, iter, h => by rw [onlineFrom_of_le (by omega)]; rfl
  | rounds + 1, iter, h => by
    rcases @nextOnline_spec devs.dev devs.nr devs.nr iter (by omega) with
      ⟨i, h1, h2⟩ | ⟨ca, i, h1, h2, h3⟩
    · simp [groupForEachCache, cacheGroupNext, cacheGroupNextRcu, h1, h2]
    · simp only [groupForEachCache, cacheGroupNext, cacheGroupNextRcu, h1, update_get_put,
        groupForEachCache_eq devs refs (show devs.nr - (i + 1) ≤ rounds by omega), h3,
        List.map_cons]

/-- `group_for_each_cache` visits the online devices of the group in slot order, runs the
body on each with one reference more on that device and no other count changed, and
leaves every count as it found it. -/
theorem groupForEachCache_refs (devs : CacheGroup) (refs : Nat → Int) :
    devs.groupForEachCache devs.nr 0 refs =
      (devs.online.map fun ca => (ca, Function.update refs ca (refs ca + 1)), refs) := by
  rw [groupForEachCache_eq devs refs (by omega), onlineFrom, online, Nat.sub_zero,
    List.range_eq_range']

end CacheGroup

/-! ## Open buckets -/

/-- `open_bucket_for_each_online_device(c, ob, ptr, ca)`: the devices it visits, for the
pointers `ptrs` of the open bucket, where `cache d` is `c->cache[d]` (`PTR_CACHE`). -/
def openBucketForEachOnlineDevice (cache : Nat → Option Nat) (ptrs : List Nat) : List Nat :=
  walkOnline (fun j => ptrs[j]?.bind cache) ptrs.length ptrs.length 0

theorem filterMap_range_getElem? (cache : Nat → Option Nat) : ∀ ptrs : List Nat,
    (List.range ptrs.length).filterMap (fun j => ptrs[j]?.bind cache) = ptrs.filterMap cache
  | [] => rfl
  | p :: ptrs => by
    rw [List.length_cons, List.range_succ_eq_map, List.filterMap_cons, List.filterMap_map,
      List.filterMap_cons]
    have hs : (fun j => (p :: ptrs)[j]?.bind cache) ∘ Nat.succ =
        fun j => ptrs[j]?.bind cache := by
      funext j
      simp
    rw [hs, filterMap_range_getElem? cache ptrs, List.getElem?_cons_zero, Option.some_bind]

/-- It visits the online devices of the pointers, in order. -/
theorem openBucketForEachOnlineDevice_eq (cache : Nat → Option Nat) (ptrs : List Nat) :
    openBucketForEachOnlineDevice cache ptrs = ptrs.filterMap cache := by
  rw [openBucketForEachOnlineDevice, walkOnline_eq (by omega), onlineFrom, Nat.sub_zero,
    ← List.range_eq_range', filterMap_range_getElem?]

/-! ## Priority buckets -/

/-- `DIV_ROUND_UP(n, d)`. -/
def divRoundUp (n d : Nat) : Nat := (n + d - 1) / d

/-- `prios_per_bucket(ca)`: `(bucket_bytes(ca) - sizeof(struct prio_set)) /
sizeof(struct bucket_disk)`, in `size_t`, where the difference wraps if the bucket is
smaller than the header. -/
def priosPerBucket (bucketBytes prioSetSize bucketDiskSize : Nat) : Nat :=
  (((bucketBytes : Int) - prioSetSize) % ((2 ^ 64 : Nat) : Int)).toNat / bucketDiskSize

/-- `prio_buckets(ca)`. -/
def prioBuckets (nbuckets bucketBytes prioSetSize bucketDiskSize : Nat) : Nat :=
  divRoundUp nbuckets (priosPerBucket bucketBytes prioSetSize bucketDiskSize)

/-- When a bucket holds at least one priority, `prio_buckets` buckets hold a priority for
every bucket, and one bucket fewer would not. -/
theorem prioBuckets_spec {nbuckets bucketBytes prioSetSize bucketDiskSize : Nat}
    (hp : 0 < priosPerBucket bucketBytes prioSetSize bucketDiskSize) :
    nbuckets ≤ prioBuckets nbuckets bucketBytes prioSetSize bucketDiskSize *
        priosPerBucket bucketBytes prioSetSize bucketDiskSize ∧
      (0 < nbuckets → (prioBuckets nbuckets bucketBytes prioSetSize bucketDiskSize - 1) *
          priosPerBucket bucketBytes prioSetSize bucketDiskSize < nbuckets) := by
  unfold prioBuckets divRoundUp
  generalize priosPerBucket bucketBytes prioSetSize bucketDiskSize = d at hp ⊢
  have h := Nat.div_add_mod' (nbuckets + d - 1) d
  have hr := Nat.mod_lt (nbuckets + d - 1) hp
  rw [Nat.sub_mul, Nat.one_mul]
  generalize (nbuckets + d - 1) / d * d = m at h ⊢
  generalize (nbuckets + d - 1) % d = r at h hr
  omega

/-- 2000 buckets of 4 KiB, with a 32-byte `prio_set` header and 5-byte `bucket_disk`
entries. -/
theorem prioBuckets_spec_twoThousand :
    0 < priosPerBucket 4096 32 5 ∧
      2000 ≤ prioBuckets 2000 4096 32 5 * priosPerBucket 4096 32 5 ∧
      (0 < 2000 → (prioBuckets 2000 4096 32 5 - 1) * priosPerBucket 4096 32 5 < 2000) :=
  have hp : 0 < priosPerBucket 4096 32 5 := by decide
  ⟨hp, prioBuckets_spec hp⟩

end Libbcache
