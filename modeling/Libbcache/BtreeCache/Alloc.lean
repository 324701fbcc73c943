import Libbcache.BtreeCache.Hash

/-!
# Allocating a container: `mca_alloc` and `bch_btree_node_fill`

`mca_alloc` looks for a container to hand out in three places, in this order: a
freeable container it can reap, a freed container it can reap and give data to, and a
fresh one from `mca_bucket_alloc`. Only when all three fail, and only if the calling
task owns `btree_cache_alloc_lock`, does it cannibalize a node of `btree_cache`.

`bch_btree_node_fill` is `mca_alloc` followed by `bkey_copy` and `mca_hash_insert`; if
another fill hashed the same pointer first it puts the container back on the freeable
list. We split it into the pieces that later modules run as separate steps:
`fillInsert` (up to the hash insert) and `fillRead` (reading the node and dropping to the
requested lock type).
-/

namespace Libbcache

/-- The allocations `mca_alloc` may make: `kzalloc` of a container and
`__get_free_pages` / `bch_btree_keys_alloc` of its data. `true` is success. -/
structure Gfp where
  kzOk : Bool
  dataOk : Bool
  deriving DecidableEq, Repr

/-- `enum six_lock_type`, as far as `bch_btree_node_get` is called with it. -/
inductive LockType
  | read
  | intent
  deriving DecidableEq, Repr

/-- What `bch_btree_node_fill` returns: a node, `NULL` after losing the race to another
fill, or `ERR_PTR(-ENOMEM)`. -/
inductive FillResult
  | ok (b : Nat)
  | raced
  | enomem
  deriving DecidableEq, Repr

namespace CacheSet

/-- The first container of `l` that `mca_reap_notrace` succeeds on, with the state after
reaping it: `list_for_each_entry(b, l, list) if (!mca_reap_notrace(c, b, flush)) ..`. -/
def firstReap (c : CacheSet) (flush : Bool) (t : Nat) : List Nat → Option (Nat × CacheSet)
  | [] => none
  | b :: l =>
    match c.mcaReapNotrace b flush t with
    | some c' => some (b, c')
    | none => firstReap c flush t l

theorem firstReap_eq_some {c c' : CacheSet} {flush : Bool} {t b : Nat} {l : List Nat}
    (h : c.firstReap flush t l = some (b, c')) :
    b ∈ l ∧ c.mcaReapNotrace b flush t = some c' := by
  induction l with
  | nil => cases h
  | cons a l ih =>
    unfold firstReap at h
    split at h
    · cases h; exact ⟨List.mem_cons_self _ _, ‹_›⟩
    · exact ⟨List.mem_cons_of_mem _ (ih h).1, (ih h).2⟩

/-- `mca_cannibalize`: reap the oldest node of `btree_cache` that is clean, else flush
one. If every node is locked or otherwise unreapable the loop never ends (`.spin`). -/
def mcaCannibalize (c : CacheSet) (t : Nat) : Except Stop (Nat × CacheSet) :=
  match c.firstReap false t (c.lists .btreeCache).reverse with
  | some r => .ok r
  | none =>
    match c.firstReap true t (c.lists .btreeCache).reverse with
    | some r => .ok r
    | none => .error .spin

theorem mcaCannibalize_eq_ok {c c' : CacheSet} {t b : Nat}
    (h : c.mcaCannibalize t = .ok (b, c')) :
    b ∈ c.lists .btreeCache ∧ ∃ flush, c.mcaReapNotrace b flush t = some c' := by
  unfold mcaCannibalize at h
  split at h
  · cases h
    obtain ⟨hb, hr⟩ := firstReap_eq_some ‹_›
    exact ⟨List.mem_reverse.mp hb, _, hr⟩
  · split at h
    · cases h
      obtain ⟨hb, hr⟩ := firstReap_eq_some ‹_›
      exact ⟨List.mem_reverse.mp hb, _, hr⟩
    · cases h

/-- `out:` of `mca_alloc`: `b->flags = 0` (the other fields it resets are not modelled). -/
def mcaAllocOut (c : CacheSet) (b : Nat) : CacheSet :=
  c.setNode b fun n => { n with flags := .zero }

/-- `out_unlock:` of `mca_alloc`: the two `BUG_ON`s, `list_del_init`, then `out:`. -/
def mcaAllocOutUnlock (c : CacheSet) (b : Nat) : Except Stop (CacheSet × Option Nat) :=
  if (c.nodes b).key ≠ 0 then .error .ptrHash
  else if (c.nodes b).flags.writeInFlight then .error .writeInFlight
  else .ok ((c.listDel b).mcaAllocOut b, some b)

/-- `err:` of `mca_alloc`: cannibalize if task `t` owns `btree_cache_alloc_lock`,
otherwise `-ENOMEM` (`none`). -/
def mcaAllocErr (c : CacheSet) (t : Nat) : Except Stop (CacheSet × Option Nat) :=
  if c.allocLock = some t then do
    let (b, c) ← c.mcaCannibalize t
    let c ← (c.listDel b).mcaHashRemove b
    return (c.mcaAllocOut b, some b)
  else .ok (c, none)

/-- `mca_alloc` run by task `t`: a container held for intent and write by `t`, off every
list, or `none` for `ERR_PTR(-ENOMEM)`. -/
def mcaAlloc (c : CacheSet) (t : Nat) (gfp : Gfp) : Except Stop (CacheSet × Option Nat) :=
  match c.firstReap false t (c.lists .freeable) with
  | some (b, c) => c.mcaAllocOutUnlock b
  | none =>
    match c.firstReap false t (c.lists .freed) with
    | some (b, c) =>
      let c := c.mcaDataAlloc b gfp.dataOk
      if (c.nodes b).data then c.mcaAllocOutUnlock b
      else (c.unlockNode b).mcaAllocErr t
    | none =>
      match c.mcaBucketAlloc gfp.kzOk gfp.dataOk with
      | (c, none) => c.mcaAllocErr t
      | (c, some b) =>
        match (c.nodes b).lock.trylockIntent t with
        | none => .error .trylock
        | some l =>
          match l.trylockWrite with
          | none => .error .trylock
          | some l => (c.setNode b fun n => { n with lock := l }).mcaAllocOutUnlock b

/-- `bkey_copy(&b->key, k)` and `mca_hash_insert`; on losing the race the node is marked
unhashed, put on `btree_cache_freeable` and unlocked. `true` if the insert won. -/
def fillInsert (c : CacheSet) (b k level id : Nat) : CacheSet × Bool :=
  match (c.setNode b fun n => { n with key := k }).mcaHashInsert b level id with
  | (c, true) => (c, true)
  | (c, false) => (((c.setNode b fun n => { n with key := 0 }).listAdd .freeable b).unlockNode b, false)

/-- The tail of `bch_btree_node_fill`: `bch_btree_node_read` (whose only effect modelled
is the read error it may record), `six_unlock_write`, and `six_lock_downgrade` when a
read lock was asked for. -/
def fillRead (c : CacheSet) (b t : Nat) (lockType : LockType) (readError : Bool) : CacheSet :=
  let c := c.setNode b fun n =>
    { n with flags := { n.flags with readError := readError }, lock := n.lock.unlockWrite }
  match lockType with
  | .read => c.setNode b fun n => { n with lock := n.lock.downgrade t }
  | .intent => c

/-- `bch_btree_node_fill` run by task `t`, for key hash `k` at `level` in btree `id`.
The iterator's parent lock, which it also drops, is modelled with the iterator. -/
def bchBtreeNodeFill (c : CacheSet) (t : Nat) (gfp : Gfp) (k level id : Nat)
    (lockType : LockType) (readError : Bool) : Except Stop (CacheSet × FillResult) := do
  let (c, r) ← c.mcaAlloc t gfp
  match r with
  | none => return (c, .enomem)
  | some b =>
    match c.fillInsert b k level id with
    | (c, false) => return (c, .raced)
    | (c, true) => return (c.fillRead b t lockType readError, .ok b)

end CacheSet

end Libbcache
