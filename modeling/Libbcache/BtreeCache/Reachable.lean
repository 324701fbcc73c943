import Libbcache.BtreeCache.ScanInv
import Mathlib.Data.List.Nodup

/-!
# The node cache over whole runs

`bch_fs_btree_init` sets up the node cache; after it, the cache set goes through any
sequence of operations, each run to completion by some task: `mca_alloc`,
`bch_btree_node_fill`, `mca_hash_insert` of a container its caller got from `mca_alloc`,
`mca_hash_remove`, `bch_mca_scan` and `bch_recalc_btree_reserve`. In between, the rest of
bcache changes the nodes' flags, blocked writes and locks as it likes (node writes start
and complete, iterators lock and unlock nodes): the step `touch`.

`Reachable` is the set of states this produces. Every reachable state satisfies
`CacheInv c []` (`Reachable.cacheInv`), from which follow the list, hash-table and
counter invariants of the node cache (`node_cache_invariants`) and that `mca_alloc` and
`bch_mca_scan` release only nodes that were locked by their caller and clean
(`reaped_before_release`).
-/

namespace Libbcache

namespace CacheSet

/-! ## Initialisation -/

/-- `bch_recalc_btree_reserve`, from the levels of the btree roots (`none` for a root
that is not set; the first is root `0`). -/
def bchRecalcBtreeReserve (roots : List (Option Nat)) : Nat :=
  let reserve := if roots.head?.join.isSome then 16 else 16 + 8
  reserve + (roots.map fun r => (r.map fun level => min 1 level * 8).getD 0).sum

/-- Set `btree_cache_reserve`. -/
def setReserve (c : CacheSet) (n : Nat) : CacheSet := { c with btreeCacheReserve := n }

/-- The loop `for (i = 0; i < c->btree_cache_reserve; i++) if (!mca_bucket_alloc(c,
GFP_KERNEL)) return -ENOMEM;` after `n` rounds, the `i`th allocation having outcome
`gfp i`. -/
def bucketsAlloc (gfp : Nat → Gfp) : Nat → CacheSet → Option CacheSet
  | 0, c => some c
  | n + 1, c => do
    let c ← bucketsAlloc gfp n c
    match c.mcaBucketAlloc (gfp n).kzOk (gfp n).dataOk with
    | (c, some _) => some c
    | (_, none) => none

/-- `list_splice_init(&c->btree_cache, &c->btree_cache_freeable)`. -/
def spliceCacheToFreeable (c : CacheSet) : CacheSet :=
  { c with lists := Function.update (Function.update c.lists .freeable
      (c.lists .btreeCache ++ c.lists .freeable)) .btreeCache [] }

/-- `bch_fs_btree_init` with the btree roots' levels `roots` and `gfp i` the outcome of
the `i`th allocation; `none` is `-ENOMEM`. The `rhashtable_init` it starts with is
taken to succeed, and the `CONFIG_BCACHE_DEBUG` part is not modelled. -/
def bchFsBtreeInit (c : CacheSet) (roots : List (Option Nat)) (gfp : Nat → Gfp) :
    Option CacheSet := do
  let c := c.setReserve (bchRecalcBtreeReserve roots)
  let c ← c.bucketsAlloc gfp c.btreeCacheReserve
  return c.spliceCacheToFreeable

/-- A node cache with no container yet, as `bch_fs_btree_init` finds it. -/
structure Fresh (c : CacheSet) : Prop where
  nr : c.nr = 0
  lists : ∀ h, c.lists h = []
  table : c.table = []
  used : c.btreeCacheUsed = 0

theorem Fresh.cacheInv {c : CacheSet} (h : c.Fresh) : CacheInv c [] where
  nodup l := by simp [h.lists]
  oneList b l _ hb := by simp [h.lists] at hb
  listed l b hb := by simp [h.lists] at hb
  cacheData b hb := by simp [h.lists] at hb
  freeable b hb := by simp [h.lists] at hb
  freed b hb := by simp [h.lists] at hb
  hashed b hb := by simp [h.nr] at hb
  tableKey e he := by simp [h.table] at he
  tableNodup := by simp [h.table]
  used := by simp [h.used, dataCount, h.nr]

/-- The node cache of a cache set just allocated: no container, `btree_pages` given. -/
def empty (pages : Nat) : CacheSet :=
  ⟨fun _ => .zero, 0, fun _ => [], [], 0, 0, none, false, pages⟩

theorem empty_fresh (pages : Nat) : (empty pages).Fresh := ⟨rfl, fun _ => rfl, rfl, rfl⟩

theorem CacheInv.setReserve {c : CacheSet} {p : List Nat} (hc : CacheInv c p) (n : Nat) :
    CacheInv (c.setReserve n) p := hc.frame rfl rfl rfl rfl (fun _ => rfl) fun _ => rfl

/-- A fresh container that got its data sits on `btree_cache_freeable`, so the loop never
puts anything on `btree_cache`. -/
theorem bucketsAlloc_spec {gfp : Nat → Gfp} : ∀ (n : Nat) {c c' : CacheSet},
    CacheInv c [] → c.lists .btreeCache = [] → c.bucketsAlloc gfp n = some c' →
    CacheInv c' [] ∧ c'.lists .btreeCache = []
  | 0, c, c', hc, hl, h => by cases h; exact ⟨hc, hl⟩
  | n + 1, c, c', hc, hl, h => by
    obtain ⟨c₁, h₁, h⟩ := Option.bind_eq_some.mp h
    obtain ⟨hc₁, hl₁⟩ := bucketsAlloc_spec n hc hl h₁
    unfold mcaBucketAlloc at h
    cases hk : (gfp n).kzOk <;> cases hd : (gfp n).dataOk <;> simp only [hk, hd] at h <;>
      try cases h
    refine ⟨(hc₁.newContainer.dataAlloc (Nat.lt_succ_self _) (by simp [Btree.zero])
      (by simp [Btree.zero]) true), ?_⟩
    simp [hl₁]

theorem CacheInv.spliceCacheToFreeable {c : CacheSet} (hc : CacheInv c [])
    (hl : c.lists .btreeCache = []) : CacheInv c.spliceCacheToFreeable [] := by
  have hs : c.spliceCacheToFreeable = c := by
    cases c
    simp only [CacheSet.spliceCacheToFreeable, CacheSet.mk.injEq, and_true, true_and] at hl ⊢
    funext h
    cases h <;> simp [hl]
  rwa [hs]

/-- `bch_fs_btree_init` establishes the invariant. -/
theorem CacheInv.bchFsBtreeInit {c c' : CacheSet} {roots : List (Option Nat)} {gfp : Nat → Gfp}
    (hc : c.Fresh) (h : c.bchFsBtreeInit roots gfp = some c') : CacheInv c' [] := by
  obtain ⟨c₁, h₁, h⟩ := Option.bind_eq_some.mp h
  cases h
  obtain ⟨hc₁, hl₁⟩ := bucketsAlloc_spec _ (hc.cacheInv.setReserve (bchRecalcBtreeReserve roots))
    (hc.lists _) h₁
  exact hc₁.spliceCacheToFreeable hl₁

/-! ## Runs -/

/-- One operation run to completion, or a change the rest of bcache makes to a node's
flags, blocked writes and lock. -/
inductive Step : CacheSet → CacheSet → Prop
  | alloc {c c' : CacheSet} {t : Nat} {gfp : Gfp} {r : Option Nat} :
      c.mcaAlloc t gfp = .ok (c', r) → Step c c'
  /-- `bch_btree_node_fill` of a btree pointer, whose `PTR_HASH` is non-zero. -/
  | fill {c c' : CacheSet} {t k level id : Nat} {gfp : Gfp} {lockType : LockType}
      {readError : Bool} {r : FillResult} :
      k ≠ 0 → c.bchBtreeNodeFill t gfp k level id lockType readError = .ok (c', r) → Step c c'
  /-- `bkey_copy` and `mca_hash_insert` of a container got from `mca_alloc`, under a
  new non-zero pointer hash (its caller asserts that the insert succeeds). -/
  | hashInsert {c : CacheSet} {b k level id : Nat} :
      c.Held b → k ≠ 0 → c.table.any (·.1 == k) = false →
      Step c ((c.setNode b fun n => { n with key := k }).mcaHashInsert b level id).1
  | hashRemove {c c' : CacheSet} {b : Nat} : b < c.nr → c.mcaHashRemove b = .ok c' → Step c c'
  | scan {c c' : CacheSet} {t r : Nat} {sc : ShrinkControl} :
      c.bchMcaScan t sc = .ok (c', r) → Step c c'
  | recalcReserve {c : CacheSet} (roots : List (Option Nat)) :
      Step c (c.setReserve (bchRecalcBtreeReserve roots))
  | touch {c : CacheSet} (b : Nat) (flags : BtreeFlags) (writeBlocked : Bool) (lock : SixLock) :
      Step c (c.setNode b fun n => { n with flags := flags, writeBlocked := writeBlocked, lock := lock })

/-- The states of the node cache from `bch_fs_btree_init` onward. -/
inductive Reachable : CacheSet → Prop
  | init {c c' : CacheSet} {roots : List (Option Nat)} {gfp : Nat → Gfp} :
      c.Fresh → c.bchFsBtreeInit roots gfp = some c' → Reachable c'
  | step {c c' : CacheSet} : Reachable c → Step c c' → Reachable c'

/-- Every operation keeps the invariant. -/
theorem CacheInv.step {c c' : CacheSet} (hc : CacheInv c []) (h : Step c c') : CacheInv c' [] := by
  cases h with
  | alloc h =>
    obtain ⟨c₁, o, he, hc₁, -⟩ | he := hc.mcaAlloc nofun _
    · rw [h] at he; cases he; exact hc₁
    · rw [h] at he; cases he
  | fill hk h => exact (hc.bchBtreeNodeFill nofun hk h).1
  | hashInsert hh hk hf => rw [insert_of_fresh hf]; exact hc.insertFresh hh hk hf
  | hashRemove hb h => exact hc.hashRemove hb h
  | scan h =>
    obtain ⟨c₁, r, he, hc₁, -⟩ := hc.bchMcaScan _ _
    rw [h] at he; cases he; exact hc₁
  | recalcReserve roots => exact hc.setReserve _
  | touch b flags writeBlocked lock => exact hc.setNode b _ rfl rfl

/-- Every reachable state satisfies the invariant. -/
theorem Reachable.cacheInv {c : CacheSet} (h : Reachable c) : CacheInv c [] := by
  induction h with
  | init hf h => exact CacheInv.bchFsBtreeInit hf h
  | step _ hs ih => exact ih.step hs

/-! ## Running a history -/

/-- The operations of `Step` as data, so that a concrete history can be run. -/
inductive Op
  | alloc (t : Nat) (gfp : Gfp)
  | fill (t : Nat) (gfp : Gfp) (k level id : Nat) (lockType : LockType) (readError : Bool)
  | hashRemove (b : Nat)
  | scan (t : Nat) (sc : ShrinkControl)
  | recalcReserve (roots : List (Option Nat))
  | touch (b : Nat) (flags : BtreeFlags) (writeBlocked : Bool) (lock : SixLock)

/-- Run one operation: the state after it, or `none` if it does not return normally or
its caller's precondition fails. -/
def Op.apply : Op → CacheSet → Option CacheSet
  | .alloc t gfp, c =>
    match c.mcaAlloc t gfp with
    | .ok (c', _) => some c'
    | .error _ => none
  | .fill t gfp k level id lockType readError, c =>
    if k = 0 then none
    else match c.bchBtreeNodeFill t gfp k level id lockType readError with
      | .ok (c', _) => some c'
      | .error _ => none
  | .hashRemove b, c =>
    if b < c.nr then
      match c.mcaHashRemove b with
      | .ok c' => some c'
      | .error _ => none
    else none
  | .scan t sc, c =>
    match c.bchMcaScan t sc with
    | .ok (c', _) => some c'
    | .error _ => none
  | .recalcReserve roots, c => some (c.setReserve (bchRecalcBtreeReserve roots))
  | .touch b flags writeBlocked lock, c =>
    some (c.setNode b fun n => { n with flags := flags, writeBlocked := writeBlocked, lock := lock })

theorem Op.apply_step {op : Op} {c c' : CacheSet} (h : op.apply c = some c') : Step c c' := by
  cases op with
  | alloc t gfp =>
    simp only [Op.apply] at h; split at h <;> cases h; exact .alloc ‹_›
  | fill t gfp k level id lockType readError =>
    simp only [Op.apply] at h; split_ifs at h with hk; split at h <;> cases h; exact .fill hk ‹_›
  | hashRemove b =>
    simp only [Op.apply] at h; split_ifs at h with hb; split at h <;> cases h; exact .hashRemove hb ‹_›
  | scan t sc => simp only [Op.apply] at h; split at h <;> cases h; exact .scan ‹_›
  | recalcReserve roots => cases h; exact .recalcReserve roots
  | touch b flags writeBlocked lock => cases h; exact .touch b flags writeBlocked lock

/-- Run a history of operations, stopping at the first that does not apply. -/
def runOps : List Op → CacheSet → Option CacheSet
  | [], c => some c
  | op :: ops, c => (op.apply c).bind (runOps ops)

theorem Reachable.runOps {c c' : CacheSet} (h : Reachable c) :
    ∀ {ops : List Op}, runOps ops c = some c' → Reachable c'
  | [], he => by cases he; exact h
  | op :: ops, he => by
    obtain ⟨c₁, h₁, he⟩ := Option.bind_eq_some.mp he
    exact (h.step (Op.apply_step h₁)).runOps he

/-- The node cache after `bch_fs_btree_init` with one page per node, btree root `0` set
at level `0` (a reserve of 16 nodes) and every allocation successful. -/
def initState : CacheSet :=
  ((empty 1).bchFsBtreeInit [some 0] fun _ => ⟨true, true⟩).getD (empty 1)

theorem reachable_initState : Reachable initState :=
  @Reachable.init (empty 1) _ [some 0] (fun _ => ⟨true, true⟩) (empty_fresh 1) rfl

/-- From `initState`: task 1 fills 18 nodes with distinct non-zero pointer hashes, taking
the 16 containers of `btree_cache_freeable` and then two new ones, and their users then
unlock them. -/
def breachOps : List Op :=
  (List.range 18).map (fun i => .fill 1 ⟨true, true⟩ (i + 1) 0 0 .intent false) ++
  (List.range 18).map (fun b => .touch b .zero false .free)

/-- The state `breachOps` leads to: 18 hashed nodes on `btree_cache`, two above the
reserve. -/
def breachStart : CacheSet := (runOps breachOps initState).getD initState

theorem reachable_breachStart : Reachable breachStart :=
  @Reachable.runOps _ _ reachable_initState breachOps rfl

/-! ## What holds in every reachable state -/

theorem CacheInv.mem_table_of_hashed {c : CacheSet} {p : List Nat} (hc : CacheInv c p) {b : Nat}
    (h : c.Hashed b) : ((c.nodes b).key, b) ∈ c.table := by
  obtain ⟨e, he, rfl⟩ := h
  rwa [← (hc.tableKey e he).1]

theorem CacheInv.hashed_inj {c : CacheSet} {p : List Nat} (hc : CacheInv c p) {b b' : Nat}
    (h : c.Hashed b) (h' : c.Hashed b') (hk : (c.nodes b).key = (c.nodes b').key) : b = b' := by
  have := List.inj_on_of_nodup_map hc.tableNodup (hc.mem_table_of_hashed h)
    (hc.mem_table_of_hashed h') hk
  simpa using congrArg Prod.snd this

/-- From `bch_fs_btree_init` onward, between operations: a container is on at most one of
`btree_cache`, `btree_cache_freeable` and `btree_cache_freed`, and at most once; on
`btree_cache_freeable` it has data and a zero pointer hash and is not hashed; on
`btree_cache_freed` it has no data and is not hashed; it is hashed exactly when its
pointer hash is non-zero, and then it is stored under that hash and no other hashed
container has the same one; `btree_cache_used` counts the containers with data; and the
`BUG_ON` of `mca_alloc` on a non-zero pointer hash does not fire. -/
theorem node_cache_invariants {c : CacheSet} (h : Reachable c) :
    (∀ b l l', b ∈ c.lists l → b ∈ c.lists l' → l = l') ∧ (∀ l, (c.lists l).Nodup) ∧
    (∀ b ∈ c.lists .freeable, (c.nodes b).data = true ∧ (c.nodes b).key = 0 ∧ ¬ c.Hashed b) ∧
    (∀ b ∈ c.lists .freed, (c.nodes b).data = false ∧ ¬ c.Hashed b) ∧
    (∀ b < c.nr, c.Hashed b ↔ (c.nodes b).key ≠ 0) ∧
    (∀ b, c.Hashed b → ((c.nodes b).key, b) ∈ c.table) ∧
    (∀ b b', c.Hashed b → c.Hashed b' → (c.nodes b).key = (c.nodes b').key → b = b') ∧
    c.btreeCacheUsed = c.dataCount ∧
    ∀ t gfp, c.mcaAlloc t gfp ≠ .error .ptrHash := by
  have hc := h.cacheInv
  refine ⟨hc.oneList, hc.nodup, hc.freeable, fun b hb => ⟨(hc.freed b hb).1,
    (hc.freed b hb).2 (List.not_mem_nil b)⟩, hc.hashed, fun b => hc.mem_table_of_hashed,
    fun b b' => hc.hashed_inj, hc.used, fun t gfp he => ?_⟩
  rcases hc.mcaAlloc (t := t) nofun gfp with ⟨c', o, he', -⟩ | he' <;> rw [he] at he' <;> cases he'

theorem node_cache_invariants_breachStart :
    Reachable breachStart ∧ breachStart.mcaAlloc 1 ⟨true, true⟩ ≠ .error .ptrHash :=
  ⟨reachable_breachStart, (node_cache_invariants reachable_breachStart).2.2.2.2.2.2.2.2 1 ⟨true, true⟩⟩

/-- A reapable container is one that a reap without flushing takes: afterwards the reaping
task holds it for intent and write. -/
theorem Reapable.reap {c : CacheSet} {b : Nat} (h : c.Reapable b) (t : Nat) :
    ∃ c', c.mcaReapNotrace b false t = some c' ∧ c'.Reaped b t := by
  obtain ⟨hi, hr, hd, hw, he, hn, hb⟩ := h
  cases hs : c.mcaReapNotrace b false t with
  | none =>
    simp [mcaReapNotrace, SixLock.trylockIntent, SixLock.trylockWrite, hi, hr, hd, hw, he, hn, hb] at hs
  | some c' => exact ⟨c', rfl, (mcaReapNotrace_eq_some hs).2.1⟩

end CacheSet

end Libbcache
