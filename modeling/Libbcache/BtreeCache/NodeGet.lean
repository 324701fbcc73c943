import Libbcache.BtreeCache.ScanReserve

/-!
# `bch_btree_node_get`

`bch_btree_node_get` looks the node up in the hash table; on a miss it fills a container
(`bch_btree_node_fill`) and retries if another fill won the race; on a hit it drops a
read lock on the parent, locks the node, and checks that the node still has the pointer
hash and level it was looked up by (a concurrent free may have reused it in between). It
then marks the node accessed and fails with `-EIO` on a read error.

We model a call as a sequence of atomic steps of task `t` (`GetPc`, `getStep`), with the
choices made by code outside this repository as inputs (`GetChoice`): the outcome of the
allocations of a fill and of its node read, whether `btree_node_lock` gives up with
`-EINTR` instead of waiting, whether `race_fault()` fires, and whether
`btree_node_relock` gets the parent lock back. The iterator's lock at `level + 1` is part
of the caller's state (`Getter.parent`).

The accessed bit is updated by `if (btree_node_accessed(b)) set_btree_node_accessed(b);`,
which sets the bit only when it is already set (`accessedUpdate`). So a lookup that hits
the hash table never sets it (`getRun_accessed`), and the next scan evicts a node it finds
unaccessed even if it was just looked up (`node_get_leaves_node_unaccessed`).
-/

namespace Libbcache

namespace SixLock

/-- `six_trylock_read`: fails while a writer holds the lock. -/
def trylockRead (l : SixLock) (t : Nat) : Option SixLock :=
  if l.write then none else some { l with readers := t :: l.readers }

/-- `six_unlock_read`. -/
def unlockRead (l : SixLock) (t : Nat) : SixLock := { l with readers := l.readers.erase t }

/-- Taking the lock in `lockType` (`six_trylock_type`). -/
def trylockType (l : SixLock) (t : Nat) : LockType → Option SixLock
  | .read => l.trylockRead t
  | .intent => l.trylockIntent t

/-- `six_unlock_type`. -/
def unlockType (l : SixLock) (t : Nat) : LockType → SixLock
  | .read => l.unlockRead t
  | .intent => l.unlockIntent

/-- Task `t` holds the lock in `lockType`. -/
def HoldsAs (l : SixLock) (t : Nat) : LockType → Prop
  | .read => t ∈ l.readers
  | .intent => l.intent = some t

end SixLock

/-- What `bch_btree_node_get` returns. -/
inductive GetResult
  | ok (b : Nat)
  | eintr
  | eio
  | enomem
  deriving DecidableEq, Repr

/-- Where a call of `bch_btree_node_get` is. -/
inductive GetPc
  /-- At `retry:`, before `mca_find`. -/
  | retry
  /-- Found `b`; the parent's read lock is dropped next. -/
  | found (b : Nat)
  /-- In `btree_node_lock(b, ..)`, waiting for the lock. -/
  | locking (b : Nat)
  /-- Holds `b`; the `PTR_HASH` and level check is next. -/
  | check (b : Nat)
  /-- Dropped `b` after a failed check; `btree_node_relock` of the parent is next. -/
  | relock
  /-- Holds `b`, found or filled; the accessed bit and the read error are next. -/
  | tail (b : Nat)
  /-- Returned. -/
  | ret (r : GetResult)
  deriving DecidableEq, Repr

/-- A call `bch_btree_node_get(iter, k, level, lock_type)` by task `t` in btree `id`, with
`k` the pointer hash looked up. `parent` is the iterator's lock on the node at `level + 1`,
`parent₀` what it was when the call started. -/
structure Getter where
  t : Nat
  k : Nat
  level : Nat
  id : Nat
  lockType : LockType
  parent₀ : Option LockType
  parent : Option LockType
  pc : GetPc
  deriving DecidableEq, Repr

/-- The choices made outside this repository during one step. -/
structure GetChoice where
  /-- The allocations of `mca_alloc` in a fill. -/
  gfp : Gfp
  /-- Whether `bch_btree_node_read` records a read error. -/
  readError : Bool
  /-- Whether `btree_node_lock` gives up (returns `false`). -/
  lockFails : Bool
  /-- Whether `race_fault()` fires. -/
  raceFault : Bool
  /-- Whether `btree_node_relock(iter, level + 1)` succeeds. -/
  relockOk : Bool
  deriving DecidableEq, Repr

/-- `if (btree_node_read_locked(iter, level + 1)) btree_node_unlock(iter, level + 1);` -/
def dropRead : Option LockType → Option LockType
  | some .read => none
  | p => p

namespace CacheSet

/-- Change `b`'s lock. -/
def setLock (c : CacheSet) (b : Nat) (l : SixLock) : CacheSet := c.setNode b fun n => { n with lock := l }

/-- `if (btree_node_accessed(b)) set_btree_node_accessed(b);` -/
def accessedUpdate (c : CacheSet) (b : Nat) : CacheSet :=
  if (c.nodes b).flags.accessed then
    c.setNode b fun n => { n with flags := { n.flags with accessed := true } }
  else c

/-- One atomic step of the call `g`; `none` when it cannot move (it waits for a lock, a
`BUG_ON` fired, or it has returned). -/
def getStep (c : CacheSet) (g : Getter) (ch : GetChoice) : Option (CacheSet × Getter) :=
  match g.pc with
  | .retry =>
    match c.mcaFind g.k with
    | some b => some (c, { g with pc := .found b })
    | none =>
      match c.bchBtreeNodeFill g.t ch.gfp g.k g.level g.id g.lockType ch.readError with
      | .ok (c', .ok b) => some (c', { g with pc := .tail b, parent := dropRead g.parent })
      | .ok (c', .raced) => some (c', { g with pc := .retry })
      | .ok (c', .enomem) => some (c', { g with pc := .ret .enomem })
      | .error _ => none
  | .found b => some (c, { g with pc := .locking b, parent := dropRead g.parent })
  | .locking b =>
    if ch.lockFails then some (c, { g with pc := .ret .eintr })
    else
      match (c.nodes b).lock.trylockType g.t g.lockType with
      | some l => some (c.setLock b l, { g with pc := .check b })
      | none => none
  | .check b =>
    if (c.nodes b).key ≠ g.k ∨ (c.nodes b).level ≠ g.level ∨ ch.raceFault then
      some (c.setLock b ((c.nodes b).lock.unlockType g.t g.lockType), { g with pc := .relock })
    else some (c, { g with pc := .tail b })
  | .relock =>
    if ch.relockOk then some (c, { g with pc := .retry, parent := g.parent₀ })
    else some (c, { g with pc := .ret .eintr })
  | .tail b =>
    let c := c.accessedUpdate b
    if (c.nodes b).flags.readError then
      some (c.setLock b ((c.nodes b).lock.unlockType g.t g.lockType), { g with pc := .ret .eio })
    else some (c, { g with pc := .ret (.ok b) })
  | .ret _ => none

/-- Run a call for a list of steps, each with its choices. -/
def getRun (c : CacheSet) (g : Getter) : List GetChoice → Option (CacheSet × Getter)
  | [] => some (c, g)
  | ch :: chs => (c.getStep g ch).bind fun (c', g') => getRun c' g' chs

/-! ## The accessed bit -/

@[simp] theorem accessedUpdate_accessed (c : CacheSet) (b : Nat) :
    ((c.accessedUpdate b).nodes b).flags.accessed = (c.nodes b).flags.accessed := by
  unfold accessedUpdate; split_ifs with h <;> simp [h]

theorem setLock_flags (c : CacheSet) (b x : Nat) (l : SixLock) :
    ((c.setLock b l).nodes x).flags = (c.nodes x).flags := by
  by_cases e : x = b <;> simp [setLock, e]

theorem setLock_table (c : CacheSet) (b : Nat) (l : SixLock) : (c.setLock b l).table = c.table := rfl

theorem accessedUpdate_table (c : CacheSet) (b : Nat) : (c.accessedUpdate b).table = c.table := by
  unfold accessedUpdate; split_ifs <;> simp

/-- A step that is not a fill (it is past `retry:`, or `mca_find` hits there) changes no
node's accessed bit, nor the hash table, nor the hash looked up: the tail of
`bch_btree_node_get` sets the bit only where it is already set. -/
theorem getStep_accessed {c c' : CacheSet} {g g' : Getter} {ch : GetChoice}
    (hr : g.pc = .retry → (c.mcaFind g.k).isSome) (h : c.getStep g ch = some (c', g')) :
    c'.table = c.table ∧ g'.k = g.k ∧
      ∀ x, (c'.nodes x).flags.accessed = (c.nodes x).flags.accessed := by
  unfold getStep at h
  split at h
  · rename_i heq
    obtain ⟨b, hb⟩ := Option.isSome_iff_exists.1 (hr heq)
    rw [hb] at h; cases h; exact ⟨rfl, rfl, fun _ => rfl⟩
  · cases h; exact ⟨rfl, rfl, fun _ => rfl⟩
  · split_ifs at h
    · cases h; exact ⟨rfl, rfl, fun _ => rfl⟩
    · split at h <;> cases h; simp [setLock_table, setLock_flags]
  · split_ifs at h <;> cases h
    · simp [setLock_table, setLock_flags]
    · exact ⟨rfl, rfl, fun _ => rfl⟩
  · split_ifs at h <;> cases h <;> exact ⟨rfl, rfl, fun _ => rfl⟩
  · rename_i b _
    have hx : ∀ x, ((c.accessedUpdate b).nodes x).flags.accessed = (c.nodes x).flags.accessed := by
      intro x
      by_cases e : x = b
      · subst e; simp
      · unfold accessedUpdate; split_ifs <;> simp [e]
    dsimp only at h
    split_ifs at h <;> cases h <;> simp [setLock_table, setLock_flags, hx, accessedUpdate_table]
  · cases h

/-- A lookup that finds its node in the hash table fills nothing, and leaves every accessed
bit as it found it. -/
theorem getRun_accessed : ∀ {chs : List GetChoice} {c c' : CacheSet} {g g' : Getter},
    (c.mcaFind g.k).isSome → c.getRun g chs = some (c', g') → ∀ x,
      (c'.nodes x).flags.accessed = (c.nodes x).flags.accessed
  | [], _, _, _, _, _, h, _ => by cases h; rfl
  | ch :: chs, c, c', g, g', hf, h, x => by
    obtain ⟨⟨c₁, g₁⟩, h₁, h⟩ := Option.bind_eq_some.1 h
    obtain ⟨ht, hk, ha⟩ := getStep_accessed (fun _ => hf) h₁
    have hf₁ : c₁.mcaFind g₁.k = c.mcaFind g.k := by rw [mcaFind, mcaFind, ht, hk]
    rw [getRun_accessed (hf₁ ▸ hf) h x, ha x]

/-- The getter of the example below: task 5 looks up pointer hash `18` at level `0` of
btree `0` for a read lock, with no lock on the parent. -/
def lookup18 : Getter := ⟨5, 18, 0, 0, .read, none, none, .retry⟩

/-- The choices of a lookup that meets no failure. -/
def noFault : GetChoice := ⟨⟨true, true⟩, false, false, false, true⟩

/-- The cache after `lookup18` and its caller's `six_unlock_read`. -/
def afterLookup : CacheSet :=
  match breachStart.getRun lookup18 [noFault, noFault, noFault, noFault, noFault] with
  | some (c, _) => c.setLock 17 ((c.nodes 17).lock.unlockRead 5)
  | none => breachStart

set_option maxRecDepth 4000 in
/-- In a reachable state, `bch_btree_node_get` finds and returns node `17`, which is
not accessed, and leaves it not accessed; after its caller unlocks it, the next scan
(one node's worth of pages) reaches node `17` first and frees its data. -/
theorem node_get_leaves_node_unaccessed :
    Reachable breachStart ∧ breachStart.mcaFind 18 = some 17 ∧
    (breachStart.nodes 17).flags.accessed = false ∧
    ((breachStart.getRun lookup18 [noFault, noFault, noFault, noFault, noFault]).map
      fun r => (r.2.pc, (r.1.nodes 17).flags.accessed)) = some (.ret (.ok 17), false) ∧
    (afterLookup.lists .btreeCache).head? = some 17 ∧
    ((afterLookup.bchMcaScan 2 ⟨1⟩).map fun r => (r.1.nodes 17).data) = .ok false := by
  have hpc : (breachStart.getRun lookup18 [noFault, noFault, noFault, noFault, noFault]).map
      (·.2.pc) = some (.ret (.ok 17)) := rfl
  refine ⟨reachable_breachStart, rfl, rfl, ?_, rfl, rfl⟩
  cases hrun : breachStart.getRun lookup18 [noFault, noFault, noFault, noFault, noFault] with
  | none => rw [hrun] at hpc; cases hpc
  | some r =>
    rw [hrun] at hpc
    obtain ⟨c', g'⟩ := r
    -- the lookup hits at `retry:`, so no step sets node 17's accessed bit
    have hacc := getRun_accessed (c := breachStart) (g := lookup18) rfl hrun 17
    simp only [Option.map_some', Option.some.injEq] at hpc ⊢
    rw [hpc, hacc]
    rfl

end CacheSet

end Libbcache
