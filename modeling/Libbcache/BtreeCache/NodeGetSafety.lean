import Libbcache.BtreeCache.NodeGet

/-!
# What `bch_btree_node_get` returns, under any interleaving

A lookup runs interleaved with the other threads' operations on the node cache: reaps,
allocations, scans, fills and frees. We describe those by what they may do to the
looking-up task `t` (`Rely`): they keep the cache invariant, add containers, never take
or drop `t`'s locks, and change the pointer hash or level of a container only while they
hold its write lock, which they cannot while `t` holds the container. A run is then any
sequence of such environment steps and steps of the call (`GetReach`).

The environment may stop inside a section of `bch_mca_scan`, between the eviction of a
node and its `mca_hash_remove`. The invariant then holds only up to that node (`WindowInv`):
it is still hashed, with its data freed, but the scan holds it for intent and write
(`PendingHeld`). A lookup there can find the node but not lock it, and its own steps and
fills leave the node as the scan holds it.

Along every run the call keeps an invariant on what `t` holds (`GetInv`): nothing while
it looks up, waits for a lock or relocks its parent; exactly the container it locked
while checking it; and, from the check on, a container whose pointer hash and level are
the ones looked up. So a call that returns a node holds it as asked, the node has the
pointer hash and level looked up and is hashed, and a call that fails holds nothing
(`node_get_returns_locked_node`). The parent lock is only ever dropped (if read) and
taken back, and the call never waits for a node's lock while holding a read lock on the
parent.

A fill runs as one step of the call: the container it allocates is locked by the caller
and not hashed until `mca_hash_insert`, so no other thread can reach it in between.
-/

namespace Libbcache

/-- What a lock of this type adds to what a task held of a lock before: one read lock,
or the intent lock. -/
def LockType.add : LockType → Nat × Bool → Nat × Bool
  | .read, p => (p.1 + 1, p.2)
  | .intent, p => (p.1, true)

theorem LockType.add_ne (lt : LockType) (p : Nat × Bool) : lt.add p ≠ (0, false) := by
  cases lt <;> simp [LockType.add, Prod.ext_iff]

/-- Neither lock type can be taken while another task holds the write lock. -/
theorem SixLock.trylockType_of_heldWrite {l : SixLock} {u : Nat} (hw : l.HeldWrite u) (t : Nat)
    (lt : LockType) : l.trylockType t lt = none := by
  cases lt <;> simp [SixLock.trylockType, SixLock.trylockRead, SixLock.trylockIntent, hw.1, hw.2]

/-- Dropping a lock `t` holds keeps another task's write lock. -/
theorem SixLock.HeldWrite.unlockType {l : SixLock} {t u : Nat} {lt : LockType} (hw : l.HeldWrite u)
    (hu : u ≠ t) (hh : l.HoldsAs t lt) : (l.unlockType t lt).HeldWrite u := by
  cases lt
  · exact hw
  · exact absurd (Option.some.inj (hw.1.symm.trans hh)) hu

namespace CacheSet

/-- What task `t` holds of container `x`'s lock: its read locks and whether it holds the
intent lock. -/
def lockOf (c : CacheSet) (x t : Nat) : Nat × Bool :=
  ((c.nodes x).lock.readers.count t, decide ((c.nodes x).lock.intent = some t))

/-- What task `t` holds of container `x` in `c`; nothing of a container past the last. -/
def heldAt (c : CacheSet) (t x : Nat) : Nat × Bool :=
  if x < c.nr then c.lockOf x t else (0, false)

/-- Task `t` holds what it held before (`base`, nothing of a container past the last) and,
in addition, container `o` (if any) as `lt`; if `lt` is intent, `t` did not hold `o`'s
intent lock before. -/
structure Holding (c : CacheSet) (t : Nat) (base : Nat → Nat × Bool) (lt : LockType)
    (o : Option Nat) : Prop where
  lt_nr : ∀ b, o = some b → b < c.nr
  intent_free : ∀ b, o = some b → lt = .intent → (base b).2 = false
  past : ∀ x, c.nr ≤ x → base x = (0, false)
  locks : ∀ x < c.nr, c.lockOf x t = if o = some x then lt.add (base x) else base x

/-- What a change of the cache may do as seen by task `t`: add containers, take or drop
none of `t`'s locks, and change the pointer hash or level of no container `t` holds. -/
structure Frame (t : Nat) (c c' : CacheSet) : Prop where
  nr_le : c.nr ≤ c'.nr
  locks : ∀ x < c'.nr, c'.lockOf x t = if x < c.nr then c.lockOf x t else (0, false)
  key : ∀ x < c.nr, c.lockOf x t ≠ (0, false) → (c'.nodes x).key = (c.nodes x).key
  level : ∀ x < c.nr, c.lockOf x t ≠ (0, false) → (c'.nodes x).level = (c.nodes x).level

/-- The containers `p` of evictions that a scan has not yet unhashed are allocated and
held for intent and write by tasks other than `t`: a scan keeps the node it evicted
write-locked until `mca_hash_remove`. -/
def PendingHeld (c : CacheSet) (t : Nat) (p : List Nat) : Prop :=
  ∀ x ∈ p, x < c.nr ∧ ∃ u, u ≠ t ∧ (c.nodes x).lock.HeldWrite u

/-- The cache invariant as task `t` may find it: between operations, or inside a section of
a scan, whose evicted node is not yet unhashed but is held for write by the scan. -/
def WindowInv (c : CacheSet) (t : Nat) : Prop := ∃ p, CacheInv c p ∧ c.PendingHeld t p

/-- What the other threads may do while task `t` looks a node up: keep the cache invariant,
up to a scan's evictions not yet unhashed (`WindowInv`), and change only what `Frame`
allows. A thread changes a node's pointer hash or level only under its write lock, which
it cannot take while `t` holds the node. -/
structure Rely (t : Nat) (c c' : CacheSet) extends Frame t c c' : Prop where
  inv : c'.WindowInv t

/-! ## Locks under a change of one container -/

theorem lockOf_setNode_ne (c : CacheSet) {b x : Nat} (f : Btree → Btree) (t : Nat) (h : x ≠ b) :
    (c.setNode b f).lockOf x t = c.lockOf x t := by
  simp [lockOf, h]

theorem lockOf_setNode_of_lock (c : CacheSet) (b x : Nat) {f : Btree → Btree} (t : Nat)
    (hf : (f (c.nodes b)).lock = (c.nodes b).lock) : (c.setNode b f).lockOf x t = c.lockOf x t := by
  by_cases h : x = b
  · subst h; simp [lockOf, hf]
  · exact lockOf_setNode_ne c f t h

theorem lockOf_congr {c c' : CacheSet} {x t : Nat} (h : (c'.nodes x).lock = (c.nodes x).lock) :
    c'.lockOf x t = c.lockOf x t := by
  simp [lockOf, h]

section Holding

variable {c c' : CacheSet} {t : Nat} {base : Nat → Nat × Bool} {lt : LockType}

theorem Holding.nr_lt {b : Nat} (h : c.Holding t base lt (some b)) : b < c.nr := h.lt_nr b rfl

/-- A change that keeps every lock and the number of containers keeps what `t` holds. -/
theorem Holding.of_locks {o : Option Nat} (h : c.Holding t base lt o) (hnr : c'.nr = c.nr)
    (hl : ∀ x, c'.lockOf x t = c.lockOf x t) : c'.Holding t base lt o where
  lt_nr b hb := hnr ▸ h.lt_nr b hb
  intent_free := h.intent_free
  past x hx := h.past x (hnr ▸ hx)
  locks x hx := by rw [hl]; exact h.locks x (hnr ▸ hx)

/-- Changing container `b` alone, where `t` goes from holding `o` to holding `o'` and
both are `b` or nothing; the lock type may change with it. -/
theorem Holding.setNode {lt' : LockType} {o o' : Option Nat} {b : Nat}
    (h : c.Holding t base lt o) (hb : b < c.nr) (f : Btree → Btree) (ho : o = none ∨ o = some b)
    (ho' : o' = none ∨ o' = some b) (hi : o' = some b → lt' = .intent → (base b).2 = false)
    (hf : (c.setNode b f).lockOf b t = if o' = some b then lt'.add (base b) else base b) :
    (c.setNode b f).Holding t base lt' o' where
  lt_nr b' hb' := by
    rcases ho' with rfl | rfl <;> cases hb'
    simpa using hb
  intent_free b' hb' := by
    rcases ho' with rfl | rfl <;> cases hb'
    exact hi rfl
  past x hx := h.past x (by simpa using hx)
  locks x hx := by
    by_cases e : x = b
    · subst e; exact hf
    · have hne : ∀ o : Option Nat, (o = none ∨ o = some b) → o ≠ some x := by
        rintro o (rfl | rfl) h'
        · cases h'
        · exact e (Option.some.inj h').symm
      rw [lockOf_setNode_ne c f t e, h.locks x (by simpa using hx), if_neg (hne o ho),
        if_neg (hne o' ho')]

/-- Other threads keep what `t` holds. -/
theorem Holding.frame {o : Option Nat} (h : c.Holding t base lt o) (hr : Frame t c c') :
    c'.Holding t base lt o where
  lt_nr b hb := lt_of_lt_of_le (h.lt_nr b hb) hr.nr_le
  intent_free := h.intent_free
  past x hx := h.past x (le_trans hr.nr_le hx)
  locks x hx := by
    rw [hr.locks x hx]
    by_cases hxc : x < c.nr
    · rw [if_pos hxc]; exact h.locks x hxc
    · rw [if_neg hxc, if_neg fun hox => hxc (h.lt_nr x hox), h.past x (Nat.le_of_not_lt hxc)]

theorem lockOf_ne_of_holding {b : Nat} (h : c.Holding t base lt (some b)) :
    c.lockOf b t ≠ (0, false) := by
  rw [h.locks b h.nr_lt, if_pos rfl]
  exact lt.add_ne _

end Holding

/-! ## What a fill leaves locked -/

/-- A successful reap by `t` takes a lock nobody held and leaves `t`'s intent and write
lock on it. -/
theorem mcaReapNotrace_locks {c c' : CacheSet} {b t : Nat} {flush : Bool}
    (h : c.mcaReapNotrace b flush t = some c') :
    (c.nodes b).lock.readers = [] ∧ (c.nodes b).lock.intent = none ∧
      ∃ f, c' = c.setNode b fun n => { n with lock := ⟨[], some t, true⟩, flags := f } := by
  obtain ⟨hi, hr, -, -, -, -, rfl⟩ := mcaReapNotrace_spec h
  exact ⟨hr, hi, _, rfl⟩

/-- A successful reap by `t` locks `b` for intent and write, from a lock nobody held. -/
theorem mcaReapNotrace_lock {c c' : CacheSet} {b t : Nat} {flush : Bool}
    (h : c.mcaReapNotrace b flush t = some c') :
    c.lockOf b t = (0, false) ∧ c'.lockOf b t = (0, true) ∧ c'.nr = c.nr ∧
      ∀ x, x ≠ b → c'.lockOf x t = c.lockOf x t := by
  obtain ⟨hr, hi, f, rfl⟩ := mcaReapNotrace_locks h
  exact ⟨by simp [lockOf, hr, hi], by simp [lockOf], rfl, fun x hx => lockOf_setNode_ne c _ t hx⟩

section Holding

variable {c c' : CacheSet} {t : Nat} {base : Nat → Nat × Bool} {lt : LockType} {p : List Nat}

/-- A successful reap makes `t` hold the reaped container for intent, which it held
nothing of before. -/
theorem Holding.reap {b : Nat} {flush : Bool} (h : c.Holding t base lt none) (hb : b < c.nr)
    (hr : c.mcaReapNotrace b flush t = some c') : c'.Holding t base .intent (some b) := by
  obtain ⟨h0, hl, hnr, hx⟩ := mcaReapNotrace_lock hr
  have hbase : base b = (0, false) := by simpa [h0] using (h.locks b hb).symm
  refine ⟨fun b' hb' => by cases hb'; rwa [hnr], fun b' hb' _ => by cases hb'; rw [hbase],
    fun x hx => h.past x (hnr ▸ hx), fun x hx' => ?_⟩
  by_cases e : x = b
  · subst e; rw [hl, if_pos rfl, hbase]; rfl
  · rw [hx x e, h.locks x (hnr ▸ hx'), if_neg, if_neg] <;> simp [e, Ne.symm e]

/-- Holding nothing more than before does not depend on the lock type. -/
theorem Holding.none_lt (h : c.Holding t base lt none) (lt' : LockType) : c.Holding t base lt' none :=
  ⟨nofun, nofun, h.past, fun x hx => by simpa using h.locks x hx⟩

theorem Holding.intent_lock {b : Nat} (h : c.Holding t base .intent (some b)) :
    (c.nodes b).lock.readers.count t = (base b).1 ∧ (c.nodes b).lock.intent = some t := by
  simpa [lockOf, LockType.add, Prod.ext_iff] using h.locks b h.nr_lt

/-- `out_unlock:` hands over the container `t` holds. -/
theorem Holding.outUnlock {b : Nat} {o : Option Nat}
    (h : c.Holding t base .intent (some b)) (ha : c.mcaAllocOutUnlock b = .ok (c', o)) :
    c'.Holding t base .intent o := by
  unfold mcaAllocOutUnlock at ha
  split_ifs at ha
  cases ha
  exact h.of_locks rfl fun x => lockOf_congr (by by_cases e : x = b <;> simp [mcaAllocOut, e])

/-- `err:` of `mca_alloc`: the cannibalized container is the only one `t` holds more than
before. -/
theorem Holding.mcaAllocErr {o : Option Nat} (hc : CacheInv c p) (h : c.Holding t base lt none)
    (ha : c.mcaAllocErr t = .ok (c', o)) : c'.Holding t base .intent o := by
  unfold CacheSet.mcaAllocErr at ha
  split_ifs at ha
  · obtain ⟨⟨b, c1⟩, hcan, ha⟩ := bind_eq_ok ha
    obtain ⟨c2, hrem, ha⟩ := bind_eq_ok ha
    cases ha
    obtain ⟨hbl, flush, hreap⟩ := mcaCannibalize_eq_ok hcan
    obtain ⟨-, rfl⟩ := mcaHashRemove_eq_ok hrem
    exact (h.reap (hc.listed _ b hbl) hreap).of_locks (by simp [mcaAllocOut]) fun x =>
      lockOf_congr (by by_cases e : x = b <;> simp [mcaAllocOut, e])
  · cases ha
    exact h.none_lt _

end Holding

theorem mcaBucketAlloc_nr (c : CacheSet) (kzOk dataOk : Bool) :
    (c.mcaBucketAlloc kzOk dataOk).1.nr = if kzOk then c.nr + 1 else c.nr := by
  cases kzOk <;> cases dataOk <;> simp [mcaBucketAlloc]

theorem mcaBucketAlloc_lock (c : CacheSet) (kzOk dataOk : Bool) (x : Nat) :
    ((c.mcaBucketAlloc kzOk dataOk).1.nodes x).lock =
      if kzOk ∧ x = c.nr then SixLock.free else (c.nodes x).lock := by
  cases kzOk <;> cases dataOk <;> by_cases e : x = c.nr <;> simp [mcaBucketAlloc, e, Btree.zero]

section Holding

variable {c c' : CacheSet} {t : Nat} {base : Nat → Nat × Bool} {lt : LockType} {p : List Nat}

/-- `mca_bucket_alloc` adds a container whose lock is free. -/
theorem Holding.bucketAlloc (h : c.Holding t base lt none) (kzOk dataOk : Bool) :
    (c.mcaBucketAlloc kzOk dataOk).1.Holding t base lt none := by
  have hle : c.nr ≤ (c.mcaBucketAlloc kzOk dataOk).1.nr := by
    rw [mcaBucketAlloc_nr]; split_ifs <;> omega
  refine ⟨nofun, nofun, fun x hx => h.past x (le_trans hle hx), fun x hx => ?_⟩
  rw [mcaBucketAlloc_nr] at hx
  by_cases e : kzOk ∧ x = c.nr
  · rw [e.2]; simp [lockOf, mcaBucketAlloc_lock, e.1, SixLock.free, h.past c.nr le_rfl]
  · have hx' : x < c.nr := by cases kzOk <;> simp at hx e ⊢ <;> omega
    simpa [lockOf, mcaBucketAlloc_lock, e] using h.locks x hx'

/-- The last resort of `mca_alloc`: a new container, locked by `t` from a free lock. -/
theorem Holding.allocBucket {o : Option Nat} (hc : CacheInv c p) (h : c.Holding t base lt none)
    (kzOk dataOk : Bool)
    (ha : (match c.mcaBucketAlloc kzOk dataOk with
      | (c, none) => c.mcaAllocErr t
      | (c, some b) =>
        match (c.nodes b).lock.trylockIntent t with
        | none => .error .trylock
        | some l =>
          match l.trylockWrite with
          | none => .error .trylock
          | some l => (c.setNode b fun n => { n with lock := l }).mcaAllocOutUnlock b) = .ok (c', o)) :
    c'.Holding t base .intent o := by
  have hc1 := hc.newContainer.dataAlloc (Nat.lt_succ_self _) (by simp [Btree.zero]) (by simp [Btree.zero])
  cases kzOk
  · exact Holding.mcaAllocErr hc h ha
  cases dataOk
  · exact Holding.mcaAllocErr (hc1 false) (h.bucketAlloc true false) ha
  · simp only [mcaBucketAlloc, if_true, mcaDataAlloc_true, listMove_nodes, setUsed_nodes,
      setNode_nodes_self, Function.update_same, Btree.zero, SixLock.free, SixLock.trylockIntent,
      SixLock.trylockWrite, if_true] at ha
    have hnew := h.past c.nr le_rfl
    refine Holding.outUnlock (Holding.setNode ((h.bucketAlloc true true).none_lt .intent)
      (show c.nr < _ by simp [mcaBucketAlloc])
      _ (.inl rfl) (.inr rfl) (fun _ _ => by rw [hnew]) ?_) ha
    simp [lockOf, LockType.add, hnew]

/-- `mca_alloc` by `t` leaves it holding what it held before and the container it returns,
for intent. -/
theorem Holding.mcaAlloc {gfp : Gfp} {o : Option Nat} (hc : CacheInv c p) (hp : c.PendingLocked p)
    (h : c.Holding t base lt none) (ha : c.mcaAlloc t gfp = .ok (c', o)) : c'.Holding t base .intent o := by
  unfold CacheSet.mcaAlloc at ha
  split at ha
  · rename_i b c1 h1
    obtain ⟨hb, hreap⟩ := firstReap_eq_some h1
    exact (h.reap (hc.listed _ b hb) hreap).outUnlock ha
  split at ha
  · rename_i b c1 h2
    obtain ⟨hb, hreap⟩ := firstReap_eq_some h2
    have hbn := hc.listed _ b hb
    have h1 := h.reap hbn hreap
    obtain ⟨⟨l, f, rfl⟩, -⟩ := mcaReapNotrace_eq_some hreap
    have hc1 := hc.setNode b (fun n => { n with lock := l, flags := f }) rfl rfl
    have hc2 := hc1.dataAlloc (by simpa using hbn) (by simpa using hc.freed_key hb (hp.not_mem_of_reap hreap))
      (by simpa using (hc.freed b hb).1) gfp.dataOk
    have h2 : (((c.setNode b fun n => { n with lock := l, flags := f }).mcaDataAlloc b gfp.dataOk)).Holding
        t base .intent (some b) :=
      h1.of_locks (mcaDataAlloc_nr _ _ _) fun x =>
        lockOf_congr (by by_cases e : x = b <;> simp [mcaDataAlloc_nodes, e])
    obtain ⟨h0, -⟩ := h2.intent_lock
    have hfree := h2.intent_free b rfl rfl
    dsimp only at ha
    split_ifs at ha
    · exact h2.outUnlock ha
    · exact Holding.mcaAllocErr (hc2.unlockNode b) (h2.setNode h2.nr_lt _ (.inr rfl) (.inl rfl) nofun
        (by simp [lockOf, SixLock.unlockIntent, SixLock.unlockWrite, h0, Prod.ext_iff, hfree]) :
          Holding _ t base .intent none) ha
  · exact Holding.allocBucket hc h _ _ ha

end Holding

@[simp] theorem fillRead_key (c : CacheSet) (b t : Nat) (lt : LockType) (readError : Bool) (x : Nat) :
    ((c.fillRead b t lt readError).nodes x).key = (c.nodes x).key := by
  unfold fillRead; cases lt <;> by_cases e : x = b <;> simp [e]

@[simp] theorem fillRead_level (c : CacheSet) (b t : Nat) (lt : LockType) (readError : Bool) (x : Nat) :
    ((c.fillRead b t lt readError).nodes x).level = (c.nodes x).level := by
  unfold fillRead; cases lt <;> by_cases e : x = b <;> simp [e]

section Holding

variable {c c' : CacheSet} {t : Nat} {base : Nat → Nat × Bool} {lt : LockType} {p : List Nat}

/-- The end of a fill: `six_unlock_write`, then `six_lock_downgrade` if a read lock was
asked for, leaves `t` holding the node as asked. -/
theorem Holding.fillRead {b : Nat} (h : c.Holding t base .intent (some b)) (lt : LockType)
    (readError : Bool) : (c.fillRead b t lt readError).Holding t base lt (some b) := by
  obtain ⟨h0, hi⟩ := h.intent_lock
  have hfree := h.intent_free b rfl rfl
  have h1 : (c.setNode b fun n =>
      { n with flags := { n.flags with readError := readError }, lock := n.lock.unlockWrite }).Holding
      t base .intent (some b) :=
    h.setNode h.nr_lt _ (.inr rfl) (.inr rfl) (fun _ _ => hfree)
      (by simp [lockOf, SixLock.unlockWrite, h0, hi, LockType.add])
  unfold CacheSet.fillRead
  cases lt
  · exact h1.setNode (by simpa using h.nr_lt) _ (.inr rfl) (.inr rfl) nofun
      (by simp [lockOf, SixLock.downgrade, SixLock.unlockWrite, h0, LockType.add, hfree])
  · exact h1

/-- What a fill by `t` leaves `t` holding besides what it held before: on success the
filled node, locked as asked, with the pointer hash and level looked up; otherwise
nothing. -/
theorem Holding.fill {k level id : Nat} {gfp : Gfp} {readError : Bool} {r : FillResult}
    (hc : CacheInv c p) (hp : c.PendingLocked p) (h : c.Holding t base lt none)
    (hf : c.bchBtreeNodeFill t gfp k level id lt readError = .ok (c', r)) :
    match r with
    | .ok b => c'.Holding t base lt (some b) ∧ (c'.nodes b).key = k ∧ (c'.nodes b).level = level
    | _ => c'.Holding t base lt none := by
  obtain ⟨⟨c1, o⟩, halloc, hf⟩ := bind_eq_ok hf
  have h1 := Holding.mcaAlloc hc hp h halloc
  cases o with
  | none => cases hf; exact h1.none_lt lt
  | some b =>
    obtain ⟨h0, -⟩ := h1.intent_lock
    have hfree := h1.intent_free b rfl rfl
    dsimp only at hf
    cases hk : c1.table.any (·.1 == k)
    · rw [fillInsert_of_fresh hk] at hf
      cases hf
      have h2 : (((c1.setNode b fun n => { n with key := k, level := level, btreeId := id }).setTable
          ((k, b) :: c1.table)).listAdd .btreeCache b).Holding t base .intent (some b) :=
        h1.of_locks (by simp) fun x => lockOf_congr (by by_cases e : x = b <;> simp [e])
      exact ⟨h2.fillRead lt readError, by simp, by simp⟩
    · rw [fillInsert_of_taken hk] at hf
      cases hf
      have h2 : ((c1.setNode b fun n => { n with key := 0, level := level, btreeId := id }).listAdd
          .freeable b).Holding t base .intent (some b) :=
        h1.of_locks (by simp) fun x => lockOf_congr (by by_cases e : x = b <;> simp [e])
      exact h2.setNode (by simpa using h1.nr_lt) _ (.inr rfl) (.inl rfl) nofun
        (by simp [lockOf, SixLock.unlockWrite, SixLock.unlockIntent, h0, Prod.ext_iff, hfree])

end Holding

/-! ## The steps of the call -/

theorem CacheInv.mcaFind_lt {c : CacheSet} {p : List Nat} (hc : CacheInv c p) {k b : Nat}
    (h : c.mcaFind k = some b) : b < c.nr := by
  obtain ⟨e, he, rfl⟩ := Option.map_eq_some'.1 h
  exact (hc.tableKey e (List.mem_of_find?_eq_some he)).2

theorem CacheInv.setLock {c : CacheSet} {p : List Nat} (hc : CacheInv c p) (b : Nat) (l : SixLock) :
    CacheInv (c.setLock b l) p := hc.setNode b _ rfl rfl

theorem CacheInv.accessedUpdate {c : CacheSet} {p : List Nat} (hc : CacheInv c p) (b : Nat) :
    CacheInv (c.accessedUpdate b) p := by
  unfold CacheSet.accessedUpdate; split_ifs
  · exact hc.setNode b _ rfl rfl
  · exact hc

@[simp] theorem accessedUpdate_nr (c : CacheSet) (b : Nat) : (c.accessedUpdate b).nr = c.nr := by
  unfold accessedUpdate; split_ifs <;> rfl

/-- The accessed-bit update changes no lock, pointer hash or level. -/
theorem accessedUpdate_node (c : CacheSet) (b x : Nat) :
    ((c.accessedUpdate b).nodes x).lock = (c.nodes x).lock ∧
      ((c.accessedUpdate b).nodes x).key = (c.nodes x).key ∧
      ((c.accessedUpdate b).nodes x).level = (c.nodes x).level := by
  unfold accessedUpdate; split_ifs <;> by_cases e : x = b <;> simp [e]

/-! ## The invariant inside a scan section -/

section Window

variable {c c' : CacheSet} {t : Nat} {p : List Nat}

theorem PendingHeld.locked (h : c.PendingHeld t p) : c.PendingLocked p := fun x hx =>
  ⟨(h x hx).1, by obtain ⟨u, -, hw, -⟩ := (h x hx).2; simp [hw]⟩

/-- A change that keeps the containers and the lock of every pending one. -/
theorem PendingHeld.of_lock (h : c.PendingHeld t p) (hnr : c.nr ≤ c'.nr)
    (hl : ∀ x ∈ p, (c'.nodes x).lock = (c.nodes x).lock) : c'.PendingHeld t p :=
  fun x hx => ⟨lt_of_lt_of_le (h x hx).1 hnr, by rw [hl x hx]; exact (h x hx).2⟩

theorem PendingHeld.untouched (h : c.PendingHeld t p) (hu : Untouched c c' p) : c'.PendingHeld t p :=
  h.of_lock hu.1 fun x hx => by rw [hu.2 x hx]

theorem CacheInv.windowInv (hc : CacheInv c []) (t : Nat) : c.WindowInv t := ⟨[], hc, nofun⟩

/-- A change that keeps the invariant, whatever is pending, and every lock. -/
theorem WindowInv.of_lock (h : c.WindowInv t) (hnr : c.nr ≤ c'.nr)
    (hc : ∀ p, CacheInv c p → CacheInv c' p) (hl : ∀ x, (c'.nodes x).lock = (c.nodes x).lock) :
    c'.WindowInv t :=
  let ⟨p, hcp, hph⟩ := h
  ⟨p, hc p hcp, hph.of_lock hnr fun x _ => hl x⟩

/-- Setting a lock that keeps the write lock any other task holds on it. -/
theorem WindowInv.setLock {b : Nat} {l : SixLock} (h : c.WindowInv t)
    (hl : ∀ u, u ≠ t → (c.nodes b).lock.HeldWrite u → l.HeldWrite u) : (c.setLock b l).WindowInv t := by
  obtain ⟨p, hc, hph⟩ := h
  refine ⟨p, hc.setLock b l, fun x hx => ?_⟩
  obtain ⟨hx1, u, hu, hw⟩ := hph x hx
  refine ⟨by simpa [CacheSet.setLock] using hx1, u, hu, ?_⟩
  by_cases e : x = b
  · subst e; simpa [CacheSet.setLock] using hl u hu hw
  · simpa [CacheSet.setLock, e] using hw

/-- `mca_alloc` by any task leaves the pending containers untouched. -/
theorem WindowInv.mcaAlloc {u : Nat} {gfp : Gfp} {o : Option Nat} (h : c.WindowInv t)
    (ha : c.mcaAlloc u gfp = .ok (c', o)) : c'.WindowInv t := by
  obtain ⟨p, hc, hph⟩ := h
  rcases hc.mcaAlloc (t := u) hph.locked gfp with ⟨c₁, o₁, he, hc₁, hu, -⟩ | he <;> rw [ha] at he <;>
    cases he
  exact ⟨p, hc₁, hph.untouched hu⟩

/-- So does a fill by any task. -/
theorem WindowInv.fill {u k level id : Nat} {gfp : Gfp} {lt : LockType} {readError : Bool}
    {r : FillResult} (h : c.WindowInv t) (hk : k ≠ 0)
    (hf : c.bchBtreeNodeFill u gfp k level id lt readError = .ok (c', r)) : c'.WindowInv t := by
  obtain ⟨p, hc, hph⟩ := h
  obtain ⟨hc', hu⟩ := hc.bchBtreeNodeFill hph.locked hk hf
  exact ⟨p, hc', hph.untouched hu⟩

end Window

section Holding

variable {c : CacheSet} {t : Nat} {base : Nat → Nat × Bool} {lt : LockType}

/-- `btree_node_lock` taking `b`'s lock as `lt` makes `t` hold `b` besides what it held. -/
theorem Holding.lock {b : Nat} {l : SixLock} (h : c.Holding t base lt none) (hb : b < c.nr)
    (hl : (c.nodes b).lock.trylockType t lt = some l) : (c.setLock b l).Holding t base lt (some b) := by
  have h0 := h.locks b hb
  simp only [lockOf, reduceCtorEq, if_false, Prod.ext_iff] at h0
  cases lt <;> simp only [SixLock.trylockType, SixLock.trylockRead, SixLock.trylockIntent] at hl <;>
    split_ifs at hl with hw <;> cases hl
  · exact h.setNode hb _ (.inl rfl) (.inr rfl) nofun
      (by simp [lockOf, setLock, LockType.add, Prod.ext_iff, h0.1, h0.2])
  · refine h.setNode hb _ (.inl rfl) (.inr rfl) (fun _ _ => by simp [← h0.2, hw]) ?_
    simp [lockOf, setLock, LockType.add, Prod.ext_iff, h0.1]

/-- `six_unlock_type` on the node `t` took leaves `t` holding what it held before. -/
theorem Holding.unlock {b : Nat} (h : c.Holding t base lt (some b)) :
    (c.setLock b ((c.nodes b).lock.unlockType t lt)).Holding t base lt none := by
  have h1 := h.locks b h.nr_lt
  rw [if_pos rfl] at h1
  refine h.setNode h.nr_lt _ (.inr rfl) (.inl rfl) nofun ?_
  cases lt <;> simp only [lockOf, LockType.add, Prod.ext_iff] at h1
  · simp [lockOf, SixLock.unlockType, SixLock.unlockRead, List.count_erase_self, h1.1, h1.2]
  · simp [lockOf, SixLock.unlockType, SixLock.unlockIntent, Prod.ext_iff, h1.1, h.intent_free b rfl rfl]

/-- `t` holding `b` as `lt` means the lock says so. -/
theorem Holding.holdsAs {b : Nat} (h : c.Holding t base lt (some b)) :
    (c.nodes b).lock.HoldsAs t lt := by
  have h1 := h.locks b h.nr_lt
  rw [if_pos rfl] at h1
  cases lt <;> simp only [lockOf, LockType.add, Prod.ext_iff] at h1
  · exact List.count_pos_iff.1 (by omega)
  · simpa using h1.2

end Holding

@[simp] theorem dropRead_dropRead (p : Option LockType) : dropRead (dropRead p) = dropRead p := by
  rcases p with _ | _ | _ <;> rfl

theorem dropRead_ne_read (p : Option LockType) : dropRead p ≠ some .read := by
  rcases p with _ | _ | _ <;> simp [dropRead]

theorem dropRead_of_parent {p p₀ : Option LockType} (h : p = p₀ ∨ p = dropRead p₀) :
    dropRead p = dropRead p₀ := by
  rcases h with rfl | rfl <;> simp

/-! ## The invariant of a call -/

/-- What task `t`, looking up pointer hash `k` at `level` for a `lt` lock, holds at each
point of the call besides what it held before (`base`), and what it knows of it. -/
def GetHolds (c : CacheSet) (t : Nat) (base : Nat → Nat × Bool) (lt : LockType) (k level : Nat) :
    GetPc → Prop
  | .retry | .relock | .ret .eintr | .ret .eio | .ret .enomem => c.Holding t base lt none
  | .found b | .locking b => c.Holding t base lt none ∧ b < c.nr
  | .check b => c.Holding t base lt (some b)
  | .tail b | .ret (.ok b) =>
    c.Holding t base lt (some b) ∧ (c.nodes b).key = k ∧ (c.nodes b).level = level

/-- The invariant of the call `g₀` at a later point `g`, in cache `c`, for a task that held
`base` when the call started. -/
structure GetInv (base : Nat → Nat × Bool) (g₀ : Getter) (c : CacheSet) (g : Getter) : Prop where
  /-- The node cache's invariant, up to a scan's evictions not yet unhashed. -/
  inv : c.WindowInv g₀.t
  /-- The pointer hash looked up is not zero: `k`'s first pointer is set. -/
  key_ne : g.k ≠ 0
  /-- The task, the key, the level, the lock type and the starting parent lock. -/
  same : g.t = g₀.t ∧ g.k = g₀.k ∧ g.level = g₀.level ∧ g.lockType = g₀.lockType ∧
    g.parent₀ = g₀.parent₀
  /-- What the task holds. -/
  holds : c.GetHolds g.t base g.lockType g.k g.level g.pc
  /-- The parent lock is the one the call started with, or that with its read lock dropped. -/
  parent : g.parent = g.parent₀ ∨ g.parent = dropRead g.parent₀
  /-- The call waits for a node's lock only without a read lock on the parent. -/
  unblocked : ∀ b, g.pc = .locking b → g.parent ≠ some .read

/-- Other threads keep what the task holds and knows. -/
theorem GetHolds.frame {c c' : CacheSet} {t : Nat} {base : Nat → Nat × Bool} {lt : LockType}
    {k level : Nat} {pc : GetPc} (h : c.GetHolds t base lt k level pc) (hr : Frame t c c') :
    c'.GetHolds t base lt k level pc := by
  have waiting : ∀ b, c.Holding t base lt none ∧ b < c.nr → c'.Holding t base lt none ∧ b < c'.nr :=
    fun b h => ⟨h.1.frame hr, lt_of_lt_of_le h.2 hr.nr_le⟩
  have checked : ∀ b, c.Holding t base lt (some b) ∧ (c.nodes b).key = k ∧ (c.nodes b).level = level →
      c'.Holding t base lt (some b) ∧ (c'.nodes b).key = k ∧ (c'.nodes b).level = level := by
    rintro b ⟨hh, hk, hl⟩
    have hne := lockOf_ne_of_holding hh
    exact ⟨hh.frame hr, (hr.key b hh.nr_lt hne).trans hk, (hr.level b hh.nr_lt hne).trans hl⟩
  cases pc with
  | retry | relock | check => exact Holding.frame h hr
  | found b | locking b => exact waiting b h
  | tail b => exact checked b h
  | ret r =>
    cases r with
    | ok b => exact checked b h
    | eintr | eio | enomem => exact Holding.frame h hr

theorem GetInv.rely {base : Nat → Nat × Bool} {g₀ g : Getter} {c c' : CacheSet}
    (hi : GetInv base g₀ c g) (hr : Rely g₀.t c c') : GetInv base g₀ c' g :=
  { hi with inv := hr.inv, holds := hi.holds.frame (hi.same.1 ▸ hr.toFrame) }

/-- Every step of the call keeps its invariant. -/
theorem GetInv.step {base : Nat → Nat × Bool} {g₀ g g' : Getter} {c c' : CacheSet} {ch : GetChoice}
    (hi : GetInv base g₀ c g) (h : c.getStep g ch = some (c', g')) : GetInv base g₀ c' g' := by
  obtain ⟨hinv, hk, hs, hh, hp, -⟩ := hi
  have ⟨q, hc, hq⟩ := hinv
  unfold getStep at h
  split at h
  next hpc =>
    rw [hpc] at hh
    split at h
    next b hfind =>
      cases h
      exact ⟨hinv, hk, hs, ⟨hh, hc.mcaFind_lt hfind⟩, hp, fun _ h => nomatch h⟩
    split at h
    next b hfill =>
      cases h
      exact ⟨hinv.fill hk hfill, hk, hs, Holding.fill hc hq.locked hh hfill,
        .inr (dropRead_of_parent hp), fun _ h => nomatch h⟩
    next hfill =>
      cases h
      exact ⟨hinv.fill hk hfill, hk, hs, Holding.fill hc hq.locked hh hfill, hp, fun _ h => nomatch h⟩
    next hfill =>
      cases h
      exact ⟨hinv.fill hk hfill, hk, hs, Holding.fill hc hq.locked hh hfill, hp, fun _ h => nomatch h⟩
    next => cases h
  next b hpc =>
    rw [hpc] at hh
    cases h
    exact ⟨hinv, hk, hs, hh, .inr (dropRead_of_parent hp), fun _ _ => dropRead_ne_read _⟩
  next b hpc =>
    rw [hpc] at hh
    split_ifs at h
    · cases h
      exact ⟨hinv, hk, hs, hh.1, hp, fun _ h => nomatch h⟩
    split at h
    next l hl =>
      cases h
      exact ⟨hinv.setLock fun _ _ hw => (nomatch (SixLock.trylockType_of_heldWrite hw _ _).symm.trans hl),
        hk, hs, hh.1.lock hh.2 hl, hp, fun _ h => nomatch h⟩
    next => cases h
  next b hpc =>
    rw [hpc] at hh
    split_ifs at h with hchk
    · cases h
      exact ⟨hinv.setLock fun _ hu hw => hw.unlockType (hs.1 ▸ hu) hh.holdsAs, hk, hs, Holding.unlock hh,
        hp, fun _ h => nomatch h⟩
    · cases h
      simp only [not_or, not_not] at hchk
      exact ⟨hinv, hk, hs, ⟨hh, hchk.1, hchk.2.1⟩, hp, fun _ h => nomatch h⟩
  next hpc =>
    rw [hpc] at hh
    split_ifs at h <;> cases h
    · exact ⟨hinv, hk, hs, hh, .inl rfl, fun _ h => nomatch h⟩
    · exact ⟨hinv, hk, hs, hh, hp, fun _ h => nomatch h⟩
  next b hpc =>
    rw [hpc] at hh
    obtain ⟨h1, h2, h3⟩ := hh
    have hn := accessedUpdate_node c b
    have h1' : (c.accessedUpdate b).Holding g.t base g.lockType (some b) :=
      h1.of_locks (by simp) fun x => lockOf_congr (hn x).1
    have hinv' : (c.accessedUpdate b).WindowInv g₀.t :=
      hinv.of_lock (by simp) (fun _ hc => hc.accessedUpdate b) fun x => (hn x).1
    dsimp only at h
    split_ifs at h <;> cases h
    · exact ⟨hinv'.setLock fun _ hu hw => hw.unlockType (hs.1 ▸ hu) h1'.holdsAs, hk, hs,
        Holding.unlock h1', hp, fun _ h => nomatch h⟩
    · exact ⟨hinv', hk, hs, ⟨h1', (hn b).2.1.trans h2, (hn b).2.2.trans h3⟩, hp, fun _ h => nomatch h⟩
  next => cases h

/-- The states a call `g₀` of task `g₀.t` reaches from cache `c₀`: its own steps, with any
choices, interleaved with any steps of the other threads. -/
inductive GetReach (c₀ : CacheSet) (g₀ : Getter) : CacheSet → Getter → Prop
  | start : GetReach c₀ g₀ c₀ g₀
  | env {c c' : CacheSet} {g : Getter} : GetReach c₀ g₀ c g → Rely g₀.t c c' → GetReach c₀ g₀ c' g
  | step {c c' : CacheSet} {g g' : Getter} (ch : GetChoice) :
      GetReach c₀ g₀ c g → c.getStep g ch = some (c', g') → GetReach c₀ g₀ c' g'

/-- A run of the call alone is one of its interleavings. -/
theorem GetReach.getRun {c₀ c c' : CacheSet} {g₀ g g' : Getter} {chs : List GetChoice}
    (hr : GetReach c₀ g₀ c g) (h : c.getRun g chs = some (c', g')) : GetReach c₀ g₀ c' g' := by
  induction chs generalizing c g with
  | nil => cases h; exact hr
  | cons ch chs ih =>
    obtain ⟨⟨c1, g1⟩, h1, h⟩ := Option.bind_eq_some.1 h
    exact ih (hr.step ch h1) h

/-- The invariant holds at every state a call reaches, from a call that starts at `retry:`
with its parent lock, for what the task held when it started. -/
theorem GetReach.getInv {c₀ c : CacheSet} {g₀ g : Getter} (hc : CacheInv c₀ []) (hk : g₀.k ≠ 0)
    (hpc : g₀.pc = .retry) (hp : g₀.parent = g₀.parent₀) (hr : GetReach c₀ g₀ c g) :
    GetInv (c₀.heldAt g₀.t) g₀ c g := by
  induction hr with
  | start =>
    refine ⟨hc.windowInv _, hk, ⟨rfl, rfl, rfl, rfl, rfl⟩, ?_, .inl hp, ?_⟩ <;> rw [hpc]
    · exact ⟨nofun, nofun, fun x hx => by simp [heldAt, Nat.not_lt.2 hx],
        fun x hx => by simp [heldAt, hx]⟩
    · exact fun _ h => nomatch h
  | env _ hrel ih => exact ih.rely hrel
  | step _ _ hs ih => exact ih.step hs

/-- A call of `bch_btree_node_get` by task `t` for a non-zero pointer hash, starting with
its parent lock, under any interleaving with the other threads, whatever node locks `t`
already holds: if it returns a node, `t` holds it as asked, on top of what it held before,
and the node has the pointer hash and level looked up and is hashed; if it returns an
error, `t` holds exactly what it held before; the parent lock is at all times the one it
started with, or that with its read lock dropped; and the call never waits for a node's
lock with a read lock on the parent. Nothing is said of a call that does not return: one
that waits for a node's lock forever, or whose fill spins in `mca_cannibalize` because
another task holds `btree_cache_alloc_lock` (`getStep` cannot move then). -/
theorem node_get_returns_locked_node {c₀ c : CacheSet} {g₀ g : Getter} (hc : CacheInv c₀ [])
    (hk : g₀.k ≠ 0) (hpc : g₀.pc = .retry) (hp : g₀.parent = g₀.parent₀) (hr : GetReach c₀ g₀ c g) :
    (∀ b, g.pc = .ret (.ok b) → b < c.nr ∧ (c.nodes b).lock.HoldsAs g₀.t g₀.lockType ∧
      (c.nodes b).key = g₀.k ∧ (c.nodes b).level = g₀.level ∧ c.Hashed b ∧
      ∀ x < c.nr, c.lockOf x g₀.t =
        if x = b then g₀.lockType.add (c₀.heldAt g₀.t x) else c₀.heldAt g₀.t x) ∧
    (∀ e, g.pc = .ret e → (∀ b, e ≠ .ok b) → ∀ x < c.nr, c.lockOf x g₀.t = c₀.heldAt g₀.t x) ∧
    (g.parent = g₀.parent ∨ g.parent = dropRead g₀.parent) ∧
    (∀ b, g.pc = .locking b → g.parent ≠ some .read) := by
  obtain ⟨⟨_, hinv, -⟩, -, ⟨ht, hkk, hl, hlt, hp₀⟩, hh, hpar, hu⟩ := hr.getInv hc hk hpc hp
  rw [ht, hkk, hl, hlt] at hh
  refine ⟨fun b hb => ?_, fun e he hne => ?_, by rwa [hp, ← hp₀], hu⟩
  · rw [hb] at hh
    obtain ⟨h1, h2, h3⟩ := hh
    refine ⟨h1.nr_lt, h1.holdsAs, h2, h3, (hinv.hashed b h1.nr_lt).2 (h2 ▸ hk), fun x hx => ?_⟩
    rw [h1.locks x hx]
    by_cases e : x = b
    · subst e; simp
    · simp [e, Ne.symm e]
  · rw [he] at hh
    cases e with
    | ok b => exact absurd rfl (hne b)
    | eintr | eio | enomem => exact fun x hx => by simpa using hh.locks x hx

/-- Where `lookup18` stands after five steps that meet no failure. -/
def lookup18Done : CacheSet × Getter :=
  (breachStart.getRun lookup18 (List.replicate 5 noFault)).getD (breachStart, lookup18)

set_option maxRecDepth 4000 in
/-- In a reachable state, `lookup18` returns node `17` after five steps: task `5` holds it
for read, and it has pointer hash `18`, level `0` and is hashed. -/
theorem node_get_returns_locked_node_lookup18 :
    CacheInv breachStart [] ∧ lookup18.k ≠ 0 ∧ lookup18.pc = .retry ∧
    lookup18.parent = lookup18.parent₀ ∧
    GetReach breachStart lookup18 lookup18Done.1 lookup18Done.2 ∧ lookup18Done.2.pc = .ret (.ok 17) ∧
    ((∀ b, lookup18Done.2.pc = .ret (.ok b) → b < lookup18Done.1.nr ∧
      (lookup18Done.1.nodes b).lock.HoldsAs lookup18.t lookup18.lockType ∧
      (lookup18Done.1.nodes b).key = lookup18.k ∧ (lookup18Done.1.nodes b).level = lookup18.level ∧
      lookup18Done.1.Hashed b ∧ ∀ x < lookup18Done.1.nr, lookup18Done.1.lockOf x lookup18.t =
        if x = b then lookup18.lockType.add (breachStart.heldAt lookup18.t x)
        else breachStart.heldAt lookup18.t x) ∧
    (∀ e, lookup18Done.2.pc = .ret e → (∀ b, e ≠ .ok b) →
      ∀ x < lookup18Done.1.nr, lookup18Done.1.lockOf x lookup18.t = breachStart.heldAt lookup18.t x) ∧
    (lookup18Done.2.parent = lookup18.parent ∨ lookup18Done.2.parent = dropRead lookup18.parent) ∧
    (∀ b, lookup18Done.2.pc = .locking b → lookup18Done.2.parent ≠ some .read)) :=
  have hc := reachable_breachStart.cacheInv
  have hr : GetReach breachStart lookup18 lookup18Done.1 lookup18Done.2 :=
    GetReach.start.getRun (show breachStart.getRun lookup18 (List.replicate 5 noFault) =
      some (lookup18Done.1, lookup18Done.2) from rfl)
  ⟨hc, by decide, rfl, rfl, hr, rfl, node_get_returns_locked_node hc (by decide) rfl rfl hr⟩

end CacheSet

end Libbcache
