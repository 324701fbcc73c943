import Libbcache.BtreeCache.NodeGetSafety

/-!
# The other threads, as a lookup sees them

`node_get_returns_locked_node` lets the other threads take any step that `Rely` allows.
This module shows that the node cache's own operations, run by a task `u` other than the
looking-up task `t`, are such steps (`OtherStep.rely`): `mca_alloc` with the
cannibalizing it may fall back on, `bch_btree_node_fill`, each section of
`bch_mca_scan`, and `mca_hash_insert` and `mca_hash_remove` of a node whose write lock
`u` holds.

Each of them changes the lock, pointer hash or level only of a container that it has
reaped or has just allocated, and a reap takes only a lock that nobody holds; the rest of
what they do (the lists, the hash table, the accessed bits, data and flags) is invisible
to `t` (`Frame`). So every operation is a `Frame` step, as the composition of such steps.

A scan runs section by section, so a lookup may run between the eviction of a node and its
`mca_hash_remove`. There the invariant holds up to that node, which the scan holds for
write (`ScanInv.windowInv`), and every operation keeps it so: no reap takes a node locked
for intent, so allocations and fills leave the evicted node as it is. A whole scan is
still a run of such steps (`CodeReach.bchMcaScan`).
-/

namespace Libbcache

namespace CacheSet

namespace Frame

variable {t : Nat}

theorem refl (c : CacheSet) : Frame t c c :=
  ⟨le_rfl, fun _ hx => (if_pos hx).symm, fun _ _ _ => rfl, fun _ _ _ => rfl⟩

theorem trans {c₁ c₂ c₃ : CacheSet} (h₁ : Frame t c₁ c₂) (h₂ : Frame t c₂ c₃) : Frame t c₁ c₃ where
  nr_le := h₁.nr_le.trans h₂.nr_le
  locks x hx := by
    rw [h₂.locks x hx]
    by_cases hx₂ : x < c₂.nr
    · rw [if_pos hx₂, h₁.locks x hx₂]
    · rw [if_neg hx₂, if_neg fun hx₁ => hx₂ (lt_of_lt_of_le hx₁ h₁.nr_le)]
  key x hx hne := by
    have hx₂ := lt_of_lt_of_le hx h₁.nr_le
    rw [h₂.key x hx₂ (by rwa [h₁.locks x hx₂, if_pos hx]), h₁.key x hx hne]
  level x hx hne := by
    have hx₂ := lt_of_lt_of_le hx h₁.nr_le
    rw [h₂.level x hx₂ (by rwa [h₁.locks x hx₂, if_pos hx]), h₁.level x hx hne]

/-- A change that keeps the number of containers and every container's lock, pointer
hash and level. -/
theorem of_same {c c' : CacheSet} (hnr : c'.nr = c.nr)
    (h : ∀ x, (c'.nodes x).lock = (c.nodes x).lock ∧ (c'.nodes x).key = (c.nodes x).key ∧
      (c'.nodes x).level = (c.nodes x).level) : Frame t c c' where
  nr_le := hnr.ge
  locks x hx := by rw [if_pos (hnr ▸ hx)]; exact lockOf_congr (h x).1
  key x _ _ := (h x).2.1
  level x _ _ := (h x).2.2

/-- A change of container `b` alone, of which `t` holds nothing before or after. -/
theorem only {c c' : CacheSet} {b : Nat} (hnr : c'.nr = c.nr)
    (hx : ∀ x, x ≠ b → c'.nodes x = c.nodes x) (h0 : c.lockOf b t = (0, false))
    (h1 : c'.lockOf b t = (0, false)) : Frame t c c' where
  nr_le := hnr.ge
  locks x hx' := by
    rw [if_pos (hnr ▸ hx')]
    by_cases e : x = b
    · subst e; rw [h0, h1]
    · exact lockOf_congr (by rw [hx x e])
  key x _ hne := by
    by_cases e : x = b
    · subst e; exact absurd h0 hne
    · rw [hx x e]
  level x _ hne := by
    by_cases e : x = b
    · subst e; exact absurd h0 hne
    · rw [hx x e]

/-- `kzalloc` of a container, whose lock nobody holds. -/
theorem grow (c : CacheSet) :
    Frame t c { c with nodes := Function.update c.nodes c.nr .zero, nr := c.nr + 1 } where
  nr_le := Nat.le_succ _
  locks x hx := by
    by_cases e : x = c.nr
    · subst e; simp [lockOf, Btree.zero, SixLock.free]
    · have hx' : x < c.nr := by simp at hx; omega
      rw [if_pos hx']; exact lockOf_congr (by simp [e])
  key x hx _ := by simp [hx.ne]
  level x hx _ := by simp [hx.ne]

end Frame

/-! ## `mca_alloc` and `bch_btree_node_fill` by another task -/

section Other

variable {t u : Nat}

/-- What a reap by `u` leaves as seen by `t`, when `u ≠ t`: the reaped lock. -/
theorem lockOf_reaped (hu : u ≠ t) (c : CacheSet) (b : Nat) (f : BtreeFlags) :
    (c.setNode b fun n => { n with lock := ⟨[], some u, true⟩, flags := f }).lockOf b t = (0, false) := by
  simp [lockOf, hu]

/-- `out_unlock:` changes no lock, pointer hash or level, and hands over the container it
was given. -/
theorem Frame.outUnlock {c c' : CacheSet} {b : Nat} {o : Option Nat} (h0 : c.lockOf b t = (0, false))
    (h : c.mcaAllocOutUnlock b = .ok (c', o)) :
    Frame t c c' ∧ ∀ b', o = some b' → c'.lockOf b' t = (0, false) := by
  unfold mcaAllocOutUnlock at h
  split_ifs at h
  cases h
  refine ⟨Frame.of_same rfl fun x => ?_, ?_⟩
  · by_cases e : x = b <;> simp [mcaAllocOut, e]
  · rintro b' ⟨⟩
    rw [← h0]
    exact lockOf_congr (by simp [mcaAllocOut])

/-- `err:` of `mca_alloc` run by `u`: the container it cannibalizes is one `t` holds
nothing of, and it hands it over still locked by `u`. -/
theorem Frame.mcaAllocErr {c c' : CacheSet} {o : Option Nat} (hu : u ≠ t)
    (h : c.mcaAllocErr u = .ok (c', o)) :
    Frame t c c' ∧ ∀ b, o = some b → c'.lockOf b t = (0, false) := by
  unfold CacheSet.mcaAllocErr at h
  split_ifs at h
  · obtain ⟨⟨b, c1⟩, hcan, h⟩ := bind_eq_ok h
    obtain ⟨c2, hrem, h⟩ := bind_eq_ok h
    cases h
    obtain ⟨-, _, hreap⟩ := mcaCannibalize_eq_ok hcan
    obtain ⟨hr, hi, f, rfl⟩ := mcaReapNotrace_locks hreap
    obtain ⟨-, rfl⟩ := mcaHashRemove_eq_ok hrem
    have h1 : (((((c.setNode b fun n => { n with lock := ⟨[], some u, true⟩, flags := f }).listDel
        b).setTable (c.table.filter (·.2 != b))).setNode b fun n => { n with key := 0 }).mcaAllocOut
        b).lockOf b t = (0, false) := by
      simp [lockOf, mcaAllocOut, hu]
    exact ⟨Frame.only (by simp [mcaAllocOut]) (fun x e => by simp [mcaAllocOut, e])
      (by simp [lockOf, hr, hi]) h1, fun b' hb' => by cases hb'; exact h1⟩
  · cases h
    exact ⟨Frame.refl c, nofun⟩

/-- The last resort of `mca_alloc` run by `u`: a new container, locked by `u`. -/
theorem Frame.allocBucket {c c' : CacheSet} {o : Option Nat} (hu : u ≠ t) (kzOk dataOk : Bool)
    (h : (match c.mcaBucketAlloc kzOk dataOk with
      | (c, none) => c.mcaAllocErr u
      | (c, some b) =>
        match (c.nodes b).lock.trylockIntent u with
        | none => .error .trylock
        | some l =>
          match l.trylockWrite with
          | none => .error .trylock
          | some l => (c.setNode b fun n => { n with lock := l }).mcaAllocOutUnlock b) = .ok (c', o)) :
    Frame t c c' ∧ ∀ b, o = some b → c'.lockOf b t = (0, false) := by
  have h1 : ∀ ok, Frame t c
      ({ c with nodes := Function.update c.nodes c.nr .zero, nr := c.nr + 1 }.mcaDataAlloc c.nr ok) :=
    fun ok => (Frame.grow c).trans (Frame.of_same (mcaDataAlloc_nr _ _ _) fun x => by
      by_cases e : x = c.nr
      · subst e; simp [mcaDataAlloc_nodes]
      · simp [mcaDataAlloc_nodes, e])
  cases kzOk
  · exact Frame.mcaAllocErr hu h
  cases dataOk
  · obtain ⟨hf, ho⟩ := Frame.mcaAllocErr hu h
    exact ⟨(h1 false).trans hf, ho⟩
  · simp only [mcaBucketAlloc, if_true, mcaDataAlloc_true, listMove_nodes, setUsed_nodes,
      setNode_nodes_self, Function.update_same, Btree.zero, SixLock.free, SixLock.trylockIntent,
      SixLock.trylockWrite, if_true] at h
    obtain ⟨hf, ho⟩ := Frame.outUnlock (t := t) (by simp [lockOf, hu]) h
    refine ⟨(h1 true).trans ((Frame.only (b := c.nr) (by rfl) (fun x e => by simp [e]) ?_ (by simp [lockOf, hu])).trans hf), ho⟩
    simp [lockOf, Btree.zero, SixLock.free]

/-- `mca_alloc` run by `u` changes only containers `t` holds nothing of, and hands over a
container `t` holds nothing of. -/
theorem Frame.mcaAlloc {c c' : CacheSet} {gfp : Gfp} {o : Option Nat} (hu : u ≠ t)
    (h : c.mcaAlloc u gfp = .ok (c', o)) :
    Frame t c c' ∧ ∀ b, o = some b → c'.lockOf b t = (0, false) := by
  unfold CacheSet.mcaAlloc at h
  split at h
  · rename_i b c1 h1
    obtain ⟨-, hreap⟩ := firstReap_eq_some h1
    obtain ⟨hr, hi, f, rfl⟩ := mcaReapNotrace_locks hreap
    obtain ⟨hf, ho⟩ := Frame.outUnlock (lockOf_reaped hu c b f) h
    exact ⟨(Frame.only (by rfl) (fun x e => by simp [e]) (by simp [lockOf, hr, hi])
      (lockOf_reaped hu c b f)).trans hf, ho⟩
  split at h
  · rename_i b c1 h2
    obtain ⟨-, hreap⟩ := firstReap_eq_some h2
    obtain ⟨hr, hi, f, rfl⟩ := mcaReapNotrace_locks hreap
    have hl : ((c.setNode b fun n => { n with lock := ⟨[], some u, true⟩, flags := f }).mcaDataAlloc b
        gfp.dataOk).lockOf b t = (0, false) := by
      simp [lockOf, mcaDataAlloc_nodes, hu]
    have h2 := Frame.only (t := t) (c := c) (by simp [mcaDataAlloc_nr]) (fun x e => by simp [mcaDataAlloc_nodes, e])
      (by simp [lockOf, hr, hi]) hl
    dsimp only at h
    split_ifs at h
    · obtain ⟨hf, ho⟩ := Frame.outUnlock hl h
      exact ⟨h2.trans hf, ho⟩
    · obtain ⟨hf, ho⟩ := Frame.mcaAllocErr hu h
      refine ⟨(h2.trans (Frame.only (by rfl) (fun x e => by simp [unlockNode, e]) hl ?_)).trans hf, ho⟩
      simp [lockOf, unlockNode, mcaDataAlloc_nodes, SixLock.unlockIntent, SixLock.unlockWrite]
  · exact Frame.allocBucket hu _ _ h

/-- The end of a fill by `u` leaves `t` holding nothing of the node. -/
theorem lockOf_fillRead (hu : u ≠ t) {c : CacheSet} {b : Nat} (lt : LockType) (readError : Bool)
    (h0 : c.lockOf b t = (0, false)) : (c.fillRead b u lt readError).lockOf b t = (0, false) := by
  simp only [lockOf, Prod.mk.injEq, decide_eq_false_iff_not] at h0
  unfold fillRead
  cases lt <;> simp [lockOf, SixLock.downgrade, SixLock.unlockWrite, List.count_cons, hu, h0]

/-- A fill by `u` changes only the container it allocated. -/
theorem Frame.fill {c c' : CacheSet} {k level id : Nat} {gfp : Gfp} {lt : LockType}
    {readError : Bool} {r : FillResult} (hu : u ≠ t)
    (h : c.bchBtreeNodeFill u gfp k level id lt readError = .ok (c', r)) : Frame t c c' := by
  obtain ⟨⟨c1, o⟩, halloc, h⟩ := bind_eq_ok h
  obtain ⟨hf, ho⟩ := Frame.mcaAlloc hu halloc
  cases o with
  | none => cases h; exact hf
  | some b =>
    have h0 := ho b rfl
    refine hf.trans ?_
    dsimp only at h
    cases hk : c1.table.any (·.1 == k)
    · rw [fillInsert_of_fresh hk] at h
      cases h
      refine Frame.only (by simp) (fun x e => by simp [fillRead_nodes_ne _ _ _ _ e, e]) h0
        (lockOf_fillRead hu lt readError ?_)
      rw [← h0]; exact lockOf_congr (by simp)
    · rw [fillInsert_of_taken hk] at h
      cases h
      simp only [lockOf, Prod.mk.injEq, decide_eq_false_iff_not] at h0
      exact Frame.only (b := b) (by simp) (fun x e => by simp [unlockNode, e]) (by simp [lockOf, h0])
        (by simp [lockOf, unlockNode, SixLock.unlockWrite, SixLock.unlockIntent, h0])

/-! ## `bch_mca_scan` by another task -/

/-- Where a scan by `u` is, as `t` sees it: the container of a pending eviction is one
`t` holds nothing of. -/
def ScanOwn (t : Nat) (c : CacheSet) : ScanPc → Prop
  | .evicted b _ _ => c.lockOf b t = (0, false)
  | _ => True

theorem Frame.scanFreeable (hu : u ≠ t) {nr : Nat} :
    ∀ {c c' : CacheSet} (l : List Nat) (i freed freed' : Nat),
      c.scanFreeable u nr l i freed = .ok (c', freed') → Frame t c c'
  | c, _, [], _, _, _, h => by cases h; exact .refl c
  | c, _, b :: l, i, freed, freed', h => by
    unfold CacheSet.scanFreeable at h
    split_ifs at h
    · cases h; exact .refl c
    · split at h
      · rename_i c1 hreap
        obtain ⟨c2, hfree, h⟩ := bind_eq_ok h
        obtain ⟨hr, hi, f, rfl⟩ := mcaReapNotrace_locks hreap
        obtain ⟨-, rfl⟩ := mcaDataFree_eq_ok hfree
        refine (Frame.only (b := b) (by simp) (fun x e => by simp [unlockNode, e])
          (by simp [lockOf, hr, hi]) ?_).trans (Frame.scanFreeable hu l _ _ _ h)
        simp [lockOf, unlockNode, SixLock.unlockIntent, SixLock.unlockWrite]
      · exact Frame.scanFreeable hu l _ _ _ h
    · exact Frame.scanFreeable hu l _ _ _ h

theorem Frame.scanWalk (hu : u ≠ t) {nr : Nat} :
    ∀ {c c' : CacheSet} (pre l : List Nat) (freed : Nat) {pc : ScanPc},
      c.scanWalk u nr pre l freed = .ok (c', pc) → Frame t c c' ∧ ScanOwn t c' pc
  | c, _, _, [], _, _, h => by cases h; exact ⟨.refl c, trivial⟩
  | c, _, pre, b :: rest, freed, _, h => by
    have hclear : Frame t c (c.setNode b fun n => { n with flags := { n.flags with accessed := false } }) :=
      Frame.of_same (by simp) fun x => by by_cases e : x = b <;> simp [e]
    unfold CacheSet.scanWalk at h
    split_ifs at h
    · cases h; exact ⟨Frame.of_same rfl fun x => by simp, trivial⟩
    · obtain ⟨hf, ho⟩ := Frame.scanWalk hu _ rest freed h
      exact ⟨hclear.trans hf, ho⟩
    · split at h
      · rename_i c1 hreap
        obtain ⟨hr, hi, f, rfl⟩ := mcaReapNotrace_locks hreap
        obtain ⟨c2, hfree, h⟩ := bind_eq_ok h
        cases h
        obtain ⟨-, rfl⟩ := mcaDataFree_eq_ok hfree
        refine ⟨Frame.only (b := b) (by simp) (fun x e => by simp [e]) (by simp [lockOf, hr, hi]) ?_, ?_⟩ <;>
          simp [ScanOwn, lockOf, hu]
      · obtain ⟨hf, ho⟩ := Frame.scanWalk hu _ rest freed h
        exact ⟨hclear.trans hf, ho⟩

/-- Each section of a scan by `u` is a `Frame` step for `t`. -/
theorem Frame.scanStep {c c' : CacheSet} {sc : ShrinkControl} {pc pc' : ScanPc} (hu : u ≠ t)
    (ho : ScanOwn t c pc) (h : c.scanStep u sc pc = .ok (c', pc')) : Frame t c c' ∧ ScanOwn t c' pc' := by
  cases pc with
  | start =>
    simp only [CacheSet.scanStep] at h
    split_ifs at h
    · cases h; exact ⟨.refl c, trivial⟩
    · cases h; exact ⟨.refl c, trivial⟩
    · obtain ⟨⟨c1, freed⟩, hfr, h⟩ := bind_eq_ok h
      obtain ⟨hf, ho'⟩ := Frame.scanWalk hu _ _ _ h
      exact ⟨(Frame.scanFreeable hu _ _ _ _ hfr).trans hf, ho'⟩
  | evicted b nr freed =>
    simp only [CacheSet.scanStep] at h
    obtain ⟨c1, hrem, h⟩ := bind_eq_ok h
    cases h
    obtain ⟨-, rfl⟩ := mcaHashRemove_eq_ok hrem
    have h0 : c.lockOf b t = (0, false) := ho
    simp only [ScanOwn, lockOf, Prod.mk.injEq, decide_eq_false_iff_not] at ho
    refine ⟨Frame.only (by simp) (fun x e => by simp [unlockNode, e]) h0 ?_, by split <;> trivial⟩
    simp [lockOf, unlockNode, SixLock.unlockIntent, SixLock.unlockWrite, ho]
  | restart nr freed => simp only [CacheSet.scanStep] at h; exact Frame.scanWalk hu _ _ _ h
  | done r => simp only [CacheSet.scanStep] at h; cases h; exact ⟨.refl c, trivial⟩

/-- Inside a section of a scan by `u`, the invariant holds up to the node `u` evicted,
which `u` holds for write. -/
theorem ScanInv.windowInv {c : CacheSet} {pc : ScanPc} (hu : u ≠ t) (h : ScanInv c u pc) :
    c.WindowInv t := by
  cases pc with
  | evicted b nr freed =>
    refine ⟨[b], h.1, fun x hx => ?_⟩
    obtain rfl := List.mem_singleton.1 hx
    exact ⟨h.2.2.1, u, hu, h.2.1.1⟩
  | start | restart | done => exact CacheInv.windowInv h t

/-! ## Hash table changes under the write lock -/

/-- `mca_hash_remove` by a task holding the node's write lock. -/
theorem Frame.hashRemove {c c' : CacheSet} {b : Nat} (hu : u ≠ t) (hw : (c.nodes b).lock.HeldWrite u)
    (hr : (c.nodes b).lock.readers = []) (h : c.mcaHashRemove b = .ok c') : Frame t c c' := by
  obtain ⟨-, rfl⟩ := mcaHashRemove_eq_ok h
  have h0 : c.lockOf b t = (0, false) := by simp [lockOf, hr, hw.1, hu]
  exact Frame.only (by simp) (fun x e => by simp [e]) h0 ((lockOf_congr (by simp)).trans h0)

/-- `bkey_copy` and `mca_hash_insert` by a task holding the node's write lock. -/
theorem Frame.hashInsert {c : CacheSet} {b k level id : Nat} (hu : u ≠ t)
    (hw : (c.nodes b).lock.HeldWrite u) (hr : (c.nodes b).lock.readers = []) :
    Frame t c ((c.setNode b fun n => { n with key := k }).mcaHashInsert b level id).1 := by
  have h0 : c.lockOf b t = (0, false) := by simp [lockOf, hr, hw.1, hu]
  unfold mcaHashInsert
  dsimp only
  split_ifs <;> exact Frame.only (by simp) (fun x e => by simp [e]) h0 ((lockOf_congr (by simp)).trans h0)

/-! ## The operations of the other threads -/

/-- The node cache's operations (`Step`) run by a task other than `t`; those that change
a node they did not reap themselves hold its write lock, as their callers do. -/
inductive OtherStep (t : Nat) : CacheSet → CacheSet → Prop
  | alloc {c c' : CacheSet} {u : Nat} {gfp : Gfp} {r : Option Nat} :
      u ≠ t → c.mcaAlloc u gfp = .ok (c', r) → OtherStep t c c'
  | fill {c c' : CacheSet} {u k level id : Nat} {gfp : Gfp} {lockType : LockType}
      {readError : Bool} {r : FillResult} :
      u ≠ t → k ≠ 0 → c.bchBtreeNodeFill u gfp k level id lockType readError = .ok (c', r) →
      OtherStep t c c'
  | hashInsert {c : CacheSet} {u b k level id : Nat} :
      u ≠ t → (c.nodes b).lock.HeldWrite u → (c.nodes b).lock.readers = [] → c.Held b → k ≠ 0 →
      c.table.any (·.1 == k) = false →
      OtherStep t c ((c.setNode b fun n => { n with key := k }).mcaHashInsert b level id).1
  | hashRemove {c c' : CacheSet} {u b : Nat} :
      u ≠ t → (c.nodes b).lock.HeldWrite u → (c.nodes b).lock.readers = [] → b < c.nr →
      c.mcaHashRemove b = .ok c' → OtherStep t c c'
  | scanSection {c c' : CacheSet} {u : Nat} {sc : ShrinkControl} {pc pc' : ScanPc} :
      u ≠ t → ScanInv c u pc → ScanOwn t c pc → c.scanStep u sc pc = .ok (c', pc') →
      OtherStep t c c'
  | recalcReserve {c : CacheSet} (roots : List (Option Nat)) :
      OtherStep t c (c.setReserve (bchRecalcBtreeReserve roots))

/-- The operations of the other threads are steps `Rely` allows, from any state a lookup
may find the cache in, so `node_get_returns_locked_node` covers every interleaving of a
lookup with them, inside scan sections as well as between operations. -/
theorem OtherStep.rely {c c' : CacheSet} (hc : c.WindowInv t) (h : OtherStep t c c') : Rely t c c' := by
  cases h with
  | alloc hu h => exact ⟨(Frame.mcaAlloc hu h).1, hc.mcaAlloc h⟩
  | fill hu hk h => exact ⟨Frame.fill hu h, hc.fill hk h⟩
  | @hashInsert u b k level id hu hw hr hh hk hf =>
    refine ⟨Frame.hashInsert hu hw hr, ?_⟩
    rw [insert_of_fresh hf]
    exact hc.of_lock (by simp) (fun _ hc => hc.insertFresh hh hk hf) fun x => by
      by_cases e : x = b <;> simp [e]
  | @hashRemove c' u b hu hw hr hb h =>
    refine ⟨Frame.hashRemove hu hw hr h, ?_⟩
    obtain ⟨p, hcp, hph⟩ := hc
    refine ⟨p.erase b, hcp.hashRemove hb h, fun x hx => ?_⟩
    obtain ⟨-, rfl⟩ := mcaHashRemove_eq_ok h
    exact hph.of_lock (by simp) (fun x _ => by by_cases e : x = b <;> simp [e]) x
      (List.mem_of_mem_erase hx)
  | scanSection hu hs ho h => exact ⟨(Frame.scanStep hu ho h).1, (hs.scanStep h).windowInv hu⟩
  | recalcReserve roots =>
    exact ⟨Frame.of_same rfl fun _ => ⟨rfl, rfl, rfl⟩,
      hc.of_lock le_rfl (fun _ hc => hc.setReserve _) fun _ => rfl⟩

/-- A call `g₀` of `bch_btree_node_get` interleaved with the node cache's operations run by
the other tasks. -/
inductive CodeReach (c₀ : CacheSet) (g₀ : Getter) : CacheSet → Getter → Prop
  | start : CodeReach c₀ g₀ c₀ g₀
  | other {c c' : CacheSet} {g : Getter} : CodeReach c₀ g₀ c g → OtherStep g₀.t c c' →
      CodeReach c₀ g₀ c' g
  | step {c c' : CacheSet} {g g' : Getter} (ch : GetChoice) :
      CodeReach c₀ g₀ c g → c.getStep g ch = some (c', g') → CodeReach c₀ g₀ c' g'

/-- Every such interleaving is one that `node_get_returns_locked_node` covers. -/
theorem CodeReach.getReach {c₀ c : CacheSet} {g₀ g : Getter} (hc : CacheInv c₀ []) (hk : g₀.k ≠ 0)
    (hpc : g₀.pc = .retry) (hp : g₀.parent = g₀.parent₀) (hr : CodeReach c₀ g₀ c g) :
    GetReach c₀ g₀ c g := by
  induction hr with
  | start => exact .start
  | other _ ho ih => exact ih.env (ho.rely (ih.getInv hc hk hpc hp).inv)
  | step ch _ hs ih => exact ih.step ch hs

/-- A scan by `u` runs as a sequence of sections, each of them an `OtherStep`. -/
theorem CodeReach.scanRun {c₀ : CacheSet} {g₀ g : Getter} {u : Nat} {sc : ShrinkControl}
    (hu : u ≠ g₀.t) : ∀ (fuel : Nat) {c c' : CacheSet} {pc pc' : ScanPc}, CodeReach c₀ g₀ c g →
      ScanInv c u pc → ScanOwn g₀.t c pc → scanRun u sc fuel c pc = .ok (c', pc') →
      CodeReach c₀ g₀ c' g
  | 0, _, _, _, _, hr, _, _, h => by cases h; exact hr
  | fuel + 1, _, _, _, _, hr, hi, ho, h => by
    unfold CacheSet.scanRun at h
    split at h
    · cases h; exact hr
    · obtain ⟨⟨c1, pc1⟩, hs, h⟩ := bind_eq_ok h
      exact CodeReach.scanRun hu fuel (hr.other (.scanSection hu hi ho hs)) (hi.scanStep hs)
        (Frame.scanStep hu ho hs).2 h

/-- So a whole `bch_mca_scan` by `u`, from a state satisfying the invariant, is a run of
other steps: the interleavings `CodeReach` covers include those where scans run whole. -/
theorem CodeReach.bchMcaScan {c₀ c c' : CacheSet} {g₀ g : Getter} {u r : Nat} {sc : ShrinkControl}
    (hr : CodeReach c₀ g₀ c g) (hc : CacheInv c []) (hu : u ≠ g₀.t)
    (h : c.bchMcaScan u sc = .ok (c', r)) : CodeReach c₀ g₀ c' g := by
  obtain ⟨⟨c1, pc⟩, hrun, h⟩ := bind_eq_ok h
  have hr1 := CodeReach.scanRun hu _ hr (show ScanInv c u .start from hc) trivial hrun
  dsimp only at h
  split at h <;> cases h <;> exact hr1

end Other

end CacheSet

end Libbcache
