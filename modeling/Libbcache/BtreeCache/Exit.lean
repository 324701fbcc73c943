import Libbcache.BtreeCache.Reachable
import Mathlib.Data.List.Perm.Subperm

/-!
# Tearing the node cache down

`bch_fs_btree_exit` puts the btree roots back on `btree_cache`, splices
`btree_cache_freeable` onto it, frees the data of every container on it with
`mca_data_free` (each one ends on `btree_cache_freed`), and then kfrees every container on
`btree_cache_freed`.

From a reachable state in which every container is on a list or is a root and no write is
in flight, it kfrees every container exactly once, frees every data page, and brings
`btree_cache_used` down to zero (`bchFsBtreeExit_frees_each_once`). A write still in
flight on any container it frees trips the `EBUG_ON` of `__mca_data_free`
(`bchFsBtreeExit_write_in_flight`).
-/

namespace Libbcache

namespace CacheSet

/-- The containers on `btree_cache`, `btree_cache_freeable` and `btree_cache_freed`, in
that order. -/
def allLists (c : CacheSet) : List Nat :=
  c.lists .btreeCache ++ c.lists .freeable ++ c.lists .freed

/-- The btree roots that are set. -/
def rootList (roots : List (Option Nat)) : List Nat := roots.filterMap id

/-- `list_add(&c->btree_roots[i].b->list, &c->btree_cache)` for each root that is set,
in the order of `btree_roots`. -/
def addRoots : List (Option Nat) → CacheSet → CacheSet
  | [], c => c
  | none :: rs, c => addRoots rs c
  | some b :: rs, c => addRoots rs (c.listAdd .btreeCache b)

/-- `list_splice(&c->btree_cache_freeable, &c->btree_cache)`. The source leaves the head
of `btree_cache_freeable` pointing at the spliced containers and never reads it again;
the model empties it. -/
def spliceFreeableToCache (c : CacheSet) : CacheSet :=
  { c with lists := (Function.update (Function.update c.lists .freeable []) .btreeCache
      (c.lists .freeable ++ c.lists .btreeCache)) }

/-- One round of the first loop of `bch_fs_btree_exit`, on the first container `b` of
`btree_cache`: `bch_btree_complete_write` (whose waiters are not modelled) and
`clear_btree_node_dirty`, then `mca_data_free`. -/
def exitFree (c : CacheSet) (b : Nat) : Except Stop CacheSet :=
  (c.setNode b fun n => { n with flags := { n.flags with dirty := false } }).mcaDataFree b

/-- `while (!list_empty(&c->btree_cache))`, freeing the first entry each round, for at
most `fuel` rounds. -/
def drainCache : Nat → CacheSet → Except Stop CacheSet
  | 0, c => .ok c
  | fuel + 1, c =>
    match c.lists .btreeCache with
    | [] => .ok c
    | b :: _ => do drainCache fuel (← c.exitFree b)

/-- `while (!list_empty(&c->btree_cache_freed))`: `list_del` and `kfree` of the first
entry, for at most `fuel` rounds. The second component lists the containers kfreed. -/
def drainFreed : Nat → CacheSet → CacheSet × List Nat
  | 0, c => (c, [])
  | fuel + 1, c =>
    match c.lists .freed with
    | [] => (c, [])
    | b :: _ =>
      let r := drainFreed fuel (c.listDel b)
      (r.1, b :: r.2)

/-- `bch_fs_btree_exit`, with `roots` the containers of `btree_roots` (`none` where a root
is not set). Each loop is given as many rounds as its list has entries when it starts,
which is all it takes (`drainCache_spec`, `drainFreed_eq`). Returns the cache set after
`rhashtable_destroy` and the containers kfreed, in order. Unregistering the shrinker and
the `CONFIG_BCACHE_DEBUG` part are not modelled. -/
def bchFsBtreeExit (c : CacheSet) (roots : List (Option Nat)) :
    Except Stop (CacheSet × List Nat) := do
  let c := (addRoots roots c).spliceFreeableToCache
  let c ← drainCache (c.lists .btreeCache).length c
  let r := drainFreed (c.lists .freed).length c
  return (r.1.setTable [], r.2)

/-- At shutdown, between operations: the roots that are set are distinct containers with
data on no list, and every container is on a list or is a root. -/
structure Quiescent (c : CacheSet) (roots : List (Option Nat)) : Prop where
  rootsNodup : (rootList roots).Nodup
  rootsOff : ∀ b ∈ rootList roots, b ∉ c.allLists
  rootsLive : ∀ b ∈ rootList roots, b < c.nr ∧ (c.nodes b).data = true
  covered : ∀ b < c.nr, b ∈ c.allLists ∨ b ∈ rootList roots

instance (c : CacheSet) (roots : List (Option Nat)) : Decidable (c.Quiescent roots) :=
  decidable_of_iff (_ ∧ _ ∧ _ ∧ _)
    ⟨fun ⟨a, b, d, e⟩ => ⟨a, b, d, e⟩, fun ⟨a, b, d, e⟩ => ⟨a, b, d, e⟩⟩

/-! ## Putting the roots back and splicing -/

theorem addRoots_eq (roots : List (Option Nat)) (c : CacheSet) :
    addRoots roots c = c.setCacheList ((rootList roots).reverse ++ c.lists .btreeCache) := by
  induction roots generalizing c with
  | nil => simp [addRoots, rootList, setCacheList]
  | cons r rs ih =>
    cases r with
    | none => simpa [addRoots, rootList] using ih c
    | some b =>
      rw [addRoots, ih]
      simp [rootList, setCacheList, listAdd]

/-- After the first two steps of `bch_fs_btree_exit`, `btree_cache` holds the containers
of `btree_cache_freeable`, then the roots in reverse, then its own. -/
theorem splice_cache (c : CacheSet) (roots : List (Option Nat)) :
    (addRoots roots c).spliceFreeableToCache.lists .btreeCache =
      c.lists .freeable ++ ((rootList roots).reverse ++ c.lists .btreeCache) := by
  simp [spliceFreeableToCache, addRoots_eq]

theorem splice_freeable (c : CacheSet) (roots : List (Option Nat)) :
    (addRoots roots c).spliceFreeableToCache.lists .freeable = [] := by
  simp [spliceFreeableToCache]

theorem splice_freed (c : CacheSet) (roots : List (Option Nat)) :
    (addRoots roots c).spliceFreeableToCache.lists .freed = c.lists .freed := by
  simp [spliceFreeableToCache, addRoots_eq]

@[simp] theorem splice_nodes (c : CacheSet) (roots : List (Option Nat)) :
    (addRoots roots c).spliceFreeableToCache.nodes = c.nodes := by
  simp [spliceFreeableToCache, addRoots_eq]

@[simp] theorem splice_used (c : CacheSet) (roots : List (Option Nat)) :
    (addRoots roots c).spliceFreeableToCache.btreeCacheUsed = c.btreeCacheUsed := by
  simp [spliceFreeableToCache, addRoots_eq]

/-! ## The first loop -/

theorem exitFree_of_idle {c : CacheSet} {b : Nat} (hw : (c.nodes b).flags.writeInFlight = false) :
    c.exitFree b = .ok (((c.setNode b fun n =>
      { n with flags := { n.flags with dirty := false }, data := false }).setUsed
        (c.btreeCacheUsed - 1)).listMove .freed b) := by
  simp [exitFree, mcaDataFree, hw]

theorem exitFree_of_busy {c : CacheSet} {b : Nat} (hw : (c.nodes b).flags.writeInFlight = true) :
    c.exitFree b = .error .writeInFlight := by
  simp [exitFree, mcaDataFree, hw]

/-- A write in flight on any container of `btree_cache` stops the first loop, whatever
the order of the list. -/
theorem drainCache_error : ∀ (l : List Nat) (c : CacheSet), c.lists .btreeCache = l →
    ∀ b ∈ l, (c.nodes b).flags.writeInFlight = true → drainCache l.length c = .error .writeInFlight
  | [], _, _, _, hb, _ => nomatch hb
  | a :: l, c, hl, b, hb, hw => by
    simp only [drainCache, hl, List.length_cons]
    cases ha : (c.nodes a).flags.writeInFlight
    · have hba : b ≠ a := fun e => by rw [e, ha] at hw; cases hw
      rw [exitFree_of_idle ha]
      exact drainCache_error l _ (by simp [hl]) b ((List.mem_cons.mp hb).resolve_left hba)
        (by simpa [hba] using hw)
    · rw [exitFree_of_busy ha]; rfl

/-- What the first loop leaves behind, having freed the containers `l` of `btree_cache`. -/
structure Cleared (c : CacheSet) (l : List Nat) (c' : CacheSet) : Prop where
  cache : c'.lists .btreeCache = []
  freeable : c'.lists .freeable = c.lists .freeable
  freed : c'.lists .freed = l.reverse ++ c.lists .freed
  nr : c'.nr = c.nr
  table : c'.table = c.table
  used : c'.btreeCacheUsed = c.btreeCacheUsed - l.length
  dataFreed : ∀ b ∈ l, (c'.nodes b).data = false
  others : ∀ b, b ∉ l → c'.nodes b = c.nodes b

/-- A round of the first loop on a container `a` that is on no other list, followed by
the rest of the loop. -/
theorem Cleared.cons {c c' : CacheSet} {a : Nat} {l : List Nat} (haf : a ∉ c.lists .freeable)
    (had : a ∉ c.lists .freed) (hal : a ∉ l)
    (h : Cleared (((c.setNode a fun n =>
      { n with flags := { n.flags with dirty := false }, data := false }).setUsed
        (c.btreeCacheUsed - 1)).listMove .freed a) l c') : Cleared c (a :: l) c' where
  cache := h.cache
  freeable := by rw [h.freeable]; simp [List.erase_of_not_mem haf]
  freed := by rw [h.freed]; simp [List.erase_of_not_mem had]
  nr := h.nr
  table := h.table
  used := by rw [h.used]; simp; omega
  dataFreed b hb := by
    rcases List.mem_cons.mp hb with rfl | hb
    · rw [h.others b hal]; simp
    · exact h.dataFreed b hb
  others b hb := by
    rw [List.mem_cons, not_or] at hb
    rw [h.others b hb.2]; simp [hb.1]

/-- With no write in flight and the lists disjoint, the first loop frees the data of every
container of `btree_cache`, in list order, each onto `btree_cache_freed`. -/
theorem drainCache_spec : ∀ (l : List Nat) (c : CacheSet), c.lists .btreeCache = l →
    c.allLists.Nodup → (∀ b ∈ l, (c.nodes b).flags.writeInFlight = false) →
    ∃ c', drainCache l.length c = .ok c' ∧ Cleared c l c'
  | [], c, hl, _, _ =>
    ⟨c, by simp [drainCache], hl, rfl, rfl, rfl, rfl, rfl, nofun, fun _ _ => rfl⟩
  | a :: l, c, hl, hn, hw => by
    rw [allLists, hl, List.cons_append, List.cons_append, List.nodup_cons] at hn
    obtain ⟨ha, hn⟩ := hn
    simp only [List.mem_append, not_or] at ha
    obtain ⟨⟨hal, haf⟩, had⟩ := ha
    set c₁ := ((c.setNode a fun n =>
      { n with flags := { n.flags with dirty := false }, data := false }).setUsed
        (c.btreeCacheUsed - 1)).listMove .freed a
    have hc₁ : c₁.lists .btreeCache = l ∧ c₁.lists .freeable = c.lists .freeable ∧
        c₁.lists .freed = a :: c.lists .freed := by
      simp [c₁, hl, List.erase_of_not_mem haf, List.erase_of_not_mem had]
    obtain ⟨c', hd, hcl⟩ := drainCache_spec l c₁ hc₁.1
      (by
        rw [allLists, hc₁.1, hc₁.2.1, hc₁.2.2]
        exact (List.perm_middle.trans (List.Perm.cons a (by rw [List.append_assoc]))).nodup_iff.mpr
          (List.nodup_cons.mpr ⟨by simp [hal, haf, had], by rwa [List.append_assoc] at hn⟩))
      (fun b hb => by
        have hba : b ≠ a := fun e => hal (e ▸ hb)
        rw [show c₁.nodes b = c.nodes b by simp [c₁, hba]]
        exact hw b (List.mem_cons_of_mem a hb))
    exact ⟨c', by simpa [drainCache, hl, exitFree_of_idle (hw a (List.mem_cons_self a l))] using hd,
      hcl.cons haf had hal⟩

/-! ## The second loop -/

/-- With the other two lists empty, the second loop kfrees the containers of
`btree_cache_freed` in list order and leaves every list empty. -/
theorem drainFreed_eq : ∀ (l : List Nat) (c : CacheSet), c.lists .btreeCache = [] →
    c.lists .freeable = [] → c.lists .freed = l →
    drainFreed l.length c = ({ c with lists := fun _ => [] }, l)
  | [], c, h₁, h₂, h₃ => by
    have : c.lists = fun _ => [] := funext fun h => by cases h <;> assumption
    simp only [drainFreed, List.length_nil, Prod.mk.injEq, and_true]
    rw [← this]
  | b :: l, c, h₁, h₂, h₃ => by
    simp only [drainFreed, h₃, List.length_cons]
    rw [drainFreed_eq l (c.listDel b) (by simp [h₁]) (by simp [h₂]) (by simp [h₃])]
    rfl

/-! ## The whole teardown -/

theorem CacheInv.allLists_nodup {c : CacheSet} {p : List Nat} (hc : CacheInv c p) :
    c.allLists.Nodup := by
  have hd : ∀ h h', h ≠ h' → (c.lists h).Disjoint (c.lists h') :=
    fun h h' hne b hb hb' => hne (hc.oneList b h h' hb hb')
  rw [allLists, List.nodup_append, List.nodup_append]
  exact ⟨⟨hc.nodup _, hc.nodup _, hd _ _ nofun⟩, hc.nodup _,
    List.disjoint_append_left.mpr ⟨hd _ _ nofun, hd _ _ nofun⟩⟩

/-! ## The state after the splice -/

section Splice

variable {c : CacheSet} {roots : List (Option Nat)}

theorem mem_splice_cache {b : Nat} :
    b ∈ (addRoots roots c).spliceFreeableToCache.lists .btreeCache ↔
      b ∈ c.lists .freeable ∨ b ∈ rootList roots ∨ b ∈ c.lists .btreeCache := by
  simp [splice_cache]

/-- At shutdown, once the roots are back and `btree_cache_freeable` is spliced on,
`btree_cache` and `btree_cache_freed` hold every container. -/
theorem Quiescent.mem_splice_iff (hc : CacheInv c []) (hq : c.Quiescent roots) (b : Nat) :
    b ∈ (addRoots roots c).spliceFreeableToCache.lists .btreeCache ++ c.lists .freed ↔
      b < c.nr := by
  rw [List.mem_append, mem_splice_cache]
  constructor
  · rintro ((hb | hb | hb) | hb)
    · exact hc.listed _ b hb
    · exact (hq.rootsLive b hb).1
    · exact hc.listed _ b hb
    · exact hc.listed _ b hb
  · intro hb
    rcases hq.covered b hb with hb | hb
    · simp only [allLists, List.mem_append] at hb
      rcases hb with (hb | hb) | hb
      · exact .inl (.inr (.inr hb))
      · exact .inl (.inl hb)
      · exact .inr hb
    · exact .inl (.inr (.inl hb))

/-- They hold each container once. -/
theorem Quiescent.splice_nodup (hc : CacheInv c []) (hq : c.Quiescent roots) :
    ((addRoots roots c).spliceFreeableToCache.lists .btreeCache ++ c.lists .freed).Nodup := by
  have hr : ((addRoots roots c).spliceFreeableToCache.lists .btreeCache ++ c.lists .freed).Perm
      ((rootList roots).reverse ++ c.allLists) :=
    List.perm_iff_count.mpr fun x => by simp [splice_cache, allLists, List.count_append]; omega
  exact hr.nodup_iff.mpr (List.nodup_append.mpr ⟨List.nodup_reverse.mpr hq.rootsNodup,
    hc.allLists_nodup, fun b hb hb' => hq.rootsOff b (List.mem_reverse.mp hb) hb'⟩)

/-- Then `btree_cache` holds exactly the containers with data. -/
theorem Quiescent.data_iff (hc : CacheInv c []) (hq : c.Quiescent roots) {b : Nat}
    (hb : b < c.nr) :
    (c.nodes b).data = true ↔ b ∈ (addRoots roots c).spliceFreeableToCache.lists .btreeCache := by
  constructor
  · intro hdb
    rcases List.mem_append.mp ((hq.mem_splice_iff hc b).mpr hb) with hL | hF
    · exact hL
    · rw [(hc.freed b hF).1] at hdb; cases hdb
  · intro hbL
    rcases mem_splice_cache.mp hbL with hb' | hb' | hb'
    · exact (hc.freeable b hb').1
    · exact (hq.rootsLive b hb').2
    · exact hc.cacheData b hb'

/-- So `btree_cache_used` counts the containers the first loop of the teardown frees. -/
theorem Quiescent.used_eq (hc : CacheInv c []) (hq : c.Quiescent roots) :
    c.btreeCacheUsed = ((addRoots roots c).spliceFreeableToCache.lists .btreeCache).length := by
  have hp : ((List.range c.nr).filter fun b => (c.nodes b).data).Perm
      ((addRoots roots c).spliceFreeableToCache.lists .btreeCache) :=
    (List.perm_ext_iff_of_nodup ((List.nodup_range c.nr).filter _)
      (List.nodup_append.mp (hq.splice_nodup hc)).1).mpr fun b => by
      rw [List.mem_filter, List.mem_range]
      constructor
      · rintro ⟨hb, hdb⟩
        exact (hq.data_iff hc hb).mp hdb
      · intro hbL
        have hb := (hq.mem_splice_iff hc b).mp (List.mem_append_left _ hbL)
        exact ⟨hb, (hq.data_iff hc hb).mpr hbL⟩
  rw [hc.used, dataCount, List.countP_eq_length_filter, hp.length_eq]

end Splice

/-- From a reachable state at shutdown with no write in flight, `bch_fs_btree_exit`
returns normally, kfrees every container exactly once (the list of containers kfreed is
a permutation of all of them: none is leaked and none is freed twice), leaves every list
and the hash table empty, and frees every data page. `btree_cache_used`, which counted
the containers not on `btree_cache_freed`, one for each data page freed, ends at zero. -/
theorem bchFsBtreeExit_frees_each_once {c : CacheSet} (h : Reachable c) {roots : List (Option Nat)}
    (hq : c.Quiescent roots) (hw : ∀ b < c.nr, (c.nodes b).flags.writeInFlight = false) :
    ∃ c' freed, c.bchFsBtreeExit roots = .ok (c', freed) ∧ freed.Perm (List.range c.nr) ∧
      (∀ l, c'.lists l = []) ∧ c'.table = [] ∧ (∀ b < c.nr, (c'.nodes b).data = false) ∧
      c'.btreeCacheUsed = 0 ∧ c.btreeCacheUsed + (c.lists .freed).length = c.nr := by
  have hc := h.cacheInv
  set s := (addRoots roots c).spliceFreeableToCache
  set L := s.lists .btreeCache
  have hsn : s.nodes = c.nodes := splice_nodes c roots
  obtain ⟨c₁, hd₁, hcl⟩ := drainCache_spec L s rfl
    (by rw [allLists, splice_freeable, splice_freed, List.append_nil]; exact hq.splice_nodup hc)
    (fun b hb => by
      rw [hsn]; exact hw b ((hq.mem_splice_iff hc b).mp (List.mem_append_left _ hb)))
  have hfr := drainFreed_eq (L.reverse ++ c.lists .freed) c₁ hcl.cache
    (by rw [hcl.freeable, splice_freeable]) (by rw [hcl.freed, splice_freed])
  have hfl : (c₁.lists .freed).length = (L.reverse ++ c.lists .freed).length := by
    rw [hcl.freed, splice_freed]
  have hperm : (L.reverse ++ c.lists .freed).Perm (List.range c.nr) :=
    (List.perm_ext_iff_of_nodup (((List.reverse_perm L).append_right _).nodup_iff.mpr
      (hq.splice_nodup hc)) (List.nodup_range c.nr)).mpr
      fun b => by rw [List.mem_range, ← hq.mem_splice_iff hc]; simp
  refine ⟨({ c₁ with lists := fun _ => [] }).setTable [], L.reverse ++ c.lists .freed, ?_, hperm,
    fun _ => rfl, rfl, ?_, ?_, ?_⟩
  · simp only [bchFsBtreeExit]
    rw [hd₁]
    show Except.ok ((drainFreed (c₁.lists .freed).length c₁).1.setTable [],
      (drainFreed (c₁.lists .freed).length c₁).2) = _
    rw [hfl, hfr]
  · intro b hb
    show (c₁.nodes b).data = false
    by_cases hbL : b ∈ L
    · exact hcl.dataFreed b hbL
    · rw [hcl.others b hbL, hsn]
      exact Bool.eq_false_iff.mpr fun hdb => hbL ((hq.data_iff hc hb).mp hdb)
  · show c₁.btreeCacheUsed = 0
    rw [hcl.used, splice_used, hq.used_eq hc, Nat.sub_self]
  · have := hperm.length_eq
    rw [List.length_append, List.length_reverse, List.length_range] at this
    rw [hq.used_eq hc, this]

/-- The node cache of `initState` after one `mca_alloc` by task `1`, which hands out
container `15`; the witnesses keep it as the only btree root. -/
def rootedState : CacheSet := (runOps [.alloc 1 ⟨true, true⟩] initState).getD initState

theorem reachable_rootedState : Reachable rootedState :=
  @Reachable.runOps initState rootedState reachable_initState [.alloc 1 ⟨true, true⟩] rfl

theorem bchFsBtreeExit_frees_each_once_rootedState :
    rootedState.Quiescent [some 15] ∧
      (∀ b < rootedState.nr, (rootedState.nodes b).flags.writeInFlight = false) ∧
      ∃ c' freed, rootedState.bchFsBtreeExit [some 15] = .ok (c', freed) ∧
        freed.Perm (List.range rootedState.nr) ∧ (∀ l, c'.lists l = []) ∧ c'.table = [] ∧
        (∀ b < rootedState.nr, (c'.nodes b).data = false) ∧ c'.btreeCacheUsed = 0 ∧
        rootedState.btreeCacheUsed + (rootedState.lists .freed).length = rootedState.nr :=
  have hq : rootedState.Quiescent [some 15] := by decide
  have hw : ∀ b < rootedState.nr, (rootedState.nodes b).flags.writeInFlight = false := by decide
  ⟨hq, hw, bchFsBtreeExit_frees_each_once reachable_rootedState hq hw⟩

/-- `bch_fs_btree_exit` hits the `EBUG_ON` of `__mca_data_free` whenever a container on
`btree_cache` or `btree_cache_freeable`, or a root, still has a write in flight. -/
theorem bchFsBtreeExit_write_in_flight (c : CacheSet) (roots : List (Option Nat)) {b : Nat}
    (hb : b ∈ c.lists .btreeCache ∨ b ∈ c.lists .freeable ∨ b ∈ rootList roots)
    (hw : (c.nodes b).flags.writeInFlight = true) :
    c.bchFsBtreeExit roots = .error .writeInFlight := by
  simp only [bchFsBtreeExit]
  rw [drainCache_error _ _ rfl b (by rw [splice_cache]; rcases hb with hb | hb | hb <;> simp [hb])
    (by rw [splice_nodes]; exact hw)]
  rfl

/-- `initState` with a write in flight on container `0`, as a `touch` step leaves it. -/
def writingState : CacheSet :=
  initState.setNode 0 fun n => { n with flags := { n.flags with writeInFlight := true } }

theorem bchFsBtreeExit_write_in_flight_writingState :
    (0 ∈ writingState.lists .btreeCache ∨ 0 ∈ writingState.lists .freeable ∨ 0 ∈ rootList []) ∧
      (writingState.nodes 0).flags.writeInFlight = true ∧
      writingState.bchFsBtreeExit [] = .error .writeInFlight :=
  have hb : 0 ∈ writingState.lists .btreeCache ∨ 0 ∈ writingState.lists .freeable ∨
      0 ∈ rootList [] := by decide
  have hw : (writingState.nodes 0).flags.writeInFlight = true := by decide
  ⟨hb, hw, bchFsBtreeExit_write_in_flight _ [] hb hw⟩

end CacheSet

end Libbcache
