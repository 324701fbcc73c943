import Libbcache.BtreeCache.Scan
import Mathlib.Data.List.Perm.Basic

/-!
# The node-cache invariant

`CacheInv` is what holds of the node cache between operations: which list a container
may be on, what being on it says about its data and its pointer hash, that the hash
table holds exactly the containers with a non-zero pointer hash, each under that hash
and alone with it, and that `btree_cache_used` counts the containers with data.

A scan frees an evicted node's data under `btree_cache_lock` but unhashes it only after
dropping the lock. Between the two the node is on `btree_cache_freed` and still
hashed; `CacheInv c pending` allows that for the containers in `pending`.

This file gives the invariant and its frame lemmas: what each primitive of `Hash` does
to it. The operations are assembled from these in `Preserve`.
-/

namespace Libbcache

/-- Changing a predicate at one element `b` of a duplicate-free list changes its count
only by the change at `b`. -/
theorem countP_congr_off {l : List Nat} {p q : Nat → Bool} {b : Nat} (hl : l.Nodup)
    (hb : b ∈ l) (h : ∀ x ∈ l, x ≠ b → p x = q x) :
    l.countP p + (if q b then 1 else 0) = l.countP q + (if p b then 1 else 0) := by
  induction l with
  | nil => cases hb
  | cons a l ih =>
    rw [List.nodup_cons] at hl
    simp only [List.countP_cons]
    by_cases hab : a = b
    · subst hab
      have hl' : l.countP p = l.countP q := List.countP_congr fun x hx => by
        rw [h x (List.mem_cons_of_mem _ hx) (fun e => hl.1 (e ▸ hx))]
      rw [hl']
      split_ifs <;> omega
    · have hb' : b ∈ l := (List.mem_cons.mp hb).resolve_left (Ne.symm hab)
      have ih' := ih hl.2 hb' (fun x hx => h x (List.mem_cons_of_mem _ hx))
      rw [h a (List.mem_cons_self _ _) hab]
      split_ifs at ih' ⊢ <;> omega

namespace CacheSet

/-- The invariant of the node cache between operations; the containers in `pending`
have had their data freed by a scan that has not unhashed them yet. -/
structure CacheInv (c : CacheSet) (pending : List Nat) : Prop where
  nodup : ∀ h, (c.lists h).Nodup
  oneList : ∀ b h h', b ∈ c.lists h → b ∈ c.lists h' → h = h'
  listed : ∀ h b, b ∈ c.lists h → b < c.nr
  cacheData : ∀ b ∈ c.lists .btreeCache, (c.nodes b).data = true
  freeable : ∀ b ∈ c.lists .freeable, (c.nodes b).data = true ∧ (c.nodes b).key = 0 ∧ ¬ c.Hashed b
  freed : ∀ b ∈ c.lists .freed, (c.nodes b).data = false ∧ (b ∉ pending → ¬ c.Hashed b)
  hashed : ∀ b < c.nr, c.Hashed b ↔ (c.nodes b).key ≠ 0
  tableKey : ∀ e ∈ c.table, e.1 = (c.nodes e.2).key ∧ e.2 < c.nr
  tableNodup : (c.table.map Prod.fst).Nodup
  used : c.btreeCacheUsed = c.dataCount

/-! ## Counting containers with data -/

theorem dataCount_congr {c c' : CacheSet} (hnr : c'.nr = c.nr)
    (h : ∀ b < c.nr, (c'.nodes b).data = (c.nodes b).data) : c'.dataCount = c.dataCount := by
  unfold dataCount
  rw [hnr]
  exact List.countP_congr fun b hb => by rw [h b (List.mem_range.mp hb)]

theorem dataCount_setNode (c : CacheSet) {b : Nat} (hb : b < c.nr) (f : Btree → Btree) :
    (c.setNode b f).dataCount + (if (c.nodes b).data then 1 else 0) =
      c.dataCount + (if (f (c.nodes b)).data then 1 else 0) := by
  have := countP_congr_off (List.nodup_range c.nr) (List.mem_range.mpr hb)
    (p := fun x => ((c.setNode b f).nodes x).data) (q := fun x => (c.nodes x).data)
    (fun x _ hx => by simp [hx])
  simpa [dataCount] using this

/-- Changing a node without touching its data keeps the data count. -/
theorem dataCount_setNode_of_data (c : CacheSet) {b : Nat} (hb : b < c.nr) {f : Btree → Btree}
    (hf : (f (c.nodes b)).data = (c.nodes b).data) : (c.setNode b f).dataCount = c.dataCount := by
  have := dataCount_setNode c hb f
  rw [hf] at this
  omega

@[simp] theorem dataCount_setUsed (c : CacheSet) (n : Nat) : (c.setUsed n).dataCount = c.dataCount := rfl
@[simp] theorem dataCount_listMove (c : CacheSet) (h : ListHead) (b : Nat) :
    (c.listMove h b).dataCount = c.dataCount := rfl
@[simp] theorem dataCount_listAdd (c : CacheSet) (h : ListHead) (b : Nat) :
    (c.listAdd h b).dataCount = c.dataCount := rfl
@[simp] theorem dataCount_listDel (c : CacheSet) (b : Nat) : (c.listDel b).dataCount = c.dataCount := rfl
@[simp] theorem dataCount_setTable (c : CacheSet) (t : List (Nat × Nat)) :
    (c.setTable t).dataCount = c.dataCount := rfl

/-! ## Frame lemmas -/

theorem hashed_of_table {c c' : CacheSet} (h : c'.table = c.table) (b : Nat) :
    c'.Hashed b ↔ c.Hashed b := by
  simp only [Hashed, h]

/-- A change that keeps the lists, the table, the counters and every container's key and
data keeps the invariant. -/
theorem CacheInv.frame {c c' : CacheSet} {p : List Nat} (hc : CacheInv c p)
    (hl : c'.lists = c.lists) (ht : c'.table = c.table) (hnr : c'.nr = c.nr)
    (hu : c'.btreeCacheUsed = c.btreeCacheUsed)
    (hk : ∀ b, (c'.nodes b).key = (c.nodes b).key)
    (hd : ∀ b, (c'.nodes b).data = (c.nodes b).data) : CacheInv c' p where
  nodup h := hl ▸ hc.nodup h
  oneList b h h' := hl ▸ hc.oneList b h h'
  listed h b := by rw [hl, hnr]; exact hc.listed h b
  cacheData b hb := by rw [hd]; exact hc.cacheData b (hl ▸ hb)
  freeable b hb := by
    rw [hd, hk, hashed_of_table ht]; exact hc.freeable b (hl ▸ hb)
  freed b hb := by rw [hd, hashed_of_table ht]; exact hc.freed b (hl ▸ hb)
  hashed b hb := by rw [hashed_of_table ht, hk]; exact hc.hashed b (hnr ▸ hb)
  tableKey e he := by rw [hk, hnr]; exact hc.tableKey e (ht ▸ he)
  tableNodup := ht ▸ hc.tableNodup
  used := by rw [hu, hc.used, dataCount_congr hnr fun b _ => hd b]

/-- Changing a container's locks or flags keeps the invariant. -/
theorem CacheInv.setNode {c : CacheSet} {p : List Nat} (hc : CacheInv c p) (b : Nat)
    (f : Btree → Btree) (hk : (f (c.nodes b)).key = (c.nodes b).key)
    (hd : (f (c.nodes b)).data = (c.nodes b).data) : CacheInv (c.setNode b f) p :=
  hc.frame rfl rfl rfl rfl
    (fun x => by by_cases e : x = b <;> simp [e, hk])
    (fun x => by by_cases e : x = b <;> simp [e, hd])

theorem CacheInv.unlockNode {c : CacheSet} {p : List Nat} (hc : CacheInv c p) (b : Nat) :
    CacheInv (c.unlockNode b) p := hc.setNode b _ rfl rfl

theorem CacheInv.reap {c c' : CacheSet} {p : List Nat} {b t : Nat} {flush : Bool}
    (hc : CacheInv c p) (h : c.mcaReapNotrace b flush t = some c') : CacheInv c' p := by
  obtain ⟨⟨l, f, rfl⟩, -⟩ := mcaReapNotrace_eq_some h
  exact hc.setNode b _ rfl rfl

/-- Reordering `btree_cache` keeps the invariant. -/
theorem CacheInv.setCacheList {c : CacheSet} {p : List Nat} (hc : CacheInv c p) {l : List Nat}
    (hl : l.Perm (c.lists .btreeCache)) : CacheInv (c.setCacheList l) p := by
  have hmem : ∀ h b, b ∈ (c.setCacheList l).lists h ↔ b ∈ c.lists h := by
    intro h b; by_cases e : h = .btreeCache
    · subst e; simp [hl.mem_iff]
    · simp [e]
  exact
  { nodup := fun h => by
      by_cases e : h = .btreeCache
      · subst e; simpa [hl.nodup_iff] using hc.nodup .btreeCache
      · simpa [e] using hc.nodup h
    oneList := fun b h h' hb hb' => hc.oneList b h h' ((hmem h b).mp hb) ((hmem h' b).mp hb')
    listed := fun h b hb => hc.listed h b ((hmem h b).mp hb)
    cacheData := fun b hb => hc.cacheData b ((hmem _ b).mp hb)
    freeable := fun b hb => hc.freeable b ((hmem _ b).mp hb)
    freed := fun b hb => hc.freed b ((hmem _ b).mp hb)
    hashed := hc.hashed
    tableKey := hc.tableKey
    tableNodup := hc.tableNodup
    used := hc.used }

/-- Taking a container off its list keeps the invariant. -/
theorem CacheInv.listDel {c : CacheSet} {p : List Nat} (hc : CacheInv c p) (b : Nat) :
    CacheInv (c.listDel b) p where
  nodup h := (hc.nodup h).erase b
  oneList x h h' hx hx' := hc.oneList x h h' (List.mem_of_mem_erase hx) (List.mem_of_mem_erase hx')
  listed h x hx := hc.listed h x (List.mem_of_mem_erase hx)
  cacheData x hx := hc.cacheData x (List.mem_of_mem_erase hx)
  freeable x hx := hc.freeable x (List.mem_of_mem_erase hx)
  freed x hx := hc.freed x (List.mem_of_mem_erase hx)
  hashed := hc.hashed
  tableKey := hc.tableKey
  tableNodup := hc.tableNodup
  used := hc.used

/-! ## Changing one container -/

theorem CacheInv.mem_erase {c : CacheSet} {p : List Nat} (hc : CacheInv c p) (h : ListHead)
    (a b : Nat) : a ∈ (c.lists h).erase b ↔ a ≠ b ∧ a ∈ c.lists h :=
  (hc.nodup h).mem_erase_iff

theorem nodup_listMove_lists {c : CacheSet} (h h' : ListHead) (b : Nat) (hn : (c.lists h').Nodup) :
    ((c.listMove h b).lists h').Nodup := by
  rw [listMove_lists]
  split_ifs with e
  · subst e; exact List.nodup_cons.mpr ⟨by simp [hn.mem_erase_iff], hn.erase b⟩
  · exact hn.erase b

/-- The invariant after a change confined to container `b`: everything about other
containers carries over, and the hypotheses say what holds of `b` afterwards. -/
theorem CacheInv.change {c c' : CacheSet} {p p' : List Nat} {b : Nat} (hc : CacheInv c p)
    (hnr : c'.nr = c.nr) (hb : b < c.nr)
    (hnodes : ∀ x, x ≠ b → c'.nodes x = c.nodes x)
    (hlists : ∀ x h, x ≠ b → (x ∈ c'.lists h ↔ x ∈ c.lists h))
    (hnodup : ∀ h, (c'.lists h).Nodup)
    (htable : ∀ e : Nat × Nat, e.2 ≠ b → (e ∈ c'.table ↔ e ∈ c.table))
    (hp : ∀ x, x ≠ b → (x ∈ p' ↔ x ∈ p))
    (hbList : ∀ h h', b ∈ c'.lists h → b ∈ c'.lists h' → h = h')
    (hbCache : b ∈ c'.lists .btreeCache → (c'.nodes b).data = true)
    (hbFreeable : b ∈ c'.lists .freeable →
      (c'.nodes b).data = true ∧ (c'.nodes b).key = 0 ∧ ¬ c'.Hashed b)
    (hbFreed : b ∈ c'.lists .freed → (c'.nodes b).data = false ∧ (b ∉ p' → ¬ c'.Hashed b))
    (hbHashed : c'.Hashed b ↔ (c'.nodes b).key ≠ 0)
    (hbTable : ∀ e ∈ c'.table, e.2 = b → e.1 = (c'.nodes b).key)
    (htNodup : (c'.table.map Prod.fst).Nodup)
    (hused : c'.btreeCacheUsed = c'.dataCount) : CacheInv c' p' := by
  have hhashed : ∀ x, x ≠ b → (c'.Hashed x ↔ c.Hashed x) := by
    intro x hx
    simp only [Hashed]
    constructor
    · rintro ⟨e, he, rfl⟩; exact ⟨e, (htable e hx).mp he, rfl⟩
    · rintro ⟨e, he, rfl⟩; exact ⟨e, (htable e hx).mpr he, rfl⟩
  refine ⟨hnodup, ?_, ?_, ?_, ?_, ?_, ?_, ?_, htNodup, hused⟩
  · intro x h h' hx hx'
    by_cases e : x = b
    · subst e; exact hbList h h' hx hx'
    · exact hc.oneList x h h' ((hlists x h e).mp hx) ((hlists x h' e).mp hx')
  · intro h x hx
    rw [hnr]
    by_cases e : x = b
    · exact e ▸ hb
    · exact hc.listed h x ((hlists x h e).mp hx)
  · intro x hx
    by_cases e : x = b
    · subst e; exact hbCache hx
    · rw [hnodes x e]; exact hc.cacheData x ((hlists x _ e).mp hx)
  · intro x hx
    by_cases e : x = b
    · subst e; exact hbFreeable hx
    · rw [hnodes x e, hhashed x e]; exact hc.freeable x ((hlists x _ e).mp hx)
  · intro x hx
    by_cases e : x = b
    · subst e; exact hbFreed hx
    · rw [hnodes x e, hhashed x e, hp x e]; exact hc.freed x ((hlists x _ e).mp hx)
  · intro x hx
    by_cases e : x = b
    · subst e; exact hbHashed
    · rw [hnodes x e, hhashed x e]; exact hc.hashed x (hnr ▸ hx)
  · intro e he
    by_cases eb : e.2 = b
    · rw [eb, hnr]; exact ⟨hbTable e he eb, hb⟩
    · rw [hnodes _ eb, hnr]; exact hc.tableKey e ((htable e eb).mp he)

/-- A pending container that is no longer hashed need not be pending. -/
theorem CacheInv.unpend {c : CacheSet} {p : List Nat} {b : Nat} (hc : CacheInv c (b :: p))
    (hb : ¬ c.Hashed b) : CacheInv c p :=
  { hc with
    freed := fun x hx => ⟨(hc.freed x hx).1, fun hxp => by
      by_cases e : x = b
      · exact e ▸ hb
      · exact (hc.freed x hx).2 (by simp [e, hxp])⟩ }

/-! ## Data pages -/

/-- Membership after `list_move` of `b` onto `h`, for any state with `c`'s lists. -/
theorem CacheInv.mem_listMove {c c' : CacheSet} {p : List Nat} (hc : CacheInv c p)
    {h h' : ListHead} {b x : Nat} (hl : c'.lists = c.lists) :
    x ∈ (c'.listMove h b).lists h' ↔ (x = b ∧ h' = h) ∨ (x ≠ b ∧ x ∈ c.lists h') := by
  rw [listMove_lists, hl]
  by_cases e : h' = h
  · subst e; simp only [if_true, List.mem_cons, hc.mem_erase]; tauto
  · simp only [e, if_false, hc.mem_erase]; tauto

theorem CacheInv.nodup_listMove {c c' : CacheSet} {p : List Nat} (hc : CacheInv c p)
    (h h' : ListHead) (b : Nat) (hl : c'.lists = c.lists) : ((c'.listMove h b).lists h').Nodup :=
  nodup_listMove_lists h h' b (hl ▸ hc.nodup h')

/-- After `list_move` of `b` onto `h`, `b` is on `h` alone. -/
theorem CacheInv.listMove_only {c c' : CacheSet} {p : List Nat} (hc : CacheInv c p)
    {h h' : ListHead} {b : Nat} (hb : b ∈ (c'.listMove h b).lists h') (hl : c'.lists = c.lists) :
    h' = h := by
  rw [hc.mem_listMove hl] at hb
  simpa using hb

/-- Membership of containers other than `b` is unchanged by `list_move` of `b`. -/
theorem CacheInv.mem_listMove_ne {c c' : CacheSet} {p : List Nat} (hc : CacheInv c p)
    {h h' : ListHead} {b x : Nat} (hx : x ≠ b) (hl : c'.lists = c.lists) :
    x ∈ (c'.listMove h b).lists h' ↔ x ∈ c.lists h' := by
  rw [hc.mem_listMove hl]; simp [hx]

theorem mcaDataFree_eq_ok {c c' : CacheSet} {b : Nat} (h : c.mcaDataFree b = .ok c') :
    (c.nodes b).flags.writeInFlight = false ∧
    c' = ((c.setNode b fun n => { n with data := false }).setUsed
      (c.btreeCacheUsed - 1)).listMove .freed b := by
  unfold mcaDataFree at h
  split at h
  · cases h
  · rename_i hw; cases h; exact ⟨by simpa using hw, rfl⟩

/-- Freeing the data of a container on `btree_cache` or `btree_cache_freeable` moves it
to `btree_cache_freed`, still hashed if it was: it becomes pending. -/
theorem CacheInv.dataFree {c c' : CacheSet} {p : List Nat} {b : Nat} (hc : CacheInv c p)
    {h : ListHead} (hbh : b ∈ c.lists h) (hdata : (c.nodes b).data = true)
    (hf : c.mcaDataFree b = .ok c') : CacheInv c' (b :: p) := by
  obtain ⟨-, rfl⟩ := mcaDataFree_eq_ok hf
  have hb := hc.listed h b hbh
  have hcount := dataCount_setNode c hb fun n => { n with data := false }
  have hused := hc.used
  simp only [hdata, if_true, Bool.false_eq_true, if_false] at hcount
  refine hc.change rfl hb (fun x hx => by simp [hx])
    (fun x h' hx => hc.mem_listMove_ne hx rfl)
    (fun h' => hc.nodup_listMove _ h' b rfl) (fun _ _ => Iff.rfl)
    (fun x hx => by simp [hx])
    (fun _ _ h₁ h₂ => (hc.listMove_only h₁ rfl).trans (hc.listMove_only h₂ rfl).symm)
    (fun hb' => nomatch hc.listMove_only hb' rfl)
    (fun hb' => nomatch hc.listMove_only hb' rfl)
    (fun _ => by simp) ?_ ?_ hc.tableNodup ?_
  · simpa [Hashed] using hc.hashed b hb
  · intro e he heb
    rw [(hc.tableKey e he).1, heb]; simp
  · simp only [listMove_used, setUsed_used, dataCount_listMove, dataCount_setUsed]
    omega

/-- `mca_data_alloc` on a container that is unhashed, has no data and a zero pointer hash,
and is on no list or on `btree_cache_freed`. -/
theorem CacheInv.dataAlloc {c : CacheSet} {p : List Nat} {b : Nat} (hc : CacheInv c p)
    (hb : b < c.nr) (hkey : (c.nodes b).key = 0) (hdata : (c.nodes b).data = false)
    (ok : Bool) : CacheInv (c.mcaDataAlloc b ok) p := by
  have hnh : ¬ c.Hashed b := by rw [hc.hashed b hb, hkey]; simp
  have hused := hc.used
  have hcount := dataCount_setNode c hb fun n => { n with data := ok }
  simp only [hdata, Bool.false_eq_true, if_false] at hcount
  cases ok
  · rw [mcaDataAlloc_false]
    refine hc.change rfl hb (fun x hx => by simp [hx])
      (fun x h' hx => hc.mem_listMove_ne hx rfl)
      (fun h' => hc.nodup_listMove _ h' b rfl) (fun _ _ => Iff.rfl) (fun _ _ => Iff.rfl)
      (fun _ _ h₁ h₂ => (hc.listMove_only h₁ rfl).trans (hc.listMove_only h₂ rfl).symm)
      (fun hb' => nomatch hc.listMove_only hb' rfl)
      (fun hb' => nomatch hc.listMove_only hb' rfl)
      (fun _ => ⟨by simp, fun _ => by simpa [Hashed] using hnh⟩)
      ?_ ?_ hc.tableNodup ?_
    · simpa [Hashed, hkey] using hnh
    · intro e he heb; exact absurd ⟨e, he, heb⟩ hnh
    · simp only [listMove_used, setNode_used, dataCount_listMove]
      simp at hcount; omega
  · rw [mcaDataAlloc_true]
    refine hc.change rfl hb (fun x hx => by simp [hx])
      (fun x h' hx => hc.mem_listMove_ne hx rfl)
      (fun h' => hc.nodup_listMove _ h' b rfl) (fun _ _ => Iff.rfl) (fun _ _ => Iff.rfl)
      (fun _ _ h₁ h₂ => (hc.listMove_only h₁ rfl).trans (hc.listMove_only h₂ rfl).symm)
      (fun hb' => nomatch hc.listMove_only hb' rfl)
      (fun _ => ⟨by simp, by simp [hkey], by simpa [Hashed] using hnh⟩)
      (fun hb' => nomatch hc.listMove_only hb' rfl) ?_ ?_ hc.tableNodup ?_
    · simpa [Hashed, hkey] using hnh
    · intro e he heb; exact absurd ⟨e, he, heb⟩ hnh
    · simp only [listMove_used, setUsed_used, dataCount_listMove, dataCount_setUsed]
      simp at hcount; omega

/-! ## The hash table -/

theorem mcaHashRemove_eq_ok {c c' : CacheSet} {b : Nat} (h : c.mcaHashRemove b = .ok c') :
    (c.nodes b).flags.dirty = false ∧
    c' = (c.setTable (c.table.filter (·.2 != b))).setNode b fun n => { n with key := 0 } := by
  unfold mcaHashRemove at h
  split at h
  · cases h
  · rename_i hw; cases h; exact ⟨by simpa using hw, rfl⟩

/-- `mca_hash_remove` of a container: it leaves the table with a zero pointer hash, and
if it was pending it no longer is. -/
theorem CacheInv.hashRemove {c c' : CacheSet} {p : List Nat} {b : Nat} (hc : CacheInv c p)
    (hb : b < c.nr) (hr : c.mcaHashRemove b = .ok c') : CacheInv c' (p.erase b) := by
  obtain ⟨-, rfl⟩ := mcaHashRemove_eq_ok hr
  have hnh : ¬ ((c.setTable (c.table.filter (·.2 != b))).setNode b
      fun n => { n with key := 0 }).Hashed b := by
    rintro ⟨e, he, heb⟩
    simp only [setNode_table, List.mem_filter] at he
    simp [heb] at he
  have hcount := dataCount_setNode (c.setTable (c.table.filter (·.2 != b))) hb
    fun n => { n with key := 0 }
  refine hc.change rfl hb (fun x hx => by simp [hx]) (fun _ _ _ => Iff.rfl) hc.nodup ?_
    (fun x hx => List.mem_erase_of_ne hx) (hc.oneList b) (fun h => by simpa using hc.cacheData b h)
    (fun h => ⟨by simpa using (hc.freeable b h).1, by simp, hnh⟩)
    (fun h => ⟨by simpa using (hc.freed b h).1, fun _ => hnh⟩) ?_ ?_ ?_ ?_
  · intro e he
    simp [he]
  · simp only [setNode_nodes_self, ne_eq, not_true_eq_false, iff_false]; exact hnh
  · intro e he heb
    exact absurd ⟨e, he, heb⟩ hnh
  · exact hc.tableNodup.sublist ((List.filter_sublist _).map _)
  · have hd : ((c.setTable (c.table.filter (·.2 != b))).setNode b
        fun n => { n with key := 0 }).dataCount = c.dataCount :=
      dataCount_congr rfl fun x _ => by by_cases e : x = b <;> simp [e]
    rw [hd, setNode_used, setTable_used, hc.used]

/-! ## Fresh containers -/

/-- `kzalloc` of a container at the next address keeps the invariant. -/
theorem CacheInv.newContainer {c : CacheSet} {p : List Nat} (hc : CacheInv c p) :
    CacheInv { c with nodes := Function.update c.nodes c.nr .zero, nr := c.nr + 1 } p := by
  have hne : ∀ h b, b ∈ c.lists h → b ≠ c.nr := fun h b hb => (hc.listed h b hb).ne
  have hnodes : ∀ b, b ≠ c.nr → Function.update c.nodes c.nr Btree.zero b = c.nodes b :=
    fun b hb => Function.update_noteq hb _ _
  have htab : ∀ e ∈ c.table, e.2 ≠ c.nr := fun e he => (hc.tableKey e he).2.ne
  refine ⟨hc.nodup, hc.oneList, fun h b hb => Nat.lt_succ_of_lt (hc.listed h b hb), ?_, ?_, ?_,
    ?_, ?_, hc.tableNodup, ?_⟩
  · intro b hb; simp only [hnodes b (hne _ b hb)]; exact hc.cacheData b hb
  · intro b hb; simp only [hnodes b (hne _ b hb)]; exact hc.freeable b hb
  · intro b hb; simp only [hnodes b (hne _ b hb)]; exact hc.freed b hb
  · intro b hb
    dsimp only at hb ⊢
    by_cases e : b = c.nr
    · subst e
      simp only [Function.update_same, Btree.zero, ne_eq, not_true_eq_false, iff_false]
      rintro ⟨x, hx, hx2⟩; exact htab x hx hx2
    · rw [hnodes b e]; exact hc.hashed b (by omega)
  · intro e he
    dsimp only at he ⊢
    rw [hnodes _ (htab e he)]
    exact ⟨(hc.tableKey e he).1, Nat.lt_succ_of_lt (hc.tableKey e he).2⟩
  · rw [hc.used]
    have hold : (List.range c.nr).countP (fun b => (Function.update c.nodes c.nr Btree.zero b).data)
        = c.dataCount :=
      List.countP_congr fun b hb => by rw [hnodes b (List.mem_range.mp hb).ne]
    simp only [dataCount, List.range_succ, List.countP_append, hold]
    simp [Btree.zero, dataCount]

/-! ## Inserting a held container -/

/-- A container as `mca_alloc` hands it to its caller: allocated, with data, on no list
and not hashed. -/
def Held (c : CacheSet) (b : Nat) : Prop :=
  b < c.nr ∧ (c.nodes b).data = true ∧ (∀ h, b ∉ c.lists h) ∧ ¬ c.Hashed b

/-- `bkey_copy` then `mca_hash_insert`, when no container is hashed under `k`. -/
theorem insert_of_fresh {c : CacheSet} {b k level id : Nat} (h : c.table.any (·.1 == k) = false) :
    (c.setNode b fun n => { n with key := k }).mcaHashInsert b level id =
      (((c.setNode b fun n => { n with key := k, level := level, btreeId := id }).setTable
        ((k, b) :: c.table)).listAdd .btreeCache b, true) := by
  unfold mcaHashInsert
  simp only [setNode_setNode, setNode_nodes_self, setNode_table, h]
  rfl

theorem fillInsert_of_fresh {c : CacheSet} {b k level id : Nat}
    (h : c.table.any (·.1 == k) = false) :
    c.fillInsert b k level id =
      (((c.setNode b fun n => { n with key := k, level := level, btreeId := id }).setTable
        ((k, b) :: c.table)).listAdd .btreeCache b, true) := by
  unfold fillInsert
  rw [insert_of_fresh h]

theorem fillInsert_of_taken {c : CacheSet} {b k level id : Nat}
    (h : c.table.any (·.1 == k) = true) :
    c.fillInsert b k level id =
      (((c.setNode b fun n => { n with key := 0, level := level, btreeId := id }).listAdd
        .freeable b).unlockNode b, false) := by
  unfold fillInsert mcaHashInsert
  simp only [setNode_setNode, setNode_nodes_self, setNode_table, h, if_true]

/-- A held container inserted under a fresh non-zero pointer hash. -/
theorem CacheInv.insertFresh {c : CacheSet} {p : List Nat} {b k level id : Nat}
    (hc : CacheInv c p) (hh : c.Held b) (hk : k ≠ 0) (hfresh : c.table.any (·.1 == k) = false) :
    CacheInv (((c.setNode b fun n => { n with key := k, level := level, btreeId := id }).setTable
        ((k, b) :: c.table)).listAdd .btreeCache b) p := by
  obtain ⟨hb, hdata, hlist, hnh⟩ := hh
  have hkt : ∀ e ∈ c.table, e.1 ≠ k := by
    intro e he hek
    have := List.any_eq_false.mp hfresh e he
    simp [hek] at this
  have hbt : ∀ e ∈ c.table, e.2 ≠ b := fun e he heb => hnh ⟨e, he, heb⟩
  refine hc.change rfl hb (fun x hx => by simp [hx])
    (fun x h hx => by simp only [mem_listAdd_lists, setTable_lists, setNode_lists]; simp [hx])
    ?_ ?_ (fun _ _ => Iff.rfl) ?_ (fun _ => by simpa using hdata) ?_ ?_ ?_ ?_ ?_ ?_
  · intro h
    rw [listAdd_lists]
    split_ifs with e
    · subst e; exact List.nodup_cons.mpr ⟨hlist _, hc.nodup _⟩
    · exact hc.nodup h
  · intro e he
    simp only [listAdd_table, setTable_table, List.mem_cons, or_iff_right_iff_imp]
    rintro rfl; exact absurd rfl he
  · intro h h' h₁ h₂
    simp only [mem_listAdd_lists, setTable_lists, setNode_lists, hlist, or_false] at h₁ h₂
    rw [h₁.2, h₂.2]
  · intro h; simp [mem_listAdd_lists, hlist] at h
  · intro h; simp [mem_listAdd_lists, hlist] at h
  · simp only [listAdd_nodes, setTable_nodes, setNode_nodes_self, ne_eq, hk, not_false_eq_true,
      iff_true]
    exact ⟨(k, b), List.mem_cons_self _ _, rfl⟩
  · intro e he heb
    simp only [listAdd_table, setTable_table, List.mem_cons] at he
    rcases he with he | he
    · subst he; simp
    · exact absurd heb (hbt e he)
  · simp only [listAdd_table, setTable_table, List.map_cons, List.nodup_cons, List.mem_map]
    exact ⟨fun ⟨e, he, hek⟩ => hkt e he hek, hc.tableNodup⟩
  · simp only [listAdd_used, setTable_used, setNode_used, dataCount_listAdd, dataCount_setTable,
      hc.used]
    rw [dataCount_setNode_of_data c hb rfl]

/-- `bch_btree_node_fill` after `mca_alloc`: whether the insert wins or loses the race,
the invariant holds again. -/
theorem CacheInv.fillInsert {c : CacheSet} {p : List Nat} {b k level id : Nat}
    (hc : CacheInv c p) (hh : c.Held b) (hk : k ≠ 0) :
    CacheInv (c.fillInsert b k level id).1 p := by
  cases hany : c.table.any (·.1 == k)
  · rw [fillInsert_of_fresh hany]; exact hc.insertFresh hh hk hany
  rw [fillInsert_of_taken hany]
  simp only [CacheSet.unlockNode, listAdd_setNode, setNode_setNode]
  obtain ⟨hb, hdata, hlist, hnh⟩ := hh
  refine hc.change rfl hb (fun x hx => by simp [hx])
    (fun x h hx => by simp only [mem_listAdd_lists, setNode_lists]; simp [hx])
    ?_ (fun _ _ => Iff.rfl) (fun _ _ => Iff.rfl) ?_ ?_ ?_ ?_ ?_ ?_ hc.tableNodup ?_
  · intro h
    rw [listAdd_lists]
    split_ifs with e
    · subst e; exact List.nodup_cons.mpr ⟨hlist _, hc.nodup _⟩
    · exact hc.nodup h
  · intro h h' h₁ h₂
    simp only [mem_listAdd_lists, setNode_lists, hlist, or_false] at h₁ h₂
    rw [h₁.2, h₂.2]
  · intro h; simp [mem_listAdd_lists, hlist] at h
  · intro _; exact ⟨by simpa using hdata, by simp, hnh⟩
  · intro h; simp [mem_listAdd_lists, hlist] at h
  · simp only [listAdd_nodes, setNode_nodes_self, ne_eq, not_true_eq_false, iff_false]; exact hnh
  · intro e he heb; exact absurd ⟨e, he, heb⟩ hnh
  · simp only [setNode_used, listAdd_used, hc.used, dataCount_listAdd]
    rw [dataCount_setNode_of_data c hb rfl]

end CacheSet

end Libbcache
