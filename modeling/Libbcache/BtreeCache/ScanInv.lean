import Libbcache.BtreeCache.AllocInv

/-!
# The shrinker keeps the invariant and frees only reapable nodes

A scan is a sequence of atomic sections (`scanStep`). Between sections it is in one of
four places (`ScanPc`), and `ScanInv` says what holds there: the node-cache invariant,
and after an eviction also that the evicted container is still hashed, reaped by the
scanning task and without data. Each section

* keeps `ScanInv`, and fires none of the `BUG_ON`s of `mca_data_free` and
  `mca_hash_remove` (`CacheInv.scanFreeable`, `CacheInv.scanWalk`, `scanStep_spec`);
* frees the data only of containers it could reap without flushing, and otherwise
  changes no container's lock, blocked writes or flags other than `accessed`
  (`ScanFrame`);
* lowers the number of sections the scan can still take (`ScanPc.budget`).

So `bch_mca_scan` run by one task returns within the sections `bchMcaScan` allows,
with the invariant kept (`CacheInv.bchMcaScan`).
-/

namespace Libbcache

/-- The parts of a container that `mca_reap_notrace` looks at. -/
def Btree.reapView (n : Btree) : SixLock × Bool × Bool × Bool × Bool × Bool :=
  (n.lock, n.flags.dirty, n.flags.writeInFlight, n.flags.writeError, n.flags.noevict,
    n.writeBlocked)

/-- The sections a scan at `pc` can still take: an eviction is followed by a restart, and
a restart by an eviction that frees one more node, or by the end. -/
def ScanPc.budget : ScanPc → Nat
  | .start => 0
  | .evicted _ nr freed => 2 * (nr - freed) + 2
  | .restart nr freed => 2 * (nr - freed) + 1
  | .done _ => 0

namespace CacheSet

/-- `b` can be reaped without flushing: nobody holds its lock, and it is clean, with no
write in flight, no write error, no noevict flag and no blocked writes. -/
def Reapable (c : CacheSet) (b : Nat) : Prop :=
  (c.nodes b).lock.intent = none ∧ (c.nodes b).lock.readers = [] ∧
  (c.nodes b).flags.dirty = false ∧ (c.nodes b).flags.writeInFlight = false ∧
  (c.nodes b).flags.writeError = false ∧ (c.nodes b).flags.noevict = false ∧
  (c.nodes b).writeBlocked = false

theorem reapable_of_reapView {c c' : CacheSet} {b : Nat}
    (h : (c'.nodes b).reapView = (c.nodes b).reapView) : c'.Reapable b ↔ c.Reapable b := by
  simp only [Btree.reapView, Prod.mk.injEq] at h
  obtain ⟨hl, hd, hw, he, hn, hb⟩ := h
  simp only [Reapable, hl, hd, hw, he, hn, hb]

/-- A reap without flushing succeeds only on a reapable container. -/
theorem mcaReapNotrace_reapable {c c' : CacheSet} {b t : Nat}
    (h : c.mcaReapNotrace b false t = some c') : c.Reapable b := by
  obtain ⟨hi, hr, he, hn, hw, hf, -⟩ := mcaReapNotrace_spec h
  exact ⟨hi, hr, (hf rfl).1, (hf rfl).2, he, hn, hw⟩

/-- `mca_data_free` of a container its caller has reaped. -/
theorem mcaDataFree_of_reaped {c : CacheSet} {b t : Nat} (hr : c.Reaped b t) :
    c.mcaDataFree b = .ok (((c.setNode b fun n => { n with data := false }).setUsed
      (c.btreeCacheUsed - 1)).listMove .freed b) := by
  simp [mcaDataFree, hr.2.2.1]

/-! ## What a scan may do to a container -/

/-- How the containers may differ between two states of a scan: a container with data
keeps it together with everything `mca_reap_notrace` looks at, or it has lost its data and
was reapable before; a container without data stays without. -/
structure ScanFrame (c c' : CacheSet) : Prop where
  kept : ∀ b, (c.nodes b).data = true →
    ((c'.nodes b).data = true ∧ (c'.nodes b).reapView = (c.nodes b).reapView) ∨
    ((c'.nodes b).data = false ∧ c.Reapable b)
  noData : ∀ b, (c.nodes b).data = false → (c'.nodes b).data = false

theorem ScanFrame.refl (c : CacheSet) : ScanFrame c c :=
  ⟨fun _ h => .inl ⟨h, rfl⟩, fun _ h => h⟩

theorem ScanFrame.trans {c₁ c₂ c₃ : CacheSet} (h₁ : ScanFrame c₁ c₂) (h₂ : ScanFrame c₂ c₃) :
    ScanFrame c₁ c₃ where
  kept b hb := by
    rcases h₁.kept b hb with ⟨hd, hv⟩ | ⟨hd, hr⟩
    · rcases h₂.kept b hd with ⟨hd', hv'⟩ | ⟨hd', hr'⟩
      · exact .inl ⟨hd', hv'.trans hv⟩
      · exact .inr ⟨hd', (reapable_of_reapView hv).mp hr'⟩
    · exact .inr ⟨h₂.noData b hd, hr⟩
  noData b hb := h₂.noData b (h₁.noData b hb)

theorem ScanFrame.of_nodes {c c' : CacheSet} (h : c'.nodes = c.nodes) : ScanFrame c c' :=
  ⟨fun b hb => .inl ⟨by rw [h]; exact hb, by rw [h]⟩, fun b hb => by rw [h]; exact hb⟩

/-- Changing a container without touching its data or what a reap looks at. -/
theorem ScanFrame.setNode (c : CacheSet) (b : Nat) (f : Btree → Btree)
    (hd : (f (c.nodes b)).data = (c.nodes b).data)
    (hv : (f (c.nodes b)).reapView = (c.nodes b).reapView) : ScanFrame c (c.setNode b f) where
  kept x hx := by
    by_cases e : x = b
    · subst e; exact .inl ⟨by simpa [hd] using hx, by simpa using hv⟩
    · exact .inl ⟨by simpa [e] using hx, by simp [e]⟩
  noData x hx := by by_cases e : x = b <;> simp_all

/-- A change confined to `b` that leaves `b` without data, where `b` was reapable if it had
data. -/
theorem ScanFrame.change {c c' : CacheSet} {b : Nat} (hnodes : ∀ x, x ≠ b → c'.nodes x = c.nodes x)
    (hb : (c'.nodes b).data = false) (hr : (c.nodes b).data = true → c.Reapable b) :
    ScanFrame c c' where
  kept x hx := by
    by_cases e : x = b
    · subst e; exact .inr ⟨hb, hr hx⟩
    · exact .inl ⟨by rw [hnodes x e]; exact hx, by rw [hnodes x e]⟩
  noData x hx := by
    by_cases e : x = b
    · exact e ▸ hb
    · rw [hnodes x e]; exact hx

/-! ## Where a scan is between sections -/

/-- What holds between two sections of a scan run by task `t`. -/
def ScanInv (c : CacheSet) (t : Nat) : ScanPc → Prop
  | .evicted b _ _ => CacheInv c [b] ∧ c.Reaped b t ∧ b < c.nr ∧ (c.nodes b).data = false
  | _ => CacheInv c []

/-- What one section of a scan guarantees: it returns, keeps `ScanInv`, changes the
containers only as `ScanFrame` allows, and ends where `next` says. -/
def StepSpec (c : CacheSet) (t : Nat) (next : ScanPc → Prop)
    (r : Except Stop (CacheSet × ScanPc)) : Prop :=
  ∃ c' pc', r = .ok (c', pc') ∧ ScanInv c' t pc' ∧ ScanFrame c c' ∧ c'.btreePages = c.btreePages ∧
    next pc'

/-! ## The loop over `btree_cache_freeable` -/

/-- Freeing the data of a reaped container of `btree_cache_freeable` and unlocking it. -/
theorem CacheInv.freeFreeable {c c₁ : CacheSet} {b t : Nat} (hc : CacheInv c [])
    (hb : b ∈ c.lists .freeable) (hr : c.mcaReapNotrace b false t = some c₁) :
    ∃ c₂, c₁.mcaDataFree b = .ok c₂ ∧ CacheInv (c₂.unlockNode b) [] ∧
      ScanFrame c (c₂.unlockNode b) ∧ (∀ h, ∀ x ≠ b, x ∈ (c₂.unlockNode b).lists h ↔ x ∈ c.lists h) ∧
      c₂.btreePages = c.btreePages := by
  obtain ⟨⟨l, f, rfl⟩, hreaped, -⟩ := mcaReapNotrace_eq_some hr
  obtain ⟨hdata, -, hnh⟩ := hc.freeable b hb
  have hc₁ := hc.reap hr
  refine ⟨_, mcaDataFree_of_reaped hreaped, ?_, ?_, fun h x hx => ?_, rfl⟩
  · refine CacheInv.unlockNode (CacheInv.unpend ?_ (by simpa [Hashed] using hnh)) b
    exact hc₁.dataFree hb (by simpa using hdata)
      (mcaDataFree_of_reaped hreaped)
  · exact ScanFrame.change (fun x hx => by simp [CacheSet.unlockNode, hx]) (by simp [CacheSet.unlockNode])
      fun _ => mcaReapNotrace_reapable hr
  · rw [unlockNode_lists]; exact hc.mem_listMove_ne hx rfl

/-- The loop over `btree_cache_freeable` keeps the invariant and frees only reapable
containers; none of its `BUG_ON`s fires. -/
theorem CacheInv.scanFreeable {t nr : Nat} : ∀ {c : CacheSet} (l : List Nat) (i freed : Nat),
    CacheInv c [] → (∀ b ∈ l, b ∈ c.lists .freeable) → l.Nodup →
    ∃ c' freed', c.scanFreeable t nr l i freed = .ok (c', freed') ∧ CacheInv c' [] ∧
      ScanFrame c c' ∧ c'.btreePages = c.btreePages
  | c, [], _, freed, hc, _, _ => ⟨c, freed, rfl, hc, .refl c, rfl⟩
  | c, b :: l, i, freed, hc, hl, hnd => by
    have hnd' := List.nodup_cons.mp hnd
    have hl' : ∀ x ∈ l, x ∈ c.lists .freeable := fun x hx => hl x (List.mem_cons_of_mem _ hx)
    have hskip := @CacheInv.scanFreeable t nr c l (i + 1) freed hc hl' hnd'.2
    by_cases hnr : nr ≤ freed
    · exact ⟨c, freed, by simp [CacheSet.scanFreeable, hnr], hc, .refl c, rfl⟩
    by_cases hi : 3 < i + 1
    · cases hr : c.mcaReapNotrace b false t with
      | none =>
        obtain ⟨c', f', h, hc', hf, hp⟩ := hskip
        exact ⟨c', f', by simp [CacheSet.scanFreeable, hnr, hi, hr, h], hc', hf, hp⟩
      | some c₁ =>
        obtain ⟨c₂, hdf, hc₂, hf₂, hmem, hp₂⟩ := hc.freeFreeable (hl b (List.mem_cons_self _ _)) hr
        obtain ⟨c', f', h, hc', hf, hp⟩ := @CacheInv.scanFreeable t nr _ l (i + 1) (freed + 1) hc₂
          (fun x hx => (hmem _ x fun e => hnd'.1 (e ▸ hx)).mpr (hl' x hx)) hnd'.2
        exact ⟨c', f', by simp [CacheSet.scanFreeable, hnr, hi, hr, hdf, h], hc', hf₂.trans hf,
          hp.trans hp₂⟩
    · obtain ⟨c', f', h, hc', hf, hp⟩ := hskip
      exact ⟨c', f', by simp [CacheSet.scanFreeable, hnr, hi, h], hc', hf, hp⟩

/-! ## The walk of `btree_cache` -/

/-- Where a walk of `btree_cache` ends: at the end of the scan, or after evicting one more
node while the budget was not met. -/
def WalkEnd (nr freed : Nat) (pc : ScanPc) : Prop :=
  (∃ r, pc = .done r) ∨ ∃ b, pc = .evicted b nr (freed + 1) ∧ freed < nr

/-- A walk of `btree_cache` keeps the invariant, clears only `accessed` bits, and evicts
only a reapable node. -/
theorem CacheInv.scanWalk {t nr freed : Nat} : ∀ {c : CacheSet} (pre l : List Nat),
    CacheInv c [] → pre ++ l = c.lists .btreeCache →
    StepSpec c t (WalkEnd nr freed) (c.scanWalk t nr pre l freed)
  | c, _, [], hc, _ => ⟨c, _, rfl, hc, .refl c, rfl, .inl ⟨_, rfl⟩⟩
  | c, pre, b :: rest, hc, hl => by
    have hperm : (rest ++ pre ++ [b]).Perm (c.lists .btreeCache) := by
      rw [← hl, List.append_assoc]
      exact List.perm_append_comm.trans (by simp)
    have hbc : b ∈ c.lists .btreeCache := hl ▸ List.mem_append_right _ (List.mem_cons_self _ _)
    by_cases hnr : nr ≤ freed
    · exact ⟨c.setCacheList (rest ++ pre ++ [b]), .done (freed * c.btreePages),
        by simp [CacheSet.scanWalk, hnr], hc.setCacheList hperm, .of_nodes rfl, rfl, .inl ⟨_, rfl⟩⟩
    have hskip : StepSpec c t (WalkEnd nr freed) (CacheSet.scanWalk t nr (c.setNode b fun n =>
        { n with flags := { n.flags with accessed := false } }) (pre ++ [b]) rest freed) := by
      obtain ⟨c', pc', h, hi, hf, hp, hn⟩ := CacheInv.scanWalk (pre ++ [b]) rest
        (hc.setNode b (fun n => { n with flags := { n.flags with accessed := false } }) rfl rfl)
        (by simpa using hl)
      exact ⟨c', pc', h, hi, (ScanFrame.setNode c b _ rfl rfl).trans hf, hp, hn⟩
    by_cases hacc : (c.nodes b).flags.accessed = true
    · simpa [CacheSet.scanWalk, hnr, hacc] using hskip
    cases hr : c.mcaReapNotrace b false t with
    | none => simpa [CacheSet.scanWalk, hnr, hacc, hr] using hskip
    | some c₁ =>
      obtain ⟨⟨lk, f, rfl⟩, hreaped, -⟩ := mcaReapNotrace_eq_some hr
      have hc₁ := (hc.reap hr).setCacheList hperm
      have hdf := mcaDataFree_of_reaped (c := (c.setNode b fun n => { n with lock := lk, flags := f }).setCacheList
        (rest ++ pre ++ [b])) hreaped
      simp only [List.append_assoc] at hdf hc₁
      refine ⟨_, .evicted b nr (freed + 1), by simp [CacheSet.scanWalk, hnr, hacc, hr, hdf],
        ⟨hc₁.dataFree (h := .btreeCache) (by simp)
        (by simpa using hc.cacheData b hbc) hdf, by simpa [Reaped] using hreaped,
        by simpa using hc.listed _ b hbc, by simp⟩, ?_, rfl, .inr ⟨b, rfl, by omega⟩⟩
      exact ScanFrame.change (fun x hx => by simp [hx]) (by simp) fun _ => mcaReapNotrace_reapable hr

/-! ## Sections and runs -/

/-- The first section: the budget `min(nr_to_scan / btree_pages, mca_can_free(c))`, the
loop over `btree_cache_freeable`, and a first walk. -/
theorem CacheInv.scanStep_start {c : CacheSet} (hc : CacheInv c []) (t : Nat) (sc : ShrinkControl) :
    StepSpec c t (fun pc => pc ≠ .start ∧ pc.budget ≤ 2 * c.mcaCanFree + 1)
      (c.scanStep t sc .start) := by
  unfold CacheSet.scanStep
  split_ifs with hd ha
  · exact ⟨c, _, rfl, hc, .refl c, rfl, nofun, by simp [ScanPc.budget]⟩
  · exact ⟨c, _, rfl, hc, .refl c, rfl, nofun, by simp [ScanPc.budget]⟩
  obtain ⟨c₁, f₁, hf, hc₁, hfr₁, hp₁⟩ := @CacheInv.scanFreeable t (min (sc.nrToScan / c.btreePages)
    c.mcaCanFree) c (c.lists .freeable) 0 0 hc (fun _ h => h) (hc.nodup _)
  obtain ⟨c₂, pc, hw, hi, hfr₂, hp₂, hend⟩ := @CacheInv.scanWalk t
    (min (sc.nrToScan / c.btreePages) c.mcaCanFree) f₁ c₁ [] (c₁.lists .btreeCache) hc₁ rfl
  refine ⟨c₂, pc, by simp [hf, hw], hi, hfr₁.trans hfr₂, hp₂.trans hp₁, ?_⟩
  rcases hend with ⟨r, rfl⟩ | ⟨b, rfl, hlt⟩
  · exact ⟨nofun, by simp [ScanPc.budget]⟩
  · refine ⟨nofun, ?_⟩
    simp only [ScanPc.budget]
    have := min_le_right (sc.nrToScan / c.btreePages) c.mcaCanFree
    omega

/-- The tail of an eviction: `mca_hash_remove` (the node is clean, so its `BUG_ON` does
not fire) and unlocking the node. -/
theorem scanStep_evicted {c : CacheSet} {t b nr freed : Nat} (sc : ShrinkControl)
    (h : ScanInv c t (.evicted b nr freed)) :
    StepSpec c t (fun pc => pc ≠ .start ∧ pc.budget < (ScanPc.evicted b nr freed).budget)
      (c.scanStep t sc (.evicted b nr freed)) := by
  obtain ⟨hc, hr, hb, hd⟩ := h
  have hrem : c.mcaHashRemove b = .ok ((c.setTable (c.table.filter (·.2 != b))).setNode b
      fun n => { n with key := 0 }) := by simp [mcaHashRemove, hr.2.1]
  have hc' := (hc.hashRemove hb hrem).unlockNode b
  simp only [List.erase_cons_head] at hc'
  refine ⟨((c.setTable (c.table.filter (·.2 != b))).setNode b fun n => { n with key := 0 }).unlockNode b,
    if nr ≤ freed then .done (freed * c.btreePages) else .restart nr freed,
    by simp [scanStep, hrem]; rfl, by split_ifs <;> exact hc', ?_, rfl, ?_⟩
  · exact ScanFrame.change (b := b) (fun x hx => by simp [CacheSet.unlockNode, hx])
      (by simpa [CacheSet.unlockNode] using hd) fun h => absurd h (by simp [hd])
  · split_ifs <;> simp [ScanPc.budget]

/-- A restart is a new walk of `btree_cache` from its head. -/
theorem scanStep_restart {c : CacheSet} {t nr freed : Nat} (sc : ShrinkControl)
    (h : ScanInv c t (.restart nr freed)) :
    StepSpec c t (fun pc => pc ≠ .start ∧ pc.budget < (ScanPc.restart nr freed).budget)
      (c.scanStep t sc (.restart nr freed)) := by
  obtain ⟨c', pc, hw, hi, hf, hp, hend⟩ := @CacheInv.scanWalk t nr freed c [] _ h rfl
  refine ⟨c', pc, hw, hi, hf, hp, ?_⟩
  rcases hend with ⟨r, rfl⟩ | ⟨b, rfl, hlt⟩
  · exact ⟨nofun, by simp [ScanPc.budget]⟩
  · exact ⟨nofun, by simp only [ScanPc.budget]; omega⟩

/-- The section after an eviction or a restart. -/
theorem scanStep_next {c : CacheSet} {t : Nat} {pc : ScanPc} (sc : ShrinkControl) (h : ScanInv c t pc)
    (hs : pc ≠ .start) (hd : ∀ r, pc ≠ .done r) :
    StepSpec c t (fun pc' => pc' ≠ .start ∧ pc'.budget < pc.budget) (c.scanStep t sc pc) := by
  cases pc with
  | start => exact absurd rfl hs
  | evicted b nr freed => exact scanStep_evicted sc h
  | restart nr freed => exact scanStep_restart sc h
  | done r => exact absurd rfl (hd r)

/-- Every section of a scan keeps `ScanInv`. -/
theorem ScanInv.scanStep {c c' : CacheSet} {t : Nat} {sc : ShrinkControl} {pc pc' : ScanPc}
    (h : ScanInv c t pc) (hs : c.scanStep t sc pc = .ok (c', pc')) : ScanInv c' t pc' := by
  cases pc with
  | done r => simp only [CacheSet.scanStep] at hs; cases hs; exact h
  | start =>
    obtain ⟨_, _, he, hi, -⟩ := CacheInv.scanStep_start h t sc
    rw [hs] at he; cases he; exact hi
  | evicted | restart =>
    obtain ⟨_, _, he, hi, -⟩ := scanStep_next sc h (fun h => nomatch h) fun _ h => nomatch h
    rw [hs] at he; cases he; exact hi

/-- With fuel for its budget, a scan that has started runs to its end, keeping the
invariant and changing containers only as `ScanFrame` allows. -/
theorem scanRun_done {t : Nat} {sc : ShrinkControl} (fuel : Nat) : ∀ {c : CacheSet} {pc : ScanPc},
    ScanInv c t pc → pc ≠ .start → pc.budget ≤ fuel →
    ∃ c' r, scanRun t sc fuel c pc = .ok (c', .done r) ∧ CacheInv c' [] ∧ ScanFrame c c' := by
  induction fuel with
  | zero =>
    intro c pc h hs hb
    cases pc with
    | done r => exact ⟨c, r, rfl, h, .refl c⟩
    | start => exact absurd rfl hs
    | evicted | restart => simp [ScanPc.budget] at hb
  | succ fuel ih =>
    intro c pc h hs hb
    cases pc with
    | done r => exact ⟨c, r, rfl, h, .refl c⟩
    | start => exact absurd rfl hs
    | evicted | restart =>
      obtain ⟨c', pc', hs', hi, hf, -, hns, hlt⟩ := scanStep_next sc h hs fun _ h => nomatch h
      obtain ⟨c'', r, hrun, hc'', hf''⟩ := ih hi hns (by omega)
      exact ⟨c'', r, by rw [scanRun.eq_3 _ _ _ _ _ (by simp)]; simpa [hs'] using hrun, hc'', hf.trans hf''⟩

/-- `bch_mca_scan` run by one task from a state satisfying the invariant returns: none
of the `BUG_ON`s of `mca_data_free` and `mca_hash_remove` fires, the invariant is kept,
and the only containers that lose their data are ones that could be reaped without
flushing when the scan started. -/
theorem CacheInv.bchMcaScan {c : CacheSet} (hc : CacheInv c []) (t : Nat) (sc : ShrinkControl) :
    ∃ c' r, c.bchMcaScan t sc = .ok (c', r) ∧ CacheInv c' [] ∧ ScanFrame c c' := by
  obtain ⟨c₁, pc, hs, hi, hf, -, hns, hb⟩ := hc.scanStep_start t sc
  obtain ⟨c', r, hrun, hc', hf'⟩ := @scanRun_done t sc (2 * c.mcaCanFree + 1) _ _ hi hns hb
  refine ⟨c', r, ?_, hc', hf.trans hf'⟩
  rw [CacheSet.bchMcaScan, scanRun.eq_3 _ _ _ _ _ (by simp)]
  simp [hs, hrun]
  rfl

end CacheSet

end Libbcache
