import Libbcache.BtreeCache.Reachable

/-!
# A scan run alone never frees into the reserve

`bch_mca_scan` computes its budget once, as `min(nr_to_scan / btree_pages,
mca_can_free(c))`, and counts in `freed` every container whose data it frees. Run by one
task with no other in between, each free lowers `btree_cache_used` by one and `freed`
never passes the budget: `ScanCount` says so between any two sections, every section
keeps it (`ScanCount.step`), and so does a run of them (`ScanCount.run`).

So a scan run alone frees at most `mca_can_free(c)` containers: `btree_cache_used` ends
at or above `btree_cache_reserve` (or where it started, if it was below), and the value
returned is the number of pages freed, or `SHRINK_STOP` having freed nothing
(`CacheInv.bchMcaScan_keeps_reserve`).

Two scans can do what one cannot. Between its sections a scan drops `btree_cache_lock`
after every eviction from `btree_cache`, and a second scan (the shrinker runs in every
reclaiming task, and the `prune_cache` attribute calls `bch_mca_scan` directly) that runs
in one of those windows computes its own budget from the cache as it is then and frees
nodes too. The first scan's budget is not recomputed, so between them they can free more
than `mca_can_free` allowed when the first one started
(`concurrent_scans_free_below_reserve`).
-/

namespace Libbcache

namespace CacheSet

/-- What no part of a scan changes: the reserve and the node size. -/
def sizes (c : CacheSet) : Nat × Nat := (c.btreeCacheReserve, c.btreePages)

theorem pages_of_sizes {c c' : CacheSet} (h : c'.sizes = c.sizes) :
    c'.btreePages = c.btreePages :=
  congrArg Prod.snd h

theorem mcaCanFree_congr {c c' : CacheSet} (hu : c'.btreeCacheUsed = c.btreeCacheUsed)
    (hz : c'.sizes = c.sizes) : c'.mcaCanFree = c.mcaCanFree := by
  rw [mcaCanFree, mcaCanFree, hu, show c'.btreeCacheReserve = c.btreeCacheReserve from
    congrArg Prod.fst hz]

/-! ## What each part of a scan frees -/

theorem mcaReapNotrace_count {c c' : CacheSet} {b t : Nat} {flush : Bool}
    (h : c.mcaReapNotrace b flush t = some c') :
    c'.btreeCacheUsed = c.btreeCacheUsed ∧ c'.sizes = c.sizes := by
  obtain ⟨⟨l, f, rfl⟩, -⟩ := mcaReapNotrace_eq_some h
  exact ⟨rfl, rfl⟩

/-- `mca_data_free` gives back one container's pages. -/
theorem mcaDataFree_count {c c' : CacheSet} {b : Nat} (h : c.mcaDataFree b = .ok c') :
    c'.btreeCacheUsed = c.btreeCacheUsed - 1 ∧ c'.sizes = c.sizes := by
  unfold mcaDataFree at h
  split at h
  · cases h
  · cases h
    exact ⟨rfl, rfl⟩

section Sections

variable {t nr : Nat}

/-- The loop over `btree_cache_freeable` frees one container for each count it adds to
`freed`, and stops counting at the budget. -/
theorem scanFreeable_count : ∀ {c c' : CacheSet} (l : List Nat) (i freed freed' : Nat),
    c.scanFreeable t nr l i freed = .ok (c', freed') → freed ≤ nr →
    freed ≤ freed' ∧ freed' ≤ nr ∧
      c'.btreeCacheUsed = c.btreeCacheUsed - (freed' - freed) ∧ c'.sizes = c.sizes
  | c, c', [], _, freed, freed', h, hf => by
    obtain ⟨rfl, rfl⟩ := Prod.mk.inj (Except.ok.inj h)
    exact ⟨le_rfl, hf, by rw [Nat.sub_self, Nat.sub_zero], rfl⟩
  | c, c', b :: l, i, freed, freed', h, hf => by
    simp only [scanFreeable] at h
    split_ifs at h with hnr hi
    · obtain ⟨rfl, rfl⟩ := Prod.mk.inj (Except.ok.inj h)
      exact ⟨le_rfl, hf, by rw [Nat.sub_self, Nat.sub_zero], rfl⟩
    · split at h
      · rename_i c₁ hr
        obtain ⟨c₂, hdf, h⟩ := bind_eq_ok h
        obtain ⟨hu₁, hz₁⟩ := mcaReapNotrace_count hr
        obtain ⟨hu₂, hz₂⟩ := mcaDataFree_count hdf
        obtain ⟨hle, hnr', hu, hz⟩ := scanFreeable_count l (i + 1) (freed + 1) freed' h (by omega)
        refine ⟨by omega, hnr', ?_, hz.trans (hz₂.trans hz₁)⟩
        rw [hu, show (c₂.unlockNode b).btreeCacheUsed = c₂.btreeCacheUsed from rfl, hu₂, hu₁]
        omega
      · exact scanFreeable_count l (i + 1) freed freed' h hf
    · exact scanFreeable_count l (i + 1) freed freed' h hf

/-- A walk of `btree_cache` either returns the pages counted so far, having freed nothing,
or frees one more container while the budget is not met. -/
theorem scanWalk_count : ∀ {c c' : CacheSet} (pre l : List Nat) (freed : Nat) {pc : ScanPc},
    c.scanWalk t nr pre l freed = .ok (c', pc) → c'.sizes = c.sizes ∧
      ((pc = .done (freed * c.btreePages) ∧ c'.btreeCacheUsed = c.btreeCacheUsed) ∨
        ∃ b, pc = .evicted b nr (freed + 1) ∧ freed < nr ∧
          c'.btreeCacheUsed = c.btreeCacheUsed - 1)
  | c, c', _, [], freed, pc, h => by
    obtain ⟨rfl, rfl⟩ := Prod.mk.inj (Except.ok.inj h)
    exact ⟨rfl, .inl ⟨rfl, rfl⟩⟩
  | c, c', pre, b :: rest, freed, pc, h => by
    simp only [scanWalk] at h
    split_ifs at h with hnr hacc
    · obtain ⟨rfl, rfl⟩ := Prod.mk.inj (Except.ok.inj h)
      exact ⟨rfl, .inl ⟨rfl, rfl⟩⟩
    · have := scanWalk_count (pre ++ [b]) rest freed h
      exact this
    split at h
    · rename_i c₁ hr
      obtain ⟨c₂, hdf, h⟩ := bind_eq_ok h
      obtain ⟨rfl, rfl⟩ := Prod.mk.inj (Except.ok.inj h)
      obtain ⟨hu₁, hz₁⟩ := mcaReapNotrace_count hr
      obtain ⟨hu₂, hz₂⟩ := mcaDataFree_count hdf
      exact ⟨hz₂.trans hz₁, .inr ⟨b, rfl, by omega, hu₂.trans (by rw [← hu₁]; rfl)⟩⟩
    · have := scanWalk_count (pre ++ [b]) rest freed h
      exact this

end Sections

/-! ## What a scan has freed -/

/-- What a scan by one task has freed at `pc`, counted against the state `c₀` it started
from: one container of `btree_cache_used` for each count of `freed`, which stays within a
budget of at most `mca_can_free(c₀)`; once it has returned, the value is the pages of the
containers freed, or `SHRINK_STOP` with nothing freed. -/
def Counted (c₀ c : CacheSet) : ScanPc → Prop
  | .start => c.btreeCacheUsed = c₀.btreeCacheUsed
  | .evicted _ nr freed =>
    freed ≤ nr ∧ nr ≤ c₀.mcaCanFree ∧ c.btreeCacheUsed = c₀.btreeCacheUsed - freed
  | .restart nr freed =>
    freed ≤ nr ∧ nr ≤ c₀.mcaCanFree ∧ c.btreeCacheUsed = c₀.btreeCacheUsed - freed
  | .done r => (r = shrinkStop ∧ c.btreeCacheUsed = c₀.btreeCacheUsed) ∨
    ∃ freed ≤ c₀.mcaCanFree, c.btreeCacheUsed = c₀.btreeCacheUsed - freed ∧
      r = freed * c₀.btreePages

/-- What holds between two sections of a scan started from `c₀` and run by one task. -/
structure ScanCount (c₀ c : CacheSet) (pc : ScanPc) : Prop where
  sizes : c.sizes = c₀.sizes
  counted : Counted c₀ c pc

theorem ScanCount.start (c : CacheSet) : ScanCount c c .start := ⟨rfl, rfl⟩

/-- The first section: the budget, the loop over `btree_cache_freeable` and a first walk. -/
theorem ScanCount.step_start {c₀ c c' : CacheSet} {t : Nat} {sc : ShrinkControl} {pc' : ScanPc}
    (h : ScanCount c₀ c .start) (hs : c.scanStep t sc .start = .ok (c', pc')) :
    ScanCount c₀ c' pc' := by
  obtain ⟨hz, hu⟩ := h
  have hu : c.btreeCacheUsed = c₀.btreeCacheUsed := hu
  have hcf : min (sc.nrToScan / c.btreePages) c.mcaCanFree ≤ c₀.mcaCanFree :=
    (min_le_right _ _).trans (mcaCanFree_congr hu hz).le
  simp only [scanStep] at hs
  split_ifs at hs
  · obtain ⟨rfl, rfl⟩ := Prod.mk.inj (Except.ok.inj hs)
    exact ⟨hz, .inl ⟨rfl, hu⟩⟩
  · obtain ⟨rfl, rfl⟩ := Prod.mk.inj (Except.ok.inj hs)
    exact ⟨hz, .inl ⟨rfl, hu⟩⟩
  obtain ⟨⟨c₁, f₁⟩, hf, hw⟩ := bind_eq_ok hs
  dsimp only at hw
  obtain ⟨-, hf₁, hu₁, hz₁⟩ := scanFreeable_count _ 0 0 f₁ hf (Nat.zero_le _)
  rw [Nat.sub_zero] at hu₁
  obtain ⟨hz₂, ⟨rfl, hu₂⟩ | ⟨b, rfl, hlt, hu₂⟩⟩ := scanWalk_count [] _ f₁ hw
  · exact ⟨hz₂.trans (hz₁.trans hz), .inr ⟨f₁, hf₁.trans hcf, by omega,
      congrArg (f₁ * ·) (pages_of_sizes (hz₁.trans hz))⟩⟩
  · exact ⟨hz₂.trans (hz₁.trans hz), by omega, hcf, by omega⟩

/-- Every section keeps the count. -/
theorem ScanCount.step {c₀ c c' : CacheSet} {t : Nat} {sc : ShrinkControl} {pc pc' : ScanPc}
    (h : ScanCount c₀ c pc) (hs : c.scanStep t sc pc = .ok (c', pc')) : ScanCount c₀ c' pc' := by
  cases pc with
  | start => exact h.step_start hs
  | evicted b nr freed =>
    obtain ⟨hz, hle, hcf, hu⟩ := h
    obtain ⟨c₁, hrm, hs⟩ := bind_eq_ok hs
    obtain ⟨rfl, rfl⟩ := Prod.mk.inj (Except.ok.inj hs)
    obtain ⟨-, rfl⟩ := mcaHashRemove_eq_ok hrm
    refine ⟨hz, ?_⟩
    split_ifs with hnr
    · exact .inr ⟨freed, hle.trans hcf, hu, congrArg (freed * ·) (pages_of_sizes hz)⟩
    · exact ⟨hle, hcf, hu⟩
  | restart nr freed =>
    obtain ⟨hz, hle, hcf, hu⟩ := h
    obtain ⟨hz₂, ⟨rfl, hu₂⟩ | ⟨b, rfl, hlt, hu₂⟩⟩ := scanWalk_count [] _ freed hs
    · exact ⟨hz₂.trans hz, .inr ⟨freed, hle.trans hcf, hu₂.trans hu,
        congrArg (freed * ·) (pages_of_sizes hz)⟩⟩
    · exact ⟨hz₂.trans hz, by omega, hcf, by omega⟩
  | done r =>
    obtain ⟨rfl, rfl⟩ := Prod.mk.inj (Except.ok.inj hs)
    exact h

/-- A run of sections keeps the count. -/
theorem ScanCount.run {c₀ : CacheSet} {t : Nat} {sc : ShrinkControl} :
    ∀ (fuel : Nat) {c c' : CacheSet} {pc pc' : ScanPc},
      ScanCount c₀ c pc → scanRun t sc fuel c pc = .ok (c', pc') → ScanCount c₀ c' pc'
  | 0, _, _, _, _, h, hr => by
    obtain ⟨rfl, rfl⟩ := Prod.mk.inj (Except.ok.inj hr)
    exact h
  | fuel + 1, c, c', pc, pc', h, hr => by
    cases pc with
    | done r =>
      obtain ⟨rfl, rfl⟩ := Prod.mk.inj (Except.ok.inj hr)
      exact h
    | start | evicted | restart =>
      rw [scanRun.eq_3 _ _ _ _ _ (by simp)] at hr
      obtain ⟨⟨c₁, pc₁⟩, hs, hr⟩ := bind_eq_ok hr
      exact ScanCount.run fuel (h.step hs) hr

/-- `bch_mca_scan` run by one task from a state satisfying the invariant (so from every
reachable state) returns having freed at most `mca_can_free(c)` containers:
`btree_cache_reserve` is unchanged, `btree_cache_used` does not grow and ends at or above
the reserve (or where it was, if it was below), and the value returned is the pages of
the containers freed, unless it is `SHRINK_STOP`. -/
theorem CacheInv.bchMcaScan_keeps_reserve {c : CacheSet} (hc : CacheInv c []) (t : Nat)
    (sc : ShrinkControl) :
    ∃ c' r, c.bchMcaScan t sc = .ok (c', r) ∧ c'.btreeCacheReserve = c.btreeCacheReserve ∧
      min c.btreeCacheUsed c.btreeCacheReserve ≤ c'.btreeCacheUsed ∧
      c'.btreeCacheUsed ≤ c.btreeCacheUsed ∧
      (r = shrinkStop ∨ r = (c.btreeCacheUsed - c'.btreeCacheUsed) * c.btreePages) := by
  obtain ⟨c₁, pc, hs, hi, -, -, hns, hb⟩ := hc.scanStep_start t sc
  obtain ⟨c', r, hrun, -, -⟩ := @scanRun_done t sc (2 * c.mcaCanFree + 1) _ _ hi hns hb
  obtain ⟨hz, hn⟩ := ScanCount.run _ ((ScanCount.start c).step hs) hrun
  refine ⟨c', r, ?_, congrArg Prod.fst hz, ?_⟩
  · rw [CacheSet.bchMcaScan, scanRun.eq_3 _ _ _ _ _ (by simp)]
    simp [hs, hrun]
    rfl
  · rcases hn with ⟨rfl, hu⟩ | ⟨freed, hle, hu, rfl⟩
    · rw [hu]
      exact ⟨Nat.min_le_left _ _, le_rfl, .inl rfl⟩
    · unfold mcaCanFree at hle
      refine ⟨by omega, by omega, .inr ?_⟩
      rw [show c.btreeCacheUsed - c'.btreeCacheUsed = freed by omega]

/-- Scan `A` of the run below, run alone from the same state. -/
theorem bchMcaScan_keeps_reserve_breachStart :
    CacheInv breachStart [] ∧
      ∃ c' r, breachStart.bchMcaScan 2 ⟨2⟩ = .ok (c', r) ∧
        c'.btreeCacheReserve = breachStart.btreeCacheReserve ∧
        min breachStart.btreeCacheUsed breachStart.btreeCacheReserve ≤ c'.btreeCacheUsed ∧
        c'.btreeCacheUsed ≤ breachStart.btreeCacheUsed ∧
        (r = shrinkStop ∨ r = (breachStart.btreeCacheUsed - c'.btreeCacheUsed) *
          breachStart.btreePages) :=
  ⟨reachable_breachStart.cacheInv,
    CacheInv.bchMcaScan_keeps_reserve reachable_breachStart.cacheInv 2 ⟨2⟩⟩

/-! ## Two scans interleaved

The run below starts from `breachStart`, with two nodes above the reserve, all on
`btree_cache` and all evictable. Scan `A` (task 2, two nodes' worth of pages) evicts one
node and drops the lock; scan `B` (task 3, one node's worth) then evicts another, which
brings `btree_cache_used` down to `btree_cache_reserve`; `A` restarts and evicts a third
node, leaving the cache one node below its reserve. -/

/-- The cache set after task `t` runs the section of its scan at `pc`. -/
def afterSection (c : CacheSet) (t : Nat) (sc : ShrinkControl) (pc : ScanPc) : CacheSet :=
  match c.scanStep t sc pc with
  | .ok (c', _) => c'
  | .error _ => c

/-- `A`'s first section: it evicts node `17`. -/
def afterAStart : CacheSet := breachStart.afterSection 2 ⟨2⟩ .start
/-- `B`'s first section: it evicts node `16`. -/
def afterBStart : CacheSet := afterAStart.afterSection 3 ⟨1⟩ .start
/-- `B` unhashes node `16` and returns. -/
def afterBEvicted : CacheSet := afterBStart.afterSection 3 ⟨1⟩ (.evicted 16 1 1)
/-- `A` unhashes node `17` and goes back to `restart`. -/
def afterAEvicted : CacheSet := afterBEvicted.afterSection 2 ⟨2⟩ (.evicted 17 2 1)
/-- `A` walks `btree_cache` again and evicts node `0`. -/
def afterARestart : CacheSet := afterAEvicted.afterSection 2 ⟨2⟩ (.restart 2 1)

set_option maxRecDepth 4000 in
/-- Two interleaved scans from a reachable state with two nodes above the reserve: the
last section frees node `0`'s data while `btree_cache_used = btree_cache_reserve`, and
leaves the cache one node below its reserve. -/
theorem concurrent_scans_free_below_reserve :
    Reachable breachStart ∧ breachStart.btreeCacheUsed = breachStart.btreeCacheReserve + 2 ∧
    breachStart.scanStep 2 ⟨2⟩ .start = .ok (afterAStart, .evicted 17 2 1) ∧
    afterAStart.scanStep 3 ⟨1⟩ .start = .ok (afterBStart, .evicted 16 1 1) ∧
    afterBStart.scanStep 3 ⟨1⟩ (.evicted 16 1 1) = .ok (afterBEvicted, .done 1) ∧
    afterBEvicted.scanStep 2 ⟨2⟩ (.evicted 17 2 1) = .ok (afterAEvicted, .restart 2 1) ∧
    afterAEvicted.scanStep 2 ⟨2⟩ (.restart 2 1) = .ok (afterARestart, .evicted 0 2 2) ∧
    afterAEvicted.btreeCacheUsed = afterAEvicted.btreeCacheReserve ∧
    (afterAEvicted.nodes 0).data = true ∧ (afterARestart.nodes 0).data = false ∧
    afterARestart.btreeCacheUsed + 1 = afterARestart.btreeCacheReserve :=
  ⟨reachable_breachStart, rfl, rfl, rfl, rfl, rfl, rfl, rfl, rfl, rfl, rfl⟩

end CacheSet

end Libbcache
