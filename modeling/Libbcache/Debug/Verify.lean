import Mathlib.Data.List.Basic

/-!
# Verifying against the disk

Two checks built with `CONFIG_BCACHE_DEBUG`:

* `__bch_btree_verify` takes the node's io lock and the cache set's `verify_lock`, reads
  the node back through one of its pointers, panics if the keys read back differ from
  those in memory, and releases both locks. When no pointer can be picked it returns early
  and releases neither (`bchBtreeVerify_unlocked`). Every later verify that does not stop
  at `nochanges` then waits for `verify_lock` forever: a run of verifies with no mismatch
  blocks exactly when a failed pick is followed by another verify
  (`runVerify_blocked_iff`).
* `bch_data_verify` clones a bio, reads the data again into pages of its own, and panics
  at the first segment that differs. It takes nothing it does not give back: when it
  returns, the clone, its pages and every mapping are released (`bchDataVerify_releases`).
-/

namespace Libbcache

/-! ## `__bch_btree_verify` -/

/-- What one call of `__bch_btree_verify` depends on: `c->opts.nochanges`, the node `b`,
whether `bch_btree_pick_ptr` found a device, and whether the keys read back are those in
memory. -/
structure VerifyCall where
  nochanges : Bool
  b : Nat
  pickOk : Bool
  same : Bool
  deriving DecidableEq, Repr

/-- The locks `__bch_btree_verify` takes: the io locks of nodes, and `verify_lock`. -/
structure VerifyLocks where
  ioLocked : List Nat
  verifyLock : Bool
  deriving DecidableEq, Repr

/-- No lock held. -/
def VerifyLocks.unlocked : VerifyLocks := ⟨[], false⟩

/-- How a call ends: it returns with the locks in a state, it waits forever for a lock,
or it panics with "verify failed". -/
inductive VerifyResult
  | done (s : VerifyLocks)
  | blocked
  | panic
  deriving DecidableEq, Repr

/-- `__bch_btree_verify(c, b)`. Only verifies take these locks here, so a lock found held
was kept by an earlier verify and is never released: waiting for it never ends. -/
def bchBtreeVerify (v : VerifyCall) (s : VerifyLocks) : VerifyResult :=
  if v.nochanges then .done s
  else if v.b ∈ s.ioLocked ∨ s.verifyLock = true then .blocked
  else if !v.pickOk then .done ⟨v.b :: s.ioLocked, true⟩
  else if !v.same then .panic
  else .done s

/-- Verifies one after the other, until one does not return. -/
def runVerify : List VerifyCall → VerifyLocks → VerifyResult
  | [], s => .done s
  | v :: vs, s =>
    match bchBtreeVerify v s with
    | .done s' => runVerify vs s'
    | r => r

/-- The call returns early, after taking the locks: it gets past `nochanges` and finds no
pointer. -/
def VerifyCall.leaks (v : VerifyCall) : Bool := !v.nochanges && !v.pickOk

/-- From no lock held, a verify without mismatch leaves no lock held, unless it leaks. -/
theorem bchBtreeVerify_unlocked {v : VerifyCall} (hs : v.same = true) :
    bchBtreeVerify v .unlocked =
      if v.leaks then .done ⟨[v.b], true⟩ else .done .unlocked := by
  cases hn : v.nochanges <;> cases hp : v.pickOk <;>
    simp [bchBtreeVerify, VerifyCall.leaks, VerifyLocks.unlocked, hn, hp, hs]

/-- Once `verify_lock` is kept, every verify past `nochanges` blocks. -/
theorem runVerify_locked {s : VerifyLocks} (hl : s.verifyLock = true) :
    ∀ vs : List VerifyCall,
      runVerify vs s = if vs.any (fun v => !v.nochanges) then .blocked else .done s
  | [] => rfl
  | v :: vs => by
    cases hn : v.nochanges
    · simp [runVerify, bchBtreeVerify, hn, hl]
    · simp [runVerify, bchBtreeVerify, hn, runVerify_locked hl vs]

/-- A run that blocks has a verify past `nochanges`. -/
theorem runVerify_blocked_any : ∀ {vs : List VerifyCall} {s : VerifyLocks},
    runVerify vs s = .blocked → vs.any (fun v => !v.nochanges) = true
  | [], _, h => by cases h
  | v :: vs, s, h => by
    cases hn : v.nochanges
    · simp [hn]
    · simp only [runVerify, bchBtreeVerify, hn, if_true] at h
      simp [runVerify_blocked_any h]

theorem exists_append_cons_iff {α : Type} {P : α → List α → Prop} {a : α} {l : List α} :
    (∃ pre x post, a :: l = pre ++ x :: post ∧ P x post) ↔
      P a l ∨ ∃ pre x post, l = pre ++ x :: post ∧ P x post := by
  constructor
  · rintro ⟨_ | ⟨p, pre⟩, x, post, h, hp⟩
    · obtain ⟨rfl, rfl⟩ := List.cons.inj h
      exact .inl hp
    · exact .inr ⟨pre, x, post, (List.cons.inj h).2, hp⟩
  · rintro (hp | ⟨pre, x, post, rfl, hp⟩)
    · exact ⟨[], a, l, rfl, hp⟩
    · exact ⟨a :: pre, x, post, rfl, hp⟩

/-- A run of verifies from no lock held, none of which finds a mismatch, blocks exactly
when one of them leaks its locks and a later one gets past `nochanges`. -/
theorem runVerify_blocked_iff {vs : List VerifyCall} (hs : ∀ v ∈ vs, v.same = true) :
    runVerify vs .unlocked = .blocked ↔
      ∃ pre v post, vs = pre ++ v :: post ∧ v.leaks = true ∧
        post.any (fun v => !v.nochanges) = true := by
  induction vs with
  | nil => simp [runVerify]
  | cons v vs ih =>
    have hv := hs v (List.mem_cons_self v vs)
    rw [exists_append_cons_iff, ← ih fun w hw => hs w (List.mem_cons_of_mem v hw),
      runVerify, bchBtreeVerify_unlocked hv]
    cases hl : v.leaks
    · simp
    · have hkept : runVerify vs ⟨[v.b], true⟩ = .blocked ↔
          vs.any (fun v => !v.nochanges) = true := by
        rw [runVerify_locked (s := ⟨[v.b], true⟩) rfl]
        split <;> simp [*]
      simp only [if_true, hkept, true_and]
      exact ⟨.inl, fun h => h.elim id runVerify_blocked_any⟩

/-- A verify of node 1 finds no device, then a verify of node 2 is made. -/
def leakThenVerify : List VerifyCall := [⟨false, 1, false, true⟩, ⟨false, 2, true, true⟩]

theorem runVerify_blocked_iff_leakThenVerify :
    (∀ v ∈ leakThenVerify, v.same = true) ∧
      (runVerify leakThenVerify .unlocked = .blocked ↔
        ∃ pre v post, leakThenVerify = pre ++ v :: post ∧ v.leaks = true ∧
          post.any (fun v => !v.nochanges) = true) :=
  have hs : ∀ v ∈ leakThenVerify, v.same = true := by decide
  ⟨hs, runVerify_blocked_iff hs⟩

/-- The verify of node 2 waits for `verify_lock` forever. -/
example : runVerify leakThenVerify .unlocked = .blocked := by decide

/-! ## `bch_data_verify` -/

/-- What `bch_data_verify` takes and gives back: the clone, its pages, and the mapping of
segment `i` of the bio. -/
inductive DataRes
  | clone
  | pages
  | kmap (i : Nat)
  deriving DecidableEq, Repr

/-- Taking or giving back a resource. -/
inductive DataEv
  | take (r : DataRes)
  | give (r : DataRes)
  deriving DecidableEq, Repr

/-- The resources held after the events, from `held`; `none` if one is given back that is
not held. -/
def heldAfter : List DataRes → List DataEv → Option (List DataRes)
  | held, [] => some held
  | held, .take r :: evs => heldAfter (r :: held) evs
  | held, .give r :: evs => if r ∈ held then heldAfter (held.erase r) evs else none

/-- The `bio_for_each_segment` loop of `bch_data_verify`, from segment `i`: `kmap_atomic`,
`memcmp` and `kunmap_atomic` for each segment, where `segs` says which segments compare
equal. The events, and whether it panicked. -/
def compareSegments : Nat → List Bool → List DataEv × Bool
  | _, [] => ([], false)
  | i, same :: segs =>
    if same then
      (.take (.kmap i) :: .give (.kmap i) :: (compareSegments (i + 1) segs).1,
        (compareSegments (i + 1) segs).2)
    else ([.take (.kmap i)], true)

/-- `bch_data_verify`: `bio_clone`, which may fail; `bio_alloc_pages`, which may fail
having kept nothing; the comparison; `bio_free_pages` and `bio_put`. The events, and
whether it panicked. -/
def bchDataVerify (cloneOk allocOk : Bool) (segs : List Bool) : List DataEv × Bool :=
  if !cloneOk then ([], false)
  else if !allocOk then ([.take .clone, .give .clone], false)
  else if (compareSegments 0 segs).2 then
    (.take .clone :: .take .pages :: (compareSegments 0 segs).1, true)
  else
    (.take .clone :: .take .pages :: (compareSegments 0 segs).1 ++ [.give .pages, .give .clone],
      false)

theorem heldAfter_append : ∀ (held : List DataRes) (evs evs' : List DataEv),
    heldAfter held (evs ++ evs') = (heldAfter held evs).bind (heldAfter · evs')
  | _, [], _ => rfl
  | held, .take r :: evs, evs' => heldAfter_append (r :: held) evs evs'
  | held, .give r :: evs, evs' => by
    by_cases hr : r ∈ held
    · simp only [List.cons_append, heldAfter, if_pos hr]
      exact heldAfter_append _ evs evs'
    · simp [heldAfter, hr]

/-- The comparison panics at the first segment that differs; otherwise it unmaps every
segment it mapped. -/
theorem compareSegments_spec (held : List DataRes) : ∀ (i : Nat) (segs : List Bool),
    (compareSegments i segs).2 = segs.any (! ·) ∧
      ((compareSegments i segs).2 = false → heldAfter held (compareSegments i segs).1 = some held)
  | _, [] => ⟨rfl, fun _ => rfl⟩
  | i, true :: segs => by
    obtain ⟨h1, h2⟩ := compareSegments_spec held (i + 1) segs
    refine ⟨by simpa [compareSegments] using h1, fun h => ?_⟩
    simp only [compareSegments, if_true] at h ⊢
    simp [heldAfter, h2 h]
  | _, false :: _ => ⟨rfl, nofun⟩

/-- `bch_data_verify` panics exactly when the clone and its pages were obtained and a
segment differs; when it returns, it has given back everything it took, and nothing it did
not take. -/
theorem bchDataVerify_releases (cloneOk allocOk : Bool) (segs : List Bool) :
    (bchDataVerify cloneOk allocOk segs).2 = (cloneOk && allocOk && segs.any (! ·)) ∧
      ((bchDataVerify cloneOk allocOk segs).2 = false →
        heldAfter [] (bchDataVerify cloneOk allocOk segs).1 = some []) := by
  cases cloneOk
  · exact ⟨rfl, fun _ => rfl⟩
  cases allocOk
  · exact ⟨rfl, fun _ => rfl⟩
  obtain ⟨h1, h2⟩ := compareSegments_spec [.pages, .clone] 0 segs
  simp only [bchDataVerify, Bool.not_true, Bool.false_eq_true, ↓reduceIte, Bool.true_and]
  by_cases hp : (compareSegments 0 segs).2
  · simp [hp, ← h1]
  · simp only [hp, ↓reduceIte, ← h1, heldAfter, List.cons_append, heldAfter_append,
      h2 (by simpa using hp)]
    exact ⟨rfl, fun _ => by decide⟩

end Libbcache
