import Libbcache.Request.Read

/-!
# The make_request functions

`__cached_dev_make_request` sends a zero-length bio (a flush) to the backing device,
waiting for a journal flush if it is `REQ_PREFLUSH` or `REQ_FUA`, and otherwise reads
(`cached_dev_read`) or writes (`cached_dev_write`). `__blockdev_volume_make_request`
serves a flash-only volume from the cache set alone. Each ends with `continue_at`, so
the search is freed once everything it waits on has finished.

Four paths break the accounting of `s->cl`:
* in `__blockdev_volume_make_request` the zero-length branch calls
  `continue_at(&s->cl, search_free, NULL)` and does not return, so the
  `continue_at` after the `if` runs too: the search is freed twice;
* a bypassed write sends `s->orig_bio` itself with `closure_bio_submit`, but its
  `bi_end_io` is the submitter's, not `request_endio`, so the reference it took is
  never dropped and the search is never freed;
* a write through sends a `bio_clone_fast` clone, which copies no `bi_end_io`, so its
  reference is never dropped either;
* a read miss without bypass takes a reference for `__cache_promote`, whose body is
  compiled out, so that reference is never dropped either: the search is never freed
  and the original bio never completed.

The search is never freed on any of the last three, whatever finishes
(`cachedDevMakeRequest_never_freed`).

What the code outside this repository answers, `bch_keybuf_check_overlapping`,
`should_writeback`, `blk_queue_discard` and `bch_disk_reservation_get`, is an input.
-/

namespace Libbcache

/-- The answers `cached_dev_write` gets from outside this repository. -/
structure WriteChoice where
  /-- `bch_keybuf_check_overlapping` found dirty data under writeback. -/
  overlapping : Bool
  /-- `should_writeback`. -/
  shouldWriteback : Bool
  /-- `blk_queue_discard` of the backing device. -/
  discardSupported : Bool
  deriving DecidableEq, Repr

/-- `-ENOSPC`. -/
def ENOSPC : Int := 28

/-- `bch_read(c, &s->rbio, inode)`: it reads the volume's extents into the rbio, whose
completion runs `request_endio`. -/
def bchRead (s : Search) : Search := { s with inflight := s.inflight ++ [.requestEndio] }

/-- The `bypass` and `writeback` that `cached_dev_write` ends up with: dirty data under
writeback forces writeback, a discard is bypassed, and `should_writeback` has the last
word. -/
def writeDecision (w : WriteChoice) (bypass : Bool) (op : ReqOp) : Bool × Bool :=
  let (bypass, writeback) := if w.overlapping then (false, true) else (bypass, false)
  let bypass := bypass || op == .discard
  if w.shouldWriteback then (false, true) else (bypass, writeback)

/-- What `cached_dev_write` sends to the backing device: the original bio itself when
bypassing, a flush when writing back a `REQ_PREFLUSH` bio, and a clone when writing
through, which `bio_clone_fast` leaves with no `bi_end_io`. -/
def writeSubmit (w : WriteChoice) (bypass writeback : Bool) (s : Search) : Search :=
  let bio := s.bio
  if bypass then
    if bio.op != .discard || w.discardSupported then
      s.closureBioSubmit ⟨.backing, bio.sector, bio.size / 2 ^ 9, true⟩ .origEndio
    else s
  else if writeback then
    if bio.preflush then s.closureBioSubmit ⟨.backing, 0, 0, true⟩ .requestEndio else s
  else s.closureBioSubmit ⟨.backing, bio.sector, bio.size / 2 ^ 9, true⟩ .noEndio

/-- `cached_dev_write(dc, s)`. -/
def cachedDevWrite (w : WriteChoice) (bypass : Bool) (s : Search) : Search :=
  let d := writeDecision w bypass s.bio.op
  (writeSubmit w d.1 d.2 s).closureCall.continueAt .cachedDevWriteComplete Search.cachedDevWriteComplete

/-- `__cached_dev_make_request` once `cached_dev_get` has succeeded, with `bypass` what
`check_should_bypass` decided and `keys` what a read's iterator yields. -/
def cachedDevMakeRequest (dc : CachedDevConf) (bypass : Bool) (w : WriteChoice) (keys : List Key)
    (bio : OrigBio) : Search :=
  let s := Search.alloc bio
  if bio.size = 0 then
    let s := if bio.preflush || bio.fua then s.journalFlushAsync else s
    let s := s.closureBioSubmit ⟨.backing, bio.sector, 0, bio.op.isWrite⟩ .requestEndio
    s.continueAt .cachedDevBioComplete Search.cachedDevBioComplete
  else if bio.op.isWrite then cachedDevWrite w bypass s
  else cachedDevRead dc bypass keys s

/-- `__blockdev_volume_make_request`, with `reserved` whether `bch_disk_reservation_get`
succeeds. The zero-length branch does not return after its `continue_at`, so it also
runs the one after the `if`. -/
def blockdevVolumeMakeRequest (reserved : Bool) (bio : OrigBio) : Search :=
  let s := Search.alloc bio
  if bio.size = 0 then
    let s := if bio.preflush || bio.fua then s.journalFlushAsync else s
    let s := s.continueAt .searchFree Search.searchFree
    s.continueAt .searchFree Search.searchFree
  else if bio.op.isWrite then
    if bio.op != .discard && !reserved then
      { s with error := -ENOSPC }.continueAt .searchFree Search.searchFree
    else s.closureCall.continueAt .searchFree Search.searchFree
  else (bchRead s.closureGet).continueAt .searchFree Search.searchFree

/-! ## Paths that keep the search balanced -/

section Balanced

open Search

/-- A volume bio with data leaves the search settled: a write waits for `bch_write`, a read
for `bch_read`, and a write without a reservation is freed at once. -/
theorem blockdevVolumeMakeRequest_settled (reserved : Bool) {bio : OrigBio} (h : bio.size ≠ 0) :
    (blockdevVolumeMakeRequest reserved bio).Settled := by
  have hs := running_alloc bio
  unfold blockdevVolumeMakeRequest
  simp only [h, if_false]
  split_ifs
  · exact .inr (Running.continueAt_nil (s := { alloc bio with error := -ENOSPC }) hs rfl _)
  · exact .inl (hs.closureCall.continueAt (by simp [closureCall]) _ _)
  · exact .inl ((hs.push (c := .requestEndio) rfl (bchRead (alloc bio).closureGet) rfl rfl rfl rfl
      rfl).continueAt (by simp [bchRead]) _ _)

/-- A zero-length bio on a cached device waits for its flush to the backing device, and
for the journal if it is `REQ_PREFLUSH` or `REQ_FUA`. -/
theorem cachedDevMakeRequest_flush_settled (dc : CachedDevConf) (bypass : Bool) (w : WriteChoice)
    (keys : List Key) {bio : OrigBio} (h : bio.size = 0) :
    (cachedDevMakeRequest dc bypass w keys bio).Settled := by
  have hs := running_alloc bio
  unfold cachedDevMakeRequest
  simp only [h, if_true]
  split_ifs
  · exact .inl ((hs.journalFlushAsync.closureBioSubmit _ (c := .requestEndio) rfl).continueAt (by simp) _ _)
  · exact .inl ((hs.closureBioSubmit _ (c := .requestEndio) rfl).continueAt (by simp) _ _)

/-- A discard that is not bypassed is written back: `should_writeback` overrode it. -/
theorem writeDecision_discard (w : WriteChoice) (bypass : Bool)
    (h : (writeDecision w bypass .discard).1 = false) : writeDecision w bypass .discard = (false, true) := by
  unfold writeDecision at h ⊢
  cases hw : w.shouldWriteback <;> simp [hw] at h ⊢

/-- A write that sends down only bios completing through `request_endio` (it is written
back, or it is a discard the backing device cannot take) leaves the search waiting for
`bch_write` and for what it sent to the backing device. -/
theorem cachedDevWrite_settled (w : WriteChoice) (bypass : Bool) (bio : OrigBio)
    (h : writeDecision w bypass bio.op = (false, true) ∨ (bio.op = .discard ∧ w.discardSupported = false)) :
    (cachedDevWrite w bypass (alloc bio)).Settled := by
  have hs := running_alloc bio
  have hwb : writeDecision w bypass bio.op = (false, true) →
      (writeSubmit w (writeDecision w bypass bio.op).1 (writeDecision w bypass bio.op).2
        (alloc bio)).Running := by
    intro h
    rw [h]
    unfold writeSubmit
    simp only [Bool.false_eq_true, if_false, if_true]
    split_ifs
    · exact hs.closureBioSubmit _ (c := .requestEndio) rfl
    · exact hs
  have hsub : (writeSubmit w (writeDecision w bypass bio.op).1 (writeDecision w bypass bio.op).2
      (alloc bio)).Running := by
    obtain h | ⟨hd, hn⟩ := h
    · exact hwb h
    rcases Bool.eq_false_or_eq_true (writeDecision w bypass bio.op).1 with hb | hb
    · have hop : (alloc bio).bio.op = .discard := hd
      simpa [writeSubmit, hb, hop, hn] using hs
    · exact hwb (by rw [hd] at hb ⊢; exact writeDecision_discard w bypass hb)
  exact .inl (hsub.closureCall.continueAt (by simp [closureCall]) _ _)

/-- The paths of `__cached_dev_make_request` that keep `s->cl` balanced: a zero-length
bio, and a write that sends down only bios completing through `request_endio`. -/
def BalancedPath (bypass : Bool) (w : WriteChoice) (bio : OrigBio) : Prop :=
  bio.size = 0 ∨
  (bio.op.isWrite = true ∧
    (writeDecision w bypass bio.op = (false, true) ∨ (bio.op = .discard ∧ w.discardSupported = false)))

theorem cachedDevMakeRequest_settled (dc : CachedDevConf) {bypass : Bool} {w : WriteChoice}
    {keys : List Key} {bio : OrigBio} (h : BalancedPath bypass w bio) :
    (cachedDevMakeRequest dc bypass w keys bio).Settled := by
  by_cases h0 : bio.size = 0
  · exact cachedDevMakeRequest_flush_settled dc bypass w keys h0
  · obtain h | ⟨hw, hd⟩ := h
    · exact absurd h h0
    · unfold cachedDevMakeRequest
      simpa [h0, hw] using cachedDevWrite_settled w bypass bio hd

/-- On a balanced path of a cached device, whatever finishes, in any order and with any
errors, once nothing is in flight the search has been freed once and the original bio
completed once. -/
theorem cachedDevMakeRequest_frees_once (dc : CachedDevConf) {bypass : Bool} {w : WriteChoice}
    {keys : List Key} {bio : OrigBio} (h : BalancedPath bypass w bio) {sched : List (Nat × Int)}
    {s' : Search} (hc : (cachedDevMakeRequest dc bypass w keys bio).completeAll dc sched = some s')
    (hnil : s'.inflight = []) : s'.Finished :=
  completeAll_finished (cachedDevMakeRequest_settled dc h) hc hnil

/-- The same for a volume bio with data. -/
theorem blockdevVolumeMakeRequest_frees_once (dc : CachedDevConf) (reserved : Bool) {bio : OrigBio}
    (h : bio.size ≠ 0) {sched : List (Nat × Int)} {s' : Search}
    (hc : (blockdevVolumeMakeRequest reserved bio).completeAll dc sched = some s')
    (hnil : s'.inflight = []) : s'.Finished :=
  completeAll_finished (blockdevVolumeMakeRequest_settled reserved h) hc hnil

end Balanced

/-! ## Paths that free the search twice or never -/

/-- A zero-length write with neither `REQ_PREFLUSH` nor `REQ_FUA`. -/
def emptyWrite : OrigBio := ⟨0, 0, .write, false, false⟩

/-- A 4 KiB write at sector `0`. -/
def smallWrite : OrigBio := ⟨0, 4096, .write, false, false⟩

/-- No dirty data under writeback, no reason to write back, discards supported. -/
def plainWrite : WriteChoice := ⟨false, false, true⟩

/-- A zero-length write to a cached device, completed by its one closure put. -/
theorem cachedDevMakeRequest_frees_once_emptyWrite :
    (BalancedPath false plainWrite emptyWrite ∧
      (cachedDevMakeRequest ⟨false⟩ false plainWrite [] emptyWrite).completeAll ⟨false⟩
          [(0, 0)] =
        some (((cachedDevMakeRequest ⟨false⟩ false plainWrite [] emptyWrite).completeAll
          ⟨false⟩ [(0, 0)]).getD (Search.alloc emptyWrite)) ∧
      (((cachedDevMakeRequest ⟨false⟩ false plainWrite [] emptyWrite).completeAll ⟨false⟩
          [(0, 0)]).getD (Search.alloc emptyWrite)).inflight = []) ∧
      (((cachedDevMakeRequest ⟨false⟩ false plainWrite [] emptyWrite).completeAll ⟨false⟩
          [(0, 0)]).getD (Search.alloc emptyWrite)).Finished :=
  have h : BalancedPath false plainWrite emptyWrite := .inl rfl
  have hc : (cachedDevMakeRequest ⟨false⟩ false plainWrite [] emptyWrite).completeAll ⟨false⟩
      [(0, 0)] = some (((cachedDevMakeRequest ⟨false⟩ false plainWrite [] emptyWrite).completeAll
        ⟨false⟩ [(0, 0)]).getD (Search.alloc emptyWrite)) := rfl
  have hn : (((cachedDevMakeRequest ⟨false⟩ false plainWrite [] emptyWrite).completeAll ⟨false⟩
      [(0, 0)]).getD (Search.alloc emptyWrite)).inflight = [] := rfl
  ⟨⟨h, hc, hn⟩, cachedDevMakeRequest_frees_once ⟨false⟩ h hc hn⟩

/-- A 4 KiB write to a volume with its reservation, completed by `bch_write`. -/
theorem blockdevVolumeMakeRequest_frees_once_smallWrite :
    (smallWrite.size ≠ 0 ∧
      (blockdevVolumeMakeRequest true smallWrite).completeAll ⟨false⟩ [(0, 0)] =
        some (((blockdevVolumeMakeRequest true smallWrite).completeAll ⟨false⟩
          [(0, 0)]).getD (Search.alloc smallWrite)) ∧
      (((blockdevVolumeMakeRequest true smallWrite).completeAll ⟨false⟩ [(0, 0)]).getD
          (Search.alloc smallWrite)).inflight = []) ∧
      (((blockdevVolumeMakeRequest true smallWrite).completeAll ⟨false⟩ [(0, 0)]).getD
          (Search.alloc smallWrite)).Finished :=
  have h : smallWrite.size ≠ 0 := by decide
  have hc : (blockdevVolumeMakeRequest true smallWrite).completeAll ⟨false⟩ [(0, 0)] =
      some (((blockdevVolumeMakeRequest true smallWrite).completeAll ⟨false⟩
        [(0, 0)]).getD (Search.alloc smallWrite)) := rfl
  have hn : (((blockdevVolumeMakeRequest true smallWrite).completeAll ⟨false⟩ [(0, 0)]).getD
      (Search.alloc smallWrite)).inflight = [] := rfl
  ⟨⟨h, hc, hn⟩, blockdevVolumeMakeRequest_frees_once ⟨false⟩ true h hc hn⟩

/-- A zero-length volume bio frees its search twice; a bypassed write to a cached device,
after both its bio and `bch_write` have finished, has nothing in flight yet its search is
never freed; a read of a hole without bypass has nothing in flight, has not completed the
original bio and never frees its search. -/
theorem search_freed_twice_or_never :
    (blockdevVolumeMakeRequest true emptyWrite).inflight = [] ∧
    (blockdevVolumeMakeRequest true emptyWrite).freed = 2 ∧
    ((cachedDevMakeRequest ⟨false⟩ true plainWrite [] smallWrite).completeAll ⟨false⟩ [(1, 0), (0, 0)]).map
      (fun s => (s.inflight, s.ended, s.freed)) = some ([], 1, 0) ∧
    ((cachedDevMakeRequest ⟨false⟩ false plainWrite holeKeys holeRead).inflight,
      (cachedDevMakeRequest ⟨false⟩ false plainWrite holeKeys holeRead).ended,
      (cachedDevMakeRequest ⟨false⟩ false plainWrite holeKeys holeRead).freed) = ([], 0, 0) :=
  ⟨rfl, rfl, rfl, rfl⟩

section Leaking

open Search

/-- A write that sends `s->orig_bio` itself, or a `bio_clone_fast` clone, holds one more
reference for good. -/
theorem writeSubmit_held (w : WriteChoice) {bypass writeback : Bool} {s : Search} {n : Nat}
    (h : s.Held n)
    (hl : (bypass = true ∧ (s.bio.op ≠ .discard ∨ w.discardSupported = true)) ∨
      (bypass = false ∧ writeback = false)) :
    (writeSubmit w bypass writeback s).Held (n + 1) := by
  unfold writeSubmit
  obtain ⟨rfl, hd⟩ | ⟨rfl, rfl⟩ := hl
  · rw [if_pos rfl, if_pos (by simpa using hd)]
    exact h.closureBioSubmit_leak _ rfl
  · exact h.closureBioSubmit_leak _ rfl

/-- The paths of `__cached_dev_make_request` that keep a reference on `s->cl` no completion
drops: a write that sends `s->orig_bio` itself or writes through, and a read without bypass
whose first key is a hole with an unraced reservation. -/
def LeakingPath (bypass : Bool) (w : WriteChoice) (keys : List Key) (bio : OrigBio) : Prop :=
  bio.size ≠ 0 ∧
  ((bio.op.isWrite = true ∧
      (((writeDecision w bypass bio.op).1 = true ∧ (bio.op ≠ .discard ∨ w.discardSupported = true)) ∨
        writeDecision w bypass bio.op = (false, false))) ∨
    (bio.op.isWrite = false ∧ bypass = false ∧
      ∃ k ks, keys = k :: ks ∧ k.pick = .none ∧ k.check ≠ .eintr))

/-- On a leaking path the request returns holding a reference for good. -/
theorem cachedDevMakeRequest_held (dc : CachedDevConf) {bypass : Bool} {w : WriteChoice}
    {keys : List Key} {bio : OrigBio} (h : LeakingPath bypass w keys bio) :
    (cachedDevMakeRequest dc bypass w keys bio).Held 1 := by
  have hs := (running_alloc bio).held
  unfold cachedDevMakeRequest
  obtain ⟨h0, ⟨hw, hl⟩ | ⟨hr, rfl, k, ks, rfl, hk, hc⟩⟩ := h
  · simp only [h0, hw, if_false, if_true]
    exact (writeSubmit_held w hs (hl.imp_right Prod.ext_iff.1)).closureCall.continueAt _ _
  · simp only [h0, hr, if_false, Bool.false_eq_true]
    exact cachedDevRead_hole_held dc hs hk hc

/-- On a leaking path of a cached device, whatever finishes, in any order and with any
errors, the search is never freed. -/
theorem cachedDevMakeRequest_never_freed (dc : CachedDevConf) {bypass : Bool} {w : WriteChoice}
    {keys : List Key} {bio : OrigBio} (h : LeakingPath bypass w keys bio) {sched : List (Nat × Int)}
    {s' : Search} (hc : (cachedDevMakeRequest dc bypass w keys bio).completeAll dc sched = some s') :
    s'.freed = 0 :=
  (Held.completeAll Nat.one_pos (cachedDevMakeRequest_held dc h) hc).2

/-- A bypassed 4 KiB write, after its bio and `bch_write` have finished, is not freed. -/
theorem cachedDevMakeRequest_never_freed_smallWrite :
    (LeakingPath true plainWrite [] smallWrite ∧
      (cachedDevMakeRequest ⟨false⟩ true plainWrite [] smallWrite).completeAll ⟨false⟩
          [(1, 0), (0, 0)] =
        some (((cachedDevMakeRequest ⟨false⟩ true plainWrite [] smallWrite).completeAll ⟨false⟩
          [(1, 0), (0, 0)]).getD (alloc smallWrite))) ∧
      (((cachedDevMakeRequest ⟨false⟩ true plainWrite [] smallWrite).completeAll ⟨false⟩
          [(1, 0), (0, 0)]).getD (alloc smallWrite)).freed = 0 :=
  have h : LeakingPath true plainWrite [] smallWrite := ⟨by decide, .inl ⟨rfl, .inl ⟨rfl, .inl (by decide)⟩⟩⟩
  have hc : (cachedDevMakeRequest ⟨false⟩ true plainWrite [] smallWrite).completeAll ⟨false⟩
      [(1, 0), (0, 0)] = some (((cachedDevMakeRequest ⟨false⟩ true plainWrite [] smallWrite).completeAll
        ⟨false⟩ [(1, 0), (0, 0)]).getD (alloc smallWrite)) := rfl
  ⟨⟨h, hc⟩, cachedDevMakeRequest_never_freed ⟨false⟩ h hc⟩

end Leaking

end Libbcache
