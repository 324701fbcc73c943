import Libbcache.Request.Congested
import Mathlib.Data.List.Nodup

/-!
# The sequential detector of `check_should_bypass`

A cached device keeps a small table of recent streams, one `struct io` each: where the
stream's last bio ended (`last`), until when it may be continued (`last_io`, five seconds
on), and how many bytes it has seen (`sequential`, an `unsigned`). The ios are chained in
`io_hash` by `hash_64(last, RECENT_IO_BITS)` and kept on `io_lru`, least recently used
first. For each bio that passes the earlier bypass rules, `check_should_bypass` looks for an
unexpired io ending where the bio starts; on a miss it takes the least recently used io,
folds the task's last run into its average (`add_sequential`) and starts a new stream. The
bio is then bypassed when the larger of the stream's total and the task's average, in
sectors, reaches `sequential_cutoff`.

`hash_64`, `ewma_add`, `msecs_to_jiffies(5000)`, `CUTOFF_CACHE_ADD` and the parameters of
`bch_get_congested` are defined outside this repository and are parameters (`Params`).
`jiffies` and sectors are 64-bit and wrap; `sequential` and `bi_size` are 32-bit.

The model keeps the chains as lists, `hlist_del` erasing the io from every chain, which is
`hlist_del` itself while each io is on one chain (`IoTable.Wf`, kept by every call).
For a single task's stream of bios that pass the earlier rules, each starting where the
previous one ended and less than five seconds after it, the decisions are exactly
"the running total or the task's average reaches the cutoff"
(`sequential_stream_bypass`); the total never decreases, so once a bio of the stream is
bypassed every later one is.
-/

namespace Libbcache

/-- What `check_should_bypass` uses that is defined outside this repository. -/
structure Params where
  /-- `hash_64(k, RECENT_IO_BITS)`. -/
  hash : Nat → Nat
  /-- `ewma_add(avg, val, 3)`. -/
  ewmaAdd : Nat → Nat → Nat
  /-- `msecs_to_jiffies(5000)`. -/
  expire : Nat
  /-- `CUTOFF_CACHE_ADD`. -/
  cutoffCacheAdd : Nat
  /-- `CONGESTED_MAX`. -/
  congestedMax : Int
  /-- `fract_exp_two`. -/
  fractExpTwo : Int → Nat → Int

/-- `BDEV_CACHE_MODE`. -/
inductive CacheMode
  | writethrough
  | writeback
  | writearound
  | none
  deriving DecidableEq, Repr

/-- `bio_op(bio)`. -/
inductive ReqOp
  | read
  | write
  | discard
  deriving DecidableEq, Repr

/-- `op_is_write`. -/
def ReqOp.isWrite : ReqOp → Bool
  | .read => false
  | _ => true

/-- The fields of a bio that `check_should_bypass` reads: `bi_iter.bi_sector`,
`bi_iter.bi_size` in bytes, the operation and `REQ_SYNC`. -/
structure Bio where
  sector : Nat
  size : Nat
  op : ReqOp
  sync : Bool
  deriving DecidableEq, Repr

/-- `bio_end_sector`. -/
def bioEndSector (b : Bio) : Nat := (b.sector + b.size / 2 ^ 9) % 2 ^ 64

/-- The fields of `struct cached_dev` that `check_should_bypass` reads, apart from its io
table. -/
structure CachedDev where
  detaching : Bool
  mode : CacheMode
  bypassTortureTest : Bool
  sequentialCutoff : Nat
  deriving DecidableEq, Repr

/-- The fields of `struct cache_set` that `check_should_bypass` reads:
`sectors_available(c)`, `capacity`, `sb.block_size` and what `bch_get_congested` reads. -/
structure CacheSetSpace where
  sectorsAvailable : Nat
  capacity : Nat
  blockSize : Nat
  congestion : Congestion
  deriving DecidableEq, Repr

/-- What a call reads from the world: `jiffies`, `local_clock_us()`, and the two
`get_random_int()` values, the one `bch_get_congested` draws and the torture test's. -/
structure Clock where
  jiffies : Nat
  clockUs : Nat
  congestedRand : Int
  tortureRand : Nat
  deriving DecidableEq, Repr

/-- A `struct io`. -/
structure Io where
  last : Nat
  lastIo : Nat
  sequential : Nat
  deriving DecidableEq, Repr

/-- A device's `io[]`, its `io_hash` chains (head first) and `io_lru` (head first). -/
structure IoTable where
  io : Nat → Io
  ioHash : Nat → List Nat
  ioLru : List Nat

/-- The fields of `struct task_struct` that the detector uses. -/
structure Task where
  sequentialIo : Nat
  sequentialIoAvg : Nat
  deriving DecidableEq, Repr

/-- `time_before(a, b)` on 64-bit `jiffies`. -/
def timeBefore (a b : Nat) : Bool := decide (2 ^ 63 ≤ (a + 2 ^ 64 - b) % 2 ^ 64)

/-- `if (i->sequential + bi_size > i->sequential) i->sequential += bi_size;` in 32-bit
arithmetic. -/
def seqAdd (s size : Nat) : Nat := if s < (s + size) % 2 ^ 32 then (s + size) % 2 ^ 32 else s

variable (P : Params)

/-- `add_sequential`. -/
def addSequential (t : Task) : Task :=
  { sequentialIo := 0, sequentialIoAvg := P.ewmaAdd t.sequentialIoAvg t.sequentialIo }

/-- `hlist_del(&i->hash)`, from whichever chain `i` is on. -/
def hlistDel (ch : Nat → List Nat) (i : Nat) : Nat → List Nat := fun h => (ch h).erase i

/-- `hlist_add_head(&i->hash, &io_hash[h])`. -/
def hlistAddHead (ch : Nat → List Nat) (i h : Nat) : Nat → List Nat :=
  fun h' => if h' = h then i :: ch h' else ch h'

/-- `list_move_tail(&i->lru, &io_lru)`. -/
def listMoveTail (l : List Nat) (i : Nat) : List Nat := l.erase i ++ [i]

namespace IoTable

/-- The `hlist_for_each_entry` walk of `iohash(dc, sector)`: the first io of the chain
that ends at `sector` and has not expired at `now`. -/
def find (d : IoTable) (sector now : Nat) : Option Nat :=
  (d.ioHash (P.hash sector)).find? fun i => (d.io i).last == sector && timeBefore now (d.io i).lastIo

/-- `i->sequential = 0`. -/
def resetSequential (d : IoTable) (i : Nat) : IoTable :=
  { d with io := Function.update d.io i { d.io i with sequential := 0 } }

/-- From `found:` to `spin_unlock`: io `i` takes bio `b` at `now`, moves to the chain of
its new end and to the tail of `io_lru`, and the task's `sequential_io` becomes the
stream's total. -/
def found (d : IoTable) (t : Task) (i : Nat) (b : Bio) (now : Nat) : IoTable × Task :=
  let seq := seqAdd (d.io i).sequential b.size
  let last := bioEndSector b
  ({ io := Function.update d.io i ⟨last, (now + P.expire) % 2 ^ 64, seq⟩
     ioHash := hlistAddHead (hlistDel d.ioHash i) i (P.hash last)
     ioLru := listMoveTail d.ioLru i },
   { t with sequentialIo := seq })

/-- The part of `check_should_bypass` under `io_lock`; `none` where `list_first_entry` would
read an empty `io_lru`. -/
def seqUpdate (d : IoTable) (t : Task) (b : Bio) (now : Nat) : Option (IoTable × Task) :=
  match d.find P b.sector now with
  | some i => some (d.found P t i b now)
  | none =>
    match d.ioLru with
    | [] => none
    | i :: _ => some ((d.resetSequential i).found P (addSequential P t) i b now)

end IoTable

/-- The rules that `goto skip` before the torture test: a detaching device, a cache set
short of space, a discard, cache mode `none` or a write in `writearound`, and a bio not
aligned to the block size. -/
def skipRules (c : CacheSetSpace) (dc : CachedDev) (b : Bio) : Bool :=
  dc.detaching || decide (c.sectorsAvailable * 100 < c.capacity * P.cutoffCacheAdd) ||
    b.op == .discard || dc.mode == .none || (dc.mode == .writearound && b.op.isWrite) ||
    b.sector &&& (c.blockSize - 1) != 0 || b.size / 2 ^ 9 &&& (c.blockSize - 1) != 0

/-- A `REQ_SYNC` write in `writeback` mode. -/
def syncWriteback (dc : CachedDev) (b : Bio) : Bool :=
  dc.mode == .writeback && b.op.isWrite && b.sync

/-- The decisions `check_should_bypass` takes before `io_lock`: `some true` for
`goto skip`, `some false` for `goto rescale`, `none` to go on to the detector. -/
def earlyDecision (c : CacheSetSpace) (dc : CachedDev) (b : Bio) (w : Clock) (congested : Nat) :
    Option Bool :=
  if skipRules P c dc b then some true
  else if dc.bypassTortureTest then some (w.tortureRand &&& 3 == 3)
  else if congested = 0 ∧ dc.sequentialCutoff = 0 then some false
  else if congested = 0 ∧ syncWriteback dc b then some false
  else none

/-- The tests after `spin_unlock`, on the task's updated counters. -/
def bypassDecision (dc : CachedDev) (congested : Nat) (t : Task) : Bool :=
  let sectors := max t.sequentialIo t.sequentialIoAvg / 2 ^ 9
  decide (dc.sequentialCutoff ≠ 0 ∧ dc.sequentialCutoff / 2 ^ 9 ≤ sectors) ||
    decide (congested ≠ 0 ∧ congested ≤ sectors)

/-- `check_should_bypass(dc, bio)`: the new io table and task, and whether to bypass. -/
def checkShouldBypass (c : CacheSetSpace) (dc : CachedDev) (d : IoTable) (t : Task) (b : Bio)
    (w : Clock) : Option (IoTable × Task × Bool) :=
  let congested := bchGetCongested P.congestedMax P.fractExpTwo c.congestion w.clockUs w.congestedRand
  match earlyDecision P c dc b w congested with
  | some skip => some (d, t, skip)
  | none => (d.seqUpdate P t b w.jiffies).map fun r => (r.1, r.2, bypassDecision dc congested r.2)

/-- A task's bios in turn, each at its clock, with nothing else reaching the device in
between: the io table and task after them, and each decision. -/
def streamRun (c : CacheSetSpace) (dc : CachedDev) :
    IoTable → Task → List (Bio × Clock) → Option (IoTable × Task × List Bool)
  | d, t, [] => some (d, t, [])
  | d, t, (b, w) :: s =>
    match checkShouldBypass P c dc d t b w with
    | some (d', t', r) => (streamRun c dc d' t' s).map fun q => (q.1, q.2.1, r :: q.2.2)
    | none => none

/-! ## The io table's shape -/

namespace IoTable

/-- The `n` ios are each on `io_lru` exactly once and each on exactly one `io_hash`
chain, once. -/
structure Wf (d : IoTable) (n : Nat) : Prop where
  lru_perm : d.ioLru.Perm (List.range n)
  chain_nodup : ∀ h, (d.ioHash h).Nodup
  chain_unique : ∀ i h h', i ∈ d.ioHash h → i ∈ d.ioHash h' → h = h'
  chained : ∀ i < n, ∃ h, i ∈ d.ioHash h
  chain_lt : ∀ h i, i ∈ d.ioHash h → i < n

@[simp] theorem resetSequential_ioHash (d : IoTable) (i : Nat) :
    (d.resetSequential i).ioHash = d.ioHash := rfl

@[simp] theorem resetSequential_ioLru (d : IoTable) (i : Nat) :
    (d.resetSequential i).ioLru = d.ioLru := rfl

@[simp] theorem resetSequential_io (d : IoTable) (i : Nat) :
    (d.resetSequential i).io i = { d.io i with sequential := 0 } := by
  simp [resetSequential]

theorem Wf.resetSequential {d : IoTable} {n : Nat} (hw : d.Wf n) (i : Nat) :
    (d.resetSequential i).Wf n :=
  ⟨hw.lru_perm, hw.chain_nodup, hw.chain_unique, hw.chained, hw.chain_lt⟩

theorem mem_hlistAddHead_hlistDel {ch : Nat → List Nat} {i h h' j : Nat} :
    j ∈ hlistAddHead (hlistDel ch i) i h h' ↔ (h' = h ∧ j = i) ∨ j ∈ (ch h').erase i := by
  unfold hlistAddHead hlistDel; split_ifs with e <;> simp [e]

/-- `found` keeps the shape: the io leaves its chain and joins the head of another, and
moves within `io_lru`. -/
theorem Wf.found {d : IoTable} {n : Nat} (hw : d.Wf n) (t : Task) {i : Nat} (hi : i < n)
    (b : Bio) (now : Nat) : (d.found P t i b now).1.Wf n := by
  have hlru : i ∈ d.ioLru := hw.lru_perm.mem_iff.2 (List.mem_range.2 hi)
  have hmem : ∀ h j, j ∈ (d.found P t i b now).1.ioHash h ↔
      (h = P.hash (bioEndSector b) ∧ j = i) ∨ (j ≠ i ∧ j ∈ d.ioHash h) := fun h j => by
    simp only [IoTable.found, mem_hlistAddHead_hlistDel, (hw.chain_nodup h).mem_erase_iff]
  refine ⟨?_, fun h => ?_, fun j h h' hj hj' => ?_, fun j hj => ?_, fun h j hj => ?_⟩
  · exact (List.perm_append_singleton _ _).trans ((List.perm_cons_erase hlru).symm.trans hw.lru_perm)
  · simp only [IoTable.found, hlistAddHead, hlistDel]
    split_ifs
    · exact List.nodup_cons.2 ⟨(hw.chain_nodup h).not_mem_erase, (hw.chain_nodup h).erase i⟩
    · exact (hw.chain_nodup h).erase i
  · rw [hmem] at hj hj'
    rcases hj with ⟨rfl, rfl⟩ | ⟨hne, hj⟩ <;> rcases hj' with ⟨rfl, hji⟩ | ⟨hne', hj'⟩
    · rfl
    · exact absurd rfl hne'
    · exact absurd hji hne
    · exact hw.chain_unique j h h' hj hj'
  · by_cases e : j = i
    · exact ⟨_, (hmem _ _).2 (.inl ⟨rfl, e⟩)⟩
    · obtain ⟨h, hh⟩ := hw.chained j hj
      exact ⟨h, (hmem _ _).2 (.inr ⟨e, hh⟩)⟩
  · rcases (hmem h j).1 hj with ⟨-, rfl⟩ | ⟨-, hj⟩
    · exact hi
    · exact hw.chain_lt h j hj

theorem find_mem {d : IoTable} {sector now i : Nat} (h : d.find P sector now = some i) :
    i ∈ d.ioHash (P.hash sector) :=
  List.mem_of_find?_eq_some h

theorem Wf.seqUpdate {d : IoTable} {n : Nat} (hw : d.Wf n) {t : Task} {b : Bio} {now : Nat}
    {d' : IoTable} {t' : Task} (h : d.seqUpdate P t b now = some (d', t')) : d'.Wf n := by
  unfold IoTable.seqUpdate at h
  split at h
  · rename_i i hf
    cases h
    exact hw.found P t (hw.chain_lt _ _ (find_mem P hf)) b now
  · split at h
    · cases h
    · rename_i i l hl
      cases h
      have hi : i < n := List.mem_range.1 (hw.lru_perm.mem_iff.1 (by simp [hl]))
      exact (hw.resetSequential i).found P (addSequential P t) hi b now

/-- With at least one io, the detector always finds one to use. -/
theorem seqUpdate_isSome {d : IoTable} {n : Nat} (hw : d.Wf n) (hn : 0 < n) (t : Task) (b : Bio)
    (now : Nat) : (d.seqUpdate P t b now).isSome := by
  unfold IoTable.seqUpdate
  split
  · rfl
  · split
    · rename_i hl
      have := hw.lru_perm.length_eq
      simp [hl] at this
      omega
    · rfl

end IoTable

/-- Every call keeps the io table's shape, and none reads an empty `io_lru`. -/
theorem IoTable.Wf.checkShouldBypass {d : IoTable} {n : Nat} (hw : d.Wf n) (hn : 0 < n)
    (c : CacheSetSpace) (dc : CachedDev) (t : Task) (b : Bio) (w : Clock) :
    ∃ d' t' r, Libbcache.checkShouldBypass P c dc d t b w = some (d', t', r) ∧ d'.Wf n := by
  unfold Libbcache.checkShouldBypass
  dsimp only
  split
  · exact ⟨d, t, _, rfl, hw⟩
  · obtain ⟨⟨d', t'⟩, h⟩ := Option.isSome_iff_exists.1 (IoTable.seqUpdate_isSome P hw hn t b w.jiffies)
    exact ⟨d', t', _, by rw [h]; rfl, hw.seqUpdate P h⟩

/-! ## One bio of a stream -/

/-- The running byte totals of a stream of contiguous bios, as `sequential_io` accumulates
them: each size is added unless the 32-bit sum would overflow. -/
def streamTotals : Nat → List Nat → List Nat
  | _, [] => []
  | s, x :: xs =>
    let s' := if s + x < 2 ^ 32 then s + x else s
    s' :: streamTotals s' xs

theorem seqAdd_eq {s x : Nat} (hs : s < 2 ^ 32) (hx : x < 2 ^ 32) :
    seqAdd s x = if s + x < 2 ^ 32 then s + x else s := by
  unfold seqAdd; split_ifs <;> omega

theorem seqAdd_lt {s x : Nat} (hs : s < 2 ^ 32) : seqAdd s x < 2 ^ 32 := by
  unfold seqAdd; split_ifs <;> omega

/-- A bio that starts less than `expire` jiffies after `p` is before the deadline
`p + expire` that `found` records. -/
theorem timeBefore_of_within {a p e : Nat} (ha : a < 2 ^ 64) (hp : p < 2 ^ 64) (he : e ≤ 2 ^ 63)
    (h : (a + 2 ^ 64 - p) % 2 ^ 64 < e) : timeBefore a ((p + e) % 2 ^ 64) = true := by
  unfold timeBefore; simp only [decide_eq_true_eq]; omega

theorem bchGetCongested_disabled {congestedMax : Int} {fractExpTwo : Int → Nat → Int}
    {c : Congestion} (h : c.congestedReadThresholdUs = 0 ∧ c.congestedWriteThresholdUs = 0)
    (now : Nat) (rand : Int) : bchGetCongested congestedMax fractExpTwo c now rand = 0 := by
  simp [bchGetCongested, h]

section Stream

variable {P} {c : CacheSetSpace} {dc : CachedDev}

/-- A device on which only the sequential detector decides: both congestion thresholds
are zero, `bypass_torture_test` is off, and `sequential_cutoff` is positive. -/
structure Quiet (c : CacheSetSpace) (dc : CachedDev) : Prop where
  congestion_off : c.congestion.congestedReadThresholdUs = 0 ∧ c.congestion.congestedWriteThresholdUs = 0
  torture_off : dc.bypassTortureTest = false
  cutoff_pos : 0 < dc.sequentialCutoff

/-- A bio that no `goto skip` rule catches and that is not a `REQ_SYNC` write in
`writeback` mode, with its clock below `2^64` and its size below `2^32`. -/
def Plain (P : Params) (c : CacheSetSpace) (dc : CachedDev) (p : Bio × Clock) : Prop :=
  skipRules P c dc p.1 = false ∧ syncWriteback dc p.1 = false ∧ p.2.jiffies < 2 ^ 64 ∧ p.1.size < 2 ^ 32

/-- On a quiet device, a plain bio goes to the detector and is bypassed exactly when the
larger of the task's counters reaches the cutoff. -/
theorem checkShouldBypass_plain (hq : Quiet c dc) {b : Bio} {w : Clock} (hp : Plain P c dc (b, w))
    (d : IoTable) (t : Task) :
    checkShouldBypass P c dc d t b w = (d.seqUpdate P t b w.jiffies).map fun r =>
      (r.1, r.2, decide (dc.sequentialCutoff / 2 ^ 9 ≤ max r.2.sequentialIo r.2.sequentialIoAvg / 2 ^ 9)) := by
  have hpos : dc.sequentialCutoff ≠ 0 := Nat.pos_iff_ne_zero.1 hq.cutoff_pos
  simp [checkShouldBypass, bchGetCongested_disabled hq.congestion_off, earlyDecision, hp.1, hp.2.1,
    hq.torture_off, hpos, bypassDecision]

/-- Where the stream stands after bio `b` at `w`: io `i` heads the chain of the bio's end
sector, records the end and the deadline, and the stream's total `S` is in the io and in the
task, whose average is `A`. -/
def Tracks (P : Params) (d : IoTable) (t : Task) (i : Nat) (b : Bio) (w : Clock) (S A : Nat) : Prop :=
  (d.ioHash (P.hash (bioEndSector b))).head? = some i ∧
    d.io i = ⟨bioEndSector b, (w.jiffies + P.expire) % 2 ^ 64, S⟩ ∧ t = ⟨S, A⟩

theorem found_tracks (d : IoTable) (t : Task) (i : Nat) (b : Bio) (w : Clock) :
    Tracks P (d.found P t i b w.jiffies).1 (d.found P t i b w.jiffies).2 i b w
      (seqAdd (d.io i).sequential b.size) t.sequentialIoAvg := by
  simp [Tracks, IoTable.found, hlistAddHead]

/-- The first bio of a stream misses and starts it in the least recently used io. -/
theorem seqUpdate_first {d : IoTable} {n : Nat} (hw : d.Wf n) (hn : 0 < n) (t : Task)
    (b : Bio) (w : Clock) (hfresh : ∀ i, ¬ ((d.io i).last = b.sector ∧ timeBefore w.jiffies (d.io i).lastIo)) :
    ∃ d' t' i, d.seqUpdate P t b w.jiffies = some (d', t') ∧
      Tracks P d' t' i b w (seqAdd 0 b.size) (P.ewmaAdd t.sequentialIoAvg t.sequentialIo) := by
  have hmiss : d.find P b.sector w.jiffies = none :=
    List.find?_eq_none.2 fun i _ => by simpa using hfresh i
  obtain ⟨i, l, hl⟩ : ∃ i l, d.ioLru = i :: l := by
    cases hl : d.ioLru with
    | nil => have := hw.lru_perm.length_eq; simp [hl] at this; omega
    | cons i l => exact ⟨i, l, rfl⟩
  refine ⟨((d.resetSequential i).found P (addSequential P t) i b w.jiffies).1,
    ((d.resetSequential i).found P (addSequential P t) i b w.jiffies).2, i,
    by simp [IoTable.seqUpdate, hmiss, hl], ?_⟩
  simpa [addSequential] using found_tracks (d.resetSequential i) (addSequential P t) i b w

/-- A bio that continues the stream, less than `expire` after the previous one, hits its
io, which takes it. -/
theorem seqUpdate_next {d : IoTable} {t : Task} {i : Nat} {b b' : Bio} {w w' : Clock} {S A : Nat}
    (htr : Tracks P d t i b w S A) (he : P.expire ≤ 2 ^ 63) (hw : w.jiffies < 2 ^ 64)
    (hw' : w'.jiffies < 2 ^ 64) (hs : b'.sector = bioEndSector b)
    (hwithin : (w'.jiffies + 2 ^ 64 - w.jiffies) % 2 ^ 64 < P.expire) :
    ∃ d' t', d.seqUpdate P t b' w'.jiffies = some (d', t') ∧ Tracks P d' t' i b' w' (seqAdd S b'.size) A := by
  obtain ⟨hhead, hio, rfl⟩ := htr
  have hhit : d.find P b'.sector w'.jiffies = some i := by
    obtain ⟨l, hl⟩ : ∃ l, d.ioHash (P.hash (bioEndSector b)) = i :: l := by
      cases h : d.ioHash (P.hash (bioEndSector b)) <;> simp_all
    have hlast : (d.io i).last = b'.sector := by rw [hio, hs]
    have ht : timeBefore w'.jiffies (d.io i).lastIo = true := by
      rw [hio]; exact timeBefore_of_within hw' hw he hwithin
    rw [IoTable.find, hs, hl]
    simp [hlast, hs, ht]
  refine ⟨(d.found P ⟨S, A⟩ i b' w'.jiffies).1, (d.found P ⟨S, A⟩ i b' w'.jiffies).2,
    by simp [IoTable.seqUpdate, hhit], ?_⟩
  simpa [hio] using found_tracks d ⟨S, A⟩ i b' w'

/-- Each bio starts at the end sector of the one before, less than `e` jiffies after it. -/
def Chained (e : Nat) : List (Bio × Clock) → Prop
  | p :: q :: s => q.1.sector = bioEndSector p.1 ∧ (q.2.jiffies + 2 ^ 64 - p.2.jiffies) % 2 ^ 64 < e ∧
      Chained e (q :: s)
  | _ => True

/-- After the stream's bio `b`, the rest of the stream gets the decisions its totals give. -/
theorem streamRun_tracks (hq : Quiet c dc) (he : P.expire ≤ 2 ^ 63) {n : Nat} (A : Nat) :
    ∀ (s : List (Bio × Clock)) {d : IoTable} {t : Task} {i : Nat} {b : Bio} {w : Clock} {S : Nat},
    d.Wf n → Tracks P d t i b w S A → S < 2 ^ 32 → w.jiffies < 2 ^ 64 →
    (∀ p ∈ s, Plain P c dc p) → Chained P.expire ((b, w) :: s) →
    ∃ d' t', streamRun P c dc d t s = some (d', t', (streamTotals S (s.map fun p => p.1.size)).map
      fun S => decide (dc.sequentialCutoff / 2 ^ 9 ≤ max S A / 2 ^ 9)) ∧ d'.Wf n
  | [], d, t, _, _, _, _, hw, _, _, _, _, _ => ⟨d, t, rfl, hw⟩
  | (b', w') :: s, d, t, i, b, w, S, hw, htr, hS, hj, hp, ⟨hs, hwithin, hch⟩ => by
    have hp' : Plain P c dc (b', w') := hp _ (List.mem_cons_self _ _)
    have hj' : w'.jiffies < 2 ^ 64 := hp'.2.2.1
    dsimp only at hs hwithin
    obtain ⟨d₁, t₁, hupd, htr'⟩ := seqUpdate_next htr he hj hj' hs hwithin
    obtain ⟨d', t', hrun, hw'⟩ := streamRun_tracks hq he A s (hw.seqUpdate P hupd) htr'
      (seqAdd_lt hS) hj' (fun q hq => hp q (List.mem_cons_of_mem _ hq)) hch
    obtain rfl := htr'.2.2
    refine ⟨d', t', ?_, hw'⟩
    simp only [streamRun, checkShouldBypass_plain hq hp' d t, hupd, Option.map_some', hrun,
      List.map_cons, streamTotals, ← seqAdd_eq hS hp'.2.2.2]

theorem le_of_mem_streamTotals : ∀ {s y : Nat} {xs : List Nat}, y ∈ streamTotals s xs → s ≤ y
  | _, _, [], h => absurd h (List.not_mem_nil _)
  | _, _, _ :: _, h => by
    simp only [streamTotals, List.mem_cons] at h
    rcases h with rfl | h
    · split_ifs <;> omega
    · have := le_of_mem_streamTotals h
      split_ifs at this <;> omega

/-- The totals never decrease: an addition is made or skipped, never wrapped. -/
theorem streamTotals_pairwise : ∀ (s : Nat) (xs : List Nat), (streamTotals s xs).Pairwise (· ≤ ·)
  | _, [] => List.Pairwise.nil
  | _, _ :: xs => List.Pairwise.cons (fun _ h => le_of_mem_streamTotals h) (streamTotals_pairwise _ xs)

/-- A single task's stream `b1, .., bn` on a quiet device with a well-formed io table:
`b1` starts where no unexpired io ends, each later bio starts at the end sector of the one
before and less than `expire` jiffies after it, and no bio is caught by an earlier rule.
Then the `k`-th call bypasses exactly when `max(S_k, A) >> 9 >= sequential_cutoff >> 9`,
where `S_k` is the running total with overflowing additions skipped and `A` the task's
average after `add_sequential`; so once one bio is bypassed, every later one is. Every call
keeps the io table's shape. -/
theorem sequential_stream_bypass (hq : Quiet c dc) (he : P.expire ≤ 2 ^ 63) {n : Nat}
    {d : IoTable} (hw : d.Wf n) (hn : 0 < n) (t : Task) (b : Bio) (w : Clock)
    (s : List (Bio × Clock)) (hp : ∀ p ∈ (b, w) :: s, Plain P c dc p)
    (hch : Chained P.expire ((b, w) :: s))
    (hfresh : ∀ i, ¬ ((d.io i).last = b.sector ∧ timeBefore w.jiffies (d.io i).lastIo)) :
    ∃ d' t' rs, streamRun P c dc d t ((b, w) :: s) = some (d', t', rs) ∧
      rs = (streamTotals 0 (((b, w) :: s).map fun p => p.1.size)).map (fun S =>
        decide (dc.sequentialCutoff / 2 ^ 9 ≤ max S (P.ewmaAdd t.sequentialIoAvg t.sequentialIo) / 2 ^ 9)) ∧
      rs.Pairwise (fun x y => x = true → y = true) ∧ d'.Wf n := by
  have hp₁ : Plain P c dc (b, w) := hp _ (List.mem_cons_self _ _)
  obtain ⟨d₁, t₁, i, hupd, htr⟩ := seqUpdate_first hw hn t b w hfresh
  obtain ⟨d', t', hrun, hw'⟩ := streamRun_tracks hq he _ s (hw.seqUpdate P hupd) htr
    (seqAdd_lt (by norm_num)) hp₁.2.2.1 (fun q hq => hp q (List.mem_cons_of_mem _ hq)) hch
  obtain rfl := htr.2.2
  refine ⟨d', t', _, ?_, rfl, ?_, hw'⟩
  · simp only [streamRun, checkShouldBypass_plain hq hp₁ d t, hupd, Option.map_some', hrun,
      List.map_cons, streamTotals, ← seqAdd_eq (by norm_num : 0 < 2 ^ 32) hp₁.2.2.2]
  · refine List.pairwise_map.2 ((streamTotals_pairwise 0 _).imp fun hxy hx => ?_)
    simp only [decide_eq_true_eq] at hx ⊢
    exact hx.trans (Nat.div_le_div_right (max_le_max hxy le_rfl))

end Stream

/-- Parameters for the example below: `hash_64` the identity, `ewma_add` keeping the
average, `HZ = 250`. -/
def exampleParams : Params := ⟨id, fun avg _ => avg, 1250, 95, 0, fun i _ => i⟩

/-- A cache set with room to spare, block size one sector, congestion thresholds zero. -/
def exampleSet : CacheSetSpace := ⟨100, 100, 1, ⟨0, 0, 0, 0⟩⟩

/-- A writethrough device with a 4 KiB cutoff. -/
def exampleDev : CachedDev := ⟨false, .writethrough, false, 4096⟩

/-- One io, never used, on a chain no sector hashes to. -/
def exampleTable : IoTable := ⟨fun _ => ⟨0, 0, 0⟩, fun h => if h = 2 ^ 64 then [0] else [], [0]⟩

theorem exampleTable_wf : exampleTable.Wf 1 where
  lru_perm := by decide
  chain_nodup h := by simp only [exampleTable]; split <;> simp
  chain_unique i h h' hi hi' := by
    simp only [exampleTable] at hi hi'; split_ifs at hi hi' <;> simp_all
  chained i hi := ⟨2 ^ 64, by simp [exampleTable]; omega⟩
  chain_lt h i hi := by simp only [exampleTable] at hi; split_ifs at hi <;> simp_all

/-- Two 2 KiB reads, the second where the first ends 100 jiffies later: the first is
cached, the second brings the stream to the cutoff and is bypassed. -/
def exampleStream : List (Bio × Clock) :=
  [(⟨8, 2048, .read, false⟩, ⟨1000, 0, 0, 0⟩), (⟨12, 2048, .read, false⟩, ⟨1100, 0, 0, 0⟩)]

theorem sequential_stream_bypass_example :
    ∃ d' t' rs, streamRun exampleParams exampleSet exampleDev exampleTable ⟨0, 0⟩ exampleStream =
      some (d', t', rs) ∧
      rs = (streamTotals 0 (exampleStream.map fun p => p.1.size)).map (fun S =>
        decide (exampleDev.sequentialCutoff / 2 ^ 9 ≤ max S (exampleParams.ewmaAdd 0 0) / 2 ^ 9)) ∧
      rs.Pairwise (fun x y => x = true → y = true) ∧ d'.Wf 1 :=
  sequential_stream_bypass ⟨⟨rfl, rfl⟩, rfl, by decide⟩ (by decide) exampleTable_wf (by decide) ⟨0, 0⟩
    _ _ _ (by simp [exampleStream, Plain, skipRules, syncWriteback, exampleSet, exampleDev, exampleParams,
      ReqOp.isWrite])
    (by simp [exampleStream, Chained, bioEndSector, exampleParams])
    (fun i => by simp [exampleTable])

example : (streamRun exampleParams exampleSet exampleDev exampleTable ⟨0, 0⟩ exampleStream).map
    (·.2.2) = some [false, true] := by decide

end Libbcache
