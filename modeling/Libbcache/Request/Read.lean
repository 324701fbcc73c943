import Libbcache.Request.Search
import Mathlib.Data.List.Chain

/-!
# `cached_dev_read`

A read of a cached device walks the extents btree from the bio's first sector with
`for_each_btree_key_with_holes`, which yields real extents and synthesizes holes. For
each key the loop computes the piece of the bio the key covers, swaps the rbio's
`bi_size` to the piece's size, and either reads the piece from the cache device
(`bch_read_extent`) or treats it as a miss (`cached_dev_cache_miss`); it then swaps the
size back and advances the rbio past the piece.

On a miss with `s->bypass` set, `bio_next_split` is asked for as many sectors as the rbio
has (its size was just swapped to the piece's), so it returns `s->rbio` itself, which is
sent to the backing device; the loop then swaps its size back and advances it past the
piece. No bio of the piece's own is sent, and what the device reads of the rbio depends on
when the block layer takes it. Without `s->bypass`, the miss first reserves the range with
`bch_btree_insert_check_key`; on `-EINTR` the loop re-peeks the iterator and jumps back to
`retry:` *with `bi_size` still the piece's size*, and otherwise it takes a reference for
the promotion and calls `__cache_promote`, whose body is compiled out (`#if 0`). So a
non-bypass miss reads nothing and keeps a reference on `s->cl` that nothing drops
(`readLoop_held`), and a retry ends the read at the end of the piece.

The keys the iterator yields, what `bch_extent_pick_ptr` picks in each, and what
`bch_btree_insert_check_key` returns are outside this repository and are inputs (`Key`).
`bch_read_extent` is outside too; we take it to read the rbio's current sectors from the
picked device and to hold a reference on `s->cl` until `request_endio`.
-/

namespace Libbcache

/-- What `bch_extent_pick_ptr` picks for a key. -/
inductive Pick
  /-- A live pointer into cache device `ca`. -/
  | cache (ca : Nat)
  /-- Nothing: a hole, or only stale cached pointers. -/
  | none
  /-- `IS_ERR(pick.ca)`: no device to read from. -/
  | error
  deriving DecidableEq, Repr

/-- What `bch_btree_insert_check_key` returns; the code tests only for `-EINTR`. -/
inductive CheckKey
  | ok
  | eintr
  | other
  deriving DecidableEq, Repr

/-- A key the extents iterator yields, with the answers about it that come from outside
this repository. -/
structure Key where
  /-- `bkey_start_offset(k)`. -/
  start : Nat
  /-- `k.p.offset`. -/
  offset : Nat
  pick : Pick
  /-- `bkey_extent_is_cached(k)`. -/
  cached : Bool
  /-- What `bch_btree_insert_check_key` returns if a miss on this key calls it. -/
  check : CheckKey
  deriving DecidableEq, Repr

/-- `s->rbio.bio.bi_iter`: the next sector and the bytes left. -/
structure RbioIter where
  sector : Nat
  size : Nat
  deriving DecidableEq, Repr

/-- `bio_end_sector`. -/
def RbioIter.endSector (it : RbioIter) : Nat := it.sector + it.size / 2 ^ 9

/-- `closure_bio_submit(&s->rbio.bio, &s->cl)`: `s->rbio` itself is sent down, completing
through `request_endio`. -/
def submitRbio (s : Search) : Search :=
  { s.closureGet with inflight := s.inflight ++ [.requestEndio], rbioSent := s.rbioSent + 1 }

/-- `cached_dev_cache_miss(iter, s, bio, sectors)`; `none` for `-EINTR`. With `s->bypass`,
`bio_next_split(bio, sectors, ..)` returns `s->rbio` itself, since `sectors` is at least the
rbio's size, and it is sent down. -/
def cachedDevCacheMiss (bypass : Bool) (check : CheckKey) (s : Search) : Option Search :=
  if bypass then some (submitRbio s)
  else
    match check with
    | .eintr => none
    | _ => some s.closureGet

/-- `bch_read_extent(c, &s->rbio, k, &pick, ..)` from cache device `ca`, the rbio at `it`. -/
def readExtent (ca : Nat) (it : RbioIter) (s : Search) : Search :=
  s.closureBioSubmit ⟨.cache ca, it.sector, it.size / 2 ^ 9, false⟩ .requestEndio

/-- Where one pass of the loop body goes. -/
inductive ReadStep
  /-- On to the next key, the rbio at `it`. -/
  | next (it : RbioIter) (s : Search)
  /-- `goto retry` with the re-peeked key, the rbio at `it`. -/
  | retry (it : RbioIter) (s : Search)
  /-- `goto out`. -/
  | out (s : Search)

/-- The loop body for key `k`, the rbio at `it`. -/
def readKey (bypass : Bool) (it : RbioIter) (k : Key) (s : Search) : ReadStep :=
  match k.pick with
  | .error => .out { s with ioError := true }
  | pick =>
    let sectors := min k.offset it.endSector - it.sector
    let bytes := sectors * 2 ^ 9 % 2 ^ 32
    let isLast := bytes == it.size
    let piece : RbioIter := { it with size := bytes }
    let r := match pick with
      | .cache ca => some (readExtent ca piece { s with readDirtyData := s.readDirtyData || !k.cached })
      | _ => cachedDevCacheMiss bypass k.check s
    match r with
    | none => .retry piece s
    | some s => if isLast then .out s else .next ⟨it.sector + bytes / 2 ^ 9, it.size - bytes⟩ s

/-- The loop over the keys the iterator yields; when they run out the iterator has
failed (`bcache_io_error`, "btree IO error"). A re-peeked key is the next one. -/
def readLoop (bypass : Bool) : RbioIter → List Key → Search → Search
  | _, [], s => { s with ioError := true }
  | it, k :: ks, s =>
    match readKey bypass it k s with
    | .next it s => readLoop bypass it ks s
    | .retry it s => readLoop bypass it ks s
    | .out s => s

/-- `cached_dev_read(dc, s)`, the rbio a clone of the original bio. -/
def cachedDevRead (dc : CachedDevConf) (bypass : Bool) (keys : List Key) (s : Search) : Search :=
  (readLoop bypass ⟨s.bio.sector, s.bio.size⟩ keys s).continueAt .cachedDevReadDoneBh
    (Search.cachedDevReadDoneBh dc)

/-- The keys the iterator may yield from sector `p` on, for a bio ending at `e`: each
starts at or before the position and ends after it, and the next one is yielded from
where it ends. -/
def KeysCover : Nat → Nat → List Key → Prop
  | _, _, [] => False
  | p, e, k :: ks => k.start ≤ p ∧ p < k.offset ∧ (k.offset < e → KeysCover k.offset e ks)

/-! ## The references a read without bypass keeps -/

/-- The search a pass of the loop body leaves. -/
def ReadStep.search : ReadStep → Search
  | .next _ s | .retry _ s | .out s => s

/-- The body's last step: on to the next key or out, with the same search. -/
theorem search_ite_next_out (b : Bool) (it : RbioIter) (s : Search) :
    (if b = true then ReadStep.out s else .next it s).search = s := by
  cases b <;> rfl

/-- Without bypass, a pass of the loop body keeps the references held for good: a read
from the cache takes one for the bio it sends, a raced miss takes none. -/
theorem readKey_held {it : RbioIter} {k : Key} {s : Search} {n : Nat} (h : s.Held n) :
    (readKey false it k s).search.Held n := by
  unfold readKey
  cases hk : k.pick with
  | error => exact h
  | cache ca =>
    dsimp only [readExtent]
    rw [search_ite_next_out]
    exact Search.Held.closureBioSubmit (s := { s with readDirtyData := s.readDirtyData || !k.cached })
      h _ _
  | none =>
    dsimp only
    simp only [cachedDevCacheMiss, Bool.false_eq_true, if_false]
    cases k.check with
    | eintr => exact h
    | ok => rw [search_ite_next_out]; exact h.closureGet.mono (Nat.le_succ n)
    | other => rw [search_ite_next_out]; exact h.closureGet.mono (Nat.le_succ n)

/-- Without bypass, a miss on a hole whose reservation is not raced takes a reference for
`__cache_promote`, whose body is compiled out: one more is held for good. -/
theorem readKey_hole {it : RbioIter} {k : Key} {s : Search} {n : Nat} (h : s.Held n)
    (hk : k.pick = .none) (hc : k.check ≠ .eintr) : (readKey false it k s).search.Held (n + 1) := by
  unfold readKey
  rw [hk]
  dsimp only
  simp only [cachedDevCacheMiss, Bool.false_eq_true, if_false]
  cases hck : k.check with
  | eintr => exact absurd hck hc
  | ok => rw [search_ite_next_out]; exact h.closureGet
  | other => rw [search_ite_next_out]; exact h.closureGet

/-- The loop keeps what its first pass leaves held, if the rest of the loop does. -/
theorem readLoop_cons_held {n : Nat} {it : RbioIter} {k : Key} {ks : List Key} {s : Search}
    (hk : (readKey false it k s).search.Held n)
    (hks : ∀ it s, Search.Held s n → (readLoop false it ks s).Held n) :
    (readLoop false it (k :: ks) s).Held n := by
  rw [readLoop]
  cases hr : readKey false it k s with
  | next it' s' => rw [hr] at hk; exact hks it' s' hk
  | retry it' s' => rw [hr] at hk; exact hks it' s' hk
  | out s' => rw [hr] at hk; exact hk

/-- Without bypass, the whole loop keeps the references held for good. -/
theorem readLoop_held {n : Nat} : ∀ (it : RbioIter) (ks : List Key) {s : Search}, s.Held n →
    (readLoop false it ks s).Held n
  | _, [], _, h => h
  | _, _ :: ks, _, h => readLoop_cons_held (readKey_held h) fun it _ => readLoop_held it ks

/-- Without bypass, a read whose first key is a hole with an unraced reservation ends
holding a reference for good, once `continue_at` has dropped the running one. -/
theorem cachedDevRead_hole_held (dc : CachedDevConf) {k : Key} {ks : List Key} {s : Search}
    (h : s.Held 1) (hk : k.pick = .none) (hc : k.check ≠ .eintr) :
    (cachedDevRead dc false (k :: ks) s).Held 1 := by
  unfold cachedDevRead
  exact Search.Held.continueAt
    (readLoop_cons_held (readKey_hole h hk hc) fun it _ => readLoop_held it ks) _ _

/-! ## Reads that leave sectors unread -/

/-- A read of sectors `[0, 8)`, a hole. -/
def holeRead : OrigBio := ⟨0, 4096, .read, false, false⟩

/-- The hole under `holeRead`. -/
def holeKeys : List Key := [⟨0, 8, .none, true, .ok⟩]

/-- A read of `[0, 16)`. -/
def racedRead : OrigBio := ⟨0, 8192, .read, false, false⟩

/-- Under `racedRead` the iterator yields a hole `[0, 8)` whose reservation loses a race;
the key re-peeked at sector `0` is then a live cached extent `[0, 16)`. -/
def racedKeys : List Key := [⟨0, 8, .none, true, .eintr⟩, ⟨0, 16, .cache 0, true, .ok⟩]

/-- Without bypass, a read of a hole sends nothing down; and after a lost reservation
race the read stops at the end of the first piece, leaving `[8, 16)` unread. -/
theorem cached_dev_read_leaves_sectors_unread :
    KeysCover 0 8 holeKeys ∧ (cachedDevRead ⟨false⟩ false holeKeys (Search.alloc holeRead)).issued = [] ∧
    (∀ k ∈ racedKeys, k.start ≤ 0 ∧ 0 < k.offset) ∧
    (cachedDevRead ⟨false⟩ false racedKeys (Search.alloc racedRead)).issued = [⟨.cache 0, 0, 8, false⟩] :=
  ⟨by simp [KeysCover, holeKeys], rfl, by decide, rfl⟩

end Libbcache
