import Mathlib.Data.List.Basic
import Mathlib.Algebra.Order.Ring.Nat

/-!
# The debugfs btree dumps: `flush_buf` and the three `read()` functions

Each open dump file has a `struct dump_iter`. It holds the position `from` where the next
read resumes and the bytes printed but not yet copied (`buf[0, bytes)`). For the read in
progress it also holds the caller's buffer, the room left in it and the count copied so far.
A read first copies what an earlier read left in `buf`. It then walks the btree from `from`,
printing into `buf` and copying out, until the caller's buffer is full or the walk ends.

The btree itself is not modelled. Each file's walk is over what its iterator yields, and
the tree is unchanged between reads:
* the keys file and the bfloat-failed file walk the keys at or after `from` in key order
  (`bch_btree_iter_init`, then `bch_btree_iter_peek`), and `bch_btree_iter_advance_pos`
  moves `from` to the successor of the key's position;
* the formats file walks the leaves whose max key is at or after `from`
  (`for_each_btree_node` at depth 0).
Positions are numbered in key order. The texts the printers write (`bch_bkey_val_to_text`,
`bch_print_btree_node`, `bch_bkey_print_bfloat`) are data of the keys and leaves.

`copy_to_user` writes into a caller's buffer that cannot be written from offset `fault` on.
It copies up to that offset and returns how many bytes it did not copy. `btree_iter_err`
is not modelled, so a walk's `err` is never negative and every read returns `i->ret` unless
a copy fails.
-/

namespace Libbcache

/-- A key of the dumped btree: its position, the index of the leaf that holds it
(`iter.nodes[0]`), and the texts `bch_bkey_val_to_text` and `bch_bkey_print_bfloat` print
for it. -/
structure DumpKey where
  pos : Nat
  node : Nat
  text : List UInt8
  bfloat : List UInt8
  deriving DecidableEq, Repr

/-- A leaf of the dumped btree: its max key `b->key.k.p`, and the text
`bch_print_btree_node` prints for it. -/
structure DumpNode where
  key : Nat
  text : List UInt8
  deriving DecidableEq, Repr

/-- The btree a dump file reads: its keys and its leaves, each in key order. -/
structure DumpTree where
  keys : List DumpKey
  leaves : List DumpNode
  deriving DecidableEq, Repr

/-- The text `bch_print_btree_node` prints for the leaf with index `n`. -/
def DumpTree.nodeText (t : DumpTree) (n : Nat) : List UInt8 :=
  ((t.leaves[n]?).map DumpNode.text).getD []

/-- `struct dump_iter`. `buf` is `buf[0, bytes)`. `ubuf` is what this read has put in the
caller's buffer: `i->ubuf` is that buffer advanced by `ret`. `c` and `id` are fixed per
file and are the `DumpTree` argument of the reads. -/
structure DumpIter where
  «from» : Nat
  buf : List UInt8
  ubuf : List UInt8
  size : Nat
  ret : Nat
  deriving DecidableEq, Repr

/-- `bch_dump_open`: a zeroed iterator at `POS_MIN`. -/
def bchDumpOpen : DumpIter := ⟨0, [], [], 0, 0⟩

/-- `copy_to_user(to, from, n)` at offset `off` of a caller's buffer that cannot be written
from offset `fault` on: the bytes that reach it, and the count left uncopied, which is what
`copy_to_user` returns. -/
def copyToUser (fault off : Nat) (src : List UInt8) (n : Nat) : List UInt8 × Nat :=
  (src.take (min n (fault - off)), n - (fault - off))

/-- `flush_buf`: copy as much of `buf` as the caller's buffer has room for. It returns the
error (the count `copy_to_user` left uncopied) and the iterator. On an error, the bytes
that did reach the caller are in `ubuf`, but `ret`, `size` and `buf` are unchanged. -/
def flushBuf (fault : Nat) (i : DumpIter) : Nat × DumpIter :=
  if i.buf = [] then (0, i)
  else
    let bytes := min i.buf.length i.size
    let c := copyToUser fault i.ret i.buf bytes
    let i := { i with ubuf := i.ubuf ++ c.1 }
    if c.2 ≠ 0 then (c.2, i)
    else (0, { i with ret := i.ret + bytes, size := i.size - bytes, buf := i.buf.drop bytes })

/-- With room in the caller's buffer for all it copies, `flush_buf` copies the first `size`
bytes of `buf` and keeps the rest. -/
theorem flushBuf_of_room {fault : Nat} {i : DumpIter} (h : i.ret + i.size ≤ fault) :
    flushBuf fault i =
      (0, { i with
            ubuf := i.ubuf ++ i.buf.take i.size
            buf := i.buf.drop i.size
            ret := i.ret + min i.buf.length i.size
            size := i.size - i.buf.length }) := by
  rcases i with ⟨f, b, u, s, r⟩
  dsimp only at h
  by_cases hb : b = []
  · subst hb
    simp [flushBuf]
  · have hc : min (min b.length s) (fault - r) = min b.length s := by omega
    have hz : min b.length s - (fault - r) = 0 := by omega
    have ht : b.take (min b.length s) = b.take s := List.take_eq_take.2 (by omega)
    have hd : b.drop (min b.length s) = b.drop s := by
      rcases le_total b.length s with h' | h' <;> simp [h', List.drop_eq_nil_of_le]
    simp [flushBuf, copyToUser, hb, hc, hz, ht, hd]
    omega

/-- `flush_buf` neither reads nor writes `from`. -/
theorem flushBuf_set_from (fault pos : Nat) (i : DumpIter) :
    flushBuf fault { i with «from» := pos } =
      ((flushBuf fault i).1, { (flushBuf fault i).2 with «from» := pos }) := by
  unfold flushBuf
  dsimp only
  split_ifs <;> rfl

/-- The frame the three dump reads share. It takes the caller's buffer and copies out what
an earlier read left in `buf`. It returns early if the buffer is full or `stop` holds at
the iterator. Otherwise it runs the file's walk `loop` and returns the count copied. -/
def dumpRead (stop : DumpIter → Bool) (loop : DumpIter → Nat × DumpIter)
    (fault size : Nat) (i : DumpIter) : Int × DumpIter :=
  let r := flushBuf fault { i with ubuf := [], size := size, ret := 0 }
  if r.1 ≠ 0 then (r.1, r.2)
  else if r.2.size = 0 ∨ stop r.2 then (r.2.ret, r.2)
  else
    let l := loop r.2
    (l.2.ret, l.2)

/-- A read whose first copy faults returns the count `copy_to_user` left uncopied, which is
positive, while the caller's buffer holds the `fault` bytes before the fault. -/
theorem dumpRead_of_fault {stop : DumpIter → Bool} {loop : DumpIter → Nat × DumpIter}
    {fault size : Nat} {i : DumpIter} (hb : i.buf ≠ []) (hf : fault < min i.buf.length size) :
    dumpRead stop loop fault size i =
      (((min i.buf.length size - fault : Nat) : Int),
        { i with ubuf := i.buf.take fault, size := size, ret := 0 }) := by
  have hc : min (min i.buf.length size) fault = fault := by omega
  have hz : min i.buf.length size - fault ≠ 0 := by omega
  simp [dumpRead, flushBuf, copyToUser, hb, hc, hz]

/-! ## The keys file -/

/-- The keys at or after position `pos`, in key order. This is what `bch_btree_iter_init`
at `pos` followed by `bch_btree_iter_peek` and `bch_btree_iter_advance_pos` yields. -/
def keysFrom (keys : List DumpKey) (pos : Nat) : List DumpKey :=
  keys.filter fun k => pos ≤ k.pos

/-- The loop of `bch_read_btree` over the keys `ks` still ahead of the iterator. Each key's
text and a newline go into `buf`, `from` moves past the key, and `buf` is flushed. The loop
stops on an error or a full buffer. -/
def readBtreeLoop (fault : Nat) : List DumpKey → DumpIter → Nat × DumpIter
  | [], i => (0, i)
  | k :: ks, i =>
    let r := flushBuf fault { i with buf := k.text ++ [10], «from» := k.pos + 1 }
    if r.1 ≠ 0 ∨ r.2.size = 0 then r else readBtreeLoop fault ks r.2

/-- `bch_read_btree`, the read of the keys file. -/
def bchReadBtree (t : DumpTree) (fault : Nat) : Nat → DumpIter → Int × DumpIter :=
  dumpRead (fun _ => false) (fun i => readBtreeLoop fault (keysFrom t.keys i.«from») i) fault

/-- The keys file's stream: each key's text followed by a newline, in key order. -/
def keysStream : List DumpKey → List UInt8
  | [] => []
  | k :: ks => k.text ++ 10 :: keysStream ks

/-! ## The formats file -/

/-- The leaves whose max key is at or after `pos`, in key order. This is what
`for_each_btree_node` from `pos` at depth 0 yields. -/
def nodesFrom (leaves : List DumpNode) (pos : Nat) : List DumpNode :=
  leaves.filter fun b => pos ≤ b.key

/-- The loop of `bch_read_btree_formats` over the leaves `bs` still ahead of the iterator.
Each leaf's description goes into `buf` and is flushed. Then `from` moves past the leaf's
max key, or stays at `POS_MAX`. -/
def readBtreeFormatsLoop (posMax fault : Nat) : List DumpNode → DumpIter → Nat × DumpIter
  | [], i => (0, i)
  | b :: bs, i =>
    let r := flushBuf fault { i with buf := b.text }
    if r.1 ≠ 0 then r
    else
      let i : DumpIter := { r.2 with «from» := if posMax ≠ b.key then b.key + 1 else b.key }
      if i.size = 0 then (0, i) else readBtreeFormatsLoop posMax fault bs i

/-- `bch_read_btree_formats`, the read of the formats file. It returns early when `from`
is `POS_MAX`. -/
def bchReadBtreeFormats (posMax : Nat) (t : DumpTree) (fault : Nat) :
    Nat → DumpIter → Int × DumpIter :=
  dumpRead (fun i => i.«from» = posMax)
    (fun i => readBtreeFormatsLoop posMax fault (nodesFrom t.leaves i.«from») i) fault

/-- The formats file's stream: each leaf's description, in key order. -/
def formatsStream : List DumpNode → List UInt8
  | [] => []
  | b :: bs => b.text ++ formatsStream bs

/-! ## The bfloat-failed file -/

/-- The loop of `bch_read_bfloat_failed` over the keys `ks` still ahead of the iterator.
`prevNode` is the leaf of the key before, `NULL` at the start of each read. A key in a new
leaf first has the leaf's description flushed. Then the key's bfloat text replaces `buf`,
is flushed, `from` moves past the key, and `buf` is flushed again. -/
def readBfloatFailedLoop (t : DumpTree) (fault : Nat) :
    List DumpKey → Option Nat → DumpIter → Nat × DumpIter
  | [], _, i => (0, i)
  | k :: ks, prevNode, i =>
    let r := if prevNode ≠ some k.node then flushBuf fault { i with buf := t.nodeText k.node }
      else (0, i)
    if r.1 ≠ 0 then r
    else
      let r := flushBuf fault { r.2 with buf := k.bfloat }
      if r.1 ≠ 0 then r
      else
        let r := flushBuf fault { r.2 with «from» := k.pos + 1 }
        if r.1 ≠ 0 ∨ r.2.size = 0 then r else readBfloatFailedLoop t fault ks (some k.node) r.2

/-- `bch_read_bfloat_failed`, the read of the bfloat-failed file. -/
def bchReadBfloatFailed (t : DumpTree) (fault : Nat) : Nat → DumpIter → Int × DumpIter :=
  dumpRead (fun _ => false)
    (fun i => readBfloatFailedLoop t fault (keysFrom t.keys i.«from») none i) fault

/-- The bfloat-failed file's stream: each leaf's description followed by the bfloat text
of each of its keys. `prev` is the leaf of the key before. -/
def bfloatStream (t : DumpTree) : Option Nat → List DumpKey → List UInt8
  | _, [] => []
  | prev, k :: ks =>
    (if prev ≠ some k.node then t.nodeText k.node else []) ++ k.bfloat ++
      bfloatStream t (some k.node) ks

/-! ## Reading a file in pieces -/

/-- The bytes a caller receives from `read()` calls of sizes `sizes` on one open file. Each
call goes into a buffer the caller can write in full, and the caller gets its first `ret`
bytes. -/
def readAll (read : Nat → Nat → DumpIter → Int × DumpIter) : List Nat → DumpIter → List UInt8
  | [], _ => []
  | s :: ss, i =>
    let r := read s s i
    r.2.ubuf.take r.1.toNat ++ readAll read ss r.2

end Libbcache
