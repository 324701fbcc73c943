import Libbcache.Debug.Dump

/-!
# What a sequence of reads of a dump file delivers

A dump file has a stream: the keys file's lines, the formats file's leaf descriptions, the
bfloat-failed file's leaf descriptions and bfloat texts. A caller reads it with `read()`
calls of any sizes, and expects the bytes to come out as that stream, with none lost or
repeated where one read ends and the next begins.

The state `i` of an open file determines what is still to be read (`DumpIter.pending`):
the bytes left in `buf`, then the stream after `from`. One read into a buffer of `size`
bytes should copy out the first `size` pending bytes and leave the rest pending
(`Drained`). `readAll_eq_take` turns that step property into the run property: a sequence
of reads delivers the stream cut at the sum of their sizes.

The keys file has the step property for every tree (`readAll_bchReadBtree`). The formats
file has it unless a leaf ends just before `POS_MAX` (`readAll_bchReadBtreeFormats`). The
bfloat-failed file does not have it. A read that ends inside a leaf's description overwrites
the rest of the description with the next key's bfloat text
(`bchReadBfloatFailed_of_short`). A read that resumes inside a leaf prints the leaf's
description again (`nodeText_prefix_bchReadBfloatFailed`).
-/

namespace Libbcache

/-- In a list whose positions strictly increase, the entries after `x` are those at or
after the successor of `x`'s position. So moving `from` past `x` resumes a walk right
after `x`. -/
theorem filter_succ_of_filter_eq_cons {α : Type} {f : α → Nat} {p : Nat} {x : α}
    {xs : List α} : ∀ {l : List α}, l.Pairwise (fun a b => f a < f b) →
      l.filter (fun a => p ≤ f a) = x :: xs → l.filter (fun a => f x + 1 ≤ f a) = xs
  | [], _, h => by simp at h
  | a :: l, hs, h => by
    rw [List.pairwise_cons] at hs
    by_cases ha : p ≤ f a
    · rw [List.filter_cons_of_pos (by simpa using ha), List.cons.injEq] at h
      obtain ⟨rfl, rfl⟩ := h
      rw [List.filter_cons_of_neg (by simp)]
      refine List.filter_congr fun b hb => ?_
      have := hs.1 b hb
      simp only [decide_eq_decide]
      omega
    · rw [List.filter_cons_of_neg (by simpa using ha)] at h
      have hmem : x ∈ l.filter (fun a => p ≤ f a) := by
        rw [h]
        exact List.mem_cons_self x xs
      have hx : p ≤ f x := of_decide_eq_true (List.mem_filter.1 hmem).2
      rw [List.filter_cons_of_neg (by simp only [decide_eq_true_eq]; omega)]
      exact filter_succ_of_filter_eq_cons hs.2 h

/-- After key `k` of a walk, the keys from the successor of `k`'s position are the rest of
the walk. -/
theorem keysFrom_succ {keys : List DumpKey} {pos : Nat} {k : DumpKey} {ks : List DumpKey}
    (hs : keys.Pairwise fun a b => a.pos < b.pos) (h : keysFrom keys pos = k :: ks) :
    keysFrom keys (k.pos + 1) = ks :=
  filter_succ_of_filter_eq_cons hs h

/-- After leaf `b` of a walk, the leaves from the successor of `b`'s max key are the rest of
the walk. -/
theorem nodesFrom_succ {leaves : List DumpNode} {pos : Nat} {b : DumpNode} {bs : List DumpNode}
    (hs : leaves.Pairwise fun a b => a.key < b.key) (h : nodesFrom leaves pos = b :: bs) :
    nodesFrom leaves (b.key + 1) = bs :=
  filter_succ_of_filter_eq_cons hs h

/-! ## Draining what is pending -/

/-- What is still to be read at `i`: the bytes in `buf`, then `tail from`, the file's stream
after `from`. -/
def DumpIter.pending (tail : Nat → List UInt8) (i : DumpIter) : List UInt8 :=
  i.buf ++ tail i.«from»

/-- `i'` is `i` once the bytes pending at `i` have been copied out as far as the room
`i.size` allows: `ubuf` has grown by them, `ret` and `size` have counted them, and they are
no longer pending. -/
structure Drained (tail : Nat → List UInt8) (i i' : DumpIter) : Prop where
  ubuf : i'.ubuf = i.ubuf ++ (i.pending tail).take i.size
  ret : i'.ret = i.ret + min i.size (i.pending tail).length
  size : i'.size = i.size - (i.pending tail).length
  rest : i'.pending tail = (i.pending tail).drop i.size

section Drained

variable {tail : Nat → List UInt8} {fault : Nat} {i i' : DumpIter}

/-- With no room left, or nothing pending, there is nothing to drain. -/
theorem Drained.refl (h : i.size = 0 ∨ i.pending tail = []) : Drained tail i i := by
  rcases h with h | h <;> exact ⟨by simp [h], by simp [h], by simp [h], by simp [h]⟩

/-- A flush of `n` bytes copies the first `n` bytes of `buf`; copying the first `n - |buf|`
bytes of what it leaves pending then copies the first `n` of all that was pending. -/
theorem take_append_take_drop_append (B T : List UInt8) (n : Nat) :
    B.take n ++ (B.drop n ++ T).take (n - B.length) = (B ++ T).take n := by
  rcases le_total n B.length with h | h
  · simp [Nat.sub_eq_zero_of_le h, List.take_append_of_le_length h]
  · simp [List.drop_eq_nil_of_le h, List.take_append_eq_append_take]

/-- What is pending after a flush of `n` bytes and a drain of `n - |buf|` more is what was
pending with its first `n` bytes dropped. -/
theorem drop_drop_append (B T : List UInt8) (n : Nat) :
    (B.drop n ++ T).drop (n - B.length) = (B ++ T).drop n := by
  rcases le_total n B.length with h | h
  · simp [Nat.sub_eq_zero_of_le h, List.drop_append_of_le_length h]
  · simp [List.drop_eq_nil_of_le h, List.drop_append_eq_append_drop]

/-- The count a flush of `s` bytes of a `b`-byte `buf` copies, plus the count a drain of the
rest copies, is the count one drain of all that was pending copies. -/
theorem min_add_min_sub (b s t : Nat) : min b s + min (s - b) (b - s + t) = min s (b + t) := by
  rcases le_total b s with h | h
  · rw [Nat.min_eq_left h, Nat.sub_eq_zero_of_le h, Nat.zero_add]
    omega
  · rw [Nat.min_eq_right h, Nat.sub_eq_zero_of_le h, Nat.zero_min, Nat.add_zero,
      Nat.min_eq_left (by omega)]

/-- The room a flush and a drain leave is the room one drain leaves. -/
theorem sub_sub_sub_add (b s t : Nat) : s - b - (b - s + t) = s - (b + t) := by
  rcases le_total b s with h | h
  · rw [Nat.sub_eq_zero_of_le h, Nat.zero_add, Nat.sub_sub]
  · rw [Nat.sub_eq_zero_of_le h, Nat.zero_sub, Nat.sub_eq_zero_of_le (by omega)]

/-- Flushing `buf` and then draining what is left drains all that was pending. -/
theorem Drained.flush (hf : i.ret + i.size ≤ fault) (h : Drained tail (flushBuf fault i).2 i') :
    Drained tail i i' := by
  rw [flushBuf_of_room hf] at h
  obtain ⟨hu, hr, hs, hp⟩ := h
  simp only [DumpIter.pending, List.length_append, List.length_drop] at hu hr hs hp
  refine ⟨?_, ?_, ?_, ?_⟩ <;> simp only [DumpIter.pending, List.length_append]
  · rw [hu, List.append_assoc, take_append_take_drop_append]
  · rw [hr, Nat.add_assoc, min_add_min_sub]
  · rw [hs, sub_sub_sub_add]
  · rw [hp, drop_drop_append]

/-- Flushing `buf` and then moving `from` is moving `from` and then flushing. -/
theorem Drained.flush_move {pos : Nat} (hf : i.ret + i.size ≤ fault)
    (h : Drained tail { (flushBuf fault i).2 with «from» := pos } i') :
    Drained tail { i with «from» := pos } i' :=
  Drained.flush hf (by rw [flushBuf_set_from]; exact h)

/-- Printing into `buf` and moving `from` keeps what is pending when the printed bytes are
the head of the stream at `from` before the move. -/
theorem Drained.reprint {buf : List UInt8} {pos : Nat} (hp : buf ++ tail pos = i.pending tail)
    (h : Drained tail { i with buf := buf, «from» := pos } i') : Drained tail i i' := by
  obtain ⟨hu, hr, hs, hq⟩ := h
  simp only [DumpIter.pending] at hu hr hs hq hp
  rw [hp] at hu hr hs hq
  exact ⟨hu, hr, hs, hq⟩

end Drained

section Flush

variable {fault : Nat} {i : DumpIter}

/-- A flush with room does not fail. -/
theorem flushBuf_err (h : i.ret + i.size ≤ fault) : (flushBuf fault i).1 = 0 := by
  rw [flushBuf_of_room h]

/-- A flush with room keeps `ret + size`, so the room stays. -/
theorem flushBuf_room (h : i.ret + i.size ≤ fault) :
    (flushBuf fault i).2.ret + (flushBuf fault i).2.size ≤ fault := by
  rw [flushBuf_of_room h]
  dsimp only
  omega

/-- After a flush with room, `buf` is empty unless the caller's buffer is full. -/
theorem flushBuf_buf (h : i.ret + i.size ≤ fault) (hs : (flushBuf fault i).2.size ≠ 0) :
    (flushBuf fault i).2.buf = [] := by
  rw [flushBuf_of_room h] at hs ⊢
  exact List.drop_eq_nil_of_le (by dsimp only at hs; omega)

@[simp]
theorem flushBuf_from (fault : Nat) (i : DumpIter) : (flushBuf fault i).2.«from» = i.«from» := by
  unfold flushBuf
  dsimp only
  split_ifs <;> rfl

/-- A flush only appends to the caller's buffer. -/
theorem flushBuf_ubuf (fault : Nat) (i : DumpIter) : i.ubuf <+: (flushBuf fault i).2.ubuf := by
  unfold flushBuf
  dsimp only
  split_ifs
  · exact List.prefix_refl _
  · exact List.prefix_append _ _
  · exact List.prefix_append _ _

end Flush

/-- A read into a buffer the caller can write in full drains what was pending. This holds
when the file's walk drains it whenever it starts with an empty `buf`, and `stop` holds only
when nothing is left to read. The read returns the count it copied. -/
theorem dumpRead_drained {tail : Nat → List UInt8} {stop : DumpIter → Bool}
    {loop : DumpIter → Nat × DumpIter} {size : Nat} {i : DumpIter}
    (hloop : ∀ j : DumpIter, j.buf = [] → j.ret + j.size ≤ size → stop j = false →
      Drained tail j (loop j).2)
    (hstop : ∀ j : DumpIter, stop j = true → tail j.«from» = []) :
    Drained tail { i with ubuf := [], size := size, ret := 0 } (dumpRead stop loop size size i).2 ∧
      (dumpRead stop loop size size i).1 = (dumpRead stop loop size size i).2.ret := by
  have hf : ({ i with ubuf := [], size := size, ret := 0 } : DumpIter).ret +
      ({ i with ubuf := [], size := size, ret := 0 } : DumpIter).size ≤ size := by simp
  simp only [dumpRead, flushBuf_err hf, ne_eq, not_true_eq_false, if_false]
  split_ifs with hz
  · refine ⟨Drained.flush hf (Drained.refl ?_), rfl⟩
    rcases hz with hz | hz
    · exact .inl hz
    · by_cases hs : (flushBuf size { i with ubuf := [], size := size, ret := 0 }).2.size = 0
      · exact .inl hs
      · have ht := hstop _ hz
        simp only [flushBuf_from] at ht
        exact .inr (by simp [DumpIter.pending, flushBuf_buf hf hs, ht])
  · simp only [not_or, Bool.not_eq_true] at hz
    exact ⟨Drained.flush hf (hloop _ (flushBuf_buf hf hz.1) (flushBuf_room hf) hz.2), rfl⟩

/-- If each read drains what was pending as far as its size allows, a sequence of reads
delivers the pending bytes, cut at the sum of the sizes. -/
theorem readAll_eq_take {tail : Nat → List UInt8} {read : Nat → Nat → DumpIter → Int × DumpIter}
    (hread : ∀ s i, Drained tail { i with ubuf := [], size := s, ret := 0 } (read s s i).2 ∧
      (read s s i).1 = (read s s i).2.ret) :
    ∀ (sizes : List Nat) (i : DumpIter), readAll read sizes i = (i.pending tail).take sizes.sum
  | [], _ => by simp [readAll]
  | s :: ss, i => by
    obtain ⟨⟨hu, hr, -, hp⟩, hret⟩ := hread s i
    simp only [DumpIter.pending] at hu hr hp ⊢
    rw [readAll, hret, Int.toNat_ofNat, readAll_eq_take hread ss, DumpIter.pending, hp, hu, hr,
      List.nil_append, Nat.zero_add, List.take_of_length_le (List.length_take _ _).le, List.sum_cons,
      List.take_add]

/-! ## The keys file -/

/-- The keys file's stream after position `pos`. -/
def keysTail (t : DumpTree) (pos : Nat) : List UInt8 := keysStream (keysFrom t.keys pos)

section Keys

variable {t : DumpTree}

/-- The keys loop drains what is pending, for keys in increasing position order. -/
theorem readBtreeLoop_drained (hs : t.keys.Pairwise fun a b => a.pos < b.pos) {fault : Nat} :
    ∀ (ks : List DumpKey) (i : DumpIter), keysFrom t.keys i.«from» = ks → i.buf = [] →
      i.ret + i.size ≤ fault → Drained (keysTail t) i (readBtreeLoop fault ks i).2
  | [], i, hk, hb, _ =>
    Drained.refl (.inr (by simp [DumpIter.pending, keysTail, hk, hb, keysStream]))
  | k :: ks, i, hk, hb, hf => by
    let i₀ : DumpIter := { i with buf := k.text ++ [10], «from» := k.pos + 1 }
    have hf₀ : i₀.ret + i₀.size ≤ fault := hf
    have hp : (k.text ++ [10]) ++ keysTail t (k.pos + 1) = i.pending (keysTail t) := by
      simp [DumpIter.pending, keysTail, keysFrom_succ hs hk, hk, hb, keysStream]
    refine Drained.reprint hp ?_
    simp only [readBtreeLoop, flushBuf_err hf₀, ne_eq, not_true_eq_false, false_or]
    split_ifs with hz
    · exact Drained.flush hf₀ (Drained.refl (.inl hz))
    · exact Drained.flush hf₀ (readBtreeLoop_drained hs ks _
        (by simpa [i₀] using keysFrom_succ hs hk) (flushBuf_buf hf₀ hz) (flushBuf_room hf₀))

/-- A read of the keys file into a buffer the caller can write in full drains what was
pending and returns the count it copied. -/
theorem bchReadBtree_drained (hs : t.keys.Pairwise fun a b => a.pos < b.pos) (s : Nat)
    (i : DumpIter) :
    Drained (keysTail t) { i with ubuf := [], size := s, ret := 0 } (bchReadBtree t s s i).2 ∧
      (bchReadBtree t s s i).1 = (bchReadBtree t s s i).2.ret :=
  dumpRead_drained (fun j hb hf _ => readBtreeLoop_drained hs _ j rfl hb hf)
    (fun _ h => by simp at h)

/-- Reading the keys file in pieces of any sizes delivers its stream, each key's text and a
newline in key order, cut at the total size: no byte is lost or repeated at a read
boundary. -/
theorem readAll_bchReadBtree (hs : t.keys.Pairwise fun a b => a.pos < b.pos)
    (sizes : List Nat) :
    readAll (bchReadBtree t) sizes bchDumpOpen = (keysStream t.keys).take sizes.sum := by
  rw [readAll_eq_take (bchReadBtree_drained hs)]
  simp [DumpIter.pending, bchDumpOpen, keysTail, keysFrom]

/-- Keys `A` and `B`, read one byte at a time and then in one piece. -/
theorem readAll_bchReadBtree_twoKeys :
    (⟨[⟨1, 0, [65], []⟩, ⟨2, 0, [66], []⟩], []⟩ : DumpTree).keys.Pairwise
        (fun a b => a.pos < b.pos) ∧
      readAll (bchReadBtree ⟨[⟨1, 0, [65], []⟩, ⟨2, 0, [66], []⟩], []⟩) [1, 1, 1, 5]
          bchDumpOpen =
        (keysStream [⟨1, 0, [65], []⟩, ⟨2, 0, [66], []⟩]).take [1, 1, 1, 5].sum :=
  have hs : (⟨[⟨1, 0, [65], []⟩, ⟨2, 0, [66], []⟩], []⟩ : DumpTree).keys.Pairwise
      (fun a b => a.pos < b.pos) := by decide
  ⟨hs, readAll_bchReadBtree hs [1, 1, 1, 5]⟩

example : readAll (bchReadBtree ⟨[⟨1, 0, [65], []⟩, ⟨2, 0, [66], []⟩], []⟩) [1, 1, 1, 5]
    bchDumpOpen = [65, 10, 66, 10] := by
  decide

end Keys

/-! ## The formats file -/

/-- The formats file's stream after position `pos`: nothing once `pos` is `POS_MAX`. -/
def formatsTail (posMax : Nat) (t : DumpTree) (pos : Nat) : List UInt8 :=
  if pos = posMax then [] else formatsStream (nodesFrom t.leaves pos)

/-- The leaves of a btree as the formats file needs them: max keys strictly increasing and
none past `POS_MAX`, `POS_MIN` below `POS_MAX`, and no leaf ending just before `POS_MAX`. -/
structure FormatsWf (posMax : Nat) (t : DumpTree) : Prop where
  sorted : t.leaves.Pairwise fun a b => a.key < b.key
  le_max : ∀ b ∈ t.leaves, b.key ≤ posMax
  succ_ne_max : ∀ b ∈ t.leaves, b.key + 1 ≠ posMax
  min_ne_max : 0 ≠ posMax

section Formats

variable {posMax : Nat} {t : DumpTree}

/-- After leaf `b` of a walk, the formats loop moves `from` to where the rest of the walk
starts. -/
theorem formatsTail_next (hw : FormatsWf posMax t) {p : Nat} {b : DumpNode}
    {bs : List DumpNode} (h : nodesFrom t.leaves p = b :: bs) :
    formatsTail posMax t (if posMax ≠ b.key then b.key + 1 else b.key) = formatsStream bs := by
  have hb : b ∈ t.leaves := (List.mem_filter.1 (h ▸ List.mem_cons_self b bs)).1
  have hnext : nodesFrom t.leaves (b.key + 1) = bs := nodesFrom_succ hw.sorted h
  by_cases hm : posMax = b.key
  · have hnil : bs = [] := hnext ▸ List.filter_eq_nil_iff.2 fun a ha => by
      have := hw.le_max a ha
      simp only [decide_eq_true_eq]
      omega
    simp [formatsTail, hm, hnil, formatsStream]
  · simp [formatsTail, hm, hw.succ_ne_max b hb, hnext]

/-- The formats loop drains what is pending, on a walk that is a suffix of the leaves. -/
theorem readBtreeFormatsLoop_drained (hw : FormatsWf posMax t) {fault : Nat} :
    ∀ (bs : List DumpNode) (i : DumpIter), (∃ p, nodesFrom t.leaves p = bs) →
      formatsTail posMax t i.«from» = formatsStream bs → i.buf = [] → i.ret + i.size ≤ fault →
      Drained (formatsTail posMax t) i (readBtreeFormatsLoop posMax fault bs i).2
  | [], i, _, ht, hb, _ =>
    Drained.refl (.inr (by simp [DumpIter.pending, ht, hb, formatsStream]))
  | b :: bs, i, ⟨p, hpb⟩, ht, hb, hf => by
    have hf₀ : ({ i with buf := b.text } : DumpIter).ret +
        ({ i with buf := b.text } : DumpIter).size ≤ fault := hf
    have hp : b.text ++ formatsTail posMax t (if posMax ≠ b.key then b.key + 1 else b.key) =
        i.pending (formatsTail posMax t) := by
      simp only [formatsTail_next hw hpb, DumpIter.pending, ht, hb, formatsStream, List.nil_append]
    refine Drained.reprint hp (Drained.flush_move hf₀ ?_)
    simp only [readBtreeFormatsLoop, flushBuf_err hf₀, ne_eq, not_true_eq_false, if_false]
    by_cases hz : (flushBuf fault { i with buf := b.text }).2.size = 0
    · simp only [hz, if_true]
      exact Drained.refl (.inl rfl)
    · simp only [hz, if_false]
      exact readBtreeFormatsLoop_drained hw bs _ ⟨_, nodesFrom_succ hw.sorted hpb⟩
        (by simpa using formatsTail_next hw hpb) (flushBuf_buf hf₀ hz) (flushBuf_room hf₀)

/-- A read of the formats file into a buffer the caller can write in full drains what was
pending and returns the count it copied. -/
theorem bchReadBtreeFormats_drained (hw : FormatsWf posMax t) (s : Nat) (i : DumpIter) :
    Drained (formatsTail posMax t) { i with ubuf := [], size := s, ret := 0 }
      (bchReadBtreeFormats posMax t s s i).2 ∧
      (bchReadBtreeFormats posMax t s s i).1 = (bchReadBtreeFormats posMax t s s i).2.ret :=
  dumpRead_drained
    (fun j hb hf hs => readBtreeFormatsLoop_drained hw _ j ⟨_, rfl⟩
      (if_neg (by simpa using hs)) hb hf)
    (fun _ h => if_pos (by simpa using h))

/-- Reading the formats file in pieces of any sizes delivers its stream, each leaf's
description in key order, cut at the total size, for leaves that do not end just before
`POS_MAX`. -/
theorem readAll_bchReadBtreeFormats (hw : FormatsWf posMax t) (sizes : List Nat) :
    readAll (bchReadBtreeFormats posMax t) sizes bchDumpOpen =
      (formatsStream t.leaves).take sizes.sum := by
  rw [readAll_eq_take (bchReadBtreeFormats_drained hw)]
  simp [DumpIter.pending, bchDumpOpen, formatsTail, nodesFrom, hw.min_ne_max]

/-- Leaves ending at 3 and 7, below `POS_MAX` = 100, read in pieces of 1, 2 and 4 bytes. -/
theorem readAll_bchReadBtreeFormats_twoLeaves :
    FormatsWf 100 ⟨[], [⟨3, [97]⟩, ⟨7, [98]⟩]⟩ ∧
      readAll (bchReadBtreeFormats 100 ⟨[], [⟨3, [97]⟩, ⟨7, [98]⟩]⟩) [1, 2, 4] bchDumpOpen =
        (formatsStream [⟨3, [97]⟩, ⟨7, [98]⟩]).take [1, 2, 4].sum :=
  have hw : FormatsWf 100 ⟨[], [⟨3, [97]⟩, ⟨7, [98]⟩]⟩ :=
    ⟨by decide, by decide, by decide, by decide⟩
  ⟨hw, readAll_bchReadBtreeFormats hw [1, 2, 4]⟩

end Formats

/-! ## The bfloat-failed file -/

section Bfloat

variable {t : DumpTree} {fault : Nat}

/-- One step of the bfloat-failed loop only appends to the caller's buffer after its first
flush, given that the rest of the loop only appends. -/
theorem readBfloatFailedLoop_cons_ubuf {k : DumpKey} {ks : List DumpKey} {prev : Option Nat}
    {i : DumpIter}
    (ih : ∀ prev i, i.ubuf <+: (readBfloatFailedLoop t fault ks prev i).2.ubuf) :
    (if prev ≠ some k.node then flushBuf fault { i with buf := t.nodeText k.node }
      else (0, i)).2.ubuf <+: (readBfloatFailedLoop t fault (k :: ks) prev i).2.ubuf := by
  simp only [readBfloatFailedLoop]
  generalize (if prev ≠ some k.node then
    flushBuf fault { i with buf := t.nodeText k.node } else (0, i)) = r
  have h₂ := flushBuf_ubuf fault { r.2 with buf := k.bfloat }
  have h₃ := h₂.trans (flushBuf_ubuf fault
    { (flushBuf fault { r.2 with buf := k.bfloat }).2 with «from» := k.pos + 1 })
  split_ifs
  · exact List.prefix_refl _
  · exact h₂
  · exact h₃
  · exact h₃.trans (ih _ _)

/-- The bfloat-failed loop only appends to the caller's buffer. -/
theorem readBfloatFailedLoop_ubuf :
    ∀ (ks : List DumpKey) (prev : Option Nat) (i : DumpIter),
      i.ubuf <+: (readBfloatFailedLoop t fault ks prev i).2.ubuf
  | [], _, _ => List.prefix_refl _
  | k :: ks, prev, i => by
    refine List.IsPrefix.trans ?_ (readBfloatFailedLoop_cons_ubuf (readBfloatFailedLoop_ubuf ks))
    split_ifs
    · exact flushBuf_ubuf fault { i with buf := t.nodeText k.node }
    · exact List.prefix_refl _

/-- A bfloat-failed read whose buffer is smaller than the description of the next key's
leaf copies the start of the description. The rest is overwritten in `buf` by the key's
bfloat text, and `from` moves past the key, so the rest never reaches the caller. -/
theorem bchReadBfloatFailed_of_short {i : DumpIter} {k : DumpKey} {ks : List DumpKey} {s : Nat}
    (hk : keysFrom t.keys i.«from» = k :: ks) (hb : i.buf = []) (h0 : s ≠ 0)
    (hs : s < (t.nodeText k.node).length) :
    bchReadBfloatFailed t s s i =
      ((s : Int), { i with
                    «from» := k.pos + 1
                    buf := k.bfloat
                    ubuf := (t.nodeText k.node).take s
                    size := 0
                    ret := s }) := by
  simp (disch := (dsimp only; omega)) [bchReadBfloatFailed, dumpRead, readBfloatFailedLoop,
    flushBuf_of_room, hb, hk, h0, Nat.sub_eq_zero_of_le hs.le, Nat.min_eq_right hs.le]

/-- A bfloat-failed read that starts with an empty `buf` first copies the description of
the next key's leaf, whether or not an earlier read already printed it. -/
theorem nodeText_prefix_bchReadBfloatFailed {i : DumpIter} {k : DumpKey} {ks : List DumpKey}
    (s : Nat) (hk : keysFrom t.keys i.«from» = k :: ks) (hb : i.buf = []) :
    (t.nodeText k.node).take s <+: (bchReadBfloatFailed t s s i).2.ubuf := by
  by_cases h0 : s = 0
  · simp [h0]
  · let j : DumpIter := { i with ubuf := [], size := s, ret := 0 }
    have hroom : ({ j with buf := t.nodeText k.node } : DumpIter).ret +
        ({ j with buf := t.nodeText k.node } : DumpIter).size ≤ s := by simp [j]
    have hstart : (bchReadBfloatFailed t s s i).2 = (readBfloatFailedLoop t s (k :: ks) none j).2 := by
      simp [bchReadBfloatFailed, dumpRead, flushBuf, j, hb, h0, hk]
    rw [hstart]
    refine List.IsPrefix.trans ?_ (readBfloatFailedLoop_cons_ubuf (readBfloatFailedLoop_ubuf ks))
    simp [flushBuf_of_room hroom, j]

end Bfloat

/-- The dump files do not deliver their streams under every split into reads, and a failed
copy can be reported as a count of bytes read. Take a leaf `NN` that holds keys `A` and `B`
with bfloat texts `x` and `y`. Its bfloat-failed stream is `N N x y`. Reads of 1 and 10
bytes give `N x N N y`, and reads of 3 and 10 bytes give `N N x N N y`. Take `POS_MAX` = 9
and leaves that end at 8 and 9: a formats read that ends with the first leaf ends the file.
A keys read whose buffer faults at its first byte returns 1 with nothing copied. -/
theorem dump_reads_lose_repeat_or_miscount :
    let tb : DumpTree := ⟨[⟨1, 0, [65], [120]⟩, ⟨2, 0, [66], [121]⟩], [⟨9, [78, 78]⟩]⟩
    let tf : DumpTree := ⟨[], [⟨8, [65]⟩, ⟨9, [66]⟩]⟩
    let faulted := bchReadBtree tb 0 1 (bchReadBtree tb 1 1 bchDumpOpen).2
    readAll (bchReadBfloatFailed tb) [1, 10] bchDumpOpen ≠
        (bfloatStream tb none tb.keys).take 11 ∧
      readAll (bchReadBfloatFailed tb) [3, 10] bchDumpOpen ≠
        (bfloatStream tb none tb.keys).take 13 ∧
      readAll (bchReadBtreeFormats 9 tf) [1, 5] bchDumpOpen ≠ (formatsStream tf.leaves).take 6 ∧
      faulted.1 = 1 ∧ faulted.2.ubuf = [] := by
  intro tb tf faulted
  refine ⟨?_, ?_, by decide, ?_⟩
  · -- the first read copies one byte of the description, and `x` overwrites the other
    simp only [readAll]
    rw [bchReadBfloatFailed_of_short (t := tb)
      (show keysFrom tb.keys bchDumpOpen.«from» = [⟨1, 0, [65], [120]⟩, ⟨2, 0, [66], [121]⟩] from rfl)
      rfl (by decide) (by decide)]
    decide
  · -- the second read starts again with the description, where the stream has `y`
    intro h
    have hpre : [78, 78] <+:
        (bchReadBfloatFailed tb 10 10 (bchReadBfloatFailed tb 3 3 bchDumpOpen).2).2.ubuf :=
      nodeText_prefix_bchReadBfloatFailed (t := tb) 10
        (show keysFrom tb.keys (bchReadBfloatFailed tb 3 3 bchDumpOpen).2.«from» =
          [⟨2, 0, [66], [121]⟩] by decide) (by decide)
    have hfirst : (bchReadBfloatFailed tb 3 3 bchDumpOpen).2.ubuf.take
        (bchReadBfloatFailed tb 3 3 bchDumpOpen).1.toNat = [78, 78, 120] := by decide
    have hstream : (bfloatStream tb none tb.keys).take 13 = [78, 78, 120, 121] := by decide
    simp only [readAll, List.append_nil] at h
    rw [hfirst, hstream] at h
    obtain ⟨u, hu⟩ := hpre
    generalize (bchReadBfloatFailed tb 10 10 (bchReadBfloatFailed tb 3 3 bchDumpOpen).2).1.toNat = n
      at h
    rw [← hu] at h
    cases n <;> simp at h
  · -- the second keys read faults at its first byte
    have h : faulted = (((min (bchReadBtree tb 1 1 bchDumpOpen).2.buf.length 1 - 0 : Nat) : Int),
        { (bchReadBtree tb 1 1 bchDumpOpen).2 with
          ubuf := (bchReadBtree tb 1 1 bchDumpOpen).2.buf.take 0, size := 1, ret := 0 }) :=
      dumpRead_of_fault (by decide) (by decide)
    rw [h]
    exact ⟨by decide, rfl⟩

end Libbcache
