import Libbcache.Sysfs.Label
import Mathlib.Data.Nat.Digits
import Mathlib.Data.List.Sort
import Mathlib.Algebra.Order.Ring.Nat

/-!
# Bucket quantiles in sysfs

`show_quantiles` backs the `read_priority_stats`, `write_priority_stats`,
`fragmentation_stats` and `oldest_gen_stats` files of a cache device. It fills an array
with one value per bucket (zero below `first_bucket`), sorts it from the largest value
with `sort` and the comparator `*r - *l`, drops the zeros from the end, and prints the 31
quantiles `p[n * (i + 1) / 32]` of what is left, each followed by a space, the last space
turned into a newline.

The page holds the quantiles of the non-zero values (`quantilesSpec`), in decimal
(`showQuantiles_eq`), and reading it back gives them (`parseQuantiles_render`). This
needs the values below `2^31`, where the comparator is the order `≥`: the difference it
returns as an `int` does not overflow. The quantiles are read from inside the array, and
they come out in non-increasing order (`quantilesSpec_antitone`).
-/

namespace Libbcache

/-! ## Printing -/

/-- The ASCII byte of the decimal digit `d`. -/
def digitByte (d : Nat) : UInt8 := UInt8.ofNat (48 + d)

/-- `%u` of `x`: its decimal digits, most significant first; `0` for zero. -/
def fmtU (x : Nat) : List UInt8 :=
  if x = 0 then [digitByte 0] else (Nat.digits 10 x).reverse.map digitByte

/-- `scnprintf` into `room` bytes of the text `s`: what fits before the terminating NUL. -/
def scnprintf (room : Nat) (s : List UInt8) : List UInt8 := s.take (room - 1)

/-- The loop `ret += scnprintf(buf + ret, PAGE_SIZE - ret, "%u ", q[i])`: the bytes in the
page after it, from the bytes `buf` before it. -/
def printQuantiles (buf : List UInt8) : List Nat → List UInt8
  | [] => buf
  | x :: q => printQuantiles (buf ++ scnprintf (pageSize - buf.length) (fmtU x ++ [32])) q

/-! ## Sorting and trimming -/

/-- `(int)` of an `unsigned` difference: the value modulo `2^32`, read as a signed 32-bit
integer. -/
def int32 (x : Int) : Int :=
  if x % 4294967296 < 2147483648 then x % 4294967296 else x % 4294967296 - 4294967296

/-- The comparator of `show_quantiles`, `*r - *l` on `unsigned`s, returned as an `int`. -/
def quantileCmp (l r : Nat) : Int := int32 ((r : Int) - l)

/-- `sort(p, n, sizeof(unsigned), cmp, NULL)`: an order in which each element compares at
most equal to the next. The model sorts by insertion with the same comparator; for values
below `2^31` the sorted array is unique (`sortQuantiles_eq`), so any correct sort gives it. -/
def sortQuantiles (p : List Nat) : List Nat := p.insertionSort fun a b => quantileCmp a b ≤ 0

/-- `while (n && !p[n - 1]) --n;`, starting from `n`. -/
def trimZeros (p : List Nat) : Nat → Nat
  | 0 => 0
  | n + 1 => if p.getD n 0 = 0 then trimZeros p n else n + 1

/-- The array `p` once filled: the value of each bucket from `first_bucket` on, and zero
below it (`vzalloc` zeroes the array). -/
def bucketValues (nbuckets firstBucket : Nat) (fn : Nat → Nat) : List Nat :=
  (List.range nbuckets).map fun i => if firstBucket ≤ i then fn i else 0

/-- `bucket_priority_fn`: `hand - prio` of two `u16`s, computed as an `int` and returned as
an `unsigned`. -/
def bucketPriorityFn (hand prio : Nat) : Nat := (((hand : Int) - prio) % 4294967296).toNat

/-- `show_quantiles`, with `ok` whether `vzalloc` finds the memory and `fn` the value of
each bucket. `vzalloc` of zero bytes returns `NULL`, so a device without buckets gets no
array. `none` is `-ENOMEM`. -/
def showQuantiles (ok : Bool) (nbuckets firstBucket : Nat) (fn : Nat → Nat) :
    Option (List UInt8) :=
  if ok = true ∧ nbuckets ≠ 0 then
    let p := sortQuantiles (bucketValues nbuckets firstBucket fn)
    let n := trimZeros p nbuckets
    let q := (List.range 31).map fun i => p.getD (n * (i + 1) / 32) 0
    let buf := printQuantiles [] q
    some (buf.set (buf.length - 1) 10)
  else none

/-! ## What the page is meant to hold -/

/-- The quantiles the file shows: of the non-zero values sorted from the largest, the one
at rank `n * (i + 1) / 32` for each `i < 31`, with `n` their number; `0` when there is
none. -/
def quantilesSpec (vals : List Nat) : List Nat :=
  let v := (vals.filter (· ≠ 0)).insertionSort (· ≥ ·)
  (List.range 31).map fun i => v.getD (v.length * (i + 1) / 32) 0

/-- The page for the numbers `q`: each in decimal, separated by spaces, then a newline. -/
def render (q : List Nat) : List UInt8 := [32].intercalate (q.map fmtU) ++ [10]

/-- Reading a decimal number. -/
def parseU (s : List UInt8) : Nat := s.foldl (fun acc b => 10 * acc + (b.toNat - 48)) 0

/-- Reading the page back: the numbers between the spaces, before the newline. -/
def parseQuantiles (text : List UInt8) : List Nat := (text.dropLast.splitOn 32).map parseU

/-! ## Decimal numbers -/

theorem digitByte_toNat {d : Nat} (hd : d < 10) : (digitByte d).toNat = 48 + d :=
  UInt8.toNat_ofNat_of_lt (by unfold UInt8.size; omega)

theorem foldr_digitByte : ∀ l : List Nat, (∀ d ∈ l, d < 10) →
    l.foldr (fun d acc => 10 * acc + ((digitByte d).toNat - 48)) 0 = Nat.ofDigits 10 l
  | [], _ => rfl
  | d :: l, h => by
    rw [List.foldr_cons, foldr_digitByte l fun e he => h e (.tail _ he), Nat.ofDigits_cons,
      digitByte_toNat (h d (.head _))]
    omega

/-- `%u` reads back. -/
theorem parseU_fmtU (x : Nat) : parseU (fmtU x) = x := by
  unfold fmtU
  split_ifs with h
  · subst h; rfl
  · rw [parseU, List.foldl_map, List.foldl_reverse,
      foldr_digitByte _ fun d hd => Nat.digits_lt_base (by norm_num) hd, Nat.ofDigits_digits]

theorem space_not_mem_fmtU (x : Nat) : (32 : UInt8) ∉ fmtU x := by
  have hd : ∀ d < 10, digitByte d ≠ 32 := fun d hd h => by
    have h1 := digitByte_toNat hd
    rw [h] at h1
    have h2 : (32 : UInt8).toNat = 32 := rfl
    omega
  unfold fmtU
  split_ifs
  · simpa using (hd 0 (by norm_num)).symm
  · simp only [List.mem_map, List.mem_reverse, not_exists, not_and]
    exact fun d hm => hd d (Nat.digits_lt_base (by norm_num) hm)

theorem fmtU_length_le {x : Nat} (hx : x < 2 ^ 31) : (fmtU x).length ≤ 10 := by
  unfold fmtU
  split_ifs with h
  · simp
  · rw [List.length_map, List.length_reverse]
    have hp := Nat.base_pow_length_digits_le 10 x (by norm_num) h
    by_contra hlen
    have : 10 ^ 11 ≤ 10 ^ (Nat.digits 10 x).length := Nat.pow_le_pow_right (by norm_num) (by omega)
    omega

/-! ## The printing loop -/

/-- Thirty-one numbers below `2^31` fit in the page: nothing is cut. -/
theorem printQuantiles_eq : ∀ (buf : List UInt8) (q : List Nat),
    buf.length + 11 * q.length ≤ 4095 → (∀ x ∈ q, x < 2 ^ 31) →
    printQuantiles buf q = buf ++ (q.map fun x => fmtU x ++ [32]).flatten
  | buf, [], _, _ => by simp [printQuantiles]
  | buf, x :: q, hl, hq => by
    have hx := fmtU_length_le (hq x (.head _))
    have hs : scnprintf (pageSize - buf.length) (fmtU x ++ [32]) = fmtU x ++ [32] :=
      List.take_of_length_le (by simp [pageSize]; simp at hl; omega)
    rw [printQuantiles, hs, printQuantiles_eq _ q (by simp at hl ⊢; omega)
      fun y hy => hq y (.tail _ hy)]
    simp

theorem flatten_map_append_eq {f : Nat → List UInt8} {a : UInt8} :
    ∀ q : List Nat, q ≠ [] → (q.map fun x => f x ++ [a]).flatten = [a].intercalate (q.map f) ++ [a]
  | [], h => absurd rfl h
  | [x], _ => by simp [List.intercalate]
  | x :: y :: q, _ => by
    rw [List.map_cons, List.flatten_cons, flatten_map_append_eq (y :: q) (List.cons_ne_nil y q)]
    simp [List.intercalate, List.intersperse_cons_cons]

/-! ## Sorting -/

/-- On values below `2^31` the comparator puts `a` first exactly when `a ≥ b`. -/
theorem quantileCmp_nonpos_iff {a b : Nat} (ha : a < 2 ^ 31) (hb : b < 2 ^ 31) :
    quantileCmp a b ≤ 0 ↔ a ≥ b := by
  unfold quantileCmp int32
  split_ifs <;> omega

theorem orderedInsert_congr {r s : Nat → Nat → Prop} [DecidableRel r] [DecidableRel s] (a : Nat) :
    ∀ l : List Nat, (∀ b ∈ l, (r a b ↔ s a b)) → l.orderedInsert r a = l.orderedInsert s a
  | [], _ => rfl
  | b :: l, h => by
    by_cases hab : s a b
    · simp [List.orderedInsert, hab, (h b (.head _)).mpr hab]
    · simp [List.orderedInsert, hab, mt (h b (.head _)).mp hab,
        orderedInsert_congr a l fun c hc => h c (.tail _ hc)]

theorem insertionSort_congr {r s : Nat → Nat → Prop} [DecidableRel r] [DecidableRel s] :
    ∀ l : List Nat, (∀ a ∈ l, ∀ b ∈ l, (r a b ↔ s a b)) → l.insertionSort r = l.insertionSort s
  | [], _ => rfl
  | a :: l, h => by
    rw [List.insertionSort, List.insertionSort,
      insertionSort_congr l fun x hx y hy => h x (.tail _ hx) y (.tail _ hy)]
    exact orderedInsert_congr a _ fun b hb =>
      h a (.head _) b (.tail _ ((List.perm_insertionSort s l).subset hb))

/-- For values below `2^31` the array is sorted into its non-zero values from the largest,
then its zeros. -/
theorem sortQuantiles_eq {p : List Nat} (hp : ∀ x ∈ p, x < 2 ^ 31) :
    sortQuantiles p = (p.filter (· ≠ 0)).insertionSort (· ≥ ·) ++ List.replicate (p.count 0) 0 := by
  rw [sortQuantiles, insertionSort_congr p fun a ha b hb => quantileCmp_nonpos_iff (hp a ha) (hp b hb)]
  apply List.eq_of_perm_of_sorted _ (List.sorted_insertionSort _ p)
  · refine List.pairwise_append.mpr ⟨List.sorted_insertionSort _ _, List.pairwise_replicate.mpr
      (.inr (le_refl 0)), fun a _ b hb => ?_⟩
    rw [List.eq_of_mem_replicate hb]
    exact Nat.zero_le a
  · refine (List.perm_insertionSort _ p).trans (List.perm_iff_count.mpr fun x => ?_)
    rw [List.count_append, (List.perm_insertionSort _ _).count_eq, List.count_replicate]
    by_cases hx : x = 0
    · subst hx
      have h0 : (p.filter (· ≠ 0)).count 0 = 0 :=
        List.count_eq_zero.mpr fun h => by simpa using (List.mem_filter.mp h).2
      rw [h0]
      simp
    · rw [List.count_filter (by simpa using hx)]
      simp [Ne.symm hx]

/-! ## Trimming -/

theorem getD_append_zeros (v : List Nat) (z i : Nat) :
    (v ++ List.replicate z 0).getD i 0 = v.getD i 0 := by
  rcases Nat.lt_or_ge i v.length with h | h
  · simp [List.getD_eq_getElem?_getD, List.getElem?_append_left h]
  · simp only [List.getD_eq_getElem?_getD, List.getElem?_append_right h, List.getElem?_replicate,
      List.getElem?_eq_none h]
    split_ifs <;> rfl

theorem trimZeros_congr {p p' : List Nat} (h : ∀ i, p.getD i 0 = p'.getD i 0) :
    ∀ n, trimZeros p n = trimZeros p' n
  | 0 => rfl
  | n + 1 => by simp only [trimZeros, h n, trimZeros_congr h n]

/-- Trimming an array of non-zero values followed by zeros stops at the last non-zero
value. -/
theorem trimZeros_append_zeros {v : List Nat} (hv : 0 ∉ v) (z : Nat) :
    trimZeros (v ++ List.replicate z 0) (v.length + z) = v.length := by
  rw [trimZeros_congr (getD_append_zeros v z)]
  induction z with
  | zero =>
    rcases Nat.eq_zero_or_pos v.length with h | h
    · rw [h]; rfl
    · obtain ⟨m, hm⟩ : ∃ m, v.length = m + 1 := ⟨v.length - 1, by omega⟩
      have hmem : v.getD m 0 ∈ v := by
        rw [List.getD_eq_getElem?_getD, List.getElem?_eq_getElem (by omega)]
        exact List.getElem_mem _
      rw [Nat.add_zero, hm, trimZeros, if_neg fun (h0 : v.getD m 0 = 0) => hv (h0 ▸ hmem)]
  | succ z ih =>
    rw [← Nat.add_assoc, trimZeros, if_pos (by
      rw [List.getD_eq_getElem?_getD, List.getElem?_eq_none (by omega)]; rfl), ih]

/-! ## The page -/

theorem getD_mem_or_zero (v : List Nat) (j : Nat) : v.getD j 0 = 0 ∨ v.getD j 0 ∈ v := by
  rw [List.getD_eq_getElem?_getD]
  rcases Nat.lt_or_ge j v.length with h | h
  · rw [List.getElem?_eq_getElem h]; exact .inr (List.getElem_mem _)
  · rw [List.getElem?_eq_none h]; exact .inl rfl

theorem quantilesSpec_mem {vals : List Nat} {x : Nat} (hx : x ∈ quantilesSpec vals) :
    x = 0 ∨ x ∈ vals := by
  simp only [quantilesSpec, List.mem_map, List.mem_range] at hx
  obtain ⟨i, -, rfl⟩ := hx
  rcases getD_mem_or_zero ((vals.filter (· ≠ 0)).insertionSort (· ≥ ·)) _ with h | h
  · exact .inl h
  · exact .inr (List.mem_of_mem_filter ((List.perm_insertionSort _ _).subset h))

/-- With memory and at least one bucket, and every value below `2^31`, `show_quantiles`
prints the quantiles of the non-zero values, largest first, in decimal, separated by
spaces and ended by a newline. -/
theorem showQuantiles_eq {nbuckets firstBucket : Nat} {fn : Nat → Nat} (hn : nbuckets ≠ 0)
    (hv : ∀ x ∈ bucketValues nbuckets firstBucket fn, x < 2 ^ 31) :
    showQuantiles true nbuckets firstBucket fn =
      some (render (quantilesSpec (bucketValues nbuckets firstBucket fn))) := by
  set vals := bucketValues nbuckets firstBucket fn
  obtain ⟨v, hvdef⟩ : ∃ v, v = (vals.filter (· ≠ 0)).insertionSort (· ≥ ·) := ⟨_, rfl⟩
  have hsort := sortQuantiles_eq hv
  rw [← hvdef] at hsort
  have hlen : nbuckets = v.length + vals.count 0 := by
    have h1 : (sortQuantiles vals).length = vals.length := List.length_insertionSort _ _
    have h2 : vals.length = nbuckets := by simp [vals, bucketValues]
    rw [hsort, List.length_append, List.length_replicate] at h1
    omega
  have hv0 : 0 ∉ v := fun h => by
    rw [hvdef] at h
    simpa using (List.mem_filter.mp ((List.perm_insertionSort _ _).subset h)).2
  have htrim : trimZeros (sortQuantiles vals) nbuckets = v.length := by
    rw [hsort, hlen]; exact trimZeros_append_zeros hv0 _
  have hq : ((List.range 31).map fun i => (sortQuantiles vals).getD (v.length * (i + 1) / 32) 0) =
      quantilesSpec vals := by
    simp only [hsort, getD_append_zeros, hvdef]; rfl
  have hsmall : ∀ x ∈ quantilesSpec vals, x < 2 ^ 31 := fun x hx => by
    rcases quantilesSpec_mem hx with rfl | hx
    · norm_num
    · exact hv x hx
  have hne : quantilesSpec vals ≠ [] := by simp [quantilesSpec]
  rw [showQuantiles, if_pos ⟨rfl, hn⟩]
  simp only [htrim, hq]
  rw [printQuantiles_eq [] _ (by simp [quantilesSpec]) hsmall, List.nil_append,
    flatten_map_append_eq _ hne, List.length_append, List.length_singleton, Nat.add_sub_cancel,
    List.set_append_right _ _ (le_refl _), Nat.sub_self]
  rfl

/-- The page reads back: for any numbers, printed as `show_quantiles` prints them. -/
theorem parseQuantiles_render {q : List Nat} (hq : q ≠ []) : parseQuantiles (render q) = q := by
  rw [parseQuantiles, render, List.dropLast_concat,
    List.splitOn_intercalate _ 32 (fun l hl => by
      obtain ⟨x, -, rfl⟩ := List.mem_map.mp hl; exact space_not_mem_fmtU x) (by simpa using hq),
    List.map_map]
  conv_rhs => rw [← List.map_id q]
  exact List.map_congr_left fun x _ => parseU_fmtU x

theorem getD_antitone {v : List Nat} (hs : v.Pairwise (· ≥ ·)) {a b : Nat} (hab : a ≤ b) :
    v.getD a 0 ≥ v.getD b 0 := by
  rcases Nat.lt_or_ge b v.length with hb | hb
  · rw [List.getD_eq_getElem?_getD, List.getD_eq_getElem?_getD, List.getElem?_eq_getElem hb,
      List.getElem?_eq_getElem (by omega)]
    rcases Nat.lt_or_eq_of_le hab with h | rfl
    · exact List.pairwise_iff_getElem.mp hs a b (by omega) hb h
    · exact le_refl _
  · rw [List.getD_eq_getElem?_getD (n := b), List.getElem?_eq_none hb]; exact Nat.zero_le _

/-- The quantiles come out from the largest: each is at least the next. -/
theorem quantilesSpec_antitone (vals : List Nat) : (quantilesSpec vals).Pairwise (· ≥ ·) := by
  unfold quantilesSpec
  rw [List.pairwise_map]
  refine (List.pairwise_lt_range 31).imp fun {i j} hij => getD_antitone
    (List.sorted_insertionSort _ _) (Nat.div_le_div_right (Nat.mul_le_mul_left _ (by omega)))

/-- Reading back what `show_quantiles` writes, for values below `2^31`: the 31 quantiles
of the non-zero bucket values, largest first (`quantilesSpec`), each at least the next and
each a bucket value or zero. -/
theorem showQuantiles_reads_back {nbuckets firstBucket : Nat} {fn : Nat → Nat} (hn : nbuckets ≠ 0)
    (hv : ∀ x ∈ bucketValues nbuckets firstBucket fn, x < 2 ^ 31) :
    ∃ text, showQuantiles true nbuckets firstBucket fn = some text ∧
      parseQuantiles text = quantilesSpec (bucketValues nbuckets firstBucket fn) ∧
      (parseQuantiles text).Pairwise (· ≥ ·) ∧
      ∀ x ∈ parseQuantiles text, x = 0 ∨ x ∈ bucketValues nbuckets firstBucket fn := by
  have hread := parseQuantiles_render (q := quantilesSpec (bucketValues nbuckets firstBucket fn))
    (by simp [quantilesSpec])
  refine ⟨_, showQuantiles_eq hn hv, hread, ?_, fun x hx => ?_⟩
  · rw [hread]; exact quantilesSpec_antitone _
  · rw [hread] at hx; exact quantilesSpec_mem hx

theorem showQuantiles_reads_back_four :
    (4 ≠ 0 ∧ ∀ x ∈ bucketValues 4 1 (fun i => 10 * i), x < 2 ^ 31) ∧
      ∃ text, showQuantiles true 4 1 (fun i => 10 * i) = some text ∧
        parseQuantiles text = quantilesSpec (bucketValues 4 1 (fun i => 10 * i)) ∧
        (parseQuantiles text).Pairwise (· ≥ ·) ∧
        ∀ x ∈ parseQuantiles text, x = 0 ∨ x ∈ bucketValues 4 1 (fun i => 10 * i) :=
  have hn : 4 ≠ 0 := by decide
  have hv : ∀ x ∈ bucketValues 4 1 (fun i => 10 * i), x < 2 ^ 31 := by decide
  ⟨⟨hn, hv⟩, showQuantiles_reads_back hn hv⟩

/-- Trimming never goes past the end of the array. -/
theorem trimZeros_le (p : List Nat) : ∀ n, trimZeros p n ≤ n
  | 0 => le_refl 0
  | n + 1 => by
    unfold trimZeros
    split_ifs
    · exact Nat.le_succ_of_le (trimZeros_le p n)
    · exact le_refl _

/-- Every quantile is read from inside the array: `n * (i + 1) / 32 < n` for `i < 31`, and
the index is `0` when the trimmed length `n` is. -/
theorem quantile_index_lt {p : List Nat} {nbuckets i : Nat} (hn : nbuckets ≠ 0) (hi : i < 31) :
    trimZeros p nbuckets * (i + 1) / 32 < nbuckets := by
  have := trimZeros_le p nbuckets
  rcases Nat.eq_zero_or_pos (trimZeros p nbuckets) with h | h
  · rw [h]; omega
  · calc trimZeros p nbuckets * (i + 1) / 32 < trimZeros p nbuckets :=
          Nat.div_lt_of_lt_mul (by
            rw [Nat.mul_comm 32]; exact Nat.mul_lt_mul_of_pos_left (by omega) h)
      _ ≤ nbuckets := this

/-- The last quantile of four buckets, one of them empty. -/
theorem quantile_index_lt_four :
    (4 : Nat) ≠ 0 ∧ 30 < 31 ∧ trimZeros [40, 30, 20, 0] 4 * (30 + 1) / 32 < 4 :=
  ⟨by decide, by decide, quantile_index_lt (by decide) (by decide)⟩

end Libbcache
