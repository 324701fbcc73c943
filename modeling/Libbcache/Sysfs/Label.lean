import Mathlib.Data.List.Basic
import Mathlib.Logic.Function.Basic

/-!
# The `label` attribute of cached devices and blockdev volumes

Writing a string to a device's `label` file in sysfs runs the device's STORE, and reading
the file runs its SHOW. Both get a page of `PAGE_SIZE` bytes. STORE's page holds the
written bytes and whatever follows them. SHOW writes into the page and returns the length
the caller reads.

A cached device keeps its label in the backing superblock and copies it into its inode. A
blockdev volume keeps it in its inode only. The two SHOWs share one label branch
(`showLabel`). The two STOREs differ. The cached device's copies `size` bytes, ends them
with a NUL when there is room, and turns a final newline into a NUL. The volume's copies a
fixed `BCH_SB_LABEL_SIZE` bytes.

Byte buffers are functions from offsets to bytes, so that what lies beyond the bytes a
function writes is arbitrary. `BCH_SB_LABEL_SIZE` is defined outside this repository and
is the parameter `labelSize`.
-/

namespace Libbcache

/-- `PAGE_SIZE`: sysfs hands SHOW and STORE a page of this many bytes. -/
def pageSize : Nat := 4096

/-! ## C strings in a page -/

/-- `memcpy(dst, src, n)`. -/
def memcpy (dst src : Nat → UInt8) (n : Nat) : Nat → UInt8 :=
  fun j => if j < n then src j else dst j

/-- `strnlen(s, n)`: the offset of the first NUL among the first `n` bytes of `s`, or `n`. -/
def strnlen (s : Nat → UInt8) : Nat → Nat
  | 0 => 0
  | n + 1 => if s 0 = 0 then 0 else strnlen (fun j => s (j + 1)) n + 1

/-- `strlen(s)` for a string in a page. -/
def strlen (s : Nat → UInt8) : Nat := strnlen s pageSize

/-- `strcat(dst, src)`: `src` and a NUL written where the string in `dst` ends. -/
def strcat (dst : Nat → UInt8) (src : List UInt8) : Nat → UInt8 :=
  let n := strlen dst
  fun j => if n ≤ j ∧ j < n + src.length then src.getD (j - n) 0
    else if j = n + src.length then 0 else dst j

/-- The first `n` bytes of a buffer. -/
def bufBytes (s : Nat → UInt8) (n : Nat) : List UInt8 := (List.range n).map s

/-- A STORE page: the bytes `s` written to the attribute, then `rest`. -/
def bytesThen (s : List UInt8) (rest : Nat → UInt8) : Nat → UInt8 :=
  fun j => s.getD j (rest (j - s.length))

/-! ## SHOW and STORE -/

/-- The `label` branch SHOW(bch_cached_dev) and SHOW(bch_blockdev_volume) share. It copies
the label into the page, puts a NUL at `BCH_SB_LABEL_SIZE + 1` and appends a newline. It
returns `strlen` of the page, and the page. -/
def showLabel (labelSize : Nat) (label buf : Nat → UInt8) : Nat × (Nat → UInt8) :=
  let buf := memcpy buf label labelSize
  let buf := Function.update buf (labelSize + 1) 0
  let buf := strcat buf [10]
  (strlen buf, buf)

/-- What a read of an attribute returns: the first `ret` bytes of SHOW's page. -/
def shown (r : Nat × (Nat → UInt8)) : List UInt8 := bufBytes r.2 r.1

/-- The two copies of a cached device's label: in the backing superblock
(`dc->disk_sb.sb->label`) and in the inode (`dc->disk.inode.v.i_label`). -/
structure CachedDevLabel where
  label : Nat → UInt8
  iLabel : Nat → UInt8

/-- The `label` branch of SHOW(bch_cached_dev): the superblock's label. -/
def showCachedDevLabel (labelSize : Nat) (dc : CachedDevLabel) (buf : Nat → UInt8) :
    Nat × (Nat → UInt8) :=
  showLabel labelSize dc.label buf

/-- The `label` branch of STORE(__cached_dev) on `size` bytes at `buf`; `none` is `-EINVAL`,
for more than `BCH_SB_LABEL_SIZE` bytes. The bytes go into the superblock's label, with a
NUL after them if there is room and a final newline turned into a NUL. Then the label is
copied into the inode. The superblock write, the inode update and the uevent that follow
do not change the label. -/
def storeCachedDevLabel (labelSize : Nat) (dc : CachedDevLabel) (buf : Nat → UInt8)
    (size : Nat) : Option CachedDevLabel :=
  if size > labelSize then none
  else
    let label := memcpy dc.label buf size
    let label := if size < labelSize then Function.update label size 0 else label
    let label := if size ≠ 0 ∧ label (size - 1) = 10 then Function.update label (size - 1) 0
      else label
    some { label := label, iLabel := memcpy dc.iLabel label labelSize }

/-- The `label` branch of SHOW(bch_blockdev_volume): the inode's label. -/
def showBlockdevVolumeLabel (labelSize : Nat) (iLabel buf : Nat → UInt8) :
    Nat × (Nat → UInt8) :=
  showLabel labelSize iLabel buf

/-- The `label` branch of STORE(__bch_blockdev_volume): `BCH_SB_LABEL_SIZE` bytes of `buf`
copied into the inode's label, whatever the size written. The inode update and journal
flush that follow do not change the label. -/
def storeBlockdevVolumeLabel (labelSize : Nat) (iLabel buf : Nat → UInt8) : Nat → UInt8 :=
  memcpy iLabel buf labelSize

/-- A string without its final newline, if it has one. -/
def stripNewline (s : List UInt8) : List UInt8 :=
  if s.getLast? = some 10 then s.dropLast else s

/-! ## C strings -/

/-- `strnlen` stops at the first NUL: with no NUL before offset `k`, and a NUL at `k` unless
`k` is the bound, it returns `k`. -/
theorem strnlen_eq {s : Nat → UInt8} {k n : Nat} (hk : k ≤ n) (hnz : ∀ j < k, s j ≠ 0)
    (hz : k < n → s k = 0) : strnlen s n = k := by
  induction k generalizing s n with
  | zero =>
    cases n with
    | zero => rfl
    | succ n => simp [strnlen, hz (Nat.succ_pos n)]
  | succ k ih =>
    cases n with
    | zero => omega
    | succ n =>
      simp only [strnlen, hnz 0 (Nat.succ_pos k), if_false]
      rw [ih (by omega) (fun j hj => hnz (j + 1) (by omega)) (fun h => hz (by omega))]

theorem strcat_of_lt {dst : Nat → UInt8} {src : List UInt8} {j : Nat} (h : j < strlen dst) :
    strcat dst src j = dst j := by
  simp [strcat, Nat.not_le.2 h, Nat.ne_of_lt (Nat.lt_of_lt_of_le h (Nat.le_add_right _ _))]

theorem strcat_newline_self (dst : Nat → UInt8) : strcat dst [10] (strlen dst) = 10 := by
  simp [strcat]

theorem strcat_newline_succ (dst : Nat → UInt8) : strcat dst [10] (strlen dst + 1) = 0 := by
  simp [strcat]

theorem bufBytes_succ (s : Nat → UInt8) (n : Nat) : bufBytes s (n + 1) = bufBytes s n ++ [s n] := by
  simp [bufBytes, List.range_succ]

theorem bufBytes_congr {s t : Nat → UInt8} {n : Nat} (h : ∀ j < n, s j = t j) :
    bufBytes s n = bufBytes t n :=
  List.map_congr_left fun j hj => h j (List.mem_range.1 hj)

/-- A buffer whose first bytes are those of `l` starts with `l`. -/
theorem bufBytes_eq {s : Nat → UInt8} {l : List UInt8} (h : ∀ j < l.length, s j = l.getD j 0) :
    bufBytes s l.length = l := by
  refine List.ext_getElem (by simp [bufBytes]) fun j h₁ h₂ => ?_
  simp [bufBytes, h j h₂, List.getElem?_eq_getElem h₂]

theorem bytesThen_of_lt {s : List UInt8} {rest : Nat → UInt8} {j : Nat} (h : j < s.length) :
    bytesThen s rest j = s.getD j 0 := by
  simp [bytesThen, List.getElem?_eq_getElem h]

@[simp]
theorem bytesThen_length (s : List UInt8) (rest : Nat → UInt8) :
    bytesThen s rest s.length = rest 0 := by
  simp [bytesThen]

theorem stripNewline_concat (s : List UInt8) (c : UInt8) :
    stripNewline (s ++ [c]) = if c = 10 then s else s ++ [c] := by
  by_cases hc : c = 10 <;> simp [stripNewline, hc]

theorem getD_ne_zero {l : List UInt8} {j : Nat} (hnul : 0 ∉ l) (hj : j < l.length) :
    l.getD j 0 ≠ 0 := by
  intro h
  apply hnul
  rw [← h]
  simp [List.getElem?_eq_getElem hj, List.getElem_mem]

theorem stripNewline_subset (s : List UInt8) : stripNewline s ⊆ s := by
  unfold stripNewline
  split_ifs
  · exact (List.dropLast_prefix s).subset
  · exact List.Subset.refl s

/-! ## SHOW -/

/-- What a read of the label returns: the page after the label is copied into it, up to its
first NUL at or before offset `BCH_SB_LABEL_SIZE + 1`, then a newline. The byte at offset
`BCH_SB_LABEL_SIZE` is the page's own, since the NUL goes one byte further. -/
theorem shown_showLabel {labelSize n : Nat} {label buf : Nat → UInt8}
    (hL : labelSize + 2 ≤ pageSize) (hn : n ≤ labelSize + 1)
    (hnz : ∀ j < n, memcpy buf label labelSize j ≠ 0)
    (hz : n ≤ labelSize → memcpy buf label labelSize n = 0) :
    shown (showLabel labelSize label buf) = bufBytes (memcpy buf label labelSize) n ++ [10] := by
  simp only [shown, showLabel]
  generalize hb : Function.update (memcpy buf label labelSize) (labelSize + 1) 0 = b
  have hnz₂ : ∀ j < n, b j ≠ 0 := fun j hj => by
    rw [← hb, Function.update_noteq (by omega)]
    exact hnz j hj
  have hlen : strlen b = n := by
    refine strnlen_eq (by unfold pageSize at hL ⊢; omega) hnz₂ fun _ => ?_
    rw [← hb]
    by_cases hn' : n = labelSize + 1
    · rw [hn', Function.update_same]
    · rw [Function.update_noteq hn']
      exact hz (by omega)
  have hcat : strlen (strcat b [10]) = n + 1 := by
    refine strnlen_eq (by unfold pageSize at hL ⊢; omega) (fun j hj => ?_) fun _ => ?_
    · rcases Nat.lt_succ_iff_lt_or_eq.1 hj with hj | rfl
      · rw [strcat_of_lt (hlen ▸ hj)]
        exact hnz₂ j hj
      · rw [← hlen, strcat_newline_self]
        decide
    · rw [← hlen, strcat_newline_succ]
  rw [hcat, bufBytes_succ, ← hlen, strcat_newline_self, hlen]
  congr 1
  exact bufBytes_congr fun j hj => by
    rw [strcat_of_lt (hlen ▸ hj), ← hb, Function.update_noteq (by omega)]

/-! ## STORE then SHOW -/

/-- A cached device's STORE of a string `s` of at most `BCH_SB_LABEL_SIZE` bytes succeeds.
The superblock's label then holds `s` without its final newline, followed by a NUL if there
is room. -/
theorem storeCachedDevLabel_label {labelSize : Nat} (dc : CachedDevLabel) {s : List UInt8}
    (rest : Nat → UInt8) (hs : s.length ≤ labelSize) :
    ∃ dc', storeCachedDevLabel labelSize dc (bytesThen s rest) s.length = some dc' ∧
      (∀ j < (stripNewline s).length, dc'.label j = (stripNewline s).getD j 0) ∧
      ((stripNewline s).length < labelSize → dc'.label (stripNewline s).length = 0) := by
  simp only [storeCachedDevLabel, if_neg (not_lt.2 hs), gt_iff_lt, Option.some.injEq,
    exists_eq_left']
  rcases List.eq_nil_or_concat s with rfl | ⟨s', c, rfl⟩
  · refine ⟨fun j hj => by simp [stripNewline] at hj, fun h => ?_⟩
    simp [stripNewline] at h ⊢
    simp [h]
  · rw [List.concat_eq_append] at hs ⊢
    rw [stripNewline_concat]
    simp only [List.length_append, List.length_singleton, Nat.add_sub_cancel, ne_eq,
      Nat.add_one_ne_zero, not_false_eq_true, true_and]
    generalize hL₁ : memcpy dc.label (bytesThen (s' ++ [c]) rest) (s'.length + 1) = L₁
    have h₁ : ∀ j < s'.length + 1, L₁ j = (s' ++ [c]).getD j 0 := fun j hj => by
      rw [← hL₁, memcpy, if_pos hj, bytesThen_of_lt (by simpa using hj)]
    generalize hL₂ : (if s'.length + 1 < labelSize then Function.update L₁ (s'.length + 1) 0
      else L₁) = L₂
    have h₂ : ∀ j < s'.length + 1, L₂ j = (s' ++ [c]).getD j 0 := fun j hj => by
      rw [← hL₂]
      split_ifs
      · rw [Function.update_noteq (by omega), h₁ j hj]
      · exact h₁ j hj
    have h₃ : s'.length + 1 < labelSize → L₂ (s'.length + 1) = 0 := fun h => by
      rw [← hL₂, if_pos h, Function.update_same]
    have hc : L₂ s'.length = c := by
      rw [h₂ _ (by omega)]
      simp
    by_cases hc10 : c = 10
    · subst hc10
      simp only [hc, if_true]
      refine ⟨fun j hj => ?_, fun _ => Function.update_same _ _ _⟩
      rw [Function.update_noteq (by omega), h₂ j (by omega)]
      simp [List.getElem?_append_left hj]
    · simp only [hc, hc10, if_false, List.length_append, List.length_singleton]
      exact ⟨h₂, h₃⟩

/-- STORE then SHOW on a cached device gives the string back without its final newline,
then one newline, whatever the label held before and whatever the two pages hold past the
bytes written. This needs the string without its newline to be shorter than
`BCH_SB_LABEL_SIZE`, so that the label ends in a NUL. -/
theorem shown_showCachedDevLabel_store {labelSize : Nat} (hL : labelSize + 2 ≤ pageSize)
    (dc : CachedDevLabel) (s : List UInt8) (rest page : Nat → UInt8) (hs : s.length ≤ labelSize)
    (hnul : 0 ∉ s) (hroom : (stripNewline s).length < labelSize) :
    (storeCachedDevLabel labelSize dc (bytesThen s rest) s.length).map
      (fun dc => shown (showCachedDevLabel labelSize dc page)) = some (stripNewline s ++ [10]) := by
  obtain ⟨dc', hst, hlab, hz⟩ := storeCachedDevLabel_label dc rest hs
  have hpage : ∀ j < (stripNewline s).length,
      memcpy page dc'.label labelSize j = (stripNewline s).getD j 0 :=
    fun j hj => by rw [memcpy, if_pos (by omega), hlab j hj]
  rw [hst, Option.map_some', showCachedDevLabel, shown_showLabel hL (n := (stripNewline s).length)
    (by omega) (fun j hj => ?_) (fun _ => ?_), bufBytes_eq hpage]
  · rw [hpage j hj]
    exact getD_ne_zero (fun h => hnul (stripNewline_subset s h)) hj
  · rw [memcpy, if_pos hroom, hz hroom]

/-- With a 4-byte label, `ab` and a newline are stored and shown back as written. -/
theorem shown_showCachedDevLabel_store_ab :
    (4 + 2 ≤ pageSize ∧ ([97, 98, 10] : List UInt8).length ≤ 4 ∧
      (0 : UInt8) ∉ ([97, 98, 10] : List UInt8) ∧ (stripNewline [97, 98, 10]).length < 4) ∧
      (storeCachedDevLabel 4 ⟨fun _ => 7, fun _ => 7⟩ (bytesThen [97, 98, 10] fun _ => 7)
          ([97, 98, 10] : List UInt8).length).map
        (fun dc => shown (showCachedDevLabel 4 dc fun _ => 7)) =
        some (stripNewline [97, 98, 10] ++ [10]) :=
  have hL : 4 + 2 ≤ pageSize := by decide
  have hs : ([97, 98, 10] : List UInt8).length ≤ 4 := by decide
  have hnul : (0 : UInt8) ∉ ([97, 98, 10] : List UInt8) := by decide
  have hroom : (stripNewline [97, 98, 10]).length < 4 := by decide
  ⟨⟨hL, hs, hnul, hroom⟩, shown_showCachedDevLabel_store hL ⟨fun _ => 7, fun _ => 7⟩
    [97, 98, 10] (fun _ => 7) (fun _ => 7) hs hnul hroom⟩

example : (storeCachedDevLabel 4 ⟨fun _ => 7, fun _ => 7⟩ (bytesThen [97, 98, 10] fun _ => 7) 3).map
    (fun dc => shown (showCachedDevLabel 4 dc fun _ => 7)) = some [97, 98, 10] := by
  decide

/-- STORE then SHOW on a cached device, for a string of exactly `BCH_SB_LABEL_SIZE` bytes
with no final newline. The label then has no NUL, so SHOW's string runs on into the page's
own byte at offset `BCH_SB_LABEL_SIZE`, unless that byte is a NUL. -/
theorem shown_showCachedDevLabel_store_full {labelSize : Nat} (hL : labelSize + 2 ≤ pageSize)
    (dc : CachedDevLabel) (s : List UInt8) (rest page : Nat → UInt8) (hs : s.length = labelSize)
    (hnul : 0 ∉ s) (hnl : s.getLast? ≠ some 10) :
    (storeCachedDevLabel labelSize dc (bytesThen s rest) s.length).map
      (fun dc => shown (showCachedDevLabel labelSize dc page)) =
      some (s ++ (if page labelSize = 0 then [] else [page labelSize]) ++ [10]) := by
  have hstrip : stripNewline s = s := by simp [stripNewline, hnl]
  obtain ⟨dc', hst, hlab, -⟩ := storeCachedDevLabel_label dc rest hs.le
  rw [hstrip] at hlab
  have hpage : ∀ j < s.length, memcpy page dc'.label labelSize j = s.getD j 0 :=
    fun j hj => by rw [memcpy, if_pos (by omega), hlab j hj]
  have hnz : ∀ j < labelSize, memcpy page dc'.label labelSize j ≠ 0 :=
    fun j hj => by rw [hpage j (by omega)]; exact getD_ne_zero hnul (by omega)
  have hedge : memcpy page dc'.label labelSize labelSize = page labelSize := by simp [memcpy]
  have hbytes : bufBytes (memcpy page dc'.label labelSize) labelSize = s := by
    have := bufBytes_eq hpage
    rwa [hs] at this
  rw [hst, Option.map_some', showCachedDevLabel]
  by_cases hp : page labelSize = 0
  · rw [shown_showLabel hL (n := labelSize) (by omega) hnz (fun _ => hedge.trans hp), hbytes,
      if_pos hp, List.append_nil]
  · have hnz' : ∀ j < labelSize + 1, memcpy page dc'.label labelSize j ≠ 0 := fun j hj => by
      rcases Nat.lt_succ_iff_lt_or_eq.1 hj with hj | rfl
      · exact hnz j hj
      · rwa [hedge]
    rw [shown_showLabel hL (n := labelSize + 1) le_rfl hnz' (fun h => absurd h (by omega)),
      bufBytes_succ, hedge, hbytes, if_neg hp]

/-- STORE then SHOW on a blockdev volume, for a string shorter than `BCH_SB_LABEL_SIZE` on a
STORE page with a NUL after it. SHOW gives the string back with a newline added, and keeps
a final newline of the string's own. -/
theorem shown_showBlockdevVolumeLabel_store {labelSize : Nat} (hL : labelSize + 2 ≤ pageSize)
    (iLabel : Nat → UInt8) (s : List UInt8) (rest page : Nat → UInt8) (hs : s.length < labelSize)
    (hnul : 0 ∉ s) (hz : rest 0 = 0) :
    shown (showBlockdevVolumeLabel labelSize
      (storeBlockdevVolumeLabel labelSize iLabel (bytesThen s rest)) page) = s ++ [10] := by
  have hpage : ∀ j < s.length, memcpy page (storeBlockdevVolumeLabel labelSize iLabel
      (bytesThen s rest)) labelSize j = s.getD j 0 := fun j hj => by
    rw [memcpy, if_pos (by omega), storeBlockdevVolumeLabel, memcpy, if_pos (by omega),
      bytesThen_of_lt hj]
  rw [showBlockdevVolumeLabel, shown_showLabel hL (n := s.length) (by omega)
    (fun j hj => by rw [hpage j hj]; exact getD_ne_zero hnul hj) (fun _ => ?_), bufBytes_eq hpage]
  simp [memcpy, storeBlockdevVolumeLabel, hs, hz]

/-- With a 4-byte label, `ab` is stored on a volume and shown back with a newline. -/
theorem shown_showBlockdevVolumeLabel_store_ab :
    (4 + 2 ≤ pageSize ∧ ([97, 98] : List UInt8).length < 4 ∧
      (0 : UInt8) ∉ ([97, 98] : List UInt8) ∧ (fun _ => (0 : UInt8)) 0 = 0) ∧
      shown (showBlockdevVolumeLabel 4
        (storeBlockdevVolumeLabel 4 (fun _ => 7) (bytesThen [97, 98] fun _ => 0))
          fun _ => 7) = [97, 98] ++ [10] :=
  have hL : 4 + 2 ≤ pageSize := by decide
  have hs : ([97, 98] : List UInt8).length < 4 := by decide
  have hnul : (0 : UInt8) ∉ ([97, 98] : List UInt8) := by decide
  have hz : (fun _ => (0 : UInt8)) 0 = 0 := rfl
  ⟨⟨hL, hs, hnul, hz⟩, shown_showBlockdevVolumeLabel_store hL (fun _ => 7) [97, 98]
    (fun _ => 0) (fun _ => 7) hs hnul hz⟩

/-- STORE then SHOW does not give back the string without its final newline, then one
newline, on either kind of device. With `BCH_SB_LABEL_SIZE` = 32, a cached device stores a
32-byte label `a…a` and shows it followed by the show page's byte at offset 32, here `X`. A
blockdev volume stores `a` and a newline, and shows `a` and two newlines. -/
theorem label_store_show_round_trip_fails :
    (storeCachedDevLabel 32 ⟨fun _ => 0, fun _ => 0⟩
        (bytesThen (List.replicate 32 97) fun _ => 0) 32).map
        (fun dc => shown (showCachedDevLabel 32 dc fun _ => 88)) ≠
      some (stripNewline (List.replicate 32 97) ++ [10]) ∧
    shown (showBlockdevVolumeLabel 32
        (storeBlockdevVolumeLabel 32 (fun _ => 0) (bytesThen [97, 10] fun _ => 0)) fun _ => 0) ≠
      stripNewline [97, 10] ++ [10] := by
  refine ⟨?_, by decide⟩
  have h := shown_showCachedDevLabel_store_full (show 32 + 2 ≤ pageSize by decide) ⟨fun _ => 0, fun _ => 0⟩
    (List.replicate 32 97) (fun _ => 0) (fun _ => 88) (by simp) (by simp) (by decide)
  rw [List.length_replicate] at h
  rw [h]
  decide

end Libbcache
