import Libbcache.BtreeCache.Invariant

/-!
# `mca_alloc` and `bch_btree_node_fill` keep the invariant

From a state satisfying `CacheInv c p`, where the containers `p` of evictions a scan has
not yet unhashed are locked for intent by their scans (`PendingLocked`), every path of
`mca_alloc` either spins in `mca_cannibalize` or returns with the invariant kept and the
pending containers untouched (no reap can take them), and a container it returns is
*handed over* (`Handed`): allocated, with data and a zero pointer hash, on no list, not
hashed, and held by the caller for intent and write, clean, with no write in flight, no
write error, no noevict flag and no blocked writes. So none of the `BUG_ON`s of
`mca_alloc` fires (`CacheInv.mcaAlloc`).

`bch_btree_node_fill` then keeps the invariant whether its hash insert wins or loses
(`CacheInv.bchBtreeNodeFill`).
-/

namespace Libbcache

/-- Peel one step off an `Except` computation that succeeded. -/
theorem bind_eq_ok {ε α β : Type} {x : Except ε α} {f : α → Except ε β} {r : β}
    (h : x >>= f = .ok r) : ∃ a, x = .ok a ∧ f a = .ok r := by
  cases x with
  | error e => cases h
  | ok a => exact ⟨a, rfl, h⟩

@[simp] theorem ok_bind {ε α β : Type} (a : α) (f : α → Except ε β) :
    (Except.ok a >>= f) = f a := rfl

@[simp] theorem map_ok {ε α β : Type} (a : α) (f : α → β) :
    (f <$> (Except.ok a : Except ε α)) = .ok (f a) := rfl

namespace CacheSet

/-- The containers `p` of evictions still to be unhashed are allocated and locked for
intent, as the scans that evicted them hold them: no reap can take them. -/
def PendingLocked (c : CacheSet) (p : List Nat) : Prop :=
  ∀ x ∈ p, x < c.nr ∧ (c.nodes x).lock.intent ≠ none

/-- `c'` keeps every container of `c`, and those of `p` unchanged. -/
def Untouched (c c' : CacheSet) (p : List Nat) : Prop :=
  c.nr ≤ c'.nr ∧ ∀ x ∈ p, c'.nodes x = c.nodes x

section Pending

variable {c c' c'' : CacheSet} {p : List Nat}

theorem Untouched.refl (c : CacheSet) (p : List Nat) : Untouched c c p := ⟨le_rfl, fun _ _ => rfl⟩

theorem Untouched.trans (h₁ : Untouched c c' p) (h₂ : Untouched c' c'' p) : Untouched c c'' p :=
  ⟨h₁.1.trans h₂.1, fun x hx => (h₂.2 x hx).trans (h₁.2 x hx)⟩

/-- A change confined to a container outside `p`. -/
theorem Untouched.only {b : Nat} (hnr : c.nr ≤ c'.nr) (h : ∀ x, x ≠ b → c'.nodes x = c.nodes x)
    (hb : b ∉ p) : Untouched c c' p :=
  ⟨hnr, fun x hx => h x fun e => hb (e ▸ hx)⟩

theorem PendingLocked.untouched (hp : c.PendingLocked p) (hu : Untouched c c' p) :
    c'.PendingLocked p :=
  fun x hx => ⟨lt_of_lt_of_le (hp x hx).1 hu.1, by rw [hu.2 x hx]; exact (hp x hx).2⟩

/-- No reap takes a pending container. -/
theorem PendingLocked.not_mem_of_reap {b t : Nat} {flush : Bool} (hp : c.PendingLocked p)
    (h : c.mcaReapNotrace b flush t = some c') : b ∉ p :=
  fun hb => (hp b hb).2 (mcaReapNotrace_spec h).1

end Pending

/-- What `mca_alloc` hands to task `t`: a held container with a zero pointer hash that
`t` has reaped. -/
def Handed (c : CacheSet) (b t : Nat) : Prop := c.Held b ∧ (c.nodes b).key = 0 ∧ c.Reaped b t

/-- What `mca_alloc` by `t` guarantees from `c`, with pending containers `p`: it returns
with the invariant kept and `p` untouched, and hands over the container it returns, which
is not pending; or it spins in `mca_cannibalize`. -/
def AllocSpec (c : CacheSet) (t : Nat) (p : List Nat) (r : Except Stop (CacheSet × Option Nat)) :
    Prop :=
  (∃ c' o, r = .ok (c', o) ∧ CacheInv c' p ∧ Untouched c c' p ∧
    ∀ b, o = some b → c'.Handed b t ∧ b ∉ p) ∨
  r = .error .spin

/-- What holds from a later state holds from an earlier one it left `p` untouched in. -/
theorem AllocSpec.mono {c₀ c : CacheSet} {t : Nat} {p : List Nat} {r : Except Stop (CacheSet × Option Nat)}
    (hu : Untouched c₀ c p) (h : AllocSpec c t p r) : AllocSpec c₀ t p r := by
  rcases h with ⟨c', o, he, hc, hu', hh⟩ | h
  · exact .inl ⟨c', o, he, hc, hu.trans hu', hh⟩
  · exact .inr h

theorem CacheInv.allocOut {c : CacheSet} {p : List Nat} (hc : CacheInv c p) (b : Nat) :
    CacheInv (c.mcaAllocOut b) p := hc.setNode b _ rfl rfl

theorem reaped_mcaAllocOut {c : CacheSet} {b t : Nat} (hr : c.Reaped b t) :
    (c.mcaAllocOut b).Reaped b t := by
  simp only [Reaped, mcaAllocOut, setNode_nodes_self] at hr ⊢
  exact ⟨hr.1, rfl, rfl, rfl, rfl, hr.2.2.2.2.2⟩

theorem CacheInv.not_mem_listDel {c : CacheSet} {p : List Nat} (hc : CacheInv c p) (b : Nat)
    (h : ListHead) : b ∉ (c.listDel b).lists h := by
  simp [hc.mem_erase]

section Alloc

variable {c : CacheSet} {t : Nat} {p : List Nat}

/-- `out_unlock:` on a reaped container of `btree_cache_freeable`: neither `BUG_ON` fires
and the container is handed over. -/
theorem CacheInv.outUnlock {b : Nat} (hc : CacheInv c p) (hb : b ∈ c.lists .freeable)
    (hr : c.Reaped b t) (hbp : b ∉ p) : AllocSpec c t p (c.mcaAllocOutUnlock b) := by
  obtain ⟨hdata, hkey, hnh⟩ := hc.freeable b hb
  refine .inl ⟨(c.listDel b).mcaAllocOut b, some b, by simp [mcaAllocOutUnlock, hkey, hr.2.2.1],
    (hc.listDel b).allocOut b, .only (by simp [mcaAllocOut]) (fun x e => by simp [mcaAllocOut, e]) hbp, ?_⟩
  rintro _ ⟨⟩
  refine ⟨⟨⟨hc.listed _ b hb, by simpa [mcaAllocOut] using hdata, fun h => ?_, hnh⟩,
    by simpa [mcaAllocOut] using hkey, reaped_mcaAllocOut hr⟩, hbp⟩
  simpa [mcaAllocOut] using hc.not_mem_listDel b h

theorem mcaCannibalize_eq_error {e : Stop} (h : c.mcaCannibalize t = .error e) : e = .spin := by
  unfold mcaCannibalize at h
  split at h
  · cases h
  · split at h
    · cases h
    · cases h; rfl

/-- `err:` of `mca_alloc`: without `btree_cache_alloc_lock` it fails with the state
unchanged; with it, the cannibalized node, which is not pending, is unhashed and handed
over. -/
theorem CacheInv.mcaAllocErr (hc : CacheInv c p) (hp : c.PendingLocked p) :
    AllocSpec c t p (c.mcaAllocErr t) := by
  unfold CacheSet.mcaAllocErr
  split_ifs with ht
  · cases hcan : c.mcaCannibalize t with
    | error e => exact .inr (by rw [mcaCannibalize_eq_error hcan]; rfl)
    | ok r =>
      obtain ⟨b, c1⟩ := r
      obtain ⟨hbl, flush, hreap⟩ := mcaCannibalize_eq_ok hcan
      have hbp := hp.not_mem_of_reap hreap
      obtain ⟨⟨l, f, rfl⟩, hr, -⟩ := mcaReapNotrace_eq_some hreap
      have hrem : ((c.setNode b fun n => { n with lock := l, flags := f }).listDel b).mcaHashRemove b =
          .ok ((((c.setNode b fun n => { n with lock := l, flags := f }).listDel b).setTable
            (c.table.filter (·.2 != b))).setNode b fun n => { n with key := 0 }) := by
        have hdirty : f.dirty = false := by simpa [Reaped] using hr.2.1
        simp [mcaHashRemove, hdirty]
      have hc2 := ((hc.reap hreap).listDel b).hashRemove (by simpa using hc.listed _ b hbl) hrem
      rw [List.erase_of_not_mem hbp] at hc2
      refine .inl ⟨_, some b, by simp [hrem], hc2.allocOut b,
        .only (by simp [mcaAllocOut]) (fun x e => by simp [mcaAllocOut, e]) hbp, ?_⟩
      rintro _ ⟨⟩
      refine ⟨⟨⟨by simpa using hc.listed _ b hbl, by simpa [mcaAllocOut] using hc.cacheData b hbl,
        fun h => ?_, ?_⟩, by simp [mcaAllocOut], reaped_mcaAllocOut (by simpa [Reaped] using hr)⟩, hbp⟩
      · simpa [mcaAllocOut] using hc.not_mem_listDel b h
      · rintro ⟨e, he, heb⟩
        simp [mcaAllocOut, heb] at he
  · exact .inl ⟨c, none, rfl, hc, .refl c p, nofun⟩

/-- A freed container that is not pending has a zero pointer hash. -/
theorem CacheInv.freed_key {b : Nat} (hc : CacheInv c p) (hb : b ∈ c.lists .freed) (hbp : b ∉ p) :
    (c.nodes b).key = 0 := by
  have := (hc.hashed b (hc.listed _ b hb)).not
  simpa using this.mp ((hc.freed b hb).2 hbp)

/-- The path through `btree_cache_freed`: reap, then `mca_data_alloc`. -/
theorem CacheInv.allocFreed {b : Nat} {l : SixLock} {f : BtreeFlags}
    (hc : CacheInv c p) (hp : c.PendingLocked p) (hb : b ∈ c.lists .freed) (hbp : b ∉ p)
    (hr : (c.setNode b fun n => { n with lock := l, flags := f }).Reaped b t) (ok : Bool) :
    AllocSpec c t p (let c := (c.setNode b fun n => { n with lock := l, flags := f }).mcaDataAlloc b ok
      if (c.nodes b).data then c.mcaAllocOutUnlock b else (c.unlockNode b).mcaAllocErr t) := by
  have hc1 := hc.setNode b (fun n => { n with lock := l, flags := f }) rfl rfl
  have hc2 := hc1.dataAlloc (by simpa using hc.listed _ b hb) (by simpa using hc.freed_key hb hbp)
    (by simpa using (hc.freed b hb).1) ok
  have hu : Untouched c ((c.setNode b fun n => { n with lock := l, flags := f }).mcaDataAlloc b ok) p :=
    .only (by simp [mcaDataAlloc_nr]) (fun x e => by simp [mcaDataAlloc_nodes, e]) hbp
  cases ok
  · have hu' : Untouched c (((c.setNode b fun n => { n with lock := l, flags := f }).mcaDataAlloc b
        false).unlockNode b) p :=
      hu.trans (.only (by simp) (fun x e => by simp [CacheSet.unlockNode, setNode_nodes_ne _ _ e]) hbp)
    simpa using ((hc2.unlockNode b).mcaAllocErr (hp.untouched hu')).mono hu'
  · simp only [mcaDataAlloc_true, listMove_nodes, setUsed_nodes, setNode_nodes_self, if_true]
    exact (hc2.outUnlock (by simp) (by simpa [Reaped] using hr) hbp).mono (by simpa using hu)

/-- The path through `mca_bucket_alloc`: the fresh container's lock is free, so both
`six_trylock`s succeed. -/
theorem CacheInv.allocBucket (hc : CacheInv c p) (hp : c.PendingLocked p) (kzOk dataOk : Bool) :
    AllocSpec c t p (match c.mcaBucketAlloc kzOk dataOk with
      | (c, none) => c.mcaAllocErr t
      | (c, some b) =>
        match (c.nodes b).lock.trylockIntent t with
        | none => .error .trylock
        | some l =>
          match l.trylockWrite with
          | none => .error .trylock
          | some l => (c.setNode b fun n => { n with lock := l }).mcaAllocOutUnlock b) := by
  have hnew : c.nr ∉ p := fun h => Nat.lt_irrefl _ (hp _ h).1
  have hc0 := hc.newContainer
  have hc1 := hc0.dataAlloc (Nat.lt_succ_self _) (by simp [Btree.zero]) (by simp [Btree.zero])
  have hu : ∀ ok, Untouched c
      ({ c with nodes := Function.update c.nodes c.nr .zero, nr := c.nr + 1 }.mcaDataAlloc c.nr ok) p :=
    fun ok => .only (by simp [mcaDataAlloc_nr]) (fun x e => by
      simp [mcaDataAlloc_nodes, e, Function.update_noteq e]) hnew
  cases kzOk
  · exact hc.mcaAllocErr hp
  cases dataOk
  · exact ((hc1 false).mcaAllocErr (hp.untouched (hu false))).mono (hu false)
  · simp only [mcaBucketAlloc, if_true, mcaDataAlloc_true, listMove_nodes, setUsed_nodes,
      setNode_nodes_self, Function.update_same, Btree.zero, SixLock.free, SixLock.trylockIntent,
      SixLock.trylockWrite, if_true]
    refine (((hc1 true).setNode c.nr _ rfl rfl).outUnlock (by simp) ?_ hnew).mono
      (.only (by simp) (fun x e => by simp [e, Function.update_noteq e]) hnew)
    simp [Reaped, SixLock.HeldWrite, Btree.zero, BtreeFlags.zero]

/-- `mca_alloc` from a state satisfying the invariant keeps it, leaves the pending
containers untouched, hands over the container it returns, and fires none of its
`BUG_ON`s. -/
theorem CacheInv.mcaAlloc (hc : CacheInv c p) (hp : c.PendingLocked p) (gfp : Gfp) :
    AllocSpec c t p (c.mcaAlloc t gfp) := by
  unfold CacheSet.mcaAlloc
  split
  · rename_i b c1 h1
    obtain ⟨hb, hreap⟩ := firstReap_eq_some h1
    have hbp := hp.not_mem_of_reap hreap
    obtain ⟨⟨l, f, rfl⟩, hr, -⟩ := mcaReapNotrace_eq_some hreap
    exact ((hc.reap hreap).outUnlock (by simpa using hb) hr hbp).mono
      (.only (by simp) (fun x e => by simp [e]) hbp)
  split
  · rename_i b c1 h2
    obtain ⟨hb, hreap⟩ := firstReap_eq_some h2
    have hbp := hp.not_mem_of_reap hreap
    obtain ⟨⟨l, f, rfl⟩, hr, -⟩ := mcaReapNotrace_eq_some hreap
    exact hc.allocFreed hp hb hbp hr gfp.dataOk
  · exact hc.allocBucket hp gfp.kzOk gfp.dataOk

/-! ## `bch_btree_node_fill` -/

@[simp] theorem fillRead_nr (c : CacheSet) (b t : Nat) (lt : LockType) (readError : Bool) :
    (c.fillRead b t lt readError).nr = c.nr := by
  cases lt <;> rfl

theorem fillRead_nodes_ne (c : CacheSet) {b x : Nat} (t : Nat) (lt : LockType) (readError : Bool)
    (e : x ≠ b) : (c.fillRead b t lt readError).nodes x = c.nodes x := by
  unfold CacheSet.fillRead; cases lt <;> simp [e]

theorem CacheInv.fillRead (hc : CacheInv c p) (b t : Nat) (lockType : LockType) (readError : Bool) :
    CacheInv (c.fillRead b t lockType readError) p := by
  unfold CacheSet.fillRead
  cases lockType
  · exact CacheInv.setNode (CacheInv.setNode hc b _ rfl rfl) b _ rfl rfl
  · exact CacheInv.setNode hc b _ rfl rfl

/-- `bch_btree_node_fill` of a non-zero pointer hash keeps the invariant and leaves the
pending containers untouched, whether it fails to allocate, loses the insert race or wins
it. -/
theorem CacheInv.bchBtreeNodeFill {c' : CacheSet} {k level id : Nat} {gfp : Gfp}
    {lockType : LockType} {readError : Bool} {r : FillResult} (hc : CacheInv c p)
    (hp : c.PendingLocked p) (hk : k ≠ 0)
    (h : c.bchBtreeNodeFill t gfp k level id lockType readError = .ok (c', r)) :
    CacheInv c' p ∧ Untouched c c' p := by
  obtain ⟨⟨c1, o⟩, halloc, h⟩ := bind_eq_ok h
  obtain ⟨c1', o', heq, hc1, hu, hh⟩ | hspin := hc.mcaAlloc (t := t) hp gfp
  · rw [halloc] at heq
    cases heq
    cases o with
    | none => cases h; exact ⟨hc1, hu⟩
    | some b =>
      obtain ⟨hhb, hbp⟩ := hh b rfl
      have hf : CacheInv (c1.fillInsert b k level id).1 p := hc1.fillInsert hhb.1 hk
      have hfu : Untouched c1 (c1.fillInsert b k level id).1 p := by
        cases hA : c1.table.any (·.1 == k)
        · rw [fillInsert_of_fresh hA]; exact .only (by simp) (fun x e => by simp [e]) hbp
        · rw [fillInsert_of_taken hA]
          exact .only (by simp) (fun x e => by simp [CacheSet.unlockNode, setNode_nodes_ne _ _ e, e]) hbp
      cases hfi : c1.fillInsert b k level id with
      | mk c2 won =>
        rw [hfi] at hf hfu
        simp only [hfi] at h
        cases won
        · cases h; exact ⟨hf, hu.trans hfu⟩
        · cases h
          exact ⟨hf.fillRead b t lockType readError, (hu.trans hfu).trans
            (.only (by simp) (fun x e => fillRead_nodes_ne _ _ _ _ e) hbp)⟩
  · rw [halloc] at hspin; cases hspin

end Alloc

end CacheSet

end Libbcache
