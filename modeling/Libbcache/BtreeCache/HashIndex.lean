import Libbcache.BtreeCache.Reachable

/-!
# The hash table as an index of the node keys

`btree_cache_table` indexes the containers by `PTR_HASH` of their key. What it stands for
is a function of the containers alone: for each nonzero pointer hash, the container whose
key has it (`hashedAt`, found by looking at every container; `0` is the hash of a
container that is not hashed). Under the node cache invariant, and so in every reachable
state, the table is exactly that index: `mca_find` returns what the search over all
containers finds (`CacheInv.mcaFind_eq_hashedAt`). A lookup never misses a hashed node and
never returns a node whose key has another hash.
-/

namespace Libbcache

namespace CacheSet

/-- The container whose key has pointer hash `k`, found by looking at every container;
none for `0`. -/
def hashedAt (c : CacheSet) (k : Nat) : Option Nat :=
  if k = 0 then none else (List.range c.nr).find? fun b => (c.nodes b).key == k

section Index

variable {c : CacheSet} {p : List Nat}

/-- An entry `mca_find` returns is in the table, with the hash looked up. -/
theorem mcaFind_entry {k b : Nat} (h : c.mcaFind k = some b) : (k, b) ∈ c.table := by
  obtain ⟨e, he, rfl⟩ := Option.map_eq_some'.1 h
  have hk : e.1 = k := by simpa using List.find?_some he
  rw [← hk]
  exact List.mem_of_find?_eq_some he

/-- The table holds the container whose key has the hash. -/
theorem CacheInv.mcaFind_key (hc : CacheInv c p) {k b : Nat} (h : c.mcaFind k = some b) :
    b < c.nr ∧ (c.nodes b).key = k ∧ k ≠ 0 := by
  have hm := mcaFind_entry h
  obtain ⟨hkey, hlt⟩ := hc.tableKey _ hm
  have hkey : k = (c.nodes b).key := hkey
  exact ⟨hlt, hkey.symm, fun h0 => (hc.hashed b hlt).1 ⟨_, hm, rfl⟩ (hkey ▸ h0)⟩

/-- Every container whose key has a nonzero hash is found under it. -/
theorem CacheInv.mcaFind_isSome (hc : CacheInv c p) {b : Nat} (hb : b < c.nr)
    (hk : (c.nodes b).key ≠ 0) : (c.mcaFind (c.nodes b).key).isSome := by
  have hm := hc.mem_table_of_hashed ((hc.hashed b hb).2 hk)
  rw [mcaFind, Option.isSome_map']
  exact List.find?_isSome.2 ⟨_, hm, by simp⟩

/-- In every state the invariant holds in, `mca_find` is the index the table stands for:
it returns the container whose key has the hash looked up, and none if there is no such
container or the hash is `0`. -/
theorem CacheInv.mcaFind_eq_hashedAt (hc : CacheInv c p) (k : Nat) :
    c.mcaFind k = c.hashedAt k := by
  unfold hashedAt
  split
  · rename_i hk0
    cases hf : c.mcaFind k with
    | none => rfl
    | some b => exact absurd hk0 (hc.mcaFind_key hf).2.2
  · rename_i hk0
    cases hf : c.mcaFind k with
    | some b =>
      obtain ⟨hb, hkb, -⟩ := hc.mcaFind_key hf
      obtain ⟨b', hb'⟩ := Option.isSome_iff_exists.1
        (List.find?_isSome.2 ⟨b, List.mem_range.2 hb, by simp [hkb]⟩ :
          ((List.range c.nr).find? fun b => (c.nodes b).key == k).isSome)
      have hb'lt := List.mem_range.1 (List.mem_of_find?_eq_some hb')
      have hkb' : (c.nodes b').key = k := by simpa using List.find?_some hb'
      have heq : b' = b :=
        hc.hashed_inj ((hc.hashed b' hb'lt).2 fun h => hk0 (hkb' ▸ h))
          ((hc.hashed b hb).2 fun h => hk0 (hkb ▸ h)) (hkb'.trans hkb.symm)
      rw [hb', heq]
    | none =>
      refine (List.find?_eq_none.2 fun b hb hkb => ?_).symm
      have hkb : (c.nodes b).key = k := by simpa using hkb
      have := hc.mcaFind_isSome (List.mem_range.1 hb) (hkb ▸ hk0)
      rw [hkb, hf] at this
      cases this

set_option maxRecDepth 4000 in
/-- After 18 fills, pointer hash `18` is node `17`'s, in the table and by the search. -/
theorem mcaFind_eq_hashedAt_breachStart :
    CacheInv breachStart [] ∧ breachStart.mcaFind 18 = breachStart.hashedAt 18 ∧
      breachStart.hashedAt 18 = some 17 :=
  ⟨reachable_breachStart.cacheInv, CacheInv.mcaFind_eq_hashedAt reachable_breachStart.cacheInv 18, rfl⟩

end Index

end CacheSet

end Libbcache
