import Mathlib.Data.List.Basic
import Mathlib.Data.List.Nodup

/-!
# Linked btree iterators

Iterators that share locks are kept in a circular list through `next`. `btree_iter.h`
walks it in two ways:

* `for_each_linked_btree_iter` visits every iterator linked with `iter`, as
  `bch_btree_iter_cond_resched` does to unlock them all before it sleeps;
* `for_each_linked_btree_node` visits those that point at the node `b` at its level and
  could still relock it (`__next_linked_btree_node`): the sequence number they recorded
  for that level agrees with `b`'s lock without its low bit, which a write lock held by
  `iter` sets.

Iterators are addressed by `Nat`, and the walks by a step budget: `Chain` says that
`next` leads from one iterator through a list of others to a third, and `Ring` that the
others lead from `iter` back to `iter`. With a budget past the ring's length, the walks
visit the other iterators in ring order and stop at `iter` (`linkedIters_chain`,
`linkedBtreeNodes_chain`).
-/

namespace Libbcache

/-- What `btree_iter.h` reads of a `struct btree_iter`: `next`, and per level the node in
`nodes[]` (`none` for `NULL`) and `lock_seq[]`. -/
structure BtreeIter where
  next : Nat
  nodes : Nat → Option Nat
  lockSeq : Nat → Nat

namespace BtreeIter

variable (its : Nat → BtreeIter) (iter : Nat)

/-- `btree_iter_linked`. -/
def btreeIterLinked : Bool := (its iter).next != iter

/-- `linked->nodes[b->level] == b && linked->lock_seq[b->level] >> 1 == b->lock.state.seq >> 1`,
for the node `b` at `level` whose lock has sequence number `seq`. -/
def pointsAt (it : BtreeIter) (b level seq : Nat) : Bool :=
  it.nodes level == some b && it.lockSeq level / 2 == seq / 2

/-- `__next_linked_btree_node(iter, b, linked)`, for at most `fuel` steps along `next`. -/
def nextLinkedBtreeNode (b level seq : Nat) : Nat → Nat → Option Nat
  | 0, _ => none
  | fuel + 1, linked =>
    if (its linked).next = iter then none
    else if pointsAt (its (its linked).next) b level seq then some (its linked).next
    else nextLinkedBtreeNode b level seq fuel (its linked).next

/-- `for_each_linked_btree_node(iter, b, linked)`: the iterators it visits, over at most
`n` rounds of `__next_linked_btree_node` with `fuel` steps each. -/
def linkedBtreeNodes (b level seq fuel : Nat) : Nat → Nat → List Nat
  | 0, _ => []
  | n + 1, linked =>
    match nextLinkedBtreeNode its iter b level seq fuel linked with
    | none => []
    | some l => l :: linkedBtreeNodes b level seq fuel n l

/-- `for_each_linked_btree_iter(iter, linked)`, entered at `linked`: the iterators it
visits in at most `fuel` steps. -/
def linkedIters : Nat → Nat → List Nat
  | 0, _ => []
  | fuel + 1, linked =>
    if (its linked).next = iter then []
    else (its linked).next :: linkedIters fuel (its linked).next

/-- `bch_btree_iter_cond_resched(iter)`: the iterators it unlocks, in order, and whether
it calls `schedule()`. -/
def bchBtreeIterCondResched (needResched raceFault : Bool) (fuel : Nat) : List Nat × Bool :=
  if needResched then (linkedIters its iter fuel iter ++ [iter], true)
  else if raceFault then (linkedIters its iter fuel iter ++ [iter], false)
  else ([], false)

/-! ## Walking along `next` -/

/-- Following `next` from `a` passes through the iterators `l`, in order, and then
reaches `z`. -/
def Chain : Nat → List Nat → Nat → Prop
  | a, [], z => (its a).next = z
  | a, x :: l, z => (its a).next = x ∧ Chain x l z

instance decChain : (a : Nat) → (l : List Nat) → (z : Nat) → Decidable (Chain its a l z)
  | _, [], _ => inferInstanceAs (Decidable (_ = _))
  | _, x :: l, z => haveI := decChain x l z; inferInstanceAs (Decidable (_ ∧ _))

/-- A well-formed ring: `next` leads from `iter` through the other iterators `others`,
each once, and back to `iter`. -/
structure Ring (others : List Nat) : Prop where
  chain : Chain its iter others iter
  nodup : others.Nodup
  not_mem : iter ∉ others

instance (others : List Nat) : Decidable (Ring its iter others) :=
  decidable_of_iff (Chain its iter others iter ∧ others.Nodup ∧ iter ∉ others)
    ⟨fun ⟨h1, h2, h3⟩ => ⟨h1, h2, h3⟩, fun ⟨h1, h2, h3⟩ => ⟨h1, h2, h3⟩⟩

variable {its iter}

theorem Chain.drop {z y : Nat} {post : List Nat} :
    ∀ {a : Nat} (pre : List Nat), Chain its a (pre ++ y :: post) z → Chain its y post z
  | _, [], h => h.2
  | _, _ :: pre, h => Chain.drop pre h.2

theorem nextLinkedBtreeNode_chain (b level seq : Nat) {l : List Nat} :
    ∀ {a fuel : Nat}, Chain its a l iter → iter ∉ l → l.length < fuel →
      nextLinkedBtreeNode its iter b level seq fuel a =
        l.find? fun x => pointsAt (its x) b level seq := by
  induction l with
  | nil =>
    rintro a (_ | fuel) hc - hf
    · cases hf
    · simp [nextLinkedBtreeNode, show (its a).next = iter from hc]
  | cons x l ih =>
    rintro a (_ | fuel) ⟨hx, hc⟩ hi hf
    · cases hf
    have hxi : x ≠ iter := fun h => hi (h ▸ List.mem_cons_self x l)
    have hl : l.length < fuel := by simp at hf; omega
    simp only [nextLinkedBtreeNode, hx, if_neg hxi, List.find?_cons]
    cases hp : pointsAt (its x) b level seq with
    | true => rfl
    | false => exact ih hc (fun h => hi (List.mem_cons_of_mem x h)) hl

/-- With a budget past the chain's length, `for_each_linked_btree_node` entered at `a`
visits exactly the iterators of the chain that point at `b`, in order. -/
theorem linkedBtreeNodes_chain (b level seq : Nat) {fuel : Nat} :
    ∀ {n a : Nat} {l : List Nat}, Chain its a l iter → iter ∉ l → l.length < fuel →
      l.length < n →
      linkedBtreeNodes its iter b level seq fuel n a =
        l.filter fun x => pointsAt (its x) b level seq
  | 0, _, _, _, _, _, hn => absurd hn (Nat.not_lt_zero _)
  | n + 1, a, l, hc, hi, hf, hn => by
    rw [linkedBtreeNodes, nextLinkedBtreeNode_chain b level seq hc hi hf]
    cases hy : l.find? fun x => pointsAt (its x) b level seq with
    | none =>
      rw [List.find?_eq_none] at hy
      exact (List.filter_eq_nil_iff.2 hy).symm
    | some y =>
      obtain ⟨hpy, pre, post, rfl, hpre⟩ := List.find?_eq_some.1 hy
      have hpre' : pre.filter (fun x => pointsAt (its x) b level seq) = [] :=
        List.filter_eq_nil_iff.2 fun x hx => by simpa using hpre x hx
      simp only [List.length_append, List.length_cons] at hf hn
      show y :: _ = _
      rw [linkedBtreeNodes_chain (n := n) b level seq (hc.drop pre)
        (fun h => hi (List.mem_append_right _ (List.mem_cons_of_mem y h))) (by omega) (by omega),
        List.filter_append, hpre', List.nil_append, List.filter_cons, if_pos hpy]

/-- With a budget past the chain's length, `for_each_linked_btree_iter` entered at `a`
visits the chain. -/
theorem linkedIters_chain {l : List Nat} :
    ∀ {a fuel : Nat}, Chain its a l iter → iter ∉ l → l.length < fuel →
      linkedIters its iter fuel a = l := by
  induction l with
  | nil =>
    rintro a (_ | fuel) hc - hf
    · cases hf
    · simp [linkedIters, show (its a).next = iter from hc]
  | cons x l ih =>
    rintro a (_ | fuel) ⟨hx, hc⟩ hi hf
    · cases hf
    have hxi : x ≠ iter := fun h => hi (h ▸ List.mem_cons_self x l)
    rw [linkedIters, hx, if_neg hxi,
      ih hc (fun h => hi (List.mem_cons_of_mem x h)) (by simp at hf; omega)]

/-! ## Rings -/

/-- Over a well-formed ring, with a budget past its length, `for_each_linked_btree_node`
visits exactly the other iterators that point at `b` and could relock it, in ring order,
each once. -/
theorem linkedBtreeNodes_ring {others : List Nat} (hr : Ring its iter others)
    (b level seq : Nat) {fuel : Nat} (hf : others.length < fuel) :
    linkedBtreeNodes its iter b level seq fuel fuel iter =
        others.filter (fun x => pointsAt (its x) b level seq) ∧
      (linkedBtreeNodes its iter b level seq fuel fuel iter).Nodup := by
  have h := linkedBtreeNodes_chain b level seq hr.chain hr.not_mem hf hf
  exact ⟨h, h ▸ hr.nodup.filter _⟩

/-- Over a well-formed ring, `bch_btree_iter_cond_resched` unlocks either nothing or
every iterator of the ring, each once and `iter` last. -/
theorem bchBtreeIterCondResched_ring {others : List Nat} (hr : Ring its iter others)
    (needResched raceFault : Bool) {fuel : Nat} (hf : others.length < fuel) :
    (bchBtreeIterCondResched its iter needResched raceFault fuel).1 =
        (if needResched || raceFault then others ++ [iter] else []) ∧
      (bchBtreeIterCondResched its iter needResched raceFault fuel).1.Nodup := by
  have h := linkedIters_chain hr.chain hr.not_mem hf
  have hnd : (others ++ [iter]).Nodup :=
    List.nodup_append.2 ⟨hr.nodup, List.nodup_singleton _, by simpa using hr.not_mem⟩
  cases needResched <;> cases raceFault <;> simp [bchBtreeIterCondResched, h, hnd]

/-- Three linked iterators, `0 → 1 → 2 → 0`, all at node 7 on level 0. Iterator 1
recorded sequence number 4 and iterator 2 the older 2; iterator 0 has since taken node 7's
write lock, which stands at 5. -/
def threeIters : Nat → BtreeIter
  | 0 => ⟨1, fun _ => some 7, fun _ => 4⟩
  | 1 => ⟨2, fun _ => some 7, fun _ => 4⟩
  | _ => ⟨0, fun _ => some 7, fun _ => 2⟩

theorem linkedBtreeNodes_ring_threeIters :
    (Ring threeIters 0 [1, 2] ∧ [1, 2].length < 3) ∧
      linkedBtreeNodes threeIters 0 7 0 5 3 3 0 =
          [1, 2].filter (fun x => pointsAt (threeIters x) 7 0 5) ∧
        (linkedBtreeNodes threeIters 0 7 0 5 3 3 0).Nodup :=
  have hr : Ring threeIters 0 [1, 2] := by decide
  have hf : [1, 2].length < 3 := by decide
  ⟨⟨hr, hf⟩, linkedBtreeNodes_ring hr 7 0 5 hf⟩

/-- Only iterator 1 is visited: iterator 2's sequence number is from before the last
write lock. -/
example : linkedBtreeNodes threeIters 0 7 0 5 3 3 0 = [1] := by decide

theorem bchBtreeIterCondResched_ring_threeIters :
    (Ring threeIters 0 [1, 2] ∧ [1, 2].length < 3) ∧
      (bchBtreeIterCondResched threeIters 0 false true 3).1 =
          (if (false || true) then [1, 2] ++ [0] else []) ∧
        (bchBtreeIterCondResched threeIters 0 false true 3).1.Nodup :=
  have hr : Ring threeIters 0 [1, 2] := by decide
  have hf : [1, 2].length < 3 := by decide
  ⟨⟨hr, hf⟩, bchBtreeIterCondResched_ring hr false true hf⟩

end BtreeIter

end Libbcache
