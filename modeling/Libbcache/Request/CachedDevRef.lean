import Libbcache.Request.MakeRequest
import Mathlib.Algebra.Order.BigOperators.Group.List

/-!
# The cached device's reference count

`cached_dev_get` (`atomic_inc_not_zero` on `dc->count`) and `cached_dev_put`
(`atomic_dec_and_test`, scheduling `dc->detach` when the count reaches zero), from
`blockdev.h`. The count starts at one: the reference of the attachment, which the detach
path drops (`bch_cached_dev_detach`, declared in `blockdev.h` and not among these sources).
A request that goes through the cache takes a reference in
`__cached_dev_make_request` and drops it in `cached_dev_bio_complete`, right after each
`search_free`; `cached_dev_congested` takes one around its walk of the cache devices.

The users run concurrently, and a schedule says who takes the next step. If every user
puts exactly once what it got, then under every schedule the detach work is scheduled at
most once, only when neither the attachment nor any user holds a reference, and from then
on every `cached_dev_get` fails (`cachedDev_detach_once`). Requests that went down the
balanced paths of `__cached_dev_make_request` and have finished are such users
(`cachedDevMakeRequest_detach_once`).
-/

namespace Libbcache

/-- `dc->count`, and the number of times `schedule_work(&dc->detach)` has run. -/
structure CachedDevRef where
  count : Int
  detachScheduled : Nat
  deriving DecidableEq, Repr

/-- `cached_dev_put`. -/
def cachedDevPut (d : CachedDevRef) : CachedDevRef :=
  if d.count - 1 = 0 then ⟨d.count - 1, d.detachScheduled + 1⟩
  else { d with count := d.count - 1 }

/-- `cached_dev_get`; `false` when the count is already zero. -/
def cachedDevGet (d : CachedDevRef) : CachedDevRef × Bool :=
  if d.count = 0 then (d, false) else ({ d with count := d.count + 1 }, true)

/-- `blockdev_volume_congested`: `ret |= bdi_congested(..)` over the cache devices of the
set, `caches` saying whether each one's queue is congested. -/
def blockdevVolumeCongested (caches : List Bool) : Bool := caches.any id

/-- `cached_dev_congested`, with `backing` whether the backing device's queue is congested
and `caches` whether each cache device's is. Returns whether the device is congested, and
the count after. -/
def cachedDevCongested (backing : Bool) (caches : List Bool) (d : CachedDevRef) :
    Bool × CachedDevRef :=
  if backing then (true, d)
  else
    match cachedDevGet d with
    | (d, true) => (blockdevVolumeCongested caches, cachedDevPut d)
    | (d, false) => (false, d)

/-! ## Users running concurrently -/

/-- Where a user of the device is: about to call `cached_dev_get`, after which it will call
`cached_dev_put` `k` times; or holding what it got with `k` puts still to make
(`holding 0`: done, or its get failed). -/
inductive UserPc
  | start (k : Nat)
  | holding (k : Nat)
  deriving DecidableEq, Repr

/-- The references a user holds. -/
def UserPc.refs : UserPc → Nat
  | .holding (_ + 1) => 1
  | _ => 0

/-- Who takes the next step: the detach path, dropping the attachment's reference, or
user `i`. -/
inductive Actor
  | detach
  | user (i : Nat)
  deriving DecidableEq, Repr

/-- The count, whether the attachment still holds its reference, and the users. -/
structure RefState where
  dev : CachedDevRef
  attached : Bool
  users : List UserPc
  deriving DecidableEq, Repr

/-- One step of a user. -/
def userStep (d : CachedDevRef) : UserPc → CachedDevRef × UserPc
  | .start k =>
    match cachedDevGet d with
    | (d, true) => (d, .holding k)
    | (d, false) => (d, .holding 0)
  | .holding 0 => (d, .holding 0)
  | .holding (k + 1) => (cachedDevPut d, .holding k)

/-- One step of the system. -/
def RefState.step (s : RefState) : Actor → RefState
  | .detach => if s.attached then { s with dev := cachedDevPut s.dev, attached := false } else s
  | .user i =>
    match s.users[i]? with
    | none => s
    | some u =>
      let r := userStep s.dev u
      { s with dev := r.1, users := s.users.set i r.2 }

theorem RefState.step_detach (s : RefState) :
    s.step .detach = if s.attached then { s with dev := cachedDevPut s.dev, attached := false } else s :=
  rfl

theorem RefState.step_user_none {s : RefState} {i : Nat} (h : s.users[i]? = none) :
    s.step (.user i) = s := by
  simp [RefState.step, h]

theorem RefState.step_user_some {s : RefState} {i : Nat} {u : UserPc} (h : s.users[i]? = some u) :
    s.step (.user i) =
      { s with dev := (userStep s.dev u).1, users := s.users.set i (userStep s.dev u).2 } := by
  simp [RefState.step, h]

/-- The system after a schedule. -/
def RefState.run (s : RefState) (sched : List Actor) : RefState := sched.foldl RefState.step s

/-- Attached, with users that will put `ks` times what they get. -/
def RefState.init (ks : List Nat) : RefState := ⟨⟨1, 0⟩, true, ks.map .start⟩

/-! ## The invariant -/

theorem sum_map_set {α : Type} (f : α → Nat) :
    ∀ (l : List α) (i : Nat) (a b : α), l[i]? = some b →
      ((l.set i a).map f).sum + f b = (l.map f).sum + f a
  | [], _, _, _, h => by simp at h
  | x :: l, 0, a, b, h => by
    simp only [List.getElem?_cons_zero, Option.some.injEq] at h
    subst h; simp; omega
  | x :: l, i + 1, a, b, h => by
    have := sum_map_set f l i a b (by simpa using h)
    simp only [List.set_cons_succ, List.map_cons, List.sum_cons]
    omega

namespace RefState

/-- Every user puts once what it gets; the count is the attachment's reference plus one
per user holding; the detach work has been scheduled once exactly when the count is
zero. -/
structure Safe (s : RefState) : Prop where
  once : ∀ u ∈ s.users, u = .start 1 ∨ u = .holding 1 ∨ u = .holding 0
  count : s.dev.count = (if s.attached then 1 else 0) + (((s.users.map UserPc.refs).sum : Nat) : Int)
  sched : s.dev.detachScheduled = if s.dev.count = 0 then 1 else 0

/-- `cached_dev_put` on a count that the holder's reference keeps positive. -/
theorem cachedDevPut_safe {d : CachedDevRef} (hpos : 0 < d.count)
    (hs : d.detachScheduled = if d.count = 0 then 1 else 0) :
    (cachedDevPut d).count = d.count - 1 ∧
      (cachedDevPut d).detachScheduled = if d.count - 1 = 0 then 1 else 0 := by
  unfold cachedDevPut
  rw [if_neg (by omega)] at hs
  split_ifs with h <;> simp [hs, h]

theorem safe_init {ks : List Nat} (hk : ∀ k ∈ ks, k = 1) : (init ks).Safe where
  once u hu := by
    obtain ⟨k, hk', rfl⟩ := List.mem_map.mp hu
    exact .inl (by rw [hk k hk'])
  count := by simp [init, Function.comp_def, UserPc.refs]
  sched := rfl

/-- One step of a user that puts once what it gets, with `base` the references everyone
else holds. -/
theorem userStep_safe {d : CachedDevRef} {u : UserPc} (base : Int) (hbase : 0 ≤ base)
    (hu : u = .start 1 ∨ u = .holding 1 ∨ u = .holding 0) (hc : d.count = base + u.refs)
    (hs : d.detachScheduled = if d.count = 0 then 1 else 0) :
    ((userStep d u).2 = .start 1 ∨ (userStep d u).2 = .holding 1 ∨ (userStep d u).2 = .holding 0) ∧
      (userStep d u).1.count = base + (userStep d u).2.refs ∧
      (userStep d u).1.detachScheduled = if (userStep d u).1.count = 0 then 1 else 0 := by
  rcases hu with rfl | rfl | rfl
  · simp only [UserPc.refs, Nat.cast_zero, add_zero] at hc
    by_cases h0 : d.count = 0
    · have hst : userStep d (.start 1) = (d, .holding 0) := by simp [userStep, cachedDevGet, h0]
      rw [hst]
      exact ⟨by simp, by simp [UserPc.refs]; omega, hs⟩
    · have hst : userStep d (.start 1) = ({ d with count := d.count + 1 }, .holding 1) := by
        simp [userStep, cachedDevGet, h0]
      rw [if_neg h0] at hs
      rw [hst]
      exact ⟨by simp, by simp [UserPc.refs, hc], by simp only; rw [if_neg (by omega), hs]⟩
  · simp only [UserPc.refs, Nat.cast_one] at hc
    obtain ⟨hc', hs'⟩ := cachedDevPut_safe (d := d) (by omega) hs
    refine ⟨by simp [userStep], ?_, ?_⟩ <;> simp [userStep, UserPc.refs, hc', hs', hc]
  · exact ⟨by simp [userStep], by simpa [userStep] using hc, hs⟩

/-- Every step keeps the invariant. -/
theorem Safe.step {s : RefState} (h : s.Safe) (a : Actor) : (s.step a).Safe := by
  obtain ⟨hon, hc, hsch⟩ := h
  cases a with
  | detach =>
    rw [step_detach]
    cases ha : s.attached
    · exact ⟨hon, by simpa [ha] using hc, hsch⟩
    · simp only [ha, if_true] at hc ⊢
      obtain ⟨hc', hs'⟩ := cachedDevPut_safe (d := s.dev) (by omega) hsch
      exact ⟨hon, by simp [hc', hc], by rw [hs', hc']⟩
  | user i =>
    cases hu : s.users[i]? with
    | none => rw [step_user_none hu]; exact ⟨hon, hc, hsch⟩
    | some u =>
      rw [step_user_some hu]
      have hmem := List.getElem?_mem hu
      have hle : u.refs ≤ (s.users.map UserPc.refs).sum :=
        List.le_sum_of_mem (List.mem_map_of_mem _ hmem)
      have hsum := sum_map_set UserPc.refs s.users i (userStep s.dev u).2 u hu
      obtain ⟨hon', hc', hs'⟩ := userStep_safe
        ((if s.attached then 1 else 0) + (((s.users.map UserPc.refs).sum : Nat) : Int) - u.refs)
        (by split_ifs <;> omega) (hon u hmem) (by omega) hsch
      refine ⟨fun v hv => ?_, ?_, hs'⟩
      · rcases List.mem_or_eq_of_mem_set hv with hv | rfl
        · exact hon v hv
        · exact hon'
      · dsimp only
        rw [hc']
        omega

theorem Safe.run {s : RefState} (h : s.Safe) : ∀ sched, (s.run sched).Safe
  | [] => h
  | a :: sched => (h.step a).run sched

/-- What the invariant gives: the detach work is scheduled at most once; once it has
been, nobody holds a reference and every `cached_dev_get` fails; and the count is never
negative. -/
theorem Safe.detach_once {s : RefState} (h : s.Safe) :
    s.dev.detachScheduled ≤ 1 ∧ 0 ≤ s.dev.count ∧
      (s.dev.detachScheduled = 1 → s.attached = false ∧ UserPc.holding 1 ∉ s.users ∧
        (cachedDevGet s.dev).2 = false) := by
  obtain ⟨hon, hc, hsch⟩ := h
  refine ⟨by split_ifs at hsch <;> omega, by split_ifs at hc <;> omega, fun h1 => ?_⟩
  have h0 : s.dev.count = 0 := by by_contra hne; rw [if_neg hne] at hsch; omega
  have hatt : s.attached = false := by
    cases ha : s.attached
    · rfl
    · rw [ha, if_pos rfl] at hc; omega
  refine ⟨hatt, fun hm => ?_, by simp [cachedDevGet, h0]⟩
  have : 1 ≤ (s.users.map UserPc.refs).sum := List.le_sum_of_mem (List.mem_map_of_mem UserPc.refs hm)
  rw [hatt, if_neg Bool.false_ne_true] at hc; omega

end RefState

open RefState in
/-- When every user of a cached device puts exactly once what it gets, then under every
schedule of the users and the detach path: `dc->detach` is scheduled at most once; when it
has been, neither the attachment nor any user holds a reference and `cached_dev_get`
fails; and `dc->count` never goes below zero. -/
theorem cachedDev_detach_once {ks : List Nat} (hk : ∀ k ∈ ks, k = 1) (sched : List Actor) :
    ((init ks).run sched).dev.detachScheduled ≤ 1 ∧ 0 ≤ ((init ks).run sched).dev.count ∧
      (((init ks).run sched).dev.detachScheduled = 1 → ((init ks).run sched).attached = false ∧
        UserPc.holding 1 ∉ ((init ks).run sched).users ∧
        (cachedDevGet ((init ks).run sched).dev).2 = false) :=
  ((safe_init hk).run sched).detach_once

theorem cachedDev_detach_once_two_users :
    (∀ k ∈ [1, 1], k = 1) ∧
      ((RefState.init [1, 1]).run [.user 0, .detach, .user 1, .user 0]).dev.detachScheduled ≤ 1 ∧
      0 ≤ ((RefState.init [1, 1]).run [.user 0, .detach, .user 1, .user 0]).dev.count ∧
      (((RefState.init [1, 1]).run [.user 0, .detach, .user 1, .user 0]).dev.detachScheduled = 1 →
        ((RefState.init [1, 1]).run [.user 0, .detach, .user 1, .user 0]).attached = false ∧
        UserPc.holding 1 ∉ ((RefState.init [1, 1]).run [.user 0, .detach, .user 1, .user 0]).users ∧
        (cachedDevGet ((RefState.init [1, 1]).run
          [.user 0, .detach, .user 1, .user 0]).dev).2 = false) :=
  have hk : ∀ k ∈ [1, 1], k = 1 := by decide
  ⟨hk, cachedDev_detach_once hk [.user 0, .detach, .user 1, .user 0]⟩

/-- Once the detach work runs, a user that puts twice, as a request whose search is freed
twice would, can leave another user holding a reference: the first user gets, the second
gets, the attachment is dropped, and the first user's two puts schedule the detach. -/
example :
    let s := (RefState.init [2, 1]).run [.user 0, .user 1, .detach, .user 0, .user 0]
    s.dev.detachScheduled = 1 ∧ UserPc.holding 1 ∈ s.users := by decide

/-! ## Requests as users -/

open RefState Search in
/-- Requests of a cached device that went down the balanced paths of
`__cached_dev_make_request` and have finished, in any completion order and with any
errors, each ran `cached_dev_bio_complete` once, and so put their reference once. With
them as the users, under every schedule `dc->detach` is scheduled at most once, and only
when no one holds a reference. -/
theorem cachedDevMakeRequest_detach_once (dc : CachedDevConf) {finals : List Search}
    (hf : ∀ s ∈ finals, ∃ bypass w keys bio sched, BalancedPath bypass w bio ∧
      (cachedDevMakeRequest dc bypass w keys bio).completeAll dc sched = some s ∧ s.inflight = [])
    (sched : List Actor) :
    ((init (finals.map Search.freed)).run sched).dev.detachScheduled ≤ 1 ∧
      (((init (finals.map Search.freed)).run sched).dev.detachScheduled = 1 →
        ((init (finals.map Search.freed)).run sched).attached = false ∧
        UserPc.holding 1 ∉ ((init (finals.map Search.freed)).run sched).users) := by
  have hk : ∀ k ∈ finals.map Search.freed, k = 1 := by
    intro k hk
    obtain ⟨s, hs, rfl⟩ := List.mem_map.mp hk
    obtain ⟨bypass, w, keys, bio, sched, hb, hc, hnil⟩ := hf s hs
    exact (completeAll_finished (cachedDevMakeRequest_settled dc hb) hc hnil).1
  obtain ⟨h1, -, h2⟩ := ((safe_init hk).run sched).detach_once
  exact ⟨h1, fun h => ⟨(h2 h).1, (h2 h).2.1⟩⟩

/-- The finished empty flush as the only user, with a detach between two of its steps. -/
theorem cachedDevMakeRequest_detach_once_flush :
    (∀ s ∈ [((cachedDevMakeRequest ⟨false⟩ false plainWrite [] emptyWrite).completeAll ⟨false⟩
        [(0, 0)]).getD (Search.alloc emptyWrite)], ∃ bypass w keys bio sched,
      BalancedPath bypass w bio ∧
      (cachedDevMakeRequest ⟨false⟩ bypass w keys bio).completeAll ⟨false⟩ sched = some s ∧
      s.inflight = []) ∧
    ((RefState.init ([((cachedDevMakeRequest ⟨false⟩ false plainWrite [] emptyWrite).completeAll
        ⟨false⟩ [(0, 0)]).getD (Search.alloc emptyWrite)].map Search.freed)).run
        [.user 0, .detach, .user 0]).dev.detachScheduled ≤ 1 ∧
      (((RefState.init ([((cachedDevMakeRequest ⟨false⟩ false plainWrite [] emptyWrite).completeAll
        ⟨false⟩ [(0, 0)]).getD (Search.alloc emptyWrite)].map Search.freed)).run
        [.user 0, .detach, .user 0]).dev.detachScheduled = 1 →
      ((RefState.init ([((cachedDevMakeRequest ⟨false⟩ false plainWrite [] emptyWrite).completeAll
        ⟨false⟩ [(0, 0)]).getD (Search.alloc emptyWrite)].map Search.freed)).run
        [.user 0, .detach, .user 0]).attached = false ∧
      UserPc.holding 1 ∉ ((RefState.init ([((cachedDevMakeRequest ⟨false⟩ false plainWrite []
        emptyWrite).completeAll ⟨false⟩ [(0, 0)]).getD (Search.alloc emptyWrite)].map
        Search.freed)).run [.user 0, .detach, .user 0]).users) :=
  have hf : ∀ s ∈ [((cachedDevMakeRequest ⟨false⟩ false plainWrite [] emptyWrite).completeAll ⟨false⟩
      [(0, 0)]).getD (Search.alloc emptyWrite)], ∃ bypass w keys bio sched,
      BalancedPath bypass w bio ∧
      (cachedDevMakeRequest ⟨false⟩ bypass w keys bio).completeAll ⟨false⟩ sched = some s ∧
      s.inflight = [] := by
    intro s hs
    rw [List.mem_singleton] at hs
    subst hs
    exact ⟨false, plainWrite, [], emptyWrite, [(0, 0)], .inl rfl, rfl, rfl⟩
  ⟨hf, cachedDevMakeRequest_detach_once ⟨false⟩ hf [.user 0, .detach, .user 0]⟩

end Libbcache
