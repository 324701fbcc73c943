import Mathlib.Logic.Function.Basic
import Mathlib.Data.List.Basic

/-!
# `btree_cache_alloc_lock`, the cannibalize lock

Only one task at a time may cannibalize cached nodes. `mca_cannibalize_lock` takes
`btree_cache_alloc_lock` with a `cmpxchg`; when it is taken by another task and the
caller passed a closure, it puts the closure on `mca_wait`, tries once more and, if that
fails too, returns `-EAGAIN`, its caller then sleeping in `closure_sync` until the
closure is woken. `mca_cannibalize_unlock` stores `NULL` if the caller owns the lock and
then wakes `mca_wait`. `mca_alloc` runs `mca_cannibalize` only if its task owns the lock.

We model any number of tasks, each `cmpxchg`, `closure_wait` and `closure_wake_up` an
atomic step (`Pc`, `next`). In every reachable state (`Holds`): a task that believes it
owns the lock does, only the owner cannibalizes, a task waiting on `mca_wait` is in the
middle of taking the lock or blocked after `-EAGAIN`, and no task is left on `mca_wait`
with nobody to wake it: the lock is owned, or a wake-up is about to run, or the waiter
is about to try again.
-/

namespace Libbcache

namespace CannibalizeLock

/-- Where a task is in the code around `btree_cache_alloc_lock`. -/
inductive Pc
  /-- In none of these calls, not owning the lock. -/
  | idle
  /-- `mca_cannibalize_lock` with (`cl`) or without a closure, before the first `cmpxchg`. -/
  | lockFirst (cl : Bool)
  /-- Before `closure_wait(&c->mca_wait, cl)`. -/
  | lockWait
  /-- Before the second `cmpxchg`. -/
  | lockRetry
  /-- Won the second `cmpxchg`; `closure_wake_up(&c->mca_wait)` is next. -/
  | lockWake
  /-- Returned `-EAGAIN`; asleep in `closure_sync` until its closure is woken. -/
  | eagain
  /-- Returned `0`: owns the lock. -/
  | holding
  /-- `mca_cannibalize_unlock` stored `NULL`; `closure_wake_up(&c->mca_wait)` is next. -/
  | unlockWake
  /-- In `mca_alloc`'s `err:` path, running `mca_cannibalize`. -/
  | cannibalize
  deriving DecidableEq, Repr

/-- `btree_cache_alloc_lock` (the owning task), `mca_wait` (the tasks whose closures wait on
it) and where each task is. -/
structure State where
  allocLock : Option Nat
  mcaWait : List Nat
  pc : Nat → Pc

/-- Before any task has called into this code. -/
def initial : State := ⟨none, [], fun _ => .idle⟩

/-- What a task does next: call one of the three functions, or take the next atomic step
of the call it is in. -/
inductive Act
  | lock (cl : Bool)
  | unlock
  | alloc
  | step
  deriving DecidableEq, Repr

/-- Set task `t`'s place. -/
def State.setPc (s : State) (t : Nat) (p : Pc) : State := { s with pc := Function.update s.pc t p }

@[simp] theorem setPc_pc_self (s : State) (t : Nat) (p : Pc) : (s.setPc t p).pc t = p := by
  simp [State.setPc]

@[simp] theorem setPc_pc_ne (s : State) {t u : Nat} (p : Pc) (h : u ≠ t) :
    (s.setPc t p).pc u = s.pc u := by
  simp [State.setPc, h]

@[simp] theorem setPc_allocLock (s : State) (t : Nat) (p : Pc) :
    (s.setPc t p).allocLock = s.allocLock := rfl

@[simp] theorem setPc_mcaWait (s : State) (t : Nat) (p : Pc) : (s.setPc t p).mcaWait = s.mcaWait :=
  rfl

/-- `cmpxchg(&c->btree_cache_alloc_lock, NULL, current)` by task `t`: `true` if the lock
was free or already `t`'s. -/
def cmpxchg (s : State) (t : Nat) : Bool × State :=
  match s.allocLock with
  | none => (true, { s with allocLock := some t })
  | some o => (o == t, s)

/-- `closure_wait(&c->mca_wait, cl)`: a closure already waiting is not added again. -/
def closureWait (s : State) (t : Nat) : State :=
  if t ∈ s.mcaWait then s else { s with mcaWait := t :: s.mcaWait }

/-- `closure_wake_up(&c->mca_wait)`: every waiting closure is woken and leaves the list. -/
def closureWakeUp (s : State) : State := { s with mcaWait := [] }

/-- Task `t` does `a`; `none` when it cannot (a call while inside another, a step with
nothing to do, or `closure_sync` still asleep). -/
def next (s : State) (t : Nat) : Act → Option State
  | .lock cl =>
    if s.pc t = .idle ∨ s.pc t = .holding then some (s.setPc t (.lockFirst cl)) else none
  | .unlock =>
    if s.pc t = .idle ∨ s.pc t = .holding then
      if s.allocLock = some t then some ({ s with allocLock := none }.setPc t .unlockWake)
      else some s
    else none
  | .alloc =>
    if s.pc t = .idle ∨ s.pc t = .holding then
      if s.allocLock = some t then some (s.setPc t .cannibalize) else some s
    else none
  | .step =>
    match s.pc t with
    | .lockFirst cl =>
      let (won, s) := cmpxchg s t
      if won then some (s.setPc t .holding)
      else if cl then some (s.setPc t .lockWait)
      else some (s.setPc t .idle)
    | .lockWait => some ((closureWait s t).setPc t .lockRetry)
    | .lockRetry =>
      let (won, s) := cmpxchg s t
      some (s.setPc t (if won then .lockWake else .eagain))
    | .lockWake => some ((closureWakeUp s).setPc t .holding)
    | .eagain => if t ∈ s.mcaWait then none else some (s.setPc t .idle)
    | .unlockWake => some ((closureWakeUp s).setPc t .idle)
    | .cannibalize => some (s.setPc t .holding)
    | .idle => none
    | .holding => none

/-- The three outcomes of `cmpxchg`: the lock was free and is now `t`'s, it was already
`t`'s, or another task holds it. -/
theorem cmpxchg_cases (s : State) (t : Nat) :
    (s.allocLock = none ∧ cmpxchg s t = (true, { s with allocLock := some t })) ∨
    (s.allocLock = some t ∧ cmpxchg s t = (true, s)) ∨
    (s.allocLock.isSome ∧ s.allocLock ≠ some t ∧ cmpxchg s t = (false, s)) := by
  unfold cmpxchg
  rcases hl : s.allocLock with _ | o
  · exact .inl ⟨rfl, rfl⟩
  · by_cases hot : o = t
    · subst hot; exact .inr (.inl ⟨rfl, by simp⟩)
    · exact .inr (.inr ⟨rfl, by simpa using hot, by simpa using hot⟩)

/-- The states some interleaving of the tasks reaches. -/
inductive Reachable : State → Prop
  | initial : Reachable initial
  | next {s s' : State} {t : Nat} {a : Act} : Reachable s → next s t a = some s' → Reachable s'

/-! ## The invariant -/

/-- Task `t` believes it owns the lock. -/
def Owns (s : State) (t : Nat) : Prop :=
  s.pc t = .holding ∨ s.pc t = .lockWake ∨ s.pc t = .cannibalize

/-- What holds in every reachable state. -/
structure Holds (s : State) : Prop where
  /-- A task that believes it owns the lock does. -/
  owner : ∀ t, Owns s t → s.allocLock = some t
  /-- A waiting closure belongs to a task taking the lock or asleep after `-EAGAIN`. -/
  waiter : ∀ t ∈ s.mcaWait, s.pc t = .lockRetry ∨ s.pc t = .lockWake ∨ s.pc t = .eagain
  /-- Nobody waits with nobody to wake it. -/
  woken : ∀ t ∈ s.mcaWait, s.allocLock.isSome ∨ (∃ u, s.pc u = .unlockWake ∨ s.pc u = .lockWake) ∨
    s.pc t = .lockRetry

theorem holds_initial : Holds initial where
  owner t h := by simp [Owns, initial] at h
  waiter t h := by simp [initial] at h
  woken t h := by simp [initial] at h

section Step

variable {s : State} {t : Nat}

/-- A task moves without touching the lock or `mca_wait`. -/
theorem Holds.setPc (hs : Holds s) {p : Pc}
    (hleave : s.pc t = .unlockWake ∨ s.pc t = .lockWake ∨ s.pc t = .lockRetry → s.allocLock.isSome)
    (ho : p = .holding ∨ p = .lockWake ∨ p = .cannibalize → s.allocLock = some t)
    (hw : t ∈ s.mcaWait → p = .lockRetry ∨ p = .lockWake ∨ p = .eagain) : Holds (s.setPc t p) where
  owner u hu := by
    by_cases e : u = t
    · subst e; exact ho (by simpa [Owns] using hu)
    · exact hs.owner u (by simpa [Owns, e] using hu)
  waiter x hx := by
    by_cases e : x = t
    · subst e; simpa using hw hx
    · simpa [e] using hs.waiter x hx
  woken x hx := by
    rcases hs.woken x hx with h | ⟨u, hu⟩ | h
    · exact .inl h
    · by_cases e : u = t
      · subst e; exact .inl (hleave (hu.imp_right .inl))
      · exact .inr (.inl ⟨u, by simpa [e] using hu⟩)
    · by_cases e : x = t
      · subst e; exact .inl (hleave (.inr (.inr h)))
      · exact .inr (.inr (by simpa [e] using h))

/-- A task takes the free lock. -/
theorem Holds.acquire (hs : Holds s) (hfree : s.allocLock = none) {p : Pc}
    (hw : t ∈ s.mcaWait → p = .lockRetry ∨ p = .lockWake ∨ p = .eagain) :
    Holds ({ s with allocLock := some t }.setPc t p) where
  owner u hu := by
    by_cases e : u = t
    · subst e; rfl
    · have := hs.owner u (by simpa [Owns, e] using hu)
      rw [hfree] at this; cases this
  waiter x hx := by
    by_cases e : x = t
    · subst e; simpa using hw hx
    · simpa [e] using hs.waiter x hx
  woken _ _ := .inl rfl

/-- The owner stores `NULL`: its wake-up is now pending. -/
theorem Holds.release (hs : Holds s) (hown : s.allocLock = some t)
    (hpc : s.pc t = .idle ∨ s.pc t = .holding) :
    Holds ({ s with allocLock := none }.setPc t .unlockWake) where
  owner u hu := by
    by_cases e : u = t
    · subst e; simp [Owns] at hu
    · have := hs.owner u (by simpa [Owns, e] using hu)
      rw [hown] at this; exact absurd (Option.some.inj this) (Ne.symm e)
  waiter x hx := by
    by_cases e : x = t
    · subst e; rcases hs.waiter x hx with h | h | h <;> rcases hpc with h' | h' <;> simp_all
    · simpa [e] using hs.waiter x hx
  woken _ _ := .inr (.inl ⟨t, by simp⟩)

/-- `closure_wake_up(&c->mca_wait)`, then the task moves on. -/
theorem Holds.wakeUp (hs : Holds s) {p : Pc}
    (ho : p = .holding ∨ p = .lockWake ∨ p = .cannibalize → s.allocLock = some t) :
    Holds ((closureWakeUp s).setPc t p) where
  owner u hu := by
    by_cases e : u = t
    · subst e; exact ho (by simpa [Owns] using hu)
    · exact hs.owner u (by simpa [Owns, e, closureWakeUp] using hu)
  waiter x hx := by simp [closureWakeUp] at hx
  woken x hx := by simp [closureWakeUp] at hx

/-- `closure_wait(&c->mca_wait, cl)` before the second `cmpxchg`. -/
theorem Holds.closureWait (hs : Holds s) (hpc : s.pc t = .lockWait) :
    Holds ((closureWait s t).setPc t .lockRetry) := by
  unfold CannibalizeLock.closureWait
  split_ifs with hin
  · exact hs.setPc (by simp [hpc]) (by simp) fun _ => .inl rfl
  constructor
  · intro u hu
    by_cases e : u = t
    · subst e; simp [Owns] at hu
    · exact hs.owner u (by simpa [Owns, e] using hu)
  · intro x hx
    by_cases e : x = t
    · subst e; simp
    · simpa [e] using hs.waiter x (by simpa [e] using hx)
  · intro x hx
    by_cases e : x = t
    · subst e; simp
    · rcases hs.woken x (by simpa [e] using hx) with h | ⟨u, hu⟩ | h
      · exact .inl h
      · refine .inr (.inl ⟨u, ?_⟩)
        by_cases e' : u = t
        · subst e'; rw [hpc] at hu; simp at hu
        · simpa [e'] using hu
      · exact .inr (.inr (by simpa [e] using h))

/-- Every step keeps the invariant. -/
theorem Holds.next (hs : Holds s) {s' : State} {a : Act} (h : next s t a = some s') : Holds s' := by
  have hnw : s.pc t = .idle ∨ s.pc t = .holding → t ∉ s.mcaWait := fun hp hin => by
    rcases hs.waiter t hin with h | h | h <;> rcases hp with h' | h' <;> simp_all
  cases a with
  | lock cl =>
    simp only [CannibalizeLock.next] at h
    split_ifs at h with hp; cases h
    exact hs.setPc (by rcases hp with h | h <;> simp [h]) (by simp) fun hin => absurd hin (hnw hp)
  | unlock =>
    simp only [CannibalizeLock.next] at h
    split_ifs at h with hp ho <;> cases h
    · exact hs.release ho hp
    · exact hs
  | alloc =>
    simp only [CannibalizeLock.next] at h
    split_ifs at h with hp ho <;> cases h
    · exact hs.setPc (by rcases hp with h | h <;> simp [h]) (fun _ => ho)
        fun hin => absurd hin (hnw hp)
    · exact hs
  | step =>
    have hleave : ∀ cl, s.pc t = .lockFirst cl → (s.pc t = .unlockWake ∨ s.pc t = .lockWake ∨
        s.pc t = .lockRetry → s.allocLock.isSome) := by
      intro cl hp h; rw [hp] at h; simp at h
    have hnw' : ∀ cl, s.pc t = .lockFirst cl → t ∉ s.mcaWait := fun cl hp hin => by
      rcases hs.waiter t hin with h | h | h <;> rw [hp] at h <;> cases h
    simp only [CannibalizeLock.next] at h
    split at h
    · rename_i cl hp
      rcases cmpxchg_cases s t with ⟨hl, he⟩ | ⟨hl, he⟩ | ⟨hl, -, he⟩ <;>
        simp only [he, if_true, Bool.false_eq_true, if_false] at h
      · cases h; exact hs.acquire hl fun hin => absurd hin (hnw' cl hp)
      · cases h; exact hs.setPc (hleave cl hp) (fun _ => hl) fun hin => absurd hin (hnw' cl hp)
      · split_ifs at h <;> cases h <;>
          exact hs.setPc (hleave cl hp) (by simp) fun hin => absurd hin (hnw' cl hp)
    · rename_i hp
      cases h; exact hs.closureWait hp
    · rename_i hp
      rcases cmpxchg_cases s t with ⟨hl, he⟩ | ⟨hl, he⟩ | ⟨hl, -, he⟩ <;> simp only [he] at h <;> cases h
      · exact hs.acquire hl fun _ => by simp
      · exact hs.setPc (fun _ => by simp [hl]) (fun _ => hl) fun _ => by simp
      · exact hs.setPc (fun _ => hl) (by simp) fun _ => by simp
    · rename_i hp
      cases h; exact hs.wakeUp fun _ => hs.owner t (by simp [Owns, hp])
    · rename_i hp
      split_ifs at h with hin; cases h
      exact hs.setPc (by simp [hp]) (by simp) fun h => absurd h hin
    · rename_i hp
      cases h; exact hs.wakeUp (by simp)
    · rename_i hp
      cases h
      exact hs.setPc (by simp [hp]) (fun _ => hs.owner t (by simp [Owns, hp]))
        fun hin => by rcases hs.waiter t hin with h | h | h <;> rw [hp] at h <;> cases h
    · cases h
    · cases h

theorem Reachable.holds {s : State} (h : Reachable s) : Holds s := by
  induction h with
  | initial => exact holds_initial
  | next _ hn ih => exact ih.next hn

end Step

/-! ## The lock's guarantees -/

/-- In every reachable state: a task that believes it owns `btree_cache_alloc_lock` owns
it, so at most one does; only the owner runs `mca_cannibalize`; an unlock by a task that
does not own the lock changes nothing; a task that got the lock is not on `mca_wait`; and
a task asleep after `-EAGAIN` whose closure has not been woken yet waits while the lock is
owned or while a wake-up of `mca_wait` is about to run, so it is not left asleep (no lost
wakeup). -/
theorem cannibalize_lock_exclusive {s : State} (h : Reachable s) :
    (∀ t, Owns s t → s.allocLock = some t) ∧ (∀ t u, Owns s t → Owns s u → t = u) ∧
    (∀ t, s.pc t = .cannibalize → s.allocLock = some t) ∧
    (∀ t, (s.pc t = .idle ∨ s.pc t = .holding) → s.allocLock ≠ some t → next s t .unlock = some s) ∧
    (∀ t, s.pc t = .holding → t ∉ s.mcaWait) ∧
    (∀ t, s.pc t = .eagain → t ∈ s.mcaWait →
      s.allocLock.isSome ∨ ∃ u, s.pc u = .unlockWake ∨ s.pc u = .lockWake) := by
  have hs := h.holds
  refine ⟨hs.owner, fun t u ht hu => ?_, fun t ht => hs.owner t (.inr (.inr ht)),
    fun t hp ho => by simp [CannibalizeLock.next, hp, ho], fun t hp hin => ?_, fun t hp hin => ?_⟩
  · exact Option.some.inj ((hs.owner t ht).symm.trans (hs.owner u hu))
  · rcases hs.waiter t hin with h | h | h <;> rw [hp] at h <;> cases h
  · rcases hs.woken t hin with h | h | h
    · exact .inl h
    · exact .inr h
    · rw [hp] at h; cases h

/-- Task 1 after its `mca_cannibalize_lock` took the free lock. -/
def afterLock : State := { initial.setPc 1 (.lockFirst true) with allocLock := some 1 }.setPc 1 .holding

theorem reachable_afterLock : Reachable afterLock :=
  .next (t := 1) (a := .step) (.next (t := 1) (a := .lock true) .initial rfl) rfl

theorem cannibalize_lock_exclusive_afterLock : afterLock.pc 1 = .holding ∧ 1 ∉ afterLock.mcaWait :=
  ⟨rfl, (cannibalize_lock_exclusive reachable_afterLock).2.2.2.2.1 1 rfl⟩

/-- Run a schedule of task actions, collecting every state on the way; `none` if some
action cannot be taken. -/
def runAll : State → List (Nat × Act) → Option (List State)
  | s, [] => some [s]
  | s, (t, a) :: sched =>
    match next s t a with
    | some s' => (runAll s' sched).map (s :: ·)
    | none => none

/-- Task 1 owns the lock; task 2's first `cmpxchg` fails; task 1 stores `NULL`; task 2
puts its closure on `mca_wait`; task 1's wake-up takes it off again; task 3 takes the
lock; task 2's second `cmpxchg` fails. -/
def eagainSchedule : List (Nat × Act) :=
  [(1, .lock true), (1, .step), (2, .lock true), (2, .step), (1, .unlock), (2, .step), (1, .step),
    (3, .lock false), (3, .step), (2, .step)]

/-- Task 2 returns `-EAGAIN`, yet in no state of the run is its closure on `mca_wait`
while another task owns the lock: it was put there while the lock was free and woken by
the previous owner's unlock before task 3 took the lock. -/
theorem eagain_never_queued_behind_owner :
    ∃ l, runAll initial eagainSchedule = some l ∧ (l.getLast?.map fun s => s.pc 2) = some .eagain ∧
      ∀ s ∈ l, ¬ (2 ∈ s.mcaWait ∧ s.allocLock ≠ none ∧ s.allocLock ≠ some 2) :=
  ⟨_, rfl, by decide, by decide⟩

end CannibalizeLock

end Libbcache
