import Libbcache.Request.Sequential

/-!
# The search object and its closure

Every request that goes through the cache set gets a `struct search` (`search_alloc`),
whose closure `s->cl` counts the references held on it: the running code holds one from
`closure_init`, and each bio sent with `closure_bio_submit`, each child started by
`closure_call` and each journal flush `bch_journal_flush_async` waits on holds one more.
`continue_at(cl, fn, wq)` records `fn` and drops the running reference; when the count
reaches zero `fn` runs, holding the running reference again. The last function,
`search_free` (through `cached_dev_bio_complete` on a cached device), completes the
original bio (`bio_complete`) and frees the search.

We model the search with the closure's count and function, what is in flight, how many
times the original bio was completed (`ended`) and the search freed (`freed`), and the
bios sent down (`issued`). `continue_at` with a `NULL`
workqueue runs the function at once, so the model runs it in place; the functions
of a cached device are defined before the ones that continue to them, so none is
recursive. What runs outside this repository (the block layer, `bch_write`, the journal)
is a completion of an item in flight, in any order and with any error (`complete`).
-/

namespace Libbcache

/-- A function of the request code that a closure runs when its count reaches zero. -/
inductive Cont
  | searchFree
  | cachedDevBioComplete
  | cachedDevReadError
  | cachedDevReadDone
  | cachedDevReadDoneBh
  | cachedDevWriteComplete
  deriving DecidableEq, Repr

/-- Where a bio is sent. -/
inductive Device
  | backing
  | cache (ca : Nat)
  deriving DecidableEq, Repr

/-- A bio sent down: its device and the sectors it covers. -/
structure DevIo where
  dev : Device
  sector : Nat
  sectors : Nat
  write : Bool
  deriving DecidableEq, Repr

/-- What runs when an item in flight finishes. -/
inductive Completion
  /-- A bio with `bi_end_io = request_endio` and `bi_private = &s->cl`. -/
  | requestEndio
  /-- The original bio, sent down itself: the submitter's own `bi_end_io` runs. -/
  | origEndio
  /-- The write op that `closure_call` started (`bch_write`); it puts `s->cl` when done. -/
  | write
  /-- A journal flush that `bch_journal_flush_async` made `s->cl` wait on. -/
  | journalFlush
  /-- A bio with no `bi_end_io`, as `bio_clone_fast` leaves its clone: its completion runs
  nothing, so the reference it took on `s->cl` is never dropped. -/
  | noEndio
  deriving DecidableEq, Repr

/-- Whether the completion drops a reference on `s->cl`. -/
def Completion.putsCl : Completion → Bool
  | .origEndio | .noEndio => false
  | _ => true

/-- The fields of the original bio that the request code reads, after
`__cached_dev_make_request` has moved it by the backing device's `data_offset`. -/
structure OrigBio where
  sector : Nat
  size : Nat
  op : ReqOp
  preflush : Bool
  fua : Bool
  deriving DecidableEq, Repr

/-- A `struct search` and its closure. -/
structure Search where
  /-- `s->cl.remaining`. -/
  remaining : Nat
  /-- `s->cl.fn`. -/
  fn : Option Cont
  /-- The original bio. -/
  bio : OrigBio
  /-- `s->orig_bio != NULL`. -/
  origBio : Bool
  /-- `s->iop.error`. -/
  error : Int
  recoverable : Bool
  readDirtyData : Bool
  /-- `bcache_io_error` was raised on `s->rbio`. -/
  ioError : Bool
  /-- Calls of `bio_endio` on the original bio, by `bio_complete` or by the device. -/
  ended : Nat
  /-- Runs of `search_free`. -/
  freed : Nat
  /-- What is in flight. -/
  inflight : List Completion
  /-- Bios sent down, in order. -/
  issued : List DevIo
  /-- Times `s->rbio` itself was sent down by a bypassed read miss. The read loop moves the
  rbio on after sending it, so this is not the send of a fixed piece. -/
  rbioSent : Nat
  deriving DecidableEq, Repr

/-- The fields of `struct cached_dev` the completion path reads. -/
structure CachedDevConf where
  verify : Bool
  deriving DecidableEq, Repr

namespace Search

/-- `search_alloc`: `closure_init(&s->cl, NULL)` holds the running reference. -/
def alloc (bio : OrigBio) : Search :=
  ⟨1, none, bio, true, 0, true, false, false, 0, 0, [], [], 0⟩

/-- `bio_complete`. -/
def bioComplete (s : Search) : Search :=
  if s.origBio then { s with ended := s.ended + 1, origBio := false } else s

/-- `search_free`. -/
def searchFree (s : Search) : Search := { s.bioComplete with freed := s.freed + 1 }

/-- `closure_get(&s->cl)`. -/
def closureGet (s : Search) : Search := { s with remaining := s.remaining + 1 }

/-- `closure_bio_submit(bio, &s->cl)`: a reference for the bio, which is sent down. -/
def closureBioSubmit (io : DevIo) (c : Completion) (s : Search) : Search :=
  { s.closureGet with inflight := s.inflight ++ [c], issued := s.issued ++ [io] }

/-- `closure_call(&s->iop.cl, bch_write, NULL, &s->cl)`: the child holds a reference on
`s->cl` until the write is done. -/
def closureCall (s : Search) : Search := { s.closureGet with inflight := s.inflight ++ [.write] }

/-- `bch_journal_flush_async(&c->journal, &s->cl)`. -/
def journalFlushAsync (s : Search) : Search :=
  { s.closureGet with inflight := s.inflight ++ [.journalFlush] }

/-- `continue_at(&s->cl, g, NULL)`, with `run` what `g` does: record `g` and drop the
running reference; at zero, `g` runs at once holding it again. -/
def continueAt (g : Cont) (run : Search → Search) (s : Search) : Search :=
  if s.remaining ≤ 1 then run { s with fn := some g, remaining := 1 }
  else { s with fn := some g, remaining := s.remaining - 1 }

/-- `continue_at_nobarrier(&s->cl, g, wq)`: run `g` now, keeping the running reference. -/
def continueAtNobarrier (g : Cont) (run : Search → Search) (s : Search) : Search :=
  run { s with fn := some g }

/-! ## The functions a cached device's search continues to -/

/-- `cached_dev_bio_complete`; the `cached_dev_put` is on the device's count, not on
`s->cl`. -/
def cachedDevBioComplete (s : Search) : Search := s.searchFree

/-- `cached_dev_read_error`: a recoverable error reads the whole original bio again from
the backing device. -/
def cachedDevReadError (s : Search) : Search :=
  let s := if s.recoverable then
      { s with error := 0 }.closureBioSubmit ⟨.backing, s.bio.sector, s.bio.size / 2 ^ 9, false⟩
        .requestEndio
    else s
  s.continueAt .cachedDevBioComplete cachedDevBioComplete

/-- `cached_dev_read_done`; `bch_data_verify` only compares data. -/
def cachedDevReadDone (s : Search) : Search :=
  s.continueAtNobarrier .cachedDevBioComplete cachedDevBioComplete

/-- `cached_dev_read_done_bh`. -/
def cachedDevReadDoneBh (dc : CachedDevConf) (s : Search) : Search :=
  if s.error ≠ 0 then s.continueAtNobarrier .cachedDevReadError cachedDevReadError
  else if dc.verify then s.continueAtNobarrier .cachedDevReadDone cachedDevReadDone
  else s.continueAtNobarrier .cachedDevBioComplete cachedDevBioComplete

/-- `cached_dev_write_complete`; `up_read_non_owner` is on the writeback lock. -/
def cachedDevWriteComplete (s : Search) : Search := cachedDevBioComplete s

/-- What each function does. -/
def runCont (dc : CachedDevConf) : Cont → Search → Search
  | .searchFree => searchFree
  | .cachedDevBioComplete => cachedDevBioComplete
  | .cachedDevReadError => cachedDevReadError
  | .cachedDevReadDone => cachedDevReadDone
  | .cachedDevReadDoneBh => cachedDevReadDoneBh dc
  | .cachedDevWriteComplete => cachedDevWriteComplete

/-- `closure_put(&s->cl)`: at zero the recorded function runs. -/
def closurePut (dc : CachedDevConf) (s : Search) : Search :=
  if s.remaining ≤ 1 then
    match s.fn with
    | some g => runCont dc g { s with remaining := 1 }
    | none => { s with remaining := 0 }
  else { s with remaining := s.remaining - 1 }

/-- `request_endio`: an error is recorded and makes the read unrecoverable. -/
def requestEndio (dc : CachedDevConf) (err : Int) (s : Search) : Search :=
  closurePut dc (if err ≠ 0 then { s with error := err, recoverable := false } else s)

/-- Item `i` in flight finishes with error `err` (`0` for none); `none` if there is no
such item. -/
def complete (dc : CachedDevConf) (i : Nat) (err : Int) (s : Search) : Option Search :=
  match s.inflight.get? i with
  | none => none
  | some c =>
    let s := { s with inflight := s.inflight.eraseIdx i }
    some <| match c with
      | .requestEndio => requestEndio dc err s
      | .origEndio => { s with ended := s.ended + 1 }
      | .write => closurePut dc (if err ≠ 0 then { s with error := err } else s)
      | .journalFlush => closurePut dc s
      | .noEndio => s

/-- Items in flight finish in the given order, each with its error. -/
def completeAll (dc : CachedDevConf) : List (Nat × Int) → Search → Option Search
  | [], s => some s
  | (i, err) :: rest, s => (s.complete dc i err).bind (completeAll dc rest)

/-! ## Frame lemmas -/

@[simp] theorem closureGet_issued (s : Search) : s.closureGet.issued = s.issued := rfl
@[simp] theorem closureGet_inflight (s : Search) : s.closureGet.inflight = s.inflight := rfl
@[simp] theorem closureGet_remaining (s : Search) : s.closureGet.remaining = s.remaining + 1 := rfl
@[simp] theorem closureGet_freed (s : Search) : s.closureGet.freed = s.freed := rfl
@[simp] theorem closureGet_ended (s : Search) : s.closureGet.ended = s.ended := rfl

@[simp] theorem closureBioSubmit_issued (io : DevIo) (c : Completion) (s : Search) :
    (s.closureBioSubmit io c).issued = s.issued ++ [io] := rfl

@[simp] theorem closureBioSubmit_remaining (io : DevIo) (c : Completion) (s : Search) :
    (s.closureBioSubmit io c).remaining = s.remaining + 1 := rfl

@[simp] theorem closureBioSubmit_inflight (io : DevIo) (c : Completion) (s : Search) :
    (s.closureBioSubmit io c).inflight = s.inflight ++ [c] := rfl

/-! ## Balanced searches

A search is balanced while the code waits on it: a function is recorded, every item in
flight holds one reference on `s->cl` and no other reference is held, and every item in
flight drops its reference when it finishes (none is the original bio itself or a bio
without `bi_end_io`). Finishing an item keeps it balanced or runs the recorded
function, and every function of the request code either frees the search, completing the
original bio, or sends one more bio and waits again. So whatever order the items finish
in and whatever errors they report, once nothing is in flight the search has been freed
exactly once and the original bio completed exactly once (`completeAll_finished`). -/

/-- Waiting, with the references on `s->cl` held exactly by the items in flight. -/
def Waiting (s : Search) : Prop :=
  s.fn.isSome ∧ s.remaining = s.inflight.length ∧ 0 < s.remaining ∧
    (∀ c ∈ s.inflight, c.putsCl = true) ∧ s.freed = 0 ∧ s.ended = 0 ∧ s.origBio = true

/-- Freed once, the original bio completed once, nothing in flight. -/
def Finished (s : Search) : Prop := s.freed = 1 ∧ s.ended = 1 ∧ s.inflight = []

/-- What the request functions may leave: waiting balanced, or finished. -/
def Settled (s : Search) : Prop := s.Waiting ∨ s.Finished

/-- Running, with every reference but the running one held by an item in flight. -/
def Running (s : Search) : Prop :=
  s.remaining = s.inflight.length + 1 ∧ (∀ c ∈ s.inflight, c.putsCl = true) ∧ s.freed = 0 ∧
    s.ended = 0 ∧ s.origBio = true

theorem running_alloc (bio : OrigBio) : (alloc bio).Running := by
  simp [Running, alloc]

/-- Taking a reference for one more item in flight that will drop it. -/
theorem Running.push {s : Search} (h : s.Running) {c : Completion} (hc : c.putsCl = true)
    (t : Search) (hrem : t.remaining = s.remaining + 1) (hin : t.inflight = s.inflight ++ [c])
    (hf : t.freed = s.freed) (he : t.ended = s.ended) (hb : t.origBio = s.origBio) : t.Running := by
  obtain ⟨hr, ho, hf₀, he₀, hb₀⟩ := h
  refine ⟨by rw [hrem, hin, hr, List.length_append, List.length_singleton], fun c' hc' => ?_,
    hf.trans hf₀, he.trans he₀, hb.trans hb₀⟩
  rw [hin, List.mem_append, List.mem_singleton] at hc'
  rcases hc' with hc' | rfl
  · exact ho c' hc'
  · exact hc

theorem Running.closureBioSubmit {s : Search} (h : s.Running) (io : DevIo) {c : Completion}
    (hc : c.putsCl = true) : (s.closureBioSubmit io c).Running :=
  h.push hc _ rfl rfl rfl rfl rfl

theorem Running.closureCall {s : Search} (h : s.Running) : s.closureCall.Running :=
  h.push (c := .write) rfl _ rfl rfl rfl rfl rfl

theorem Running.journalFlushAsync {s : Search} (h : s.Running) : s.journalFlushAsync.Running :=
  h.push (c := .journalFlush) rfl _ rfl rfl rfl rfl rfl

/-- Dropping the running reference while something is in flight leaves the search
waiting, balanced. -/
theorem Running.continueAt {s : Search} (h : s.Running) (hne : s.inflight ≠ []) (g : Cont)
    (run : Search → Search) : (s.continueAt g run).Waiting := by
  obtain ⟨hr, ho, hf, he, hb⟩ := h
  have hpos : 0 < s.inflight.length := List.length_pos.2 hne
  unfold Search.continueAt
  rw [if_neg (by omega)]
  exact ⟨rfl, by simp; omega, by simp; omega, ho, hf, he, hb⟩

/-- The state the last reference's drop runs a function in. -/
def Ready (s : Search) : Prop :=
  s.remaining = 1 ∧ s.inflight = [] ∧ s.freed = 0 ∧ s.ended = 0 ∧ s.origBio = true

theorem Ready.searchFree {s : Search} (h : s.Ready) : s.searchFree.Finished := by
  obtain ⟨-, hi, hf, he, ho⟩ := h
  simp [Finished, Search.searchFree, bioComplete, hi, hf, he, ho]

theorem Ready.continueAt_bioComplete {s : Search} (h : s.Ready) (g : Cont) :
    (s.continueAt g cachedDevBioComplete).Finished := by
  unfold continueAt
  rw [if_pos h.1.le]
  exact Ready.searchFree ⟨rfl, h.2⟩

/-- Dropping the running reference with nothing in flight frees the search at once. -/
theorem Running.continueAt_nil {s : Search} (h : s.Running) (hnil : s.inflight = []) (g : Cont) :
    (s.continueAt g searchFree).Finished := by
  obtain ⟨hr, -, hf, he, hb⟩ := h
  rw [hnil] at hr
  exact Ready.continueAt_bioComplete ⟨hr, hnil, hf, he, hb⟩ g

/-- `cached_dev_read_error` from a ready search: a recoverable read goes back to the
backing device and waits for it; otherwise the search finishes. -/
theorem Ready.cachedDevReadError {s : Search} (h : s.Ready) : (Search.cachedDevReadError s).Settled := by
  obtain ⟨hr, hi, hf, he, ho⟩ := h
  unfold Search.cachedDevReadError
  split_ifs with hrec
  · left
    simp [Waiting, continueAt, closureBioSubmit, closureGet, Completion.putsCl, hr, hi, hf, he, ho]
  · exact .inr (Ready.continueAt_bioComplete ⟨hr, hi, hf, he, ho⟩ _)

/-- Every function of the request code, run from a ready search, settles it. -/
theorem Ready.runCont {s : Search} (h : s.Ready) (dc : CachedDevConf) (g : Cont) :
    (runCont dc g s).Settled := by
  have hfin : ∀ {t : Search}, t.Ready → t.searchFree.Settled := fun ht => .inr ht.searchFree
  have hready : ∀ g' : Cont, ({ s with fn := some g' } : Search).Ready := fun _ => h
  cases g with
  | searchFree => exact hfin h
  | cachedDevBioComplete => exact hfin h
  | cachedDevWriteComplete => exact hfin h
  | cachedDevReadError => exact h.cachedDevReadError
  | cachedDevReadDone => exact hfin (hready _)
  | cachedDevReadDoneBh =>
    show (Search.cachedDevReadDoneBh dc s).Settled
    unfold Search.cachedDevReadDoneBh continueAtNobarrier
    split_ifs
    · exact (hready _).cachedDevReadError
    · exact hfin (hready _)
    · exact hfin (hready _)

/-- `closure_put` on a waiting search whose item has just left the list. -/
theorem closurePut_settled {s : Search} (dc : CachedDevConf) (hfn : s.fn.isSome)
    (hr : s.remaining = s.inflight.length + 1) (ho : ∀ c ∈ s.inflight, c.putsCl = true)
    (hf : s.freed = 0)
    (he : s.ended = 0) (hb : s.origBio = true) : (closurePut dc s).Settled := by
  unfold closurePut
  split_ifs with h1
  · obtain ⟨g, hg⟩ := Option.isSome_iff_exists.1 hfn
    have hnil : s.inflight = [] := List.eq_nil_of_length_eq_zero (by omega)
    rw [hg]
    exact Ready.runCont (s := { s with fn := some g, remaining := 1 }) ⟨rfl, hnil, hf, he, hb⟩ dc g
  · exact .inl ⟨hfn, by simp; omega, by simp; omega, ho, hf, he, hb⟩

/-- Finishing any item of a settled search, with any error, keeps it settled. -/
theorem Settled.complete {s s' : Search} {dc : CachedDevConf} {i : Nat} {err : Int} (h : s.Settled)
    (hc : s.complete dc i err = some s') : s'.Settled := by
  unfold Search.complete at hc
  split at hc
  · cases hc
  · rename_i c hget
    have hmem := List.get?_mem hget
    have hi : i < s.inflight.length := (List.get?_eq_some.1 hget).1
    rcases h with ⟨hfn, hr, hpos, ho, hf, he, hb⟩ | ⟨-, -, hnil⟩
    · cases hc
      have hlen : (s.inflight.eraseIdx i).length + 1 = s.remaining := by
        rw [List.length_eraseIdx, if_pos hi]; omega
      have ho' : ∀ c ∈ s.inflight.eraseIdx i, c.putsCl = true :=
        fun c h' => ho c (List.mem_of_mem_eraseIdx h')
      cases c with
      | origEndio => exact absurd (ho _ hmem) Bool.false_ne_true
      | noEndio => exact absurd (ho _ hmem) Bool.false_ne_true
      | requestEndio =>
        unfold requestEndio
        split_ifs <;> exact closurePut_settled dc hfn hlen.symm ho' hf he hb
      | write => split_ifs <;> exact closurePut_settled dc hfn hlen.symm ho' hf he hb
      | journalFlush => exact closurePut_settled dc hfn hlen.symm ho' hf he hb
    · rw [hnil] at hmem; cases hmem

/-- A settled search stays settled whatever finishes, in any order and with any errors;
once nothing is in flight it has been freed exactly once and the original bio completed
exactly once. -/
theorem completeAll_finished {dc : CachedDevConf} :
    ∀ {sched : List (Nat × Int)} {s s' : Search}, s.Settled → completeAll dc sched s = some s' →
      s'.inflight = [] → s'.Finished
  | [], s, s', h, hc, hnil => by
    cases hc
    rcases h with ⟨-, hr, hpos, -⟩ | h
    · rw [hnil] at hr; simp at hr; omega
    · exact h
  | (i, err) :: rest, s, s', h, hc, hnil => by
    obtain ⟨t, ht, hc'⟩ := Option.bind_eq_some.1 hc
    exact completeAll_finished (h.complete ht) hc' hnil

/-! ## Searches that are never freed

A search on which more references are held than the items in flight will drop never gets
its count to zero: whatever finishes, in any order and with any errors, it is never freed
(`Held.completeAll`). -/

/-- At least `n` references are held on `s->cl` beyond those the items in flight will drop,
and the search has not been freed. -/
def Held (s : Search) (n : Nat) : Prop :=
  (s.inflight.filter Completion.putsCl).length + n ≤ s.remaining ∧ s.freed = 0

theorem Running.held {s : Search} (h : s.Running) : s.Held 1 := by
  obtain ⟨hr, ho, hf, -⟩ := h
  exact ⟨by rw [hr, List.filter_eq_self.2 ho], hf⟩

theorem Held.mono {s : Search} {n m : Nat} (h : s.Held n) (hm : m ≤ n) : s.Held m :=
  ⟨by have := h.1; omega, h.2⟩

/-- One more item in flight, with the reference it takes: if it will not drop it, one more
reference is held for good. -/
theorem Held.push {s t : Search} {n : Nat} (h : s.Held n) {c : Completion}
    (hrem : t.remaining = s.remaining + 1) (hin : t.inflight = s.inflight ++ [c])
    (hf : t.freed = s.freed) : t.Held (n + if c.putsCl then 0 else 1) := by
  obtain ⟨hle, hf₀⟩ := h
  refine ⟨?_, hf.trans hf₀⟩
  rw [hin, hrem, List.filter_append, List.length_append]
  cases hc : c.putsCl <;> simp [List.filter_cons, hc] <;> omega

theorem Held.closureGet {s : Search} {n : Nat} (h : s.Held n) : s.closureGet.Held (n + 1) :=
  ⟨Nat.succ_le_succ h.1, h.2⟩

theorem Held.closureBioSubmit {s : Search} {n : Nat} (h : s.Held n) (io : DevIo)
    (c : Completion) : (s.closureBioSubmit io c).Held n :=
  (h.push (t := s.closureBioSubmit io c) (c := c) rfl rfl rfl).mono (Nat.le_add_right _ _)

/-- Sending a bio whose completion does not put `s->cl` holds one more reference for good. -/
theorem Held.closureBioSubmit_leak {s : Search} {n : Nat} (h : s.Held n) (io : DevIo)
    {c : Completion} (hc : c.putsCl = false) : (s.closureBioSubmit io c).Held (n + 1) := by
  simpa only [hc, if_false] using h.push (t := s.closureBioSubmit io c) (c := c) rfl rfl rfl

theorem Held.closureCall {s : Search} {n : Nat} (h : s.Held n) : s.closureCall.Held n :=
  (h.push (t := s.closureCall) (c := .write) rfl rfl rfl).mono (Nat.le_add_right _ _)

/-- Dropping the running reference while another is held for good leaves the recorded
function waiting. -/
theorem Held.continueAt {s : Search} (h : s.Held 2) (g : Cont) (run : Search → Search) :
    (s.continueAt g run).Held 1 := by
  obtain ⟨hle, hf⟩ := h
  unfold Search.continueAt
  rw [if_neg (by omega)]
  exact ⟨by simp only; omega, hf⟩

/-- `closure_put` while other references are held only drops one. -/
theorem closurePut_of_lt {s : Search} (dc : CachedDevConf) (h : 1 < s.remaining) :
    closurePut dc s = { s with remaining := s.remaining - 1 } := by
  simp [closurePut, Nat.not_le.2 h]

/-- Taking item `i` out of the list drops it from the count of those that put `s->cl`. -/
theorem length_filter_eraseIdx {p : Completion → Bool} {l : List Completion} {i : Nat}
    {c : Completion} (h : l.get? i = some c) :
    ((l.eraseIdx i).filter p).length + (if p c then 1 else 0) = (l.filter p).length := by
  obtain ⟨hi, hc⟩ := List.get?_eq_some.1 h
  have hl : l = l.take i ++ c :: l.drop (i + 1) := by
    conv_lhs => rw [← List.take_append_drop i l, List.drop_eq_getElem_cons hi]
    rw [← hc]; rfl
  rw [List.eraseIdx_eq_take_drop_succ]
  conv_rhs => rw [hl]
  simp only [List.filter_append, List.filter_cons, List.length_append]
  by_cases hp : p c <;> simp [hp]
  omega

/-- Finishing any item, with any error, keeps the references held for good. -/
theorem Held.complete {s s' : Search} {dc : CachedDevConf} {i : Nat} {err : Int} {n : Nat}
    (h : s.Held n) (hn : 0 < n) (hc : s.complete dc i err = some s') : s'.Held n := by
  unfold Search.complete at hc
  split at hc
  · cases hc
  · rename_i c hget
    cases hc
    obtain ⟨hle, hf⟩ := h
    have hcount := length_filter_eraseIdx (p := Completion.putsCl) hget
    have hput : ∀ t : Search, t.remaining = s.remaining → t.inflight = s.inflight.eraseIdx i →
        t.freed = s.freed → (if c.putsCl then 1 else 0) = 1 → (closurePut dc t).Held n := by
      intro t hr hi hft h1
      rw [closurePut_of_lt dc (by omega)]
      exact ⟨by simp only [hi]; omega, hft.trans hf⟩
    cases c with
    | origEndio => exact ⟨by simp only [Completion.putsCl] at hcount ⊢; omega, hf⟩
    | noEndio => exact ⟨by simp only [Completion.putsCl] at hcount ⊢; omega, hf⟩
    | requestEndio =>
      unfold requestEndio
      split_ifs <;> exact hput _ rfl rfl rfl rfl
    | write => split_ifs <;> exact hput _ rfl rfl rfl rfl
    | journalFlush => exact hput _ rfl rfl rfl rfl

/-- A search with a reference held for good keeps it whatever finishes, in any order and
with any errors: it is never freed. -/
theorem Held.completeAll {dc : CachedDevConf} {n : Nat} (hn : 0 < n) :
    ∀ {sched : List (Nat × Int)} {s s' : Search}, s.Held n → completeAll dc sched s = some s' →
      s'.Held n
  | [], _, _, h, hc => by cases hc; exact h
  | (i, err) :: rest, s, s', h, hc => by
    obtain ⟨t, ht, hc'⟩ := Option.bind_eq_some.1 hc
    exact Held.completeAll hn (h.complete hn ht) hc'

end Search

end Libbcache
