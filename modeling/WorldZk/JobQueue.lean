import Mathlib.Algebra.Group.Int.Defs
import Mathlib.Algebra.Group.Nat.Defs
import Mathlib.Data.Finset.Basic
import Mathlib.Data.Finset.Dedup
import Mathlib.Data.List.Perm.Basic
import WorldZk.StepRuns

/-!
# The job queue

`JobQueue`: a bounded heap of scored jobs beside the set of their ids. The heap gives its greatest
job; which one that is among equally scored jobs is open, and a call names the place of the job
that it finds at the root. The release build has no overflow checks.
-/

namespace WorldZk.JobQueue

open StepRuns

/-! ## Scores -/

/-- What the queue reads of a job. Tips are numbers of 256 bits. -/
structure QueuedJob where
  requestId : UInt64
  tip : ℕ
  expiresAt : UInt64
  estimatedCycles : Option UInt64
  programCached : Bool
deriving DecidableEq

structure JobScore where
  tipScore : UInt64
  urgencyBoost : UInt64
  cacheBonus : UInt64
  complexityPenalty : UInt64
deriving DecidableEq

def JobScore.total (score : JobScore) : Int64 :=
  (score.tipScore + score.urgencyBoost + score.cacheBonus).toInt64 -
    score.complexityPenalty.toInt64

/-- The total without wrapping. -/
def JobScore.exactTotal (score : JobScore) : ℤ :=
  score.tipScore.toNat + score.urgencyBoost.toNat + score.cacheBonus.toNat -
    score.complexityPenalty.toNat

/-- `saturating_sub`. -/
def timeRemaining (expiresAt now : UInt64) : UInt64 :=
  if now ≤ expiresAt then expiresAt - now else 0

def QueuedJob.score (job : QueuedJob) (now : UInt64) : JobScore where
  tipScore := UInt64.ofNat (min (job.tip / 10 ^ 15) (2 ^ 64 - 1))
  urgencyBoost :=
    if timeRemaining job.expiresAt now < 600 then 100 - timeRemaining job.expiresAt now / 6 else 0
  cacheBonus := if job.programCached then 50 else 0
  complexityPenalty := (job.estimatedCycles.map (· / 10000000)).getD 0

structure ScoredJob where
  job : QueuedJob
  score : JobScore
deriving DecidableEq

/-! ## The queue -/

structure Queue where
  heap : List ScoredJob
  seen : Finset UInt64
  maxSize : ℕ
  minTip : ℕ
deriving DecidableEq

def Queue.new (maxSize minTip : ℕ) : Queue := ⟨[], ∅, maxSize, minTip⟩

/-- The job at a place of the heap, if it can be the root. -/
def peek (heap : List ScoredJob) (root : ℕ) : Option ScoredJob :=
  match heap[root]? with
  | some scored =>
    if ∀ other ∈ heap, other.score.total ≤ scored.score.total then some scored else none
  | none => none

/-- The end of `push`. -/
def Queue.enqueue (q : Queue) (job : QueuedJob) (now : UInt64) : Queue :=
  { q with
    heap := ⟨job, job.score now⟩ :: q.heap
    seen := insert job.requestId q.seen }

/-- The queue without the job at the root. -/
def Queue.removeRoot (q : Queue) (root : ℕ) (scored : ScoredJob) : Queue :=
  { q with
    heap := q.heap.eraseIdx root
    seen := q.seen.erase scored.job.requestId }

/-- The checks before the capacity. -/
def Queue.admits (q : Queue) (job : QueuedJob) (now : UInt64) : Bool :=
  decide (job.requestId ∉ q.seen) && decide (q.minTip ≤ job.tip) && decide (now < job.expiresAt)

/-- The clock is read for the expiry, for the comparison with the root and for the stored score. -/
structure PushClock where
  expiry : UInt64
  compared : UInt64
  stored : UInt64

def push (job : QueuedJob) (clock : PushClock) (root : ℕ) (q : Queue) : Option (Bool × Queue) :=
  if q.admits job clock.expiry then
    if q.maxSize ≤ q.heap.length then
      if q.heap = [] then some (true, q.enqueue job clock.stored)
      else
        match peek q.heap root with
        | none => none
        | some worst =>
          if (job.score clock.compared).total ≤ worst.score.total then some (false, q)
          else some (true, (q.removeRoot root worst).enqueue job clock.stored)
    else some (true, q.enqueue job clock.stored)
  else some (false, q)

/-- A round of the loop of `pop`. -/
structure PopRound where
  root : ℕ
  now : UInt64

def pop : List PopRound → Queue → Option (Option ScoredJob × Queue)
  | [], q => if q.heap = [] then some (none, q) else none
  | round :: rounds, q =>
    match peek q.heap round.root with
    | none => none
    | some scored =>
      if round.now < scored.job.expiresAt then
        if rounds.isEmpty then some (some scored, q.removeRoot round.root scored) else none
      else pop rounds (q.removeRoot round.root scored)

inductive Action
  | push (job : QueuedJob) (clock : PushClock) (root : ℕ)
  | pop (rounds : List PopRound)

def step (q : Queue) : Action → Option Queue
  | .push job clock root => (push job clock root q).map Prod.snd
  | .pop rounds => (pop rounds q).map Prod.snd

/-! ## What is wanted -/

/-- The set of ids is that of the heap, without duplicates, and the bound is kept. -/
structure Consistent (q : Queue) : Prop where
  nodup : (q.heap.map fun scored => scored.job.requestId).Nodup
  seen_eq : q.seen = (q.heap.map fun scored => scored.job.requestId).toFinset
  length_le : q.heap.length ≤ q.maxSize

/-- `kept` are the best `n` of the jobs. -/
def KeepsBest (n : ℕ) (jobs kept : List ScoredJob) : Prop :=
  ∃ dropped, (kept ++ dropped).Perm jobs ∧ kept.length = min n jobs.length ∧
    ∀ d ∈ dropped, ∀ k ∈ kept, d.score.exactTotal ≤ k.score.exactTotal

/-- A pop drops expired jobs and returns a best one of the others. -/
def ReturnsBest (rounds : List PopRound) (jobs : List ScoredJob) (result : Option ScoredJob)
    (rest : List ScoredJob) : Prop :=
  ∃ dropped : List ScoredJob, (result.toList ++ dropped ++ rest).Perm jobs ∧
    (∀ d ∈ dropped, ∃ round ∈ rounds, d.job.expiresAt ≤ round.now) ∧
    (result = none → rest = []) ∧
    ∀ best ∈ result, (∃ round ∈ rounds, round.now < best.job.expiresAt) ∧
      ∀ other ∈ rest, other.score.exactTotal ≤ best.score.exactTotal

/-- The root is the right job to compare with on a full queue: the new job is no better than any
job, or all jobs are equal and worse. -/
def RightVictim (q : Queue) (job : QueuedJob) (clock : PushClock) : Prop :=
  q.maxSize ≤ q.heap.length →
    (∀ old ∈ q.heap, (job.score clock.compared).exactTotal ≤ old.score.exactTotal) ∨
    ∀ old ∈ q.heap, old.score.exactTotal < (job.score clock.compared).exactTotal ∧
      old.score.exactTotal ≤ (job.score clock.stored).exactTotal ∧
      ∀ other ∈ q.heap, old.score.exactTotal ≤ other.score.exactTotal

/-- The totals of the job are below 2^63. -/
def TotalsFit (job : QueuedJob) (clock : PushClock) : Prop :=
  (job.score clock.compared).exactTotal < 2 ^ 63 ∧ (job.score clock.stored).exactTotal < 2 ^ 63

def Safe (q : Queue) : Action → Prop
  | .push job clock _ => q.admits job clock.expiry → TotalsFit job clock ∧ RightVictim q job clock
  | .pop _ => True

/-! ## Totals -/

section Totals

theorem toInt_toInt64 (x : UInt64) : x.toInt64.toInt = (x.toNat : ℤ).bmod (2 ^ 64) :=
  BitVec.toInt_eq_toNat_bmod x.toBitVec

theorem total_toInt (score : JobScore) :
    score.total.toInt = score.exactTotal.bmod (2 ^ 64) := by
  have hsum : ((score.tipScore + score.urgencyBoost + score.cacheBonus).toNat : ℤ) =
      (score.tipScore.toNat + score.urgencyBoost.toNat + score.cacheBonus.toNat : ℤ) %
        ((2 ^ 64 : ℕ) : ℤ) := by
    rw [UInt64.toNat_add, UInt64.toNat_add]
    omega
  rw [JobScore.total, Int64.toInt_sub, toInt_toInt64, toInt_toInt64, hsum, Int.bmod_sub_bmod,
    Int.sub_bmod_bmod, Int.emod_sub_bmod, JobScore.exactTotal]

theorem penalty_le (job : QueuedJob) (now : UInt64) :
    (job.score now).complexityPenalty.toNat < 2 ^ 63 := by
  change ((job.estimatedCycles.map (· / 10000000)).getD 0).toNat < 2 ^ 63
  cases job.estimatedCycles with
  | none => decide
  | some cycles =>
    have hlt := UInt64.toNat_lt cycles
    rw [Option.map_some, Option.getD_some, UInt64.toNat_div]
    change cycles.toNat / 10000000 < 2 ^ 63
    omega

theorem total_exact {job : QueuedJob} {now : UInt64}
    (h : (job.score now).exactTotal < 2 ^ 63) :
    (job.score now).total.toInt = (job.score now).exactTotal := by
  have hpenalty := penalty_le job now
  rw [total_toInt]
  refine Int.bmod_eq_of_le ?_ ?_
  · rw [JobScore.exactTotal]
    omega
  · omega

end Totals

/-! ## The heap -/

/-- The stored totals have not wrapped. -/
def ExactTotals (heap : List ScoredJob) : Prop :=
  ∀ scored ∈ heap, scored.score.total.toInt = scored.score.exactTotal

section Heap

variable {q t : Queue} {root : ℕ} {scored : ScoredJob}

theorem peek_spec {heap : List ScoredJob} (h : peek heap root = some scored) :
    (scored :: heap.eraseIdx root).Perm heap ∧
      ∀ other ∈ heap, other.score.total ≤ scored.score.total := by
  unfold peek at h
  split at h
  case h_1 scored' hget =>
    split at h
    case isTrue hmax =>
      cases h
      obtain ⟨hlt, rfl⟩ := List.getElem?_eq_some_iff.mp hget
      exact ⟨List.getElem_cons_eraseIdx_perm hlt, hmax⟩
    case isFalse => cases h
  case h_2 => cases h

theorem Consistent.removeRoot (h : Consistent q) (hpeek : peek q.heap root = some scored) :
    Consistent (q.removeRoot root scored) ∧ (q.removeRoot root scored).heap.length <
      q.heap.length := by
  obtain ⟨hperm, -⟩ := peek_spec hpeek
  have hids := hperm.map fun scored => scored.job.requestId
  obtain ⟨hnew, hnodup⟩ := List.nodup_cons.mp (hids.nodup_iff.mpr h.nodup)
  have hlength : (q.heap.eraseIdx root).length < q.heap.length := by
    rw [← hperm.length_eq, List.length_cons]
    exact Nat.lt_succ_self _
  refine ⟨⟨hnodup, ?_, hlength.le.trans h.length_le⟩, hlength⟩
  change q.seen.erase _ = _
  rw [h.seen_eq, ← List.toFinset_eq_of_perm _ _ hids, List.map_cons, List.toFinset_cons,
    Finset.erase_insert (by rwa [List.mem_toFinset])]
  rfl

theorem Consistent.enqueue (h : Consistent q) {job : QueuedJob} {now : UInt64}
    (hnew : job.requestId ∉ q.seen) (hspace : q.heap.length < q.maxSize) :
    Consistent (q.enqueue job now) := by
  rw [h.seen_eq, List.mem_toFinset] at hnew
  refine ⟨List.nodup_cons.mpr ⟨hnew, h.nodup⟩, ?_, hspace⟩
  change insert _ q.seen = _
  rw [h.seen_eq]
  exact List.toFinset_cons.symm

theorem Consistent.pop {rounds : List PopRound} {result : Option ScoredJob} (h : Consistent q)
    (hpop : pop rounds q = some (result, t)) :
    Consistent t ∧ t.maxSize = q.maxSize ∧ ∀ scored ∈ t.heap, scored ∈ q.heap := by
  induction rounds generalizing q with
  | nil =>
    rw [JobQueue.pop] at hpop
    split at hpop
    · cases hpop
      exact ⟨h, rfl, fun _ => id⟩
    · cases hpop
  | cons round rounds ih =>
    rw [JobQueue.pop] at hpop
    split at hpop
    case h_1 => cases hpop
    case h_2 scored hpeek =>
      have hrest := (h.removeRoot hpeek).1
      have hmem : ∀ scored' ∈ q.heap.eraseIdx round.root, scored' ∈ q.heap :=
        fun _ => List.mem_of_mem_eraseIdx
      split at hpop
      · split at hpop
        · cases hpop
          exact ⟨hrest, rfl, hmem⟩
        · cases hpop
      · obtain ⟨ht, hsize, hsub⟩ := ih hrest hpop
        exact ⟨ht, hsize, fun scored' h' => hmem scored' (hsub scored' h')⟩

theorem pop_returnsBest {rounds : List PopRound} {result : Option ScoredJob}
    (hexact : ExactTotals q.heap) (hpop : pop rounds q = some (result, t)) :
    ReturnsBest rounds q.heap result t.heap := by
  induction rounds generalizing q with
  | nil =>
    rw [JobQueue.pop] at hpop
    split at hpop
    case isTrue hempty =>
      cases hpop
      exact ⟨[], .rfl, nofun, fun _ => hempty, nofun⟩
    case isFalse => cases hpop
  | cons round rounds ih =>
    rw [JobQueue.pop] at hpop
    split at hpop
    case h_1 => cases hpop
    case h_2 scored hpeek =>
      obtain ⟨hperm, hmax⟩ := peek_spec hpeek
      have hrest : ExactTotals (q.removeRoot round.root scored).heap :=
        fun other hother => hexact other (List.mem_of_mem_eraseIdx hother)
      have hscored := hexact scored (hperm.mem_iff.mp List.mem_cons_self)
      split at hpop
      case isTrue hvalid =>
        split at hpop
        case isTrue =>
          cases hpop
          refine ⟨[], hperm, nofun, nofun, fun best hbest => ?_⟩
          cases hbest
          refine ⟨⟨round, List.mem_cons_self, hvalid⟩, fun other hother => ?_⟩
          rw [← hrest other hother, ← hscored]
          exact Int64.le_iff_toInt_le.mp (hmax other (List.mem_of_mem_eraseIdx hother))
        case isFalse => cases hpop
      case isFalse hexpired =>
        obtain ⟨dropped, hparts, hdropped, hnone, hbest⟩ := ih hrest hpop
        refine ⟨scored :: dropped, ?_, ?_, hnone, fun best hmem => ?_⟩
        · have hmiddle : (result.toList ++ scored :: dropped ++ t.heap).Perm
              (scored :: (result.toList ++ dropped ++ t.heap)) := by
            rw [List.append_assoc, List.cons_append, List.append_assoc]
            exact List.perm_middle
          exact (hmiddle.trans (hparts.cons scored)).trans hperm
        · refine List.forall_mem_cons.mpr ⟨⟨round, List.mem_cons_self, ?_⟩, fun d hd => ?_⟩
          · exact UInt64.not_lt.mp hexpired
          · obtain ⟨round', hmem, hle⟩ := hdropped d hd
            exact ⟨round', List.mem_cons_of_mem _ hmem, hle⟩
        · obtain ⟨⟨round', hround, hlt⟩, hmax'⟩ := hbest best hmem
          exact ⟨⟨round', List.mem_cons_of_mem _ hround, hlt⟩, hmax'⟩

end Heap

/-! ## Pushing -/

section Push

variable {q t : Queue} {job : QueuedJob} {clock : PushClock} {root : ℕ} {added : Bool}

/-- What a push can do. -/
theorem push_cases (h : push job clock root q = some (added, t)) :
    (q.admits job clock.expiry = false ∧ added = false ∧ t = q) ∨
    (q.admits job clock.expiry = true ∧ (q.heap.length < q.maxSize ∨ q.heap = []) ∧
      added = true ∧ t = q.enqueue job clock.stored) ∨
    (q.admits job clock.expiry = true ∧ q.maxSize ≤ q.heap.length ∧
      ∃ worst, peek q.heap root = some worst ∧
        (((job.score clock.compared).total ≤ worst.score.total ∧ added = false ∧ t = q) ∨
          (¬(job.score clock.compared).total ≤ worst.score.total ∧ added = true ∧
            t = (q.removeRoot root worst).enqueue job clock.stored))) := by
  unfold push at h
  split at h
  case isTrue hadmits =>
    split at h
    case isTrue hfull =>
      split at h
      case isTrue hempty =>
        cases h
        exact .inr (.inl ⟨hadmits, .inr hempty, rfl, rfl⟩)
      case isFalse =>
        split at h
        case h_1 => cases h
        case h_2 worst hpeek =>
          refine .inr (.inr ⟨hadmits, hfull, worst, hpeek, ?_⟩)
          split at h
          case isTrue hle =>
            cases h
            exact .inl ⟨hle, rfl, rfl⟩
          case isFalse hgt =>
            cases h
            exact .inr ⟨hgt, rfl, rfl⟩
    case isFalse hspace =>
      cases h
      exact .inr (.inl ⟨hadmits, .inl (not_le.mp hspace), rfl, rfl⟩)
  case isFalse hrefused =>
    cases h
    exact .inl ⟨Bool.eq_false_iff.mpr hrefused, rfl, rfl⟩

theorem not_mem_seen_of_admits {now : UInt64} (h : q.admits job now = true) :
    job.requestId ∉ q.seen := by
  simp only [Queue.admits, Bool.and_eq_true, decide_eq_true_eq] at h
  exact h.1.1

theorem Consistent.push (h : Consistent q) (hsize : 1 ≤ q.maxSize)
    (hpush : push job clock root q = some (added, t)) : Consistent t ∧ t.maxSize = q.maxSize := by
  rcases push_cases hpush with ⟨-, -, rfl⟩ | ⟨hadmits, hspace, -, rfl⟩ |
    ⟨hadmits, hfull, worst, hpeek, ⟨-, -, rfl⟩ | ⟨-, -, rfl⟩⟩
  · exact ⟨h, rfl⟩
  · refine ⟨h.enqueue (not_mem_seen_of_admits hadmits) ?_, rfl⟩
    rcases hspace with hlt | hempty
    · exact hlt
    · rw [hempty]
      exact hsize
  · exact ⟨h, rfl⟩
  · obtain ⟨hrest, hlt⟩ := h.removeRoot hpeek
    refine ⟨hrest.enqueue (fun hmem => ?_) (hlt.trans_le h.length_le), rfl⟩
    exact not_mem_seen_of_admits hadmits (Finset.mem_of_mem_erase hmem)

theorem exactTotals_push (h : ExactTotals q.heap)
    (hfit : q.admits job clock.expiry → (job.score clock.stored).exactTotal < 2 ^ 63)
    (hpush : push job clock root q = some (added, t)) : ExactTotals t.heap := by
  rcases push_cases hpush with ⟨-, -, rfl⟩ | ⟨hadmits, -, -, rfl⟩ |
    ⟨hadmits, -, worst, -, ⟨-, -, rfl⟩ | ⟨-, -, rfl⟩⟩
  · exact h
  · exact List.forall_mem_cons.mpr ⟨total_exact (hfit hadmits), h⟩
  · exact h
  · refine List.forall_mem_cons.mpr ⟨total_exact (hfit hadmits), fun other hother => ?_⟩
    exact h other (List.mem_of_mem_eraseIdx hother)

theorem keepsBest_of_perm {n : ℕ} {jobs kept : List ScoredJob} {dropped : ScoredJob}
    (hperm : (dropped :: kept).Perm jobs) (hlength : kept.length = n) :
    KeepsBest n jobs kept ↔ ∀ k ∈ kept, dropped.score.exactTotal ≤ k.score.exactTotal := by
  constructor
  · rintro ⟨rest, hrest, -, hbest⟩
    have hone : rest.Perm [dropped] := by
      refine (List.perm_append_left_iff kept).mp (hrest.trans (hperm.symm.trans ?_))
      exact (List.perm_append_singleton dropped kept).symm
    rw [List.perm_singleton.mp hone] at hbest
    exact hbest dropped (List.mem_singleton_self _)
  · intro hbest
    refine ⟨[dropped], (List.perm_append_singleton dropped kept).trans hperm, ?_, fun d hd => ?_⟩
    · rw [← hperm.length_eq, List.length_cons]
      omega
    · rw [List.mem_singleton.mp hd]
      exact hbest

/-- With exact totals, a push keeps the best jobs exactly when the root is the right job to compare
with. -/
theorem push_keepsBest_iff (h : Consistent q) (hsize : 1 ≤ q.maxSize) (hexact : ExactTotals q.heap)
    (hadmits : q.admits job clock.expiry) (hfit : TotalsFit job clock)
    (hpush : push job clock root q = some (added, t)) :
    KeepsBest q.maxSize
        (⟨job, job.score (if added then clock.stored else clock.compared)⟩ :: q.heap) t.heap ↔
      RightVictim q job clock := by
  rcases push_cases hpush with ⟨hrefused, -, -⟩ | ⟨-, hspace, rfl, rfl⟩ |
    ⟨-, hfull, worst, hpeek, hcases⟩
  · rw [hadmits] at hrefused
    cases hrefused
  · have hlt : q.heap.length < q.maxSize := by
      rcases hspace with hlt | hempty
      · exact hlt
      · rw [hempty]
        exact hsize
    refine iff_of_true ⟨[], by rw [List.append_nil]; rfl, ?_, nofun⟩
      (fun hfull => absurd hfull (not_le.mpr hlt))
    exact (min_eq_right hlt).symm
  · obtain ⟨hperm, hmax⟩ := peek_spec hpeek
    have hworst : worst ∈ q.heap := hperm.mem_iff.mp List.mem_cons_self
    have hlength : q.heap.length = q.maxSize := le_antisymm h.length_le hfull
    have hle : ∀ other ∈ q.heap, other.score.exactTotal ≤ worst.score.exactTotal := by
      intro other hother
      rw [← hexact other hother, ← hexact worst hworst]
      exact Int64.le_iff_toInt_le.mp (hmax other hother)
    rw [Int64.le_iff_toInt_le, total_exact hfit.1, hexact worst hworst] at hcases
    rcases hcases with ⟨hnew, rfl, rfl⟩ | ⟨hnew, rfl, rfl⟩
    · rw [keepsBest_of_perm .rfl hlength]
      refine ⟨fun hbest _ => .inl hbest, fun hvictim => ?_⟩
      rcases hvictim hfull with hbest | hequal
      · exact hbest
      · exact absurd hnew (not_le.mpr (hequal worst hworst).1)
    · have hdropped : (worst :: ⟨job, job.score clock.stored⟩ :: q.heap.eraseIdx root).Perm
          (⟨job, job.score clock.stored⟩ :: q.heap) :=
        (List.Perm.swap _ _ _).trans (hperm.cons _)
      have hkept : (q.heap.eraseIdx root).length + 1 = q.maxSize := by
        rw [← hlength, ← hperm.length_eq, List.length_cons]
      refine (keepsBest_of_perm hdropped hkept).trans ?_
      rw [List.forall_mem_cons]
      constructor
      · rintro ⟨hstored, hrest⟩ -
        have hleast : ∀ other ∈ q.heap, worst.score.exactTotal ≤ other.score.exactTotal := by
          intro other hother
          rcases List.mem_cons.mp (hperm.mem_iff.mpr hother) with rfl | hmem
          · exact le_rfl
          · exact hrest other hmem
        refine .inr fun old hold => ⟨(hle old hold).trans_lt (not_le.mp hnew),
          (hle old hold).trans hstored, fun other hother => ?_⟩
        exact (hle old hold).trans (hleast other hother)
      · intro hvictim
        rcases hvictim hfull with hbest | hequal
        · exact absurd (hbest worst hworst) hnew
        · obtain ⟨-, hstored, hleast⟩ := hequal worst hworst
          exact ⟨hstored, fun other hother => hleast other (List.mem_of_mem_eraseIdx hother)⟩

end Push

/-! ## Runs -/

section Runs

variable {q t : Queue} {maxSize minTip : ℕ} {a : Action}

/-- The set of ids is right and the size is that of the queue. -/
def Sound (maxSize : ℕ) (q : Queue) : Prop := Consistent q ∧ q.maxSize = maxSize

theorem sound_new : Sound maxSize (Queue.new maxSize minTip) :=
  ⟨⟨List.nodup_nil, rfl, Nat.zero_le _⟩, rfl⟩

theorem Sound.step (hmax : 1 ≤ maxSize) (h : Sound maxSize q) (hstep : step q a = some t) :
    Sound maxSize t := by
  obtain ⟨hconsistent, rfl⟩ := h
  cases a with
  | push job clock root =>
    obtain ⟨⟨added, t'⟩, hpush, rfl⟩ := Option.map_eq_some_iff.mp hstep
    exact hconsistent.push hmax hpush
  | pop rounds =>
    obtain ⟨⟨result, t'⟩, hpop, rfl⟩ := Option.map_eq_some_iff.mp hstep
    obtain ⟨ht, hsize, -⟩ := hconsistent.pop hpop
    exact ⟨ht, hsize⟩

theorem exactTotals_step (hsound : Sound maxSize q) (h : ExactTotals q.heap) (hsafe : Safe q a)
    (hstep : step q a = some t) : ExactTotals t.heap := by
  cases a with
  | push job clock root =>
    obtain ⟨⟨added, t'⟩, hpush, rfl⟩ := Option.map_eq_some_iff.mp hstep
    exact exactTotals_push h (fun hadmits => (hsafe hadmits).1.2) hpush
  | pop rounds =>
    obtain ⟨⟨result, t'⟩, hpop, rfl⟩ := Option.map_eq_some_iff.mp hstep
    exact fun scored hscored => h scored ((hsound.1.pop hpop).2.2 scored hscored)

/-- A job that is not urgent, with a tip in thousandths of an ether. -/
def plainJob (requestId : UInt64) (tip : ℕ) : QueuedJob :=
  ⟨requestId, tip * 10 ^ 15, 1000, none, false⟩

def zeroClock : PushClock := ⟨0, 0, 0⟩

/-- A full queue with tips 1 and 5. -/
def fullQueue : Queue :=
  ⟨[⟨plainJob 2 5, ⟨5, 0, 0, 0⟩⟩, ⟨plainJob 1 1, ⟨1, 0, 0, 0⟩⟩], {2, 1}, 2, 0⟩

theorem fullQueue_run : runSteps step (Queue.new 2 0)
    [.push (plainJob 1 1) zeroClock 0, .push (plainJob 2 5) zeroClock 0] = some fullQueue := by
  decide +kernel

/-- In every run the ids, the set and the bound agree. In every run whose pushes are safe, the next
push of a job whose totals fit keeps the best jobs exactly when it compares with the right one, and
a pop returns a best job that has not expired and drops only expired ones. -/
theorem queue_keeps_best (hmax : 1 ≤ maxSize) {actions : List Action}
    (hrun : runSteps step (Queue.new maxSize minTip) actions = some q) :
    Consistent q ∧ q.maxSize = maxSize ∧
      (Meets step Safe (Queue.new maxSize minTip) actions →
        (∀ job clock root added t, push job clock root q = some (added, t) →
          q.admits job clock.expiry → TotalsFit job clock →
          (KeepsBest maxSize
              (⟨job, job.score (if added then clock.stored else clock.compared)⟩ :: q.heap)
              t.heap ↔
            RightVictim q job clock)) ∧
        ∀ rounds result t, pop rounds q = some (result, t) →
          ReturnsBest rounds q.heap result t.heap) := by
  have hsound : Sound maxSize q :=
    runSteps_invariant (fun _ _ _ h _ hstep => h.step hmax hstep) sound_new meets_true hrun
  refine ⟨hsound.1, hsound.2, fun hmeets => ?_⟩
  have hexact : Sound maxSize q ∧ ExactTotals q.heap :=
    runSteps_invariant (I := fun q => Sound maxSize q ∧ ExactTotals q.heap)
      (fun _ _ _ h hsafe hstep => ⟨h.1.step hmax hstep, exactTotals_step h.1 h.2 hsafe hstep⟩)
      ⟨sound_new, nofun⟩ hmeets hrun
  refine ⟨fun job clock root added t hpush hadmits hfit => ?_, fun rounds result t hpop => ?_⟩
  · have hkeeps := push_keepsBest_iff hsound.1 (hsound.2 ▸ hmax) hexact.2 hadmits hfit hpush
    rwa [hsound.2] at hkeeps
  · exact pop_returnsBest hexact.2 hpop

end Runs

/-- The two pushes before leave the set of ids and the heap in step. -/
theorem fullQueue_consistent : Consistent fullQueue ∧ fullQueue.maxSize = 2 :=
  ⟨(queue_keeps_best (by decide) fullQueue_run).1, (queue_keeps_best (by decide) fullQueue_run).2.1⟩

/-- A job with tip 10 evicts the one with tip 5 and leaves the one with tip 1. -/
theorem best_job_evicted : ∃ actions q t, runSteps step (Queue.new 2 0) actions = some q ∧
    push (plainJob 3 10) zeroClock 0 q = some (true, t) ∧ q.admits (plainJob 3 10) 0 = true ∧
    ¬KeepsBest 2 (⟨plainJob 3 10, (plainJob 3 10).score 0⟩ :: q.heap) t.heap := by
  refine ⟨_, fullQueue, (fullQueue.removeRoot 0 ⟨plainJob 2 5, ⟨5, 0, 0, 0⟩⟩).enqueue
    (plainJob 3 10) 0, fullQueue_run, by decide +kernel, by decide +kernel, fun h => ?_⟩
  have hperm : (⟨plainJob 2 5, ⟨5, 0, 0, 0⟩⟩ ::
      ((fullQueue.removeRoot 0 ⟨plainJob 2 5, ⟨5, 0, 0, 0⟩⟩).enqueue (plainJob 3 10) 0).heap).Perm
      (⟨plainJob 3 10, (plainJob 3 10).score 0⟩ :: fullQueue.heap) := List.Perm.swap _ _ _
  have hbest := (keepsBest_of_perm hperm rfl).mp h ⟨plainJob 1 1, ⟨1, 0, 0, 0⟩⟩
    (List.mem_cons_of_mem _ List.mem_cons_self)
  exact absurd hbest (by decide +kernel)

end WorldZk.JobQueue
