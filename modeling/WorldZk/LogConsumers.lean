import Mathlib.Algebra.Group.Action.Defs
import Mathlib.Data.List.Basic
import Mathlib.Order.Nat

/-!
# Consumers of a growing log

A consumer reads a log from its cursor, applies the events of a batch one by one and moves its cursor
after the last of them. When it stops in the middle of a batch, what it has applied stays applied, and
its next batch begins at the old cursor, so events are applied again. The result of this file is for
views that such repetitions leave as they are: after each batch the view is the one that the log makes
from scratch.
-/

namespace WorldZk.LogConsumers

variable {σ ε : Type}

structure Consumer (σ ε : Type) where
  /-- The log, in blocks. -/
  blocks : List (List ε)
  /-- The number of blocks of the batches that ended. -/
  cursor : ℕ
  view : σ
  /-- The events of the batch that are still to be applied, and the cursor at its end. -/
  batch : Option (List ε × ℕ)

inductive ConsumerAction (ε : Type)
  | append (block : List ε)
  | poll
  | applyNext
  | commit
  | stop

def Consumer.start (x : σ) : Consumer σ ε := ⟨[], 0, x, none⟩

def step (f : σ → ε → σ) (s : Consumer σ ε) : ConsumerAction ε → Option (Consumer σ ε)
  | .append block => some { s with blocks := s.blocks ++ [block] }
  | .poll =>
    match s.batch with
    | some _ => none
    | none =>
      some { s with batch := some ((s.blocks.drop s.cursor).flatten, s.blocks.length) }
  | .applyNext =>
    match s.batch with
    | some (e :: rest, next) => some { s with view := f s.view e, batch := some (rest, next) }
    | _ => none
  | .commit =>
    match s.batch with
    | some ([], next) => some { s with cursor := next, batch := none }
    | _ => none
  | .stop => some { s with batch := none }

/-- A view from which a beginning of the log can be applied again. -/
structure Replayable (f : σ → ε → σ) (Ready : σ → List ε → Prop) : Prop where
  absorb : ∀ {x P Q}, Ready x (P ++ Q) → (P ++ Q).foldl f (P.foldl f x) = (P ++ Q).foldl f x
  again : ∀ {x P Q}, Ready x (P ++ Q) → Ready (P.foldl f x) (P ++ Q)
  advance : ∀ {x P Q}, Ready x (P ++ Q) → Ready (P.foldl f x) Q
  shrink : ∀ {x P Q}, Ready x (P ++ Q) → Ready x P

/-- What is left of a view after batches over beginnings of the log that did not end. -/
inductive Replays (f : σ → ε → σ) (log : List ε) (x : σ) : σ → Prop
  | refl : Replays f log x x
  | batch {y : σ} {P Q : List ε} (before : Replays f log x y) (split : log = P ++ Q) :
      Replays f log x (P.foldl f y)

variable {f : σ → ε → σ} {Ready : σ → List ε → Prop} {x y : σ} {log more : List ε}

theorem Replays.append (h : Replays f log x y) : Replays f (log ++ more) x y := by
  induction h with
  | refl => exact .refl
  | batch _ split ih => exact .batch ih (by rw [split, List.append_assoc])

theorem Replays.ready (hreplay : Replayable f Ready) (hready : Ready x log)
    (h : Replays f log x y) : Ready y log ∧ log.foldl f y = log.foldl f x := by
  induction h with
  | refl => exact ⟨hready, rfl⟩
  | batch _ split ih =>
    obtain ⟨hy, hfold⟩ := ih
    rw [split] at hy hfold ⊢
    exact ⟨hreplay.again hy, (hreplay.absorb hy).trans hfold⟩

/-- The events of the batches that ended, and those after them. -/
def Consumer.committed (s : Consumer σ ε) : List ε := (s.blocks.take s.cursor).flatten

def Consumer.rest (s : Consumer σ ε) : List ε := (s.blocks.drop s.cursor).flatten

/-- The events of the blocks from the cursor up to `next`. -/
def Consumer.upTo (s : Consumer σ ε) (next : ℕ) : List ε :=
  ((s.blocks.take next).drop s.cursor).flatten

variable {s t : Consumer σ ε}

theorem Consumer.upTo_append_drop {next : ℕ} (hcursor : s.cursor ≤ next)
    (hnext : next ≤ s.blocks.length) : s.upTo next ++ (s.blocks.drop next).flatten = s.rest := by
  rw [Consumer.upTo, Consumer.rest, ← List.flatten_append]
  conv_rhs => rw [← List.take_append_drop next s.blocks, List.drop_append, List.length_take,
    Nat.min_eq_left hnext, Nat.sub_eq_zero_of_le hcursor, List.drop_zero]

theorem Consumer.committed_append_upTo {next : ℕ} (hcursor : s.cursor ≤ next) :
    s.committed ++ s.upTo next = (s.blocks.take next).flatten := by
  rw [Consumer.committed, Consumer.upTo, ← List.flatten_append]
  conv_rhs => rw [← List.take_append_drop s.cursor (s.blocks.take next), List.take_take,
    Nat.min_eq_left hcursor]

/-- How the view stands to the log. -/
structure Tracks (f : σ → ε → σ) (x : σ) (s : Consumer σ ε) : Prop where
  cursor_le : s.cursor ≤ s.blocks.length
  idle : s.batch = none → Replays f s.rest (s.committed.foldl f x) s.view
  busy : ∀ pending next, s.batch = some (pending, next) → s.cursor ≤ next ∧ next ≤ s.blocks.length ∧
    ∃ y applied, Replays f (s.upTo next) (s.committed.foldl f x) y ∧ s.view = applied.foldl f y ∧
      applied ++ pending = s.upTo next

theorem Tracks.start (x : σ) : Tracks f x (Consumer.start x) :=
  ⟨le_rfl, fun _ => .refl, fun _ _ h => by cases h⟩

/-- A batch that stops is one more over a beginning of the log. -/
theorem Tracks.replays (h : Tracks f x s) : Replays f s.rest (s.committed.foldl f x) s.view := by
  cases hbatch : s.batch with
  | none => exact h.idle hbatch
  | some b =>
    obtain ⟨hcursor, hnext, y, applied, hy, hview, hsplit⟩ := h.busy b.1 b.2 hbatch
    rw [hview, ← Consumer.upTo_append_drop hcursor hnext]
    refine .batch hy.append (Q := b.1 ++ (s.blocks.drop b.2).flatten) ?_
    rw [← hsplit, List.append_assoc]

/-- The view at the end of a batch. -/
theorem Tracks.view_eq (hreplay : Replayable f Ready) (h : Tracks f x s)
    (hready : Ready x s.blocks.flatten) {next : ℕ} (hbatch : s.batch = some ([], next)) :
    s.view = (s.blocks.take next).flatten.foldl f x := by
  obtain ⟨hcursor, hnext, y, applied, hy, hview, hsplit⟩ := h.busy [] next hbatch
  rw [List.append_nil] at hsplit
  have hbatchReady : Ready (s.committed.foldl f x) (s.upTo next) := by
    apply hreplay.advance
    rw [Consumer.committed_append_upTo hcursor]
    refine hreplay.shrink (Q := (s.blocks.drop next).flatten) ?_
    rwa [← List.flatten_append, List.take_append_drop]
  rw [hview, hsplit, (hy.ready hreplay hbatchReady).2, ← List.foldl_append,
    Consumer.committed_append_upTo hcursor]

/-- New blocks come after everything that a batch reads. -/
theorem Tracks.append (h : Tracks f x s) (block : List ε) :
    Tracks f x { s with blocks := s.blocks ++ [block] } := by
  have hcommitted : Consumer.committed { s with blocks := s.blocks ++ [block] } = s.committed := by
    simp only [Consumer.committed, List.take_append_of_le_length h.cursor_le]
  refine ⟨?_, fun hidle => ?_, fun pending next hbusy => ?_⟩
  · simp only [List.length_append]
    exact h.cursor_le.trans (Nat.le_add_right _ _)
  · have hrest : Consumer.rest { s with blocks := s.blocks ++ [block] } = s.rest ++ block := by
      simp only [Consumer.rest, List.drop_append, Nat.sub_eq_zero_of_le h.cursor_le, List.drop_zero,
        List.flatten_append, List.flatten_cons, List.flatten_nil, List.append_nil]
    rw [hcommitted, hrest]
    exact (h.idle hidle).append
  · obtain ⟨hcursor, hnext, hview⟩ := h.busy pending next hbusy
    refine ⟨hcursor, ?_, ?_⟩
    · simp only [List.length_append]
      exact hnext.trans (Nat.le_add_right _ _)
    · have hupTo : Consumer.upTo { s with blocks := s.blocks ++ [block] } next = s.upTo next := by
        simp only [Consumer.upTo, List.take_append_of_le_length hnext]
      rwa [hcommitted, hupTo]

theorem Tracks.step (hreplay : Replayable f Ready) (h : Tracks f x s)
    (hready : Ready x s.blocks.flatten) {a : ConsumerAction ε} (hstep : step f s a = some t) :
    Tracks f x t := by
  cases a with
  | append block =>
    cases hstep
    exact h.append block
  | poll =>
    simp only [LogConsumers.step] at hstep
    split at hstep
    case h_1 => cases hstep
    case h_2 hidle =>
      cases hstep
      refine ⟨h.cursor_le, fun hbusy => (by cases hbusy), fun pending next hbatch => ?_⟩
      cases hbatch
      refine ⟨h.cursor_le, le_rfl, s.view, [], ?_, rfl, ?_⟩
      · have hrest := Consumer.upTo_append_drop h.cursor_le le_rfl
        rw [List.drop_length, List.flatten_nil, List.append_nil] at hrest
        have hreplays := h.idle hidle
        rwa [← hrest] at hreplays
      · simp only [Consumer.upTo, List.take_length, List.nil_append]
  | applyNext =>
    simp only [LogConsumers.step] at hstep
    split at hstep
    case h_1 e rest next hbatch =>
      cases hstep
      obtain ⟨hcursor, hnext, y, applied, hy, hview, hsplit⟩ := h.busy _ _ hbatch
      refine ⟨h.cursor_le, fun hidle => (by cases hidle), fun pending next' hbatch' => ?_⟩
      cases hbatch'
      refine ⟨hcursor, hnext, y, applied ++ [e], hy, ?_, ?_⟩
      · rw [List.foldl_append, ← hview]
        rfl
      · rw [List.append_assoc]
        exact hsplit
    case h_2 => cases hstep
  | commit =>
    simp only [LogConsumers.step] at hstep
    split at hstep
    case h_1 next hbatch =>
      cases hstep
      obtain ⟨-, hnext, -⟩ := h.busy _ _ hbatch
      refine ⟨hnext, fun _ => ?_, fun _ _ hbusy => (by cases hbusy)⟩
      have hview := h.view_eq hreplay hready hbatch
      dsimp only [Consumer.committed]
      rw [← hview]
      exact .refl
    case h_2 => cases hstep
  | stop =>
    cases hstep
    exact ⟨h.cursor_le, fun _ => h.replays, fun _ _ hbusy => by cases hbusy⟩

/-! ## Records

A view of one record, which the first event that inserts it makes and later ones patch.
-/

section Records

variable {ρ μ : Type}

inductive RecordChange (ρ μ : Type)
  | insert (r : ρ)
  | patch (p : μ)
  | keep

/-- A record that is there is not inserted again, and one that is not there is not patched. -/
def RecordChange.apply [SMul μ ρ] (x : Option ρ) : RecordChange ρ μ → Option ρ
  | .insert r => x.or (some r)
  | .patch p => x.map fun r => p • r
  | .keep => x

def inserted : List (RecordChange ρ μ) → Option ρ
  | [] => none
  | .insert r :: _ => some r
  | _ :: rest => inserted rest

def netPatch [Monoid μ] : List (RecordChange ρ μ) → μ
  | [] => 1
  | .patch p :: rest => netPatch rest * p
  | _ :: rest => netPatch rest

/-- No patch comes before the record. -/
def Patchable [SMul μ ρ] : Option ρ → List (RecordChange ρ μ) → Prop
  | _, [] => True
  | x, .patch p :: rest => x.isSome ∧ Patchable (RecordChange.apply x (.patch p)) rest
  | x, change :: rest => Patchable (change.apply x) rest

theorem patchable_append [SMul μ ρ] {x : Option ρ} {P Q : List (RecordChange ρ μ)} :
    Patchable x (P ++ Q) ↔ Patchable x P ∧ Patchable (P.foldl RecordChange.apply x) Q := by
  induction P generalizing x with
  | nil => exact ⟨fun h => ⟨trivial, h⟩, And.right⟩
  | cons change P ih =>
    cases change with
    | insert r => exact ih
    | keep => exact ih
    | patch p =>
      rw [List.cons_append, Patchable, ih, ← and_assoc]
      rfl

theorem patchable_some [SMul μ ρ] (r : ρ) (L : List (RecordChange ρ μ)) : Patchable (some r) L := by
  induction L generalizing r with
  | nil => trivial
  | cons change L ih =>
    cases change with
    | insert r' => exact ih r
    | keep => exact ih r
    | patch p => exact ⟨rfl, ih _⟩

theorem inserted_append (P Q : List (RecordChange ρ μ)) :
    inserted (P ++ Q) = (inserted P).or (inserted Q) := by
  induction P with
  | nil => rfl
  | cons change P ih =>
    cases change with
    | insert r => rfl
    | keep => exact ih
    | patch p => exact ih

theorem netPatch_append [Monoid μ] (P Q : List (RecordChange ρ μ)) :
    netPatch (P ++ Q) = netPatch Q * netPatch P := by
  induction P with
  | nil => exact (mul_one _).symm
  | cons change P ih =>
    cases change with
    | insert r => exact ih
    | keep => exact ih
    | patch p => rw [List.cons_append, netPatch, netPatch, ih, mul_assoc]

variable [Monoid μ] [MulAction μ ρ]

theorem foldl_apply_some (r : ρ) (L : List (RecordChange ρ μ)) :
    L.foldl RecordChange.apply (some r) = some (netPatch L • r) := by
  induction L generalizing r with
  | nil => exact congrArg some (one_smul μ r).symm
  | cons change L ih =>
    cases change with
    | insert r' => exact ih r
    | keep => exact ih r
    | patch p => rw [List.foldl_cons, netPatch, mul_smul, ← ih]; rfl

theorem foldl_apply {x : Option ρ} {L : List (RecordChange ρ μ)} (h : Patchable x L) :
    L.foldl RecordChange.apply x = (x.or (inserted L)).map fun r => netPatch L • r := by
  cases x with
  | some r => exact foldl_apply_some r L
  | none =>
    induction L with
    | nil => rfl
    | cons change L ih =>
      cases change with
      | insert r => exact foldl_apply_some r L
      | keep => exact ih h
      | patch p => cases h.1

/-- Patches that can be repeated make a record that can be replayed. -/
theorem replayable_apply (hagain : ∀ (p : μ) (r : ρ), p • p • r = p • r) :
    Replayable (RecordChange.apply : Option ρ → RecordChange ρ μ → Option ρ) Patchable := by
  have again {x : Option ρ} {P Q : List (RecordChange ρ μ)} (h : Patchable x (P ++ Q)) :
      Patchable (P.foldl RecordChange.apply x) (P ++ Q) := by
    cases hx : P.foldl RecordChange.apply x with
    | some r => exact patchable_some r _
    | none =>
      rw [foldl_apply (patchable_append.mp h).1, Option.map_eq_none_iff, Option.or_eq_none_iff] at hx
      rwa [← hx.1]
  refine ⟨fun {x P Q} h => ?_, again, fun h => (patchable_append.mp h).2,
    fun h => (patchable_append.mp h).1⟩
  rw [foldl_apply (again h), foldl_apply h, foldl_apply (patchable_append.mp h).1, inserted_append,
    netPatch_append]
  cases hfirst : x.or (inserted P) with
  | none =>
    obtain ⟨rfl, hnone⟩ := Option.or_eq_none_iff.mp hfirst
    rw [hnone]
    rfl
  | some r =>
    have hall : x.or ((inserted P).or (inserted Q)) = some r := by
      rw [← Option.or_assoc, hfirst, Option.some_or]
    rw [hall]
    simp only [Option.map_some, Option.some_or, mul_smul, hagain]

end Records

end WorldZk.LogConsumers
