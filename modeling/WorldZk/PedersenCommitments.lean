import WorldZk.TensorProducts
import Mathlib.Algebra.Module.Basic
import Mathlib.Tactic.FieldSimp
import Mathlib.Tactic.LinearCombination
import Mathlib.Tactic.Module

/-!
# Pedersen commitments and two sigma protocols about them

Commitments in a vector space over a field of scalars, to one scalar and to a vector. A prover
masks what it has committed to: the response to a challenge `c` is `c` times the value plus the
mask. Two responses to the same mask give the value back, so an accepted proof of a dot product or
of a product can only come from values that satisfy it.
-/

namespace WorldZk.PedersenCommitments

open TensorProducts

variable {F : Type} [Field F] {G : Type*} [AddCommGroup G] [Module F G]

/-! ## Combinations -/

/-- `a • xs + b • ys`, entry by entry. -/
def blend (a b : F) (xs ys : List F) : List F := xs.zipWith (fun x y => a * x + b * y) ys

/-- The sum of the generators, weighed by the scalars. -/
def combine (gs : List G) (xs : List F) : G := (xs.zipWith (· • ·) gs).sum

@[simp] theorem combine_nil (gs : List G) : combine gs ([] : List F) = 0 := rfl

@[simp] theorem combine_cons (g : G) (gs : List G) (x : F) (xs : List F) :
    combine (g :: gs) (x :: xs) = x • g + combine gs xs := by
  rw [combine, List.zipWith_cons_cons, List.sum_cons, combine]

@[simp] theorem length_blend (a b : F) (xs ys : List F) :
    (blend a b xs ys).length = min xs.length ys.length := List.length_zipWith

theorem combine_take (gs : List G) (xs : List F) :
    combine (gs.take xs.length) xs = combine gs xs := by
  induction xs generalizing gs with
  | nil => rfl
  | cons x xs ih =>
    cases gs with
    | nil => rfl
    | cons g gs => rw [List.length_cons, List.take_succ_cons, combine_cons, combine_cons, ih]

theorem combine_append {gs : List G} {xs : List F} (h : gs.length = xs.length) (gs' : List G)
    (xs' : List F) : combine (gs ++ gs') (xs ++ xs') = combine gs xs + combine gs' xs' := by
  rw [combine, List.zipWith_append h.symm, List.sum_append, combine, combine]

theorem combine_append_right (gs : List G) (xs ys : List F) :
    combine gs (xs ++ ys) = combine gs xs + combine (gs.drop xs.length) ys := by
  induction xs generalizing gs with
  | nil => simp
  | cons x xs ih =>
    cases gs with
    | nil => simp [combine]
    | cons g gs =>
      rw [List.cons_append, combine_cons, ih, combine_cons, List.length_cons, List.drop_succ_cons,
        add_assoc]

theorem combine_blend {gs : List G} (a b : F) {xs ys : List F} (hlen : xs.length = ys.length) :
    combine gs (blend a b xs ys) = a • combine gs xs + b • combine gs ys := by
  induction xs generalizing gs ys with
  | nil =>
    obtain rfl := List.eq_nil_of_length_eq_zero hlen.symm
    simp [blend]
  | cons x xs ih =>
    obtain ⟨y, ys, rfl⟩ := List.exists_cons_of_length_eq_add_one hlen.symm
    cases gs with
    | nil => simp [combine]
    | cons g gs =>
      have hrest := @ih gs ys (by simpa using hlen)
      rw [blend] at hrest
      rw [blend, List.zipWith_cons_cons, combine_cons, hrest, combine_cons, combine_cons]
      module

theorem dot_blend (a b : F) {xs ys : List F} (hlen : xs.length = ys.length) (zs : List F) :
    dot (blend a b xs ys) zs = a * dot xs zs + b * dot ys zs := by
  induction xs generalizing zs ys with
  | nil =>
    obtain rfl := List.eq_nil_of_length_eq_zero hlen.symm
    simp [blend]
  | cons x xs ih =>
    obtain ⟨y, ys, rfl⟩ := List.exists_cons_of_length_eq_add_one hlen.symm
    cases zs with
    | nil => simp [dot]
    | cons z zs =>
      have hrest := @ih ys (by simpa using hlen) zs
      rw [blend] at hrest
      rw [blend, List.zipWith_cons_cons, dot_cons, hrest, dot_cons, dot_cons]
      ring

/-! ## Commitments -/

/-- The commitment to a scalar. -/
def commit (g h : G) (x r : F) : G := x • g + r • h

/-- The commitment to a vector. -/
def commitVector (gs : List G) (h : G) (xs : List F) (r : F) : G := combine gs xs + r • h

@[simp] theorem commit_zero (g h : G) : commit g h (0 : F) 0 = 0 := by
  rw [commit, zero_smul, zero_smul, add_zero]

theorem commit_blend (g h : G) (a b x r y s : F) :
    commit g h (a * x + b * y) (a * r + b * s) = a • commit g h x r + b • commit g h y s := by
  simp only [commit]
  module

theorem commitVector_blend (gs : List G) (h : G) (a b r s : F) {xs ys : List F}
    (hlen : xs.length = ys.length) :
    commitVector gs h (blend a b xs ys) (a * r + b * s) =
      a • commitVector gs h xs r + b • commitVector gs h ys s := by
  rw [commitVector, combine_blend a b hlen, commitVector, commitVector]
  module

/-- Two openings of one commitment are the same, or they give a relation between the
generators. -/
theorem commit_eq_or_relation {g h : G} {x r y s : F} (heq : commit g h x r = commit g h y s) :
    (x = y ∧ r = s) ∨ ∃ u w : F, (u ≠ 0 ∨ w ≠ 0) ∧ u • g + w • h = 0 := by
  by_cases hsame : x = y ∧ r = s
  · exact .inl hsame
  · refine .inr ⟨x - y, r - s, ?_, ?_⟩
    · rw [sub_ne_zero, sub_ne_zero]
      exact not_and_or.mp hsame
    · have hzero : commit g h x r - commit g h y s = 0 := sub_eq_zero.mpr heq
      rw [← hzero, commit, commit]
      module

/-! ## Extraction -/

/-- The value behind the responses `z` and `z'` to the challenges `c` and `c'`. -/
def extract (c c' z z' : F) : F := (z - z') / (c - c')

def extractVector (c c' : F) (zs zs' : List F) : List F := zs.zipWith (extract c c') zs'

section Extraction

variable {c c' : F}

theorem extract_eq (z z' : F) :
    extract c c' z z' = (c - c')⁻¹ * z + -(c - c')⁻¹ * z' := by
  rw [extract, div_eq_inv_mul]
  ring

theorem extractVector_eq (zs zs' : List F) :
    extractVector c c' zs zs' = blend (c - c')⁻¹ (-(c - c')⁻¹) zs zs' := by
  rw [extractVector, blend]
  congr 1
  funext z z'
  exact extract_eq z z'

@[simp] theorem length_extractVector (zs zs' : List F) :
    (extractVector c c' zs zs').length = min zs.length zs'.length := List.length_zipWith

/-- What two challenges have in common is the difference of the answers. -/
theorem eq_of_answers {C D V V' : G} (hne : c ≠ c') (h : c • C + D = V) (h' : c' • C + D = V') :
    C = (c - c')⁻¹ • V + -(c - c')⁻¹ • V' := by
  have hunit : c - c' ≠ 0 := sub_ne_zero.mpr hne
  have hdiff : (c - c') • C = V - V' := by
    rw [← h, ← h']
    module
  have hscaled : (c - c')⁻¹ • ((c - c') • C) = C := inv_smul_smul₀ hunit C
  rw [← hscaled, hdiff]
  module

end Extraction

/-! ## The proof of a dot product -/

/-- The two equations for the commitments `X` to a vector and `Y` to a scalar, with the masks `D`
and `E`. -/
structure DotProductAccepted (gs : List G) (g h X Y D E : G) (as : List F) (c : F) (zs : List F)
    (zDelta zBeta : F) : Prop where
  vector : c • X + D = commitVector gs h zs zDelta
  value : c • Y + E = commit g h (dot zs as) zBeta

section DotProduct

variable {gs : List G} {g h X Y D E : G} {as zs zs' : List F}
  {c c' zDelta zDelta' zBeta zBeta' : F}

/-- Two accepted responses with the same masks open both commitments, to a vector and its product
with `as`. -/
theorem DotProductAccepted.extract (hlen : zs.length = zs'.length) (hne : c ≠ c')
    (h₁ : DotProductAccepted gs g h X Y D E as c zs zDelta zBeta)
    (h₂ : DotProductAccepted gs g h X Y D E as c' zs' zDelta' zBeta') :
    X = commitVector gs h (extractVector c c' zs zs')
        (PedersenCommitments.extract c c' zDelta zDelta') ∧
      Y = commit g h (PedersenCommitments.extract c c' (dot zs as) (dot zs' as))
        (PedersenCommitments.extract c c' zBeta zBeta') ∧
      dot (extractVector c c' zs zs') as =
        PedersenCommitments.extract c c' (dot zs as) (dot zs' as) := by
  refine ⟨?_, ?_, ?_⟩
  · rw [extractVector_eq, extract_eq, commitVector_blend gs h _ _ _ _ hlen]
    exact eq_of_answers hne h₁.vector h₂.vector
  · rw [extract_eq, extract_eq, commit_blend]
    exact eq_of_answers hne h₁.value h₂.value
  · rw [extractVector_eq, extract_eq, dot_blend _ _ hlen]

/-- The honest response is accepted. -/
theorem DotProductAccepted.respond {xs ds : List F} (hlen : xs.length = ds.length)
    (rx rd ry re : F) :
    DotProductAccepted gs g h (commitVector gs h xs rx) (commit g h (dot xs as) ry)
      (commitVector gs h ds rd) (commit g h (dot ds as) re) as c (blend c 1 xs ds)
      (c * rx + rd) (c * ry + re) where
  vector := by
    have hblend := commitVector_blend gs h c 1 rx rd hlen
    rw [one_mul, one_smul] at hblend
    exact hblend.symm
  value := by
    have hblend := commit_blend g h c 1 (dot xs as) ry (dot ds as) re
    rw [← dot_blend c 1 hlen, one_mul, one_smul] at hblend
    exact hblend.symm

end DotProduct

/-! ## The proof of a product -/

/-- The three equations for the commitments `X`, `Y` and `Z`, with the masks `A`, `B` and `D`. The
third one commits with `X` as a generator. -/
structure ProductAccepted (g h X Y Z A B D : G) (c z₁ z₂ z₃ z₄ z₅ : F) : Prop where
  left : c • X + A = commit g h z₁ z₂
  right : c • Y + B = commit g h z₃ z₄
  product : c • Z + D = commit X h z₃ z₅

section Product

variable {g h X Y Z A B D : G} {c c' z₁ z₂ z₃ z₄ z₅ z₁' z₂' z₃' z₄' z₅' : F}

theorem commit_commit (g h : G) (x r y s : F) :
    commit (commit g h x r) h y s = commit g h (x * y) (r * y + s) := by
  simp only [commit]
  module

/-- Two accepted responses with the same masks open the three commitments, the third one to the
product. -/
theorem ProductAccepted.extract (hne : c ≠ c')
    (h₁ : ProductAccepted g h X Y Z A B D c z₁ z₂ z₃ z₄ z₅)
    (h₂ : ProductAccepted g h X Y Z A B D c' z₁' z₂' z₃' z₄' z₅') :
    let x := PedersenCommitments.extract c c' z₁ z₁'
    let r := PedersenCommitments.extract c c' z₂ z₂'
    let y := PedersenCommitments.extract c c' z₃ z₃'
    X = commit g h x r ∧ Y = commit g h y (PedersenCommitments.extract c c' z₄ z₄') ∧
      Z = commit g h (x * y) (r * y + PedersenCommitments.extract c c' z₅ z₅') := by
  intro x r y
  have hX : X = commit g h x r := by
    simp only [x, r]
    rw [extract_eq, extract_eq, commit_blend]
    exact eq_of_answers hne h₁.left h₂.left
  refine ⟨hX, ?_, ?_⟩
  · simp only [y]
    rw [extract_eq, extract_eq, commit_blend]
    exact eq_of_answers hne h₁.right h₂.right
  · rw [← commit_commit, ← hX]
    simp only [y]
    rw [extract_eq, extract_eq, commit_blend]
    exact eq_of_answers hne h₁.product h₂.product

/-- The honest response is accepted. -/
theorem ProductAccepted.respond (x rx y ry rz a ra b rb rd : F) :
    ProductAccepted g h (commit g h x rx) (commit g h y ry) (commit g h (x * y) rz)
      (commit g h a ra) (commit g h b rb) (commit (commit g h x rx) h b rd) c
      (c * x + a) (c * rx + ra) (c * y + b) (c * ry + rb) (c * (rz - rx * y) + rd) where
  left := by
    simp only [commit]
    module
  right := by
    simp only [commit]
    module
  product := by
    simp only [commit]
    module

end Product

end WorldZk.PedersenCommitments
