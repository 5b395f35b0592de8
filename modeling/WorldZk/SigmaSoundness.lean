import WorldZk.GroupBackends

/-!
# Special soundness of the two sigma protocols

In a group of prime order, two accepted responses to the same first messages give openings of the
commitments. For `verify_podp` they are a vector and its inner product with the public vector, for
`verify_proof_of_product` two scalars and their product. The extracted values are those that the
protocols of `PedersenCommitments` give for the responses of the two proofs.
-/

namespace WorldZk.SigmaSoundness

open CheckedRuns Bn254Moduli FieldArithmetic PoseidonSponge ProofTypes VerifierBackend
open CommittedSumcheck TensorProducts PedersenCommitments GroupBackends
open scoped NamedInstances

/-- The responses of a dot-product proof. -/
def podpResponses (podp : PODPProof) : List ℕ := podp.zVector ++ [podp.zDelta, podp.zBeta]

/-- The responses of a product proof. -/
def popResponses (pop : ProofOfProduct) : List ℕ := [pop.z1, pop.z2, pop.z3, pop.z4, pop.z5]

/-- Two dot-product proofs begin with the same messages, which are group elements. -/
structure SameMasks {G : Type*} (encode : G → G1Point) (podp podp' : PODPProof) : Prop where
  commitD : podp'.commitD = podp.commitD
  commitDDotA : podp'.commitDDotA = podp.commitDDotA
  elements : ∃ D E, podp.commitD = encode D ∧ podp.commitDDotA = encode E

/-- Two product proofs begin with the same messages, which are group elements. -/
structure SameAnnouncement {G : Type*} (encode : G → G1Point) (pop pop' : ProofOfProduct) :
    Prop where
  alpha : pop'.alpha = pop.alpha
  beta : pop'.beta = pop.beta
  delta : pop'.delta = pop.delta
  elements : ∃ A B D, pop.alpha = encode A ∧ pop.beta = encode B ∧ pop.delta = encode D

section Soundness

variable {b : Backend} {r : ℕ} [Fact r.Prime] {G : Type*} [AddCommGroup G] [Module (ZMod r) G]
  {encode : G → G1Point}

theorem words_podpResponses {podp : PODPProof} (h : Words (podpResponses podp)) :
    Words podp.zVector ∧ podp.zDelta < WORD ∧ podp.zBeta < WORD := by
  refine ⟨fun w hw => h w (List.mem_append_left _ hw), h _ ?_, h _ ?_⟩
  · exact List.mem_append_right _ List.mem_cons_self
  · exact List.mem_append_right _ (List.mem_cons_of_mem _ List.mem_cons_self)

/-- Two responses that `verify_podp` accepts, for the same first messages and different
challenges, open the commitments: the vector is the difference of the responses over the difference
of the challenges, and its inner product with the public vector is the scalar. -/
theorem podp_special_soundness (hb : ComputesIn b r encode) {gs : List G} {g h X Y : G}
    {as : List ℕ} {podp podp' : PODPProof} (hmasks : SameMasks encode podp podp')
    (hwords : Words (podpResponses podp)) (hwords' : Words (podpResponses podp')) {c c' : ℕ}
    (hc : c < WORD) (hc' : c' < WORD) (hne : (c : ZMod r) ≠ (c' : ZMod r))
    (haccept : verifyPodp b podp c (encode X) (encode Y) as
      ⟨gs.map encode, encode g, encode h⟩ = .ok true)
    (haccept' : verifyPodp b podp' c' (encode X) (encode Y) as
      ⟨gs.map encode, encode g, encode h⟩ = .ok true) :
    let xs := extractVector (c : ZMod r) c' (scalars r podp.zVector) (scalars r podp'.zVector)
    let y := extract (c : ZMod r) c' (dot (scalars r podp.zVector) (scalars r as))
      (dot (scalars r podp'.zVector) (scalars r as))
    xs.length = as.length ∧
      X = commitVector gs h xs (extract (c : ZMod r) c' podp.zDelta podp'.zDelta) ∧
      Y = commit g h y (extract (c : ZMod r) c' podp.zBeta podp'.zBeta) ∧
      dot xs (scalars r as) = y := by
  obtain ⟨commitD, commitDDotA, zs, zDelta, zBeta⟩ := podp
  obtain ⟨commitD', commitDDotA', zs', zDelta', zBeta'⟩ := podp'
  obtain ⟨rfl, rfl, D, E, rfl, rfl⟩ := hmasks
  obtain ⟨hz, hdelta, hbeta⟩ := words_podpResponses hwords
  obtain ⟨hz', hdelta', hbeta'⟩ := words_podpResponses hwords'
  obtain ⟨hlen, -, h₁⟩ := (hb.verifyPodp_iff hc hz hdelta hbeta).mp haccept
  obtain ⟨hlen', -, h₂⟩ := (hb.verifyPodp_iff hc' hz' hdelta' hbeta').mp haccept'
  intro xs y
  have hlength : zs.length = zs'.length := hlen.trans hlen'.symm
  refine ⟨?_, h₁.extract (by simpa using hlength) hne h₂⟩
  rw [length_extractVector, length_scalars, length_scalars]
  omega

theorem verifyProofOfProduct_true {pop : ProofOfProduct} {comX comY comZ : G1Point}
    {gens : PedersenGens} {s t : Sponge}
    (h : verifyProofOfProduct b pop comX comY comZ gens s = .ok (true, t)) :
    popCheckEquations b pop comX comY comZ gens (absorbPop b pop s).1 = .ok true := by
  simp only [verifyProofOfProduct, bind_eq_ok, pure_eq_ok, Prod.mk.injEq] at h
  obtain ⟨valid, hvalid, rfl, -⟩ := h
  exact hvalid

omit [Fact r.Prime] [Module (ZMod r) G] in
theorem absorbPop_lt (hb : ComputesIn b r encode) (pop : ProofOfProduct) (s : Sponge) :
    (absorbPop b pop s).1 < r := by
  have hchallenge := hb.challenge_lt (absorbPoint b (absorbPoint b (absorbPoint b s pop.alpha)
    pop.beta) pop.delta)
  exact hchallenge

/-- Two product proofs that `verify_proof_of_product` accepts, for the same first messages and
different challenges, open the three commitments, the third one to the product of the others. Any
other openings have the product too, or they give a relation between the generators. -/
theorem pop_special_soundness (hb : ComputesIn b r encode) {gens : List G1Point} {g h X Y Z : G}
    {pop pop' : ProofOfProduct} (hsame : SameAnnouncement encode pop pop')
    (hwords : Words (popResponses pop)) (hwords' : Words (popResponses pop')) {s s' t t' : Sponge}
    (hne : (absorbPop b pop s).1 ≠ (absorbPop b pop' s').1)
    (haccept : verifyProofOfProduct b pop (encode X) (encode Y) (encode Z)
      ⟨gens, encode g, encode h⟩ s = .ok (true, t))
    (haccept' : verifyProofOfProduct b pop' (encode X) (encode Y) (encode Z)
      ⟨gens, encode g, encode h⟩ s' = .ok (true, t')) :
    (let c : ZMod r := (absorbPop b pop s).1
     let c' : ZMod r := (absorbPop b pop' s').1
     let x := extract c c' pop.z1 pop'.z1
     let rx := extract c c' pop.z2 pop'.z2
     let y := extract c c' pop.z3 pop'.z3
     X = commit g h x rx ∧ Y = commit g h y (extract c c' pop.z4 pop'.z4) ∧
       Z = commit g h (x * y) (rx * y + extract c c' pop.z5 pop'.z5)) ∧
      ∀ x rx y ry z rz : ZMod r, X = commit g h x rx → Y = commit g h y ry →
        Z = commit g h z rz → z = x * y ∨ ∃ u w : ZMod r, (u ≠ 0 ∨ w ≠ 0) ∧ u • g + w • h = 0 := by
  have hlt := absorbPop_lt hb pop s
  have hlt' := absorbPop_lt hb pop' s'
  have hequations := verifyProofOfProduct_true haccept
  have hequations' := verifyProofOfProduct_true haccept'
  generalize (absorbPop b pop s).1 = c at hne hlt hequations ⊢
  generalize (absorbPop b pop' s').1 = c' at hne hlt' hequations' ⊢
  obtain ⟨alpha, beta, delta, z₁, z₂, z₃, z₄, z₅⟩ := pop
  obtain ⟨alpha', beta', delta', z₁', z₂', z₃', z₄', z₅'⟩ := pop'
  obtain ⟨rfl, rfl, rfl, A, B, D, rfl, rfl, rfl⟩ := hsame
  have h₁ := (hb.popCheckEquations_iff (hlt.trans hb.lt_word) hwords).mp hequations
  have h₂ := (hb.popCheckEquations_iff (hlt'.trans hb.lt_word) hwords').mp hequations'
  have hne' : (c : ZMod r) ≠ c' := by
    intro heq
    rw [ZMod.natCast_eq_natCast_iff'] at heq
    rw [Nat.mod_eq_of_lt hlt, Nat.mod_eq_of_lt hlt'] at heq
    exact hne heq
  obtain ⟨hX, hY, hZ⟩ := h₁.extract hne' h₂
  refine ⟨⟨hX, hY, hZ⟩, fun x rx y ry z rz hx hy hz => ?_⟩
  rcases commit_eq_or_relation (hX.symm.trans hx) with ⟨hxeq, -⟩ | hrelation
  · rcases commit_eq_or_relation (hY.symm.trans hy) with ⟨hyeq, -⟩ | hrelation
    · rcases commit_eq_or_relation (hZ.symm.trans hz) with ⟨hzeq, -⟩ | hrelation
      · rw [← hzeq, ← hxeq, ← hyeq]
        exact .inl rfl
      · exact .inr hrelation
    · exact .inr hrelation
  · exact .inr hrelation

end Soundness

/-! ## Honest proofs -/

section Honest

variable {b : Backend} {r : ℕ} [Fact r.Prime] {G : Type*} [AddCommGroup G] [Module (ZMod r) G]
  {encode : G → G1Point}

theorem words_honestPodp (hb : ComputesIn b r encode) (gs : List G) (g h : G) (as : List (ZMod r))
    (c : ℕ) (xs ds : List (ZMod r)) (rx rd ry re : ZMod r) :
    Words (podpResponses (honestPodp encode gs g h as c xs ds rx rd ry re)) := by
  have hwords := hb.words_words (blend (c : ZMod r) 1 xs ds ++ [c * rx + rd, c * ry + re])
  rw [words, List.map_append] at hwords
  exact hwords

theorem words_honestPop (hb : ComputesIn b r encode) (g h : G) (c : ℕ)
    (x rx y ry rz a ra m rb rd : ZMod r) :
    Words (popResponses (honestPop encode g h c x rx y ry rz a ra m rb rd)) :=
  hb.words_words [c * x + a, c * rx + ra, c * y + m, c * ry + rb, c * (rz - rx * y) + rd]

/-- A prover that answers the challenge of the transcript is accepted. -/
theorem verifyProofOfProduct_honest (hb : ComputesIn b r encode) (gens : List G1Point) (g h : G)
    (x rx y ry rz a ra m rb rd : ZMod r) (s : Sponge) :
    ∃ c t, (absorbPop b (honestPop encode g h c x rx y ry rz a ra m rb rd) s).1 = c ∧
      verifyProofOfProduct b (honestPop encode g h c x rx y ry rz a ra m rb rd)
        (encode (commit g h x rx)) (encode (commit g h y ry)) (encode (commit g h (x * y) rz))
        ⟨gens, encode g, encode h⟩ s = .ok (true, t) := by
  -- The challenge is squeezed before the responses are absorbed.
  obtain ⟨c, hc⟩ : ∃ c,
    (absorbPop b (honestPop encode g h 0 x rx y ry rz a ra m rb rd) s).1 = c := ⟨_, rfl⟩
  have hchallenge : (absorbPop b (honestPop encode g h c x rx y ry rz a ra m rb rd) s).1 = c := hc
  have hlt := absorbPop_lt hb (honestPop encode g h c x rx y ry rz a ra m rb rd) s
  rw [hchallenge] at hlt
  have hequations := hb.popCheckEquations_honest gens g h (hlt.trans hb.lt_word) x rx y ry rz a ra m
    rb rd
  refine ⟨c, (absorbPop b (honestPop encode g h c x rx y ry rz a ra m rb rd) s).2, hchallenge, ?_⟩
  simp only [verifyProofOfProduct, hchallenge, hequations]
  rfl

end Honest

/-! ## On the curve -/

section Native

open NativeCurve ZkmlVerifier

/-- A prover that knows the vector `[3]`, and answers for the public vector `[2]`. -/
def samplePodp (c : ℕ) : PODPProof :=
  honestPodp encode [generator] generator (2 • generator) (scalars FR_MOD [2]) c [3] [5] 1 2 3 4

theorem podp_special_soundness_native :
    ∃ (xs : List (ZMod FR_MOD)) (y rx ry : ZMod FR_MOD), xs.length = 1 ∧
      commitVector [generator] (2 • generator) [(3 : ZMod FR_MOD)] 1 =
        commitVector [generator] (2 • generator) xs rx ∧
      commit generator (2 • generator) (dot [(3 : ZMod FR_MOD)] (scalars FR_MOD [2])) 3 =
        commit generator (2 • generator) y ry ∧ dot xs (scalars FR_MOD [2]) = y := by
  have haccept : ∀ c < WORD, verifyPodp zkmlBackend (samplePodp c) c
      (encode (commitVector [generator] (2 • generator) [(3 : ZMod FR_MOD)] 1))
      (encode (commit generator (2 • generator) (dot [(3 : ZMod FR_MOD)] (scalars FR_MOD [2])) 3))
      [2] ⟨[generator].map encode, encode generator, encode (2 • generator)⟩ = .ok true :=
    fun c hc => zkml_computesIn.verifyPodp_honest _ _ hc rfl rfl le_rfl 1 2 3 4
  have hwords : ∀ c, Words (podpResponses (samplePodp c)) := fun c =>
    words_honestPodp zkml_computesIn _ _ _ _ _ _ _ _ _ _ _
  have hne : ((5 : ℕ) : ZMod FR_MOD) ≠ ((7 : ℕ) : ZMod FR_MOD) := by decide
  have hfive : 5 < WORD := by decide
  have hseven : 7 < WORD := by decide
  have hmasks : SameMasks encode (samplePodp 5) (samplePodp 7) := ⟨rfl, rfl, _, _, rfl, rfl⟩
  have hopened := podp_special_soundness zkml_computesIn hmasks (hwords 5) (hwords 7) hfive
    hseven hne (haccept 5 hfive) (haccept 7 hseven)
  exact ⟨_, _, _, _, hopened⟩

/-- A prover that knows the openings of `3`, `5` and `15`, without masks. -/
def samplePop (c : ℕ) : ProofOfProduct :=
  honestPop encode generator (2 • generator) c (3 : ZMod FR_MOD) 1 5 2 3 0 0 0 0 0

theorem absorbPop_samplePop (c : ℕ) (s : Sponge) :
    (absorbPop zkmlBackend (samplePop c) s).1 =
      (absorbPop zkmlBackend ⟨G1Point.INFINITY, G1Point.INFINITY, G1Point.INFINITY, 0, 0, 0, 0, 0⟩
        s).1 := by
  have hzero : ∀ g h : G1, encode (commit g h (0 : ZMod FR_MOD) 0) = G1Point.INFINITY := by
    intro g h
    rw [commit_zero, encode_zero]
  simp only [absorbPop, samplePop, honestPop, hzero]

theorem pop_special_soundness_native :
    ∃ x rx y ry rz : ZMod FR_MOD,
      commit generator (2 • generator) (3 : ZMod FR_MOD) 1 =
        commit generator (2 • generator) x rx ∧
      commit generator (2 • generator) (5 : ZMod FR_MOD) 2 =
        commit generator (2 • generator) y ry ∧
      commit generator (2 • generator) (3 * 5 : ZMod FR_MOD) 3 =
        commit generator (2 • generator) (x * y) rz := by
  obtain ⟨c, t, hc, ht⟩ := verifyProofOfProduct_honest zkml_computesIn [] generator
    (2 • generator) (3 : ZMod FR_MOD) 1 5 2 3 0 0 0 0 0 init
  obtain ⟨c', t', hc', ht'⟩ := verifyProofOfProduct_honest zkml_computesIn [] generator
    (2 • generator) (3 : ZMod FR_MOD) 1 5 2 3 0 0 0 0 0 (absorb rustOps init 1)
  have hne : (absorbPop zkmlBackend (samplePop c) init).1 ≠
      (absorbPop zkmlBackend (samplePop c') (absorb rustOps init 1)).1 := by
    rw [absorbPop_samplePop, absorbPop_samplePop]
    decide +kernel
  have hsame : SameAnnouncement encode (samplePop c) (samplePop c') :=
    ⟨rfl, rfl, rfl, commit generator (2 • generator) (0 : ZMod FR_MOD) 0,
      commit generator (2 • generator) (0 : ZMod FR_MOD) 0,
      commit (commit generator (2 • generator) (3 : ZMod FR_MOD) 1) (2 • generator)
        (0 : ZMod FR_MOD) 0, rfl, rfl, rfl⟩
  have hopened := (pop_special_soundness zkml_computesIn hsame
    (words_honestPop zkml_computesIn _ _ _ _ _ _ _ _ _ _ _ _ _)
    (words_honestPop zkml_computesIn _ _ _ _ _ _ _ _ _ _ _ _ _) hne ht ht').1
  exact ⟨_, _, _, _, _, hopened⟩

end Native

end WorldZk.SigmaSoundness
