import WorldZk.ChunkBinding

/-!
# What the Groth16 inputs hold of the Stylus outputs

`buildGroth16Inputs` hands the outputs of the Stylus call to a Groth16 verifier with a fixed number
of inputs. Where the declared number has room for the outputs, they are all there, and since their
encoding says how long it is, the zeros behind them hide nothing. A smaller number cuts them.
-/

namespace WorldZk.BoundOutputs

open CheckedRuns Bn254Moduli FieldArithmetic ProofTypes ProofDecoding Transcript PoseidonSponge
open VerifierBackend CommittedSumcheck DagLayers InputLayers SolidityVerifier StylusVerifier
open FlatDescription DescriptionShape HybridReplay StylusHybrid

/-! ## The words of a byte string -/

/-- The words that `mload` reads at the multiples of 32, without an incomplete last one. -/
def wordsOf (bytes : List UInt8) : List ℕ :=
  (List.range (bytes.length / 32)).map fun i => beValue ((bytes.drop (32 * i)).take 32)

@[simp] theorem length_wordsOf (bytes : List UInt8) :
    (wordsOf bytes).length = bytes.length / 32 := by
  rw [wordsOf, List.length_map, List.length_range]

theorem wordsOf_append {block : List UInt8} (hblock : block.length = 32) (rest : List UInt8) :
    wordsOf (block ++ rest) = beValue block :: wordsOf rest := by
  have hcount : (block ++ rest).length / 32 = rest.length / 32 + 1 := by
    rw [List.length_append, hblock]
    omega
  rw [wordsOf, hcount, List.range_succ_eq_map, List.map_cons, List.map_map, Nat.mul_zero,
    List.drop_zero, List.take_left' hblock]
  congr 1
  apply List.map_congr_left
  intro i _
  have hdrop : (block ++ rest).drop (32 * (i + 1)) = rest.drop (32 * i) := by
    rw [List.drop_append, List.drop_eq_nil_of_le (by omega), List.nil_append]
    congr 1
    omega
  rw [Function.comp_apply, Nat.succ_eq_add_one, hdrop]

/-- What is left of words in 32 bytes each. -/
def lowWords (ws : List ℕ) : List ℕ := ws.map (· % WORD)

theorem beValue_wordToBeBytes_mod (w : ℕ) : beValue (wordToBeBytes w) = w % WORD := by
  have hvalue : beValue (wordToBeBytes w) = leValue (wordToLeBytes w) := by
    rw [beValue, wordToBeBytes, List.foldl_reverse, leValue]
  rw [hvalue, wordToLeBytes, leValue_digits]
  rfl

theorem wordToBeBytes_mod (w : ℕ) : wordToBeBytes (w % WORD) = wordToBeBytes w := by
  rw [← beValue_wordToBeBytes_mod, wordToBeBytes_beValue (length_wordToBeBytes w)]

theorem wordsOf_flatMap_wordToBeBytes (ws : List ℕ) :
    wordsOf (ws.flatMap wordToBeBytes) = lowWords ws := by
  induction ws with
  | nil => rfl
  | cons w ws ih =>
    rw [List.flatMap_cons, wordsOf_append (length_wordToBeBytes w), ih, beValue_wordToBeBytes_mod,
      lowWords, lowWords, List.map_cons]

theorem flatMap_lowWords (ws : List ℕ) :
    (lowWords ws).flatMap wordToBeBytes = ws.flatMap wordToBeBytes := by
  rw [lowWords, List.flatMap_map]
  simp only [wordToBeBytes_mod]

/-! ## The encoding of the outputs -/

/-- Three counts say how long the segments of the encoding are, so that whatever follows them, the
words of the outputs are read back. -/
theorem lowWords_frOutputWords_inj {o o' : FrOutputs} (hfit : (frOutputWords o).length < WORD)
    (hfit' : (frOutputWords o').length < WORD) {rest rest' : List ℕ}
    (h : lowWords (frOutputWords o) ++ rest = lowWords (frOutputWords o') ++ rest') :
    lowWords (frOutputWords o) = lowWords (frOutputWords o') := by
  have hcount {n n' : ℕ} (hn : n < WORD) (hn' : n' < WORD) (hmod : n % WORD = n' % WORD) :
      n = n' := by rwa [Nat.mod_eq_of_lt hn, Nat.mod_eq_of_lt hn'] at hmod
  simp only [frOutputWords, List.length_append, List.length_cons, List.length_map, List.length_nil,
    List.cons_append, List.append_assoc] at hfit hfit'
  simp only [frOutputWords, lowWords, List.map_append, List.map_cons,
    List.cons_append, List.append_assoc, List.nil_append, List.cons.injEq] at h ⊢
  obtain ⟨hlayers, h⟩ := h
  have hlayers := hcount (by omega) (by omega) hlayers
  obtain ⟨hbetas, h⟩ := List.append_inj h (by simp [hlayers])
  obtain ⟨hdots, h⟩ := List.append_inj h (by simp [hlayers])
  simp only [List.cons.injEq] at h
  obtain ⟨hgroups, htensors, h⟩ := h
  have hgroups := hcount (by omega) (by omega) hgroups
  have htensors := hcount (by omega) (by omega) htensors
  obtain ⟨hflat, h⟩ := List.append_inj h (by simp [htensors])
  obtain ⟨hzs, h⟩ := List.append_inj h (by simp [hgroups])
  simp only [List.cons.injEq] at h
  obtain ⟨hclaims, h⟩ := h
  have hclaims := hcount (by omega) (by omega) hclaims
  obtain ⟨hevals, -⟩ := List.append_inj h (by simp [hclaims])
  rw [hlayers, hbetas, hdots, hgroups, htensors, hflat, hzs, hclaims, hevals]
  exact ⟨rfl, rfl⟩

/-- Bytes that the Stylus verifier returns. -/
def StylusOutputs (frOutputs : List UInt8) : Prop :=
  ∃ outputs, frOutputs = encodeHybridFrOutputs outputs

/-- Outputs that fit a `bytes` value and whose words agree up to what follows them are the same. -/
theorem StylusOutputs.eq_of_words {bs bs' : List UInt8} (hbs : StylusOutputs bs)
    (hbs' : StylusOutputs bs') (hfit : bs.length < WORD) (hfit' : bs'.length < WORD)
    {rest rest' : List ℕ} (h : wordsOf bs ++ rest = wordsOf bs' ++ rest') : bs = bs' := by
  obtain ⟨o, rfl⟩ := hbs
  obtain ⟨o', rfl⟩ := hbs'
  simp only [encodeHybridFrOutputs, length_flatMap_wordToBeBytes, wordsOf_flatMap_wordToBeBytes]
    at hfit hfit' h ⊢
  rw [← flatMap_lowWords, ← flatMap_lowWords (frOutputWords o'),
    lowWords_frOutputWords_inj (by omega) (by omega) h]

/-! ## The inputs -/

/-- The inputs in front of the outputs: the digest and the halves of the circuit hash. -/
def inputHead (transcriptDigest circuitHash : ℕ) : List ℕ :=
  [transcriptDigest % FR_MOD, (hashToFqPair (wordToBeBytes circuitHash)).1,
    (hashToFqPair (wordToBeBytes circuitHash)).2]

section Inputs

variable {transcriptDigest circuitHash expectedCount : ℕ} {frOutputs : List UInt8}

/-- With room for the outputs, they are all there, with zeros behind them. -/
theorem buildGroth16Inputs_complete
    (hcount : expectedCount = 0 ∨ 3 + (wordsOf frOutputs).length ≤ expectedCount) :
    buildGroth16Inputs transcriptDigest circuitHash frOutputs expectedCount =
      .ok (inputHead transcriptDigest circuitHash ++ wordsOf frOutputs ++
        List.replicate (expectedCount - (3 + (wordsOf frOutputs).length)) 0) := by
  rw [length_wordsOf] at hcount ⊢
  have htotal : (if 0 < expectedCount ∧ expectedCount ≠ 3 + frOutputs.length / 32 then expectedCount
      else 3 + frOutputs.length / 32) =
        3 + frOutputs.length / 32 + (expectedCount - (3 + frOutputs.length / 32)) := by
    split <;> omega
  simp only [buildGroth16Inputs, htotal]
  rw [decide_eq_true (by omega), require_true, ok_bind, if_neg (by omega)]
  have hzeros : 3 + frOutputs.length / 32 + (expectedCount - (3 + frOutputs.length / 32)) - 3 -
      frOutputs.length / 32 = expectedCount - (3 + frOutputs.length / 32) := by omega
  rw [hzeros]
  rfl

/-- Without room for the outputs, the first of them are there. -/
theorem buildGroth16Inputs_cut (hpos : 3 ≤ expectedCount)
    (hcount : expectedCount < 3 + (wordsOf frOutputs).length) :
    buildGroth16Inputs transcriptDigest circuitHash frOutputs expectedCount =
      .ok (inputHead transcriptDigest circuitHash ++
        (wordsOf frOutputs).take (expectedCount - 3)) := by
  rw [length_wordsOf] at hcount
  have htotal : (if 0 < expectedCount ∧ expectedCount ≠ 3 + frOutputs.length / 32 then expectedCount
      else 3 + frOutputs.length / 32) = expectedCount := if_pos ⟨by omega, by omega⟩
  simp only [buildGroth16Inputs, htotal]
  rw [decide_eq_true hpos, require_true, ok_bind, if_pos hcount, Nat.sub_self, List.replicate_zero,
    List.append_nil, wordsOf, ← List.map_take, List.take_range, Nat.min_eq_left (by omega)]
  rfl

theorem buildGroth16Inputs_revert (hpos : 0 < expectedCount) (hcount : expectedCount < 3) :
    buildGroth16Inputs transcriptDigest circuitHash frOutputs expectedCount =
      .error .panicIndexOutOfBounds := by
  have htotal : (if 0 < expectedCount ∧ expectedCount ≠ 3 + frOutputs.length / 32 then expectedCount
      else 3 + frOutputs.length / 32) = expectedCount := if_pos ⟨hpos, by omega⟩
  simp only [buildGroth16Inputs, htotal]
  rw [decide_eq_false (by omega)]
  rfl

end Inputs

theorem stylusOutputs_of_call {proofData publicInputs gensData circuitDescData : List UInt8}
    {result : HybridResult}
    (h : verifyDagProofHybrid proofData publicInputs gensData circuitDescData = .ok result) :
    StylusOutputs result.frOutputs := by
  simp only [verifyDagProofHybrid, bind_eq_ok, pure_eq_ok] at h
  obtain ⟨-, -, -, -, -, -, _, -, _, -, _, -, ⟨outputs, _⟩, -, rfl⟩ := h
  exact ⟨outputs, rfl⟩

/-- What the inputs hold of the outputs of two calls of the Stylus verifier for one circuit. With
room for both outputs they hold all their words, and different outputs give different inputs,
whatever the digests. With less room they hold the first words, as many as there is room for, and
without room for the three inputs in front there are none. The outputs are `bytes` values, whose
lengths are words. -/
theorem groth16Inputs_bind_outputs {proofData proofData' publicInputs publicInputs' gensData
    gensData' circuitDescData : List UInt8} {result result' : HybridResult}
    (hcall : verifyDagProofHybrid proofData publicInputs gensData circuitDescData = .ok result)
    (hcall' : verifyDagProofHybrid proofData' publicInputs' gensData' circuitDescData = .ok result')
    (hfit : result.frOutputs.length < WORD) (hfit' : result'.frOutputs.length < WORD)
    (circuitHash expectedCount : ℕ) :
    (expectedCount = 0 ∨ 3 + (wordsOf result.frOutputs).length ≤ expectedCount →
      buildGroth16Inputs result.transcriptDigest circuitHash result.frOutputs expectedCount =
        .ok (inputHead result.transcriptDigest circuitHash ++ wordsOf result.frOutputs ++
          List.replicate (expectedCount - (3 + (wordsOf result.frOutputs).length)) 0)) ∧
    (expectedCount = 0 ∨ 3 + (wordsOf result.frOutputs).length ≤ expectedCount ∧
        3 + (wordsOf result'.frOutputs).length ≤ expectedCount →
      result.frOutputs ≠ result'.frOutputs →
      buildGroth16Inputs result.transcriptDigest circuitHash result.frOutputs expectedCount ≠
        buildGroth16Inputs result'.transcriptDigest circuitHash result'.frOutputs expectedCount) ∧
    (3 ≤ expectedCount → expectedCount < 3 + (wordsOf result.frOutputs).length →
      buildGroth16Inputs result.transcriptDigest circuitHash result.frOutputs expectedCount =
        .ok (inputHead result.transcriptDigest circuitHash ++
          (wordsOf result.frOutputs).take (expectedCount - 3))) ∧
    (0 < expectedCount → expectedCount < 3 →
      buildGroth16Inputs result.transcriptDigest circuitHash result.frOutputs expectedCount =
        .error .panicIndexOutOfBounds) := by
  refine ⟨buildGroth16Inputs_complete, fun hroom hne heq => hne ?_, buildGroth16Inputs_cut,
    buildGroth16Inputs_revert⟩
  rw [buildGroth16Inputs_complete (hroom.imp_right And.left),
    buildGroth16Inputs_complete (hroom.imp_right And.right)] at heq
  have hwords := Except.ok.inj heq
  rw [List.append_assoc, List.append_assoc] at hwords
  exact (stylusOutputs_of_call hcall).eq_of_words (stylusOutputs_of_call hcall') hfit hfit'
    (List.append_inj hwords rfl).2

/-! ## A circuit with one committed input -/

/-- One layer without rounds, whose only atom is a committed input. -/
def groupConfig : DAGCircuitConfig where
  circuitHash := 1
  description := ⟨1, 1, [0], [0], [0, 1], [1], [0], [0, 0], [], [true], [0, 0], [], []⟩
  active := true
  gensHash := 0
  hash_ne_zero := Nat.one_ne_zero
  hash_lt := one_lt_word
  abi := by decide
  checked := by decide

/-- A committed input without rows, which opens the value `z`. -/
def groupInput (z : ℕ) : DAGInputLayerProof :=
  ⟨[], [⟨G1Point.INFINITY, G1Point.INFINITY, [z], 0, 0⟩], [G1Point.INFINITY]⟩

/-- A proof at infinity with this input. -/
def groupProof (z : ℕ) : DecodedProof :=
  ⟨⟨[G1Point.INFINITY],
      [⟨⟨G1Point.INFINITY, [], ⟨G1Point.INFINITY, G1Point.INFINITY, [], 0, 0⟩⟩, [], []⟩]⟩,
    [], [groupInput z], []⟩

def groupWords (z : ℕ) : List ℕ :=
  [1, 0, 1, 0, 0, 1] ++ List.replicate 15 0 ++ [1, 0, 1, 0, 0, 0, 0, 1, z, 0, 0, 0, 0]

def groupBytes (z : ℕ) : List UInt8 := SELECTOR ++ (groupWords z).flatMap wordToBeBytes

private theorem decode_groupWords {z : ℕ} (hz : z = 0 ∨ z = FQ_MOD) :
    decodeProofForDag (decoderReader ((groupWords z).flatMap wordToBeBytes)) =
      .ok (groupProof z) := by
  rcases hz with rfl | rfl
  · rw [decoderReader_flatMap_wordToBeBytes (by decide)]
    decide
  · rw [decoderReader_flatMap_wordToBeBytes (by decide)]
    decide

private theorem decode_groupDesc :
    (decodeCircuitDescription (decoderReader (encodeFlatCircuitDesc groupConfig.description))
        (readUsizeFrom (encodeFlatCircuitDesc groupConfig.description)) (· % 2 ^ 64)).run 0 =
      .ok (groupConfig.description, (encodeFlatCircuitDesc groupConfig.description).length) := by
  refine (decode_decoderReader_iff
    (lengthsChecked_of_checkDescription groupConfig.checked) groupConfig.abi).mpr ?_
  exact ⟨by decide, by decide, by decide, by decide⟩

theorem absorb_modulus (s : Sponge) :
    absorb rustOps (squeeze rustOps s).2 FQ_MOD = absorb rustOps (squeeze rustOps s).2 0 := by
  have hsame {x : ℕ} (hx : x < FQ_MOD) : rustOps.add x FQ_MOD = rustOps.add x 0 := by
    have hadd (y : ℕ) : rustOps.add x y = fieldAdd x y FQ_MOD := rfl
    rw [hadd, hadd, fieldAdd_eq_ite FQ_MOD_lt_word hx FQ_MOD_lt_word,
      fieldAdd_eq_ite FQ_MOD_lt_word hx (by decide), if_pos (by omega), if_neg (by omega)]
    omega
  have hempty : (squeeze rustOps s).2.absorbing = 0 := by
    unfold squeeze
    simp only
    split <;> rfl
  have hlt : (squeeze rustOps s).2.s1 < FQ_MOD := squeeze_lt lawful_rustOps s
  rw [absorb, absorb, if_pos hempty, if_pos hempty, hsame hlt]

private theorem absorbPodp_groupInput {z : ℕ} (hz : z = 0 ∨ z = FQ_MOD) (s : Sponge) :
    (absorbPodp stylusBackend ⟨G1Point.INFINITY, G1Point.INFINITY, [z], 0, 0⟩ s).2 =
      (absorbPodp stylusBackend ⟨G1Point.INFINITY, G1Point.INFINITY, [0], 0, 0⟩ s).2 := by
  have hops : stylusBackend.ops = rustOps := rfl
  rcases hz with rfl | rfl
  · rfl
  · simp only [absorbPodp, absorbWords, challenge, List.foldl_cons, List.foldl_nil, hops,
      absorb_modulus]

private theorem verifyOneEvalGroupHybrid_groupInput (s : Sponge) : ∃ coeff t, ∀ z,
    z = 0 ∨ z = FQ_MOD →
    verifyOneEvalGroupHybrid stylusBackend (groupInput z) [[]] ⟨0, 0, [[0]]⟩ 0 [0] ⟨[], [], []⟩ s =
      .ok (⟨[coeff], [z % FR_MOD], []⟩, t) := by
  refine ⟨stylusBackend.add 0 (stylusBackend.mul 1 (challenge stylusBackend s).1),
    (absorbPodp stylusBackend ⟨G1Point.INFINITY, G1Point.INFINITY, [0], 0, 0⟩
      (absorbPoint stylusBackend (challenge stylusBackend s).2 G1Point.INFINITY)).2,
    fun z hz => ?_⟩
  have hcoeffs : challenges stylusBackend [0].length s =
      ([(challenge stylusBackend s).1], (challenge stylusBackend s).2) := rfl
  have hpoints : [0].mapM (getIdx [[]]) = (.ok [[]] : Checked (List (List ℕ))) := rfl
  have hrlc (c : ℕ) : computeRlcTensor stylusBackend [[]] 0 [c] =
      .ok [stylusBackend.add 0 (stylusBackend.mul 1 c)] := rfl
  have hfirst : getIdx ([[]] : List (List ℕ)) 0 = .ok [] := rfl
  have hvars : (List.range' 0 0).mapM (getIdx ([] : List ℕ)) = (.ok [] : Checked (List ℕ)) := rfl
  have htensor : initializeTensor stylusBackend [] = .ok [1] := rfl
  have heval : getIdx (groupInput z).comEvals 0 = .ok G1Point.INFINITY := rfl
  have hpodp : getIdx (groupInput z).podps 0 =
      .ok ⟨G1Point.INFINITY, G1Point.INFINITY, [z], 0, 0⟩ := rfl
  have hdot : innerProduct stylusBackend [z] [1] = .ok (z % FR_MOD) := by
    have hmod : z * 1 % FR_MOD < FR_MOD := Nat.mod_lt _ FR_MOD_prime.pos
    have hsum : stylusBackend.add 0 (stylusBackend.mul z 1) = z % FR_MOD := by
      refine (fieldAdd_eq_mod FR_MOD_lt_word FR_MOD_prime.pos hmod).trans ?_
      rw [Nat.zero_add, Nat.mod_mod, Nat.mul_one]
    rw [← hsum]
    rfl
  simp only [verifyOneEvalGroupHybrid, hcoeffs, hpoints, hrlc, hfirst, hvars, htensor, heval, hpodp,
    hdot, ok_bind]
  rw [absorbPodp_groupInput hz]
  rfl

private theorem hybridPhases_groupProof (s : Sponge) : ∃ layer coeff digest, ∀ z,
    z = 0 ∨ z = FQ_MOD →
    hybridPhases stylusBackend (groupProof z) groupConfig.description s =
      .ok (⟨[layer], ⟨[coeff], [z % FR_MOD], []⟩⟩, digest) := by
  obtain ⟨layer, ctx, t, hcompute, hbindings⟩ : ∃ layer ctx t,
      verifyComputeLayersHybrid stylusBackend (groupProof 0).gkrProof groupConfig.description s =
        .ok ([layer], ctx, t) ∧ ctx.allBindings = [[]] := ⟨_, _, _, rfl, rfl⟩
  obtain ⟨coeff, u, hgroup⟩ := verifyOneEvalGroupHybrid_groupInput t
  refine ⟨layer, coeff, (squeeze rustOps u).1, fun z hz => ?_⟩
  have hpoints : collectClaimPoints stylusBackend groupConfig.description [[]]
      (groupConfig.description.numComputeLayers + 0) = .ok [[]] := rfl
  have hplan : sortAndGroupClaims (groupInput z) [[]] = .ok ⟨0, 0, [[0]]⟩ := rfl
  have hinput : verifyInputLayersHybrid stylusBackend groupConfig.description [[]] []
      [groupInput z] [0] 0 ⟨[], [], []⟩ t = .ok (⟨[coeff], [z % FR_MOD], []⟩, u) := by
    have hcommitted : getIdx groupConfig.description.inputIsCommitted 0 = .ok true := rfl
    have hproof : getIdx [groupInput z] 0 = .ok (groupInput z) := rfl
    have hloop : verifyGroupsHybrid stylusBackend (groupInput z) [[]] ⟨0, 0, [[0]]⟩ [([0], 0)]
        ⟨[], [], []⟩ t = .ok (⟨[coeff], [z % FR_MOD], []⟩, u) := by
      rw [verifyGroupsHybrid, hgroup z hz]
      rfl
    rw [verifyInputLayersHybrid, hpoints, ok_bind, hcommitted, ok_bind, if_pos rfl, hproof, ok_bind,
      hplan, ok_bind, show [[0]].zipIdx = [([0], 0)] from rfl, hloop]
    rfl
  have hcompute' : verifyComputeLayersHybrid stylusBackend (groupProof z).gkrProof
      groupConfig.description s = .ok ([layer], ctx, t) := hcompute
  rw [hybridPhases, hcompute', ok_bind]
  simp only [hbindings]
  rw [show List.range groupConfig.description.numInputLayers = [0] from rfl,
    show (groupProof z).embeddedPubInputs = [] from rfl,
    show (groupProof z).dagInputProofs = [groupInput z] from rfl, hinput]
  rfl

/-- The result of a call, with the value that it opens. -/
def groupResult (layer : HybridLayer) (coeff digest z : ℕ) : HybridResult :=
  ⟨true, digest, encodeHybridFrOutputs ⟨[layer], ⟨[coeff], [z % FR_MOD], []⟩⟩⟩

private theorem group_calls : ∃ layer coeff digest, ∀ z, z = 0 ∨ z = FQ_MOD →
    verifyDagProofHybrid (groupBytes z) [] [] (encodeFlatCircuitDesc groupConfig.description) =
      .ok (groupResult layer coeff digest z) := by
  obtain ⟨layer, coeff, digest, hphases⟩ :=
    hybridPhases_groupProof (ZkmlVerifier.proofTranscript (wordToBeBytes 1) (groupProof 0))
  refine ⟨layer, coeff, digest, fun z hz => verifyDagProofHybrid_eq_ok.mpr ⟨?_, groupProof z, _, _,
    _, _, decode_groupWords hz, rfl, decode_groupDesc, ?_, rfl⟩⟩
  · rw [length_flatMap_wordToBeBytes]
    exact Nat.le_mul_of_pos_right 32 (by simp [groupWords])
  · have hhash : ((groupWords z).flatMap wordToBeBytes).take 32 = wordToBeBytes 1 :=
      List.take_left' (length_wordToBeBytes 1)
    rw [hhash]
    exact hphases z hz

section Results

variable {layer : HybridLayer} {coeff digest : ℕ}

private theorem length_groupResult (z : ℕ) :
    (groupResult layer coeff digest z).frOutputs.length = 256 := length_flatMap_wordToBeBytes _

private theorem wordsOf_groupResult (z : ℕ) :
    wordsOf (groupResult layer coeff digest z).frOutputs =
      lowWords [1, layer.rlcBeta, layer.zDotJStar, 1, 1, coeff, z % FR_MOD, 0] :=
  wordsOf_flatMap_wordToBeBytes _

private theorem groupResult_ne :
    (groupResult layer coeff digest 0).frOutputs ≠
      (groupResult layer coeff digest FQ_MOD).frOutputs := by
  intro h
  have hwords := congrArg (fun bytes => (wordsOf bytes)[6]?) h
  simp only [wordsOf_groupResult] at hwords
  exact absurd (Option.some.inj hwords) (by decide)

end Results

/-- With room for twelve inputs, the inputs of two calls with different outputs differ. -/
theorem twelve_inputs_differ : ∃ result result',
    verifyDagProofHybrid (groupBytes 0) [] [] (encodeFlatCircuitDesc groupConfig.description) =
        .ok result ∧
      verifyDagProofHybrid (groupBytes FQ_MOD) [] []
        (encodeFlatCircuitDesc groupConfig.description) = .ok result' ∧
      buildGroth16Inputs result.transcriptDigest 1 result.frOutputs 12 ≠
        buildGroth16Inputs result'.transcriptDigest 1 result'.frOutputs 12 := by
  obtain ⟨layer, coeff, digest, hcall⟩ := group_calls
  have hfit (z : ℕ) : (groupResult layer coeff digest z).frOutputs.length < WORD := by
    rw [length_groupResult]
    decide
  have hroom (z : ℕ) : 3 + (wordsOf (groupResult layer coeff digest z).frOutputs).length ≤ 12 := by
    rw [length_wordsOf, length_groupResult]
    decide
  have hzero := hcall 0 (.inl rfl)
  have hmodulus := hcall FQ_MOD (.inr rfl)
  exact ⟨_, _, hzero, hmodulus, (groth16Inputs_bind_outputs hzero hmodulus (hfit 0) (hfit FQ_MOD)
    1 12).2.1 (.inr ⟨hroom 0, hroom FQ_MOD⟩) groupResult_ne⟩

/-- With room for nine inputs, two calls for one circuit have the same inputs, though their
outputs differ: the opened value is cut off. -/
theorem nine_inputs_collide : ∃ result result' inputs,
    verifyDagProofHybrid (groupBytes 0) [] [] (encodeFlatCircuitDesc groupConfig.description) =
        .ok result ∧
      verifyDagProofHybrid (groupBytes FQ_MOD) [] []
        (encodeFlatCircuitDesc groupConfig.description) = .ok result' ∧
      result.frOutputs ≠ result'.frOutputs ∧
      buildGroth16Inputs result.transcriptDigest 1 result.frOutputs 9 = .ok inputs ∧
      buildGroth16Inputs result'.transcriptDigest 1 result'.frOutputs 9 = .ok inputs := by
  obtain ⟨layer, coeff, digest, hcall⟩ := group_calls
  have hcut (z : ℕ) : 9 < 3 + (wordsOf (groupResult layer coeff digest z).frOutputs).length := by
    rw [length_wordsOf, length_groupResult]
    decide
  refine ⟨_, _, _, hcall 0 (.inl rfl), hcall FQ_MOD (.inr rfl), groupResult_ne,
    buildGroth16Inputs_cut (by decide) (hcut 0), ?_⟩
  rw [buildGroth16Inputs_cut (by decide) (hcut FQ_MOD), wordsOf_groupResult, wordsOf_groupResult]
  rfl

end WorldZk.BoundOutputs
