import WorldZk.BatchRuns

/-!
# Sessions under arbitrary calls

Any interleaving of start, continue and finalize calls, by any senders and on any sessions, where
every call brings its own calldata. The contract ties the calls of a session together by nothing
but the stored session, so the guarantee is about sessions whose calls happen to bring the same
proof and generators.
-/

namespace WorldZk.BatchSoundness

open CheckedRuns PoseidonSponge ProofTypes VerifierBackend DagLayers InputLayers ProofDecoding
open FieldArithmetic Transcript Keccak256 SolidityVerifier BatchSessions BatchRefinement BatchRuns

/-! ## Runs -/

/-- What a caller brings to each call of a session. -/
structure Payload where
  proof : List UInt8
  publicInputs : List UInt8
  gensData : List UInt8
deriving DecidableEq, Repr

def Payload.calldata (p : Payload) (circuitHash : ℕ) : Calldata :=
  ⟨p.proof, circuitHash, p.publicInputs, p.gensData⟩

inductive BatchCall
  | startCall (sender blockNum circuitHash : ℕ) (p : Payload)
  | continueCall (sender sessionId : ℕ) (p : Payload)
  | finalizeCall (sender sessionId : ℕ) (p : Payload)
deriving DecidableEq, Repr

/-- The contract, and for every session what its calls brought since it was last started. -/
structure World where
  contract : BatchContract
  payloads : ℕ → List Payload

def World.init (c : Contract) : World := ⟨BatchContract.fresh c, fun _ => []⟩

/-- One call. A call that reverts changes nothing. -/
def World.step (w : World) : BatchCall → World
  | .startCall sender blockNum circuitHash p =>
    match startDAGBatchVerify w.contract sender blockNum p.proof circuitHash p.publicInputs
      p.gensData with
    | .ok (sessionId, c) => ⟨c, Function.update w.payloads sessionId [p]⟩
    | .error _ => w
  | .continueCall sender sessionId p =>
    match continueDAGBatchVerify w.contract sender sessionId p.proof p.publicInputs p.gensData with
    | .ok c => ⟨c, Function.update w.payloads sessionId (w.payloads sessionId ++ [p])⟩
    | .error _ => w
  | .finalizeCall sender sessionId p =>
    match finalizeDAGBatchVerify w.contract sender sessionId p.proof p.publicInputs p.gensData with
    | .ok (_, c) => ⟨c, Function.update w.payloads sessionId (w.payloads sessionId ++ [p])⟩
    | .error _ => w

def World.run (w : World) (calls : List BatchCall) : World := calls.foldl World.step w

/-! ## What a session guarantees -/

/-- If the session is finalized and its circuit has a generator hash, then all its calls brought
generators with that hash, and some proof is accepted for the circuit. -/
def SessionSound (w : World) (sessionId : ℕ) : Prop :=
  (w.contract.sessions sessionId).finalized = true →
  ∀ config, w.contract.dagCircuits (w.contract.sessions sessionId).circuitHash = some config →
    config.gensHash ≠ 0 →
    (∀ p ∈ w.payloads sessionId, keccak256 p.gensData = config.gensHash) ∧
    ∃ p : Payload, verifyDAGProof w.contract.toContract p.proof
      (w.contract.sessions sessionId).circuitHash p.publicInputs p.gensData = .ok true

/-- All calls brought the same proof and the same generators, and the latter are not empty. -/
def OneCalldata (ps : List Payload) : Prop :=
  ∃ p : Payload, p.gensData ≠ [] ∧ ∀ q ∈ ps, q.proof = p.proof ∧ q.gensData = p.gensData

/-! ## The invariant -/

/-- The session is one of the runs that `Tracks` describes, or has been accepted. -/
def Followed (c : BatchContract) (sessionId : ℕ) (p : Payload) : Prop :=
  ∃ config, c.dagCircuits (c.sessions sessionId).circuitHash = some config ∧
    checkGenerators config p.gensData = .ok () ∧
    (CursorsAgree config.description →
      ((c.sessions sessionId).finalized = true ∧ verifyDAGProof c.toContract p.proof
          (c.sessions sessionId).circuitHash p.publicInputs p.gensData = .ok true) ∨
      ∃ sender proof bindings outputChallenges, Tracks c sender sessionId
        (p.calldata (c.sessions sessionId).circuitHash) config proof bindings outputChallenges)

/-- A stored session has had calls, and if these agree then it is followed. -/
def Invariant (w : World) : Prop :=
  ∀ sessionId, (w.contract.sessions sessionId).circuitHash ≠ 0 →
    w.payloads sessionId ≠ [] ∧
    ∀ p : Payload, (∀ q ∈ w.payloads sessionId, q.proof = p.proof ∧ q.gensData = p.gensData) →
      Followed w.contract sessionId p

private theorem Followed.frame {c c' : BatchContract} {sessionId : ℕ} {p : Payload}
    (h : Followed c sessionId p) (hcontract : c'.toContract = c.toContract)
    (hsession : c'.sessions sessionId = c.sessions sessionId)
    (hcross : c'.crossBatch sessionId = c.crossBatch sessionId) : Followed c' sessionId p := by
  obtain ⟨config, hconfig, hgens, hfollowed⟩ := h
  refine ⟨config, by rw [hcontract, hsession, hconfig], hgens, fun hagree => ?_⟩
  rw [hcontract, hsession]
  rcases hfollowed hagree with haccepted | ⟨sender, proof, bindings, outputChallenges, htracks⟩
  · exact .inl haccepted
  · exact .inr ⟨sender, proof, bindings, outputChallenges, htracks.frame hcontract hsession hcross⟩

/-- A call stores to one session; the others are followed as before. -/
private theorem Invariant.store {w : World} (h : Invariant w) {sessionId : ℕ}
    {session : DAGBatchSession} {crossData : CrossBatchData} {ps : List Payload} (hps : ps ≠ [])
    (hnew : ∀ p : Payload, (∀ q ∈ ps, q.proof = p.proof ∧ q.gensData = p.gensData) →
      Followed (w.contract.store sessionId session crossData) sessionId p) :
    Invariant ⟨w.contract.store sessionId session crossData,
      Function.update w.payloads sessionId ps⟩ := by
  intro other hother
  by_cases heq : other = sessionId
  · subst heq
    simp only [Function.update_self]
    exact ⟨hps, hnew⟩
  · have hsession : (w.contract.store sessionId session crossData).sessions other =
        w.contract.sessions other := Function.update_of_ne heq ..
    have hcross : (w.contract.store sessionId session crossData).crossBatch other =
        w.contract.crossBatch other := Function.update_of_ne heq ..
    simp only [hsession] at hother
    obtain ⟨hcalls, hfollowed⟩ := h other hother
    simp only [Function.update_of_ne heq]
    exact ⟨hcalls, fun p hp => (hfollowed p hp).frame rfl hsession hcross⟩

theorem checkSession_eq_ok {session : DAGBatchSession} {sender : ℕ} :
    checkSession session sender = .ok () ↔
      session.circuitHash ≠ 0 ∧ session.verifier = sender ∧ session.finalized = false := by
  simp [checkSession, bind_eq_ok]

/-- An open session that is followed tracks the calldata of its calls. -/
private theorem Followed.tracks {c : BatchContract} {sender sessionId : ℕ} {p : Payload}
    (h : Followed c sessionId p) (hsession : checkSession (c.sessions sessionId) sender = .ok ()) :
    ∃ config, c.dagCircuits (c.sessions sessionId).circuitHash = some config ∧
      checkGenerators config p.gensData = .ok () ∧
      (CursorsAgree config.description → ∃ proof bindings outputChallenges,
        Tracks c sender sessionId (p.calldata (c.sessions sessionId).circuitHash) config proof
          bindings outputChallenges) := by
  obtain ⟨-, hverifier, hopen⟩ := checkSession_eq_ok.mp hsession
  obtain ⟨config, hconfig, hgens, hfollowed⟩ := h
  refine ⟨config, hconfig, hgens, fun hagree => ?_⟩
  rcases hfollowed hagree with ⟨hfinal, -⟩ | ⟨sender', proof, bindings, outputChallenges, htracks⟩
  · rw [hopen] at hfinal
    cases hfinal
  · obtain rfl : sender = sender' := hverifier.symm.trans htracks.verifier
    exact ⟨proof, bindings, outputChallenges, htracks⟩

private theorem followed_start {c : BatchContract} {sender sessionId circuitHash : ℕ} {p q : Payload}
    {config : DAGCircuitConfig} {proof : DecodedProof} {ctx : VerifyContext} {s : Sponge}
    (hproof : p.proof = q.proof) (hgens : p.gensData = q.gensData)
    (hsetup : SetupDone c.toContract (p.calldata circuitHash) config proof ctx s) :
    Followed (c.store sessionId (startSession (p.calldata circuitHash) sender config ctx s)
      ⟨[], [0], ctx.outputChallenges⟩) sessionId q := by
  have hsetup' : SetupDone c.toContract (q.calldata circuitHash) config proof ctx s := by
    obtain ⟨hunpaused, hcircuit, hformat, hgenerators, hdecoded, houtput⟩ := hsetup
    simp only [Payload.calldata, hproof, hgens] at hformat hgenerators hdecoded
    exact ⟨hunpaused, hcircuit, hformat, hgenerators, hdecoded, houtput⟩
  have htracks := @tracks_start c sender sessionId _ _ _ _ _ hsetup'
  have hhash := htracks.hash
  refine ⟨config, ?_, htracks.generators, fun _ => .inr ⟨sender, proof, [], ctx.outputChallenges, ?_⟩⟩
  · rw [store_sessions_self]
    exact htracks.circuit
  · rw [store_sessions_self]
    exact htracks

private theorem followed_continue {c c' : BatchContract} {sender sessionId : ℕ} {p q : Payload}
    (h : Followed c sessionId q) (hproof : p.proof = q.proof) (hgens : p.gensData = q.gensData)
    (hc' : continueDAGBatchVerify c sender sessionId p.proof p.publicInputs p.gensData = .ok c') :
    Followed c' sessionId q := by
  obtain ⟨hsession, hnext, s, crossData, hstore⟩ := continue_stores hc'
  obtain ⟨config, hconfig, hgenerators, htracks⟩ := h.tracks hsession
  have hhash : (c'.sessions sessionId).circuitHash = (c.sessions sessionId).circuitHash := by
    rw [hstore, store_sessions_self, continuedSession]
  have hcontract : c'.toContract = c.toContract := by rw [hstore, store_toContract]
  refine ⟨config, by rw [hhash, hcontract, hconfig], hgenerators, fun hagree => .inr ?_⟩
  obtain ⟨proof, bindings, outputChallenges, ht⟩ := htracks hagree
  rw [hproof, hgens] at hc'
  obtain ⟨gens, runs, ctx, s', hgens', hlayers, rfl⟩ := (ht.continue_eq_ok hnext).mp hc'
  rw [hhash]
  exact ⟨sender, proof, ctx.allBindings, outputChallenges, ht.continue hnext hgens' hlayers⟩

private theorem followed_finalize {c c' : BatchContract} {sender sessionId : ℕ} {p q : Payload}
    {done : Bool} (h : Followed c sessionId q) (hproof : p.proof = q.proof)
    (hgens : p.gensData = q.gensData)
    (hc' : finalizeDAGBatchVerify c sender sessionId p.proof p.publicInputs p.gensData =
      .ok (done, c')) :
    Followed c' sessionId q := by
  obtain ⟨hsession, hdone, f, s, hstore⟩ := finalize_stores hc'
  obtain ⟨config, hconfig, hgenerators, htracks⟩ := h.tracks hsession
  have hhash : (c'.sessions sessionId).circuitHash = (c.sessions sessionId).circuitHash := by
    rw [hstore, store_sessions_self, finalizedSession]
  have hcontract : c'.toContract = c.toContract := by rw [hstore, store_toContract]
  refine ⟨config, by rw [hhash, hcontract, hconfig], hgenerators, fun hagree => ?_⟩
  obtain ⟨proof, bindings, outputChallenges, ht⟩ := htracks hagree
  rw [hproof, hgens] at hc'
  obtain ⟨hfinal, haccepts, hcontinues⟩ := ht.finalize hagree hdone hc'
  rw [hhash, hcontract]
  cases done with
  | true => exact .inl ⟨hfinal, haccepts rfl⟩
  | false => exact .inr ⟨sender, proof, bindings, outputChallenges, (hcontinues rfl).1⟩

theorem invariant_step {w : World} (h : Invariant w) (call : BatchCall) : Invariant (w.step call) := by
  cases call with
  | startCall sender blockNum circuitHash p =>
    simp only [World.step]
    split
    · rename_i sessionId c hstart
      obtain ⟨config, proof, ctx, s, hsetup, hout⟩ :=
        (@startDAGBatchVerify_eq_ok _ _ _ (p.calldata circuitHash) _).mp hstart
      obtain ⟨rfl, rfl⟩ := Prod.mk.inj hout
      refine h.store (by simp) fun q hq => ?_
      obtain ⟨hproof, hgens⟩ := hq p (by simp)
      exact followed_start hproof hgens hsetup
    · exact h
  | continueCall sender sessionId p =>
    simp only [World.step]
    split
    · rename_i c hcontinue
      obtain ⟨hsession, -, s, crossData, hstore⟩ := continue_stores hcontinue
      have hfollowed := (h sessionId (checkSession_eq_ok.mp hsession).1).2
      subst hstore
      refine h.store (by simp) fun q hq => ?_
      obtain ⟨hproof, hgens⟩ := hq p (by simp)
      exact followed_continue (hfollowed q fun r hr => hq r (by simp [hr])) hproof hgens hcontinue
    · exact h
  | finalizeCall sender sessionId p =>
    simp only [World.step]
    split
    · rename_i done c hfinalize
      obtain ⟨hsession, -, f, s, hstore⟩ := finalize_stores hfinalize
      have hfollowed := (h sessionId (checkSession_eq_ok.mp hsession).1).2
      subst hstore
      refine h.store (by simp) fun q hq => ?_
      obtain ⟨hproof, hgens⟩ := hq p (by simp)
      exact followed_finalize (hfollowed q fun r hr => hq r (by simp [hr])) hproof hgens hfinalize
    · exact h

theorem invariant_run (c : Contract) (calls : List BatchCall) :
    Invariant ((World.init c).run calls) := by
  have hinit : Invariant (World.init c) := fun _ hstored => absurd rfl hstored
  unfold World.run
  generalize World.init c = w at hinit
  induction calls generalizing w with
  | nil => exact hinit
  | cons call calls ih => exact ih _ (invariant_step hinit call)

/-- In every run, a session whose calls all bring one proof and one nonempty set of generators is
sound, on every circuit whose cursors agree. -/
theorem sessionSound_of_oneCalldata {c : Contract} {calls : List BatchCall} {sessionId : ℕ}
    (hone : OneCalldata (((World.init c).run calls).payloads sessionId))
    (hagree : ∀ config, ((World.init c).run calls).contract.dagCircuits
      (((World.init c).run calls).contract.sessions sessionId).circuitHash = some config →
        CursorsAgree config.description) :
    SessionSound ((World.init c).run calls) sessionId := by
  intro hfinal config hconfig hgensHash
  obtain ⟨p, hne, hsame⟩ := hone
  obtain ⟨-, hfollowed⟩ := invariant_run c calls sessionId (circuitHash_ne_zero hconfig)
  obtain ⟨config', hconfig', hgens, haccepted⟩ := hfollowed p hsame
  obtain rfl := Option.some.inj (hconfig.symm.trans hconfig')
  have hkeccak : keccak256 p.gensData = config.gensHash := by
    simpa [checkGenerators, hgensHash, hne] using hgens
  refine ⟨fun q hq => by rw [(hsame q hq).2, hkeccak], p, ?_⟩
  rcases haccepted (hagree config hconfig) with ⟨-, hverify⟩ | ⟨_, _, _, _, htracks⟩
  · exact hverify
  · have hopen := htracks.unfinished
    rw [hfinal] at hopen
    cases hopen

/-! ## A circuit without committed inputs -/

/-- One subtract layer without rounds, and one public input without claims. -/
def plainDesc : DAGCircuitDescription :=
  ⟨1, 1, [0], [0], [0, 0], [], [], [0], [], [false], [0, 0], [], []⟩

/-- Generators without message generators, and with both other generators at infinity. -/
def plainGensData : List UInt8 := [0, 0, 0, 0, 0].flatMap wordToBeBytes

def plainConfig : DAGCircuitConfig where
  circuitHash := 1
  description := plainDesc
  active := true
  gensHash := keccak256 plainGensData
  hash_ne_zero := Nat.one_ne_zero
  hash_lt := one_lt_word
  abi := by decide
  checked := by decide

def plainProof : DecodedProof :=
  ⟨⟨[G1Point.INFINITY], [⟨⟨G1Point.INFINITY, [], ⟨G1Point.INFINITY, G1Point.INFINITY, [], 0, 0⟩⟩,
    [], []⟩]⟩, [], [], []⟩

def plainProofWords : List ℕ := [0, 0, 1, 0, 0, 1] ++ List.replicate 16 0

def plainPayload (gensData : List UInt8) : Payload :=
  ⟨SELECTOR ++ plainProofWords.flatMap wordToBeBytes, [], gensData⟩

/-- The three calls of a session, all with the same payload. -/
def plainCalls (p : Payload) : List BatchCall :=
  [.startCall 0 0 1 p, .continueCall 0 (generateSessionId 0 1 0) p,
    .finalizeCall 0 (generateSessionId 0 1 0) p]

theorem verifyDAGProof_plain {gensData : List UInt8}
    (hgenerators : checkGenerators plainConfig gensData = .ok ())
    (hgens : decodePedersenGens (calldataReader gensData) =
      .ok ⟨[], G1Point.INFINITY, G1Point.INFINITY⟩) :
    verifyDAGProof (Contract.single plainConfig) (plainPayload gensData).proof 1 [] gensData =
      .ok true := by
  have hdecoded : decodeProofForDag (calldataReader ((plainPayload gensData).proof.drop 4)) =
      .ok plainProof := by
    have hdrop : (plainPayload gensData).proof.drop 4 = plainProofWords.flatMap wordToBeBytes := rfl
    rw [hdrop, calldataReader_flatMap_wordToBeBytes (by decide)]
    decide
  have hsetup : setupDagTranscript 1 plainProof = absorbPair solOps (absorbPair solOps (absorbPair
      solOps init (hashToFqPair (wordToBeBytes 1))) (sha256HashChain [])) (sha256HashChain []) :=
    setupTranscript_nil solOps (wordToBeBytes 1)
  have hrun : okAnd (verifyPhases plainProof plainDesc ⟨[], G1Point.INFINITY, G1Point.INFINITY⟩
      (setupDagTranscript 1 plainProof)) (fun _ => true) = true := by
    rw [hsetup, sha256HashChain_nil]
    decide +kernel
  obtain ⟨run, hrun, -⟩ := okAnd_eq_true.mp hrun
  exact verifyDAGProof_eq_ok.mpr ⟨rfl, rfl, plainConfig, plainProof, _, run, activeCircuit_single rfl,
    checkProofFormat_selector _, hgenerators, hdecoded, hgens, hrun⟩

/-- An accepted payload is finalized by three calls. -/
private theorem run_plainCalls {p : Payload}
    (hverify : verifyDAGProof (Contract.single plainConfig) p.proof 1 p.publicInputs p.gensData =
      .ok true) :
    ∃ c : BatchContract, (World.init (Contract.single plainConfig)).run (plainCalls p) =
        ⟨c, Function.update (fun _ => []) (generateSessionId 0 1 0) [p, p, p]⟩ ∧
      c.toContract = Contract.single plainConfig ∧
      (c.sessions (generateSessionId 0 1 0)).circuitHash = 1 ∧
      (c.sessions (generateSessionId 0 1 0)).finalized = true := by
  obtain ⟨config, proof, ctx, s, hsetup, -⟩ :=
    (@verifyDAGProof_eq_true (Contract.single plainConfig) 0 (p.calldata 1)).mp hverify
  obtain rfl : plainConfig = config :=
    Except.ok.inj ((activeCircuit_single rfl).symm.trans hsetup.circuit)
  have hstart : startDAGBatchVerify (BatchContract.fresh (Contract.single plainConfig)) 0 0 p.proof 1
      p.publicInputs p.gensData = _ := (@startDAGBatchVerify_eq_ok _ 0 0 (p.calldata 1) _).mpr
    ⟨plainConfig, proof, ctx, s, hsetup, rfl⟩
  have htracks := @tracks_start (BatchContract.fresh (Contract.single plainConfig)) 0
    (generateSessionId 0 1 0) _ _ _ _ _ hsetup
  -- the only batch
  have hnext : (startSession (p.calldata 1) 0 plainConfig ctx s).nextBatchIdx <
    (startSession (p.calldata 1) 0 plainConfig ctx s).totalBatches := Nat.one_pos
  have hcontinue := @htracks.exists_continue
  have hcontinues := @htracks.continue_eq_ok
  have hkept := @htracks.continue
  simp only [store_sessions_self] at hcontinue hcontinues hkept
  obtain ⟨c₁, hc₁⟩ := hcontinue hnext hverify
  obtain ⟨gens, runs, ctx₁, s₁, hgens, hlayers, rfl⟩ := (hcontinues hnext).mp hc₁
  have h₁ := hkept hnext hgens hlayers
  -- one finalize call, since there is no committed input at which it could stop
  have hagree : CursorsAgree plainConfig.description := by
    unfold CursorsAgree
    decide
  have hdone : (continuedSession (startSession (p.calldata 1) 0 plainConfig ctx s) s₁).totalBatches ≤
    (continuedSession (startSession (p.calldata 1) 0 plainConfig ctx s) s₁).nextBatchIdx := le_refl 1
  have hfinalize := @h₁.exists_finalize
  have hends := @h₁.finalize
  simp only [store_sessions_self] at hfinalize hends
  obtain ⟨⟨done, c₂⟩, hc₂⟩ := hfinalize hagree hdone hverify
  obtain ⟨hfinal, -, hopen⟩ := hends hagree hdone hc₂
  have hdone' : done = true := by
    by_contra hnot
    obtain ⟨h₂, -, hmeasure⟩ := hopen (by simpa using hnot)
    rcases h₂.place.place with ⟨hzero, hnone⟩ | ⟨-, hcommitted, -⟩
    · rw [hzero, hnone] at hmeasure
      exact lt_irrefl _ hmeasure
    · rcases hi : (c₂.sessions (generateSessionId 0 1 0)).finalizeInputIdx with _ | i <;>
        rw [hi] at hcommitted <;> simp [plainConfig, plainDesc] at hcommitted
  obtain ⟨-, -, f, s₂, hstore⟩ := finalize_stores hc₂
  refine ⟨c₂, ?_, by rw [hstore]; rfl, ?_, hfinal.trans hdone'⟩
  · have hc₁' : continueDAGBatchVerify _ 0 (generateSessionId 0 1 0) p.proof p.publicInputs
      p.gensData = _ := hc₁
    have hc₂' : finalizeDAGBatchVerify _ 0 (generateSessionId 0 1 0) p.proof p.publicInputs
      p.gensData = _ := hc₂
    have hid : generateSessionId 0 (p.calldata 1).circuitHash 0 = generateSessionId 0 1 0 := rfl
    rw [hid] at hstart
    simp only [World.run, plainCalls, List.foldl_cons, List.foldl_nil, World.step, World.init, hstart,
      hc₁', hc₂', Function.update_self, Function.update_idem, List.cons_append, List.nil_append]
  · rw [hstore, store_sessions_self, finalizedSession, store_sessions_self, continuedSession]
    rfl

/-- With the registered generators in every call, the session is finalized and sound. -/
theorem plain_sound :
    SessionSound ((World.init (Contract.single plainConfig)).run
      (plainCalls (plainPayload plainGensData))) (generateSessionId 0 1 0) := by
  have hverify := @verifyDAGProof_plain plainGensData (by simp [checkGenerators, plainConfig])
    (by rw [plainGensData, calldataReader_flatMap_wordToBeBytes (by decide)]; decide)
  obtain ⟨c, hrun, hcontract, hhash, -⟩ := @run_plainCalls (plainPayload plainGensData) hverify
  refine sessionSound_of_oneCalldata ⟨plainPayload plainGensData, by decide, ?_⟩ ?_
  · rw [hrun]
    simp
  · intro config hconfig
    rw [hrun] at hconfig
    simp only [hcontract, hhash] at hconfig
    obtain rfl : plainConfig = config := Option.some.inj hconfig
    unfold CursorsAgree
    decide

theorem plain_gensHash : plainConfig.gensHash ≠ 0 ∧ keccak256 [] ≠ plainConfig.gensHash := by
  have hhash : plainConfig.gensHash = keccak256 plainGensData := rfl
  rw [hhash, keccak256_eq_keccakLanes, keccak256_eq_keccakLanes]
  decide +kernel

/-- Without generators in any call, the session is finalized although the circuit has a generator
hash that no call's generators have. -/
theorem plain_unsound :
    ¬SessionSound ((World.init (Contract.single plainConfig)).run (plainCalls (plainPayload [])))
      (generateSessionId 0 1 0) := by
  have hverify := @verifyDAGProof_plain [] (by simp [checkGenerators]) (by decide)
  obtain ⟨c, hrun, hcontract, hhash, hfinal⟩ := @run_plainCalls (plainPayload []) hverify
  intro hsound
  rw [hrun] at hsound
  have hcircuit : c.dagCircuits (c.sessions (generateSessionId 0 1 0)).circuitHash =
      some plainConfig := by
    rw [hcontract, hhash]
    rfl
  obtain ⟨hgens, -⟩ := hsound hfinal plainConfig hcircuit plain_gensHash.1
  have hkeccak := hgens (plainPayload []) (by simp)
  exact plain_gensHash.2 hkeccak

end WorldZk.BatchSoundness
