import WorldZk.ExecutionEngine
import WorldZk.ProgramRegistry

/-!
# Verified programs

The registry of programs and the execution engine as one system: the engine reads the registry at
the start of a call, and while it waits at an external call, both contracts may be called again.
The mark of a program says nothing about its verifier. The owner may replace it, and the mark
stays.
-/

namespace WorldZk.VerifiedPrograms

open CheckedRuns ReentrantCalls OwnedContracts ProgramRegistry
open ExecutionEngine (EngineError EngineState ExternalCall Operation Outside engineBody verifyProof)

/-! ## The two contracts -/

/-- What the verifiers answer, and which addresses have code. -/
structure Answers where
  programVerify : ℕ → List UInt8 → ℕ → List UInt8 → Bool
  riscZeroVerify : List UInt8 → ℕ → List UInt8 → Bool
  hasCode : ℕ → Bool

/-- The verifier that `registry.getProgram(imageId)` gives. -/
def registeredVerifier (c : ProgramStorage) (imageId : ℕ) : Option ℕ :=
  match getProgram c imageId with
  | .ok program => some program.verifierContract
  | .error _ => none

/-- What the engine reads, with the registry's answers. -/
def outside (c : ProgramStorage) (answers : Answers) : Outside where
  isProgramActive := isProgramActive c
  verifierContract := registeredVerifier c
  programVerify := answers.programVerify
  riscZeroVerify := answers.riscZeroVerify
  hasCode := answers.hasCode

abbrev MarketState : Type := ProgramState × EngineState

inductive MarketError
  | registry (e : ProgramError)
  | engine (e : EngineError)

inductive MarketMessage
  | registry (ctx : CallContext) (operation : ProgramOperation) (hasCode : ℕ → Bool)
  | engine (ctx : CallContext) (operation : Operation) (answers : Answers)

def marketBody : MarketMessage → MarketState → Body ExternalCall Unit MarketError MarketState
  | .registry ctx operation hasCode, s =>
    .after ((recordedCall hasCode s.1 ctx operation).mapError .registry) fun programs =>
      .done (programs, s.2)
  | .engine ctx operation answers, s =>
    (engineBody ⟨ctx, operation, outside s.1.storage answers⟩ s.2).within .engine s.1

/-! ## Programs along the history -/

/-- The verifiers that were set for a program, the latest first. -/
def updates (imageId : ℕ) (records : List ProgramRecord) : List ℕ :=
  records.filterMap fun record => updatedVerifier imageId record.operation

/-- The program `q` is `p` after the calls of `since`: its verifier is the latest that was set,
by its owner. -/
structure Follows (imageId : ℕ) (since : List ProgramRecord) (p q : Program) : Prop where
  registeredAt : q.registeredAt = p.registeredAt
  owner : q.owner = p.owner
  verifierContract : q.verifierContract = (updates imageId since).head?.getD p.verifierContract
  byOwner : ∀ record ∈ since, updatedVerifier imageId record.operation ≠ none →
    record.sender = p.owner

section History

variable {imageId sender : ℕ} {since : List ProgramRecord} {p q : Program} {c : ProgramStorage}
  {operation : ProgramOperation} {s t : ProgramState} {ctx : CallContext} {hasCode : ℕ → Bool}

theorem Follows.nil : Follows imageId [] p p :=
  ⟨rfl, rfl, rfl, fun _ h => (by cases h)⟩

theorem Follows.cons (h : Follows imageId since p (c.programs imageId))
    (hp : p.registeredAt ≠ 0) (heffect : Effect c sender imageId operation q) :
    Follows imageId (⟨sender, operation, c⟩ :: since) p q := by
  cases heffect with
  | registered fresh => exact absurd (h.registeredAt ▸ fresh) hp
  | verified admin registered =>
    refine ⟨h.registeredAt, h.owner, h.verifierContract, fun record hrecord hupdate => ?_⟩
    rcases List.mem_cons.mp hrecord with rfl | hrecord
    · exact absurd rfl hupdate
    · exact h.byOwner record hrecord hupdate
  | updated verifierContract owner =>
    have hcall : updatedVerifier imageId (.updateVerifier imageId verifierContract) =
        some verifierContract := if_pos rfl
    refine ⟨h.registeredAt, h.owner, ?_, fun record hrecord hupdate => ?_⟩
    · simp only [updates, List.filterMap_cons, hcall, List.head?_cons, Option.getD_some]
    · rcases List.mem_cons.mp hrecord with rfl | hrecord
      · exact owner.trans h.owner
      · exact h.byOwner record hrecord hupdate
  | kept other noUpdate registeredAt owner verifierContract verified =>
    refine ⟨registeredAt.trans h.registeredAt, owner.trans h.owner, ?_,
      fun record hrecord hupdate => ?_⟩
    · rw [verifierContract, h.verifierContract]
      simp only [updates, List.filterMap_cons, noUpdate]
    · rcases List.mem_cons.mp hrecord with rfl | hrecord
      · exact absurd noUpdate hupdate
      · exact h.byOwner record hrecord hupdate

/-- The record of the latest `verifyProgram` for a program, with the calls after it. -/
structure LatestMark (s : ProgramState) (imageId : ℕ) (later : List ProgramRecord)
    (mark : ProgramRecord) (earlier : List ProgramRecord) : Prop where
  records : s.records = later ++ mark :: earlier
  operation : mark.operation = .verifyProgram imageId
  admin : mark.sender = mark.before.admin.owner
  registered : (mark.before.programs imageId).registeredAt ≠ 0
  latest : ∀ record ∈ later, record.operation ≠ .verifyProgram imageId

/-- The registry agrees with its history. -/
structure Recorded (s : ProgramState) : Prop where
  follows : ∀ later record earlier imageId, s.records = later ++ record :: earlier →
    (record.before.programs imageId).registeredAt ≠ 0 →
      Follows imageId (later ++ [record]) (record.before.programs imageId)
        (s.storage.programs imageId)
  marked : ∀ imageId, (s.storage.programs imageId).verified = true →
    ∃ later mark earlier, LatestMark s imageId later mark earlier

theorem construct_recorded (admin : ℕ) : Recorded (ProgramRegistry.construct admin) where
  follows := fun later record earlier imageId h => by
    have hempty : [] = later ++ record :: earlier := h
    simp at hempty
  marked := fun imageId h => (by cases h)

theorem Recorded.call (hs : Recorded s)
    (h : recordedCall hasCode s ctx operation = .ok t) : Recorded t := by
  simp only [recordedCall, bind_eq_ok, pure_eq_ok] at h
  obtain ⟨c, hcall, rfl⟩ := h
  have heffect (imageId : ℕ) := programCall_effect imageId hcall
  constructor
  case follows =>
    intro later record earlier imageId hrecords hregistered
    cases later with
    | nil =>
      obtain ⟨rfl, rfl⟩ := List.cons.inj hrecords
      exact Follows.nil.cons hregistered (heffect imageId)
    | cons head later =>
      obtain ⟨rfl, hrest⟩ := List.cons.inj hrecords
      exact (hs.follows later record earlier imageId hrest hregistered).cons hregistered
        (heffect imageId)
  case marked =>
    intro imageId hverified
    have hstep : Effect s.storage ctx.sender imageId operation (c.programs imageId) :=
      heffect imageId
    change (c.programs imageId).verified = true at hverified
    -- an old mark stays the latest one when the call is no mark of the program
    have hold (hother : operation ≠ .verifyProgram imageId)
        (hbefore : (s.storage.programs imageId).verified = true) :
        ∃ later mark earlier, LatestMark ⟨c, ⟨ctx.sender, operation, s.storage⟩ :: s.records⟩
          imageId later mark earlier := by
      obtain ⟨later, mark, earlier, hmark⟩ := hs.marked imageId hbefore
      refine ⟨⟨ctx.sender, operation, s.storage⟩ :: later, mark, earlier,
        ⟨congrArg _ hmark.records, hmark.operation, hmark.admin, hmark.registered, ?_⟩⟩
      exact List.forall_mem_cons.mpr ⟨hother, hmark.latest⟩
    generalize c.programs imageId = program at hstep hverified
    cases hstep with
    | registered fresh unverified => exact absurd (unverified.symm.trans hverified) (by simp)
    | verified admin registered =>
      exact ⟨[], _, s.records, ⟨rfl, rfl, admin, registered, fun _ h => (by cases h)⟩⟩
    | updated verifierContract owner => exact hold (by simp) hverified
    | kept other noUpdate registeredAt owner verifierContract verified =>
      exact hold other (verified hverified)

end History

/-! ## Runs -/

section Runs

variable {s t : MarketState} {e₀ : EngineState} {admin : ℕ}

theorem guarantees : Guarantees marketBody (fun s => Recorded s.1) fun _ _ => True where
  refl := fun _ => trivial
  trans := fun _ _ _ _ _ => trivial
  safe := by
    intro message s hs
    cases message with
    | registry ctx operation hasCode =>
      refine Body.safe_after fun programs h => ?_
      exact ⟨hs.call (mapError_eq_ok.mp h), trivial⟩
    | engine ctx operation answers =>
      exact Body.safe_within (R := fun _ _ => True) (fun _ => trivial)
        (fun _ _ _ _ _ => trivial) hs

theorem recorded_of_reachable
    (hs : Reachable marketBody (ProgramRegistry.construct admin, e₀) s) : Recorded s.1 :=
  guarantees.reachable (construct_recorded admin) hs

/-- A proof that completes a request was accepted by the verifier that the registry names. -/
theorem verified_of_submitProof {ctx : CallContext} {requestId : ℕ}
    {sealBytes journal : List UInt8} {answers : Answers}
    (h : Calls marketBody (.engine ctx (.submitProof requestId sealBytes journal) answers) s t) :
    verifyProof (outside s.1.storage answers) (s.2.storage.requests requestId).imageId sealBytes
      journal = .ok () := by
  have hengine : (engineBody ⟨ctx, .submitProof requestId sealBytes journal,
      outside s.1.storage answers⟩ s.2).Safe (fun _ => True) (fun _ _ => True) fun _ =>
        verifyProof (outside s.1.storage answers) (s.2.storage.requests requestId).imageId
          sealBytes journal = .ok () := by
    refine Body.safe_after fun _ _ => ?_
    simp only [ExecutionEngine.dispatch, ExecutionEngine.nonReentrant]
    refine Body.safe_guarded fun _ => Body.safe_after fun _ hcheck => ?_
    simp only [ExecutionEngine.checkProof, bind_eq_ok] at hcheck
    obtain ⟨_, -, _, -, _, -, _, -, _, -, _, -, _, -, hverify⟩ := hcheck
    exact Body.safe_const hverify
  have hsafe : (marketBody (.engine ctx (.submitProof requestId sealBytes journal) answers) s).Safe
      (fun _ => True) (fun _ _ => True) fun _ =>
        verifyProof (outside s.1.storage answers) (s.2.storage.requests requestId).imageId
          sealBytes journal = .ok () := Body.safe_within_snd hengine
  have hpost := Guarantees.true.calls_post hsafe h
  exact hpost

theorem registeredVerifier_of_registered {c : ProgramStorage} {imageId : ℕ}
    (h : (c.programs imageId).registeredAt ≠ 0) :
    registeredVerifier c imageId = some (c.programs imageId).verifierContract := by
  have hget : getProgram c imageId = .ok (c.programs imageId) := by
    simp only [getProgram, checkRegistered, bne_iff_ne.mpr h, require_true, ok_bind]
    rfl
  rw [registeredVerifier, hget]

/-- Proofs of a program are verified in the same way when the same verifier is registered. -/
theorem verifyProof_congr {c d : ProgramStorage} {imageId : ℕ}
    (h : registeredVerifier c imageId = registeredVerifier d imageId) (answers : Answers)
    (sealBytes journal : List UInt8) :
    verifyProof (outside c answers) imageId sealBytes journal =
      verifyProof (outside d answers) imageId sealBytes journal := by
  simp only [verifyProof, outside, h]

/-- In every reachable state of the two contracts, also while a callee has control, the verifier
of a marked program is the one at the latest `verifyProgram`, or the latest that its owner set
after that. Nothing else than such a call of the owner changes which proofs a registered program's
verifier gets to accept, and a proof completes a request only if that verifier accepts it. -/
theorem verifier_since_mark
    (hs : Reachable marketBody (ProgramRegistry.construct admin, e₀) s) :
    (∀ imageId, (s.1.storage.programs imageId).verified = true →
      ∃ later mark earlier, LatestMark s.1 imageId later mark earlier ∧
        registeredVerifier s.1.storage imageId =
          some ((updates imageId later).head?.getD
            (mark.before.programs imageId).verifierContract) ∧
        ∀ record ∈ later, updatedVerifier imageId record.operation ≠ none →
          record.sender = (s.1.storage.programs imageId).owner) ∧
      (∀ later record earlier imageId, s.1.records = later ++ record :: earlier →
        (record.before.programs imageId).registeredAt ≠ 0 →
        updates imageId (later ++ [record]) = [] → ∀ answers sealBytes journal,
          verifyProof (outside s.1.storage answers) imageId sealBytes journal =
            verifyProof (outside record.before answers) imageId sealBytes journal) ∧
      ∀ ctx requestId sealBytes journal answers t,
        Calls marketBody (.engine ctx (.submitProof requestId sealBytes journal) answers) s t →
          verifyProof (outside s.1.storage answers) (s.2.storage.requests requestId).imageId
            sealBytes journal = .ok () := by
  have hrecorded := recorded_of_reachable hs
  refine ⟨?_, ?_, fun _ _ _ _ _ _ h => verified_of_submitProof h⟩
  · intro imageId hverified
    obtain ⟨later, mark, earlier, hmark⟩ := hrecorded.marked imageId hverified
    have hfollows :=
      hrecorded.follows later mark earlier imageId hmark.records hmark.registered
    have hregistered : (s.1.storage.programs imageId).registeredAt ≠ 0 :=
      hfollows.registeredAt ▸ hmark.registered
    refine ⟨later, mark, earlier, hmark, ?_, fun record hrecord hupdate => ?_⟩
    · rw [registeredVerifier_of_registered hregistered, hfollows.verifierContract, updates,
        List.filterMap_append, List.filterMap_cons, hmark.operation]
      simp only [updatedVerifier, List.filterMap_nil, List.append_nil, updates]
    · exact (hfollows.byOwner record (List.mem_append_left _ hrecord) hupdate).trans
        hfollows.owner.symm
  · intro later record earlier imageId hrecords hregistered hupdates answers sealBytes journal
    have hfollows := hrecorded.follows later record earlier imageId hrecords hregistered
    refine verifyProof_congr ?_ answers sealBytes journal
    rw [registeredVerifier_of_registered hregistered,
      registeredVerifier_of_registered (hfollows.registeredAt ▸ hregistered),
      hfollows.verifierContract, hupdates]
    rfl

end Runs

/-! ## A marked program with another verifier -/

section Sample

def sampleContext (sender value : ℕ) : CallContext :=
  ⟨sender, value, 1000, 1, timestamp_1000⟩

/-- Only the verifier 202 accepts anything. -/
def sampleAnswers : Answers where
  programVerify := fun verifierContract _ _ _ => verifierContract == 202
  riscZeroVerify := fun _ _ _ => false
  hasCode := fun _ => true

/-- The admin 1 marks the program of the owner 61, and the owner sets another verifier while a
request is claimed. -/
def sampleMessages : List MarketMessage :=
  [.registry (sampleContext 61 0) (.registerProgramWithVerifier 7 [] [] 0 201 []) fun _ => true,
    .registry (sampleContext 1 0) (.verifyProgram 7) fun _ => true,
    .engine (sampleContext 62 ExecutionEngine.MIN_TIP) (.requestExecution 7 0 0 0) sampleAnswers,
    .engine (sampleContext 63 0) (.claimExecution 1) sampleAnswers,
    .registry (sampleContext 61 0) (.updateVerifier 7 202) fun _ => true]

def sampleSubmit : MarketMessage :=
  .engine (sampleContext 63 0) (.submitProof 1 [1] [1]) sampleAnswers

/-- The program is marked and its verifier is 202, every mark was set under the verifier 201, and
the proof completes the request. -/
def isRerouted (s : MarketState) : Bool :=
  (s.1.storage.programs 7).verified && registeredVerifier s.1.storage 7 == some 202 &&
    (s.1.records.all fun record => record.operation != .verifyProgram 7 ||
      registeredVerifier record.before 7 == some 201) &&
    okAnd ((marketBody sampleSubmit s).eval fun _ => some ()) fun t =>
      (t.2.storage.requests 1).status == .completed

theorem rerouted_sample : ∃ e₀ s, ExecutionEngine.construct 1 2 3 4 = .ok e₀ ∧
    Run marketBody (ProgramRegistry.construct 1, e₀) s ∧ isRerouted s = true := by
  have hsample : okAnd (ExecutionEngine.construct 1 2 3 4) (fun e₀ =>
      okAnd (evalAll marketBody (fun _ => some ()) sampleMessages (ProgramRegistry.construct 1, e₀))
        isRerouted) = true := by
    decide +kernel
  obtain ⟨e₀, hconstruct, h⟩ := okAnd_eq_true.mp hsample
  obtain ⟨s, hs, h⟩ := okAnd_eq_true.mp h
  exact ⟨e₀, s, hconstruct, .of_evalAll hs, h⟩

/-- The history of the marked program tells its verifier, which the owner 61 set. -/
theorem rerouted_verifier_by_owner :
    ∃ e₀ s later mark earlier, Reachable marketBody (ProgramRegistry.construct 1, e₀) s ∧
      LatestMark s.1 7 later mark earlier ∧
      registeredVerifier s.1.storage 7 =
        some ((updates 7 later).head?.getD (mark.before.programs 7).verifierContract) := by
  obtain ⟨e₀, s, -, hrun, h⟩ := rerouted_sample
  simp only [isRerouted, Bool.and_eq_true] at h
  obtain ⟨later, mark, earlier, hmark, hverifier, -⟩ :=
    (verifier_since_mark (.of_run hrun)).1 7 h.1.1.1
  exact ⟨e₀, s, later, mark, earlier, .of_run hrun, hmark, hverifier⟩

/-- The verifier at the mark refuses the proof that the later one accepts, and the request is
completed with it. -/
theorem marked_program_rerouted :
    ∃ e₀ s t later mark earlier, ExecutionEngine.construct 1 2 3 4 = .ok e₀ ∧
      Run marketBody (ProgramRegistry.construct 1, e₀) s ∧
      (s.1.storage.programs 7).verified = true ∧ LatestMark s.1 7 later mark earlier ∧
      registeredVerifier mark.before 7 = some 201 ∧ registeredVerifier s.1.storage 7 = some 202 ∧
      verifyProof (outside mark.before sampleAnswers) 7 [1] [1] = .error .invalidProof ∧
      Calls marketBody sampleSubmit s t ∧ (t.2.storage.requests 1).status = .completed := by
  obtain ⟨e₀, s, hconstruct, hrun, h⟩ := rerouted_sample
  simp only [isRerouted, Bool.and_eq_true, List.all_eq_true, Bool.or_eq_true, bne_iff_ne,
    beq_iff_eq] at h
  obtain ⟨⟨⟨hverified, hverifier⟩, hmarks⟩, h⟩ := h
  obtain ⟨t, ht, hcompleted⟩ := okAnd_eq_true.mp h
  obtain ⟨later, mark, earlier, hmark⟩ :=
    (recorded_of_reachable (.of_run hrun)).marked 7 hverified
  have hmem : mark ∈ s.1.records := by
    rw [hmark.records]
    exact List.mem_append_right _ List.mem_cons_self
  have hbefore : registeredVerifier mark.before 7 = some 201 :=
    (hmarks mark hmem).resolve_left fun hne => hne hmark.operation
  have hrefused : verifyProof (outside mark.before sampleAnswers) 7 [1] [1] =
      .error .invalidProof := by
    simp only [verifyProof, outside, hbefore]
    rfl
  exact ⟨e₀, s, t, later, mark, earlier, hconstruct, hrun, hverified, hmark, hbefore, hverifier,
    hrefused, .of_eval ht, beq_iff_eq.mp hcompleted⟩

end Sample

end WorldZk.VerifiedPrograms
