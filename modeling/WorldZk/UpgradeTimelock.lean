import WorldZk.UpgradeableEngine

/-!
# The timelock of the upgradeable engine

Every change of a setting is made by a function that is allowed to make it: behind `onlyTimelocked`
by the timelock in force, or by the admin when there is none. The admin may replace or clear the
timelock at any time and without delay, and the timelock in force then is another one.
-/

namespace WorldZk.UpgradeTimelock

open CheckedRuns ReentrantCalls OwnedContracts UpgradeableEngine

/-! ## The history of the settings -/

/-- The changes lead from one state of the settings to another. -/
def History (initial : Settings) : List Change → Settings → Prop
  | [], final => initial = final
  | e :: log, final => e.before = initial ∧ History e.after log final

/-- Who may call a function behind `onlyTimelocked`. -/
def authority (e : Change) : ℕ := if e.before.timelock ≠ 0 then e.before.timelock else e.admin

/-- What a single change may be. -/
structure Authorized (e : Change) : Prop where
  timelocked : e.setter.timelocked = true → e.sender = authority e
  setTimelock : e.setter = .setTimelock →
    e.sender = e.admin ∧ e.after = { e.before with timelock := e.after.timelock }
  kept : e.setter ≠ .setTimelock → (∀ data, e.setter = .upgradeToAndCall data → data = []) →
    e.after.timelock = e.before.timelock

/-- The storage was handed to the code of another implementation. -/
def HandedOver (log : List Change) : Prop :=
  ∃ e ∈ log, ∃ data, e.setter = .upgradeToAndCall data ∧ data ≠ []

structure SettingsInvariant (initial : Settings) (s : UpgradeableState) : Prop where
  history : History initial s.log s.storage.settings
  authorized : ∀ e ∈ s.log, Authorized e
  initialized : HandedOver s.log ∨ s.storage.initialized ≠ 0
  reinitialized : ∀ before e after, s.log = before ++ e :: after →
    e.setter = .initializeEngine → HandedOver before

variable {initial final : Settings} {log old new : List Change} {e : Change}
  {s s₀ t : UpgradeableState} {c c' : UpgradeableStorage} {ctx : CallContext} {outside : Outside}

theorem history_append :
    History initial (old ++ new) final ↔ ∃ middle, History initial old middle ∧
      History middle new final := by
  induction old generalizing initial with
  | nil =>
    constructor
    · exact fun h => ⟨initial, rfl, h⟩
    · rintro ⟨_, rfl, h⟩
      exact h
  | cons e old ih =>
    rw [List.cons_append, History, ih]
    constructor
    · rintro ⟨he, middle, hold, hnew⟩
      exact ⟨middle, ⟨he, hold⟩, hnew⟩
    · rintro ⟨middle, ⟨he, hold⟩, hnew⟩
      exact ⟨he, middle, hold, hnew⟩

theorem history_unique {final' : Settings} (h : History initial log final)
    (h' : History initial log final') : final = final' := by
  induction log generalizing initial with
  | nil => exact Eq.trans (Eq.symm h) h'
  | cons e log ih => exact ih h.2 h'.2

theorem HandedOver.append (h : HandedOver old) : HandedOver (old ++ new) := by
  obtain ⟨e, he, hdata⟩ := h
  exact ⟨e, List.mem_append_left _ he, hdata⟩

/-- The settings, the version and the log are all that matters. -/
theorem SettingsInvariant.congr (h : SettingsInvariant initial s)
    (hsettings : t.storage.settings = s.storage.settings) (hlog : t.log = s.log)
    (hinitialized : s.storage.initialized ≤ t.storage.initialized) :
    SettingsInvariant initial t := by
  refine ⟨?_, ?_, ?_, ?_⟩
  · rw [hlog, hsettings]
    exact h.history
  · rw [hlog]
    exact h.authorized
  · rw [hlog]
    exact h.initialized.imp_right fun hne => by omega
  · rw [hlog]
    exact h.reinitialized

/-- One more change, which is authorized. -/
theorem SettingsInvariant.record {setter : Setter} (h : SettingsInvariant initial s)
    (he : Authorized ⟨setter, ctx.sender, s.storage.admin, s.storage.settings, c.settings⟩)
    (hinitialized : (∃ data, setter = .upgradeToAndCall data ∧ data ≠ []) ∨
      (s.storage.initialized ≠ 0 → c.initialized ≠ 0))
    (hunversioned : setter = .initializeEngine → s.storage.initialized = 0) :
    SettingsInvariant initial (record s ctx setter c) := by
  set e : Change := ⟨setter, ctx.sender, s.storage.admin, s.storage.settings, c.settings⟩ with hedef
  refine ⟨history_append.mpr ⟨s.storage.settings, h.history, rfl, rfl⟩, fun e' he' => ?_, ?_,
    fun before e' after heq hsetter => ?_⟩
  · rcases List.mem_append.mp he' with he' | he'
    · exact h.authorized e' he'
    · rw [List.mem_singleton.mp he']
      exact he
  · rcases h.initialized with hover | hne
    · exact .inl hover.append
    · rcases hinitialized with ⟨data, hsetter, hdata⟩ | hkeep
      · exact .inl ⟨e, List.mem_append_right _ (List.mem_singleton_self e), data, hsetter, hdata⟩
      · exact .inr (hkeep hne)
  · rcases List.eq_nil_or_concat after with rfl | ⟨init, last, rfl⟩
    · obtain ⟨rfl, hlast⟩ := List.append_inj' heq rfl
      rw [← List.singleton_inj.mp hlast] at hsetter
      exact h.initialized.resolve_right fun hne => hne (hunversioned hsetter)
    · rw [List.concat_eq_append, ← List.cons_append, ← List.append_assoc] at heq
      obtain ⟨hlog, -⟩ := List.append_inj' heq rfl
      exact h.reinitialized before e' init hlog hsetter

/-! ## The setters -/

theorem onlyAdmin_eq_ok {u : Unit} : onlyAdmin c ctx = .ok u ↔ ctx.sender = c.admin := by
  rw [onlyAdmin, require_eq_ok, beq_iff_eq]

theorem onlyTimelocked_eq_ok {u : Unit} :
    onlyTimelocked c ctx = .ok u ↔
      ctx.sender = if c.settings.timelock ≠ 0 then c.settings.timelock else c.admin := by
  unfold onlyTimelocked
  split <;> rw [require_eq_ok, beq_iff_eq]

/-- A function behind `onlyTimelocked` that leaves the timelock alone. -/
theorem authorized_of_timelocked {setter : Setter} {after : Settings}
    (hcheck : onlyTimelocked c ctx = .ok ()) (hsetter : setter.timelocked = true)
    (hkept : (∀ data, setter = .upgradeToAndCall data → data = []) →
      after.timelock = c.settings.timelock) :
    Authorized ⟨setter, ctx.sender, c.admin, c.settings, after⟩ where
  timelocked := fun _ => onlyTimelocked_eq_ok.mp hcheck
  setTimelock := by
    intro heq
    dsimp only at heq
    rw [heq] at hsetter
    cases hsetter
  kept := fun _ hdata => hkept hdata

theorem setProtocolFee_invariant {feeBps : ℕ} (h : SettingsInvariant initial s)
    (hc : setProtocolFee s.storage ctx feeBps = .ok c) :
    SettingsInvariant initial (UpgradeableEngine.record s ctx .setProtocolFee c) := by
  simp only [setProtocolFee, bind_eq_ok, pure_eq_ok] at hc
  obtain ⟨_, hcheck, _, -, rfl⟩ := hc
  exact h.record (authorized_of_timelocked hcheck rfl fun _ => rfl) (.inr id)
    fun heq => by cases heq

theorem setFeeRecipient_invariant {recipient : ℕ} (h : SettingsInvariant initial s)
    (hc : setFeeRecipient s.storage ctx recipient = .ok c) :
    SettingsInvariant initial (UpgradeableEngine.record s ctx .setFeeRecipient c) := by
  simp only [setFeeRecipient, bind_eq_ok, pure_eq_ok] at hc
  obtain ⟨_, hcheck, _, -, rfl⟩ := hc
  exact h.record (authorized_of_timelocked hcheck rfl fun _ => rfl) (.inr id)
    fun heq => by cases heq

theorem setTimelock_invariant {timelock : ℕ} (h : SettingsInvariant initial s)
    (hc : setTimelock s.storage ctx timelock = .ok c) :
    SettingsInvariant initial (UpgradeableEngine.record s ctx .setTimelock c) := by
  simp only [setTimelock, bind_eq_ok, onlyAdmin_eq_ok, pure_eq_ok] at hc
  obtain ⟨_, hsender, rfl⟩ := hc
  refine h.record ⟨fun heq => (by cases heq), fun _ => ⟨hsender, rfl⟩, fun hne => absurd rfl hne⟩
    (.inr id) fun heq => by cases heq

theorem initializeEngine_invariant {registry verifier feeRecipient admin : ℕ}
    (h : SettingsInvariant initial s)
    (hc : initializeEngine s.storage registry verifier feeRecipient admin = .ok c) :
    SettingsInvariant initial (UpgradeableEngine.record s ctx .initializeEngine c) := by
  simp only [initializeEngine, bind_eq_ok, require_eq_ok, beq_iff_eq, pure_eq_ok] at hc
  obtain ⟨_, hzero, _, -, _, -, _, -, _, -, rfl⟩ := hc
  exact h.record ⟨fun heq => (by cases heq), fun heq => (by cases heq), fun _ _ => rfl⟩
    (.inr fun _ => Nat.one_ne_zero) fun _ => hzero

theorem setImplementation_eq_ok {newImplementation : ℕ}
    (hc : setImplementation c ctx outside newImplementation = .ok c') :
    onlyTimelocked c ctx = .ok () ∧
      c' = { c with settings := { c.settings with implementation := newImplementation } } := by
  simp only [setImplementation, bind_eq_ok, pure_eq_ok] at hc
  obtain ⟨_, hcheck, _, -, rfl⟩ := hc
  exact ⟨hcheck, rfl⟩

theorem upgradeTo_invariant {newImplementation : ℕ} (h : SettingsInvariant initial s)
    (hc : setImplementation s.storage ctx outside newImplementation = .ok c) :
    SettingsInvariant initial (UpgradeableEngine.record s ctx .upgradeTo c) := by
  obtain ⟨hcheck, rfl⟩ := setImplementation_eq_ok hc
  exact h.record (authorized_of_timelocked hcheck rfl fun _ => rfl) (.inr id)
    fun heq => by cases heq

theorem upgradeToAndCall_invariant {newImplementation : ℕ} {data : List UInt8}
    (h : SettingsInvariant initial s)
    (ht : upgradeToAndCall s ctx outside newImplementation data = .ok t) :
    SettingsInvariant initial t := by
  rw [upgradeToAndCall, bind_eq_ok] at ht
  obtain ⟨c, hc, ht⟩ := ht
  obtain ⟨hcheck, rfl⟩ := setImplementation_eq_ok hc
  split at ht
  case isTrue hnil =>
    obtain rfl := pure_eq_ok.mp ht
    exact h.record (authorized_of_timelocked hcheck rfl fun _ => rfl) (.inr id)
      fun heq => by cases heq
  case isFalse hdata =>
    split at ht
    case h_1 c' balance _ =>
      obtain rfl := pure_eq_ok.mp ht
      have hrecord : SettingsInvariant initial
          (UpgradeableEngine.record s ctx (.upgradeToAndCall data) c') := by
        refine h.record (authorized_of_timelocked hcheck rfl fun hnil => ?_)
          (.inl ⟨data, rfl, hdata⟩) fun heq => (by cases heq)
        exact absurd (hnil data rfl) hdata
      exact hrecord.congr rfl rfl le_rfl
    case h_2 => cases ht

/-! ## Every call -/

section Rules

variable {post : UpgradeableState → Prop} {next : UpgradeableState → UpgradeableBody}

theorem safe_payTo {payee amount : ℕ} (h : SettingsInvariant initial s)
    (hnext : ∀ t, SettingsInvariant initial t →
      (next t).Safe (SettingsInvariant initial) (fun _ _ => True) post) :
    (payTo s payee amount next).Safe (SettingsInvariant initial) (fun _ _ => True) post := by
  unfold payTo
  split
  case isTrue => exact ⟨h.congr rfl rfl le_rfl, trivial, fun _ t ht _ => hnext t ht⟩
  case isFalse => trivial

theorem safe_guarded {f : UpgradeableState → UpgradeableBody}
    (h : (f (setEntered true s)).Safe (SettingsInvariant initial) (fun _ _ => True)
      (SettingsInvariant initial)) :
    (nonReentrant s f).Safe (SettingsInvariant initial) (fun _ _ => True)
      (SettingsInvariant initial) :=
  Body.safe_guarded fun _ => h.mono fun _ ht => ht.congr rfl rfl le_rfl

/-- A function without external calls that keeps the settings and the version. -/
theorem safe_plain {x : UpgradeableCall UpgradeableStorage} (h : SettingsInvariant initial s)
    (hx : ∀ c, x = .ok c → c.settings = s.storage.settings ∧
      s.storage.initialized ≤ c.initialized) :
    (plain s x).Safe (SettingsInvariant initial) (fun _ _ => True) (SettingsInvariant initial) :=
  Body.safe_after fun c hc => h.congr (hx c hc).1 rfl (hx c hc).2

end Rules

theorem submitProof_safe {requestId : ℕ} {sealBytes journal : List UInt8}
    (h : SettingsInvariant initial s) :
    (submitProof s ctx outside requestId sealBytes journal).Safe (SettingsInvariant initial)
      (fun _ _ => True) (SettingsInvariant initial) := by
  refine Body.safe_after fun _ _ => ?_
  refine Body.safe_after fun fee _ => ?_
  refine Body.safe_after fun payout _ => ?_
  refine Body.safe_after fun c hc => ?_
  simp only [completeRequest, bind_eq_ok, pure_eq_ok] at hc
  obtain ⟨_, -, _, -, rfl⟩ := hc
  refine safe_payTo (h.congr rfl rfl le_rfl) fun t ht => ?_
  split
  · exact safe_payTo ht fun u hu => hu
  · exact ht

theorem dispatch_safe {tx : UpgradeableMessage} (h : SettingsInvariant initial s) :
    (dispatch tx s).Safe (SettingsInvariant initial) (fun _ _ => True)
      (SettingsInvariant initial) := by
  have hentered : SettingsInvariant initial (setEntered true s) := h.congr rfl rfl le_rfl
  obtain ⟨ctx, operation, outside⟩ := tx
  cases operation
  case initializeEngine => exact Body.safe_after fun c hc => initializeEngine_invariant h hc
  case setProtocolFee => exact Body.safe_after fun c hc => setProtocolFee_invariant h hc
  case setFeeRecipient => exact Body.safe_after fun c hc => setFeeRecipient_invariant h hc
  case setTimelock => exact Body.safe_after fun c hc => setTimelock_invariant h hc
  case upgradeTo => exact Body.safe_after fun c hc => upgradeTo_invariant h hc
  case upgradeToAndCall => exact Body.safe_ofExcept fun t ht => upgradeToAndCall_invariant h ht
  case receiveEther => exact h
  case submitProof => exact safe_guarded (submitProof_safe hentered)
  case cancelExecution =>
    refine safe_guarded (Body.safe_after fun _ _ => ?_)
    exact safe_payTo (hentered.congr rfl rfl le_rfl) fun t ht => ht
  case requestExecution =>
    refine Body.safe_after fun _ _ => safe_guarded (safe_plain hentered fun c hc => ?_)
    simp only [requestExecution, bind_eq_ok, pure_eq_ok] at hc
    obtain ⟨_, -, _, -, _, -, _, -, _, -, _, -, _, -, _, -, rfl⟩ := hc
    exact ⟨rfl, le_rfl⟩
  case claimExecution =>
    refine Body.safe_after fun _ _ => safe_guarded (safe_plain hentered fun c hc => ?_)
    simp only [claimExecution, bind_eq_ok, pure_eq_ok] at hc
    obtain ⟨_, -, _, -, _, -, _, -, rfl⟩ := hc
    exact ⟨rfl, le_rfl⟩
  case reinitializeEngine =>
    refine safe_plain h fun c hc => ?_
    simp only [reinitializeEngine, bind_eq_ok, require_eq_ok, decide_eq_true_eq, pure_eq_ok] at hc
    obtain ⟨_, -, _, hlt, rfl⟩ := hc
    exact ⟨rfl, hlt.le⟩
  all_goals
    refine safe_plain h fun c hc => ?_
    simp only [setPaused, changeAdmin, bind_eq_ok, pure_eq_ok] at hc
    obtain ⟨_, -, _, -, rfl⟩ := hc
    exact ⟨rfl, le_rfl⟩

theorem guarantees {isEngine : ℕ → Bool} :
    Guarantees (upgradeableBody isEngine) (SettingsInvariant initial) fun _ _ => True where
  refl := fun _ => trivial
  trans := fun _ _ _ _ _ => trivial
  safe := by
    intro tx s h
    refine Body.safe_after fun _ _ => Body.safe_after fun _ _ => ?_
    have hcredit : SettingsInvariant initial { s with balance := s.balance + tx.context.value } :=
      h.congr rfl rfl le_rfl
    exact (dispatch_safe hcredit).mono fun _ ht => ⟨ht, trivial⟩

theorem construct_invariant {implementation registry verifier feeRecipient admin : ℕ}
    (h : construct implementation registry verifier feeRecipient admin = .ok s₀) :
    SettingsInvariant s₀.storage.settings s₀ := by
  simp only [construct, initializeEngine, bind_eq_ok, pure_eq_ok] at h
  obtain ⟨_, ⟨_, -, _, -, _, -, _, -, _, -, rfl⟩, rfl⟩ := h
  refine ⟨rfl, fun e he => (List.not_mem_nil he).elim, .inr Nat.one_ne_zero,
    fun before e after heq => ?_⟩
  exact (List.append_ne_nil_of_right_ne_nil _ (List.cons_ne_nil _ _) heq.symm).elim

/-! ## The timelock in force -/

/-- Nobody sets the timelock and no migration code runs. -/
def Undisturbed (log : List Change) : Prop :=
  (∀ e ∈ log, e.setter ≠ .setTimelock) ∧ ¬HandedOver log

theorem timelock_of_undisturbed (h : History initial log final)
    (hauthorized : ∀ e ∈ log, Authorized e) (hundisturbed : Undisturbed log) :
    final.timelock = initial.timelock := by
  induction log generalizing initial with
  | nil =>
    obtain rfl : initial = final := h
    rfl
  | cons e log ih =>
    obtain ⟨rfl, hlog⟩ := h
    obtain ⟨hset, hover⟩ := hundisturbed
    have hkept : e.after.timelock = e.before.timelock := by
      refine (hauthorized e List.mem_cons_self).kept (hset e List.mem_cons_self) fun data hdata => ?_
      by_contra hne
      exact hover ⟨e, List.mem_cons_self, data, hdata, hne⟩
    have hrest : Undisturbed log := by
      refine ⟨fun e' he' => hset e' (List.mem_cons_of_mem _ he'), ?_⟩
      rintro ⟨e', he', hdata⟩
      exact hover ⟨e', List.mem_cons_of_mem _ he', hdata⟩
    exact (ih hlog (fun e' he' => hauthorized e' (List.mem_cons_of_mem _ he')) hrest).trans hkept

/-- In every reachable state the settings are the result of the logged changes, each of which is
authorized: a function behind `onlyTimelocked` is called by the timelock in force, or by the admin
if there is none, and `setTimelock` by the admin. A timelock that has been set makes all changes
behind `onlyTimelocked` until the admin sets another one or the timelock itself lets migration code
run. -/
theorem timelocked_changes {isEngine : ℕ → Bool}
    {implementation registry verifier feeRecipient admin : ℕ}
    (hconstruct : construct implementation registry verifier feeRecipient admin = .ok s₀)
    (hs : Reachable (upgradeableBody isEngine) s₀ s) :
    History s₀.storage.settings s.log s.storage.settings ∧
      (∀ e ∈ s.log, (e.setter.timelocked = true → e.sender = authority e) ∧
        (e.setter = .setTimelock →
          e.sender = e.admin ∧ e.after = { e.before with timelock := e.after.timelock })) ∧
      (∀ before e after, s.log = before ++ e :: after → e.setter = .initializeEngine →
        HandedOver before) ∧
      ∀ old kept e rest settings, s.log = old ++ (kept ++ e :: rest) →
        History s₀.storage.settings old settings → settings.timelock ≠ 0 → Undisturbed kept →
          e.setter.timelocked = true → e.sender = settings.timelock := by
  have h : SettingsInvariant s₀.storage.settings s :=
    guarantees.reachable (construct_invariant hconstruct) hs
  refine ⟨h.history, fun e he => ⟨(h.authorized e he).timelocked, (h.authorized e he).setTimelock⟩,
    h.reinitialized, fun old kept e rest settings hlog hold hne hkept htimelocked => ?_⟩
  have hauthorized := h.authorized
  have hhistory := h.history
  rw [hlog] at hauthorized hhistory
  obtain ⟨settings', hold', hnew⟩ := history_append.mp hhistory
  obtain ⟨middle, hmiddle, hbefore, -⟩ := history_append.mp hnew
  obtain rfl : settings' = settings := history_unique hold' hold
  have htimelock : e.before.timelock = settings'.timelock := by
    rw [hbefore]
    refine timelock_of_undisturbed hmiddle (fun e' he' => hauthorized e' ?_) hkept
    exact List.mem_append_right _ (List.mem_append_left _ he')
  have he : e ∈ old ++ (kept ++ e :: rest) := by simp
  rw [(hauthorized e he).timelocked htimelocked, authority, htimelock, if_pos hne]

/-! The admin `10` sets the timelock `99`. -/

def sampleMessage (sender : ℕ) (operation : Operation) : UpgradeableMessage :=
  ⟨⟨sender, 0, 1, 1, Nat.one_pos⟩, operation,
    ⟨fun _ _ => false, fun _ _ _ _ => false, fun _ => false, fun _ _ _ _ => none⟩⟩

def timelockSet : Change :=
  ⟨.setTimelock, 10, 10, ⟨9, 250, 40, 0⟩, ⟨9, 250, 40, 99⟩⟩

theorem reachable_sample (messages : List UpgradeableMessage) (log : List Change)
    (h : okAnd (construct 9 20 30 40 10) (fun s₀ => s₀.storage.settings == ⟨9, 250, 40, 0⟩ &&
      okAnd (evalAll (upgradeableBody fun _ => true) (fun _ => some ()) messages s₀)
        (fun s => s.log == timelockSet :: log)) = true) :
    ∃ s₀ s, construct 9 20 30 40 10 = .ok s₀ ∧ Reachable (upgradeableBody fun _ => true) s₀ s ∧
      s.log = [timelockSet] ++ log ∧ History s₀.storage.settings [timelockSet] ⟨9, 250, 40, 99⟩ := by
  obtain ⟨s₀, hconstruct, h⟩ := okAnd_eq_true.mp h
  rw [Bool.and_eq_true, beq_iff_eq] at h
  obtain ⟨s, hs, hlog⟩ := okAnd_eq_true.mp h.2
  refine ⟨s₀, s, hconstruct, .of_run (.of_evalAll hs), beq_iff_eq.mp hlog, ?_⟩
  rw [h.1]
  exact ⟨rfl, rfl⟩

/-- The fee is then set by the timelock. -/
theorem fee_set_by_timelock :
    ∃ s₀ s e, construct 9 20 30 40 10 = .ok s₀ ∧
      Reachable (upgradeableBody fun _ => true) s₀ s ∧ e ∈ s.log ∧ e.setter = .setProtocolFee ∧
        e.sender = 99 := by
  set e : Change := ⟨.setProtocolFee, 99, 10, ⟨9, 250, 40, 99⟩, ⟨9, 1000, 40, 99⟩⟩
  obtain ⟨s₀, s, hconstruct, hs, hlog, hold⟩ := reachable_sample
    [sampleMessage 10 (.setTimelock 99), sampleMessage 99 (.setProtocolFee 1000)] [e]
    (by decide)
  have hsender : e.sender = 99 :=
    (timelocked_changes hconstruct hs).2.2.2 [timelockSet] [] e [] ⟨9, 250, 40, 99⟩ hlog hold
      (by decide) ⟨fun e' he' => (List.not_mem_nil he').elim,
        fun ⟨e', he', _⟩ => (List.not_mem_nil he').elim⟩ rfl
  exact ⟨s₀, s, e, hconstruct, hs, by rw [hlog]; simp, rfl, hsender⟩

/-- The admin clears the timelock and sets the fee itself. -/
theorem timelock_cleared_by_admin :
    ¬∀ s₀ s old new settings, construct 9 20 30 40 10 = .ok s₀ →
      Reachable (upgradeableBody fun _ => true) s₀ s → s.log = old ++ new →
      History s₀.storage.settings old settings → settings.timelock ≠ 0 →
        ∀ e ∈ new, e.setter.timelocked = true → e.sender = settings.timelock := by
  intro hbypass
  set e : Change := ⟨.setProtocolFee, 10, 10, ⟨9, 250, 40, 0⟩, ⟨9, 1000, 40, 0⟩⟩
  obtain ⟨s₀, s, hconstruct, hs, hlog, hold⟩ := reachable_sample
    [sampleMessage 10 (.setTimelock 99), sampleMessage 10 (.setTimelock 0),
      sampleMessage 10 (.setProtocolFee 1000)]
    [⟨.setTimelock, 10, 10, ⟨9, 250, 40, 99⟩, ⟨9, 250, 40, 0⟩⟩, e] (by decide)
  have hsender := hbypass s₀ s [timelockSet] _ ⟨9, 250, 40, 99⟩ hconstruct hs hlog hold (by decide) e
    (by simp) rfl
  exact absurd hsender (by decide)

end WorldZk.UpgradeTimelock
