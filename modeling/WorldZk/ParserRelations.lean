import Mathlib.Data.Nat.Basic
import WorldZk.OffsetParsers

/-!
# Relations between parsers

Two parsers over an offset that are built in the same way from different primitive reads are
related as their reads are, for every relation that composes along the bind. The relations of this
file are for a parser that checks its moves and one that makes them without a look at the end of
the data: what the checking one returns, the other one returns; and what the other one returns, the
checking one does when the end is not passed.
-/

namespace WorldZk.ParserRelations

open CheckedRuns OffsetParsers

variable {ε α β γ : Type}

/-- A relation between parsers for each type of values. -/
abbrev ParserRelation (ε : Type) : Type 1 :=
  (α : Type) → StateT ℕ (Except ε) α → StateT ℕ (Except ε) α → Prop

/-- The relation composes along the bind. -/
structure Congruence (R : ParserRelation ε) : Prop where
  pure : ∀ {α : Type} (a : α), R α (pure a) (pure a)
  bind : ∀ {α β : Type} {p q : StateT ℕ (Except ε) α} {f g : α → StateT ℕ (Except ε) β},
    R α p q → (∀ a, R β (f a) (g a)) → R β (p >>= f) (q >>= g)
  get : R ℕ get get

/-- A run of a bind that returns. -/
theorem run_bind_eq_ok {p : StateT ℕ (Except ε) α} {f : α → StateT ℕ (Except ε) β}
    {offset offset' : ℕ} {b : β} :
    (p >>= f).run offset = .ok (b, offset') ↔
      ∃ a mid, p.run offset = .ok (a, mid) ∧ (f a).run mid = .ok (b, offset') := by
  rw [StateT.run_bind, bind_eq_ok]
  constructor
  · rintro ⟨⟨a, mid⟩, ha, hb⟩
    exact ⟨a, mid, ha, hb⟩
  · rintro ⟨a, mid, ha, hb⟩
    exact ⟨(a, mid), ha, hb⟩

theorem run_pure_eq_ok {a b : α} {offset offset' : ℕ} :
    (pure a : StateT ℕ (Except ε) α).run offset = .ok (b, offset') ↔ a = b ∧ offset = offset' := by
  rw [StateT.run_pure, pure_eq_ok, Prod.mk.injEq]

theorem run_get_eq_ok {a offset offset' : ℕ} :
    (get : StateT ℕ (Except ε) ℕ).run offset = .ok (a, offset') ↔
      offset = a ∧ offset = offset' := by
  rw [StateT.run_get, pure_eq_ok, Prod.mk.injEq]

theorem run_set_eq_ok {saved offset offset' : ℕ} {u : PUnit} :
    (set saved : StateT ℕ (Except ε) PUnit).run offset = .ok (u, offset') ↔ saved = offset' := by
  rw [StateT.run_set, pure_eq_ok, Prod.mk.injEq]
  exact ⟨And.right, fun h => ⟨rfl, h⟩⟩

/-! ## What is returned is returned -/

def Refines (p q : StateT ℕ (Except ε) α) : Prop :=
  ∀ offset a offset', p.run offset = .ok (a, offset') → q.run offset = .ok (a, offset')

theorem Refines.refl (p : StateT ℕ (Except ε) α) : Refines p p := fun _ _ _ h => h

theorem Refines.bind {p q : StateT ℕ (Except ε) α} {f g : α → StateT ℕ (Except ε) β}
    (hp : Refines p q) (hf : ∀ a, Refines (f a) (g a)) : Refines (p >>= f) (q >>= g) := by
  intro offset b offset' h
  obtain ⟨a, mid, ha, hb⟩ := run_bind_eq_ok.mp h
  exact run_bind_eq_ok.mpr ⟨a, mid, hp offset a mid ha, hf a mid b offset' hb⟩

theorem refines_congruence : Congruence (fun _ => Refines : ParserRelation ε) where
  pure := fun a => .refl (pure a)
  bind := .bind
  get := .refl get

/-! ## The same run unless one error stops it -/

def AgreesUnless (e : ε) (p q : StateT ℕ (Except ε) α) : Prop :=
  ∀ offset, p.run offset = .error e ∨ p.run offset = q.run offset

theorem AgreesUnless.refl {e : ε} (p : StateT ℕ (Except ε) α) : AgreesUnless e p p :=
  fun _ => .inr rfl

theorem AgreesUnless.bind {e : ε} {p q : StateT ℕ (Except ε) α}
    {f g : α → StateT ℕ (Except ε) β} (hp : AgreesUnless e p q)
    (hf : ∀ a, AgreesUnless e (f a) (g a)) : AgreesUnless e (p >>= f) (q >>= g) := by
  intro offset
  rw [StateT.run_bind, StateT.run_bind]
  rcases hp offset with herror | heq
  · rw [herror]
    exact .inl rfl
  · rw [heq]
    cases hq : q.run offset with
    | error e' => exact .inr rfl
    | ok x => exact hf x.1 x.2

theorem agreesUnless_congruence (e : ε) : Congruence (fun _ => AgreesUnless e : ParserRelation ε) where
  pure := fun a => .refl (pure a)
  bind := .bind
  get := .refl get

/-! ## Moves past the end -/

/-- From inside the data `p` moves at most to `reach`, and `q` does the same where `p` stays inside.
From outside, up to the horizon, `p` returns only when it does not move. -/
structure Follows (limit reach horizon : ℕ) (p q : StateT ℕ (Except ε) α) : Prop where
  inside : ∀ offset ≤ limit, ∀ a offset', p.run offset = .ok (a, offset') →
    offset' ≤ reach ∧ (offset' ≤ limit → q.run offset = .ok (a, offset'))
  outside : ∀ offset, limit < offset → offset ≤ horizon → ∀ a offset',
    p.run offset = .ok (a, offset') → offset' = offset

variable {limit reach horizon : ℕ}

theorem follows_pure (hreach : limit ≤ reach) (a : α) :
    Follows limit reach horizon (pure a : StateT ℕ (Except ε) α) (pure a) where
  inside := by
    intro offset hoffset b offset' h
    obtain ⟨-, rfl⟩ := run_pure_eq_ok.mp h
    exact ⟨le_trans hoffset hreach, fun _ => h⟩
  outside := by
    intro offset _ _ b offset' h
    exact (run_pure_eq_ok.mp h).2.symm

theorem Follows.bind (hhorizon : reach ≤ horizon) {p q : StateT ℕ (Except ε) α}
    {f g : α → StateT ℕ (Except ε) β} (hp : Follows limit reach horizon p q)
    (hf : ∀ a, Follows limit reach horizon (f a) (g a)) :
    Follows limit reach horizon (p >>= f) (q >>= g) where
  inside := by
    intro offset hoffset b offset' h
    obtain ⟨a, mid, ha, hb⟩ := run_bind_eq_ok.mp h
    obtain ⟨hmid, hq⟩ := hp.inside offset hoffset a mid ha
    by_cases hin : mid ≤ limit
    · obtain ⟨hoffset', hg⟩ := (hf a).inside mid hin b offset' hb
      exact ⟨hoffset', fun hend => run_bind_eq_ok.mpr ⟨a, mid, hq hin, hg hend⟩⟩
    · -- Nothing moves after the end has been passed.
      obtain rfl := (hf a).outside mid (not_le.mp hin) (le_trans hmid hhorizon) b offset' hb
      exact ⟨hmid, fun hend => absurd hend hin⟩
  outside := by
    intro offset hlimit hoffset b offset' h
    obtain ⟨a, mid, ha, hb⟩ := run_bind_eq_ok.mp h
    obtain rfl := hp.outside offset hlimit hoffset a mid ha
    exact (hf a).outside mid hlimit hoffset b offset' hb

theorem follows_get (hreach : limit ≤ reach) :
    Follows limit reach horizon (get : StateT ℕ (Except ε) ℕ) get where
  inside := by
    intro offset hoffset b offset' h
    obtain ⟨-, rfl⟩ := run_get_eq_ok.mp h
    exact ⟨le_trans hoffset hreach, fun _ => h⟩
  outside := by
    intro offset _ _ b offset' h
    exact (run_get_eq_ok.mp h).2.symm

theorem follows_congruence (hreach : limit ≤ reach) (hhorizon : reach ≤ horizon) :
    Congruence (fun _ => Follows limit reach horizon : ParserRelation ε) where
  pure := follows_pure hreach
  bind := .bind hhorizon
  get := follows_get hreach

/-- A parser that stops inside the data is followed from wherever it has started. -/
theorem Follows.run {p q : StateT ℕ (Except ε) α} (h : Follows limit reach horizon p q)
    {offset offset' : ℕ} {a : α} (hoffset : offset ≤ horizon)
    (hrun : p.run offset = .ok (a, offset')) (hend : offset' ≤ limit) :
    q.run offset = .ok (a, offset') := by
  by_cases hin : offset ≤ limit
  · exact (h.inside offset hin a offset' hrun).2 hend
  · obtain rfl := h.outside offset (not_le.mp hin) hoffset a offset' hrun
    exact absurd hend hin

/-! ## Where a parser stops -/

def EndsWithin (limit : ℕ) (p : StateT ℕ (Except ε) α) : Prop :=
  ∀ offset a offset', p.run offset = .ok (a, offset') → offset' ≤ limit

theorem EndsWithin.bind {p : StateT ℕ (Except ε) α} {f : α → StateT ℕ (Except ε) β}
    (hf : ∀ a, EndsWithin limit (f a)) : EndsWithin limit (p >>= f) := by
  intro offset b offset' h
  obtain ⟨a, mid, -, hb⟩ := run_bind_eq_ok.mp h
  exact hf a mid b offset' hb

theorem EndsWithin.map {p : StateT ℕ (Except ε) α} {f : α → β} (hp : EndsWithin limit p) :
    EndsWithin limit (p >>= fun a => pure (f a)) := by
  intro offset b offset' h
  obtain ⟨a, mid, ha, hb⟩ := run_bind_eq_ok.mp h
  obtain ⟨-, rfl⟩ := run_pure_eq_ok.mp hb
  exact hp offset a mid ha

/-- The second parser stops wherever the first one does. -/
def Mirrors (p : StateT ℕ (Except ε) α) (q : StateT ℕ (Except ε) β) : Prop :=
  ∀ offset a offset', p.run offset = .ok (a, offset') → ∃ b, q.run offset = .ok (b, offset')

end WorldZk.ParserRelations
