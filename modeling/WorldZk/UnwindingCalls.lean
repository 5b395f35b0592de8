import WorldZk.CheckedRuns

/-!
# Calls that may not return

A call returns a value or an error, unless it escapes: it unwinds, or it brings the process down.
Escapes pass through every bind, so a sequence returns when each of its calls does, on the values
that the calls before it have returned.
-/

namespace WorldZk.UnwindingCalls

open CheckedRuns

variable {π ε ε' α β : Type}

/-- A call with escapes in `π` and errors in `ε`. -/
abbrev Call (π ε α : Type) : Type := ExceptT ε (Except π) α

namespace Call

def escape (p : π) : Call π ε α := .mk (.error p)

def returning (x : Except ε α) : Call π ε α := .mk (.ok x)

/-- A call that has no errors of its own. -/
def orEscape (x : Except π α) : Call π ε α := .mk (Except.ok <$> x)

def Returns (x : Call π ε α) : Prop := ∃ result, x.run = .ok result

/-- What the call returns is `y`. -/
def Refines (x : Call π ε α) (y : Except ε α) : Prop := ∀ result, x.run = .ok result → result = y

/-- The same call with its errors passed through a function. -/
def mapError (f : ε → ε') (x : Call π ε α) : Call π ε' α := .mk (Except.mapError f <$> x.run)

@[simp] theorem run_escape (p : π) : (escape p : Call π ε α).run = .error p := rfl

@[simp] theorem run_returning (x : Except ε α) : (returning x : Call π ε α).run = .ok x := rfl

/-! ## Returning -/

theorem returns_returning (x : Except ε α) : (returning x : Call π ε α).Returns := ⟨x, rfl⟩

theorem returns_pure (a : α) : (pure a : Call π ε α).Returns := ⟨.ok a, rfl⟩

theorem not_returns_escape (p : π) : ¬(escape p : Call π ε α).Returns := by
  rintro ⟨result, h⟩
  cases h

/-- A sequence returns when its first call does, and its rest does after every value of the first
call. -/
theorem returns_bind {x : Call π ε α} {f : α → Call π ε β} :
    (x >>= f).Returns ↔ x.Returns ∧ ∀ a, x.run = .ok (.ok a) → (f a).Returns := by
  have hrun : (x >>= f).run = x.run >>= ExceptT.bindCont f := rfl
  unfold Returns
  rw [hrun]
  cases x.run with
  | error p =>
    constructor
    · rintro ⟨result, h⟩
      cases h
    · rintro ⟨⟨result, h⟩, -⟩
      cases h
  | ok result =>
    cases result with
    | error e => exact ⟨fun _ => ⟨⟨_, rfl⟩, nofun⟩, fun _ => ⟨_, rfl⟩⟩
    | ok a =>
      constructor
      · intro h
        refine ⟨⟨_, rfl⟩, ?_⟩
        intro a' ha
        cases ha
        exact h
      · exact fun h => h.2 a rfl

theorem returns_returning_bind {x : Except ε α} {f : α → Call π ε β} :
    (returning x >>= f : Call π ε β).Returns ↔ ∀ a, x = .ok a → (f a).Returns := by
  rw [returns_bind]
  constructor
  · exact fun h a ha => h.2 a (congrArg Except.ok ha)
  · exact fun h => ⟨returns_returning x, fun a ha => h a (Except.ok.inj ha)⟩

theorem returns_orEscape_bind {x : Except π α} {f : α → Call π ε β} :
    (orEscape x >>= f : Call π ε β).Returns ↔ ∃ a, x = .ok a ∧ (f a).Returns := by
  rw [returns_bind]
  cases x with
  | error p =>
    constructor
    · rintro ⟨⟨result, h⟩, -⟩
      cases h
    · rintro ⟨a, h, -⟩
      cases h
  | ok a =>
    constructor
    · exact fun h => ⟨a, rfl, h.2 a rfl⟩
    · rintro ⟨a', h, hreturns⟩
      cases h
      refine ⟨⟨_, rfl⟩, fun b hb => ?_⟩
      cases hb
      exact hreturns

theorem returns_mapError {f : ε → ε'} {x : Call π ε α} : (x.mapError f).Returns ↔ x.Returns := by
  constructor
  · rintro ⟨result, h⟩
    obtain ⟨result', hresult', -⟩ := map_eq_ok.mp h
    exact ⟨result', hresult'⟩
  · rintro ⟨result, h⟩
    exact ⟨result.mapError f, map_eq_ok.mpr ⟨result, h, rfl⟩⟩

/-! ## What is returned -/

theorem run_mapError_eq_ok {f : ε → ε'} {x : Call π ε α} {a : α} :
    (x.mapError f).run = .ok (.ok a) ↔ x.run = .ok (.ok a) := by
  have hrun : (x.mapError f).run = Except.mapError f <$> x.run := rfl
  rw [hrun, map_eq_ok]
  constructor
  · rintro ⟨result, hresult, ha⟩
    rw [hresult, mapError_eq_ok.mp ha]
  · intro ha
    exact ⟨.ok a, ha, rfl⟩

theorem refines_returning (x : Except ε α) : (returning x : Call π ε α).Refines x := by
  intro result h
  exact (Except.ok.inj h).symm

theorem refines_pure (a : α) : (pure a : Call π ε α).Refines (pure a) := refines_returning (.ok a)

/-- A call that returns a value refines only the computation of that value. -/
theorem Refines.run_eq_ok {x : Call π ε α} {y : Except ε α} (h : x.Refines y) (hx : x.Returns)
    {a : α} (ha : y = .ok a) : x.run = .ok (.ok a) := by
  obtain ⟨result, hresult⟩ := hx
  rw [hresult, h result hresult, ha]

theorem Refines.bind {x : Call π ε α} {y : Except ε α} {f : α → Call π ε β} {g : α → Except ε β}
    (hx : x.Refines y) (hf : ∀ a, (f a).Refines (g a)) : (x >>= f).Refines (y >>= g) := by
  intro result h
  have hrun : (x >>= f).run = x.run >>= ExceptT.bindCont f := rfl
  rw [hrun] at h
  obtain ⟨first, hfirst, hrest⟩ := bind_eq_ok.mp h
  rw [← hx first hfirst]
  cases first with
  | error e => exact (Except.ok.inj hrest).symm
  | ok a => exact hf a result hrest

end Call

/-! ## Parsers whose steps may not return -/

/-- A parser over an offset whose steps are calls. -/
abbrev ParserCall (π ε α : Type) : Type := StateT ℕ (Call π ε) α

namespace ParserCall

/-- The parser that always returns. -/
def ofParser (p : StateT ℕ (Except ε) α) : ParserCall π ε α := fun offset =>
  .returning (p.run offset)

/-- The parser that makes a call where it stands. -/
def ofCall (x : Call π ε α) : ParserCall π ε α := fun offset => do
  let a ← x
  pure (a, offset)

/-- What the parser returns is what `q` makes of the data. -/
def Refines (p : ParserCall π ε α) (q : StateT ℕ (Except ε) α) : Prop :=
  ∀ offset, (p.run offset).Refines (q.run offset)

@[simp] theorem run_ofParser (p : StateT ℕ (Except ε) α) (offset : ℕ) :
    (ofParser p : ParserCall π ε α).run offset = .returning (p.run offset) := rfl

theorem refines_ofParser (p : StateT ℕ (Except ε) α) : (ofParser p : ParserCall π ε α).Refines p :=
  fun offset => Call.refines_returning (p.run offset)

theorem refines_pure (a : α) : (pure a : ParserCall π ε α).Refines (pure a) :=
  fun offset => Call.refines_pure (a, offset)

theorem Refines.bind {p : ParserCall π ε α} {q : StateT ℕ (Except ε) α} {f : α → ParserCall π ε β}
    {g : α → StateT ℕ (Except ε) β} (hp : p.Refines q) (hf : ∀ a, (f a).Refines (g a)) :
    (p >>= f).Refines (q >>= g) := by
  intro offset
  rw [StateT.run_bind, StateT.run_bind]
  exact (hp offset).bind fun x => hf x.1 x.2

theorem run_ofCall_bind (x : Call π ε Unit) (f : ParserCall π ε α) (offset : ℕ) :
    (ofCall x >>= fun _ => f).run offset = x >>= fun _ => f.run offset := by
  rw [StateT.run_bind]
  exact bind_assoc x _ _

/-- A call without a value of its own leaves the rest of the parser as it is. -/
theorem refines_ofCall_bind {x : Call π ε Unit} (hx : x.Refines (pure ())) {f : ParserCall π ε α}
    {q : StateT ℕ (Except ε) α} (hf : f.Refines q) : (ofCall x >>= fun _ => f).Refines q := by
  intro offset
  rw [run_ofCall_bind]
  exact hx.bind fun _ => hf offset

/-- A parser that always returns, before the rest of a parser. -/
theorem returns_ofParser_bind_of_ok {p : StateT ℕ (Except ε) α} {f : α → ParserCall π ε β}
    {offset mid : ℕ} {a : α} (h : p.run offset = .ok (a, mid)) :
    (((ofParser p : ParserCall π ε α) >>= f).run offset).Returns ↔ ((f a).run mid).Returns := by
  rw [StateT.run_bind, run_ofParser, Call.returns_returning_bind]
  constructor
  · exact fun hall => hall (a, mid) h
  · intro hreturns x hx
    obtain rfl : (a, mid) = x := Except.ok.inj (h.symm.trans hx)
    exact hreturns

theorem returns_ofParser_bind_of_error {p : StateT ℕ (Except ε) α} {f : α → ParserCall π ε β}
    {offset : ℕ} {e : ε} (h : p.run offset = .error e) :
    (((ofParser p : ParserCall π ε α) >>= f).run offset).Returns := by
  rw [StateT.run_bind, run_ofParser, Call.returns_returning_bind]
  intro x hx
  rw [h] at hx
  cases hx

theorem returns_ofCall_bind {x : Call π ε Unit} {f : ParserCall π ε α} {offset : ℕ}
    (hx : x.Refines (pure ())) :
    ((ofCall x >>= fun _ => f).run offset).Returns ↔ x.Returns ∧ (f.run offset).Returns := by
  rw [run_ofCall_bind, Call.returns_bind]
  constructor
  · exact fun h => ⟨h.1, h.2 () (hx.run_eq_ok h.1 rfl)⟩
  · exact fun h => ⟨h.1, fun _ _ => h.2⟩

end ParserCall

end WorldZk.UnwindingCalls
