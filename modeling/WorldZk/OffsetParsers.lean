import WorldZk.CheckedRuns

/-!
# Parsers over an offset

A parser here moves an offset through data that it has in its closure. `Reads` says what a parser
makes of a stretch of words, wherever the stretch stands in the data, and `Yields` what holds of
every value it can return. Both compose along the bind.
-/

namespace WorldZk.OffsetParsers

open CheckedRuns

variable {ε α β : Type}

/-- The parser reads the words `ws` as the value `a`, wherever they stand in `data`. A word takes
`size` units of the offset. -/
def Reads (size : ℕ) (data : List ℕ) (p : StateT ℕ (Except ε) α) (ws : List ℕ) (a : α) : Prop :=
  ∀ k, ws <+: data.drop k → p.run (size * k) = .ok (a, size * (k + ws.length))

/-- Every value that the parser returns satisfies `P`. -/
def Yields (p : StateT ℕ (Except ε) α) (P : α → Prop) : Prop :=
  ∀ offset a offset', p.run offset = .ok (a, offset') → P a

section Reading

variable {size : ℕ} {data : List ℕ}

theorem reads_pure (a : α) : Reads size data (pure a : StateT ℕ (Except ε) α) [] a := by
  intro k _
  rfl

theorem Reads.bind {p : StateT ℕ (Except ε) α} {f : α → StateT ℕ (Except ε) β} {ws ws' : List ℕ}
    {a : α} {b : β} (hp : Reads size data p ws a) (hf : Reads size data (f a) ws' b) :
    Reads size data (p >>= f) (ws ++ ws') b := by
  intro k hk
  have hfirst : ws <+: data.drop k := (List.prefix_append ws ws').trans hk
  have hsecond : ws' <+: data.drop (k + ws.length) := by
    obtain ⟨rest, hrest⟩ := hk
    refine ⟨rest, ?_⟩
    rw [← List.drop_drop, ← hrest, List.append_assoc, List.drop_left]
  rw [StateT.run_bind, hp k hfirst, ok_bind, hf (k + ws.length) hsecond, List.length_append,
    Nat.add_assoc]

/-- A read whose value is passed through a function. -/
theorem Reads.map {p : StateT ℕ (Except ε) α} {f : α → β} {ws : List ℕ} {a : α}
    (hp : Reads size data p ws a) :
    Reads size data (do pure (f (← p)) : StateT ℕ (Except ε) β) ws (f a) := by
  have hpure : Reads size data (pure (f a) : StateT ℕ (Except ε) β) [] (f a) := reads_pure (f a)
  have h := hp.bind (f := fun a => pure (f a)) hpure
  rwa [List.append_nil] at h

/-- A stretch that is first passed over and then read from its start. -/
theorem Reads.twice {p : StateT ℕ (Except ε) α} {q : StateT ℕ (Except ε) β} {ws : List ℕ} {a : α}
    {b : β} (hp : Reads size data p ws a) (hq : Reads size data q ws b) :
    Reads size data (do let saved ← get; let _ ← p; set saved; q) ws b := by
  intro k hk
  rw [StateT.run_bind, StateT.run_get, pure_bind, StateT.run_bind, hp k hk, ok_bind,
    StateT.run_bind, StateT.run_set, pure_bind, hq k hk]

end Reading

theorem yields_pure {P : α → Prop} {a : α} (ha : P a) :
    Yields (pure a : StateT ℕ (Except ε) α) P := by
  intro offset a' offset' h
  obtain ⟨rfl, -⟩ := Prod.mk.inj (Except.ok.inj h)
  exact ha

theorem Yields.bind {p : StateT ℕ (Except ε) α} {f : α → StateT ℕ (Except ε) β} {P : α → Prop}
    {Q : β → Prop} (hp : Yields p P) (hf : ∀ a, P a → Yields (f a) Q) : Yields (p >>= f) Q := by
  intro offset b offset' h
  rw [StateT.run_bind, bind_eq_ok] at h
  obtain ⟨⟨a, mid⟩, ha, hb⟩ := h
  exact hf a (hp offset a mid ha) mid b offset' hb

theorem Yields.trivial (p : StateT ℕ (Except ε) α) : Yields p fun _ => True :=
  fun _ _ _ _ => True.intro

end WorldZk.OffsetParsers
