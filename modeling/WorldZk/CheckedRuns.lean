import Mathlib.Data.List.Basic
import Mathlib.Data.List.Forall2

/-!
# Checked computations

Inversion lemmas for `Except` computations, the guard and the checked list access that
translate a `require` and an array access, and rules for the loops built on them. They hold for
any error type.
-/

namespace WorldZk.CheckedRuns

universe u

variable {ε : Type u} {α β σ : Type u}

theorem bind_eq_ok {x : Except ε α} {f : α → Except ε β} {b : β} :
    x >>= f = .ok b ↔ ∃ a, x = .ok a ∧ f a = .ok b := by
  cases x with
  | error e => exact ⟨fun h => (by cases h), fun ⟨_, h, _⟩ => (by cases h)⟩
  | ok a =>
    constructor
    · exact fun h => ⟨a, rfl, h⟩
    · rintro ⟨_, h, hf⟩
      cases h
      exact hf

theorem bind_ne_error {x : Except ε α} {f : α → Except ε β} {e : ε} (hx : x ≠ .error e)
    (hf : ∀ a, f a ≠ .error e) : x >>= f ≠ .error e := by
  cases x with
  | error e' => exact fun h => hx (by cases h; rfl)
  | ok a => exact hf a

theorem pure_eq_ok {a b : α} : (pure a : Except ε α) = .ok b ↔ a = b :=
  ⟨fun h => (by cases h; rfl), fun h => (by rw [h]; rfl)⟩

@[simp] theorem ok_bind (a : α) (f : α → Except ε β) : (Except.ok a >>= f) = f a := rfl

@[simp] theorem error_bind (e : ε) (f : α → Except ε β) :
    ((Except.error e : Except ε α) >>= f) = .error e := rfl

@[simp] theorem pure_bind_ok (a : α) (f : α → Except ε β) :
    ((pure a : Except ε α) >>= f) = f a := rfl

theorem map_eq_ok {x : Except ε α} {f : α → β} {b : β} :
    f <$> x = .ok b ↔ ∃ a, x = .ok a ∧ f a = b := by
  cases x with
  | error e => exact ⟨fun h => (by cases h), fun ⟨_, h, _⟩ => (by cases h)⟩
  | ok a =>
    constructor
    · intro h
      exact ⟨a, rfl, by cases h; rfl⟩
    · rintro ⟨_, h, rfl⟩
      cases h
      rfl

/-- Whether a computation succeeds with a result that satisfies `p`. -/
def okAnd (x : Except ε α) (p : α → Bool) : Bool :=
  match x with
  | .ok a => p a
  | .error _ => false

theorem okAnd_eq_true {x : Except ε α} {p : α → Bool} :
    okAnd x p = true ↔ ∃ a, x = .ok a ∧ p a = true := by
  cases x with
  | error e => exact ⟨fun h => (by cases h), fun ⟨_, h, _⟩ => (by cases h)⟩
  | ok a =>
    constructor
    · exact fun h => ⟨a, rfl, h⟩
    · rintro ⟨_, h, hp⟩
      cases h
      exact hp

/-- Stop with `e` unless `c` holds. -/
def require {ε : Type} (c : Bool) (e : ε) : Except ε Unit := if c then .ok () else .error e

section Guard

variable {ε : Type}

@[simp] theorem require_eq_ok {c : Bool} {e : ε} {u : Unit} : require c e = .ok u ↔ c = true := by
  cases c
  · exact ⟨fun h => (by cases h), fun h => (by cases h)⟩
  · exact ⟨fun _ => rfl, fun _ => rfl⟩

@[simp] theorem require_true (e : ε) : require true e = .ok () := rfl

@[simp] theorem require_false (e : ε) : require false e = .error e := rfl

/-- The value of an `Option`, or the error. -/
def okOr {α : Type} (e : ε) : Option α → Except ε α
  | some a => .ok a
  | none => .error e

@[simp] theorem okOr_eq_ok {α : Type} {e : ε} {x : Option α} {a : α} :
    okOr e x = .ok a ↔ x = some a := by
  cases x with
  | none => exact ⟨fun h => (by cases h), fun h => (by cases h)⟩
  | some b => exact ⟨fun h => (by cases h; rfl), fun h => (by cases h; rfl)⟩

theorem mapError_eq_ok {α ε' : Type} {f : ε → ε'} {x : Except ε α} {a : α} :
    x.mapError f = .ok a ↔ x = .ok a := by
  cases x with
  | error e => exact ⟨fun h => (by cases h), fun h => (by cases h)⟩
  | ok b => exact ⟨fun h => (by cases h; rfl), fun h => (by cases h; rfl)⟩

/-- Checked access to a list. -/
def getOr {α : Type} (e : ε) (xs : List α) (i : ℕ) : Except ε α :=
  match xs[i]? with
  | some a => .ok a
  | none => .error e

theorem getOr_eq_ok {α : Type} {e : ε} {xs : List α} {i : ℕ} {a : α} :
    getOr e xs i = .ok a ↔ xs[i]? = some a := by
  unfold getOr
  split <;> simp_all

end Guard

section Loops

variable {ε : Type} {α σ : Type}

/-- A mapped computation succeeds when every element does, with the results in order. -/
theorem mapM_eq_ok {β : Type} {f : α → Except ε β} {xs : List α} {ys : List β} :
    xs.mapM f = .ok ys ↔ List.Forall₂ (fun x y => f x = .ok y) xs ys := by
  induction xs generalizing ys with
  | nil =>
    rw [List.mapM_nil, pure_eq_ok, List.forall₂_nil_left_iff]
    exact eq_comm
  | cons x xs ih =>
    simp only [List.mapM_cons, bind_eq_ok, pure_eq_ok, ih, List.forall₂_cons_left_iff]
    constructor
    · rintro ⟨y, hy, ys', hys, rfl⟩
      exact ⟨y, ys', hy, hys, rfl⟩
    · rintro ⟨y, ys', hy, hys, rfl⟩
      exact ⟨y, hy, ys', hys, rfl⟩

theorem mapM_eq_some {β : Type} {f : α → Option β} {xs : List α} {ys : List β} :
    xs.mapM f = some ys ↔ List.Forall₂ (fun x y => f x = some y) xs ys := by
  induction xs generalizing ys with
  | nil =>
    rw [List.mapM_nil, List.forall₂_nil_left_iff]
    exact ⟨fun h => (by cases h; rfl), fun h => (by rw [h]; rfl)⟩
  | cons x xs ih =>
    simp only [List.mapM_cons, bind, Option.bind_eq_some_iff, ih, List.forall₂_cons_left_iff]
    constructor
    · rintro ⟨y, hy, ys', hys, h⟩
      cases h
      exact ⟨y, ys', hy, hys, rfl⟩
    · rintro ⟨y, ys', hy, hys, rfl⟩
      exact ⟨y, hy, ys', hys, rfl⟩

/-- The partner of an element at a place. -/
theorem forall₂_getElem? {β : Type} {R : α → β → Prop} {xs : List α} {ys : List β}
    (h : List.Forall₂ R xs ys) {i : ℕ} {x : α} (hx : xs[i]? = some x) :
    ∃ y, ys[i]? = some y ∧ R x y := by
  obtain ⟨hlen, hget⟩ := List.forall₂_iff_get.mp h
  obtain ⟨hi, rfl⟩ := List.getElem?_eq_some_iff.mp hx
  exact ⟨_, List.getElem?_eq_getElem (hlen ▸ hi), hget i hi (hlen ▸ hi)⟩

/-- The partners of an index range, each at its index. -/
theorem forall₂_range_getElem? {β : Type} {R : ℕ → β → Prop} {n : ℕ} {ys : List β}
    (h : List.Forall₂ R (List.range n) ys) :
    ys.length = n ∧ ∀ i y, ys[i]? = some y → R i y := by
  have hlength : ys.length = n := by
    rw [← h.length_eq, List.length_range]
  refine ⟨hlength, fun i y hy => ?_⟩
  have hi : i < n := by
    rw [← hlength]
    exact (List.getElem?_eq_some_iff.mp hy).1
  obtain ⟨y', hy', hpartner⟩ := forall₂_getElem? h (List.getElem?_range hi)
  obtain rfl : y = y' := Option.some.inj (hy.symm.trans hy')
  exact hpartner

/-- What holds of every result of `f` holds of every element of a mapped computation. -/
theorem mapM_forall {β : Type} {f : α → Except ε β} {P : β → Prop} {xs : List α} {ys : List β}
    (h : xs.mapM f = .ok ys) (hf : ∀ x y, x ∈ xs → f x = .ok y → P y) : ∀ y ∈ ys, P y := by
  have hall := mapM_eq_ok.mp h
  clear h
  induction hall with
  | nil => simp
  | @cons x y xs ys hxy _ ih =>
    intro z hz
    rcases List.mem_cons.mp hz with rfl | hz
    · exact hf x z List.mem_cons_self hxy
    · exact ih (fun x y hx => hf x y (List.mem_cons_of_mem _ hx)) z hz

private theorem filterAuxM_of_ok {p : α → Except ε Bool} {q : α → Bool} {xs : List α}
    (h : ∀ x ∈ xs, p x = .ok (q x)) (acc : List α) :
    xs.filterAuxM p acc = .ok ((xs.filter q).reverse ++ acc) := by
  induction xs generalizing acc with
  | nil => rfl
  | cons x xs ih =>
    rw [List.filterAuxM, h x List.mem_cons_self, ok_bind,
      ih (fun y hy => h y (List.mem_cons_of_mem _ hy))]
    cases hq : q x
    · rw [List.filter_cons_of_neg (by simp [hq]), cond_false]
    · rw [List.filter_cons_of_pos hq, cond_true, List.reverse_cons, List.append_assoc,
        List.singleton_append]

theorem filterM_of_ok {p : α → Except ε Bool} {q : α → Bool} {xs : List α}
    (h : ∀ x ∈ xs, p x = .ok (q x)) : xs.filterM p = .ok (xs.filter q) := by
  rw [List.filterM, filterAuxM_of_ok h, List.append_nil, ok_bind, List.reverse_reverse]
  rfl

theorem mapM_congr {β : Type} {f g : α → Except ε β} {xs : List α} (h : ∀ x ∈ xs, f x = g x) :
    xs.mapM f = xs.mapM g := by
  induction xs with
  | nil => rfl
  | cons x xs ih =>
    rw [List.mapM_cons, List.mapM_cons, h x List.mem_cons_self,
      ih (fun y hy => h y (List.mem_cons_of_mem _ hy))]

theorem mapM_of_ok {β : Type} {f : α → Except ε β} {g : α → β} {xs : List α}
    (h : ∀ x ∈ xs, f x = .ok (g x)) : xs.mapM f = .ok (xs.map g) := by
  induction xs with
  | nil => rfl
  | cons x xs ih =>
    rw [List.mapM_cons, h x List.mem_cons_self, ok_bind,
      ih (fun y hy => h y (List.mem_cons_of_mem _ hy)), ok_bind, List.map_cons]
    rfl

/-- A map whose steps all succeed, with what they say of their results. -/
theorem exists_mapM_ok {β γ : Type} {f : α → Except ε β} {k : β → γ} {e : α → γ} {xs : List α}
    (hf : ∀ x ∈ xs, ∃ y, f x = .ok y ∧ k y = e x) :
    ∃ ys, xs.mapM f = .ok ys ∧ ys.map k = xs.map e := by
  induction xs with
  | nil => exact ⟨[], rfl, rfl⟩
  | cons x xs ih =>
    obtain ⟨y, hy, hk⟩ := hf x List.mem_cons_self
    obtain ⟨ys, hys, hmap⟩ := ih fun x hx => hf x (List.mem_cons_of_mem _ hx)
    refine ⟨y :: ys, ?_, by rw [List.map_cons, List.map_cons, hk, hmap]⟩
    rw [List.mapM_cons, hy, ok_bind, hys, ok_bind]
    rfl

theorem forM_eq_ok {f : α → Except ε Unit} {xs : List α} {u : Unit} :
    xs.forM f = .ok u ↔ ∀ x ∈ xs, f x = .ok () := by
  induction xs with
  | nil => exact ⟨fun _ => (by simp), fun _ => rfl⟩
  | cons x xs ih =>
    have hcons : (x :: xs).forM f = f x >>= fun _ => xs.forM f := rfl
    rw [hcons, bind_eq_ok, List.forall_mem_cons, ← ih]
    constructor
    · rintro ⟨_, hx, hxs⟩
      exact ⟨hx, hxs⟩
    · rintro ⟨hx, hxs⟩
      exact ⟨(), hx, hxs⟩

theorem foldlM_append (f : σ → α → Except ε σ) (s : σ) (xs ys : List α) :
    (xs ++ ys).foldlM f s = xs.foldlM f s >>= fun t => ys.foldlM f t := by
  simp

theorem foldlM_congr {f g : σ → α → Except ε σ} {xs : List α} (h : ∀ s, ∀ x ∈ xs, f s x = g s x)
    (s : σ) : xs.foldlM f s = xs.foldlM g s := by
  induction xs generalizing s with
  | nil => rfl
  | cons x xs ih =>
    rw [List.foldlM_cons, List.foldlM_cons, h s x List.mem_cons_self]
    exact congrArg _ (funext fun t => ih (fun s y hy => h s y (List.mem_cons_of_mem _ hy)) t)

/-- An invariant of every step is an invariant of the loop. -/
theorem foldlM_invariant {f : σ → α → Except ε σ} {P : σ → Prop} {xs : List α}
    (hstep : ∀ s x t, x ∈ xs → P s → f s x = .ok t → P t) {s t : σ} (hs : P s)
    (h : xs.foldlM f s = .ok t) : P t := by
  induction xs generalizing s with
  | nil =>
    rw [List.foldlM_nil, pure_eq_ok] at h
    exact h ▸ hs
  | cons x xs ih =>
    rw [List.foldlM_cons, bind_eq_ok] at h
    obtain ⟨s', hs', hrest⟩ := h
    exact ih (fun s x t hx => hstep s x t (List.mem_cons_of_mem _ hx))
      (hstep s x s' List.mem_cons_self hs hs') hrest

/-- A loop that simulates each step of another simulates the whole loop. -/
theorem foldlM_simulation {τ : Type} {f : σ → α → Except ε σ} {g : τ → α → Except ε τ}
    {R : σ → τ → Prop}
    (hstep : ∀ s s' t a, R s t → f s a = .ok s' → ∃ t', g t a = .ok t' ∧ R s' t') {xs : List α}
    {s s' : σ} {t : τ} (hR : R s t) (h : xs.foldlM f s = .ok s') :
    ∃ t', xs.foldlM g t = .ok t' ∧ R s' t' := by
  induction xs generalizing s t with
  | nil =>
    rw [List.foldlM_nil, pure_eq_ok] at h
    exact ⟨t, rfl, h ▸ hR⟩
  | cons a xs ih =>
    rw [List.foldlM_cons, bind_eq_ok] at h
    obtain ⟨s₁, ha, hxs⟩ := h
    obtain ⟨t₁, ht, hR₁⟩ := hstep s s₁ t a hR ha
    rw [List.foldlM_cons, ht, ok_bind]
    exact ih hR₁ hxs

/-- Two loops that differ in a condition on each element, as long as an invariant holds, differ in
the conditions on all elements. -/
theorem foldlM_iff_of_invariant {f g : σ → α → Except ε σ} {P : σ → Prop} {Q : α → Prop}
    {xs : List α}
    (hstep : ∀ s x t, x ∈ xs → P s → (f s x = .ok t ↔ g s x = .ok t ∧ Q x))
    (hkeep : ∀ s x t, x ∈ xs → P s → f s x = .ok t → P t) {s t : σ} (hs : P s) :
    xs.foldlM f s = .ok t ↔ xs.foldlM g s = .ok t ∧ ∀ x ∈ xs, Q x := by
  induction xs generalizing s with
  | nil =>
    rw [List.foldlM_nil, List.foldlM_nil]
    exact ⟨fun h => ⟨h, fun x hx => absurd hx List.not_mem_nil⟩, fun h => h.1⟩
  | cons x xs ih =>
    have htail := @ih (fun s y t hy => hstep s y t (List.mem_cons_of_mem _ hy))
      (fun s y t hy => hkeep s y t (List.mem_cons_of_mem _ hy))
    rw [List.foldlM_cons, List.foldlM_cons, bind_eq_ok, bind_eq_ok, List.forall_mem_cons]
    constructor
    · rintro ⟨s', hs', hrest⟩
      obtain ⟨hg, hx⟩ := (hstep s x s' List.mem_cons_self hs).mp hs'
      obtain ⟨hrest, hxs⟩ := (htail (hkeep s x s' List.mem_cons_self hs hs')).mp hrest
      exact ⟨⟨s', hg, hrest⟩, hx, hxs⟩
    · rintro ⟨⟨s', hg, hrest⟩, hx, hxs⟩
      have hs' := (hstep s x s' List.mem_cons_self hs).mpr ⟨hg, hx⟩
      exact ⟨s', hs', (htail (hkeep s x s' List.mem_cons_self hs hs')).mpr ⟨hrest, hxs⟩⟩

theorem foldlM_steps {f : σ → α → Except ε σ} {xs : List α} {s t : σ}
    (h : xs.foldlM f s = .ok t) : ∀ x ∈ xs, ∃ s' t', f s' x = .ok t' := by
  induction xs generalizing s with
  | nil => simp
  | cons x xs ih =>
    rw [List.foldlM_cons, bind_eq_ok] at h
    obtain ⟨s', hs', hrest⟩ := h
    intro y hy
    rcases List.mem_cons.mp hy with rfl | hy
    · exact ⟨s, s', hs'⟩
    · exact ih hrest y hy

theorem exists_mapM_eq_some_iff {β : Type} {f : α → Option β} {xs : List α} :
    (∃ ys, xs.mapM f = some ys) ↔ ∀ x ∈ xs, ∃ y, f x = some y := by
  induction xs with
  | nil => exact ⟨fun _ x h => absurd h List.not_mem_nil, fun _ => ⟨[], rfl⟩⟩
  | cons x xs ih =>
    rw [List.forall_mem_cons, ← ih, List.mapM_cons]
    constructor
    · rintro ⟨ys, hys⟩
      simp only [bind, Option.bind_eq_some_iff] at hys
      obtain ⟨y, hy, rest, hrest, -⟩ := hys
      exact ⟨⟨y, hy⟩, rest, hrest⟩
    · rintro ⟨⟨y, hy⟩, rest, hrest⟩
      exact ⟨y :: rest, by rw [hy, hrest]; rfl⟩

theorem exists_mapM_eq_ok_iff {β : Type} {f : α → Except ε β} {xs : List α} :
    (∃ ys, xs.mapM f = .ok ys) ↔ ∀ x ∈ xs, ∃ y, f x = .ok y := by
  induction xs with
  | nil => exact ⟨fun _ x h => absurd h List.not_mem_nil, fun _ => ⟨[], rfl⟩⟩
  | cons x xs ih =>
    rw [List.forall_mem_cons, ← ih, List.mapM_cons]
    constructor
    · rintro ⟨ys, hys⟩
      simp only [bind_eq_ok] at hys
      obtain ⟨y, hy, rest, hrest, -⟩ := hys
      exact ⟨⟨y, hy⟩, rest, hrest⟩
    · rintro ⟨⟨y, hy⟩, rest, hrest⟩
      exact ⟨y :: rest, by rw [hy, hrest]; rfl⟩

theorem mapM_ne_error {β : Type} {f : α → Except ε β} {e : ε} {xs : List α}
    (h : ∀ x ∈ xs, f x ≠ .error e) : xs.mapM f ≠ .error e := by
  induction xs with
  | nil => exact fun h => (by cases h)
  | cons x xs ih =>
    obtain ⟨hx, hxs⟩ := List.forall_mem_cons.mp h
    rw [List.mapM_cons]
    exact bind_ne_error hx fun y => bind_ne_error (ih hxs) fun ys h => (by cases h)

/-- The elements before the first one that is not accepted are good. -/
def GoodUntil (accepts good : α → Prop) (xs : List α) : Prop :=
  ∀ (k : ℕ) (x : α), xs[k]? = some x → (∀ j ≤ k, ∀ y, xs[j]? = some y → accepts y) → good x

/-- A loop that stops at an element that is not accepted, or with `e` at one that is not good. -/
theorem mapM_ne_error_iff {β : Type} {f : α → Except ε β} {e : ε} {accepts good : α → Prop}
    (hok : ∀ x, (∃ b, f x = .ok b) ↔ accepts x ∧ good x)
    (herror : ∀ x, f x ≠ .error e ↔ (accepts x → good x)) {xs : List α} :
    xs.mapM f ≠ .error e ↔ GoodUntil accepts good xs := by
  induction xs with
  | nil =>
    refine ⟨fun _ k x h => (by cases h), fun _ h => ?_⟩
    rw [List.mapM_nil] at h
    cases h
  | cons x xs ih =>
    rw [List.mapM_cons]
    constructor
    · intro hne k y hy hall
      have haccepts : accepts x := hall 0 (Nat.zero_le k) x rfl
      have hgood : good x := by
        refine (herror x).mp (fun hx => hne ?_) haccepts
        rw [hx]
        rfl
      obtain ⟨b, hb⟩ := (hok x).mpr ⟨haccepts, hgood⟩
      cases k with
      | zero =>
        cases hy
        exact hgood
      | succ k =>
        refine ih.mp (fun hxs => hne ?_) k y hy fun j hj z hz => hall (j + 1) (by omega) z hz
        rw [hb, ok_bind, hxs]
        rfl
    · intro hall hx
      cases hfx : f x with
      | error e' =>
        rw [hfx, error_bind] at hx
        cases hx
        refine (herror x).mpr (fun haccepts => hall 0 x rfl fun j hj y hy => ?_) hfx
        obtain rfl : j = 0 := Nat.le_zero.mp hj
        cases hy
        exact haccepts
      | ok b =>
        have haccepts := ((hok x).mp ⟨b, hfx⟩).1
        refine ih.mpr (fun k y hy hbefore => hall (k + 1) y hy fun j hj z hz => ?_) ?_
        · cases j with
          | zero =>
            cases hz
            exact haccepts
          | succ j => exact hbefore j (by omega) z hz
        · rw [hfx, ok_bind] at hx
          cases hxs : xs.mapM f with
          | ok bs =>
            rw [hxs] at hx
            cases hx
          | error e' =>
            rw [hxs] at hx
            exact hx

theorem goodUntil_zipIdx {accepts good : α → Prop} {xs : List α} :
    GoodUntil (fun ti : α × ℕ => accepts ti.1) (fun ti => good ti.1) xs.zipIdx ↔
      GoodUntil accepts good xs := by
  have hget : ∀ (j : ℕ) (ti : α × ℕ), xs.zipIdx[j]? = some ti ↔ xs[j]? = some ti.1 ∧ ti.2 = j := by
    rintro j ⟨x, m⟩
    rw [List.getElem?_zipIdx, Option.map_eq_some_iff, Nat.zero_add]
    constructor
    · rintro ⟨y, hy, heq⟩
      cases heq
      exact ⟨hy, rfl⟩
    · rintro ⟨hx, rfl⟩
      exact ⟨x, hx, rfl⟩
  constructor
  · intro h k x hx hall
    refine h k (x, k) ((hget k _).mpr ⟨hx, rfl⟩) fun j hj ti hti => ?_
    exact hall j hj ti.1 ((hget j ti).mp hti).1
  · intro h k ti hti hall
    refine h k ti.1 ((hget k ti).mp hti).1 fun j hj y hy => ?_
    exact hall j hj (y, j) ((hget j _).mpr ⟨hy, rfl⟩)

/-- A loop over numbered elements that ends well or stops at an element that is not accepted. -/
theorem numbered_loop_iff {β : Type} {step : α × ℕ → Except ε β} {e : ε}
    {accepts good below : α → Prop} {P : β → Prop}
    (hok : ∀ ti, (∃ b, step ti = .ok b) ↔ accepts ti.1 ∧ good ti.1)
    (herror : ∀ ti, step ti ≠ .error e ↔ (accepts ti.1 → good ti.1))
    (hshow : ∀ ti b, step ti = .ok b → (P b ↔ below ti.1)) {xs : List α} :
    (xs.zipIdx.mapM step ≠ .error e ∧
        ∀ bs, xs.zipIdx.mapM step = .ok bs → ∀ b ∈ bs, P b) ↔
      GoodUntil accepts good xs ∧ ((∀ x ∈ xs, accepts x) → ∀ x ∈ xs, below x) := by
  have hmem : ∀ x ∈ xs, ∃ i, (x, i) ∈ xs.zipIdx := by
    intro x hx
    obtain ⟨i, hi⟩ := List.mem_iff_getElem?.mp hx
    exact ⟨i, List.mk_mem_zipIdx_iff_getElem?.mpr hi⟩
  rw [mapM_ne_error_iff hok herror, goodUntil_zipIdx]
  refine and_congr_right fun hgood => ?_
  constructor
  · intro h haccepts x hx
    have hsteps : ∀ ti ∈ xs.zipIdx, ∃ b, step ti = .ok b := by
      intro ti hti
      have hget := List.mem_zipIdx_iff_getElem?.mp hti
      refine (hok ti).mpr ⟨haccepts ti.1 (List.mem_of_getElem? hget), ?_⟩
      exact hgood ti.2 ti.1 hget fun j _ y hy => haccepts y (List.mem_of_getElem? hy)
    obtain ⟨bs, hbs⟩ := exists_mapM_eq_ok_iff.mpr hsteps
    obtain ⟨i, hi⟩ := hmem x hx
    obtain ⟨k, hk⟩ := List.mem_iff_getElem?.mp hi
    obtain ⟨b, hb, hstep⟩ := forall₂_getElem? (mapM_eq_ok.mp hbs) hk
    exact (hshow _ _ hstep).mp (h bs hbs b (List.mem_of_getElem? hb))
  · intro h bs hbs b hb
    have hforall := mapM_eq_ok.mp hbs
    have haccepts : ∀ x ∈ xs, accepts x := by
      intro x hx
      obtain ⟨i, hi⟩ := hmem x hx
      exact ((hok (x, i)).mp (exists_mapM_eq_ok_iff.mp ⟨bs, hbs⟩ _ hi)).1
    obtain ⟨k, hk⟩ := List.mem_iff_getElem?.mp hb
    obtain ⟨ti, hti, hstep⟩ := forall₂_getElem? hforall.flip hk
    refine (hshow ti b hstep).mpr (h haccepts ti.1 ?_)
    exact List.mem_of_getElem? (List.mem_zipIdx_iff_getElem?.mp (List.mem_of_getElem? hti))

end Loops

end WorldZk.CheckedRuns
