import Mathlib.Order.WellFounded

/-! # Runs of a step relation

What one step preserves a run preserves, a simulation carries over from steps to runs, and a
machine whose steps use something up comes to rest. -/

namespace Transition

universe u v

variable {σ : Type u} {τ : Type v} {step : σ → σ → Prop} {step' : τ → τ → Prop}

/-- `t` comes after `s` in some run. -/
abbrev Reaches (step : σ → σ → Prop) (s t : σ) : Prop := Relation.ReflTransGen step s t

def AtRest (step : σ → σ → Prop) (s : σ) : Prop := ∀ t, ¬step s t

theorem Reaches.invariant {holds : σ → Prop} (hStep : ∀ s t, holds s → step s t → holds t)
    {s t : σ} (hRun : Reaches step s t) (hs : holds s) : holds t := by
  induction hRun with
  | refl => exact hs
  | tail _ hLast ih => exact hStep _ _ ih hLast

theorem Reaches.simulated (matched : σ → τ → Prop)
    (hStep : ∀ s t a, matched s a → step s t → ∃ b, Reaches step' a b ∧ matched t b)
    {s t : σ} {a : τ} (hRun : Reaches step s t) (ha : matched s a) :
    ∃ b, Reaches step' a b ∧ matched t b := by
  induction hRun with
  | refl => exact ⟨a, .refl, ha⟩
  | tail _ hLast ih =>
    obtain ⟨b, hb, hMatched⟩ := ih
    obtain ⟨c, hc, hMatched'⟩ := hStep _ _ b hMatched hLast
    exact ⟨c, hb.trans hc, hMatched'⟩

theorem exists_atRest (measure : σ → ℕ) (hLess : ∀ s t, step s t → measure t < measure s)
    (s : σ) : ∃ t, Reaches step s t ∧ AtRest step t := by
  induction hm : measure s using Nat.strong_induction_on generalizing s with
  | _ m ih =>
    by_cases hRest : AtRest step s
    · exact ⟨s, .refl, hRest⟩
    · unfold AtRest at hRest
      push Not at hRest
      obtain ⟨t, ht⟩ := hRest
      obtain ⟨u, hu, hAt⟩ := ih (measure t) (hm ▸ hLess s t ht) t rfl
      exact ⟨u, .head ht hu, hAt⟩

end Transition

/-! ## Computations that leave every state behind them

A step changes the state in one go or raises. What others see in between, and what is left when the rest never
happens, are the states after the steps. -/

namespace Tracing

/-- The states gone through, the last state, and what is returned or raised. -/
def Traced (σ ε α : Type) := σ → List σ × σ × Except ε α

namespace Traced

variable {σ ε α β : Type}

protected def pure (a : α) : Traced σ ε α := fun s => ([], s, .ok a)

protected def bind (m : Traced σ ε α) (f : α → Traced σ ε β) : Traced σ ε β := fun s =>
  match m s with
  | (seen, t, .ok a) => (seen ++ (f a t).1, (f a t).2)
  | (seen, t, .error e) => (seen, t, .error e)

instance : Monad (Traced σ ε) where
  pure := Traced.pure
  bind := Traced.bind

def ask (f : σ → Except ε α) : Traced σ ε α := fun s => ([], s, f s)

def step (f : σ → Except ε σ) : Traced σ ε Unit := fun s =>
  match f s with
  | .ok t => ([t], t, .ok ())
  | .error e => ([], s, .error e)

def Ends (m : Traced σ ε α) (s : σ) (seen : List σ) (t : σ) (a : α) : Prop := m s = (seen, t, .ok a)

variable {m : Traced σ ε α} {f : α → Traced σ ε β} {s t u : σ} {seen : List σ} {a : α} {b : β}

theorem ends_pure_iff {c : α} : (pure a : Traced σ ε α).Ends s seen t c ↔ seen = [] ∧ t = s ∧ c = a := by
  change (([], s, Except.ok a) : List σ × σ × Except ε α) = _ ↔ _
  simp only [Prod.mk.injEq, Except.ok.injEq, eq_comm]

theorem ends_ask_iff {g : σ → Except ε α} : (ask g).Ends s seen t a ↔ seen = [] ∧ t = s ∧ g s = .ok a := by
  unfold Ends ask
  simp only [Prod.mk.injEq, eq_comm]

theorem ends_step_iff {g : σ → Except ε σ} {c : Unit} :
    (step g).Ends s seen t c ↔ seen = [t] ∧ g s = .ok t := by
  unfold Ends step
  cases g s with
  | ok next =>
    simp only [Prod.mk.injEq, and_true, Except.ok.injEq]
    constructor
    all_goals
      rintro ⟨rfl, rfl⟩
      exact ⟨rfl, rfl⟩
  | error e => simp

theorem ends_bind_iff : (m >>= f).Ends s seen u b ↔
    ∃ before t a after, m.Ends s before t a ∧ (f a).Ends t after u b ∧ seen = before ++ after := by
  change Traced.bind m f s = _ ↔ _
  unfold Traced.bind Ends
  rcases m s with ⟨before, t, result⟩
  cases result with
  | error e =>
    constructor
    · intro h
      cases h
    · rintro ⟨before', t', a, after, hFirst, -, -⟩
      cases hFirst
  | ok a =>
    dsimp only
    constructor
    · intro h
      obtain ⟨rfl, hRest⟩ := Prod.mk.inj h
      exact ⟨before, t, a, (f a t).1, rfl, congrArg (Prod.mk (f a t).1) hRest, rfl⟩
    · rintro ⟨before', t', a', after, hFirst, hRest, rfl⟩
      cases hFirst
      rw [hRest]

end Traced

end Tracing
