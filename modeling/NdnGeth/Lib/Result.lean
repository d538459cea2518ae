/-
Computations that return, stop with a fault, or do not finish within the
fuel they are given.

`Result.Sat` says what a computation does in each of these three cases, and
is closed under sequencing. `iterate` is a loop with a bound on its rounds:
with an invariant, and a measure below the bound that goes down in every
round, the bound is not met.
-/
import Mathlib.Logic.Basic

namespace Lib

inductive Result (ε α : Type)
  | ok (a : α)
  | fault (e : ε)
  | unfinished
  deriving DecidableEq

namespace Result

variable {ε α β : Type}

protected def bind : Result ε α → (α → Result ε β) → Result ε β
  | ok a, f => f a
  | fault e, _ => fault e
  | unfinished, _ => unfinished

instance : Monad (Result ε) where
  pure := ok
  bind := Result.bind

/-- A value that may be missing. -/
def ofOption (e : ε) : Option α → Result ε α
  | some a => ok a
  | none => fault e

/-- What a computation does: `P` of what it returns, `E` of its fault, and `F`
where it does not finish. -/
def Sat (r : Result ε α) (P : α → Prop) (E : ε → Prop) (F : Prop) : Prop :=
  match r with
  | ok a => P a
  | fault e => E e
  | unfinished => F

variable {r : Result ε α} {P Q : α → Prop} {R : β → Prop} {E : ε → Prop} {F : Prop}

instance [DecidablePred P] [DecidablePred E] [Decidable F] : Decidable (r.Sat P E F) :=
  match r with
  | ok a => inferInstanceAs (Decidable (P a))
  | fault e => inferInstanceAs (Decidable (E e))
  | unfinished => inferInstanceAs (Decidable F)

@[simp] theorem sat_ok {a : α} : (ok a : Result ε α).Sat P E F ↔ P a := .rfl

@[simp] theorem sat_pure {a : α} : (pure a : Result ε α).Sat P E F ↔ P a := .rfl

@[simp] theorem ok_bind {a : α} {f : α → Result ε β} : ((ok a : Result ε α) >>= f) = f a := rfl

@[simp] theorem sat_bind {f : α → Result ε β} :
    (r >>= f).Sat R E F ↔ r.Sat (fun a => (f a).Sat R E F) E F := by
  cases r with
  | ok a => exact .rfl
  | fault e => exact .rfl
  | unfinished => exact .rfl

theorem Sat.mono (h : r.Sat P E F) (hPQ : ∀ a, P a → Q a) : r.Sat Q E F := by
  cases r with
  | ok a => exact hPQ a h
  | fault e => exact h
  | unfinished => exact h

theorem Sat.bind {f : α → Result ε β} (h : r.Sat P E F) (hf : ∀ a, P a → (f a).Sat R E F) : (r >>= f).Sat R E F :=
  sat_bind.2 (h.mono hf)

theorem Sat.of_ok {a : α} (h : r.Sat P E F) (hr : r = ok a) : P a := by
  rw [hr] at h
  exact h

end Result

/-! ## Loops -/

variable {ε σ β : Type} {step : σ → Result ε (σ ⊕ β)}

/-- At most so many rounds of a loop: each gives the next state or the
result. -/
def iterate (step : σ → Result ε (σ ⊕ β)) : Nat → σ → Result ε β
  | 0, _ => .unfinished
  | n + 1, s =>
    match step s with
    | .ok (.inl s') => iterate step n s'
    | .ok (.inr b) => .ok b
    | .fault e => .fault e
    | .unfinished => .unfinished

/-- What a round does: it keeps the invariant and lowers the measure, or ends
the loop. -/
def Round (I : σ → Prop) (μ : σ → Nat) (Q : β → Prop) (s : σ) : σ ⊕ β → Prop
  | .inl s' => I s' ∧ μ s' < μ s
  | .inr b => Q b

theorem iterate_sat {I : σ → Prop} {μ : σ → Nat} {Q : β → Prop} {E : ε → Prop} {F : Prop}
    (hstep : ∀ s, I s → (step s).Sat (Round I μ Q s) E F) {n : Nat} {s : σ} (hI : I s) (hn : μ s < n) :
    (iterate step n s).Sat Q E F := by
  induction n generalizing s with
  | zero => exact absurd hn (Nat.not_lt_zero _)
  | succ n ih =>
    have h := hstep s hI
    unfold iterate
    cases hs : step s with
    | fault e => rw [hs] at h; exact h
    | unfinished => rw [hs] at h; exact h
    | ok r =>
      rw [hs] at h
      cases r with
      | inl s' => exact ih h.1 (Nat.lt_of_lt_of_le h.2 (Nat.le_of_lt_succ hn))
      | inr b => exact h

end Lib
