/-
Labelled transition systems as partial step functions, and their finite
runs. A run may carry a condition on its steps (`ok`), checked in the state
before each one: a safety theorem of the form "in every run whose steps all
meet the condition" is an invariant of such a run.
-/
import Mathlib.Tactic.Choose

namespace Lib

variable {σ α : Type*}

/-- `Run step ok s as s'`: the actions `as` lead from `s` to `s'`, each one
taken in a state where `ok` holds of it. -/
inductive Run (step : σ → α → Option σ) (ok : σ → α → Prop) : σ → List α → σ → Prop
  | nil {s} : Run step ok s [] s
  | cons {s a s' as s''} : ok s a → step s a = some s' → Run step ok s' as s'' → Run step ok s (a :: as) s''

/-- Every step is allowed. -/
def anyStep (_ : σ) (_ : α) : Prop := True

instance (s : σ) (a : α) : Decidable (anyStep s a) := .isTrue trivial

/-- The state after a list of actions, if each one is allowed and enabled. -/
def exec (step : σ → α → Option σ) (ok : σ → α → Prop) [∀ s a, Decidable (ok s a)] (s : σ) : List α → Option σ
  | [] => some s
  | a :: as =>
    if ok s a then
      match step s a with
      | none => none
      | some s' => exec step ok s' as
    else none

namespace Run

variable {step : σ → α → Option σ} {ok : σ → α → Prop}

/-- What every allowed step keeps, every run keeps. -/
theorem invariant {I : σ → Prop} (hstep : ∀ s a s', I s → ok s a → step s a = some s' → I s') :
    ∀ {s as s'}, Run step ok s as s' → I s → I s' := by
  intro s as s' h
  induction h with
  | nil => exact id
  | cons hok hs _ ih => exact fun hi => ih (hstep _ _ _ hi hok hs)

theorem mono {ok' : σ → α → Prop} (hok : ∀ s a, ok s a → ok' s a) :
    ∀ {s as s'}, Run step ok s as s' → Run step ok' s as s' := by
  intro s as s' h
  induction h with
  | nil => exact .nil
  | cons ha hs _ ih => exact .cons (hok _ _ ha) hs ih

/-- A measure that every allowed step of a run decreases bounds its length. -/
theorem length_le {I : σ → Prop} {μ : σ → Nat} (hstep : ∀ s a s', I s → ok s a → step s a = some s' → I s')
    (hdec : ∀ s a s', I s → ok s a → step s a = some s' → μ s' < μ s) :
    ∀ {s as s'}, Run step ok s as s' → I s → as.length + μ s' ≤ μ s := by
  intro s as s' h
  induction h with
  | nil => intro _; simp
  | cons hok hs _ ih =>
    intro hi
    have h1 := ih (hstep _ _ _ hi hok hs)
    have h2 := hdec _ _ _ hi hok hs
    simp only [List.length_cons]
    omega

/-- Every step of a run is one of its actions. -/
theorem with_mem {L : List α} {s as s'} (h : Run step ok s as s') (hsub : ∀ a ∈ as, a ∈ L) :
    Run step (fun s a => ok s a ∧ a ∈ L) s as s' := by
  induction h with
  | nil => exact .nil
  | cons hok hs _ ih =>
    exact .cons ⟨hok, hsub _ List.mem_cons_self⟩ hs (ih fun a ha => hsub a (List.mem_cons_of_mem _ ha))

theorem append {s as s' bs s''} (h : Run step ok s as s') (h' : Run step ok s' bs s'') :
    Run step ok s (as ++ bs) s'' := by
  induction h with
  | nil => exact h'
  | cons hok hs _ ih => exact .cons hok hs (ih h')

/-- Where every state with `P` has a run to another one, there is a run
through such states without end. -/
theorem forever {P : σ → Prop} {R : σ → σ → Prop}
    (hnext : ∀ s, P s → ∃ as s', as ≠ [] ∧ Run step ok s as s' ∧ P s' ∧ R s s') {s₀ : σ} (h₀ : P s₀) :
    ∃ f : Nat → σ, f 0 = s₀ ∧
      ∀ n, P (f n) ∧ R (f n) (f (n + 1)) ∧ ∃ as, as ≠ [] ∧ Run step ok (f n) as (f (n + 1)) := by
  choose as next hne hrun hP hR using hnext
  let f : Nat → { s // P s } := fun n => Nat.rec ⟨s₀, h₀⟩ (fun _ s => ⟨next s.1 s.2, hP s.1 s.2⟩) n
  exact ⟨fun n => (f n).1, rfl, fun n => ⟨(f n).2, hR _ _, _, hne _ (f n).2, hrun _ (f n).2⟩⟩

theorem of_exec [∀ s a, Decidable (ok s a)] : ∀ {s as s'}, exec step ok s as = some s' → Run step ok s as s'
  | s, [], s', h => by
    cases h
    exact .nil
  | s, a :: as, s', h => by
    simp only [exec] at h
    split at h
    · next hok =>
      split at h
      · cases h
      · next t ht => exact .cons hok ht (of_exec h)
    · cases h

end Run

end Lib
