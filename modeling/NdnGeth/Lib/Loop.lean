/-
Loops over the keys of a map, in an order the program does not choose.

A state has something for each key (`view`). Where a round of the loop
changes this for its own key only, and what it does there depends on nothing
else, the loop does to each key what its own round does from the start. So
two orders of the same keys give the same.
-/
import Mathlib.Data.List.Nodup

namespace Lib

variable {σ K V : Type*}

/-- The list goes through the keys once each, in some order. -/
structure Enumerates (l : List K) (p : K → Prop) : Prop where
  nodup : l.Nodup
  mem : ∀ k, k ∈ l ↔ p k

/-- What a loop leaves for a key: what its round does from the start. -/
theorem foldl_view [DecidableEq K] (view : σ → K → V) (step : σ → K → σ)
    (other : ∀ s k k', k' ≠ k → view (step s k) k' = view s k')
    (own : ∀ s t k, view s k = view t k → view (step s k) k = view (step t k) k) (k : K) :
    ∀ (l : List K) (s : σ), l.Nodup → view (l.foldl step s) k = if k ∈ l then view (step s k) k else view s k := by
  intro l
  induction l with
  | nil => intro s _; simp
  | cons j js ih =>
    intro s hnd
    obtain ⟨hj, hnd⟩ := List.nodup_cons.1 hnd
    rw [List.foldl_cons, ih (step s j) hnd]
    by_cases hk : k = j
    · subst hk
      rw [if_neg hj, if_pos List.mem_cons_self]
    · have hmem : k ∈ j :: js ↔ k ∈ js := by simp [hk]
      rw [if_congr hmem rfl rfl]
      split
      · exact own _ _ k (other s j k hk)
      · exact other s j k hk

/-- The same for a loop that can stop, where it does not. -/
theorem foldlM_view [DecidableEq K] (view : σ → K → V) (step : σ → K → Option σ)
    (other : ∀ s k s' k', step s k = some s' → k' ≠ k → view s' k' = view s k')
    (own : ∀ s t k s', view s k = view t k → step s k = some s' → ∃ t', step t k = some t' ∧ view t' k = view s' k)
    (k : K) :
    ∀ (l : List K) (s s' : σ), l.Nodup → l.foldlM step s = some s' →
      (k ∉ l → view s' k = view s k) ∧ (k ∈ l → ∃ s₁, step s k = some s₁ ∧ view s' k = view s₁ k) := by
  intro l
  induction l with
  | nil =>
    intro s s' _ h
    cases h
    exact ⟨fun _ => rfl, nofun⟩
  | cons j js ih =>
    intro s s' hnd h
    obtain ⟨hj, hnd⟩ := List.nodup_cons.1 hnd
    rw [List.foldlM_cons] at h
    obtain ⟨s₁, hs₁, hrest⟩ := Option.bind_eq_some_iff.1 h
    obtain ⟨hout, hin⟩ := ih s₁ s' hnd hrest
    by_cases hk : k = j
    · subst hk
      exact ⟨fun hn => absurd List.mem_cons_self hn, fun _ => ⟨s₁, hs₁, hout hj⟩⟩
    · have hview := other s j s₁ k hs₁ hk
      refine ⟨fun hn => (hout fun hm => hn (List.mem_cons_of_mem j hm)).trans hview, fun hm => ?_⟩
      obtain ⟨s₂, hs₂, hv₂⟩ := hin ((List.mem_cons.1 hm).resolve_left hk)
      obtain ⟨t, ht, hvt⟩ := own s₁ s k s₂ hview hs₂
      exact ⟨t, ht, hv₂.trans hvt.symm⟩

/-- What every round keeps, the loop keeps. -/
theorem foldlM_invariant {step : σ → K → Option σ} {I : σ → Prop} {l : List K}
    (h : ∀ s k s', k ∈ l → I s → step s k = some s' → I s') :
    ∀ {s s'}, I s → l.foldlM step s = some s' → I s' := by
  induction l with
  | nil => intro s s' hs hl; cases hl; exact hs
  | cons j js ih =>
    intro s s' hs hl
    rw [List.foldlM_cons] at hl
    obtain ⟨s₁, hs₁, hrest⟩ := Option.bind_eq_some_iff.1 hl
    exact ih (fun t k t' hk => h t k t' (List.mem_cons_of_mem j hk)) (h s j s₁ List.mem_cons_self hs hs₁) hrest

end Lib
