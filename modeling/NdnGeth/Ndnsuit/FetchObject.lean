/-
The fetch of an object, one segment after the other
(`objConsumerImpl.FetchObject` of `ndn/ndnsuit/fetching.go`). The loop asks
for `uint16(num)` and ends by what the segment says of itself: `Total <= Id
+ 1`, in 16 bits. It never looks whether the segment is the one it asked for.

`fetchObject_iff`: it makes at most 65536 requests and returns only the
segments of one object in their order exactly if the producer gives an error
in time or is an honest one.
-/
import Mathlib.Order.Basic
import NdnGeth.Lib.Rlp

namespace NdnGeth.Ndn

open Lib.Rlp (Bytes)

structure ObjSegment where
  wire : Bytes
  total : BitVec 16
  id : BitVec 16
  deriving DecidableEq, Repr

/-- The test that ends the loop. -/
def ObjSegment.last (s : ObjSegment) : Bool := decide (s.total ≤ s.id + 1)

variable {ε : Type}

/-- The loop from request `num` on, with the number of requests and what is
returned; the first argument bounds its turns. `replies` is what comes back
for each request. -/
def fetchLoop (replies : Nat → Except ε ObjSegment) : Nat → Nat → Bytes → Option (Nat × Except ε Bytes)
  | 0, _, _ => none
  | turns + 1, num, obj =>
    match replies num with
    | .error e => some (num + 1, .error e)
    | .ok segment =>
      if segment.last then some (num + 1, .ok (obj ++ segment.wire))
      else fetchLoop replies turns (num + 1) (obj ++ segment.wire)

def wireOf : Except ε ObjSegment → Bytes
  | .ok segment => segment.wire
  | .error _ => []

/-- The wires of the first replies. -/
def wires (replies : Nat → Except ε ObjSegment) (n : Nat) : Bytes := (List.range n).flatMap fun j => wireOf (replies j)

variable {replies : Nat → Except ε ObjSegment}

def Goes (replies : Nat → Except ε ObjSegment) (j : Nat) : Prop := ∃ s, replies j = .ok s ∧ s.last = false

theorem wires_succ (replies : Nat → Except ε ObjSegment) (n : Nat) :
    wires replies (n + 1) = wires replies n ++ wireOf (replies n) := by
  simp [wires, List.range_succ]

theorem fetchLoop_stops (num turns : Nat) {k : Nat} (hgoes : ∀ j, num ≤ j → j < k → Goes replies j) (hk : num ≤ k)
    (hturns : k < num + turns) :
    (∀ e, replies k = .error e → fetchLoop replies turns num (wires replies num) = some (k + 1, .error e)) ∧
      ∀ s, replies k = .ok s → s.last = true →
        fetchLoop replies turns num (wires replies num) = some (k + 1, .ok (wires replies (k + 1))) := by
  induction turns generalizing num with
  | zero => omega
  | succ turns ih =>
    obtain rfl | hlt := Nat.eq_or_lt_of_le hk
    · refine ⟨fun e he => by rw [fetchLoop, he], fun s hs hlast => ?_⟩
      rw [fetchLoop, hs]
      simp only [hlast, if_true, wires_succ, hs, wireOf]
    · obtain ⟨s, hs, hlast⟩ := hgoes num (Nat.le_refl _) hlt
      have hnext : fetchLoop replies (turns + 1) num (wires replies num) =
          fetchLoop replies turns (num + 1) (wires replies (num + 1)) := by
        rw [fetchLoop, hs]
        simp only [hlast, Bool.false_eq_true, if_false, wires_succ, hs, wireOf]
      rw [hnext]
      exact ih (num + 1) (fun j hj => hgoes j (Nat.le_of_succ_le hj)) hlt (by omega)

theorem fetchLoop_cases (replies : Nat → Except ε ObjSegment) (num turns : Nat) :
    fetchLoop replies turns num (wires replies num) = none ∨
      ∃ k, num ≤ k ∧ k < num + turns ∧ (∀ j, num ≤ j → j < k → Goes replies j) ∧
        ((∃ e, replies k = .error e) ∨ ∃ s, replies k = .ok s ∧ s.last = true) := by
  induction turns generalizing num with
  | zero => exact .inl rfl
  | succ turns ih =>
    have hself : ∀ j, num ≤ j → j < num → Goes replies j := fun j hj hlt => absurd hlt (Nat.not_lt.2 hj)
    cases hr : replies num with
    | error e => exact .inr ⟨num, Nat.le_refl _, by omega, hself, .inl ⟨e, hr⟩⟩
    | ok s =>
      cases hlast : s.last with
      | true => exact .inr ⟨num, Nat.le_refl _, by omega, hself, .inr ⟨s, hr, hlast⟩⟩
      | false =>
        have hnext : fetchLoop replies (turns + 1) num (wires replies num) =
            fetchLoop replies turns (num + 1) (wires replies (num + 1)) := by
          rw [fetchLoop, hr]
          simp only [hlast, Bool.false_eq_true, if_false, wires_succ, hr, wireOf]
        rw [hnext]
        refine (ih (num + 1)).imp_right fun ⟨k, hk, hlt, hgoes, hstop⟩ => ⟨k, by omega, by omega, fun j hj hjk => ?_, hstop⟩
        obtain rfl | hj := Nat.eq_or_lt_of_le hj
        · exact ⟨s, hr, hlast⟩
        · exact hgoes j hj hjk

/-- The segments of one object of `n` segments. -/
def Segments (replies : Nat → Except ε ObjSegment) (n : Nat) : Prop :=
  0 < n ∧ ∀ j < n, ∃ s, replies j = .ok s ∧ s.id.toNat = j ∧ s.total.toNat = n

theorem Segments.goes {n : Nat} (h : Segments replies n) {j : Nat} (hj : j + 1 < n) : Goes replies j := by
  obtain ⟨s, hs, hid, htotal⟩ := h.2 j (by omega)
  have hlt := s.total.isLt
  refine ⟨s, hs, decide_eq_false ?_⟩
  rw [BitVec.le_def, BitVec.toNat_add, hid, htotal]
  simp
  omega

theorem Segments.last {n : Nat} (h : Segments replies (n + 1)) : ∃ s, replies n = .ok s ∧ s.last = true := by
  obtain ⟨s, hs, hid, htotal⟩ := h.2 n (by omega)
  have hlt := s.total.isLt
  refine ⟨s, hs, decide_eq_true ?_⟩
  rw [BitVec.le_def, BitVec.toNat_add, hid, htotal]
  simp
  omega

/-- **The fetch ends and is sound** within 65536 requests, with an error or
with the wires of the segments `0, …, n - 1` that all say `n`, exactly if an
error comes before any reply that ends the loop, in time, or the replies are
such segments. -/
theorem fetchObject_iff (replies : Nat → Except ε ObjSegment) :
    (∃ n r, fetchLoop replies 65536 0 [] = some (n, r) ∧
      ((∃ e, r = .error e) ∨ Segments replies n ∧ r = .ok (wires replies n))) ↔
    (∃ k < 65536, (∀ j < k, Goes replies j) ∧ ∃ e, replies k = .error e) ∨ ∃ n, Segments replies n := by
  have hstops := fun {k} (h : ∀ j < k, Goes replies j) (hk : k < 65536) =>
    fetchLoop_stops 0 65536 (fun j _ => h j) (Nat.zero_le k) (by omega)
  constructor
  · rintro ⟨n, r, hres, hr⟩
    obtain hnone | ⟨k, -, hlt, hgoes, hstop⟩ := fetchLoop_cases replies 0 65536
    · exact absurd (hres.symm.trans hnone) (by simp)
    · have hgoes := fun j => hgoes j (Nat.zero_le j)
      obtain he | ⟨s, hs, hlast⟩ := hstop
      · exact .inl ⟨k, by omega, hgoes, he⟩
      · have heq := ((hstops hgoes (by omega)).2 s hs hlast).symm.trans hres
        obtain ⟨rfl, rfl⟩ : k + 1 = n ∧ .ok (wires replies (k + 1)) = r := by simpa using heq
        obtain ⟨e, he⟩ | hseg := hr
        · cases he
        · exact .inr ⟨_, hseg.1⟩
  · rintro (⟨k, hk, hgoes, e, he⟩ | ⟨n, hseg⟩)
    · exact ⟨_, _, (hstops hgoes hk).1 e he, .inl ⟨e, rfl⟩⟩
    · obtain ⟨n, rfl⟩ : ∃ m, n = m + 1 := ⟨n - 1, by have := hseg.1; omega⟩
      obtain ⟨s, hs, hlast⟩ := hseg.last
      obtain ⟨s', -, -, htotal⟩ := hseg.2 n (by omega)
      have hlt := s'.total.isLt
      exact ⟨_, _, (hstops (fun j hj => hseg.goes (by omega)) (by omega)).2 s hs hlast, .inr ⟨hseg, rfl⟩⟩

/-- A producer that always returns the first of two segments is asked for
ever, and a segment with the number 5 is taken for the whole object. -/
theorem fetchObject_hostile :
    (∀ turns, fetchLoop (ε := Unit) (fun _ => .ok ⟨[], 2, 0⟩) turns 0 [] = none) ∧
      fetchLoop (ε := Unit) (fun _ => .ok ⟨[9], 1, 5⟩) 65536 0 [] = some (1, .ok [9]) := by
  refine ⟨fun turns => ?_, rfl⟩
  have hgen : ∀ num, fetchLoop (ε := Unit) (fun _ => .ok ⟨[], 2, 0⟩) turns num [] = none := by
    induction turns with
    | zero => exact fun _ => rfl
    | succ turns ih => exact fun num => ih (num + 1)
  exact hgen 0

end NdnGeth.Ndn
