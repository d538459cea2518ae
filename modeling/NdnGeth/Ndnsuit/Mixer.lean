/-
The mixer (`ndn/ndnsuit/mixer.go`): producers are registered by the text of
their prefix, and an Interest is handed to one of them. The loop of `handle`
assigns to a variable that outlives it, so without a match it is left with
the producer that it saw last. `IsPrefixOf` is the library's, and a parameter.

`handle_iff`: in every order of the map the Interest reaches a producer of a
prefix of its name, or none if there is no such producer, exactly if there is
one or nothing is registered at all.
-/
import NdnGeth.Kad.Rpc

namespace NdnGeth.Ndn

open Lib.Rlp (Bytes)
open Kad (Name prettyName)

/-- `Producer`: its number stands for its handler. -/
structure Producer where
  num : Nat
  pfx : Name
  deriving DecidableEq, Repr

/-- `mixerImpl`; the map is a list of its entries. -/
structure Mixer where
  stopped : Bool
  producers : List (Bytes × Producer)
  deriving DecidableEq, Repr

namespace Mixer

/-- `Register`; `PrettyName` comes down on a short digest. -/
def register (m : Mixer) (p : Producer) : Option (Mixer × Bool) :=
  if m.stopped then some (m, false)
  else
    match prettyName p.pfx with
    | none => none
    | some id =>
      if id = [] ∨ id ∈ m.producers.map Prod.fst then some (m, false)
      else some ({ m with producers := m.producers ++ [(id, p)] }, true)

variable (isPrefixOf : Name → Name → Bool)

/-- The loop of `handle`, with its variable. -/
def search (name : Name) : Option Producer → List Producer → Option Producer
  | p, [] => p
  | _, q :: order => if isPrefixOf q.pfx name then some q else search name (some q) order

/-- The producer whose handler is called, in an order of the map. -/
def handle (order : List Producer) (name : Name) : Option Producer := search isPrefixOf name none order

/-- The law: the handler that is called is for the name, and there is none
if no prefix matches. -/
def Right (order : List Producer) (name : Name) : Prop :=
  (∀ p, handle isPrefixOf order name = some p → p ∈ order ∧ isPrefixOf p.pfx name = true) ∧
    ((∀ p ∈ order, isPrefixOf p.pfx name = false) → handle isPrefixOf order name = none)

variable {isPrefixOf} {name : Name} {order : List Producer}

theorem search_match (start : Option Producer) (h : ∃ p ∈ order, isPrefixOf p.pfx name = true) :
    ∃ p ∈ order, search isPrefixOf name start order = some p ∧ isPrefixOf p.pfx name = true := by
  induction order generalizing start with
  | nil => simp at h
  | cons q order ih =>
    rw [search]
    by_cases hq : isPrefixOf q.pfx name = true
    · rw [if_pos hq]
      exact ⟨q, List.mem_cons_self, rfl, hq⟩
    · obtain ⟨p, hp, hmatch⟩ := h
      obtain rfl | hp := List.mem_cons.1 hp
      · exact absurd hmatch hq
      · rw [if_neg hq]
        obtain ⟨r, hr, hres⟩ := ih (some q) ⟨p, hp, hmatch⟩
        exact ⟨r, List.mem_cons_of_mem q hr, hres⟩

theorem search_last (start : Option Producer) (h : ∀ p ∈ order, isPrefixOf p.pfx name = false) :
    search isPrefixOf name start order = order.getLast?.or start := by
  induction order generalizing start with
  | nil => rfl
  | cons q order ih =>
    rw [search, h q List.mem_cons_self, if_neg Bool.false_ne_true, ih (some q) fun p hp => h p (List.mem_cons_of_mem q hp)]
    cases order <;> simp [List.getLast?_cons]

/-- **Interests reach their producer** in every order of the map exactly if
some prefix matches or there is no producer. -/
theorem handle_iff (isPrefixOf : Name → Name → Bool) (m : Mixer) (name : Name) :
    (∀ order, order.Perm (m.producers.map Prod.snd) → Right isPrefixOf order name) ↔
      m.producers = [] ∨ ∃ e ∈ m.producers, isPrefixOf e.2.pfx name = true := by
  constructor
  · intro h
    by_contra hno
    obtain ⟨hne, hno⟩ := not_or.1 hno
    have hnone : ∀ p ∈ m.producers.map Prod.snd, isPrefixOf p.pfx name = false := by
      intro p hp
      obtain ⟨e, he, rfl⟩ := List.mem_map.1 hp
      exact Bool.eq_false_iff.2 fun hmatch => hno ⟨e, he, hmatch⟩
    have hlast := (h _ (.refl _)).2 hnone
    rw [handle, search_last none hnone, Option.or_none, List.getLast?_eq_none_iff, List.map_eq_nil_iff] at hlast
    exact hne hlast
  · rintro (hnil | ⟨e, he, hmatch⟩) order hperm
    · rw [hnil] at hperm
      rw [List.perm_nil.1 hperm]
      exact ⟨fun p hp => (by cases hp), fun _ => rfl⟩
    · have hmem := hperm.mem_iff.2 (List.mem_map_of_mem he)
      obtain ⟨p, hp, hres, hpm⟩ := search_match none ⟨e.2, hmem, hmatch⟩
      refine ⟨fun q hq => ?_, fun hno => ?_⟩
      · obtain rfl : p = q := Option.some.inj (hres.symm.trans hq)
        exact ⟨hp, hpm⟩
      · rw [hno _ hmem] at hmatch
        cases hmatch

/-- The producer of `/a` is called with the Interest for `/b`. -/
theorem handle_other :
    ∃ m, register ⟨false, []⟩ ⟨1, [⟨8, [97]⟩]⟩ = some (m, true) ∧
      handle List.isPrefixOf (m.producers.map Prod.snd) [⟨8, [98]⟩] = some ⟨1, [⟨8, [97]⟩]⟩ ∧
      ¬∃ e ∈ m.producers, List.isPrefixOf e.2.pfx [⟨8, [98]⟩] = true :=
  ⟨_, rfl, by decide, by decide⟩

end Mixer

end NdnGeth.Ndn
