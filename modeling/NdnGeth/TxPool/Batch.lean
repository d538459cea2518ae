/-
The errors of a batch (`addTxs` in `core/tx_pool.go`).

The transactions the pool knows have their error at once, and the errors of the
others are put into the slots that are still nil. A success is put there as nil,
and the slot is then taken for free again: the next error is reported for the
transaction before it. `fill` is what the merge was meant to do.
-/
import NdnGeth.TxPool.Pool

namespace NdnGeth.TxPool.Batch

variable (o : Order) (isLocal : Bool)

/-- The errors `addTxsLocked` returns. -/
def newErrs : Pool → List Tx → List (Option PoolError)
  | _, [] => []
  | p, tx :: txs =>
    let (p, res) := p.add o tx isLocal
    (match res with
    | .ok _ => none
    | .error e => some e) :: newErrs p txs

def addTxsLocked (p : Pool) (txs : List Tx) : Pool × List (Option PoolError) := (p.addTxs o txs isLocal, newErrs o isLocal p txs)

/-- The slots after the loop over the known transactions. -/
def errSlots (p : Pool) (txs : List Tx) : List (Option PoolError) :=
  txs.map fun tx => if tx ∈ p.all.all then some .alreadyKnown else none

def news (p : Pool) (txs : List Tx) : List Tx := txs.filter (· ∉ p.all.all)

/-- `for errs[nilSlot] != nil`; nothing where the index runs out of the slice. -/
def nextNil (errs : List (Option PoolError)) (nilSlot : Nat) : Option Nat :=
  ((errs.drop nilSlot).findIdx? (·.isNone)).map (nilSlot + ·)

/-- The loop that merges the new errors. -/
def mergeErrs : (errs : List (Option PoolError)) → (nilSlot : Nat) → List (Option PoolError) → Option (List (Option PoolError))
  | errs, _, [] => some errs
  | errs, nilSlot, err :: newErrs => do
    let nilSlot ← nextNil errs nilSlot
    mergeErrs (errs.set nilSlot err) nilSlot newErrs

/-- `addTxs`, before the pool is reorganised; nothing where it panics. -/
def addTxs (p : Pool) (txs : List Tx) : Option (Pool × List (Option PoolError)) :=
  let errs := errSlots p txs
  let news := news p txs
  if news = [] then some (p, errs)
  else
    let (p, newErrs) := addTxsLocked o isLocal p news
    (mergeErrs errs 0 newErrs).map fun errs => (p, errs)

/-- What the errors should be: a transaction that was known before the call has
that error, any other one that of adding it after its predecessors. -/
def outcomes (known : Pool) : Pool → List Tx → List (Option PoolError)
  | _, [] => []
  | p, tx :: txs =>
    if tx ∈ known.all.all then some .alreadyKnown :: outcomes known p txs
    else newErrs o isLocal p [tx] ++ outcomes known (p.add o tx isLocal).1 txs

/-! ## The slots -/

/-- The errors one after the other in the slots that are nil. -/
def fill : (slots errs : List (Option PoolError)) → List (Option PoolError)
  | [], _ => []
  | some e :: slots, errs => some e :: fill slots errs
  | none :: slots, [] => none :: fill slots []
  | none :: slots, err :: errs => err :: fill slots errs

variable {slots errs : List (Option PoolError)}

theorem fill_nil : ∀ slots, fill slots [] = slots
  | [] => rfl
  | some _ :: slots => congrArg _ (fill_nil slots)
  | none :: slots => congrArg _ (fill_nil slots)

theorem fill_nones (h : ∀ err ∈ errs, err = none) : fill slots errs = slots := by
  induction slots generalizing errs with
  | nil => rfl
  | cons slot slots ih =>
    cases slot with
    | some e => exact congrArg _ (ih h)
    | none =>
      cases errs with
      | nil => exact fill_nil _
      | cons err errs =>
        rw [fill, h err List.mem_cons_self, ih fun e he => h e (List.mem_cons_of_mem _ he)]

variable {before : List (Option PoolError)}

theorem nextNil_skip {e : PoolError} :
    nextNil (before ++ some e :: slots) before.length = nextNil (before ++ [some e] ++ slots) (before ++ [some e]).length := by
  unfold nextNil
  rw [List.drop_left, List.drop_left, List.findIdx?_cons]
  simp [Function.comp_def, Nat.add_comm, Nat.add_left_comm]

theorem nextNil_stop : nextNil (before ++ none :: slots) before.length = some before.length := by
  unfold nextNil
  simp [List.findIdx?_cons]

theorem mergeErrs_eq : ∀ (errs : List (Option PoolError)) {before slots : List (Option PoolError)}, errs.length ≤ slots.count none →
    mergeErrs (before ++ slots) before.length errs = some (before ++ fill slots (errs.filter (·.isSome))) := by
  intro errs
  induction errs with
  | nil =>
    intro before slots _
    rw [mergeErrs, List.filter_nil, fill_nil]
  | cons err errs ih =>
    intro before slots hlen
    induction slots generalizing before with
    | nil => simp at hlen
    | cons slot slots ihs =>
      cases slot with
      | some e =>
        have h := @ihs (before ++ [some e]) (by simpa using hlen)
        rw [mergeErrs, ← nextNil_skip, List.append_assoc, List.append_assoc] at h
        rw [mergeErrs, fill]
        exact h
      | none =>
        rw [mergeErrs, nextNil_stop]
        simp only [Option.bind_eq_bind, Option.bind_some, List.set_append_right _ _ (Nat.le_refl _), Nat.sub_self, List.set_cons_zero]
        rw [List.count_cons_self, List.length_cons] at hlen
        cases err with
        | some e => exact ih (by simpa using Nat.le_of_succ_le_succ hlen)
        | none => exact ih (by rw [List.count_cons_self]; exact Nat.le_of_succ_le hlen)

theorem fill_filter_eq_iff (hlen : errs.length ≤ slots.count none) :
    fill slots (errs.filter (·.isSome)) = fill slots errs ↔ errs.Pairwise fun a b => a = none → b = none := by
  induction slots generalizing errs with
  | nil => 
    have : errs = [] := by simpa using hlen
    subst this
    simp
  | cons slot slots ih => 
    cases slot with
    | some e =>
      rw [fill, fill, List.cons_inj_right]
      exact ih (by simpa using hlen)
    | none =>
      cases errs with
      | nil => simp
      | cons err errs =>
        rw [List.count_cons_self, List.length_cons] at hlen
        rw [List.pairwise_cons]
        cases err with
        | some e =>
          rw [List.filter_cons_of_pos rfl, fill, fill, List.cons_inj_right, ih (Nat.le_of_succ_le_succ hlen)]
          simp
        | none =>
          rw [List.filter_cons_of_neg (by simp), fill]
          cases hfail : errs.filter (·.isSome) with
          | nil =>
            have hnone : ∀ err ∈ errs, err = none := by simpa using hfail
            rw [fill_nil, fill_nones hnone]
            simp only [true_iff]
            exact ⟨fun err herr _ => hnone err herr, List.pairwise_of_forall_mem_list fun _ _ err herr _ => hnone err herr⟩
          | cons err rest =>
            obtain ⟨hmem, hsome⟩ := List.mem_filter.1 (hfail ▸ List.mem_cons_self : err ∈ errs.filter (·.isSome))
            rw [fill]
            constructor
            · intro h
              cases List.head_eq_of_cons_eq h
              cases hsome
            · intro h
              cases h.1 err hmem rfl
              cases hsome

/-! ## The errors of a batch -/

variable {o isLocal}

theorem count_errSlots (p : Pool) (txs : List Tx) : (errSlots p txs).count none = (news p txs).length := by
  induction txs with
  | nil => rfl
  | cons tx txs ih =>
    simp only [errSlots, news, List.map_cons] at ih ⊢
    by_cases hknown : tx ∈ p.all.all
    · simpa [hknown] using ih
    · simpa [hknown] using ih

theorem length_newErrs : ∀ (txs : List Tx) (p : Pool), (newErrs o isLocal p txs).length = txs.length
  | [], _ => rfl
  | _ :: txs, _ => congrArg (· + 1) (length_newErrs txs _)

theorem fill_newErrs (known : Pool) : ∀ (txs : List Tx) (p : Pool),
    fill (errSlots known txs) (newErrs o isLocal p (news known txs)) = outcomes o isLocal known p txs := by
  intro txs
  induction txs with
  | nil => exact fun _ => rfl
  | cons tx txs ih =>
    intro p
    simp only [errSlots, news, List.map_cons] at ih ⊢
    by_cases hknown : tx ∈ known.all.all
    · simpa [hknown, outcomes, fill] using ih p
    · simpa [hknown, outcomes, fill, newErrs] using ih _

/-- **The errors are right** exactly if among the transactions that were not known
none is added before one that is refused. -/
theorem errors_right_iff (o : Order) (isLocal : Bool) (p : Pool) (txs : List Tx) :
    ∃ errs, addTxs o isLocal p txs = some (p.addTxs o (news p txs) isLocal, errs) ∧
      (errs = outcomes o isLocal p p txs ↔ (newErrs o isLocal p (news p txs)).Pairwise fun a b => a = none → b = none) := by
  have hlen : (newErrs o isLocal p (news p txs)).length ≤ (errSlots p txs).count none := by rw [length_newErrs, count_errSlots]
  have hmerge := @mergeErrs_eq (newErrs o isLocal p (news p txs)) [] _ hlen
  have hright := fill_filter_eq_iff hlen
  rw [fill_newErrs] at hright
  refine ⟨_, ?_, hright⟩
  simp only [addTxs]
  split
  · next hnil => simp [hnil, newErrs, fill_nil, Pool.addTxs]
  · rw [addTxsLocked]
    dsimp only
    rw [show mergeErrs (errSlots p txs) 0 _ = _ from hmerge]
    rfl

/-- The first transaction is added and the second refused for its value; the error
is reported for the first. -/
theorem error_of_another : ∃ (p : Pool) (o : Order) (txs : List Tx),
    (addTxs o false p txs).map (·.2) = some [some .negativeValue, none] ∧ outcomes o false p p txs = [none, some .negativeValue] := by
  refine ⟨.new .default plainHead, plainOrder, [transfer 1 0 1, { transfer 2 0 1 with value := -1 }], by decide +kernel, by decide +kernel⟩

end NdnGeth.TxPool.Batch
