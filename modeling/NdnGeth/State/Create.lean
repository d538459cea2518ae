/-
`CreateAccount`: the new account has the balance of the one it replaces, and
nothing else of it.

The one it replaces may have been deleted by an earlier `Finalise`. Its
object is still there then, with the balance it had: zero, unless it was paid
after its self-destruction.
-/
import NdnGeth.State.Machine

namespace NdnGeth.State

open Function
open Lib (Run Enumerates exec)
open Types (Address)

variable {D : Digests} {db : Database D}

namespace StateDB

variable {s s' : StateDB D} {a b : Address} {o : StateObject D}

theorem destruct_peek (s : StateDB D) (a b : Address) : (s.destruct a).peek b = s.peek b := by
  rw [destruct_eq]
  rfl

theorem WF.createObject_peek_of_ne (h : s.WF db) (carry : Bool) (hb : b ≠ a) :
    (s.createObject a carry).2.peek b = s.peek b := by
  rw [StateDB.createObject, h.getDeletedStateObject]
  cases s.peek a with
  | none =>
    rw [peek_setStateObject, if_neg (show b ≠ (newObject a (.fresh D 0)).address from hb)]
    exact peek_load s a b
  | some prev =>
    rw [peek_setStateObject, if_neg (show b ≠ (newObject a (.fresh D _)).address from hb)]
    exact (destruct_peek (s.load a) a b).trans (peek_load s a b)

theorem WF.createAccount_live (h : s.WF db) (a : Address) :
    (s.createAccount a).live a = some (newObject a (.fresh D ((s.peek a).elim 0 fun o => o.data.balance))) := by
  obtain ⟨hobj, hset, -⟩ := h.createObject (A := fun _ => True) a true
  rw [hobj] at hset
  exact live_eq_some.2 ⟨peek_of_loaded hset, rfl⟩

theorem WF.createAccount_live_of_ne (h : s.WF db) (hb : b ≠ a) : (s.createAccount a).live b = s.live b := by
  unfold live
  rw [StateDB.createAccount, h.createObject_peek_of_ne true hb]

/-- The balance a deleted account left behind, if any. -/
def leftover (s : StateDB D) (a : Address) : Int :=
  (s.stateObjects a).elim 0 fun o => if o.deleted then o.data.balance else 0

theorem peek_balance (s : StateDB D) (a : Address) :
    ((s.peek a).elim 0 fun o => o.data.balance) = ((s.live a).elim 0 fun o => o.data.balance) + s.leftover a := by
  cases hs : s.stateObjects a with
  | none =>
    have hlive : s.live a = s.peek a := by
      rw [live, peek_of_unloaded hs]
      cases s.trie a <;> rfl
    rw [hlive, leftover, hs]
    simp
  | some o =>
    rw [live, peek_of_loaded hs, leftover, hs]
    cases hd : o.deleted <;> simp [hd, Option.filter_some]

theorem WF.createAccount_wf (h : s.WF db) (a : Address) : (s.createAccount a).WF db :=
  (h.createAccount (A := fun _ => True) a).wf h

theorem WF.createAccount_balance (h : s.WF db) (a b : Address) :
    ((s.createAccount a).getBalance b).1 = (s.getBalance b).1 + if b = a then s.leftover a else 0 := by
  rw [((h.createAccount_wf a).getBalance (A := fun _ => True) b).1, (h.getBalance (A := fun _ => True) b).1]
  by_cases hb : b = a
  · subst hb
    rw [h.createAccount_live, if_pos rfl]
    exact peek_balance s b
  · rw [h.createAccount_live_of_ne hb, if_neg hb, Int.add_zero]

end StateDB

namespace Node

/-- Nothing but the balance is left of an account that `CreateAccount`
replaces. No balance changes exactly if it was not paid after its
self-destruction in an earlier transaction. -/
theorem createAccount_keeps_balance {n : Node D} (h : Reachable n) (a : Address) :
    ((∀ b, ((n.state.createAccount a).getBalance b).1 = (n.state.getBalance b).1) ↔ n.state.leftover a = 0) ∧
      ((n.state.createAccount a).getNonce a).1 = 0 ∧ ((n.state.createAccount a).getCode n.db a).1 = [] ∧
      ∀ key, ((n.state.createAccount a).getState n.db a key).1 = 0 ∧
        ((n.state.createAccount a).getCommittedState n.db a key).1 = 0 := by
  have hwf := h.good.wf
  have hwf' := hwf.createAccount_wf a
  have hlive := hwf.createAccount_live a
  refine ⟨⟨fun hsame => ?_, fun hl b => ?_⟩, ?_, ?_, fun key => ⟨?_, ?_⟩⟩
  · have ha := hsame a
    rw [hwf.createAccount_balance, if_pos rfl] at ha
    omega
  · rw [hwf.createAccount_balance, hl]
    simp
  · rw [(hwf'.getNonce (A := fun _ => True) a).1, hlive]
    rfl
  · rw [(hwf'.getCode (A := fun _ => True) a).1, hlive]
    simp [StateObject.codeBytes, StateObject.storedCode, newObject, Account.fresh]
  · rw [(hwf'.getState (A := fun _ => True) a key).1, hlive]
    exact congrFun (StateDB.fresh_base a _) key
  · rw [(hwf'.getCommittedState (A := fun _ => True) a key).1, hlive]
    exact congrFun (StateDB.fresh_base a _) key

theorem createAccount_keeps_balance_sample :
    (((sample.state.addBalance 7 5).createAccount 7).getBalance 7).1 =
      ((sample.state.addBalance 7 5).getBalance 7).1 := by
  have hrun : Run step Env sample [.mutation (.addBalance 7 5)] ⟨sample.db, sample.state.addBalance 7 5⟩ :=
    .cons trivial rfl .nil
  exact (createAccount_keeps_balance (.of_opened sample_opened hrun) 7).1.2 (by decide +kernel) 7

/-- A transaction in which account 7 destroys itself and is then paid 5. -/
def paidAfterSuicide : List (Op sampleDigests) :=
  [.mutation (.addBalance 7 1), .mutation (.suicide 7), .mutation (.addBalance 7 5),
    .finalise true ⟨[7], [], [], fun _ => [], fun _ => []⟩]

def buried : Node sampleDigests :=
  ⟨sample.db, (((sample.state.addBalance 7 1).suicide 7).2.addBalance 7 5).finalise true
    ⟨[7], [], [], fun _ => [], fun _ => []⟩⟩

theorem paidAfterSuicide_run : Run step Env sample paidAfterSuicide buried := by
  refine .cons trivial rfl (.cons trivial rfl (.cons trivial rfl (.cons ?_ rfl .nil)))
  refine ⟨List.nodup_singleton 7, fun a => ?_⟩
  rw [List.mem_singleton]
  by_cases ha : a = 7
  · subst ha; decide +kernel
  · show a = 7 ↔ update (update (update (update (fun _ => 0) 7 _) 7 _) 7 _) 7 _ a ≠ 0
    rw [update_of_ne ha, update_of_ne ha, update_of_ne ha, update_of_ne ha]
    exact iff_of_false ha (not_not.2 rfl)

/-- The account is gone with what it was paid, and `CreateAccount` brings
this back. -/
theorem createAccount_revives_balance :
    ∃ n : Node sampleDigests, Reachable n ∧ (n.state.getBalance 7).1 = 0 ∧
      ((n.state.createAccount 7).getBalance 7).1 = 5 :=
  ⟨buried, .of_opened sample_opened paidAfterSuicide_run, by decide +kernel, by decide +kernel⟩

end Node

end NdnGeth.State
