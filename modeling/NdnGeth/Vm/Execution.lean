/-
What each instruction does to the machine.

An instruction for which the stack is high enough and the memory covers its
areas (`Ready`) does not panic. It keeps the size of the memory, gives back at
most the gas that was handed to a callee, and changes the state as `Effect`
allows (`Did`). What the calls it makes do is a hypothesis here (`CallsOk`),
and shown in `Vm.Safety`.
-/
import NdnGeth.Vm.Table

namespace NdnGeth.Vm

open Lib (Result)
open Lib.Rlp (Bytes)
open State (Digests StateDB Getter)
open Types (Address)

variable {D : Digests} {env : Env D} {w : Watch} {F : Prop}

/-! ## What is required, and what is done -/

/-- What an execution finds. -/
structure Guard (env : Env D) (w : Watch) (s : StateDB D) : Prop where
  good : s.Good env.db
  idle : ∀ a, w.idle a → (s.facts env.db a).nonce ≠ 0 ∧ (s.facts env.db a).code = []

theorem Effect.guard {s t : StateDB D} {d : Int} (h : Effect env w s t d) (hs : Guard env w s) : Guard env w t where
  good := h.good hs.good
  idle a ha := by
    obtain ⟨hn, hc⟩ := hs.idle a ha
    obtain ⟨h1, h2⟩ := h.idle hs.good ha hn
    rw [h1, h2]
    exact ⟨hn, hc⟩

/-- The gas that goes with a request. -/
def Request.gas : Request → Nat
  | call _ _ _ gas _ => gas
  | callCode _ _ _ gas _ => gas
  | delegateCall _ _ _ gas => gas
  | staticCall _ _ _ gas => gas
  | create _ _ gas _ => gas
  | create2 _ _ gas _ _ => gas

/-- Requests an execution makes: in read-only mode nothing is sent or created,
and an account that runs no code makes none. -/
def Request.Fit (w : Watch) : Request → Prop
  | call caller _ _ _ value => (w.still = true → value = 0) ∧ ¬ w.idle caller
  | callCode caller _ _ _ _ => ¬ w.idle caller
  | delegateCall caller _ _ _ => ¬ w.idle caller.self
  | staticCall _ _ _ _ => True
  | create caller _ _ _ => w.still = false ∧ ¬ w.idle caller
  | create2 caller _ _ _ _ => w.still = false ∧ ¬ w.idle caller

/-- From one state of what the frames share to another. -/
structure Moved (env : Env D) (w : Watch) (evm evm' : Evm D) : Prop where
  depth : evm'.depth = evm.depth
  readOnly : evm'.readOnly = evm.readOnly
  effect : ∃ d, Effect env w evm.state evm'.state d

theorem Moved.refl (evm : Evm D) : Moved env w evm evm := ⟨rfl, rfl, 0, .refl⟩

theorem Moved.trans {e₁ e₂ e₃ : Evm D} (h₁ : Moved env w e₁ e₂) (h₂ : Moved env w e₂ e₃) : Moved env w e₁ e₃ := by
  obtain ⟨d₁, h₁'⟩ := h₁.effect
  obtain ⟨d₂, h₂'⟩ := h₂.effect
  exact ⟨h₂.depth.trans h₁.depth, h₂.readOnly.trans h₁.readOnly, _, h₁'.trans h₂'⟩

theorem Moved.guard {e₁ e₂ : Evm D} (h : Moved env w e₁ e₂) (hg : Guard env w e₁.state) : Guard env w e₂.state := by
  obtain ⟨d, h⟩ := h.effect
  exact h.guard hg

theorem Moved.of_effect {evm : Evm D} {s : StateDB D} {d : Int} (h : Effect env w evm.state s d) :
    Moved env w evm { evm with state := s } := ⟨rfl, rfl, d, h⟩

/-- The flag of the interpreter protects the state where it should. -/
def Protected (env : Env D) (w : Watch) (readOnly : Bool) : Prop :=
  w.still = true → readOnly = true ∧ env.rules.isByzantium = true

structure Replied (env : Env D) (w : Watch) (evm : Evm D) (gas : Nat) (r : Reply D) : Prop where
  gas : r.gas ≤ gas
  moved : Moved env w evm r.evm

/-- What the calls do, from one depth, with less gas than `bound`. -/
def CallsOk (env : Env D) (w : Watch) (calls : Calls D) (depth bound : Nat) (F : Prop) : Prop :=
  ∀ evm req, evm.depth = depth → Protected env w evm.readOnly → Guard env w evm.state → req.Fit w → req.gas < two64 →
    req.gas < bound → (calls evm req).Sat (Replied env w evm req.gas) (· = .refund) F

/-- The gas that an instruction hands to a callee, with the stipend. -/
def Machine.handed (m : Machine D) : Execute → Nat
  | .opCall | .opCallCode => m.evm.callGasTemp + if u256 (m.item 2) ≠ 0 then Params.callStipend else 0
  | .opDelegateCall | .opStaticCall => m.evm.callGasTemp
  | _ => 0

/-- The stack is high enough, and the memory covers what is read and written. -/
structure Ready (e : Execute) (m : Machine D) : Prop where
  stack : e.pops ≤ m.stack.length
  memory : m.memory.Ok
  covered : ∀ f ∈ e.memory, f.Covered m.toFrame m.memory

structure Did (env : Env D) (w : Watch) (m : Machine D) (back : Nat) (m' : Machine D) : Prop where
  memory : m.memory.Written m'.memory
  contract : m'.contract = { m.contract with gas := m'.contract.gas }
  gas : m'.gas ≤ m.gas + back
  moved : Moved env w m.evm m'.evm

/-- The machine that an instruction leaves. -/
def Done (env : Env D) (w : Watch) (m : Machine D) (back : Nat) (r : Machine D × Bytes × Option VmError) : Prop :=
  Did env w m back r.1

variable {m m' : Machine D} {E : Panic → Prop}

theorem Did.same (he : m'.evm = m.evm) (hc : m'.contract = m.contract) (hm : m'.memory = m.memory) :
    Did env w m 0 m' :=
  ⟨by rw [hm]; exact .refl _, by rw [hc], by unfold Machine.gas; rw [hc]; exact le_refl _, by rw [he]; exact .refl _⟩

theorem Did.state {s : StateDB D} {d : Int} (he : Effect env w m.evm.state s d) (hc : m'.contract = m.contract)
    (hm : m'.memory = m.memory) (hs : m'.evm = { m.evm with state := s }) : Did env w m 0 m' :=
  ⟨by rw [hm]; exact .refl _, by rw [hc], by unfold Machine.gas; rw [hc]; exact le_refl _, by rw [hs]; exact .of_effect he⟩

theorem Did.memory' (he : m'.evm = m.evm) (hc : m'.contract = m.contract) (hm : m.memory.Written m'.memory) :
    Did env w m 0 m' :=
  ⟨hm, by rw [hc], by unfold Machine.gas; rw [hc]; exact le_refl _, by rw [he]; exact .refl _⟩

/-! ## Stacks -/

section

variable {l : List Nat}

theorem stack_one (h : 1 ≤ l.length) : ∃ x st, l = x :: st := by
  match l, h with
  | x :: st, _ => exact ⟨x, st, rfl⟩

theorem stack_two (h : 2 ≤ l.length) : ∃ x y st, l = x :: y :: st := by
  match l, h with
  | x :: y :: st, _ => exact ⟨x, y, st, rfl⟩

theorem stack_three (h : 3 ≤ l.length) : ∃ x y z st, l = x :: y :: z :: st := by
  match l, h with
  | x :: y :: z :: st, _ => exact ⟨x, y, z, st, rfl⟩

theorem stack_four (h : 4 ≤ l.length) : ∃ x y z u st, l = x :: y :: z :: u :: st := by
  match l, h with
  | x :: y :: z :: u :: st, _ => exact ⟨x, y, z, u, st, rfl⟩

theorem stack_six (h : 6 ≤ l.length) : ∃ a b c d e f st, l = a :: b :: c :: d :: e :: f :: st := by
  match l, h with
  | a :: b :: c :: d :: e :: f :: st, _ => exact ⟨a, b, c, d, e, f, st, rfl⟩

theorem stack_seven (h : 7 ≤ l.length) : ∃ a b c d e f g st, l = a :: b :: c :: d :: e :: f :: g :: st := by
  match l, h with
  | a :: b :: c :: d :: e :: f :: g :: st, _ => exact ⟨a, b, c, d, e, f, g, st, rfl⟩

end

/-! ## Shapes -/

theorem unary_sat (f : Nat → Nat) (h : 1 ≤ m.stack.length) : (unary f m).Sat (Done env w m 0) E F := by
  obtain ⟨x, st, hs⟩ := stack_one h
  unfold unary
  rw [hs]
  exact Did.same rfl rfl rfl

theorem binary_sat (f : Nat → Nat → Nat) (h : 2 ≤ m.stack.length) : (binary f m).Sat (Done env w m 0) E F := by
  obtain ⟨x, y, st, hs⟩ := stack_two h
  unfold binary
  rw [hs]
  exact Did.same rfl rfl rfl

theorem ternary_sat (f : Nat → Nat → Nat → Nat) (h : 3 ≤ m.stack.length) : (ternary f m).Sat (Done env w m 0) E F := by
  obtain ⟨x, y, z, st, hs⟩ := stack_three h
  unfold ternary
  rw [hs]
  exact Did.same rfl rfl rfl

theorem reads_sat {f : Machine D → Nat → Nat × StateDB D} (hf : ∀ x, Effect env w m.evm.state (f m x).2 0)
    (h : 1 ≤ m.stack.length) : (reads f m).Sat (Done env w m 0) E F := by
  obtain ⟨x, st, hs⟩ := stack_one h
  unfold reads
  rw [hs]
  exact Did.state (hf x) rfl rfl rfl

/-! ## Memory and data -/

attribute [local simp] MemorySizeFunc.Covered Frame.item

theorem opSha3_sat (h : Ready .opSha3 m) : (opSha3 env m).Sat (Done env w m 0) E F := by
  obtain ⟨x, y, st, hs⟩ := stack_two h.stack
  have hc : m.memory.Covers x y := by simpa [hs] using h.covered _ rfl
  unfold opSha3
  rw [hs]
  refine (Memory.getPtr_sat h.memory.small hc).bind fun data _ => ?_
  simp only
  split
  · exact Did.state (Effect.refl.mutate (m := .addPreimage _ _) trivial rfl) rfl rfl rfl
  · exact Did.same rfl rfl rfl

variable {st : List Nat}

theorem copyData_sat {n : Machine D} {data : Bytes} {memOffset dataOffset length : Nat}
    (hm : m.memory.Ok) (hc : m.memory.Covers memOffset length) (hn : Did env w m 0 n) (hmem : n.memory = m.memory) :
    (copyData n data memOffset dataOffset length st).Sat (Done env w m 0) E F := by
  unfold copyData
  refine (getDataBig_sat data dataOffset length).bind fun copied _ => ?_
  rw [hmem]
  refine (Memory.set_sat copied hm.small hc).bind fun mem hw => ?_
  exact ⟨hw, hn.contract, hn.gas, hn.moved⟩

theorem opReturnDataCopy_sat (h : Ready .opReturnDataCopy m) :
    (opReturnDataCopy m).Sat (Done env w m 0) E F := by
  obtain ⟨x, y, z, st, hs⟩ := stack_three h.stack
  have hc : m.memory.Covers x z := by simpa [hs] using h.covered _ rfl
  unfold opReturnDataCopy
  rw [hs]
  simp only
  split
  · exact Did.same rfl rfl rfl
  · rename_i hlast
    simp only [isUint64, uint64, Bool.not_eq_true', decide_eq_false_iff_not, not_or, Nat.not_lt, Nat.not_le] at hlast
    obtain ⟨hlt, hle⟩ := hlast
    rw [Nat.mod_eq_of_lt hlt] at hle
    have hy : uint64 y = y := Nat.mod_eq_of_lt (by omega)
    have hyz : uint64 (y + z) = y + z := Nat.mod_eq_of_lt hlt
    rw [hy, hyz]
    refine (slice_sat (Nat.le_add_right _ _) hle).bind fun data _ => ?_
    exact (Memory.set_sat data h.memory.small hc).bind fun mem hw => Did.memory' rfl rfl hw

theorem opMload_sat (h : Ready .opMload m) : (opMload m).Sat (Done env w m 0) E F := by
  obtain ⟨x, st, hs⟩ := stack_one h.stack
  have hc : m.memory.Covers x 32 := by simpa [hs] using h.covered _ rfl
  unfold opMload
  rw [hs]
  exact (Memory.getPtr_sat h.memory.small hc).bind fun data _ => Did.same rfl rfl rfl

theorem opMstore_sat (h : Ready .opMstore m) : (opMstore m).Sat (Done env w m 0) E F := by
  obtain ⟨x, y, st, hs⟩ := stack_two h.stack
  have hc : m.memory.Covers x 32 := by simpa [hs] using h.covered _ rfl
  unfold opMstore
  rw [hs]
  exact (Memory.set32_sat y h.memory.small (hc.resolve_left (by decide))).bind fun mem hw => Did.memory' rfl rfl hw

theorem opMstore8_sat (h : Ready .opMstore8 m) : (opMstore8 m).Sat (Done env w m 0) E F := by
  obtain ⟨x, y, st, hs⟩ := stack_two h.stack
  have hc : m.memory.Covers x 1 := by simpa [hs] using h.covered _ rfl
  unfold opMstore8
  rw [hs]
  exact (Memory.setByte_sat y h.memory.small (hc.resolve_left (by decide))).bind fun mem hw => Did.memory' rfl rfl hw

theorem opCallDataLoad_sat (h : 1 ≤ m.stack.length) : (opCallDataLoad m).Sat (Done env w m 0) E F := by
  obtain ⟨x, st, hs⟩ := stack_one h
  unfold opCallDataLoad
  rw [hs]
  exact (getDataBig_sat _ _ _).bind fun data _ => Did.same rfl rfl rfl

theorem opReturn_sat (hm : m.memory.Ok) (hl : 2 ≤ m.stack.length)
    (hc : m.memory.Covers (m.item 0) (m.item 1)) : (opReturn m).Sat (Done env w m 0) E F := by
  obtain ⟨x, y, st, hs⟩ := stack_two hl
  have hc : m.memory.Covers x y := by simpa [Frame.item, hs] using hc
  unfold opReturn
  rw [hs]
  exact (Memory.getPtr_sat hm.small hc).bind fun ret _ => Did.same rfl rfl rfl

theorem makePush_sat (size n : Nat) : (makePush size n m).Sat (Done env w m 0) E F := by
  unfold makePush
  refine (slice_sat ?_ (min_le_left _ _)).bind fun data _ => Did.same rfl rfl rfl
  exact le_min (min_le_left _ _) (Nat.le_add_right _ _)

theorem makeDup_sat {size : Nat} (hs : 0 < size) (h : size ≤ m.stack.length) :
    (makeDup size m).Sat (Done env w m 0) E F := by
  unfold makeDup
  rw [Machine.back_eq (show size - 1 < m.stack.length by omega)]
  exact Did.same rfl rfl rfl

theorem makeSwap_sat {size : Nat} (h : size + 1 ≤ m.stack.length) : (makeSwap size m).Sat (Done env w m 0) E F := by
  unfold makeSwap
  rw [Machine.back_eq (show 0 < m.stack.length by omega), Machine.back_eq (show size < m.stack.length by omega)]
  exact Did.same rfl rfl rfl

/-! ## Jumps -/

theorem opJump_sat (h : 1 ≤ m.stack.length) : (opJump m).Sat (Done env w m 0) E F := by
  obtain ⟨x, st, hs⟩ := stack_one h
  unfold opJump
  rw [hs]
  simp only
  split
  · exact Did.same rfl rfl rfl
  · exact Did.same rfl rfl rfl

theorem opJumpi_sat (h : 2 ≤ m.stack.length) : (opJumpi m).Sat (Done env w m 0) E F := by
  obtain ⟨x, y, st, hs⟩ := stack_two h
  unfold opJumpi
  rw [hs]
  simp only
  split
  · split
    · exact Did.same rfl rfl rfl
    · exact Did.same rfl rfl rfl
  · exact Did.same rfl rfl rfl

theorem opJumpSub_sat (h : 1 ≤ m.stack.length) : (opJumpSub m).Sat (Done env w m 0) E F := by
  obtain ⟨x, st, hs⟩ := stack_one h
  unfold opJumpSub
  rw [hs]
  simp only
  split
  · exact Did.same rfl rfl rfl
  · split
    · exact Did.same rfl rfl rfl
    · exact Did.same rfl rfl rfl

theorem opReturnSub_sat : (opReturnSub m).Sat (Done env w m 0) E F := by
  unfold opReturnSub
  split
  · exact Did.same rfl rfl rfl
  · exact Did.same rfl rfl rfl

/-! ## The state -/

theorem opSstore_sat (hs : w.still = false) (h : 2 ≤ m.stack.length) : (opSstore env m).Sat (Done env w m 0) E F := by
  obtain ⟨x, y, st, hst⟩ := stack_two h
  unfold opSstore
  rw [hst]
  exact Did.state (Effect.refl.mutate (m := .setState _ _ _) hs rfl) rfl rfl rfl

theorem makeLog_sat {size : Nat} (hs : w.still = false) (h : Ready (.makeLog size) m) :
    (makeLog env size m).Sat (Done env w m 0) E F := by
  have hlen : size + 2 ≤ m.stack.length := h.stack
  obtain ⟨x, y, st, hst⟩ := stack_two (show 2 ≤ m.stack.length by omega)
  have hc : m.memory.Covers x y := by simpa [hst] using h.covered _ rfl
  have hle : ¬ st.length < size := by rw [hst] at hlen; simp only [List.length_cons] at hlen; omega
  unfold makeLog
  rw [hst]
  simp only
  rw [if_neg hle]
  refine (Memory.getPtr_sat h.memory.small hc).bind fun data _ => ?_
  exact Did.state (Effect.refl.mutate (m := .addLog _) hs rfl) rfl rfl rfl

theorem opSuicide_sat (hs : w.still = false) (hi : ¬ w.idle m.contract.self) (h : 1 ≤ m.stack.length) : (opSuicide m).Sat (Done env w m 0) E F := by
  obtain ⟨x, st, hst⟩ := stack_one h
  unfold opSuicide
  rw [hst]
  exact Did.state (Effect.refl.destroy hs hi) rfl rfl rfl

theorem opBalance_sat (h : 1 ≤ m.stack.length) : (opBalance m).Sat (Done env w m 0) E F := by
  refine reads_sat (fun x => ?_) h
  exact Effect.refl.get (.balance (bigToAddress x))

theorem opExtCodeSize_sat (h : 1 ≤ m.stack.length) : (opExtCodeSize env m).Sat (Done env w m 0) E F := by
  refine reads_sat (fun x => ?_) h
  exact Effect.refl.get (.codeSize (bigToAddress x))

theorem opSload_sat (h : 1 ≤ m.stack.length) : (opSload env m).Sat (Done env w m 0) E F := by
  refine reads_sat (fun x => ?_) h
  exact Effect.refl.get (.state m.contract.self (bigToHash x))

theorem opExtCodeHash_sat (h : 1 ≤ m.stack.length) : (opExtCodeHash env m).Sat (Done env w m 0) E F := by
  refine reads_sat (fun x => ?_) h
  have he : Effect env w m.evm.state (m.evm.state.isEmpty (bigToAddress x)).2 0 :=
    Effect.refl.get (.empty (bigToAddress x))
  simp only
  split
  · exact he
  · exact he.get (.codeHash (bigToAddress x))

theorem opExtCodeCopy_sat (h : Ready .opExtCodeCopy m) : (opExtCodeCopy env m).Sat (Done env w m 0) E F := by
  obtain ⟨a, x, y, z, st, hs⟩ := stack_four h.stack
  have hc : m.memory.Covers x z := by simpa [hs] using h.covered _ rfl
  have he : Effect env w m.evm.state (m.evm.state.getCode env.db (bigToAddress a)).2 0 :=
    Effect.refl.get (.code (bigToAddress a))
  unfold opExtCodeCopy
  rw [hs]
  exact copyData_sat h.memory hc (Did.state he rfl rfl rfl) rfl

/-! ## Calls and creations -/

theorem returned_sat {retOffset retSize gas : Nat} {r : Reply D} (hm : m.memory.Ok)
    (hc : m.memory.Covers retOffset retSize) (hr : Replied env w m.evm gas r) :
    (returned m st retOffset retSize r).Sat (Done env w m gas) E F := by
  have hadd : add64 m.gas r.gas ≤ m.gas + gas :=
    (Nat.mod_le _ _).trans (Nat.add_le_add_left hr.gas _)
  unfold returned
  simp only
  split
  · exact (Memory.set_sat r.ret hm.small hc).bind fun mem hw => ⟨hw, rfl, hadd, hr.moved⟩
  · exact ⟨.refl _, rfl, hadd, hr.moved⟩

/-- What a frame finds that makes a call. -/
structure Calling (env : Env D) (w : Watch) (calls : Calls D) (bound : Nat) (F : Prop) (m : Machine D) : Prop where
  guard : Guard env w m.evm.state
  shield : Protected env w m.evm.readOnly
  self : ¬ w.idle m.contract.self
  calls : CallsOk env w calls m.evm.depth bound F

variable {calls : Calls D} {bound : Nat}

theorem Calling.returned (h : Calling env w calls bound F m) (hm : m.memory.Ok)
    {inOffset inSize retOffset retSize gas : Nat} (hin : m.memory.Covers inOffset inSize)
    (hret : m.memory.Covers retOffset retSize) (req : Bytes → Request) (hf : ∀ args, (req args).Fit w)
    (hgas : ∀ args, (req args).gas = gas) (hg : gas < two64) (hb : gas < bound) :
    (do
      let args ← m.memory.getPtr inOffset inSize
      let r ← calls m.evm (req args)
      Vm.returned m st retOffset retSize r).Sat (Done env w m gas) (· = Panic.refund) F := by
  refine (Memory.getPtr_sat hm.small hin).bind fun args _ => ?_
  have hreq := h.calls m.evm (req args) rfl h.shield h.guard (hf args) (by rw [hgas]; exact hg) (by rw [hgas]; exact hb)
  rw [hgas] at hreq
  exact hreq.bind fun r hr => returned_sat hm hret hr

theorem withStipend_of_lt {gas value : Nat} (h : gas + (if value ≠ 0 then Params.callStipend else 0) < two64) :
    withStipend gas value = gas + if value ≠ 0 then Params.callStipend else 0 := by
  unfold withStipend
  split
  · rename_i hv
    rw [if_pos hv] at h
    exact add64_of_lt h
  · rfl

theorem Execute.run_call {e : Execute} (he : e.calls = true) (hst : e.pops ≤ m.stack.length) (hg : m.handed e < two64) :
    ∃ (st : List Nat) (inOffset inSize retOffset retSize : Nat) (req : Bytes → Request),
      (∀ calls : Calls D, e.run env calls m = do
        let args ← m.memory.getPtr inOffset inSize
        let r ← calls m.evm (req args)
        Vm.returned m st retOffset retSize r) ∧
      (∀ args, (req args).gas = m.handed e) ∧
      (∀ w : Watch, ¬ w.idle m.contract.self → (e = .opCall → w.still = true → m.item 2 = 0) → ∀ args, (req args).Fit w) ∧
      ((∀ f ∈ e.memory, f.Covered m.toFrame m.memory) → m.memory.Covers inOffset inSize ∧ m.memory.Covers retOffset retSize) := by
  have hvalue (hh : m.handed e = m.evm.callGasTemp + if u256 (m.item 2) ≠ 0 then Params.callStipend else 0) :
      withStipend m.evm.callGasTemp (u256 (m.item 2)) = m.handed e := by
    rw [hh] at hg ⊢
    exact withStipend_of_lt hg
  cases e with
  | opCall =>
    obtain ⟨x, addr, value, inOffset, inSize, retOffset, retSize, st, hs⟩ := stack_seven hst
    have hi : m.item 2 = value := by simp [Frame.item, hs]
    rw [hi] at hvalue ⊢
    refine ⟨st, inOffset, inSize, retOffset, retSize, fun args => .call m.contract.self (bigToAddress addr) args
      (withStipend m.evm.callGasTemp (u256 value)) (u256 value), fun calls => ?_, fun _ => hvalue (by rw [← hi]; rfl),
      fun w hself hv _ => ⟨fun hw => by rw [hv rfl hw]; rfl, hself⟩, fun hc => ?_⟩
    · simp only [Execute.run, Vm.opCall, hs]
    · simpa [hs, and_comm] using hc _ rfl
  | opCallCode =>
    obtain ⟨x, addr, value, inOffset, inSize, retOffset, retSize, st, hs⟩ := stack_seven hst
    have hi : m.item 2 = value := by simp [Frame.item, hs]
    rw [hi] at hvalue ⊢
    refine ⟨st, inOffset, inSize, retOffset, retSize, fun args => .callCode m.contract.self (bigToAddress addr) args
      (withStipend m.evm.callGasTemp (u256 value)) (u256 value), fun calls => ?_, fun _ => hvalue (by rw [← hi]; rfl),
      fun w hself _ _ => hself, fun hc => ?_⟩
    · simp only [Execute.run, Vm.opCallCode, hs]
    · simpa [hs, and_comm] using hc _ rfl
  | opDelegateCall =>
    obtain ⟨x, addr, inOffset, inSize, retOffset, retSize, st, hs⟩ := stack_six hst
    refine ⟨st, inOffset, inSize, retOffset, retSize, fun args => .delegateCall m.contract (bigToAddress addr) args
      m.evm.callGasTemp, fun calls => ?_, fun _ => rfl, fun w hself _ _ => hself, fun hc => ?_⟩
    · simp only [Execute.run, Vm.opDelegateCall, hs]
    · simpa [hs, and_comm] using hc _ rfl
  | opStaticCall =>
    obtain ⟨x, addr, inOffset, inSize, retOffset, retSize, st, hs⟩ := stack_six hst
    refine ⟨st, inOffset, inSize, retOffset, retSize, fun args => .staticCall m.contract.self (bigToAddress addr) args
      m.evm.callGasTemp, fun calls => ?_, fun _ => rfl, fun _ _ _ _ => trivial, fun hc => ?_⟩
    · simp only [Execute.run, Vm.opStaticCall, hs]
    · simpa [hs, and_comm] using hc _ rfl
  | _ => cases he

theorem Execute.run_handed {e : Execute} (he : e.calls = true) (hst : e.pops ≤ m.stack.length)
    (hg : m.handed e < two64) {calls' : Calls D}
    (h : ∀ evm req, req.gas = m.handed e → calls' evm req = calls evm req) : e.run env calls' m = e.run env calls m := by
  obtain ⟨st, inOffset, inSize, retOffset, retSize, req, hrun, hreq, -⟩ := Execute.run_call he hst hg
  rw [hrun, hrun]
  cases m.memory.getPtr inOffset inSize with
  | ok args => rw [Result.ok_bind, Result.ok_bind, h _ _ (hreq args)]
  | fault _ => rfl
  | unfinished => rfl

theorem Execute.call_sat {e : Execute} (he : e.calls = true) (h : Calling env w calls bound F m) (hr : Ready e m)
    (hv : e = .opCall → w.still = true → m.item 2 = 0) (hg : m.handed e < two64) (hb : m.handed e < bound) :
    (e.run env calls m).Sat (Done env w m (m.handed e)) (· = .refund) F := by
  obtain ⟨st, inOffset, inSize, retOffset, retSize, req, hrun, hreq, hfit, hcov⟩ := Execute.run_call he hr.stack hg
  obtain ⟨hin, hret⟩ := hcov hr.covered
  rw [hrun]
  exact h.returned hr.memory hin hret req (hfit w h.self hv) hreq hg hb

theorem useGas_getD {c : Contract} {gas : Nat} (h : gas ≤ c.gas) :
    (c.useGas gas).getD c = { c with gas := c.gas - gas } := by
  unfold Contract.useGas
  rw [if_neg (Nat.not_lt.2 h)]
  rfl

theorem created_did {gas : Nat} {failed : Bool} {r : Reply D} (hg : gas ≤ m.gas) (hr : Replied env w m.evm gas r) :
    Done env w m 0 (created { m with contract := { m.contract with gas := m.gas - gas } } st failed r) := by
  have hadd : add64 (m.gas - gas) r.gas ≤ m.gas + 0 := (Nat.mod_le _ _).trans (by have := hr.gas; omega)
  exact ⟨.refl _, rfl, hadd, hr.moved⟩

theorem Calling.created (h : Calling env w calls bound F m) {failed : Reply D → Bool} {gas : Nat}
    (req : Request) (hgas : req.gas = gas) (hf : req.Fit w) (hle : gas ≤ m.gas) (hg : m.gas < two64)
    (hb : m.gas < bound) :
    (do
      let r ← calls m.evm req
      return Vm.created { m with contract := { m.contract with gas := m.gas - gas } } st (failed r) r).Sat
        (Done env w m 0) (· = Panic.refund) F := by
  have hreq := h.calls m.evm req rfl h.shield h.guard hf (by omega) (by omega)
  rw [hgas] at hreq
  exact hreq.bind fun r hr => Result.sat_pure.2 (created_did hle hr)

theorem opCreate_sat (h : Calling env w calls bound F m) (hs : w.still = false) (hr : Ready .opCreate m)
    (hg : m.gas < two64) (hb : m.gas < bound) :
    (opCreate env calls m).Sat (Done env w m 0) (· = .refund) F := by
  obtain ⟨value, offset, size, st, hst⟩ := stack_three hr.stack
  have hc : m.memory.Covers offset size := by simpa [hst] using hr.covered _ rfl
  have hle : (if env.rules.isEIP150 then m.gas - m.gas / 64 else m.gas) ≤ m.gas := by split <;> omega
  unfold opCreate
  rw [hst]
  simp only [useGas_getD hle]
  refine (Memory.getPtr_sat hr.memory.small hc).bind fun input _ => ?_
  exact h.created (.create m.contract.self input _ value) rfl ⟨hs, h.self⟩ hle hg hb

theorem opCreate2_sat (h : Calling env w calls bound F m) (hs : w.still = false) (hr : Ready .opCreate2 m)
    (hg : m.gas < two64) (hb : m.gas < bound) :
    (opCreate2 calls m).Sat (Done env w m 0) (· = .refund) F := by
  obtain ⟨value, offset, size, salt, st, hst⟩ := stack_four hr.stack
  have hc : m.memory.Covers offset size := by simpa [hst] using hr.covered _ rfl
  have hle : m.gas - m.gas / 64 ≤ m.gas := Nat.sub_le _ _
  unfold opCreate2
  rw [hst]
  simp only [useGas_getD hle]
  refine (Memory.getPtr_sat hr.memory.small hc).bind fun input _ => ?_
  exact h.created (.create2 m.contract.self input _ value salt) rfl ⟨hs, h.self⟩ hle hg hb

/-! ## All of them -/

theorem opCallDataCopy_sat (h : Ready .opCallDataCopy m) : (opCallDataCopy m).Sat (Done env w m 0) E F := by
  obtain ⟨x, y, z, st, hs⟩ := stack_three h.stack
  have hc : m.memory.Covers x z := by simpa [hs] using h.covered _ rfl
  unfold opCallDataCopy
  rw [hs]
  exact copyData_sat h.memory hc (Did.same rfl rfl rfl) rfl

theorem opCodeCopy_sat (h : Ready .opCodeCopy m) : (opCodeCopy m).Sat (Done env w m 0) E F := by
  obtain ⟨x, y, z, st, hs⟩ := stack_three h.stack
  have hc : m.memory.Covers x z := by simpa [hs] using h.covered _ rfl
  unfold opCodeCopy
  rw [hs]
  exact copyData_sat h.memory hc (Did.same rfl rfl rfl) rfl

theorem opPop_sat (h : 1 ≤ m.stack.length) : (opPop m).Sat (Done env w m 0) E F := by
  obtain ⟨x, st, hs⟩ := stack_one h
  unfold opPop
  rw [hs]
  exact Did.same rfl rfl rfl

theorem Execute.run_sat (e : Execute) (h : Calling env w calls bound F m) (hr : Ready e m) (hsh : e.Shaped)
    (hw : e.writes = true → w.still = false) (hv : e = .opCall → w.still = true → m.item 2 = 0)
    (hg : m.gas + m.handed e < two64) (hb : m.gas + m.handed e < bound) :
    (e.run env calls m).Sat (Done env w m (m.handed e)) (· = .refund) F := by
  cases e with
  | opStop | opAddress | opOrigin | opCaller | opCallValue | opCallDataSize | opCodeSize | opGasprice
  | opReturnDataSize | opCoinbase | opTimestamp | opNumber | opDifficulty | opGasLimit | opChainID | opPc | opMsize
  | opGas | opJumpdest | opBeginSub | opPush1 =>
    exact Did.same rfl rfl rfl
  | opIszero | opNot | opBlockhash =>
    exact unary_sat _ hr.stack
  | opAdd | opMul | opSub | opDiv | opSdiv | opMod | opSmod | opExp | opSignExtend | opLt | opGt | opSlt | opSgt
  | opEq | opAnd | opOr | opXor | opByte | opSHL | opSHR | opSAR =>
    exact binary_sat _ hr.stack
  | opAddmod | opMulmod =>
    exact ternary_sat _ hr.stack
  | opCall | opCallCode | opDelegateCall | opStaticCall =>
    exact call_sat rfl h hr hv (Nat.lt_of_le_of_lt (Nat.le_add_left _ _) hg) (Nat.lt_of_le_of_lt (Nat.le_add_left _ _) hb)
  | opSha3 => exact opSha3_sat hr
  | opBalance => exact opBalance_sat hr.stack
  | opCallDataLoad => exact opCallDataLoad_sat hr.stack
  | opCallDataCopy => exact opCallDataCopy_sat hr
  | opCodeCopy => exact opCodeCopy_sat hr
  | opExtCodeSize => exact opExtCodeSize_sat hr.stack
  | opExtCodeCopy => exact opExtCodeCopy_sat hr
  | opReturnDataCopy => exact opReturnDataCopy_sat hr
  | opExtCodeHash => exact opExtCodeHash_sat hr.stack
  | opSelfBalance => exact Did.state (Effect.refl.get (.balance m.contract.self)) rfl rfl rfl
  | opPop => exact opPop_sat hr.stack
  | opMload => exact opMload_sat hr
  | opMstore => exact opMstore_sat hr
  | opMstore8 => exact opMstore8_sat hr
  | opSload => exact opSload_sat hr.stack
  | opSstore => exact opSstore_sat (hw rfl) hr.stack
  | opJump => exact opJump_sat hr.stack
  | opJumpi => exact opJumpi_sat hr.stack
  | opReturnSub => exact opReturnSub_sat
  | opJumpSub => exact opJumpSub_sat hr.stack
  | makePush size n => exact makePush_sat size n
  | makeDup size => exact makeDup_sat hsh hr.stack
  | makeSwap size => exact makeSwap_sat hr.stack
  | makeLog size => exact makeLog_sat (hw rfl) hr
  | opCreate => exact opCreate_sat h (hw rfl) hr hg hb
  | opReturn => exact opReturn_sat hr.memory hr.stack (hr.covered _ rfl)
  | opCreate2 => exact opCreate2_sat h (hw rfl) hr hg hb
  | opRevert => exact opReturn_sat hr.memory hr.stack (hr.covered _ rfl)
  | opSuicide => exact opSuicide_sat (hw rfl) h.self hr.stack

end NdnGeth.Vm
