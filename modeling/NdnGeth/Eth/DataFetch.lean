/-
Serving headers (`ndn/eth/datafetch.go`, `ObjManager.queryHeaders`), and what
the requester reads (`ndn/eth/dworker.go`, `dwork.getHeaders`).

The reply has room for as many headers as were asked for; what was not found
stays `nil`. The distance of a header from the first one is computed with 16
bits.
-/
import NdnGeth.Eth.EthMsg

namespace NdnGeth.Eth.Wire

open Lib.Rlp
open Types (Header)

inductive QueryError | invalidRequest | noHeaderFound
  deriving DecidableEq, Repr

/-- The number of the header at place `i`. -/
def EthHeadersQuery.bnum (q : EthHeadersQuery) (i : Nat) : BitVec 64 :=
  q.from_ + (BitVec.ofNat 16 i * (q.skip + 1)).setWidth 64

/-- The `left` places of the reply from `i` on: the loop stops at the first
header that is not found. -/
def headersFrom (getBlockByNumber : BitVec 64 → Option Header) (q : EthHeadersQuery) : (left i : Nat) → List (Option Header)
  | 0, _ => []
  | left + 1, i =>
    match getBlockByNumber (q.bnum i) with
    | some h => some h :: headersFrom getBlockByNumber q left (i + 1)
    | none => List.replicate (left + 1) none

def queryHeaders (getBlockByNumber : BitVec 64 → Option Header) (q : EthHeadersQuery) :
    Except QueryError (List (Option Header)) :=
  if q.count < 1 then .error .invalidRequest
  else
    let headers := headersFrom getBlockByNumber q q.count.toNat 0
    let numheaders := (headers.takeWhile Option.isSome).length
    if numheaders < 1 then .error .noHeaderFound else .ok headers

/-- The reply on the wire: a header that is `nil` is written as an empty list. -/
def headerItem : Option Header → Item
  | some h => Header.codec.toItem h
  | none => .list []

def encodeReply (reply : List (Option Header)) : Bytes := encode (.list (reply.map headerItem))

/-- What the requester makes of it. -/
def decodeReply (wire : Bytes) : Option (List Header) := (Codec.list Header.codec).decode wire

/-! ## What should be served -/

structure CanonicalChain where
  header : Nat → Option Header
  number_eq : ∀ {n h}, header n = some h → h.number = n
  bounded : ∀ {n}, header n ≠ none → n < 2 ^ 64

def CanonicalChain.getBlockByNumber (c : CanonicalChain) (n : BitVec 64) : Option Header := c.header n.toNat

/-- The values before the first one that is missing. -/
def found {α : Type} : List (Option α) → List α
  | some a :: l => a :: found l
  | _ => []

/-- The header at place `i`, as the request means it. -/
def CanonicalChain.wanted (c : CanonicalChain) (q : EthHeadersQuery) (i : Nat) : Option Header :=
  c.header (q.from_.toNat + i * (q.skip.toNat + 1))

def CanonicalChain.expected (c : CanonicalChain) (q : EthHeadersQuery) : List Header :=
  found ((List.range q.count.toNat).map (c.wanted q))

/-- All headers that are asked for exist, and their distances fit into 16 bits. -/
def CanonicalChain.Served (c : CanonicalChain) (q : EthHeadersQuery) : Prop :=
  (∀ i < q.count.toNat, c.wanted q i ≠ none) ∧ (q.count.toNat - 1) * (q.skip.toNat + 1) < 2 ^ 16

section

variable {α : Type} {l : List (Option α)}

theorem map_some_found (h : ∀ o ∈ l, o ≠ none) : (found l).map some = l := by
  induction l with
  | nil => rfl
  | cons o l ih =>
    cases o with
    | none => exact absurd rfl (h none List.mem_cons_self)
    | some a => rw [found, List.map_cons, ih fun o ho => h o (List.mem_cons_of_mem _ ho)]

theorem mapM_id_eq_some {as : List α} : l.mapM id = some as ↔ l = as.map some := by
  induction l generalizing as with
  | nil =>
    cases as with
    | nil => simp
    | cons => simp
  | cons o l ih =>
    cases o with
    | none => cases as <;> simp
    | some a =>
      cases as with
      | nil => simp [Option.bind_eq_some_iff]
      | cons b as => simp [← ih, Option.bind_eq_some_iff, and_comm]

theorem ne_none_of_found_length (h : (found l).length = l.length) : ∀ o ∈ l, o ≠ none := by
  induction l with
  | nil => nofun
  | cons o l ih =>
    cases o with
    | none => cases h
    | some a =>
      rw [found, List.length_cons, List.length_cons, Nat.add_right_cancel_iff] at h
      intro o ho
      rcases List.mem_cons.1 ho with rfl | ho
      · nofun
      · exact ih h o ho

end

variable {c : CanonicalChain} {q : EthHeadersQuery}

theorem headersFrom_eq_map {get : BitVec 64 → Option Header} {left i : Nat} {hs : List Header} :
    headersFrom get q left i = hs.map some ↔ (List.range' i left).map (fun j => get (q.bnum j)) = hs.map some := by
  induction left generalizing i hs with
  | zero => simp [headersFrom]
  | succ left ih =>
    rw [headersFrom, List.range'_succ, List.map_cons]
    cases get (q.bnum i) with
    | none => cases hs <;> simp [List.replicate_succ]
    | some h =>
      cases hs with
      | nil => simp
      | cons h' hs =>
        simp only [List.map_cons, List.cons.injEq, Option.some.injEq]
        rw [ih]

theorem bnum_toNat (q : EthHeadersQuery) (i : Nat) :
    (q.bnum i).toNat = (q.from_.toNat + i * (q.skip.toNat + 1) % 2 ^ 16) % 2 ^ 64 := by
  rw [EthHeadersQuery.bnum, BitVec.toNat_add, BitVec.toNat_setWidth, BitVec.toNat_mul, BitVec.toNat_add, BitVec.toNat_ofNat]
  have : i % 2 ^ 16 * ((q.skip.toNat + (1 : BitVec 16).toNat) % 2 ^ 16) % 2 ^ 16 = i * (q.skip.toNat + 1) % 2 ^ 16 := by
    rw [← Nat.mul_mod]
    rfl
  rw [this]
  omega

theorem getBlockByNumber_bnum {i : Nat} (h : c.wanted q i ≠ none) :
    c.getBlockByNumber (q.bnum i) = c.wanted q i ↔ i * (q.skip.toNat + 1) < 2 ^ 16 := by
  have hlt := c.bounded h
  have hmod := Nat.mod_le (i * (q.skip.toNat + 1)) (2 ^ 16)
  have hnum : (q.bnum i).toNat = q.from_.toNat + i * (q.skip.toNat + 1) % 2 ^ 16 := by
    rw [bnum_toNat, Nat.mod_eq_of_lt (by omega)]
  rw [CanonicalChain.getBlockByNumber, hnum]
  constructor
  · intro heq
    obtain ⟨hd, hhd⟩ := Option.ne_none_iff_exists'.1 h
    rw [hhd] at heq
    have h₁ := c.number_eq heq
    have h₂ := c.number_eq hhd
    omega
  · intro hfit
    rw [Nat.mod_eq_of_lt hfit]
    rfl

theorem headersFrom_eq_expected (c : CanonicalChain) (q : EthHeadersQuery) :
    headersFrom c.getBlockByNumber q q.count.toNat 0 = (c.expected q).map some ↔ c.Served q := by
  rw [headersFrom_eq_map, ← List.range_eq_range']
  -- In both directions all headers exist; then the two lists are compared place by place.
  have hplaces (hall : ∀ i < q.count.toNat, c.wanted q i ≠ none) :
      ((List.range q.count.toNat).map fun j => c.getBlockByNumber (q.bnum j)) = (c.expected q).map some ↔
        (q.count.toNat - 1) * (q.skip.toNat + 1) < 2 ^ 16 := by
    rw [CanonicalChain.expected, map_some_found, List.map_inj_left]
    · constructor
      · intro h
        by_cases h0 : q.count.toNat = 0
        · rw [h0, Nat.zero_sub, Nat.zero_mul]
          exact Nat.two_pow_pos 16
        · exact (getBlockByNumber_bnum (hall _ (by omega))).1 (h _ (List.mem_range.2 (by omega)))
      · intro hfit i hi
        rw [List.mem_range] at hi
        refine (getBlockByNumber_bnum (hall i hi)).2 (lt_of_le_of_lt ?_ hfit)
        exact Nat.mul_le_mul_right _ (by omega)
    · intro o ho
      obtain ⟨i, hi, rfl⟩ := List.mem_map.1 ho
      exact hall i (List.mem_range.1 hi)
  constructor
  · intro h
    have hlen : (c.expected q).length = ((List.range q.count.toNat).map (c.wanted q)).length := by
      have := congrArg List.length h
      simpa using this.symm
    have hall : ∀ i < q.count.toNat, c.wanted q i ≠ none := fun i hi =>
      ne_none_of_found_length hlen _ (List.mem_map.2 ⟨i, List.mem_range.2 hi, rfl⟩)
    exact ⟨hall, (hplaces hall).1 h⟩
  · rintro ⟨hall, hfit⟩
    exact (hplaces hall).2 hfit

theorem decodeReply_encodeReply {reply : List (Option Header)} (h : (encodeReply reply).length < 2 ^ 64) :
    decodeReply (encodeReply reply) = reply.mapM id := by
  have hitem : ∀ o : Option Header, Header.codec.ofItem (headerItem o) = o := by
    intro o
    cases o with
    | none => rfl
    | some hd => exact Header.codec.ofItem_toItem hd
  rw [decodeReply, Codec.decode, encodeReply, decode_encode h, Option.bind_some]
  show (reply.map headerItem).mapM Header.codec.ofItem = _
  rw [List.mapM_map]
  congr 1
  funext o
  exact hitem o

/-- The reply to a request for headers has what was asked for, and can be read by
the requester, exactly when all headers exist and their distances fit into 16
bits. -/
theorem queryHeaders_serves (c : CanonicalChain) (q : EthHeadersQuery) (hcount : 1 ≤ q.count.toNat)
    (hfirst : c.header q.from_.toNat ≠ none) :
    ∃ reply, queryHeaders c.getBlockByNumber q = .ok reply ∧ (reply = (c.expected q).map some ↔ c.Served q) ∧
      ((encodeReply reply).length < 2 ^ 64 → (decodeReply (encodeReply reply) = some (c.expected q) ↔ c.Served q)) := by
  refine ⟨headersFrom c.getBlockByNumber q q.count.toNat 0, ?_, headersFrom_eq_expected c q, fun hlen => ?_⟩
  · obtain ⟨n, hn⟩ : ∃ n, q.count.toNat = n + 1 := ⟨q.count.toNat - 1, by omega⟩
    obtain ⟨h, hh⟩ := Option.ne_none_iff_exists'.1 hfirst
    have hget : c.getBlockByNumber (q.bnum 0) = some h := by
      rw [CanonicalChain.getBlockByNumber, bnum_toNat, Nat.zero_mul, Nat.zero_mod, Nat.add_zero, Nat.mod_eq_of_lt q.from_.isLt, hh]
    rw [queryHeaders, if_neg (by rw [BitVec.lt_def]; simp; omega), hn, headersFrom, hget]
    simp
  · rw [decodeReply_encodeReply hlen, mapM_id_eq_some]
    exact headersFrom_eq_expected c q

/-- A chain of so many blocks after the first one. -/
def plainChain (height : Nat) (h : height < 2 ^ 64) : CanonicalChain where
  header n := if n ≤ height then some { (default : Header) with number := n } else none
  number_eq := by
    intro n hd hn
    split at hn
    · cases hn
      rfl
    · cases hn
  bounded := by
    intro n hn
    by_contra hge
    exact hn (if_neg (by omega))

theorem queryHeaders_serves_two : ∃ reply, queryHeaders (plainChain 5 (by decide)).getBlockByNumber ⟨1, 2, 2, 0⟩ = .ok reply ∧
    reply = ((plainChain 5 (by decide)).expected ⟨1, 2, 2, 0⟩).map some := by
  obtain ⟨reply, hreply, hiff, -⟩ := queryHeaders_serves (plainChain 5 (by decide)) ⟨1, 2, 2, 0⟩ (by decide) (by decide)
  exact ⟨reply, hreply, hiff.2 (by unfold CanonicalChain.Served; decide)⟩

/-- Three headers are asked for where two are left: the requester cannot read the
reply. And three that lie apart: the third is the first one again. -/
theorem queryHeaders_short_and_wrapped :
    (∃ reply, queryHeaders (plainChain 2 (by decide)).getBlockByNumber ⟨1, 3, 0, 0⟩ = .ok reply ∧
      reply.map (·.map Header.number) = [some 1, some 2, none] ∧ decodeReply (encodeReply reply) = none) ∧
    (∃ reply, queryHeaders (plainChain 70000 (by decide)).getBlockByNumber ⟨1, 3, 32767, 0⟩ = .ok reply ∧
      reply.map (·.map Header.number) = [some 1, some 32769, some 1]) ∧
    ((plainChain 70000 (by decide)).expected ⟨1, 3, 32767, 0⟩).map Header.number = [1, 32769, 65537] := by
  refine ⟨⟨_, rfl, by decide, ?_⟩, ⟨_, rfl, by decide⟩, by decide⟩
  rw [decodeReply_encodeReply (by decide +kernel)]
  decide

end NdnGeth.Eth.Wire
