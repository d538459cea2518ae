/-
The downloader's ancestor search (`ndn/eth/downloader.go`,
`Downloader.findAncestor`).

The search keeps an interval `[startbnum, endbnum]` of block numbers. A
round asks the master for up to `MAX_HEADERS_COUNT` headers spread over the
interval's end, takes the last of them that the local chain knows and
shrinks the interval around it; an interval of at most
`MAX_HEADERS_COUNT` numbers is asked for whole and ends the search. The
arithmetic is the source's: `uint64` numbers, a `uint16` skip that is
truncated and whose successor wraps to zero at 65535.
-/
import Mathlib.Data.List.TakeWhile
import NdnGeth.Core.Types

namespace NdnGeth.Eth

open Core (Hash Header)

/-- `MAX_HEADERS_COUNT`, the headers of one request. -/
def MAX_HEADERS_COUNT : UInt64 := 15

/-- What ends a request without headers. -/
inductive FetchError
  | jobAborted
  | fetchFailed
  deriving DecidableEq, Repr

/-- What `findAncestor` uses of the rest of the program: the batch request
to the master (`dwork.getHeaders`) and the local chain's `HasHeader`. -/
structure AncestorEnv where
  getHeaders : (start : UInt64) → (count skip : UInt16) → Except FetchError (List Header)
  hasHeader : Hash → UInt64 → Bool

/-- Where a round leaves the search: another round over a new interval, or
a return with the value of `w.ancestor` or an error. -/
inductive Round
  | again (startbnum endbnum : UInt64)
  | ancestor (num : UInt64)
  | fail (err : FetchError)
  deriving DecidableEq, Repr

/-- The request a round makes: `from`, `count`, `skip`, and whether the round
is the last one. -/
def request (startbnum endbnum : UInt64) : UInt64 × UInt16 × UInt16 × Bool :=
  let total := endbnum - startbnum + 1
  if total ≤ MAX_HEADERS_COUNT then (startbnum, total.toUInt16, 0, true)
  else
    let skip := (total / MAX_HEADERS_COUNT - 1).toUInt16
    (endbnum - (skip + 1).toUInt64 * (MAX_HEADERS_COUNT - 1), MAX_HEADERS_COUNT.toUInt16, skip, false)

/-- The last header of a batch that the local chain has. -/
def commonHeader (env : AncestorEnv) (headers : List Header) : Option Header :=
  headers.reverse.find? fun h => env.hasHeader h.hash h.numberU64

/-- What a round makes of its common header: a result, or the interval of
the next round. -/
def shrink (startbnum endbnum start : UInt64) (skip : UInt16) : (lastround : Bool) → Option Header → Round
  -- `w.ancestor` was set to 0: the genesis block is the common ancestor.
  | true, none => .ancestor 0
  | true, some h => .ancestor h.numberU64
  | false, none => .again startbnum (start - 1)
  | false, some h =>
    if h.numberU64 = endbnum then .ancestor h.numberU64
    else if endbnum > h.numberU64 + skip.toUInt64 then .again h.numberU64 (h.numberU64 + skip.toUInt64)
    else .again h.numberU64 endbnum

/-- One iteration of the `for` loop of `findAncestor`. -/
def findAncestorRound (env : AncestorEnv) (startbnum endbnum : UInt64) : Round :=
  let (start, count, skip, lastround) := request startbnum endbnum
  match env.getHeaders start count skip with
  | .error e => .fail e
  | .ok headers => shrink startbnum endbnum start skip lastround (commonHeader env headers)

/-- The loop, cut off after `fuel` rounds (`none`). -/
def findAncestorLoop (env : AncestorEnv) : Nat → UInt64 → UInt64 → Option (Except FetchError UInt64)
  | 0, _, _ => none
  | fuel + 1, startbnum, endbnum =>
    match findAncestorRound env startbnum endbnum with
    | .ancestor num => some (.ok num)
    | .fail e => some (.error e)
    | .again startbnum endbnum => findAncestorLoop env fuel startbnum endbnum

/-- `Downloader.findAncestor` with a local chain of height `localh`: the
value of `w.ancestor` it returns with. -/
def findAncestor (env : AncestorEnv) (fuel : Nat) (localh : UInt64) : Option (Except FetchError UInt64) :=
  if localh = 0 then some (.ok 0) else findAncestorLoop env fuel 1 localh

/-! ## A master that serves its chain -/

/-- A master's chain: a header for every number up to its height. -/
structure Master where
  header : Nat → Header
  height : Nat
  height_lt : height < 2 ^ 64
  number_eq : ∀ n, n ≤ height → (header n).number = n

/-- The numbers served for a request: `start`, `start + (skip + 1)`, ..., up
to `count` of them, stopping at the height. -/
def Master.served (m : Master) (start : UInt64) (count skip : UInt16) : List Nat :=
  ((List.range count.toNat).map fun i => start.toNat + i * (skip.toNat + 1)).takeWhile (· ≤ m.height)

/-- The environment of a search against `m`, with `known` the local chain's
headers. -/
def Master.env (m : Master) (known : Hash → UInt64 → Bool) : AncestorEnv where
  getHeaders start count skip := .ok ((m.served start count skip).map m.header)
  hasHeader := known

/-- The local chain knows exactly the master's headers up to number `A`. -/
def Master.KnownUpTo (m : Master) (known : Hash → UInt64 → Bool) (A : Nat) : Prop :=
  ∀ n, n ≤ m.height → (known (m.header n).hash (.ofNat n) = true ↔ n ≤ A)

/-! ## What a batch says -/

theorem served_mem {m : Master} {start count skip n} (h : n ∈ m.served start count skip) :
    n ≤ m.height ∧ ∃ i, i < count.toNat ∧ n = start.toNat + i * (skip.toNat + 1) := by
  refine ⟨by simpa using List.mem_takeWhile_imp h, ?_⟩
  have := (List.takeWhile_sublist _).subset h
  simp only [List.mem_map, List.mem_range] at this
  obtain ⟨i, hi, rfl⟩ := this
  exact ⟨i, hi, rfl⟩

theorem mem_served (m : Master) (start : UInt64) (skip : UInt16) {count : UInt16} {i : Nat} (hi : i < count.toNat)
    (hle : start.toNat + i * (skip.toNat + 1) ≤ m.height) :
    start.toNat + i * (skip.toNat + 1) ∈ m.served start count skip := by
  have hall : ((List.range (i + 1)).map fun j => start.toNat + j * (skip.toNat + 1)).takeWhile
      (· ≤ m.height) = (List.range (i + 1)).map fun j => start.toNat + j * (skip.toNat + 1) := by
    rw [List.takeWhile_eq_self_iff]
    intro n hn
    simp only [List.mem_map, List.mem_range] at hn
    obtain ⟨j, hj, rfl⟩ := hn
    have : j * (skip.toNat + 1) ≤ i * (skip.toNat + 1) := Nat.mul_le_mul_right _ (by omega)
    simp only [decide_eq_true_eq]
    omega
  obtain ⟨k, hk⟩ : ∃ k, count.toNat = i + 1 + k := ⟨count.toNat - (i + 1), by omega⟩
  rw [Master.served, hk, List.range_add, List.map_append, List.takeWhile_append, hall]
  simp only [List.length_map, List.length_range, ite_true, List.mem_append, List.mem_map, List.mem_range]
  exact .inl ⟨i, by omega, rfl⟩

variable {m : Master} {known : Hash → UInt64 → Bool} {A : Nat}

theorem commonHeader_some {ns : List Nat} {h : Header} (hA : m.KnownUpTo known A)
    (hns : ∀ n ∈ ns, n ≤ m.height) (hs : ns.Pairwise (· < ·))
    (hc : commonHeader (m.env known) (ns.map m.header) = some h) :
    ∃ c ∈ ns, h = m.header c ∧ c ≤ A ∧ ∀ n ∈ ns, c < n → A < n := by
  have hk : ∀ n ∈ ns, (m.env known).hasHeader (m.header n).hash (m.header n).numberU64 = true ↔ n ≤ A := by
    intro n hn
    rw [Header.numberU64, m.number_eq n (hns n hn)]
    exact hA n (hns n hn)
  rw [commonHeader, ← List.map_reverse, List.find?_map, Option.map_eq_some_iff] at hc
  obtain ⟨c, hc, rfl⟩ := hc
  obtain ⟨hp, as, bs, heq, has⟩ := List.find?_eq_some_iff_append.mp hc
  have hrev : ns = bs.reverse ++ c :: as.reverse := by
    have := congrArg List.reverse heq
    simpa using this
  have hcm : c ∈ ns := by simp [hrev]
  refine ⟨c, hcm, rfl, (hk c hcm).mp hp, fun n hn hlt => ?_⟩
  by_contra hle
  have hnA := (hk n hn).mpr (by omega)
  rw [hrev, List.mem_append, List.mem_cons, List.mem_reverse, List.mem_reverse] at hn
  rcases hn with hn | rfl | hn
  · rw [hrev, List.pairwise_append] at hs
    have := hs.2.2 n (by simpa using hn) c (by simp)
    omega
  · omega
  · have := has n hn
    simp only [Function.comp_apply, hnA, Bool.not_true, Bool.false_eq_true] at this

theorem commonHeader_none {ns : List Nat} (hA : m.KnownUpTo known A) (hns : ∀ n ∈ ns, n ≤ m.height)
    (hc : commonHeader (m.env known) (ns.map m.header) = none) : ∀ n ∈ ns, A < n := by
  intro n hn
  rw [commonHeader, List.find?_eq_none] at hc
  have := hc (m.header n) (by simpa using ⟨n, hn, rfl⟩)
  rw [Header.numberU64, m.number_eq n (hns n hn)] at this
  have hk := hA n (hns n hn)
  by_contra hle
  exact this (hk.mpr (by omega))

theorem served_pairwise (start : UInt64) (count skip : UInt16) :
    (m.served start count skip).Pairwise (· < ·) := by
  refine List.Pairwise.sublist (List.takeWhile_sublist _) ?_
  rw [List.pairwise_map]
  refine List.pairwise_lt_range.imp fun {i j} hij => ?_
  have : (i + 1) * (skip.toNat + 1) ≤ j * (skip.toNat + 1) := Nat.mul_le_mul_right _ (by omega)
  rw [Nat.add_mul] at this
  omega

/-! ## The request of a round -/

theorem total_toNat {s e : UInt64} (h1 : e.toNat - s.toNat + 1 < 2 ^ 64) (hle : s.toNat ≤ e.toNat) :
    (e - s + 1).toNat = e.toNat - s.toNat + 1 := by
  have he := e.toNat_lt
  rw [UInt64.toNat_add, UInt64.toNat_sub_of_le _ _ (UInt64.le_iff_toNat_le.mpr hle)]
  simp only [UInt64.toNat_one]
  omega

theorem request_short {s e : UInt64} (h1 : e.toNat - s.toNat + 1 < 2 ^ 64) (hle : s.toNat ≤ e.toNat)
    (ht : e.toNat - s.toNat + 1 ≤ 15) :
    ∃ count, request s e = (s, count, 0, true) ∧ count.toNat = e.toNat - s.toNat + 1 := by
  have htot := total_toNat h1 hle
  have hc : e - s + 1 ≤ MAX_HEADERS_COUNT := by
    rw [UInt64.le_iff_toNat_le, htot]
    exact ht
  refine ⟨(e - s + 1).toUInt16, by simp [request, hc], ?_⟩
  rw [UInt64.toNat_toUInt16, htot]
  omega

/-- A longer one is asked for at 15 numbers that end with its last, evenly
spread, or, where the successor of the skip has wrapped to zero, at its
last number and beyond. -/
theorem request_long {s e : UInt64} (h1 : e.toNat - s.toNat + 1 < 2 ^ 64) (ht : 15 < e.toNat - s.toNat + 1) :
    ∃ start count skip, request s e = (start, count, skip, false) ∧ count.toNat = 15 ∧
      s.toNat < start.toNat ∧ start.toNat ≤ e.toNat ∧ 15 * (skip.toNat + 1) ≤ e.toNat - s.toNat + 1 ∧
      (start.toNat + 14 * (skip.toNat + 1) = e.toNat ∨ start = e ∧ skip.toNat = 65535) := by
  have he := e.toNat_lt
  have hle : s.toNat ≤ e.toNat := by omega
  have htot := total_toNat h1 hle
  have hc : ¬ e - s + 1 ≤ MAX_HEADERS_COUNT := by
    rw [UInt64.le_iff_toNat_le, htot, not_le]
    exact ht
  generalize hskip : ((e - s + 1) / MAX_HEADERS_COUNT - 1).toUInt16 = skip
  have hq : ((e - s + 1) / MAX_HEADERS_COUNT).toNat = (e.toNat - s.toNat + 1) / 15 := by
    rw [UInt64.toNat_div, htot]
    rfl
  -- `skip` is the quotient less one modulo 2^16, so its wrapped successor is the quotient modulo 2^16.
  have hsk : skip.toNat = ((e.toNat - s.toNat + 1) / 15 - 1) % 65536 := by
    rw [← hskip, UInt64.toNat_toUInt16,
      UInt64.toNat_sub_of_le _ _ (by rw [UInt64.le_iff_toNat_le, hq, UInt64.toNat_one]; omega), hq]
    rfl
  have hgap : (skip + 1).toUInt64.toNat = ((e.toNat - s.toNat + 1) / 15) % 65536 := by
    rw [UInt16.toNat_toUInt64, UInt16.toNat_add, hsk]
    simp only [UInt16.toNat_one]
    omega
  have hmul : ((skip + 1).toUInt64 * (MAX_HEADERS_COUNT - 1)).toNat =
      ((e.toNat - s.toNat + 1) / 15) % 65536 * 14 := by
    rw [UInt64.toNat_mul, hgap]
    have : (MAX_HEADERS_COUNT - 1).toNat = 14 := rfl
    rw [this]
    omega
  have hstart : (e - (skip + 1).toUInt64 * (MAX_HEADERS_COUNT - 1)).toNat =
      e.toNat - ((e.toNat - s.toNat + 1) / 15) % 65536 * 14 := by
    rw [UInt64.toNat_sub_of_le _ _ (by rw [UInt64.le_iff_toNat_le, hmul]; omega), hmul]
  refine ⟨e - (skip + 1).toUInt64 * (MAX_HEADERS_COUNT - 1), MAX_HEADERS_COUNT.toUInt16, skip,
    by simp [request, hc, hskip], rfl, by omega, by omega, by omega, ?_⟩
  by_cases hz : ((e.toNat - s.toNat + 1) / 15) % 65536 = 0
  · right
    refine ⟨UInt64.toNat_inj.mp (by rw [hstart, hz]; omega), by omega⟩
  · left
    omega

/-! ## The search -/

/-- What every round of a search against an honest master keeps: the
interval is proper, `A` is at or below its end, and its start is known
(or still the first block). -/
structure Interval (A : Nat) (localh s e : UInt64) : Prop where
  pos : 1 ≤ s.toNat
  le : s.toNat ≤ e.toNat
  top : e.toNat ≤ localh.toNat
  below : A ≤ e.toNat
  known : s.toNat ≤ A ∨ s.toNat = 1

variable {localh s e : UInt64}

theorem Interval.total_lt (hi : Interval A localh s e) : e.toNat - s.toNat + 1 < 2 ^ 64 := by
  have := e.toNat_lt
  have := hi.pos
  omega

theorem numberU64_header {n : Nat} (hn : n ≤ m.height) :
    (m.header n).numberU64 = .ofNat n ∧ (m.header n).numberU64.toNat = n := by
  have := m.height_lt
  rw [Header.numberU64, m.number_eq n hn]
  exact ⟨rfl, UInt64.toNat_ofNat_of_lt (by simp [UInt64.size]; omega)⟩

theorem findAncestorRound_eq {s e start : UInt64} {count skip : UInt16} {last : Bool}
    (hreq : request s e = (start, count, skip, last)) :
    findAncestorRound (m.env known) s e = shrink s e start skip last
      (commonHeader (m.env known) ((m.served start count skip).map m.header)) := by
  simp only [findAncestorRound, hreq]
  rfl

theorem round_short (hA : m.KnownUpTo known A) (hi : Interval A localh s e)
    (hM : localh.toNat ≤ m.height) (ht : e.toNat - s.toNat + 1 ≤ 15) :
    findAncestorRound (m.env known) s e = .ancestor (.ofNat A) := by
  obtain ⟨count, hreq, hcount⟩ := request_short (by omega) hi.le ht
  have htop := hi.top
  have hbelow := hi.below
  have hns : ∀ n ∈ m.served s count 0, n ≤ m.height := fun n hn => (served_mem hn).1
  -- Every number of the interval is served.
  have hall : ∀ n, s.toNat ≤ n → n ≤ e.toNat → n ∈ m.served s count 0 := by
    intro n h1 h2
    have := mem_served m s 0 (by omega : n - s.toNat < count.toNat) (by simp; omega)
    simpa [h1] using this
  rw [findAncestorRound_eq hreq]
  cases hc : commonHeader (m.env known) ((m.served s count 0).map m.header) with
  | none =>
    have hs := commonHeader_none hA hns hc s.toNat (hall _ le_rfl hi.le)
    have : A = 0 := by rcases hi.known with h | h <;> omega
    simp [shrink, this]
  | some h =>
    obtain ⟨c, hcm, rfl, hcA, hlater⟩ := commonHeader_some hA hns (served_pairwise ..) hc
    obtain ⟨_, i, _, hci⟩ := served_mem hcm
    have : c = A := by
      by_contra hne
      have := hlater A (hall A (by omega) hbelow) (by omega)
      omega
    rw [shrink, (numberU64_header (hns _ hcm)).1, this]

theorem round_long (hA : m.KnownUpTo known A) (hi : Interval A localh s e)
    (hM : localh.toNat ≤ m.height) (ht : 15 < e.toNat - s.toNat + 1) :
    findAncestorRound (m.env known) s e = .ancestor (.ofNat A) ∨
    ∃ s' e', findAncestorRound (m.env known) s e = .again s' e' ∧ Interval A localh s' e' ∧
      e'.toNat - s'.toNat < e.toNat - s.toNat := by
  obtain ⟨start, count, skip, hreq, hcount, hlt, hle, -, hend⟩ := request_long hi.total_lt ht
  obtain ⟨hpos, hse, htop, hbelow, hknown⟩ := hi
  have hns : ∀ n ∈ m.served start count skip, n ≤ m.height := fun n hn => (served_mem hn).1
  have hfirst : start.toNat ∈ m.served start count skip := by
    have := mem_served m start skip (by omega : 0 < count.toNat) (by omega)
    simpa using this
  rw [findAncestorRound_eq hreq]
  cases hc : commonHeader (m.env known) ((m.served start count skip).map m.header) with
  | none =>
    -- Nothing asked for is known: `A` lies before the first number.
    have hs := commonHeader_none hA hns hc start.toNat hfirst
    have hsub : (start - 1).toNat = start.toNat - 1 := by
      rw [UInt64.toNat_sub_of_le _ _ (by rw [UInt64.le_iff_toNat_le, UInt64.toNat_one]; omega), UInt64.toNat_one]
    exact .inr ⟨s, start - 1, rfl, ⟨hpos, by omega, by omega, by omega, hknown⟩, by omega⟩
  | some h =>
    obtain ⟨c, hcm, rfl, hcA, hlater⟩ := commonHeader_some hA hns (served_pairwise ..) hc
    obtain ⟨hnum, hnat⟩ := numberU64_header (hns _ hcm)
    obtain ⟨_, i, hi, hceq⟩ := served_mem hcm
    generalize hu : (m.header c).numberU64 = u at hnum hnat
    by_cases hce : u = e
    · -- The end itself is known.
      left
      have : c = A := by rw [← hnat, hce] at hcA; rw [← hnat, hce]; omega
      rw [shrink, hu, if_pos hce, hnum, this]
    · right
      have hcne : c ≠ e.toNat := fun h => hce (UInt64.toNat_inj.mp (by rw [hnat, h]))
      rcases hend with hend | ⟨rfl, _⟩
      · -- The successor of the known number in the batch is not known.
        have hi' : i < 14 := by
          by_contra hge
          have : i = 14 := by omega
          subst this
          omega
        have hnext : (i + 1) * (skip.toNat + 1) ≤ 14 * (skip.toNat + 1) := Nat.mul_le_mul_right _ (by omega)
        rw [Nat.add_mul, Nat.one_mul] at hnext
        have hmem := mem_served m start skip (by omega : i + 1 < count.toNat)
          (by rw [Nat.add_mul, Nat.one_mul]; omega)
        have hA' := hlater _ hmem (by rw [Nat.add_mul, Nat.one_mul]; omega)
        rw [Nat.add_mul, Nat.one_mul] at hA'
        have hskip : (u + skip.toUInt64).toNat = c + skip.toNat := by
          have := e.toNat_lt
          rw [UInt64.toNat_add, hnat, UInt16.toNat_toUInt64]
          omega
        have hgt : e > u + skip.toUInt64 := by
          rw [gt_iff_lt, UInt64.lt_iff_toNat_lt, hskip]
          omega
        refine ⟨u, u + skip.toUInt64, by rw [shrink, hu, if_neg hce, if_pos hgt], ⟨?_, ?_, ?_, ?_, ?_⟩, ?_⟩ <;> omega
      · -- A wrapped skip asks for the end and beyond it, where nothing is known.
        exfalso
        have : start.toNat ≤ c := by omega
        omega

theorem findAncestorLoop_exact {localh : UInt64} (hA : m.KnownUpTo known A) (hM : localh.toNat ≤ m.height) :
    ∀ (fuel : Nat) (s e : UInt64), Interval A localh s e → e.toNat - s.toNat < fuel →
      findAncestorLoop (m.env known) fuel s e = some (.ok (.ofNat A)) := by
  intro fuel
  induction fuel with
  | zero => intro s e _ h; omega
  | succ fuel ih =>
    intro s e hi hf
    rw [findAncestorLoop]
    by_cases ht : e.toNat - s.toNat + 1 ≤ 15
    · rw [round_short hA hi hM ht]
    · rcases round_long hA hi hM (by omega) with h | ⟨s', e', h, hi', hlt⟩
      · rw [h]
      · rw [h]
        exact ih s' e' hi' (by omega)

/-- **The ancestor search is exact.** Against a master that serves its chain,
of which the local chain (of height `localh`, at most the master's) knows
exactly the headers up to number `A`, the search returns with
`w.ancestor = A`, within `localh` rounds. -/
theorem findAncestor_exact (m : Master) (known : Hash → UInt64 → Bool) (localh : UInt64) (A : Nat)
    (hA : A ≤ localh.toNat) (hM : localh.toNat ≤ m.height) (hk : m.KnownUpTo known A) (fuel : Nat)
    (hf : localh.toNat ≤ fuel) :
    findAncestor (m.env known) fuel localh = some (.ok (.ofNat A)) := by
  unfold findAncestor
  split
  · next h0 =>
    have : A = 0 := by rw [h0] at hA; simpa using hA
    simp [this]
  · next h0 =>
    have hpos : 1 ≤ localh.toNat := by
      by_contra h
      exact h0 (UInt64.toNat_inj.mp (by simp; omega))
    refine findAncestorLoop_exact hk hM fuel 1 localh ⟨?_, ?_, le_rfl, hA, .inr ?_⟩ ?_ <;> simp <;> omega

/-- A chain of 41 blocks whose header `n` has hash `n`. -/
def countingMaster : Master where
  header n := { hash := .ofNat 256 n, parentHash := .ofNat 256 (n - 1), number := n, difficulty := 1, root := 0 }
  height := 40
  height_lt := by decide
  number_eq _ _ := rfl

/-- A local chain of 20 blocks that forked off after number 7: two rounds. -/
theorem findAncestor_counting :
    findAncestor (countingMaster.env fun _ n => n ≤ 7) 20 20 = some (.ok 7) := by
  refine findAncestor_exact countingMaster (fun _ n => n ≤ 7) 20 7 (by decide) (by decide) ?_ 20 (by decide)
  intro n hn
  have hu : (UInt64.ofNat n).toNat = n := (numberU64_header (m := countingMaster) hn).2
  rw [decide_eq_true_eq, UInt64.le_iff_toNat_le, hu]
  rfl

end NdnGeth.Eth
