/-
The headers of a download (`ndn/eth/dworker.go`, `Downloader.fetchHeaders`).

The loop asks the master for batches of headers, from the ancestor on. How far
it has come it takes from the length of what the master returned: a batch may
be empty, and then the same is asked again, or longer than what was asked for,
and then all of it is forwarded. From an honest master, whatever the lengths of
its batches, every header arrives once and in order (`fetchHeaders_complete`).
-/
import NdnGeth.Eth.Downloader

namespace NdnGeth.Eth

open Core (Header)

/-- What a round of the loop meets: whether `d.quit` is closed, what the master
returns, and before which header of it `w.finish` is found closed. -/
structure HeaderEvent where
  quit : Bool
  reply : Except FetchError (List Header)
  finish : Option Nat
  deriving DecidableEq

/-- The variables of the loop, and what was sent on `headerCh`. -/
structure HeaderLoop where
  current : UInt64
  cnt : UInt16
  abort : Bool
  forwarded : List Header
  deriving DecidableEq

inductive HeaderRound
  | again (s : HeaderLoop)
  | done (s : HeaderLoop)
  deriving DecidableEq

namespace HeaderLoop

def start (ancestor : UInt64) : HeaderLoop := ⟨ancestor + 1, MAX_HEADERS_COUNT.toUInt16, false, []⟩

def count (s : HeaderLoop) (last : UInt64) : UInt16 :=
  if s.current + s.cnt.toUInt64 > last + 1 then (last - s.current + 1).toUInt16 else s.cnt

/-- The loop over a batch (`HLOOP`): what is forwarded of it, and whether it is
broken off. -/
def forward (headers : List Header) : Option Nat → List Header × Bool
  | none => (headers, false)
  | some n => (headers.take n, n < headers.length)

def Asks (s : HeaderLoop) (last : UInt64) (ev : HeaderEvent) : Prop := ev.quit = false ∧ s.abort = false ∧ ¬ s.current > last

instance (s : HeaderLoop) (last : UInt64) (ev : HeaderEvent) : Decidable (s.Asks last ev) :=
  inferInstanceAs (Decidable (_ ∧ _ ∧ ¬ _))

def round (last : UInt64) (s : HeaderLoop) (ev : HeaderEvent) : HeaderRound :=
  let s := { s with cnt := s.count last }
  if s.Asks last ev then
    match ev.reply with
    | .error _ => .done s
    | .ok headers =>
      let (sent, abort) := forward headers ev.finish
      .again { s with current := s.current + .ofNat headers.length, abort, forwarded := s.forwarded ++ sent }
  else .done s

/-- The loop from round `i` on, cut off after `fuel` rounds (`none`). -/
def run (last : UInt64) (events : Nat → HeaderEvent) : (fuel i : Nat) → HeaderLoop → Option HeaderLoop
  | 0, _, _ => none
  | fuel + 1, i, s =>
    match s.round last (events i) with
    | .again s => run last events fuel (i + 1) s
    | .done s => some s

inductive Reaches (ancestor last : UInt64) (events : Nat → HeaderEvent) : Nat → HeaderLoop → Prop
  | first : Reaches ancestor last events 0 (start ancestor)
  | next {i : Nat} {s s' : HeaderLoop} : Reaches ancestor last events i s → s.round last (events i) = .again s' →
    Reaches ancestor last events (i + 1) s'

/-- Every batch has a header, and no more than were asked for. -/
def Proper (ancestor last : UInt64) (events : Nat → HeaderEvent) : Prop :=
  ∀ i s, Reaches ancestor last events i s → s.Asks last (events i) → ∀ headers, (events i).reply = .ok headers →
    0 < headers.length ∧ headers.length ≤ (s.count last).toNat

/-- Every batch has as many headers as were asked for. -/
def Full (ancestor last : UInt64) (events : Nat → HeaderEvent) : Prop :=
  ∀ i s, Reaches ancestor last events i s → s.Asks last (events i) → ∀ headers, (events i).reply = .ok headers →
    headers.length = (s.count last).toNat

structure Inv (ancestor last : UInt64) (s : HeaderLoop) : Prop where
  current_gt : ancestor.toNat < s.current.toNat
  current_le : s.current.toNat ≤ last.toNat + 1
  cnt_pos : 0 < s.cnt.toNat
  cnt_le : s.cnt.toNat ≤ 15
  forwarded_le : s.forwarded.length ≤ s.current.toNat - (ancestor.toNat + 1)

variable {ancestor last : UInt64} {events : Nat → HeaderEvent} {s s' : HeaderLoop} {i : Nat}

theorem forward_length (headers : List Header) (finish : Option Nat) : (forward headers finish).1.length ≤ headers.length := by
  cases finish with
  | none => exact le_rfl
  | some n => exact List.length_take_le' ..

theorem Inv.count (hlast : last.toNat + 16 < 2 ^ 64) (hi : s.Inv ancestor last) :
    (s.count last).toNat ≤ 15 ∧ s.current.toNat + (s.count last).toNat ≤ last.toNat + 1 ∧
      (s.current.toNat ≤ last.toNat → 0 < (s.count last).toNat) := by
  have hle := hi.current_le
  have hcnt := hi.cnt_le
  have hpos := hi.cnt_pos
  have hsum : (s.current + s.cnt.toUInt64).toNat = s.current.toNat + s.cnt.toNat := by
    rw [UInt64.toNat_add, UInt16.toNat_toUInt64, Nat.mod_eq_of_lt (by omega)]
  have hend : (last + 1).toNat = last.toNat + 1 := by
    rw [UInt64.toNat_add, UInt64.toNat_one, Nat.mod_eq_of_lt (by omega)]
  unfold HeaderLoop.count
  split
  · rename_i hgt
    rw [gt_iff_lt, UInt64.lt_iff_toNat_lt, hsum, hend] at hgt
    have hrest : (last - s.current + 1).toNat = last.toNat + 1 - s.current.toNat := by
      rw [UInt64.toNat_add, UInt64.toNat_sub, UInt64.toNat_one]
      omega
    rw [UInt64.toNat_toUInt16, hrest, Nat.mod_eq_of_lt (by omega)]
    omega
  · rename_i hgt
    rw [gt_iff_lt, UInt64.lt_iff_toNat_lt, hsum, hend] at hgt
    omega

theorem round_again {ev : HeaderEvent} (h : s.round last ev = .again s') : s.Asks last ev ∧ ∃ headers, ev.reply = .ok headers ∧
    s' = ⟨s.current + .ofNat headers.length, s.count last, (forward headers ev.finish).2,
      s.forwarded ++ (forward headers ev.finish).1⟩ := by
  unfold round at h
  dsimp only at h
  split at h
  · rename_i ha
    refine ⟨ha, ?_⟩
    split at h
    · cases h
    · rename_i headers hr
      cases h
      exact ⟨headers, hr, rfl⟩
  · cases h

theorem start_current (hlt : ancestor < last) : (start ancestor).current.toNat = ancestor.toNat + 1 := by
  have hlast := last.toNat_lt
  rw [UInt64.lt_iff_toNat_lt] at hlt
  rw [start, UInt64.toNat_add, UInt64.toNat_one, Nat.mod_eq_of_lt (by omega)]

theorem inv_start (hlt : ancestor < last) : (start ancestor).Inv ancestor last := by
  refine ⟨?_, ?_, (by decide : 0 < MAX_HEADERS_COUNT.toUInt16.toNat), le_rfl, Nat.zero_le _⟩
  · exact (start_current hlt).ge
  · rw [start_current hlt]
    exact Nat.succ_le_succ (UInt64.lt_iff_toNat_lt.1 hlt).le

theorem Inv.again (ev : HeaderEvent) {headers : List Header} (hlast : last.toNat + 16 < 2 ^ 64) (hi : s.Inv ancestor last)
    (hasks : s.Asks last ev) (hle : headers.length ≤ (s.count last).toNat) :
    (⟨s.current + .ofNat headers.length, s.count last, (forward headers ev.finish).2,
      s.forwarded ++ (forward headers ev.finish).1⟩ : HeaderLoop).Inv ancestor last ∧
    (s.current + .ofNat headers.length).toNat = s.current.toNat + headers.length := by
  obtain ⟨hcnt, hend, hpos⟩ := hi.count hlast
  have hgt := hi.current_gt
  have hfor := hi.forwarded_le
  have hsent := forward_length headers ev.finish
  have hcur : (s.current + .ofNat headers.length).toNat = s.current.toNat + headers.length := by
    rw [UInt64.toNat_add, UInt64.toNat_ofNat', Nat.mod_eq_of_lt (by omega : headers.length < 2 ^ 64), Nat.mod_eq_of_lt (by omega)]
  refine ⟨⟨?_, ?_, hpos (UInt64.le_iff_toNat_le.1 (UInt64.not_lt.1 hasks.2.2)), hcnt, ?_⟩, hcur⟩
  · rw [hcur]
    omega
  · rw [hcur]
    omega
  · rw [hcur, List.length_append]
    omega

section

variable (hlt : ancestor < last) (hlast : last.toNat + 16 < 2 ^ 64)
include hlt hlast

theorem Reaches.inv (hle : ∀ i s, Reaches ancestor last events i s → s.Asks last (events i) → ∀ headers,
    (events i).reply = .ok headers → headers.length ≤ (s.count last).toNat) (hr : Reaches ancestor last events i s) :
    s.Inv ancestor last := by
  induction hr with
  | first => exact inv_start hlt
  | @next i s s' hr hround ih =>
    obtain ⟨hasks, headers, hreply, rfl⟩ := round_again hround
    exact (ih.again (events i) hlast hasks (hle i s hr hasks headers hreply)).1

theorem Full.proper (h : Full ancestor last events) : Proper ancestor last events := by
  intro i s hr hasks headers hreply
  have hi := hr.inv hlt hlast fun i s hr hasks headers hreply => (h i s hr hasks headers hreply).le
  have hpos := (hi.count hlast).2.2 (UInt64.le_iff_toNat_le.1 (UInt64.not_lt.1 hasks.2.2))
  rw [h i s hr hasks headers hreply]
  exact ⟨hpos, le_rfl⟩

variable (hp : Proper ancestor last events)
include hp

theorem Proper.inv (hr : Reaches ancestor last events i s) : s.Inv ancestor last :=
  hr.inv hlt hlast fun i s hr hasks headers hreply => (hp i s hr hasks headers hreply).2

theorem Reaches.returns (hr : Reaches ancestor last events i s) {bound : Nat} (hb : last.toNat + 1 - s.current.toNat < bound) :
    ∃ r, (∀ fuel, bound ≤ fuel → run last events fuel i s = some r) ∧ r.forwarded.length ≤ last.toNat - ancestor.toNat := by
  induction bound generalizing i s with
  | zero => exact absurd hb (Nat.not_lt_zero _)
  | succ bound ih =>
    cases hround : s.round last (events i) with
    | done r =>
      refine ⟨r, fun fuel hf => ?_, ?_⟩
      · obtain ⟨fuel, rfl⟩ : ∃ n, fuel = n + 1 := ⟨fuel - 1, by omega⟩
        rw [run, hround]
      · have hi := hp.inv hlt hlast hr
        have hle := hi.current_le
        have hfor := hi.forwarded_le
        have hsame : r.forwarded = s.forwarded := by
          unfold round at hround
          dsimp only at hround
          split at hround
          · split at hround
            · cases hround
              rfl
            · cases hround
          · cases hround
            rfl
        rw [hsame]
        omega
    | again s' =>
      have hnext := hr.next hround
      have hcur : s.current.toNat < s'.current.toNat ∧ s'.current.toNat ≤ last.toNat + 1 := by
        obtain ⟨hasks, headers, hreply, rfl⟩ := round_again hround
        obtain ⟨hpos, hle⟩ := hp i s hr hasks headers hreply
        obtain ⟨hi, hcur⟩ := (hp.inv hlt hlast hr).again (events i) hlast hasks hle
        have hend := hi.current_le
        rw [hcur] at hend ⊢
        omega
      obtain ⟨r, hret, hfor⟩ := ih hnext (by omega)
      refine ⟨r, fun fuel hf => ?_, hfor⟩
      obtain ⟨fuel, rfl⟩ : ∃ n, fuel = n + 1 := ⟨fuel - 1, by omega⟩
      rw [run, hround]
      exact hret fuel (by omega)

end

structure Downloads (ancestor last : UInt64) (events : Nat → HeaderEvent) : Prop where
  /-- It comes to an end. -/
  ends : ∃ n r, (∀ fuel, n ≤ fuel → run last events fuel 0 (start ancestor) = some r) ∧
    r.forwarded.length ≤ last.toNat - ancestor.toNat
  /-- The first request is for what follows the ancestor. -/
  first : ∀ s, Reaches ancestor last events 0 s → s.current.toNat = ancestor.toNat + 1
  /-- The next request begins where the last one ended. -/
  consecutive : ∀ i s s', Reaches ancestor last events i s → s.round last (events i) = .again s' →
    s'.current.toNat = s.current.toNat + (s.count last).toNat
  /-- No request is for more than the last header. -/
  contained : ∀ i s, Reaches ancestor last events i s → s.Asks last (events i) →
    ancestor.toNat + 1 ≤ s.current.toNat ∧ s.current.toNat + (s.count last).toNat ≤ last.toNat + 1
  forwarded_le : ∀ i s, Reaches ancestor last events i s → s.forwarded.length ≤ last.toNat - ancestor.toNat

/-- With batches of as many headers as were asked for, the download of headers
makes progress and stays in range, one request after the other. -/
theorem fetchHeaders_in_range (hlt : ancestor < last) (hlast : last.toNat + 16 < 2 ^ 64) (h : Full ancestor last events) :
    Downloads ancestor last events where
  ends := by
    obtain ⟨r, hret, hfor⟩ := Reaches.returns hlt hlast (h.proper hlt hlast) .first (Nat.lt_succ_self _)
    exact ⟨_, r, hret, hfor⟩
  first s hr := by
    cases hr
    exact start_current hlt
  consecutive i s s' hr hround := by
    obtain ⟨hasks, headers, hreply, rfl⟩ := round_again hround
    have hlen := h i s hr hasks headers hreply
    rw [← hlen]
    exact (((h.proper hlt hlast).inv hlt hlast hr).again (events i) hlast hasks hlen.le).2
  contained i s hr _ :=
    have hi := (h.proper hlt hlast).inv hlt hlast hr
    ⟨hi.current_gt, (hi.count hlast).2.1⟩
  forwarded_le i s hr := by
    have hi := (h.proper hlt hlast).inv hlt hlast hr
    have hle := hi.current_le
    have hfor := hi.forwarded_le
    omega

def always (headers : List Header) : Nat → HeaderEvent := fun _ => ⟨false, .ok headers, none⟩

/-- Twenty headers, in two batches. -/
def twoBatches : Nat → HeaderEvent := fun i =>
  ⟨false, .ok ((List.range' (15 * i + 1) (if i = 0 then 15 else 5)).map countingMaster.header), none⟩

theorem twoBatches_rounds (hr : Reaches 0 20 twoBatches i s) :
    i = 0 ∧ s.current = 1 ∧ s.cnt = 15 ∨ i = 1 ∧ s.current = 16 ∧ s.cnt = 15 ∨ i = 2 ∧ s.current = 21 := by
  induction hr with
  | first => decide
  | next hr hround ih =>
    obtain ⟨hasks, headers, hreply, rfl⟩ := round_again hround
    cases hreply
    rcases ih with ⟨rfl, hcur, hcnt⟩ | ⟨rfl, hcur, hcnt⟩ | ⟨rfl, hcur⟩
    · simp [count, hcur, hcnt]
    · simp [hcur]
    · exact absurd (by rw [hcur]; decide) hasks.2.2

theorem fetchHeaders_in_range_twenty : Downloads 0 20 twoBatches := by
  refine fetchHeaders_in_range (by decide) (by decide) fun i s hr hasks headers hreply => ?_
  cases hreply
  rcases twoBatches_rounds hr with ⟨rfl, hcur, hcnt⟩ | ⟨rfl, hcur, hcnt⟩ | ⟨rfl, hcur⟩
  · rw [count, hcur, hcnt]
    rfl
  · rw [count, hcur, hcnt]
    rfl
  · exact absurd (by rw [hcur]; decide) hasks.2.2

/-- Nothing but empty batches: the download does not end. A batch of three for
one header: all three are forwarded. -/
theorem fetchHeaders_strays : (¬ ∃ fuel r, run 5 (always []) fuel 0 (start 0) = some r) ∧
    (run 1 (always [countingMaster.header 1, countingMaster.header 2, countingMaster.header 3]) 2 0 (start 0)).map
      (fun s => s.forwarded.length) = some 3 := by
  refine ⟨?_, by decide⟩
  rintro ⟨fuel, r, hr⟩
  have hstay : ∀ s : HeaderLoop, s = ⟨1, 15, false, []⟩ ∨ s = ⟨1, 5, false, []⟩ → ∀ fuel i, run 5 (always []) fuel i s = none := by
    intro s hs fuel
    induction fuel generalizing s with
    | zero => exact fun _ => rfl
    | succ fuel ih =>
      intro i
      have hround : s.round 5 (always [] i) = .again ⟨1, 5, false, []⟩ := by rcases hs with rfl | rfl <;> rfl
      rw [run, hround]
      exact ih _ (.inr rfl) _
  rw [hstay (start 0) (.inl rfl)] at hr
  cases hr

/-! ## An honest master -/

/-- Nobody quits, and every batch is a piece of one chain from where it was asked
for, of any length from one on. -/
def Serves (chain : Nat → Header) (ancestor last : UInt64) (events : Nat → HeaderEvent) : Prop :=
  ∀ i s, Reaches ancestor last events i s → (events i).quit = false ∧ (events i).finish = none ∧ (s.Asks last (events i) →
    ∃ k, 0 < k ∧ k ≤ (s.count last).toNat ∧ (events i).reply = .ok ((List.range' s.current.toNat k).map chain))

theorem Serves.proper {chain : Nat → Header} (h : Serves chain ancestor last events) : Proper ancestor last events := by
  intro i s hr hasks headers hreply
  obtain ⟨k, hpos, hle, hk⟩ := (h i s hr).2.2 hasks
  cases hreply.symm.trans hk
  rw [List.length_map, List.length_range']
  exact ⟨hpos, hle⟩

/-- The run ends in a round that is reached. -/
theorem Reaches.of_run {fuel : Nat} {r : HeaderLoop} (hr : Reaches ancestor last events i s) (h : run last events fuel i s = some r) :
    ∃ j t, Reaches ancestor last events j t ∧ t.round last (events j) = .done r := by
  induction fuel generalizing i s with
  | zero => cases h
  | succ fuel ih =>
    rw [run] at h
    split at h
    · next hround => exact ih (hr.next hround) h
    · next hround =>
      cases h
      exact ⟨i, s, hr, hround⟩

section

variable {chain : Nat → Header} (hlt : ancestor < last) (hlast : last.toNat + 16 < 2 ^ 64) (h : Serves chain ancestor last events)
include hlt hlast h

theorem Reaches.forwarded (hr : Reaches ancestor last events i s) : s.abort = false ∧
    s.forwarded = (List.range' (ancestor.toNat + 1) (s.current.toNat - (ancestor.toNat + 1))).map chain := by
  induction hr with
  | first => exact ⟨rfl, by rw [start_current hlt, Nat.sub_self]; rfl⟩
  | @next i s s' hr hround ih =>
    obtain ⟨hasks, headers, hreply, rfl⟩ := round_again hround
    obtain ⟨-, hfinish, hserves⟩ := h i s hr
    obtain ⟨k, -, hle, hk⟩ := hserves hasks
    cases hreply.symm.trans hk
    have hinv := h.proper.inv hlt hlast hr
    have hlen : ((List.range' s.current.toNat k).map chain).length ≤ (s.count last).toNat := by simpa using hle
    obtain ⟨-, hcur⟩ := hinv.again (events i) hlast hasks hlen
    have hgt := hinv.current_gt
    refine ⟨by simp [hfinish, forward], ?_⟩
    dsimp only
    rw [hcur, ih.2, hfinish, forward, ← List.map_append, List.length_map, List.length_range',
      show s.current.toNat + k - (ancestor.toNat + 1) = s.current.toNat - (ancestor.toNat + 1) + k by omega,
      ← List.range'_append_1]
    congr 3
    omega

/-- **An honest master's headers all arrive**: the loop ends, and it has forwarded
the headers after the ancestor up to the last one, in order, each once, however
the master cuts them into batches. -/
theorem fetchHeaders_complete : ∃ n r, (∀ fuel, n ≤ fuel → run last events fuel 0 (start ancestor) = some r) ∧
    r.forwarded = (List.range' (ancestor.toNat + 1) (last.toNat - ancestor.toNat)).map chain := by
  obtain ⟨r, hret, -⟩ := Reaches.returns hlt hlast h.proper .first (Nat.lt_succ_self _)
  obtain ⟨j, t, hr, hdone⟩ := Reaches.of_run .first (hret _ le_rfl)
  obtain ⟨habort, hforwarded⟩ := hr.forwarded hlt hlast h
  obtain ⟨hquit, -, hserves⟩ := h j t hr
  have hle := (h.proper.inv hlt hlast hr).current_le
  refine ⟨_, r, hret, ?_⟩
  have hend : r.forwarded = t.forwarded ∧ t.current > last := by
    unfold round at hdone
    dsimp only at hdone
    split at hdone
    · next hasks =>
      obtain ⟨k, -, -, hk⟩ := hserves hasks
      rw [hk] at hdone
      cases hdone
    · next hasks =>
      cases hdone
      exact ⟨rfl, Decidable.not_not.1 fun hgt => hasks ⟨hquit, habort, hgt⟩⟩
  have hgt : last.toNat < t.current.toNat := UInt64.lt_iff_toNat_lt.1 hend.2
  rw [hend.1, hforwarded, show t.current.toNat - (ancestor.toNat + 1) = last.toNat - ancestor.toNat by omega]

end

theorem fetchHeaders_complete_twenty : ∃ n r, (∀ fuel, n ≤ fuel → run 20 twoBatches fuel 0 (start 0) = some r) ∧
    r.forwarded = (List.range' 1 20).map countingMaster.header := by
  refine fetchHeaders_complete (by decide) (by decide) fun i s hr => ⟨rfl, rfl, fun hasks => ?_⟩
  rcases twoBatches_rounds hr with ⟨rfl, hcur, hcnt⟩ | ⟨rfl, hcur, hcnt⟩ | ⟨rfl, hcur⟩
  · exact ⟨15, by decide, by rw [count, hcur, hcnt]; decide, by rw [hcur]; rfl⟩
  · exact ⟨5, by decide, by rw [count, hcur, hcnt]; decide, by rw [hcur]; rfl⟩
  · exact absurd (by rw [hcur]; decide) hasks.2.2

end HeaderLoop

end NdnGeth.Eth
