/-
The block pipeline loses no wake-up. A number that `processBlocks` does not
expect is thrown away, and so is the signal that came with it; what keeps
the pipeline going is that the number it expects next is still to be put, or
its signal is still on the way (`Inv.wake`).
-/
import Mathlib.Data.List.Nodup
import NdnGeth.Eth.Dworker

namespace NdnGeth.Eth

open Function
open Core

/-! ## `pop` -/

namespace FBlocks

/-- What `pop` returns from a map with blocks from `lo` to `hi`: `m` blocks
without a gap, and the map without them; the number after them is missing. -/
structure Popped (fb : FBlocks) (lo hi : Nat) (blocks : List Block) (fb' : FBlocks) : Prop where
  numbers : blocks.map blockNumberU64 = (List.range' lo blocks.length).map UInt64.ofNat
  le : lo + blocks.length ≤ hi + 1
  mem : ∀ b ∈ blocks, ∃ n, fb n = some b
  rest : ∀ n, fb' n = if lo ≤ n.toNat ∧ n.toNat < lo + blocks.length then none else fb n
  gap : lo + blocks.length ≤ hi → fb (.ofNat (lo + blocks.length)) = none

theorem toNat_ofNat_of_lt {n : Nat} (h : n < UInt64.size) : (UInt64.ofNat n).toNat = n := by
  rw [UInt64.toNat_ofNat']
  exact Nat.mod_eq_of_lt h

theorem ofNat_eq_iff {n : UInt64} {m : Nat} (h : m < UInt64.size) : n = .ofNat m ↔ n.toNat = m := by
  rw [← UInt64.toNat_inj, toNat_ofNat_of_lt h]

theorem popLoop_spec {hi : Nat} (hhi : hi < UInt64.size) : ∀ (fuel lo : Nat) (fb : FBlocks),
    lo ≤ hi + 1 → hi + 1 ≤ lo + fuel →
    (∀ n b, fb n = some b → lo ≤ n.toNat ∧ n.toNat ≤ hi ∧ blockNumberU64 b = n) →
    Popped fb lo hi (popLoop fuel fb (.ofNat lo)).1 (popLoop fuel fb (.ofNat lo)).2
  | 0, lo, fb, hlo, hfuel, hkeys => by
    refine ⟨rfl, by simpa [popLoop] using hlo, by simp [popLoop], fun n => ?_, fun h => ?_⟩
    · rw [if_neg (by simp [popLoop])]
      rfl
    · simp [popLoop] at h
      omega
  | fuel + 1, lo, fb, hlo, hfuel, hkeys => by
    simp only [popLoop]
    split
    · next hnone =>
      exact ⟨rfl, by simpa using hlo, by simp, fun n => by rw [if_neg (by simp)], fun _ => by simpa using hnone⟩
    · next b hb =>
      obtain ⟨hge, hle, hnum⟩ := hkeys _ b hb
      have hlt : lo < UInt64.size := by
        rw [UInt64.toNat_ofNat'] at hge
        exact Nat.lt_of_le_of_lt hge (Nat.mod_lt _ (by decide))
      rw [toNat_ofNat_of_lt hlt] at hle
      -- The rest of the loop is on the map without this block.
      have ih := popLoop_spec hhi fuel (lo + 1) (update fb (.ofNat lo) none) (by omega) (by omega) ?_
      · rw [UInt64.ofNat_add] at ih
        obtain ⟨hnums, hlen, hmem, hrest, hgap⟩ := ih
        generalize popLoop fuel (update fb (.ofNat lo) none) (.ofNat lo + .ofNat 1) = r at *
        refine ⟨?_, ?_, ?_, fun n => ?_, fun h => ?_⟩
        · simp only [List.map_cons, List.length_cons, List.range'_succ, hnum, hnums]
        · simp only [List.length_cons]
          omega
        · intro c hc
          rcases List.mem_cons.mp hc with rfl | hc
          · exact ⟨_, hb⟩
          · obtain ⟨n, hn⟩ := hmem c hc
            by_cases heq : n = .ofNat lo
            · rw [heq, update_self] at hn
              cases hn
            · exact ⟨n, by rwa [update_of_ne heq] at hn⟩
        · rw [hrest n, List.length_cons]
          by_cases heq : n = .ofNat lo
          · have := (ofNat_eq_iff hlt).mp heq
            rw [heq, update_self, ← heq, if_pos (show lo ≤ n.toNat ∧ n.toNat < lo + (r.1.length + 1) by omega)]
            split <;> rfl
          · have := mt (ofNat_eq_iff hlt).mpr heq
            rw [update_of_ne heq]
            exact if_congr (by omega) rfl rfl
        · simp only [List.length_cons] at h ⊢
          have := hgap (by omega)
          rw [update_of_ne] at this
          · rwa [show lo + (r.1.length + 1) = lo + 1 + r.1.length by omega]
          · rw [Ne, ofNat_eq_iff hlt, toNat_ofNat_of_lt (by omega)]
            omega
      · intro n c hn
        by_cases heq : n = .ofNat lo
        · rw [heq, update_self] at hn
          cases hn
        · rw [update_of_ne heq] at hn
          have := mt (ofNat_eq_iff hlt).mpr heq
          obtain ⟨h1, h2, h3⟩ := hkeys n c hn
          exact ⟨by omega, h2, h3⟩

theorem pop_spec (fb : FBlocks) {lo hi : Nat} (hhi : hi < UInt64.size) (hlo : lo ≤ hi + 1)
    (hkeys : ∀ n b, fb n = some b → lo ≤ n.toNat ∧ n.toNat ≤ hi ∧ blockNumberU64 b = n) :
    Popped fb lo hi (pop fb (.ofNat lo)).1 (pop fb (.ofNat lo)).2 :=
  popLoop_spec hhi UInt64.size lo fb hlo (by omega) hkeys

end FBlocks

/-! ## The invariant -/

namespace Dwork

def numbers (ancestor last : UInt64) : List UInt64 :=
  (List.range' (ancestor.toNat + 1) (last.toNat - ancestor.toNat)).map .ofNat

def taken (w : Dwork) : List Block :=
  match w.pc with
  | .inserting blocks => w.inserted ++ blocks
  | _ => w.inserted

def next (w : Dwork) : Nat := w.ancestor.toNat + 1 + w.taken.length

/-- The number is that of a job that has not fetched its block. -/
def Unfetched (w : Dwork) (n : UInt64) : Prop := n ∈ w.jobs.map Header.numberU64

/-- How far `processBlocks` is, in each of its places. -/
def Progress (w : Dwork) : Prop :=
  match w.pc with
  | .ready =>
    if w.abort then w.kills = [none] ∧ w.next = w.last.toNat + 1
    else w.kills = [] ∧ w.next ≤ w.last.toNat ∧ w.bnum = .ofNat w.next
  | .popping =>
    w.abort = false ∧ w.kills = [] ∧ w.next ≤ w.last.toNat ∧ w.bnum = .ofNat w.next ∧ ¬ w.Unfetched w.bnum
  | .inserting blocks =>
    w.abort = false ∧ w.kills = [] ∧ blocks ≠ [] ∧ w.bnum = .ofNat (w.ancestor.toNat + 1 + w.inserted.length)
  | .returned => False

/-- What holds of a download of `headers` in every state. -/
structure Inv (headers : List Header) (w : Dwork) : Prop where
  lt : w.ancestor < w.last
  in_order : w.taken.map blockNumberU64 = (List.range' (w.ancestor.toNat + 1) w.taken.length).map .ofNat
  next_le : w.next ≤ w.last.toNat + 1
  taken_mem : ∀ b ∈ w.taken, b.header ∈ headers
  jobs_mem : ∀ h ∈ w.jobs, h ∈ headers ∧ w.next ≤ h.numberU64.toNat ∧ h.numberU64.toNat ≤ w.last.toNat
  jobs_nodup : (w.jobs.map Header.numberU64).Nodup
  signals : ∀ n, n ∈ w.signals ∨ n ∈ w.newblockCh → ¬ w.Unfetched n
  /-- A block that is fetched and not taken is in the map. -/
  fetched : ∀ n, (w.fblocks n).isSome ↔ w.next ≤ n.toNat ∧ n.toNat ≤ w.last.toNat ∧ ¬ w.Unfetched n
  blocks : ∀ n b, w.fblocks n = some b → blockNumberU64 b = n ∧ b.header ∈ headers
  /-- The block to be taken next is to be fetched, or its signal is to come. -/
  wake : w.next ≤ w.last.toNat → ¬ w.Unfetched (.ofNat w.next) →
    .ofNat w.next ∈ w.signals ∨ .ofNat w.next ∈ w.newblockCh ∨ w.pc = .popping
  progress : w.Progress

variable {headers : List Header} {w w' : Dwork}

theorem Inv.unfetched_erase {h : Header} (hi : w.Inv headers) (hj : h ∈ w.jobs) (n : UInt64) :
    n ∈ (w.jobs.erase h).map Header.numberU64 ↔ w.Unfetched n ∧ n ≠ h.numberU64 := by
  have hperm := (List.perm_cons_erase hj).map Header.numberU64
  have hnd := hperm.nodup_iff.mp hi.jobs_nodup
  rw [List.map_cons, List.nodup_cons] at hnd
  rw [Unfetched, hperm.mem_iff, List.map_cons, List.mem_cons]
  constructor
  · intro hn
    exact ⟨.inr hn, fun he => hnd.1 (he ▸ hn)⟩
  · rintro ⟨rfl | hn, hne⟩
    · exact absurd rfl hne
    · exact hn

theorem Inv.onfetched {h : Header} {body : Body} (hi : w.Inv headers) (hj : h ∈ w.jobs) :
    (w.onfetched h (some body)).Inv headers := by
  have herase := hi.unfetched_erase hj
  obtain ⟨hmem, hge, hle⟩ := hi.jobs_mem h hj
  have hself : w.Unfetched h.numberU64 := List.mem_map_of_mem hj
  refine { hi with
    jobs_mem := fun h' hh' => hi.jobs_mem h' (List.mem_of_mem_erase hh')
    jobs_nodup := hi.jobs_nodup.sublist (List.erase_sublist.map _)
    signals := fun n hn hu => ?_, fetched := fun n => ?_, blocks := fun n b hb => ?_, wake := fun hnext hu => ?_, progress := ?_ }
  · obtain ⟨hu, hne⟩ := (herase n).mp hu
    simp only [Dwork.onfetched, List.mem_append, List.mem_singleton] at hn
    rcases hn with (hn | hn) | hn
    · exact hi.signals n (.inl hn) hu
    · exact hne hn
    · exact hi.signals n (.inr hn) hu
  · change (update w.fblocks h.numberU64 (some (Block.newBlockWithHeader h body)) n).isSome ↔ _
    rw [Unfetched, Dwork.onfetched, herase]
    by_cases hn : n = h.numberU64
    · subst hn
      rw [update_self]
      exact ⟨fun _ => ⟨hge, hle, fun hu => hu.2 rfl⟩, fun _ => rfl⟩
    · rw [update_of_ne hn, hi.fetched]
      exact and_congr_right fun _ => and_congr_right fun _ => not_congr (by simp [hn])
  · change update w.fblocks h.numberU64 (some (Block.newBlockWithHeader h body)) n = some b at hb
    by_cases hn : n = h.numberU64
    · subst hn
      rw [update_self, Option.some.injEq] at hb
      subst hb
      exact ⟨rfl, hmem⟩
    · exact hi.blocks n b (by rwa [update_of_ne hn] at hb)
  · -- The block to be taken next is this one, or was there before.
    by_cases hn : UInt64.ofNat w.next = h.numberU64
    · exact .inl (List.mem_append_right _ (List.mem_singleton.mpr hn))
    · have hu' : ¬ w.Unfetched (.ofNat w.next) := fun hu' => hu ((herase _).mpr ⟨hu', hn⟩)
      exact (hi.wake hnext hu').imp_left (List.mem_append_left _)
  · have hprogress := hi.progress
    have hpc : (w.onfetched h (some body)).pc = w.pc := rfl
    unfold Progress at hprogress ⊢
    rw [hpc]
    split at hprogress
    · exact hprogress
    · obtain ⟨h1, h2, h3, h4, h5⟩ := hprogress
      exact ⟨h1, h2, h3, h4, fun hu => h5 ((herase _).mp hu).1⟩
    · exact hprogress
    · exact hprogress

theorem Inv.send {n : UInt64} (hi : w.Inv headers) (hn : n ∈ w.signals) :
    Inv headers { w with signals := w.signals.erase n, newblockCh := w.newblockCh ++ [n] } := by
  have hmem : ∀ m, m ∈ w.signals.erase n ∨ m ∈ w.newblockCh ++ [n] ↔ m ∈ w.signals ∨ m ∈ w.newblockCh := by
    intro m
    by_cases hm : m = n
    · subst hm
      simp [hn]
    · simp [List.mem_erase_of_ne hm, hm]
  refine { hi with signals := fun m hm => hi.signals m ((hmem m).mp hm), wake := fun hnext hu => ?_ }
  rcases hi.wake hnext hu with hs | hs | hp
  · exact ((hmem _).mpr (.inl hs)).imp_right .inl
  · exact ((hmem _).mpr (.inr hs)).imp_right .inl
  · exact .inr (.inr hp)

theorem Inv.receive {snum : UInt64} {rest : List UInt64} (hi : w.Inv headers) (hp : w.pc = .ready)
    (hc : w.newblockCh = snum :: rest)
    (hw : (w.abort = true ∨ snum ≠ w.bnum) ∧ w' = { w with newblockCh := rest } ∨
      (w.abort = false ∧ snum = w.bnum) ∧ w' = { w with newblockCh := rest, pc := .popping }) :
    w'.Inv headers := by
  have hprogress := hi.progress
  have hsignals : ∀ n, n ∈ w.signals ∨ n ∈ rest → ¬ w.Unfetched n := fun n hn =>
    hi.signals n (hn.imp_right fun hn => hc ▸ List.mem_cons_of_mem _ hn)
  rw [Progress, hp] at hprogress
  obtain ⟨hother, rfl⟩ | ⟨⟨habort, hexp⟩, rfl⟩ := hw
  · refine { hi with signals := hsignals, wake := fun hnext hu => ?_ }
    -- The number thrown away is not the one to be taken next.
    have hne : UInt64.ofNat w.next ≠ snum := by
      rintro rfl
      simp only at hprogress
      split at hprogress
      · have : w.next ≤ w.last.toNat := hnext
        omega
      · next habort =>
        rcases hother with h | h
        · exact habort h
        · exact h hprogress.2.2.symm
    rcases hi.wake hnext hu with h | h | h
    · exact .inl h
    · rw [hc] at h
      exact .inr (.inl ((List.mem_cons.mp h).resolve_left hne))
    · rw [hp] at h
      cases h
  · have htaken : taken { w with newblockCh := rest, pc := .popping } = w.taken := by simp only [taken, hp]
    have hnext : next { w with newblockCh := rest, pc := .popping } = w.next := by rw [next, htaken]; rfl
    simp only [habort, Bool.false_eq_true, if_false] at hprogress
    obtain ⟨hkills, hle, hbnum⟩ := hprogress
    refine ⟨hi.lt, htaken ▸ hi.in_order, hnext ▸ hi.next_le, htaken ▸ hi.taken_mem, hnext ▸ hi.jobs_mem, hi.jobs_nodup,
      hsignals, hnext ▸ hi.fetched, hi.blocks, fun _ _ => .inr (.inr rfl), habort, hkills, hnext ▸ hle, hnext ▸ hbnum, ?_⟩
    exact hi.signals _ (.inr (by rw [hc, hexp]; simp))

theorem Inv.popped (hi : w.Inv headers) (hp : w.pc = .popping) : w.popped.Inv headers := by
  have hprogress := hi.progress
  rw [Progress, hp] at hprogress
  obtain ⟨habort, hkills, hle, hbnum, hfetched⟩ := hprogress
  have htaken : w.taken = w.inserted := by simp only [taken, hp]
  have hlast : w.last.toNat < UInt64.size := w.last.toNat_lt
  have hspec := FBlocks.pop_spec w.fblocks hlast hi.next_le fun n b hb => by
    obtain ⟨h1, h2, -⟩ := (hi.fetched n).mp (by rw [hb]; rfl)
    exact ⟨h1, h2, (hi.blocks n b hb).1⟩
  rw [← hbnum] at hspec
  unfold Dwork.popped
  generalize w.fblocks.pop w.bnum = r at hspec ⊢
  obtain ⟨blocks, fblocks⟩ := r
  obtain ⟨hnums, hlen, hmem, hrest, hgap⟩ := hspec
  simp only at hnums hlen hmem hrest hgap ⊢
  -- The expected block is in the map, so the run is not empty.
  have hpos : blocks ≠ [] := by
    rintro rfl
    have hsome : (w.fblocks (.ofNat w.next)).isSome := by
      rw [hi.fetched, FBlocks.toNat_ofNat_of_lt (by omega), ← hbnum]
      exact ⟨Nat.le_refl _, hle, hfetched⟩
    rw [List.length_nil, Nat.add_zero] at hgap
    rw [hgap hle] at hsome
    cases hsome
  rw [if_pos (List.length_pos_iff.mpr hpos)]
  have hnext : next { w with fblocks := fblocks, pc := .inserting blocks } = w.next + blocks.length := by
    simp only [next, taken, hp, List.length_append]
    omega
  -- What has been taken was in the map: no job is to fetch it.
  have hbelow : ∀ n : UInt64, w.next ≤ n.toNat → n.toNat < w.next + blocks.length → ¬ w.Unfetched n := by
    intro n h1 h2
    have hn : (w.fblocks n).isSome := by
      obtain ⟨b, hb, rfl⟩ : ∃ b ∈ blocks, blockNumberU64 b = n := by
        have : n ∈ blocks.map blockNumberU64 := by
          rw [hnums, List.mem_map]
          exact ⟨n.toNat, List.mem_range'_1.mpr ⟨h1, h2⟩, by simp⟩
        simpa using this
      obtain ⟨m, hm⟩ := hmem b hb
      rw [(hi.blocks m b hm).1, hm]
      rfl
    exact ((hi.fetched n).mp hn).2.2
  refine ⟨hi.lt, ?_, by rw [hnext]; omega, ?_, fun h hh => ?_, hi.jobs_nodup, hi.signals, fun n => ?_, fun n b hb => ?_,
    fun h1 h2 => ?_, habort, hkills, hpos, by rw [next, htaken] at hbnum; exact hbnum⟩
  · have hbefore := hi.in_order
    rw [next, htaken] at hnums
    rw [htaken] at hbefore
    simp only [taken, List.map_append, List.length_append, hbefore, hnums]
    rw [← List.map_append, List.range'_append_1]
  · intro b hb
    rcases List.mem_append.mp hb with hb | hb
    · exact hi.taken_mem b (htaken ▸ hb)
    · obtain ⟨n, hn⟩ := hmem b hb
      exact (hi.blocks n b hn).2
  · obtain ⟨h1, h2, h3⟩ := hi.jobs_mem h hh
    refine ⟨h1, ?_, h3⟩
    rw [hnext]
    by_contra hcon
    exact hbelow h.numberU64 h2 (by omega) (List.mem_map_of_mem hh)
  · rw [hnext]
    change (fblocks n).isSome ↔ _
    rw [hrest n]
    split
    · next hin => exact ⟨nofun, fun h => absurd h.1 (by omega)⟩
    · next hout =>
      rw [hi.fetched]
      constructor
      · rintro ⟨h1, h2, h3⟩
        exact ⟨by omega, h2, h3⟩
      · rintro ⟨h1, h2, h3⟩
        exact ⟨by omega, h2, h3⟩
  · change fblocks n = some b at hb
    rw [hrest n] at hb
    split at hb
    · cases hb
    · exact hi.blocks n b hb
  · -- The number after the run was not in the map: its job is still to come.
    rw [hnext] at h2
    have hin : w.next + blocks.length ≤ w.last.toNat := hnext ▸ h1
    have hsome := (hi.fetched (.ofNat (w.next + blocks.length))).mpr
      ⟨by rw [FBlocks.toNat_ofNat_of_lt (by omega)]; omega, by rw [FBlocks.toNat_ofNat_of_lt (by omega)]; omega, h2⟩
    rw [hgap hin] at hsome
    cases hsome

theorem Inv.processed {blocks : List Block} (hi : w.Inv headers) (hp : w.pc = .inserting blocks) :
    (w.processed blocks true).Inv headers := by
  have hprogress := hi.progress
  rw [Progress, hp] at hprogress
  obtain ⟨habort, hkills, hne, hbnum⟩ := hprogress
  have htaken : w.taken = w.inserted ++ blocks := by simp only [taken, hp]
  have hnext : w.next = w.ancestor.toNat + 1 + (w.inserted ++ blocks).length := by rw [next, htaken]
  have hlast : w.last.toNat < UInt64.size := w.last.toNat_lt
  have hpos : 0 < blocks.length := List.length_pos_iff.mpr hne
  have hlen : (w.inserted ++ blocks).length = w.inserted.length + blocks.length := List.length_append
  have hnle := hi.next_le
  -- The number of the last block taken is the one before the next.
  have hlastnum : blocks.getLast?.map blockNumberU64 = some (.ofNat (w.next - 1)) := by
    have horder := congrArg List.getLast? hi.in_order
    rw [htaken, List.getLast?_map, List.getLast?_map, List.getLast?_append_of_ne_nil _ hne, List.getLast?_range',
      if_neg (by omega), Option.map_some] at horder
    rw [horder, hnext]
  have hwake : w.next ≤ w.last.toNat → ¬ w.Unfetched (.ofNat w.next) →
      .ofNat w.next ∈ w.signals ∨ .ofNat w.next ∈ w.newblockCh ∨ ProcessPc.ready = .popping := by
    intro h1 h2
    rcases hi.wake h1 h2 with h | h | h
    · exact .inl h
    · exact .inr (.inl h)
    · rw [hp] at h
      cases h
  have hiff : UInt64.ofNat (w.next - 1) = w.last ↔ w.next = w.last.toNat + 1 := by
    rw [← UInt64.toNat_inj, FBlocks.toNat_ofNat_of_lt (by omega)]
    omega
  simp only [Dwork.processed, Bool.not_true, Bool.false_eq_true, if_false, hlastnum, Option.some.injEq, hiff]
  have horder := hi.in_order
  have hmem := hi.taken_mem
  have hjobs := hi.jobs_mem
  have hfetched := hi.fetched
  rw [htaken] at horder hmem
  rw [hnext] at hjobs hfetched
  split
  · next hend =>
    rw [hnext] at hend hnle hwake
    exact ⟨hi.lt, horder, hnle, hmem, hjobs, hi.jobs_nodup, hi.signals, hfetched, hi.blocks, hwake, by simp [hkills],
      hend⟩
  · next hmore =>
    have hle : w.next ≤ w.last.toNat := by omega
    rw [hnext] at hle hnle hwake
    refine ⟨hi.lt, horder, hnle, hmem, hjobs, hi.jobs_nodup, hi.signals, hfetched, hi.blocks, hwake, ?_⟩
    simp only [Progress, habort, Bool.false_eq_true, if_false]
    refine ⟨hkills, hle, ?_⟩
    rw [hbnum, ← UInt64.ofNat_add]
    congr 1
    simp only [next, taken, List.length_append]
    omega

variable {a : DworkAct}

theorem Inv.step (hi : w.Inv headers) (hok : w.Succeeds a) (hs : w.step a = some w') :
    w'.Inv headers := by
  cases a with
  | fetched h body =>
    obtain ⟨hj, rfl⟩ := step_fetched hs
    cases body with
    | none => exact absurd rfl hok
    | some body => exact hi.onfetched hj
  | send n =>
    obtain ⟨hn, rfl⟩ := step_send hs
    exact hi.send hn
  | receive =>
    obtain ⟨snum, rest, hp, hc, hw⟩ := step_receive hs
    exact hi.receive hp hc hw
  | pop =>
    obtain ⟨hp, rfl⟩ := step_pop hs
    exact hi.popped hp
  | insert ok =>
    obtain ⟨blocks, hp, rfl⟩ := step_insert hs
    obtain rfl : ok = true := hok
    exact hi.processed hp

theorem mem_numbers {ancestor last n : UInt64} :
    n ∈ numbers ancestor last ↔ ancestor.toNat < n.toNat ∧ n.toNat ≤ last.toNat := by
  have hlast : last.toNat < UInt64.size := last.toNat_lt
  simp only [numbers, List.mem_map, List.mem_range'_1]
  constructor
  · rintro ⟨m, ⟨h1, h2⟩, rfl⟩
    rw [FBlocks.toNat_ofNat_of_lt (by omega)]
    omega
  · rintro ⟨h1, h2⟩
    exact ⟨n.toNat, by omega, by simp⟩

theorem numbers_nodup (ancestor last : UInt64) : (numbers ancestor last).Nodup := by
  have hlast : last.toNat < UInt64.size := last.toNat_lt
  refine List.Nodup.map_on (fun x hx y hy hxy => ?_) List.nodup_range'
  rw [List.mem_range'_1] at hx hy
  have := congrArg UInt64.toNat hxy
  rwa [FBlocks.toNat_ofNat_of_lt (by omega), FBlocks.toNat_ofNat_of_lt (by omega)] at this

theorem Inv.start {ancestor last : UInt64} (hlt : ancestor < last)
    (hheaders : (headers.map Header.numberU64).Perm (numbers ancestor last)) :
    (start ancestor last headers).Inv headers := by
  have hlast : last.toNat < UInt64.size := last.toNat_lt
  have hlt' : ancestor.toNat < last.toNat := UInt64.lt_iff_toNat_lt.mp hlt
  have hbnum : ancestor + 1 = .ofNat (ancestor.toNat + 1) := by rw [UInt64.ofNat_add, UInt64.ofNat_toNat]; rfl
  have hle : ¬ ancestor + 1 > last := by
    rw [hbnum, gt_iff_lt, UInt64.lt_iff_toNat_lt, FBlocks.toNat_ofNat_of_lt (by omega)]
    omega
  have hmem : ∀ n, n ∈ headers.map Header.numberU64 ↔ ancestor.toNat < n.toNat ∧ n.toNat ≤ last.toNat := fun n => by
    rw [hheaders.mem_iff, mem_numbers]
  simp only [Dwork.start, hle, if_false]
  refine ⟨hlt, rfl, ?_, nofun, fun h hh => ?_, hheaders.nodup_iff.mpr (numbers_nodup ancestor last), ?_, fun n => ?_, nofun,
    fun h1 h2 => ?_, ?_⟩
  · simp only [next, taken, List.length_nil]
    omega
  · obtain ⟨h1, h2⟩ := (hmem _).mp (List.mem_map_of_mem hh)
    exact ⟨hh, h1, h2⟩
  · simp
  · constructor
    · nofun
    · rintro ⟨h1, h2, h3⟩
      exact absurd ((hmem n).mpr ⟨h1, h2⟩) h3
  · exact absurd ((hmem _).mpr (by
      rw [FBlocks.toNat_ofNat_of_lt (Nat.lt_of_le_of_lt h1 hlast)]
      exact ⟨by simp only [next, taken, List.length_nil]; omega, h1⟩)) h2
  · simp only [Progress, Bool.false_eq_true, if_false]
    exact ⟨trivial, by simp only [next, taken, List.length_nil]; omega, hbnum⟩

/-! ## What the invariant says of the inserted blocks -/

theorem Inv.inserted_numbers (hi : w.Inv headers) :
    w.inserted.map blockNumberU64 = (List.range' (w.ancestor.toNat + 1) w.inserted.length).map .ofNat ∧
      w.ancestor.toNat + w.inserted.length ≤ w.last.toNat := by
  have horder := hi.in_order
  have hle := hi.next_le
  unfold next taken at *
  split at horder
  · next blocks hp =>
    simp only [hp] at hle
    rw [List.length_append, ← List.range'_append_1, List.map_append, List.map_append] at horder
    rw [List.length_append] at hle
    exact ⟨(List.append_inj horder (by simp)).1, by omega⟩
  · next hp =>
    split at hle
    · next blocks hq => exact absurd hq (hp blocks)
    · exact ⟨horder, by omega⟩

theorem Inv.last_inserted (hi : w.Inv headers) :
    w.last ∈ w.inserted.map blockNumberU64 ↔ w.ancestor.toNat + w.inserted.length = w.last.toNat := by
  obtain ⟨hnums, hle⟩ := hi.inserted_numbers
  have hlast : w.last.toNat < UInt64.size := w.last.toNat_lt
  have hlt : w.ancestor.toNat < w.last.toNat := UInt64.lt_iff_toNat_lt.mp hi.lt
  rw [hnums, List.mem_map]
  constructor
  · rintro ⟨m, hm, heq⟩
    rw [List.mem_range'_1] at hm
    have := congrArg UInt64.toNat heq
    rw [FBlocks.toNat_ofNat_of_lt (by omega)] at this
    omega
  · intro h
    exact ⟨w.last.toNat, List.mem_range'_1.mpr (by omega), by simp⟩

theorem Inv.killed (hi : w.Inv headers) :
    w.kills = if w.last ∈ w.inserted.map blockNumberU64 then [none] else [] := by
  have hprogress := hi.progress
  have hle := hi.next_le
  simp only [hi.last_inserted]
  unfold Progress at hprogress
  unfold next taken at hprogress hle
  split at hprogress
  · next hp =>
    simp only [hp] at hprogress hle
    split at hprogress
    · rw [if_pos (by omega)]
      exact hprogress.1
    · rw [if_neg (by omega)]
      exact hprogress.1
  · next hp =>
    simp only [hp] at hprogress hle
    rw [if_neg (by omega)]
    exact hprogress.2.1
  · next blocks hp =>
    have hpos := List.length_pos_iff.mpr hprogress.2.2.1
    simp only [hp, List.length_append] at hprogress hle
    rw [if_neg (by omega)]
    exact hprogress.2.1
  · exact hprogress.elim

theorem Inv.quiet (hi : w.Inv headers) (hs : w.signals = []) (hc : w.newblockCh = []) (hp : w.pc = .ready) :
    w.ancestor.toNat + w.inserted.length = w.last.toNat ∧ (∀ n, w.fblocks n = none) ∨
      ∃ h ∈ w.jobs, h.numberU64 = w.bnum := by
  have hprogress := hi.progress
  have hnext : w.next = w.ancestor.toNat + 1 + w.inserted.length := by simp only [next, taken, hp]
  rw [Progress, hp] at hprogress
  simp only at hprogress
  split at hprogress
  · refine .inl ⟨by omega, fun n => ?_⟩
    rw [← Option.not_isSome_iff_eq_none, hi.fetched]
    omega
  · obtain ⟨-, hle, hbnum⟩ := hprogress
    right
    by_contra hcon
    have hfetched : ¬ w.Unfetched (.ofNat w.next) := by
      rw [Unfetched, ← hbnum, List.mem_map]
      rintro ⟨h, hj, heq⟩
      exact hcon ⟨h, hj, heq⟩
    have := hi.wake hle hfetched
    simp [hs, hc, hp] at this

/-! ## Every run comes to an end -/

/-- The steps there can still be. -/
def remaining (w : Dwork) : Nat :=
  5 * w.jobs.length + 4 * w.signals.length + 3 * w.newblockCh.length +
    match w.pc with
    | .popping => 2
    | .inserting _ => 1
    | _ => 0

theorem remaining_lt (hok : w.Succeeds a) (hs : w.step a = some w') : w'.remaining < w.remaining := by
  cases a with
  | fetched h body =>
    obtain ⟨hj, rfl⟩ := step_fetched hs
    have hpos := List.length_pos_of_mem hj
    cases body with
    | none => exact absurd rfl hok
    | some body =>
      simp only [remaining, onfetched, List.length_erase_of_mem hj, List.length_append, List.length_singleton]
      omega
  | send n =>
    obtain ⟨hn, rfl⟩ := step_send hs
    have hpos := List.length_pos_of_mem hn
    simp only [remaining, List.length_erase_of_mem hn, List.length_append, List.length_singleton]
    omega
  | receive =>
    obtain ⟨snum, rest, hp, hc, ⟨-, rfl⟩ | ⟨-, rfl⟩⟩ := step_receive hs
    all_goals
      simp only [remaining, hp, hc, List.length_cons]
      omega
  | pop =>
    obtain ⟨hp, rfl⟩ := step_pop hs
    simp only [remaining, popped, hp]
    split <;> simp
  | insert ok =>
    obtain ⟨blocks, hp, rfl⟩ := step_insert hs
    simp only [remaining, processed, hp]
    split
    · simp
    · split <;> simp

def Drained (w : Dwork) : Prop := w.jobs = [] ∧ w.signals = [] ∧ w.newblockCh = [] ∧ w.pc = .ready

theorem Inv.can_step (hi : w.Inv headers) (hd : ¬ w.Drained) : ∃ a, w.Succeeds a ∧ (w.step a).isSome := by
  cases hp : w.pc with
  | popping => exact ⟨.pop, trivial, by simp [Dwork.step, hp]⟩
  | inserting blocks => exact ⟨.insert true, rfl, by simp [Dwork.step, hp]⟩
  | returned =>
    have := hi.progress
    rw [Progress, hp] at this
    exact this.elim
  | ready =>
    cases hc : w.newblockCh with
    | cons snum rest => exact ⟨.receive, trivial, by simp [Dwork.step, hp, hc]⟩
    | nil =>
      cases hs : w.signals with
      | cons n ns => exact ⟨.send n, trivial, by simp [Dwork.step, hs, hc, newblockChCap]⟩
      | nil =>
        cases hj : w.jobs with
        | cons h hs => exact ⟨.fetched h (some ⟨[], []⟩), by simp [Succeeds], by simp [Dwork.step, hj]⟩
        | nil => exact absurd ⟨hj, hs, hc, hp⟩ hd

/-! ## The pipeline -/

/-- What a download of `headers` has done after the steps `as`. -/
structure InOrder (ancestor last : UInt64) (headers : List Header) (as : List DworkAct) (w : Dwork) : Prop where
  /-- The blocks inserted are the first ones of the download, in order, each
  once and without a gap. -/
  inserted : w.inserted.map blockNumberU64 <+: numbers ancestor last
  fetched : ∀ b ∈ w.inserted, b.header ∈ headers
  /-- The work is killed, without an error, when and only when the last block
  has been inserted. -/
  killed : w.kills = (if last ∈ w.inserted.map blockNumberU64 then [none] else [])
  /-- Where no signal is on its way, there is no block waiting or the one
  before it is still to be fetched. -/
  no_lost_wakeup : w.signals = [] → w.newblockCh = [] → w.pc = .ready →
    (∀ n, w.fblocks n = none) ∨ ∃ h ∈ w.jobs, h.numberU64 = w.bnum
  /-- Where all signals of all jobs are consumed, everything is inserted. -/
  complete : w.Drained → w.inserted.map blockNumberU64 = numbers ancestor last
  bounded : as.length ≤ 5 * headers.length
  can_step : ¬ w.Drained → ∃ a, w.Succeeds a ∧ (w.step a).isSome

theorem step_same (hs : w.step a = some w') : w'.ancestor = w.ancestor ∧ w'.last = w.last := by
  cases a with
  | fetched h body =>
    obtain ⟨-, rfl⟩ := step_fetched hs
    cases body <;> exact ⟨rfl, rfl⟩
  | send n =>
    obtain ⟨-, rfl⟩ := step_send hs
    exact ⟨rfl, rfl⟩
  | receive =>
    obtain ⟨snum, rest, -, -, ⟨-, rfl⟩ | ⟨-, rfl⟩⟩ := step_receive hs <;> exact ⟨rfl, rfl⟩
  | pop =>
    obtain ⟨-, rfl⟩ := step_pop hs
    simp only [popped]
    split <;> exact ⟨rfl, rfl⟩
  | insert ok =>
    obtain ⟨blocks, -, rfl⟩ := step_insert hs
    simp only [processed]
    split
    · exact ⟨rfl, rfl⟩
    · split <;> exact ⟨rfl, rfl⟩

/-- **The block pipeline loses no wake-up**: in every interleaving of the
jobs and `processBlocks` in which the jobs get their blocks and every
`InsertChain` call succeeds. -/
theorem processBlocks_inOrder {ancestor last : UInt64} {as : List DworkAct} (hlt : ancestor < last)
    (hheaders : (headers.map Header.numberU64).Perm (numbers ancestor last))
    (hrun : Lib.Run step Succeeds (start ancestor last headers) as w) : InOrder ancestor last headers as w := by
  have h₀ := Inv.start hlt hheaders
  have hsame : (start ancestor last headers).ancestor = ancestor ∧ (start ancestor last headers).last = last := by
    simp only [start]
    split <;> exact ⟨rfl, rfl⟩
  have hremaining : (start ancestor last headers).remaining = 5 * headers.length := by
    simp only [start]
    split <;> simp [remaining]
  have hinv := hrun.invariant (fun _ _ _ hi hok hs => hi.step hok hs) h₀
  obtain ⟨rfl, rfl⟩ := hrun.invariant (I := fun w => w.ancestor = ancestor ∧ w.last = last)
    (fun _ _ _ hi _ hs => ⟨(step_same hs).1.trans hi.1, (step_same hs).2.trans hi.2⟩) hsame
  have hlen := hrun.length_le (I := fun _ => True) (fun _ _ _ _ _ _ => trivial)
    (fun _ _ _ _ hok hs => remaining_lt hok hs) trivial
  obtain ⟨hnums, hle⟩ := hinv.inserted_numbers
  have hlt' : w.ancestor.toNat < w.last.toNat := UInt64.lt_iff_toNat_lt.mp hlt
  refine ⟨?_, fun b hb => hinv.taken_mem b ?_, hinv.killed, fun hs hc hp => ?_, fun hd => ?_, by omega, hinv.can_step⟩
  · rw [hnums, numbers, show w.last.toNat - w.ancestor.toNat =
      w.inserted.length + (w.last.toNat - w.ancestor.toNat - w.inserted.length) by omega, ← List.range'_append_1,
      List.map_append]
    exact List.prefix_append _ _
  · unfold taken
    split
    · exact List.mem_append_left _ hb
    · exact hb
  · exact (hinv.quiet hs hc hp).imp_left And.right
  · obtain ⟨hj, hs, hc, hp⟩ := hd
    rcases hinv.quiet hs hc hp with ⟨hall, -⟩ | ⟨h, hmem, -⟩
    · rw [hnums, numbers]
      congr 2
      omega
    · rw [hj] at hmem
      cases hmem

/-- A header that is told by its number. -/
def numberedHeader (n : Nat) : Header := ⟨.ofNat 256 n, .ofNat 256 (n - 1), n, 1, 0⟩

/-- Two blocks, the second fetched first: its signal is thrown away. -/
theorem processBlocks_inOrder_two : ∃ (as : List DworkAct) (w : Dwork),
    w.inserted.map blockNumberU64 = [1, 2] ∧ w.kills = [none] ∧
      InOrder 0 2 [numberedHeader 1, numberedHeader 2] as w := by
  have hexec : (Lib.exec step Succeeds (start 0 2 [numberedHeader 1, numberedHeader 2])
      [.fetched (numberedHeader 2) (some ⟨[], []⟩), .send 2, .receive, .fetched (numberedHeader 1) (some ⟨[], []⟩),
        .send 1, .receive, .pop, .insert true]).map (fun w => (w.inserted.map blockNumberU64, w.kills)) =
      some ([1, 2], [none]) := by
    decide +kernel
  obtain ⟨w, hw, heq⟩ := Option.map_eq_some_iff.mp hexec
  obtain ⟨hins, hkills⟩ := Prod.mk.inj heq
  exact ⟨_, w, hins, hkills, processBlocks_inOrder (by decide) (by decide) (.of_exec hw)⟩

end Dwork

end NdnGeth.Eth
