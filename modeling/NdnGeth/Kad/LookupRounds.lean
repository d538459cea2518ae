/-
How many rounds the lookup takes. A candidate that was queried recently is
dropped, and when another peer tells of it again it comes back as a new
candidate that was never queried. So a peer can be asked, dropped and asked
again for ever, even with every answer fixed (`lookup_runs_on`). In runs
that ask no peer that has answered before, the number of steps is bounded
by the number of peers (`lookup_terminates`): a round in which nobody
answers takes candidates away, and there are only so many answers.
-/
import Mathlib.Data.Finset.Card
import NdnGeth.Kad.LookupRound

namespace NdnGeth.Kad

open Function
open Lib Peersort

namespace Lookup

variable {target : ID} {env : LookupEnv} {s s' : Lookup target}

/-! ## Runs that ask each peer once -/

/-- The steps that ask no peer that has answered before; nor is the lookup
aborted. -/
def AsksNew (s : Lookup target) : Act → Prop
  | .query now =>
    match s.phase with
    | .querying i => ∀ qp ∈ s.queriedpeers[i]?,
        s.sortedpeers.recentlyqueried qp now = false → qp.id ∉ s.answered.map Prod.fst
    | _ => True
  | .abort => False
  | _ => True

instance (s : Lookup target) : ∀ a, Decidable (s.AsksNew a)
  | .query now =>
    match h : s.phase with
    | .querying i =>
      decidable_of_iff (∀ qp ∈ s.queriedpeers[i]?,
        s.sortedpeers.recentlyqueried qp now = false → ∀ a ∈ s.answered, a.1 ≠ qp.id)
        (by simp only [AsksNew, h, List.mem_map, not_exists, not_and, ne_eq])
    | .newlookupround | .collecting _ | .newcheckliveround | .done _ _ => .isTrue (by simp only [AsksNew, h])
  | .abort => .isFalse id
  | .start | .callback _ _ | .queried | .receive _ | .extract | .checklive => .isTrue trivial

/-- Somebody has answered in this round. -/
def replied (s : Lookup target) : Bool := s.answered.any fun a => a.2 == s.lookuproundnum

/-- The peers the lookup can come to know are in `U`; it asks none of them
twice. -/
structure Once (U : Finset ID) (s : Lookup target) : Prop extends Inv s where
  buffer : ∀ i ∈ s.sortedpeers.ids, i ∈ U
  querying : ∀ qp ∈ s.queriedpeers, qp.id ∈ U
  results : ∀ r ∈ s.resultCh, r.queried.id ∈ U ∧ ∀ p ∈ r.peers, p.id ∈ U
  known : ∀ a ∈ s.answered, a.1 ∈ U
  once : (s.answered.map Prod.fst).Nodup
  unanswered : ∀ i ∈ s.pending, ∀ qp ∈ s.queriedpeers[i]?, qp.id ∉ s.answered.map Prod.fst
  rounds : ∀ a ∈ s.answered, a.2 ≤ s.lookuproundnum
  fresh : s.phase = .newlookupround → s.replied = false
  /-- A result that changes the buffer is an answer of this round. -/
  reply : ∀ r ∈ s.resultCh, r.err = false → r.peers ≠ [] → s.replied = true

theorem replied_iff : s.replied = true ↔ ∃ a ∈ s.answered, a.2 = s.lookuproundnum := by simp [replied]

variable {U : Finset ID}

theorem Once.extract (env : LookupEnv) (h : s.Once U) (hp : s.phase = .collecting s.queriedpeers.length) :
    (extract env s).Once U := by
  obtain ⟨hpending, hresult⟩ := h.collected hp
  have hids := fun i => ((extract_perm env h.wf).2.map PqPeer.id).mem_iff (a := i)
  simp only [List.map_append, List.mem_append] at hids
  have hround : s.lookuproundnum ≤ (Lookup.extract env s).lookuproundnum := by
    rcases extract_phase env s with ⟨-, hn⟩ | ⟨-, hn, -⟩ <;> omega
  refine ⟨h.toInv.extract env hp, fun i hi => h.buffer i ((hids i).mpr (.inr hi)),
    fun qp hq => h.buffer _ ((hids _).mpr (.inl (List.mem_map_of_mem hq))), by simp [hresult],
    by simpa using h.known, by simpa using h.once, by simp [hpending], fun a ha => ?_, fun hnew => ?_, by simp [hresult]⟩
  · rw [extract_answered] at ha
    exact (h.rounds a ha).trans hround
  · -- The number of the new round is not that of any answer.
    rcases extract_phase env s with ⟨-, hn⟩ | ⟨hph, -⟩
    · rw [← Bool.not_eq_true, replied_iff, extract_answered, hn]
      rintro ⟨a, ha, heq⟩
      have := h.rounds a ha
      omega
    · rw [hph] at hnew
      cases hnew

theorem Once.step {a : Act} (hfind : ∀ i peers, env.find i = some peers → ∀ p ∈ peers, p.id ∈ U)
    (h : s.Once U) (hok : s.AsksNew a) (hs : step env s a = some s') : s'.Once U := by
  have hinv : s'.Inv := h.toInv.step hs
  cases a with
  | start =>
    obtain ⟨hp, ⟨-, rfl⟩ | ⟨-, rfl⟩⟩ := step_start hs
    · exact { hinv, h with fresh := nofun }
    · exact { hinv, h with results := by simp, unanswered := by simp, fresh := nofun, reply := by simp }
  | query now =>
    obtain ⟨i, qp, hp, hq, ⟨-, rfl⟩ | ⟨hrecent, rfl⟩⟩ := step_query hs
    · refine { hinv, h with results := ?_, fresh := nofun, reply := ?_ }
      · rw [List.forall_mem_append, List.forall_mem_singleton]
        exact ⟨h.results, h.querying qp (List.mem_of_getElem? hq), by simp⟩
      · rw [List.forall_mem_append, List.forall_mem_singleton]
        exact ⟨h.reply, by simp⟩
    · rw [AsksNew, hp] at hok
      refine { hinv, h with unanswered := ?_, fresh := nofun }
      rw [List.forall_mem_append, List.forall_mem_singleton]
      refine ⟨h.unanswered, fun qp' hq' => ?_⟩
      obtain rfl := Option.some.inj (hq.symm.trans hq')
      exact hok qp hq hrecent
  | callback i begun =>
    obtain ⟨asked, qp, hasked, hqp, hi, hcase⟩ := step_callback hs
    obtain ⟨j, hp⟩ := loopVar_phase hqp
    have hqU : qp.id ∈ U := h.querying qp (loopVar_mem hqp)
    have hnew : s.phase ≠ .newlookupround := by
      intro hn
      rw [hn] at hp
      simp at hp
    obtain ⟨-, rfl⟩ | ⟨peers, hans, rfl⟩ := hcase
    · refine ⟨hinv, h.buffer, h.querying, ?_, h.known, h.once, fun j hj => h.unanswered j (List.mem_of_mem_erase hj),
        h.rounds, fun hn => absurd hn hnew, ?_⟩
      · rw [List.forall_mem_append, List.forall_mem_singleton]
        exact ⟨h.results, hqU, by simp⟩
      · rw [List.forall_mem_append, List.forall_mem_singleton]
        exact ⟨h.reply, by simp⟩
    · refine ⟨hinv, h.buffer, h.querying, ?_, ?_, ?_, fun j hj qp' hqp' => ?_, ?_, fun hn => absurd hn hnew,
        fun _ _ _ _ => replied_iff.mpr ⟨_, List.mem_cons_self, rfl⟩⟩
      · rw [List.forall_mem_append, List.forall_mem_singleton]
        exact ⟨h.results, hqU, hfind _ _ hans⟩
      · simp only [List.mem_cons, forall_eq_or_imp]
        exact ⟨h.querying asked (List.mem_of_getElem? hasked), h.known⟩
      · rw [List.map_cons, List.nodup_cons]
        exact ⟨h.unanswered i hi asked hasked, h.once⟩
      · -- Different positions of the querying list have different peers.
        rw [(h.pending_nodup hp).mem_erase_iff] at hj
        rw [List.map_cons, List.mem_cons, not_or]
        refine ⟨fun hid => hj.1 ?_, h.unanswered j hj.2 qp' hqp'⟩
        refine (List.getElem?_inj (by simpa using (List.getElem?_eq_some_iff.mp hqp').1) h.nodup).mp ?_
        rw [List.getElem?_map, List.getElem?_map, hasked, Option.mem_def.mp hqp', Option.map_some, Option.map_some, hid]
      · simp only [List.mem_cons, forall_eq_or_imp]
        exact ⟨Nat.le_refl _, h.rounds⟩
  | queried =>
    obtain ⟨hp, rfl⟩ := step_queried hs
    exact { hinv, h with fresh := nofun }
  | receive now =>
    obtain ⟨i, result, rest, hp, hi, hr, hcase⟩ := step_receive hs
    have hres := h.results
    have hreply := h.reply
    rw [hr] at hres hreply
    simp only [List.mem_cons, forall_eq_or_imp] at hres hreply
    obtain ⟨-, rfl⟩ | ⟨-, rfl⟩ := hcase
    · exact { hinv, h with results := hres.2, fresh := nofun, reply := hreply.2 }
    · refine { hinv, h with buffer := fun i hi => ?_, results := hres.2, fresh := nofun, reply := hreply.2 }
      rw [(replied_spec h.wf _ now _).2] at hi
      rcases hi with hi | rfl | hi
      · exact h.buffer i hi
      · exact hres.1.1
      · obtain ⟨p, hmem, rfl⟩ := List.mem_map.mp hi
        exact hres.1.2 p hmem
  | extract =>
    obtain ⟨hp, rfl⟩ := step_extract hs
    exact h.extract env hp
  | checklive =>
    obtain ⟨-, ⟨-, rfl⟩ | ⟨-, rfl⟩⟩ := step_checklive hs
    all_goals exact { hinv, h with fresh := nofun }
  | abort => exact hok.elim

/-! ## The bound -/

/-- With `n` peers: the answers there can still be, each worth more than a
full buffer, and the candidates, which a round without an answer takes away. -/
def left (n : Nat) (s : Lookup target) : Nat :=
  (n - s.answered.length) * (n + 1) +
    if s.replied then n + 1 else s.sortedpeers.queue.length + s.queriedpeers.length

/-- The steps there can still be. A round has at most three queries, each
with a query step, a callback and a result to take. -/
def potential (n : Nat) (s : Lookup target) : Nat :=
  match s.phase with
  | .newlookupround => 14 * s.left n + 13
  | .querying i =>
    14 * s.left n + (3 * (s.queriedpeers.length - i) + 2 * s.pending.length + s.resultCh.length + 3)
  | .collecting _ => 14 * s.left n + (2 * s.pending.length + s.resultCh.length + 2)
  | .newcheckliveround => 1
  | .done _ _ => 0

theorem length_le_card {l : List ID} (hnd : l.Nodup) (hU : ∀ i ∈ l, i ∈ U) : l.length ≤ U.card := by
  rw [← List.toFinset_card_of_nodup hnd]
  exact Finset.card_le_card fun i hi => hU i (List.mem_toFinset.mp hi)

theorem Once.answered_le (h : s.Once U) : s.answered.length ≤ U.card := by
  have := length_le_card (U := U) h.once fun i hi => by
    obtain ⟨a, ha, rfl⟩ := List.mem_map.mp hi
    exact h.known a ha
  rwa [List.length_map] at this

theorem Once.queue_le (h : s.Once U) : s.sortedpeers.queue.length ≤ U.card := by
  have := length_le_card h.wf.nodup h.buffer
  rwa [ids, List.length_map] at this

theorem left_answer {n : Nat} (hans : s'.answered.length = s.answered.length + 1) (hle : s'.answered.length ≤ n)
    (hreply : s'.replied = true) : s'.left n ≤ s.left n := by
  have hsucc : (n - s.answered.length) * (n + 1) = (n - s'.answered.length) * (n + 1) + (n + 1) := by
    rw [← Nat.succ_mul]
    congr 1
    omega
  simp only [left, hreply, if_true, hsucc]
  omega

theorem Once.left_extract (h : s.Once U) (hp : s.phase = .collecting s.queriedpeers.length)
    (hnew : (Lookup.extract env s).phase = .newlookupround) :
    (Lookup.extract env s).left U.card < s.left U.card := by
  have hq : 0 < s.queriedpeers.length := List.length_pos_of_ne_nil (h.toInv.collecting hp).2
  have hlen := (extract_perm env h.wf).2.length_eq
  have hfresh := (h.extract env hp).fresh hnew
  have hle := h.queue_le
  rw [List.length_append] at hlen
  simp only [left, extract_answered, hfresh, Bool.false_eq_true, if_false]
  split <;> omega

theorem Once.potential_lt {a : Act}
    (hfind : ∀ i peers, env.find i = some peers → ∀ p ∈ peers, p.id ∈ U) (h : s.Once U) (hok : s.AsksNew a)
    (hs : Lookup.step env s a = some s') : s'.potential U.card < s.potential U.card := by
  have hnext : s'.Once U := h.step hfind hok hs
  cases a with
  | start =>
    obtain ⟨hp, ⟨-, rfl⟩ | ⟨-, rfl⟩⟩ := step_start hs
    · simp only [potential, hp]
      omega
    · have halpha := h.alpha
      simp only [KADEMLIA_ALPHA] at halpha
      have hleft : left U.card { s with pending := [], resultCh := [], phase := .querying 0 } = s.left U.card := rfl
      simp only [potential, hp, hleft, List.length_nil]
      omega
  | query now =>
    obtain ⟨i, qp, hp, hq, hcase⟩ := step_query hs
    have hi : i < s.queriedpeers.length := (List.getElem?_eq_some_iff.mp hq).1
    obtain ⟨-, rfl⟩ | ⟨-, rfl⟩ := hcase
    · have hleft : left U.card { s with
          resultCh := s.resultCh ++ [⟨qp, [], false⟩], phase := .querying (i + 1) } = s.left U.card := rfl
      simp only [potential, hp, hleft, List.length_append, List.length_singleton]
      omega
    · have hleft : left U.card { s with
          pending := s.pending ++ [i], phase := .querying (i + 1) } = s.left U.card := rfl
      simp only [potential, hp, hleft, List.length_append, List.length_singleton]
      omega
  | callback i begun =>
    obtain ⟨asked, qp, -, hqp, hi, hcase⟩ := step_callback hs
    obtain ⟨j, hp⟩ := loopVar_phase hqp
    have hpos := List.length_pos_of_mem hi
    have hleft : s'.left U.card ≤ s.left U.card ∧ s'.phase = s.phase ∧ s'.queriedpeers = s.queriedpeers ∧
        s'.pending.length = s.pending.length - 1 ∧ s'.resultCh.length = s.resultCh.length + 1 := by
      obtain ⟨-, rfl⟩ | ⟨peers, -, rfl⟩ := hcase
      · exact ⟨Nat.le_refl _, rfl, rfl, List.length_erase_of_mem hi, by simp⟩
      · refine ⟨left_answer (by simp) hnext.answered_le ?_, rfl, rfl, List.length_erase_of_mem hi, by simp⟩
        exact replied_iff.mpr ⟨_, List.mem_cons_self, rfl⟩
    obtain ⟨hleft, hph, hq, hpend, hres⟩ := hleft
    rcases hp with hp | hp
    all_goals
      simp only [potential, hph, hp, hq, hpend, hres]
      omega
  | queried =>
    obtain ⟨hp, rfl⟩ := step_queried hs
    have hleft : left U.card { s with phase := .collecting 0 } = s.left U.card := rfl
    simp only [potential, hp, hleft]
    omega
  | receive now =>
    obtain ⟨i, result, rest, hp, hi, hr, hcase⟩ := step_receive hs
    have hleft : s'.left U.card = s.left U.card ∧ s'.phase = .collecting (i + 1) ∧ s'.pending = s.pending ∧
        s'.resultCh = rest := by
      obtain ⟨-, rfl⟩ | ⟨⟨herr, hpeers⟩, rfl⟩ := hcase
      · exact ⟨rfl, rfl, rfl, rfl⟩
      · -- Only an answer of this round changes the buffer.
        have hreply := h.reply result (by simp [hr]) herr hpeers
        refine ⟨?_, rfl, rfl, rfl⟩
        have hreply' : s.answered.any (fun a => a.2 == s.lookuproundnum) = true := hreply
        simp only [left, replied, hreply', if_true]
    obtain ⟨hleft, hph, hpend, hres⟩ := hleft
    simp only [potential, hp, hph, hleft, hpend, hres, hr, List.length_cons]
    omega
  | extract =>
    obtain ⟨hp, rfl⟩ := step_extract hs
    rcases extract_phase env s with ⟨hph, -⟩ | ⟨hph, -⟩
    · have := h.left_extract hp hph
      simp only [potential, hp, hph]
      omega
    · simp only [potential, hp, hph]
      omega
  | checklive =>
    obtain ⟨hp, ⟨-, rfl⟩ | ⟨-, rfl⟩⟩ := step_checklive hs
    all_goals simp [potential, hp]
  | abort => exact hok.elim

theorem Inv.progress (h : s.Inv) (hdone : ∀ peers err, s.phase ≠ .done peers err) :
    ∃ a, a ≠ .abort ∧ (Lookup.step env s a).isSome := by
  cases hp : s.phase with
  | newlookupround =>
    refine ⟨.start, by simp, ?_⟩
    by_cases hq : s.queriedpeers = [] <;> simp [Lookup.step, hp, hq]
  | querying i =>
    obtain ⟨hc, -⟩ := h.querying hp
    rcases Nat.lt_or_eq_of_le hc.made_le with hlt | heq
    · exact ⟨.query 0, by simp, by simp [Lookup.step, hp, List.getElem?_eq_getElem hlt]⟩
    · exact ⟨.queried, by simp, by simp [Lookup.step, hp, heq]⟩
  | collecting i =>
    obtain ⟨hc, hne⟩ := h.collecting hp
    have htotal := hc.total
    rcases Nat.lt_or_eq_of_le (show i ≤ s.queriedpeers.length by omega) with hlt | heq
    · cases hr : s.resultCh with
      | cons result rest => exact ⟨.receive 0, by simp, by simp [Lookup.step, hp, hr, hlt]⟩
      | nil =>
        -- A result is still to come: its callback can run.
        cases hpend : s.pending with
        | nil =>
          rw [hr, hpend] at htotal
          simp only [List.length_nil] at htotal
          omega
        | cons j js =>
          have hj := hc.lt j (by simp [hpend])
          exact ⟨.callback j false, by simp, by
            simp [Lookup.step, loopVar, hp, List.getElem?_eq_getElem hj, List.getLast?_eq_getLast_of_ne_nil hne, hpend]⟩
    · exact ⟨.extract, by simp, by simp [Lookup.step, hp, heq]⟩
  | newcheckliveround =>
    refine ⟨.checklive, by simp, ?_⟩
    by_cases hc : s.checkliverounds > MAX_CHECKLIVE_ROUNDS <;> simp [Lookup.step, hp, hc]
  | done peers err => exact absurd hp (hdone peers err)

theorem Once.start (hclosest : ∀ p ∈ env.closest, p.id ∈ U) (h : Lookup.start target env = some (.ok s)) :
    s.Once U ∧ s.potential U.card ≤ 14 * (U.card * (U.card + 2)) + 13 := by
  obtain ⟨hp, hans, -, hinv, hids⟩ := start_spec h
  obtain ⟨⟨-, htotal, -, -⟩, hapart⟩ := hinv.newlookupround hp
  have hpend : s.pending = [] := List.length_eq_zero_iff.mp (by omega)
  have hres : s.resultCh = [] := List.length_eq_zero_iff.mp (by omega)
  have hU : ∀ i, i ∈ s.queriedpeers.map PqPeer.id ∨ i ∈ s.sortedpeers.ids → i ∈ U := by
    intro i hi
    obtain ⟨p, hp, rfl⟩ := List.mem_map.mp ((hids i).mp hi)
    exact hclosest p hp
  refine ⟨⟨hinv, fun i hi => hU i (.inr hi), fun qp hq => hU _ (.inl (List.mem_map_of_mem hq)), by simp [hres],
    by simp [hans], by simp [hans], by simp [hpend], by simp [hans], fun _ => by simp [replied, hans],
    by simp [hres]⟩, ?_⟩
  have hcands : s.queriedpeers.length + s.sortedpeers.queue.length ≤ U.card := by
    have := length_le_card (U := U) (l := s.queriedpeers.map PqPeer.id ++ s.sortedpeers.ids)
      (List.nodup_append.mpr ⟨hinv.nodup, hinv.wf.nodup, fun i hi j hj he => by
        obtain ⟨qp, hq, rfl⟩ := List.mem_map.mp hi
        exact hapart qp hq (he ▸ hj)⟩)
      (fun i hi => hU i (List.mem_append.mp hi))
    simpa [ids] using this
  have hleft : s.left U.card ≤ U.card * (U.card + 2) := by
    simp only [left, replied, hans, List.any_nil, List.length_nil, Bool.false_eq_true, if_false, Nat.sub_zero]
    rw [Nat.mul_add U.card U.card 2, Nat.mul_add U.card U.card 1]
    omega
  simp only [potential, hp]
  omega

/-- **The lookup terminates**: with peers in a finite universe, every run
that asks no peer that has answered before is bounded, and stops only where
the lookup has returned. -/
theorem lookup_terminates {s₀ : Lookup target} {as : List Act}
    (hclosest : ∀ p ∈ env.closest, p.id ∈ U) (hfind : ∀ i peers, env.find i = some peers → ∀ p ∈ peers, p.id ∈ U)
    (hstart : Lookup.start target env = some (.ok s₀)) (hrun : Lib.Run (step env) AsksNew s₀ as s) :
    as.length ≤ 14 * (U.card * (U.card + 2)) + 13 ∧
      ((∃ peers err, s.phase = .done peers err) ∨ ∃ a, a ≠ .abort ∧ (step env s a).isSome) := by
  obtain ⟨hinit, hbound⟩ := Once.start hclosest hstart
  have hstep : ∀ (t : Lookup target) a t', t.Once U → t.AsksNew a → step env t a = some t' → t'.Once U :=
    fun _ _ _ h hok hs => h.step hfind hok hs
  have hlen := hrun.length_le hstep (fun _ _ _ h hok hs => h.potential_lt hfind hok hs) hinit
  refine ⟨by omega, ?_⟩
  by_cases hdone : ∃ peers err, s.phase = .done peers err
  · exact .inl hdone
  · exact .inr ((hrun.invariant hstep hinit).toInv.progress fun peers err hp => hdone ⟨peers, err, hp⟩)

end Lookup

theorem lookup_terminates_converging : ∃ (s₀ s : Lookup (numberedPeer 0).id) (as : List Act),
    Lib.Run (Lookup.step convergingNetwork) Lookup.AsksNew s₀ as s ∧
      s.phase = .done [numberedPeer 2, numberedPeer 3] none ∧ as.length ≤ 14 * (3 * (3 + 2)) + 13 := by
  have hplay : Lookup.play (numberedPeer 0).id convergingNetwork Lookup.AsksNew
      (roundInTurn 20000000000 [true] ++ roundInTurn 20000000000 [true, true] ++ [.checklive]) =
      some ([((numberedPeer 3).id, 2), ((numberedPeer 2).id, 2), ((numberedPeer 4).id, 1)],
        .done [numberedPeer 2, numberedPeer 3] none) := by
    decide +kernel
  obtain ⟨s₀, s, hstart, hrun, -, hdone⟩ := Lookup.play_run hplay
  exact ⟨s₀, s, _, hrun, hdone, (Lookup.lookup_terminates
    (U := {(numberedPeer 2).id, (numberedPeer 3).id, (numberedPeer 4).id}) (by decide +kernel)
    (numberedNetwork_forall (P := fun peers => ∀ p ∈ peers, p.id ∈ _) (by decide +kernel)) hstart hrun).1⟩

/-! ## A run without end -/

/-- No abort, and every reading of the clock within `QUERY_GRANULARITY` of
the time `t`. -/
def InWindow (t : Int) {target : ID} (_ : Lookup target) : Act → Prop
  | .query now | .receive now => t ≤ now ∧ now - t < QUERY_GRANULARITY
  | .abort => False
  | _ => True

instance (t : Int) {target : ID} (s : Lookup target) : ∀ a, Decidable (InWindow t s a)
  | .query now | .receive now => inferInstanceAs (Decidable (t ≤ now ∧ now - t < QUERY_GRANULARITY))
  | .abort => .isFalse id
  | .start | .callback _ _ | .queried | .extract | .checklive => .isTrue trivial

/-- Three peers in order of distance. The nearest fails; the second tells of
the other two, the third of the second. -/
structure Cyclic (target : ID) (env : LookupEnv) (a b c : Kadpeer) : Prop where
  k : env.k = 2
  closest : env.closest = [c]
  near : dist target a.id < dist target b.id
  far : dist target b.id < dist target c.id
  fails : env.find a.id = none
  second : env.find b.id = some [a, c]
  third : env.find c.id = some [b]

namespace Cyclic

variable {target : ID} {env : LookupEnv} {a b c : Kadpeer} {t : Int}

def atRound (ps : Peersort target) (queriedpeers : List (PqPeer target)) (solution newsolution : List Kadpeer)
    (lookuproundnum : Nat) (answered : List (ID × Nat)) : Lookup target where
  sortedpeers := ps
  queriedpeers
  solution
  newsolution
  lookuproundnum
  checkliverounds := 1
  pending := []
  resultCh := []
  phase := .newlookupround
  answered

theorem less_near {p q : Kadpeer} (h : dist target p.id < dist target q.id) (r r' : Nat) :
    less (⟨r, p⟩ : PqPeer target) ⟨r', q⟩ = true ∧ less (⟨r', q⟩ : PqPeer target) ⟨r, p⟩ = false := by
  simp only [less, PqPeer.id, distCmp_le_zero, decide_eq_true_eq, decide_eq_false_iff_not]
  omega

theorem id_ne {p q : Kadpeer} (h : dist target p.id < dist target q.id) : p.id ≠ q.id ∧ q.id ≠ p.id := by
  constructor
  all_goals
    intro he
    rw [he] at h
    omega

theorem QUERY_GRANULARITY_pos : 0 < QUERY_GRANULARITY := by decide

attribute [local simp] roundInTurn Lib.exec Lookup.step atRound InWindow QUERY_GRANULARITY_pos Lookup.query recentlyqueried
  Lookup.callback Lookup.loopVar PqPeer.id Lookup.receive Lookup.extract repush Heap.push Heap.up Heap.parent Peersort.mark
  Peersort.update Peersort.push addItem item Heap.get Heap.swap Peersort.closest Heap.pop Heap.down Heap.child compare
  KADEMLIA_ALPHA

theorem first_round (h : Cyclic target env a b c) (r fresh n : Nat) (queried : Nat → Int)
    (newsolution : List Kadpeer) (answered : List (ID × Nat)) (hr : ¬ t - queried r < QUERY_GRANULARITY) :
    ∃ answered',
      Lib.exec (Lookup.step env) (InWindow t)
        (atRound ⟨[], fun _ => none, queried, fresh⟩ [⟨r, c⟩] [c] newsolution n answered : Lookup target)
        (roundInTurn t [true]) =
      some (atRound ⟨[], fun _ => none, update (update queried r t) fresh 0, fresh + 1⟩
        [⟨fresh, b⟩, ⟨r, c⟩] [b, c] [b, c] (n + 1) answered') := by
  obtain ⟨hne, -⟩ := id_ne h.far
  simp [hr, h.third, hne, less_near h.far, h.k]
  funext i
  simp only [update_apply]
  split_ifs <;> rfl

theorem second_round (h : Cyclic target env a b c) (r r' fresh n : Nat) (queried : Nat → Int)
    (newsolution : List Kadpeer) (answered : List (ID × Nat)) (hr : ¬ t - queried r < QUERY_GRANULARITY)
    (hr' : t - queried r' < QUERY_GRANULARITY) :
    ∃ answered',
      Lib.exec (Lookup.step env) (InWindow t)
        (atRound ⟨[], fun _ => none, queried, fresh⟩ [⟨r, b⟩, ⟨r', c⟩] [b, c] newsolution n answered : Lookup target)
        (roundInTurn t [true, false]) =
      some (atRound ⟨[⟨fresh + 1, c⟩], update (fun _ => none) c.id (some ⟨fresh + 1, c⟩),
        update (update (update queried r t) fresh 0) (fresh + 1) 0, fresh + 2⟩
        [⟨fresh, a⟩, ⟨r, b⟩] [a, b] [a, b] (n + 1) answered') := by
  have hac := h.near.trans h.far
  obtain ⟨hab, hba⟩ := id_ne h.near
  obtain ⟨-, hcb⟩ := id_ne h.far
  obtain ⟨-, hca⟩ := id_ne hac
  simp [hr, hr', h.second, hab, hcb, hca, hba, less_near h.far, less_near h.near, less_near hac, h.k]
  funext i
  simp only [update_apply]
  split_ifs <;> simp_all

theorem third_round (h : Cyclic target env a b c) (r r' r'' fresh n : Nat) (queried : Nat → Int)
    (newsolution : List Kadpeer) (answered : List (ID × Nat)) (hr : ¬ t - queried r < QUERY_GRANULARITY)
    (hr' : t - queried r' < QUERY_GRANULARITY) :
    Lib.exec (Lookup.step env) (InWindow t)
      (atRound ⟨[⟨r'', c⟩], update (fun _ => none) c.id (some ⟨r'', c⟩), queried, fresh⟩
        [⟨r, a⟩, ⟨r', b⟩] [a, b] newsolution n answered : Lookup target)
      (roundInTurn t [true, false]) =
    some (atRound ⟨[], fun _ => none, queried, fresh⟩ [⟨r'', c⟩] [c] [c] (n + 1) answered) := by
  simp [hr, hr', h.fails, h.k]

/-- The third peer is to be queried, by a candidate that never was. -/
def Restarted (c : Kadpeer) (s : Lookup target) : Prop :=
  ∃ r fresh queried newsolution n answered,
    s = atRound ⟨[], fun _ => none, queried, fresh⟩ [⟨r, c⟩] [c] newsolution n answered ∧ queried r = 0 ∧ r < fresh

theorem three_rounds (h : Cyclic target env a b c) (ht : QUERY_GRANULARITY ≤ t) (s : Lookup target)
    (hs : Restarted c s) :
    ∃ as s', as ≠ [] ∧ Lib.Run (Lookup.step env) (InWindow t) s as s' ∧ Restarted c s' ∧
      s'.lookuproundnum = s.lookuproundnum + 3 := by
  obtain ⟨r, fresh, queried, newsolution, n, answered, rfl, hr, hlt⟩ := hs
  have hpos := QUERY_GRANULARITY_pos
  obtain ⟨answered₁, h₁⟩ := first_round (t := t) h r fresh n queried newsolution answered (by rw [hr]; omega)
  obtain ⟨answered₂, h₂⟩ := second_round (t := t) h fresh r (fresh + 1) (n + 1)
    (update (update queried r t) fresh 0) [b, c] answered₁ (by simp; omega)
    (by rw [update_of_ne (by omega), update_self]; omega)
  have h₃ := third_round (t := t) h (fresh + 1) fresh (fresh + 1 + 1) (fresh + 1 + 2) (n + 1 + 1)
    (update (update (update (update (update queried r t) fresh 0) fresh t)
      (fresh + 1) 0) (fresh + 1 + 1) 0) [a, b] answered₂
    (by rw [update_of_ne (by omega), update_self]; omega)
    (by rw [update_of_ne (by omega), update_of_ne (by omega), update_self]; omega)
  exact ⟨_, _, by simp [roundInTurn], ((Run.of_exec h₁).append (.of_exec h₂)).append (.of_exec h₃),
    ⟨_, _, _, _, _, _, rfl, by simp, by omega⟩, rfl⟩

theorem start_restarted (h : Cyclic target env a b c) :
    ∃ s₀ : Lookup target, Lookup.start target env = some (.ok s₀) ∧ Restarted c s₀ := by
  refine ⟨atRound ⟨[], fun _ => none, fun _ => 0, 1⟩ [⟨0, c⟩] [c] [] 1 [], ?_, ?_⟩
  · simp [Lookup.start, h.closest, newpeersort, fill, Peersort.empty, Heap.init, Heap.initFrom]
  · exact ⟨_, _, _, _, _, _, rfl, rfl, by omega⟩

/-- **The lookup may go on for ever**: in such a network there is a run
without end, all at one time. -/
theorem endless (h : Cyclic target env a b c) (ht : QUERY_GRANULARITY ≤ t) :
    ∃ s₀ : Lookup target, Lookup.start target env = some (.ok s₀) ∧
      ∃ f : Nat → Lookup target, f 0 = s₀ ∧ ∀ n, (f n).phase = .newlookupround ∧
        (f (n + 1)).lookuproundnum = (f n).lookuproundnum + 3 ∧
        ∃ as, Lib.Run (Lookup.step env) (InWindow t) (f n) as (f (n + 1)) := by
  obtain ⟨s₀, hstart, hs⟩ := h.start_restarted
  obtain ⟨f, h0, hf⟩ := Run.forever (h.three_rounds ht) hs
  refine ⟨s₀, hstart, f, h0, fun n => ?_⟩
  obtain ⟨⟨_, _, _, _, _, _, hfn, -⟩, hround, as, -, hrun⟩ := hf n
  exact ⟨by rw [hfn]; rfl, hround, as, hrun⟩

end Cyclic

/-- Peer 1 fails, 2 tells of 1 and 3, and 3 of 2. -/
def cyclicNetwork : LookupEnv := numberedNetwork 2 [3] [(2, [1, 3]), (3, [2])]

/-- A lookup that starts from peer 3 never leaves the lookup rounds. -/
theorem lookup_runs_on : ∃ (t : Int) (s₀ : Lookup (numberedPeer 0).id),
    Lookup.start (numberedPeer 0).id cyclicNetwork = some (.ok s₀) ∧
      ∃ f : Nat → Lookup (numberedPeer 0).id, f 0 = s₀ ∧ ∀ n, (f n).phase = .newlookupround ∧
        (f (n + 1)).lookuproundnum = (f n).lookuproundnum + 3 ∧
        ∃ as, Lib.Run (Lookup.step cyclicNetwork) (InWindow t) (f n) as (f (n + 1)) := by
  have h : Cyclic (numberedPeer 0).id cyclicNetwork (numberedPeer 1) (numberedPeer 2) (numberedPeer 3) :=
    ⟨rfl, rfl, by decide +kernel, by decide +kernel, by decide +kernel, by decide +kernel, by decide +kernel⟩
  exact ⟨QUERY_GRANULARITY, h.endless (Int.le_refl _)⟩

end NdnGeth.Kad
