/-
What holds of the lookup in every run, whatever the peers answer and in
whatever order: the buffer stays well-formed, each round takes one result
for each candidate of its querying list, and the next querying list and the
buffer share out the candidates there were.
-/
import NdnGeth.Kad.Algo

namespace NdnGeth.Kad

open Peersort

theorem compare_iff : ∀ (l1 l2 : List Kadpeer), compare l1 l2 = true ↔ l1.map Kadpeer.id = l2.map Kadpeer.id
  | [], [] => by simp [compare]
  | [], _ :: _ => by simp [compare]
  | _ :: _, [] => by simp [compare]
  | p :: ps, q :: qs => by simp [compare, compare_iff ps qs]

namespace Lookup

variable {target : ID} {env : LookupEnv} {s s' : Lookup target}

/-! ## The end of a round -/

theorem extract_queriedpeers : (extract env s).queriedpeers = (s.sortedpeers.closest env.k).1.take KADEMLIA_ALPHA := by
  simp only [extract]
  split <;> rfl

theorem extract_sortedpeers : (extract env s).sortedpeers =
    ((s.sortedpeers.closest env.k).1.drop KADEMLIA_ALPHA).foldl repush (s.sortedpeers.closest env.k).2 := by
  simp only [extract]
  split <;> rfl

theorem extract_solution : (extract env s).solution = (s.sortedpeers.closest env.k).1.map PqPeer.p := by
  simp only [extract]
  split <;> rfl

theorem extract_newsolution : (extract env s).newsolution = (extract env s).solution := by
  simp only [extract]
  split <;> rfl

@[simp] theorem extract_answered : (extract env s).answered = s.answered := by
  simp only [extract]
  split <;> rfl

@[simp] theorem extract_pending : (extract env s).pending = s.pending := by
  simp only [extract]
  split <;> rfl

@[simp] theorem extract_resultCh : (extract env s).resultCh = s.resultCh := by
  simp only [extract]
  split <;> rfl

@[simp] theorem extract_checkliverounds : (extract env s).checkliverounds = s.checkliverounds := by
  simp only [extract]
  split <;> rfl

theorem extract_phase (env : LookupEnv) (s : Lookup target) :
    (extract env s).phase = .newlookupround ∧ (extract env s).lookuproundnum = s.lookuproundnum + 1 ∨
      (extract env s).phase = .newcheckliveround ∧ (extract env s).lookuproundnum = s.lookuproundnum ∧
        s.solution.map Kadpeer.id = (extract env s).newsolution.map Kadpeer.id := by
  simp only [extract]
  split
  · next h => exact .inr ⟨rfl, rfl, (compare_iff _ _).mp h⟩
  · exact .inl ⟨rfl, rfl⟩

theorem extract_perm (env : LookupEnv) (h : s.sortedpeers.Wf) : (extract env s).sortedpeers.Wf ∧
    s.sortedpeers.queue.Perm ((extract env s).queriedpeers ++ (extract env s).sortedpeers.queue) := by
  rw [extract_queriedpeers, extract_sortedpeers]
  obtain ⟨hwf, hperm, -, -, -⟩ := closest_spec h env.k
  generalize s.sortedpeers.closest env.k = r at hwf hperm ⊢
  have hsplit : (r.1 ++ r.2.queue).Perm (r.1.take KADEMLIA_ALPHA ++ (r.1.drop KADEMLIA_ALPHA ++ r.2.queue)) := by
    rw [← List.append_assoc, List.take_append_drop]
  have hnd := (((hperm.trans hsplit).map PqPeer.id).nodup_iff).mp h.nodup
  rw [List.map_append] at hnd
  obtain ⟨hwf', hq⟩ := foldl_repush_spec _ hwf (List.nodup_append.mp hnd).2.1
  exact ⟨hwf', (hperm.trans hsplit).trans (hq.symm.append_left _)⟩

theorem extract_sorted (env : LookupEnv) (h : s.sortedpeers.Wf) :
    (extract env s).solution.Pairwise (fun p q => dist target p.id < dist target q.id) ∧
      ∀ i ∈ s.sortedpeers.ids, i ∉ (extract env s).solution.map Kadpeer.id →
        ∀ q ∈ (extract env s).solution, dist target q.id < dist target i := by
  obtain ⟨-, hperm, hsorted, hnearer, -⟩ := closest_spec h env.k
  rw [extract_solution]
  refine ⟨List.pairwise_map.mpr hsorted, fun i hi hout q hq => ?_⟩
  obtain ⟨a, ha, rfl⟩ := List.mem_map.mp hq
  obtain ⟨b, hb, rfl⟩ := List.mem_map.mp hi
  rcases List.mem_append.mp (hperm.mem_iff.mp hb) with hb | hb
  · exact absurd (by simpa using ⟨b, hb, rfl⟩) hout
  · exact hnearer a ha b hb

theorem extract_solution_eq_nil : (extract env s).solution = [] ↔ (extract env s).queriedpeers = [] := by
  rw [extract_solution, extract_queriedpeers]
  simp [KADEMLIA_ALPHA]

/-! ## The invariant of every run -/

/-- Of the round's queries `made` have been made, and each has its callback
to come, its result in the channel, or is one of the `taken`. -/
structure Counted (s : Lookup target) (made taken : Nat) : Prop where
  made_le : made ≤ s.queriedpeers.length
  total : s.pending.length + s.resultCh.length + taken = made
  nodup : s.pending.Nodup
  lt : ∀ i ∈ s.pending, i < made

/-- What holds in each phase. Between rounds a candidate is in the querying
list or in the buffer, not in both. -/
def RoundInv (s : Lookup target) : Prop :=
  match s.phase with
  | .newlookupround => s.Counted 0 0 ∧ ∀ qp ∈ s.queriedpeers, qp.id ∉ s.sortedpeers.ids
  | .querying i => s.Counted i 0 ∧ s.queriedpeers ≠ []
  | .collecting i => s.Counted s.queriedpeers.length i ∧ s.queriedpeers ≠ []
  | .newcheckliveround | .done _ _ => True

/-- What holds of the lookup's variables in every state. -/
structure Inv (s : Lookup target) : Prop where
  wf : s.sortedpeers.Wf
  alpha : s.queriedpeers.length ≤ KADEMLIA_ALPHA
  nodup : (s.queriedpeers.map PqPeer.id).Nodup
  solution : s.queriedpeers ≠ [] → s.solution ≠ []
  checklive : s.checkliverounds = 1
  round : s.RoundInv

namespace Inv

theorem newlookupround (h : s.Inv) (hp : s.phase = .newlookupround) :
    s.Counted 0 0 ∧ ∀ qp ∈ s.queriedpeers, qp.id ∉ s.sortedpeers.ids := by
  have := h.round
  rwa [RoundInv, hp] at this

theorem querying {i : Nat} (h : s.Inv) (hp : s.phase = .querying i) : s.Counted i 0 ∧ s.queriedpeers ≠ [] := by
  have := h.round
  rwa [RoundInv, hp] at this

theorem collecting {i : Nat} (h : s.Inv) (hp : s.phase = .collecting i) :
    s.Counted s.queriedpeers.length i ∧ s.queriedpeers ≠ [] := by
  have := h.round
  rwa [RoundInv, hp] at this

theorem pending_nodup {i : Nat} (h : s.Inv) (hp : s.phase = .querying i ∨ s.phase = .collecting i) :
    s.pending.Nodup := by
  rcases hp with hp | hp
  · exact (h.querying hp).1.nodup
  · exact (h.collecting hp).1.nodup

theorem collected (h : s.Inv) (hp : s.phase = .collecting s.queriedpeers.length) :
    s.pending = [] ∧ s.resultCh = [] := by
  have ht := (h.collecting hp).1.total
  exact ⟨List.length_eq_zero_iff.mp (by omega), List.length_eq_zero_iff.mp (by omega)⟩

end Inv

theorem Counted.erase {made taken i : Nat} (h : s.Counted made taken) (hi : i ∈ s.pending)
    (hp : s'.pending = s.pending.erase i) (hr : s'.resultCh.length = s.resultCh.length + 1)
    (hq : s'.queriedpeers = s.queriedpeers) : s'.Counted made taken := by
  have hpos := List.length_pos_of_mem hi
  have htotal := h.total
  refine ⟨hq ▸ h.made_le, ?_, hp ▸ h.nodup.erase i, fun j hj => h.lt j (List.mem_of_mem_erase (hp ▸ hj))⟩
  rw [hp, hr, List.length_erase_of_mem hi]
  omega

theorem RoundInv.erase {i : Nat} (h : s.RoundInv) (hi : i ∈ s.pending) (hp : s'.pending = s.pending.erase i)
    (hr : s'.resultCh.length = s.resultCh.length + 1) (hq : s'.queriedpeers = s.queriedpeers)
    (hs : s'.sortedpeers = s.sortedpeers) (hph : s'.phase = s.phase) : s'.RoundInv := by
  unfold RoundInv at h ⊢
  rw [hph]
  split at h
  · exact ⟨h.1.erase hi hp hr hq, by rw [hq, hs]; exact h.2⟩
  · exact ⟨h.1.erase hi hp hr hq, hq ▸ h.2⟩
  · exact ⟨hq ▸ h.1.erase hi hp hr hq, hq ▸ h.2⟩
  · trivial
  · trivial

theorem replied_spec {ps : Peersort target} (h : ps.Wf) (qp : PqPeer target) (now : Int) (peers : List Kadpeer) :
    (((ps.repush qp).mark qp now).update peers).Wf ∧
      ∀ i, i ∈ (((ps.repush qp).mark qp now).update peers).ids ↔
        i ∈ ps.ids ∨ i = qp.id ∨ i ∈ peers.map Kadpeer.id := by
  obtain ⟨hwf, hids⟩ := repush_spec h qp
  obtain ⟨hwf', hids'⟩ := update_spec (hwf.mark qp now) peers
  exact ⟨hwf', fun i => (hids' i).trans ((or_congr_left (hids i)).trans or_assoc)⟩

theorem Inv.extract (env : LookupEnv) (h : s.Inv) (hp : s.phase = .collecting s.queriedpeers.length) : (extract env s).Inv := by
  obtain ⟨hpending, hresult⟩ := h.collected hp
  obtain ⟨hwf, hperm⟩ := extract_perm env h.wf
  have hnd := ((hperm.map PqPeer.id).nodup_iff).mp h.wf.nodup
  rw [List.map_append, List.nodup_append] at hnd
  refine ⟨hwf, ?_, hnd.1, fun hq hs => hq (extract_solution_eq_nil.mp hs), by rw [extract_checkliverounds, h.checklive], ?_⟩
  · rw [extract_queriedpeers]
    exact List.length_take_le _ _
  · unfold RoundInv
    rcases extract_phase env s with ⟨hph, -⟩ | ⟨hph, -⟩
    · rw [hph]
      refine ⟨⟨by simp, by simp [hpending, hresult], by simp [hpending], by simp [hpending]⟩, fun qp hq hi => ?_⟩
      exact hnd.2.2 qp.id (List.mem_map_of_mem hq) qp.id hi rfl
    · rw [hph]
      trivial

/-- **Every step keeps the invariant.** -/
theorem Inv.step {a : Act} (h : s.Inv) (hs : step env s a = some s') : s'.Inv := by
  obtain ⟨hwf, halpha, hnodup, hsol, hlive, hround⟩ := id h
  cases a with
  | start =>
    obtain ⟨hp, ⟨-, rfl⟩ | ⟨hq, rfl⟩⟩ := step_start hs
    · exact ⟨hwf, halpha, hnodup, hsol, hlive, trivial⟩
    · exact ⟨hwf, halpha, hnodup, hsol, hlive, ⟨by simp, by simp, by simp, by simp⟩, hq⟩
  | query now =>
    obtain ⟨i, qp, hp, hq, hcase⟩ := step_query hs
    obtain ⟨⟨-, htotal, hnd, hlt⟩, hne⟩ := h.querying hp
    have hi : i + 1 ≤ s.queriedpeers.length := (List.getElem?_eq_some_iff.mp hq).1
    have hlt' : ∀ j ∈ s.pending, j < i + 1 := fun j hj => Nat.lt_succ_of_lt (hlt j hj)
    obtain ⟨-, rfl⟩ | ⟨-, rfl⟩ := hcase
    · exact ⟨hwf, halpha, hnodup, hsol, hlive, ⟨hi, by simp; omega, hnd, hlt'⟩, hne⟩
    · refine ⟨hwf, halpha, hnodup, hsol, hlive, ⟨hi, by simp; omega, ?_, ?_⟩, hne⟩
      · rw [List.nodup_append]
        exact ⟨hnd, by simp, fun j hj k hk => by
          have := hlt j hj
          rw [List.mem_singleton.mp hk]
          omega⟩
      · simpa [or_imp, forall_and] using hlt'
  | callback i begun =>
    obtain ⟨asked, qp, -, -, hi, ⟨-, rfl⟩ | ⟨peers, -, rfl⟩⟩ := step_callback hs
    all_goals exact ⟨hwf, halpha, hnodup, hsol, hlive, hround.erase hi rfl (by simp) rfl rfl rfl⟩
  | queried =>
    obtain ⟨hp, rfl⟩ := step_queried hs
    obtain ⟨⟨-, htotal, hnd, hlt⟩, hne⟩ := h.querying hp
    exact ⟨hwf, halpha, hnodup, hsol, hlive, ⟨Nat.le_refl _, htotal, hnd, hlt⟩, hne⟩
  | receive now =>
    obtain ⟨i, result, rest, hp, hi, hr, hcase⟩ := step_receive hs
    obtain ⟨⟨hmade, htotal, hnd, hlt⟩, hne⟩ := h.collecting hp
    rw [hr, List.length_cons] at htotal
    obtain ⟨-, rfl⟩ | ⟨-, rfl⟩ := hcase
    · exact ⟨hwf, halpha, hnodup, hsol, hlive, ⟨hmade, by simp only; omega, hnd, hlt⟩, hne⟩
    · exact ⟨(replied_spec hwf _ now _).1, halpha, hnodup, hsol, hlive, ⟨hmade, by simp only; omega, hnd, hlt⟩, hne⟩
  | extract =>
    obtain ⟨hp, rfl⟩ := step_extract hs
    exact h.extract env hp
  | checklive =>
    obtain ⟨-, ⟨-, rfl⟩ | ⟨-, rfl⟩⟩ := step_checklive hs
    all_goals exact ⟨hwf, halpha, hnodup, hsol, hlive, trivial⟩
  | abort =>
    obtain rfl := step_abort hs
    exact ⟨hwf, halpha, hnodup, hsol, hlive, trivial⟩

theorem start_spec (h : start target env = some (.ok s)) :
    s.phase = .newlookupround ∧ s.answered = [] ∧ s.lookuproundnum = 1 ∧ s.Inv ∧
      ∀ i, i ∈ s.queriedpeers.map PqPeer.id ∨ i ∈ s.sortedpeers.ids ↔ i ∈ env.closest.map Kadpeer.id := by
  simp only [start] at h
  split at h
  · cases h
  next hne =>
  split at h
  · cases h
  next ps hps =>
  cases h
  obtain ⟨hwf, hids⟩ := newpeersort_spec hps
  obtain ⟨hwf', hperm, -, -, hlen⟩ := closest_spec hwf KADEMLIA_ALPHA
  have hnd := ((hperm.map PqPeer.id).nodup_iff).mp hwf.nodup
  rw [List.map_append, List.nodup_append] at hnd
  refine ⟨rfl, rfl, rfl, ⟨hwf', ?_, hnd.1, fun _ => hne, rfl, ⟨by simp, by simp, by simp, by simp⟩, fun qp hq hi => ?_⟩,
    fun i => ?_⟩
  · simp only [hlen]
    exact Nat.min_le_left _ _
  · exact hnd.2.2 qp.id (List.mem_map_of_mem hq) qp.id hi rfl
  · rw [← hids i, ids, ids, (hperm.map PqPeer.id).mem_iff, List.map_append, List.mem_append]

end Lookup

end NdnGeth.Kad
