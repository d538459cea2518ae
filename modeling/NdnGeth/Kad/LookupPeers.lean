/-
Which peers the lookup returns. A peer that answers is meant to go back to
the buffer, so that the solution is drawn from all who answered. Three
branches lose one: a candidate that was queried recently is not asked and
not put back; an answer is put down to the peer the loop variable holds when
the callback runs; and with nothing left to query the lookup returns neither
peers nor an error. In runs that take none of them, what the lookup returns
is right (`lookup_rightPeers`).
-/
import NdnGeth.Kad.LookupRound

namespace NdnGeth.Kad

open Peersort

/-- The right peers to return, where `answered` have answered: some, in
strict order of distance, and none that answered is left out and nearer
than the farthest, unless `k` nearer ones are returned. -/
def RightPeers (target : ID) (k : Nat) (answered : List ID) (peers : List Kadpeer) : Prop :=
  peers ≠ [] ∧ peers.Pairwise (fun p q => distCmp target p.id q.id < 0) ∧
    ∀ i ∈ answered, i ∉ peers.map Kadpeer.id →
      ∀ far ∈ peers.getLast?, distCmp target i far.id < 0 →
        k ≤ (peers.filter fun p => distCmp target p.id i < 0).length

instance {target : ID} {k : Nat} {answered : List ID} {peers : List Kadpeer} :
    Decidable (RightPeers target k answered peers) :=
  inferInstanceAs (Decidable (_ ∧ _ ∧ _))

namespace Lookup

variable {target : ID} {env : LookupEnv} {s s' : Lookup target}

/-- The steps that lose no peer: a round is started with candidates, each of
them is asked, and an answer is put down to the peer that gave it. -/
def Keeps (env : LookupEnv) (s : Lookup target) : Act → Prop
  | .start => s.queriedpeers ≠ []
  | .query now =>
    match s.phase with
    | .querying i => ∀ qp ∈ s.queriedpeers[i]?, s.sortedpeers.recentlyqueried qp now = false
    | _ => True
  | .callback i begun =>
    ∀ asked ∈ s.queriedpeers[i]?, ∀ qp ∈ s.loopVar begun, env.find asked.id ≠ none → qp = asked
  | _ => True

instance (env : LookupEnv) (s : Lookup target) : ∀ a, Decidable (s.Keeps env a)
  | .start => inferInstanceAs (Decidable (_ ≠ _))
  | .query now =>
    match h : s.phase with
    | .querying i =>
      decidable_of_iff (∀ qp ∈ s.queriedpeers[i]?, s.sortedpeers.recentlyqueried qp now = false) (by simp only [Keeps, h])
    | .newlookupround | .collecting _ | .newcheckliveround | .done _ _ => .isTrue (by simp only [Keeps, h])
  | .callback i begun =>
    inferInstanceAs (Decidable (∀ asked ∈ s.queriedpeers[i]?, ∀ qp ∈ s.loopVar begun, _ → _))
  | .queried | .receive _ | .extract | .checklive | .abort => .isTrue trivial

/-- The candidate at position `i` of the querying list is still to be asked
or to answer. -/
def Awaited (s : Lookup target) (i : Nat) : Prop :=
  i ∈ s.pending ∨
    match s.phase with
    | .newlookupround => True
    | .querying j => j ≤ i
    | _ => False

/-- Where the lookup has the peer `a`: in the buffer, in a result to be
taken, or in the querying list. -/
def Held (s : Lookup target) (a : ID) : Prop :=
  a ∈ s.sortedpeers.ids ∨
    (∃ r ∈ s.resultCh, r.queried.id = a ∧ r.err = false ∧ r.peers ≠ []) ∨
    ∃ i qp, s.queriedpeers[i]? = some qp ∧ qp.id = a ∧ s.Awaited i

/-- No peer that answered has been lost, and a solution has the right peers. -/
def NoneLost (env : LookupEnv) (s : Lookup target) : Prop :=
  match s.phase with
  | .newlookupround | .querying _ | .collecting _ => ∀ a ∈ s.answered, s.Held a.1
  | .newcheckliveround => RightPeers target env.k (s.answered.map Prod.fst) s.newsolution
  | .done peers none => RightPeers target env.k (s.answered.map Prod.fst) peers
  | .done _ (some _) => True

structure Kept (env : LookupEnv) (s : Lookup target) : Prop extends Inv s where
  answers : ∀ a ∈ s.answered, env.find a.1 ≠ none
  noneLost : s.NoneLost env

theorem rightPeers_extract {answered : List ID} (h : s.sortedpeers.Wf) (hall : ∀ i ∈ answered, i ∈ s.sortedpeers.ids)
    (hne : (extract env s).solution ≠ []) : RightPeers target env.k answered (extract env s).solution := by
  obtain ⟨hsorted, hfar⟩ := extract_sorted env h
  refine ⟨hne, hsorted.imp distCmp_neg.mpr, fun i hi hout far hlast hlt => ?_⟩
  have := hfar i (hall i hi) hout far (List.mem_of_getLast? hlast)
  rw [distCmp_neg] at hlt
  omega

theorem noneLost_round {i : Nat} (hp : s.phase = .querying i ∨ s.phase = .collecting i) :
    s.NoneLost env ↔ ∀ a ∈ s.answered, s.Held a.1 := by
  rcases hp with hp | hp <;> rw [NoneLost, hp]

theorem Held.mono {a : ID} (h : s.Held a) (hids : ∀ i ∈ s.sortedpeers.ids, i ∈ s'.sortedpeers.ids)
    (hres : ∀ r ∈ s.resultCh, r.queried.id = a → r.err = false → r.peers ≠ [] → s'.Held a)
    (hq : s'.queriedpeers = s.queriedpeers) (haw : ∀ i, i < s.queriedpeers.length → s.Awaited i → s'.Awaited i) : s'.Held a := by
  rcases h with hi | ⟨r, hmem, hid, herr, hpeers⟩ | ⟨i, qp, hi, hid, hw⟩
  · exact .inl (hids a hi)
  · exact hres r hmem hid herr hpeers
  · exact .inr (.inr ⟨i, qp, hq ▸ hi, hid, haw i (List.getElem?_eq_some_iff.mp hi).1 hw⟩)

theorem Held.callback {a : ID} {i : Nat} {asked : PqPeer target} {r : FindnodeResult target} (h : s.Held a)
    (hasked : s.queriedpeers[i]? = some asked) (hp : s'.pending = s.pending.erase i)
    (hr : s'.resultCh = s.resultCh ++ [r]) (hph : s'.phase = s.phase) (hq : s'.queriedpeers = s.queriedpeers)
    (hps : s'.sortedpeers = s.sortedpeers) : s'.Held a ∨ asked.id = a := by
  rcases h with hids | ⟨r', hmem, hr'⟩ | ⟨j, qp, hj, hid, haw⟩
  · exact .inl (.inl (hps ▸ hids))
  · exact .inl (.inr (.inl ⟨r', hr ▸ List.mem_append_left _ hmem, hr'⟩))
  · by_cases hji : j = i
    · rw [hji, hasked] at hj
      exact .inr (Option.some.inj hj ▸ hid)
    · refine .inl (.inr (.inr ⟨j, qp, hq ▸ hj, hid, ?_⟩))
      rw [Awaited, hp, hph]
      exact haw.imp_left (List.mem_erase_of_ne hji).mpr

theorem Kept.callback {i : Nat} {begun : Bool} (hnet : ∀ i peers, env.find i = some peers → peers ≠ []) (h : s.Kept env)
    (hok : s.Keeps env (.callback i begun)) (hs : step env s (.callback i begun) = some s') : s'.Kept env := by
  have hinv : s'.Inv := h.toInv.step hs
  obtain ⟨asked, qp, hasked, hqp, -, hcase⟩ := step_callback hs
  obtain ⟨j, hp⟩ := loopVar_phase hqp
  have hheld := (noneLost_round hp).mp h.noneLost
  have hmove : ∀ a, s.Held a → s'.Held a ∨ asked.id = a := by
    intro a ha
    obtain ⟨-, rfl⟩ | ⟨peers, -, rfl⟩ := hcase
    all_goals exact ha.callback hasked rfl rfl rfl rfl rfl
  have hlost : s'.NoneLost env ↔ ∀ a ∈ s'.answered, s'.Held a.1 := by
    refine noneLost_round (i := j) ?_
    obtain ⟨-, rfl⟩ | ⟨peers, -, rfl⟩ := hcase
    all_goals exact hp
  obtain ⟨hfail, rfl⟩ | ⟨peers, hans, rfl⟩ := hcase
  · refine ⟨hinv, h.answers, hlost.mpr fun a ha => ?_⟩
    exact (hmove _ (hheld a ha)).resolve_right fun hid => h.answers a ha (hid ▸ hfail)
  · obtain rfl := hok asked hasked qp hqp (by rw [hans]; simp)
    refine ⟨hinv, ?_, hlost.mpr ?_⟩
    · simp only [List.mem_cons, forall_eq_or_imp, hans]
      exact ⟨by simp, h.answers⟩
    · have hself : ∀ t : Lookup target, t.resultCh = s.resultCh ++ [⟨qp, peers, false⟩] → t.Held qp.id :=
        fun t ht => .inr (.inl ⟨⟨qp, peers, false⟩, by simp [ht], rfl, rfl, hnet _ _ hans⟩)
      simp only [List.mem_cons, forall_eq_or_imp]
      refine ⟨hself _ rfl, fun a ha => ?_⟩
      rcases hmove _ (hheld a ha) with hh | hid
      · exact hh
      · exact hid ▸ hself _ rfl

theorem Kept.buffered (h : s.Kept env) (hp : s.phase = .collecting s.queriedpeers.length) :
    ∀ a ∈ s.answered, a.1 ∈ s.sortedpeers.ids := by
  intro a ha
  obtain ⟨hpending, hresult⟩ := h.collected hp
  rcases (noneLost_round (.inr hp)).mp h.noneLost a ha with hq | ⟨r, hmem, -⟩ | ⟨j, qp, -, -, haw⟩
  · exact hq
  · rw [hresult] at hmem
    cases hmem
  · rw [Awaited, hp, hpending] at haw
    simp at haw

theorem Kept.extract (h : s.Kept env) (hp : s.phase = .collecting s.queriedpeers.length) : (extract env s).Kept env := by
  have hall := h.buffered hp
  refine ⟨h.toInv.extract env hp, by rw [extract_answered]; exact h.answers, ?_⟩
  unfold NoneLost
  rcases extract_phase env s with ⟨hph, -⟩ | ⟨hph, -, hsame⟩
  · rw [hph, extract_answered]
    intro a ha
    have hmem := ((extract_perm env h.wf).2.map PqPeer.id).mem_iff.mp (hall a ha)
    rw [List.map_append, List.mem_append] at hmem
    rcases hmem with hmem | hmem
    · obtain ⟨qp, hqp, hid⟩ := List.mem_map.mp hmem
      obtain ⟨i, hi⟩ := List.mem_iff_getElem?.mp hqp
      exact .inr (.inr ⟨i, qp, hi, hid, .inr (by rw [hph]; trivial)⟩)
    · exact .inl hmem
  · rw [hph, extract_answered, extract_newsolution]
    refine rightPeers_extract h.wf (by simpa using fun i n hi => hall (i, n) hi) fun hnil => ?_
    have hsol := h.solution (h.collecting hp).2
    rw [extract_newsolution, hnil] at hsame
    simp at hsame
    exact hsol hsame

theorem Kept.receive {now : Int} (h : s.Kept env) (hs : step env s (.receive now) = some s') : s'.Kept env := by
  have hinv : s'.Inv := h.toInv.step hs
  obtain ⟨i, result, rest, hp, hi, hr, hcase⟩ := step_receive hs
  have hheld := (noneLost_round (.inr hp)).mp h.noneLost
  -- In this phase only the results are awaited, not the candidates.
  have haw : ∀ {t : Lookup target} {j k : Nat}, t.phase = .collecting k → t.pending = s.pending →
      s.Awaited j → t.Awaited j := fun ht htp hj => by
    rw [Awaited, hp] at hj
    exact .inl (htp ▸ hj.resolve_right id)
  obtain ⟨hempty, rfl⟩ | ⟨-, rfl⟩ := hcase
  · refine ⟨hinv, h.answers, fun a ha => (hheld a ha).mono (fun _ => id) (fun r hmem hid herr hpeers => ?_) rfl
      fun j _ => haw rfl rfl⟩
    rw [hr] at hmem
    rcases List.mem_cons.mp hmem with rfl | hmem
    · rcases hempty with he | he
      · rw [he] at herr
        cases herr
      · exact absurd he hpeers
    · exact .inr (.inl ⟨r, hmem, hid, herr, hpeers⟩)
  · have hids := (replied_spec h.wf result.queried now result.peers).2
    refine ⟨hinv, h.answers, fun a ha => (hheld a ha).mono (fun i hi => (hids i).mpr (.inl hi))
      (fun r hmem hid herr hpeers => ?_) rfl fun j _ => haw rfl rfl⟩
    rw [hr] at hmem
    rcases List.mem_cons.mp hmem with rfl | hmem
    · exact .inl ((hids _).mpr (.inr (.inl hid.symm)))
    · exact .inr (.inl ⟨r, hmem, hid, herr, hpeers⟩)

/-- **A step that loses no peer keeps them all.** -/
theorem Kept.step {a : Act} (hnet : ∀ i peers, env.find i = some peers → peers ≠ []) (h : s.Kept env)
    (hok : s.Keeps env a) (hs : step env s a = some s') : s'.Kept env := by
  have hinv : s'.Inv := h.toInv.step hs
  have hheld : s.NoneLost env := h.noneLost
  cases a with
  | start =>
    obtain ⟨hp, ⟨hq, -⟩ | ⟨hq, rfl⟩⟩ := step_start hs
    · exact absurd hq hok
    · rw [NoneLost, hp] at hheld
      obtain ⟨⟨-, htotal, -, -⟩, -⟩ := h.newlookupround hp
      have hr : s.resultCh = [] := List.length_eq_zero_iff.mp (by omega)
      refine ⟨hinv, h.answers, fun a ha => (hheld a ha).mono (fun _ => id) (fun r hmem => ?_) rfl
        fun i _ _ => .inr (Nat.zero_le i)⟩
      rw [hr] at hmem
      cases hmem
  | query now =>
    obtain ⟨i, qp, hp, hq, ⟨hrecent, -⟩ | ⟨-, rfl⟩⟩ := step_query hs
    · rw [Keeps, hp] at hok
      rw [hok qp hq] at hrecent
      cases hrecent
    · rw [NoneLost, hp] at hheld
      refine ⟨hinv, h.answers, fun a ha => (hheld a ha).mono (fun _ => id)
        (fun r hmem hid herr hpeers => .inr (.inl ⟨r, hmem, hid, herr, hpeers⟩)) rfl fun j _ haw => ?_⟩
      rw [Awaited, hp] at haw
      rcases haw with hpend | hle
      · exact .inl (List.mem_append_left _ hpend)
      · -- The candidate at position `i` is the one that has just been asked.
        rcases Nat.lt_or_eq_of_le hle with hlt | rfl
        · exact .inr hlt
        · exact .inl (by simp)
  | callback i begun => exact h.callback hnet hok hs
  | queried =>
    obtain ⟨hp, rfl⟩ := step_queried hs
    rw [NoneLost, hp] at hheld
    refine ⟨hinv, h.answers, fun a ha => (hheld a ha).mono (fun _ => id)
      (fun r hmem hid herr hpeers => .inr (.inl ⟨r, hmem, hid, herr, hpeers⟩)) rfl fun j hlt haw => ?_⟩
    rw [Awaited, hp] at haw
    exact .inl (haw.resolve_right (by simpa using hlt))
  | receive now => exact h.receive hs
  | extract =>
    obtain ⟨hp, rfl⟩ := step_extract hs
    exact h.extract hp
  | checklive =>
    obtain ⟨hp, ⟨hc, -⟩ | ⟨-, rfl⟩⟩ := step_checklive hs
    · have := h.checklive
      simp only [MAX_CHECKLIVE_ROUNDS] at hc
      omega
    · rw [NoneLost, hp] at hheld
      exact ⟨hinv, h.answers, hheld⟩
  | abort =>
    obtain rfl := step_abort hs
    exact ⟨hinv, h.answers, trivial⟩

theorem Kept.start (h : start target env = some (.ok s)) : s.Kept env := by
  obtain ⟨hp, hans, -, hinv, -⟩ := start_spec h
  refine ⟨hinv, by simp [hans], ?_⟩
  rw [NoneLost, hp]
  simp [hans]

/-- **The lookup returns the right peers**, in every run whose steps lose
none, where each peer that answers tells of some. -/
theorem lookup_rightPeers {s₀ : Lookup target} {as : List Act} {peers : List Kadpeer}
    (hnet : ∀ i peers, env.find i = some peers → peers ≠ []) (hstart : Lookup.start target env = some (.ok s₀))
    (hrun : Lib.Run (step env) (Keeps env) s₀ as s) (hdone : s.phase = .done peers none) :
    RightPeers target env.k (s.answered.map Prod.fst) peers := by
  have h := (hrun.invariant (fun _ _ _ hk hok hs => Kept.step hnet hk hok hs) (Kept.start hstart)).noneLost
  rwa [NoneLost, hdone] at h

end Lookup

theorem lookup_rightPeers_converging :
    RightPeers (numberedPeer 0).id 2 [(numberedPeer 3).id, (numberedPeer 2).id, (numberedPeer 4).id]
      [numberedPeer 2, numberedPeer 3] := by
  have hplay : Lookup.play (numberedPeer 0).id convergingNetwork (Lookup.Keeps convergingNetwork)
      (roundInTurn 20000000000 [true] ++ roundInTurn 20000000000 [true, true] ++ [.checklive]) =
      some ([((numberedPeer 3).id, 2), ((numberedPeer 2).id, 2), ((numberedPeer 4).id, 1)],
        .done [numberedPeer 2, numberedPeer 3] none) := by
    decide +kernel
  obtain ⟨s₀, s, hstart, hrun, hans, hdone⟩ := Lookup.play_run hplay
  have h := Lookup.lookup_rightPeers (numberedNetwork_forall (P := (· ≠ [])) (by decide)) hstart hrun hdone
  rw [hans] at h
  exact h

/-- Peer 1 is the nearest. It tells of 4, which tells of 2 and 3. -/
def forgettingNetwork : LookupEnv := numberedNetwork 2 [1] [(1, [4]), (4, [2, 3]), (2, [2]), (3, [3])]

/-- Peer 1 answers in the first round and is passed over in the second, in
which 4 answers; it is not in the buffer again. The third round confirms the
solution 2, 3, without the nearest peer. -/
theorem lookup_forgets_nearest : ∃ (s₀ s : Lookup (numberedPeer 0).id) (as : List Act) (peers : List Kadpeer),
    (∀ i peers, forgettingNetwork.find i = some peers → peers ≠ []) ∧
      Lookup.start (numberedPeer 0).id forgettingNetwork = some (.ok s₀) ∧
      Lib.Run (Lookup.step forgettingNetwork) Lib.anyStep s₀ as s ∧ s.phase = .done peers none ∧
      ¬ RightPeers (numberedPeer 0).id forgettingNetwork.k (s.answered.map Prod.fst) peers := by
  have hplay : Lookup.play (numberedPeer 0).id forgettingNetwork Lib.anyStep
      (roundInTurn 20000000000 [true] ++ roundInTurn 20000000000 [false, true] ++
        roundInTurn 20000000000 [true, true] ++ [.checklive]) =
      some ([((numberedPeer 3).id, 3), ((numberedPeer 2).id, 3), ((numberedPeer 4).id, 2), ((numberedPeer 1).id, 1)],
        .done [numberedPeer 2, numberedPeer 3] none) := by
    decide +kernel
  obtain ⟨s₀, s, hstart, hrun, hans, hdone⟩ := Lookup.play_run hplay
  refine ⟨s₀, s, _, _, numberedNetwork_forall (P := (· ≠ [])) (by decide), hstart, hrun, hdone, ?_⟩
  rw [hans]
  decide +kernel

end NdnGeth.Kad
