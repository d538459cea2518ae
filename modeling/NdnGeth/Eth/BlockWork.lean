/-
A block fetching work is completed exactly once, if none of five things
happens to it: the main loop's own `buildblock` builds the block (its answer
is ignored there); two handlers are in `buildblock` together (it unlocks its
mutex at once); the block is built but the work has an error from its other
job, or the fetcher has stopped; a job whose refetch the pool refuses finds
the block built, and hands it over again.
-/
import NdnGeth.Eth.BlockFetcher

namespace NdnGeth.Eth

open Lib (Run)

/-! ## Where the goroutines are -/

namespace JobState

def checking : JobState HandlerPc → Bool
  | .handler .check => true
  | _ => false

/-- Between the test and the write of `buildblock`. -/
def building : JobState HandlerPc → Bool
  | .handler (.build _) => true
  | _ => false

/-- About to call `onWorkDone` for the block it has built. -/
def finishing : JobState HandlerPc → Bool
  | .handler (.finish true) => true
  | _ => false

def handling : JobState HandlerPc → Bool
  | .handler _ => true
  | _ => false

def stepsLeft : JobState HandlerPc → Nat
  | .handler (.set _) => 6
  | .handler .check | .handler (.refetch _) => 5
  | .handler (.build _) | .handler (.submit _) => 4
  | .handler (.finish _) => 3
  | .handler .signal => 2
  | .handler .remove => 1
  | _ => 0

def handlerPc : JobState HandlerPc → Option HandlerPc
  | .handler pc => some pc
  | _ => none

end JobState

namespace MainPc

/-- The main loop has set what it was told, and the test of `buildblock` is
still to come. -/
def willCheck (i : Nat) : MainPc → Bool
  | .addHolder j _ | .check j => i == j
  | _ => false

/-- The main loop is in `processAnnouncement` for the work, which is being
fetched. -/
def holds (i : Nat) : MainPc → Bool
  | .found j _ | .setheader j _ _ | .addHolder j _ | .check j | .build j _ => i == j
  | _ => false

/-- The work that the main loop is about to test. -/
def checked : MainPc → Option Nat
  | .check i => some i
  | _ => none

end MainPc

/-! ## One work -/

/-- What holds of a work at any time, seen from one of its jobs; `checks`
tells whether the main loop is about to test it. A block that is not built
was not handed over, and at most one handler is building it; one that is was
handed over once, or one handler is about to; and while both parts are there
and the block is not, somebody is about to build it. -/
structure BlockWork.View (checks : Bool) (w : BlockWork) (mine theirs : JobState HandlerPc) : Prop where
  unbuilt : w.fblock = none → w.handed = [] ∧ mine.finishing = false ∧ theirs.finishing = false ∧
    (mine.building = false ∨ theirs.building = false)
  built : ∀ b, w.fblock = some b → mine.building = false ∧ theirs.building = false ∧
    ((w.handed = [] ∧ mine.finishing = !theirs.finishing) ∨
      (w.handed = [b] ∧ 1 ≤ w.workDone ∧ mine.finishing = false ∧ theirs.finishing = false))
  assembled : w.fblock = none → w.header.isSome → w.body.isSome →
    checks = true ∨ (mine.checking = true ∨ mine.building = true) ∨ theirs.checking = true ∨ theirs.building = true

def BlockPart.other : BlockPart → BlockPart
  | .header => .body
  | .body => .header

theorem BlockPart.other_ne (p : BlockPart) : p.other ≠ p := by cases p <;> decide

theorem BlockPart.eq_or_other (p q : BlockPart) : q = p ∨ q = p.other := by cases p <;> cases q <;> decide

@[simp] theorem BlockPart.other_other (p : BlockPart) : p.other.other = p := by cases p <;> rfl

namespace BlockWork

variable {checks : Bool} {w w' : BlockWork} {part : BlockPart} {mine theirs : JobState HandlerPc}

theorem View.symm (h : w.View checks mine theirs) : w.View checks theirs mine := by
  refine ⟨fun hf => ?_, fun b hf => ?_, fun hf hh hb => ?_⟩
  · obtain ⟨h1, h2, h3, h4⟩ := h.unbuilt hf
    exact ⟨h1, h3, h2, h4.symm⟩
  · obtain ⟨h1, h2, ⟨h3, h4⟩ | ⟨h3, h4, h5, h6⟩⟩ := h.built b hf
    · exact ⟨h2, h1, .inl ⟨h3, by simp [h4]⟩⟩
    · exact ⟨h2, h1, .inr ⟨h3, h4, h6, h5⟩⟩
  · exact (h.assembled hf hh hb).imp_right Or.symm

def Inv (checks : Bool) (w : BlockWork) : Prop := ∀ part : BlockPart, w.View checks (w.job part) (w.job part.other)

theorem View.inv (part : BlockPart) (h : w.View checks (w.job part) (w.job part.other)) : w.Inv checks := by
  intro q
  cases part.eq_or_other q with
  | inl hq => exact hq ▸ h
  | inr hq =>
    rw [hq, BlockPart.other_other]
    exact h.symm

theorem View.inv_setJob (h : w'.View checks mine (w'.job part.other)) : (w'.setJob part mine).Inv checks := by
  apply View.inv part
  simp only [setJob, Function.update_self, Function.update_of_ne part.other_ne]
  exact ⟨h.unbuilt, h.built, h.assembled⟩

variable {j : JobState HandlerPc}

theorem View.move (h : w.View checks mine theirs)
    (hold : mine.checking = false ∧ mine.building = false ∧ mine.finishing = false)
    (hnew : j.building = false ∧ j.finishing = false) : w.View checks j theirs := by
  obtain ⟨hc, hb, hf⟩ := hold
  refine ⟨fun hn => ?_, fun b hn => ?_, fun hn hh hb' => ?_⟩
  · obtain ⟨h1, -, h3, -⟩ := h.unbuilt hn
    exact ⟨h1, hnew.2, h3, .inl hnew.1⟩
  · obtain ⟨-, h2, h3⟩ := h.built b hn
    rw [hf] at h3
    rw [hnew.2]
    exact ⟨hnew.1, h2, h3⟩
  · have := h.assembled hn hh hb'
    rw [hc, hb] at this
    simp only [Bool.false_eq_true, or_false, false_or] at this
    exact this.imp_right .inr

theorem View.alike (h : w.View checks mine theirs) (hw : w.Alike w') : w'.View checks mine theirs := by
  obtain ⟨_, _, _, _, rfl⟩ := hw
  exact ⟨h.unbuilt, h.built, h.assembled⟩

theorem Inv.alike (h : w.Inv checks) (hw : w.Alike w') : w'.Inv checks := by
  intro part
  have hv := (h part).alike hw
  obtain ⟨_, _, _, _, rfl⟩ := hw
  exact hv

theorem Inv.newWork (ann : BlockAnnouncement) : (BlockFetcher.newWork ann).Inv checks := by
  intro part
  cases ann <;> exact ⟨fun _ => ⟨rfl, rfl, rfl, .inl rfl⟩, fun b h => (by cases h), fun _ _ h => (by cases h)⟩

/-! ## The steps of a handler -/

/-- What must not happen at the step of a handler: two in `buildblock`; the
call of `onWorkDone` for a built block in vain; and that for a failed job
not in vain. -/
def HandlesOnce (w : BlockWork) (part : BlockPart) (dead : Bool) : HandlerPc → Prop
  | .check => (w.job part.other).building = false
  | .finish true => w.err = none ∧ dead = false
  | .finish false => ¬(w.err = none ∧ w.fblock.isSome ∧ dead = false)
  | _ => True

instance (w : BlockWork) (part : BlockPart) (dead : Bool) : ∀ pc, Decidable (w.HandlesOnce part dead pc)
  | .check => inferInstanceAs (Decidable (_ = _))
  | .finish true => inferInstanceAs (Decidable (_ ∧ _))
  | .finish false => inferInstanceAs (Decidable (¬_))
  | .set _ | .build _ | .refetch _ | .submit _ | .signal | .remove => .isTrue trivial

theorem Inv.handle {pc : HandlerPc} {dead : Bool} {v : BlockWork} (hi : w.Inv checks)
    (hpc : w.job part = .handler pc) (hok : w.HandlesOnce part dead pc) (hs : w.HandleStep dead pc v j) :
    (v.setJob part j).Inv checks := by
  have h := hi part
  rw [hpc] at h
  apply View.inv_setJob
  cases hs with
  | @set p =>
    cases p <;> exact ⟨h.unbuilt, h.built, fun _ _ _ => .inr (.inl (.inl rfl))⟩
  | test hb =>
    obtain ⟨hf, -⟩ := toBuild_eq_some hb
    obtain ⟨h1, -, h3, -⟩ := h.unbuilt hf
    refine ⟨fun _ => ⟨h1, rfl, h3, .inr hok⟩, fun b' hn => ?_, fun _ _ _ => .inr (.inl (.inr rfl))⟩
    cases hf.symm.trans hn
  | wait hb => exact ⟨h.unbuilt, h.built, fun hf hh hbd => (toBuild_eq_none hb hf hh hbd).elim⟩
  | build =>
    have hf : w.fblock = none := by
      cases hf : w.fblock with
      | none => rfl
      | some x => cases (h.built x hf).1
    obtain ⟨h1, -, h3, h4⟩ := h.unbuilt hf
    refine ⟨fun hn => (by cases hn), fun b' hn => ⟨rfl, h4.resolve_left (fun hx => by cases hx), .inl ⟨h1, ?_⟩⟩, fun hn => (by cases hn)⟩
    show true = !(w.job part.other).finishing
    rw [h3]
    rfl
  | next hv | giveUp hv =>
    obtain ⟨_, _, _, _, rfl⟩ := hv
    exact (h.move ⟨rfl, rfl, rfl⟩ ⟨rfl, rfl⟩).alike ⟨_, _, _, _, rfl⟩
  | submit | refused | signal => exact h.move ⟨rfl, rfl, rfl⟩ ⟨rfl, rfl⟩
  | @handOver built b pc he hb hd hpc' =>
    have hj : (JobState.handler pc).building = false ∧ (JobState.handler pc).finishing = false := by
      rcases hpc' with rfl | rfl <;> exact ⟨rfl, rfl⟩
    cases built with
    | false => exact absurd ⟨he, by rw [hb]; rfl, hd⟩ hok
    | true =>
      obtain ⟨-, h2, ⟨h3, h4⟩ | ⟨-, -, h5, -⟩⟩ := h.built b hb
      · have h4 : (!(w.job part.other).finishing) = true := h4.symm
        refine ⟨fun hn => ?_, fun b' hn => ⟨hj.1, h2, .inr ⟨?_, Nat.le_add_left .., hj.2, by simpa using h4⟩⟩, fun hn => ?_⟩
        · cases hb.symm.trans hn
        · cases hb.symm.trans hn
          simp [h3]
        · cases hb.symm.trans hn
      · cases h5
  | @finish built hno =>
    cases built with
    | true =>
      cases hf : w.fblock with
      | none => cases (h.unbuilt hf).2.1
      | some b => exact absurd ⟨hok.1, by rw [hf]; rfl, hok.2⟩ hno
    | false =>
      refine ⟨h.unbuilt, fun b hn => ?_, h.assembled⟩
      obtain ⟨h1, h2, h3⟩ := h.built b hn
      exact ⟨h1, h2, h3.imp_right fun h => ⟨h.1, Nat.le_add_left .., h.2.2⟩⟩
  | remove => exact ⟨h.unbuilt, h.built, h.assembled⟩

theorem HandleStep.stepsLeft {pc : HandlerPc} {dead : Bool} {v : BlockWork} (hs : w.HandleStep dead pc v j) :
    j.stepsLeft < (JobState.handler pc).stepsLeft := by
  cases hs with
  | handOver _ _ _ hpc => rcases hpc with rfl | rfl <;> simp [JobState.stepsLeft]
  | _ => simp [JobState.stepsLeft]

/-! ## The steps of the main loop -/

theorem Inv.mono {checks' : Bool} (h : w.Inv checks) (hc : checks = true → checks' = true) : w.Inv checks' := fun part =>
  ⟨(h part).unbuilt, (h part).built, fun hf hh hb => ((h part).assembled hf hh hb).imp_left hc⟩

theorem Inv.setheader (h : w.Inv checks) (hd : FetchedHeader) : (w.setheader hd).Inv true := fun part =>
  ⟨(h part).unbuilt, (h part).built, fun _ _ _ => .inl rfl⟩

theorem Inv.uncheck (h : w.Inv checks) (hb : w.toBuild = none) : w.Inv false := fun part =>
  ⟨(h part).unbuilt, (h part).built, fun hf hh hbd => (toBuild_eq_none hb hf hh hbd).elim⟩

end BlockWork

namespace BlockFetcher

variable {f f' : BlockFetcher} {i : Nat} {w : BlockWork}

/-- The invariant of the fetcher: that of each work; the main loop never
builds a block, and the jobs it is about to submit are not there yet. -/
structure Inv (f : BlockFetcher) : Prop where
  works : ∀ i, (f.works i).Inv (f.main.willCheck i)
  noBuild : ∀ i b, f.main ≠ .build i b
  noHeaderJob : ∀ i route, f.main = .submitHeader i route → ∀ part, (f.works i).job part = .idle
  noBodyJob : ∀ i route withHeader, f.main = .submitBody i route withHeader → (f.works i).job .body = .idle

/-- The steps of a run in which no work is spoiled: the main loop's own test
of `buildblock` comes to nothing, and each handler's step is in order. -/
def CompletesOnce (f : BlockFetcher) : FetcherAct → Prop
  | .main _ => ∀ i ∈ f.main.checked, (f.works i).toBuild = none
  | .handle i part _ => ∀ pc ∈ ((f.works i).job part).handlerPc, (f.works i).HandlesOnce part f.dead pc
  | _ => True

instance (f : BlockFetcher) : ∀ a, Decidable (f.CompletesOnce a)
  | .main _ => inferInstanceAs (Decidable (∀ i ∈ f.main.checked, (f.works i).toBuild = none))
  | .handle i part _ =>
    inferInstanceAs (Decidable (∀ pc ∈ ((f.works i).job part).handlerPc, (f.works i).HandlesOnce part f.dead pc))
  | .announce _ _ | .run _ _ | .complete _ _ _ | .removepeer _ | .pushed | .signal | .close | .drop _ _ | .stop => .isTrue trivial

theorem Inv.mainStep {verified : Bool} {pc m : MainPc} (hi : f.Inv) (hok : f.CompletesOnce (.main verified)) (hm : f.main = pc)
    (hs : MainStep f i pc w m) : Inv { f.setWork i w with main := m } := by
  have hi' := hi.works i
  rw [hm] at hi'
  have hother : ∀ j, j ≠ i → pc.willCheck j = false := by
    intro j hj
    cases hs <;> simp [MainPc.willCheck, hj]
  have hbuild : ∀ b, pc = .check i → (f.works i).toBuild ≠ some b := by
    rintro b rfl hb
    cases hb.symm.trans (hok i (by rw [hm]; rfl))
  have hwork : w.Inv (m.willCheck i) := by
    cases hs with
    | known | unknown | refused | bodyRefused => exact hi'.mono fun hc => by cases hc
    | addAnnouncer hv | addHolder hv | propagate hv => exact hi'.alike hv
    | @setheader h _ => exact (hi'.setheader h).mono fun _ => by simp [MainPc.willCheck]
    | test hb => exact absurd hb (hbuild _ rfl)
    | wait hb => exact hi'.uncheck hb
    | build => exact absurd hm (hi.noBuild i _)
    | @submitHeader route =>
      have hv := hi' .header
      rw [hi.noHeaderJob i route hm .header] at hv
      exact BlockWork.View.inv_setJob (hv.move ⟨rfl, rfl, rfl⟩ ⟨rfl, rfl⟩)
    | @submitBody route wh =>
      have hv := hi' .body
      rw [hi.noBodyJob i route wh hm] at hv
      exact BlockWork.View.inv_setJob (hv.move ⟨rfl, rfl, rfl⟩ ⟨rfl, rfl⟩)
  refine ⟨forall_setWork.2 ⟨hwork, fun j hj => ?_⟩, fun j b h => ?_, fun j route h => ?_, fun j route wh h => ?_⟩
  · refine (hi.works j).mono fun hc => ?_
    rw [hm, hother j hj] at hc
    cases hc
  · cases hs <;> grind [propagates]
  · cases hs <;> grind [propagates]
  · cases hs with
    | @submitHeader r =>
      cases h
      simpa [setWork, BlockWork.setJob] using hi.noHeaderJob i _ hm .body
    | _ => grind [propagates]

theorem Inv.job {dec : BlockDecoder} {a : FetcherAct} {part : BlockPart} {j : JobState HandlerPc} (hi : f.Inv)
    (hok : f.CompletesOnce a) (hs : JobStep dec f i part a ((f.works i).job part) w j)
    (fetching : NdnGeth.Core.Hash → Option Nat) (signals : Nat) :
    Inv { f.setWork i (w.setJob part j) with fetching := fetching, signals := signals } := by
  obtain ⟨hne, hjob, -⟩ := hs.keeps
  have hwork : (w.setJob part j).Inv (f.main.willCheck i) := by
    have hv := hi.works i part
    generalize hold : (f.works i).job part = old at hs hv
    cases hs with
    | run | drop | unread | read => exact BlockWork.View.inv_setJob (hv.move ⟨rfl, rfl, rfl⟩ ⟨rfl, rfl⟩)
    | aborted hw =>
      obtain ⟨_, _, _, _, rfl⟩ := hw
      exact BlockWork.View.inv_setJob ((hv.move ⟨rfl, rfl, rfl⟩ ⟨rfl, rfl⟩).alike ⟨_, _, _, _, rfl⟩)
    | handle hh => exact (hi.works i).handle hold (hok _ (by rw [hold]; rfl)) hh
  refine ⟨forall_setWork.2 ⟨hwork, fun k _ => hi.works k⟩, hi.noBuild, fun k route hm q => ?_, fun k route wh hm => ?_⟩
  · have hidle := hi.noHeaderJob k route hm
    have hk : k ≠ i := fun hk => hne (hk ▸ hidle part)
    exact (congrArg (·.job q) (setWork_other hk)).trans (hidle q)
  · have hidle := hi.noBodyJob k route wh hm
    by_cases hk : k = i
    · subst hk
      have hp : .body ≠ part := fun hp => hne (hp ▸ hidle)
      simpa [setWork, BlockWork.setJob_ne hp, hjob] using hidle
    · exact (congrArg (·.job .body) (setWork_other hk)).trans hidle

theorem Inv.announce (dec : BlockDecoder) (hi : f.Inv) (hm : f.main = .idle) (ann : BlockAnnouncement) (wanted : Bool) :
    (f.announce dec ann wanted).Inv := by
  have hidle : ∀ j, (f.works j).Inv false := fun j => by
    have h := hi.works j
    rw [hm] at h
    exact h
  obtain ⟨i, -, heq⟩ | ⟨m, heq, hm'⟩ | heq := f.announce_cases dec ann wanted
  · rw [heq]
    exact ⟨hidle, by simp, by simp, by simp⟩
  · rw [heq]
    have hc : ∀ j, m.willCheck j = false := by
      obtain ⟨route, rfl⟩ | ⟨route, rfl, -⟩ := hm' <;> exact fun _ => rfl
    have hnew : ∀ part, (newWork ann).job part = .idle := fun part => by cases ann <;> rfl
    refine ⟨forall_setWork.2 ⟨.newWork ann, fun j _ => ?_⟩, ?_, ?_, ?_⟩
    · rw [hc]
      exact hidle j
    · obtain ⟨route, rfl⟩ | ⟨route, rfl, -⟩ := hm' <;> simp
    · obtain ⟨route, rfl⟩ | ⟨route, rfl, -⟩ := hm' <;> simp [setWork, hnew]
    · obtain ⟨route, rfl⟩ | ⟨route, rfl, -⟩ := hm' <;> simp [setWork, hnew]
  · rw [heq]
    exact hi

theorem Inv.step {dec : BlockDecoder} {a : FetcherAct} (hi : f.Inv) (hok : f.CompletesOnce a)
    (h : f.step dec a = some f') : f'.Inv := by
  cases step_cases h with
  | announce hm => exact hi.announce dec hm _ _
  | main hs => exact hi.mainStep hok rfl hs
  | @addwork _ i wh hm =>
    refine ⟨fun j => (hi.works j).mono fun hc => ?_, ?_, ?_, ?_⟩
    · rw [hm] at hc
      cases hc
    all_goals cases wh <;> simp [propagates]
  | job signals hs => exact hi.job hok hs _ signals
  | rest hw =>
    exact ⟨fun j => (hi.works j).alike (hw j), hi.noBuild,
      fun j r hm part => (congrFun (hw j).job part).trans (hi.noHeaderJob j r hm part),
      fun j r wh hm => (congrFun (hw j).job .body).trans (hi.noBodyJob j r wh hm)⟩

theorem Inv.initial : BlockFetcher.initial.Inv :=
  ⟨fun _ => (BlockWork.Inv.newWork (.hash ⟨"", []⟩ 0)).alike ⟨_, _, _, _, rfl⟩, by simp [BlockFetcher.initial],
    by simp [BlockFetcher.initial], by simp [BlockFetcher.initial]⟩

/-! ## Every run -/

/-- **The work is completed once**: its block was handed over at most once;
when no handler of it is running, an assembled block has been handed over
and `onWorkDone` called; and if besides the main loop does not have the work
in hand, both parts make an assembled block. A handler that is running goes on
towards its end whenever it is not held up. -/
structure DoneOnce (dec : BlockDecoder) (f : BlockFetcher) (i : Nat) : Prop where
  once : (f.works i).handed.length ≤ 1
  handed : (∀ part, ((f.works i).job part).handling = false) → ∀ b, (f.works i).fblock = some b →
    (f.works i).handed = [b] ∧ 1 ≤ (f.works i).workDone
  assembled : (∀ part, ((f.works i).job part).handling = false) → f.main.holds i = false →
    (f.works i).header.isSome → (f.works i).body.isSome → (f.works i).fblock.isSome
  returns : ∀ part s pc, (f.works i).job part = .handler pc → (f.meets i s).Lets pc →
    ∃ f', f.step dec (.handle i part s) = some f' ∧ ((f'.works i).job part).stepsLeft < ((f.works i).job part).stepsLeft

theorem of_not_handling {j : JobState HandlerPc} (h : j.handling = false) :
    j.checking = false ∧ j.building = false ∧ j.finishing = false := by
  cases j with
  | handler pc => cases h
  | idle => exact ⟨rfl, rfl, rfl⟩
  | queued route => exact ⟨rfl, rfl, rfl⟩
  | running route => exact ⟨rfl, rfl, rfl⟩

theorem Inv.doneOnce (dec : BlockDecoder) (hi : f.Inv) (i : Nat) : f.DoneOnce dec i := by
  have h := hi.works i .header
  refine ⟨?_, fun hq b hb => ?_, fun hq hm hh hbd => ?_, fun part s pc hj hlets => ?_⟩
  · cases hb : (f.works i).fblock with
    | none =>
      rw [(h.unbuilt hb).1]
      exact Nat.zero_le _
    | some b =>
      obtain ⟨-, -, ⟨h3, -⟩ | ⟨h3, -⟩⟩ := h.built b hb
      · rw [h3]
        exact Nat.zero_le _
      · rw [h3]
        exact Nat.le_refl _
  · obtain ⟨-, -, ⟨-, h4⟩ | ⟨h3, h4, -⟩⟩ := h.built b hb
    · rw [(of_not_handling (hq _)).2.2, (of_not_handling (hq _)).2.2] at h4
      cases h4
    · exact ⟨h3, h4⟩
  · cases hb : (f.works i).fblock with
    | some b => rfl
    | none =>
      have hc : f.main.willCheck i = false := by
        cases hmain : f.main <;> simp_all [MainPc.willCheck, MainPc.holds]
      have h3 := h.assembled hb hh hbd
      rw [hc, (of_not_handling (hq .header)).1, (of_not_handling (hq .header)).2.1,
        (of_not_handling (hq (BlockPart.other .header))).1,
        (of_not_handling (hq (BlockPart.other .header))).2.1] at h3
      simp at h3
  · obtain ⟨v, j, heq, hs⟩ := (f.works i).handle_of_lets dec part hlets
    refine ⟨_, by simp only [BlockFetcher.step, hj, handleStep, heq, Option.map_some]; rfl, ?_⟩
    simpa [setWork, hj] using hs.stepsLeft

/-- **A block fetching work is completed exactly once**, in every run of the
fetcher whose steps spoil no work. -/
theorem work_completed_once (dec : BlockDecoder) {as : List FetcherAct} {f : BlockFetcher}
    (h : Run (BlockFetcher.step dec) CompletesOnce .initial as f) (i : Nat) : f.DoneOnce dec i :=
  (h.invariant (fun _ _ _ => Inv.step) .initial).doneOnce dec i

/-! ## Two runs -/

/-- The header of the block that is fetched below, and a decoder that knows
it and an empty body. -/
def fetchedSample : FetchedHeader := ⟨⟨7, 6, 1, 1, 0⟩, 2⟩

def sampleDecoder : BlockDecoder where
  header := fun obj => if obj = [1] then some fetchedSample else none
  body := fun obj => if obj = [2] then some ⟨[], []⟩ else none
  parseName := fun _ => []

/-- The hash is announced, the two jobs are submitted and the work listed,
and the workers begin. -/
def announcedSample : List FetcherAct :=
  [.announce (.hash ⟨"p", [⟨8, [112]⟩]⟩ 7) true, .main false, .main false, .main false, .run 0 .header, .run 0 .body]

/-- The job returns its part, writes it and comes through `buildblock`. -/
def fetchSample (part : BlockPart) (obj : UInt8) : List FetcherAct :=
  [.complete 0 part (.obj [obj]), .handle 0 part {}, .handle 0 part {}]

/-- A header announcement for the listed work, with the main loop's way to
the test of `buildblock`. -/
def headerSample : List FetcherAct :=
  [.announce (.header fetchedSample "q") false, .main false, .main false, .main false, .main false]

theorem work_completed_once_sample :
    ∃ as f, ((f.works 0).handed.length = 1 ∧ f.fetching 7 = none) ∧
      Run (BlockFetcher.step sampleDecoder) CompletesOnce .initial as f ∧ f.DoneOnce sampleDecoder 0 := by
  have hexec : (Lib.exec (BlockFetcher.step sampleDecoder) CompletesOnce .initial
      (announcedSample ++ headerSample ++ fetchSample .header 1 ++ fetchSample .body 2 ++
        [.handle 0 .body {}, .handle 0 .body {}, .handle 0 .body {}, .handle 0 .body {}, .signal])).map
      (fun f => ((f.works 0).handed.length, f.fetching 7)) = some (1, none) := by
    decide +kernel
  obtain ⟨f, hf, heq⟩ := Option.map_eq_some_iff.1 hexec
  exact ⟨_, f, Prod.mk.inj heq, .of_exec hf, work_completed_once _ (.of_exec hf) 0⟩

/-- The body is fetched, then the header is announced, and the main loop
builds the block; the header job comes too late. No job is left, and the
block is never handed over. -/
theorem work_never_completed :
    ∃ as f, Run (BlockFetcher.step sampleDecoder) Lib.anyStep .initial as f ∧ f.main = .idle ∧
      (∀ part, (f.works 0).job part = .idle) ∧ (f.works 0).fblock.isSome ∧ (f.works 0).handed = [] ∧
      (f.works 0).workDone = 0 := by
  have hexec : (Lib.exec (BlockFetcher.step sampleDecoder) Lib.anyStep .initial
      (announcedSample ++ fetchSample .body 2 ++ headerSample ++ [.main false] ++ fetchSample .header 1)).map
      (fun f => decide (f.main = .idle ∧ ((f.works 0).job .header = .idle ∧ (f.works 0).job .body = .idle) ∧
        (f.works 0).fblock.isSome ∧ (f.works 0).handed = [] ∧ (f.works 0).workDone = 0)) = some true := by
    decide +kernel
  obtain ⟨f, hf, heq⟩ := Option.map_eq_some_iff.1 hexec
  obtain ⟨hm, ⟨hh, hb⟩, hrest⟩ := of_decide_eq_true heq
  refine ⟨_, f, .of_exec hf, hm, fun part => ?_, hrest⟩
  cases part with
  | header => exact hh
  | body => exact hb

end BlockFetcher

end NdnGeth.Eth
