/-
  Flowly.Goals.Readable — the file of a goal over every run of its controls and its
  evaluations (`flowly/goals/store.py`: `update`).

  A change is a control, or one of the commits of `evaluate_after_turn` on a record that it
  read. `update` replaces the file before it reads the record back, so a record out of the
  reader's limits stays in the file and every later operation raises.

  Proved: in every run in which what a change assigns is within the limits (`Fits`), the
  file is readable, at most one wait target is set, only while the goal is active, and
  every update that replaces the file returns what is read back, up to the reasons
  (`goal_records_readable`). One long run id makes the record unreadable
  (`a_run_id_is_too_long`).
-/

import Flowly.Goals.Budget
import Flowly.Goals.Records

namespace Flowly.Goals

open Flowly.Lib Flowly.Lib.Checked

/-! ## Changes -/

inductive Commitment where
  | interrupted
  | compactionFailed
  | failed (reason : String) (runId : Option String)
  | released
  | consumed (runId : Option String)
  | gateRan (index : Nat) (gate : GoalGate) (result : GateResult)
  | exhausted
  | judged (answer : JudgeAnswer)

def Commitment.mutation (now : Int) : Commitment → GoalState → Except GoalError GoalState
  | .interrupted, state => .ok (pauseState state "turn interrupted")
  | .compactionFailed, state => recordCompactionFailure state
  | .failed reason runId, state => recordTurnFailure reason runId state
  | .released, state => .ok state.clearWait
  | .consumed runId, state => consumeTurn now runId state
  | .gateRan index gate result, state => applyGate index gate result state
  | .exhausted, state => .ok (pauseState state (budgetExhausted state))
  | .judged answer, state =>
    applyJudgeResult now (Evaluation.judged answer).1 (Evaluation.judged answer).2.1 (Evaluation.judged answer).2.2 state

/-- The commit does not look whether the record is active: the evaluation has. -/
def Commitment.unchecked : Commitment → Bool
  | .interrupted | .released | .gateRan .. | .exhausted => true
  | _ => false

inductive Change where
  | operate (o : Outside) (op : Operation)
  /-- On `base`, which the evaluation read. -/
  | evaluate (now : Int) (base : GoalState) (c : Commitment)

/-! ## The file -/

structure GoalFile where
  record : Option GoalRecord := none
  /-- Ghost: the committed records as they are read back, the newest first. -/
  committed : List GoalState := []
  deriving DecidableEq

/-- `_clone`, and what reading the file does. -/
def copyOf (casefold : String → String) : Option GoalState → Except GoalError (Option GoalState)
  | none => .ok none
  | some s => (s.toDict.read casefold).map some

namespace GoalFile

variable (casefold : String → String)

/-- `_read_current`. -/
def read (f : GoalFile) : Except GoalError (Option GoalState) :=
  match f.record with
  | none => .ok none
  | some r => (r.read casefold).map some

/-- `_write`, and the clone that `update` returns. -/
def commit (f : GoalFile) (current : Option GoalState) (now : Int) (updated : GoalState) : Except GoalError GoalState × GoalFile :=
  let updated := { updated with revision := (current.map GoalState.revision).getD 0 + 1, updatedAt := now }
  match updated.toDict.read casefold with
  | .error e => (.error e, { f with record := some updated.toDict })
  | .ok saved => (.ok saved, { record := some updated.toDict, committed := saved :: f.committed })

/-- `update`: what it returns or raises, and the file. -/
def update (f : GoalFile) (now : Int) (mutation : Option GoalState → Except GoalError GoalState)
    (expectedGoalId : Option String) (expectedRevision : Option Nat) : Except GoalError GoalState × GoalFile :=
  match f.read casefold with
  | .error _ => (.error (.runtime "invalid goal state"), f)
  | .ok current =>
    match GoalStore.checkPreconditions current expectedGoalId expectedRevision, copyOf casefold current with
    | .error e, _ => (.error e, f)
    | _, .error e => (.error e, f)
    | .ok (), .ok working =>
      match mutation working with
      | .error e => (.error e, f)
      | .ok updated => f.commit casefold current now updated

def compareAndUpdate (f : GoalFile) (now : Int) (snapshot : GoalState) (mutation : GoalState → Except GoalError GoalState) :
    Except GoalError GoalState × GoalFile :=
  f.update casefold now
    (fun current =>
      match current with
      | none => .error (.conflict "goal no longer exists")
      | some state => mutation state)
    (some snapshot.goalId) (some snapshot.revision)

def change (f : GoalFile) : Change → Except GoalError GoalState × GoalFile
  | .operate o op => f.update casefold o.now (op.mutation { o with casefold }) op.expectedGoalId op.expectedRevision
  | .evaluate now base c => f.compareAndUpdate casefold now base (c.mutation now)

def next (f : GoalFile) (c : Change) : GoalFile := (f.change casefold c).2

end GoalFile

/-! ## What fits -/

/-- The contracts were made by the constructor, which checks them, and a conversation epoch
    is in the range. -/
def Operation.Fits : Operation → Prop
  | .set _ _ _ contract _ _ | .attachContract _ contract => contract.Stored
  | .clear epoch _ _ => ∀ n ∈ epoch, n ≤ 2 ^ 63 - 1
  | _ => True

/-- A wait has a target that `set_wait` takes. -/
def Takes (r : GoalJudgeResult) : Prop :=
  ∃ target, r.wait = some target ∧ ∀ (state : GoalState) (now : Int), ∃ w,
    state.setWait now (deadlineAt now target) r.reason = .ok { state with wait := some w }

/-- The judge's answer is one that a reply comes to. -/
def JudgeAnswer.Fits : JudgeAnswer → Prop
  | .result r => r.verdict ∈ judgeVerdicts ∧ r.reason ≠ "" ∧ (r.verdict = .wait → Takes r)
  | .parseError _ | .transportError _ => True

/-- What a commit assigns to the record it finds. -/
def Commitment.Fits (base : GoalState) : Commitment → Prop
  | .failed _ runId => CleanRunId runId
  | .consumed runId => CleanRunId runId ∧ base.turnsUsed < 1000000
  | .gateRan index _ result =>
    result.outputTail.toList.length ≤ maxGateOutputChars ∧ result.fingerprint.toList.length ≤ 128 ∧
      (result.passed = false → ∀ g ∈ base.gates[index]?, g.attempts < 1000000)
  | .judged answer => answer.Fits
  | _ => True

/-- An evaluation commits on a record that it read and that was active then; and what a
    change that is applied assigns is within the limits. -/
def GoalFile.Fits (f : GoalFile) : Change → Prop
  | .operate o op => 0 ≤ o.now ∧ op.Fits ∧ ∀ s ∈ f.committed.head?, s.revision < 2 ^ 63 - 1
  | .evaluate now base c => base ∈ f.committed ∧ (c.unchecked = true → base.status = .active) ∧
      (f.committed.head? = some base → base.status = .active → 0 ≤ now ∧ base.revision < 2 ^ 63 - 1 ∧ c.Fits base)

/-! ## The limits are kept -/

section
variable {casefold : String → String} {s u : GoalState} {now : Int}

/-- The commit's own fields. -/
theorem GoalState.Stored.stamp (h : s.Stored casefold) {n : Nat} (hn : n ≤ 2 ^ 63 - 1) (hnow : 0 ≤ now) :
    ({ s with revision := n, updatedAt := now } : GoalState).Stored casefold :=
  { h with
    revision := hn
    updated := hnow
    counted := { h.counted with } }

theorem pauseState_stored (h : s.Stored casefold) (hnamed : s.status ≠ .cleared) (reason : String) :
    (pauseState s reason).Stored casefold :=
  { h with
    named := fun _ => h.named hnamed
    counted := ⟨h.counted.bounded, fun hlive => h.counted.live (hlive.elim (fun hpaused => by cases hpaused) .inr)⟩
    wait := nofun }

theorem clearWait_stored (h : s.Stored casefold) : s.clearWait.Stored casefold :=
  { h with
    counted := { h.counted with }
    wait := nofun }

theorem setWait_stored (h : s.Stored casefold) (hact : s.status = .active) (hnow : 0 ≤ now) {target : WaitTarget}
    {reason : String} (hw : s.setWait now target reason = .ok u) : u.Stored casefold := by
  have hwaits : ∀ t : WaitTarget, t.Stored → ({ s with wait := some ⟨t, cleanOptional maxReasonChars (some reason), now⟩ } :
      GoalState).Stored casefold := fun t ht =>
    { h with
      counted := { h.counted with }
      wait := by
        rintro w ⟨⟩
        exact ⟨ht, hnow, hact⟩ }
  unfold GoalState.setWait at hw
  cases target with
  | pid n =>
    dsimp only at hw
    split at hw
    · cases hw
    · rename_i hpos
      cases hw
      exact hwaits (.pid n) (Int.not_le.1 hpos)
  | session id =>
    dsimp only at hw
    cases hid : cleanText id 1000 "wait session" with
    | error e =>
      rw [hid] at hw
      cases hw
    | ok id' =>
      rw [hid] at hw
      dsimp only at hw
      split at hw
      · cases hw
      · rename_i hne
        cases hw
        exact hwaits (.session id') ⟨cleanText_ok hid, hne⟩
  | time deadline =>
    dsimp only at hw
    split at hw
    · cases hw
    · rename_i hlater
      cases hw
      exact hwaits (.time deadline) (Int.lt_of_le_of_lt hnow (Int.not_le.1 hlater))

theorem popAt_sublist {α : Type} {xs ys : List α} {index1 : Int} {message : String} (h : popAt xs index1 message = .ok ys) :
    ys.Sublist xs := by
  unfold popAt at h
  split at h
  · cases h
  · cases h
    exact List.eraseIdx_sublist ..

theorem SubgoalsStored.sublist {xs ys : List String} (h : SubgoalsStored casefold xs) (hs : ys.Sublist xs) :
    SubgoalsStored casefold ys :=
  ⟨fun x hx => h.clean x (hs.subset hx), h.distinct.sublist (hs.map _), hs.length_le.trans h.bounded⟩

theorem make_stored {command : String} {timeoutSeconds maxRetries : Int} {gate : GoalGate}
    (h : GoalGate.make command timeoutSeconds maxRetries = .ok gate) : gate.Stored := by
  simp only [GoalGate.make, bind_ok, guard_ok, pure_ok] at h
  obtain ⟨text, htext, hne, rfl⟩ := h
  refine ⟨⟨cleanText_ok htext, hne⟩, ?_, ?_, Nat.zero_le _, Nat.zero_le _, Nat.zero_le _⟩
  · show 1 ≤ boundedInt timeoutSeconds 1 3600 ∧ boundedInt timeoutSeconds 1 3600 ≤ 3600
    unfold boundedInt
    omega
  · show boundedInt maxRetries 0 100 ≤ 100
    unfold boundedInt
    omega

theorem counted_zero {s : GoalState} (h : s.consecutiveParseFailures = 0 ∧ s.consecutiveTransportFailures = 0 ∧
    s.consecutiveCompactionFailures = 0) : s.Counted := by
  obtain ⟨hparse, htransport, hcompaction⟩ := h
  constructor
  · rw [hparse, htransport, hcompaction]
    decide
  · intro _
    rw [hparse, htransport, hcompaction]
    decide

theorem Clean.empty (limit : Nat) : Clean limit "" := ⟨rfl, Nat.zero_le _⟩

theorem GoalContract.Stored.empty : ({} : GoalContract).Stored :=
  ⟨.empty _, .empty _, .empty _, .empty _, .empty _⟩

/-- A control keeps the record within the limits. -/
theorem Operation.mutation_stored {o : Outside} {op : Operation} {current : Option GoalState} (hnow : 0 ≤ o.now) (hfits : op.Fits)
    (hs : ∀ s ∈ current, s.Stored o.casefold) (h : op.mutation o current = .ok u) : u.Stored o.casefold := by
  cases op with
    simp only [mutation, bind_ok, guard_ok, pure_ok, requireGoal_ok, requireLiveGoal_ok, requireActiveGoal_ok, not_or, not_not] at h
  | set goal goalId maxTurns contract epoch run =>
    obtain ⟨text, htext, hne, runId, hrun, rfl⟩ := h
    have hnone {α : Type} {P : α → Prop} : ∀ x ∈ (none : Option α), P x := fun _ hx => by cases hx
    have hnil {α : Type} {P : α → Prop} : ∀ x ∈ ([] : List α), P x := fun _ hx => by cases hx
    refine ⟨cleanText_ok htext, fun _ => hne, Nat.zero_le _, ?_, Nat.zero_le _, ?_, hnow, hnow, Int.le_refl _, hnone, hnone,
      cleanRunId_ok hrun, counted_zero ⟨rfl, rfl, rfl⟩, ⟨hnil, List.nodup_nil, Nat.zero_le _⟩, hnone, hfits, Nat.zero_le _, hnil⟩
    · show boundedInt epoch 0 (2 ^ 63 - 1) ≤ 2 ^ 63 - 1
      unfold boundedInt
      omega
    · show 1 ≤ boundedInt maxTurns 1 10000 ∧ boundedInt maxTurns 1 10000 ≤ 10000
      unfold boundedInt
      omega
  | pause reason g n =>
    obtain ⟨s, rfl, hlive, rfl⟩ := h
    exact pauseState_stored (hs s rfl) hlive reason
  | resume g n =>
    obtain ⟨s, rfl, hlive, rfl⟩ := h
    exact { hs s rfl with
      named := fun _ => (hs s rfl).named hlive
      turns := Nat.zero_le _
      counted := counted_zero ⟨rfl, rfl, rfl⟩
      wait := fun _ h => by cases h }
  | resumeForUserInput =>
    obtain ⟨s, rfl, ⟨hpaused, hinput⟩, rfl⟩ := h
    exact { hs s rfl with
      named := fun _ => (hs s rfl).named (by rw [hpaused]; decide)
      counted := ⟨(hs s rfl).counted.bounded, fun _ => (hs s rfl).counted.live (.inr hinput)⟩
      wait := fun w hw => by
        have := ((hs s rfl).wait w hw).2.2
        rw [hpaused] at this
        cases this }
  | clear epoch g n =>
    obtain ⟨s, rfl, rfl⟩ := h
    exact { hs s rfl with
      goal := .empty _
      named := fun hlive => absurd rfl hlive
      epoch := by
        cases epoch with
        | none => exact (hs s rfl).epoch
        | some n => exact hfits n rfl
      counted := counted_zero ⟨rfl, rfl, rfl⟩
      subgoals := ⟨List.forall_mem_nil _, List.nodup_nil, Nat.zero_le _⟩
      wait := fun _ h => by cases h
      contract := .empty
      gates := ⟨Nat.zero_le _, fun _ h => by cases h⟩ }
  | attachContract goalId contract =>
    obtain ⟨s, ⟨rfl, hlive⟩, _, rfl⟩ := h
    exact { hs s rfl with
      counted := { (hs s rfl).counted with }
      contract := hfits }
  | addSubgoal criterion =>
    obtain ⟨s, ⟨rfl, hlive⟩, _, subgoals, hsubgoals, rfl⟩ := h
    exact { hs s rfl with
      counted := { (hs s rfl).counted with }
      subgoals := cleanUniqueStrings_ok hsubgoals }
  | removeSubgoal index1 =>
    obtain ⟨s, ⟨rfl, hlive⟩, subgoals, hpop, rfl⟩ := h
    exact { hs s rfl with
      counted := { (hs s rfl).counted with }
      subgoals := (hs s rfl).subgoals.sublist (popAt_sublist hpop) }
  | clearSubgoals =>
    obtain ⟨s, ⟨rfl, hlive⟩, rfl⟩ := h
    exact { hs s rfl with
      counted := { (hs s rfl).counted with }
      subgoals := ⟨List.forall_mem_nil _, List.nodup_nil, Nat.zero_le _⟩ }
  | addGate command timeoutSeconds maxRetries =>
    obtain ⟨gate, hgate, s, ⟨rfl, hlive⟩, hroom, rfl⟩ := h
    exact { hs s rfl with
      counted := { (hs s rfl).counted with }
      gates := by
        refine ⟨?_, fun g hg => ?_⟩
        · rw [List.length_append]
          exact Nat.not_le.1 hroom
        · obtain hg | hg := List.mem_append.1 hg
          · exact (hs s rfl).gates.2 g hg
          · rw [List.mem_singleton.1 hg]
            exact make_stored hgate }
  | removeGate index1 =>
    obtain ⟨s, ⟨rfl, hlive⟩, gates, hpop, rfl⟩ := h
    have hsub := popAt_sublist hpop
    exact { hs s rfl with
      counted := { (hs s rfl).counted with }
      gates := ⟨hsub.length_le.trans (hs s rfl).gates.1, fun g hg => (hs s rfl).gates.2 g (hsub.subset hg)⟩ }
  | clearGates =>
    obtain ⟨s, ⟨rfl, hlive⟩, rfl⟩ := h
    exact { hs s rfl with
      counted := { (hs s rfl).counted with }
      gates := ⟨Nat.zero_le _, fun _ h => by cases h⟩ }
  | waitOn target reason =>
    obtain ⟨s, ⟨rfl, hact⟩, h⟩ := h
    exact setWait_stored (hs s rfl) hact hnow h
  | stopWaiting =>
    obtain ⟨s, ⟨rfl, hlive⟩, rfl⟩ := h
    exact clearWait_stored (hs s rfl)
  | waitingState =>
    obtain ⟨s, rfl, _, rfl⟩ := h
    exact clearWait_stored (hs s rfl)

variable {result : GoalJudgeResult} {parseFailed transportFailed : Bool}

/-- The verdict is noted, and no failure has come up to its limit. -/
theorem noteVerdict_stored (h : s.Stored casefold) (hact : s.status = .active)
    (hparse : parseFailed = true → s.consecutiveParseFailures + 1 < maxParseFailures)
    (htransport : transportFailed = true → s.consecutiveTransportFailures + 1 < maxTransportFailures) :
    (noteVerdict result parseFailed transportFailed s).Stored casefold := by
  have hlimits : (noteVerdict result parseFailed transportFailed s).consecutiveParseFailures < maxParseFailures ∧
      (noteVerdict result parseFailed transportFailed s).consecutiveTransportFailures < maxTransportFailures ∧
      (noteVerdict result parseFailed transportFailed s).consecutiveCompactionFailures < maxCompactionFailures := by
    refine ⟨?_, ?_, (h.counted.live (.inl hact)).2.2⟩
    · show (if parseFailed = true then _ else _) < _
      split
      · exact hparse ‹_›
      · decide
    · show (if transportFailed = true then _ else _) < _
      split
      · exact htransport ‹_›
      · decide
  exact { h with
    counted := ⟨⟨hlimits.1.le, hlimits.2.1.le, hlimits.2.2.le⟩, fun _ => hlimits⟩ }

/-- The failure that comes up to its limit pauses the goal. -/
theorem pause_noted_stored (h : s.Stored casefold) (hact : s.status = .active) (hverdict : result.verdict ≠ .needsInput)
    (reason : String) : (pauseState (noteVerdict result parseFailed transportFailed s) reason).Stored casefold := by
  obtain ⟨hparse, htransport, hcompaction⟩ := h.counted.live (.inl hact)
  exact { h with
    named := fun _ => h.named (by rw [hact]; decide)
    counted := by
      refine ⟨⟨?_, ?_, hcompaction.le⟩, ?_⟩
      · show (if parseFailed = true then _ else _) ≤ _
        split
        · exact hparse
        · exact Nat.zero_le _
      · show (if transportFailed = true then _ else _) ≤ _
        split
        · exact htransport
        · exact Nat.zero_le _
      · rintro (hpaused | hinput)
        · cases hpaused
        · exact absurd (Option.some.inj hinput) hverdict
    wait := fun _ h => by cases h }

theorem applyJudgeResult_stored (hn : (noteVerdict result parseFailed transportFailed s).Stored casefold) (hnow : 0 ≤ now)
    (hj : applyJudgeResult now result parseFailed transportFailed s = .ok u) : u.Stored casefold := by
  simp only [applyJudgeResult, guard_ok, Bool.not_eq_true', Bool.not_eq_false, isActive_iff] at hj
  obtain ⟨hact, hj⟩ := hj
  have hnoted : (noteVerdict result parseFailed transportFailed s).status = .active := hact
  generalize noteVerdict result parseFailed transportFailed s = noted at hj hn hnoted
  have hlive : noted.status ≠ .cleared := by rw [hnoted]; decide
  split at hj
  · simp only [pure_ok] at hj
    subst hj
    exact { hn with
      named := fun _ => hn.named hlive
      counted := ⟨hn.counted.bounded, fun _ => hn.counted.live (.inl hnoted)⟩
      wait := fun _ h => by cases h }
  · split at hj
    · cases hj
    · exact setWait_stored hn hnoted hnow hj
    · exact setWait_stored hn hnoted hnow hj
  · simp only [pure_ok] at hj
    subst hj
    exact pauseState_stored hn hlive _
  · simp only [pure_ok] at hj
    subst hj
    split
    · exact pauseState_stored hn hlive _
    split
    · exact pauseState_stored hn hlive _
    split
    · exact pauseState_stored hn hlive _
    · exact hn

/-- A failure of the judge, also the one that pauses the goal. -/
theorem judged_failure_stored (h : s.Stored casefold) (hnow : 0 ≤ now) (hverdict : result.verdict = .continues)
    (hj : applyJudgeResult now result parseFailed transportFailed s = .ok u) : u.Stored casefold := by
  by_cases hfew : (parseFailed = true → s.consecutiveParseFailures + 1 < maxParseFailures) ∧
      (transportFailed = true → s.consecutiveTransportFailures + 1 < maxTransportFailures)
  · have hact := (applyJudgeResult_ok hj).1
    exact applyJudgeResult_stored (noteVerdict_stored h hact hfew.1 hfew.2) hnow hj
  · simp only [applyJudgeResult, guard_ok, Bool.not_eq_true', Bool.not_eq_false, isActive_iff, hverdict, pure_ok] at hj
    obtain ⟨hact, rfl⟩ := hj
    have hpaused : ∀ reason, (pauseState (noteVerdict result parseFailed transportFailed s) reason).Stored casefold :=
      pause_noted_stored h hact (by rw [hverdict]; decide)
    split
    · exact hpaused _
    rename_i htransport
    split
    · exact hpaused _
    rename_i hparse
    refine absurd ⟨fun hp => ?_, fun ht => ?_⟩ hfew
    · simpa only [noteVerdict, hp, if_true, not_le] using hparse
    · simpa only [noteVerdict, ht, if_true, not_le] using htransport

theorem gateAfter_stored {target : GoalGate} (h : target.Stored) {result : GateResult}
    (htail : result.outputTail.toList.length ≤ maxGateOutputChars) (hprint : result.fingerprint.toList.length ≤ 128)
    (hfew : result.passed = false → target.attempts < 1000000) : (gateAfter result target).Stored := by
  unfold gateAfter
  split
  · exact { h with attempts := Nat.zero_le _, tail := htail, fingerprint := Nat.zero_le _ }
  · rename_i hfailed
    exact { h with attempts := hfew (by simpa using hfailed), tail := htail, fingerprint := hprint }

theorem applyGate_stored (h : s.Stored casefold) (hlive : s.status ≠ .cleared) {index : Nat} {gate : GoalGate} {result : GateResult}
    (htail : result.outputTail.toList.length ≤ maxGateOutputChars) (hprint : result.fingerprint.toList.length ≤ 128)
    (hfew : result.passed = false → ∀ g ∈ s.gates[index]?, g.attempts < 1000000)
    (hg : applyGate index gate result s = .ok u) : u.Stored casefold := by
  unfold applyGate at hg
  split at hg
  · cases hg
  · rename_i target htarget
    split at hg
    · cases hg
    have hafter : ({ s with gates := s.gates.set index (gateAfter result target) } : GoalState).Stored casefold :=
      { h with
        counted := { h.counted with }
        gates := by
          refine ⟨by rw [List.length_set]; exact h.gates.1, fun g hmem => ?_⟩
          obtain hmem | rfl := List.mem_or_eq_of_mem_set hmem
          · exact h.gates.2 g hmem
          · exact gateAfter_stored (h.gates.2 target (List.mem_of_getElem? htarget)) htail hprint fun hp => hfew hp target htarget }
    cases hg
    split
    · exact pauseState_stored hafter hlive _
    · exact hafter

/-- A commit is made on an active goal only. -/
theorem Commitment.mutation_active {c : Commitment} (hlook : c.unchecked = true → s.status = .active)
    (hc : c.mutation now s = .ok u) : s.status = .active := by
  cases c with
  | interrupted | released | gateRan | exhausted => exact hlook rfl
  | consumed runId => exact (consumeTurn_ok.1 hc).1
  | failed reason runId =>
    simp only [mutation, recordTurnFailure, guard_ok, Bool.not_eq_true', Bool.not_eq_false, isActive_iff] at hc
    exact hc.1
  | compactionFailed =>
    simp only [mutation, recordCompactionFailure, guard_ok, Bool.not_eq_true', Bool.not_eq_false, isActive_iff] at hc
    exact hc.1
  | judged answer => exact (applyJudgeResult_ok hc).1

/-- A commit keeps the record within the limits. -/
theorem Commitment.mutation_stored {c : Commitment} (h : s.Stored casefold) (hnow : 0 ≤ now)
    (hact : c.unchecked = true → s.status = .active) (hfits : s.status = .active → c.Fits s)
    (hc : c.mutation now s = .ok u) : u.Stored casefold := by
  cases c with
  | interrupted =>
    cases hc
    exact pauseState_stored h (by rw [hact rfl]; decide) _
  | released =>
    cases hc
    exact clearWait_stored h
  | exhausted =>
    cases hc
    exact pauseState_stored h (by rw [hact rfl]; decide) _
  | gateRan index gate result =>
    obtain ⟨htail, hprint, hfew⟩ := hfits (hact rfl)
    exact applyGate_stored h (by rw [hact rfl]; decide) htail hprint hfew hc
  | consumed runId =>
    obtain ⟨hactive, rfl⟩ := consumeTurn_ok.1 hc
    obtain ⟨hrun, hroom⟩ := hfits hactive
    obtain ⟨hparse, htransport, -⟩ := h.counted.live (.inl hactive)
    exact { h with
      turns := hroom
      lastTurn := hnow
      lastRun := hrun
      counted := ⟨⟨hparse.le, htransport.le, Nat.zero_le _⟩, fun _ => ⟨hparse, htransport, Nat.zero_lt_two⟩⟩ }
  | failed reason runId =>
    simp only [mutation, recordTurnFailure, guard_ok, pure_ok, Bool.not_eq_true', Bool.not_eq_false, isActive_iff] at hc
    obtain ⟨hactive, rfl⟩ := hc
    exact { h with
      named := fun _ => h.named (by rw [hactive]; decide)
      lastFailedRun := hfits hactive
      counted := ⟨h.counted.bounded, fun _ => h.counted.live (.inl hactive)⟩
      wait := fun _ h => by cases h }
  | compactionFailed =>
    simp only [mutation, recordCompactionFailure, guard_ok, pure_ok, Bool.not_eq_true', Bool.not_eq_false, isActive_iff] at hc
    obtain ⟨hactive, rfl⟩ := hc
    obtain ⟨hparse, htransport, hcompaction⟩ := h.counted.live (.inl hactive)
    split
    · exact { h with
        named := fun _ => h.named (by rw [hactive]; decide)
        counted := by
          refine ⟨⟨hparse.le, htransport.le, hcompaction⟩, ?_⟩
          rintro (hpaused | hinput)
          · cases hpaused
          · cases hinput
        wait := fun _ h => by cases h }
    · rename_i hfew
      exact { h with
        counted := ⟨⟨hparse.le, htransport.le, hcompaction⟩, fun _ => ⟨hparse, htransport, Nat.not_le.1 hfew⟩⟩ }
  | judged answer =>
    cases answer with
    | result r =>
      have hc : applyJudgeResult now r false false s = .ok u := hc
      have hn : (noteVerdict r false false s).Stored casefold :=
        noteVerdict_stored h (applyJudgeResult_ok hc).1 (fun h => by cases h) (fun h => by cases h)
      exact applyJudgeResult_stored hn hnow hc
    | parseError message =>
      have hc : applyJudgeResult now { verdict := .continues, reason := message } true false s = .ok u := hc
      exact judged_failure_stored h hnow rfl hc
    | transportError message =>
      have hc : applyJudgeResult now { verdict := .continues, reason := message } false true s = .ok u := hc
      exact judged_failure_stored h hnow rfl hc

theorem applyJudgeResult_raises {e : GoalError} (hwaits : s.status = .active → result.verdict = .wait → Takes result)
    (hj : applyJudgeResult now result parseFailed transportFailed s = .error e) : ∃ message, e = .conflict message := by
  unfold applyJudgeResult at hj
  cases hact : s.isActive with
  | false =>
    rw [hact] at hj
    cases hj
    exact ⟨_, rfl⟩
  | true =>
    rw [hact, if_neg nofun] at hj
    dsimp only at hj
    split at hj
    · cases hj
    · rename_i hverdict
      obtain ⟨target, htarget, htakes⟩ := hwaits (isActive_iff.1 hact) hverdict
      obtain ⟨w, hset⟩ := htakes (noteVerdict result parseFailed transportFailed s) now
      rw [htarget] at hj
      cases target <;> exact nomatch hset.symm.trans hj
    · cases hj
    · cases hj

/-- A commit raises nothing but a conflict. -/
theorem Commitment.mutation_raises {c : Commitment} {e : GoalError} (hfits : s.status = .active → c.Fits s)
    (hc : c.mutation now s = .error e) : ∃ message, e = .conflict message := by
  cases c with
  | interrupted | released | exhausted => cases hc
  | gateRan index gate result =>
    have hc : applyGate index gate result s = .error e := hc
    unfold applyGate at hc
    split at hc
    · cases hc
      exact ⟨_, rfl⟩
    · split at hc
      · cases hc
        exact ⟨_, rfl⟩
      · cases hc
  | consumed | failed | compactionFailed => exact ⟨_, (guard_raises hc).symm⟩
  | judged answer =>
    cases answer with
    | result r =>
      have hc : applyJudgeResult now r false false s = .error e := hc
      exact applyJudgeResult_raises (fun hact => (hfits hact).2.2) hc
    | parseError message =>
      have hc : applyJudgeResult now { verdict := .continues, reason := message } true false s = .error e := hc
      exact applyJudgeResult_raises (fun _ (hwait : GoalVerdict.continues = .wait) => by cases hwait) hc
    | transportError message =>
      have hc : applyJudgeResult now { verdict := .continues, reason := message } false true s = .error e := hc
      exact applyJudgeResult_raises (fun _ (hwait : GoalVerdict.continues = .wait) => by cases hwait) hc

end

/-! ## Every run -/

namespace GoalFile

variable {casefold : String → String} {f : GoalFile}

/-- The file has the record that was committed last, within the limits. -/
structure Inv (casefold : String → String) (f : GoalFile) : Prop where
  versions : Versioned (·.revision) f.committed
  current : f.record = none ∧ f.committed = [] ∨ ∃ s : GoalState, s.Stored casefold ∧ f.record = some s.toDict ∧
    f.committed.head? = some s.truncated

/-- The file is replaced, by a record that is read back, up to the reasons, and returned. -/
def Replaced (casefold : String → String) (result : Except GoalError GoalState × GoalFile) : Prop :=
  ∃ updated : GoalState, result.2.record = some updated.toDict ∧ updated.toDict.read casefold = .ok updated.truncated ∧
    result.1 = .ok updated.truncated

def Faithful (casefold : String → String) (f : GoalFile) (result : Except GoalError GoalState × GoalFile) : Prop :=
  result.2 = f ∨ Replaced casefold result

theorem Inv.start : Inv casefold {} := ⟨List.Pairwise.nil, .inl ⟨rfl, rfl⟩⟩

/-- What an update reads, and the copy that it gives to the mutation. -/
theorem Inv.read (hi : Inv casefold f) : f.read casefold = .ok f.committed.head? ∧
    copyOf casefold f.committed.head? = .ok (f.committed.head?.map GoalState.truncated) := by
  unfold GoalFile.read
  obtain ⟨hnone, hempty⟩ | ⟨s, hs, hrecord, hhead⟩ := hi.current
  · rw [hnone, hempty]
    exact ⟨rfl, rfl⟩
  · have hcopy : copyOf casefold (some s.truncated) = .ok (some s.truncated.truncated) := by
      unfold copyOf
      dsimp only
      rw [read_toDict hs.truncated]
      rfl
    rw [hrecord, hhead]
    dsimp only
    rw [read_toDict hs]
    exact ⟨rfl, hcopy⟩

/-- The record that the file is read as. -/
theorem Inv.stored (hi : Inv casefold f) {s : GoalState} (hs : f.committed.head? = some s) : s.Stored casefold := by
  obtain ⟨-, hempty⟩ | ⟨t, ht, -, hhead⟩ := hi.current
  · rw [hempty] at hs
    cases hs
  · rw [hhead] at hs
    rw [← Option.some.inj hs]
    exact ht.truncated

variable {now : Int}

/-- A mutation that keeps the limits, committed. -/
theorem Inv.commit (hi : Inv casefold f) {updated : GoalState}
    (hroom : ∀ s ∈ f.committed.head?, s.revision < 2 ^ 63 - 1) (hnow : 0 ≤ now) (hu : updated.Stored casefold) :
    Replaced casefold (f.commit casefold f.committed.head? now updated) ∧
      Inv casefold (f.commit casefold f.committed.head? now updated).2 := by
  have hbound : (f.committed.head?.map GoalState.revision).getD 0 + 1 ≤ 2 ^ 63 - 1 := by
    cases hhead : f.committed.head? with
    | none => decide
    | some s => exact hroom s hhead
  have hstamped := hu.stamp hbound hnow
  unfold GoalFile.commit
  dsimp only
  rw [read_toDict hstamped]
  refine ⟨⟨_, rfl, read_toDict hstamped, rfl⟩, ?_, .inr ⟨_, hstamped, rfl, rfl⟩⟩
  refine hi.versions.push fun s hs => ?_
  show s.revision < (f.committed.head?.map GoalState.revision).getD 0 + 1
  rw [hs]
  exact Nat.lt_succ_self _

/-- What an update does with a file that is readable. -/
theorem Inv.update_eq (hi : Inv casefold f) (now : Int) (mutation : Option GoalState → Except GoalError GoalState)
    (expectedGoalId : Option String) (expectedRevision : Option Nat) :
    f.update casefold now mutation expectedGoalId expectedRevision =
      match GoalStore.checkPreconditions f.committed.head? expectedGoalId expectedRevision,
        mutation (f.committed.head?.map GoalState.truncated) with
      | .error e, _ => (.error e, f)
      | .ok _, .error e => (.error e, f)
      | .ok _, .ok updated => f.commit casefold f.committed.head? now updated := by
  obtain ⟨hread, hcopy⟩ := hi.read
  unfold GoalFile.update
  rw [hread]
  dsimp only
  rw [hcopy]
  cases GoalStore.checkPreconditions f.committed.head? expectedGoalId expectedRevision with
  | error e => rfl
  | ok checked =>
    dsimp only
    cases mutation (f.committed.head?.map GoalState.truncated) <;> rfl

/-- An update whose mutation keeps the limits of the record it finds. -/
theorem Inv.update (hi : Inv casefold f) {mutation : Option GoalState → Except GoalError GoalState}
    {expectedGoalId : Option String} {expectedRevision : Option Nat}
    (hm : ∀ updated, GoalStore.checkPreconditions f.committed.head? expectedGoalId expectedRevision = .ok () →
      mutation (f.committed.head?.map GoalState.truncated) = .ok updated →
      updated.Stored casefold ∧ 0 ≤ now ∧ ∀ s ∈ f.committed.head?, s.revision < 2 ^ 63 - 1) :
    Faithful casefold f (f.update casefold now mutation expectedGoalId expectedRevision) ∧
      Inv casefold (f.update casefold now mutation expectedGoalId expectedRevision).2 := by
  rw [hi.update_eq]
  split
  · exact ⟨.inl rfl, hi⟩
  · exact ⟨.inl rfl, hi⟩
  · rename_i updated hpre hupdated
    obtain ⟨hu, hnow, hroom⟩ := hm updated hpre hupdated
    obtain ⟨hreplaced, hi'⟩ := hi.commit hroom hnow hu
    exact ⟨.inr hreplaced, hi'⟩

theorem checkPreconditions_raises {state : Option GoalState} {expectedGoalId : Option String} {expectedRevision : Option Nat}
    {e : GoalError} (h : GoalStore.checkPreconditions state expectedGoalId expectedRevision = .error e) :
    ∃ message, e = .conflict message := by
  unfold GoalStore.checkPreconditions at h
  split_ifs at h
  · cases h
    exact ⟨_, rfl⟩
  · cases h
    exact ⟨_, rfl⟩

variable {base : GoalState}

/-- A snapshot that the store finds current is the record read last. -/
theorem Inv.snapshot (hi : Inv casefold f) (hmem : base ∈ f.committed)
    (hpre : GoalStore.checkPreconditions f.committed.head? (some base.goalId) (some base.revision) = .ok ()) :
    f.committed.head? = some base := by
  have hrev := (GoalStore.checkPreconditions_ok hpre).2 _ rfl
  obtain ⟨current, hhead, hrev⟩ := Option.map_eq_some_iff.1 hrev
  rw [hi.versions.eq_head hhead hmem hrev]
  exact hhead

/-- What fits a record fits its copy. -/
theorem fits_truncated {c : Commitment} (h : c.Fits base) : c.Fits base.truncated := by
  cases c <;> exact h

/-- What a commit that fits makes of the record it finds. -/
theorem Inv.stored_after (hi : Inv casefold f) {base updated : GoalState} {c : Commitment}
    (hf : f.Fits (.evaluate now base c)) (hhead : f.committed.head? = some base)
    (hm : c.mutation now base.truncated = .ok updated) : updated.Stored casefold ∧ 0 ≤ now ∧ base.revision < 2 ^ 63 - 1 := by
  obtain ⟨-, hlook, hfits⟩ := hf
  have hact : base.status = .active := Commitment.mutation_active (s := base.truncated) hlook hm
  obtain ⟨hnow, hroom, hc⟩ := hfits hhead hact
  exact ⟨Commitment.mutation_stored (hi.stored hhead).truncated hnow hlook (fun _ => fits_truncated hc) hm, hnow, hroom⟩

/-- What a change that fits makes of the file. -/
theorem Inv.change (hi : Inv casefold f) {c : Change} (hf : f.Fits c) :
    Faithful casefold f (f.change casefold c) ∧ Inv casefold (f.change casefold c).2 := by
  cases c with
  | operate o op =>
    obtain ⟨hnow, hop, hroom⟩ := hf
    refine hi.update fun updated _ hm => ⟨?_, hnow, hroom⟩
    refine Operation.mutation_stored (o := { o with casefold }) hnow hop (fun s hs => ?_) hm
    obtain ⟨t, ht, rfl⟩ := Option.map_eq_some_iff.1 hs
    exact (hi.stored ht).truncated
  | evaluate now base c =>
    refine hi.update fun updated hpre hm => ?_
    have hhead := hi.snapshot hf.1 hpre
    rw [hhead] at hm
    obtain ⟨hu, hnow, hroom⟩ := hi.stored_after hf hhead hm
    refine ⟨hu, hnow, ?_⟩
    rw [hhead]
    rintro s ⟨⟩
    exact hroom

/-- A commit that fits raises nothing but a conflict, which ends the evaluation. -/
theorem Inv.conflict (hi : Inv casefold f) {c : Commitment} {e : GoalError}
    (hf : f.Fits (.evaluate now base c)) (he : (f.change casefold (.evaluate now base c)).1 = .error e) :
    ∃ message, e = .conflict message := by
  have he : (f.update casefold now _ _ _).1 = .error e := he
  rw [hi.update_eq] at he
  split at he
  · rename_i hpre
    cases he
    exact checkPreconditions_raises hpre
  · rename_i hpre hm
    cases he
    have hhead := hi.snapshot hf.1 hpre
    rw [hhead] at hm
    exact Commitment.mutation_raises (fun hact => fits_truncated (hf.2.2 hhead hact).2.2) hm
  · rename_i updated hpre hm
    have hhead := hi.snapshot hf.1 hpre
    have hm' := hm
    rw [hhead] at hm'
    obtain ⟨hu, hnow, hroom⟩ := hi.stored_after hf hhead hm'
    obtain ⟨_, -, -, hok⟩ := (hi.commit (by rw [hhead]; rintro s ⟨⟩; exact hroom) hnow hu).1
    rw [hok] at he
    cases he

/-- What is so of a file in every run. -/
structure Sound (casefold : String → String) (f : GoalFile) : Prop where
  readable : ∃ s, f.read casefold = .ok s
  oneTarget : ∀ r ∈ f.record, r.waiting.targets ≤ 1 ∧ (0 < r.waiting.targets → r.status = .active)
  faithful : ∀ c, f.Fits c → Faithful casefold f (f.change casefold c)
  conflicts : ∀ now base c e, f.Fits (.evaluate now base c) → (f.change casefold (.evaluate now base c)).1 = .error e →
    ∃ message, e = .conflict message

theorem waitFields_targets (wait : Option Wait) : (waitFields wait).targets ≤ 1 ∧ (0 < (waitFields wait).targets → wait ≠ none) := by
  obtain - | ⟨target, reason, since⟩ := wait
  · exact ⟨Nat.zero_le _, nofun⟩
  · have hone : ∀ (p : Prop) [Decidable p], (if p then 1 else 0) ≤ 1 := fun p _ => by split <;> decide
    refine ⟨?_, fun _ => nofun⟩
    cases target with
    | pid n => exact hone (((some n).any (· ≠ 0)) = true)
    | session id => exact (Nat.zero_add _).trans_le (hone (((some id).any (· ≠ "")) = true))
    | time deadline => exact (Nat.zero_add _).trans_le (hone (deadline ≠ 0))

theorem Inv.sound (hi : Inv casefold f) : Sound casefold f := by
  refine ⟨⟨_, hi.read.1⟩, fun r hr => ?_, fun c hf => (hi.change hf).1, fun now base c e hf he => hi.conflict hf he⟩
  obtain ⟨hnone, -⟩ | ⟨s, hs, hrecord, -⟩ := hi.current
  · rw [hnone] at hr
    cases hr
  · rw [hrecord] at hr
    cases hr
    obtain ⟨hone, hsome⟩ := waitFields_targets s.wait
    refine ⟨hone, fun hpos => ?_⟩
    obtain ⟨w, hw⟩ := Option.ne_none_iff_exists'.1 (hsome hpos)
    exact (hs.wait w hw).2.2

/-- The file is readable in every run whose changes fit, with one wait target at most and
    while the goal is active, and no update raises once it has replaced the file. -/
theorem goal_records_readable (casefold : String → String) {f : GoalFile} (h : Reach (next casefold) Fits {} f) :
    Sound casefold f :=
  (h.invariant Inv.start fun _ _ hi hf => (hi.change hf).2).sound

/-! ## A run id -/

/-- `_clean_text`'s error. -/
def tooLong (fieldName : String) : GoalError := .value (fieldName ++ " exceeds " ++ toString 512 ++ " characters")

theorem cleanRunId_long {runId : String} (hlong : 512 < (Text.strip runId.toList).length) (fieldName : String) :
    cleanRunId (some runId) fieldName = .error (tooLong fieldName) := by
  unfold cleanRunId cleanText
  rw [Option.getD_some]
  dsimp only
  rw [if_pos hlong]
  rfl

theorem read_long {s u : GoalState} (h : s.Stored casefold) {runId : String} (hlong : 512 < (Text.strip runId.toList).length)
    (hgoal : u.goal = s.goal ∧ u.status = s.status) (hcontract : u.contract = s.contract) (hgates : u.gates = s.gates)
    (hrun : u.lastRunId = some runId) : u.toDict.read casefold = .error (tooLong "last_run_id") := by
  unfold GoalRecord.read GoalState.toDict
  dsimp only
  rw [hgoal.1, hgoal.2, hcontract, hgates, hrun, h.contract.read, read_gates h.gates.2, cleanText_clean h.goal, cleanRunId_long hlong]
  have hnamed : ¬ (s.status ≠ .cleared ∧ s.goal = "") := fun hlost => h.named hlost.1 hlost.2
  show (if s.status ≠ .cleared ∧ s.goal = "" then _ else _) = _
  rw [if_neg hnamed]
  rfl

theorem commit_unreadable {current : Option GoalState} {updated : GoalState} {e : GoalError}
    (h : ∀ revision, ({ updated with revision, updatedAt := now } : GoalState).toDict.read casefold = .error e) :
    (f.commit casefold current now updated).1 = .error e ∧ (f.commit casefold current now updated).2.read casefold = .error e := by
  unfold GoalFile.commit GoalFile.read
  dsimp only
  rw [h]
  refine ⟨rfl, ?_⟩
  dsimp only
  rw [h]
  rfl

/-- A turn that is charged with a long run id: the file is replaced, the update raises, and
    the record cannot be read again. -/
theorem Inv.lost (hi : Inv casefold f) {runId : String} (hhead : f.committed.head? = some base)
    (hact : base.status = .active) (hlong : 512 < (Text.strip runId.toList).length) :
    (f.change casefold (.evaluate now base (.consumed (some runId)))).1 = .error (tooLong "last_run_id") ∧
      (next casefold f (.evaluate now base (.consumed (some runId)))).read casefold = .error (tooLong "last_run_id") := by
  have hs := (hi.stored hhead).truncated
  have hchange : f.change casefold (.evaluate now base (.consumed (some runId))) =
      f.commit casefold (some base) now { base.truncated with
        turnsUsed := base.turnsUsed + 1
        lastTurnAt := now
        lastRunId := some runId
        consecutiveCompactionFailures := 0 } := by
    have hpre : GoalStore.checkPreconditions (some base) (some base.goalId) (some base.revision) = .ok () := by
      simp [GoalStore.checkPreconditions]
    have hm : Commitment.mutation now (.consumed (some runId)) base.truncated = _ := consumeTurn_ok.2 ⟨hact, rfl⟩
    show f.update casefold now _ _ _ = _
    rw [hi.update_eq, hhead, hpre]
    dsimp only [Option.map_some]
    rw [hm]
    rfl
  unfold next
  rw [hchange]
  exact commit_unreadable fun revision => read_long hs hlong ⟨rfl, rfl⟩ rfl rfl rfl

/-- An update after which the file is lost. -/
theorem not_faithful {c : Change} {s : Option GoalState} {e e' : GoalError} (hread : f.read casefold = .ok s)
    (hraises : (f.change casefold c).1 = .error e) (hlost : (next casefold f c).read casefold = .error e') :
    ¬ Faithful casefold f (f.change casefold c) := by
  rintro (hsame | ⟨updated, -, -, hok⟩)
  · have hsame : next casefold f c = f := hsame
    rw [hsame, hread] at hlost
    cases hlost
  · rw [hraises] at hok
    cases hok

namespace Sample

def set : Change := .operate { now := 1000 } (.set "ship it" "g1" 20 {} 0 none)

def opened : GoalFile := next id {} set

def goal : GoalState :=
  { goal := "ship it", goalId := "g1", status := .active, revision := 1, conversationEpoch := 0, turnsUsed := 0, maxTurns := 20
    createdAt := 1000, updatedAt := 1000 }

def charge (runId : String) : Change := .evaluate 2000 goal (.consumed (some runId))

def longId : String := String.ofList (List.replicate 513 'a')

end Sample

theorem Sample.opened_eq : Sample.opened = { record := some Sample.goal.toDict, committed := [Sample.goal] } := by
  decide +kernel

theorem Sample.set_fits : Fits {} Sample.set :=
  ⟨by decide, ⟨.empty _, .empty _, .empty _, .empty _, .empty _⟩, by rintro s ⟨⟩⟩

theorem Sample.charge_fits : Fits Sample.opened (Sample.charge "run-7") := by
  rw [opened_eq]
  have hrun : CleanRunId (some "run-7") := by
    rintro t ⟨⟩
    exact ⟨⟨by decide, by decide⟩, by decide⟩
  exact ⟨List.mem_singleton.2 rfl, nofun, fun _ _ => ⟨by decide, by decide, hrun, by decide⟩⟩

theorem goal_records_readable_charged : Sound id (next id Sample.opened (Sample.charge "run-7")) :=
  goal_records_readable id (.step (Sample.charge "run-7") (.step Sample.set .start Sample.set_fits) Sample.charge_fits)

/-- The goal is set, and its turn is charged with a run id of 513 characters. -/
theorem a_run_id_is_too_long :
    Sample.opened.read id = .ok (some Sample.goal) ∧
    (Sample.opened.change id (Sample.charge Sample.longId)).1 = .error (.value "last_run_id exceeds 512 characters") ∧
    (next id Sample.opened (Sample.charge Sample.longId)).read id = .error (.value "last_run_id exceeds 512 characters") ∧
    ¬ Faithful id Sample.opened (Sample.opened.change id (Sample.charge Sample.longId)) := by
  have hopened : Inv id Sample.opened := (Inv.start.change Sample.set_fits).2
  have hhead : Sample.opened.committed.head? = some Sample.goal := by
    rw [Sample.opened_eq]
    rfl
  have hread : Sample.opened.read id = .ok (some Sample.goal) := by
    rw [← hhead]
    exact hopened.read.1
  have hlong : 512 < (Text.strip Sample.longId.toList).length := by
    unfold Sample.longId
    rw [String.toList_ofList]
    decide +kernel
  obtain ⟨hraises, hlost⟩ := hopened.lost hhead rfl hlong
  exact ⟨hread, hraises, hlost, not_faithful hread hraises hlost⟩

end GoalFile

end Flowly.Goals
