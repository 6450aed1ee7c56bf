/-
  Flowly.Agent.RunSteering — guidance for a run that is going on
  (`flowly/agent/run_steering.py`: `submit`, `observe_text`, `observe_iteration`, `take`,
  `close`, `provider_call`).

  One registered run on one event loop. `identity` has checked the parameters; the
  message `prepare` makes and whether `persist` raises are given with the call. A
  provider call is two steps, its start and its end. The response text is the list of
  the deltas it was put together from, each with a number of its own; an empty delta
  changes nothing. Timestamps are left out.

  Ghosts: the guidance that was handed out, and whether a checkpoint was cut from text
  that has not been cleared since.

  Proved: the tool call ids of the checkpoints are consecutive segments, guidance is
  handed out once and in order, and a submit that fails changes nothing, in every run;
  where no checkpoint is cut twice from one text, a delta is in one checkpoint at most
  (`text_persisted_once`). Between `take` and the next provider call the text of the last
  checkpoint still stands, and a submit cuts it again (`text_persisted_twice`).
-/

import Flowly.Lib.Reach
import Flowly.Lib.Text
import Mathlib.Data.List.Nodup
import Mathlib.Data.List.Range

namespace Flowly.Agent.RunSteering

open Flowly.Lib

def GUIDANCE_LIMIT : Nat := 20

structure Delta where
  number : Nat
  text : Text

structure Checkpoint where
  messageId : String
  content : List Delta
  sequence : Nat
  iterationIdx : Int
  previousIterationIdx : Int
  toolCallIds : List String

structure Receipt where
  sequence : Nat
  checkpoint : Option Checkpoint
  messageId : String
  digest : String

/-- A message that was accepted, with its `_steering_checkpoint`. -/
structure Guidance where
  id : String
  content : Text
  sequence : Nat
  checkpoint : Option Checkpoint

structure SteeringRun where
  sessionKey : String
  pending : List Guidance := []
  /-- In the order of acceptance. -/
  receipts : List Receipt := []
  provider : Option Nat := none
  accepting : Bool := true
  responseText : List Delta := []
  iterationIdx : Int := -1
  checkpointIterationIdx : Int := -1
  toolCallIds : List String := []
  checkpointToolCount : Nat := 0
  nextDelta : Nat := 0
  nextTask : Nat := 0
  /-- Ghost. -/
  taken : List Guidance := []
  /-- Ghost: a checkpoint was cut from text that still stands. -/
  textCut : Bool := false

/-- What `identity` made of the parameters, and what the call's arguments do. -/
structure Params where
  sessionKey : String
  messageId : String
  digest : String
  stopped : Bool := false
  /-- The content of what `prepare` returns, unless it raises. -/
  prepared : Option Text
  /-- `persist` returned. -/
  persisted : Bool := true

inductive Refusal where
  | runNotActive
  | steeringLimit
  | identityConflict
  | prepareFailed
  | persistFailed

variable (s : SteeringRun)

def SteeringRun.receipt (messageId : String) : Option Receipt := s.receipts.find? (·.messageId = messageId)

def replay (receipt : Receipt) (digest : String) : Except Refusal Receipt :=
  if receipt.digest ≠ digest then .error .identityConflict else .ok receipt

def SteeringRun.nextCheckpoint (messageId : String) : Option Checkpoint :=
  if s.pending = [] ∧ (s.responseText ≠ [] ∨ s.checkpointToolCount < s.toolCallIds.length) then
    some { messageId
           content := s.responseText
           sequence := s.receipts.length + 1
           iterationIdx := s.iterationIdx
           previousIterationIdx := s.checkpointIterationIdx
           toolCallIds := s.toolCallIds.drop s.checkpointToolCount }
  else none

/-- The run after a message was persisted. -/
def SteeringRun.accept (messageId digest : String) (content : Text) : SteeringRun :=
  let checkpoint := s.nextCheckpoint messageId
  let sequence := s.receipts.length + 1
  { s with
    receipts := s.receipts ++ [{ sequence, checkpoint, messageId, digest }]
    pending := s.pending ++ [{ id := messageId, content, sequence, checkpoint }]
    checkpointIterationIdx := if checkpoint.isSome then s.iterationIdx else s.checkpointIterationIdx
    checkpointToolCount := if checkpoint.isSome then s.toolCallIds.length else s.checkpointToolCount
    textCut := s.textCut || (checkpoint.isSome && s.responseText ≠ []) }

def SteeringRun.submit (p : Params) : SteeringRun × Except Refusal Receipt :=
  if s.sessionKey ≠ p.sessionKey then (s, .error .runNotActive)
  else
    match s.receipt p.messageId with
    | some previous => (s, replay previous p.digest)
    | none =>
      if p.stopped ∨ !s.accepting then (s, .error .runNotActive)
      else if GUIDANCE_LIMIT ≤ s.receipts.length then (s, .error .steeringLimit)
      else
        match p.prepared with
        | none => (s, .error .prepareFailed)
        | some content =>
          if !p.persisted then (s, .error .persistFailed)
          else
            let sequence := s.receipts.length + 1
            (s.accept p.messageId p.digest content,
              .ok { sequence, checkpoint := s.nextCheckpoint p.messageId, messageId := p.messageId, digest := p.digest })

def SteeringRun.observeText (text : Text) : SteeringRun :=
  if text = [] then s
  else { s with responseText := s.responseText ++ [⟨s.nextDelta, text⟩], nextDelta := s.nextDelta + 1 }

def SteeringRun.clearText : SteeringRun := { s with responseText := [], textCut := false }

def noteCall (ids : List String) (id : String) : List String := if id ≠ "" ∧ id ∉ ids then ids ++ [id] else ids

/-- `calls` has the id of each tool call, "" where it has none. -/
def SteeringRun.observeIteration (index : Int) (calls : List String) : SteeringRun :=
  let s := { s with iterationIdx := max s.iterationIdx index, toolCallIds := calls.foldl noteCall s.toolCallIds }
  if calls = [] then s else s.clearText

def SteeringRun.take : SteeringRun × List Guidance := ({ s with pending := [], taken := s.taken ++ s.pending }, s.pending)

def SteeringRun.close : SteeringRun := { s with accepting := false }

/-- A provider call starts, unless guidance waits for it (`ProviderSteeredError`). -/
def SteeringRun.providerStart : SteeringRun :=
  if s.pending ≠ [] then s
  else { s.clearText with provider := some s.nextTask, nextTask := s.nextTask + 1 }

def SteeringRun.providerEnd (task : Nat) : SteeringRun :=
  if s.provider = some task then { s with provider := none } else s

inductive Event where
  | submit (p : Params)
  | observeText (text : Text)
  | observeIteration (index : Int) (calls : List String)
  | take
  | close
  | providerStart
  | providerEnd (task : Nat)

def step : Event → SteeringRun
  | .submit p => (s.submit p).1
  | .observeText text => s.observeText text
  | .observeIteration index calls => s.observeIteration index calls
  | .take => s.take.1
  | .close => s.close
  | .providerStart => s.providerStart
  | .providerEnd task => s.providerEnd task

variable {s}

/-! ## What a step does -/

/-- The call that `submit` accepts. -/
def SteeringRun.Accepts (s : SteeringRun) (p : Params) : Prop :=
  s.sessionKey = p.sessionKey ∧ s.receipt p.messageId = none ∧ p.stopped = false ∧ s.accepting = true ∧
    s.receipts.length < GUIDANCE_LIMIT ∧ p.prepared.isSome = true ∧ p.persisted = true

instance (s : SteeringRun) (p : Params) : Decidable (s.Accepts p) := inferInstanceAs (Decidable (_ ∧ _))

theorem submit_cases (s : SteeringRun) (p : Params) : (s.submit p).1 = s ∨
    s.Accepts p ∧ ∃ content, (s.submit p).1 = s.accept p.messageId p.digest content := by
  unfold SteeringRun.submit
  split
  · exact Or.inl rfl
  · rename_i hkey
    split
    · exact Or.inl rfl
    · rename_i hnew
      split
      · exact Or.inl rfl
      · rename_i hopen
        split
        · exact Or.inl rfl
        · rename_i hroom
          split
          · exact Or.inl rfl
          · rename_i content hprepared
            split
            · exact Or.inl rfl
            · rename_i hpersisted
              rw [not_or] at hopen
              exact Or.inr ⟨⟨not_not.mp hkey, hnew, by simpa using hopen.1, by simpa using hopen.2, Nat.not_le.mp hroom,
                by rw [hprepared]; rfl, by simpa using hpersisted⟩, content, rfl⟩

/-- A submit whose `persist` raises leaves the run as it was. -/
theorem submit_failed (s : SteeringRun) {p : Params} (h : p.persisted = false) : (s.submit p).1 = s := by
  rcases submit_cases s p with hsame | ⟨haccepts, _⟩
  · exact hsame
  · rw [haccepts.2.2.2.2.2.2] at h
    cases h

def SteeringRun.checkpoints (s : SteeringRun) : List Checkpoint := s.receipts.filterMap (·.checkpoint)

theorem accept_checkpoints (messageId digest : String) (content : Text) :
    (s.accept messageId digest content).checkpoints = s.checkpoints ++ (s.nextCheckpoint messageId).toList := by
  unfold SteeringRun.checkpoints SteeringRun.accept
  rw [List.filterMap_append]
  cases s.nextCheckpoint messageId with
  | none => rfl
  | some c => rfl

theorem nextCheckpoint_some {messageId : String} {c : Checkpoint} (h : s.nextCheckpoint messageId = some c) :
    s.pending = [] ∧ c.content = s.responseText ∧ c.toolCallIds = s.toolCallIds.drop s.checkpointToolCount := by
  unfold SteeringRun.nextCheckpoint at h
  split at h
  · rename_i hcut
    obtain rfl := Option.some.inj h
    exact ⟨hcut.1, rfl, rfl⟩
  · cases h

theorem noteCalls_append (calls ids : List String) : ∃ more, calls.foldl noteCall ids = ids ++ more := by
  induction calls generalizing ids with
  | nil => exact ⟨[], (List.append_nil _).symm⟩
  | cons id calls ih =>
    obtain ⟨more, hmore⟩ := ih (noteCall ids id)
    rw [List.foldl_cons, hmore]
    unfold noteCall
    split
    · exact ⟨id :: more, by simp⟩
    · exact ⟨more, rfl⟩

theorem noteCalls_nodup (calls : List String) {ids : List String} (h : ids.Nodup) : (calls.foldl noteCall ids).Nodup := by
  induction calls generalizing ids with
  | nil => exact h
  | cons id calls ih =>
    rw [List.foldl_cons]
    refine ih ?_
    unfold noteCall
    split
    · rename_i hnew
      exact (List.perm_append_singleton _ _).nodup_iff.mpr (List.nodup_cons.mpr ⟨hnew.2, h⟩)
    · exact h

/-! ## What holds in every run -/

/-- What the run has of an accepted message, and what the message has of itself. -/
def Receipt.accepted (r : Receipt) : String × Nat × Option Checkpoint := (r.messageId, r.sequence, r.checkpoint)

def Guidance.accepted (g : Guidance) : String × Nat × Option Checkpoint := (g.id, g.sequence, g.checkpoint)

structure Kept (s : SteeringRun) : Prop where
  segments : (s.checkpoints.map (·.toolCallIds)).flatten = s.toolCallIds.take s.checkpointToolCount
  count : s.checkpointToolCount ≤ s.toolCallIds.length
  distinct : s.toolCallIds.Nodup
  handed : (s.taken ++ s.pending).map Guidance.accepted = s.receipts.map Receipt.accepted
  sequence : s.receipts.map (·.sequence) = List.range' 1 s.receipts.length
  messages : (s.receipts.map (·.messageId)).Nodup

theorem kept_start (sessionKey : String) : Kept { sessionKey } where
  segments := rfl
  count := Nat.le_refl _
  distinct := List.nodup_nil
  handed := rfl
  sequence := rfl
  messages := List.nodup_nil

theorem accept_kept (h : Kept s) {p : Params} (ha : s.Accepts p) (content : Text) :
    Kept (s.accept p.messageId p.digest content) where
  segments := by
    rw [accept_checkpoints, List.map_append, List.flatten_append, h.segments]
    cases hc : s.nextCheckpoint p.messageId with
    | none => simp [SteeringRun.accept, hc]
    | some c =>
      simp only [Option.toList_some, List.map_cons, List.map_nil, List.flatten_singleton, (nextCheckpoint_some hc).2.2,
        SteeringRun.accept, hc, Option.isSome_some, if_true, List.take_append_drop, List.take_length]
  count := by
    simp only [SteeringRun.accept]
    split
    · exact Nat.le_refl _
    · exact h.count
  distinct := h.distinct
  handed := by
    simp only [SteeringRun.accept, ← List.append_assoc, List.map_append, List.map_singleton]
    rw [← List.map_append, h.handed]
    rfl
  sequence := by
    simp only [SteeringRun.accept, List.map_append, List.map_singleton, h.sequence, List.length_append, List.length_singleton]
    rw [List.range'_concat, Nat.one_mul, Nat.add_comm 1]
  messages := by
    simp only [SteeringRun.accept, List.map_append, List.map_singleton]
    refine (List.perm_append_singleton _ _).nodup_iff.mpr (List.nodup_cons.mpr ⟨fun hin => ?_, h.messages⟩)
    obtain ⟨r, hr, hid⟩ := List.mem_map.mp hin
    have hnone := List.find?_eq_none.mp ha.2.1 r hr
    simp [hid] at hnone

theorem step_kept (h : Kept s) (e : Event) : Kept (step s e) := by
  cases e with
  | submit p =>
    rcases submit_cases s p with hsame | ⟨ha, content, hacc⟩
    · rw [step, hsame]
      exact h
    · rw [step, hacc]
      exact accept_kept h ha content
  | observeText text =>
    simp only [step, SteeringRun.observeText]
    split
    · exact h
    · exact { h with }
  | observeIteration index calls =>
    obtain ⟨more, hmore⟩ := noteCalls_append calls s.toolCallIds
    have hnoted : Kept { s with iterationIdx := max s.iterationIdx index, toolCallIds := calls.foldl noteCall s.toolCallIds } :=
      { h with
        segments := by
          rw [hmore]
          change (s.checkpoints.map _).flatten = (s.toolCallIds ++ more).take s.checkpointToolCount
          rw [List.take_append_of_le_length h.count]
          exact h.segments
        count := by
          rw [hmore, List.length_append]
          exact h.count.trans (Nat.le_add_right _ _)
        distinct := noteCalls_nodup calls h.distinct }
    simp only [step, SteeringRun.observeIteration]
    split
    · exact hnoted
    · exact { hnoted with }
  | take =>
    refine { h with handed := ?_ }
    change ((s.taken ++ s.pending) ++ []).map _ = _
    rw [List.append_nil]
    exact h.handed
  | close => exact { h with }
  | providerStart =>
    simp only [step, SteeringRun.providerStart]
    split
    · exact h
    · exact { h with }
  | providerEnd task =>
    simp only [step, SteeringRun.providerEnd]
    split
    · exact { h with }
    · exact h

/-! ## The text -/

def Checkpoint.has (k : Nat) (c : Checkpoint) : Bool := c.content.any (·.number = k)

/-- The condition on a step: a submit that cuts a checkpoint while there is text cuts it
    from text that no checkpoint was cut from before. -/
def SteeringRun.CutsOnce (s : SteeringRun) : Event → Prop
  | .submit p => s.Accepts p → s.pending = [] → s.responseText ≠ [] → s.textCut = false
  | _ => True

instance (s : SteeringRun) : (e : Event) → Decidable (s.CutsOnce e)
  | .submit p => inferInstanceAs (Decidable (s.Accepts p → s.pending = [] → s.responseText ≠ [] → s.textCut = false))
  | .observeText _ | .observeIteration _ _ | .take | .close | .providerStart | .providerEnd _ => isTrue trivial

structure Once (s : SteeringRun) : Prop where
  text : ∀ d ∈ s.responseText, d.number < s.nextDelta
  cut : ∀ c ∈ s.checkpoints, ∀ d ∈ c.content, d.number < s.nextDelta
  once : ∀ k, s.checkpoints.countP (·.has k) ≤ 1
  fresh : s.textCut = false → ∀ d ∈ s.responseText, ∀ c ∈ s.checkpoints, c.has d.number = false

theorem once_start (sessionKey : String) : Once { sessionKey } where
  text := List.forall_mem_nil _
  cut := List.forall_mem_nil _
  once := fun _ => Nat.zero_le _
  fresh := fun _ _ h => absurd h List.not_mem_nil

theorem clearText_once (h : Once s) : Once s.clearText :=
  { h with
    text := List.forall_mem_nil _
    fresh := fun _ _ hd => absurd hd List.not_mem_nil }

theorem observeText_once (h : Once s) (text : Text) : Once (s.observeText text) := by
  unfold SteeringRun.observeText
  split
  · exact h
  · refine ⟨fun d hd => ?_, fun c hc d hd => (h.cut c hc d hd).trans (Nat.lt_succ_self _), h.once, fun hcut d hd c hc => ?_⟩
    · rcases List.mem_append.mp hd with hd | hd
      · exact (h.text d hd).trans (Nat.lt_succ_self _)
      · rw [List.mem_singleton.mp hd]
        exact Nat.lt_succ_self _
    · rcases List.mem_append.mp hd with hd | hd
      · exact h.fresh hcut d hd c hc
      · rw [List.mem_singleton.mp hd, Checkpoint.has, List.any_eq_false]
        intro d' hd' he
        have hlt := h.cut c hc d' hd'
        rw [of_decide_eq_true he] at hlt
        exact absurd hlt (Nat.lt_irrefl _)

/-- A checkpoint that is cut from fresh text. -/
theorem accept_once (h : Once s) {p : Params} (hcuts : s.CutsOnce (.submit p)) (ha : s.Accepts p) (content : Text) :
    Once (s.accept p.messageId p.digest content) := by
  have hnext : (s.accept p.messageId p.digest content).nextDelta = s.nextDelta := rfl
  have htext : (s.accept p.messageId p.digest content).responseText = s.responseText := rfl
  cases hc : s.nextCheckpoint p.messageId with
  | none =>
    have hsame : (s.accept p.messageId p.digest content).checkpoints = s.checkpoints := by
      rw [accept_checkpoints, hc, Option.toList_none, List.append_nil]
    have hcut : (s.accept p.messageId p.digest content).textCut = s.textCut := by simp [SteeringRun.accept, hc]
    constructor
    · exact h.text
    · exact hsame ▸ h.cut
    · exact hsame ▸ h.once
    · exact hsame ▸ hcut ▸ h.fresh
  | some c =>
    obtain ⟨hpending, hcontent, _⟩ := nextCheckpoint_some hc
    have hmore : (s.accept p.messageId p.digest content).checkpoints = s.checkpoints ++ [c] := by
      rw [accept_checkpoints, hc, Option.toList_some]
    have hcut : (s.accept p.messageId p.digest content).textCut = (s.textCut || decide (s.responseText ≠ [])) := by
      simp [SteeringRun.accept, hc]
    refine ⟨h.text, fun c' hc' d hd => ?_, fun k => ?_, fun hfresh d hd => ?_⟩
    · rw [hmore] at hc'
      rcases List.mem_append.mp hc' with hc' | hc'
      · exact h.cut c' hc' d hd
      · rw [List.mem_singleton.mp hc', hcontent] at hd
        exact h.text d hd
    · rw [hmore, List.countP_append, List.countP_singleton]
      split
      · rename_i hk
        obtain ⟨d, hd, hdk⟩ := List.any_eq_true.mp hk
        rw [hcontent] at hd
        have hnone : s.checkpoints.countP (·.has k) = 0 := by
          refine List.countP_eq_zero.mpr fun c' hc' => ?_
          rw [← of_decide_eq_true hdk, h.fresh (hcuts ha hpending (List.ne_nil_of_mem hd)) d hd c' hc']
          exact Bool.false_ne_true
        rw [hnone]
      · exact h.once k
    · rw [hcut, Bool.or_eq_false_iff, decide_eq_false_iff_not, not_not] at hfresh
      rw [htext, hfresh.2] at hd
      cases hd

theorem step_once (h : Once s) {e : Event} (hcuts : s.CutsOnce e) : Once (step s e) := by
  cases e with
  | submit p =>
    rcases submit_cases s p with hsame | ⟨ha, content, hacc⟩
    · rw [step, hsame]
      exact h
    · rw [step, hacc]
      exact accept_once h hcuts ha content
  | observeText text => exact observeText_once h text
  | observeIteration index calls =>
    have hnoted : Once { s with iterationIdx := max s.iterationIdx index, toolCallIds := calls.foldl noteCall s.toolCallIds } :=
      { h with }
    simp only [step, SteeringRun.observeIteration]
    split
    · exact hnoted
    · exact clearText_once hnoted
  | take => exact { h with }
  | close => exact { h with }
  | providerStart =>
    simp only [step, SteeringRun.providerStart]
    split
    · exact h
    · exact { clearText_once h with }
  | providerEnd task =>
    simp only [step, SteeringRun.providerEnd]
    split
    · exact { h with }
    · exact h

/-! ## Runs -/

/-- Streamed text is persisted once, the checkpoints' calls are consecutive segments of the
    run's, and guidance is handed out once, in the order of its numbers. -/
structure SteeringRun.PersistsOnce (s : SteeringRun) : Prop where
  text : ∀ k, s.checkpoints.countP (·.has k) ≤ 1
  segments : (s.checkpoints.map (·.toolCallIds)).flatten <+: s.toolCallIds
  distinct : s.toolCallIds.Nodup
  /-- What was handed out and what waits are the accepted messages, in order. -/
  handed : (s.taken ++ s.pending).map Guidance.accepted = s.receipts.map Receipt.accepted
  messages : (s.receipts.map (·.messageId)).Nodup
  sequence : s.receipts.map (·.sequence) = List.range' 1 s.receipts.length

/-- In a run in which no checkpoint is cut from text that one was cut from before. -/
theorem text_persisted_once {sessionKey : String} {s : SteeringRun}
    (h : Reach step (fun s e => s.CutsOnce e) { sessionKey } s) :
    s.PersistsOnce ∧ ∀ p : Params, p.persisted = false → (s.submit p).1 = s := by
  have hboth : Kept s ∧ Once s :=
    h.invariant (P := fun s => Kept s ∧ Once s) ⟨kept_start sessionKey, once_start sessionKey⟩
      fun _ e ⟨hk, ho⟩ hcuts => ⟨step_kept hk e, step_once ho hcuts⟩
  refine ⟨⟨hboth.2.once, ?_, hboth.1.distinct, hboth.1.handed, hboth.1.messages, hboth.1.sequence⟩,
    fun p hp => submit_failed s hp⟩
  rw [hboth.1.segments]
  exact List.take_prefix _ _

/-- In every run, guidance is handed over in order and once, and each tool call belongs to one segment. -/
theorem guidance_kept {sessionKey : String} {s : SteeringRun} (h : Reach step (fun _ _ => True) { sessionKey } s) : Kept s :=
  h.invariant (kept_start sessionKey) fun _ e hk _ => step_kept hk e

namespace Sample

def guide (messageId : String) : Params := { sessionKey := "cli:1", messageId, digest := messageId, prepared := some "Shorter.".toList }

/-- Guidance is taken, and the next one arrives before the provider is called again. -/
def hasty : List Event := [.providerStart, .observeText "Hello".toList, .submit (guide "m1"), .take, .submit (guide "m2")]

/-- Guidance is taken, and the next one arrives while the provider answers. -/
def patient : List Event :=
  [.providerStart, .observeText "Hello".toList, .submit (guide "m1"), .take, .providerStart, .observeText "Hi".toList,
    .submit (guide "m2")]

theorem guidance_kept_hasty : Kept (hasty.foldl step { sessionKey := "cli:1" }) := guidance_kept (Reach.free _ _)

theorem patient_once : (patient.foldl step { sessionKey := "cli:1" }).PersistsOnce := by
  have h : Reach step (fun s e => s.CutsOnce e) { sessionKey := "cli:1" } (patient.foldl step { sessionKey := "cli:1" }) :=
    Reach.foldl patient _ .start (by decide)
  exact (text_persisted_once h).1

/-- One delta is part of two checkpoints. -/
theorem text_persisted_twice : ∃ s : SteeringRun, Reach step (fun _ _ => True) { sessionKey := "cli:1" } s ∧
    ∃ k, s.checkpoints.countP (·.has k) = 2 :=
  ⟨hasty.foldl step { sessionKey := "cli:1" }, Reach.free _ _, 0, by decide⟩

end Sample

end Flowly.Agent.RunSteering
