/-
  Flowly.Compaction.Summarizer — turning messages into a summary with a provider that may
  fail (`flowly/compaction/summarizer.py`: `generate_summary`, `summarize_chunks`,
  `summarize_with_fallback`, `summarize_in_stages`, `repair_dropped_details`).

  `World` is what the code meets outside: the outcome of the n-th bounded provider call and
  of the n-th poll of `should_cancel`, any two functions. The prompts are left out: no
  answer depends on them here, since every answer is allowed. The ghost log keeps the
  arguments and the output of each `generate_summary` that returned.

  Proved: a summary that is returned was read from all the messages
  (`summarizeInStages_returns`), and an attempt fails with a `CompactionError`, or with
  the `TypeError` of a tool result that cannot be clipped (`summarizeInStages_fails`).
-/

import Flowly.Lib.Attempt
import Flowly.Compaction.SummaryText

namespace Flowly.Compaction

open Flowly.Lib Flowly.Lib.Attempt

/-- How one `_chat_bounded` ends. -/
inductive Reply where
  | response (r : Response)
  /-- Cancelled, timed out or without progress: a `CompactionError` of its own. -/
  | stopped (why : Text)
  /-- Whatever the provider raised. -/
  | raised (why : Text)

structure Call where
  chunk : List Message
  previous : Option Text
  output : Text

structure World where
  replies : Nat → Reply
  cancels : Nat → Bool
  requests : Nat := 0
  polls : Nat := 0
  /-- Ghost: the calls of `generate_summary` that returned, in order. -/
  calls : List Call := []
  /-- Ghost: each record handed to the repair pass, with the record it returned. -/
  repairs : List (Text × Text) := []

abbrev Run := Attempt Failure World

structure Summariser where
  ops : TextOps
  est : Message → Nat
  reserveTokens : Int
  contextWindow : Nat

variable (s : Summariser)

/-- `previous_summary or DEFAULT_SUMMARY_FALLBACK`. -/
def orFallback (previous : Option Text) : Text :=
  match previous with
  | some t => if t = [] then DEFAULT_SUMMARY_FALLBACK else t
  | none => DEFAULT_SUMMARY_FALLBACK

/-! ## One call -/

def MIN_SUMMARY_OUTPUT_TOKENS : Int := 8192

/-- `contextWindow / 4` is `int(context_window * MAX_SUMMARY_OUTPUT_SHARE)`. -/
def resolveSummaryOutputBudget (requested : Int) (contextWindow : Nat) : Int :=
  let budget := max requested MIN_SUMMARY_OUTPUT_TOKENS
  if contextWindow > 0 then min budget (max 1 (contextWindow / 4 : Nat)) else budget

def chatBounded : Run Response := ExceptT.mk fun w =>
  let outcome := match w.replies w.requests with
    | .response r => .ok r
    | .stopped why => .error (.compaction why)
    | .raised why => .error (.provider why)
  (outcome, { w with requests := w.requests + 1 })

def shouldCancel : Run Bool := ExceptT.mk fun w => (.ok (w.cancels w.polls), { w with polls := w.polls + 1 })

def noteCall (c : Call) : Run Unit := ExceptT.mk fun w => (.ok (), { w with calls := w.calls ++ [c] })

def noteRepair (updated repaired : Text) : Run Unit := ExceptT.mk fun w =>
  (.ok (), { w with repairs := w.repairs ++ [(updated, repaired)] })

/-- An empty or cut-off answer is asked for once more, with twice the room. -/
def askForSummary : Run Text := do
  let budget := resolveSummaryOutputBudget s.reserveTokens s.contextWindow
  let response ← chatBounded
  match validatedSummaryText s.ops response with
  | .ok text => pure text
  | .error e =>
    if ¬ Text.contains e.why "empty summary".toList ∧ ¬ Text.contains e.why "cut off".toList then throw e
    else
      let retryBudget := resolveSummaryOutputBudget (budget * 2) s.contextWindow
      if retryBudget ≤ budget then throw e
      else do
        let response ← chatBounded
        lift (validatedSummaryText s.ops response)

def generateSummary (messages : List Message) (previous : Option Text) : Run Text :=
  if messages = [] then pure (orFallback previous)
  else do
    let output ← askForSummary s
    noteCall ⟨messages, previous, output⟩
    pure output

/-! ## Chunks, the retry, the stages -/

/-- `for chunk in chunks`. -/
def chunkRounds : List (List Message) → Option Text → Run (Option Text)
  | [], summary => pure summary
  | chunk :: chunks, summary => do
    let cancelled ← shouldCancel
    if cancelled then throw (.compaction "compaction cancelled".toList)
    else do
      let output ← generateSummary s chunk summary
      chunkRounds chunks (some output)

def summarizeChunks (messages : List Message) (maxChunkTokens : Nat) (previous : Option Text) : Run Text :=
  if messages = [] then pure (orFallback previous)
  else do
    let summary ← chunkRounds s (chunkMessagesByMaxTokens s.est messages maxChunkTokens) previous
    pure (orFallback summary)

def summarizationFailed (messages : List Message) (lastError : Failure) : Failure :=
  .compaction ("summarization failed for ".toList ++ (toString messages.length).toList ++
    " messages without dropping source content: ".toList ++ lastError.why)

def summarizeWithFallback (messages : List Message) (maxChunkTokens : Nat) (previous : Option Text) : Run Text :=
  if messages = [] then pure (orFallback previous)
  else
    tryCatch (summarizeChunks s messages maxChunkTokens previous) fun e =>
      let retryChunkTokens := max 1 (maxChunkTokens / 2)
      if retryChunkTokens < maxChunkTokens then
        tryCatch (summarizeChunks s messages retryChunkTokens previous) fun e => throw (summarizationFailed messages e)
      else throw (summarizationFailed messages e)

def summarizeParts (maxChunkTokens : Nat) : List (List Message) → Run (List Text)
  | [] => pure []
  | part :: parts => do
    let summary ← summarizeWithFallback s part maxChunkTokens none
    let summaries ← summarizeParts maxChunkTokens parts
    pure (summary :: summaries)

def mergeMessage (summary : Text) : Message := { role := .user, content := .text summary }

def MIN_MESSAGES_FOR_SPLIT : Nat := 4

def mergeSummaries (maxChunkTokens : Nat) (previous : Option Text) : List Text → Run Text
  | [summary] => pure summary
  | summaries => summarizeWithFallback s (summaries.map mergeMessage) maxChunkTokens previous

/-- `summarize_in_stages` once the tool results are clipped. -/
def summarizeStripped (messages : List Message) (maxChunkTokens : Nat) (previous : Option Text) : Run Text :=
  let minMessages := max 2 MIN_MESSAGES_FOR_SPLIT
  if DEFAULT_PARTS ≤ 1 ∨ messages.length < minMessages ∨ estimateMessagesTokens s.est messages ≤ maxChunkTokens then
    summarizeWithFallback s messages maxChunkTokens previous
  else
    let splits := (splitMessagesByTokenShare s.est messages DEFAULT_PARTS).filter fun chunk => chunk ≠ []
    if splits.length ≤ 1 then summarizeWithFallback s messages maxChunkTokens previous
    else do
      let partialSummaries ← summarizeParts s maxChunkTokens splits
      mergeSummaries s maxChunkTokens previous partialSummaries

def summarizeInStages (messages : List Message) (maxChunkTokens : Nat) (previous : Option Text) : Run Text :=
  if messages = [] then pure (orFallback previous)
  else do
    let stripped ← lift (stripToolResults messages)
    summarizeStripped s stripped maxChunkTokens previous

/-! ## The repair pass -/

def repairDroppedDetails (previous updated : Text) (owner : List Text) : Run (Text × List Text × List Text) :=
  let missing := s.ops.missingDetails previous updated owner
  if missing = [] then pure (updated, [], [])
  else
    tryCatch
      (do
        let response ← chatBounded
        let repaired ← lift (validatedSummaryText s.ops response)
        noteRepair updated repaired
        pure (repaired, missing, s.ops.missingDetails previous repaired owner))
      fun e => match e with
        | .compaction why =>
          if Text.contains why "cancelled".toList then throw e else pure (updated, missing, missing)
        | _ => pure (updated, missing, missing)

/-! ## Messages are read into a summary -/

/-- The outputs of the calls are chained: each call was given the output before it. -/
def Chained (previous : Option Text) : List Call → Option Text → Prop
  | [], last => last = previous
  | c :: rest, last => c.previous = previous ∧ Text.hasText c.output = true ∧ Chained (some c.output) rest last

def HasPieces (messages : List Message) (chunks : List (List Message)) : Prop :=
  ∃ pieces, List.Forall₂ Pieces messages pieces ∧ chunks.flatten = pieces.flatten

/-- Consecutive calls of the log read the messages and chain into `summary`. -/
def ReadInto (log : List Call) (previous : Option Text) (messages : List Message) (summary : Text) : Prop :=
  ∃ segment, segment <:+: log ∧ Chained previous segment (some summary) ∧ HasPieces messages (segment.map Call.chunk)

/-- The messages, tool results clipped, were read into `summary`: in one chain, or in parts
    whose summaries were merged. -/
def Summarises (log : List Call) (previous : Option Text) (messages : List Message) (summary : Text) : Prop :=
  ∃ clipped, List.Forall₂ (fun m m' => clipToolResult m = .ok m') messages clipped ∧
    (ReadInto log previous clipped summary ∨
      ∃ parts partials, parts.flatten = clipped ∧ List.Forall₂ (ReadInto log none) parts partials ∧
        ReadInto log previous (partials.map mergeMessage) summary)

variable {messages : List Message} {previous : Option Text} {summary : Text}

theorem ReadInto.mono {log log' : List Call}
    (h : ReadInto log previous messages summary) (hp : log <+: log') : ReadInto log' previous messages summary := by
  obtain ⟨segment, h1, h2⟩ := h
  exact ⟨segment, h1.trans hp.isInfix, h2⟩

theorem Summarises.mono {log log' : List Call}
    (h : Summarises log previous messages summary) (hp : log <+: log') : Summarises log' previous messages summary := by
  obtain ⟨clipped, h1, h2 | ⟨parts, partials, h2, h3, h4⟩⟩ := h
  · exact ⟨clipped, h1, Or.inl (h2.mono hp)⟩
  · exact ⟨clipped, h1, Or.inr ⟨parts, partials, h2, h3.imp fun _ _ hr => hr.mono hp, h4.mono hp⟩⟩

theorem chunkMessagesByMaxTokens_hasPieces (est : Message → Nat) (messages : List Message) (maxTokens : Int) :
    HasPieces messages (chunkMessagesByMaxTokens est messages maxTokens) := by
  refine ⟨messages.map fun m => splitOversizedTextMessage est m maxTokens, ?_, ?_⟩
  · induction messages with
    | nil => exact .nil
    | cons m ms ih => exact .cons (splitOversizedTextMessage_pieces est m maxTokens) ih
  · rw [chunkMessagesByMaxTokens_flatten]
    rfl

/-! ## The steps outside -/

variable {w w' : World}

theorem chatBounded_returns {r : Response} :
    Returns chatBounded w r w' ↔ w.replies w.requests = .response r ∧ w' = { w with requests := w.requests + 1 } := by
  change ((match w.replies w.requests with
    | .response r => .ok r
    | .stopped why => .error (.compaction why)
    | .raised why => .error (.provider why) : Except Failure Response), { w with requests := w.requests + 1 }) = _ ↔ _
  rw [Prod.mk.injEq]
  cases w.replies w.requests <;> simp [eq_comm]

theorem shouldCancel_returns {b : Bool} :
    Returns shouldCancel w b w' ↔ b = w.cancels w.polls ∧ w' = { w with polls := w.polls + 1 } := by
  change ((.ok (w.cancels w.polls) : Except Failure Bool), { w with polls := w.polls + 1 }) = _ ↔ _
  rw [Prod.mk.injEq, Except.ok.injEq, eq_comm, @eq_comm World]

theorem noteCall_returns {c : Call} {u : Unit} :
    Returns (noteCall c) w u w' ↔ w' = { w with calls := w.calls ++ [c] } := by
  change ((.ok () : Except Failure Unit), { w with calls := w.calls ++ [c] }) = _ ↔ _
  rw [Prod.mk.injEq, @eq_comm World]
  simp

theorem noteRepair_returns {updated repaired : Text} {u : Unit} :
    Returns (noteRepair updated repaired) w u w' ↔ w' = { w with repairs := w.repairs ++ [(updated, repaired)] } := by
  change ((.ok () : Except Failure Unit), { w with repairs := w.repairs ++ [(updated, repaired)] }) = _ ↔ _
  rw [Prod.mk.injEq, @eq_comm World]
  simp

/-! ## What the log and the world keep -/

structure World.Later (w w' : World) : Prop where
  calls : w.calls <+: w'.calls
  replies : w'.replies = w.replies
  cancels : w'.cancels = w.cancels

instance : Std.Refl World.Later := ⟨fun _ => ⟨List.prefix_refl _, rfl, rfl⟩⟩

instance : IsTrans World World.Later :=
  ⟨fun _ _ _ h1 h2 => ⟨h1.calls.trans h2.calls, h2.replies.trans h1.replies, h2.cancels.trans h1.cancels⟩⟩

theorem chatBounded_later : Keeps World.Later chatBounded := fun _ => ⟨List.prefix_refl _, rfl, rfl⟩

theorem shouldCancel_later : Keeps World.Later shouldCancel := fun _ => ⟨List.prefix_refl _, rfl, rfl⟩

theorem noteCall_later (c : Call) : Keeps World.Later (noteCall c) := fun _ => ⟨List.prefix_append _ _, rfl, rfl⟩

theorem noteRepair_later (updated repaired : Text) : Keeps World.Later (noteRepair updated repaired) :=
  fun _ => ⟨List.prefix_refl _, rfl, rfl⟩

theorem askForSummary_later : Keeps World.Later (askForSummary s) := by
  unfold askForSummary
  refine chatBounded_later.bind fun response => ?_
  split
  · exact keeps_pure _
  · split
    · exact keeps_throw _
    · simp only
      split
      · exact keeps_throw _
      · exact chatBounded_later.bind fun _ => keeps_lift _

theorem generateSummary_later (messages : List Message) (previous : Option Text) :
    Keeps World.Later (generateSummary s messages previous) := by
  unfold generateSummary
  split
  · exact keeps_pure _
  · exact (askForSummary_later s).bind fun _ => (noteCall_later _).bind fun _ => keeps_pure _

theorem chunkRounds_later (chunks : List (List Message)) : ∀ summary, Keeps World.Later (chunkRounds s chunks summary) := by
  induction chunks with
  | nil => intro summary; exact keeps_pure _
  | cons chunk chunks ih =>
    intro summary
    refine shouldCancel_later.bind fun cancelled => ?_
    split
    · exact keeps_throw _
    · exact (generateSummary_later s _ _).bind fun _ => ih _

theorem summarizeChunks_later (messages : List Message) (maxChunkTokens : Nat) (previous : Option Text) :
    Keeps World.Later (summarizeChunks s messages maxChunkTokens previous) := by
  unfold summarizeChunks
  split
  · exact keeps_pure _
  · exact (chunkRounds_later s _ _).bind fun _ => keeps_pure _

theorem summarizeWithFallback_later (messages : List Message) (maxChunkTokens : Nat) (previous : Option Text) :
    Keeps World.Later (summarizeWithFallback s messages maxChunkTokens previous) := by
  unfold summarizeWithFallback
  split
  · exact keeps_pure _
  · refine (summarizeChunks_later s _ _ _).tryCatch fun _ => ?_
    simp only
    split
    · exact (summarizeChunks_later s _ _ _).tryCatch fun _ => keeps_throw _
    · exact keeps_throw _

theorem summarizeParts_later (maxChunkTokens : Nat) (parts : List (List Message)) :
    Keeps World.Later (summarizeParts s maxChunkTokens parts) := by
  induction parts with
  | nil => exact keeps_pure _
  | cons part parts ih => exact (summarizeWithFallback_later s _ _ _).bind fun _ => ih.bind fun _ => keeps_pure _

theorem mergeSummaries_later (maxChunkTokens : Nat) (previous : Option Text) (summaries : List Text) :
    Keeps World.Later (mergeSummaries s maxChunkTokens previous summaries) := by
  unfold mergeSummaries
  split
  · exact keeps_pure _
  · exact summarizeWithFallback_later s _ _ _

theorem summarizeStripped_later (messages : List Message) (maxChunkTokens : Nat) (previous : Option Text) :
    Keeps World.Later (summarizeStripped s messages maxChunkTokens previous) := by
  unfold summarizeStripped
  simp only
  split
  · exact summarizeWithFallback_later s _ _ _
  · split
    · exact summarizeWithFallback_later s _ _ _
    · exact (summarizeParts_later s _ _).bind fun _ => mergeSummaries_later s _ _ _

theorem summarizeInStages_later (messages : List Message) (maxChunkTokens : Nat) (previous : Option Text) :
    Keeps World.Later (summarizeInStages s messages maxChunkTokens previous) := by
  unfold summarizeInStages
  split
  · exact keeps_pure _
  · exact (keeps_lift _).bind fun _ => summarizeStripped_later s _ _ _

/-! ## What a returned summary has read -/

theorem askForSummary_returns {output : Text} (h : Returns (askForSummary s) w output w') :
    w'.calls = w.calls ∧ Text.hasText output = true := by
  unfold askForSummary at h
  simp only [returns_bind, chatBounded_returns] at h
  obtain ⟨response, w1, ⟨_, rfl⟩, h⟩ := h
  rcases hv : validatedSummaryText s.ops response with e | text
  · rw [hv] at h
    simp only at h
    split at h
    · exact absurd h returns_throw
    · split at h
      · exact absurd h returns_throw
      · simp only [returns_bind, chatBounded_returns, returns_lift] at h
        obtain ⟨response', w2, ⟨_, rfl⟩, hv', rfl⟩ := h
        exact ⟨rfl, validatedSummaryText_hasText s.ops hv'⟩
  · rw [hv] at h
    simp only [returns_pure] at h
    obtain ⟨rfl, rfl⟩ := h
    exact ⟨rfl, validatedSummaryText_hasText s.ops hv⟩

theorem generateSummary_returns {output : Text}
    (hne : messages ≠ []) (h : Returns (generateSummary s messages previous) w output w') :
    w'.calls = w.calls ++ [⟨messages, previous, output⟩] ∧ Text.hasText output = true := by
  unfold generateSummary at h
  rw [if_neg hne] at h
  simp only [returns_bind, returns_pure, noteCall_returns] at h
  obtain ⟨out, w1, hask, _, w2, rfl, rfl, rfl⟩ := h
  obtain ⟨h1, h2⟩ := askForSummary_returns s hask
  exact ⟨by rw [h1], h2⟩

/-- The loop invariant: the calls made are the segment that chains from `summary`. -/
theorem chunkRounds_returns : ∀ (chunks : List (List Message)) (summary last : Option Text) (w w' : World),
    (∀ chunk ∈ chunks, chunk ≠ []) → Returns (chunkRounds s chunks summary) w last w' →
    ∃ segment, w'.calls = w.calls ++ segment ∧ segment.map Call.chunk = chunks ∧ Chained summary segment last := by
  intro chunks
  induction chunks with
  | nil =>
    intro summary last w w' _ h
    simp only [chunkRounds, returns_pure] at h
    obtain ⟨rfl, rfl⟩ := h
    exact ⟨[], by simp, rfl, rfl⟩
  | cons chunk chunks ih =>
    intro summary last w w' hne h
    simp only [chunkRounds, returns_bind, shouldCancel_returns] at h
    obtain ⟨cancelled, w1, ⟨_, rfl⟩, h⟩ := h
    split at h
    · exact absurd h returns_throw
    · rw [returns_bind] at h
      obtain ⟨output, w2, hgen, hrest⟩ := h
      obtain ⟨h1, h2⟩ := generateSummary_returns s (hne chunk (by simp)) hgen
      obtain ⟨segment, h3, h4, h5⟩ := ih (some output) last w2 w' (fun c hc => hne c (by simp [hc])) hrest
      refine ⟨⟨chunk, summary, output⟩ :: segment, ?_, by simp [h4], rfl, h2, h5⟩
      rw [h3, h1]
      simp

theorem Chained.hasText : ∀ {segment : List Call} {previous last : Option Text}, segment ≠ [] →
    Chained previous segment last → ∃ t, last = some t ∧ Text.hasText t = true := by
  intro segment
  induction segment with
  | nil => intro previous last hne; exact absurd rfl hne
  | cons c rest ih =>
    intro previous last _ h
    obtain ⟨_, h2, h3⟩ := h
    by_cases hr : rest = []
    · subst hr
      exact ⟨c.output, h3, h2⟩
    · exact ih hr h3

variable {maxChunkTokens : Nat}

theorem summarizeChunks_returns
    (hne : messages ≠ []) (h : Returns (summarizeChunks s messages maxChunkTokens previous) w summary w') :
    ReadInto w'.calls previous messages summary ∧ Text.hasText summary = true := by
  unfold summarizeChunks at h
  rw [if_neg hne] at h
  simp only [returns_bind, returns_pure] at h
  obtain ⟨last, w1, hrounds, rfl, rfl⟩ := h
  have hpieces := chunkMessagesByMaxTokens_hasPieces s.est messages maxChunkTokens
  obtain ⟨segment, h1, h2, h3⟩ := chunkRounds_returns s _ _ _ _ _
    (chunkMessagesByMaxTokens_nonempty s.est messages maxChunkTokens) hrounds
  have hseg : segment ≠ [] := by
    rintro rfl
    obtain ⟨pieces, hp, hflat⟩ := hpieces
    rw [← h2] at hflat
    cases hp with
    | nil => exact hne rfl
    | @cons m ps ms pss hm _ =>
      have hps : ps = [] := by
        simp only [List.map_nil, List.flatten_nil, List.flatten_cons] at hflat
        exact (List.append_eq_nil_iff.mp hflat.symm).1
      exact hm.ne_nil hps
  obtain ⟨t, rfl, ht⟩ := h3.hasText hseg
  have hfall : orFallback (some t) = t := by simp [orFallback, Text.hasText_ne_nil ht]
  rw [hfall]
  exact ⟨⟨segment, by rw [h1]; exact (List.suffix_append _ _).isInfix, h3, h2 ▸ hpieces⟩, ht⟩

theorem summarizeWithFallback_returns (hne : messages ≠ [])
    (h : Returns (summarizeWithFallback s messages maxChunkTokens previous) w summary w') :
    ReadInto w'.calls previous messages summary ∧ Text.hasText summary = true := by
  unfold summarizeWithFallback at h
  rw [if_neg hne, returns_tryCatch] at h
  rcases h with h | ⟨e, w1, _, h⟩
  · exact summarizeChunks_returns s hne h
  · simp only at h
    split at h
    · rw [returns_tryCatch] at h
      rcases h with h | ⟨e, w2, _, h⟩
      · exact summarizeChunks_returns s hne h
      · exact absurd h returns_throw
    · exact absurd h returns_throw

variable {e : Failure}

theorem summarizeWithFallback_fails (h : Fails (summarizeWithFallback s messages maxChunkTokens previous) w e w') :
    ∃ why, e = .compaction why := by
  unfold summarizeWithFallback at h
  split at h
  · exact absurd h fails_pure
  · rw [fails_tryCatch] at h
    obtain ⟨e1, w1, _, h⟩ := h
    simp only at h
    split at h
    · rw [fails_tryCatch] at h
      obtain ⟨e2, w2, _, h⟩ := h
      exact ⟨_, (fails_throw.mp h).1⟩
    · exact ⟨_, (fails_throw.mp h).1⟩

theorem summarizeParts_returns : ∀ (parts : List (List Message)) (summaries : List Text)
    (w w' : World), (∀ part ∈ parts, part ≠ []) → Returns (summarizeParts s maxChunkTokens parts) w summaries w' →
    List.Forall₂ (ReadInto w'.calls none) parts summaries := by
  intro parts
  induction parts with
  | nil =>
    intro summaries w w' _ h
    simp only [summarizeParts, returns_pure] at h
    rw [h.1]
    exact .nil
  | cons part parts ih =>
    intro summaries w w' hne h
    simp only [summarizeParts, returns_bind, returns_pure] at h
    obtain ⟨summary, w1, h1, rest, w2, h2, rfl, rfl⟩ := h
    have hread := (summarizeWithFallback_returns s (hne part (by simp)) h1).1
    have hlater := (summarizeParts_later s maxChunkTokens parts).returns h2
    exact .cons (hread.mono hlater.calls) (ih rest w1 _ (fun p hp => hne p (by simp [hp])) h2)

theorem summarizeParts_fails : ∀ (parts : List (List Message)) (w w' : World),
    Fails (summarizeParts s maxChunkTokens parts) w e w' → ∃ why, e = .compaction why := by
  intro parts
  induction parts with
  | nil => intro w w' h; exact absurd h fails_pure
  | cons part parts ih =>
    intro w w' h
    simp only [summarizeParts, fails_bind, fails_pure, and_false, exists_false, or_false] at h
    rcases h with h | ⟨summary, w1, _, h⟩
    · exact summarizeWithFallback_fails s h
    · exact ih w1 w' h

/-- The shares that are not empty are the shares. -/
theorem splits_flatten (messages : List Message) (parts : Nat) :
    ((splitMessagesByTokenShare s.est messages parts).filter fun chunk => chunk ≠ []).flatten = messages := by
  have hall : (splitMessagesByTokenShare s.est messages parts).filter (fun chunk => chunk ≠ []) =
      splitMessagesByTokenShare s.est messages parts := by
    rw [List.filter_eq_self]
    intro chunk hchunk
    simpa using splitMessagesByTokenShare_nonempty s.est messages parts chunk hchunk
  rw [hall, splitMessagesByTokenShare_flatten]

theorem mergeSummaries_returns {summaries : List Text} (htwo : 1 < summaries.length)
    (h : Returns (mergeSummaries s maxChunkTokens previous summaries) w summary w') :
    ReadInto w'.calls previous (summaries.map mergeMessage) summary ∧ Text.hasText summary = true := by
  unfold mergeSummaries at h
  split at h
  · simp at htwo
  · refine summarizeWithFallback_returns s ?_ h
    intro he
    rw [List.map_eq_nil_iff.mp he] at htwo
    simp at htwo

theorem summarizeInStages_returns
    (hne : messages ≠ []) (h : Returns (summarizeInStages s messages maxChunkTokens previous) w summary w') :
    Summarises w'.calls previous messages summary ∧ Text.hasText summary = true := by
  unfold summarizeInStages at h
  rw [if_neg hne] at h
  simp only [returns_bind, returns_lift] at h
  obtain ⟨clipped, _, ⟨hclip, rfl⟩, h⟩ := h
  have hforall := stripToolResults_ok hclip
  have hne' : clipped ≠ [] := by
    rintro rfl
    cases hforall
    exact hne rfl
  have whole {w1 : World} (h : Returns (summarizeWithFallback s clipped maxChunkTokens previous) w1 summary w') :
      Summarises w'.calls previous messages summary ∧ Text.hasText summary = true := by
    obtain ⟨h1, h2⟩ := summarizeWithFallback_returns s hne' h
    exact ⟨⟨clipped, hforall, Or.inl h1⟩, h2⟩
  unfold summarizeStripped at h
  simp only at h
  split at h
  · exact whole h
  · split at h
    · exact whole h
    · rename_i hlen
      simp only [returns_bind] at h
      obtain ⟨partials, w1, hparts, h⟩ := h
      have hread := summarizeParts_returns s _ _ _ _ (fun part hp => by simpa using (List.mem_filter.mp hp).2) hparts
      have hpl := hread.length_eq
      obtain ⟨h1, h2⟩ := mergeSummaries_returns s (by omega) h
      have hlater := (mergeSummaries_later s _ _ _).returns h
      refine ⟨⟨clipped, hforall, Or.inr ⟨_, partials, splits_flatten s clipped DEFAULT_PARTS, ?_, h1⟩⟩, h2⟩
      exact hread.imp fun _ _ hr => hr.mono hlater.calls

theorem summarizeStripped_fails
    (h : Fails (summarizeStripped s messages maxChunkTokens previous) w e w') : ∃ why, e = .compaction why := by
  unfold summarizeStripped at h
  simp only at h
  split at h
  · exact summarizeWithFallback_fails s h
  · split at h
    · exact summarizeWithFallback_fails s h
    · rw [fails_bind] at h
      rcases h with h | ⟨partials, w2, _, h⟩
      · exact summarizeParts_fails s _ _ _ h
      · unfold mergeSummaries at h
        split at h
        · exact absurd h fails_pure
        · exact summarizeWithFallback_fails s h

/-- An attempt fails with a `CompactionError`, or on a tool result that cannot be clipped. -/
theorem summarizeInStages_fails (h : Fails (summarizeInStages s messages maxChunkTokens previous) w e w') :
    (∃ why, e = .compaction why) ∨ (∃ m ∈ messages, clippable m = false) ∧ ∃ why, e = .typeError why := by
  unfold summarizeInStages at h
  split at h
  · exact absurd h fails_pure
  · simp only [fails_bind, fails_lift, returns_lift] at h
    rcases h with ⟨he, _⟩ | ⟨clipped, w1, ⟨hclip, rfl⟩, h⟩
    · rcases stripToolResults_cases messages with ⟨_, clipped, hok⟩ | ⟨hbad, why, herr⟩
      · rw [hok] at he
        cases he
      · rw [herr] at he
        cases he
        exact Or.inr ⟨hbad, why, rfl⟩
    · exact Or.inl (summarizeStripped_fails s h)

theorem summarizeInStages_typeError {w : World} (maxChunkTokens : Nat) (previous : Option Text)
    (h : ∃ m ∈ messages, clippable m = false) :
    ∃ why, Fails (summarizeInStages s messages maxChunkTokens previous) w (.typeError why) w := by
  obtain ⟨m, hm, hc⟩ := h
  have hne : messages ≠ [] := List.ne_nil_of_mem hm
  rcases stripToolResults_cases messages with ⟨hall, _⟩ | ⟨_, why, herr⟩
  · rw [hall m hm] at hc
    cases hc
  · refine ⟨why, ?_⟩
    unfold summarizeInStages
    rw [if_neg hne, fails_bind]
    exact Or.inl (fails_lift.mpr ⟨herr, rfl⟩)

theorem repairDroppedDetails_later (previous updated : Text) (owner : List Text) :
    Keeps World.Later (repairDroppedDetails s previous updated owner) := by
  unfold repairDroppedDetails
  simp only
  split
  · exact keeps_pure _
  · refine Keeps.tryCatch ?_ fun e => ?_
    · exact chatBounded_later.bind fun _ => (keeps_lift _).bind fun _ => (noteRepair_later _ _).bind fun _ => keeps_pure _
    · split
      · split
        · exact keeps_throw _
        · exact keeps_pure _
      · exact keeps_pure _

/-- The record comes back as it was, or as the repair call wrote it anew. -/
theorem repairDroppedDetails_returns {previous updated : Text} {owner : List Text}
    {result : Text × List Text × List Text} (h : Returns (repairDroppedDetails s previous updated owner) w result w') :
    result.1 = updated ∨ (updated, result.1) ∈ w'.repairs := by
  unfold repairDroppedDetails at h
  simp only at h
  split at h
  · exact Or.inl (by rw [(returns_pure.mp h).1])
  · rw [returns_tryCatch] at h
    rcases h with h | ⟨e, w1, _, h⟩
    · simp only [returns_bind, chatBounded_returns, returns_lift, noteRepair_returns, returns_pure] at h
      obtain ⟨response, _, ⟨_, rfl⟩, repaired, _, ⟨_, rfl⟩, _, _, rfl, rfl, rfl⟩ := h
      exact Or.inr (by simp)
    · split at h
      · split at h
        · exact absurd h returns_throw
        · exact Or.inl (by rw [(returns_pure.mp h).1])
      · exact Or.inl (by rw [(returns_pure.mp h).1])

theorem repairDroppedDetails_fails {previous updated : Text} {owner : List Text}
    (h : Fails (repairDroppedDetails s previous updated owner) w e w') : ∃ why, e = .compaction why := by
  unfold repairDroppedDetails at h
  simp only at h
  split at h
  · exact absurd h fails_pure
  · rw [fails_tryCatch] at h
    obtain ⟨e1, w1, _, h⟩ := h
    split at h
    · split at h
      · exact ⟨_, (fails_throw.mp h).1⟩
      · exact absurd h fails_pure
    · exact absurd h fails_pure

/-! ## A provider that always answers -/

structure World.Steady (w : World) : Prop where
  replies : ∀ n, w.replies n = .response ⟨"stop".toList, "ok".toList⟩
  cancels : ∀ n, w.cancels n = false

theorem World.Steady.later (h : w.Steady) (hl : World.Later w w') : w'.Steady :=
  ⟨by rw [hl.replies]; exact h.replies, by rw [hl.cancels]; exact h.cancels⟩

theorem validatedSummaryText_steady (ops : TextOps) :
    validatedSummaryText ops ⟨"stop".toList, "ok".toList⟩ = .ok (redactSecrets ops "ok".toList) := by
  have hstrip : Text.strip "ok".toList = "ok".toList := by decide
  have hreason : stripReasoningBlocks ops "ok".toList = "ok".toList := if_pos (Or.inr (by decide))
  unfold validatedSummaryText
  simp only [hstrip, hreason]
  rw [if_neg (by decide), if_neg (by decide), if_neg (by decide)]

theorem generateSummary_steady {w : World} (h : w.Steady) (messages : List Message) (previous : Option Text) :
    ∃ output w', Returns (generateSummary s messages previous) w output w' := by
  unfold generateSummary
  split
  · exact ⟨_, _, returns_pure.mpr ⟨rfl, rfl⟩⟩
  · have hask : Returns (askForSummary s) w (redactSecrets s.ops "ok".toList) { w with requests := w.requests + 1 } := by
      unfold askForSummary
      rw [returns_bind]
      refine ⟨_, _, chatBounded_returns.mpr ⟨h.replies _, rfl⟩, ?_⟩
      rw [validatedSummaryText_steady]
      exact returns_pure.mpr ⟨rfl, rfl⟩
    have hnote (c : Call) (w1 : World) : Returns (do noteCall c; pure c.output) w1 c.output { w1 with calls := w1.calls ++ [c] } :=
      returns_bind.mpr ⟨(), _, noteCall_returns.mpr rfl, returns_pure.mpr ⟨rfl, rfl⟩⟩
    exact ⟨_, _, returns_bind.mpr ⟨_, _, hask, hnote ⟨messages, previous, _⟩ _⟩⟩

theorem chunkRounds_steady : ∀ (chunks : List (List Message)) (summary : Option Text) (w : World), w.Steady →
    ∃ last w', Returns (chunkRounds s chunks summary) w last w' := by
  intro chunks
  induction chunks with
  | nil => intro summary w _; exact ⟨_, _, returns_pure.mpr ⟨rfl, rfl⟩⟩
  | cons chunk chunks ih =>
    intro summary w h
    have hpoll : Returns shouldCancel w false { w with polls := w.polls + 1 } :=
      shouldCancel_returns.mpr ⟨(h.cancels _).symm, rfl⟩
    have h1 := h.later (shouldCancel_later.returns hpoll)
    obtain ⟨output, w2, hgen⟩ := generateSummary_steady s h1 chunk summary
    obtain ⟨last, w3, hrest⟩ := ih (some output) w2 (h1.later ((generateSummary_later s _ _).returns hgen))
    exact ⟨last, w3, returns_bind.mpr ⟨false, _, hpoll, returns_bind.mpr ⟨output, w2, hgen, hrest⟩⟩⟩

theorem summarizeWithFallback_steady {w : World} (h : w.Steady) (messages : List Message) (maxChunkTokens : Nat)
    (previous : Option Text) : ∃ summary w', Returns (summarizeWithFallback s messages maxChunkTokens previous) w summary w' := by
  unfold summarizeWithFallback
  split
  · exact ⟨_, _, returns_pure.mpr ⟨rfl, rfl⟩⟩
  · rename_i hne
    obtain ⟨last, w1, hr⟩ := chunkRounds_steady s (chunkMessagesByMaxTokens s.est messages maxChunkTokens) previous w h
    refine ⟨orFallback last, w1, returns_tryCatch.mpr (Or.inl ?_)⟩
    unfold summarizeChunks
    rw [if_neg hne, returns_bind]
    exact ⟨last, w1, hr, returns_pure.mpr ⟨rfl, rfl⟩⟩

theorem summarizeParts_steady : ∀ (parts : List (List Message)) (w : World), w.Steady →
    ∃ summaries w', Returns (summarizeParts s maxChunkTokens parts) w summaries w' := by
  intro parts
  induction parts with
  | nil => intro w _; exact ⟨_, _, returns_pure.mpr ⟨rfl, rfl⟩⟩
  | cons part parts ih =>
    intro w h
    obtain ⟨summary, w1, h1⟩ := summarizeWithFallback_steady s h part maxChunkTokens none
    obtain ⟨summaries, w2, h2⟩ := ih w1 (h.later ((summarizeWithFallback_later s _ _ _).returns h1))
    exact ⟨summary :: summaries, w2, returns_bind.mpr
      ⟨summary, w1, h1, returns_bind.mpr ⟨summaries, w2, h2, returns_pure.mpr ⟨rfl, rfl⟩⟩⟩⟩

theorem summarizeStripped_steady {w : World} (h : w.Steady) (messages : List Message) (maxChunkTokens : Nat)
    (previous : Option Text) : ∃ summary w', Returns (summarizeStripped s messages maxChunkTokens previous) w summary w' := by
  unfold summarizeStripped
  simp only
  split
  · exact summarizeWithFallback_steady s h _ _ _
  · split
    · exact summarizeWithFallback_steady s h _ _ _
    · obtain ⟨summaries, w1, h1⟩ := summarizeParts_steady s
        ((splitMessagesByTokenShare s.est messages DEFAULT_PARTS).filter fun chunk => chunk ≠ []) w h
      have hs := h.later ((summarizeParts_later s maxChunkTokens _).returns h1)
      have hmerge : ∃ summary w', Returns (mergeSummaries s maxChunkTokens previous summaries) w1 summary w' := by
        unfold mergeSummaries
        split
        · exact ⟨_, _, returns_pure.mpr ⟨rfl, rfl⟩⟩
        · exact summarizeWithFallback_steady s hs _ _ _
      obtain ⟨summary, w2, h2⟩ := hmerge
      exact ⟨summary, w2, returns_bind.mpr ⟨summaries, w1, h1, h2⟩⟩

theorem summarizeInStages_steady {w : World} (h : w.Steady)
    (hclip : ∀ m ∈ messages, clippable m = true) (maxChunkTokens : Nat) (previous : Option Text) :
    ∃ summary w', Returns (summarizeInStages s messages maxChunkTokens previous) w summary w' := by
  unfold summarizeInStages
  split
  · exact ⟨_, _, returns_pure.mpr ⟨rfl, rfl⟩⟩
  · rcases stripToolResults_cases messages with ⟨_, clipped, hok⟩ | ⟨⟨m, hm, hc⟩, _⟩
    · obtain ⟨summary, w', hr⟩ := summarizeStripped_steady s h clipped maxChunkTokens previous
      exact ⟨summary, w', returns_bind.mpr ⟨clipped, w, returns_lift.mpr ⟨hok, rfl⟩, hr⟩⟩
    · rw [hclip m hm] at hc
      cases hc

end Flowly.Compaction
