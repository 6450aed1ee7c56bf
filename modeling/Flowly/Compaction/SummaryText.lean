/-
  Flowly.Compaction.SummaryText — the texts that go into a summary and come out of the
  model (`flowly/compaction/summarizer.py`: `validated_summary_text`,
  `_strip_tool_results_for_compaction`, `ground_historical_request`,
  `reject_invented_user_attribution`; `flowly/compaction/redaction.py`).

  A regular expression is a `Pattern`: how `re` cuts a text into gaps and hits. The
  expressions are parameters of the model (`TextOps`), so nothing below depends on what
  they match. `clipToolResult` keeps the source's `len(content)` and slice, which know
  texts and lists but not `None`, and its `+`, which adds a text to a text only.

  Proved: a validated summary has text in it (`validatedSummaryText_hasText`).
-/

import Flowly.Compaction.KeepRecent

namespace Flowly.Compaction

open Flowly.Lib

/-- What an attempt raises: a `CompactionError`, a `TypeError`, or what the provider raised. -/
inductive Failure where
  | compaction (why : Text)
  | typeError (why : Text)
  | provider (why : Text)

/-- `str(e)`. -/
def Failure.why : Failure → Text
  | .compaction why => why
  | .typeError why => why
  | .provider why => why

/-! ## Regular expressions -/

inductive Span where
  | gap (t : Text)
  | hit (matched groups : Text)

def Span.source : Span → Text
  | .gap t => t
  | .hit t _ => t

structure Pattern where
  scan : Text → List Span
  /-- The gaps and hits are the text. -/
  joins : ∀ t, ((scan t).map Span.source).flatten = t

def Span.replaced (replacement : Text → Text) : Span → Text
  | .gap t => t
  | .hit _ groups => replacement groups

def Pattern.sub (p : Pattern) (replacement : Text → Text) (t : Text) : Text :=
  ((p.scan t).map (Span.replaced replacement)).flatten

def Pattern.search (p : Pattern) (t : Text) : Option Text :=
  (p.scan t).findSome? fun | .gap _ => none | .hit matched _ => some matched

/-- `re.sub` with `count=1`. -/
def subFirst (replacement : Text) : List Span → Text
  | [] => []
  | .gap t :: rest => t ++ subFirst replacement rest
  | .hit _ _ :: rest => replacement ++ (rest.map Span.source).flatten

/-- A row of `_PATTERNS`: the pattern, and what the replacement has after `[redacted]`. -/
structure Secret where
  pattern : Pattern
  suffix : Text

structure TextOps where
  secrets : List Secret
  closedReasoningBlock : Pattern
  leadingOpenReasoning : Pattern
  historicalRequestSection : Pattern
  inventedUserAttribution : Pattern
  /-- `json.dumps(text, ensure_ascii=False)`. -/
  jsonDumps : Text → Text
  /-- `owner_identifiers`. -/
  ownerIdentifiers : List Message → List Text
  /-- `_missing_details`, its two lists joined. -/
  missingDetails : Text → Text → List Text → List Text

variable (ops : TextOps)

def REDACTED : Text := "[redacted]".toList

def redactSecrets (t : Text) : Text :=
  ops.secrets.foldl (fun redacted secret => secret.pattern.sub (fun groups => groups ++ REDACTED ++ secret.suffix) redacted) t

def stripReasoningBlocks (t : Text) : Text :=
  if t = [] ∨ '<' ∉ t then t
  else Text.strip (ops.leadingOpenReasoning.sub (fun _ => []) (ops.closedReasoningBlock.sub (fun _ => []) t))

/-! ## What the model answered -/

structure Response where
  /-- The finish reason in lower case, "" for none. -/
  finishReason : Text
  /-- "" for none. -/
  content : Text

def PROVIDER_ERROR_PREFIX : Text := "Error calling LLM:".toList

def TRUNCATED_FINISH_REASONS : List Text :=
  ["length".toList, "max_tokens".toList, "incomplete".toList, "content_filter".toList]

/-- Finish reasons are told apart by their equality test. -/
local instance lawful_reason : LawfulBEq Text := inferInstanceAs (LawfulBEq (List Char))

def validatedSummaryText (response : Response) : Except Failure Text :=
  let content := Text.strip response.content
  if response.finishReason = "error".toList ∨ Text.startsWith content PROVIDER_ERROR_PREFIX then
    .error (.compaction ("summarization provider call failed: ".toList ++
      if content.take 300 = [] then response.finishReason else content.take 300))
  else if response.finishReason ∈ TRUNCATED_FINISH_REASONS then
    .error (.compaction ("summarization was cut off (finish_reason='".toList ++ response.finishReason ++
      "') — committing it would silently drop whatever it had not summarised".toList))
  else
    let content := stripReasoningBlocks ops content
    if content = [] then .error (.compaction "summarization returned an empty summary".toList)
    else .ok (redactSecrets ops content)

/-! ## Tool results are clipped -/

def MAX_TOOL_RESULT_CHARS : Nat := 1000

def TOOL_OUTPUT_TRUNCATED : Text := "\n[tool output truncated for compaction]".toList

/-- One round of `_strip_tool_results_for_compaction`. -/
def clipToolResult (m : Message) : Except Failure Message :=
  if m.role = .tool then
    match m.content with
    | .text t =>
      if t.length > MAX_TOOL_RESULT_CHARS then
        .ok { m with content := .text (t.take MAX_TOOL_RESULT_CHARS ++ TOOL_OUTPUT_TRUNCATED) }
      else .ok m
    | .parts ps =>
      if ps.length > MAX_TOOL_RESULT_CHARS then
        .error (.typeError "can only concatenate list (not \"str\") to list".toList)
      else .ok m
    | .null => .error (.typeError "object of type 'NoneType' has no len()".toList)
  else .ok m

def stripToolResults (messages : List Message) : Except Failure (List Message) := messages.mapM clipToolResult

/-- The slice of `clipToolResult` can be taken. -/
def clippable (m : Message) : Bool :=
  m.role ≠ .tool || match m.content with
    | .text _ => true
    | .parts ps => ps.length ≤ MAX_TOOL_RESULT_CHARS
    | .null => false

/-! ## The checkpoint's anchor in what the user asked -/

def HISTORICAL_REQUEST_HEADING : Text := "## Most Recent Historical Request".toList

def MAX_HISTORICAL_REQUEST_CHARS : Nat := 4000

def messageText (m : Message) : Text :=
  match m.content with
  | .text t => t
  | .parts ps => Text.join [' '] (ps.filterMap fun | .text t => some t | _ => none)
  | .null => []

def historicalRequestOf (m : Message) : Option Text :=
  if m.role ≠ .user ∨ m.nudge ∨ m.displayHidden then none
  else
    let text := Text.strip (redactSecrets ops (messageText m))
    if text = [] then none
    else
      let text := Text.join [' '] (Text.words text)
      some (if text.length > MAX_HISTORICAL_REQUEST_CHARS then
        Text.rstrip (text.take (MAX_HISTORICAL_REQUEST_CHARS - 16)) ++ " …[truncated]".toList
      else text)

def latestHistoricalRequestSnapshot (messages : List Message) : Option Text :=
  (messages.reverse.findSome? (historicalRequestOf ops)).map fun text =>
    "User asked (deterministic, from compacted turns): ".toList ++ ops.jsonDumps text ++
      "\nHistorical reference only; newer raw user messages after this summary always win.".toList

def groundHistoricalRequest (summary : Text) (messages : List Message) : Text :=
  match latestHistoricalRequestSnapshot ops messages with
  | none => Text.strip summary
  | some snapshot =>
    let replacement := HISTORICAL_REQUEST_HEADING ++ ['\n'] ++ snapshot ++ ['\n', '\n']
    if (ops.historicalRequestSection.search summary).isSome then
      Text.strip (subFirst replacement (ops.historicalRequestSection.scan summary))
    else Text.strip (replacement ++ Text.strip summary)

def rejectInventedUserAttribution (summary : Text) (messages : List Message) : Except Failure Unit :=
  if messages.any fun m => m.role = .user then .ok ()
  else match ops.inventedUserAttribution.search summary with
    | some matched => .error (.compaction
        ("summary invented user attribution for a session with no user turns: '".toList ++ matched ++ ['\'']))
    | none => .ok ()

/-! ## Redaction and validation leave text -/

theorem sub_hasText (p : Pattern) {replacement : Text → Text} (hr : ∀ groups, Text.hasText (replacement groups) = true)
    {t : Text} (ht : Text.hasText t = true) : Text.hasText (p.sub replacement t) = true := by
  by_cases hit : ∃ matched groups, Span.hit matched groups ∈ p.scan t
  · obtain ⟨matched, groups, hm⟩ := hit
    obtain ⟨c, hc, hs⟩ := Text.hasText_iff.mp (hr groups)
    exact Text.hasText_iff.mpr ⟨c, List.mem_flatten.mpr ⟨_, List.mem_map.mpr ⟨_, hm, rfl⟩, hc⟩, hs⟩
  · have hsame : (p.scan t).map (Span.replaced replacement) = (p.scan t).map Span.source := by
      refine List.map_congr_left fun span hspan => ?_
      cases span with
      | gap g => rfl
      | hit matched groups => exact absurd ⟨matched, groups, hspan⟩ hit
    rw [Pattern.sub, hsame, p.joins]
    exact ht

theorem redacted_mem : '[' ∈ REDACTED := by decide

theorem redactSecrets_hasText {t : Text} (h : Text.hasText t = true) : Text.hasText (redactSecrets ops t) = true := by
  unfold redactSecrets
  induction ops.secrets generalizing t with
  | nil => exact h
  | cons secret secrets ih =>
    refine ih (sub_hasText secret.pattern ?_ h)
    intro groups
    have hmem : '[' ∈ groups ++ REDACTED ++ secret.suffix :=
      List.mem_append_left _ (List.mem_append_right _ redacted_mem)
    exact Text.hasText_iff.mpr ⟨'[', hmem, by decide⟩

theorem stripReasoningBlocks_hasText {t : Text} (hs : t = [] ∨ Text.hasText t = true) (h : stripReasoningBlocks ops t ≠ []) :
    Text.hasText (stripReasoningBlocks ops t) = true := by
  unfold stripReasoningBlocks at h ⊢
  split
  · rename_i hc
    rw [if_pos hc] at h
    exact hs.resolve_left h
  · rename_i hc
    rw [if_neg hc] at h
    exact Text.hasText_of_strip_ne_nil h

theorem validatedSummaryText_hasText {response : Response} {t : Text} (h : validatedSummaryText ops response = .ok t) :
    Text.hasText t = true := by
  unfold validatedSummaryText at h
  simp only at h
  split at h
  · cases h
  · split at h
    · cases h
    · split at h
      · cases h
      · rename_i hne
        cases h
        refine redactSecrets_hasText ops (stripReasoningBlocks_hasText ops ?_ hne)
        by_cases hs : Text.strip response.content = []
        · exact Or.inl hs
        · exact Or.inr (Text.hasText_of_strip_ne_nil hs)

theorem clipToolResult_ok_iff {m : Message} : (∃ m', clipToolResult m = .ok m') ↔ clippable m = true := by
  unfold clipToolResult clippable
  by_cases hr : m.role = .tool
  · cases hc : m.content with
    | text t => by_cases hl : t.length > MAX_TOOL_RESULT_CHARS <;> simp [hr, hl]
    | parts ps =>
      by_cases hl : ps.length > MAX_TOOL_RESULT_CHARS
      · simp [hr, hl]
      · simp [hr, hl]
        omega
    | null => simp [hr]
  · simp [hr]

theorem clipToolResult_error {m : Message} {e : Failure} (h : clipToolResult m = .error e) : ∃ why, e = .typeError why := by
  unfold clipToolResult at h
  split at h
  · split at h
    · split at h <;> cases h
    · split at h
      · cases h; exact ⟨_, rfl⟩
      · cases h
    · cases h; exact ⟨_, rfl⟩
  · cases h

theorem stripToolResults_ok {messages clipped : List Message} (h : stripToolResults messages = .ok clipped) :
    List.Forall₂ (fun m m' => clipToolResult m = .ok m') messages clipped := by
  unfold stripToolResults at h
  induction messages generalizing clipped with
  | nil => cases h; exact .nil
  | cons m ms ih =>
    rw [List.mapM_cons] at h
    rcases hm : clipToolResult m with e | m'
    · rw [hm] at h; cases h
    · rcases hms : ms.mapM clipToolResult with e | ms'
      · rw [hm, hms] at h; cases h
      · rw [hm, hms] at h
        cases h
        exact .cons hm (ih hms)

/-- Clipping succeeds where every message is clippable, and raises a `TypeError` elsewhere. -/
theorem stripToolResults_cases (messages : List Message) :
    ((∀ m ∈ messages, clippable m = true) ∧ ∃ clipped, stripToolResults messages = .ok clipped) ∨
      ((∃ m ∈ messages, clippable m = false) ∧ ∃ why, stripToolResults messages = .error (.typeError why)) := by
  unfold stripToolResults
  induction messages with
  | nil => exact Or.inl ⟨by simp, [], rfl⟩
  | cons m ms ih =>
    rw [List.mapM_cons]
    rcases hm : clipToolResult m with e | m'
    · obtain ⟨why, rfl⟩ := clipToolResult_error hm
      have hc : clippable m = false := by
        rw [Bool.eq_false_iff, ne_eq, ← clipToolResult_ok_iff]
        rintro ⟨m', h⟩
        rw [hm] at h
        cases h
      exact Or.inr ⟨⟨m, by simp, hc⟩, why, rfl⟩
    · have hc := clipToolResult_ok_iff.mp ⟨m', hm⟩
      rcases ih with ⟨h1, clipped, h2⟩ | ⟨⟨m1, h1, h2⟩, why, h3⟩
      · refine Or.inl ⟨?_, m' :: clipped, by rw [h2]; rfl⟩
        intro x hx
        rcases List.mem_cons.mp hx with rfl | hx
        · exact hc
        · exact h1 x hx
      · exact Or.inr ⟨⟨m1, by simp [h1], h2⟩, why, by rw [h3]; rfl⟩

end Flowly.Compaction
