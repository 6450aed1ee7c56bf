/-
  Flowly.Session.ThreadHistory — the history a subagent's thread hands to its next turn
  (`flowly/agent/subagent_threads.py`: `_call_id`, `_call_name`, `_has_text`,
  `repair_thread_history`, `thread_history`).

  Two nested scans share a cursor: a reply with calls takes the tool messages right after
  it, and any other tool message is passed over. An id is compared as it prints, so a
  result without one answers a call without one.

  Proved: for every history each reply's calls are answered right after it, in order and
  once each, no other result is left, nothing else changes but the text of empty replies,
  and a history that is so already stays as it is. The repair is idempotent exactly where
  two calls of a reply with the same id and no result have the same name
  (`repairs_iff`): two calls without ids get two placeholders, and the next repair gives
  both the first one (`placeholders_change`).
-/

import Flowly.Session.Message
import Mathlib.Data.List.Forall2

namespace Flowly.Session.ThreadHistory

open Flowly.Lib
open Flowly.Compaction (Content Part Role)

def STOPPED_REPLY_TEXT : Text := "[This task was stopped before it finished.]".toList
def EMPTY_REPLY_TEXT : Text := "[No reply.]".toList
def UNANSWERED_CALL_TEXT : Text :=
  ("No result: the turn that made this call ended before its result was recorded. " ++
   "It may or may not have run; check before relying on it.").toList

def hasText : Content → Bool
  | .text t => Text.hasText t
  | .parts ps => ps.any fun | .text t => Text.hasText t | .image | .other => true
  | .null => false

def isEmptyReply (m : Message) : Bool := m.role = .assistant ∧ m.toolCalls = [] ∧ !hasText m.content

/-- The reply as it is kept. -/
def settled (m : Message) : Message := if isEmptyReply m then { m with content := .text EMPTY_REPLY_TEXT } else m

def callsOf (m : Message) : List ToolCall := if m.role = .assistant then m.toolCalls.filter (·.isDict) else []

def unanswered (call : ToolCall) : Message :=
  { role := .tool, content := .text UNANSWERED_CALL_TEXT, toolCallId := .text (toolCallId call), name := some call.name }

/-- One result of the inner scan: the first one for each declared id is kept. -/
def record (declared : List String) (answers : List (String × Message)) (result : Message) : List (String × Message) :=
  if result.answers ∈ declared ∧ (answers.lookup result.answers).isNone then answers ++ [(result.answers, result)] else answers

def isTool (m : Message) : Bool := m.role = .tool

def answersOf (calls : List ToolCall) (results : List Message) : List Message :=
  let answers := results.foldl (record (calls.map toolCallId)) []
  calls.map fun call => (answers.lookup (toolCallId call)).getD (unanswered call)

def repairThreadHistory : List Message → List Message
  | [] => []
  | message :: rest =>
    if isTool message then repairThreadHistory rest
    else if callsOf message = [] then settled message :: repairThreadHistory rest
    else
      settled message :: (answersOf (callsOf message) (rest.takeWhile isTool) ++ repairThreadHistory (rest.dropWhile isTool))
termination_by messages => messages.length
decreasing_by
  · exact Nat.lt_succ_self _
  · exact Nat.lt_succ_self _
  · exact Nat.lt_succ_of_le (List.dropWhile_sublist isTool).length_le

/-- A stored row; `summary` is what `is_summary_message` says of it. -/
structure Row where
  message : Message
  aborted : Bool := false
  summary : Bool := false

def projectedRow (row : Row) : Option Message :=
  match row.message.role with
  | .system => if row.summary then some { role := .system, content := row.message.content } else none
  | .user | .assistant | .tool =>
    if row.message.kind = some "context_boundary" then none
    else
      let message : Message := { role := row.message.role, content := row.message.content }
      if row.message.role = .assistant then
        if row.message.toolCalls ≠ [] then some { message with toolCalls := row.message.toolCalls }
        else if row.aborted ∧ !hasText row.message.content then some { message with content := .text STOPPED_REPLY_TEXT }
        else some message
      else if row.message.role = .tool then
        some { message with toolCallId := row.message.toolCallId, name := row.message.name }
      else some message
  | .developer | .absent => none

def threadHistory (rows : List Row) : List Message := repairThreadHistory (rows.filterMap projectedRow)

/-! ## One reply -/

variable {m : Message}

theorem repair_tool (h : isTool m = true) (rest : List Message) :
    repairThreadHistory (m :: rest) = repairThreadHistory rest := by
  rw [repairThreadHistory, if_pos h]

theorem repair_dropWhile (rest : List Message) : repairThreadHistory (rest.dropWhile isTool) = repairThreadHistory rest := by
  induction rest with
  | nil => rfl
  | cons m rest ih =>
    by_cases h : isTool m = true
    · rw [List.dropWhile_cons_of_pos h, ih, repair_tool h]
    · rw [List.dropWhile_cons_of_neg h]

/-- A message that is no result, with the results it gets. -/
theorem repair_cons (h : isTool m = false) (rest : List Message) :
    repairThreadHistory (m :: rest) =
      settled m :: (answersOf (callsOf m) (rest.takeWhile isTool) ++ repairThreadHistory rest) := by
  rw [repairThreadHistory, if_neg (by rw [h]; exact Bool.false_ne_true)]
  split
  · rename_i hnone
    rw [hnone]
    rfl
  · rw [repair_dropWhile]

/-- The first result for an id, unless one was kept before. -/
theorem recorded_lookup {declared : List String} {id : String} (hid : id ∈ declared) (results : List Message) :
    ∀ answers : List (String × Message), (results.foldl (record declared) answers).lookup id =
      (answers.lookup id).or (results.find? (·.answers = id)) := by
  induction results with
  | nil => intro answers; simp
  | cons r results ih =>
    intro answers
    rw [List.foldl_cons, ih]
    unfold record
    by_cases hr : r.answers = id
    · subst hr
      cases hlookup : answers.lookup r.answers with
      | none => simp [hid, hlookup, List.lookup_append]
      | some a => simp [hlookup]
    · rw [List.find?_cons_of_neg (by simpa using hr)]
      have hne : (id == r.answers) = false := by simpa using Ne.symm hr
      split
      · simp [List.lookup_append, List.lookup_cons, hne]
      · rfl

def answerOf (results : List Message) (call : ToolCall) : Message :=
  (results.find? (·.answers = toolCallId call)).getD (unanswered call)

theorem answersOf_eq (calls : List ToolCall) (results : List Message) : answersOf calls results = calls.map (answerOf results) := by
  unfold answersOf
  refine List.map_congr_left fun call hcall => ?_
  rw [recorded_lookup (List.mem_map_of_mem hcall)]
  rfl

variable {results : List Message}

theorem answerOf_isTool (h : ∀ r ∈ results, isTool r = true) (call : ToolCall) :
    isTool (answerOf results call) = true := by
  unfold answerOf
  cases hf : results.find? (·.answers = toolCallId call) with
  | none => rfl
  | some r => exact h r (List.mem_of_find?_eq_some hf)

theorem answerOf_answers (results : List Message) (call : ToolCall) : (answerOf results call).answers = toolCallId call := by
  unfold answerOf
  cases hf : results.find? (·.answers = toolCallId call) with
  | none => rfl
  | some r => simpa using List.find?_some hf

theorem settled_isTool (m : Message) : isTool (settled m) = isTool m := by
  unfold settled
  split
  · rfl
  · rfl

theorem settled_calls (m : Message) : callsOf (settled m) = callsOf m := by
  unfold settled
  split
  · rfl
  · rfl

theorem settled_not_empty (m : Message) : isEmptyReply (settled m) = false := by
  unfold settled
  split
  · have htext : Text.hasText EMPTY_REPLY_TEXT = true := by decide
    simp [isEmptyReply, hasText, htext]
  · rename_i h
    simpa using h

theorem settled_eq (h : isEmptyReply m = false) : settled m = m := by
  rw [settled, if_neg (by rw [h]; exact Bool.false_ne_true)]

/-! ## The form providers accept -/

/-- Each reply has text or calls, its calls are answered right after it, in order and once
    each, and there are no other results. -/
inductive Formed : List Message → Prop
  | nil : Formed []
  | cons {m : Message} {answers rest : List Message} : isTool m = false → isEmptyReply m = false →
    List.Forall₂ (fun call r => isTool r = true ∧ r.answers = toolCallId call) (callsOf m) answers → Formed rest →
    Formed (m :: (answers ++ rest))

theorem takeWhile_isTool (messages : List Message) : ∀ r ∈ messages.takeWhile isTool, isTool r = true := fun _ hr =>
  List.mem_takeWhile_imp hr

theorem forall₂_answers (calls : List ToolCall) (h : ∀ r ∈ results, isTool r = true) :
    List.Forall₂ (fun call r => isTool r = true ∧ r.answers = toolCallId call) calls (answersOf calls results) := by
  rw [answersOf_eq, List.forall₂_map_right_iff]
  exact List.forall₂_same.mpr fun call _ => ⟨answerOf_isTool h call, answerOf_answers results call⟩

theorem repair_formed (messages : List Message) : Formed (repairThreadHistory messages) := by
  induction messages with
  | nil =>
    rw [repairThreadHistory]
    exact .nil
  | cons m rest ih =>
    by_cases h : isTool m = true
    · rw [repair_tool h]
      exact ih
    · rw [repair_cons (by simpa using h)]
      refine .cons ?_ (settled_not_empty m) ?_ ih
      · rw [settled_isTool]
        simpa using h
      · rw [settled_calls]
        exact forall₂_answers _ (takeWhile_isTool rest)

/-! ## What is kept -/

theorem repair_messages (messages : List Message) :
    (repairThreadHistory messages).filter (!isTool ·) = (messages.filter (!isTool ·)).map settled := by
  induction messages with
  | nil =>
    rw [repairThreadHistory]
    rfl
  | cons m rest ih =>
    by_cases h : isTool m = true
    · rw [repair_tool h, ih, List.filter_cons_of_neg (by simp [h])]
    · rw [Bool.not_eq_true] at h
      have hanswers : (answersOf (callsOf m) (rest.takeWhile isTool)).filter (!isTool ·) = [] := by
        refine List.filter_eq_nil_iff.mpr fun r hr => ?_
        rw [answersOf_eq] at hr
        obtain ⟨call, _, rfl⟩ := List.mem_map.mp hr
        simp [answerOf_isTool (takeWhile_isTool rest) call]
      rw [repair_cons h, List.filter_cons_of_pos (by simp [settled_isTool, h]), List.filter_append, hanswers,
        List.nil_append, ih, List.filter_cons_of_pos (by simp [h]), List.map_cons]

/-- The results after a message end where the next other message stands. -/
theorem takeWhile_before (h : isTool m = false) (before rest : List Message) :
    (before ++ m :: rest).takeWhile isTool = before.takeWhile isTool := by
  induction before with
  | nil => rw [List.nil_append, List.takeWhile_cons_of_neg (by simp [h]), List.takeWhile_nil]
  | cons x before ih =>
    by_cases hx : isTool x = true
    · rw [List.cons_append, List.takeWhile_cons_of_pos hx, List.takeWhile_cons_of_pos hx, ih]
    · rw [List.cons_append, List.takeWhile_cons_of_neg hx, List.takeWhile_cons_of_neg hx]

/-- What stands before a message that is no result is repaired by itself. -/
theorem repair_append (h : isTool m = false) (before rest : List Message) :
    repairThreadHistory (before ++ m :: rest) = repairThreadHistory before ++ repairThreadHistory (m :: rest) := by
  induction before with
  | nil => rw [repairThreadHistory, List.nil_append, List.nil_append]
  | cons x before ih =>
    by_cases hx : isTool x = true
    · rw [List.cons_append, repair_tool hx, repair_tool hx, ih]
    · rw [Bool.not_eq_true] at hx
      rw [List.cons_append, repair_cons hx, repair_cons hx, takeWhile_before h, ih, List.cons_append, List.append_assoc]

/-- A reply is repaired where it stands, and keeps the first result for each of its calls. -/
theorem repair_kept (h : isTool m = false) (before rest : List Message) :
    ∃ answers, repairThreadHistory (before ++ m :: rest) =
        repairThreadHistory before ++ settled m :: (answers ++ repairThreadHistory rest) ∧
      List.Forall₂ (fun call r => ∀ kept, (rest.takeWhile isTool).find? (·.answers = toolCallId call) = some kept → r = kept)
        (callsOf m) answers := by
  refine ⟨answersOf (callsOf m) (rest.takeWhile isTool), by rw [repair_append h, repair_cons h], ?_⟩
  rw [answersOf_eq, List.forall₂_map_right_iff]
  refine List.forall₂_same.mpr fun call _ kept hkept => ?_
  rw [answerOf, hkept, Option.getD_some]

/-! ## Histories that are as they should be -/

theorem formed_head {messages : List Message} (h : Formed messages) : messages.takeWhile isTool = [] := by
  cases h with
  | nil => rfl
  | cons hm _ _ _ => exact List.takeWhile_cons_of_neg (by rw [hm]; exact Bool.false_ne_true)

/-- The results of a reply are those before the rest. -/
theorem takeWhile_answers {answers rest : List Message} (ha : ∀ r ∈ answers, isTool r = true) (h : Formed rest) :
    (answers ++ rest).takeWhile isTool = answers := by
  rw [List.takeWhile_append_of_pos ha, formed_head h, List.append_nil]

variable {answers : List Message}

theorem repair_tools (ha : ∀ r ∈ answers, isTool r = true) (rest : List Message) :
    repairThreadHistory (answers ++ rest) = repairThreadHistory rest := by
  induction answers with
  | nil => rfl
  | cons r answers ih =>
    rw [List.cons_append, repair_tool (ha r List.mem_cons_self), ih fun x hx => ha x (List.mem_cons_of_mem _ hx)]

theorem forall₂_isTool {calls : List ToolCall}
    (h : List.Forall₂ (fun call r => isTool r = true ∧ r.answers = toolCallId call) calls answers) :
    ∀ r ∈ answers, isTool r = true := by
  induction h with
  | nil => exact List.forall_mem_nil _
  | cons hr _ ih =>
    intro x hx
    rcases List.mem_cons.mp hx with rfl | hx
    · exact hr.1
    · exact ih x hx

/-- Results in the order of calls with distinct ids are found where they stand. -/
theorem answersOf_same {calls : List ToolCall}
    (h : List.Forall₂ (fun call r => isTool r = true ∧ r.answers = toolCallId call) calls answers)
    (hn : (calls.map toolCallId).Nodup) : answersOf calls answers = answers := by
  rw [answersOf_eq]
  induction h with
  | nil => rfl
  | @cons call r calls answers hr _ ih =>
    obtain ⟨hout, hn⟩ := List.nodup_cons.mp hn
    have hfirst : answerOf (r :: answers) call = r := by
      rw [answerOf, List.find?_cons_of_pos (by simpa using hr.2), Option.getD_some]
    have hrest : calls.map (answerOf (r :: answers)) = calls.map (answerOf answers) := by
      refine List.map_congr_left fun other hother => ?_
      have hne : ¬ r.answers = toolCallId other := fun he => hout (hr.2 ▸ he ▸ List.mem_map_of_mem hother)
      rw [answerOf, answerOf, List.find?_cons_of_neg (by simpa using hne)]
    rw [List.map_cons, hfirst, hrest, ih hn]

theorem repair_same {messages : List Message} (h : Formed messages)
    (hn : ∀ m ∈ messages, ((callsOf m).map toolCallId).Nodup) : repairThreadHistory messages = messages := by
  induction h with
  | nil => rw [repairThreadHistory]
  | @cons m answers rest hm hempty hanswers hrest ih =>
    have ha := forall₂_isTool hanswers
    rw [repair_cons hm, takeWhile_answers ha hrest, repair_tools ha, settled_eq hempty,
      answersOf_same hanswers (hn m List.mem_cons_self)]
    rw [ih fun x hx => hn x (List.mem_cons_of_mem _ (List.mem_append_right _ hx))]

/-! ## Repairing again -/

def SameNames (calls : List ToolCall) (results : List Message) : Prop :=
  ∀ call ∈ calls, ∀ other ∈ calls, toolCallId call = toolCallId other →
    (∀ r ∈ results, r.answers ≠ toolCallId call) → call.name = other.name

instance (calls : List ToolCall) (results : List Message) : Decidable (SameNames calls results) :=
  inferInstanceAs (Decidable (∀ call ∈ calls, ∀ other ∈ calls, _ → _ → _))

/-- Two calls of a reply with the same id and no result have the same name. -/
def Consistent (messages : List Message) : Prop :=
  ∀ before m rest, messages = before ++ m :: rest → SameNames (callsOf m) (rest.takeWhile isTool)

theorem consistent_cons (m : Message) (rest : List Message) :
    Consistent (m :: rest) ↔ SameNames (callsOf m) (rest.takeWhile isTool) ∧ Consistent rest := by
  constructor
  · exact fun h => ⟨h [] m rest rfl, fun before x after he => h (m :: before) x after (by rw [he]; rfl)⟩
  · rintro ⟨hm, hrest⟩ before x after he
    cases before with
    | nil =>
      obtain ⟨rfl, rfl⟩ := List.cons.inj he
      exact hm
    | cons y before =>
      obtain ⟨rfl, rfl⟩ := List.cons.inj he
      exact hrest before x after rfl

/-- Two calls with one id get the same answer exactly if there is one, or their names agree. -/
theorem answerOf_eq_iff {call other : ToolCall} (h : toolCallId call = toolCallId other) :
    answerOf results call = answerOf results other ↔
      ((∀ r ∈ results, r.answers ≠ toolCallId call) → call.name = other.name) := by
  unfold answerOf
  rw [← h]
  cases hf : results.find? (·.answers = toolCallId call) with
  | none =>
    have hnone : ∀ r ∈ results, r.answers ≠ toolCallId call := fun r hr => by simpa using List.find?_eq_none.mp hf r hr
    rw [Option.getD_none, Option.getD_none]
    constructor
    · intro he _
      simpa [unanswered] using congrArg Message.name he
    · intro hname
      rw [unanswered, unanswered, hname hnone, h]
  | some r =>
    refine iff_of_true rfl fun hnone => ?_
    exact absurd (by simpa using List.find?_some hf) (hnone r (List.mem_of_find?_eq_some hf))

/-- Among the results a repair gave, a call finds that of the first call with its id. -/
theorem answerOf_again (calls : List ToolCall) (results : List Message) {call : ToolCall} (hcall : call ∈ calls) :
    ∃ first, calls.find? (fun c => toolCallId c = toolCallId call) = some first ∧
      answerOf (answersOf calls results) call = answerOf results first := by
  have hfind : (answersOf calls results).find? (·.answers = toolCallId call) =
      (calls.find? fun c => toolCallId c = toolCallId call).map (answerOf results) := by
    rw [answersOf_eq, List.find?_map]
    congr 2
    funext c
    simp only [Function.comp_apply, answerOf_answers]
  cases hf : calls.find? fun c => toolCallId c = toolCallId call with
  | none =>
    have := List.find?_eq_none.mp hf call hcall
    simp at this
  | some first =>
    refine ⟨first, rfl, ?_⟩
    rw [hf] at hfind
    rw [answerOf, hfind, Option.map_some, Option.getD_some]

theorem answersOf_again (calls : List ToolCall) (results : List Message) :
    answersOf calls (answersOf calls results) = answersOf calls results ↔ SameNames calls results := by
  have hcalls : answersOf calls (answersOf calls results) = answersOf calls results ↔
      ∀ call ∈ calls, answerOf (answersOf calls results) call = answerOf results call := by
    rw [answersOf_eq calls (answersOf calls results)]
    nth_rewrite 2 [answersOf_eq calls results]
    exact List.map_inj_left
  rw [hcalls]
  constructor
  · intro h call hcall other hother hid hnone
    obtain ⟨first, hfirst, he⟩ := answerOf_again calls results hcall
    obtain ⟨first', hfirst', he'⟩ := answerOf_again calls results hother
    rw [hid, hfirst'] at hfirst
    obtain rfl := Option.some.inj hfirst
    have hsame : answerOf results call = answerOf results other := by rw [← h call hcall, ← h other hother, he, he']
    exact (answerOf_eq_iff hid).mp hsame hnone
  · intro h call hcall
    obtain ⟨first, hfirst, he⟩ := answerOf_again calls results hcall
    have hid : toolCallId first = toolCallId call := by simpa using List.find?_some hfirst
    rw [he]
    exact (answerOf_eq_iff hid).mpr (h first (List.mem_of_find?_eq_some hfirst) call hcall hid)

theorem repair_again_iff (messages : List Message) :
    repairThreadHistory (repairThreadHistory messages) = repairThreadHistory messages ↔ Consistent messages := by
  induction messages with
  | nil =>
    rw [repairThreadHistory, repairThreadHistory]
    exact iff_of_true rfl fun before m rest he => absurd he (by simp)
  | cons m rest ih =>
    rw [consistent_cons]
    by_cases h : isTool m = true
    · have hcalls : callsOf m = [] := by
        have hrole : m.role = .tool := of_decide_eq_true h
        simp [callsOf, hrole]
      rw [repair_tool h, ih, hcalls]
      exact ⟨fun hr => ⟨List.forall_mem_nil _, hr⟩, And.right⟩
    · rw [Bool.not_eq_true] at h
      have ha : ∀ r ∈ answersOf (callsOf m) (rest.takeWhile isTool), isTool r = true :=
        forall₂_isTool (forall₂_answers _ (takeWhile_isTool rest))
      rw [repair_cons h, repair_cons (by rw [settled_isTool, h]), takeWhile_answers ha (repair_formed rest),
        repair_tools ha, settled_eq (settled_not_empty m), settled_calls, ← ih, ← answersOf_again, List.cons.injEq]
      constructor
      · rintro ⟨_, he⟩
        exact List.append_inj he (by rw [answersOf_eq, answersOf_eq, List.length_map, List.length_map])
      · rintro ⟨h1, h2⟩
        rw [h1, h2]
        exact ⟨rfl, rfl⟩

/-! ## The repair -/

/-- What a repaired history is to its reader. -/
structure Repairs (messages : List Message) : Prop where
  formed : Formed (repairThreadHistory messages)
  /-- Only the text of empty replies changes. -/
  others : (repairThreadHistory messages).filter (!isTool ·) = (messages.filter (!isTool ·)).map settled
  /-- The first result for a call of the reply before it is kept. -/
  kept : ∀ before m rest, messages = before ++ m :: rest → isTool m = false →
    ∃ answers, repairThreadHistory messages = repairThreadHistory before ++ settled m :: (answers ++ repairThreadHistory rest) ∧
      List.Forall₂ (fun call r => ∀ kept, (rest.takeWhile isTool).find? (·.answers = toolCallId call) = some kept → r = kept)
        (callsOf m) answers
  same : Formed messages → (∀ m ∈ messages, ((callsOf m).map toolCallId).Nodup) → repairThreadHistory messages = messages
  again : repairThreadHistory (repairThreadHistory messages) = repairThreadHistory messages

theorem repairs_iff (messages : List Message) : Repairs messages ↔ Consistent messages := by
  constructor
  · exact fun h => (repair_again_iff messages).mp h.again
  · intro h
    refine ⟨repair_formed messages, repair_messages messages, ?_, repair_same, (repair_again_iff messages).mpr h⟩
    rintro before m rest rfl hm
    exact repair_kept hm before rest

/-- Every later turn gets a history in the form providers accept. -/
theorem threadHistory_formed (rows : List Row) : Formed (threadHistory rows) := repair_formed _

namespace Sample

def stopped : List Message :=
  [{ role := .user, content := .text "Sum the files.".toList },
    { role := .assistant, toolCalls := [{ name := "read_file" }, { name := "shell" }] }]

/-- The second repair gives both calls the placeholder of the first. -/
theorem placeholders_change : ¬ ∀ messages, Repairs messages := by
  intro h
  have hagain := (repair_again_iff stopped).mp (h stopped).again
  have hnames := hagain [stopped[0]] stopped[1] [] rfl
  revert hnames
  decide

end Sample

end Flowly.Session.ThreadHistory
