/-
  Flowly.Session.ToolSequence — the history a session hands to the provider
  (`flowly/session/manager.py`: `Session.get_history`, `_project_for_llm`,
  `_repair_tool_sequence`, `_drop_orphan_tool_pairs`).

  The repair has two parts. The tail walk drops what a crash leaves at the end: calls
  that no result follows, and batches with a result missing. The whole-list pass then
  compares the ids that are called anywhere with the ids that are answered anywhere, and
  drops tool messages and calls without a partner.

  A partner anywhere is not a partner in place. `wellFormed_getHistory_iff` says what the
  stored messages must be like for the list to be well-formed: in the part the tail walk
  leaves (`StandingPart`, the longest prefix that ends settled), an id that is called and
  answered somewhere is answered where it is called, with nothing but tool messages and
  rows that the pass drops between.
-/

import Flowly.Session.Message

namespace Flowly.Session

open Flowly.Lib
open Flowly.Compaction (Content Part Role)

/-! ## The source -/

/-- `_project_for_llm`: `_LLM_BASE_FIELDS`, and `_LLM_ROLE_FIELDS` of the role. -/
def projectForLlm (msg : Message) : Message :=
  match msg.role with
  | .assistant =>
    { role := msg.role, content := msg.content, toolCalls := msg.toolCalls, providerReplay := msg.providerReplay }
  | .tool => { role := msg.role, content := msg.content, toolCallId := msg.toolCallId, name := msg.name }
  | _ => { role := msg.role, content := msg.content }

/-- Every declared id has a result. The results' ids are compared as they are stored, so
    a number satisfies no declared id. -/
def complete (issuing : Message) (tailTools : List Message) : Bool :=
  let declaredIds := (issuing.toolCalls.filter (·.isDict)).map toolCallId
  declaredIds ≠ [] && declaredIds.all fun i => tailTools.any (·.toolCallId = .text i)

/-- The walk of `_repair_tool_sequence` from the end of the list, which it reads
    backwards; `tailTools` are the tool messages it has passed since the last other one. -/
def tailWalk : List Message → List Message → List Message
  | [], _ => []
  | last :: earlier, tailTools =>
    if last.role = .tool then tailWalk earlier (last :: tailTools)
    -- Orphan results go; what stands before them is a clean tail.
    else if last.role ≠ .assistant then (last :: earlier).reverse
    else if tailTools = [] then
      if last.toolCalls = [] then (last :: earlier).reverse else tailWalk earlier []
    else if complete last tailTools then (last :: earlier).reverse ++ tailTools
    else tailWalk earlier []

def issued (messages : List Message) : List String :=
  (messages.flatMap fun m => if m.role = .assistant then m.toolCalls.map toolCallId else []).filter (· ≠ "")

def answered (messages : List Message) : List String :=
  ((messages.filter (·.role = .tool)).map (·.answers)).filter (· ≠ "")

/-- What becomes of one message in `_drop_orphan_tool_pairs`. -/
def cleanRow (issued answered : List String) (msg : Message) : Option Message :=
  if msg.role = .tool then
    if msg.answers ∈ issued then some msg else none
  else if msg.role = .assistant ∧ msg.toolCalls ≠ [] then
    let keptCalls := msg.toolCalls.filter fun c => toolCallId c ∈ answered
    if keptCalls.length = msg.toolCalls.length then some msg
    else if keptCalls ≠ [] then some { msg with toolCalls := keptCalls }
    else if hasWords msg.content then some { msg with toolCalls := [] }
    else none
  else some msg

/-- `answered <= issued and issued <= answered`. -/
def Balanced (messages : List Message) : Prop := answered messages ⊆ issued messages ∧ issued messages ⊆ answered messages

instance (messages : List Message) : Decidable (Balanced messages) := inferInstanceAs (Decidable (_ ∧ _))

def cleaned (messages : List Message) : List Message :=
  messages.filterMap (cleanRow (issued messages) (answered messages))

def dropOrphanToolPairs (messages : List Message) : List Message :=
  if Balanced messages then messages else cleaned messages

def repairToolSequence (messages : List Message) : List Message :=
  dropOrphanToolPairs (tailWalk messages.reverse [])

/-- Kinds are told apart by their equality test. -/
local instance lawful_kind : LawfulBEq (Option String) := inferInstance

/-- The messages the window leaves, without the rows the app wrote for display, in the
    shape providers see. -/
def projected (messages : List Message) (maxMessages : Option Int) : List Message :=
  let recent := match maxMessages with
    | none => messages
    | some n => if n ≤ 0 then messages else messages.drop (messages.length - n.toNat)
  (recent.filter fun m => m.kind ∉ [some "agent_introduction", some "agent_setup_card"]).map projectForLlm

def getHistory (messages : List Message) (maxMessages : Option Int) : List Message :=
  repairToolSequence (projected messages maxMessages)

/-! ## Well-formed histories -/

/-- What providers demand of the order of calls and results. -/
structure WellFormed (messages : List Message) : Prop where
  tools : ∀ before (t : Message) after, messages = before ++ t :: after → t.role = .tool → t.answers ≠ "" ∧
    ∃ earlier a results, before = earlier ++ (a : Message) :: results ∧ a.role = .assistant ∧ (∀ r ∈ results, r.role = .tool) ∧
      ∃ c ∈ a.toolCalls, toolCallId c = t.answers
  calls : ∀ before (a : Message) after, messages = before ++ a :: after → a.role = .assistant → ∀ c ∈ a.toolCalls, toolCallId c ≠ "" ∧
    ∃ results t later, after = results ++ (t : Message) :: later ∧ (∀ r ∈ results, r.role = .tool) ∧ t.role = .tool ∧
      t.answers = toolCallId c

/-! ## What the tail walk leaves -/

def NoToolFirst (messages : List Message) : Prop := ∀ m, messages.head? = some m → m.role ≠ .tool

/-- Whether a prefix that ends in `last` and the tool messages `tools` needs no repair at
    its end, when `rest` follows it. -/
def EndsWell (last : Message) (tools rest : List Message) : Prop :=
  if last.role = .assistant then
    NoToolFirst rest ∧ if tools = [] then last.toolCalls = [] else complete last tools = true
  else tools = []

def Settled (kept rest : List Message) : Prop :=
  kept = [] ∨ ∃ front last tools, kept = front ++ last :: tools ∧ last.role ≠ .tool ∧ (∀ t ∈ tools, t.role = .tool) ∧
    EndsWell last tools rest

/-- `kept` is the longest prefix of `messages` that ends settled, when `rest` follows `messages`. -/
structure LongestSettled (messages rest kept : List Message) : Prop where
  settled : ∃ dropped, messages = kept ++ dropped ∧ Settled kept (dropped ++ rest)
  longest : ∀ kept' dropped', messages = kept' ++ dropped' → Settled kept' (dropped' ++ rest) → kept' <+: kept

/-- `kept` is the part of `messages` before its unsettled end. -/
def StandingPart (messages kept : List Message) : Prop := LongestSettled messages [] kept

theorem LongestSettled.unique {messages rest kept kept' : List Message} (h : LongestSettled messages rest kept)
    (h' : LongestSettled messages rest kept') : kept = kept' := by
  obtain ⟨dropped, he, hs⟩ := h.settled
  obtain ⟨dropped', he', hs'⟩ := h'.settled
  exact (h'.longest kept dropped he hs).eq_of_length_le (h.longest kept' dropped' he' hs').length_le

theorem LongestSettled.whole {messages rest : List Message} (h : Settled messages rest) :
    LongestSettled messages rest messages where
  settled := ⟨[], by simp, h⟩
  longest := fun kept' dropped' he _ => ⟨dropped', he.symm⟩

/-- The last message that is not a tool message, and the tool messages after it, are determined. -/
theorem lastTurn_unique {front front' tools tools' : List Message} {last last' : Message}
    (he : front ++ last :: tools = front' ++ last' :: tools') (hl : last.role ≠ .tool) (hl' : last'.role ≠ .tool)
    (ht : ∀ t ∈ tools, t.role = .tool) (ht' : ∀ t ∈ tools', t.role = .tool) :
    front = front' ∧ last = last' ∧ tools = tools' := by
  rcases List.append_eq_append_iff.mp he with ⟨mid, hf, hr⟩ | ⟨mid, hf, hr⟩
  · cases mid with
    | nil => simp at hf hr; exact ⟨hf.symm, hr⟩
    | cons x mid =>
      rw [List.cons_append, List.cons.injEq] at hr
      exact absurd (ht last' (by simp [hr.2])) hl'
  · cases mid with
    | nil => simp at hf hr; exact ⟨hf, hr.1.symm, hr.2.symm⟩
    | cons x mid =>
      rw [List.cons_append, List.cons.injEq] at hr
      exact absurd (ht' last (by simp [hr.2])) hl

variable {last : Message}

theorem settled_iff {front tools rest : List Message} (hl : last.role ≠ .tool)
    (ht : ∀ t ∈ tools, t.role = .tool) : Settled (front ++ last :: tools) rest ↔ EndsWell last tools rest := by
  constructor
  · rintro (h | ⟨front', last', tools', he, hl', ht', hw⟩)
    · simp at h
    · obtain ⟨_, rfl, rfl⟩ := lastTurn_unique he hl hl' ht ht'
      exact hw
  · intro h
    exact Or.inr ⟨front, last, tools, rfl, hl, ht, h⟩

/-- A prefix of `front ++ last :: tools` lies within `front`, or takes `last` in. -/
theorem prefix_cases {front kept rest tools : List Message} (h : front ++ last :: tools = kept ++ rest) :
    kept <+: front ∨ ∃ taken, kept = front ++ last :: taken ∧ tools = taken ++ rest := by
  rcases List.append_eq_append_iff.mp h with ⟨mid, hf, hr⟩ | ⟨mid, hf, _⟩
  · cases mid with
    | nil => exact Or.inl (by simp [hf])
    | cons x mid =>
      rw [List.cons_append, List.cons.injEq] at hr
      exact Or.inr ⟨mid, by rw [hf, hr.1], hr.2⟩
  · exact Or.inl ⟨mid, hf.symm⟩

/-- Past an assistant message whose results are not all there, nothing is settled. -/
theorem LongestSettled.append_unanswered {front tools rest kept : List Message}
    (hl : last.role = .assistant) (ht : ∀ t ∈ tools, t.role = .tool)
    (hbad : if tools = [] then last.toolCalls ≠ [] else complete last tools = false)
    (h : LongestSettled front (last :: tools ++ rest) kept) : LongestSettled (front ++ last :: tools) rest kept where
  settled := by
    obtain ⟨dropped, he, hs⟩ := h.settled
    exact ⟨dropped ++ last :: tools, by simp [he], by simpa using hs⟩
  longest := by
    intro kept' dropped' he hs
    rcases prefix_cases he with ⟨more, hmore⟩ | ⟨taken, rfl, htools⟩
    · refine h.longest kept' more hmore.symm ?_
      rw [← hmore, List.append_assoc, List.append_cancel_left_eq] at he
      rw [← he] at hs
      simpa using hs
    · exfalso
      have htaken : ∀ t ∈ taken, t.role = .tool := fun t h => ht t (by simp [htools, h])
      obtain ⟨hfirst, hw⟩ := (if_pos hl).mp ((settled_iff (by simp [hl]) htaken).mp hs)
      cases dropped' with
      | nil =>
        simp only [List.append_nil] at htools
        subst htools
        by_cases hnil : tools = []
        · rw [if_pos hnil] at hbad hw
          exact hbad hw
        · rw [if_neg hnil] at hbad hw
          rw [hbad] at hw
          cases hw
      | cons d dropped => exact hfirst d rfl (ht d (by simp [htools]))

/-- Tool messages after one that is no assistant message settle nothing. -/
theorem LongestSettled.append_stray {front tools rest : List Message} (hl : last.role ≠ .tool)
    (ha : last.role ≠ .assistant) (ht : ∀ t ∈ tools, t.role = .tool) :
    LongestSettled (front ++ last :: tools) rest (front ++ [last]) where
  settled := ⟨tools, by simp, (settled_iff hl (by simp)).mpr (by simp [EndsWell, ha])⟩
  longest := by
    intro kept' dropped' he hs
    rcases prefix_cases he with h | ⟨taken, rfl, htools⟩
    · exact h.trans (List.prefix_append front [last])
    · have hw := (settled_iff hl fun t h => ht t (by simp [htools, h])).mp hs
      rw [EndsWell, if_neg ha] at hw
      rw [hw]

theorem tailWalk_longest (reversed : List Message) : ∀ tailTools rest : List Message, (∀ t ∈ tailTools, t.role = .tool) →
    NoToolFirst rest → LongestSettled (reversed.reverse ++ tailTools) rest (tailWalk reversed tailTools) := by
  induction reversed with
  | nil =>
    intro tailTools rest ht _
    refine ⟨⟨tailTools, by simp [tailWalk], Or.inl rfl⟩, ?_⟩
    rintro kept dropped he (rfl | ⟨front, last, tools, rfl, hl, _⟩)
    · simp
    · exact absurd (ht last (by simp at he; simp [he])) hl
  | cons last earlier ih =>
    intro tailTools rest ht hrest
    rw [List.reverse_cons, List.append_assoc, List.singleton_append]
    by_cases htool : last.role = .tool
    · rw [tailWalk, if_pos htool]
      exact ih (last :: tailTools) rest (by simpa [htool] using ht) hrest
    by_cases ha : last.role = .assistant
    · have hgo : LongestSettled earlier.reverse (last :: tailTools ++ rest) (tailWalk earlier []) := by
        simpa using ih [] (last :: tailTools ++ rest) (by simp) (by simp [NoToolFirst, htool])
      rw [tailWalk, if_neg htool, if_neg (not_not.mpr ha)]
      by_cases hnil : tailTools = []
      · rw [if_pos hnil]
        by_cases hcalls : last.toolCalls = []
        · rw [if_pos hcalls, List.reverse_cons, hnil]
          refine LongestSettled.whole ((settled_iff htool (by simp)).mpr ?_)
          simp [EndsWell, ha, hrest, hcalls]
        · rw [if_neg hcalls]
          exact hgo.append_unanswered ha ht (by simp [hnil, hcalls])
      · rw [if_neg hnil]
        by_cases hcomplete : complete last tailTools = true
        · rw [if_pos hcomplete, List.reverse_cons, List.append_assoc, List.singleton_append]
          refine LongestSettled.whole ((settled_iff htool ht).mpr ?_)
          simp [EndsWell, ha, hrest, hnil, hcomplete]
        · rw [if_neg hcomplete]
          exact hgo.append_unanswered ha ht (by simpa [hnil] using hcomplete)
    · rw [tailWalk, if_neg htool, if_pos ha, List.reverse_cons]
      exact LongestSettled.append_stray htool ha ht

/-- The tail walk leaves the longest prefix that ends settled. -/
theorem tailWalk_standing (messages : List Message) : StandingPart messages (tailWalk messages.reverse []) := by
  simpa [StandingPart] using tailWalk_longest messages.reverse [] [] (by simp) (by simp [NoToolFirst])

/-! ## Partners in place -/

/-- What the whole-list pass drops of `messages`: results nobody asked for, and assistant
    messages with calls alone, none of them answered. -/
def Partnerless (messages : List Message) (m : Message) : Prop :=
  m.role = .tool ∧ m.answers ∉ issued messages ∨
    m.role = .assistant ∧ m.toolCalls ≠ [] ∧ (∀ c ∈ m.toolCalls, toolCallId c ∉ answered messages) ∧ hasWords m.content = false

/-- Every id that is both called and answered is answered where it is called. -/
structure PairedInPlace (messages : List Message) : Prop where
  /-- Where no id lacks a partner the list goes out as it is, with the calls and results
      that have no id. -/
  named : Balanced messages → ∀ m ∈ messages,
    (m.role = .tool → m.answers ≠ "") ∧ (m.role = .assistant → ∀ c ∈ m.toolCalls, toolCallId c ≠ "")
  tools : ∀ before (t : Message) after, messages = before ++ t :: after → t.role = .tool → t.answers ∈ issued messages →
    ∃ earlier a between, before = earlier ++ (a : Message) :: between ∧ a.role = .assistant ∧
      (∀ r ∈ between, r.role = .tool ∨ Partnerless messages r) ∧ ∃ c ∈ a.toolCalls, toolCallId c = t.answers
  calls : ∀ before (a : Message) after, messages = before ++ a :: after → a.role = .assistant → ∀ c ∈ a.toolCalls,
    toolCallId c ∈ answered messages → ∃ between t later, after = between ++ (t : Message) :: later ∧
      (∀ r ∈ between, r.role = .tool ∨ Partnerless messages r) ∧ t.role = .tool ∧ t.answers = toolCallId c

/-! ## The whole-list pass -/

variable {messages : List Message}

theorem mem_issued {i : String} :
    i ∈ issued messages ↔ i ≠ "" ∧ ∃ a ∈ messages, a.role = .assistant ∧ ∃ c ∈ a.toolCalls, toolCallId c = i := by
  simp only [issued, List.mem_filter, List.mem_flatMap, decide_eq_true_eq]
  constructor
  · rintro ⟨⟨a, ha, hi⟩, hne⟩
    split at hi
    · rename_i hr
      exact ⟨hne, a, ha, hr, List.mem_map.mp hi⟩
    · cases hi
  · rintro ⟨hne, a, ha, hr, hi⟩
    exact ⟨⟨a, ha, by rw [if_pos hr]; exact List.mem_map.mpr hi⟩, hne⟩

theorem mem_answered {i : String} :
    i ∈ answered messages ↔ i ≠ "" ∧ ∃ t ∈ messages, t.role = .tool ∧ t.answers = i := by
  simp only [answered, List.mem_filter, List.mem_map, decide_eq_true_eq]
  constructor
  · rintro ⟨⟨t, ⟨ht, hr⟩, hi⟩, hne⟩
    exact ⟨hne, t, ht, hr, hi⟩
  · rintro ⟨hne, t, ht, hr, hi⟩
    exact ⟨⟨t, ⟨ht, hr⟩, hi⟩, hne⟩

theorem cleanRow_tool {is as : List String} {m m' : Message} (hr : m.role = .tool) :
    cleanRow is as m = some m' ↔ m.answers ∈ is ∧ m' = m := by
  rw [cleanRow, if_pos hr]
  split
  · rename_i h; simp [h, eq_comm]
  · rename_i h; simp [h]

/-- A row that is kept keeps its role, and an assistant message its answered calls. -/
theorem cleanRow_some {is as : List String} {m m' : Message} (h : cleanRow is as m = some m') :
    m'.role = m.role ∧ (m.role = .assistant → m'.toolCalls = m.toolCalls.filter fun c => toolCallId c ∈ as) := by
  by_cases ht : m.role = .tool
  · obtain ⟨_, rfl⟩ := (cleanRow_tool ht).mp h
    exact ⟨rfl, fun ha => by rw [ht] at ha; cases ha⟩
  rw [cleanRow, if_neg ht] at h
  by_cases ha : m.role = .assistant ∧ m.toolCalls ≠ []
  · simp only [if_pos ha] at h
    split at h
    · rename_i hlen
      cases h
      exact ⟨rfl, fun _ => (List.filter_eq_self.mpr (List.length_filter_eq_length_iff.mp hlen)).symm⟩
    split at h
    · cases h
      exact ⟨rfl, fun _ => rfl⟩
    · rename_i hkept
      split at h
      · cases h
        exact ⟨rfl, fun _ => (not_not.mp hkept).symm⟩
      · cases h
  · rw [if_neg ha] at h
    cases h
    refine ⟨rfl, fun hr => ?_⟩
    have hnil : m.toolCalls = [] := by_contra fun hne => ha ⟨hr, hne⟩
    rw [hnil, List.filter_nil]

/-- An assistant message with calls goes when no call is answered and it says nothing. -/
theorem cleanRow_calls_eq_none {is as : List String} {m : Message} (ht : m.role ≠ .tool)
    (ha : m.role = .assistant ∧ m.toolCalls ≠ []) :
    cleanRow is as m = none ↔ (∀ c ∈ m.toolCalls, toolCallId c ∉ as) ∧ hasWords m.content = false := by
  have hkept : (m.toolCalls.filter fun c => toolCallId c ∈ as) = [] ↔ ∀ c ∈ m.toolCalls, toolCallId c ∉ as := by
    simp
  rw [cleanRow, if_neg ht, if_pos ha, ← hkept]
  by_cases hnil : (m.toolCalls.filter fun c => toolCallId c ∈ as) = []
  · have hlen : 0 ≠ m.toolCalls.length := by simpa [eq_comm] using ha.2
    simp [hnil, hlen]
  · by_cases hlen : (m.toolCalls.filter fun c => toolCallId c ∈ as).length = m.toolCalls.length
    · simp only [if_pos hlen, hnil, false_and, reduceCtorEq]
    · simp only [if_neg hlen, ne_eq, hnil, not_false_eq_true, if_true, false_and, reduceCtorEq]

theorem cleanRow_eq_none {m : Message} :
    cleanRow (issued messages) (answered messages) m = none ↔ Partnerless messages m := by
  by_cases ht : m.role = .tool
  · simp [cleanRow, Partnerless, ht]
  by_cases ha : m.role = .assistant ∧ m.toolCalls ≠ []
  · rw [cleanRow_calls_eq_none ht ha]
    constructor
    · intro h
      exact Or.inr ⟨ha.1, ha.2, h⟩
    · rintro (h | h)
      · exact absurd h.1 ht
      · exact h.2.2
  · rw [cleanRow, if_neg ht, if_neg ha]
    constructor
    · intro h
      cases h
    · rintro (h | h)
      · exact absurd h.1 ht
      · exact absurd ⟨h.1, h.2.1⟩ ha

/-- Where every id has a partner and no id is missing, the pass would change nothing. -/
theorem clean_of_named (hb : Balanced messages)
    (hn : ∀ m ∈ messages, (m.role = .tool → m.answers ≠ "") ∧ (m.role = .assistant → ∀ c ∈ m.toolCalls, toolCallId c ≠ "")) :
    cleaned messages = messages := by
  have hkeep : ∀ m ∈ messages, cleanRow (issued messages) (answered messages) m = some m := by
    intro m hm
    by_cases ht : m.role = .tool
    · exact (cleanRow_tool ht).mpr ⟨hb.1 (mem_answered.mpr ⟨(hn m hm).1 ht, m, hm, ht, rfl⟩), rfl⟩
    · rw [cleanRow, if_neg ht]
      split
      · rename_i ha
        have hall : ∀ c ∈ m.toolCalls, toolCallId c ∈ answered messages := fun c hc =>
          hb.2 (mem_issued.mpr ⟨(hn m hm).2 ha.1 c hc, m, hm, ha.1, c, hc, rfl⟩)
        have hlen : (m.toolCalls.filter fun c => toolCallId c ∈ answered messages).length = m.toolCalls.length := by
          rw [List.length_filter_eq_length_iff]
          simpa using hall
        simp only [if_pos hlen]
      · rfl
  rw [cleaned, List.filterMap_congr hkeep, List.filterMap_some]

/-- A stretch the pass leaves only tool messages of has only tool messages and rows it drops. -/
theorem between_of_clean {messages between : List Message}
    (h : ∀ r ∈ between.filterMap (cleanRow (issued messages) (answered messages)), r.role = .tool) :
    ∀ r ∈ between, r.role = .tool ∨ Partnerless messages r := by
  intro r hr
  cases hc : cleanRow (issued messages) (answered messages) r with
  | none => exact Or.inr (cleanRow_eq_none.mp hc)
  | some r' =>
    have := h r' (List.mem_filterMap.mpr ⟨r, hr, hc⟩)
    exact Or.inl ((cleanRow_some hc).1 ▸ this)

theorem clean_of_between {messages between : List Message} (h : ∀ r ∈ between, r.role = .tool ∨ Partnerless messages r) :
    ∀ r ∈ between.filterMap (cleanRow (issued messages) (answered messages)), r.role = .tool := by
  intro r' hr'
  obtain ⟨r, hr, hc⟩ := List.mem_filterMap.mp hr'
  rcases h r hr with ht | hp
  · rw [(cleanRow_some hc).1, ht]
  · rw [cleanRow_eq_none.mpr hp] at hc
    cases hc

theorem filterMap_split {f : Message → Option Message} {rows xs ys : List Message} {y : Message}
    (h : rows.filterMap f = xs ++ y :: ys) :
    ∃ before x after, rows = before ++ x :: after ∧ before.filterMap f = xs ∧ f x = some y ∧ after.filterMap f = ys := by
  obtain ⟨front, back, rfl, hfront, hback⟩ := List.filterMap_eq_append_iff.mp h
  obtain ⟨gone, x, after, rfl, hgone, hx, hafter⟩ := List.filterMap_eq_cons_iff.mp hback
  refine ⟨front ++ gone, x, after, by simp, ?_, hx, hafter⟩
  rw [List.filterMap_append, hfront, List.filterMap_eq_nil_iff.mpr hgone, List.append_nil]

theorem filterMap_place {f : Message → Option Message} {before after : List Message} {x y : Message} (h : f x = some y) :
    (before ++ x :: after).filterMap f = before.filterMap f ++ y :: after.filterMap f := by
  rw [List.filterMap_append, List.filterMap_cons, h]

theorem cleaned_split {messages before after : List Message} {m m' : Message} (he : messages = before ++ m :: after)
    (hm : cleanRow (issued messages) (answered messages) m = some m') :
    cleaned messages = before.filterMap (cleanRow (issued messages) (answered messages)) ++
      m' :: after.filterMap (cleanRow (issued messages) (answered messages)) := by
  rw [← filterMap_place hm, ← he, cleaned]

/-- An answered call keeps its message. -/
theorem cleanRow_isSome_of_answered {a : Message} {c : ToolCall} (ha : a.role = .assistant)
    (hc : c ∈ a.toolCalls) (hi : toolCallId c ∈ answered messages) :
    ∃ a', cleanRow (issued messages) (answered messages) a = some a' ∧ a'.role = .assistant ∧ c ∈ a'.toolCalls := by
  cases hrow : cleanRow (issued messages) (answered messages) a with
  | none =>
    rcases cleanRow_eq_none.mp hrow with h | h
    · rw [ha] at h
      cases h.1
    · exact absurd hi (h.2.2.1 c hc)
  | some a' =>
    obtain ⟨hr, hcalls⟩ := cleanRow_some hrow
    refine ⟨a', rfl, by rw [hr, ha], ?_⟩
    rw [hcalls ha]
    exact List.mem_filter.mpr ⟨hc, by simpa using hi⟩

theorem tools_inPlace (h : WellFormed (cleaned messages)) {before t after}
    (he : messages = before ++ (t : Message) :: after) (ht : t.role = .tool) (hi : t.answers ∈ issued messages) :
    ∃ earlier a between, before = earlier ++ (a : Message) :: between ∧ a.role = .assistant ∧
      (∀ r ∈ between, r.role = .tool ∨ Partnerless messages r) ∧ ∃ c ∈ a.toolCalls, toolCallId c = t.answers := by
  obtain ⟨_, earlier', a', results', hbefore, ha, hres, c, hc, hid⟩ :=
    h.tools _ t _ (cleaned_split he ((cleanRow_tool ht).mpr ⟨hi, rfl⟩)) ht
  obtain ⟨earlier, a, between, rfl, _, hrow, rfl⟩ := filterMap_split hbefore
  obtain ⟨hr, hcalls⟩ := cleanRow_some hrow
  rw [ha] at hr
  rw [hcalls hr.symm] at hc
  exact ⟨earlier, a, between, rfl, hr.symm, between_of_clean hres, c, List.mem_of_mem_filter hc, hid⟩

theorem calls_inPlace (h : WellFormed (cleaned messages)) {before a after}
    (he : messages = before ++ (a : Message) :: after) (ha : a.role = .assistant) {c : ToolCall} (hc : c ∈ a.toolCalls)
    (hi : toolCallId c ∈ answered messages) :
    ∃ between t later, after = between ++ (t : Message) :: later ∧ (∀ r ∈ between, r.role = .tool ∨ Partnerless messages r) ∧
      t.role = .tool ∧ t.answers = toolCallId c := by
  obtain ⟨a', hrow, ha', hc'⟩ := cleanRow_isSome_of_answered ha hc hi
  obtain ⟨_, results', t', later', hafter, hres, ht, hid⟩ := h.calls _ a' _ (cleaned_split he hrow) ha' c hc'
  obtain ⟨between, t, later, rfl, rfl, htrow, _⟩ := filterMap_split hafter
  have hr := (cleanRow_some htrow).1
  rw [ht] at hr
  obtain ⟨_, rfl⟩ := (cleanRow_tool hr.symm).mp htrow
  exact ⟨between, t', later, rfl, between_of_clean hres, ht, hid⟩

theorem PairedInPlace.wellFormed (h : PairedInPlace messages) : WellFormed (cleaned messages) where
  tools := by
    intro before' t' after' he' ht'
    obtain ⟨before, t, after, he, rfl, hrow, rfl⟩ := filterMap_split he'
    have hr := (cleanRow_some hrow).1
    rw [ht'] at hr
    obtain ⟨hi, rfl⟩ := (cleanRow_tool hr.symm).mp hrow
    have hne := (mem_issued.mp hi).1
    obtain ⟨earlier, a, between, rfl, ha, hbetween, c, hc, hid⟩ := h.tools before t' after he ht' hi
    have hanswered : toolCallId c ∈ answered messages := mem_answered.mpr ⟨by rw [hid]; exact hne, t', by simp [he], ht', hid.symm⟩
    obtain ⟨a', harow, ha', hc'⟩ := cleanRow_isSome_of_answered ha hc hanswered
    exact ⟨hne, _, a', _, filterMap_place harow, ha', clean_of_between hbetween, c, hc', hid⟩
  calls := by
    intro before' a' after' he' ha' c hc'
    obtain ⟨before, a, after, he, rfl, hrow, rfl⟩ := filterMap_split he'
    obtain ⟨hr, hcalls⟩ := cleanRow_some hrow
    rw [ha'] at hr
    rw [hcalls hr.symm, List.mem_filter, decide_eq_true_eq] at hc'
    obtain ⟨hc, hi⟩ := hc'
    obtain ⟨hne, _⟩ := mem_answered.mp hi
    obtain ⟨between, t, later, rfl, hbetween, ht, hid⟩ := h.calls before a after he hr.symm c hc hi
    have hissued : t.answers ∈ issued messages := by
      rw [hid]
      exact mem_issued.mpr ⟨hne, a, by simp [he], hr.symm, c, hc, rfl⟩
    exact ⟨hne, _, t, _, filterMap_place ((cleanRow_tool ht).mpr ⟨hissued, rfl⟩), clean_of_between hbetween, ht, hid⟩

theorem WellFormed.named (h : WellFormed messages) : ∀ m ∈ messages,
    (m.role = .tool → m.answers ≠ "") ∧ (m.role = .assistant → ∀ c ∈ m.toolCalls, toolCallId c ≠ "") := by
  intro m hm
  obtain ⟨before, after, he⟩ := List.append_of_mem hm
  exact ⟨fun hr => (h.tools before m after he hr).1, fun hr c hc => (h.calls before m after he hr c hc).1⟩

theorem wellFormed_dropOrphanToolPairs_iff (messages : List Message) :
    WellFormed (dropOrphanToolPairs messages) ↔ PairedInPlace messages := by
  by_cases hb : Balanced messages
  · rw [dropOrphanToolPairs, if_pos hb]
    constructor
    · intro h
      have hc : WellFormed (cleaned messages) := by rwa [clean_of_named hb h.named]
      exact ⟨fun _ => h.named, fun _ _ _ he ht hi => tools_inPlace hc he ht hi,
        fun _ _ _ he ha c hcm hi => calls_inPlace hc he ha hcm hi⟩
    · intro h
      have := h.wellFormed
      rwa [clean_of_named hb (h.named hb)] at this
  · rw [dropOrphanToolPairs, if_neg hb]
    constructor
    · intro h
      exact ⟨fun hb' => absurd hb' hb, fun _ _ _ he ht hi => tools_inPlace h he ht hi,
        fun _ _ _ he ha c hcm hi => calls_inPlace h he ha hcm hi⟩
    · exact PairedInPlace.wellFormed

/-- The history a provider gets is well-formed exactly when, in the part of the projected
    messages that ends settled, ids that have a partner have it in place. -/
theorem wellFormed_getHistory_iff (messages : List Message) (maxMessages : Option Int) :
    WellFormed (getHistory messages maxMessages) ↔
      ∀ kept, StandingPart (projected messages maxMessages) kept → PairedInPlace kept := by
  rw [getHistory, repairToolSequence, wellFormed_dropOrphanToolPairs_iff]
  have hstand := tailWalk_standing (projected messages maxMessages)
  constructor
  · intro h kept hk
    rwa [hk.unique hstand]
  · intro h
    exact h _ hstand

/-! ## A call id used in two turns -/

def callOne : ToolCall := { id := .text "call_1" }

/-- The first turn calls and answers `call_1`; the second, stopped after its call, uses the id again. -/
def reusedId : List Message :=
  [{ role := .user, content := .text "List the files.".toList },
    { role := .assistant, toolCalls := [callOne] },
    { role := .tool, content := .text "a.txt".toList, toolCallId := .text "call_1" },
    { role := .assistant, content := .text "One file: a.txt.".toList },
    { role := .user, content := .text "Read it.".toList },
    { role := .assistant, toolCalls := [callOne] },
    { role := .user, content := .text "Stop. What is in it?".toList }]

/-- The second call goes to the provider without a result. -/
theorem reused_id_is_sent_unanswered : ¬ WellFormed (getHistory reusedId none) := by
  intro h
  have hsame : getHistory reusedId none = reusedId := by decide
  rw [hsame] at h
  obtain ⟨_, results, t, later, he, hres, ht, _⟩ :=
    h.calls (reusedId.take 5) { role := .assistant, toolCalls := [callOne] } (reusedId.drop 6) rfl rfl callOne (by simp)
  -- A user message follows the call, where its result should stand.
  cases results with
  | nil =>
    cases he
    cases ht
  | cons r results =>
    have hr := hres r (by simp)
    injection he with hu _
    rw [← hu] at hr
    cases hr

end Flowly.Session
