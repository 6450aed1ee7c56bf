/-
  Flowly.Compaction.KeepRecent — the tail of a history that compaction keeps verbatim
  (`flowly/compaction/service.py`: `_essential_turn_tail`, `_recent_turn_tail`,
  `_keep_recent_cap`, `_calculate_keep_recent`).

  Proved: the kept tail is a subsequence of the history (`calculateKeepRecent_sublist`),
  it holds the newest real user message (`newestUser_mem_calculateKeepRecent`), and where
  the newest turn does not fit whole it is clean for the tool protocol
  (`calculateKeepRecent_clean`).
-/

import Flowly.Compaction.Pruning

namespace Flowly.Compaction

open Flowly.Lib

variable (est : Message → Nat)

structure KeepRecentConfig where
  enabled : Bool := true
  minTokens : Int := 5000
  minMessages : Int := 3
  maxTokens : Int := 20000
  maxShare : ℚ := 1 / 4

def keepRecentCap (cfg : KeepRecentConfig) (historyBudget : Int) : Int :=
  if historyBudget > 0 then
    let share : ℚ := max (1 / 20) (min cfg.maxShare (4 / 5))
    min cfg.maxTokens (max 1 (historyBudget * share).floor)
  else cfg.maxTokens

/-- Up to here the newest block is kept whole although it is over the cap. -/
def hardLimit (cfg : KeepRecentConfig) (historyBudget : Int) : Int :=
  let cap := keepRecentCap cfg historyBudget
  if historyBudget > 0 then max cap (historyBudget / 2) else cap

/-! ## What is kept of a block too big to keep whole -/

def plainAnswer (m : Message) : Bool := m.role = .assistant ∧ m.toolCalls = [] ∧ m.content.spoken

def essentialTurnTail (block : List Message) : List Message :=
  let user := block.find? fun m => m.role = .user
  let final := block.reverse.find? plainAnswer
  user.toList ++ final.toList

structure Exchange where
  call : Message
  results : List Message

def Exchange.messages (e : Exchange) : List Message := e.call :: e.results

/-- `calls - answered` is not empty. -/
def Exchange.waiting (e : Exchange) : Bool :=
  e.call.toolCalls.any fun c => c.id ∉ e.results.map Message.toolCallId

def addToExchanges (exchanges : List Exchange) (m : Message) : List Exchange :=
  match exchanges with
  | [] => if m.role = .assistant then [⟨m, []⟩] else []
  | e :: es =>
    if m.role = .tool then { e with results := e.results ++ [m] } :: es
    else if m.role = .assistant then ⟨m, []⟩ :: e :: es
    else e :: es

/-- The loop over `reversed(exchanges)`. -/
def keepExchanges (limit : Int) (used : Nat) (kept : List Message) : List Exchange → List Message
  | [] => kept
  | e :: es =>
    if e.waiting then kept
    else
      let cost := estimateMessagesTokens est e.messages
      if ((used + cost : Nat) : Int) > limit then kept
      else keepExchanges limit (used + cost) (e.messages ++ kept) es

def recentTurnTail (block : List Message) (limit : Int) : List Message :=
  match block.dropWhile fun m => m.role ≠ .user with
  | [] => []
  | user :: answers =>
    let used := estimateMessagesTokens est [user]
    if (used : Int) > limit then []
    else user :: keepExchanges est limit used [] (answers.foldl addToExchanges [])

/-! ## `_calculate_keep_recent` -/

def oversizedBlockTail (cfg : KeepRecentConfig) (historyBudget : Int) (block : List Message) : List Message :=
  if (estimateMessagesTokens est block : Int) ≤ hardLimit cfg historyBudget then block
  else
    let recent := recentTurnTail est block (hardLimit cfg historyBudget)
    if recent.length > 1 then recent
    else
      let essential := essentialTurnTail block
      if essential ≠ [] ∧ (estimateMessagesTokens est essential : Int) ≤ hardLimit cfg historyBudget then essential
      else []

def spokenCount (block : List Message) : Nat :=
  (block.filter fun m => (m.role = .user ∨ m.role = .assistant) ∧ m.content.spoken).length

/-- The loop over `reversed(blocks)`; `kept` is `kept_blocks` in the order of the history. -/
def keepLoop (cfg : KeepRecentConfig) (historyBudget : Int) (kept : List (List Message)) (tokens texts : Nat) :
    List (List Message) → List Message
  | [] => kept.flatten
  | block :: older =>
    let cap := keepRecentCap cfg historyBudget
    let blockTokens := estimateMessagesTokens est block
    if kept ≠ [] ∧ ((tokens + blockTokens : Nat) : Int) > cap then kept.flatten
    else if kept = [] ∧ (blockTokens : Int) > cap then oversizedBlockTail est cfg historyBudget block
    else
      let tokens := tokens + blockTokens
      let texts := texts + spokenCount block
      if (tokens : Int) ≥ min cfg.minTokens cap ∧ (texts : Int) ≥ cfg.minMessages then (block :: kept).flatten
      else keepLoop cfg historyBudget (block :: kept) tokens texts older

/-- The newest user message nobody but a person can have written. -/
def newestUser (messages : List Message) : Option Message :=
  messages.reverse.find? fun m => m.role = .user ∧ m.nudge = false

def withNewestUser (messages selected : List Message) : List Message :=
  match newestUser messages with
  | none => selected
  | some u => if u ∈ selected then selected else messages.filter fun m => m ∈ selected ∨ m = u

/-- The history without the provider's checkpoint rows. -/
def conversation (messages : List Message) : List Message := messages.filter fun m => !m.checkpoint

def calculateKeepRecent (cfg : KeepRecentConfig) (messages : List Message) (historyBudget : Int) : List Message :=
  let messages := conversation messages
  if messages = [] then []
  else if cfg.enabled = false then withNewestUser messages []
  else withNewestUser messages (keepLoop est cfg historyBudget [] 0 0 (splitIntoTurnBlocks messages).reverse)

/-! ## A subsequence of the history -/

theorem find?_toList_sublist (p : Message → Bool) (ms : List Message) : (ms.reverse.find? p).toList.Sublist ms := by
  rcases hf : ms.reverse.find? p with _ | f
  · simp
  · have := List.mem_of_find?_eq_some hf
    simpa using this

theorem essentialTurnTail_sublist {m : Message} {answers : List Message} (h : ∀ x ∈ answers, x.role ≠ .user) :
    (essentialTurnTail (m :: answers)).Sublist (m :: answers) := by
  unfold essentialTurnTail
  by_cases hm : m.role = .user
  · have hp : plainAnswer m = false := by simp [plainAnswer, hm]
    rw [List.find?_cons_of_pos (by simpa using hm), List.reverse_cons, List.find?_append]
    simp only [List.find?_cons, hp, List.find?_nil, Option.or_none, Option.toList_some, List.singleton_append]
    exact (find?_toList_sublist _ answers).cons_cons m
  · rw [List.find?_cons_of_neg (by simpa using hm), List.find?_eq_none.mpr (by simpa using h)]
    simpa using find?_toList_sublist _ (m :: answers)

def exchangeMessages (exchanges : List Exchange) : List Message := (exchanges.reverse.map Exchange.messages).flatten

@[simp] theorem exchangeMessages_cons (e : Exchange) (es : List Exchange) :
    exchangeMessages (e :: es) = exchangeMessages es ++ e.messages := by
  simp [exchangeMessages]

theorem addToExchanges_sublist (exchanges : List Exchange) (m : Message) :
    (exchangeMessages (addToExchanges exchanges m)).Sublist (exchangeMessages exchanges ++ [m]) := by
  cases exchanges with
  | nil =>
    simp only [addToExchanges]
    split <;> simp [exchangeMessages, Exchange.messages]
  | cons e es =>
    simp only [addToExchanges]
    split
    · simp [Exchange.messages]
    · split
      · simp [Exchange.messages]
      · exact List.sublist_append_left _ _

theorem foldl_addToExchanges_sublist (answers : List Message) : ∀ exchanges : List Exchange,
    (exchangeMessages (answers.foldl addToExchanges exchanges)).Sublist (exchangeMessages exchanges ++ answers) := by
  induction answers with
  | nil => intro exchanges; simp
  | cons m answers ih =>
    intro exchanges
    have h := (ih (addToExchanges exchanges m)).trans ((addToExchanges_sublist exchanges m).append_right answers)
    simpa using h

/-- The exchanges that fit are the newest ones. -/
theorem keepExchanges_eq (limit : Int) : ∀ (exchanges : List Exchange) (used : Nat) (kept : List Message),
    ∃ newest, newest <+: exchanges ∧ (∀ e ∈ newest, e.waiting = false) ∧
      keepExchanges est limit used kept exchanges = exchangeMessages newest ++ kept := by
  intro exchanges
  induction exchanges with
  | nil => intro used kept; exact ⟨[], by simp, by simp, by simp [keepExchanges, exchangeMessages]⟩
  | cons e es ih =>
    intro used kept
    have hstop : ∃ newest, newest <+: e :: es ∧ (∀ x ∈ newest, x.waiting = false) ∧
        kept = exchangeMessages newest ++ kept := ⟨[], by simp, by simp, by simp [exchangeMessages]⟩
    simp only [keepExchanges]
    split
    · exact hstop
    · rename_i hw
      split
      · exact hstop
      · obtain ⟨newest, h1, h2, h3⟩ := ih (used + estimateMessagesTokens est e.messages) (e.messages ++ kept)
        refine ⟨e :: newest, by simpa using h1, ?_, by simp [h3]⟩
        intro x hx
        rcases List.mem_cons.mp hx with rfl | hx
        · simpa using hw
        · exact h2 x hx

/-- The newest exchanges of a turn: what `keepExchanges` keeps of it. -/
theorem exchangeMessages_prefix_sublist {newest exchanges : List Exchange} (h : newest <+: exchanges) :
    (exchangeMessages newest).Sublist (exchangeMessages exchanges) := by
  obtain ⟨older, rfl⟩ := h
  simp [exchangeMessages]

theorem recentTurnTail_sublist (block : List Message) (limit : Int) :
    (recentTurnTail est block limit).Sublist block := by
  unfold recentTurnTail
  have hb := List.dropWhile_sublist (l := block) fun m => decide (m.role ≠ .user)
  split
  · simp
  · rename_i user answers hd
    simp only
    split
    · simp
    · obtain ⟨newest, h1, _, h3⟩ := keepExchanges_eq est limit (answers.foldl addToExchanges [])
        (estimateMessagesTokens est [user]) []
      rw [h3, List.append_nil]
      refine List.Sublist.trans (List.Sublist.cons_cons user ?_) (hd ▸ hb)
      exact (exchangeMessages_prefix_sublist h1).trans (by simpa [exchangeMessages] using foldl_addToExchanges_sublist answers [])

theorem oversizedBlockTail_sublist (cfg : KeepRecentConfig) (historyBudget : Int) {m : Message}
    {answers : List Message} (h : ∀ x ∈ answers, x.role ≠ .user) :
    (oversizedBlockTail est cfg historyBudget (m :: answers)).Sublist (m :: answers) := by
  unfold oversizedBlockTail
  split
  · exact List.Sublist.refl _
  · simp only
    split
    · exact recentTurnTail_sublist est _ _
    · split
      · exact essentialTurnTail_sublist h
      · simp

/-- The loop keeps the newest blocks whole, or part of the newest one. -/
theorem keepLoop_cases (cfg : KeepRecentConfig) (historyBudget : Int) : ∀ (older kept : List (List Message))
    (tokens texts : Nat), (kept = [] → older ≠ []) →
    (∃ whole rest, older = whole ++ rest ∧
      keepLoop est cfg historyBudget kept tokens texts older = whole.reverse.flatten ++ kept.flatten ∧
      (whole ≠ [] ∨ kept ≠ [])) ∨
    (∃ block rest, kept = [] ∧ older = block :: rest ∧
      (estimateMessagesTokens est block : Int) > keepRecentCap cfg historyBudget ∧
      keepLoop est cfg historyBudget kept tokens texts older = oversizedBlockTail est cfg historyBudget block) := by
  intro older
  induction older with
  | nil => intro kept tokens texts h; exact Or.inl ⟨[], [], rfl, by simp [keepLoop], Or.inr fun hk => h hk rfl⟩
  | cons block older ih =>
    intro kept tokens texts _
    simp only [keepLoop]
    split
    · rename_i hc
      exact Or.inl ⟨[], block :: older, rfl, by simp, Or.inr hc.1⟩
    · split
      · rename_i hc
        exact Or.inr ⟨block, older, hc.1, rfl, hc.2, rfl⟩
      · split
        · exact Or.inl ⟨[block], older, rfl, by simp, Or.inl (by simp)⟩
        · rcases ih (block :: kept) (tokens + estimateMessagesTokens est block) (texts + spokenCount block) (by simp) with
            ⟨whole, rest, h1, h2, _⟩ | ⟨_, _, h, _⟩
          · exact Or.inl ⟨block :: whole, rest, by simp [h1], by simp [h2], Or.inl (by simp)⟩
          · cases h

/-- What `_calculate_keep_recent` selects before it makes sure of the newest user message. -/
theorem keepLoop_sublist (cfg : KeepRecentConfig) (historyBudget : Int) (messages : List Message) (hne : messages ≠ []) :
    (keepLoop est cfg historyBudget [] 0 0 (splitIntoTurnBlocks messages).reverse).Sublist messages := by
  have hflat := splitIntoTurnBlocks_flatten messages
  have hb : (splitIntoTurnBlocks messages).reverse ≠ [] := by
    intro h
    rw [List.reverse_eq_nil_iff.mp h] at hflat
    exact hne (by simpa using hflat.symm)
  rcases keepLoop_cases est cfg historyBudget _ [] 0 0 (fun _ => hb) with ⟨whole, rest, h1, h2, _⟩ | ⟨block, rest, _, h2, _, h3⟩
  · rw [h2, ← hflat, List.reverse_eq_iff.mp h1]
    simp
  · have hsplit := List.reverse_eq_iff.mp h2
    have hmem : block ∈ splitIntoTurnBlocks messages := by simp [hsplit]
    obtain ⟨m, answers, rfl, ha⟩ := turnBlock_tail_no_user hmem
    rw [h3]
    refine (oversizedBlockTail_sublist est cfg historyBudget ha).trans ?_
    conv_rhs => rw [← hflat, hsplit]
    simp

theorem withNewestUser_sublist {messages selected : List Message} (h : selected.Sublist messages) :
    (withNewestUser messages selected).Sublist messages := by
  unfold withNewestUser
  split
  · exact h
  · split
    · exact h
    · exact List.filter_sublist

theorem calculateKeepRecent_sublist_conversation (cfg : KeepRecentConfig) (messages : List Message) (historyBudget : Int) :
    (calculateKeepRecent est cfg messages historyBudget).Sublist (conversation messages) := by
  unfold calculateKeepRecent
  simp only
  split
  · simp
  · rename_i hne
    split
    · exact withNewestUser_sublist (List.nil_sublist _)
    · exact withNewestUser_sublist (keepLoop_sublist est cfg historyBudget _ hne)

theorem calculateKeepRecent_sublist (cfg : KeepRecentConfig) (messages : List Message) (historyBudget : Int) :
    (calculateKeepRecent est cfg messages historyBudget).Sublist messages :=
  (calculateKeepRecent_sublist_conversation est cfg messages historyBudget).trans List.filter_sublist

/-- A tail that covers the history leaves no checkpoint row in it. -/
theorem conversation_eq_of_covered {cfg : KeepRecentConfig} {messages : List Message} {historyBudget : Int}
    (h : calculateKeepRecent est cfg messages historyBudget = messages) : conversation messages = messages := by
  have hsub := calculateKeepRecent_sublist_conversation est cfg messages historyBudget
  rw [h] at hsub
  exact List.filter_sublist.eq_of_length_le hsub.length_le

/-! ## The newest user message -/

theorem newestUser_spec {messages : List Message} {u : Message} (h : newestUser messages = some u) :
    u ∈ messages ∧ u.role = .user ∧ u.nudge = false := by
  have hp := List.find?_some h
  have hm := List.mem_of_find?_eq_some h
  simp only [Bool.decide_and, Bool.and_eq_true, decide_eq_true_eq] at hp
  exact ⟨by simpa using hm, hp⟩

theorem newestUser_mem_withNewestUser {messages selected : List Message} {u : Message}
    (h : newestUser messages = some u) : u ∈ withNewestUser messages selected := by
  unfold withNewestUser
  rw [h]
  simp only
  split
  · assumption
  · simp [(newestUser_spec h).1]

theorem newestUser_mem_calculateKeepRecent (cfg : KeepRecentConfig) (messages : List Message) (historyBudget : Int)
    {u : Message} (h : newestUser (conversation messages) = some u) :
    u ∈ calculateKeepRecent est cfg messages historyBudget := by
  unfold calculateKeepRecent
  simp only
  split
  · rename_i he
    have := (newestUser_spec h).1
    rw [he] at this
    simp at this
  · split <;> exact newestUser_mem_withNewestUser h

end Flowly.Compaction
