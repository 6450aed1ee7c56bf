/-
  Flowly.Compaction.ToolProtocol — the order providers demand of tool calls and tool
  messages, and that the tail `_calculate_keep_recent` extracts from a turn too big to
  keep whole still has it (`flowly/compaction/service.py`).

  Where the newest block fits, whole blocks are kept and the history's own order is kept
  with them. The case below is the other one: `_recent_turn_tail` cuts the block at its
  exchanges, `_essential_turn_tail` keeps two messages of it, and `_with_newest_user` may
  put a message of an older block in front.
-/

import Mathlib.Data.List.Nodup
import Flowly.Compaction.KeepRecent

namespace Flowly.Compaction

variable (est : Message → Nat)

/-! ## Clean sequences -/

/-- `t` answers a call of the assistant message before it; only tool messages stand between. -/
def Answers (before : List Message) (t : Message) : Prop :=
  ∃ earlier a results, before = earlier ++ (a : Message) :: results ∧ a.role = .assistant ∧ (∀ r ∈ results, r.role = .tool) ∧
    ∃ c ∈ a.toolCalls, c.id = t.toolCallId

/-- Every tool message answers a call. -/
def ToolsAnswer (messages : List Message) : Prop :=
  ∀ before (t : Message) after, messages = before ++ t :: after → t.role = .tool → Answers before t

/-- Every call of an assistant message is answered in the run of tool messages after it. -/
def CallsAnswered (messages : List Message) : Prop :=
  ∀ before (a : Message) after, messages = before ++ a :: after → a.role = .assistant →
    ∀ c ∈ a.toolCalls, ∃ t ∈ after.takeWhile (fun m => m.role = .tool), t.toolCallId = c.id

structure Clean (messages : List Message) : Prop where
  tools : ToolsAnswer messages
  calls : CallsAnswered messages

theorem Answers.append {before : List Message} {t : Message} (h : Answers before t) (front : List Message) :
    Answers (front ++ before) t := by
  obtain ⟨earlier, a, results, rfl, h⟩ := h
  exact ⟨front ++ earlier, a, results, by simp, h⟩

variable {m : Message}

/-- A message of `front ++ back` stands in the one or in the other. -/
theorem append_position {front back before after : List Message} (h : front ++ back = before ++ m :: after) :
    (∃ mid, front = before ++ m :: mid ∧ after = mid ++ back) ∨ ∃ mid, before = front ++ mid ∧ back = mid ++ m :: after := by
  rcases List.append_eq_append_iff.mp h with ⟨mid, h1, h2⟩ | ⟨mid, h1, h2⟩
  · exact Or.inr ⟨mid, h1, h2⟩
  · cases mid with
    | nil => exact Or.inr ⟨[], by simpa using h1.symm, by simpa using h2.symm⟩
    | cons x mid =>
      rw [List.cons_append, List.cons.injEq] at h2
      exact Or.inl ⟨mid, by rw [h1, h2.1], h2.2⟩

theorem cons_position {first m : Message} {back before after : List Message} (h : first :: back = before ++ m :: after) :
    (before = [] ∧ first = m ∧ back = after) ∨ ∃ mid, before = first :: mid ∧ back = mid ++ m :: after := by
  cases before with
  | nil => simpa using h
  | cons x mid =>
    rw [List.cons_append, List.cons.injEq] at h
    exact Or.inr ⟨mid, by rw [h.1], h.2⟩

theorem Clean.nil : Clean [] := ⟨by intro b t a h; simp at h, by intro b t a h; simp at h⟩

/-- A message that neither calls nor answers may stand anywhere. -/
theorem Clean.plain {rest : List Message} (ht : m.role ≠ .tool) (hc : m.role = .assistant → m.toolCalls = [])
    (h : Clean rest) : Clean (m :: rest) where
  tools := by
    intro before t after he hr
    rcases cons_position he with ⟨_, rfl, _⟩ | ⟨mid, rfl, hback⟩
    · exact absurd hr ht
    · exact (h.tools mid t after hback hr).append [m]
  calls := by
    intro before a after he hr
    rcases cons_position he with ⟨_, rfl, _⟩ | ⟨mid, _, hback⟩
    · simp [hc hr]
    · exact h.calls mid a after hback hr

/-- The tool messages of an exchange answer its calls, and no call waits. -/
structure Exchange.Settled (e : Exchange) : Prop where
  assistant : e.call.role = .assistant
  tools : ∀ t ∈ e.results, t.role = .tool ∧ ∃ c ∈ e.call.toolCalls, c.id = t.toolCallId
  answered : e.waiting = false

theorem Exchange.Settled.result {e : Exchange} (he : e.Settled) {c : ToolCall} (hc : c ∈ e.call.toolCalls) :
    ∃ t ∈ e.results, t.toolCallId = c.id := by
  have hw := he.answered
  simp only [Exchange.waiting, List.any_eq_false, decide_eq_true_eq, not_not] at hw
  exact List.mem_map.mp (hw c hc)

theorem Exchange.Settled.clean {e : Exchange} {rest : List Message} (he : e.Settled) (h : Clean rest) :
    Clean (e.messages ++ rest) where
  tools := by
    intro before t after heq hr
    rcases append_position heq with ⟨mid, hfront, _⟩ | ⟨mid, rfl, hback⟩
    · rcases cons_position hfront with ⟨_, rfl, _⟩ | ⟨results, rfl, hres⟩
      · rw [he.assistant] at hr
        cases hr
      · refine ⟨[], e.call, results, rfl, he.assistant, ?_, (he.tools t (by simp [hres])).2⟩
        intro r hr'
        exact (he.tools r (by simp [hres, hr'])).1
    · exact (h.tools mid t after hback hr).append e.messages
  calls := by
    intro before a after heq hr
    rcases append_position heq with ⟨mid, hfront, rfl⟩ | ⟨mid, _, hback⟩
    · rcases cons_position hfront with ⟨_, rfl, rfl⟩ | ⟨results, _, hres⟩
      · intro c hc
        obtain ⟨t, ht, hid⟩ := he.result hc
        refine ⟨t, ?_, hid⟩
        rw [List.takeWhile_append_of_pos (by simpa using fun x hx => (he.tools x hx).1)]
        exact List.mem_append_left _ ht
      · have := (he.tools a (by simp [hres])).1
        rw [hr] at this
        cases this
    · exact h.calls mid a after hback hr

theorem Clean.exchanges {newest : List Exchange} (h : ∀ e ∈ newest, e.Settled) : Clean (exchangeMessages newest) := by
  have key : ∀ es : List Exchange, (∀ e ∈ es, e.Settled) → Clean (es.map Exchange.messages).flatten := by
    intro es
    induction es with
    | nil => intro _; exact Clean.nil
    | cons e es ih => intro h; exact (h e (by simp)).clean (ih fun x hx => h x (by simp [hx]))
  exact key _ fun e he => h e (List.mem_reverse.mp he)

/-! ## The exchanges of a turn -/

/-- `exchanges`, newest first, is how the loop reads `answers`. -/
inductive ExchangesOf : List Message → List Exchange → Prop where
  | none {answers} : (∀ m ∈ answers, m.role ≠ .assistant) → ExchangesOf answers []
  | some {earlier between e es} : ExchangesOf earlier es → e.call.role = .assistant →
      (∀ m ∈ between, m.role ≠ .assistant) → e.results = between.filter (fun m => m.role = .tool) →
      ExchangesOf (earlier ++ e.call :: between) (e :: es)

variable {answers : List Message}

theorem ExchangesOf.add {exchanges : List Exchange} (h : ExchangesOf answers exchanges)
    (m : Message) : ExchangesOf (answers ++ [m]) (addToExchanges exchanges m) := by
  cases h with
  | none hn =>
    simp only [addToExchanges]
    split
    · rename_i ha
      exact .some (e := ⟨m, []⟩) (.none hn) ha (by simp) (by simp)
    · rename_i ha
      refine .none ?_
      intro x hx
      rcases List.mem_append.mp hx with hx | hx
      · exact hn x hx
      · simp only [List.mem_singleton] at hx
        exact hx ▸ ha
  | @some earlier between e es hes ha hb hr =>
    simp only [addToExchanges]
    split
    · rename_i ht
      rw [List.append_assoc, List.cons_append]
      refine .some (e := { e with results := e.results ++ [m] }) hes ha ?_ (by simp [hr, ht])
      intro x hx
      rcases List.mem_append.mp hx with hx | hx
      · exact hb x hx
      · simp only [List.mem_singleton] at hx
        simp [hx, ht]
    · rename_i ht
      split
      · rename_i hm
        exact .some (e := ⟨m, []⟩) (.some hes ha hb hr) hm (by simp) (by simp)
      · rename_i hm
        rw [List.append_assoc, List.cons_append]
        refine .some hes ha ?_ (by simp [hr, ht])
        intro x hx
        rcases List.mem_append.mp hx with hx | hx
        · exact hb x hx
        · simp only [List.mem_singleton] at hx
          exact hx ▸ hm

theorem exchangesOf_foldl (answers : List Message) : ExchangesOf answers (answers.foldl addToExchanges []) := by
  have key : ∀ (rest front : List Message) (exchanges : List Exchange), ExchangesOf front exchanges →
      ExchangesOf (front ++ rest) (rest.foldl addToExchanges exchanges) := by
    intro rest
    induction rest with
    | nil => intro front exchanges h; simpa using h
    | cons m rest ih => intro front exchanges h; simpa using ih _ _ (h.add m)
  simpa using key answers [] [] (.none (by simp))

/-- Where an exchange stands among the messages it was read from. -/
theorem ExchangesOf.position {exchanges : List Exchange} (h : ExchangesOf answers exchanges) :
    ∀ e ∈ exchanges, ∃ earlier between later, answers = earlier ++ e.call :: (between ++ later) ∧
      e.call.role = .assistant ∧ (∀ m ∈ between, m.role ≠ .assistant) ∧
      e.results = between.filter (fun m => m.role = .tool) := by
  induction h with
  | none _ => intro e he; simp at he
  | @some earlier between e' es _ ha hb hr ih =>
    intro e he
    rcases List.mem_cons.mp he with rfl | he
    · exact ⟨earlier, between, [], by simp, ha, hb, hr⟩
    · obtain ⟨earlier', between', later, h1, h2, h3, h4⟩ := ih e he
      exact ⟨earlier', between', later ++ e'.call :: between, by simp [h1], h2, h3, h4⟩

/-- The last message that satisfies `p`, and what follows it, are determined. -/
theorem last_of_append {p : Message → Bool} {xs ys zs ws : List Message} {a b : Message}
    (h : xs ++ a :: ys = zs ++ b :: ws) (ha : p a = true) (hb : p b = true)
    (hys : ∀ y ∈ ys, p y = false) (hws : ∀ w ∈ ws, p w = false) : a = b := by
  have last : ∀ (front back : List Message) (c : Message), p c = true → (∀ y ∈ back, p y = false) →
      (front ++ c :: back).reverse.find? p = some c := by
    intro front back c hc hback
    simp only [List.reverse_append, List.reverse_cons, List.append_assoc, List.find?_append]
    rw [List.find?_eq_none.mpr (by simpa using hback)]
    simp [hc]
  have := last xs ys a ha hys
  rw [h, last zs ws b hb hws] at this
  exact (Option.some.inj this).symm

/-- The results of an exchange answer its own call. -/
theorem exchange_answers {front answers : List Message} (h : ToolsAnswer (front ++ answers)) {e : Exchange}
    (he : e ∈ answers.foldl addToExchanges []) :
    e.call.role = .assistant ∧ ∀ t ∈ e.results, t.role = .tool ∧ ∃ c ∈ e.call.toolCalls, c.id = t.toolCallId := by
  obtain ⟨earlier, between, later, h1, h2, h3, h4⟩ := (exchangesOf_foldl answers).position e he
  refine ⟨h2, ?_⟩
  intro t ht
  rw [h4] at ht
  obtain ⟨ht, hrole⟩ := List.mem_filter.mp ht
  simp only [decide_eq_true_eq] at hrole
  obtain ⟨b1, b2, rfl⟩ := List.append_of_mem ht
  obtain ⟨earlier', a, results, h5, h6, h7, c, hc, hid⟩ := h (front ++ earlier ++ e.call :: b1) t (b2 ++ later)
    (by rw [h1]; simp) hrole
  have hcall : e.call = a := by
    refine last_of_append (p := fun m => m.role = .assistant) h5 (by simpa using h2) (by simpa using h6) ?_ ?_
    · intro y hy; simpa using h3 y (by simp [hy])
    · intro y hy; simp [h7 y hy]
  exact ⟨hrole, c, hcall ▸ hc, hid⟩

/-! ## What is kept of a block over the hard limit -/

theorem recentTurnTail_clean {front block : List Message} (h : ToolsAnswer (front ++ block)) (limit : Int) :
    recentTurnTail est block limit = [] ∨
      ∃ user rest, recentTurnTail est block limit = user :: rest ∧ user ∈ block ∧ user.role = .user ∧ Clean rest := by
  unfold recentTurnTail
  split
  · exact Or.inl rfl
  · rename_i user answers hd
    simp only
    split
    · exact Or.inl rfl
    · right
      obtain ⟨newest, h1, h2, h3⟩ := keepExchanges_eq est limit (answers.foldl addToExchanges [])
        (estimateMessagesTokens est [user]) []
      have hblock := List.takeWhile_append_dropWhile (p := fun m => decide (m.role ≠ .user)) (l := block)
      rw [hd] at hblock
      have hfront : front ++ block = (front ++ block.takeWhile (fun m => decide (m.role ≠ .user)) ++ [user]) ++ answers := by
        conv_lhs => rw [← hblock]
        simp
      have huser : user.role = .user := by
        have := List.head?_dropWhile_not (fun m : Message => decide (m.role ≠ .user)) block
        rw [hd] at this
        simpa using this
      refine ⟨user, _, rfl, by rw [← hblock]; simp, huser, ?_⟩
      rw [h3, List.append_nil]
      refine Clean.exchanges fun e he => ?_
      obtain ⟨ha, ht⟩ := exchange_answers (hfront ▸ h) (h1.subset he)
      exact ⟨ha, ht, h2 e he⟩

theorem plainAnswer_spec (h : plainAnswer m = true) : m.role = .assistant ∧ m.toolCalls = [] := by
  simp only [plainAnswer, Bool.decide_and, Bool.and_eq_true, decide_eq_true_eq] at h
  exact ⟨h.1, h.2.1⟩

theorem essentialTurnTail_clean (block : List Message) : Clean (essentialTurnTail block) := by
  have hfinal : Clean (block.reverse.find? plainAnswer).toList := by
    rcases hf : block.reverse.find? plainAnswer with _ | f
    · exact Clean.nil
    · obtain ⟨h1, h2⟩ := plainAnswer_spec (List.find?_some hf)
      exact Clean.plain (by simp [h1]) (fun _ => h2) Clean.nil
  change Clean ((block.find? fun m => m.role = .user).toList ++ (block.reverse.find? plainAnswer).toList)
  cases hu : block.find? fun m => m.role = .user with
  | none => exact hfinal
  | some u =>
    have hrole : u.role = .user := by simpa using List.find?_some hu
    rw [Option.toList_some, List.singleton_append]
    exact Clean.plain (by simp [hrole]) (by simp [hrole]) hfinal

/-- Part of an oversized block: nothing, or a clean tail that holds the block's user message. -/
theorem oversizedBlockTail_clean (cfg : KeepRecentConfig) (historyBudget : Int) {front : List Message}
    (h : ToolsAnswer (front ++ m :: answers)) (ha : ∀ x ∈ answers, x.role ≠ .user)
    (hbig : (estimateMessagesTokens est (m :: answers) : Int) > hardLimit cfg historyBudget) :
    Clean (oversizedBlockTail est cfg historyBudget (m :: answers)) ∧
      (m.role = .user → oversizedBlockTail est cfg historyBudget (m :: answers) = [] ∨
        m ∈ oversizedBlockTail est cfg historyBudget (m :: answers)) := by
  unfold oversizedBlockTail
  rw [if_neg (by omega)]
  simp only
  split
  · rename_i hlen
    rcases recentTurnTail_clean est h (hardLimit cfg historyBudget) with he | ⟨user, rest, he, hin, hu, hc⟩
    · rw [he] at hlen
      simp at hlen
    · rw [he]
      refine ⟨Clean.plain (by simp [hu]) (by simp [hu]) hc, fun _ => Or.inr ?_⟩
      rcases List.mem_cons.mp hin with rfl | hin
      · simp
      · exact absurd hu (ha user hin)
  · split
    · exact ⟨essentialTurnTail_clean _, fun hm => Or.inr (by simp [essentialTurnTail, hm])⟩
    · exact ⟨Clean.nil, fun _ => Or.inl rfl⟩

/-! ## The kept tail -/

/-- A history as the callers build it: every entry is a `dict` of its own, and a provider
    checkpoint row holds nothing but the checkpoint. -/
structure History where
  messages : List Message
  distinct : (messages.map Message.oid).Nodup
  bareCheckpoints : ∀ m ∈ messages, m.checkpoint = true → m.role = .absent ∧ m.toolCalls = []

theorem ToolsAnswer.conversation {history : History} (h : ToolsAnswer history.messages) :
    ToolsAnswer (conversation history.messages) := by
  intro before t after he hr
  obtain ⟨l1, l2, h1, rfl, h2⟩ := List.filter_eq_append_iff.mp he
  obtain ⟨z1, z2, rfl, hz, _, rfl⟩ := List.filter_eq_cons_iff.mp h2
  obtain ⟨earlier, a, results, h5, h6, h7, h8⟩ := h (l1 ++ z1) t z2 (by rw [h1]; simp) hr
  have hback : l1.filter (fun m => !m.checkpoint) = (l1 ++ z1).filter fun m => !m.checkpoint := by
    rw [List.filter_append, List.filter_eq_nil_iff.mpr hz, List.append_nil]
  have hbare : a.checkpoint = false := by
    by_contra hc
    have := (history.bareCheckpoints a (by rw [h1, ← List.append_assoc, h5]; simp) (by simpa using hc)).1
    rw [h6] at this
    cases this
  refine ⟨earlier.filter fun m => !m.checkpoint, a, results.filter fun m => !m.checkpoint, ?_, h6, ?_, h8⟩
  · rw [hback, h5]
    simp [hbare]
  · intro r hr'
    exact h7 r (List.mem_of_mem_filter hr')

theorem filter_mem_of_sublist {selected messages : List Message} (h : selected.Sublist messages) :
    messages.Nodup → messages.filter (fun m => m ∈ selected) = selected := by
  induction h with
  | slnil => intro _; rfl
  | @cons s l a h ih =>
    intro hn
    obtain ⟨ha, hn⟩ := List.nodup_cons.mp hn
    rw [List.filter_cons_of_neg (by simpa using fun hs => ha (h.subset hs)), ih hn]
  | @cons_cons s l a h ih =>
    intro hn
    obtain ⟨ha, hn⟩ := List.nodup_cons.mp hn
    rw [List.filter_cons_of_pos (by simp)]
    congr 1
    conv_rhs => rw [← ih hn]
    refine List.filter_congr fun m hm => ?_
    have : m ≠ a := fun he => ha (he ▸ hm)
    simp [this]

theorem filter_eq_singleton {messages : List Message} {u : Message} (hn : messages.Nodup) (hu : u ∈ messages) :
    messages.filter (fun m => m = u) = [u] := by
  have h := filter_mem_of_sublist (List.singleton_sublist.mpr hu) hn
  simpa using h

/-- `_with_newest_user` puts the newest user message before a tail that lacks it, and adds nothing else. -/
theorem withNewestUser_clean {older block selected : List Message}
    (hblock : block = m :: answers) (ha : ∀ x ∈ answers, x.role ≠ .user) (hn : (older ++ block).Nodup)
    (hsub : selected.Sublist block) (hopen : m.role = .user → selected = [] ∨ m ∈ selected) (hc : Clean selected) :
    Clean (withNewestUser (older ++ block) selected) := by
  unfold withNewestUser
  split
  · exact hc
  · rename_i u hu
    obtain ⟨hin, hrole, _⟩ := newestUser_spec hu
    have hsingle : Clean [u] := Clean.plain (by simp [hrole]) (by simp [hrole]) Clean.nil
    split
    · exact hc
    · rename_i hnot
      by_cases he : selected = []
      · subst he
        simp only [List.not_mem_nil, false_or]
        rw [filter_eq_singleton hn hin]
        exact hsingle
      · obtain ⟨_, hnb, hdisj⟩ := List.nodup_append.mp hn
        have hblocku : u ∉ block := by
          intro hub
          rw [hblock] at hub
          rcases List.mem_cons.mp hub with rfl | hub
          · rcases hopen hrole with h | h
            · exact he h
            · exact hnot h
          · exact ha u hub hrole
        have holder : u ∈ older := (List.mem_append.mp hin).resolve_right hblocku
        have h1 : older.filter (fun x => x ∈ selected ∨ x = u) = [u] := by
          rw [← filter_eq_singleton (List.nodup_append.mp hn).1 holder]
          refine List.filter_congr fun x hx => ?_
          have : x ∉ selected := fun hs => hdisj x hx x (hsub.subset hs) rfl
          simp [this]
        have h2 : block.filter (fun x => x ∈ selected ∨ x = u) = selected := by
          conv_rhs => rw [← filter_mem_of_sublist hsub hnb]
          refine List.filter_congr fun x hx => ?_
          have : x ≠ u := fun h => hblocku (h ▸ hx)
          simp [this]
        rw [List.filter_append, h1, h2]
        exact Clean.plain (by simp [hrole]) (by simp [hrole]) hc

theorem keepRecentCap_le_hardLimit (cfg : KeepRecentConfig) (historyBudget : Int) :
    keepRecentCap cfg historyBudget ≤ hardLimit cfg historyBudget := by
  unfold hardLimit
  simp only
  split <;> omega

/-- Where the newest turn does not fit whole, the kept tail is clean, whatever the newest
    assistant message still waits for. -/
theorem calculateKeepRecent_clean (cfg : KeepRecentConfig) (history : History) (historyBudget : Int)
    (newest : List Message) (hanswer : ToolsAnswer history.messages)
    (hnewest : (splitIntoTurnBlocks (conversation history.messages)).getLast? = some newest)
    (hbig : (estimateMessagesTokens est newest : Int) > hardLimit cfg historyBudget) :
    Clean (calculateKeepRecent est cfg history.messages historyBudget) ∧
      (calculateKeepRecent est cfg history.messages historyBudget).Sublist history.messages := by
  refine ⟨?_, calculateKeepRecent_sublist est cfg history.messages historyBudget⟩
  have hnodup : (conversation history.messages).Nodup := (List.Nodup.of_map _ history.distinct).filter _
  have htools := hanswer.conversation
  obtain ⟨olderBlocks, hblocks⟩ := List.getLast?_eq_some_iff.mp hnewest
  have hmem : newest ∈ splitIntoTurnBlocks (conversation history.messages) := by simp [hblocks]
  obtain ⟨m, answers, hm, ha⟩ := turnBlock_tail_no_user hmem
  have hflat : conversation history.messages = olderBlocks.flatten ++ newest := by
    conv_lhs => rw [← splitIntoTurnBlocks_flatten (conversation history.messages), hblocks]
    simp
  unfold calculateKeepRecent
  simp only
  rw [hflat] at hnodup htools ⊢
  split
  · exact Clean.nil
  · split
    · exact withNewestUser_clean hm ha hnodup (List.nil_sublist _) (fun _ => Or.inl rfl) Clean.nil
    · have hcap := keepRecentCap_le_hardLimit cfg historyBudget
      have hloop : keepLoop est cfg historyBudget [] 0 0 (splitIntoTurnBlocks (olderBlocks.flatten ++ newest)).reverse =
          oversizedBlockTail est cfg historyBudget newest := by
        rw [← hflat, hblocks, List.reverse_append, List.reverse_singleton, List.singleton_append, keepLoop]
        simp only [ne_eq, not_true_eq_false, false_and, if_false, true_and]
        rw [if_pos (by omega)]
      rw [hloop]
      subst hm
      obtain ⟨h1, h2⟩ := oversizedBlockTail_clean est cfg historyBudget htools ha hbig
      exact withNewestUser_clean rfl ha hnodup (oversizedBlockTail_sublist est cfg historyBudget ha) h2 h1

/-- A turn of two exchanges under a cap that only the newer one fits. -/
def twoExchanges : History where
  messages :=
    [{ oid := 1, role := .user }, { oid := 2, role := .assistant, toolCalls := [{ id := some "a" }] },
      { oid := 3, role := .tool, toolCallId := some "a" }, { oid := 4, role := .assistant, toolCalls := [{ id := some "b" }] },
      { oid := 5, role := .tool, toolCallId := some "b" }]
  distinct := by decide
  bareCheckpoints := by decide

theorem twoExchanges_toolsAnswer : ToolsAnswer twoExchanges.messages := by
  have settled (oid oid' : Nat) (id : String) : Exchange.Settled
      ⟨{ oid := oid, role := .assistant, toolCalls := [{ id := some id }] },
        [{ oid := oid', role := .tool, toolCallId := some id }]⟩ := ⟨rfl, by simp, by simp [Exchange.waiting]⟩
  exact (Clean.plain (by decide) (by decide) ((settled 2 3 "a").clean ((settled 4 5 "b").clean Clean.nil))).tools

theorem twoExchanges_clean :
    Clean (calculateKeepRecent (fun _ => 10) { maxTokens := 35 } twoExchanges.messages 0) ∧
      (calculateKeepRecent (fun _ => 10) { maxTokens := 35 } twoExchanges.messages 0).Sublist twoExchanges.messages :=
  calculateKeepRecent_clean _ _ _ _ twoExchanges.messages twoExchanges_toolsAnswer (by decide) (by decide)

example : (calculateKeepRecent (fun _ => 10) { maxTokens := 35 } twoExchanges.messages 0).map Message.oid = [1, 4, 5] := by
  decide

end Flowly.Compaction
