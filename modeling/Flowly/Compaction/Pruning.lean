/-
  Flowly.Compaction.Pruning — cutting a history into turn blocks, shares and chunks
  (`flowly/compaction/pruning.py`, and `estimate_messages_tokens` of
  `flowly/compaction/estimator.py`).

  `est` is `estimate_message_tokens`, any function: the tokenizer is a third-party
  package, and nothing below depends on what it counts. Ratios are rationals where the
  code has floats; `current + t > total / parts` is compared without the division. The
  loops carry a fuel that bounds their rounds: the number of messages or of characters
  they can still consume.

  Proved: blocks, shares and chunks join to what was cut (`splitIntoTurnBlocks_flatten`,
  `splitMessagesByTokenShare_flatten`, `pruneHistoryForContextShare_split`), none of them
  is empty, only the first message of a block can be a user message
  (`turnBlock_tail_no_user`), and the chunks hold every message whole or as pieces whose
  texts join to its text (`chunkMessagesByMaxTokens_flatten`, `splitOversizedTextMessage_pieces`).
-/

import Mathlib.Data.Rat.Floor
import Flowly.Compaction.Message

namespace Flowly.Compaction

open Flowly.Lib

variable (est : Message → Nat)

/-! ## Estimates -/

def estimateMessagesTokens (messages : List Message) : Nat :=
  -- `messages[:checkpoint_index]` is what stands before the newest checkpoint
  let tail := (messages.reverse.takeWhile fun m => !m.checkpoint).reverse
  match messages.reverse.dropWhile fun m => !m.checkpoint with
  | [] => (messages.map est).sum
  | checkpoint :: before =>
    ((before.reverse.filter fun m => m.role = .system ∨ m.role = .developer).map est).sum +
      ((checkpoint :: tail).map est).sum

/-! ## Turn blocks -/

def turnBlocksFrom (blocks : List (List Message)) (current : List Message) : List Message → List (List Message)
  | [] => if current = [] then blocks else blocks ++ [current]
  | m :: ms =>
    if m.role = .user ∧ current ≠ [] then turnBlocksFrom (blocks ++ [current]) [m] ms
    else turnBlocksFrom blocks (current ++ [m]) ms

def splitIntoTurnBlocks (messages : List Message) : List (List Message) := turnBlocksFrom [] [] messages

/-! ## Shares -/

def BASE_CHUNK_RATIO : ℚ := 2 / 5
def MIN_CHUNK_RATIO : ℚ := 3 / 20
def SAFETY_MARGIN : ℚ := 6 / 5
def DEFAULT_PARTS : Nat := 2

def normalizeParts (parts messageCount : Nat) : Nat :=
  if parts ≤ 1 then 1 else min (max 1 parts) (max 1 messageCount)

/-- The loop of `split_messages_by_token_share`: `total / parts` is the target. -/
def shareLoop (parts total : Nat) (chunks : List (List Message)) (current : List Message) (currentTokens : Nat) :
    List Message → List (List Message)
  | [] => if current = [] then chunks else chunks ++ [current]
  | m :: ms =>
    if chunks.length < parts - 1 ∧ current ≠ [] ∧ (currentTokens + est m) * parts > total then
      shareLoop parts total (chunks ++ [current]) [m] (est m) ms
    else shareLoop parts total chunks (current ++ [m]) (currentTokens + est m) ms

def splitMessagesByTokenShare (messages : List Message) (parts : Nat) : List (List Message) :=
  if messages = [] then []
  else
    let normalized := normalizeParts parts messages.length
    if normalized ≤ 1 then [messages]
    else shareLoop est normalized (estimateMessagesTokens est messages) [] [] 0 messages

/-! ## Pruning to a share of the window -/

structure Pruned where
  messages : List Message
  droppedMessagesList : List Message
  droppedChunks : Nat
  droppedMessages : Nat
  droppedTokens : Nat

/-- The `while` loop: drop the oldest share until the rest is within the budget. -/
def pruneLoop (budget parts : Nat) : Nat → Pruned → Pruned
  | 0, p => p
  | fuel + 1, p =>
    if p.messages ≠ [] ∧ estimateMessagesTokens est p.messages > budget then
      match splitMessagesByTokenShare est p.messages parts with
      | dropped :: next :: rest =>
        pruneLoop budget parts fuel
          { messages := (next :: rest).flatten
            droppedMessagesList := p.droppedMessagesList ++ dropped
            droppedChunks := p.droppedChunks + 1
            droppedMessages := p.droppedMessages + dropped.length
            droppedTokens := p.droppedTokens + estimateMessagesTokens est dropped }
      | _ => p
    else p

def pruneHistoryForContextShare (messages : List Message) (maxContextTokens : Nat) (maxHistoryShare : ℚ)
    (parts : Nat) : Pruned :=
  let budget := max 1 (maxContextTokens * maxHistoryShare).floor.toNat
  pruneLoop est budget (normalizeParts parts messages.length) messages.length ⟨messages, [], 0, 0, 0⟩

def computeAdaptiveChunkRatio (messages : List Message) (contextWindow : Nat) : ℚ :=
  if messages = [] then BASE_CHUNK_RATIO
  else
    let avgTokens : ℚ := estimateMessagesTokens est messages / messages.length
    let avgRatio : ℚ := avgTokens * SAFETY_MARGIN / contextWindow
    if avgRatio > 1 / 10 then
      max MIN_CHUNK_RATIO ( BASE_CHUNK_RATIO - min (avgRatio * 2) ( BASE_CHUNK_RATIO - MIN_CHUNK_RATIO))
    else BASE_CHUNK_RATIO

/-! ## Chunks for the summariser -/

/-- The fragment of `m` with the text `t`; only the first keeps the tool calls. -/
def fragmentOf (m : Message) (first : Bool) (t : Text) : Message :=
  { m with content := .text t, toolCalls := if first then m.toolCalls else [] }

def searchBest (fits : Nat → Bool) : Nat → Nat → Nat → Nat → Nat
  | 0, _, _, best => best
  | fuel + 1, low, high, best =>
    if low ≤ high then
      let mid := (low + high) / 2
      if fits mid then searchBest fits fuel (mid + 1) high mid
      else searchBest fits fuel low (mid - 1) best
    else best

def rfind (t : Text) (c : Char) (floor stop : Nat) : Option Nat :=
  ((List.range stop).reverse.find? fun i => floor ≤ i ∧ t[i]? = some c)

/-- Where a fragment from `start` that may reach `best` ends: after its last newline or
    space in the last fifth, if there is one. -/
def fragmentEnd (t : Text) (start best : Nat) : Nat :=
  if best < t.length then
    let floor := start + max 1 ((best - start) * 4 / 5)
    match max (rfind t '\n' floor best) (rfind t ' ' floor best) with
    | some boundary => if boundary > start then boundary + 1 else best
    | none => best
  else best

/-- The `while start < len(content)` loop; `none` when the message stays whole. -/
def fragmentLoop (m : Message) (t : Text) (maxTokens : Int) : Nat → Nat → List Message → Option (List Message)
  | 0, _, fragments => some fragments
  | fuel + 1, start, fragments =>
    if start < t.length then
      let candidate := fun stop => fragmentOf m fragments.isEmpty ((t.drop start).take (stop - start))
      let fits := fun mid => decide ((est (candidate mid) : Int) ≤ maxTokens)
      let best := searchBest fits (t.length + 1) (start + 1) t.length start
      if best ≤ start then none
      else
        let stop := fragmentEnd t start best
        fragmentLoop m t maxTokens fuel stop (fragments ++ [candidate stop])
    else some fragments

def splitOversizedTextMessage (m : Message) (maxTokens : Int) : List Message :=
  if maxTokens ≤ 0 ∨ (est m : Int) ≤ maxTokens then [m]
  else match m.content with
    | .text t => if t = [] then [m] else (fragmentLoop est m t maxTokens t.length 0 []).getD [m]
    | _ => [m]

/-- The loop of `chunk_messages_by_max_tokens` over the expanded messages. -/
def chunkLoop (maxTokens : Int) (chunks : List (List Message)) (current : List Message) (currentTokens : Nat) :
    List Message → List (List Message)
  | [] => if current = [] then chunks else chunks ++ [current]
  | m :: ms =>
    let t := est m
    let cut := current ≠ [] ∧ ((currentTokens + t : Nat) : Int) > maxTokens
    let chunks := if cut then chunks ++ [current] else chunks
    let current := (if cut then [] else current) ++ [m]
    let currentTokens := (if cut then 0 else currentTokens) + t
    if (t : Int) > maxTokens then chunkLoop maxTokens (chunks ++ [current]) [] 0 ms
    else chunkLoop maxTokens chunks current currentTokens ms

def chunkMessagesByMaxTokens (messages : List Message) (maxTokens : Int) : List (List Message) :=
  if messages = [] then []
  else chunkLoop est maxTokens [] [] 0 (messages.flatMap fun m => splitOversizedTextMessage est m maxTokens)

/-! ## Turn blocks join to the history -/

def OpenedByUser (block : List Message) : Prop :=
  ∃ u answers, block = u :: answers ∧ u.role = .user ∧ ∀ m ∈ answers, m.role ≠ .user

theorem turnBlocksFrom_append (blocks : List (List Message)) :
    ∀ (ms current : List Message), turnBlocksFrom blocks current ms = blocks ++ turnBlocksFrom [] current ms := by
  intro ms
  induction ms generalizing blocks with
  | nil => intro current; simp only [turnBlocksFrom]; split <;> simp
  | cons m ms ih =>
    intro current
    simp only [turnBlocksFrom]
    split
    · rw [ih (blocks ++ [current]), ih ([] ++ [current])]; simp
    · exact ih blocks _

/-- An open block grows to the next user message; every later block is opened by one. -/
theorem turnBlocksFrom_open : ∀ (ms current : List Message), current ≠ [] →
    ∃ answers rest, turnBlocksFrom [] current ms = (current ++ answers) :: rest ∧ ms = answers ++ rest.flatten ∧
      (∀ m ∈ answers, m.role ≠ .user) ∧ ∀ b ∈ rest, OpenedByUser b := by
  intro ms
  induction ms with
  | nil => intro current hc; exact ⟨[], [], by simp [turnBlocksFrom, hc], by simp, by simp, by simp⟩
  | cons m ms ih =>
    intro current hc
    simp only [turnBlocksFrom]
    split
    · rename_i hm
      obtain ⟨answers, rest, h1, h2, h3, h4⟩ := ih [m] (by simp)
      refine ⟨[], (m :: answers) :: rest, ?_, by simp [h2], by simp, ?_⟩
      · rw [turnBlocksFrom_append, h1]; simp
      · intro b hb
        rcases List.mem_cons.mp hb with rfl | hb
        · exact ⟨m, answers, rfl, hm.1, h3⟩
        · exact h4 b hb
    · rename_i hm
      obtain ⟨answers, rest, h1, h2, h3, h4⟩ := ih (current ++ [m]) (by simp)
      have hu : m.role ≠ .user := fun h => hm ⟨h, hc⟩
      refine ⟨m :: answers, rest, by simp [h1], by simp [h2], ?_, h4⟩
      intro x hx
      rcases List.mem_cons.mp hx with rfl | hx
      · exact hu
      · exact h3 x hx

theorem splitIntoTurnBlocks_cons (m : Message) (ms : List Message) :
    ∃ answers rest, splitIntoTurnBlocks (m :: ms) = (m :: answers) :: rest ∧ ms = answers ++ rest.flatten ∧
      (∀ x ∈ answers, x.role ≠ .user) ∧ ∀ b ∈ rest, OpenedByUser b := by
  obtain ⟨answers, rest, h1, h2, h3, h4⟩ := turnBlocksFrom_open ms [m] (by simp)
  exact ⟨answers, rest, by simpa [splitIntoTurnBlocks, turnBlocksFrom] using h1, h2, h3, h4⟩

theorem splitIntoTurnBlocks_flatten (ms : List Message) : (splitIntoTurnBlocks ms).flatten = ms := by
  cases ms with
  | nil => rfl
  | cons m ms =>
    obtain ⟨answers, rest, h1, h2, _, _⟩ := splitIntoTurnBlocks_cons m ms
    simp [h1, ← h2]

/-- Only the first message of a block can be a user message. -/
theorem turnBlock_tail_no_user {ms block : List Message} (hb : block ∈ splitIntoTurnBlocks ms) :
    ∃ m answers, block = m :: answers ∧ ∀ x ∈ answers, x.role ≠ .user := by
  cases ms with
  | nil => simp [splitIntoTurnBlocks, turnBlocksFrom] at hb
  | cons m ms =>
    obtain ⟨answers, rest, h1, _, h3, h4⟩ := splitIntoTurnBlocks_cons m ms
    rw [h1] at hb
    rcases List.mem_cons.mp hb with rfl | hb
    · exact ⟨m, answers, rfl, h3⟩
    · obtain ⟨u, as, rfl, _, h⟩ := h4 block hb
      exact ⟨u, as, rfl, h⟩

/-- Every block but the first is opened by a user message. -/
theorem turnBlock_opened {ms block : List Message} {before after : List (List Message)}
    (h : splitIntoTurnBlocks ms = before ++ block :: after) (hne : before ≠ []) : OpenedByUser block := by
  cases ms with
  | nil => simp [splitIntoTurnBlocks, turnBlocksFrom] at h
  | cons m ms =>
    obtain ⟨answers, rest, h1, _, _, h4⟩ := splitIntoTurnBlocks_cons m ms
    obtain ⟨b, bs, rfl⟩ := List.exists_cons_of_ne_nil hne
    rw [h1, List.cons_append, List.cons.injEq] at h
    exact h4 block (by rw [h.2]; simp)

/-! ## Shares join to what was shared -/

theorem shareLoop_flatten (parts total : Nat) : ∀ (ms : List Message) (chunks : List (List Message))
    (current : List Message) (n : Nat),
    (shareLoop est parts total chunks current n ms).flatten = chunks.flatten ++ current ++ ms := by
  intro ms
  induction ms with
  | nil => intro chunks current n; simp only [shareLoop]; split <;> simp_all
  | cons m ms ih => intro chunks current n; simp only [shareLoop]; split <;> simp [ih]

theorem shareLoop_nonempty (parts total : Nat) : ∀ (ms : List Message) (chunks : List (List Message))
    (current : List Message) (n : Nat), (∀ c ∈ chunks, c ≠ []) →
    ∀ c ∈ shareLoop est parts total chunks current n ms, c ≠ [] := by
  intro ms
  induction ms with
  | nil =>
    intro chunks current n hc c hm
    simp only [shareLoop] at hm
    split at hm
    · exact hc c hm
    · rename_i hne
      rcases List.mem_append.mp hm with hm | hm
      · exact hc c hm
      · simp at hm; subst hm; exact hne
  | cons m ms ih =>
    intro chunks current n hc c hm
    simp only [shareLoop] at hm
    split at hm
    · rename_i hcut
      refine ih _ _ _ ?_ c hm
      intro d hd
      rcases List.mem_append.mp hd with hd | hd
      · exact hc d hd
      · simp at hd; subst hd; exact hcut.2.1
    · exact ih _ _ _ hc c hm

theorem splitMessagesByTokenShare_flatten (ms : List Message) (parts : Nat) :
    (splitMessagesByTokenShare est ms parts).flatten = ms := by
  unfold splitMessagesByTokenShare
  split
  · simp_all
  · simp only
    split
    · simp
    · simp [shareLoop_flatten]

theorem splitMessagesByTokenShare_nonempty (ms : List Message) (parts : Nat) :
    ∀ c ∈ splitMessagesByTokenShare est ms parts, c ≠ [] := by
  unfold splitMessagesByTokenShare
  split
  · simp
  · simp only
    split
    · intro c hc; simp at hc; subst hc; assumption
    · exact shareLoop_nonempty est _ _ ms [] [] 0 (by simp)

theorem pruneLoop_split (budget parts : Nat) : ∀ (fuel : Nat) (p : Pruned),
    (pruneLoop est budget parts fuel p).droppedMessagesList ++ (pruneLoop est budget parts fuel p).messages =
      p.droppedMessagesList ++ p.messages := by
  intro fuel
  induction fuel with
  | zero => intro p; rfl
  | succ fuel ih =>
    intro p
    simp only [pruneLoop]
    split
    · split
      · rename_i dropped next rest h
        rw [ih, ← splitMessagesByTokenShare_flatten est p.messages parts, h]
        simp
      · rfl
    · rfl

theorem pruneLoop_keeps_some (budget parts : Nat) : ∀ (fuel : Nat) (p : Pruned), p.messages ≠ [] →
    (pruneLoop est budget parts fuel p).messages ≠ [] := by
  intro fuel
  induction fuel with
  | zero => intro p h; exact h
  | succ fuel ih =>
    intro p h
    simp only [pruneLoop]
    split
    · split
      · rename_i dropped next rest hs
        apply ih
        have := splitMessagesByTokenShare_nonempty est p.messages parts next (by rw [hs]; simp)
        simp [this]
      · exact h
    · exact h

/-- What pruning drops, followed by what it keeps, is the history. -/
theorem pruneHistoryForContextShare_split (ms : List Message) (window : Nat) (share : ℚ) (parts : Nat) :
    (pruneHistoryForContextShare est ms window share parts).droppedMessagesList ++
      (pruneHistoryForContextShare est ms window share parts).messages = ms := by
  simp [pruneHistoryForContextShare, pruneLoop_split]

/-! ## Chunks carry every message -/

def fragmentsOf (m : Message) : List Text → List Message
  | [] => []
  | t :: ts => fragmentOf m true t :: ts.map (fragmentOf m false)

/-- `m` whole, or consecutive fragments of it whose texts join to its text. -/
def Pieces (m : Message) (ps : List Message) : Prop :=
  ps = [m] ∨ ∃ ts : List Text, ts ≠ [] ∧ m.content = .text ts.flatten ∧ ps = fragmentsOf m ts

theorem Pieces.ne_nil {m : Message} {ps : List Message} (h : Pieces m ps) : ps ≠ [] := by
  rcases h with rfl | ⟨ts, hts, _, rfl⟩
  · simp
  · cases ts with
    | nil => exact absurd rfl hts
    | cons t ts => simp [fragmentsOf]

theorem fragmentsOf_snoc (m : Message) (ts : List Text) (t : Text) :
    fragmentsOf m ts ++ [fragmentOf m (fragmentsOf m ts).isEmpty t] = fragmentsOf m (ts ++ [t]) := by
  cases ts <;> simp [fragmentsOf]

theorem searchBest_le (fits : Nat → Bool) (bound : Nat) : ∀ fuel low high best, best ≤ bound → high ≤ bound →
    searchBest fits fuel low high best ≤ bound := by
  intro fuel
  induction fuel with
  | zero => intro low high best hb _; exact hb
  | succ fuel ih =>
    intro low high best hb hh
    simp only [searchBest]
    split
    · split
      · exact ih _ _ _ (by omega) hh
      · exact ih _ _ _ hb (by omega)
    · exact hb

theorem rfind_bounds {t : Text} {c : Char} {floor stop i : Nat} (h : rfind t c floor stop = some i) :
    floor ≤ i ∧ i < stop := by
  have hp := List.find?_some h
  have hm := List.mem_of_find?_eq_some h
  simp only [decide_eq_true_eq, Bool.decide_and, Bool.and_eq_true] at hp
  simp at hm
  exact ⟨hp.1, hm⟩

/-- A fragment is not empty and does not run past the text. -/
theorem fragmentEnd_bounds (t : Text) {start best : Nat} (h : start < best) (hb : best ≤ t.length) :
    start < fragmentEnd t start best ∧ fragmentEnd t start best ≤ t.length := by
  unfold fragmentEnd
  split
  · simp only
    split
    · rename_i boundary hmax
      have hlt : boundary < best := by
        rcases hn : rfind t '\n' (start + max 1 ((best - start) * 4 / 5)) best with _ | i <;>
          rcases hs : rfind t ' ' (start + max 1 ((best - start) * 4 / 5)) best with _ | j <;>
          rw [hn, hs] at hmax
        · simp at hmax
        · have := rfind_bounds hs; simp at hmax; omega
        · have := rfind_bounds hn; simp at hmax; omega
        · have := rfind_bounds hs; have := rfind_bounds hn; simp at hmax; omega
      split <;> omega
    · omega
  · omega

/-- The fragments of a finished loop join to the text. -/
theorem fragmentLoop_pieces (m : Message) (t : Text) (maxTokens : Int) : ∀ (fuel start : Nat) (ts : List Text)
    (fs : List Message), start ≤ t.length → t.length - start ≤ fuel → ts.flatten = t.take start →
    fragmentLoop est m t maxTokens fuel start (fragmentsOf m ts) = some fs →
    ∃ ts', ts'.flatten = t ∧ fs = fragmentsOf m ts' := by
  intro fuel
  induction fuel with
  | zero =>
    intro start ts fs hs hf ht h
    simp only [fragmentLoop, Option.some.injEq] at h
    exact ⟨ts, by rw [ht, List.take_of_length_le (by omega)], h.symm⟩
  | succ fuel ih =>
    intro start ts fs hs hf ht h
    simp only [fragmentLoop] at h
    split at h
    · split at h
      · cases h
      · rename_i hlt hbest
        obtain ⟨h1, h2⟩ := fragmentEnd_bounds t (Nat.lt_of_not_le hbest) (searchBest_le _ t.length _ _ _ _ (by omega) (by omega))
        rw [fragmentsOf_snoc] at h
        refine ih _ _ fs h2 (by omega) ?_ h
        rw [List.flatten_append, ht]
        simp only [List.flatten_cons, List.flatten_nil, List.append_nil]
        rw [← List.take_add]
        congr 1
        omega
    · simp only [Option.some.injEq] at h
      exact ⟨ts, by rw [ht, List.take_of_length_le (by omega)], h.symm⟩

theorem splitOversizedTextMessage_pieces (m : Message) (maxTokens : Int) :
    Pieces m (splitOversizedTextMessage est m maxTokens) := by
  unfold splitOversizedTextMessage
  split
  · exact Or.inl rfl
  · split
    · rename_i t ht
      split
      · exact Or.inl rfl
      · rename_i hne
        rcases hl : fragmentLoop est m t maxTokens t.length 0 [] with _ | fs
        · exact Or.inl rfl
        · obtain ⟨ts, h1, h2⟩ := fragmentLoop_pieces est m t maxTokens t.length 0 [] fs (by omega) (by omega) (by simp)
            (by simpa [fragmentsOf] using hl)
          have hts : ts ≠ [] := by
            rintro rfl
            exact hne h1.symm
          exact Or.inr ⟨ts, hts, h1 ▸ ht, h2⟩
    · exact Or.inl rfl

theorem chunkLoop_flatten (maxTokens : Int) : ∀ (ms : List Message) (chunks : List (List Message))
    (current : List Message) (n : Nat),
    (chunkLoop est maxTokens chunks current n ms).flatten = chunks.flatten ++ current ++ ms := by
  intro ms
  induction ms with
  | nil => intro chunks current n; simp only [chunkLoop]; split <;> simp_all
  | cons m ms ih =>
    intro chunks current n
    simp only [chunkLoop]
    split <;> (rw [ih]; split <;> simp)

theorem chunkLoop_nonempty (maxTokens : Int) : ∀ (ms : List Message) (chunks : List (List Message))
    (current : List Message) (n : Nat), (∀ c ∈ chunks, c ≠ []) →
    ∀ c ∈ chunkLoop est maxTokens chunks current n ms, c ≠ [] := by
  intro ms
  induction ms with
  | nil =>
    intro chunks current n hc c hm
    simp only [chunkLoop] at hm
    split at hm
    · exact hc c hm
    · rename_i hne
      rcases List.mem_append.mp hm with hm | hm
      · exact hc c hm
      · simp at hm; subst hm; exact hne
  | cons m ms ih =>
    intro chunks current n hc c hm
    simp only [chunkLoop] at hm
    have hcut : ∀ d ∈ (if current ≠ [] ∧ ((n + est m : Nat) : Int) > maxTokens then chunks ++ [current] else chunks),
        d ≠ [] := by
      intro d hd
      split at hd
      · rename_i hne
        rcases List.mem_append.mp hd with hd | hd
        · exact hc d hd
        · simp at hd; subst hd; exact hne.1
      · exact hc d hd
    split at hm
    · refine ih _ _ _ ?_ c hm
      intro d hd
      rcases List.mem_append.mp hd with hd | hd
      · exact hcut d hd
      · simp at hd; subst hd; simp
    · exact ih _ _ _ hcut c hm

/-- The chunks, joined, are the pieces of the messages in order. -/
theorem chunkMessagesByMaxTokens_flatten (ms : List Message) (maxTokens : Int) :
    (chunkMessagesByMaxTokens est ms maxTokens).flatten = ms.flatMap fun m => splitOversizedTextMessage est m maxTokens := by
  unfold chunkMessagesByMaxTokens
  split
  · simp_all
  · simp [chunkLoop_flatten]

theorem chunkMessagesByMaxTokens_nonempty (ms : List Message) (maxTokens : Int) :
    ∀ c ∈ chunkMessagesByMaxTokens est ms maxTokens, c ≠ [] := by
  unfold chunkMessagesByMaxTokens
  split
  · simp
  · exact chunkLoop_nonempty est maxTokens _ [] [] 0 (by simp)

end Flowly.Compaction
