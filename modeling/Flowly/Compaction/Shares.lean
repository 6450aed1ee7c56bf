/-
  Flowly.Compaction.Shares — the rounds of `prune_history_for_context_share`
  (`flowly/compaction/pruning.py`) and what they count.

  A round drops the oldest share of what is left; `PruneEnds` is the `while` loop without
  fuel. An encrypted checkpoint stands for everything before it but the instructions, so
  the estimate of a list is less than the sum of its messages' (`estimate_le_sum`), and a
  list is not worth the sum of its parts: `estimate_append_checkpoint`. The rounds add up
  the estimates of the shares, so `dropped_tokens` is the estimate of the dropped messages
  exactly when no share with a checkpoint is dropped after something that is priced and is
  no instruction (`NoLateCheckpoint`).

  Proved, for an estimator that gives every message a token:
  - `splitMessagesByTokenShare_two`: two or more messages make two or more shares.
  - `pruneLoop_ends` / `PruneEnds.budget_or_one`: the rounds end, within the budget or
    with one message at most.
  - `pruneLoop_counts`: `dropped_tokens` is no less than the estimate of the dropped
    messages, and is equal to it exactly when no checkpoint comes late.
-/

import Flowly.Compaction.Chunking

namespace Flowly.Compaction

/-! ## What a checkpoint leaves priced -/

/-- The role of a row the `instructions` field is rebuilt from. -/
def Instruction (m : Message) : Prop := m.role = .system ∨ m.role = .developer

instance (m : Message) : Decidable (Instruction m) := inferInstanceAs (Decidable (_ ∨ _))

/-- What stands from the newest checkpoint on; without a checkpoint everything. -/
def fromCheckpoint (ms : List Message) : List Message :=
  match ms.reverse.dropWhile fun m => !m.checkpoint with
  | [] => ms
  | checkpoint :: _ => checkpoint :: (ms.reverse.takeWhile fun m => !m.checkpoint).reverse

def instructionTokens (est : Message → Nat) (ms : List Message) : Nat := ((ms.filter (Instruction ·)).map est).sum

variable (est : Message → Nat)

/-- The two shapes of a list: no checkpoint, or a newest one. -/
theorem newest_checkpoint (ms : List Message) :
    (∀ m ∈ ms, m.checkpoint = false) ∨ ∃ before checkpoint tail, ms = before ++ checkpoint :: tail ∧
      checkpoint.checkpoint = true ∧ ∀ m ∈ tail, m.checkpoint = false := by
  induction ms with
  | nil => exact Or.inl (by simp)
  | cons m ms ih =>
    rcases ih with h | ⟨before, checkpoint, tail, rfl, hc, ht⟩
    · by_cases hm : m.checkpoint = true
      · exact Or.inr ⟨[], m, ms, rfl, hm, h⟩
      · refine Or.inl fun x hx => ?_
        rcases List.mem_cons.mp hx with rfl | hx
        · simpa using hm
        · exact h x hx
    · exact Or.inr ⟨m :: before, checkpoint, tail, rfl, hc, ht⟩

theorem dropWhile_reverse_none {ms : List Message} (h : ∀ m ∈ ms, m.checkpoint = false) :
    (ms.reverse.dropWhile fun m => !m.checkpoint) = [] := by
  rw [List.dropWhile_eq_nil_iff]
  intro m hm
  simp [h m (List.mem_reverse.mp hm)]

theorem dropWhile_reverse_some (before : List Message) {tail : List Message} {checkpoint : Message}
    (hc : checkpoint.checkpoint = true) (ht : ∀ m ∈ tail, m.checkpoint = false) :
    ((before ++ checkpoint :: tail).reverse.dropWhile fun m => !m.checkpoint) = checkpoint :: before.reverse ∧
    ((before ++ checkpoint :: tail).reverse.takeWhile fun m => !m.checkpoint) = tail.reverse := by
  have hrev : (before ++ checkpoint :: tail).reverse = tail.reverse ++ checkpoint :: before.reverse := by simp
  have hall : ∀ m ∈ tail.reverse, (!m.checkpoint) = true := fun m hm => by simp [ht m (List.mem_reverse.mp hm)]
  rw [hrev]
  constructor
  · rw [List.dropWhile_append_of_pos hall]
    simp [hc]
  · rw [List.takeWhile_append_of_pos hall]
    simp [hc]

theorem estimate_of_none {ms : List Message} (h : ∀ m ∈ ms, m.checkpoint = false) :
    estimateMessagesTokens est ms = (ms.map est).sum := by
  simp only [estimateMessagesTokens, dropWhile_reverse_none h]

theorem estimate_of_newest {before tail : List Message} {checkpoint : Message}
    (hc : checkpoint.checkpoint = true) (ht : ∀ m ∈ tail, m.checkpoint = false) :
    estimateMessagesTokens est (before ++ checkpoint :: tail) =
      instructionTokens est before + ((checkpoint :: tail).map est).sum := by
  obtain ⟨hd, hw⟩ := dropWhile_reverse_some before hc ht
  simp only [estimateMessagesTokens, hd, hw, List.reverse_reverse]
  rfl

theorem instructionTokens_append (a b : List Message) :
    instructionTokens est (a ++ b) = instructionTokens est a + instructionTokens est b := by
  simp [instructionTokens]

theorem instructionTokens_le_sum (ms : List Message) : instructionTokens est ms ≤ (ms.map est).sum := by
  induction ms with
  | nil => exact Nat.le_refl 0
  | cons m ms ih =>
    simp only [instructionTokens, List.filter_cons] at ih ⊢
    split
    · simp only [List.map_cons, List.sum_cons]
      omega
    · simp only [List.map_cons, List.sum_cons]
      omega

theorem estimate_le_sum (ms : List Message) : estimateMessagesTokens est ms ≤ (ms.map est).sum := by
  rcases newest_checkpoint ms with h | ⟨before, checkpoint, tail, rfl, hc, ht⟩
  · rw [estimate_of_none est h]
  · rw [estimate_of_newest est hc ht, List.map_append, List.sum_append]
    have := instructionTokens_le_sum est before
    omega

/-- Without a checkpoint in what follows, estimates add. -/
theorem estimate_append_none (a : List Message) {b : List Message} (h : ∀ m ∈ b, m.checkpoint = false) :
    estimateMessagesTokens est (a ++ b) = estimateMessagesTokens est a + estimateMessagesTokens est b := by
  rw [estimate_of_none est h]
  rcases newest_checkpoint a with ha | ⟨before, checkpoint, tail, rfl, hc, ht⟩
  · rw [estimate_of_none est ha, estimate_of_none est, List.map_append, List.sum_append]
    intro m hm
    exact (List.mem_append.mp hm).elim (ha m) (h m)
  · have htail : ∀ m ∈ tail ++ b, m.checkpoint = false := fun m hm => (List.mem_append.mp hm).elim (ht m) (h m)
    rw [List.append_assoc, List.cons_append, estimate_of_newest est hc htail, estimate_of_newest est hc ht]
    simp only [List.map_cons, List.map_append, List.sum_cons, List.sum_append]
    omega

/-- A checkpoint in what follows leaves only the instructions before it priced. -/
theorem estimate_append_checkpoint (a : List Message) {b : List Message} (h : ∃ m ∈ b, m.checkpoint = true) :
    estimateMessagesTokens est (a ++ b) = instructionTokens est a + estimateMessagesTokens est b := by
  rcases newest_checkpoint b with hb | ⟨before, checkpoint, tail, rfl, hc, ht⟩
  · obtain ⟨m, hm, hmc⟩ := h
    rw [hb m hm] at hmc
    cases hmc
  · rw [← List.append_assoc, estimate_of_newest est hc ht, estimate_of_newest est hc ht, instructionTokens_append]
    omega

theorem fromCheckpoint_of_none {ms : List Message} (h : ∀ m ∈ ms, m.checkpoint = false) : fromCheckpoint ms = ms := by
  simp only [fromCheckpoint, dropWhile_reverse_none h]

theorem fromCheckpoint_of_newest {before tail : List Message} {checkpoint : Message}
    (hc : checkpoint.checkpoint = true) (ht : ∀ m ∈ tail, m.checkpoint = false) :
    fromCheckpoint (before ++ checkpoint :: tail) = checkpoint :: tail := by
  obtain ⟨hd, hw⟩ := dropWhile_reverse_some before hc ht
  simp only [fromCheckpoint, hd, hw, List.reverse_reverse]

variable {est}

/-- Where every message has a token, a sum is its instructions' exactly when all are instructions. -/
theorem sum_eq_instructionTokens (hone : ∀ m, 1 ≤ est m) (ms : List Message) :
    (ms.map est).sum = instructionTokens est ms ↔ ∀ m ∈ ms, Instruction m := by
  induction ms with
  | nil => simp [instructionTokens]
  | cons m ms ih =>
    have hle := instructionTokens_le_sum est ms
    have := hone m
    by_cases hm : Instruction m
    · have hcons : instructionTokens est (m :: ms) = est m + instructionTokens est ms := by
        simp [instructionTokens, hm]
      rw [hcons, List.map_cons, List.sum_cons, List.forall_mem_cons, ← ih]
      exact ⟨fun h => ⟨hm, by omega⟩, fun h => by omega⟩
    · have hcons : instructionTokens est (m :: ms) = instructionTokens est ms := by
        simp [instructionTokens, hm]
      rw [hcons, List.map_cons, List.sum_cons, List.forall_mem_cons]
      exact ⟨fun h => by omega, fun h => absurd h.1 hm⟩

/-- What an estimate prices beyond the instructions: nothing exactly when all that stands from
    the newest checkpoint on is instructions. -/
theorem estimate_instructions (hone : ∀ m, 1 ≤ est m) (ms : List Message) :
    instructionTokens est ms ≤ estimateMessagesTokens est ms ∧
    (estimateMessagesTokens est ms = instructionTokens est ms ↔ ∀ m ∈ fromCheckpoint ms, Instruction m) := by
  rcases newest_checkpoint ms with h | ⟨before, checkpoint, tail, rfl, hc, ht⟩
  · rw [estimate_of_none est h, fromCheckpoint_of_none h]
    exact ⟨instructionTokens_le_sum est ms, sum_eq_instructionTokens hone ms⟩
  · rw [estimate_of_newest est hc ht, fromCheckpoint_of_newest hc ht, instructionTokens_append]
    have hle := instructionTokens_le_sum est (checkpoint :: tail)
    refine ⟨by omega, ?_⟩
    rw [← sum_eq_instructionTokens hone (checkpoint :: tail)]
    exact ⟨fun h => by omega, fun h => by omega⟩

/-! ## A split of two messages makes two shares -/

theorem shareLoop_length (parts total : Nat) : ∀ (ms : List Message) (chunks : List (List Message))
    (current : List Message) (n : Nat), current ≠ [] →
    chunks.length + 1 ≤ (shareLoop est parts total chunks current n ms).length := by
  intro ms
  induction ms with
  | nil =>
    intro chunks current n hc
    simp [shareLoop, hc]
  | cons m ms ih =>
    intro chunks current n hc
    simp only [shareLoop]
    split
    · have := ih (chunks ++ [current]) [m] (est m) (by simp)
      simp only [List.length_append, List.length_singleton] at this
      omega
    · exact ih chunks (current ++ [m]) _ (by simp)

/-- The last message of the list is cut off if nothing before it was: by then the open share
    holds the whole total but its estimate. -/
theorem shareLoop_two {parts total : Nat} (hparts : 2 ≤ parts) : ∀ (ms current : List Message) (n : Nat),
    ms ≠ [] → current ≠ [] → 1 ≤ n → total ≤ n + (ms.map est).sum →
    2 ≤ (shareLoop est parts total [] current n ms).length := by
  intro ms
  induction ms with
  | nil => intro current n h; exact absurd rfl h
  | cons m ms ih =>
    intro current n _ hc hn htotal
    simp only [List.map_cons, List.sum_cons] at htotal
    simp only [shareLoop]
    split
    · exact shareLoop_length parts total ms ([] ++ [current]) [m] (est m) (by simp)
    · rename_i hcut
      by_cases hms : ms = []
      · -- nothing was cut before the last message, so it is
        subst hms
        refine absurd ⟨by simp only [List.length_nil]; omega, hc, ?_⟩ hcut
        simp only [List.map_nil, List.sum_nil, Nat.add_zero] at htotal
        have : (n + est m) * 2 ≤ (n + est m) * parts := Nat.mul_le_mul_left _ hparts
        omega
      · exact ih _ _ hms (by simp) (by omega) (by omega)

theorem splitMessagesByTokenShare_two (hone : ∀ m, 1 ≤ est m) {ms : List Message} {parts : Nat} (hparts : 2 ≤ parts)
    (hms : 2 ≤ ms.length) : 2 ≤ (splitMessagesByTokenShare est ms parts).length := by
  have hnorm : 2 ≤ normalizeParts parts ms.length := by
    rw [normalizeParts, if_neg (by omega)]
    omega
  obtain ⟨m, rest, rfl⟩ := List.exists_cons_of_length_pos (show 0 < ms.length by omega)
  have hrest : rest ≠ [] := by
    intro h
    subst h
    simp at hms
  have hsum := estimate_le_sum est (m :: rest)
  have hm := hone m
  simp only [List.map_cons, List.sum_cons] at hsum
  rw [splitMessagesByTokenShare, if_neg (by simp)]
  simp only [if_neg (show ¬ normalizeParts parts (m :: rest).length ≤ 1 by omega)]
  rw [shareLoop, if_neg (by simp)]
  exact shareLoop_two hnorm rest _ _ hrest (by simp) (by omega) (by omega)

/-! ## The rounds -/

/-- The state after the oldest share `dropped` is gone and `rest` is left. -/
def Pruned.drop (est : Message → Nat) (p : Pruned) (dropped rest : List Message) : Pruned where
  messages := rest
  droppedMessagesList := p.droppedMessagesList ++ dropped
  droppedChunks := p.droppedChunks + 1
  droppedMessages := p.droppedMessages + dropped.length
  droppedTokens := p.droppedTokens + estimateMessagesTokens est dropped

/-- The condition of the `while` loop. -/
def Over (est : Message → Nat) (budget : Nat) (kept : List Message) : Prop :=
  kept ≠ [] ∧ estimateMessagesTokens est kept > budget

/-- The `while` loop from `p` ends with the second state. -/
inductive PruneEnds (est : Message → Nat) (budget parts : Nat) : Pruned → Pruned → Prop where
  | within {p : Pruned} : ¬ Over est budget p.messages → PruneEnds est budget parts p p
  | single {p : Pruned} : Over est budget p.messages →
      (splitMessagesByTokenShare est p.messages parts).length ≤ 1 → PruneEnds est budget parts p p
  | drop {p r : Pruned} {dropped next : List Message} {rest : List (List Message)} : Over est budget p.messages →
      splitMessagesByTokenShare est p.messages parts = dropped :: next :: rest →
      PruneEnds est budget parts (p.drop est dropped (next :: rest).flatten) r → PruneEnds est budget parts p r

/-- A round drops something and leaves something. -/
theorem share_shrinks {ms dropped next : List Message} {rest : List (List Message)} {parts : Nat}
    (h : splitMessagesByTokenShare est ms parts = dropped :: next :: rest) :
    ms = dropped ++ (next :: rest).flatten ∧ (next :: rest).flatten.length < ms.length := by
  have hflat := splitMessagesByTokenShare_flatten est ms parts
  have hd := splitMessagesByTokenShare_nonempty est ms parts dropped (by rw [h]; simp)
  rw [h, List.flatten_cons] at hflat
  refine ⟨hflat.symm, ?_⟩
  have : 0 < dropped.length := List.length_pos_iff.mpr hd
  rw [← hflat, List.length_append]
  omega

theorem pruneLoop_ends (est : Message → Nat) (budget parts : Nat) : ∀ (fuel : Nat) (p : Pruned), p.messages.length ≤ fuel →
    PruneEnds est budget parts p (pruneLoop est budget parts fuel p) := by
  intro fuel
  induction fuel with
  | zero =>
    intro p hf
    exact .within fun h => h.1 (List.length_eq_zero_iff.mp (by omega))
  | succ fuel ih =>
    intro p hf
    simp only [pruneLoop]
    split
    · rename_i hover
      split
      · rename_i dropped next rest hs
        have := (share_shrinks hs).2
        exact .drop hover hs (ih (p.drop est dropped (next :: rest).flatten) (by show _ ≤ fuel; simp only [Pruned.drop]; omega))
      · rename_i hno
        refine .single hover ?_
        rcases hsplit : splitMessagesByTokenShare est p.messages parts with _ | ⟨dropped, _ | ⟨next, rest⟩⟩
        · simp
        · simp
        · exact absurd hsplit (hno dropped next rest)
    · rename_i hover
      exact .within hover

/-- The rounds end within the budget or with at most one message. -/
theorem PruneEnds.budget_or_one (hone : ∀ m, 1 ≤ est m) {budget parts : Nat} (hparts : 2 ≤ parts) {p r : Pruned}
    (h : PruneEnds est budget parts p r) :
    estimateMessagesTokens est r.messages ≤ budget ∨ r.messages.length ≤ 1 := by
  induction h with
  | @within p hover =>
    by_cases hp : p.messages = []
    · exact Or.inr (by simp [hp])
    · exact Or.inl (Nat.le_of_not_lt fun h => hover ⟨hp, h⟩)
  | @single p hover hsplit =>
    refine Or.inr ?_
    by_contra hlen
    have := splitMessagesByTokenShare_two hone hparts (show 2 ≤ p.messages.length by omega)
    omega
  | drop _ _ _ ih => exact ih

/-! ## What the rounds count -/

/-- In no round a share with a checkpoint is dropped after something priced that is no instruction:
    `before` is what earlier rounds dropped, `kept` what they left. -/
def NoLateCheckpoint (est : Message → Nat) (budget parts : Nat) : Nat → List Message → List Message → Prop
  | 0, _, _ => True
  | fuel + 1, before, kept =>
    if kept ≠ [] ∧ estimateMessagesTokens est kept > budget then
      match splitMessagesByTokenShare est kept parts with
      | share :: next :: rest =>
        ((∃ m ∈ share, m.checkpoint = true) → ∀ m ∈ fromCheckpoint before, Instruction m) ∧
          NoLateCheckpoint est budget parts fuel (before ++ share) (next :: rest).flatten
      | _ => True
    else True

instance NoLateCheckpoint.decide (est : Message → Nat) (budget parts : Nat) : ∀ (fuel : Nat) (before kept : List Message),
    Decidable (NoLateCheckpoint est budget parts fuel before kept)
  | 0, _, _ => isTrue trivial
  | fuel + 1, before, kept =>
    if hover : kept ≠ [] ∧ estimateMessagesTokens est kept > budget then
      match hs : splitMessagesByTokenShare est kept parts with
      | [] => isTrue (by simp [NoLateCheckpoint, hs])
      | [_] => isTrue (by simp [NoLateCheckpoint, hs])
      | share :: next :: rest =>
        have := NoLateCheckpoint.decide est budget parts fuel (before ++ share) (next :: rest).flatten
        decidable_of_iff (((∃ m ∈ share, m.checkpoint = true) → ∀ m ∈ fromCheckpoint before, Instruction m) ∧
            NoLateCheckpoint est budget parts fuel (before ++ share) (next :: rest).flatten)
          (by rw [NoLateCheckpoint, if_pos hover, hs])
    else isTrue (by rw [NoLateCheckpoint, if_neg hover]; trivial)

/-- One share more: what the estimate of all that is dropped falls short of the two estimates. -/
theorem estimate_share (hone : ∀ m, 1 ≤ est m) (before share : List Message) :
    estimateMessagesTokens est (before ++ share) ≤ estimateMessagesTokens est before + estimateMessagesTokens est share ∧
    (estimateMessagesTokens est before + estimateMessagesTokens est share = estimateMessagesTokens est (before ++ share) ↔
      ((∃ m ∈ share, m.checkpoint = true) → ∀ m ∈ fromCheckpoint before, Instruction m)) := by
  by_cases hc : ∃ m ∈ share, m.checkpoint = true
  · obtain ⟨hle, hiff⟩ := estimate_instructions hone before
    rw [estimate_append_checkpoint est before hc]
    refine ⟨by omega, fun h _ => hiff.mp (by omega), fun h => ?_⟩
    have := hiff.mpr (h hc)
    omega
  · have hnone : ∀ m ∈ share, m.checkpoint = false := by
      intro m hm
      by_contra h
      exact hc ⟨m, hm, by simpa using h⟩
    rw [estimate_append_none est before hnone]
    exact ⟨Nat.le_refl _, fun _ h => absurd h hc, fun _ => rfl⟩

theorem pruneLoop_counts (hone : ∀ m, 1 ≤ est m) (budget parts : Nat) : ∀ (fuel : Nat) (p : Pruned),
    estimateMessagesTokens est p.droppedMessagesList ≤ p.droppedTokens →
    estimateMessagesTokens est (pruneLoop est budget parts fuel p).droppedMessagesList ≤
      (pruneLoop est budget parts fuel p).droppedTokens ∧
    ((pruneLoop est budget parts fuel p).droppedTokens =
        estimateMessagesTokens est (pruneLoop est budget parts fuel p).droppedMessagesList ↔
      p.droppedTokens = estimateMessagesTokens est p.droppedMessagesList ∧
        NoLateCheckpoint est budget parts fuel p.droppedMessagesList p.messages) := by
  intro fuel
  induction fuel with
  | zero => intro p hp; exact ⟨hp, by simp [pruneLoop, NoLateCheckpoint]⟩
  | succ fuel ih =>
    intro p hp
    by_cases hover : p.messages ≠ [] ∧ estimateMessagesTokens est p.messages > budget
    · simp only [pruneLoop, NoLateCheckpoint, if_pos hover]
      cases hs : splitMessagesByTokenShare est p.messages parts with
      | nil => exact ⟨hp, by simp⟩
      | cons dropped shares =>
        cases shares with
        | nil => exact ⟨hp, by simp⟩
        | cons next rest =>
          obtain ⟨hle, hiff⟩ := estimate_share hone p.droppedMessagesList dropped
          have hp' : estimateMessagesTokens est (p.droppedMessagesList ++ dropped) ≤
              p.droppedTokens + estimateMessagesTokens est dropped := by omega
          obtain ⟨h1, h2⟩ := ih (p.drop est dropped (next :: rest).flatten) hp'
          refine ⟨h1, h2.trans ?_⟩
          show _ ↔ _ ∧ (_ ∧ _)
          rw [← hiff, ← and_assoc]
          refine and_congr_left fun _ => ?_
          show p.droppedTokens + estimateMessagesTokens est dropped =
            estimateMessagesTokens est (p.droppedMessagesList ++ dropped) ↔ _
          omega
    · simp only [pruneLoop, NoLateCheckpoint, if_neg hover]
      exact ⟨hp, by simp⟩

theorem pruneLoop_droppedMessages (est : Message → Nat) (budget parts : Nat) : ∀ (fuel : Nat) (p : Pruned),
    p.droppedMessages = p.droppedMessagesList.length →
    (pruneLoop est budget parts fuel p).droppedMessages = (pruneLoop est budget parts fuel p).droppedMessagesList.length := by
  intro fuel
  induction fuel with
  | zero => intro p hp; exact hp
  | succ fuel ih =>
    intro p hp
    simp only [pruneLoop]
    split
    · split
      · exact ih _ (by simp [hp])
      · exact hp
    · exact hp

def budgetTokens (maxContextTokens : Nat) (maxHistoryShare : ℚ) : Nat :=
  max 1 (maxContextTokens * maxHistoryShare).floor.toNat

/-- A prune ends, cuts the history in two and counts the first part, and keeps what the budget
    allows or one message at most. -/
def PrunesExactly (est : Message → Nat) (ms : List Message) (window : Nat) (share : ℚ) (parts : Nat) : Prop :=
  let pruned := pruneHistoryForContextShare est ms window share parts
  PruneEnds est (budgetTokens window share) (normalizeParts parts ms.length) ⟨ms, [], 0, 0, 0⟩ pruned ∧
  pruned.droppedMessagesList ++ pruned.messages = ms ∧
  pruned.droppedMessages = pruned.droppedMessagesList.length ∧
  pruned.droppedTokens = estimateMessagesTokens est pruned.droppedMessagesList ∧
  (estimateMessagesTokens est pruned.messages ≤ budgetTokens window share ∨ pruned.messages.length ≤ 1)

/-- A prune is exact if and only if no checkpoint is dropped late. -/
theorem prunesExactly_iff (hone : ∀ m, 1 ≤ est m) (ms : List Message) (window : Nat) (share : ℚ) {parts : Nat}
    (hparts : 2 ≤ parts) : PrunesExactly est ms window share parts ↔
      NoLateCheckpoint est (budgetTokens window share) (normalizeParts parts ms.length) ms.length [] ms := by
  obtain ⟨_, hcount⟩ := pruneLoop_counts hone (budgetTokens window share) (normalizeParts parts ms.length) ms.length
    ⟨ms, [], 0, 0, 0⟩ (by simp [estimateMessagesTokens])
  have hends := pruneLoop_ends est (budgetTokens window share) (normalizeParts parts ms.length) ms.length
    ⟨ms, [], 0, 0, 0⟩ (Nat.le_refl _)
  have hlen := pruneLoop_droppedMessages est (budgetTokens window share) (normalizeParts parts ms.length)
    ms.length ⟨ms, [], 0, 0, 0⟩ rfl
  constructor
  · intro h
    exact (hcount.mp h.2.2.2.1).2
  · intro h
    refine ⟨hends, pruneHistoryForContextShare_split est ms window share parts, hlen, ?_, ?_⟩
    · exact hcount.mpr ⟨by simp [estimateMessagesTokens], h⟩
    · by_cases hms : ms.length ≤ 1
      · have hsplit := congrArg List.length (pruneHistoryForContextShare_split est ms window share parts)
        rw [List.length_append] at hsplit
        exact Or.inr (by omega)
      · have hnorm : 2 ≤ normalizeParts parts ms.length := by
          rw [normalizeParts, if_neg (by omega)]
          omega
        exact hends.budget_or_one hone hnorm

namespace Sample

theorem letters_pos (m : Message) : 1 ≤ letters m := by
  simp only [letters]
  split
  · omega
  · omega

def said (role : Role) (n : Nat) : Message := { role, content := .text (List.replicate n 'x') }

def checkpointed : List Message :=
  [said .user 2, said .assistant 2, { role := .assistant, checkpoint := true }, said .user 3, said .assistant 3]

end Sample

open Sample in
/-- The first round drops the first message, the second the next one and the checkpoint: 3 tokens and 1,
    where the three messages together are worth 1, and 7 one by one. -/
theorem dropped_tokens_miscounted :
    (pruneHistoryForContextShare letters checkpointed 16 (1 / 2) 2).droppedTokens ≠
      (((pruneHistoryForContextShare letters checkpointed 16 (1 / 2) 2).droppedMessagesList).map letters).sum ∧
    ¬ PrunesExactly letters checkpointed 16 (1 / 2) 2 :=
  ⟨by decide +kernel, fun h => absurd h.2.2.2.1 (by decide +kernel)⟩

open Sample in
theorem prunesExactly_plain : PrunesExactly letters [said .user 5, said .assistant 2, said .user 3] 8 (1 / 2) 2 :=
  (prunesExactly_iff letters_pos _ 8 (1 / 2) (by decide)).mpr (by decide +kernel)

end Flowly.Compaction
