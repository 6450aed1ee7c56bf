/-
  Flowly.Compaction.Chunking — what bounds the chunks of the summariser
  (`chunk_messages_by_max_tokens` and `_split_oversized_text_message` of
  `flowly/compaction/pruning.py`).

  The two nested `while` loops of a split are also given without fuel, as relations
  between where a loop stands and what it ends with (`SearchEnds`, `FragmentsEnd`,
  `SplitEnds`); the functions of `Flowly.Compaction.Pruning` end as they say.

  Proved, for an estimator that is monotone in prefixes of the content:
  - `searchBest_greatest`: the binary search finds the longest prefix that fits.
  - `fragmentLoop_fit` / `fragmentLoop_bails`: every fragment fits, and a message stays
    whole only if no fragment from some place of its text fits.
  - `chunkLoop_bounded`: a chunk is within the limit or is one oversized message.
  - `chunkMessagesByMaxTokens_lossless`: chunking loses nothing and is bounded.
-/

import Flowly.Compaction.Pruning

namespace Flowly.Compaction

open Flowly.Lib

variable (est : Message → Nat)

/-! ## The loops without fuel -/

/-- `while low <= high` ends with this `best`. -/
inductive SearchEnds (fits : Nat → Bool) : Nat → Nat → Nat → Nat → Prop where
  | stop {low high best : Nat} : high < low → SearchEnds fits low high best best
  | fits {low high best r : Nat} : low ≤ high → fits ((low + high) / 2) = true →
      SearchEnds fits ((low + high) / 2 + 1) high ((low + high) / 2) r → SearchEnds fits low high best r
  | over {low high best r : Nat} : low ≤ high → fits ((low + high) / 2) = false →
      SearchEnds fits low ((low + high) / 2 - 1) best r → SearchEnds fits low high best r

/-- The fragment of `content[start:stop]`. -/
def candidate (m : Message) (t : Text) (fragments : List Message) (start stop : Nat) : Message :=
  fragmentOf m fragments.isEmpty ((t.drop start).take (stop - start))

/-- `while start < len(content)` ends with these fragments, or with the message whole. -/
inductive FragmentsEnd (m : Message) (t : Text) (maxTokens : Int) :
    Nat → List Message → Option (List Message) → Prop where
  | stop {start : Nat} {fragments : List Message} : t.length ≤ start →
      FragmentsEnd m t maxTokens start fragments (some fragments)
  | bail {start best : Nat} {fragments : List Message} : start < t.length →
      SearchEnds (fun mid => decide ((est (candidate m t fragments start mid) : Int) ≤ maxTokens))
        (start + 1) t.length start best →
      best ≤ start → FragmentsEnd m t maxTokens start fragments none
  | cut {start best : Nat} {fragments : List Message} {r : Option (List Message)} : start < t.length →
      SearchEnds (fun mid => decide ((est (candidate m t fragments start mid) : Int) ≤ maxTokens))
        (start + 1) t.length start best →
      start < best →
      FragmentsEnd m t maxTokens (fragmentEnd t start best)
        (fragments ++ [candidate m t fragments start (fragmentEnd t start best)]) r →
      FragmentsEnd m t maxTokens start fragments r

/-- `_split_oversized_text_message` ends with these messages. -/
inductive SplitEnds (m : Message) (maxTokens : Int) : List Message → Prop where
  | fits : maxTokens ≤ 0 ∨ (est m : Int) ≤ maxTokens → SplitEnds m maxTokens [m]
  | noText : (∀ t, m.content = .text t → t = []) → SplitEnds m maxTokens [m]
  | split {t : Text} {r : Option (List Message)} : ¬ (maxTokens ≤ 0 ∨ (est m : Int) ≤ maxTokens) →
      m.content = .text t → t ≠ [] → FragmentsEnd est m t maxTokens 0 [] r → SplitEnds m maxTokens (r.getD [m])

/-! ## The binary search -/

theorem searchBest_ends (fits : Nat → Bool) : ∀ fuel low high best, 0 < low → high + 1 - low ≤ fuel →
    SearchEnds fits low high best (searchBest fits fuel low high best) := by
  intro fuel
  induction fuel with
  | zero => intro low high best _ hf; exact .stop (by omega)
  | succ fuel ih =>
    intro low high best hl hf
    simp only [searchBest]
    split
    · rename_i hle
      cases hm : fits ((low + high) / 2) with
      | true =>
        simp only [if_true]
        exact .fits hle hm (ih _ _ _ (by omega) (by omega))
      | false =>
        simp only [Bool.false_eq_true, if_false]
        exact .over hle hm (ih _ _ _ hl (by omega))
    · exact .stop (by omega)

/-- The search answers where it began or with an end that fits. -/
theorem searchBest_fits (fits : Nat → Bool) : ∀ fuel low high best,
    searchBest fits fuel low high best = best ∨ fits (searchBest fits fuel low high best) = true := by
  intro fuel
  induction fuel with
  | zero => intro low high best; exact Or.inl rfl
  | succ fuel ih =>
    intro low high best
    simp only [searchBest]
    split
    · split
      · rename_i hm
        rcases ih ((low + high) / 2 + 1) high ((low + high) / 2) with h | h
        · rw [h]; exact Or.inr hm
        · exact Or.inr h
      · exact ih _ _ _
    · exact Or.inl rfl

theorem le_searchBest (fits : Nat → Bool) : ∀ fuel low high best, best < low →
    best ≤ searchBest fits fuel low high best := by
  intro fuel
  induction fuel with
  | zero => intro low high best _; exact Nat.le_refl best
  | succ fuel ih =>
    intro low high best hb
    simp only [searchBest]
    split
    · split
      · have := ih ((low + high) / 2 + 1) high ((low + high) / 2) (by omega)
        omega
      · exact ih _ _ _ hb
    · omega

/-- Where what fits is closed downwards, nothing in the range that fits is longer. -/
theorem searchBest_greatest (fits : Nat → Bool) (hdown : ∀ i j, i ≤ j → fits j = true → fits i = true) :
    ∀ fuel low high best, best < low → high + 1 - low ≤ fuel →
    ∀ i, low ≤ i → i ≤ high → fits i = true → i ≤ searchBest fits fuel low high best := by
  intro fuel
  induction fuel with
  | zero => intro low high best _ hf i hl hh; omega
  | succ fuel ih =>
    intro low high best hb hf i hl hh hi
    simp only [searchBest]
    rw [if_pos (show low ≤ high by omega)]
    split
    · by_cases hmid : i ≤ (low + high) / 2
      · have := le_searchBest fits fuel ((low + high) / 2 + 1) high ((low + high) / 2) (by omega)
        omega
      · exact ih _ _ _ (by omega) (by omega) i (by omega) hh hi
    · rename_i hm
      -- an end past the middle would make the middle fit
      have hlt : i < (low + high) / 2 := by
        by_contra hge
        exact hm (hdown _ i (by omega) hi)
      exact ih _ _ _ hb (by omega) i hl (by omega) hi

/-! ## Fragments -/

/-- The estimate of a message does not fall when its text grows at the end. -/
def PrefixMonotone : Prop :=
  ∀ (m : Message) (t : Text) (n : Nat), est { m with content := .text (t.take n) } ≤ est { m with content := .text t }

variable {est}

theorem PrefixMonotone.fragmentOf (hmono : PrefixMonotone est) (m : Message) (first : Bool) (t : Text) {a b : Nat} (hab : a ≤ b) :
    est (fragmentOf m first (t.take a)) ≤ est (fragmentOf m first (t.take b)) := by
  have h := hmono { m with toolCalls := if first then m.toolCalls else [] } (t.take b) a
  rwa [List.take_take, Nat.min_eq_left hab] at h

theorem PrefixMonotone.candidate (hmono : PrefixMonotone est) (m : Message) (t : Text) (fragments : List Message)
    (start : Nat) {a b : Nat} (hab : a ≤ b) :
    est (candidate m t fragments start a) ≤ est (candidate m t fragments start b) :=
  hmono.fragmentOf m _ _ (by omega)

/-- What the split cannot cut: no text, or a place of the text from where no fragment fits. -/
def Unsplittable (est : Message → Nat) (maxTokens : Int) (m : Message) : Prop :=
  maxTokens ≤ 0 ∨ (∀ t, m.content = .text t → t = []) ∨
    ∃ t start, m.content = .text t ∧ start < t.length ∧
      ∀ n, 0 < n → maxTokens < est (fragmentOf m (start == 0) ((t.drop start).take n))

theorem max_eq_some {a b : Option Nat} {x : Nat} (h : max a b = some x) : a = some x ∨ b = some x := by
  cases a with
  | none => exact Or.inr (by simpa using h)
  | some i =>
    cases b with
    | none => exact Or.inl (by simpa using h)
    | some j =>
      have hx : max i j = x := by simpa using h
      rcases Nat.le_total i j with hij | hij
      · exact Or.inr (by rw [← hx, Nat.max_eq_right hij])
      · exact Or.inl (by rw [← hx, Nat.max_eq_left hij])

theorem fragmentEnd_le (t : Text) (start best : Nat) : fragmentEnd t start best ≤ best := by
  unfold fragmentEnd
  split
  · simp only
    split
    · rename_i boundary hmax
      have hlt : boundary < best := by
        rcases max_eq_some hmax with h | h
        · exact (rfind_bounds h).2
        · exact (rfind_bounds h).2
      split <;> omega
    · omega
  · omega

/-- The round of the loop from `start`. -/
theorem fragmentLoop_succ (est : Message → Nat) (m : Message) (t : Text) (maxTokens : Int) (fuel : Nat) {start : Nat}
    (fragments : List Message) (hlt : start < t.length) : ∃ best,
    best = searchBest (fun mid => decide ((est (candidate m t fragments start mid) : Int) ≤ maxTokens)) (t.length + 1)
      (start + 1) t.length start ∧ start ≤ best ∧ best ≤ t.length ∧
    fragmentLoop est m t maxTokens (fuel + 1) start fragments =
      if best ≤ start then none
      else fragmentLoop est m t maxTokens fuel (fragmentEnd t start best)
        (fragments ++ [candidate m t fragments start (fragmentEnd t start best)]) := by
  refine ⟨_, rfl, le_searchBest _ _ _ _ _ (by omega), searchBest_le _ t.length _ _ _ _ (by omega) (by omega), ?_⟩
  rw [fragmentLoop, if_pos hlt]
  rfl

theorem fragmentLoop_ends (est : Message → Nat) (m : Message) (t : Text) (maxTokens : Int) :
    ∀ fuel start fragments, t.length - start ≤ fuel →
    FragmentsEnd est m t maxTokens start fragments (fragmentLoop est m t maxTokens fuel start fragments) := by
  intro fuel
  induction fuel with
  | zero => intro start fragments hf; exact .stop (by omega)
  | succ fuel ih =>
    intro start fragments hf
    by_cases hlt : start < t.length
    · obtain ⟨best, hbest, hge, hle, heq⟩ := fragmentLoop_succ est m t maxTokens fuel fragments hlt
      have hends : SearchEnds (fun mid => decide ((est (candidate m t fragments start mid) : Int) ≤ maxTokens))
          (start + 1) t.length start best := by
        rw [hbest]
        exact searchBest_ends _ _ _ _ _ (by omega) (by omega)
      rw [heq]
      split
      · rename_i hbail
        exact .bail hlt hends hbail
      · rename_i hcut
        have hnext := fragmentEnd_bounds t (Nat.lt_of_not_le hcut) hle
        exact .cut hlt hends (by omega) (ih _ _ (by omega))
    · rw [fragmentLoop, if_neg hlt]
      exact .stop (by omega)

theorem splitOversizedTextMessage_ends (est : Message → Nat) (m : Message) (maxTokens : Int) :
    SplitEnds est m maxTokens (splitOversizedTextMessage est m maxTokens) := by
  unfold splitOversizedTextMessage
  split
  · rename_i h
    exact .fits h
  · rename_i h
    split
    · rename_i t ht
      split
      · rename_i hempty
        exact .noText fun t' ht' => by rw [ht] at ht'; cases ht'; exact hempty
      · rename_i hne
        exact .split h ht hne (fragmentLoop_ends est m t maxTokens t.length 0 [] (by omega))
    · rename_i hno
      exact .noText fun t ht => absurd ht (hno t)

/-- Every fragment the loop ends with fits. -/
theorem fragmentLoop_fit (hmono : PrefixMonotone est) (m : Message) (t : Text) (maxTokens : Int) :
    ∀ fuel start fragments fs, (∀ f ∈ fragments, (est f : Int) ≤ maxTokens) →
    fragmentLoop est m t maxTokens fuel start fragments = some fs → ∀ f ∈ fs, (est f : Int) ≤ maxTokens := by
  intro fuel
  induction fuel with
  | zero =>
    intro start fragments fs hfit h
    simp only [fragmentLoop, Option.some.injEq] at h
    exact h ▸ hfit
  | succ fuel ih =>
    intro start fragments fs hfit h
    by_cases hlt : start < t.length
    · obtain ⟨best, hbest, hge, hle, heq⟩ := fragmentLoop_succ est m t maxTokens fuel fragments hlt
      rw [heq] at h
      split at h
      · cases h
      · rename_i hcut
        -- the best end fits, and cutting back to a separator keeps a prefix of it
        have hfits : (est (candidate m t fragments start best) : Int) ≤ maxTokens := by
          rcases searchBest_fits (fun mid => decide ((est (candidate m t fragments start mid) : Int) ≤ maxTokens))
            (t.length + 1) (start + 1) t.length start with h' | h'
          · omega
          · rw [← hbest] at h'
            exact of_decide_eq_true h'
        have hback := hmono.candidate m t fragments start (fragmentEnd_le t start best)
        refine ih _ _ fs ?_ h
        intro f hf
        rcases List.mem_append.mp hf with hf | hf
        · exact hfit f hf
        · rw [List.mem_singleton.mp hf]
          omega
    · rw [fragmentLoop, if_neg hlt, Option.some.injEq] at h
      exact h ▸ hfit

/-- The loop gives a message back whole only from a place where no fragment fits. -/
theorem fragmentLoop_bails (hmono : PrefixMonotone est) (m : Message) (t : Text) (maxTokens : Int) :
    ∀ fuel start fragments, fragments.isEmpty = (start == 0) →
    fragmentLoop est m t maxTokens fuel start fragments = none →
    ∃ start, start < t.length ∧ ∀ n, 0 < n → maxTokens < est (fragmentOf m (start == 0) ((t.drop start).take n)) := by
  intro fuel
  induction fuel with
  | zero => intro start fragments _ h; simp [fragmentLoop] at h
  | succ fuel ih =>
    intro start fragments hfirst h
    by_cases hlt : start < t.length
    · obtain ⟨best, hbest, hge, hle, heq⟩ := fragmentLoop_succ est m t maxTokens fuel fragments hlt
      rw [heq] at h
      split at h
      · rename_i hbail
        refine ⟨start, hlt, fun n hn => ?_⟩
        by_contra hfit
        have hone : (est (candidate m t fragments start (start + 1)) : Int) ≤ maxTokens := by
          have := hmono.fragmentOf m (start == 0) (t.drop start) (show 1 ≤ n by omega)
          rw [candidate, hfirst, Nat.add_sub_cancel_left]
          omega
        have := searchBest_greatest
          (fun mid => decide ((est (candidate m t fragments start mid) : Int) ≤ maxTokens))
          (fun i j hij hj => by
            have hle := hmono.candidate m t fragments start hij
            have hj := of_decide_eq_true hj
            exact decide_eq_true (by omega))
          (t.length + 1) (start + 1) t.length start (by omega) (by omega) (start + 1) (by omega) hlt
          (decide_eq_true hone)
        omega
      · rename_i hcut
        have hnext := fragmentEnd_bounds t (Nat.lt_of_not_le hcut) hle
        refine ih _ _ ?_ h
        -- past the first round there is a fragment, and the place is not the start
        have hpos : (fragmentEnd t start best == 0) = false := beq_false_of_ne (by omega)
        rw [hpos]
        cases fragments <;> rfl
    · rw [fragmentLoop, if_neg hlt] at h
      cases h

/-- A message for the summariser: itself where it fits or cannot be cut, else consecutive
    fragments that fit and whose texts join to its text. -/
inductive Replaced (est : Message → Nat) (maxTokens : Int) (m : Message) : List Message → Prop where
  | whole : (est m : Int) ≤ maxTokens ∨ Unsplittable est maxTokens m → Replaced est maxTokens m [m]
  | split {ts : List Text} : maxTokens < est m → ts ≠ [] → m.content = .text ts.flatten →
      (∀ f ∈ fragmentsOf m ts, (est f : Int) ≤ maxTokens) → Replaced est maxTokens m (fragmentsOf m ts)

theorem splitOversizedTextMessage_replaced (hmono : PrefixMonotone est) (m : Message) (maxTokens : Int) :
    Replaced est maxTokens m (splitOversizedTextMessage est m maxTokens) := by
  unfold splitOversizedTextMessage
  split
  · rename_i h
    exact .whole (h.elim (fun h => Or.inr (Or.inl h)) Or.inl)
  · rename_i hover
    split
    · rename_i t ht
      split
      · rename_i hempty
        exact .whole (Or.inr (Or.inr (Or.inl fun t' ht' => by rw [ht] at ht'; cases ht'; exact hempty)))
      · rename_i hne
        cases hl : fragmentLoop est m t maxTokens t.length 0 [] with
        | none =>
          obtain ⟨start, hstart, hbig⟩ := fragmentLoop_bails hmono m t maxTokens _ 0 [] rfl hl
          exact .whole (Or.inr (Or.inr (Or.inr ⟨t, start, ht, hstart, hbig⟩)))
        | some fs =>
          obtain ⟨ts, hts, hfs⟩ := fragmentLoop_pieces est m t maxTokens t.length 0 [] fs (by omega) (by omega)
            (by simp) (by simpa [fragmentsOf] using hl)
          have hfit := fragmentLoop_fit hmono m t maxTokens t.length 0 [] fs (by simp) hl
          refine hfs ▸ .split (by omega) ?_ (hts ▸ ht) (hfs ▸ hfit)
          intro h
          subst h
          exact hne hts.symm
    · rename_i hno
      exact .whole (Or.inr (Or.inr (Or.inl fun t ht => absurd ht (hno t))))

/-! ## Chunks -/

def Bounded (est : Message → Nat) (maxTokens : Int) (chunk : List Message) : Prop :=
  ((chunk.map est).sum : Int) ≤ maxTokens ∨ ∃ m, chunk = [m] ∧ maxTokens < est m

theorem chunkLoop_bounded (est : Message → Nat) (maxTokens : Int) : ∀ (ms : List Message)
    (chunks : List (List Message)) (current : List Message), (∀ c ∈ chunks, Bounded est maxTokens c) →
    (current ≠ [] → ((current.map est).sum : Int) ≤ maxTokens) →
    ∀ c ∈ chunkLoop est maxTokens chunks current (current.map est).sum ms, Bounded est maxTokens c := by
  intro ms
  induction ms with
  | nil =>
    intro chunks current hc hcur c hm
    simp only [chunkLoop] at hm
    split at hm
    · exact hc c hm
    · rename_i hne
      rcases List.mem_append.mp hm with hm | hm
      · exact hc c hm
      · rw [List.mem_singleton.mp hm]
        exact Or.inl (hcur hne)
  | cons m ms ih =>
    intro chunks current hc hcur c hm
    simp only [chunkLoop] at hm
    by_cases hcut : current ≠ [] ∧ (((current.map est).sum + est m : Nat) : Int) > maxTokens
    · -- the open chunk is closed and `m` opens the next one
      simp only [if_pos hcut, List.nil_append, Nat.zero_add] at hm
      have hclosed : ∀ d ∈ chunks ++ [current], Bounded est maxTokens d := by
        intro d hd
        rcases List.mem_append.mp hd with hd | hd
        · exact hc d hd
        · rw [List.mem_singleton.mp hd]
          exact Or.inl (hcur hcut.1)
      split at hm
      · rename_i hover
        refine ih _ [] ?_ (fun h => absurd rfl h) c hm
        intro d hd
        rcases List.mem_append.mp hd with hd | hd
        · exact hclosed d hd
        · exact Or.inr ⟨m, List.mem_singleton.mp hd, hover⟩
      · rename_i hfit
        exact ih _ [m] hclosed (fun _ => by simpa using hfit) c (by simpa using hm)
    · simp only [if_neg hcut] at hm
      split at hm
      · rename_i hover
        -- an open chunk with `m` would be over the limit, so there was none
        have hnil : current = [] := by
          by_contra hne
          exact hcut ⟨hne, by omega⟩
        subst hnil
        refine ih _ [] ?_ (fun h => absurd rfl h) c hm
        intro d hd
        rcases List.mem_append.mp hd with hd | hd
        · exact hc d hd
        · exact Or.inr ⟨m, by simpa using hd, hover⟩
      · rename_i hfit
        refine ih _ (current ++ [m]) hc ?_ c (by simpa using hm)
        intro _
        by_cases hnil : current = []
        · subst hnil
          simpa using hfit
        · have : ¬ (((current.map est).sum + est m : Nat) : Int) > maxTokens := fun h => hcut ⟨hnil, h⟩
          simp only [List.map_append, List.map_cons, List.map_nil, List.sum_append, List.sum_cons, List.sum_nil]
          omega

theorem chunkMessagesByMaxTokens_bounded (est : Message → Nat) (ms : List Message) (maxTokens : Int) :
    ∀ c ∈ chunkMessagesByMaxTokens est ms maxTokens, Bounded est maxTokens c := by
  unfold chunkMessagesByMaxTokens
  split
  · simp
  · exact chunkLoop_bounded est maxTokens _ [] [] (by simp) (fun h => absurd rfl h)

/-- A message over the limit that the summariser is given is an input message that cannot be cut. -/
theorem unsplittable_of_over (hmono : PrefixMonotone est) {ms : List Message} {maxTokens : Int} {m : Message}
    (hm : m ∈ ms.flatMap fun m => splitOversizedTextMessage est m maxTokens) (hover : maxTokens < est m) :
    m ∈ ms ∧ Unsplittable est maxTokens m := by
  obtain ⟨source, hsource, hpiece⟩ := List.mem_flatMap.mp hm
  have hrep := splitOversizedTextMessage_replaced hmono source maxTokens
  generalize splitOversizedTextMessage est source maxTokens = pieces at hpiece hrep
  cases hrep with
  | whole h =>
    rw [List.mem_singleton.mp hpiece] at hover ⊢
    exact ⟨hsource, h.resolve_left (by omega)⟩
  | split _ _ _ hfit =>
    have := hfit m hpiece
    omega

/-- Chunking for the summariser: the two loops of every split end; the chunks, joined, are the
    messages with each oversized text in fragments; a chunk is within the limit or is one message
    of the list that cannot be cut. -/
theorem chunkMessagesByMaxTokens_lossless (hmono : PrefixMonotone est) (ms : List Message) (maxTokens : Int) :
    (∀ m ∈ ms, SplitEnds est m maxTokens (splitOversizedTextMessage est m maxTokens)) ∧
    (∃ pieces, List.Forall₂ (Replaced est maxTokens) ms pieces ∧
      (chunkMessagesByMaxTokens est ms maxTokens).flatten = pieces.flatten) ∧
    ∀ chunk ∈ chunkMessagesByMaxTokens est ms maxTokens, ((chunk.map est).sum : Int) ≤ maxTokens ∨
      ∃ m ∈ ms, chunk = [m] ∧ maxTokens < est m ∧ Unsplittable est maxTokens m := by
  refine ⟨fun m _ => splitOversizedTextMessage_ends est m maxTokens,
    ⟨ms.map fun m => splitOversizedTextMessage est m maxTokens, ?_, ?_⟩, ?_⟩
  · rw [List.forall₂_map_right_iff]
    exact List.forall₂_same.mpr fun m _ => splitOversizedTextMessage_replaced hmono m maxTokens
  · rw [chunkMessagesByMaxTokens_flatten, List.flatMap_def]
  · intro chunk hchunk
    rcases chunkMessagesByMaxTokens_bounded est ms maxTokens chunk hchunk with h | ⟨m, rfl, hover⟩
    · exact Or.inl h
    · have hm : m ∈ (chunkMessagesByMaxTokens est ms maxTokens).flatten :=
        List.mem_flatten.mpr ⟨[m], hchunk, by simp⟩
      rw [chunkMessagesByMaxTokens_flatten] at hm
      obtain ⟨hms, hcut⟩ := unsplittable_of_over hmono hm hover
      exact Or.inr ⟨m, hms, rfl, hover, hcut⟩

namespace Sample

/-- One token for a message and one for every character. -/
def letters (m : Message) : Nat :=
  match m.content with
  | .text t => 1 + t.length
  | _ => 1

theorem letters_prefixMonotone : PrefixMonotone letters := by
  intro m t n
  simp only [letters, List.length_take]
  omega

def log : Message := { role := .user, content := .text ['a', 'b', ' ', 'c', 'd', 'e', 'f'] }

end Sample

open Sample in
theorem chunkMessagesByMaxTokens_lossless_log :
    chunkMessagesByMaxTokens letters [log] 4 =
      [[fragmentOf log true ['a', 'b', ' ']], [fragmentOf log false ['c', 'd', 'e']], [fragmentOf log false ['f']]] ∧
    ∃ pieces, List.Forall₂ (Replaced letters 4) [log] pieces ∧
      (chunkMessagesByMaxTokens letters [log] 4).flatten = pieces.flatten :=
  ⟨by decide, (chunkMessagesByMaxTokens_lossless letters_prefixMonotone [log] 4).2.1⟩

end Flowly.Compaction
