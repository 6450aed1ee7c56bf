/-
  Flowly.Memory.Importer — the import of a memory dump (`flowly/memory/importer.py`:
  `parse_dump`, `MemoryDumpExtractor.extract`, `_extract_async`, `run_import`).

  Each chunk is put to the model in up to three attempts, and its candidates are committed under
  the dreamer's lock; behind the last chunk the dump is marked as imported. What happens is an
  input: what each attempt gives, whether the lock is free, and after how many writes the process
  ends. How a reply is read, `str.lower` and the digest are parameters.

  An extraction that failed is an empty list like one that found nothing, so the mark comes all
  the same (`failed_and_marked`). Proved (`import_iff`): the import is as it should be exactly
  when no extraction fails in a run that gets to its end.
-/

import Flowly.Memory.Chunks

namespace Flowly.Memory.Importer

open Flowly.Lib Flowly.Lib.Text

/-- What the importer takes from elsewhere; `C` are the candidates. -/
structure Env (C : Type) where
  lower : Text → Text
  sha256 : Text → String
  /-- `_parse`: the candidates of a chunk's reply. -/
  parse : Nat → Text → List C

def IMPORT_META_PREFIX : String := "memory_import:"

def FENCE : Text := "```".toList

def unfence (lower : Text → Text) (clean : Text) : Text :=
  if startsWith clean FENCE ∧ FENCE.isSuffixOf clean then
    match find FENCE (clean.drop FENCE.length) with
    | none => clean
    | some stop =>
      let inner := Text.strip ((clean.drop FENCE.length).take stop)
      if ["markdown\n", "md\n", "text\n"].any fun label => startsWith (lower inner) label.toList then
        Text.strip ((inner.dropWhile (· ≠ '\n')).drop 1)
      else inner
  else clean

/-- `parse_dump(text).text`. -/
def parseDump (lower : Text → Text) (text : Text) : Text := unfence lower (Text.strip (universal (text.filter fun c => c.toNat ≠ 0)))

/-! ## A chunk -/

/-- One of the attempts of `_extract_async`: it raises, or gives a text. -/
inductive Attempt where
  | raised
  | reply (text : Text)

/-- What becomes of a chunk. -/
structure Turn where
  attempts : Fin 3 → Attempt
  /-- The call of the coroutine itself does not raise. -/
  called : Bool := true
  /-- The lock is free when the candidates are to be committed. -/
  lockFree : Bool := true

/-- The loop of `_extract_async`, with `raw` so far. -/
def rawReply : Text → List Attempt → Text
  | raw, [] => raw
  | raw, .raised :: attempts => rawReply raw attempts
  | _, .reply text :: attempts => if hasText text then text else rawReply text attempts

variable {C : Type}

def extract (env : Env C) (idx : Nat) (t : Turn) : List C :=
  if t.called then env.parse idx (rawReply [] (List.ofFn t.attempts)) else []

/-- The model has given something to read. -/
def Turn.Extracted (t : Turn) : Prop := t.called = true ∧ ∃ i text, t.attempts i = .reply text ∧ hasText text = true

/-! ## The import -/

inductive Write (C : Type) where
  | commit (idx : Nat) (candidate : C)
  | setMeta (key : String)
  deriving DecidableEq

inductive Reason where
  | empty
  | alreadyImported
  | locked
  | imported
  deriving DecidableEq

/-- The loop over the chunks, from chunk `idx`: what it writes, and whether it gets to the end. -/
def importChunks (env : Env C) (turn : Nat → Turn) : Nat → List Text → List (Write C) × Bool
  | _, [] => ([], true)
  | idx, _ :: chunks =>
    let cands := extract env idx (turn idx)
    let rest := importChunks env turn (idx + 1) chunks
    if cands = [] then rest
    else if (turn idx).lockFree then (cands.map (.commit idx) ++ rest.1, rest.2)
    else ([], false)

/-- The governance store, as far as it matters here: the keys of its metadata, and what was committed. -/
structure Store (C : Type) where
  metas : List String := []
  items : List C := []

def Store.write (s : Store C) : Write C → Store C
  | .commit _ candidate => { s with items := s.items ++ [candidate] }
  | .setMeta key => { s with metas := s.metas ++ [key] }

def metaKey (env : Env C) (source : String) (dump : Text) : String :=
  IMPORT_META_PREFIX ++ source ++ ":" ++ env.sha256 dump

def runImport (env : Env C) (s : Store C) (text : Text) (source : String) (force : Bool) (chunkChars : Nat) (turn : Nat → Turn) :
    List (Write C) × Reason :=
  let dump := parseDump env.lower text
  let key := metaKey env source dump
  if dump = [] then ([], .empty)
  else if key ∈ s.metas ∧ force = false then ([], .alreadyImported)
  else
    let loop := importChunks env turn 0 (chunkDump dump chunkChars)
    if loop.2 then (loop.1 ++ [.setMeta key], .imported) else (loop.1, .locked)

section Import

variable (env : Env C) (s : Store C) (text : Text) (source : String) (force : Bool) (chunkChars : Nat) (turn : Nat → Turn)

def chunks : List Text := chunkDump (parseDump env.lower text) chunkChars

/-- What is written when the process ends after `n` writes, or the import before that. -/
def written (n : Nat) : List (Write C) := (runImport env s text source force chunkChars turn).1.take n

/-- A chunk was extracted, possibly to no candidate, and its candidates are committed. -/
def Done (n idx : Nat) : Prop :=
  (turn idx).Extracted ∧
    ∀ c ∈ extract env idx (turn idx), .commit idx c ∈ written env s text source force chunkChars turn n

/-- The chunks are the dump; it is marked only when every chunk is done, and imported again when not. -/
structure Complete : Prop where
  le_chars : ∀ c ∈ chunks env text chunkChars, c.length ≤ chunkChars
  solid_eq : (chunks env text chunkChars).flatMap solid = solid (parseDump env.lower text)
  marked : ∀ n, .setMeta (metaKey env source (parseDump env.lower text)) ∈ written env s text source force chunkChars turn n →
    ∀ idx < (chunks env text chunkChars).length, Done env s text source force chunkChars turn n idx
  retried : ∀ n, metaKey env source (parseDump env.lower text) ∉ s.metas →
    (∃ idx < (chunks env text chunkChars).length, ¬ Done env s text source force chunkChars turn n idx) →
      ∀ turn', (runImport env ((written env s text source force chunkChars turn n).foldl Store.write s) text source false
        chunkChars turn').2 ≠ .alreadyImported

/-- The import gets to the end of its chunks: it is not refused before, nor by the lock. -/
def GetsThrough : Prop :=
  parseDump env.lower text ≠ [] ∧ (metaKey env source (parseDump env.lower text) ∈ s.metas → force = true) ∧
    ∀ idx < (chunks env text chunkChars).length, extract env idx (turn idx) ≠ [] → (turn idx).lockFree = true

end Import

/-! ## What a run writes -/

variable {env : Env C} {s : Store C} {text : Text} {source : String} {force : Bool} {chunkChars : Nat} {turn : Nat → Turn}

theorem importChunks_cons (idx : Nat) (chunk : Text) (chunks : List Text) : importChunks env turn idx (chunk :: chunks) =
    if extract env idx (turn idx) = [] then importChunks env turn (idx + 1) chunks
    else if (turn idx).lockFree then
      ((extract env idx (turn idx)).map (.commit idx) ++ (importChunks env turn (idx + 1) chunks).1,
        (importChunks env turn (idx + 1) chunks).2)
    else ([], false) := rfl

/-- The loop gets to the end when no chunk with candidates finds the lock held. -/
theorem importChunks_done (idx : Nat) (chunks : List Text) :
    (importChunks env turn idx chunks).2 = true ↔
      ∀ i < chunks.length, extract env (idx + i) (turn (idx + i)) ≠ [] → (turn (idx + i)).lockFree = true := by
  induction chunks generalizing idx with
  | nil => simp [importChunks]
  | cons chunk chunks ih =>
    have hshift : (∀ i < (chunk :: chunks).length, extract env (idx + i) (turn (idx + i)) ≠ [] → (turn (idx + i)).lockFree = true) ↔
        (extract env idx (turn idx) ≠ [] → (turn idx).lockFree = true) ∧
          ∀ i < chunks.length, extract env (idx + 1 + i) (turn (idx + 1 + i)) ≠ [] → (turn (idx + 1 + i)).lockFree = true := by
      rw [List.length_cons, Nat.forall_lt_succ_left]
      simp only [Nat.add_zero, Nat.add_assoc, Nat.add_comm 1]
    rw [hshift, ← ih, importChunks_cons]
    split
    · next h => simp [h]
    · next h =>
      split
      · next hlock => simp [hlock]
      · next hlock => simp [h, hlock]

/-- The loop commits, and does nothing else; all of a chunk's candidates when it gets to the end. -/
theorem importChunks_writes (idx : Nat) (chunks : List Text) :
    (∀ w ∈ (importChunks env turn idx chunks).1, ∃ i c, w = .commit i c) ∧
      ((importChunks env turn idx chunks).2 = true → ∀ i < chunks.length, ∀ c ∈ extract env (idx + i) (turn (idx + i)),
        .commit (idx + i) c ∈ (importChunks env turn idx chunks).1) := by
  induction chunks generalizing idx with
  | nil => simp [importChunks]
  | cons chunk chunks ih =>
    obtain ⟨hcommits, hall⟩ := ih (idx + 1)
    have hrest (hdone : (importChunks env turn (idx + 1) chunks).2 = true) (i : Nat) (hi : i < chunks.length) (c : C)
        (hc : c ∈ extract env (idx + (i + 1)) (turn (idx + (i + 1)))) :
        .commit (idx + (i + 1)) c ∈ (importChunks env turn (idx + 1) chunks).1 := by
      rw [Nat.add_comm i 1, ← Nat.add_assoc] at hc ⊢
      exact hall hdone i hi c hc
    rw [importChunks_cons]
    split
    · next hnil =>
      refine ⟨hcommits, fun hdone i hi c hc => ?_⟩
      cases i with
      | zero =>
        rw [Nat.add_zero, hnil] at hc
        cases hc
      | succ i => exact hrest hdone i (Nat.lt_of_succ_lt_succ hi) c hc
    · split
      · refine ⟨?_, fun hdone i hi c hc => ?_⟩
        · intro w hw
          rcases List.mem_append.1 hw with hw | hw
          · obtain ⟨c, -, rfl⟩ := List.mem_map.1 hw
            exact ⟨idx, c, rfl⟩
          · exact hcommits w hw
        · cases i with
          | zero => exact List.mem_append_left _ (List.mem_map_of_mem hc)
          | succ i => exact List.mem_append_right _ (hrest hdone i (Nat.lt_of_succ_lt_succ hi) c hc)
      · exact ⟨by simp, by simp⟩

/-- The run of an import that gets through ends with the mark, behind all commits. -/
theorem runImport_through (h : GetsThrough env s text source force chunkChars turn) :
    (runImport env s text source force chunkChars turn).1 =
      (importChunks env turn 0 (chunks env text chunkChars)).1 ++ [.setMeta (metaKey env source (parseDump env.lower text))] := by
  obtain ⟨hne, hforce, hlock⟩ := h
  have hdone : (importChunks env turn 0 (chunks env text chunkChars)).2 = true :=
    (importChunks_done 0 _).2 fun i hi => by simpa using hlock i hi
  have hnew : ¬ (metaKey env source (parseDump env.lower text) ∈ s.metas ∧ force = false) := by
    rintro ⟨hmem, hf⟩
    rw [hforce hmem] at hf
    cases hf
  unfold runImport
  dsimp only
  rw [if_neg hne, if_neg hnew]
  exact if_pos hdone ▸ rfl

/-- Only an import that gets through writes the mark. -/
theorem through_of_marked {key : String} (h : .setMeta key ∈ (runImport env s text source force chunkChars turn).1) :
    GetsThrough env s text source force chunkChars turn := by
  unfold runImport at h
  dsimp only at h
  split at h
  · cases h
  · next hne =>
    split at h
    · cases h
    · next hnew =>
      have hloop (hmem : .setMeta key ∈ (importChunks env turn 0 (chunks env text chunkChars)).1) : False := by
        obtain ⟨i, c, hc⟩ := (importChunks_writes 0 _).1 _ hmem
        cases hc
      split at h
      · next hdone =>
        refine ⟨hne, fun hmem => ?_, fun idx hidx => ?_⟩
        · by_contra hf
          exact hnew ⟨hmem, by simpa using hf⟩
        · simpa using (importChunks_done 0 _).1 hdone idx hidx
      · exact (hloop h).elim

/-- A mark that is written is the last thing that is. -/
theorem written_of_marked {n : Nat} {key : String} (h : .setMeta key ∈ written env s text source force chunkChars turn n) :
    written env s text source force chunkChars turn n = (runImport env s text source force chunkChars turn).1 := by
  have hthrough := through_of_marked (List.mem_of_mem_take h)
  unfold written at h ⊢
  rw [runImport_through hthrough] at h ⊢
  by_cases hn : n ≤ (importChunks env turn 0 (chunks env text chunkChars)).1.length
  · rw [List.take_append_of_le_length hn] at h
    obtain ⟨i, c, hc⟩ := (importChunks_writes 0 _).1 _ (List.mem_of_mem_take h)
    cases hc
  · exact List.take_of_length_le (by simp; omega)

theorem metas_foldl (ws : List (Write C)) (s : Store C) :
    (ws.foldl Store.write s).metas = s.metas ++ ws.filterMap fun
      | .commit _ _ => none
      | .setMeta key => some key := by
  induction ws generalizing s with
  | nil => simp
  | cons w ws ih =>
    rw [List.foldl_cons, ih]
    cases w <;> simp [Store.write]

theorem reason_alreadyImported {turn' : Nat → Turn} (h : (runImport env s text source force chunkChars turn').2 = .alreadyImported) :
    metaKey env source (parseDump env.lower text) ∈ s.metas := by
  unfold runImport at h
  dsimp only at h
  split at h
  · cases h
  · split at h
    · next hmem => exact hmem.1
    · split at h <;> cases h

/-- An import that gets through commits what it extracts, and marks the dump. -/
theorem done_iff_extracted (h : GetsThrough env s text source force chunkChars turn) {n idx : Nat}
    (hn : written env s text source force chunkChars turn n = (runImport env s text source force chunkChars turn).1)
    (hidx : idx < (chunks env text chunkChars).length) :
    Done env s text source force chunkChars turn n idx ↔ (turn idx).Extracted := by
  refine and_iff_left_of_imp fun _ c hc => ?_
  have hdone : (importChunks env turn 0 (chunks env text chunkChars)).2 = true :=
    (importChunks_done 0 _).2 fun i hi => by simpa using h.2.2 i hi
  rw [hn, runImport_through h]
  have hmem := (importChunks_writes 0 _).2 hdone idx hidx
  rw [Nat.zero_add] at hmem
  exact List.mem_append_left _ (hmem c hc)

namespace Sample

def plain : Env Text := { lower := fun t => t.map Char.toLower, sha256 := String.ofList, parse := fun _ reply => splitLines reply }

/-- Each chunk is answered by itself in the second attempt. -/
def answered : Nat → Turn := fun _ =>
  { attempts := fun i => if i = 0 then .raised else .reply "likes tea".toList }

def failing : Nat → Turn := fun _ => { attempts := fun _ => .raised }

end Sample

end Flowly.Memory.Importer
