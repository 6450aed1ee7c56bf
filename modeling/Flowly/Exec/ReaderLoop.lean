/-
  Flowly.Exec.ReaderLoop — what a background process writes, read in chunks
  (`flowly/exec/process_registry.py`: `_reader_loop`, `_check_watch_patterns`).

  Each chunk is decoded and searched on its own. The watch breaker's state belongs to all
  sessions, so each read comes with what the others have left of it, and with the clock.

  Proved (`reads_the_stream`): the buffer ends as the last MAX_OUTPUT_CHARS characters of the
  whole output, and `watch_hit` tells whether a pattern occurs in what was read under the watch,
  exactly when the end of the output shows no cut inside a character and the chunks have a
  pattern when their text has one. `cut_in_two` is an `é` and a pattern across two reads.
-/

import Flowly.Lib.Marked
import Flowly.Lib.Utf8

namespace Flowly.Exec.ReaderLoop

open Flowly.Lib

def MAX_OUTPUT_CHARS : Nat := 200000
def READ_CHUNK_SIZE : Nat := 4096
def WATCH_MIN_INTERVAL_SECONDS : Int := 15
def WATCH_STRIKE_LIMIT : Nat := 3
def WATCH_GLOBAL_MAX_PER_WINDOW : Nat := 15
def WATCH_GLOBAL_WINDOW_SECONDS : Int := 10
def WATCH_GLOBAL_COOLDOWN_SECONDS : Int := 30

/-- What `_reader_loop` reads and sets of a `ProcessSession`. -/
structure Session where
  outputBuffer : Text := []
  watchPatterns : List Text
  watchHit : Bool := false
  watchHitAt : Int := 0
  watchHitPattern : Text := []
  watchLastEmitAt : Int := 0
  watchConsecutiveStrikes : Nat := 0
  watchDisabled : Bool := false
  watchSuppressed : Nat := 0

structure Breaker where
  watchEmits : List Int := []
  watchCooldownUntil : Int := 0

inductive Effect where
  | triggerWatchMatch
  | emitWatchMatch (pattern snippet : Text)

/-- A read of `proc.stdout`: what it gave, what the clock says at a first match and after it, and
the breaker as it is then. -/
structure Read where
  chunk : List UInt8
  hitAt : Int := 0
  now : Int := 0
  breaker : Breaker := {}
  nonempty : chunk ≠ []
  le_size : chunk.length ≤ READ_CHUNK_SIZE

def matched (patterns : List Text) (newText : Text) : Option Text :=
  patterns.find? fun pat => pat ≠ [] ∧ newText.contains pat

def Session.hit (s : Session) (pattern : Text) (hitAt : Int) : Session × List Effect :=
  if s.watchHit then (s, [])
  else ({ s with watchHit := true, watchHitAt := hitAt, watchHitPattern := pattern }, [.triggerWatchMatch])

/-- What a match does after it is noted: it is suppressed, is a strike, or is told. -/
def Session.announce (s : Session) (breaker : Breaker) (pattern newText : Text) (now : Int) : Session × Breaker × List Effect :=
  if now < breaker.watchCooldownUntil then ({ s with watchSuppressed := s.watchSuppressed + 1 }, breaker, [])
  else
    let breaker := { breaker with watchEmits := breaker.watchEmits.filter fun t => now - t ≤ WATCH_GLOBAL_WINDOW_SECONDS }
    if WATCH_GLOBAL_MAX_PER_WINDOW ≤ breaker.watchEmits.length then
      ({ s with watchSuppressed := s.watchSuppressed + 1 },
        { breaker with watchCooldownUntil := now + WATCH_GLOBAL_COOLDOWN_SECONDS }, [])
    else if now - s.watchLastEmitAt < WATCH_MIN_INTERVAL_SECONDS then
      let strikes := s.watchConsecutiveStrikes + 1
      ({ s with
          watchConsecutiveStrikes := strikes
          watchSuppressed := s.watchSuppressed + 1
          watchDisabled := s.watchDisabled || decide (WATCH_STRIKE_LIMIT ≤ strikes) }, breaker, [])
    else
      ({ s with watchLastEmitAt := now, watchConsecutiveStrikes := 0 },
        { breaker with watchEmits := breaker.watchEmits ++ [now] }, [.emitWatchMatch pattern newText])

def checkWatchPatterns (s : Session) (r : Read) (newText : Text) : Session × Breaker × List Effect :=
  match matched s.watchPatterns newText with
  | none => (s, r.breaker, [])
  | some pattern =>
    let (s, triggers) := s.hit pattern r.hitAt
    let (s, breaker, emits) := s.announce r.breaker pattern newText r.now
    (s, breaker, triggers ++ emits)

/-- `session.output_buffer += text`, and its end. -/
def Session.append (s : Session) (text : Text) : Session :=
  let outputBuffer := s.outputBuffer ++ text
  { s with outputBuffer := if MAX_OUTPUT_CHARS < outputBuffer.length then outputBuffer.rtake MAX_OUTPUT_CHARS else outputBuffer }

def Session.watching (s : Session) : Bool := !s.watchPatterns.isEmpty && !s.watchDisabled

/-- One round of the loop. -/
def Session.read (s : Session) (r : Read) : Session × Breaker × List Effect :=
  let text := Utf8.decode r.chunk
  let s := s.append text
  if s.watching then checkWatchPatterns s r text else (s, r.breaker, [])

def readerLoop (s : Session) (reads : List Read) : Session := reads.foldl (fun s r => (s.read r).1) s

def watched : Session → List Read → List Read
  | _, [] => []
  | s, r :: reads => (if s.watching then [r] else []) ++ watched (s.read r).1 reads

def stream (reads : List Read) : List UInt8 := (reads.map (·.chunk)).flatten

def Occurs (patterns : List Text) (text : Text) : Prop := ∃ pat ∈ patterns, pat ≠ [] ∧ pat <:+: text

instance (patterns : List Text) (text : Text) : Decidable (Occurs patterns text) :=
  inferInstanceAs (Decidable (∃ pat ∈ patterns, _))

variable {s : Session} {r : Read}

theorem matched_isSome {patterns : List Text} {text : Text} : (matched patterns text).isSome = true ↔ Occurs patterns text := by
  have hcontains (pat : Text) : text.contains pat = true ↔ pat <:+: text := by
    rw [Text.contains, ← Option.ne_none_iff_isSome, ne_eq, Text.find_eq_none, not_not]
  rw [matched, List.find?_isSome]
  simp only [Occurs, decide_eq_true_eq, hcontains]

/-! ## One read -/

/-- What follows a match leaves the output, the patterns and the hit. -/
theorem announce_frame (s : Session) (breaker : Breaker) (pattern newText : Text) (now : Int) :
    let s' := (s.announce breaker pattern newText now).1
    s'.outputBuffer = s.outputBuffer ∧ s'.watchPatterns = s.watchPatterns ∧ s'.watchHit = s.watchHit := by
  unfold Session.announce
  dsimp only
  split_ifs <;> exact ⟨rfl, rfl, rfl⟩

theorem hit_frame (s : Session) (pattern : Text) (hitAt : Int) :
    let s' := (s.hit pattern hitAt).1
    s'.outputBuffer = s.outputBuffer ∧ s'.watchPatterns = s.watchPatterns ∧ s'.watchHit = true := by
  unfold Session.hit
  split
  · next h => exact ⟨rfl, rfl, h⟩
  · exact ⟨rfl, rfl, rfl⟩

theorem check_frame (s : Session) (r : Read) (newText : Text) :
    let s' := (checkWatchPatterns s r newText).1
    s'.outputBuffer = s.outputBuffer ∧ s'.watchPatterns = s.watchPatterns ∧
      (s'.watchHit = true ↔ s.watchHit = true ∨ Occurs s.watchPatterns newText) := by
  rw [← matched_isSome]
  unfold checkWatchPatterns
  split
  · next hnone => simp [hnone]
  · next pattern hsome =>
    obtain ⟨hbuffer, hpatterns, hhit⟩ := hit_frame s pattern r.hitAt
    obtain ⟨hbuffer', hpatterns', hhit'⟩ := announce_frame (s.hit pattern r.hitAt).1 r.breaker pattern newText r.now
    exact ⟨hbuffer'.trans hbuffer, hpatterns'.trans hpatterns, by simp [hhit', hhit, hsome]⟩

theorem append_outputBuffer (s : Session) (text : Text) :
    (s.append text).outputBuffer = (s.outputBuffer ++ text).rtake MAX_OUTPUT_CHARS := by
  unfold Session.append
  dsimp only
  split
  · rfl
  · next h => rw [List.rtake, Nat.sub_eq_zero_of_le (Nat.le_of_not_lt h), List.drop_zero]

theorem read_frame (s : Session) (r : Read) :
    (s.read r).1.outputBuffer = (s.outputBuffer ++ Utf8.decode r.chunk).rtake MAX_OUTPUT_CHARS ∧
      (s.read r).1.watchPatterns = s.watchPatterns ∧
      ((s.read r).1.watchHit = true ↔
        s.watchHit = true ∨ s.watching = true ∧ Occurs s.watchPatterns (Utf8.decode r.chunk)) := by
  have hwatching : (s.append (Utf8.decode r.chunk)).watching = s.watching := rfl
  unfold Session.read
  dsimp only
  rw [hwatching]
  split
  · next h =>
    obtain ⟨hbuffer, hpatterns, hhit⟩ := check_frame (s.append (Utf8.decode r.chunk)) r (Utf8.decode r.chunk)
    refine ⟨hbuffer.trans (append_outputBuffer _ _), hpatterns, hhit.trans ?_⟩
    simp only [h, true_and]
    rfl
  · next h =>
    refine ⟨append_outputBuffer _ _, rfl, ?_⟩
    simp only [h, Bool.false_eq_true, false_and, or_false]
    rfl

/-! ## The whole output -/

theorem rtake_rtake_append (a b : Text) (n : Nat) : (a.rtake n ++ b).rtake n = (a ++ b).rtake n := by
  simp only [List.rtake_eq_reverse_take_reverse, List.reverse_append, List.reverse_reverse, List.reverse_inj]
  rw [List.take_append, List.take_append, List.take_take]
  congr 2
  omega

/-- The buffer is the end of what the chunks are decoded to. -/
theorem outputBuffer_readerLoop (reads : List Read) (hs : s.outputBuffer.rtake MAX_OUTPUT_CHARS = s.outputBuffer) :
    (readerLoop s reads).outputBuffer =
      (s.outputBuffer ++ (reads.map (·.chunk)).flatMap Utf8.decode).rtake MAX_OUTPUT_CHARS := by
  induction reads generalizing s with
  | nil =>
    rw [List.map_nil, List.flatMap_nil, List.append_nil, hs]
    rfl
  | cons r reads ih =>
    have hread := (read_frame s r).1
    have hs' : (s.read r).1.outputBuffer.rtake MAX_OUTPUT_CHARS = (s.read r).1.outputBuffer := by
      rw [hread]
      simpa using rtake_rtake_append (s.outputBuffer ++ Utf8.decode r.chunk) [] MAX_OUTPUT_CHARS
    calc (readerLoop (s.read r).1 reads).outputBuffer
        = ((s.read r).1.outputBuffer ++ (reads.map (·.chunk)).flatMap Utf8.decode).rtake MAX_OUTPUT_CHARS := ih hs'
      _ = (s.outputBuffer ++ ((r :: reads).map (·.chunk)).flatMap Utf8.decode).rtake MAX_OUTPUT_CHARS := by
        rw [hread, rtake_rtake_append, List.append_assoc]
        rfl

/-- A hit is a pattern in the text of one chunk. -/
theorem watchHit_readerLoop (reads : List Read) :
    (readerLoop s reads).watchHit = true ↔
      s.watchHit = true ∨ ∃ r ∈ watched s reads, Occurs s.watchPatterns (Utf8.decode r.chunk) := by
  induction reads generalizing s with
  | nil => simp [readerLoop, watched]
  | cons r reads ih =>
    obtain ⟨-, hpatterns, hhit⟩ := read_frame s r
    refine (ih (s := (s.read r).1)).trans ?_
    rw [hhit, hpatterns, or_assoc]
    refine or_congr_right ?_
    by_cases hw : s.watching = true <;> simp [watched, hw]

/-- The buffer is the end of the output and the hit is right exactly when the cuts are not seen. -/
theorem reads_the_stream (patterns : List Text) (reads : List Read) :
    let start : Session := { watchPatterns := patterns }
    let s := readerLoop start reads
    (s.outputBuffer = (Utf8.decode (stream reads)).rtake MAX_OUTPUT_CHARS ∧
      (s.watchHit = true ↔ Occurs patterns (Utf8.decode (stream (watched start reads))))) ↔
    Utf8.Unseen MAX_OUTPUT_CHARS (Utf8.pieces none (Utf8.marked (reads.map (·.chunk)))) ∧
      (Occurs patterns (Utf8.decode (stream (watched start reads))) ↔
        ∃ r ∈ watched start reads, Occurs patterns (Utf8.decode r.chunk)) := by
  intro start s
  have hbuffer : s.outputBuffer = ((reads.map (·.chunk)).flatMap Utf8.decode).rtake MAX_OUTPUT_CHARS :=
    outputBuffer_readerLoop reads (List.rtake_nil _)
  have hhit : s.watchHit = true ↔ ∃ r ∈ watched start reads, Occurs patterns (Utf8.decode r.chunk) := by
    refine (watchHit_readerLoop reads).trans ?_
    simp [start]
  refine and_congr ?_ (by rw [hhit]; exact iff_comm)
  rw [hbuffer, stream, Utf8.flatMap_decode, Utf8.decode_flatten, Utf8.rtake_parts_iff]

namespace Sample

def read (chunk : List UInt8) (nonempty : chunk ≠ []) (le_size : chunk.length ≤ READ_CHUNK_SIZE) : Read :=
  { chunk, nonempty, le_size }

/-- `é` and `up`, each in two writes. -/
def cut : List Read := [read [0xC3] (by decide) (by decide), read [0xA9, 0x75] (by decide) (by decide), read [0x70] (by decide) (by decide)]

/-- The buffer has two U+FFFD for the `é`, and `up` goes unnoticed. -/
theorem cut_in_two :
    let start : Session := { watchPatterns := [['u', 'p']] }
    let s := readerLoop start cut
    s.outputBuffer ≠ (Utf8.decode (stream cut)).rtake MAX_OUTPUT_CHARS ∧
      s.watchDisabled = false ∧ s.watchHit = false ∧ Occurs start.watchPatterns (Utf8.decode (stream cut)) := by
  decide +kernel

end Sample

end Flowly.Exec.ReaderLoop
