/-
  Flowly.Agent.RunTranscript — the transcript of a subagent's run, written by its owner and
  read in pages (`flowly/agent/subagent_registry.py`: `append_jsonl`, `append_transcript`,
  `_last_transcript_seq`, `read_transcript`).

  The file is its bytes. A line is written in parts, and the owner may die in between;
  what restarts is another process, with no number and no cursor in memory. `encode` gives
  the bytes of a step with its number, `decode` the step of a line, none if it is
  unreadable; an item has no number of its own. Times are left out.

  A ghost reader follows `nextSeq` from 0, in whatever process, while the file grows and
  others read.

  Proved: where no crash leaves a whole step that lacks only its newline, each read
  answers as a scan of the whole file would, and the follower has each step once
  (`reads_agree`). The number of a step left so is given again: the restarted owner does
  not count it, and the next append ends its line (`whole_step_torn`).
-/

import Flowly.Lib.Lines
import Flowly.Lib.Reach
import Mathlib.Data.Nat.Digits.Defs

namespace Flowly.Agent.RunTranscript

open Flowly.Lib
open Flowly.Lib.Lines (lines tail width)

abbrev Step (ι : Type) := Nat × ι

structure Format (β ι : Type) where
  newline : β
  encode : Step ι → List β
  decode : List β → Option (Step ι)

structure Format.Sound {β ι : Type} (f : Format β ι) : Prop where
  decode_encode : ∀ step, f.decode (f.encode step) = some step
  one_line : ∀ step, f.newline ∉ f.encode step

structure Page (ι : Type) where
  items : List (Step ι)
  nextSeq : Nat
  more : Bool
  deriving DecidableEq

structure St (β ι : Type) where
  file : List β := []
  /-- The step that is being written, and the bytes that are not there yet. -/
  writing : Option (Step ι × List β) := none
  /-- `_transcript_seq` of the owner. -/
  ownerSeq : Option Nat := none
  /-- `_transcript_cursor` of each process. -/
  cursor : Nat → Option (Nat × Nat) := fun _ => none
  /-- Ghost: the number the follower asks for next, and what it got. -/
  after : Nat := 0
  got : List (Step ι) := []

variable {β ι : Type} [DecidableEq β] (f : Format β ι)

def steps (file : List β) : List (Step ι) := (lines f.newline file).filterMap f.decode

def lastTranscriptSeq (file : List β) : Nat := (steps f file).foldl (fun last step => max last step.1) 0

/-- What `append_jsonl` writes: a torn line is left on its own. -/
def appended (file : List β) (step : Step ι) : List β :=
  (if file ≠ [] ∧ file.getLast? ≠ some f.newline then [f.newline] else []) ++ (f.encode step ++ [f.newline])

/-! ## Reading -/

/-- The loop of `read_transcript`, with `count` items found: each item with the position
    behind its line, and whether there is one more. -/
def scan (after limit : Nat) : List (List β) → Nat → Nat → List (Step ι × Nat) × Bool
  | [], _, _ => ([], false)
  | line :: ls, position, count =>
    match f.decode line with
    | none => scan after limit ls (position + (line.length + 1)) count
    | some step =>
      if step.1 ≤ after then scan after limit ls (position + (line.length + 1)) count
      else if limit ≤ count then ([], true)
      else
        let rest := scan after limit ls (position + (line.length + 1)) (count + 1)
        ((step, position + (line.length + 1)) :: rest.1, rest.2)

def startOf (cached : Option (Nat × Nat)) (after : Nat) : Nat :=
  match cached with
  | some (seq, offset) => if seq = after then offset else 0
  | none => 0

def readTranscript (file : List β) (cached : Option (Nat × Nat)) (after limit : Int) :
    Except String (Page ι × Option (Nat × Nat)) :=
  if after < 0 ∨ limit < 1 ∨ 1000 < limit then .error "Invalid transcript range"
  else
    let start := startOf cached after.toNat
    let found := scan f after.toNat limit.toNat (lines f.newline (file.drop start)) start 0
    .ok ({ items := found.1.map (·.1), nextSeq := (found.1.getLast?.map (·.1.1)).getD after.toNat, more := found.2 },
      (found.1.getLast?.map fun last => (last.1.1, last.2)).orElse fun _ => cached)

/-! ## The owner and its readers -/

inductive Ev (ι : Type) where
  /-- `append_transcript` starts to write. -/
  | append (item : ι)
  /-- Some bytes more, but not the last. -/
  | write (bytes : Nat)
  | finish
  /-- The owner dies. -/
  | crash
  | read (process : Nat) (after limit : Int)
  /-- The follower's next request, to some process. -/
  | follow (process : Nat) (limit : Int)

def step (s : St β ι) : Ev ι → St β ι
  | .append item =>
    if s.writing.isSome then s
    else
      let next := (s.ownerSeq.getD (lastTranscriptSeq f s.file) + 1, item)
      { s with writing := some (next, appended f s.file next) }
  | .write bytes =>
    match s.writing with
    | none => s
    | some (next, rest) =>
      if rest.length ≤ bytes then s else { s with file := s.file ++ rest.take bytes, writing := some (next, rest.drop bytes) }
  | .finish =>
    match s.writing with
    | none => s
    | some (next, rest) => { s with file := s.file ++ rest, writing := none, ownerSeq := some next.1 }
  | .crash => { s with writing := none, ownerSeq := none }
  | .read process after limit =>
    match readTranscript f s.file (s.cursor process) after limit with
    | .error _ => s
    | .ok (_, cursor) => { s with cursor := Function.update s.cursor process cursor }
  | .follow process limit =>
    match readTranscript f s.file (s.cursor process) s.after limit with
    | .error _ => s
    | .ok (page, cursor) =>
      { s with cursor := Function.update s.cursor process cursor, after := page.nextSeq, got := s.got ++ page.items }

/-- A crash leaves no whole step without its newline. -/
def Torn (s : St β ι) : Ev ι → Prop
  | .crash => tail f.newline s.file = [] ∨ f.decode (tail f.newline s.file) = none
  | _ => True

/-! ## A file that grows -/

variable {f}

theorem steps_append (file more : List β) :
    steps f (file ++ more) = steps f file ++ (Lines.split f.newline (tail f.newline file) more).1.filterMap f.decode := by
  rw [steps, Lines.lines_append, List.filterMap_append]
  rfl

/-- Bytes within a line complete none. -/
theorem steps_within {file more : List β} (h : f.newline ∉ more) : steps f (file ++ more) = steps f file := by
  rw [steps_append, Lines.split_within h, List.filterMap_nil, List.append_nil]

/-- A newline completes the tail. -/
theorem steps_newline (file more : List β) (h : f.newline ∉ more) :
    steps f (file ++ (more ++ [f.newline])) = steps f file ++ (f.decode (tail f.newline file ++ more)).toList := by
  rw [steps_append, Lines.split_line h]
  cases hd : f.decode (tail f.newline file ++ more) with
  | none => simp [Lines.split, hd]
  | some step => simp [Lines.split, hd]

/-! ## One read -/

/-- The steps a reader asks for. -/
def later (file : List β) (after : Nat) : List (Step ι) := (steps f file).filter fun step => after < step.1

omit [DecidableEq β] in
theorem scan_spec (after limit : Nat) (ls : List (List β)) (position count : Nat) :
    (scan f after limit ls position count).1.map (·.1) =
        ((ls.filterMap f.decode).filter fun step => after < step.1).take (limit - count) ∧
      (scan f after limit ls position count).2 =
        decide (limit - count < ((ls.filterMap f.decode).filter fun step => after < step.1).length) := by
  induction ls generalizing position count with
  | nil => simp [scan]
  | cons line ls ih =>
    rw [scan]
    cases hd : f.decode line with
    | none =>
      rw [List.filterMap_cons_none hd]
      exact ih _ _
    | some step =>
      rw [List.filterMap_cons_some hd]
      by_cases hafter : step.1 ≤ after
      · rw [List.filter_cons_of_neg (by simpa using hafter)]
        simp only [hafter, if_true]
        exact ih _ _
      · rw [List.filter_cons_of_pos (by simpa using hafter)]
        simp only [hafter, if_false]
        by_cases hfull : limit ≤ count
        · rw [Nat.sub_eq_zero_of_le hfull]
          simp [hfull]
        · obtain ⟨hitems, hmore⟩ := ih (position + (line.length + 1)) (count + 1)
          have hcount : limit - count = limit - (count + 1) + 1 := by omega
          simp only [hfull, if_false, List.map_cons, hitems, hmore, hcount, List.take_succ_cons, List.length_cons,
            Nat.add_lt_add_iff_right, and_self]

omit [DecidableEq β] in
/-- Where an item of the page ends. -/
theorem scan_position {after limit : Nat} {ls : List (List β)} {position count : Nat} {x : Step ι × Nat}
    (h : x ∈ (scan f after limit ls position count).1) :
    ∃ j line, ls[j]? = some line ∧ f.decode line = some x.1 ∧ x.2 = position + width (ls.take (j + 1)) := by
  induction ls generalizing position count with
  | nil => simp [scan] at h
  | cons line ls ih =>
    -- an item behind the first line
    have hbehind : ∀ {count}, x ∈ (scan f after limit ls (position + (line.length + 1)) count).1 →
        ∃ j line', (line :: ls)[j]? = some line' ∧ f.decode line' = some x.1 ∧
          x.2 = position + width ((line :: ls).take (j + 1)) := by
      intro count hx
      obtain ⟨j, line', hline, hstep, hpos⟩ := ih hx
      refine ⟨j + 1, line', hline, hstep, ?_⟩
      rw [hpos, List.take_succ_cons, width, width, List.map_cons, List.sum_cons]
      omega
    rw [scan] at h
    cases hd : f.decode line with
    | none =>
      rw [hd] at h
      exact hbehind h
    | some step =>
      rw [hd] at h
      by_cases hafter : step.1 ≤ after
      · simp only [hafter, if_true] at h
        exact hbehind h
      · simp only [hafter, if_false] at h
        by_cases hfull : limit ≤ count
        · simp [hfull] at h
        · simp only [hfull, if_false] at h
          rcases List.mem_cons.mp h with rfl | h
          · refine ⟨0, line, rfl, hd, ?_⟩
            simp [width]
          · exact hbehind h

/-- A cursor stands behind a line, and no step up to there has a higher number. -/
def CursorOk (f : Format β ι) (file : List β) (cursor : Nat × Nat) : Prop :=
  ∃ k ≤ (lines f.newline file).length, cursor.2 = width ((lines f.newline file).take k) ∧
    ∀ step ∈ ((lines f.newline file).take k).filterMap f.decode, step.1 ≤ cursor.1

variable {file : List β}

theorem CursorOk.append {cursor : Nat × Nat} (h : CursorOk f file cursor) (more : List β) :
    CursorOk f (file ++ more) cursor := by
  obtain ⟨k, hk, hoffset, hsteps⟩ := h
  have htake : (lines f.newline (file ++ more)).take k = (lines f.newline file).take k := by
    rw [Lines.lines_append, List.take_append_of_le_length hk]
  refine ⟨k, ?_, by rw [htake, hoffset], by rwa [htake]⟩
  rw [Lines.lines_append, List.length_append]
  omega

/-- Where a read starts: nothing in front of it is asked for. -/
theorem startOf_spec {cached : Option (Nat × Nat)} (h : ∀ c, cached = some c → CursorOk f file c) (after : Nat) :
    ∃ k ≤ (lines f.newline file).length, startOf cached after = width ((lines f.newline file).take k) ∧
      ∀ step ∈ ((lines f.newline file).take k).filterMap f.decode, step.1 ≤ after := by
  have hzero : ∃ k ≤ (lines f.newline file).length, 0 = width ((lines f.newline file).take k) ∧
      ∀ step ∈ ((lines f.newline file).take k).filterMap f.decode, step.1 ≤ after :=
    ⟨0, Nat.zero_le _, rfl, List.forall_mem_nil _⟩
  unfold startOf
  split
  · rename_i seq offset
    split
    · rename_i hseq
      obtain ⟨k, hk, hoffset, hsteps⟩ := h _ rfl
      exact ⟨k, hk, hoffset, hseq ▸ hsteps⟩
    · exact hzero
  · exact hzero

theorem later_from {k after : Nat} (h : ∀ step ∈ ((lines f.newline file).take k).filterMap f.decode, step.1 ≤ after) :
    later (f := f) file after = (((lines f.newline file).drop k).filterMap f.decode).filter fun step => after < step.1 := by
  have hsplit : steps f file = ((lines f.newline file).take k).filterMap f.decode ++ ((lines f.newline file).drop k).filterMap f.decode := by
    rw [← List.filterMap_append, List.take_append_drop]
    rfl
  have hnone : (((lines f.newline file).take k).filterMap f.decode).filter (fun step => after < step.1) = [] :=
    List.filter_eq_nil_iff.mpr fun step hin => by simpa using h step hin
  rw [later, hsplit, List.filter_append, hnone, List.nil_append]

def Increasing (xs : List (Step ι)) : Prop := xs.Pairwise fun a b => a.1 < b.1

/-- The position behind a step's line is a cursor for its number. -/
theorem cursor_behind (hsorted : Increasing (steps f file)) {i : Nat} {line : List β} {step : Step ι}
    (hline : (lines f.newline file)[i]? = some line) (hstep : f.decode line = some step) :
    CursorOk f file (step.1, width ((lines f.newline file).take (i + 1))) := by
  obtain ⟨hi, hget⟩ := List.getElem?_eq_some_iff.mp hline
  have htake : (lines f.newline file).take (i + 1) = (lines f.newline file).take i ++ [line] := by
    rw [List.take_add_one, hline]
    rfl
  refine ⟨i + 1, hi, rfl, fun other hother => ?_⟩
  rw [htake, List.filterMap_append, List.filterMap_cons_some hstep] at hother
  rcases List.mem_append.mp hother with hother | hother
  · have hsplit : steps f file = ((lines f.newline file).take i).filterMap f.decode ++
        step :: ((lines f.newline file).drop (i + 1)).filterMap f.decode := by
      rw [← List.filterMap_cons_some hstep, ← List.filterMap_append, ← hget, ← List.drop_eq_getElem_cons hi, List.take_append_drop]
      rfl
    rw [Increasing, hsplit] at hsorted
    exact Nat.le_of_lt ((List.pairwise_append.mp hsorted).2.2 other hother step List.mem_cons_self)
  · rw [List.mem_singleton.mp hother]

structure ReadOk (f : Format β ι) (file : List β) (after limit : Nat) (page : Page ι) : Prop where
  items : page.items = (later (f := f) file after).take limit
  more : page.more = decide (limit < (later (f := f) file after).length)
  nextSeq : page.nextSeq = (page.items.getLast?.map (·.1)).getD after

theorem read_spec (hsorted : Increasing (steps f file)) {cached : Option (Nat × Nat)}
    (hcached : ∀ c, cached = some c → CursorOk f file c) {after limit : Int} (hafter : 0 ≤ after)
    (hlimit : 1 ≤ limit ∧ limit ≤ 1000) :
    ∃ page cursor, readTranscript f file cached after limit = .ok (page, cursor) ∧ ReadOk f file after.toNat limit.toNat page ∧
      ∀ c, cursor = some c → CursorOk f file c := by
  obtain ⟨k, hk, hstart, hbefore⟩ := startOf_spec hcached after.toNat
  have hvalid : ¬ (after < 0 ∨ limit < 1 ∨ 1000 < limit) := by omega
  obtain ⟨hitems, hmore⟩ := scan_spec (f := f) after.toNat limit.toNat ((lines f.newline file).drop k)
    (width ((lines f.newline file).take k)) 0
  rw [Nat.sub_zero, ← later_from hbefore] at hitems hmore
  unfold readTranscript
  rw [if_neg hvalid]
  simp only [hstart, Lines.lines_drop]
  have hposition : ∀ x ∈ (scan f after.toNat limit.toNat ((lines f.newline file).drop k)
      (width ((lines f.newline file).take k)) 0).1, ∃ j line, ((lines f.newline file).drop k)[j]? = some line ∧
        f.decode line = some x.1 ∧
          x.2 = width ((lines f.newline file).take k) + width (((lines f.newline file).drop k).take (j + 1)) :=
    fun x hx => scan_position hx
  generalize scan f after.toNat limit.toNat ((lines f.newline file).drop k) (width ((lines f.newline file).take k)) 0 = found at *
  refine ⟨_, _, rfl, ⟨hitems, hmore, ?_⟩, fun c hc => ?_⟩
  · simp only [List.getLast?_map, Option.map_map]
    rfl
  · cases hlast : found.1.getLast? with
    | none =>
      rw [hlast] at hc
      exact hcached c hc
    | some last =>
      rw [hlast] at hc
      obtain rfl := Option.some.inj hc
      obtain ⟨j, line, hline, hstep, hpos⟩ := hposition _ (List.mem_of_getLast? hlast)
      have hbehind := cursor_behind hsorted ((List.getElem?_drop (i := k) (j := j)).symm.trans hline) hstep
      rw [show k + j + 1 = k + (j + 1) from rfl, List.take_add, Lines.width_append, ← hpos] at hbehind
      exact hbehind

/-! ## The owner -/

/-- What is torn off at the end is no step. -/
def Quiet (f : Format β ι) (file : List β) : Prop := tail f.newline file = [] ∨ f.decode (tail f.newline file) = none

/-- The bytes that are not written yet: behind a torn line, or of the line itself. -/
def Pending (f : Format β ι) (file : List β) (next : Step ι) (rest : List β) : Prop :=
  f.decode (tail f.newline file) = none ∧ rest = f.newline :: (f.encode next ++ [f.newline]) ∨
    ∃ q, tail f.newline file ++ q = f.encode next ∧ rest = q ++ [f.newline]

theorem appended_pending (h : Quiet f file) (next : Step ι) : Pending f file next (appended f file next) := by
  unfold appended
  by_cases htorn : file ≠ [] ∧ file.getLast? ≠ some f.newline
  · rw [if_pos htorn]
    have hne : tail f.newline file ≠ [] := fun hnil => (Lines.tail_eq_nil_iff file).mp hnil htorn
    exact Or.inl ⟨h.resolve_left hne, rfl⟩
  · rw [if_neg htorn]
    exact Or.inr ⟨f.encode next, by rw [(Lines.tail_eq_nil_iff file).mpr htorn, List.nil_append], rfl⟩

/-- A newline behind a torn line adds no step. -/
theorem steps_torn (h : f.decode (tail f.newline file) = none) :
    steps f (file ++ [f.newline]) = steps f file ∧ tail f.newline (file ++ [f.newline]) = [] := by
  have hsteps := steps_newline (f := f) file [] List.not_mem_nil
  rw [List.append_nil, h] at hsteps
  exact ⟨hsteps.trans (List.append_nil _), Lines.tail_newline file [] List.not_mem_nil⟩

theorem pending_write (hf : f.Sound) {next : Step ι} {rest : List β} (h : Pending f file next rest) {n : Nat}
    (hn : n < rest.length) : steps f (file ++ rest.take n) = steps f file ∧ Pending f (file ++ rest.take n) next (rest.drop n) := by
  have hclean := hf.one_line next
  rcases h with ⟨hnone, rfl⟩ | ⟨q, hq, rfl⟩
  · cases n with
    | zero =>
      rw [List.take_zero, List.append_nil, List.drop_zero]
      exact ⟨rfl, Or.inl ⟨hnone, rfl⟩⟩
    | succ n =>
      obtain ⟨hsteps, htail⟩ := steps_torn hnone
      have hle : n ≤ (f.encode next).length := by
        simp only [List.length_cons, List.length_append, List.length_nil] at hn
        omega
      have htake : f.newline ∉ (f.encode next).take n := fun hin => hclean (List.mem_of_mem_take hin)
      have hfile : file ++ (f.newline :: (f.encode next ++ [f.newline])).take (n + 1) =
          (file ++ [f.newline]) ++ (f.encode next).take n := by
        rw [List.take_succ_cons, List.take_append_of_le_length hle, List.append_assoc]
        rfl
      rw [hfile, steps_within htake, hsteps]
      refine ⟨rfl, Or.inr ⟨(f.encode next).drop n, ?_, ?_⟩⟩
      · rw [Lines.tail_within htake, htail, List.nil_append, List.take_append_drop]
      · rw [List.drop_succ_cons, List.drop_append_of_le_length hle]
  · have hqclean : f.newline ∉ q := fun hin => hclean (hq ▸ List.mem_append_right _ hin)
    have hle : n ≤ q.length := by
      simp only [List.length_append, List.length_singleton] at hn
      omega
    have htake : f.newline ∉ q.take n := fun hin => hqclean (List.mem_of_mem_take hin)
    rw [List.take_append_of_le_length hle, List.drop_append_of_le_length hle, steps_within htake]
    refine ⟨rfl, Or.inr ⟨q.drop n, ?_, rfl⟩⟩
    rw [Lines.tail_within htake, List.append_assoc, List.take_append_drop, hq]

theorem pending_finish (hf : f.Sound) {next : Step ι} {rest : List β} (h : Pending f file next rest) :
    steps f (file ++ rest) = steps f file ++ [next] ∧ tail f.newline (file ++ rest) = [] := by
  have hclean := hf.one_line next
  rcases h with ⟨hnone, rfl⟩ | ⟨q, hq, rfl⟩
  · obtain ⟨hsteps, htail⟩ := steps_torn hnone
    have hfile : file ++ f.newline :: (f.encode next ++ [f.newline]) = (file ++ [f.newline]) ++ (f.encode next ++ [f.newline]) := by
      rw [List.append_assoc]
      rfl
    rw [hfile, steps_newline _ _ hclean, hsteps, htail, List.nil_append, hf.decode_encode]
    exact ⟨rfl, Lines.tail_newline _ _ hclean⟩
  · have hqclean : f.newline ∉ q := fun hin => hclean (hq ▸ List.mem_append_right _ hin)
    rw [steps_newline _ _ hqclean, hq, hf.decode_encode]
    exact ⟨rfl, Lines.tail_newline _ _ hqclean⟩

theorem le_lastTranscriptSeq {step : Step ι} (h : step ∈ steps f file) : step.1 ≤ lastTranscriptSeq f file := by
  have hfold : ∀ (xs : List (Step ι)) (n : Nat), n ≤ xs.foldl (fun last step => max last step.1) n ∧
      ∀ x ∈ xs, x.1 ≤ xs.foldl (fun last step => max last step.1) n := by
    intro xs
    induction xs with
    | nil => exact fun n => ⟨le_refl _, List.forall_mem_nil _⟩
    | cons x xs ih =>
      intro n
      obtain ⟨hle, hall⟩ := ih (max n x.1)
      refine ⟨(le_max_left _ _).trans hle, fun y hy => ?_⟩
      rcases List.mem_cons.mp hy with rfl | hy
      · exact (le_max_right _ _).trans hle
      · exact hall y hy
  exact (hfold (steps f file) 0).2 step h

/-! ## The follower -/

/-- What a follower has that asks for the numbers above `after` next. -/
def upTo (xs : List (Step ι)) (after : Nat) : List (Step ι) := xs.filter fun step => step.1 ≤ after

theorem upTo_append {xs : List (Step ι)} (h : Increasing xs) (after : Nat) :
    xs = upTo xs after ++ xs.filter fun step => after < step.1 := by
  induction xs with
  | nil => rfl
  | cons x xs ih =>
    obtain ⟨hx, hxs⟩ := List.pairwise_cons.mp h
    unfold upTo at ih ⊢
    by_cases hle : x.1 ≤ after
    · rw [List.filter_cons_of_pos (by simpa using hle), List.filter_cons_of_neg (by simpa using hle), List.cons_append, ← ih hxs]
    · have hnone : xs.filter (fun step => step.1 ≤ after) = [] :=
        List.filter_eq_nil_iff.mpr fun y hy => by
          have := hx y hy
          simp only [decide_eq_true_eq]
          omega
      have hall : xs.filter (fun step => after < step.1) = xs :=
        List.filter_eq_self.mpr fun y hy => by
          have := hx y hy
          simp only [decide_eq_true_eq]
          omega
      rw [List.filter_cons_of_neg (by simpa using hle), List.filter_cons_of_pos (by simpa using hle), hnone, hall, List.nil_append]

/-- A page follows what the follower has. -/
theorem upTo_page {xs : List (Step ι)} (h : Increasing xs) (after n : Nat) :
    let items := (xs.filter fun step => after < step.1).take n
    let next := (items.getLast?.map (·.1)).getD after
    upTo xs after ++ items = upTo xs next ∧ (next = after ∨ ∃ step ∈ xs, step.1 = next) := by
  intro items next
  cases hlast : items.getLast? with
  | none =>
    have hnext : next = after := by
      show (items.getLast?.map (·.1)).getD after = after
      rw [hlast]
      rfl
    rw [List.getLast?_eq_none_iff.mp hlast, List.append_nil, hnext]
    exact ⟨rfl, Or.inl rfl⟩
  | some last =>
    have hnext : next = last.1 := by
      show (items.getLast?.map (·.1)).getD after = last.1
      rw [hlast]
      rfl
    have hmem : last ∈ items := List.mem_of_getLast? hlast
    obtain ⟨hin, hafter⟩ := List.mem_filter.mp (List.mem_of_mem_take hmem)
    obtain ⟨front, hfront⟩ := List.getLast?_eq_some_iff.mp hlast
    have hsplit : xs = (upTo xs after ++ items) ++ (xs.filter fun step => after < step.1).drop n := by
      rw [List.append_assoc, List.take_append_drop]
      exact upTo_append h after
    have hinc : Increasing ((upTo xs after ++ items) ++ (xs.filter fun step => after < step.1).drop n) := hsplit ▸ h
    obtain ⟨hleft, -, hcross⟩ := List.pairwise_append.mp hinc
    refine ⟨?_, Or.inr ⟨last, hin, hnext.symm⟩⟩
    -- the last item's number parts the steps
    have hbelow : ∀ step ∈ upTo xs after ++ items, step.1 ≤ last.1 := by
      intro step hstep
      rcases List.mem_append.mp hstep with hold | hnew
      · have hle := of_decide_eq_true (List.mem_filter.mp hold).2
        have := of_decide_eq_true hafter
        omega
      · rw [hfront] at hnew
        rcases List.mem_append.mp hnew with hnew | hnew
        · have hitems := (List.pairwise_append.mp hleft).2.1
          rw [hfront] at hitems
          exact Nat.le_of_lt ((List.pairwise_append.mp hitems).2.2 step hnew last (List.mem_singleton_self _))
        · rw [List.mem_singleton.mp hnew]
    have habove : ∀ step ∈ (xs.filter fun step => after < step.1).drop n, ¬ step.1 ≤ last.1 := fun step hstep =>
      Nat.not_le_of_lt (hcross last (List.mem_append_right _ hmem) step hstep)
    have hkept : (upTo xs after ++ items).filter (fun step => decide (step.1 ≤ last.1)) = upTo xs after ++ items :=
      List.filter_eq_self.mpr fun step hstep => decide_eq_true (hbelow step hstep)
    have hcut : ((xs.filter fun step => after < step.1).drop n).filter (fun step => decide (step.1 ≤ last.1)) = [] :=
      List.filter_eq_nil_iff.mpr fun step hstep => by simpa using habove step hstep
    have hfilter := congrArg (List.filter fun step => decide (step.1 ≤ last.1)) hsplit
    rw [List.filter_append, hkept, hcut, List.append_nil] at hfilter
    rw [hnext]
    exact hfilter.symm

/-! ## Runs -/

structure Inv (f : Format β ι) (s : St β ι) : Prop where
  increasing : Increasing (steps f s.file)
  owner : ∀ n, s.ownerSeq = some n → ∀ step ∈ steps f s.file, step.1 ≤ n
  quiet : s.writing = none → Quiet f s.file
  writing : ∀ next rest, s.writing = some (next, rest) →
    Pending f s.file next rest ∧ 1 ≤ next.1 ∧ ∀ step ∈ steps f s.file, step.1 < next.1
  cursors : ∀ process c, s.cursor process = some c → CursorOk f s.file c
  known : s.after = 0 ∨ ∃ step ∈ steps f s.file, step.1 = s.after
  got : s.got = upTo (steps f s.file) s.after

theorem inv_new : Inv f ({} : St β ι) where
  increasing := .nil
  owner := fun _ h => absurd h (by simp)
  quiet := fun _ => Or.inl rfl
  writing := fun _ _ h => absurd h (by simp)
  cursors := fun _ _ h => absurd h (by simp)
  known := Or.inl rfl
  got := rfl

variable {s : St β ι}

theorem append_inv (h : Inv f s) (item : ι) : Inv f (step f s (.append item)) := by
  simp only [step]
  split
  · exact h
  · rename_i hidle
    have hnone : s.writing = none := by simpa using hidle
    refine ⟨h.increasing, h.owner, fun hw => absurd hw (by simp), fun next rest hw => ?_, h.cursors, h.known, h.got⟩
    obtain ⟨rfl, rfl⟩ := Prod.mk.inj (Option.some.inj hw)
    refine ⟨appended_pending (h.quiet hnone) _, Nat.le_add_left _ _, fun st hst => Nat.lt_succ_of_le ?_⟩
    cases howner : s.ownerSeq with
    | none => exact le_lastTranscriptSeq hst
    | some n => exact h.owner n howner st hst

theorem write_inv (hf : f.Sound) (h : Inv f s) (bytes : Nat) : Inv f (step f s (.write bytes)) := by
  simp only [step]
  split
  · exact h
  · rename_i next rest hw
    obtain ⟨hpending, hpos, habove⟩ := h.writing next rest hw
    split
    · exact h
    · rename_i hmore
      obtain ⟨hsteps, hnext⟩ := pending_write hf hpending (Nat.lt_of_not_le hmore)
      refine ⟨hsteps ▸ h.increasing, fun n hn => hsteps ▸ h.owner n hn, fun hnone => absurd hnone (by simp), fun next' rest' hw' => ?_,
        fun p c hc => (h.cursors p c hc).append _, hsteps ▸ h.known, by rw [hsteps]; exact h.got⟩
      obtain ⟨rfl, rfl⟩ := Prod.mk.inj (Option.some.inj hw')
      exact ⟨hnext, hpos, hsteps ▸ habove⟩

theorem finish_inv (hf : f.Sound) (h : Inv f s) : Inv f (step f s .finish) := by
  simp only [step]
  split
  · exact h
  · rename_i next rest hw
    obtain ⟨hpending, hpos, habove⟩ := h.writing next rest hw
    obtain ⟨hsteps, htail⟩ := pending_finish hf hpending
    have hlater : ¬ next.1 ≤ s.after := by
      rcases h.known with hzero | ⟨st, hst, heq⟩
      · omega
      · have := habove st hst
        omega
    refine ⟨?_, fun n hn st hst => ?_, fun _ => Or.inl htail, fun _ _ hnone => absurd hnone (by simp),
      fun p c hc => (h.cursors p c hc).append _, ?_, ?_⟩
    · rw [hsteps]
      exact List.pairwise_append.mpr ⟨h.increasing, List.pairwise_singleton _ _, fun a ha b hb => List.mem_singleton.mp hb ▸ habove a ha⟩
    · obtain rfl := Option.some.inj hn
      rw [hsteps] at hst
      rcases List.mem_append.mp hst with hst | hst
      · exact Nat.le_of_lt (habove st hst)
      · rw [List.mem_singleton.mp hst]
    · rw [hsteps]
      exact h.known.imp_right fun ⟨st, hst, heq⟩ => ⟨st, List.mem_append_left _ hst, heq⟩
    · show s.got = _
      rw [hsteps, h.got, upTo, upTo, List.filter_append, List.filter_cons_of_neg (by simpa using hlater), List.filter_nil,
        List.append_nil]

theorem cursor_inv (h : Inv f s) {process : Nat} {cursor : Option (Nat × Nat)}
    (hcursor : ∀ c, cursor = some c → CursorOk f s.file c) :
    ∀ p c, Function.update s.cursor process cursor p = some c → CursorOk f s.file c := by
  intro p c hc
  by_cases hp : p = process
  · rw [hp, Function.update_self] at hc
    exact hcursor c hc
  · rw [Function.update_of_ne hp] at hc
    exact h.cursors p c hc

/-- A request that is no range raises. -/
theorem read_cases (h : Inv f s) (process : Nat) (after limit : Int) :
    readTranscript f s.file (s.cursor process) after limit = .error "Invalid transcript range" ∨
      ∃ page cursor, readTranscript f s.file (s.cursor process) after limit = .ok (page, cursor) ∧
        ReadOk f s.file after.toNat limit.toNat page ∧ ∀ c, cursor = some c → CursorOk f s.file c := by
  by_cases hvalid : after < 0 ∨ limit < 1 ∨ 1000 < limit
  · exact Or.inl (if_pos hvalid)
  · exact Or.inr (read_spec h.increasing (h.cursors process) (by omega) (by omega))

theorem step_inv (hf : f.Sound) (h : Inv f s) {e : Ev ι} (he : Torn f s e) : Inv f (step f s e) := by
  cases e with
  | append item => exact append_inv h item
  | write bytes => exact write_inv hf h bytes
  | finish => exact finish_inv hf h
  | crash =>
    exact ⟨h.increasing, fun _ hn => absurd hn (by simp [step]), fun _ => he, fun _ _ hw => absurd hw (by simp [step]), h.cursors,
      h.known, h.got⟩
  | read process after limit =>
    rcases read_cases h process after limit with herror | ⟨page, cursor, hread, -, hcursor⟩
    · simp only [step, herror]
      exact h
    · simp only [step, hread]
      exact ⟨h.increasing, h.owner, h.quiet, h.writing, cursor_inv h hcursor, h.known, h.got⟩
  | follow process limit =>
    rcases read_cases h process s.after limit with herror | ⟨page, cursor, hread, hok, hcursor⟩
    · simp only [step, herror]
      exact h
    · simp only [step, hread]
      have hpage := upTo_page h.increasing s.after limit.toNat
      have hitems : page.items = ((steps f s.file).filter fun step => s.after < step.1).take limit.toNat := hok.items
      have hnext : page.nextSeq = (page.items.getLast?.map (·.1)).getD s.after := hok.nextSeq
      simp only [← hitems, ← hnext] at hpage
      refine ⟨h.increasing, h.owner, h.quiet, h.writing, cursor_inv h hcursor, ?_, ?_⟩
      · rcases hpage.2 with hsame | hstep
        · rw [hsame]
          exact h.known
        · exact Or.inr hstep
      · rw [h.got]
        exact hpage.1

/-- What the follower has are the first steps; the rest is still to come. -/
theorem Inv.split (h : Inv f s) : steps f s.file = s.got ++ later (f := f) s.file s.after := by
  rw [h.got]
  exact upTo_append h.increasing s.after

def Valid (limit : Int) : Prop := 1 ≤ limit ∧ limit ≤ 1000

/-- A request brings something, unless there is nothing left. -/
theorem follow_gains (h : Inv f s) (process : Nat) {limit : Int} (hlimit : Valid limit) :
    (step f s (.follow process limit)).file = s.file ∧
      min (steps f s.file).length (s.got.length + 1) ≤ (step f s (.follow process limit)).got.length := by
  obtain ⟨page, cursor, hread, hok, -⟩ := read_spec h.increasing (h.cursors process) (Int.natCast_nonneg s.after) hlimit
  have hlength := congrArg List.length h.split
  have hitems : page.items.length = min limit.toNat (later (f := f) s.file s.after).length := by
    rw [hok.items, List.length_take]
    rfl
  obtain ⟨hlow, -⟩ := hlimit
  rw [List.length_append] at hlength
  simp only [step, hread, List.length_append]
  exact ⟨trivial, by omega⟩

theorem follow_all (hf : f.Sound) (h : Inv f s) {requests : List (Nat × Int)} (hvalid : ∀ r ∈ requests, Valid r.2) :
    ((requests.map fun r => Ev.follow r.1 r.2).foldl (step f) s).file = s.file ∧
      Inv f ((requests.map fun r => Ev.follow r.1 r.2).foldl (step f) s) ∧
      min (steps f s.file).length (s.got.length + requests.length) ≤
        ((requests.map fun r => Ev.follow r.1 r.2).foldl (step f) s).got.length := by
  induction requests generalizing s with
  | nil => exact ⟨rfl, h, Nat.min_le_right _ _⟩
  | cons r requests ih =>
    obtain ⟨hfile, hgain⟩ := follow_gains h r.1 (hvalid r List.mem_cons_self)
    obtain ⟨hfile', hinv, hrest⟩ := ih (step_inv hf h (e := .follow r.1 r.2) trivial) fun x hx => hvalid x (List.mem_cons_of_mem _ hx)
    rw [hfile] at hfile' hrest
    rw [List.map_cons, List.foldl_cons, List.length_cons]
    exact ⟨hfile', hinv, by omega⟩

/-- What every reader gets. -/
structure Correct (f : Format β ι) (s : St β ι) : Prop where
  reads : ∀ (process : Nat) (after limit : Int), 0 ≤ after → Valid limit → ∃ page cursor,
    readTranscript f s.file (s.cursor process) after limit = .ok (page, cursor) ∧ ReadOk f s.file after.toNat limit.toNat page
  increasing : Increasing (steps f s.file)
  /-- The follower has each of the first steps once. -/
  followed : s.got <+: steps f s.file
  /-- On a page without more it is done. -/
  last : ∀ (process : Nat) (limit : Int) (page : Page ι) (cursor : Option (Nat × Nat)),
    readTranscript f s.file (s.cursor process) s.after limit = .ok (page, cursor) → page.more = false →
      s.got ++ page.items = steps f s.file
  /-- It is done after as many requests as there are steps. -/
  all : ∀ requests : List (Nat × Int), (∀ r ∈ requests, Valid r.2) → (steps f s.file).length ≤ requests.length →
    ((requests.map fun r => Ev.follow r.1 r.2).foldl (step f) s).got = steps f s.file

theorem Inv.correct (hf : f.Sound) (h : Inv f s) : Correct f s := by
  refine ⟨fun process after limit hafter hlimit => ?_, h.increasing, h.split ▸ List.prefix_append _ _,
    fun process limit page cursor hread hmore => ?_, fun requests hvalid henough => ?_⟩
  · obtain ⟨page, cursor, hread, hok, -⟩ := read_spec h.increasing (h.cursors process) hafter hlimit
    exact ⟨page, cursor, hread, hok⟩
  · rcases read_cases h process s.after limit with herror | ⟨page', cursor', hread', hok, -⟩
    · rw [hread] at herror
      cases herror
    · rw [hread] at hread'
      obtain ⟨rfl, rfl⟩ := Prod.mk.inj (Except.ok.inj hread')
      have hfew : (later (f := f) s.file s.after).length ≤ limit.toNat := by
        have := hok.more.symm.trans hmore
        simpa using this
      have hitems : page.items = later (f := f) s.file s.after := hok.items.trans (List.take_of_length_le hfew)
      rw [hitems]
      exact h.split.symm
  · obtain ⟨hfile, hinv, hlong⟩ := follow_all hf h hvalid
    have hsplit := hinv.split
    rw [hfile] at hsplit
    have hprefix : _ <+: steps f s.file := hsplit ▸ List.prefix_append _ _
    exact hprefix.eq_of_length_le (by omega)

/-- Where no crash leaves a whole step without its newline, the cursor changes no answer,
    and following `nextSeq` gives each step once. -/
theorem reads_agree (hf : f.Sound) {s : St β ι} (h : Reach (step f) (Torn f) {} s) : Correct f s :=
  (h.invariant (P := Inv f) inv_new fun _ _ hs he => step_inv hf hs he).correct hf

namespace Sample

def opening : List Char := "\x7b\"seq\": ".toList

theorem opening_spec : opening.length = 8 ∧ '\n' ∉ opening := by decide

def line (n : Nat) : List Char := opening ++ ((Nat.digits 10 n).reverse.map Nat.digitChar ++ ['}'])

def number (l : List Char) : Nat := Nat.ofDigits 10 ((l.drop 8).dropLast.reverse.map fun c => c.toNat - 48)

def parse (l : List Char) : Option (Step Unit) := if line (number l) = l then some (number l, ()) else none

def json : Format Char Unit where
  newline := '\n'
  encode st := line st.1
  decode := parse

theorem digit_back : ∀ d < 10, (Nat.digitChar d).toNat - 48 = d ∧ Nat.digitChar d ≠ '\n' := by decide

theorem number_line (n : Nat) : number (line n) = n := by
  have hdigits : ((line n).drop 8).dropLast = (Nat.digits 10 n).reverse.map Nat.digitChar := by
    rw [line, List.drop_left' opening_spec.1, List.dropLast_concat]
  rw [number, hdigits, ← List.map_reverse, List.reverse_reverse, List.map_map]
  have hback : (Nat.digits 10 n).map ((fun c => c.toNat - 48) ∘ Nat.digitChar) = Nat.digits 10 n := by
    conv_rhs => rw [← List.map_id (Nat.digits 10 n)]
    exact List.map_congr_left fun d hd => (digit_back d (Nat.digits_lt_base (by decide) hd)).1
  rw [hback, Nat.ofDigits_digits]

theorem parse_line (n : Nat) : parse (line n) = some (n, ()) := by
  rw [parse, number_line, if_pos rfl]

theorem newline_line (n : Nat) : '\n' ∉ line n := by
  have hdigits : '\n' ∉ (Nat.digits 10 n).reverse.map Nat.digitChar := by
    intro hin
    obtain ⟨d, hd, heq⟩ := List.mem_map.mp hin
    exact (digit_back d (Nat.digits_lt_base (by decide) (List.mem_reverse.mp hd))).2 heq
  rw [line, List.mem_append, List.mem_append]
  rintro (hin | hin | hin)
  · exact opening_spec.2 hin
  · exact hdigits hin
  · cases List.mem_singleton.mp hin

theorem json_encode (st : Step Unit) : json.encode st = line st.1 := rfl
theorem json_decode (l : List Char) : json.decode l = parse l := rfl

theorem json_sound : json.Sound := by
  refine ⟨fun st => ?_, fun st => ?_⟩
  · rw [json_encode, json_decode, parse_line]
  · rw [json_encode]
    exact newline_line st.1

/-- A step, the owner dies in the next one, and the step again. -/
def resumed : List (Ev Unit) := [.append (), .finish, .append (), .write 4, .crash, .append (), .finish, .follow 0 2]

theorem resumed_correct : Correct json (resumed.foldl (step json) {}) := by
  refine reads_agree json_sound (Reach.foldl resumed _ .start ⟨trivial, trivial, trivial, trivial, Or.inr ?_, trivial, trivial,
    trivial, trivial⟩)
  decide

/-- The owner dies with only the newline of its second step to write. -/
def unended : List (Ev Unit) := [.append (), .finish, .append (), .write 10, .crash, .append (), .finish, .follow 0 2]

/-- Two steps have one number, and a follower never gets the second. -/
theorem whole_step_torn :
    let s := unended.foldl (step json) {}
    steps json s.file = [(1, ()), (2, ()), (2, ())] ∧ s.got = [(1, ()), (2, ())] ∧ s.after = 2 ∧
      (readTranscript json s.file (s.cursor 0) s.after 200).map (·.1) = .ok { items := [], nextSeq := 2, more := false } := by
  decide

end Sample

end Flowly.Agent.RunTranscript
