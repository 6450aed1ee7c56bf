/-
  Flowly.Memory.Chunks — a memory dump in chunks that fit a request
  (`flowly/memory/importer.py`: `chunk_dump`, `_split_oversized_block`).

  Paragraphs are packed into chunks, and the lines of a paragraph that is too long into pieces;
  a line that is too long is cut. Both pack in the same way and differ in what they join with
  (`Pack.add`). `used` may count one separator too many after a flush, never one too few.

  Proved (`chunkDump_ok`): for every text and every size from 1, no chunk is longer than the
  size, and what is not white space is in the chunks as it is in the text.
-/

import Flowly.Lib.Paragraphs
import Mathlib.Data.List.Range

namespace Flowly.Memory.Importer

open Flowly.Lib Flowly.Lib.Text

/-! ## Packing -/

structure Pack where
  out : List Text := []
  cur : List Text := []
  used : Nat := 0

namespace Pack

variable (sep : Text) (maxChars : Nat)

def flush (p : Pack) : Pack :=
  if p.cur = [] then p else { out := p.out ++ [Text.strip (join sep p.cur)] }

def add (p : Pack) (piece : Text) : Pack :=
  let extra := piece.length + if p.cur = [] then 0 else sep.length
  let p := if p.cur ≠ [] ∧ maxChars < p.used + extra then p.flush sep else p
  { p with cur := p.cur ++ [piece], used := p.used + extra }

end Pack

/-- `line[i : i + max_chars]` for `i` in `range(0, len(line), max_chars)`. -/
def cuts (maxChars : Nat) (line : Text) : List Text :=
  (List.range ((line.length + maxChars - 1) / maxChars)).map fun i => (line.drop (i * maxChars)).take maxChars

def addLine (maxChars : Nat) (p : Pack) (line : Text) : Pack :=
  let line := rstrip line
  if maxChars < line.length then
    let p := p.flush ['\n']
    { p with out := p.out ++ (cuts maxChars line).map Text.strip }
  else p.add ['\n'] maxChars line

def splitOversizedBlock (text : Text) (maxChars : Nat) : List Text :=
  if text.length ≤ maxChars then [text]
  else (((splitLines text).foldl (addLine maxChars) {}).flush ['\n']).out.filter fun p => p ≠ []

def chunkDump (text : Text) (maxChars : Nat) : List Text :=
  let text := Text.strip text
  if text = [] then []
  else if text.length ≤ maxChars then [text]
  else
    let pieces := (paragraphs text).flatMap fun para => splitOversizedBlock para maxChars
    ((pieces.foldl (Pack.add ['\n', '\n'] maxChars) {}).flush ['\n', '\n']).out

/-! ## What is not white space -/

theorem solid_singleton {c : Char} (hc : isSpace c = true) : solid [c] = [] :=
  solid_of_space fun d hd => by rwa [List.mem_singleton.1 hd]

theorem solid_rstrip (t : Text) : solid (rstrip t) = solid t := by
  induction t using List.reverseRecOn with
  | nil => rfl
  | append_singleton t c ih =>
    rw [rstrip_eq]
    by_cases hc : isSpace c = true
    · rw [List.rdropWhile_concat_pos _ _ _ hc, solid_append, solid_singleton hc, List.append_nil]
      exact ih
    · rw [List.rdropWhile_concat_neg _ _ _ hc]

theorem solid_strip (t : Text) : solid (Text.strip t) = solid t := by
  have hfront : solid (lstrip t) = solid t := by
    have hsplit : t.takeWhile isSpace ++ lstrip t = t := List.takeWhile_append_dropWhile
    conv_rhs => rw [← hsplit]
    rw [solid_append, solid_of_space fun c hc => List.mem_takeWhile_imp hc]
    rfl
  rw [Text.strip, solid_rstrip, hfront]

theorem join_concat (sep : Text) (l : List Text) (x : Text) :
    join sep (l ++ [x]) = if l = [] then x else join sep l ++ (sep ++ x) := by
  induction l with
  | nil => simp [join]
  | cons y l ih =>
    cases l with
    | nil => simp [join, List.intercalate_cons_cons]
    | cons z l =>
      rw [if_neg (List.cons_ne_nil _ _)] at ih ⊢
      simp only [join, List.cons_append, List.intercalate_cons_cons] at ih ⊢
      rw [ih]
      simp only [List.append_assoc]

theorem solid_join {sep : Text} (hsep : ∀ c ∈ sep, isSpace c = true) (l : List Text) : solid (join sep l) = l.flatMap solid := by
  induction l using List.reverseRecOn with
  | nil => rfl
  | append_singleton l x ih =>
    rw [join_concat, List.flatMap_append, ← ih]
    split
    · next h => simp [h, join, solid]
    · simp [solid_append, solid_of_space hsep]

theorem isSpace_of_isLineEnd {c : Char} (h : isLineEnd c = true) : isSpace c = true := by
  simp only [isLineEnd, isSpace, Bool.or_eq_true, Bool.and_eq_true, decide_eq_true_eq, beq_iff_eq] at h ⊢
  omega

theorem solid_splitLines (t : Text) : (splitLines t).flatMap solid = solid t := by
  have h : ∀ line t, (splitLinesFrom line t).flatMap solid = solid line ++ solid t := by
    intro line t
    fun_induction splitLinesFrom line t with
    | case1 => rfl
    | case2 line hne => simp [solid]
    | case3 line t ih => rw [List.flatMap_cons, ih]; rfl
    | case4 line c t _ hend ih =>
      have hcons : solid (c :: t) = solid [c] ++ solid t := solid_append [c] t
      rw [List.flatMap_cons, ih, hcons, solid_singleton (isSpace_of_isLineEnd hend)]
      rfl
    | case5 line c t _ _ ih => rw [ih, solid_append, List.append_assoc, ← solid_append, List.singleton_append]
  exact h [] t

theorem flatten_cuts {maxChars : Nat} (h : 1 ≤ maxChars) (line : Text) : (cuts maxChars line).flatten = line := by
  have hrange (k : Nat) : ((List.range k).map fun i => (line.drop (i * maxChars)).take maxChars).flatten = line.take (k * maxChars) := by
    induction k with
    | zero => simp
    | succ k ih =>
      rw [List.range_succ, List.map_append, List.flatten_append, ih, Nat.succ_mul, List.take_add]
      simp
  rw [cuts, hrange, List.take_of_length_le]
  have hdiv := Nat.div_add_mod (line.length + maxChars - 1) maxChars
  have hmod := Nat.mod_lt (line.length + maxChars - 1) h
  rw [Nat.mul_comm]
  omega

theorem flatMap_solid_strip (ts : List Text) : (ts.map Text.strip).flatMap solid = ts.flatMap solid := by
  induction ts with
  | nil => rfl
  | cons t ts ih => rw [List.map_cons, List.flatMap_cons, List.flatMap_cons, ih, solid_strip]

theorem flatMap_solid (ts : List Text) : ts.flatMap solid = solid ts.flatten := by
  induction ts with
  | nil => rfl
  | cons t ts ih => rw [List.flatMap_cons, List.flatten_cons, solid_append, ih]

/-! ## What a pack keeps -/

/-- No piece is too long, the length is not counted too low, and what is in it is `fed`. -/
structure Packs (sep : Text) (maxChars : Nat) (p : Pack) (fed : Text) : Prop where
  out_le : ∀ o ∈ p.out, o.length ≤ maxChars
  cur_le : (join sep p.cur).length ≤ maxChars
  le_used : (join sep p.cur).length ≤ p.used
  solid_eq : (p.out ++ p.cur).flatMap solid = fed

section Pack

variable {sep : Text} {maxChars : Nat} {p : Pack} {fed : Text}

theorem Packs.empty : Packs sep maxChars {} [] :=
  ⟨by simp, by simp [join], by simp [join], rfl⟩

theorem Packs.flush (hsep : ∀ c ∈ sep, isSpace c = true) (h : Packs sep maxChars p fed) :
    Packs sep maxChars (p.flush sep) fed ∧ (p.flush sep).cur = [] := by
  unfold Pack.flush
  split
  · next hnil => exact ⟨h, hnil⟩
  · refine ⟨⟨?_, by simp [join], by simp [join], ?_⟩, rfl⟩
    · intro o ho
      rcases List.mem_append.1 ho with ho | ho
      · exact h.out_le o ho
      · obtain rfl := List.mem_singleton.1 ho
        exact (length_strip_le _).trans h.cur_le
    · rw [← h.solid_eq, List.append_nil, List.flatMap_append, List.flatMap_append]
      simp only [List.flatMap_cons, List.flatMap_nil, List.append_nil, solid_strip, solid_join hsep]

theorem Packs.add (hsep : ∀ c ∈ sep, isSpace c = true) (h : Packs sep maxChars p fed) {piece : Text} (hpiece : piece.length ≤ maxChars) :
    Packs sep maxChars (p.add sep maxChars piece) (fed ++ solid piece) := by
  unfold Pack.add
  dsimp only
  generalize hextra : (piece.length + if p.cur = [] then 0 else sep.length) = extra
  split
  · next hfull =>
    -- the new one is alone, its separator counted as if it were not
    obtain ⟨hflush, hcur⟩ := h.flush hsep
    refine ⟨hflush.out_le, ?_, ?_, ?_⟩
    · simpa [hcur, join] using hpiece
    · simp only [hcur, join, List.nil_append, List.intercalate_singleton]
      omega
    · rw [← List.append_assoc, List.flatMap_append, hflush.solid_eq]
      simp
  · next hfits =>
    have hlen : (join sep (p.cur ++ [piece])).length = (join sep p.cur).length + extra := by
      rw [join_concat, ← hextra]
      split
      · next hnil => simp [hnil, join]
      · rw [List.length_append, List.length_append]
        omega
    have hle := h.le_used
    refine ⟨h.out_le, ?_, ?_, ?_⟩
    · by_cases hnil : p.cur = []
      · simpa [hnil, join] using hpiece
      · have hroom : p.used + extra ≤ maxChars := by
          by_contra hlt
          exact hfits ⟨hnil, by omega⟩
        rw [hlen]
        omega
    · rw [hlen]
      exact Nat.add_le_add_right hle extra
    · rw [← List.append_assoc, List.flatMap_append, h.solid_eq]
      simp

end Pack

theorem newline_space : ∀ c ∈ ['\n'], isSpace c = true := List.forall_mem_singleton.2 rfl

theorem blank_space : ∀ c ∈ ['\n', '\n'], isSpace c = true := List.forall_mem_cons.2 ⟨rfl, newline_space⟩

theorem Packs.addLine {maxChars : Nat} (hmax : 1 ≤ maxChars) {p : Pack} {fed : Text} (h : Packs ['\n'] maxChars p fed) (line : Text) :
    Packs ['\n'] maxChars (addLine maxChars p line) (fed ++ solid line) := by
  unfold Importer.addLine
  dsimp only
  rw [← solid_rstrip line]
  split
  · obtain ⟨hflush, hcur⟩ := h.flush newline_space
    refine ⟨?_, hflush.cur_le, hflush.le_used, ?_⟩
    · intro o ho
      rcases List.mem_append.1 ho with ho | ho
      · exact hflush.out_le o ho
      · obtain ⟨q, hq, rfl⟩ := List.mem_map.1 ho
        obtain ⟨i, -, rfl⟩ := List.mem_map.1 hq
        exact (length_strip_le _).trans (List.length_take_le _ _)
    · have hfed := hflush.solid_eq
      rw [hcur, List.append_nil] at hfed ⊢
      rw [List.flatMap_append, hfed, flatMap_solid_strip, flatMap_solid, flatten_cuts hmax]
  · next hle => exact h.add newline_space (Nat.le_of_not_lt hle)

/-- Packing all of a list. -/
theorem Packs.foldl {sep : Text} {maxChars : Nat} {add : Pack → Text → Pack} {pieces : List Text}
    (hadd : ∀ p fed, Packs sep maxChars p fed → ∀ piece ∈ pieces, Packs sep maxChars (add p piece) (fed ++ solid piece)) :
    ∀ {p fed}, Packs sep maxChars p fed → Packs sep maxChars (pieces.foldl add p) (fed ++ pieces.flatMap solid) := by
  induction pieces with
  | nil =>
    intro p fed h
    simpa using h
  | cons piece pieces ih =>
    intro p fed h
    have hstep := hadd p fed h piece List.mem_cons_self
    have hrest := ih (fun p fed hp q hq => hadd p fed hp q (List.mem_cons_of_mem _ hq)) hstep
    simpa using hrest

theorem flatMap_solid_filter (ts : List Text) : (ts.filter fun p => p ≠ []).flatMap solid = ts.flatMap solid := by
  induction ts with
  | nil => rfl
  | cons t ts ih =>
    rw [List.filter_cons, List.flatMap_cons, ← ih]
    split
    · rfl
    · next h =>
      obtain rfl : t = [] := by simpa using h
      rfl

theorem splitOversizedBlock_ok {maxChars : Nat} (hmax : 1 ≤ maxChars) (text : Text) :
    (∀ p ∈ splitOversizedBlock text maxChars, p.length ≤ maxChars) ∧ (splitOversizedBlock text maxChars).flatMap solid = solid text := by
  unfold splitOversizedBlock
  split
  · next hle => exact ⟨by simpa using hle, by simp⟩
  · have hlines : Packs ['\n'] maxChars ((splitLines text).foldl (addLine maxChars) {}) ([] ++ (splitLines text).flatMap solid) :=
      Packs.foldl (fun _ _ h line _ => h.addLine hmax line) Packs.empty
    obtain ⟨hflush, hcur⟩ := hlines.flush newline_space
    refine ⟨fun p hp => hflush.out_le p (List.mem_filter.1 hp).1, ?_⟩
    have hfed := hflush.solid_eq
    rw [hcur, List.append_nil, solid_splitLines, List.nil_append] at hfed
    rw [flatMap_solid_filter, hfed]

theorem solid_paragraphs (t : Text) : (paragraphs t).flatMap solid = solid t := by
  rw [paragraphs, flatMap_solid_filter, flatMap_solid_strip, solid_splitBlank]

/-- No chunk is too long, and nothing but white space is lost or added. -/
theorem chunkDump_ok (text : Text) {maxChars : Nat} (hmax : 1 ≤ maxChars) :
    (∀ c ∈ chunkDump text maxChars, c.length ≤ maxChars) ∧ (chunkDump text maxChars).flatMap solid = solid text := by
  unfold chunkDump
  dsimp only
  split
  · next hnil =>
    refine ⟨by simp, ?_⟩
    rw [← solid_strip, hnil]
    rfl
  · split
    · next hle => exact ⟨by simpa using hle, by simp [solid_strip]⟩
    · have hpieces : ∀ piece ∈ (paragraphs (Text.strip text)).flatMap fun para => splitOversizedBlock para maxChars,
          piece.length ≤ maxChars := by
        intro piece hmem
        obtain ⟨para, -, hpiece⟩ := List.mem_flatMap.1 hmem
        exact (splitOversizedBlock_ok hmax para).1 piece hpiece
      have hall := Packs.foldl (fun _ _ h piece hmem => Packs.add blank_space h (hpieces piece hmem)) Packs.empty
      obtain ⟨hflush, hcur⟩ := hall.flush blank_space
      refine ⟨hflush.out_le, ?_⟩
      have hfed := hflush.solid_eq
      rw [hcur, List.append_nil, List.nil_append, List.flatMap_assoc] at hfed
      simp only [(splitOversizedBlock_ok hmax _).2] at hfed
      rw [hfed, solid_paragraphs, solid_strip]

end Flowly.Memory.Importer
