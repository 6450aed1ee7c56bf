/-
  Flowly.Lib.Utf8 — `bytes.decode("utf-8", errors="replace")`, one byte at a time, and what
  becomes of a text whose bytes are decoded in chunks.

  Each well-formed sequence gives its character and each longest beginning of one U+FFFD. A cut
  between two bytes of a sequence that would have gone on turns every byte after it into one of
  its own, so a chunk-wise text has one character more for each such byte (`Piece.parts`).

  Proved (`rtake_parts_iff`): exactly when the end of the text does not show the cuts.
-/

import Flowly.Lib.Text

namespace Flowly.Lib.Utf8

def REPLACEMENT : Char := Char.ofNat 0xFFFD

/-- A sequence that is not complete: what its next byte may be, and how many follow that one. -/
structure Begun where
  low : Nat
  high : Nat
  owed : Nat
  code : Nat
  le_low : 0x80 ≤ low
  high_le : high ≤ 0xBF

namespace Begun

def more (owed code : Nat) : Begun := ⟨0x80, 0xBF, owed, code, by omega, by omega⟩

def takes (p : Begun) (b : UInt8) : Bool := p.low ≤ b.toNat && b.toNat ≤ p.high

def code' (p : Begun) (b : UInt8) : Nat := p.code * 64 + (b.toNat - 0x80)

def feed (p : Begun) (b : UInt8) : Text × Option Begun :=
  match p.owed with
  | 0 => ([Char.ofNat (p.code' b)], none)
  | owed + 1 => ([], some (more owed (p.code' b)))

end Begun

def first (b : UInt8) : Text × Option Begun :=
  let n := b.toNat
  if n < 0x80 then ([Char.ofNat n], none)
  else if n < 0xC2 then ([REPLACEMENT], none)
  else if n < 0xE0 then ([], some (.more 0 (n - 0xC0)))
  else if n < 0xF0 then
    ([], some ⟨if n = 0xE0 then 0xA0 else 0x80, if n = 0xED then 0x9F else 0xBF, 1, n - 0xE0,
      by split <;> omega, by split <;> omega⟩)
  else if n < 0xF5 then
    ([], some ⟨if n = 0xF0 then 0x90 else 0x80, if n = 0xF4 then 0x8F else 0xBF, 2, n - 0xF0,
      by split <;> omega, by split <;> omega⟩)
  else ([REPLACEMENT], none)

def step (st : Option Begun) (b : UInt8) : Text × Option Begun :=
  match st with
  | none => first b
  | some p => if p.takes b then p.feed b else (REPLACEMENT :: (first b).1, (first b).2)

def flush : Option Begun → Text
  | none => []
  | some _ => [REPLACEMENT]

def decodeFrom : Option Begun → List UInt8 → Text
  | st, [] => flush st
  | st, b :: bs => (step st b).1 ++ decodeFrom (step st b).2 bs

def decode (bs : List UInt8) : Text := decodeFrom none bs

/-! ## Chunks -/

def marked (chunks : List (List UInt8)) : List (Bool × UInt8) :=
  chunks.flatMap fun
    | [] => []
    | b :: bs => (true, b) :: bs.map (false, ·)

/-- A character of the whole text, and how many of its bytes come after the first cut in it. -/
structure Piece where
  char : Char
  rest : Nat

/-- What the chunks make of it. -/
def Piece.parts (x : Piece) : Text := if x.rest = 0 then [x.char] else List.replicate (x.rest + 1) REPLACEMENT

def pieceStep (st : Option (Begun × Nat)) (cut : Bool) (b : UInt8) : List Piece × Option (Begun × Nat) :=
  match st with
  | none => ((first b).1.map (⟨·, 0⟩), (first b).2.map (·, 0))
  | some (p, rest) =>
    if p.takes b then
      let rest := if cut || rest ≠ 0 then rest + 1 else 0
      ((p.feed b).1.map (⟨·, rest⟩), (p.feed b).2.map (·, rest))
    else (⟨REPLACEMENT, rest⟩ :: (first b).1.map (⟨·, 0⟩), (first b).2.map (·, 0))

def pieces : Option (Begun × Nat) → List (Bool × UInt8) → List Piece
  | none, [] => []
  | some (_, rest), [] => [⟨REPLACEMENT, rest⟩]
  | st, (cut, b) :: bs => (pieceStep st cut b).1 ++ pieces (pieceStep st cut b).2 bs

def decodeCut : Option Begun → List (Bool × UInt8) → Text
  | st, [] => flush st
  | st, (true, b) :: bs => flush st ++ (first b).1 ++ decodeCut (first b).2 bs
  | st, (false, b) :: bs => (step st b).1 ++ decodeCut (step st b).2 bs

theorem decodeCut_chunk (st : Option Begun) (bs : List UInt8) (l : List (Bool × UInt8))
    (hl : ∀ st, decodeCut st l = flush st ++ decodeCut none l) :
    decodeCut st (bs.map (false, ·) ++ l) = decodeFrom st bs ++ decodeCut none l := by
  induction bs generalizing st with
  | nil => exact hl st
  | cons b bs ih => simp only [List.map_cons, List.cons_append, decodeCut, decodeFrom, ih, List.append_assoc]

theorem decodeCut_marked (chunks : List (List UInt8)) :
    decodeCut none (marked chunks) = chunks.flatMap decode ∧
      ∀ st, decodeCut st (marked chunks) = flush st ++ decodeCut none (marked chunks) := by
  induction chunks with
  | nil => exact ⟨rfl, fun st => (List.append_nil _).symm⟩
  | cons chunk chunks ih =>
    obtain ⟨hdecode, hflush⟩ := ih
    cases chunk with
    | nil => exact ⟨hdecode, hflush⟩
    | cons b bs =>
      have hmarked : marked ((b :: bs) :: chunks) = (true, b) :: (bs.map (false, ·) ++ marked chunks) := rfl
      have hcut (st : Option Begun) : decodeCut st (marked ((b :: bs) :: chunks)) =
          flush st ++ decode (b :: bs) ++ chunks.flatMap decode := by
        rw [hmarked, decodeCut, decodeCut_chunk _ _ _ hflush, hdecode]
        simp only [decode, decodeFrom, step, List.append_assoc]
      refine ⟨?_, fun st => ?_⟩
      · rw [hcut]
        rfl
      · rw [hcut, hcut]
        simp only [flush, List.nil_append, List.append_assoc]

/-- The whole text is what the pieces spell. -/
theorem map_char_pieces (st : Option (Begun × Nat)) (l : List (Bool × UInt8)) :
    (pieces st l).map (·.char) = decodeFrom (st.map (·.1)) (l.map (·.2)) := by
  induction l generalizing st with
  | nil => rcases st with _ | ⟨p, rest⟩ <;> rfl
  | cons cb l ih =>
    obtain ⟨cut, b⟩ := cb
    have hstep : (pieceStep st cut b).1.map (·.char) = (step (st.map (·.1)) b).1 ∧
        (pieceStep st cut b).2.map (·.1) = (step (st.map (·.1)) b).2 := by
      rcases st with _ | ⟨p, rest⟩
      · simp [pieceStep, step, Function.comp_def]
      · by_cases hp : p.takes b = true <;> simp [pieceStep, step, hp, Function.comp_def]
    rw [pieces, List.map_append, ih, List.map_cons, decodeFrom, hstep.1, hstep.2]

/-- A byte that goes on with a sequence starts none. -/
theorem first_of_takes {p : Begun} {b : UInt8} (h : p.takes b = true) : first b = ([REPLACEMENT], none) := by
  have hlow := p.le_low
  have hhigh := p.high_le
  simp only [Begun.takes, Bool.and_eq_true, decide_eq_true_eq] at h
  unfold first
  simp only [show ¬ b.toNat < 0x80 by omega, show b.toNat < 0xC2 by omega, if_false, if_true]

theorem Begun.feed_cases (p : Begun) (b : UInt8) :
    (∃ c, p.feed b = ([c], none)) ∨ ∃ q, p.feed b = ([], some q) := by
  unfold feed
  split
  · exact .inl ⟨_, rfl⟩
  · exact .inr ⟨_, rfl⟩

/-- What the chunks have made of a sequence that is not complete, and what they go on with. -/
def Piece.pending (st : Option (Begun × Nat)) (l : List (Bool × UInt8)) : Text :=
  match st with
  | none => decodeCut none l
  | some (p, 0) => decodeCut (some p) l
  | some (_, rest + 1) => List.replicate (rest + 2) REPLACEMENT ++ decodeCut none l

/-- What no cut is in is as it was. -/
theorem parts_whole (t : Text) (st : Option Begun) (l : List (Bool × UInt8)) :
    (t.map (Piece.mk · 0)).flatMap Piece.parts ++ Piece.pending (st.map (·, 0)) l = t ++ decodeCut st l := by
  have hparts : (t.map (Piece.mk · 0)).flatMap Piece.parts = t := by
    induction t with
    | nil => rfl
    | cons c t ih => simp only [List.map_cons, List.flatMap_cons, ih, Piece.parts, if_true, List.singleton_append]
  rw [hparts]
  cases st <;> rfl

/-- A byte that starts a sequence, marked or not. -/
theorem decodeCut_none (cut : Bool) (b : UInt8) (l : List (Bool × UInt8)) :
    decodeCut none ((cut, b) :: l) = (first b).1 ++ decodeCut (first b).2 l := by
  cases cut <;> rfl

/-- A sequence goes on after a cut: its byte is one character more. -/
theorem parts_feed (p : Begun) (b : UInt8) (rest : Nat) (l : List (Bool × UInt8)) :
    ((p.feed b).1.map (Piece.mk · (rest + 1))).flatMap Piece.parts ++ Piece.pending ((p.feed b).2.map (·, rest + 1)) l =
      List.replicate (rest + 2) REPLACEMENT ++ decodeCut none l := by
  rcases p.feed_cases b with ⟨c, h⟩ | ⟨q, h⟩ <;> simp [h, Piece.pending, Piece.parts]

/-- The chunk-wise text is what the pieces become. -/
theorem flatMap_parts_pieces (st : Option (Begun × Nat)) (l : List (Bool × UInt8)) :
    (pieces st l).flatMap Piece.parts = Piece.pending st l := by
  induction l generalizing st with
  | nil => rcases st with _ | ⟨p, _ | rest⟩ <;> simp [pieces, Piece.pending, Piece.parts, decodeCut, flush]
  | cons cb l ih =>
    obtain ⟨cut, b⟩ := cb
    rw [pieces, List.flatMap_append, ih]
    rcases st with _ | ⟨p, rest⟩
    · exact (parts_whole _ _ _).trans (decodeCut_none cut b l).symm
    · by_cases hp : p.takes b = true
      · have hdead : decodeCut none ((cut, b) :: l) = REPLACEMENT :: decodeCut none l := by
          rw [decodeCut_none, first_of_takes hp]
          rfl
        simp only [pieceStep, hp, if_true]
        cases rest with
        | zero =>
          cases cut with
          | true =>
            simp only [Bool.true_or, if_true, parts_feed]
            simp only [Piece.pending, decodeCut, flush, first_of_takes hp]
            rfl
          | false =>
            refine (parts_whole _ _ _).trans ?_
            simp only [Piece.pending, decodeCut, step, hp, if_true]
        | succ rest =>
          simp only [ne_eq, Nat.add_one_ne_zero, not_false_eq_true, decide_true, Bool.or_true, if_true, parts_feed]
          simp only [Piece.pending, hdead, List.replicate_succ', List.append_assoc, List.singleton_append]
      · rw [Bool.not_eq_true] at hp
        simp only [pieceStep, hp, Bool.false_eq_true, if_false]
        rw [List.flatMap_cons, List.append_assoc, parts_whole, ← decodeCut_none cut]
        cases rest with
        | zero => cases cut <;> simp [Piece.pending, Piece.parts, decodeCut, flush, step, hp]
        | succ rest => rfl

/-- What the chunks are decoded to, and what the whole is. -/
theorem flatMap_decode (chunks : List (List UInt8)) :
    chunks.flatMap decode = (pieces none (marked chunks)).flatMap Piece.parts := by
  rw [flatMap_parts_pieces]
  exact (decodeCut_marked chunks).1.symm

theorem decode_flatten (chunks : List (List UInt8)) :
    decode chunks.flatten = (pieces none (marked chunks)).map (·.char) := by
  have hbytes : (marked chunks).map (·.2) = chunks.flatten := by
    rw [marked, List.map_flatMap, ← List.flatMap_id]
    congr 1
    funext chunk
    cases chunk <;> simp [Function.comp_def]
  rw [map_char_pieces, hbytes]
  rfl

/-! ## The end of the text -/

/-- None of the last `n` characters is cut, or all there are of them up to the last that is are U+FFFD. -/
def Unseen (n : Nat) (ps : List Piece) : Prop :=
  ∀ before x after, ps.rtake n = before ++ x :: after → x.rest ≠ 0 →
    n ≤ ps.length ∧ ∀ y ∈ before ++ [x], y.char = REPLACEMENT

/-- Two texts that go on alike after U+FFFD on one side only are U+FFFD as far as they are the same. -/
theorem take_shifted (ps : List Piece) (n k : Nat) :
    (List.replicate (k + 1) REPLACEMENT ++ ps.flatMap Piece.parts).take n = (ps.map (·.char)).take n ↔
      n ≤ ps.length ∧ ∀ y ∈ ps.take n, y.char = REPLACEMENT := by
  induction ps generalizing n k with
  | nil => cases n <;> simp [List.replicate_succ]
  | cons x ps ih =>
    cases n with
    | zero => simp
    | succ n =>
      have hparts : x.char = REPLACEMENT → ∃ m, x.parts = List.replicate (m + 1) REPLACEMENT := by
        intro hx
        unfold Piece.parts
        split
        · exact ⟨0, by rw [hx]; rfl⟩
        · exact ⟨x.rest, rfl⟩
      simp only [List.replicate_succ, List.cons_append, List.take_succ_cons, List.map_cons, List.cons.injEq,
        List.flatMap_cons, List.length_cons, Nat.add_le_add_iff_right, List.forall_mem_cons]
      constructor
      · rintro ⟨hx, h⟩
        obtain ⟨m, hm⟩ := hparts hx.symm
        rw [hm, ← List.append_assoc, List.replicate_append_replicate] at h
        obtain ⟨hn, hall⟩ := (ih n (k + m)).1 (by rw [Nat.add_assoc]; exact h)
        exact ⟨hn, hx.symm, hall⟩
      · rintro ⟨hn, hx, hall⟩
        obtain ⟨m, hm⟩ := hparts hx
        refine ⟨hx.symm, ?_⟩
        rw [hm, ← List.append_assoc, List.replicate_append_replicate]
        exact (ih n (k + m)).2 ⟨hn, hall⟩

/-- `Unseen`, of the pieces from the end. -/
theorem take_parts_iff (ps : List Piece) (n : Nat) :
    (ps.flatMap Piece.parts).take n = (ps.map (·.char)).take n ↔
      ∀ after (x : Piece) before, ps.take n = after ++ x :: before → x.rest ≠ 0 →
        n ≤ ps.length ∧ ∀ y ∈ x :: before, y.char = REPLACEMENT := by
  induction ps generalizing n with
  | nil => simp
  | cons x ps ih =>
    cases n with
    | zero => simp
    | succ n =>
      by_cases hx : x.rest = 0
      · simp only [List.flatMap_cons, Piece.parts, hx, if_true, List.singleton_append, List.take_succ_cons, List.map_cons,
          List.cons.injEq, true_and, ih n, List.length_cons, Nat.add_le_add_iff_right]
        constructor
        · rintro h (_ | ⟨a, after⟩) y before hsplit hy
          · obtain ⟨rfl, -⟩ := List.cons.inj hsplit
            exact absurd hx hy
          · exact h after y before (List.cons.inj hsplit).2 hy
        · intro h after y before hsplit hy
          exact h (x :: after) y before (by rw [hsplit]; rfl) hy
      · obtain ⟨m, hm⟩ := Nat.exists_eq_add_one_of_ne_zero hx
        have hparts : x.parts = REPLACEMENT :: List.replicate (m + 1) REPLACEMENT := by
          rw [Piece.parts, if_neg hx, hm]
          rfl
        simp only [List.flatMap_cons, hparts, List.cons_append, List.take_succ_cons, List.map_cons, List.cons.injEq,
          take_shifted ps n m, List.length_cons, Nat.add_le_add_iff_right]
        constructor
        · rintro ⟨hchar, hn, hall⟩ after y before hsplit -
          refine ⟨hn, fun z hz => ?_⟩
          have hmem : z ∈ x :: ps.take n := by
            rw [hsplit]
            exact List.mem_append_right _ hz
          rcases List.mem_cons.1 hmem with rfl | hmem
          · exact hchar.symm
          · exact hall z hmem
        · intro h
          obtain ⟨hn, hall⟩ := h [] x (ps.take n) rfl hx
          exact ⟨(hall x List.mem_cons_self).symm, hn, fun z hz => hall z (List.mem_cons_of_mem _ hz)⟩

/-- The end of the chunk-wise text is that of the whole exactly when it does not show the cuts. -/
theorem rtake_parts_iff (ps : List Piece) (n : Nat) :
    (ps.flatMap Piece.parts).rtake n = (ps.map (·.char)).rtake n ↔ Unseen n ps := by
  have hrev : (ps.flatMap Piece.parts).reverse = ps.reverse.flatMap Piece.parts := by
    rw [List.reverse_flatMap]
    congr 1
    funext x
    simp only [Function.comp_apply, Piece.parts]
    split <;> simp
  rw [List.rtake_eq_reverse_take_reverse, List.rtake_eq_reverse_take_reverse, List.reverse_inj, hrev, ← List.map_reverse,
    take_parts_iff, Unseen, List.rtake_eq_reverse_take_reverse, List.length_reverse]
  constructor
  · intro h before x after hsplit hx
    have hsplit' : ps.reverse.take n = after.reverse ++ x :: before.reverse := by
      simpa using congrArg List.reverse hsplit
    obtain ⟨hn, hall⟩ := h _ _ _ hsplit' hx
    exact ⟨hn, fun y hy => hall y (by simpa [or_comm] using hy)⟩
  · intro h after x before hsplit hx
    obtain ⟨hn, hall⟩ := h before.reverse x after.reverse (by simp [hsplit]) hx
    exact ⟨hn, fun y hy => hall y (by simpa [or_comm] using hy)⟩

end Flowly.Lib.Utf8
