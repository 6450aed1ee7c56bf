/-
  Flowly.Lib.Text — Python's `str` as the list of its code points, with the
  methods the models call: `strip`, `startswith`, `in`, `find`, `replace`.

  A list, because every text a model slices is cut at code points and joined
  again, and `take`, `drop` and `++` then carry the proofs.
-/

import Mathlib.Data.List.Infix
import Mathlib.Data.List.DropRight

namespace Flowly.Lib

abbrev Text := List Char

namespace Text

def isSpace (c : Char) : Bool :=
  let n := c.toNat
  (9 ≤ n && n ≤ 13) || (28 ≤ n && n ≤ 32) || n == 0x85 || n == 0xA0 || n == 0x1680 ||
    (0x2000 ≤ n && n ≤ 0x200A) || n == 0x2028 || n == 0x2029 || n == 0x202F || n == 0x205F || n == 0x3000

/-- The zeros of the scripts with decimal digits; the other nine follow each. -/
def DECIMAL_ZEROS : List Nat :=
  [0x30, 0x660, 0x6f0, 0x7c0, 0x966, 0x9e6, 0xa66, 0xae6, 0xb66, 0xbe6, 0xc66, 0xce6, 0xd66, 0xde6, 0xe50, 0xed0, 0xf20,
    0x1040, 0x1090, 0x17e0, 0x1810, 0x1946, 0x19d0, 0x1a80, 0x1a90, 0x1b50, 0x1bb0, 0x1c40, 0x1c50, 0xa620, 0xa8d0, 0xa900,
    0xa9d0, 0xa9f0, 0xaa50, 0xabf0, 0xff10, 0x104a0, 0x10d30, 0x11066, 0x110f0, 0x11136, 0x111d0, 0x112f0, 0x11450, 0x114d0,
    0x11650, 0x116c0, 0x11730, 0x118e0, 0x11950, 0x11c50, 0x11d50, 0x11da0, 0x16a60, 0x16ac0, 0x16b50, 0x1d7ce, 0x1d7d8,
    0x1d7e2, 0x1d7ec, 0x1d7f6, 0x1e140, 0x1e2f0, 0x1e950, 0x1fbf0]

def decimal (c : Char) : Option Nat :=
  (DECIMAL_ZEROS.find? fun zero => zero ≤ c.toNat ∧ c.toNat < zero + 10).map (c.toNat - ·)

/-- `int` of decimal digits. -/
def ofDecimals (t : Text) : Option Nat :=
  if t = [] then none else t.foldl (fun n c => n.bind fun n => (decimal c).map (10 * n + ·)) (some 0)

def lstrip (t : Text) : Text := t.dropWhile isSpace

def rstrip (t : Text) : Text := (t.reverse.dropWhile isSpace).reverse

def strip (t : Text) : Text := rstrip (lstrip t)

/-- The truth value of `t.strip()`. -/
def hasText (t : Text) : Bool := !(strip t).isEmpty

def startsWith (t pre : Text) : Bool := pre.isPrefixOf t

/-- `t.find(sub)`, `none` for -1. -/
def find (sub : Text) : Text → Option Nat
  | [] => if sub = [] then some 0 else none
  | c :: t => if sub.isPrefixOf (c :: t) then some 0 else (find sub t).map (· + 1)

/-- `sub in t`. -/
def contains (t sub : Text) : Bool := (find sub t).isSome

/-- `t.replace(old, new)` for a non-empty `old`; `skip` counts the code points of a
    match still to be passed over. -/
def replaceFrom (old new : Text) : Nat → Text → Text
  | _, [] => []
  | skip + 1, _ :: t => replaceFrom old new skip t
  | 0, c :: t =>
    if old.isPrefixOf (c :: t) then new ++ replaceFrom old new (old.length - 1) t
    else c :: replaceFrom old new 0 t

def replace (t old new : Text) : Text := replaceFrom old new 0 t

/-- `sep.join(ts)`. -/
def join (sep : Text) (ts : List Text) : Text := sep.intercalate ts

/-- `t.split()`. -/
def words (t : Text) : List Text := (t.splitOnP isSpace).filter fun w => w ≠ []

/-- Where `t.splitlines()` ends a line. -/
def isLineEnd (c : Char) : Bool :=
  let n := c.toNat
  (10 ≤ n && n ≤ 13) || (28 ≤ n && n ≤ 30) || n == 0x85 || n == 0x2028 || n == 0x2029

/-- `t.splitlines()`, `line` being what was read of the line so far. -/
def splitLinesFrom (line : Text) : Text → List Text
  | [] => if line = [] then [] else [line]
  | '\r' :: '\n' :: t => line :: splitLinesFrom [] t
  | c :: t => if isLineEnd c then line :: splitLinesFrom [] t else splitLinesFrom (line ++ [c]) t

def splitLines (t : Text) : List Text := splitLinesFrom [] t

/-! ## White space at the edges -/

theorem rstrip_eq (t : Text) : rstrip t = t.rdropWhile isSpace := rfl

theorem getLast?_strip {t : Text} {c : Char} (h : (strip t).getLast? = some c) : isSpace c = false := by
  unfold strip at h
  rw [rstrip_eq] at h
  have hne : (lstrip t).rdropWhile isSpace ≠ [] := by
    intro hnil
    rw [hnil] at h
    cases h
  have hlast := List.rdropWhile_last_not isSpace (lstrip t) hne
  rw [List.getLast?_eq_getLast_of_ne_nil hne] at h
  rw [Option.some.inj h] at hlast
  simpa using hlast

theorem head?_strip {t : Text} {c : Char} (h : (strip t).head? = some c) : isSpace c = false := by
  unfold strip at h
  rw [rstrip_eq] at h
  obtain ⟨s, hs⟩ := List.rdropWhile_prefix isSpace (lstrip t)
  have hhead : (lstrip t).head? = some c := by
    rw [← hs]
    cases hr : (lstrip t).rdropWhile isSpace with
    | nil =>
      rw [hr] at h
      cases h
    | cons d r =>
      rw [hr] at h
      exact h
  have := List.head?_dropWhile_not isSpace t
  unfold lstrip at hhead
  rw [hhead] at this
  simpa using this

/-- White space behind a text whose edges are none is stripped, and nothing else. -/
theorem strip_append_space {t s : Text} (hhead : ∀ c, t.head? = some c → isSpace c = false)
    (hlast : ∀ c, t.getLast? = some c → isSpace c = false) (hs : ∀ c ∈ s, isSpace c = true) : strip (t ++ s) = t := by
  cases t with
  | nil =>
    unfold strip lstrip
    rw [List.nil_append, List.dropWhile_eq_nil_iff.2 hs]
    rfl
  | cons d t =>
    have hl : lstrip (d :: t ++ s) = d :: t ++ s := by
      unfold lstrip
      rw [List.cons_append, List.dropWhile_cons_of_neg (by rw [hhead d rfl]; decide)]
    unfold strip
    rw [hl, rstrip_eq]
    induction s using List.reverseRecOn with
    | nil =>
      rw [List.append_nil, List.rdropWhile_eq_self_iff]
      intro hne
      rw [hlast _ (List.getLast?_eq_getLast_of_ne_nil hne)]
      decide
    | append_singleton s c ih =>
      rw [← List.append_assoc, List.rdropWhile_concat_pos _ _ _ (hs c (by simp))]
      refine ih (fun e he => hs e (List.mem_append_left _ he)) ?_
      unfold lstrip
      rw [List.cons_append, List.dropWhile_cons_of_neg (by rw [hhead d rfl]; decide)]

theorem strip_strip (t : Text) : strip (strip t) = strip t := by
  have h := strip_append_space (t := strip t) (s := []) (fun _ hc => head?_strip hc) (fun _ hc => getLast?_strip hc)
    (fun c hc => by cases hc)
  rwa [List.append_nil] at h

theorem length_strip_le (t : Text) : (strip t).length ≤ t.length :=
  (List.rdropWhile_prefix isSpace (lstrip t)).length_le.trans (List.dropWhile_suffix _).length_le

/-! ## Texts with something in them -/

theorem exists_of_dropWhile_ne_nil {p : Char → Bool} {t : Text} (h : t.dropWhile p ≠ []) :
    ∃ c ∈ t.dropWhile p, p c = false := by
  rcases hd : t.dropWhile p with _ | ⟨c, rest⟩
  · exact absurd hd h
  · refine ⟨c, by simp, ?_⟩
    have := List.head?_dropWhile_not p t
    rw [hd] at this
    simpa using this

/-- What is left of a stripped text has a code point that is not white space. -/
theorem exists_of_strip_ne_nil {t : Text} (h : strip t ≠ []) : ∃ c ∈ strip t, isSpace c = false := by
  unfold strip rstrip at h ⊢
  have hne : (lstrip t).reverse.dropWhile isSpace ≠ [] := fun he => h (by rw [he]; rfl)
  obtain ⟨c, hc, hs⟩ := exists_of_dropWhile_ne_nil hne
  exact ⟨c, List.mem_reverse.mpr hc, hs⟩

theorem hasText_iff {t : Text} : hasText t = true ↔ ∃ c ∈ t, isSpace c = false := by
  unfold hasText
  constructor
  · intro h
    have hne : strip t ≠ [] := by simpa using h
    obtain ⟨c, hc, hs⟩ := exists_of_strip_ne_nil hne
    refine ⟨c, ?_, hs⟩
    unfold strip rstrip lstrip at hc
    exact (List.dropWhile_sublist _).subset (List.mem_reverse.mp ((List.dropWhile_sublist _).subset (List.mem_reverse.mp hc)))
  · rintro ⟨c, hc, hs⟩
    rw [Bool.not_eq_true', List.isEmpty_eq_false_iff]
    intro hnil
    unfold strip rstrip at hnil
    have hl : ∀ d ∈ lstrip t, isSpace d = true := fun d hd =>
      List.dropWhile_eq_nil_iff.mp (List.reverse_eq_nil_iff.mp hnil) d (List.mem_reverse.mpr hd)
    by_cases he : lstrip t = []
    · have := List.dropWhile_eq_nil_iff.mp he c hc
      rw [hs] at this
      cases this
    · obtain ⟨d, hd, hds⟩ := exists_of_dropWhile_ne_nil he
      have := hl d hd
      rw [hds] at this
      cases this

theorem hasText_of_strip_ne_nil {t : Text} (h : strip t ≠ []) : hasText (strip t) = true :=
  hasText_iff.mpr (exists_of_strip_ne_nil h)

/-- The beginning of a stripped text has something in it. -/
theorem strip_take_ne_nil {t : Text} (h : strip t ≠ []) {n : Nat} (hn : 0 < n) : strip ((strip t).take n) ≠ [] := by
  obtain ⟨c, rest, hc⟩ := List.exists_cons_of_ne_nil h
  have htext : hasText ((strip t).take n) = true := by
    refine hasText_iff.mpr ⟨c, ?_, head?_strip (by rw [hc]; rfl)⟩
    obtain ⟨k, rfl⟩ := Nat.exists_eq_add_of_lt hn
    rw [hc, Nat.zero_add, List.take_succ_cons]
    exact List.mem_cons_self
  intro hnil
  rw [hasText, hnil] at htext
  cases htext

theorem hasText_ne_nil {t : Text} (h : hasText t = true) : t ≠ [] := by
  rintro rfl
  simp [hasText, strip, lstrip, rstrip] at h

end Text

end Flowly.Lib
