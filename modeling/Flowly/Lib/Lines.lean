/-
  Flowly.Lib.Lines — a file read line by line: the lines that end in a newline, and the tail
  behind the last one. Appending completes lines and never changes one (`split_append`), and
  a reader that starts where a line begins sees the lines from there on (`lines_drop`).
-/

import Mathlib.Algebra.GroupWithZero.Nat
import Mathlib.Data.List.Basic

namespace Flowly.Lib.Lines

variable {α : Type*} {nl : α}

def unlines (nl : α) (ls : List (List α)) : List α := (ls.map (· ++ [nl])).flatten

def width (ls : List (List α)) : Nat := (ls.map (·.length + 1)).sum

theorem length_unlines (ls : List (List α)) : (unlines nl ls).length = width ls := by
  induction ls with
  | nil => rfl
  | cons l ls ih =>
    simp only [unlines, width, List.map_cons, List.flatten_cons, List.length_append, List.length_singleton, List.sum_cons] at ih ⊢
    rw [ih]

theorem unlines_append (xs ys : List (List α)) : unlines nl (xs ++ ys) = unlines nl xs ++ unlines nl ys := by
  simp [unlines]

theorem width_append (xs ys : List (List α)) : width (xs ++ ys) = width xs + width ys := by
  simp [width]

variable [DecidableEq α]

/-- The lines and the tail, `cur` being what was read of the line so far. -/
def split (nl : α) : List α → List α → List (List α) × List α
  | cur, [] => ([], cur)
  | cur, c :: cs => if c = nl then (cur :: (split nl [] cs).1, (split nl [] cs).2) else split nl (cur ++ [c]) cs

def lines (nl : α) (file : List α) : List (List α) := (split nl [] file).1

def tail (nl : α) (file : List α) : List α := (split nl [] file).2

theorem split_append (cur xs ys : List α) :
    split nl cur (xs ++ ys) =
      ((split nl cur xs).1 ++ (split nl (split nl cur xs).2 ys).1, (split nl (split nl cur xs).2 ys).2) := by
  induction xs generalizing cur with
  | nil => rfl
  | cons x xs ih =>
    rw [List.cons_append, split, split]
    split
    · simp only [ih, List.cons_append]
    · exact ih _

theorem split_within {xs : List α} (h : nl ∉ xs) (cur : List α) : split nl cur xs = ([], cur ++ xs) := by
  induction xs generalizing cur with
  | nil => rw [split, List.append_nil]
  | cons x xs ih =>
    rw [split, if_neg fun hx : x = nl => h (hx ▸ List.mem_cons_self), ih fun hin => h (List.mem_cons_of_mem _ hin), List.append_assoc]
    rfl

theorem split_line {xs : List α} (h : nl ∉ xs) (cur ys : List α) :
    split nl cur (xs ++ nl :: ys) = ((cur ++ xs) :: (split nl [] ys).1, (split nl [] ys).2) := by
  rw [split_append, split_within h, split, if_pos rfl]
  rfl

theorem lines_append (nl : α) (file more : List α) : lines nl (file ++ more) = lines nl file ++ (split nl (tail nl file) more).1 := by
  rw [lines, split_append]
  rfl

theorem tail_append (nl : α) (file more : List α) : tail nl (file ++ more) = (split nl (tail nl file) more).2 := by
  rw [tail, split_append]
  rfl

theorem tail_within {file more : List α} (h : nl ∉ more) : tail nl (file ++ more) = tail nl file ++ more := by
  rw [tail_append, split_within h]

theorem tail_newline (file more : List α) (h : nl ∉ more) : tail nl (file ++ (more ++ [nl])) = [] := by
  rw [tail_append, split_line h]
  rfl

/-- The lines and the tail are the file. -/
theorem unlines_split (cur xs : List α) : unlines nl (split nl cur xs).1 ++ (split nl cur xs).2 = cur ++ xs := by
  induction xs generalizing cur with
  | nil => simp [split, unlines]
  | cons x xs ih =>
    rw [split]
    split
    · rename_i hx
      have hrest := ih []
      simp only [unlines, List.map_cons, List.flatten_cons, List.append_assoc, List.nil_append] at hrest ⊢
      rw [hrest, hx]
      rfl
    · rw [ih, List.append_assoc]
      rfl

theorem unlines_lines (file : List α) : unlines nl (lines nl file) ++ tail nl file = file := unlines_split [] file

/-- Lines and tail have no newline inside. -/
theorem split_clean {cur : List α} (h : nl ∉ cur) (xs : List α) :
    (∀ l ∈ (split nl cur xs).1, nl ∉ l) ∧ nl ∉ (split nl cur xs).2 := by
  induction xs generalizing cur with
  | nil => exact ⟨List.forall_mem_nil _, h⟩
  | cons x xs ih =>
    rw [split]
    split
    · obtain ⟨hlines, htail⟩ := ih (List.not_mem_nil : nl ∉ [])
      exact ⟨fun l hl => (List.mem_cons.mp hl).elim (fun he => he ▸ h) (hlines l), htail⟩
    · rename_i hx
      exact ih fun hin => (List.mem_append.mp hin).elim h fun he => hx (List.mem_singleton.mp he).symm

/-- A file has a tail if it does not end in a newline. -/
theorem tail_eq_nil_iff (file : List α) : tail nl file = [] ↔ ¬ (file ≠ [] ∧ file.getLast? ≠ some nl) := by
  have hfile : unlines nl (lines nl file) ++ tail nl file = file := unlines_lines file
  have hclean := (split_clean (List.not_mem_nil (a := nl)) file).2
  constructor
  · rintro htail ⟨hne, hlast⟩
    rw [htail, List.append_nil] at hfile
    rcases List.eq_nil_or_concat (lines nl file) with hnil | ⟨ls, l, hls⟩
    · rw [hnil] at hfile
      exact hne hfile.symm
    · rw [hls, List.concat_eq_append, unlines_append] at hfile
      apply hlast
      rw [← hfile]
      simp [unlines]
  · intro h
    by_contra htail
    obtain ⟨c, hc⟩ := Option.ne_none_iff_exists'.mp fun hnone => htail (List.getLast?_eq_none_iff.mp hnone)
    have hlast : file.getLast? = some c := by
      rw [← hfile, List.getLast?_append, hc]
      rfl
    refine h ⟨fun hnil => ?_, fun hnl => ?_⟩
    · rw [hnil] at hlast
      cases hlast
    · rw [hlast] at hnl
      have hmem := List.mem_of_getLast? hc
      rw [Option.some.inj hnl] at hmem
      exact hclean hmem

theorem split_unlines {ls : List (List α)} (h : ∀ l ∈ ls, nl ∉ l) (t : List α) :
    split nl [] (unlines nl ls ++ t) = (ls ++ (split nl [] t).1, (split nl [] t).2) := by
  induction ls with
  | nil => rfl
  | cons l ls ih =>
    have hline : unlines nl (l :: ls) ++ t = l ++ nl :: (unlines nl ls ++ t) := by
      simp [unlines]
    rw [hline, split_line (h l List.mem_cons_self), ih fun x hx => h x (List.mem_cons_of_mem _ hx), List.nil_append]
    rfl

/-- What a reader sees that starts behind the first `k` lines. -/
theorem lines_drop (file : List α) (k : Nat) :
    lines nl (file.drop (width ((lines nl file).take k))) = (lines nl file).drop k := by
  have hall := split_clean (List.not_mem_nil (a := nl)) file
  have hclean : ∀ l ∈ (lines nl file).drop k, nl ∉ l := fun l hl => hall.1 l (List.mem_of_mem_drop hl)
  have htail : nl ∉ tail nl file := hall.2
  have hfile : file = unlines nl ((lines nl file).take k) ++ (unlines nl ((lines nl file).drop k) ++ tail nl file) := by
    rw [← List.append_assoc, ← unlines_append, List.take_append_drop, unlines_lines]
  have hdrop : file.drop (width ((lines nl file).take k)) = unlines nl ((lines nl file).drop k) ++ tail nl file :=
    (congrArg (List.drop (width ((lines nl file).take k))) hfile).trans (List.drop_left' (length_unlines _))
  rw [hdrop]
  show (split nl [] _).1 = _
  rw [split_unlines hclean, split_within htail]
  exact List.append_nil _

end Flowly.Lib.Lines
