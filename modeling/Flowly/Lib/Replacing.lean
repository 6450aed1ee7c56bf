/-
  Flowly.Lib.Replacing — `str.replace`: its recursion, and what a text contains after it.

  A replacement is foreign to a text when the one's first code point does not come in the
  other, both ways: no occurrence of the text then reaches into the replacement. Of a
  foreign replacement it holds that the text is gone (`not_infix_replace`), and that no
  other text comes into being (`infix_of_replace`).
-/

import Flowly.Lib.Marked

namespace Flowly.Lib.Text

variable {old new sub t x y : Text} {c d : Char}

theorem replaceFrom_skip (old new : Text) (n : Nat) (t : Text) : replaceFrom old new n t = replace (t.drop n) old new := by
  induction n generalizing t with
  | zero => rfl
  | succ n ih =>
    cases t with
    | nil => rfl
    | cons c t => exact ih t

theorem replace_nil (old new : Text) : replace [] old new = [] := rfl

/-- At an occurrence. -/
theorem replace_append (hold : old ≠ []) (new t : Text) : replace (old ++ t) old new = new ++ replace t old new := by
  cases old with
  | nil => exact absurd rfl hold
  | cons c old =>
    show replaceFrom (c :: old) new 0 (c :: (old ++ t)) = _
    have hpre : (c :: old).isPrefixOf (c :: (old ++ t)) = true := List.isPrefixOf_iff_prefix.2 (List.prefix_append (c :: old) t)
    unfold replaceFrom
    rw [if_pos hpre, replaceFrom_skip, List.length_cons, Nat.add_sub_cancel, List.drop_left]

/-- Elsewhere. -/
theorem replace_cons (h : ¬old <+: c :: t) : replace (c :: t) old new = c :: replace t old new := by
  show replaceFrom old new 0 (c :: t) = _
  unfold replaceFrom
  rw [if_neg fun hp => h (List.isPrefixOf_iff_prefix.1 hp)]
  rfl

/-- The recursion of `replace`: the text ends, starts with the old text, or does not. -/
theorem replace_induction {P : Text → Prop} (hold : old ≠ []) (hnil : P []) (happend : ∀ t, P t → P (old ++ t))
    (hcons : ∀ c t, ¬old <+: c :: t → P t → P (c :: t)) (t : Text) : P t := by
  induction hn : t.length using Nat.strong_induction_on generalizing t with
  | _ n ih =>
    cases t with
    | nil => exact hnil
    | cons c t =>
      by_cases hp : old <+: c :: t
      · obtain ⟨rest, hrest⟩ := hp
        rw [← hrest]
        refine happend rest (ih rest.length ?_ rest rfl)
        rw [← hn, ← hrest, List.length_append]
        have := List.length_pos_iff.2 hold
        omega
      · exact hcons c t hp (ih t.length (by rw [← hn, List.length_cons]; omega) t rfl)

/-- A text without the old one stays. -/
theorem replace_absent (h : ¬old <:+: t) : replace t old new = t := by
  induction t with
  | nil => rfl
  | cons c t ih =>
    rw [replace_cons fun hp => h hp.isInfix, ih fun hin => h (List.infix_cons_iff.2 (.inr hin))]

def Foreign (sub new : Text) : Prop := (∀ c ∈ sub.head?, c ∉ new) ∧ ∃ d, new.head? = some d ∧ d ∉ sub

/-- No occurrence reaches into a foreign text. -/
theorem infix_of_foreign_append (hsub : sub ≠ []) (h : ∀ c ∈ sub.head?, c ∉ new) (hin : sub <:+: new ++ t) : sub <:+: t := by
  induction new with
  | nil => exact hin
  | cons c new ih =>
    refine ih (fun e he hmem => h e he (List.mem_cons_of_mem _ hmem)) (infix_of_cons hsub ?_ hin)
    intro he
    exact h c he List.mem_cons_self

theorem prefix_of_replace (hold : old ≠ []) (hnew : new.head? = some d) (hd : d ∉ sub) (h : sub <+: replace t old new) :
    sub <+: t := by
  induction t using replace_induction hold generalizing sub with
  | hnil => exact h
  | happend t _ =>
    rw [replace_append hold] at h
    cases new with
    | nil => cases hnew
    | cons e new =>
      obtain rfl := Option.some.inj hnew
      rw [show sub = [] from List.prefix_nil.1 (prefix_of_not_mem (x := []) hd h)]
      exact List.nil_prefix
  | hcons c t hp ih =>
    rw [replace_cons hp] at h
    rcases List.prefix_cons_iff.1 h with rfl | ⟨r, rfl, hr⟩
    · exact List.nil_prefix
    · exact List.prefix_cons_iff.2 (.inr ⟨r, rfl, ih (fun hin => hd (List.mem_cons_of_mem _ hin)) hr⟩)

/-- A foreign replacement brings no text about. -/
theorem infix_of_replace (hold : old ≠ []) (hsub : sub ≠ []) (hf : Foreign sub new) (h : sub <:+: replace t old new) : sub <:+: t := by
  obtain ⟨hhead, d, hnew, hd⟩ := hf
  induction t using replace_induction hold with
  | hnil => exact h
  | happend t ih =>
    rw [replace_append hold] at h
    exact (ih (infix_of_foreign_append hsub hhead h)).trans (List.suffix_append _ _).isInfix
  | hcons c t hp ih =>
    rw [replace_cons hp] at h
    rcases List.infix_cons_iff.1 h with hpre | hin
    · rcases List.prefix_cons_iff.1 hpre with hnil | ⟨r, rfl, hr⟩
      · exact absurd hnil hsub
      · have := prefix_of_replace hold hnew (fun hin => hd (List.mem_cons_of_mem _ hin)) hr
        exact (List.prefix_cons_iff.2 (.inr ⟨r, rfl, this⟩)).isInfix
    · exact List.infix_cons_iff.2 (.inr (ih hin))

/-- After a foreign replacement the old text is gone. -/
theorem not_infix_replace (hold : old ≠ []) (hf : Foreign old new) (t : Text) : ¬old <:+: replace t old new := by
  obtain ⟨hhead, d, hnew, hd⟩ := hf
  induction t using replace_induction hold with
  | hnil => exact fun h => hold (List.infix_nil.1 h)
  | happend t ih =>
    rw [replace_append hold]
    exact fun h => ih (infix_of_foreign_append hold hhead h)
  | hcons c t hp ih =>
    rw [replace_cons hp]
    intro h
    rcases List.infix_cons_iff.1 h with hpre | hin
    · rcases List.prefix_cons_iff.1 hpre with hnil | ⟨r, hr, hpre'⟩
      · exact hold hnil
      · have hdr : d ∉ r := fun hin => hd (by rw [hr]; exact List.mem_cons_of_mem _ hin)
        exact hp (List.prefix_cons_iff.2 (.inr ⟨r, hr, prefix_of_replace hold hnew hdr hpre'⟩))
    · exact ih hin

/-! ## Occurring once -/

/-- `sub` occurs in `t`, and nowhere else in it. -/
def OccursOnce (sub t : Text) : Prop := ∃ x y, t = x ++ (sub ++ y) ∧ ∀ x' y', t = x' ++ (sub ++ y') → x' = x

/-- A marker that stands neither before nor after its place occurs once. -/
theorem Marker.occursOnce {m : Text} (hm : Marker m) (hx : ¬m <:+: x) (hy : ¬m <:+: y) : OccursOnce m (x ++ (m ++ y)) := by
  refine ⟨x, y, rfl, ?_⟩
  intro x' y' he
  have hat : m <+: (x ++ (m ++ y)).drop x'.length := by
    rw [he, List.drop_left]
    exact List.prefix_append _ _
  have hlen : x'.length = x.length := by
    by_contra hne
    by_cases hlt : x'.length < x.length
    · exact hm.no_straddle hx hlt hat
    rw [List.drop_append, List.drop_eq_nil_of_le (by omega), List.nil_append] at hat
    by_cases hafter : x.length + m.length ≤ x'.length
    · rw [List.drop_append, List.drop_eq_nil_of_le (by omega), List.nil_append] at hat
      exact hy (hat.isInfix.trans (List.drop_suffix _ _).isInfix)
    · cases m with
      | nil => exact hm
      | cons c m =>
        obtain ⟨k, hk⟩ : ∃ k, x'.length - x.length = k + 1 := ⟨x'.length - x.length - 1, by omega⟩
        rw [hk, List.cons_append, List.drop_succ_cons] at hat
        rw [List.length_cons] at hafter
        rw [List.drop_append_of_le_length (by omega)] at hat
        cases hdrop : m.drop k with
        | nil =>
          have := List.drop_eq_nil_iff.1 hdrop
          omega
        | cons e rest =>
          rw [hdrop, List.cons_append] at hat
          obtain ⟨hce, -⟩ := List.cons_prefix_cons.1 hat
          have : e ∈ m := List.mem_of_mem_drop (by rw [hdrop]; exact List.mem_cons_self)
          exact hm (hce ▸ this)
  have := congrArg (List.take x.length) he
  rw [List.take_left, ← hlen, List.take_left] at this
  exact this.symm

end Flowly.Lib.Text
