/-
  Flowly.Lib.Paragraphs — `re.split(r"\n\s*\n", text)`, and the paragraphs that are left when
  its pieces are stripped and the empty ones dropped.

  A separator is as long as the white space allows: from a line end to the last one before the
  next word. So a paragraph has no blank line, and joining paragraphs with one between each two
  is undone by splitting (`paragraphs_join`).
-/

import Flowly.Lib.Marked

namespace Flowly.Lib.Text

def toLastNewline (t : Text) : Text := t.rdropWhile (· ≠ '\n')

/-- `\n\s*\n` at the start of a text: the length of the match. -/
def blankLine : Text → Option Nat
  | '\n' :: t =>
    let run := t.takeWhile isSpace
    if '\n' ∈ run then some ((toLastNewline run).length + 1) else none
  | _ => none

/-- The pieces of a text, of which so many code points belong to the separator that was found last. -/
def splitBlankFrom : Nat → Text → List Text
  | _, [] => [[]]
  | skip + 1, _ :: t => splitBlankFrom skip t
  | 0, c :: t =>
    match blankLine (c :: t) with
    | some n => [] :: splitBlankFrom (n - 1) t
    | none => (splitBlankFrom 0 t).modifyHead (c :: ·)

def splitBlank (t : Text) : List Text := splitBlankFrom 0 t

def paragraphs (t : Text) : List Text := ((splitBlank t).map strip).filter fun p => p ≠ []

/-! ## The pieces -/

theorem blankLine_newline (t : Text) : blankLine ('\n' :: t) = none ↔ '\n' ∉ t.takeWhile isSpace := by
  simp only [blankLine]
  split <;> simp_all

variable {c : Char}

theorem blankLine_of_ne (h : c ≠ '\n') (t : Text) : blankLine (c :: t) = none := by
  unfold blankLine
  split
  · next heq => exact absurd (List.cons.inj heq).1 h
  · rfl

theorem splitBlankFrom_eq (n : Nat) (t : Text) : splitBlankFrom n t = splitBlank (t.drop n) := by
  induction n generalizing t with
  | zero => rfl
  | succ n ih =>
    cases t with
    | nil => rfl
    | cons c t => exact ih t

theorem splitBlank_ne_nil (t : Text) : splitBlank t ≠ [] := by
  induction h : t.length using Nat.strong_induction_on generalizing t with
  | _ k ih =>
    cases t with
    | nil => exact List.cons_ne_nil _ _
    | cons c t =>
      unfold splitBlank splitBlankFrom
      split
      · exact List.cons_ne_nil _ _
      · have hne := ih t.length (by simp [← h]) t rfl
        simpa [splitBlank] using hne

/-- The pieces of a text, from its end: a separator closes one, any other code point joins the first. -/
theorem splitBlank_induction {P : Text → List Text → Prop} (nil : P [] [[]])
    (separator : ∀ c t n, blankLine (c :: t) = some n → P (t.drop (n - 1)) (splitBlank (t.drop (n - 1))) →
      P (c :: t) ([] :: splitBlank (t.drop (n - 1))))
    (char : ∀ c t p ps, blankLine (c :: t) = none → P t (p :: ps) → P (c :: t) ((c :: p) :: ps)) (t : Text) : P t (splitBlank t) := by
  induction h : t.length using Nat.strong_induction_on generalizing t with
  | _ k ih =>
    cases t with
    | nil => exact nil
    | cons c t =>
      unfold splitBlank splitBlankFrom
      split
      · next n hn =>
        rw [splitBlankFrom_eq]
        exact separator c t n hn (ih _ (by simp only [List.length_drop, ← h, List.length_cons]; omega) _ rfl)
      · next hnone =>
        have ht := ih t.length (by simp [← h]) t rfl
        change P (c :: t) ((splitBlank t).modifyHead (c :: ·))
        cases hsplit : splitBlank t with
        | nil => exact absurd hsplit (splitBlank_ne_nil t)
        | cons p ps => exact char c t p ps hnone (hsplit ▸ ht)

/-- A separator is white space. -/
theorem blankLine_space {t : Text} {n : Nat} (h : blankLine (c :: t) = some n) :
    isSpace c = true ∧ ∀ d ∈ t.take (n - 1), isSpace d = true := by
  by_cases hc : c = '\n'
  · subst hc
    simp only [blankLine] at h
    split at h
    · obtain rfl := Option.some.inj h
      refine ⟨by decide, fun d hd => ?_⟩
      have hpre : toLastNewline (t.takeWhile isSpace) <+: t :=
        (List.rdropWhile_prefix _ _).trans (List.takeWhile_prefix _)
      rw [Nat.add_sub_cancel, ← List.prefix_iff_eq_take.1 hpre] at hd
      exact List.mem_takeWhile_imp ((List.rdropWhile_prefix _ _).subset hd)
    · cases h
  · rw [blankLine_of_ne hc] at h
    cases h

def solid (t : Text) : Text := t.filter fun c => !isSpace c

theorem solid_of_space {t : Text} (h : ∀ c ∈ t, isSpace c = true) : solid t = [] :=
  List.filter_eq_nil_iff.2 fun c hc => by simp [h c hc]

theorem solid_append (a b : Text) : solid (a ++ b) = solid a ++ solid b := List.filter_append a b

theorem solid_splitBlank (t : Text) : (splitBlank t).flatMap solid = solid t := by
  refine splitBlank_induction (P := fun t ps => ps.flatMap solid = solid t) rfl ?_ ?_ t
  · intro c t n hn ih
    obtain ⟨hc, hrest⟩ := blankLine_space hn
    have hsplit : solid t = solid (t.take (n - 1)) ++ solid (t.drop (n - 1)) := by
      rw [← solid_append, List.take_append_drop]
    have hcons : solid (c :: t) = solid t := List.filter_cons_of_neg (by simp [hc])
    rw [List.flatMap_cons, ih, hcons, hsplit, solid_of_space hrest]
    rfl
  · intro c t p ps _ ih
    rw [List.flatMap_cons] at ih ⊢
    rw [← List.singleton_append, ← List.singleton_append (l := t), solid_append, solid_append, List.append_assoc, ih]

/-! ## A text without a blank line -/

def NoBlank : Text → Prop
  | [] => True
  | c :: t => blankLine (c :: t) = none ∧ NoBlank t

theorem NoBlank.suffix {a b : Text} (h : NoBlank (a ++ b)) : NoBlank b := by
  induction a with
  | nil => exact h
  | cons c a ih => exact ih h.2

/-- What is white space at the start of a text is at the start of a longer one. -/
theorem mem_takeWhile_append {a b : Text} (h : c ∈ a.takeWhile isSpace) : c ∈ (a ++ b).takeWhile isSpace := by
  rw [List.takeWhile_append]
  split
  · exact List.mem_append_left _ ((List.takeWhile_prefix _).subset h)
  · exact h

theorem blankLine_left {a b : Text} (h : blankLine (c :: (a ++ b)) = none) : blankLine (c :: a) = none := by
  by_cases hc : c = '\n'
  · subst hc
    rw [blankLine_newline] at h ⊢
    exact fun hmem => h (mem_takeWhile_append hmem)
  · exact blankLine_of_ne hc a

theorem NoBlank.left {a b : Text} (h : NoBlank (a ++ b)) : NoBlank a := by
  induction a with
  | nil => trivial
  | cons c a ih => exact ⟨blankLine_left h.1, ih h.2⟩

theorem NoBlank.strip {t : Text} (h : NoBlank t) : NoBlank (strip t) := by
  obtain ⟨a, ha⟩ := List.dropWhile_suffix (l := t) isSpace
  obtain ⟨b, hb⟩ := List.rdropWhile_prefix isSpace (lstrip t)
  have hstrip : Text.strip t ++ b = lstrip t := hb
  refine NoBlank.left (b := b) ?_
  rw [hstrip]
  refine NoBlank.suffix (a := a) ?_
  rw [lstrip, ha]
  exact h

/-- No piece has a separator, and each lies in the text, behind the one before it. -/
theorem splitBlank_noBlank (t : Text) : ∀ p ∈ splitBlank t, NoBlank p := by
  have h : (∀ p ∈ splitBlank t, NoBlank p) ∧ ∀ p ∈ (splitBlank t).head?, p <+: t := by
    refine splitBlank_induction (P := fun t ps => (∀ p ∈ ps, NoBlank p) ∧ ∀ p ∈ ps.head?, p <+: t) ?_ ?_ ?_ t
    · simp [NoBlank]
    · intro c t n _ ih
      refine ⟨List.forall_mem_cons.2 ⟨trivial, ih.1⟩, ?_⟩
      rintro p ⟨⟩
      exact List.nil_prefix
    · intro c t p ps hnone ih
      obtain ⟨b, rfl⟩ := ih.2 p rfl
      refine ⟨List.forall_mem_cons.2 ⟨⟨blankLine_left hnone, (List.forall_mem_cons.1 ih.1).1⟩, (List.forall_mem_cons.1 ih.1).2⟩, ?_⟩
      rintro q ⟨⟩
      exact List.cons_prefix_cons.2 ⟨rfl, List.prefix_append _ _⟩
  exact h.1

/-! ## Paragraphs -/

structure IsParagraph (p : Text) : Prop where
  ne_nil : p ≠ []
  strip : strip p = p
  noBlank : NoBlank p

theorem isParagraph_of_mem {p t : Text} (h : p ∈ paragraphs t) : IsParagraph p := by
  obtain ⟨hmem, hne⟩ := List.mem_filter.1 h
  obtain ⟨q, hq, rfl⟩ := List.mem_map.1 hmem
  exact ⟨by simpa using hne, strip_strip q, (splitBlank_noBlank t q hq).strip⟩

theorem IsParagraph.head {p : Text} (h : IsParagraph p) : ∃ c rest, p = c :: rest ∧ isSpace c = false := by
  cases p with
  | nil => exact absurd rfl h.ne_nil
  | cons c rest => exact ⟨c, rest, rfl, head?_strip (by rw [h.strip]; rfl)⟩

theorem IsParagraph.last {p : Text} (h : IsParagraph p) (hc : p.getLast? = some c) : isSpace c = false :=
  getLast?_strip (by rw [h.strip]; exact hc)

/-- A text that ends in a word is followed by what follows its last piece. -/
theorem splitBlank_append {p x q : Text} {qs : List Text} (hno : NoBlank p) (hlast : ∀ c, p.getLast? = some c → isSpace c = false)
    (hx : splitBlank x = q :: qs) : splitBlank (p ++ x) = (p ++ q) :: qs := by
  induction p with
  | nil => exact hx
  | cons c p ih =>
    have hnone : blankLine (c :: (p ++ x)) = none := by
      by_cases hc : c = '\n'
      · subst hc
        rw [blankLine_newline, List.takeWhile_append]
        -- the white space after the line end does not reach the end of the paragraph
        have hshort : (p.takeWhile isSpace).length ≠ p.length := by
          intro hlen
          have hall := List.takeWhile_eq_self_iff.1 ((List.takeWhile_prefix isSpace).eq_of_length hlen)
          cases hl : ('\n' :: p).getLast? with
          | none => simp at hl
          | some d =>
            have hd : d ∈ '\n' :: p := List.mem_of_getLast? hl
            have := hlast d hl
            rcases List.mem_cons.1 hd with rfl | hd
            · exact absurd this (by decide)
            · rw [hall d hd] at this
              cases this
        rw [if_neg hshort]
        exact (blankLine_newline p).1 hno.1
      · exact blankLine_of_ne hc _
    have htail : splitBlank (p ++ x) = (p ++ q) :: qs := by
      refine ih hno.2 fun d hd => hlast d ?_
      cases p with
      | nil => cases hd
      | cons e p => exact hd
    show splitBlankFrom 0 (c :: (p ++ x)) = _
    unfold splitBlankFrom
    rw [hnone]
    show (splitBlank (p ++ x)).modifyHead (c :: ·) = _
    rw [htail]
    rfl

theorem join_blank_cons (p q : Text) (ps : List Text) :
    join ['\n', '\n'] (p :: q :: ps) = p ++ '\n' :: '\n' :: join ['\n', '\n'] (q :: ps) := by
  simp [join, List.intercalate_cons_cons]

/-- A blank line before a word is a separator. -/
theorem splitBlank_blank (hc : isSpace c = false) (t : Text) :
    splitBlank ('\n' :: '\n' :: c :: t) = [] :: splitBlank (c :: t) := by
  have hblank : blankLine ('\n' :: '\n' :: c :: t) = some 2 := by
    simp only [blankLine, List.takeWhile_cons, hc]
    rfl
  show splitBlankFrom 0 ('\n' :: '\n' :: c :: t) = _
  unfold splitBlankFrom
  rw [hblank]
  rfl

theorem join_blank_head {p : Text} (hp : IsParagraph p) (ps : List Text) :
    ∃ c t, join ['\n', '\n'] (p :: ps) = c :: t ∧ isSpace c = false := by
  obtain ⟨c, rest, rfl, hc⟩ := hp.head
  cases ps <;> exact ⟨c, _, rfl, hc⟩

/-- Paragraphs with a blank line between each two are split there and nowhere else. -/
theorem splitBlank_join {ps qs : List Text} {x : Text} (hne : ps ≠ []) (h : ∀ p ∈ ps, IsParagraph p) (hx : splitBlank x = [] :: qs) :
    splitBlank (join ['\n', '\n'] ps ++ x) = ps ++ qs := by
  induction ps with
  | nil => exact absurd rfl hne
  | cons p ps ih =>
    have hp := h p List.mem_cons_self
    cases ps with
    | nil => simpa [join] using splitBlank_append hp.noBlank (fun _ => hp.last) hx
    | cons q ps =>
      have hrest := ih (List.cons_ne_nil _ _) fun r hr => h r (List.mem_cons_of_mem _ hr)
      obtain ⟨c, more, hmore, hc⟩ := join_blank_head (h q (by simp)) ps
      have hsep : splitBlank ('\n' :: '\n' :: (join ['\n', '\n'] (q :: ps) ++ x)) = [] :: (q :: ps ++ qs) := by
        rw [← hrest, hmore]
        exact splitBlank_blank hc _
      rw [join_blank_cons, List.append_assoc]
      exact (splitBlank_append hp.noBlank (fun _ => hp.last) hsep).trans (by rw [List.append_nil]; rfl)

variable {ps : List Text}

theorem filter_strip_eq (h : ∀ p ∈ ps, IsParagraph p) : (ps.map strip).filter (fun p => p ≠ []) = ps := by
  have hmap : ps.map strip = ps := by
    conv_rhs => rw [← List.map_id ps]
    exact List.map_congr_left fun q hq => (h q hq).strip
  rw [hmap, List.filter_eq_self.2]
  intro q hq
  simpa using (h q hq).ne_nil

/-- The paragraphs of a text that is joined of some are these. -/
theorem paragraphs_join (h : ∀ p ∈ ps, IsParagraph p) : paragraphs (join ['\n', '\n'] ps) = ps := by
  cases ps with
  | nil => decide
  | cons p ps =>
    have hsplit := splitBlank_join (List.cons_ne_nil _ _) h (x := []) rfl
    rw [List.append_nil, List.append_nil] at hsplit
    rw [paragraphs, hsplit, filter_strip_eq h]

theorem paragraphs_join_blank (hne : ps ≠ []) (h : ∀ p ∈ ps, IsParagraph p) :
    paragraphs (join ['\n', '\n'] ps ++ ['\n', '\n']) = ps := by
  have hblank : splitBlank ['\n', '\n'] = [] :: [[]] := by decide
  rw [paragraphs, splitBlank_join hne h hblank, List.map_append, List.filter_append, filter_strip_eq h]
  exact List.append_nil _

theorem paragraphs_blank_join (hne : ps ≠ []) (h : ∀ p ∈ ps, IsParagraph p) :
    paragraphs ('\n' :: '\n' :: join ['\n', '\n'] ps) = ps := by
  obtain ⟨p, ps, rfl⟩ := List.exists_cons_of_ne_nil hne
  obtain ⟨c, t, ht, hc⟩ := join_blank_head (h p List.mem_cons_self) ps
  rw [ht, paragraphs, splitBlank_blank hc, ← ht]
  exact paragraphs_join h

/-! ## Where they are -/

/-- The texts lie in `t`, each behind the one before it. -/
def Covers : Text → List Text → Prop
  | _, [] => True
  | t, p :: ps => ∃ before after, t = before ++ (p ++ after) ∧ Covers after ps

namespace Covers

variable {t : Text} {ps : List Text}

theorem behind (a : Text) (h : Covers t ps) : Covers (a ++ t) ps := by
  cases ps with
  | nil => trivial
  | cons p ps =>
    obtain ⟨before, after, rfl, hafter⟩ := h
    exact ⟨a ++ before, after, (List.append_assoc _ _ _).symm, hafter⟩

theorem filter (f : Text → Bool) (h : Covers t ps) : Covers t (ps.filter f) := by
  induction ps generalizing t with
  | nil => trivial
  | cons p ps ih =>
    obtain ⟨before, after, rfl, hafter⟩ := h
    rw [List.filter_cons]
    split
    · exact ⟨before, after, rfl, ih hafter⟩
    · exact behind _ (behind _ (ih hafter))

theorem strip (h : Covers t ps) : Covers t (ps.map Text.strip) := by
  induction ps generalizing t with
  | nil => trivial
  | cons p ps ih =>
    obtain ⟨before, after, rfl, hafter⟩ := h
    obtain ⟨a, ha⟩ := List.dropWhile_suffix (l := p) isSpace
    obtain ⟨b, hb⟩ := List.rdropWhile_prefix isSpace (lstrip p)
    have hp : p = a ++ (Text.strip p ++ b) := by
      rw [show Text.strip p ++ b = lstrip p from hb]
      exact ha.symm
    refine ⟨before ++ a, b ++ after, ?_, behind b (ih hafter)⟩
    conv_lhs => rw [hp]
    simp only [List.append_assoc]

theorem infix_of_mem (h : Covers t ps) {p : Text} (hp : p ∈ ps) : p <:+: t := by
  induction ps generalizing t with
  | nil => cases hp
  | cons q ps ih =>
    obtain ⟨before, after, rfl, hafter⟩ := h
    rcases List.mem_cons.1 hp with rfl | hp
    · exact ⟨before, after, List.append_assoc _ _ _⟩
    · exact (ih hafter hp).trans ⟨before ++ q, [], by simp⟩

end Covers

theorem covers_paragraphs (t : Text) : Covers t (paragraphs t) := by
  have h : ∃ p qs after, splitBlank t = p :: qs ∧ t = p ++ after ∧ Covers after qs := by
    refine splitBlank_induction
      (P := fun t ps => ∃ p qs after, ps = p :: qs ∧ t = p ++ after ∧ Covers after qs) ⟨[], [], [], rfl, rfl, trivial⟩ ?_ ?_ t
    · rintro c t n - ⟨p, qs, after, hsplit, ht, hafter⟩
      refine ⟨[], _, c :: t, rfl, rfl, ?_⟩
      have hdrop : Covers (t.drop (n - 1)) (splitBlank (t.drop (n - 1))) := by
        rw [hsplit]
        exact ⟨[], after, ht, hafter⟩
      have ht' : c :: t = (c :: t.take (n - 1)) ++ t.drop (n - 1) := by
        rw [List.cons_append, List.take_append_drop]
      rw [ht']
      exact hdrop.behind _
    · rintro c t p ps - ⟨q, qs, after, hps, rfl, hafter⟩
      obtain ⟨rfl, rfl⟩ := List.cons.inj hps
      exact ⟨c :: p, ps, after, rfl, rfl, hafter⟩
  obtain ⟨p, qs, after, hsplit, ht, hafter⟩ := h
  have hcovers : Covers t (splitBlank t) := by
    rw [hsplit]
    exact ⟨[], after, ht, hafter⟩
  exact hcovers.strip.filter _

/-- A text without a code point is on one side of it. -/
theorem append_cons_eq {m x z p w : Text} (hc : c ∉ m) (hm : m ≠ []) (h : x ++ (m ++ z) = p ++ c :: w) :
    (∃ w', p = x ++ (m ++ w') ∧ z = w' ++ c :: w) ∨ ∃ x', x = p ++ c :: x' ∧ w = x' ++ (m ++ z) := by
  rcases List.append_eq_append_iff.1 h with ⟨a, rfl, ha⟩ | ⟨b, rfl, hb⟩
  · rcases List.append_eq_append_iff.1 ha with ⟨b, rfl, hb⟩ | ⟨b, rfl, hb⟩
    · exact .inl ⟨b, rfl, hb⟩
    · cases b with
      | nil => exact .inl ⟨[], by simp, hb.symm⟩
      | cons d b =>
        obtain ⟨rfl, -⟩ := List.cons.inj hb
        exact absurd (List.mem_append_right _ List.mem_cons_self) hc
  · cases b with
    | nil =>
      obtain ⟨d, m, rfl⟩ := List.exists_cons_of_ne_nil hm
      obtain ⟨rfl, -⟩ := List.cons.inj hb
      exact absurd List.mem_cons_self hc
    | cons d b =>
      obtain ⟨rfl, hw⟩ := List.cons.inj hb
      exact .inr ⟨b, rfl, hw⟩

theorem infix_of_newline {m t : Text} (hm : m ≠ []) (hn : '\n' ∉ m) (h : m <:+: '\n' :: t) : m <:+: t :=
  infix_of_cons hm (fun hhead => hn (List.mem_of_mem_head? hhead)) h

/-- A text without a line end is in joined paragraphs when it is in one of them. -/
theorem infix_join_blank {m : Text} (hm : m ≠ []) (hn : '\n' ∉ m) :
    m <:+: join ['\n', '\n'] ps ↔ ∃ p ∈ ps, m <:+: p := by
  induction ps with
  | nil => simpa [join] using hm
  | cons p ps ih =>
    cases ps with
    | nil => simp [join]
    | cons q ps =>
      rw [join_blank_cons, infix_append_cons hn, List.exists_mem_cons_iff, ← ih]
      exact or_congr_right ⟨infix_of_newline hm hn, fun h => h.trans (List.suffix_cons _ _).isInfix⟩

/-- What comes one after the other in joined paragraphs does so in the text they come from. -/
theorem Covers.in_order {m m' : Text} (hm : m ≠ []) (hn : '\n' ∉ m) (hm' : m' ≠ []) (hn' : '\n' ∉ m')
    {t x z : Text} (h : Covers t ps) (hjoin : join ['\n', '\n'] ps = x ++ (m ++ z)) (hz : m' <:+: z) :
    ∃ x' z', t = x' ++ (m ++ z') ∧ m' <:+: z' := by
  induction ps generalizing t x with
  | nil => simp [join, hm] at hjoin
  | cons p ps ih =>
    obtain ⟨before, after, rfl, hafter⟩ := h
    cases ps with
    | nil =>
      have hp : p = x ++ (m ++ z) := by simpa [join] using hjoin
      subst hp
      exact ⟨before ++ x, z ++ after, by simp, hz.trans (List.prefix_append _ _).isInfix⟩
    | cons q ps =>
      rcases append_cons_eq hn hm (hjoin.symm.trans (join_blank_cons p q ps)) with ⟨w, rfl, rfl⟩ | ⟨y, rfl, hy⟩
      · refine ⟨before ++ x, w ++ after, by simp, ?_⟩
        rcases (infix_append_cons hn').1 hz with hin | hin
        · exact hin.trans (List.prefix_append _ _).isInfix
        · obtain ⟨r, hr, hin⟩ : ∃ r ∈ q :: ps, m' <:+: r :=
            (infix_join_blank hm' hn').1 (infix_of_newline hm' hn' hin)
          exact (hin.trans (hafter.infix_of_mem hr)).trans (List.suffix_append _ _).isInfix
      · rcases append_cons_eq (p := []) hn hm hy.symm with ⟨w, hnil, -⟩ | ⟨y', rfl, hy'⟩
        · simp [hm] at hnil
        · obtain ⟨x', z', rfl, hin⟩ := ih hafter hy'
          exact ⟨before ++ (p ++ x'), z', by simp, hin⟩

end Flowly.Lib.Text
