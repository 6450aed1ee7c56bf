/-
  Flowly.Lib.Marked — texts that are cut at markers: where `find` finds a marker, the
  lines of a text, the blank lines at its edges, and universal newlines.

  A marker is a text whose first code point does not come again in it, so that two
  occurrences never overlap and none straddles the place where a marker is put
  (`Marker.find_append`).
-/

import Flowly.Lib.Text

namespace Flowly.Lib.Text

/-! ## Where `find` finds -/

theorem find_eq_none {sub t : Text} : find sub t = none ↔ ¬sub <:+: t := by
  induction t with
  | nil =>
    unfold find
    simp
  | cons c t ih =>
    unfold find
    rw [List.infix_cons_iff]
    split_ifs with h
    · simp [List.isPrefixOf_iff_prefix.1 h]
    · rw [Option.map_eq_none_iff, ih, not_or]
      exact (and_iff_right fun hp => h (List.isPrefixOf_iff_prefix.2 hp)).symm

/-- The first occurrence, with what stands before and after it. -/
theorem find_some {sub t : Text} {k : Nat} (h : find sub t = some k) :
    ∃ x y, t = x ++ sub ++ y ∧ x.length = k ∧ ∀ i < k, ¬sub <+: t.drop i := by
  induction t generalizing k with
  | nil =>
    unfold find at h
    split_ifs at h with hs
    obtain rfl := Option.some.inj h
    exact ⟨[], [], by rw [hs]; rfl, rfl, by simp⟩
  | cons c t ih =>
    unfold find at h
    split_ifs at h with hs
    · obtain rfl := Option.some.inj h
      obtain ⟨y, hy⟩ := List.isPrefixOf_iff_prefix.1 hs
      exact ⟨[], y, hy.symm, rfl, by simp⟩
    · obtain ⟨j, hj, rfl⟩ := Option.map_eq_some_iff.1 h
      obtain ⟨x, y, hxy, hlen, hno⟩ := ih hj
      refine ⟨c :: x, y, by rw [hxy]; rfl, by rw [List.length_cons, hlen], ?_⟩
      intro i hi
      cases i with
      | zero => exact fun hp => hs (List.isPrefixOf_iff_prefix.2 hp)
      | succ i => exact hno i (by omega)

theorem find_eq_of_first {sub x y : Text} (h : ∀ i < x.length, ¬sub <+: (x ++ (sub ++ y)).drop i) :
    find sub (x ++ (sub ++ y)) = some x.length := by
  induction x with
  | nil =>
    cases hs : sub ++ y with
    | nil =>
      rw [List.nil_append]
      unfold find
      rw [if_pos (List.append_eq_nil_iff.1 hs).1]
      rfl
    | cons c t =>
      rw [List.nil_append]
      unfold find
      rw [if_pos]
      · rfl
      · rw [List.isPrefixOf_iff_prefix, ← hs]
        exact List.prefix_append _ _
  | cons c x ih =>
    rw [List.cons_append]
    unfold find
    rw [if_neg, ih]
    · rfl
    · intro i hi
      exact h (i + 1) (by rw [List.length_cons]; omega)
    · rw [List.isPrefixOf_iff_prefix]
      exact h 0 (by rw [List.length_cons]; omega)

/-! ## Texts that avoid a code point -/

variable {m r x y : Text} {c : Char}

theorem prefix_of_not_mem (hc : c ∉ r) (h : r <+: x ++ c :: y) : r <+: x := by
  induction x generalizing r with
  | nil =>
    rcases List.prefix_cons_iff.1 h with rfl | ⟨t, rfl, -⟩
    · exact List.nil_prefix
    · exact absurd List.mem_cons_self hc
  | cons d x ih =>
    rcases List.prefix_cons_iff.1 h with rfl | ⟨t, rfl, ht⟩
    · exact List.nil_prefix
    · exact List.prefix_cons_iff.2 (.inr ⟨t, rfl, ih (fun hin => hc (List.mem_cons_of_mem _ hin)) ht⟩)

/-- What holds no separator occurs on one side of it. -/
theorem infix_append_cons (hc : c ∉ m) : m <:+: x ++ c :: y ↔ m <:+: x ∨ m <:+: y := by
  constructor
  · induction x with
    | nil =>
      intro h
      rcases List.infix_cons_iff.1 h with h | h
      · exact .inl (prefix_of_not_mem (x := []) hc h).isInfix
      · exact .inr h
    | cons d x ih =>
      intro h
      rcases List.infix_cons_iff.1 h with h | h
      · exact .inl (prefix_of_not_mem (x := d :: x) hc h).isInfix
      · rcases ih h with h | h
        · exact .inl (List.infix_cons_iff.2 (.inr h))
        · exact .inr h
  · intro h
    rcases h with h | h
    · exact h.trans (List.prefix_append _ _).isInfix
    · exact h.trans ((List.suffix_cons c y).trans (List.suffix_append _ _)).isInfix

/-- What starts with another code point occurs further on. -/
theorem infix_of_cons {d : Char} (hm : m ≠ []) (hd : m.head? ≠ some d) (h : m <:+: d :: x) : m <:+: x := by
  rcases List.infix_cons_iff.1 h with h | h
  · rcases List.prefix_cons_iff.1 h with hnil | ⟨r, hr, -⟩
    · exact absurd hnil hm
    · exact absurd (by rw [hr]; rfl) hd
  · exact h

theorem infix_join {ls : List Text} (hm : m ≠ []) (hc : c ∉ m) : m <:+: join [c] ls ↔ ∃ l ∈ ls, m <:+: l := by
  unfold join
  induction ls with
  | nil => simpa using hm
  | cons l ls ih =>
    cases ls with
    | nil => simp
    | cons l' ls =>
      rw [List.intercalate_cons_cons, List.append_assoc, List.singleton_append, infix_append_cons hc, ih]
      simp

theorem join_append {ls ls' : List Text} (h : ls ≠ []) (h' : ls' ≠ []) :
    join [c] (ls ++ ls') = join [c] ls ++ c :: join [c] ls' := by
  unfold join
  induction ls with
  | nil => exact absurd rfl h
  | cons l ls ih =>
    cases ls with
    | nil =>
      cases ls' with
      | nil => exact absurd rfl h'
      | cons l' ls' => rw [List.singleton_append, List.intercalate_cons_cons, List.append_assoc]; simp
    | cons l₂ ls =>
      rw [List.cons_append, List.cons_append, List.intercalate_cons_cons, List.intercalate_cons_cons, ← List.cons_append,
        ih (List.cons_ne_nil _ _), List.append_assoc, List.append_assoc, List.append_assoc]

/-! ## Markers -/

def Marker : Text → Prop
  | [] => False
  | c :: m => c ∉ m

instance : DecidablePred Marker
  | [] => isFalse id
  | c :: m => inferInstanceAs (Decidable (c ∉ m))

namespace Marker

theorem ne_nil (hm : Marker m) : m ≠ [] := by
  cases m with
  | nil => exact hm.elim
  | cons c m => exact List.cons_ne_nil _ _

/-- No occurrence starts before the place where the marker is put and ends after it. -/
theorem no_straddle (hm : Marker m) (hx : ¬m <:+: x) {i : Nat} (hi : i < x.length) : ¬m <+: (x ++ (m ++ y)).drop i := by
  intro hp
  cases m with
  | nil => exact hm
  | cons c m =>
    rw [List.drop_append_of_le_length (Nat.le_of_lt hi)] at hp
    cases hdrop : x.drop i with
    | nil =>
      have := List.drop_eq_nil_iff.1 hdrop
      omega
    | cons d rest =>
      rw [hdrop] at hp
      rcases List.prefix_cons_iff.1 hp with hnil | ⟨t, ht, hpre⟩
      · cases hnil
      · obtain ⟨rfl, rfl⟩ := List.cons.inj ht
        have hin : c :: m <+: x.drop i := hdrop ▸ List.prefix_cons_iff.2 (.inr ⟨m, rfl, prefix_of_not_mem hm hpre⟩)
        exact hx (hin.isInfix.trans (List.drop_suffix i x).isInfix)

/-- A marker is found where it is put, when it does not come before. -/
theorem find_append (hm : Marker m) (hx : ¬m <:+: x) (y : Text) : find m (x ++ (m ++ y)) = some x.length :=
  find_eq_of_first fun _ hi => hm.no_straddle hx hi

/-- The first occurrence of a marker cuts the text. -/
theorem find_some_iff (hm : Marker m) {t : Text} {k : Nat} :
    find m t = some k ↔ ∃ x y, t = x ++ (m ++ y) ∧ x.length = k ∧ ¬m <:+: x := by
  constructor
  · intro h
    obtain ⟨x, y, rfl, hlen, hno⟩ := find_some h
    refine ⟨x, y, List.append_assoc _ _ _, hlen, fun hin => ?_⟩
    obtain ⟨a, b, rfl⟩ := hin
    have hm0 := List.length_pos_iff.2 hm.ne_nil
    refine hno a.length ?_ ?_
    · rw [← hlen, List.length_append, List.length_append]
      omega
    · rw [List.append_assoc, List.append_assoc, List.append_assoc, List.drop_left]
      exact List.prefix_append _ _
  · intro h
    obtain ⟨x, y, rfl, rfl, hx⟩ := h
    exact hm.find_append hx y

end Marker

/-! ## Lines -/

/-- `t.split("\n")`. -/
def lines (t : Text) : List Text := t.splitOn '\n'

theorem lines_append_cons (x y : Text) : lines (x ++ '\n' :: y) = lines x ++ lines y := List.splitOn_append_cons_self x y

theorem lines_of_not_mem (h : '\n' ∉ x) : lines x = [x] := List.splitOn_eq_singleton h

theorem lines_ne_nil (t : Text) : lines t ≠ [] := List.splitOn_ne_nil _ _

theorem lines_join {ls : List Text} (h : ls ≠ []) : lines (join ['\n'] ls) = ls.flatMap lines := by
  unfold join
  induction ls with
  | nil => exact absurd rfl h
  | cons l ls ih =>
    cases ls with
    | nil => simp
    | cons l' ls =>
      rw [List.intercalate_cons_cons, List.append_assoc, List.singleton_append, lines_append_cons, ih (List.cons_ne_nil _ _)]
      rfl

/-- The code points of a line are those of the text. -/
theorem mem_of_mem_lines {l t : Text} (hl : l ∈ lines t) {d : Char} (hd : d ∈ l) : d ∈ t := by
  induction t generalizing l with
  | nil =>
    obtain rfl : l = [] := by simpa [lines] using hl
    cases hd
  | cons e t ih =>
    unfold lines at hl ih
    rw [List.splitOn_cons_eq_if_modifyHead] at hl
    split_ifs at hl
    · rcases List.mem_cons.1 hl with rfl | hl
      · cases hd
      · exact List.mem_cons_of_mem _ (ih hl hd)
    · cases hs : t.splitOn '\n' with
      | nil => exact absurd hs (List.splitOn_ne_nil _ _)
      | cons f rest =>
        rw [hs] at hl ih
        rcases List.mem_cons.1 hl with rfl | hl
        · rcases List.mem_cons.1 hd with rfl | hd
          · exact List.mem_cons_self
          · exact List.mem_cons_of_mem _ (ih List.mem_cons_self hd)
        · exact List.mem_cons_of_mem _ (ih (List.mem_cons_of_mem _ hl) hd)

/-- A code point that is no line end belongs to the first line. -/
theorem lines_cons (hc : c ≠ '\n') (t : Text) : ∃ l ls, lines t = l :: ls ∧ lines (c :: t) = (c :: l) :: ls := by
  cases hl : lines t with
  | nil => exact absurd hl (lines_ne_nil t)
  | cons l ls =>
    refine ⟨l, ls, rfl, ?_⟩
    unfold lines at hl ⊢
    rw [List.splitOn_cons_eq_if_modifyHead, if_neg (by simpa using hc), hl]
    rfl

theorem lines_newline (t : Text) : lines ('\n' :: t) = [] :: lines t := lines_append_cons [] t

/-- A whole line of the text: with the line ends around it, it does not start before the
    place where it is put. -/
theorem find_line {l x y : Text} (hl : '\n' ∉ l) (hx : l ∉ (lines x).tail) :
    find ('\n' :: (l ++ ['\n'])) (x ++ ('\n' :: (l ++ ['\n']) ++ y)) = some x.length := by
  refine find_eq_of_first ?_
  intro i hi hp
  induction x generalizing i with
  | nil => exact absurd hi (Nat.not_lt_zero _)
  | cons c x ih =>
    cases i with
    | succ i =>
      refine ih ?_ i (Nat.lt_of_succ_lt_succ hi) hp
      by_cases hc : c = '\n'
      · rw [hc, lines_newline] at hx
        exact fun hin => hx (List.mem_of_mem_tail hin)
      · obtain ⟨f, fs, hf, hcons⟩ := lines_cons hc x
        rw [hcons] at hx
        rw [hf]
        exact hx
    | zero =>
      obtain ⟨z, hz⟩ := hp
      obtain ⟨rfl, hrest⟩ := List.cons.inj hz
      rw [lines_newline] at hx
      have hrest' : l ++ '\n' :: z = x ++ '\n' :: (l ++ '\n' :: y) := by simpa using hrest
      have hlines := congrArg lines hrest'
      rw [lines_append_cons, lines_append_cons, lines_of_not_mem hl] at hlines
      cases hfirst : lines x with
      | nil => exact absurd hfirst (lines_ne_nil x)
      | cons f fs =>
        rw [hfirst] at hlines
        refine hx ?_
        rw [List.tail_cons, hfirst, (List.cons.inj hlines).1]
        exact List.mem_cons_self

theorem no_line {l t : Text} (hl : '\n' ∉ l) (ht : l ∉ (lines t).tail) : find ('\n' :: (l ++ ['\n'])) t = none := by
  rw [find_eq_none]
  intro hin
  obtain ⟨u, v, rfl⟩ := hin
  refine ht ?_
  rw [show u ++ '\n' :: (l ++ ['\n']) ++ v = u ++ '\n' :: (l ++ '\n' :: v) by simp, lines_append_cons, lines_append_cons,
    lines_of_not_mem hl]
  cases hu : lines u with
  | nil => exact absurd hu (lines_ne_nil u)
  | cons f fs => simp

/-! ## Blank lines at the edges -/

def isBlank (l : Text) : Bool := l.all isSpace

def trimLines (t : Text) : List Text := ((lines t).rdropWhile isBlank).dropWhile isBlank

/-- `t.rstrip("\n")`. -/
def rstripNewlines (t : Text) : Text := t.rdropWhile (· = '\n')

/-- `t.lstrip("\n")`. -/
def lstripNewlines (t : Text) : Text := t.dropWhile (· = '\n')

theorem trimLines_append_newline (t : Text) : trimLines (t ++ ['\n']) = trimLines t := by
  unfold trimLines
  rw [lines_append_cons t [], show lines [] = [[]] from rfl, List.rdropWhile_concat_pos isBlank (lines t) [] rfl]

theorem trimLines_rstripNewlines (t : Text) : trimLines (rstripNewlines t) = trimLines t := by
  unfold rstripNewlines
  induction t using List.reverseRecOn with
  | nil => rfl
  | append_singleton t c ih =>
    by_cases hc : c = '\n'
    · subst hc
      rw [List.rdropWhile_concat_pos _ _ _ (by simp), ih, trimLines_append_newline]
    · rw [List.rdropWhile_concat_neg _ _ _ (by simpa using hc)]

/-- A text of white space has no lines but blank ones. -/
theorem trimLines_of_space (t : Text) (h : ∀ c ∈ t, isSpace c = true) : trimLines t = [] := by
  unfold trimLines
  rw [List.rdropWhile_eq_nil_iff.2]
  · rfl
  · intro l hl
    exact List.all_eq_true.2 fun c hc => h c (mem_of_mem_lines hl hc)

/-! ## Universal newlines -/

/-- The rest of a text that is read in text mode, after a carriage return or not. -/
def universalFrom : Bool → Text → Text
  | _, [] => []
  | after, c :: t =>
    if after = true ∧ c = '\n' then universalFrom false t
    else (if c = '\r' then '\n' else c) :: universalFrom (decide (c = '\r')) t

theorem universalFrom_cons (b : Bool) (c : Char) (t : Text) : universalFrom b (c :: t) =
    if b = true ∧ c = '\n' then universalFrom false t
    else (if c = '\r' then '\n' else c) :: universalFrom (decide (c = '\r')) t := rfl

/-- A text as a file is read in text mode: `\r\n` and `\r` are `\n`. -/
def universal (t : Text) : Text := universalFrom false t

theorem universal_of_not_mem {t : Text} (h : '\r' ∉ t) : universal t = t := by
  unfold universal
  induction t with
  | nil => rfl
  | cons c t ih =>
    have hc : c ≠ '\r' := fun heq => h (heq ▸ List.mem_cons_self)
    rw [universalFrom_cons, if_neg (by simp), if_neg hc, decide_eq_false hc, ih fun hin => h (List.mem_cons_of_mem _ hin)]

theorem universalFrom_true {t : Text} (h : t.head? ≠ some '\n') : universalFrom true t = universal t := by
  cases t with
  | nil => rfl
  | cons c t =>
    have hc : c ≠ '\n' := fun heq => h (by rw [heq]; rfl)
    unfold universal
    have hno (b : Bool) : ¬(b = true ∧ c = '\n') := fun hand => hc hand.2
    rw [universalFrom_cons, universalFrom_cons, if_neg (hno _), if_neg (hno _)]

/-- Two texts are read one after the other, unless a line end falls apart between them. -/
theorem universal_append (h : x.getLast? ≠ some '\r' ∨ y.head? ≠ some '\n') : universal (x ++ y) = universal x ++ universal y := by
  have hfrom (b : Bool) : universalFrom b (x ++ y) =
      universalFrom b x ++ universalFrom ((x.getLast?.map fun c => decide (c = '\r')).getD b) y := by
    induction x generalizing b with
    | nil => rfl
    | cons c x ih =>
      have hlast (b : Bool) : ((c :: x).getLast?.map fun c => decide (c = '\r')).getD b =
          (x.getLast?.map fun c => decide (c = '\r')).getD (decide (c = '\r')) := by
        cases x with
        | nil => rfl
        | cons d x => rfl
      have hx : x.getLast? ≠ some '\r' ∨ y.head? ≠ some '\n' := by
        rcases h with h | h
        · cases x with
          | nil => exact .inl (by simp)
          | cons d x => exact .inl h
        · exact .inr h
      rw [List.cons_append, hlast, universalFrom_cons, universalFrom_cons]
      split_ifs with hb hc
      · rw [ih hx]
        congr 2
        simp [hb.2]
      · rw [ih hx, List.cons_append]
      · rw [ih hx, List.cons_append]
  unfold universal
  rw [hfrom]
  congr 1
  cases hlast : x.getLast? with
  | none => rfl
  | some c =>
    by_cases hc : c = '\r'
    · subst hc
      exact universalFrom_true (h.resolve_left fun hne => hne hlast)
    · simp [hc]

theorem prefix_of_universalFrom (hm : '\n' ∉ m) {b : Bool} {t : Text} (h : m <+: universalFrom b t) (hb : b = true → t.head? ≠ some '\n') :
    m <+: t := by
  induction t generalizing m b with
  | nil => exact h
  | cons c t ih =>
    rw [universalFrom_cons, if_neg (fun hand => hb hand.1 (by rw [hand.2]; rfl))] at h
    rcases List.prefix_cons_iff.1 h with rfl | ⟨r, rfl, hr⟩
    · exact List.nil_prefix
    · split_ifs at hm with hc
      · exact absurd List.mem_cons_self hm
      · rw [if_neg hc]
        refine List.prefix_cons_iff.2 (.inr ⟨r, rfl, ih (fun hin => hm (List.mem_cons_of_mem _ hin)) hr ?_⟩)
        intro hc'
        exact absurd (of_decide_eq_true hc') hc

/-- A text without line ends that comes in the text as it is read comes in the text. -/
theorem infix_of_universal (hm : '\n' ∉ m) {t : Text} (h : m <:+: universal t) : m <:+: t := by
  have hfrom (b : Bool) (hin : m <:+: universalFrom b t) : m <:+: t := by
    clear h
    induction t generalizing b with
    | nil => exact hin
    | cons c t ih =>
      by_cases hand : b = true ∧ c = '\n'
      · rw [universalFrom_cons, if_pos hand] at hin
        exact List.infix_cons_iff.2 (.inr (ih false hin))
      · by_cases hpre : m <+: universalFrom b (c :: t)
        · exact (prefix_of_universalFrom hm hpre fun hb heq => hand ⟨hb, Option.some.inj heq⟩).isInfix
        · rw [universalFrom_cons, if_neg hand] at hin hpre
          exact List.infix_cons_iff.2 (.inr (ih _ ((List.infix_cons_iff.1 hin).resolve_left hpre)))
  exact hfrom false h

theorem universal_cons (hc : c ≠ '\r') (t : Text) : universal (c :: t) = c :: universal t := by
  unfold universal
  rw [universalFrom_cons, if_neg (by simp), if_neg hc, decide_eq_false hc]

/-- Lines that end in no carriage return are read one by one. -/
theorem universal_join {ls : List Text} (h : ∀ l ∈ ls, l.getLast? ≠ some '\r') :
    universal (join ['\n'] ls) = join ['\n'] (ls.map universal) := by
  unfold join
  induction ls with
  | nil => rfl
  | cons l ls ih =>
    cases ls with
    | nil => simp
    | cons l' ls =>
      rw [List.intercalate_cons_cons, List.append_assoc, universal_append (.inl (h l List.mem_cons_self)), List.singleton_append,
        universal_cons (by decide), ih fun k hk => h k (List.mem_cons_of_mem _ hk), List.map_cons, List.map_cons,
        List.map_cons, List.intercalate_cons_cons, List.append_assoc, List.singleton_append]

/-- The edges of a text that are no white space are read as they are. -/
theorem universal_edges {t : Text} (hhead : ∀ c, t.head? = some c → isSpace c = false)
    (hlast : ∀ c, t.getLast? = some c → isSpace c = false) :
    (∀ c, (universal t).head? = some c → isSpace c = false) ∧ ∀ c, (universal t).getLast? = some c → isSpace c = false := by
  have hr : isSpace '\r' = true := by decide
  have hn : isSpace '\n' = true := by decide
  constructor
  · cases t with
    | nil => intro c hc; cases hc
    | cons d t =>
      have hd := hhead d rfl
      rw [universal_cons fun heq => by rw [heq, hr] at hd; cases hd]
      exact fun c hc => Option.some.inj hc ▸ hd
  · cases t using List.reverseRecOn with
    | nil => intro c hc; cases hc
    | append_singleton t d =>
      have hd := hlast d (by simp)
      have hdr : d ≠ '\r' := fun heq => by rw [heq, hr] at hd; cases hd
      have hdn : d ≠ '\n' := fun heq => by rw [heq, hn] at hd; cases hd
      rw [universal_append (.inr (by simpa using hdn)), universal_cons hdr]
      intro c hc
      have : d = c := by simpa [universal, universalFrom] using hc
      exact this ▸ hd

end Flowly.Lib.Text
