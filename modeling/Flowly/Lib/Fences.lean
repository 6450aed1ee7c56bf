/-
  Flowly.Lib.Fences — a text as words between runs of one code point `d`, and what
  replacing a fence leaves of it.

  A fence is a word with `k` times `d` on either side, and it is replaced by those `k`. In
  the words and runs of a text (`layout`, `render`) it is a word with a run of at least `k`
  on either side (`fence_within`), and the replacement takes the word out and joins the two
  runs, `k` of the one being used up (`strike`, `replace_render`). Runs never get shorter
  that were long enough for a fence, and no other run gets long enough, so the only fence
  left is one whose left run was used up by the fence before it: two of one word with a
  run of less than `2 * k` between them (`fenced_strike`).
-/

import Flowly.Lib.Replacing

namespace Flowly.Lib.Fences

open Flowly.Lib Text

abbrev Word := Text × Nat

/-- A run of `a`, and then the words with the runs behind them. -/
def render (d : Char) : Nat → List Word → Text
  | a, [] => List.replicate a d
  | a, (w, n) :: ws => List.replicate a d ++ (w ++ render d n ws)

def Proper (d : Char) : List Word → Prop
  | [] => True
  | (w, n) :: ws => w ≠ [] ∧ d ∉ w ∧ (ws ≠ [] → 1 ≤ n) ∧ Proper d ws

def layout (d : Char) : Text → Nat × List Word
  | [] => (0, [])
  | c :: t =>
    if c = d then ((layout d t).1 + 1, (layout d t).2)
    else match layout d t with
      | (0, (w, n) :: ws) => (0, (c :: w, n) :: ws)
      | (a, ws) => (0, ([c], a) :: ws)

variable {d : Char}

theorem render_succ (a : Nat) (ws : List Word) : render d (a + 1) ws = d :: render d a ws := by
  cases ws with
  | nil => rfl
  | cons w ws => rfl

theorem render_layout (t : Text) : render d (layout d t).1 (layout d t).2 = t := by
  induction t with
  | nil => rfl
  | cons c t ih =>
    rw [layout]
    split
    · rename_i hc
      rw [render_succ, ih, hc]
    · split
      · rename_i w n ws hl
        rw [hl] at ih
        simp only [render, List.replicate_zero, List.nil_append] at ih ⊢
        rw [← ih]
        rfl
      · rename_i a ws _ hl
        simp only [hl] at ih ⊢
        rw [render, ih]
        rfl

theorem proper_layout (t : Text) : Proper d (layout d t).2 := by
  induction t with
  | nil => exact trivial
  | cons c t ih =>
    rw [layout]
    split
    · exact ih
    · rename_i hc
      have hc' : d ≠ c := fun h => hc h.symm
      split
      · rename_i w n ws hl
        rw [hl] at ih
        obtain ⟨_, hw, hn, hws⟩ := ih
        exact ⟨by simp, by simp [hc', hw], hn, hws⟩
      · rename_i a ws hno hl
        rw [hl] at ih
        refine ⟨by simp, by simp [hc'], fun hne => ?_, ih⟩
        -- a run of zero before a word would have let the word grow
        cases a with
        | zero =>
          obtain ⟨x, xs, rfl⟩ := List.exists_cons_of_ne_nil hne
          exact (hno x.1 x.2 xs rfl rfl).elim
        | succ a => omega

/-! ## Prefixes of a rendered text -/

/-- What is rendered behind a word starts with `d` or is empty. -/
theorem render_head {n : Nat} {ws : List Word} (h : ws ≠ [] → 1 ≤ n) :
    render d n ws = [] ∨ ∃ r, render d n ws = d :: r := by
  cases n with
  | zero =>
    cases ws with
    | nil => exact Or.inl rfl
    | cons w ws => exact absurd (h (by simp)) (by omega)
  | succ n => exact Or.inr ⟨_, render_succ n ws⟩

/-- Words that end in `d` are prefixes word by word. -/
theorem word_begins {v w x y : Text} (hv : d ∉ v) (hw : d ∉ w) (hy : y = [] ∨ ∃ r, y = d :: r) :
    v ++ d :: x <+: w ++ y ↔ v = w ∧ d :: x <+: y := by
  constructor
  · intro h
    induction v generalizing w with
    | nil =>
      cases w with
      | nil => exact ⟨rfl, h⟩
      | cons c w =>
        obtain ⟨rfl, _⟩ := List.cons_prefix_cons.mp h
        exact absurd List.mem_cons_self hw
    | cons c v ih =>
      cases w with
      | nil =>
        rcases hy with rfl | ⟨r, rfl⟩
        · simp at h
        · obtain ⟨rfl, _⟩ := List.cons_prefix_cons.mp h
          exact absurd List.mem_cons_self hv
      | cons c' w =>
        obtain ⟨rfl, htail⟩ := List.cons_prefix_cons.mp h
        obtain ⟨rfl, h'⟩ := ih (fun hin => hv (List.mem_cons_of_mem _ hin)) (fun hin => hw (List.mem_cons_of_mem _ hin)) htail
        exact ⟨rfl, h'⟩
  · intro h
    obtain ⟨rfl, h⟩ := h
    exact (List.prefix_append_right_inj v).mpr h

/-- Runs before something that is not `d` are prefixes only when they are of one length. -/
theorem run_begins {m n : Nat} {x y : Text} (hx : ∃ c r, x = c :: r ∧ c ≠ d) (hy : ∀ r, y ≠ d :: r) :
    List.replicate m d ++ x <+: List.replicate n d ++ y ↔ m = n ∧ x <+: y := by
  constructor
  · intro h
    induction m generalizing n with
    | zero =>
      cases n with
      | zero => exact ⟨rfl, h⟩
      | succ n =>
        obtain ⟨c, r, rfl, hc⟩ := hx
        exact absurd (List.cons_prefix_cons.mp h).1 hc
    | succ m ih =>
      cases n with
      | zero =>
        obtain ⟨r, hr⟩ := h
        exact absurd hr.symm (hy _)
      | succ n =>
        obtain ⟨rfl, h'⟩ := ih (List.cons_prefix_cons.mp h).2
        exact ⟨rfl, h'⟩
  · intro h
    obtain ⟨rfl, h⟩ := h
    exact (List.prefix_append_right_inj _).mpr h

/-- A run is a prefix of one that is no shorter. -/
theorem run_within {k n : Nat} {y : Text} (hy : ∀ r, y ≠ d :: r) :
    List.replicate k d <+: List.replicate n d ++ y ↔ k ≤ n := by
  constructor
  · intro h
    induction k generalizing n with
    | zero => omega
    | succ k ih =>
      cases n with
      | zero =>
        obtain ⟨r, hr⟩ := h
        exact absurd hr.symm (hy _)
      | succ n =>
        have := ih (List.cons_prefix_cons.mp h).2
        omega
  · intro h
    obtain ⟨j, rfl⟩ := Nat.exists_eq_add_of_le h
    exact ⟨List.replicate j d ++ y, by rw [← List.append_assoc, ← List.replicate_add]⟩

/-! ## Fences and rows of them -/

variable {k : Nat} {last : Text} {gaps ws : List Word} {a n : Nat}

/-- The words `ws` begin with the words of `gaps`, with just these runs behind them, and with `last`
    before a run of at least `k`. -/
def Begins (k : Nat) (last : Text) : List Word → List Word → Prop
  | [], (w, n) :: _ => w = last ∧ k ≤ n
  | (g, m) :: gaps, (w, n) :: ws => w = g ∧ n = m ∧ Begins k last gaps ws
  | _, [] => False

/-- Somewhere behind a run of at least `k`. -/
def Fenced (k : Nat) (last : Text) (gaps : List Word) : Nat → List Word → Prop
  | _, [] => False
  | a, (w, n) :: ws => (k ≤ a ∧ Begins k last gaps ((w, n) :: ws)) ∨ Fenced k last gaps n ws

/-- The words of a row are words, and its runs are not empty. -/
def Row (d : Char) (last : Text) (gaps : List Word) : Prop :=
  (last ≠ [] ∧ d ∉ last) ∧ ∀ g ∈ gaps, g.1 ≠ [] ∧ d ∉ g.1 ∧ 1 ≤ g.2

theorem not_head {w x : Text} (hne : w ≠ []) (hw : d ∉ w) : ∃ c r, w ++ x = c :: r ∧ c ≠ d := by
  obtain ⟨c, r, rfl⟩ := List.exists_cons_of_ne_nil hne
  exact ⟨c, r ++ x, rfl, fun h => hw (by rw [h]; exact List.mem_cons_self)⟩

theorem ne_head {w x : Text} (hne : w ≠ []) (hw : d ∉ w) : ∀ r, w ++ x ≠ d :: r := by
  intro r h
  obtain ⟨c, r', hc, hcd⟩ := not_head (x := x) hne hw
  rw [hc] at h
  exact hcd (List.cons.inj h).1

/-- The row of `gaps` and `last`, without the run before it. -/
def rowText (d : Char) (k : Nat) (last : Text) : List Word → Text
  | [] => last ++ List.replicate k d
  | (g, m) :: gaps => g ++ (List.replicate m d ++ rowText d k last gaps)

theorem rowText_head (hrow : Row d last gaps) : ∃ c r, rowText d k last gaps = c :: r ∧ c ≠ d := by
  cases gaps with
  | nil => exact not_head hrow.1.1 hrow.1.2
  | cons g gaps =>
    have hg := hrow.2 g List.mem_cons_self
    exact not_head hg.1 hg.2.1

/-- A row with the run before it. -/
def fence (d : Char) (k : Nat) (last : Text) (gaps : List Word) : Text := List.replicate k d ++ rowText d k last gaps

def body (d : Char) : List Word → Text
  | [] => []
  | (w, n) :: ws => w ++ render d n ws

theorem render_body (a : Nat) (ws : List Word) : render d a ws = List.replicate a d ++ body d ws := by
  cases ws with
  | nil => exact (List.append_nil _).symm
  | cons w ws => rfl

theorem body_ne {ws : List Word} (h : Proper d ws) : ∀ r, body d ws ≠ d :: r := by
  cases ws with
  | nil => intro r h; cases h
  | cons w ws => exact ne_head h.1 h.2.1

theorem rowText_body (hk : 1 ≤ k) (hrow : Row d last gaps) (hws : Proper d ws) :
    rowText d k last gaps <+: body d ws ↔ Begins k last gaps ws := by
  induction gaps generalizing ws with
  | nil =>
    cases ws with
    | nil => simp [rowText, body, Begins, hrow.1.1]
    | cons x ws =>
      obtain ⟨w, n⟩ := x
      obtain ⟨_, hw, hn, hws'⟩ := hws
      obtain ⟨k', rfl⟩ : ∃ k', k = k' + 1 := ⟨k - 1, by omega⟩
      show last ++ d :: List.replicate k' d <+: w ++ render d n ws ↔ w = last ∧ k' + 1 ≤ n
      rw [word_begins hrow.1.2 hw (render_head hn), render_body]
      show last = w ∧ List.replicate (k' + 1) d <+: _ ↔ _
      rw [run_within (body_ne hws')]
      exact and_congr_left fun _ => eq_comm
  | cons g gaps ih =>
    obtain ⟨g, m⟩ := g
    have hg := hrow.2 (g, m) List.mem_cons_self
    have hrow' : Row d last gaps := ⟨hrow.1, fun x hx => hrow.2 x (List.mem_cons_of_mem _ hx)⟩
    cases ws with
    | nil => simp [rowText, body, Begins, hg.1]
    | cons x ws =>
      obtain ⟨w, n⟩ := x
      obtain ⟨_, hw, hn, hws'⟩ := hws
      have hm : List.replicate m d ++ rowText d k last gaps = d :: (List.replicate (m - 1) d ++ rowText d k last gaps) := by
        obtain ⟨m', rfl⟩ : ∃ m', m = m' + 1 := ⟨m - 1, by have := hg.2.2; omega⟩
        rfl
      show g ++ (List.replicate m d ++ rowText d k last gaps) <+: w ++ render d n ws ↔ w = g ∧ n = m ∧ Begins k last gaps ws
      rw [hm, word_begins hg.2.1 hw (render_head hn), ← hm, render_body,
        run_begins (rowText_head hrow') (body_ne hws'), ih hrow' hws']
      exact and_congr eq_comm (and_congr_left fun _ => eq_comm)

theorem fence_render (hk : 1 ≤ k) (hrow : Row d last gaps) (hws : Proper d ws) :
    fence d k last gaps <+: render d a ws ↔ k = a ∧ Begins k last gaps ws := by
  rw [fence, render_body, run_begins (rowText_head hrow) (body_ne hws), rowText_body hk hrow hws]

theorem fence_ne_nil (hk : 1 ≤ k) : fence d k last gaps ≠ [] := by
  obtain ⟨k', rfl⟩ : ∃ k', k = k' + 1 := ⟨k - 1, by omega⟩
  exact List.cons_ne_nil _ _

theorem fence_head (hk : 1 ≤ k) : (fence d k last gaps).head? = some d := by
  obtain ⟨k', rfl⟩ : ∃ k', k = k' + 1 := ⟨k - 1, by omega⟩
  rfl

/-- No fence starts in a word. -/
theorem infix_word (hk : 1 ≤ k) {w y : Text} (hw : d ∉ w) : fence d k last gaps <:+: w ++ y ↔ fence d k last gaps <:+: y := by
  constructor
  · intro h
    induction w with
    | nil => exact h
    | cons c w ih =>
      refine ih (fun hin => hw (List.mem_cons_of_mem _ hin)) (infix_of_cons (fence_ne_nil hk) ?_ h)
      rw [fence_head hk]
      intro hc
      exact hw (by rw [Option.some.inj hc]; exact List.mem_cons_self)
  · intro h
    exact h.trans (List.suffix_append w y).isInfix

/-- Where a row stands in a text, in its words and runs. -/
theorem fence_within (hk : 1 ≤ k) (hrow : Row d last gaps) (hws : Proper d ws) :
    fence d k last gaps <:+: render d a ws ↔ Fenced k last gaps a ws := by
  -- a row may start anywhere in a run that is long enough
  have hrun : ∀ (ws : List Word), Proper d ws → ∀ a, fence d k last gaps <:+: render d a ws ↔
      (k ≤ a ∧ Begins k last gaps ws) ∨ fence d k last gaps <:+: body d ws := by
    intro ws hws a
    induction a with
    | zero =>
      rw [render_body]
      constructor
      · intro h; exact Or.inr h
      · intro h; exact h.resolve_left (by omega)
    | succ a ih =>
      rw [render_succ, List.infix_cons_iff, ← render_succ, fence_render hk hrow hws, ih]
      constructor
      · intro h
        rcases h with ⟨h, hb⟩ | ⟨h, hb⟩ | h
        · exact Or.inl ⟨by omega, hb⟩
        · exact Or.inl ⟨by omega, hb⟩
        · exact Or.inr h
      · intro h
        rcases h with ⟨h, hb⟩ | h
        · by_cases ha : k = a + 1
          · exact Or.inl ⟨ha, hb⟩
          · exact Or.inr (Or.inl ⟨by omega, hb⟩)
        · exact Or.inr (Or.inr h)
  induction ws generalizing a with
  | nil =>
    rw [hrun [] hws a]
    cases gaps <;> simp [Begins, Fenced, body, fence_ne_nil hk]
  | cons x ws ih =>
    obtain ⟨w, n⟩ := x
    have htail : fence d k last gaps <:+: render d n ws ↔ Fenced k last gaps n ws := ih hws.2.2.2
    rw [hrun _ hws a, body, infix_word hk hws.2.1, htail, Fenced]

/-! ## Taking fenced words out -/

/-- The runs and words after every fence of `word`, left to right, is replaced by `k` times `d`. -/
def strike (k : Nat) (word : Text) : Nat → List Word → Nat × List Word
  | a, [] => (a, [])
  | a, (w, n) :: ws =>
    if w = word ∧ k ≤ a ∧ k ≤ n then (a + (strike k word (n - k) ws).1, (strike k word (n - k) ws).2)
    else (a, (w, (strike k word n ws).1) :: (strike k word n ws).2)

variable {word : Text}

theorem replicate_render (j n : Nat) (ws : List Word) : List.replicate j d ++ render d n ws = render d (j + n) ws := by
  rw [render_body, render_body, ← List.append_assoc, ← List.replicate_add]

/-- No fence starts in the first part of a text. -/
theorem replace_skip {old new x y : Text} (h : ∀ i < x.length, ¬old <+: (x ++ y).drop i) :
    replace (x ++ y) old new = x ++ replace y old new := by
  induction x with
  | nil => rfl
  | cons c x ih =>
    have h0 : ¬old <+: c :: (x ++ y) := h 0 (by simp)
    rw [List.cons_append, replace_cons h0, ih]
    · rfl
    · intro i hi
      exact h (i + 1) (by simpa using hi)

theorem drop_run {a i : Nat} (hi : i ≤ a) (ws : List Word) : (render d a ws).drop i = render d (a - i) ws := by
  rw [render_body, List.drop_append_of_le_length (by simpa using hi), List.drop_replicate, ← render_body]

/-- The run before a fence that does not start in it. -/
theorem replace_run (hk : 1 ≤ k) (hrow : Row d last gaps) (hws : Proper d ws) (new : Text)
    (hno : ¬(k ≤ a ∧ Begins k last gaps ws)) :
    replace (render d a ws) (fence d k last gaps) new = List.replicate a d ++ replace (body d ws) (fence d k last gaps) new := by
  rw [render_body]
  refine replace_skip fun i hi => ?_
  rw [List.length_replicate] at hi
  rw [← render_body, drop_run (by omega), fence_render hk hrow hws]
  intro h
  exact hno ⟨by omega, h.2⟩

theorem replace_word (hk : 1 ≤ k) {w y : Text} (hw : d ∉ w) (new : Text) :
    replace (w ++ y) (fence d k last gaps) new = w ++ replace y (fence d k last gaps) new := by
  refine replace_skip fun i hi h => hw ?_
  have hd : (fence d k last gaps).head? = some d := fence_head hk
  obtain ⟨r, hr⟩ := h
  have hhead : ((w ++ y).drop i).head? = some d := by
    rw [← hr, List.head?_append, hd]
    rfl
  rw [List.drop_append_of_le_length (by omega)] at hhead
  obtain ⟨c, rest, hdrop⟩ := List.exists_cons_of_length_pos (show 0 < (w.drop i).length by rw [List.length_drop]; omega)
  rw [hdrop] at hhead
  have hc : c = d := Option.some.inj hhead
  exact hc ▸ List.mem_of_mem_drop (hdrop ▸ List.mem_cons_self : c ∈ w.drop i)

/-- Replacing a fence by its run, in the words and runs of the text. -/
theorem replace_render (hk : 1 ≤ k) (hword : word ≠ [] ∧ d ∉ word) (hws : Proper d ws) :
    replace (render d a ws) (fence d k word []) (List.replicate k d) =
      render d (strike k word a ws).1 (strike k word a ws).2 := by
  have hrow : Row d word [] := ⟨hword, by simp⟩
  induction ws generalizing a with
  | nil =>
    rw [replace_run hk hrow hws _ (by simp [Begins]), body, replace_nil, strike, render, List.append_nil]
  | cons x ws ih =>
    obtain ⟨w, n⟩ := x
    by_cases hstruck : w = word ∧ k ≤ a ∧ k ≤ n
    · obtain ⟨rfl, ha, hn⟩ := hstruck
      -- the runs on either side are split where the fence is
      have hleft : List.replicate a d = List.replicate (a - k) d ++ List.replicate k d := by
        rw [← List.replicate_add, Nat.sub_add_cancel ha]
      have hright : render d n ws = List.replicate k d ++ render d (n - k) ws := by
        rw [replicate_render, Nat.add_sub_cancel' hn]
      have hsplit : render d a ((w, n) :: ws) = List.replicate (a - k) d ++ (fence d k w [] ++ render d (n - k) ws) := by
        rw [render, hleft, hright, fence, rowText]
        simp only [List.append_assoc]
      have hskip : ∀ i < (List.replicate (a - k) d).length,
          ¬fence d k w [] <+: (List.replicate (a - k) d ++ (fence d k w [] ++ render d (n - k) ws)).drop i := by
        intro i hi
        rw [List.length_replicate] at hi
        rw [← hsplit, drop_run (by omega), fence_render hk hrow hws]
        intro h
        omega
      rw [hsplit, replace_skip hskip, replace_append (fence_ne_nil hk), ih hws.2.2.2, strike, if_pos ⟨rfl, ha, hn⟩,
        ← replicate_render, hleft, List.append_assoc]
    · rw [replace_run hk hrow hws _ (fun h => hstruck ⟨h.2.1, h.1, h.2.2⟩), body, replace_word hk hws.2.1, ih hws.2.2.2,
        strike, if_neg hstruck, render]

/-! ## What a replacement leaves fenced -/

theorem strike_struck {ws : List Word} (ha : k ≤ a) (hn : k ≤ n) :
    strike k word a ((word, n) :: ws) = (a + (strike k word (n - k) ws).1, (strike k word (n - k) ws).2) := by
  rw [strike, if_pos ⟨rfl, ha, hn⟩]

theorem strike_kept {w : Text} (h : ¬(w = word ∧ k ≤ a ∧ k ≤ n)) :
    strike k word a ((w, n) :: ws) = (a, (w, (strike k word n ws).1) :: (strike k word n ws).2) := by
  rw [strike, if_neg h]

/-- A run grows only where it was long enough for a fence. -/
theorem strike_run (k : Nat) (word : Text) (a : Nat) (ws : List Word) :
    a ≤ (strike k word a ws).1 ∧ (k ≤ (strike k word a ws).1 ↔ k ≤ a) := by
  cases ws with
  | nil => exact ⟨Nat.le_refl a, Iff.rfl⟩
  | cons x ws =>
    obtain ⟨w, n⟩ := x
    rw [strike]
    split
    · rename_i h
      exact ⟨Nat.le_add_right _ _, fun _ => h.2.1, fun _ => by omega⟩
    · exact ⟨Nat.le_refl a, Iff.rfl⟩

theorem proper_strike (hws : Proper d ws) : Proper d (strike k word a ws).2 := by
  induction ws generalizing a with
  | nil => exact trivial
  | cons x ws ih =>
    obtain ⟨w, n⟩ := x
    obtain ⟨hne, hw, hn, hws'⟩ := hws
    rw [strike]
    split
    · exact ih hws'
    · refine ⟨hne, hw, fun hrest => ?_, ih hws'⟩
      have hws : ws ≠ [] := by
        intro h
        subst h
        exact hrest rfl
      exact Nat.le_trans (hn hws) (strike_run k word n ws).1

/-- A fence asks of the run before it only that it is long enough. -/
theorem fenced_run {a b : Nat} (h : k ≤ a ↔ k ≤ b) : Fenced k last gaps a ws ↔ Fenced k last gaps b ws := by
  cases ws with
  | nil => exact Iff.rfl
  | cons x ws =>
    obtain ⟨w, n⟩ := x
    rw [Fenced, Fenced, h]

/-- Two of one word with a run between them that is too short for both fences. -/
def Twice (k : Nat) (word : Text) (a : Nat) (ws : List Word) : Prop :=
  ∃ n, k ≤ n ∧ n < 2 * k ∧ Fenced k word [(word, n)] a ws

/-- Two of `word` around one of `other`, with runs that are too short once `other` is gone. -/
def Around (k : Nat) (word other : Text) (a : Nat) (ws : List Word) : Prop :=
  ∃ n m, k ≤ n ∧ k ≤ m ∧ n + m < 3 * k ∧ Fenced k word [(word, n), (other, m)] a ws

theorem twice_cons {w : Text} : Twice k word a ((w, n) :: ws) ↔
    (k ≤ a ∧ w = word ∧ (k ≤ n ∧ n < 2 * k) ∧ Begins k word [] ws) ∨ Twice k word n ws := by
  constructor
  · intro h
    obtain ⟨x, hx, hx', hf⟩ := h
    rcases hf with ⟨ha, hw, hn, hb⟩ | hf
    · exact Or.inl ⟨ha, hw, by omega, hb⟩
    · exact Or.inr ⟨x, hx, hx', hf⟩
  · intro h
    rcases h with ⟨ha, hw, hn, hb⟩ | ⟨x, hx, hx', hf⟩
    · exact ⟨n, hn.1, hn.2, Or.inl ⟨ha, hw, rfl, hb⟩⟩
    · exact ⟨x, hx, hx', Or.inr hf⟩

theorem around_cons {other w : Text} : Around k word other a ((w, n) :: ws) ↔
    (k ≤ a ∧ w = word ∧ k ≤ n ∧ ∃ m rest, ws = (other, m) :: rest ∧ k ≤ m ∧ n + m < 3 * k ∧ Begins k word [] rest) ∨
      Around k word other n ws := by
  constructor
  · intro h
    obtain ⟨x, m, hx, hm, hlt, hf⟩ := h
    rcases hf with ⟨ha, hw, hn, hb⟩ | hf
    · cases ws with
      | nil => exact hb.elim
      | cons y rest =>
        obtain ⟨v, p⟩ := y
        obtain ⟨hv, hp, hb⟩ := hb
        exact Or.inl ⟨ha, hw, by omega, m, rest, by rw [hv, hp], hm, by omega, hb⟩
    · exact Or.inr ⟨x, m, hx, hm, hlt, hf⟩
  · intro h
    rcases h with ⟨ha, hw, hn, m, rest, hws, hm, hlt, hb⟩ | ⟨x, m, hx, hm, hlt, hf⟩
    · subst hws
      exact ⟨n, m, hn, hm, hlt, Or.inl ⟨ha, hw, rfl, rfl, rfl, hb⟩⟩
    · exact ⟨x, m, hx, hm, hlt, Or.inr hf⟩

theorem twice_run {a b : Nat} (h : k ≤ a ↔ k ≤ b) : Twice k word a ws ↔ Twice k word b ws := by
  simp only [Twice, fenced_run h]

variable {other : Text}

theorem around_run {a b : Nat} (h : k ≤ a ↔ k ≤ b) : Around k word other a ws ↔ Around k word other b ws := by
  simp only [Around, fenced_run h]

/-- What the fence of a word leaves of that word: behind a run of its own (`a`), and behind `e` more
    that the fences before it have left. -/
theorem fenced_strike_from (k : Nat) (word : Text) : ∀ (ws : List Word) (a : Nat),
    (Fenced k word [] (strike k word a ws).1 (strike k word a ws).2 ↔ Twice k word a ws) ∧
    ∀ e, k ≤ e → (Fenced k word [] (e + (strike k word a ws).1) (strike k word a ws).2 ↔
      (a < k ∧ Begins k word [] ws) ∨ Twice k word a ws) := by
  intro ws
  induction ws with
  | nil => intro a; simp [strike, Fenced, Twice, Begins]
  | cons x ws ih =>
    intro a
    obtain ⟨w, n⟩ := x
    by_cases hstruck : w = word ∧ k ≤ a ∧ k ≤ n
    · obtain ⟨rfl, ha, hn⟩ := hstruck
      -- the run behind the fence is short by `k` for the next one
      have hrest : ∀ e, k ≤ e → (Fenced k w [] (e + (strike k w (n - k) ws).1) (strike k w (n - k) ws).2 ↔
          Twice k w a ((w, n) :: ws)) := by
        intro e he
        rw [(ih (n - k)).2 e he, twice_cons]
        by_cases hshort : n - k < k
        · have hmid : k ≤ n ∧ n < 2 * k := by omega
          constructor
          · intro h
            rcases h with ⟨_, hb⟩ | ht
            · exact Or.inl ⟨ha, rfl, hmid, hb⟩
            · cases ws with
              | nil => obtain ⟨_, _, _, hf⟩ := ht; exact hf.elim
              | cons y ws =>
                obtain ⟨v, m⟩ := y
                rw [twice_cons] at ht
                rcases ht with ht | ht
                · omega
                · exact Or.inr (twice_cons.mpr (Or.inr ht))
          · intro h
            rcases h with ⟨_, _, _, hb⟩ | ht
            · exact Or.inl ⟨hshort, hb⟩
            · cases ws with
              | nil => obtain ⟨_, _, _, hf⟩ := ht; exact hf.elim
              | cons y ws =>
                obtain ⟨v, m⟩ := y
                rw [twice_cons] at ht
                rcases ht with ⟨_, hv, hm, _⟩ | ht
                · exact Or.inl ⟨hshort, hv, hm.1⟩
                · exact Or.inr (twice_cons.mpr (Or.inr ht))
        · have hlong : k ≤ n - k ↔ k ≤ n := by omega
          rw [twice_run hlong]
          constructor
          · intro h
            exact Or.inr (h.resolve_left fun h => hshort h.1)
          · intro h
            rcases h with ⟨_, _, hmid, _⟩ | ht
            · omega
            · exact Or.inr ht
      rw [strike_struck ha hn]
      refine ⟨hrest a ha, fun e he => ?_⟩
      rw [← Nat.add_assoc, hrest (e + a) (by omega)]
      constructor
      · intro h; exact Or.inr h
      · intro h; exact h.resolve_left (by omega)
    · have hrun := (strike_run k word n ws).2
      have htail := (ih n).1
      rw [strike_kept hstruck]
      constructor
      · show (k ≤ a ∧ w = word ∧ k ≤ (strike k word n ws).1) ∨ _ ↔ _
        rw [hrun, htail, twice_cons]
        constructor
        · intro h
          rcases h with ⟨ha, hw, hn⟩ | h
          · exact absurd ⟨hw, ha, hn⟩ hstruck
          · exact Or.inr h
        · intro h
          rcases h with ⟨ha, hw, hn, _⟩ | h
          · exact absurd ⟨hw, ha, hn.1⟩ hstruck
          · exact Or.inr h
      · intro e he
        show (k ≤ e + a ∧ w = word ∧ k ≤ (strike k word n ws).1) ∨ _ ↔ _
        rw [hrun, htail, twice_cons]
        constructor
        · intro h
          rcases h with ⟨_, hw, hn⟩ | h
          · exact Or.inl ⟨Nat.lt_of_not_le fun ha => hstruck ⟨hw, ha, hn⟩, hw, hn⟩
          · exact Or.inr (Or.inr h)
        · intro h
          rcases h with ⟨_, hw, hn⟩ | ⟨ha, hw, hn, _⟩ | h
          · exact Or.inl ⟨by omega, hw, hn⟩
          · exact absurd ⟨hw, ha, hn.1⟩ hstruck
          · exact Or.inr h

/-- The fences that are left after the fences of a word are taken out. -/
theorem fenced_strike (k : Nat) (word : Text) (a : Nat) (ws : List Word) :
    Fenced k word [] (strike k word a ws).1 (strike k word a ws).2 ↔ Twice k word a ws :=
  (fenced_strike_from k word ws a).1

/-- Taking the fences of a word out leaves the fences of another word as they were. -/
theorem fenced_other (hne : other ≠ word) : ∀ (ws : List Word) (a e : Nat),
    Fenced k other [] (e + (strike k word a ws).1) (strike k word a ws).2 ↔ Fenced k other [] (e + a) ws := by
  intro ws
  induction ws with
  | nil => intro a e; exact Iff.rfl
  | cons x ws ih =>
    intro a e
    obtain ⟨w, n⟩ := x
    by_cases hstruck : w = word ∧ k ≤ a ∧ k ≤ n
    · obtain ⟨rfl, ha, hn⟩ := hstruck
      rw [strike_struck ha hn]
      show Fenced k other [] (e + (a + _)) _ ↔ (k ≤ e + a ∧ w = other ∧ k ≤ n) ∨ Fenced k other [] n ws
      rw [← Nat.add_assoc, ih (n - k) (e + a), fenced_run (show k ≤ e + a + (n - k) ↔ k ≤ n by omega)]
      constructor
      · intro h; exact Or.inr h
      · intro h; exact h.resolve_left fun h => hne h.2.1.symm
    · have hrun := (strike_run k word n ws).2
      have htail := ih n 0
      rw [Nat.zero_add, Nat.zero_add] at htail
      rw [strike_kept hstruck]
      show (k ≤ e + a ∧ w = other ∧ k ≤ (strike k word n ws).1) ∨ _ ↔ (k ≤ e + a ∧ w = other ∧ k ≤ n) ∨ _
      rw [hrun, htail]

/-- Where a word comes first after the fences of another are taken out: it did before, or one of those
    fences was in front of it. -/
theorem begins_strike (hne : other ≠ word) (hn : k ≤ n) :
    ((strike k word n ws).1 < 2 * k ∧ Begins k other [] (strike k word n ws).2) ↔
      (n < 2 * k ∧ Begins k other [] ws) ∨
        ∃ m rest, ws = (word, m) :: rest ∧ k ≤ m ∧ n + m < 3 * k ∧ Begins k other [] rest := by
  cases ws with
  | nil => simp [strike, Begins]
  | cons y ws =>
    obtain ⟨v, m⟩ := y
    by_cases hstruck : v = word ∧ k ≤ n ∧ k ≤ m
    · obtain ⟨rfl, _, hm⟩ := hstruck
      rw [strike_struck hn hm]
      have hgone : Begins k other [] ((v, m) :: ws) ↔ False := iff_false_intro fun h => hne h.1.symm
      rw [hgone, and_false, false_or]
      -- a second fence right behind would leave a run that is long enough
      have hsecond : (n + (strike k v (m - k) ws).1 < 2 * k ∧ Begins k other [] (strike k v (m - k) ws).2) ↔
          n + m < 3 * k ∧ Begins k other [] ws := by
        cases ws with
        | nil => simp [strike, Begins]
        | cons z ws =>
          obtain ⟨u, p⟩ := z
          by_cases hagain : u = v ∧ k ≤ m - k ∧ k ≤ p
          · obtain ⟨rfl, hk', hp⟩ := hagain
            rw [strike_struck hk' hp]
            constructor
            · intro h; omega
            · intro h; exact absurd h.2.1.symm hne
          · rw [strike_kept hagain]
            show (n + (m - k) < 2 * k ∧ u = other ∧ k ≤ (strike k v p ws).1) ↔ (n + m < 3 * k ∧ u = other ∧ k ≤ p)
            rw [(strike_run k v p ws).2]
            constructor
            · intro h; exact ⟨by omega, h.2⟩
            · intro h; exact ⟨by omega, h.2⟩
      rw [hsecond]
      constructor
      · intro h
        exact ⟨m, ws, rfl, hm, h⟩
      · intro h
        obtain ⟨m', rest, heq, _, hlt⟩ := h
        obtain ⟨hhead, rfl⟩ := List.cons.inj heq
        obtain ⟨_, rfl⟩ := Prod.mk.inj hhead
        exact hlt
    · rw [strike_kept hstruck]
      show (n < 2 * k ∧ v = other ∧ k ≤ (strike k word m ws).1) ↔ _
      rw [(strike_run k word m ws).2]
      constructor
      · intro h
        exact Or.inl h
      · intro h
        rcases h with h | ⟨m', rest, heq, hm, _⟩
        · exact h
        · obtain ⟨hhead, rfl⟩ := List.cons.inj heq
          obtain ⟨hv, rfl⟩ := Prod.mk.inj hhead
          exact absurd ⟨hv, hn, hm⟩ hstruck

/-- The pairs of a word after the fences of another are taken out: they were pairs, or they stood
    around one of those fences. -/
theorem twice_strike (hne : other ≠ word) : ∀ (ws : List Word) (a e : Nat),
    Twice k other (e + (strike k word a ws).1) (strike k word a ws).2 ↔
      Twice k other (e + a) ws ∨ Around k other word (e + a) ws := by
  intro ws
  induction ws with
  | nil =>
    intro a e
    constructor
    · intro h; exact Or.inl h
    · intro h; exact h.resolve_right fun ⟨_, _, _, _, _, hf⟩ => hf
  | cons x ws ih =>
    intro a e
    obtain ⟨w, n⟩ := x
    by_cases hstruck : w = word ∧ k ≤ a ∧ k ≤ n
    · obtain ⟨rfl, ha, hn⟩ := hstruck
      have hrun : k ≤ e + a + (n - k) ↔ k ≤ n := by omega
      rw [strike_struck ha hn]
      show Twice k other (e + (a + _)) _ ↔ _
      rw [← Nat.add_assoc, ih (n - k) (e + a), twice_run hrun, around_run hrun, twice_cons, around_cons]
      constructor
      · intro h; exact h.imp Or.inr Or.inr
      · intro h
        exact h.imp (fun h => h.resolve_left fun h => hne h.2.1.symm) fun h => h.resolve_left fun h => hne h.2.1.symm
    · have htail := ih n 0
      rw [Nat.zero_add, Nat.zero_add] at htail
      rw [strike_kept hstruck, twice_cons, twice_cons, around_cons, htail]
      have hrun := (strike_run k word n ws).2
      have hbegins : k ≤ n → (((strike k word n ws).1 < 2 * k ∧ Begins k other [] (strike k word n ws).2) ↔ _) :=
        fun hn => begins_strike hne hn
      constructor
      · intro h
        rcases h with ⟨ha, hw, ⟨hk, hlt⟩, hb⟩ | h | h
        · rcases (hbegins (hrun.mp hk)).mp ⟨hlt, hb⟩ with ⟨hlt', hb'⟩ | h
          · exact Or.inl (Or.inl ⟨ha, hw, ⟨hrun.mp hk, hlt'⟩, hb'⟩)
          · exact Or.inr (Or.inl ⟨ha, hw, hrun.mp hk, h⟩)
        · exact Or.inl (Or.inr h)
        · exact Or.inr (Or.inr h)
      · intro h
        rcases h with (⟨ha, hw, hn, hb⟩ | h) | ⟨ha, hw, hn, h⟩ | h
        · obtain ⟨hlt, hb'⟩ := (hbegins hn.1).mpr (Or.inl ⟨hn.2, hb⟩)
          exact Or.inl ⟨ha, hw, ⟨hrun.mpr hn.1, hlt⟩, hb'⟩
        · exact Or.inr (Or.inl h)
        · obtain ⟨hlt, hb'⟩ := (hbegins hn).mpr (Or.inr h)
          exact Or.inl ⟨ha, hw, ⟨hrun.mpr hn, hlt⟩, hb'⟩
        · exact Or.inr (Or.inr h)

/-! ## Two fences taken out of a text -/

def Pair (d : Char) (k : Nat) (word t : Text) : Prop :=
  ∃ n, k ≤ n ∧ n < 2 * k ∧ fence d k word [(word, n)] <:+: t

/-- Two fences of a word around one of another, with less than three runs between them. -/
def Enclosed (d : Char) (k : Nat) (word other t : Text) : Prop :=
  ∃ n m, k ≤ n ∧ k ≤ m ∧ n + m < 3 * k ∧ fence d k word [(word, n), (other, m)] <:+: t

theorem row_pair {n : Nat} (hk : 1 ≤ k) (hword : word ≠ [] ∧ d ∉ word) (hn : k ≤ n) : Row d word [(word, n)] := by
  refine ⟨hword, fun g hg => ?_⟩
  rw [List.mem_singleton.mp hg]
  exact ⟨hword.1, hword.2, by show 1 ≤ n; omega⟩

theorem pair_layout (hk : 1 ≤ k) (hword : word ≠ [] ∧ d ∉ word) (hws : Proper d ws) :
    Pair d k word (render d a ws) ↔ Twice k word a ws := by
  constructor
  · intro h
    obtain ⟨n, hn, hlt, hin⟩ := h
    exact ⟨n, hn, hlt, (fence_within hk (row_pair hk hword hn) hws).mp hin⟩
  · intro h
    obtain ⟨n, hn, hlt, hf⟩ := h
    exact ⟨n, hn, hlt, (fence_within hk (row_pair hk hword hn) hws).mpr hf⟩

theorem row_enclosed {n m : Nat} (hk : 1 ≤ k) (hword : word ≠ [] ∧ d ∉ word) (hother : other ≠ [] ∧ d ∉ other)
    (hn : k ≤ n) (hm : k ≤ m) : Row d word [(word, n), (other, m)] := by
  refine ⟨hword, fun g hg => ?_⟩
  rcases List.mem_cons.mp hg with rfl | hg
  · exact ⟨hword.1, hword.2, by show 1 ≤ n; omega⟩
  · rw [List.mem_singleton.mp hg]
    exact ⟨hother.1, hother.2, by show 1 ≤ m; omega⟩

theorem enclosed_layout (hk : 1 ≤ k) (hword : word ≠ [] ∧ d ∉ word) (hother : other ≠ [] ∧ d ∉ other)
    (hws : Proper d ws) : Enclosed d k word other (render d a ws) ↔ Around k word other a ws := by
  constructor
  · intro h
    obtain ⟨n, m, hn, hm, hlt, hin⟩ := h
    exact ⟨n, m, hn, hm, hlt, (fence_within hk (row_enclosed hk hword hother hn hm) hws).mp hin⟩
  · intro h
    obtain ⟨n, m, hn, hm, hlt, hf⟩ := h
    exact ⟨n, m, hn, hm, hlt, (fence_within hk (row_enclosed hk hword hother hn hm) hws).mpr hf⟩

/-- Replacing the fences of one word and then those of another leaves a fence exactly where two of one
    word shared a run, or two of the second did once the first word was gone from between them. -/
theorem replace_two {first second : Text} (hk : 1 ≤ k) (hfirst : first ≠ [] ∧ d ∉ first)
    (hsecond : second ≠ [] ∧ d ∉ second) (hne : first ≠ second) (t : Text) :
    (fence d k first [] <:+: replace (replace t (fence d k first []) (List.replicate k d)) (fence d k second [])
        (List.replicate k d) ↔ Pair d k first t) ∧
    (fence d k second [] <:+: replace (replace t (fence d k first []) (List.replicate k d)) (fence d k second [])
        (List.replicate k d) ↔ Pair d k second t ∨ Enclosed d k second first t) := by
  obtain ⟨a, ws, hws, ht⟩ : ∃ a ws, Proper d ws ∧ render d a ws = t := ⟨_, _, proper_layout t, render_layout t⟩
  subst ht
  have hws1 : Proper d (strike k first a ws).2 := proper_strike hws
  have hrow : ∀ w : Text, w ≠ [] ∧ d ∉ w → Row d w [] := fun w hw => ⟨hw, by simp⟩
  have hother := fenced_other (k := k) hne (strike k first a ws).2 (strike k first a ws).1 0
  have htwice := twice_strike (k := k) (Ne.symm hne) ws a 0
  simp only [Nat.zero_add] at hother htwice
  rw [replace_render hk hfirst hws, replace_render hk hsecond hws1, fence_within hk (hrow _ hfirst) (proper_strike hws1),
    fence_within hk (hrow _ hsecond) (proper_strike hws1), hother, fenced_strike, fenced_strike, htwice,
    pair_layout hk hfirst hws, pair_layout hk hsecond hws, enclosed_layout hk hsecond hfirst hws]
  exact ⟨Iff.rfl, Iff.rfl⟩

end Flowly.Lib.Fences
