/-
  Flowly.Memory.Verified — what the commit pass of the dreamer brings into the active
  memory by itself.

  An item that the pass makes may become active on the plain path (`_decide`) or by winning
  a conflict (`_resolve_conflict`). The first asks for the privacy level; the second does
  not, so a sensitive or secret candidate that the user stated becomes active when it
  contradicts an active item (`a_secret_wins`). And a repetition takes a confidence over
  one back to one, which is less than an `auto_floor` over one. Nothing else of the kind
  happens: after every candidate of a pass each new item that is active, or has superseded
  another, was scanned clean, is not private and clears the floor, if and only if no
  candidate came by one of the two ways (`nothing_unverified`).
-/

import Flowly.Memory.ClearRuns

namespace Flowly.Memory

open Flowly.Lib

def Item.InForce (i : Item) : Prop := i.status = .active ∨ i.supersedes.isSome = true

instance (i : Item) : Decidable i.InForce := inferInstanceAs (Decidable (_ ∨ _))

def IsPrivate (level : String) : Prop := level = "sensitive" ∨ level = "secret"

instance (level : String) : Decidable (IsPrivate level) := inferInstanceAs (Decidable (_ ∨ _))

/-- A candidate with its text was scanned clean, it is not private, and it clears the floor. -/
def Item.Checked (m : Dreamer) (cands : List (Candidate × Scan)) (i : Item) : Prop :=
  (∃ c ∈ cands, c.2 = .clean ∧ c.1.text = i.text) ∧ ¬ IsPrivate i.privacyLevel ∧ m.autoFloor ≤ i.confidence

instance (m : Dreamer) (cands : List (Candidate × Scan)) (i : Item) : Decidable (i.Checked m cands) := by
  unfold Item.Checked; infer_instance

/-- What a pass put in force is checked: `first` is the first id of the pass. -/
def Verified (m : Dreamer) (cands : List (Candidate × Scan)) (first : Nat) (s : Store) : Prop :=
  ∀ i ∈ s.items, first ≤ i.id → i.InForce → i.Checked m cands

instance (m : Dreamer) (cands : List (Candidate × Scan)) (first : Nat) (s : Store) : Decidable (Verified m cands first s) := by
  unfold Verified; infer_instance

variable (lower : String → String)

/-- The store after the pass. -/
def afterPass (m : Dreamer) (s : Store) (cands : List (Candidate × Scan)) : Store :=
  (Program.exec (commitCandidates lower m cands) s).2

def repeated (s : Store) (c : Candidate) : Option Item :=
  (sameKey s c).find? fun i => normalize lower i.text = normalize lower c.text

def Overrides (m : Dreamer) (s : Store) (c : Candidate) (scan : Scan) : Prop :=
  scan = .clean ∧ repeated lower s c = none ∧ (contradicted s c).isSome = true ∧ c.item.Valid ∧ c.isExplicit = true ∧
    m.autoFloor ≤ (calibrated m s c).confidence ∧ IsPrivate c.privacyLevel

instance (m : Dreamer) (s : Store) (c : Candidate) (scan : Scan) : Decidable (Overrides lower m s c scan) := by
  have : Decidable (repeated lower s c = none) := decidable_of_iff _ Option.isNone_iff_eq_none
  unfold Overrides
  infer_instance

def Lowers (m : Dreamer) (first : Nat) (s : Store) (c : Candidate) (scan : Scan) : Prop :=
  scan = .clean ∧ ∃ known ∈ repeated lower s c, first ≤ known.id ∧ known.InForce ∧ min 1 (known.confidence + 1 / 20) < m.autoFloor

instance (m : Dreamer) (first : Nat) (s : Store) (c : Candidate) (scan : Scan) : Decidable (Lowers lower m first s c scan) := by
  unfold Lowers
  infer_instance

/-- No candidate does either, in the store at its turn; an invalid one ends the pass. -/
def Verifies (m : Dreamer) (first : Nat) : Store → List (Candidate × Scan) → Prop
  | _, [] => True
  | s, c :: rest =>
    ¬ Overrides lower m s c.1 c.2 ∧ ¬ Lowers lower m first s c.1 c.2 ∧
      (Committed lower s c.1 c.2 → Verifies m first (Program.exec (commitCandidate lower m c.1 c.2) s).2 rest)

instance Verifies.decidable (m : Dreamer) (first : Nat) : ∀ s cands, Decidable (Verifies lower m first s cands)
  | _, [] => isTrue trivial
  | s, c :: rest =>
    have := Verifies.decidable m first (Program.exec (commitCandidate lower m c.1 c.2) s).2 rest
    inferInstanceAs (Decidable (¬ Overrides lower m s c.1 c.2 ∧ ¬ Lowers lower m first s c.1 c.2 ∧ (_ → _)))

/-! ## One candidate -/

section Commit

variable {lower} {m : Dreamer} {cands : List (Candidate × Scan)} {first : Nat} {s : Store} {c : Candidate} {scan : Scan}

def Store.created (s : Store) (new : Item) (toStatus : Status) (reason : String) (link : Option Nat) : Store :=
  (s.add new "dreamer" "extracted").move { new with id := s.nextId } toStatus "dreamer" reason link

/-- The new item is the last, and the others are as they were. -/
theorem mem_created (h : Audited s) (new : Item) (toStatus : Status) (reason : String) (link : Option Nat) {i : Item} :
    i ∈ (s.created new toStatus reason link).items ↔
      i ∈ s.items ∨ i = { new with id := s.nextId, status := toStatus, supersedes := link.or new.supersedes } := by
  have hne : ∀ j ∈ s.items, j.id ≠ s.nextId := fun j hj => Nat.ne_of_lt (h.lt j hj)
  show i ∈ (s.items ++ [{ new with id := s.nextId }]).map _ ↔ _
  rw [List.map_append, List.mem_append, List.map_singleton, List.mem_singleton, if_pos rfl]
  refine or_congr_left ⟨?_, ?_⟩
  · intro hi
    obtain ⟨j, hj, rfl⟩ := List.mem_map.1 hi
    rw [if_neg (hne j hj)]
    exact hj
  · intro hi
    exact List.mem_map.2 ⟨i, hi, if_neg (hne i hi)⟩

/-- An item that is not in force adds nothing; one that is has to be checked. -/
theorem verified_created (h : Audited s) (hfirst : first ≤ s.nextId) (hv : Verified m cands first s) (new : Item)
    (toStatus : Status) (reason : String) (link : Option Nat) :
    Verified m cands first (s.created new toStatus reason link) ↔
      ((toStatus = .active ∨ (link.or new.supersedes).isSome = true) → new.Checked m cands) := by
  constructor
  · intro hall hforce
    have hnew := hall _ ((mem_created h new toStatus reason link).2 (.inr rfl)) hfirst hforce
    exact hnew
  · intro hnew i hi hid hforce
    rcases (mem_created h new toStatus reason link).1 hi with hi | rfl
    · exact hv i hi hid hforce
    · exact hnew hforce

/-- What becomes of an item that is superseded was checked with it. -/
theorem verified_superseded {loser : Item} (actor reason : String) :
    Verified m cands first (s.move loser .superseded actor reason none) ↔
      ∀ i ∈ s.items, first ≤ i.id → i.InForce → (i.id = loser.id → i.supersedes.isSome = true) → i.Checked m cands := by
  constructor
  · intro hall i hi hid hforce hlink
    by_cases heq : i.id = loser.id
    · have := hall _ (List.mem_map.2 ⟨i, hi, if_pos heq⟩) hid (.inr (hlink heq))
      exact this
    · exact hall i (List.mem_map.2 ⟨i, hi, if_neg heq⟩) hid hforce
  · intro hall i hi hid hforce
    obtain ⟨j, hj, rfl⟩ := List.mem_map.1 hi
    by_cases heq : j.id = loser.id
    · rw [if_pos heq] at hid hforce ⊢
      have hlink : j.supersedes.isSome = true := hforce.resolve_left fun hc => (by cases hc)
      exact hall j hj hid (.inr hlink) fun _ => hlink
    · rw [if_neg heq] at hid hforce ⊢
      exact hall j hj hid hforce fun hc => absurd hc heq

/-- How the commit of a candidate ends, and whether what it leaves is verified. -/
structure Leaves (m : Dreamer) (cands : List (Candidate × Scan)) (first : Nat) (s : Store) (committed bad : Prop)
    (r : Except Failure Unit) (s' : Store) : Prop where
  next : first ≤ s'.nextId
  verified : Verified m cands first s' ↔ ¬ bad
  ended : r = .ok () ∧ committed ∨ (∃ e, r = .error e) ∧ ¬ committed ∧ s' = s

/-- A candidate that is made and moved once. -/
theorem moved_ends (h : Audited s) (hfirst : first ≤ s.nextId) (hv : Verified m cands first s) {toStatus : Status}
    (hnext : toStatus ∈ Status.candidate.next) (hactive : toStatus = .active → c.item.Checked m cands) (reason : String) :
    Program.Post (createItem c >>= fun item => transition item.id toStatus "dreamer" reason) s
      (Leaves m cands first s c.item.Valid False) := by
  refine create_post ?_ ?_
  · intro hvalid
    have haudit := h.add c.item "dreamer" "extracted"
    refine .of_exec (transition_moves haudit (mem_add c.item "dreamer" "extracted") hnext no_link _ _) ?_
    refine ⟨Nat.le_succ_of_le hfirst, ?_, .inl ⟨rfl, hvalid⟩⟩
    refine iff_of_true ((verified_created h hfirst hv c.item toStatus reason none).2 ?_) id
    intro hforce
    rcases hforce with hst | hlink
    · exact hactive hst
    · cases hlink
  · intro e hnot
    exact ⟨hfirst, iff_of_true hv id, .inr ⟨⟨e, rfl⟩, hnot, rfl⟩⟩

/-- A candidate against an active item: where it wins, it has to be checked. -/
theorem resolveConflict_checks (h : Audited s) (hfirst : first ≤ s.nextId) (hv : Verified m cands first s) {loser : Item}
    (hin : loser ∈ s.items) (hact : loser.status = .active) (hscan : ∃ x ∈ cands, x.2 = .clean ∧ x.1.text = c.text) :
    Program.Post (resolveConflict m c loser) s (Leaves m cands first s c.item.Valid
      (c.item.Valid ∧ c.isExplicit = true ∧ m.autoFloor ≤ c.confidence ∧ IsPrivate c.privacyLevel)) := by
  unfold resolveConflict
  split
  · next hloses =>
    have hnot : ¬ (c.item.Valid ∧ c.isExplicit = true ∧ m.autoFloor ≤ c.confidence ∧ IsPrivate c.privacyLevel) := by
      intro hall
      obtain ⟨_, hexp, hfloor, _⟩ := hall
      rw [hexp, decide_eq_true hfloor] at hloses
      cases hloses
    refine (moved_ends h hfirst hv (by decide) (fun hc => (by cases hc)) _).mono ?_
    intro r s' hend
    exact ⟨hend.next, iff_of_true (hend.verified.2 id) hnot, hend.ended⟩
  · next hwins =>
    rw [Bool.not_eq_true, Bool.not_eq_false', Bool.and_eq_true, decide_eq_true_eq] at hwins
    refine create_post ?_ ?_
    · intro hvalid
      have haudit := h.add c.item "dreamer" "extracted"
      have hnew := mem_add (s := s) c.item "dreamer" "extracted"
      have hloser := mem_add_of_mem hin c.item "dreamer" "extracted"
      have hne : loser.id ≠ s.nextId := Nat.ne_of_lt (h.lt loser hin)
      have hup : Status.active ∈ Status.candidate.next := by decide
      have hlink : ∀ sup, some loser.id = some sup → sup ∈ (s.add c.item "dreamer" "extracted").items.map Item.id := by
        intro sup hsup
        obtain rfl := Option.some.inj hsup
        exact List.mem_map_of_mem hloser
      refine Program.Post.step (transition_moves haudit hnew hup hlink _ _) ?_
      have haudit' := haudit.move (haudit.find hnew) hup "dreamer" "supersedes_older_fact" (some loser.id)
      have hloser' : loser ∈ (s.created c.item .active "supersedes_older_fact" (some loser.id)).items :=
        (mem_created h c.item .active "supersedes_older_fact" (some loser.id)).2 (.inl hin)
      refine .of_exec (transition_moves haudit' hloser' (by rw [hact]; decide) no_link _ _) ?_
      refine ⟨Nat.le_succ_of_le hfirst, ?_, .inl ⟨rfl, hvalid⟩⟩
      have hwinner := (mem_created h c.item .active "supersedes_older_fact" (some loser.id)).2 (.inr rfl)
      refine (verified_superseded _ _).trans ⟨?_, ?_⟩
      · intro hall hbad
        exact (hall _ hwinner hfirst (.inl rfl) fun hc => absurd hc.symm hne).2.1 hbad.2.2.2
      · intro hok
        have hchecked : c.item.Checked m cands := ⟨hscan, fun hp => hok ⟨hvalid, hwins.1, hwins.2, hp⟩, hwins.2⟩
        intro i hi hid hforce _
        exact (verified_created h hfirst hv c.item .active _ (some loser.id)).2 (fun _ => hchecked) i hi hid hforce
    · intro e hnot
      exact ⟨hfirst, iff_of_true hv fun hbad => hnot hbad.1, .inr ⟨⟨e, rfl⟩, hnot, rfl⟩⟩

theorem calibrated_same (m : Dreamer) (c : Candidate) : (calibrated m s c).text = c.text ∧
    (calibrated m s c).privacyLevel = c.privacyLevel ∧ (calibrated m s c).isExplicit = c.isExplicit := by
  unfold calibrated
  cases m.calibrate with
  | none => exact ⟨rfl, rfl, rfl⟩
  | some f => exact ⟨rfl, rfl, rfl⟩

/-- A candidate on the plain path becomes active where it is checked. -/
theorem decideStatus_checked (hact : (decideStatus m c).1 = .active) : ¬ IsPrivate c.privacyLevel ∧ m.autoFloor ≤ c.confidence := by
  unfold decideStatus at hact
  split_ifs at hact with hreview hprivate hfloor
  exact ⟨hprivate, hfloor⟩

theorem commitNew_checks (h : Audited s) (hfirst : first ≤ s.nextId) (hv : Verified m cands first s)
    (hscan : ∃ x ∈ cands, x.2 = .clean ∧ x.1.text = c.text) :
    Program.Post (commitNew m c (sameKey s c)) s (Leaves m cands first s c.item.Valid
      ((contradicted s c).isSome = true ∧ c.item.Valid ∧ c.isExplicit = true ∧ m.autoFloor ≤ (calibrated m s c).confidence ∧
        IsPrivate c.privacyLevel)) := by
  obtain ⟨htext, hpriv, hexp⟩ := calibrated_same (s := s) m c
  have hscan' : ∃ x ∈ cands, x.2 = .clean ∧ x.1.text = (calibrated m s c).text := by rw [htext]; exact hscan
  rw [← calibrated_valid (s := s) (m := m), ← hpriv, ← hexp]
  cases hcon : contradicted s c with
  | some loser =>
    rw [commitNew_some hcon]
    have hfound : loser ∈ sameKey s c := List.mem_of_find?_eq_some hcon
    obtain ⟨-, hin, -, -⟩ := mem_withKey.1 hfound
    have hact : loser.status = .active := by simpa using List.find?_some hcon
    refine (resolveConflict_checks h hfirst hv hin hact hscan').mono ?_
    intro r s' hend
    exact ⟨hend.next, hend.verified.trans (by simp), hend.ended⟩
  | none =>
    rw [commitNew_none hcon]
    refine (moved_ends h hfirst hv (decideStatus_next _ _) ?_ _).mono ?_
    · intro hact
      exact ⟨hscan', decideStatus_checked hact⟩
    · intro r s' hend
      exact ⟨hend.next, hend.verified.trans (by simp), hend.ended⟩

/-- A repetition: only the confidence of the known item may change, and that it was seen. -/
theorem repeats_checks (hfirst : first ≤ s.nextId) (hv : Verified m cands first s) {known : Item} (hin : known ∈ s.items) (h : Audited s)
    (committed : Prop) (hc : committed) :
    Program.Post (do
      touchSeen known.id
      if min 1 (known.confidence + 1 / 20) ≠ known.confidence then
        updateFields known.id { confidence := some (min 1 (known.confidence + 1 / 20)) }) s
      (Leaves m cands first s committed (first ≤ known.id ∧ known.InForce ∧ min 1 (known.confidence + 1 / 20) < m.autoFloor)) := by
  refine Program.Post.step (show Program.exec (touchSeen known.id) s = (.ok (), s.touch known.id) from rfl) ?_
  have hin' : { known with seen := known.seen + 1 } ∈ (s.touch known.id).items := List.mem_map.2 ⟨known, hin, if_pos rfl⟩
  have htouched : Verified m cands first (s.touch known.id) := by
    intro i hi hid hforce
    obtain ⟨j, hj, rfl⟩ := List.mem_map.1 hi
    split_ifs at hid hforce ⊢
    · exact hv j hj hid hforce
    · exact hv j hj hid hforce
  split
  · next hbump =>
    refine .of_exec (updateFields_sets (h.touch known.id) hin' no_ref) ?_
    refine ⟨hfirst, ⟨?_, ?_⟩, .inl ⟨rfl, hc⟩⟩
    · intro hall hbad
      have hnew := hall _ (List.mem_map.2 ⟨_, hin', if_pos rfl⟩) hbad.1 hbad.2.1
      exact absurd hnew.2.2 (Rat.not_le.2 hbad.2.2)
    · intro hok i hi hid hforce
      obtain ⟨j, hj, rfl⟩ := List.mem_map.1 hi
      split_ifs at hid hforce ⊢ with heq
      · obtain rfl : j = { known with seen := known.seen + 1 } := List.inj_on_of_nodup_map (h.touch known.id).ids hj hin' heq
        obtain ⟨hscan, hpriv, -⟩ := htouched _ hj hid hforce
        exact ⟨hscan, hpriv, Rat.not_lt.1 fun hlt => hok ⟨hid, hforce, hlt⟩⟩
      · exact htouched j hj hid hforce
  · next hsame =>
    rw [not_not] at hsame
    refine ⟨hfirst, iff_of_true htouched ?_, .inl ⟨rfl, hc⟩⟩
    intro hbad
    have hfloor := (hv known hin hbad.1 hbad.2.1).2.2
    rw [hsame] at hbad
    exact absurd hfloor (Rat.not_le.2 hbad.2.2)

/-- What is left after one candidate is verified where it came in none of the two ways. -/
theorem commitCandidate_checks (h : Audited s) (hfirst : first ≤ s.nextId) (hv : Verified m cands first s) (hmem : (c, scan) ∈ cands) :
    Program.Post (commitCandidate lower m c scan) s (Leaves m cands first s (Committed lower s c scan)
      (Overrides lower m s c scan ∨ Lowers lower m first s c scan)) := by
  have hunclean (toStatus : Status) (hnext : toStatus ∈ Status.candidate.next) (hst : toStatus ≠ .active) (hs : scan ≠ .clean)
      (reason : String) : Program.Post (createItem c >>= fun item => transition item.id toStatus "dreamer" reason) s
        (Leaves m cands first s (Committed lower s c scan) (Overrides lower m s c scan ∨ Lowers lower m first s c scan)) := by
    refine (moved_ends h hfirst hv hnext (fun hc => absurd hc hst) reason).mono ?_
    intro r s' hend
    refine ⟨hend.next, iff_of_true (hend.verified.2 id) ?_, ?_⟩
    · intro hbad
      rcases hbad with hbad | hbad
      · exact hs hbad.1
      · exact hs hbad.1
    · have hiff : Committed lower s c scan ↔ c.item.Valid := ⟨fun hc => hc.resolve_right fun hr => hs hr.1, .inl⟩
      rw [hiff]
      exact hend.ended
  cases scan with
  | unavailable => exact hunclean .needsReview (by decide) (by decide) (by decide) _
  | flagged => exact hunclean .rejected (by decide) (by decide) (by decide) _
  | clean =>
    refine Program.Post.step (findByKey_exec s _ _) ?_
    split
    · next known hknown =>
      have hin : known ∈ s.items := (mem_withKey.1 (List.mem_of_find?_eq_some hknown)).2.1
      have hrepeats : Repeats lower s c := ⟨known, List.mem_of_find?_eq_some hknown, by simpa using List.find?_some hknown⟩
      have hc : Committed lower s c .clean := .inr ⟨rfl, hrepeats⟩
      refine (repeats_checks hfirst hv hin h _ hc).mono ?_
      intro r s' hend
      refine ⟨hend.next, hend.verified.trans (not_congr ⟨?_, ?_⟩), hend.ended⟩
      · intro hlow
        exact .inr ⟨rfl, known, hknown, hlow⟩
      · intro hbad
        rcases hbad with ⟨_, hnone, _⟩ | ⟨_, other, hother, hlow⟩
        · rw [show repeated lower s c = some known from hknown] at hnone
          cases hnone
        · obtain rfl : known = other := Option.some.inj (hknown.symm.trans hother)
          exact hlow
    · next hnone =>
      have hnew : ¬ Repeats lower s c := by
        intro hrep
        obtain ⟨i, hi, heq⟩ := hrep
        exact absurd (decide_eq_true heq) (List.find?_eq_none.1 hnone i hi)
      refine (commitNew_checks h hfirst hv ⟨_, hmem, rfl, rfl⟩).mono ?_
      intro r s' hend
      refine ⟨hend.next, hend.verified.trans (not_congr ⟨?_, ?_⟩), ?_⟩
      · intro hwins
        exact .inl ⟨rfl, hnone, hwins⟩
      · intro hbad
        rcases hbad with ⟨_, _, hwins⟩ | ⟨_, other, hother, _⟩
        · exact hwins
        · rw [show repeated lower s c = none from hnone] at hother
          cases hother
      · have hiff : Committed lower s c .clean ↔ c.item.Valid := ⟨fun hc => hc.resolve_right fun hr => hnew hr.2, .inl⟩
        rw [hiff]
        exact hend.ended

/-! ## The pass -/

theorem afterPass_cons (lower : String → String) (m : Dreamer) (s : Store) (c : Candidate × Scan) (rest : List (Candidate × Scan)) :
    afterPass lower m s (c :: rest) =
      match Program.exec (commitCandidate lower m c.1 c.2) s with
      | (.ok _, s') => afterPass lower m s' rest
      | (.error _, s') => s' := by
  show (Program.exec (commitCandidate lower m c.1 c.2 >>= fun _ => commitCandidates lower m rest) s).2 = _
  rw [Program.exec_bind]
  generalize Program.exec (commitCandidate lower m c.1 c.2) s = run
  obtain ⟨r, s'⟩ := run
  cases r with
  | ok _ => rfl
  | error _ => rfl

theorem passes_verified : ∀ (rest : List (Candidate × Scan)) {s : Store}, Audited s → first ≤ s.nextId → Verified m cands first s →
    (∀ c ∈ rest, c ∈ cands) →
    ((∀ n, Verified m cands first (afterPass lower m s (rest.take n))) ↔ Verifies lower m first s rest) := by
  intro rest
  induction rest with
  | nil =>
    intro s _ _ hv _
    refine iff_of_true ?_ trivial
    intro n
    rw [List.take_nil]
    exact hv
  | cons c rest ih =>
    intro s h hfirst hv hin
    have hend : Program.Post (commitCandidate lower m c.1 c.2) s _ := commitCandidate_checks h hfirst hv (hin c List.mem_cons_self)
    have haudit := @commitCandidate_audited lower m c.1 c.2 s h
    have hcons := afterPass_cons lower m s c
    unfold Verifies
    unfold Program.Post at hend haudit
    generalize Program.exec (commitCandidate lower m c.1 c.2) s = run at hend haudit hcons ⊢
    obtain ⟨r, s'⟩ := run
    rw [← and_assoc, ← not_or]
    rcases hend.ended with ⟨rfl, hc⟩ | ⟨⟨e, rfl⟩, hnot, rfl⟩
    · constructor
      · intro hall
        have hthis := hall 1
        rw [List.take_succ_cons, hcons] at hthis
        refine ⟨hend.verified.1 hthis, fun _ => ?_⟩
        refine (ih haudit hend.next hthis fun d hd => hin d (List.mem_cons_of_mem _ hd)).1 ?_
        intro n
        have hn := hall (n + 1)
        rw [List.take_succ_cons, hcons] at hn
        exact hn
      · intro hok n
        have hthis := hend.verified.2 hok.1
        cases n with
        | zero => exact hv
        | succ n =>
          rw [List.take_succ_cons, hcons]
          exact (ih haudit hend.next hthis fun d hd => hin d (List.mem_cons_of_mem _ hd)).2 (hok.2 hc) n
    · -- The pass ends here, with the store as it was.
      refine iff_of_true ?_ ⟨hend.verified.1 hv, fun hc => absurd hc hnot⟩
      intro n
      cases n with
      | zero => exact hv
      | succ n =>
        rw [List.take_succ_cons, hcons]
        exact hv

end Commit

/-- After every candidate of a pass, the new items in force are checked, if and only if no
    private candidate has won a conflict and no repetition has taken an item below the floor. -/
theorem nothing_unverified (lower : String → String) (m : Dreamer) {s : Store} (h : Audited s) (cands : List (Candidate × Scan)) :
    (∀ n, Verified m cands s.nextId (afterPass lower m s (cands.take n))) ↔ Verifies lower m s.nextId s cands := by
  refine passes_verified cands h (Nat.le_refl _) ?_ fun _ hc => hc
  intro i hi hid
  have := h.lt i hi
  omega

namespace Sample

/-- What the user said of their address, in two passes. -/
def city : Candidate :=
  { kind := "fact", text := "Lives in Ankara", normalizedKey := "user:home", confidence := 9 / 10, isExplicit := true }

def street : Candidate := { city with text := "Lives at 5 Oak Street, Izmir", privacyLevel := "sensitive" }

def knowsCity : Store := afterPass asciiLower {} {} [(city, .clean)]

theorem knowsCity_audited : Audited knowsCity := @run_audited asciiLower (.commit {} [(city, .clean)]) {} Audited.init

end Sample

theorem nothing_unverified_city : Verifies Sample.asciiLower {} 0 {} [(Sample.city, .clean)] ∧
    Verified {} [(Sample.city, .clean)] 0 (afterPass Sample.asciiLower {} {} [(Sample.city, .clean)]) :=
  ⟨by decide +kernel, (nothing_unverified Sample.asciiLower {} Audited.init [(Sample.city, .clean)]).2 (by decide +kernel) 1⟩

/-- A sensitive candidate supersedes the active item and is active itself. -/
theorem a_secret_wins : Audited Sample.knowsCity ∧
    ¬ Verified {} [(Sample.street, .clean)] Sample.knowsCity.nextId (afterPass Sample.asciiLower {} Sample.knowsCity [(Sample.street, .clean)]) :=
  ⟨Sample.knowsCity_audited, by decide +kernel⟩

end Flowly.Memory
