/-
  Flowly.Mcp.Delivery — a client of the event journal is given each new message once and
  no history, on the runs where that is so.

  Proved, over every run of archive writes, scans and polls whose steps are `Sound`:
  - `Delivered.inside`, `Delivered.new`: what a client is given is of its scope and came
    into the archive after it started, and after the first scan of the journal;
  - `Delivered.ordered`, `Delivered.inOrder`, `Delivered.once`: in the order of the
    journal, the messages of one session in the order of the archive, and each once;
  - `Delivered.all`: a client that has read up to the head was given every message that
    is still there, unless its session waits to be read or a poll reported a gap.

  - `Moves`: a poll gives as much as it may, until the client has read up to the head.

  Steps that are not sound break one of them: `the_journal_replays_and_loses`.
-/

import Flowly.Lib.Reach
import Flowly.Lib.Sorting
import Flowly.Mcp.Events

namespace Flowly.Mcp.Events

open Flowly.Lib

def World.Shown (w : World) (key : String) (m : Message) : Prop := m ∈ w.messages key ∧ m.visible = true

/-- What a client was given, and nothing it should not have been. -/
structure Delivered (w : World) (c : Client) : Prop where
  ordered : c.received.Pairwise fun a b => a.id < b.id
  inOrder : c.received.Pairwise fun a b => a.sessionKey = b.sessionKey →
    ∀ m m', a.message = some m → b.message = some m' → m.entry < m'.entry
  once : (c.received.filterMap Event.entry).Nodup
  inside : ∀ e ∈ c.received, inScope c.scope e.sessionKey = true
  new : ∀ e ∈ c.received, ∀ m, e.message = some m → c.startEntry ≤ m.entry ∧ ∀ n, w.baseEntry = some n → n ≤ m.entry
  all : c.expired = false → c.cursor.position = w.journal.head → ∀ key m, w.Shown key m → inScope c.scope key = true →
    c.startEntry ≤ m.entry → key ∉ w.dirty → ∃ e ∈ c.received, e.sessionKey = key ∧ e.message = some m

/-! ## Which steps are possible, and which are sound -/

/-- The message ids of a session are distinct. -/
def Fits (w : World) : Step → Prop
  | .append key new => ((w.messages key).map Message.id ++ new.map (·.1)).Nodup
  | _ => True

instance (w : World) : DecidablePred (Fits w)
  | .append .. => inferInstanceAs (Decidable (List.Nodup _))
  | .withdraw .. | .touch _ | .delete _ | .scan _ | .start .. | .poll _ => isTrue trivial

/-- The scan leaves the retention floor where it is or moves it up. -/
def Retains (w : World) (p : Poll) : Prop :=
  w.journal.floor = 0 ∨ w.journal.floor + (max 1 p.maxEvents).toNat ≤ w.journal.head

/-- The first scan of the journal passes over no session with messages. -/
def Bases (w : World) (p : Poll) : Prop :=
  w.journal.baseline = false → ∀ key ∈ p.skips, ∀ m ∈ w.messages key, m.visible = false

/-- The poll a client starts with passes over no session of its scope with messages that
    the journal has not seen. -/
def Begins (w : World) (p : Poll) (scope : String) : Prop :=
  ∀ key ∈ p.skips, inScope scope key = true → ∀ m ∈ w.messages key, m.visible = true → (key, m.id) ∈ w.journal.seen

/-- The condition on a step. -/
def Sound (w : World) : Step → Prop
  | .append key new => ∀ m ∈ new, m.2.2 = true → (key, m.1) ∉ w.journal.seen
  | .withdraw .. | .touch _ | .delete _ => True
  | .scan p | .poll p => Retains w p ∧ Bases w p
  | .start p sessionKey => Retains w p ∧ Bases w p ∧ Begins w p (sessionKey.getD "")

instance (w : World) : DecidablePred (Sound w)
  | .append .. => inferInstanceAs (Decidable (∀ _ ∈ _, _))
  | .withdraw .. | .touch _ | .delete _ => isTrue trivial
  | .scan _ | .poll _ => inferInstanceAs (Decidable ((_ ∨ _) ∧ (_ → _)))
  | .start .. => inferInstanceAs (Decidable ((_ ∨ _) ∧ (_ → _) ∧ ∀ _ ∈ _, _))

/-- A poll gives as much as it may, or reports a gap, or the client has read up to the head. -/
def Moves (w : World) (c : Client) : Prop :=
  ∀ p : Poll, Sound w (.poll p) → 1 ≤ p.limit → p.limit ≤ 200 → ∃ c', (w.next (.poll p)).client = some c' ∧
    (c'.expired = true ∨ c'.cursor.position = (w.next (.poll p)).journal.head ∨
      c'.received.length = c.received.length + p.limit.toNat)

def Allowed (w : World) (e : Step) : Prop := Fits w e ∧ Sound w e

instance (w : World) : DecidablePred (Allowed w) := fun _ => inferInstanceAs (Decidable (_ ∧ _))

/-! ## The invariant -/

structure Filed (w : World) : Prop where
  ids : ∀ key, ((w.messages key).map Message.id).Nodup
  entries : ∀ key, (w.messages key).Pairwise fun a b => a.entry < b.entry
  below : ∀ key, ∀ m ∈ w.messages key, m.entry < w.nextEntry
  apart : ∀ key key', ∀ m ∈ w.messages key, ∀ m' ∈ w.messages key', m.entry = m'.entry → key = key'
  signature : ∀ key s, w.archive.lookup key = some s → s.signature < w.nextSignature

/-- The journal `j` of a world. -/
structure Logged (w : World) (j : Journal) : Prop where
  ids : j.log.Pairwise fun a b => a.id < b.id
  head : ∀ e ∈ j.log, e.id ≤ j.head
  rows : j.events.Sublist j.log
  entries : (j.log.filterMap Event.entry).Nodup
  sorted : j.log.Pairwise fun a b => a.sessionKey = b.sessionKey →
    ∀ m m', a.message = some m → b.message = some m' → m.entry < m'.entry
  below : ∀ e ∈ j.log, ∀ m, e.message = some m → m.entry < w.nextEntry ∧ m.visible = true
  same : ∀ e ∈ j.log, ∀ m, e.message = some m → ∀ key, ∀ m' ∈ w.messages key, m'.entry = m.entry →
    e.sessionKey = key ∧ (key, m'.id) ∈ j.seen ∧ (m'.visible = true → m' = m)
  later : ∀ e ∈ j.log, ∀ m, e.message = some m → ∀ m', w.Shown e.sessionKey m' → (e.sessionKey, m'.id) ∉ j.seen →
    m.entry < m'.entry
  kept : ∀ e ∈ j.log, ∀ m, e.message = some m → m ∈ w.messages e.sessionKey → j.floor < e.id → e ∈ j.events
  known : ∀ key s, w.archive.lookup key = some s → j.sources.lookup key = some s.signature →
    ∀ m, w.Shown key m → (key, m.id) ∈ j.seen
  sources : ∀ key n, j.sources.lookup key = some n → n < w.nextSignature
  clean : ∀ key s, key ∉ w.dirty → w.archive.lookup key = some s → j.sources.lookup key = some s.signature
  baseline : j.baseline = w.baseEntry.isSome
  silent : j.baseline = false → ∀ e ∈ j.log, e.message = none
  base : ∀ n, w.baseEntry = some n → n ≤ w.nextEntry ∧ (∀ key m, w.Shown key m → m.entry < n → (key, m.id) ∈ j.seen) ∧
    ∀ e ∈ j.log, ∀ m, e.message = some m → n ≤ m.entry

structure Followed (w : World) (j : Journal) (c : Client) : Prop where
  head : c.cursor.position ≤ j.head
  valid : c.cursor.scope = c.scope ∧ c.cursor.generation = j.generation ∧ c.sessionKey.any (!validSessionKey ·) = false
  start : c.startEntry ≤ w.nextEntry
  based : j.baseline = true
  before : ∀ key m, w.Shown key m → inScope c.scope key = true → m.entry < c.startEntry → (key, m.id) ∈ j.seen
  pending : ∀ e ∈ j.log, c.cursor.position < e.id → inScope c.scope e.sessionKey = true → ∀ m, e.message = some m →
    c.startEntry ≤ m.entry
  given : c.expired = false → ∀ e ∈ j.log, e.id ≤ c.cursor.position → inScope c.scope e.sessionKey = true →
    ∀ m, e.message = some m → c.startEntry ≤ m.entry → m ∈ w.messages e.sessionKey → e ∈ c.received
  logged : ∀ key m, w.Shown key m → inScope c.scope key = true → c.startEntry ≤ m.entry → (key, m.id) ∈ j.seen →
    ∃ e ∈ j.log, e.sessionKey = key ∧ e.message = some m
  ordered : c.received.Pairwise fun a b => a.id < b.id
  received : ∀ e ∈ c.received, e ∈ j.log ∧ e.id ≤ c.cursor.position ∧ inScope c.scope e.sessionKey = true ∧
    ∀ m, e.message = some m → c.startEntry ≤ m.entry

structure Inv (w : World) (j : Journal) : Prop where
  filed : Filed w
  logged : Logged w j
  followed : ∀ c, w.client = some c → Followed w j c

open Journal (note stays scanSession)

/-! ## What a scan keeps of the journal -/

/-- What has been seen of the archive, and what is known of it, is not lost; the rows that
    are added are of messages that were not seen before, and what is seen has its row. -/
structure Grows (w : World) (j j' : Journal) : Prop where
  seen : ∀ key m, w.Shown key m → (key, m.id) ∈ j.seen → (key, m.id) ∈ j'.seen
  sources : ∀ key s, w.archive.lookup key = some s → j.sources.lookup key = some s.signature →
    j'.sources.lookup key = some s.signature
  floor : j'.floor = j.floor
  baseline : j'.baseline = j.baseline
  generation : j'.generation = j.generation
  head : j.head ≤ j'.head
  log : j.log ⊆ j'.log
  new : ∀ e ∈ j'.log, e ∈ j.log ∨ (j.head < e.id ∧ ∀ m, e.message = some m →
    w.Shown e.sessionKey m ∧ (e.sessionKey, m.id) ∉ j.seen)
  noted : j.baseline = true → ∀ key m, w.Shown key m → (key, m.id) ∈ j'.seen →
    (key, m.id) ∈ j.seen ∨ ∃ e ∈ j'.log, e.sessionKey = key ∧ e.message = some m

variable {w : World} {j j' : Journal} {key : String}

/-- The same rows, and what was seen. -/
theorem Grows.quiet (hseen : ∀ key m, w.Shown key m → ((key, m.id) ∈ j'.seen ↔ (key, m.id) ∈ j.seen))
    (hsources : ∀ key s, w.archive.lookup key = some s → j.sources.lookup key = some s.signature →
      j'.sources.lookup key = some s.signature)
    (hfloor : j'.floor = j.floor) (hbaseline : j'.baseline = j.baseline) (hgeneration : j'.generation = j.generation)
    (hhead : j'.head = j.head) (hlog : j'.log = j.log) : Grows w j j' where
  seen := fun key m hm hin => (hseen key m hm).2 hin
  sources := hsources
  floor := hfloor
  baseline := hbaseline
  generation := hgeneration
  head := Nat.le_of_eq hhead.symm
  log := fun _ he => hlog ▸ he
  new := fun _ he => .inl (hlog ▸ he)
  noted := fun _ key m hm hin => .inl ((hseen key m hm).1 hin)

theorem Grows.refl (w : World) (j : Journal) : Grows w j j :=
  .quiet (fun _ _ _ => Iff.rfl) (fun _ _ _ h => h) rfl rfl rfl rfl rfl

theorem Grows.trans {j₁ j₂ j₃ : Journal} (h : Grows w j₁ j₂) (h' : Grows w j₂ j₃) : Grows w j₁ j₃ where
  seen := fun key m hm hs => h'.seen key m hm (h.seen key m hm hs)
  sources := fun key s ha hs => h'.sources key s ha (h.sources key s ha hs)
  floor := h'.floor.trans h.floor
  baseline := h'.baseline.trans h.baseline
  generation := h'.generation.trans h.generation
  head := Nat.le_trans h.head h'.head
  log := fun _ he => h'.log (h.log he)
  new := fun e he => by
    rcases h'.new e he with he | ⟨hlt, hm⟩
    · exact h.new e he
    · refine .inr ⟨Nat.lt_of_le_of_lt h.head hlt, fun m hem => ?_⟩
      obtain ⟨hshown, hnot⟩ := hm m hem
      exact ⟨hshown, fun hin => hnot (h.seen _ m hshown hin)⟩
  noted := fun hb key m hm hin => by
    rcases h'.noted (h.baseline.trans hb) key m hm hin with hin | hrow
    · rcases h.noted hb key m hm hin with hin | ⟨e, he, hrow⟩
      · exact .inl hin
      · exact .inr ⟨e, h'.log he, hrow⟩
    · exact .inr hrow

variable {c : Client}

/-- The client is where it was, in a journal that has grown. -/
theorem Followed.grows (h : Followed w j c) (hg : Grows w j j') : Followed w j' c where
  head := Nat.le_trans h.head hg.head
  valid := ⟨h.valid.1, h.valid.2.1.trans hg.generation.symm, h.valid.2.2⟩
  start := h.start
  based := hg.baseline.trans h.based
  before := fun key m hm hin hlt => hg.seen key m hm (h.before key m hm hin hlt)
  pending := fun e he hlt hin m hm => by
    rcases hg.new e he with he | ⟨-, hnew⟩
    · exact h.pending e he hlt hin m hm
    · obtain ⟨hshown, hnot⟩ := hnew m hm
      refine Nat.le_of_not_lt fun hbefore => hnot (h.before _ m hshown hin hbefore)
  given := fun hx e he hle hin m hm hstart harch => by
    rcases hg.new e he with he | ⟨hlt, -⟩
    · exact h.given hx e he hle hin m hm hstart harch
    · have := h.head
      omega
  logged := fun key m hm hin hstart hseen => by
    rcases hg.noted h.based key m hm hseen with hseen | hrow
    · obtain ⟨e, he, hrow⟩ := h.logged key m hm hin hstart hseen
      exact ⟨e, hg.log he, hrow⟩
    · exact hrow
  ordered := h.ordered
  received := fun e he => by
    obtain ⟨hlog, hrest⟩ := h.received e he
    exact ⟨hg.log hlog, hrest⟩

theorem messages_of_lookup {s : Session} (h : w.archive.lookup key = some s) : w.messages key = s.messages := by
  unfold World.messages
  rw [h]

theorem messages_of_none (h : w.archive.lookup key = none) : w.messages key = [] := by
  unfold World.messages
  rw [h]

theorem shown_iff {s : Session} (h : w.archive.lookup key = some s) (m : Message) : w.Shown key m ↔ m ∈ s.readMessages := by
  unfold World.Shown Session.readMessages
  rw [messages_of_lookup h, List.mem_filter]

namespace Filed

variable {m m' : Message}

theorem entry_inj (h : Filed w) (hm : m ∈ w.messages key) (hm' : m' ∈ w.messages key) (heq : m.entry = m'.entry) : m = m' := by
  have hnodup : ((w.messages key).map Message.entry).Nodup :=
    List.pairwise_map.2 ((h.entries key).imp fun hlt heq => absurd heq (Nat.ne_of_lt hlt))
  exact List.inj_on_of_nodup_map hnodup hm hm' heq

theorem id_inj (h : Filed w) (hm : m ∈ w.messages key) (hm' : m' ∈ w.messages key) (heq : m.id = m'.id) : m = m' :=
  List.inj_on_of_nodup_map (h.ids key) hm hm' heq

end Filed

/-! ## A row is inserted -/

/-- The row is the next of the journal. -/
theorem insert_mem {message : Option Message} {e : Event} (h : e ∈ (j.insert key message).log) :
    e ∈ j.log ∨ e = ⟨j.head + 1, key, message⟩ := by
  rcases List.mem_append.1 h with h | h
  · exact .inl h
  · exact .inr (List.mem_singleton.1 h)

namespace Logged

/-- A row without a message. -/
theorem insert_none (h : Logged w j) : Logged w (j.insert key none) where
  ids := List.pairwise_append.2 ⟨h.ids, List.pairwise_singleton _ _, fun a ha b hb => by
    have := h.head a ha
    rw [List.mem_singleton.1 hb]
    show a.id < j.head + 1
    omega⟩
  head := fun e he => by
    rcases insert_mem he with he | rfl
    · exact Nat.le_succ_of_le (h.head e he)
    · exact Nat.le_refl _
  rows := h.rows.append (List.Sublist.refl _)
  entries := by
    show ((j.log ++ [_]).filterMap Event.entry).Nodup
    rw [List.filterMap_append]
    exact (List.append_nil _).symm ▸ h.entries
  sorted := List.pairwise_append.2 ⟨h.sorted, List.pairwise_singleton _ _, fun a _ b hb _ m m' _ hm' => by
    rw [List.mem_singleton.1 hb] at hm'
    cases hm'⟩
  below := fun e he m hm => by
    rcases insert_mem he with he | rfl
    · exact h.below e he m hm
    · cases hm
  same := fun e he m hm => by
    rcases insert_mem he with he | rfl
    · exact h.same e he m hm
    · cases hm
  later := fun e he m hm => by
    rcases insert_mem he with he | rfl
    · exact h.later e he m hm
    · cases hm
  kept := fun e he m hm hin hlt => by
    rcases insert_mem he with he | rfl
    · exact List.mem_append_left _ (h.kept e he m hm hin hlt)
    · cases hm
  known := h.known
  sources := h.sources
  clean := h.clean
  baseline := h.baseline
  silent := fun hb e he => by
    rcases insert_mem he with he | rfl
    · exact h.silent hb e he
    · rfl
  base := fun n hn => by
    obtain ⟨hle, hseen, hlog⟩ := h.base n hn
    refine ⟨hle, hseen, fun e he m hm => ?_⟩
    rcases insert_mem he with he | rfl
    · exact hlog e he m hm
    · cases hm

/-- What a deleted session leaves in the tables goes. -/
theorem dropped (h : Logged w j) (hgone : w.archive.lookup key = none) :
    Logged w { j with
      events := j.events.filter (·.sessionKey ≠ key)
      seen := j.seen.filter (·.1 ≠ key)
      sources := j.sources.filter (·.1 ≠ key) } := by
  have hother (key' : String) (m : Message) (hm : m ∈ w.messages key') : key' ≠ key := by
    intro heq
    rw [heq, messages_of_none hgone] at hm
    cases hm
  have hseen (key' : String) (m : Message) (hm : m ∈ w.messages key') (id : String) :
      (key', id) ∈ j.seen.filter (·.1 ≠ key) ↔ (key', id) ∈ j.seen := by
    rw [List.mem_filter]
    exact and_iff_left (decide_eq_true (hother key' m hm))
  refine ⟨h.ids, h.head, List.filter_sublist.trans h.rows, h.entries, h.sorted, h.below, ?_, ?_, ?_, ?_, ?_, ?_, h.baseline,
    h.silent, ?_⟩
  · intro e he m hm key' m' hm' heq
    obtain ⟨hkey, hin, hsame⟩ := h.same e he m hm key' m' hm' heq
    exact ⟨hkey, (hseen key' m' hm' _).2 hin, hsame⟩
  · intro e he m hm m' hm' hnot
    exact h.later e he m hm m' hm' fun hin => hnot ((hseen _ m' hm'.1 _).2 hin)
  · intro e he m hm hin hlt
    exact List.mem_filter.2 ⟨h.kept e he m hm hin hlt, decide_eq_true (hother _ m hin)⟩
  · intro key' s hs hsource m hm
    rw [Assoc.lookup_erase, if_neg (hother key' m hm.1)] at hsource
    exact (hseen key' m hm.1 _).2 (h.known key' s hs hsource m hm)
  · intro key' n hn
    rw [Assoc.lookup_erase] at hn
    split_ifs at hn
    exact h.sources key' n hn
  · intro key' s hd hs
    have hne : key' ≠ key := by
      intro heq
      rw [heq, hgone] at hs
      cases hs
    rw [Assoc.lookup_erase, if_neg hne]
    exact h.clean key' s hd hs
  · intro n hn
    obtain ⟨hle, hin, hlog⟩ := h.base n hn
    exact ⟨hle, fun key' m hm hlt => (hseen key' m hm.1 _).2 (hin key' m hm hlt), hlog⟩

theorem forget (h : Logged w j) (hgone : w.archive.lookup key = none) : Logged w (j.forget key) :=
  (h.dropped hgone).insert_none

/-- A message is seen where the journal has no baseline: no row. -/
theorem seeing (h : Logged w j) (id : String) : Logged w { j with seen := j.seen ++ [(key, id)] } := by
  refine { h with same := ?_, later := ?_, known := ?_, base := ?_ }
  · intro e he m hm key' m' hm' heq
    obtain ⟨hkey, hin, hsame⟩ := h.same e he m hm key' m' hm' heq
    exact ⟨hkey, List.mem_append_left _ hin, hsame⟩
  · intro e he m hm m' hm' hnot
    exact h.later e he m hm m' hm' fun hin => hnot (List.mem_append_left _ hin)
  · intro key' s hs hsource m hm
    exact List.mem_append_left _ (h.known key' s hs hsource m hm)
  · intro n hn
    obtain ⟨hle, hin, hlog⟩ := h.base n hn
    exact ⟨hle, fun key' m hm hlt => List.mem_append_left _ (hin key' m hm hlt), hlog⟩

/-- The row of a message that is seen for the first time; those the session shows before
    it were seen. -/
theorem insert_some (h : Logged w j) (hw : Filed w) {m : Message} (hb : j.baseline = true) (hm : w.Shown key m)
    (hnot : (key, m.id) ∉ j.seen)
    (hfront : ∀ x, w.Shown key x → x.entry < m.entry → (key, x.id) ∈ j.seen) :
    Logged w ({ j with seen := j.seen ++ [(key, m.id)] }.insert key (some m)) := by
  have hs : Logged w { j with seen := j.seen ++ [(key, m.id)] } := h.seeing m.id
  have hfresh (e : Event) (he : e ∈ j.log) (m₀ : Message) (hm₀ : e.message = some m₀) : m₀.entry ≠ m.entry := by
    intro heq
    obtain ⟨-, hin, -⟩ := h.same e he m₀ hm₀ key m hm.1 heq.symm
    exact hnot hin
  refine ⟨?_, ?_, hs.rows.append (List.Sublist.refl _), ?_, ?_, ?_, ?_, ?_, ?_, hs.known, hs.sources, hs.clean, hs.baseline, ?_, ?_⟩
  · refine List.pairwise_append.2 ⟨hs.ids, List.pairwise_singleton _ _, fun a ha b hb' => ?_⟩
    have := hs.head a ha
    rw [List.mem_singleton.1 hb']
    show a.id < j.head + 1
    exact Nat.lt_succ_of_le this
  · intro e he
    rcases insert_mem he with he | rfl
    · exact Nat.le_succ_of_le (hs.head e he)
    · exact Nat.le_refl _
  · show ((j.log ++ [_]).filterMap Event.entry).Nodup
    rw [List.filterMap_append]
    refine List.nodup_append.2 ⟨h.entries, List.nodup_singleton _, ?_⟩
    intro n hn n' hn'
    obtain ⟨e, he, hen⟩ := List.mem_filterMap.1 hn
    obtain ⟨m₀, hm₀, rfl⟩ := Option.map_eq_some_iff.1 hen
    rw [List.mem_singleton.1 hn']
    exact hfresh e he m₀ hm₀
  · refine List.pairwise_append.2 ⟨hs.sorted, List.pairwise_singleton _ _, fun a ha b hb' => ?_⟩
    rw [List.mem_singleton.1 hb']
    intro hkey m₀ m' hm₀ hm'
    obtain rfl : m = m' := Option.some.inj hm'
    exact h.later a ha m₀ hm₀ m (hkey.symm ▸ hm) (hkey.symm ▸ hnot)
  · intro e he m₀ hm₀
    rcases insert_mem he with he | rfl
    · exact hs.below e he m₀ hm₀
    · obtain rfl : m = m₀ := Option.some.inj hm₀
      exact ⟨hw.below key m hm.1, hm.2⟩
  · intro e he m₀ hm₀ key' m' hm' heq
    rcases insert_mem he with he | rfl
    · exact hs.same e he m₀ hm₀ key' m' hm' heq
    · obtain rfl : m = m₀ := Option.some.inj hm₀
      obtain rfl := hw.apart key' key m' hm' m hm.1 heq
      obtain rfl := hw.entry_inj hm' hm.1 heq
      exact ⟨rfl, List.mem_append_right _ (List.mem_singleton.2 rfl), fun _ => rfl⟩
  · intro e he m₀ hm₀ m' hm' hnot'
    rcases insert_mem he with he | rfl
    · exact hs.later e he m₀ hm₀ m' hm' hnot'
    · obtain rfl : m = m₀ := Option.some.inj hm₀
      refine Nat.lt_of_not_le fun hle => hnot' ?_
      rcases Nat.lt_or_eq_of_le hle with hlt | heq
      · exact List.mem_append_left _ (hfront m' hm' hlt)
      · obtain rfl := hw.entry_inj hm'.1 hm.1 heq
        exact List.mem_append_right _ (List.mem_singleton.2 rfl)
  · intro e he m₀ hm₀ hin hlt
    rcases insert_mem he with he | rfl
    · exact List.mem_append_left _ (hs.kept e he m₀ hm₀ hin hlt)
    · exact List.mem_append_right _ (List.mem_singleton.2 rfl)
  · intro hb'
    exact absurd (hb.symm.trans hb') (by decide)
  · intro n hn
    obtain ⟨hle, hin, hlog⟩ := h.base n hn
    refine ⟨hle, fun key' m' hm' hlt => List.mem_append_left _ (hin key' m' hm' hlt), fun e he m₀ hm₀ => ?_⟩
    rcases insert_mem he with he | rfl
    · exact hlog e he m₀ hm₀
    · obtain rfl : m = m₀ := Option.some.inj hm₀
      exact Nat.le_of_not_lt fun hlt => hnot (hin key m hm hlt)

/-- The rows of the messages that a session no longer shows go. -/
theorem trimmed (h : Logged w j) {s : Session} (hs : w.archive.lookup key = some s) :
    Logged w { j with events := j.events.filter (stays key s.readMessages) } := by
  refine { h with rows := List.filter_sublist.trans h.rows, kept := ?_ }
  intro e he m hm hin hlt
  refine List.mem_filter.2 ⟨h.kept e he m hm hin hlt, ?_⟩
  unfold stays
  rw [hm]
  by_cases hkey : e.sessionKey = key
  · have hshown : w.Shown key m := ⟨hkey ▸ hin, (h.below e he m hm).2⟩
    simpa using .inr ⟨m, (shown_iff hs m).1 hshown, rfl⟩
  · simp [hkey]

/-- The signature of a session whose messages are all seen. -/
theorem signed (h : Logged w j) (hw : Filed w) {s : Session} (hs : w.archive.lookup key = some s)
    (hall : ∀ m, w.Shown key m → (key, m.id) ∈ j.seen) :
    Logged w { j with sources := Assoc.put j.sources key s.signature } := by
  refine { h with known := ?_, sources := ?_, clean := ?_ }
  · intro key' s' hs' hsource m hm
    by_cases hkey : key' = key
    · subst hkey
      exact hall m hm
    · rw [Assoc.lookup_put, if_neg hkey] at hsource
      exact h.known key' s' hs' hsource m hm
  · intro key' n hn
    rw [Assoc.lookup_put] at hn
    split_ifs at hn with hkey
    · rw [← Option.some.inj hn]
      exact hw.signature key s hs
    · exact h.sources key' n hn
  · intro key' s' hd hs'
    rw [Assoc.lookup_put]
    split_ifs with hkey
    · subst hkey
      rw [hs] at hs'
      rw [Option.some.inj hs']
    · exact h.clean key' s' hd hs'

end Logged

/-! ## A session is read -/

/-- A message is noted, those before it being seen. -/
theorem note_keeps (h : Logged w j) (hw : Filed w) {m : Message} (hm : w.Shown key m)
    (hfront : ∀ x, w.Shown key x → x.entry < m.entry → (key, x.id) ∈ j.seen) :
    Logged w (note key j m) ∧ Grows w j (note key j m) ∧ (key, m.id) ∈ (note key j m).seen := by
  have hlast : (key, m.id) ∈ j.seen ++ [(key, m.id)] := List.mem_append_right _ (List.mem_singleton.2 rfl)
  unfold note
  by_cases hin : (key, m.id) ∈ j.seen
  · rw [if_pos hin]
    exact ⟨h, .refl w j, hin⟩
  · rw [if_neg hin]
    dsimp only
    by_cases hb : j.baseline = true
    · rw [if_pos hb]
      refine ⟨h.insert_some hw hb hm hin hfront, ?_, hlast⟩
      refine ⟨fun _ _ _ hseen => List.mem_append_left _ hseen, fun _ _ _ hsource => hsource, rfl, rfl, rfl, Nat.le_succ _,
        List.subset_append_left _ _, ?_, ?_⟩
      · intro e he
        rcases insert_mem he with he | rfl
        · exact .inl he
        · refine .inr ⟨Nat.lt_succ_self _, fun m' hm' => ?_⟩
          obtain rfl : m = m' := Option.some.inj hm'
          exact ⟨hm, hin⟩
      · intro _ key' m' hm' hseen
        rcases List.mem_append.1 hseen with hseen | hseen
        · exact .inl hseen
        · obtain ⟨rfl, hid⟩ := Prod.mk.inj (List.mem_singleton.1 hseen)
          obtain rfl := hw.id_inj hm'.1 hm.1 hid
          exact .inr ⟨_, List.mem_append_right _ (List.mem_singleton.2 rfl), rfl, rfl⟩
    · rw [if_neg hb]
      refine ⟨h.seeing m.id, ?_, hlast⟩
      refine ⟨fun _ _ _ hseen => List.mem_append_left _ hseen, fun _ _ _ hsource => hsource, rfl, rfl, rfl, Nat.le_refl _,
        List.Subset.refl _, fun e he => .inl he, fun hb' => absurd hb' hb⟩

/-- The messages of a session, from those that are seen on. -/
theorem noteAll_keeps (hw : Filed w) {s : Session} (hs : w.archive.lookup key = some s) (back : List Message) :
    ∀ (front : List Message) (j : Journal), s.readMessages = front ++ back → Logged w j → (∀ m ∈ front, (key, m.id) ∈ j.seen) →
      Logged w (back.foldl (note key) j) ∧ Grows w j (back.foldl (note key) j) ∧
        ∀ m, w.Shown key m → (key, m.id) ∈ (back.foldl (note key) j).seen := by
  induction back with
  | nil =>
    intro front j heq h hfront
    refine ⟨h, .refl w j, fun m hm => hfront m ?_⟩
    rw [← List.append_nil front, ← heq]
    exact (shown_iff hs m).1 hm
  | cons m back ih =>
    intro front j heq h hfront
    have hsorted : s.readMessages.Pairwise fun a b => a.entry < b.entry :=
      (messages_of_lookup hs ▸ hw.entries key).sublist List.filter_sublist
    rw [heq] at hsorted
    have hm : w.Shown key m := (shown_iff hs m).2 (by rw [heq]; simp)
    obtain ⟨hlogged, hgrows, hseen⟩ := note_keeps h hw hm <| by
      intro x hx hlt
      have hmem := (shown_iff hs x).1 hx
      rw [heq] at hmem
      rcases List.mem_append.1 hmem with hmem | hmem
      · exact hfront x hmem
      · rcases List.mem_cons.1 hmem with rfl | hmem
        · exact absurd hlt (Nat.lt_irrefl _)
        · have := List.rel_of_pairwise_cons (List.pairwise_append.1 hsorted).2.1 hmem
          omega
    obtain ⟨hlogged', hgrows', hall⟩ := ih (front ++ [m]) (note key j m) (by rw [heq]; simp) hlogged <| by
      intro x hx
      rcases List.mem_append.1 hx with hx | hx
      · exact hgrows.seen key x ((shown_iff hs x).2 (heq ▸ List.mem_append_left _ hx)) (hfront x hx)
      · rw [List.mem_singleton.1 hx]
        exact hseen
    exact ⟨hlogged', hgrows.trans hgrows', hall⟩

/-- The sessions are looked at: what a scan leaves, but for those it passes over. -/
def Looked (w : World) (skips : List String) (j : Journal) (key : String) : Prop :=
  ∀ s, w.archive.lookup key = some s → key ∈ skips ∨ j.sources.lookup key = some s.signature

theorem Looked.grows {skips : List String} (h : Looked w skips j key) (hg : Grows w j j') : Looked w skips j' key :=
  fun s hs => (h s hs).imp id (hg.sources key s hs)

theorem readSession_keeps (h : Logged w j) (hw : Filed w) {s : Session} (hs : w.archive.lookup key = some s) :
    Logged w (j.readSession key s) ∧ Grows w j (j.readSession key s) ∧
      (j.readSession key s).sources.lookup key = some s.signature := by
  have htrimmed := h.trimmed hs
  have hgrows : Grows w j { j with events := j.events.filter (stays key s.readMessages) } :=
    .quiet (fun _ _ _ => Iff.rfl) (fun _ _ _ hsource => hsource) rfl rfl rfl rfl rfl
  obtain ⟨hlogged, hgrows', hall⟩ := noteAll_keeps hw hs s.readMessages [] _ rfl htrimmed (by simp)
  have hput (key' : String) (d : List (String × Nat)) :
      (Assoc.put d key s.signature).lookup key' = if key' = key then some s.signature else d.lookup key' :=
    Assoc.lookup_put d key key' s.signature
  refine ⟨hlogged.signed hw hs hall, (hgrows.trans hgrows').trans ?_, (hput key _).trans (if_pos rfl)⟩
  refine .quiet (fun _ _ _ => Iff.rfl) ?_ rfl rfl rfl rfl rfl
  intro key' s' hs' hsource
  refine (hput key' _).trans ?_
  split_ifs with hkey
  · subst hkey
    rw [hs] at hs'
    rw [Option.some.inj hs']
  · exact hsource

theorem scanSession_keeps (h : Logged w j) (hw : Filed w) (skips : List String) (key : String) :
    Logged w (scanSession w.archive skips j key) ∧ Grows w j (scanSession w.archive skips j key) ∧
      Looked w skips (scanSession w.archive skips j key) key := by
  unfold scanSession
  cases hs : w.archive.lookup key with
  | none =>
    refine ⟨h, .refl w j, fun s hs' => ?_⟩
    rw [hs] at hs'
    cases hs'
  | some s =>
    dsimp only
    have hlooked (j' : Journal) (hl : key ∈ skips ∨ j'.sources.lookup key = some s.signature) : Looked w skips j' key := by
      intro s' hs'
      rw [hs] at hs'
      rwa [← Option.some.inj hs']
    split_ifs with hsource hskip
    · exact ⟨h, .refl w j, hlooked _ (.inr hsource)⟩
    · exact ⟨h, .refl w j, hlooked _ (.inl hskip)⟩
    · obtain ⟨hlogged, hgrows, hsigned⟩ := readSession_keeps h hw hs
      exact ⟨hlogged, hgrows, hlooked _ (.inr hsigned)⟩

/-! ## A scan -/

theorem forget_keeps (h : Logged w j) (hgone : w.archive.lookup key = none) :
    Logged w (j.forget key) ∧ Grows w j (j.forget key) := by
  have hother (key' : String) (m : Message) (hm : w.Shown key' m) : key' ≠ key := by
    intro heq
    have hin := hm.1
    rw [heq, messages_of_none hgone] at hin
    cases hin
  refine ⟨h.forget hgone, ?_, ?_, rfl, rfl, rfl, Nat.le_succ _, List.subset_append_left _ _, ?_, ?_⟩
  · intro key' m hm hin
    exact List.mem_filter.2 ⟨hin, decide_eq_true (hother key' m hm)⟩
  · intro key' s hs hsource
    refine (Assoc.lookup_erase j.sources key key').trans ?_
    rw [if_neg]
    · exact hsource
    · intro heq
      rw [heq, hgone] at hs
      cases hs
  · intro e he
    rcases insert_mem he with he | rfl
    · exact .inl he
    · exact .inr ⟨Nat.lt_succ_self _, fun m hm => by cases hm⟩
  · intro _ key' m hm hin
    exact .inl (List.mem_filter.1 hin).1

theorem forgetAll_keeps (keys : List String) :
    ∀ j : Journal, Logged w j → (∀ key ∈ keys, w.archive.lookup key = none) →
      Logged w (keys.foldl Journal.forget j) ∧ Grows w j (keys.foldl Journal.forget j) := by
  induction keys with
  | nil => intro j h _; exact ⟨h, .refl w j⟩
  | cons key keys ih =>
    intro j h hgone
    obtain ⟨hlogged, hgrows⟩ := forget_keeps h (hgone key List.mem_cons_self)
    obtain ⟨hlogged', hgrows'⟩ := ih (j.forget key) hlogged fun k hk => hgone k (List.mem_cons_of_mem _ hk)
    exact ⟨hlogged', hgrows.trans hgrows'⟩

theorem scanAll_keeps (hw : Filed w) (skips keys : List String) :
    ∀ j : Journal, Logged w j → Logged w (keys.foldl (scanSession w.archive skips) j) ∧
      Grows w j (keys.foldl (scanSession w.archive skips) j) ∧
      ∀ key ∈ keys, Looked w skips (keys.foldl (scanSession w.archive skips) j) key := by
  induction keys with
  | nil => intro j h; exact ⟨h, .refl w j, by simp⟩
  | cons key keys ih =>
    intro j h
    obtain ⟨hlogged, hgrows, hlooked⟩ := scanSession_keeps h hw skips key
    obtain ⟨hlogged', hgrows', hrest⟩ := ih _ hlogged
    refine ⟨hlogged', hgrows.trans hgrows', fun k hk => ?_⟩
    rcases List.mem_cons.1 hk with rfl | hk
    · exact hlooked.grows hgrows'
    · exact hrest k hk

theorem lookup_of_any {d : Archive} (h : (!d.any (·.1 = key)) = true) : d.lookup key = none := by
  rw [List.lookup_eq_none_iff]
  intro a ha
  simp only [Bool.not_eq_eq_eq_not, Bool.not_true, List.any_eq_false, decide_eq_true_eq] at h
  simpa using fun heq => h a ha heq.symm

/-- The journal of a scan before it is cut off. -/
def read (w : World) (j : Journal) (skips : List String) : Journal :=
  ((w.archive.map (·.1)).insertionSort (· ≤ ·)).foldl (scanSession w.archive skips) ((j.gone w.archive).foldl Journal.forget j)

theorem read_keeps (h : Logged w j) (hw : Filed w) (skips : List String) :
    Logged w (read w j skips) ∧ Grows w j (read w j skips) ∧ ∀ key, Looked w skips (read w j skips) key := by
  obtain ⟨hlogged, hgrows⟩ := forgetAll_keeps (j.gone w.archive) j h fun key hkey => lookup_of_any (List.mem_filter.1 hkey).2
  obtain ⟨hlogged', hgrows', hlooked⟩ := scanAll_keeps hw skips ((w.archive.map (·.1)).insertionSort (· ≤ ·)) _ hlogged
  refine ⟨hlogged', hgrows.trans hgrows', fun key s hs => hlooked key ?_ s hs⟩
  rw [List.mem_insertionSort]
  exact List.mem_map.2 ⟨(key, s), Assoc.mem_of_lookup hs, rfl⟩

def cut (j : Journal) (maxEvents : Int) : Journal :=
  { j with
    baseline := true
    floor := j.cutoff maxEvents
    events := j.events.filter (j.cutoff maxEvents < ·.id) }

theorem sync_eq (w : World) (j : Journal) (maxEvents : Int) (skips : List String) :
    j.sync w.archive maxEvents skips = cut (read w j skips) maxEvents := rfl

variable {p : Poll}

theorem read_retains (hr : Retains w p) (hg : Grows w w.journal (read w w.journal p.skips)) :
    w.journal.floor ≤ (read w w.journal p.skips).cutoff p.maxEvents := by
  have hhead := hg.head
  unfold Journal.cutoff
  rcases hr with h | h <;> omega

/-- What the archive showed when the first scan ran is seen. -/
theorem read_based (h : Logged w (read w w.journal p.skips)) (hj : w.journal.baseline = false) (hb : Bases w p)
    (hlooked : ∀ key, Looked w p.skips (read w w.journal p.skips) key) (key : String) (m : Message) (hm : w.Shown key m) :
    (key, m.id) ∈ (read w w.journal p.skips).seen := by
  cases hs : w.archive.lookup key with
  | none =>
    have hin := hm.1
    rw [messages_of_none hs] at hin
    cases hin
  | some s =>
    rcases hlooked key s hs with hskip | hsource
    · have := hb hj key hskip m hm.1
      rw [hm.2] at this
      cases this
    · exact h.known key s hs hsource m hm

theorem sync_logged (h : Logged w w.journal) (hw : Filed w) (hr : Retains w p) (hb : Bases w p) :
    Logged (w.scanned p.skips (cut (read w w.journal p.skips) p.maxEvents)) (cut (read w w.journal p.skips) p.maxEvents) := by
  obtain ⟨hlogged, hgrows, hlooked⟩ := read_keeps h hw p.skips
  have hretains := read_retains hr hgrows
  refine { hlogged with
    rows := List.filter_sublist.trans hlogged.rows, kept := ?_, clean := ?_, baseline := rfl
    silent := fun hc => (by cases hc), base := ?_ }
  · intro e he m hm hin hlt
    refine List.mem_filter.2 ⟨hlogged.kept e he m hm hin ?_, decide_eq_true hlt⟩
    rw [hgrows.floor]
    exact Nat.lt_of_le_of_lt hretains hlt
  · intro key s hd hs
    by_cases hdirty : key ∈ w.dirty
    · refine (hlooked key s hs).resolve_left fun hskip => hd ?_
      exact List.mem_filter.2 ⟨hdirty, decide_eq_true hskip⟩
    · exact hlogged.clean key s hdirty hs
  · intro n hn
    have hn' : w.baseEntry.getD w.nextEntry = n := Option.some.inj hn
    cases hbase : w.baseEntry with
    | some n' =>
      rw [hbase] at hn'
      subst hn'
      exact hlogged.base n' hbase
    | none =>
      rw [hbase] at hn'
      subst hn'
      have hj : w.journal.baseline = false := h.baseline.trans (by rw [hbase]; rfl)
      refine ⟨Nat.le_refl _, fun key m hm _ => read_based hlogged hj hb hlooked key m hm, fun e he m hm => ?_⟩
      rw [hlogged.silent (hgrows.baseline.trans hj) e he] at hm
      cases hm

theorem sync_followed (h : Logged w w.journal) (hw : Filed w) (hc : Followed w w.journal c) :
    Followed (w.scanned p.skips (cut (read w w.journal p.skips) p.maxEvents)) (cut (read w w.journal p.skips) p.maxEvents) c := by
  obtain ⟨-, hgrows, -⟩ := read_keeps h hw p.skips
  have hc' := hc.grows hgrows
  exact ⟨hc'.head, hc'.valid, hc'.start, rfl, hc'.before, hc'.pending, hc'.given, hc'.logged, hc'.ordered, hc'.received⟩

/-- The invariant after the scan of a poll. -/
theorem Inv.scanned (h : Inv w w.journal) (hr : Retains w p) (hb : Bases w p) :
    Inv (w.scanned p.skips (w.journal.sync w.archive p.maxEvents p.skips)) (w.journal.sync w.archive p.maxEvents p.skips) := by
  rw [sync_eq]
  exact ⟨⟨h.filed.ids, h.filed.entries, h.filed.below, h.filed.apart, h.filed.signature⟩, sync_logged h.logged h.filed hr hb,
    fun c hc => sync_followed h.logged h.filed (h.followed c hc)⟩

/-! ## A client starts -/

theorem Inv.started (h : Inv w w.journal) {sessionKey : Option String} (hr : Retains w p) (hb : Bases w p)
    (hbegins : Begins w p (sessionKey.getD "")) (hvalid : sessionKey.any (!validSessionKey ·) = false) :
    Inv { w.scanned p.skips (w.journal.sync w.archive p.maxEvents p.skips) with
        client := some
          { sessionKey
            cursor := ⟨(w.journal.sync w.archive p.maxEvents p.skips).head,
              (w.journal.sync w.archive p.maxEvents p.skips).generation, sessionKey.getD ""⟩
            startEntry := w.nextEntry } }
      (w.journal.sync w.archive p.maxEvents p.skips) := by
  have hnext := h.scanned hr hb
  obtain ⟨hlogged, hgrows, hlooked⟩ := read_keeps h.logged h.filed p.skips
  rw [sync_eq] at hnext ⊢
  refine ⟨{ hnext.filed with }, { hnext.logged with }, ?_⟩
  intro c hc
  obtain rfl := Option.some.inj hc
  refine ⟨Nat.le_refl _, ⟨rfl, rfl, hvalid⟩, Nat.le_refl _, rfl, ?_, ?_, ?_, ?_, List.Pairwise.nil, by simp⟩
  · intro key m hm hin _
    cases hs : w.archive.lookup key with
    | none =>
      have hmem : m ∈ w.messages key := hm.1
      rw [messages_of_none hs] at hmem
      cases hmem
    | some s =>
      rcases hlooked key s hs with hskip | hsource
      · exact hgrows.seen key m hm (hbegins key hskip hin m hm.1 hm.2)
      · exact hlogged.known key s hs hsource m hm
  · intro e he hlt
    exact absurd (hnext.logged.head e he) (Nat.not_le_of_lt hlt)
  · intro _ e he _ _ m hm hstart
    exact absurd (hnext.logged.below e he m hm).1 (Nat.not_lt_of_le hstart)
  · intro key m hm _ hstart
    exact absurd (h.filed.below key m hm.1) (Nat.not_lt_of_le hstart)

/-! ## A client polls -/

/-- The first rows of a strictly sorted list, and those up to the last of them. -/
theorem take_last {α : Type} {f : α → Nat} {l : List α} (h : l.Pairwise fun a b => f a < f b) {k : Nat} {a : α}
    (ha : (l.take k).getLast? = some a) : (∀ b ∈ l.take k, f b ≤ f a) ∧ ∀ b ∈ l, f b ≤ f a → b ∈ l.take k := by
  obtain ⟨front, hfront⟩ := List.getLast?_eq_some_iff.1 ha
  have hsplit : l.Pairwise fun a b => f a < f b := h
  rw [← List.take_append_drop k l] at hsplit
  obtain ⟨htake, -, hdrop⟩ := List.pairwise_append.1 hsplit
  constructor
  · intro b hb
    rw [hfront] at hb htake
    rcases List.mem_append.1 hb with hb | hb
    · exact Nat.le_of_lt ((List.pairwise_append.1 htake).2.2 b hb a (List.mem_singleton.2 rfl))
    · rw [List.mem_singleton.1 hb]
  · intro b hb hle
    rw [← List.take_append_drop k l] at hb
    rcases List.mem_append.1 hb with hb | hb
    · exact hb
    · exact absurd hle (Nat.not_le_of_lt (hdrop a (List.mem_of_getLast? ha) b hb))

/-- The page of a poll: the rows of the scope after the position, up to the next one. -/
structure Pages (j : Journal) (scope : String) (position limit : Nat) (events : List Event) (next : Nat) : Prop where
  le : position ≤ next
  head : next ≤ j.head
  ordered : events.Pairwise fun a b => a.id < b.id
  mem : ∀ e, e ∈ events ↔ e ∈ j.events ∧ position < e.id ∧ inScope scope e.sessionKey = true ∧ e.id ≤ next
  full : next = j.head ∨ events.length = limit

/-- The rows a poll looks at are sorted as they are. -/
theorem rows_eq (h : Logged w j) (scope : String) (position : Nat) :
    j.rows scope position = j.events.filter fun e => decide (position < e.id) && inScope scope e.sessionKey :=
  List.Pairwise.insertionSort_eq (((h.ids.sublist h.rows).imp Nat.le_of_lt).sublist List.filter_sublist)

theorem answer_pages (h : Logged w j) {c : Cursor} {scope : String} {limit : Nat} (hlimit : 1 ≤ limit)
    (hscope : c.scope = scope) (hgeneration : c.generation = j.generation) (hfloor : j.floor ≤ c.position)
    (hhead : c.position ≤ j.head) :
    ∃ events next hasMore, j.answer (some c) scope limit = .page events ⟨next, j.generation, scope⟩ hasMore ∧
      Pages j scope c.position limit events next := by
  have hsorted : (j.rows scope c.position).Pairwise fun a b => a.id < b.id := by
    rw [rows_eq h]
    exact ((h.ids.sublist h.rows).sublist List.filter_sublist)
  have hmem (e : Event) : e ∈ j.rows scope c.position ↔ e ∈ j.events ∧ c.position < e.id ∧ inScope scope e.sessionKey = true := by
    rw [rows_eq h, List.mem_filter, Bool.and_eq_true, decide_eq_true_eq]
  have hle (e : Event) (he : e ∈ j.events) : e.id ≤ j.head := h.head e (h.rows.subset he)
  unfold Journal.answer
  dsimp only
  rw [if_neg (by simp [hscope]), if_neg (by simp [hgeneration]; omega)]
  refine ⟨_, _, _, rfl, ?_⟩
  by_cases hmore : limit < (j.rows scope c.position).length
  · rw [if_pos (decide_eq_true hmore)]
    have hlen : ((j.rows scope c.position).take limit).length = limit := by
      rw [List.length_take]
      omega
    cases hlast : ((j.rows scope c.position).take limit).getLast? with
    | none =>
      rw [List.getLast?_eq_none_iff] at hlast
      rw [hlast] at hlen
      simp at hlen
      omega
    | some a =>
      obtain ⟨hup, hdown⟩ := take_last hsorted hlast
      have ha := (hmem a).1 (List.mem_of_mem_take (List.mem_of_getLast? hlast))
      refine ⟨Nat.le_of_lt ha.2.1, hle a ha.1, hsorted.sublist (List.take_sublist _ _), fun e => ⟨fun he => ?_, fun he => ?_⟩,
        .inr hlen⟩
      · obtain ⟨hin, hlt, hs⟩ := (hmem e).1 (List.mem_of_mem_take he)
        exact ⟨hin, hlt, hs, hup e he⟩
      · exact hdown e ((hmem e).2 ⟨he.1, he.2.1, he.2.2.1⟩) he.2.2.2
  · rw [if_neg (by simpa using hmore), List.take_of_length_le (Nat.le_of_not_lt hmore)]
    refine ⟨hhead, Nat.le_refl _, hsorted, fun e => ⟨fun he => ?_, fun he => ?_⟩, .inl rfl⟩
    · obtain ⟨hin, hlt, hs⟩ := (hmem e).1 he
      exact ⟨hin, hlt, hs, hle e hin⟩
    · exact (hmem e).2 ⟨he.1, he.2.1, he.2.2.1⟩

/-- The client takes a page. -/
theorem Followed.paged (h : Logged w j) (hc : Followed w j c) (hfloor : j.floor ≤ c.cursor.position) {limit : Nat}
    {events : List Event} {next : Nat} (hp : Pages j c.scope c.cursor.position limit events next) :
    Followed w j { c with received := c.received ++ events, cursor := ⟨next, j.generation, c.scope⟩ } := by
  refine ⟨hp.head, ⟨rfl, rfl, hc.valid.2.2⟩, hc.start, hc.based, hc.before, ?_, ?_, hc.logged, ?_, ?_⟩
  · intro e he hlt
    exact hc.pending e he (Nat.lt_of_le_of_lt hp.le hlt)
  · intro hx e he hle hin m hm hstart harch
    by_cases hpos : e.id ≤ c.cursor.position
    · exact List.mem_append_left _ (hc.given hx e he hpos hin m hm hstart harch)
    · have hrow := h.kept e he m hm harch (by omega)
      exact List.mem_append_right _ ((hp.mem e).2 ⟨hrow, by omega, hin, hle⟩)
  · refine List.pairwise_append.2 ⟨hc.ordered, hp.ordered, fun a ha b hb => ?_⟩
    exact Nat.lt_of_le_of_lt (hc.received a ha).2.1 ((hp.mem b).1 hb).2.1
  · intro e he
    rcases List.mem_append.1 he with he | he
    · obtain ⟨hlog, hle, hrest⟩ := hc.received e he
      exact ⟨hlog, Nat.le_trans hle hp.le, hrest⟩
    · obtain ⟨hrow, hlt, hin, hle⟩ := (hp.mem e).1 he
      have hlog := h.rows.subset hrow
      exact ⟨hlog, hle, hin, hc.pending e hlog hlt hin⟩

/-- The client is told of a gap. -/
theorem Followed.lost (h : Logged w j) (hc : Followed w j c) :
    Followed w j { c with cursor := ⟨j.head, j.generation, c.scope⟩, expired := true } := by
  refine ⟨Nat.le_refl _, ⟨rfl, rfl, hc.valid.2.2⟩, hc.start, hc.based, hc.before, ?_, (by simp), hc.logged, hc.ordered, ?_⟩
  · intro e he hlt
    exact absurd (h.head e he) (Nat.not_le_of_lt hlt)
  · intro e he
    obtain ⟨hlog, -, hrest⟩ := hc.received e he
    exact ⟨hlog, h.head e hlog, hrest⟩

theorem answer_taken (h : Logged w j) (hc : Followed w j c) (limit : Nat) (hlimit : 1 ≤ limit) :
    Followed w j (c.take (j.answer (some c.cursor) c.scope limit)) ∧
      ((c.take (j.answer (some c.cursor) c.scope limit)).expired = true ∨
        (c.take (j.answer (some c.cursor) c.scope limit)).cursor.position = j.head ∨
        (c.take (j.answer (some c.cursor) c.scope limit)).received.length = c.received.length + limit) := by
  by_cases hfloor : j.floor ≤ c.cursor.position
  · obtain ⟨events, next, hasMore, heq, hp⟩ := answer_pages h hlimit hc.valid.1 hc.valid.2.1 hfloor hc.head
    rw [heq]
    refine ⟨hc.paged h hfloor hp, ?_⟩
    rcases hp.full with hhead | hlen
    · exact .inr (.inl hhead)
    · exact .inr (.inr (by rw [← hlen]; exact List.length_append))
  · have heq : j.answer (some c.cursor) c.scope limit = .expired ⟨j.head, j.generation, c.scope⟩ := by
      unfold Journal.answer
      dsimp only
      rw [if_neg (by simp [hc.valid.1]), if_pos (.inr (.inl (by omega)))]
    rw [heq]
    exact ⟨hc.lost h, .inl rfl⟩

/-- What a poll of the client does, where its limit is one that is taken. -/
theorem next_poll (hc : w.client = some c) (hvalid : c.sessionKey.any (!validSessionKey ·) = false)
    (hlimit : 1 ≤ p.limit ∧ p.limit ≤ 200) :
    w.next (.poll p) =
      { w.scanned p.skips (w.journal.sync w.archive p.maxEvents p.skips) with
        client := some (c.take ((w.journal.sync w.archive p.maxEvents p.skips).answer (some c.cursor) c.scope p.limit.toNat)) } := by
  have hpoll : w.journal.poll w.archive p.maxEvents p.skips (some c.cursor) c.sessionKey p.limit =
      ((w.journal.sync w.archive p.maxEvents p.skips).answer (some c.cursor) c.scope p.limit.toNat,
        w.journal.sync w.archive p.maxEvents p.skips) := by
    unfold Journal.poll
    rw [if_neg (by rw [hvalid]; decide), if_neg (not_not.2 hlimit)]
    rfl
  have hanswer : (w.journal.sync w.archive p.maxEvents p.skips).answer (some c.cursor) c.scope p.limit.toNat ≠ .invalidSessionKey ∧
      (w.journal.sync w.archive p.maxEvents p.skips).answer (some c.cursor) c.scope p.limit.toNat ≠ .invalidLimit := by
    unfold Journal.answer
    dsimp only
    split_ifs <;> exact ⟨by simp, by simp⟩
  unfold World.next
  rw [hc]
  dsimp only
  rw [hpoll]
  split
  · next heq => exact absurd (congrArg Prod.fst heq) hanswer.1
  · next heq => exact absurd (congrArg Prod.fst heq) hanswer.2
  · next heq =>
    obtain ⟨rfl, rfl⟩ := Prod.mk.inj heq
    rfl

theorem Inv.polled (h : Inv w w.journal) (hc : w.client = some c) (hr : Retains w p) (hb : Bases w p)
    (hlimit : 1 ≤ p.limit ∧ p.limit ≤ 200) : Inv (w.next (.poll p)) (w.next (.poll p)).journal := by
  have hfollowed := h.followed c hc
  rw [next_poll hc hfollowed.valid.2.2 hlimit]
  have hnext := h.scanned hr hb
  have hlog := hnext.logged
  have htake := (answer_taken hlog (hnext.followed c hc) p.limit.toNat (by omega)).1
  refine ⟨{ hnext.filed with }, { hnext.logged with }, ?_⟩
  intro c' hc'
  obtain rfl := Option.some.inj hc'
  exact { htake with }

/-! ## The archive is written -/

theorem messages_write (w : World) (key : String) (l : List Message) (key' : String) :
    (w.write key l).messages key' = if key' = key then l else w.messages key' := by
  unfold World.messages World.write
  rw [Assoc.lookup_put]
  by_cases h : key' = key
  · simp [h]
  · simp [h]

theorem messages_delete (w : World) (key key' : String) :
    (w.next (.delete key)).messages key' = if key' = key then [] else w.messages key' := by
  unfold World.messages World.next
  dsimp only
  rw [Assoc.lookup_erase]
  by_cases h : key' = key
  · simp [h]
  · simp [h]

/-- The messages a write leaves: those that were there, perhaps no longer shown, and new
    ones with the next numbers, whose ids the journal has not seen where they are shown. -/
structure Writes (w : World) (key : String) (l : List Message) (nextEntry : Nat) : Prop where
  ids : (l.map Message.id).Nodup
  entries : l.Pairwise fun a b => a.entry < b.entry
  le : w.nextEntry ≤ nextEntry
  old : ∀ m ∈ l, m.entry < w.nextEntry →
    ∃ m₀ ∈ w.messages key, m.id = m₀.id ∧ m.entry = m₀.entry ∧ (m.visible = true → m = m₀)
  new : ∀ m ∈ l, w.nextEntry ≤ m.entry → m.entry < nextEntry ∧ (m.visible = true → (key, m.id) ∉ w.journal.seen)

/-- The archive goes from `w` to `w'`. -/
structure Rewrites (w w' : World) : Prop where
  filed : Filed w'
  nextEntry : w.nextEntry ≤ w'.nextEntry
  nextSignature : w.nextSignature ≤ w'.nextSignature
  client : w'.client = w.client
  baseEntry : w'.baseEntry = w.baseEntry
  dirty : w.dirty ⊆ w'.dirty
  member : ∀ key, ∀ m ∈ w'.messages key,
    (∃ m₀ ∈ w.messages key, m.id = m₀.id ∧ m.entry = m₀.entry ∧ (m.visible = true → m = m₀)) ∨
      (w.nextEntry ≤ m.entry ∧ (m.visible = true → (key, m.id) ∉ w.journal.seen))
  lookup : ∀ key s, w'.archive.lookup key = some s →
    w.archive.lookup key = some s ∨ (w.nextSignature ≤ s.signature ∧ key ∈ w'.dirty)

/-- What the archive shows was shown before, or is new and was not seen. -/
theorem Rewrites.shown {w' : World} (h : Rewrites w w') {m : Message} (hm : w'.Shown key m) :
    w.Shown key m ∨ (w.nextEntry ≤ m.entry ∧ (key, m.id) ∉ w.journal.seen) := by
  rcases h.member key m hm.1 with ⟨m₀, hm₀, -, -, hsame⟩ | ⟨hle, hnot⟩
  · obtain rfl := hsame hm.2
    exact .inl ⟨hm₀, hm.2⟩
  · exact .inr ⟨hle, hnot hm.2⟩

theorem Rewrites.logged {w' : World} (h : Rewrites w w') (hl : Logged w w.journal) : Logged w' w.journal := by
  refine ⟨hl.ids, hl.head, hl.rows, hl.entries, hl.sorted, ?_, ?_, ?_, ?_, ?_, ?_, ?_, ?_, hl.silent, ?_⟩
  · intro e he m hm
    obtain ⟨hlt, hv⟩ := hl.below e he m hm
    exact ⟨Nat.lt_of_lt_of_le hlt h.nextEntry, hv⟩
  · intro e he m hm key m' hm' heq
    rcases h.member key m' hm' with ⟨m₀, hm₀, hid, hentry, hsame⟩ | ⟨hle, -⟩
    · obtain ⟨hkey, hseen, hsame₀⟩ := hl.same e he m hm key m₀ hm₀ (hentry.symm.trans heq)
      refine ⟨hkey, hid ▸ hseen, fun hv => ?_⟩
      obtain rfl := hsame hv
      exact hsame₀ hv
    · have := (hl.below e he m hm).1
      omega
  · intro e he m hm m' hm' hnot
    rcases h.shown hm' with hm' | ⟨hle, -⟩
    · exact hl.later e he m hm m' hm' hnot
    · exact Nat.lt_of_lt_of_le (hl.below e he m hm).1 hle
  · intro e he m hm hin hlt
    obtain ⟨hbelow, hv⟩ := hl.below e he m hm
    rcases h.shown ⟨hin, hv⟩ with hm' | ⟨hle, -⟩
    · exact hl.kept e he m hm hm'.1 hlt
    · omega
  · intro key s hs hsource m hm
    rcases h.lookup key s hs with hs₀ | ⟨hle, -⟩
    · have hm₀ : w.Shown key m := by
        refine ⟨?_, hm.2⟩
        rw [messages_of_lookup hs₀, ← messages_of_lookup hs]
        exact hm.1
      exact hl.known key s hs₀ hsource m hm₀
    · have := hl.sources key s.signature hsource
      omega
  · intro key n hn
    exact Nat.lt_of_lt_of_le (hl.sources key n hn) h.nextSignature
  · intro key s hd hs
    rcases h.lookup key s hs with hs₀ | ⟨-, hin⟩
    · exact hl.clean key s (fun hin => hd (h.dirty hin)) hs₀
    · exact absurd hin hd
  · rw [h.baseEntry]
    exact hl.baseline
  · intro n hn
    rw [h.baseEntry] at hn
    obtain ⟨hle, hseen, hlog⟩ := hl.base n hn
    refine ⟨Nat.le_trans hle h.nextEntry, fun key m hm hlt => ?_, hlog⟩
    rcases h.shown hm with hm | ⟨hnew, -⟩
    · exact hseen key m hm hlt
    · omega

theorem Rewrites.followed {w' : World} (h : Rewrites w w') (hl : Logged w w.journal) (hc : Followed w w.journal c) :
    Followed w' w.journal c := by
  refine ⟨hc.head, hc.valid, Nat.le_trans hc.start h.nextEntry, hc.based, ?_, hc.pending, ?_, ?_, hc.ordered, hc.received⟩
  · intro key m hm hin hlt
    rcases h.shown hm with hm | ⟨hle, -⟩
    · exact hc.before key m hm hin hlt
    · have := hc.start
      omega
  · intro hx e he hle hin m hm hstart harch
    obtain ⟨hbelow, hv⟩ := hl.below e he m hm
    rcases h.shown ⟨harch, hv⟩ with hm' | ⟨hnew, -⟩
    · exact hc.given hx e he hle hin m hm hstart hm'.1
    · omega
  · intro key m hm hin hstart hseen
    rcases h.shown hm with hm | ⟨-, hnot⟩
    · exact hc.logged key m hm hin hstart hseen
    · exact absurd hseen hnot

theorem Rewrites.inv {w' : World} (h : Rewrites w w') (hi : Inv w w.journal) : Inv w' w.journal :=
  ⟨h.filed, h.logged hi.logged, fun c hc => h.followed hi.logged (hi.followed c (h.client ▸ hc))⟩

theorem Writes.rewrites {l : List Message} {n : Nat} (h : Writes w key l n) (hw : Filed w) :
    Rewrites w { w.write key l with nextEntry := n } := by
  have hmessages (key' : String) : World.messages { w.write key l with nextEntry := n } key' =
      if key' = key then l else w.messages key' := messages_write w key l key'
  have hlookup (key' : String) : (World.archive { w.write key l with nextEntry := n }).lookup key' =
      if key' = key then some ⟨w.nextSignature, l⟩ else w.archive.lookup key' := Assoc.lookup_put _ _ _ _
  have hmember (key' : String) (m : Message) (hm : m ∈ World.messages { w.write key l with nextEntry := n } key') :
      (∃ m₀ ∈ w.messages key', m.id = m₀.id ∧ m.entry = m₀.entry ∧ (m.visible = true → m = m₀)) ∨
        (w.nextEntry ≤ m.entry ∧ (m.visible = true → (key', m.id) ∉ w.journal.seen)) := by
    rw [hmessages] at hm
    split_ifs at hm with hkey
    · subst hkey
      by_cases hlt : m.entry < w.nextEntry
      · exact .inl (h.old m hm hlt)
      · exact .inr ⟨Nat.le_of_not_lt hlt, (h.new m hm (Nat.le_of_not_lt hlt)).2⟩
    · exact .inl ⟨m, hm, rfl, rfl, fun _ => rfl⟩
  have hnew (key' : String) (m : Message) (hm : m ∈ World.messages { w.write key l with nextEntry := n } key')
      (hle : w.nextEntry ≤ m.entry) : key' = key ∧ m.entry < n := by
    rw [hmessages] at hm
    split_ifs at hm with hkey
    · exact ⟨hkey, (h.new m hm hle).1⟩
    · exact absurd (hw.below key' m hm) (Nat.not_lt_of_le hle)
  refine ⟨⟨?_, ?_, ?_, ?_, ?_⟩, h.le, Nat.le_succ _, rfl, rfl, List.subset_cons_self _ _, hmember, ?_⟩
  · intro key'
    rw [hmessages]
    split_ifs
    · exact h.ids
    · exact hw.ids key'
  · intro key'
    rw [hmessages]
    split_ifs
    · exact h.entries
    · exact hw.entries key'
  · intro key' m hm
    rcases hmember key' m hm with ⟨m₀, hm₀, -, heq, -⟩ | ⟨hle, -⟩
    · rw [heq]
      exact Nat.lt_of_lt_of_le (hw.below key' m₀ hm₀) h.le
    · exact (hnew key' m hm hle).2
  · intro key₁ key₂ m hm m' hm' heq
    rcases hmember key₁ m hm with ⟨m₀, hm₀, -, heq₀, -⟩ | ⟨hle, -⟩
    · rcases hmember key₂ m' hm' with ⟨m₁, hm₁, -, heq₁, -⟩ | ⟨hle', -⟩
      · exact hw.apart key₁ key₂ m₀ hm₀ m₁ hm₁ (heq₀.symm.trans (heq.trans heq₁))
      · have := hw.below key₁ m₀ hm₀
        omega
    · exact (hnew key₁ m hm hle).1.trans (hnew key₂ m' hm' (heq ▸ hle)).1.symm
  · intro key' s hs
    rw [hlookup] at hs
    split_ifs at hs
    · rw [← Option.some.inj hs]
      exact Nat.lt_succ_self _
    · exact Nat.lt_succ_of_lt (hw.signature key' s hs)
  · intro key' s hs
    rw [hlookup] at hs
    split_ifs at hs with hkey
    · refine .inr ⟨?_, hkey ▸ List.mem_cons_self⟩
      rw [← Option.some.inj hs]
    · exact .inl hs

theorem delete_rewrites (hw : Filed w) (key : String) : Rewrites w (w.next (.delete key)) := by
  have hmem (key' : String) (m : Message) (hm : m ∈ (w.next (.delete key)).messages key') : m ∈ w.messages key' := by
    rw [messages_delete] at hm
    split_ifs at hm
    · cases hm
    · exact hm
  have hlookup (key' : String) (s : Session) (hs : (w.next (.delete key)).archive.lookup key' = some s) :
      w.archive.lookup key' = some s := by
    have heq : (w.next (.delete key)).archive.lookup key' = if key' = key then none else w.archive.lookup key' :=
      Assoc.lookup_erase _ _ _
    rw [heq] at hs
    split_ifs at hs
    exact hs
  refine ⟨⟨?_, ?_, fun key' m hm => hw.below key' m (hmem key' m hm), ?_, fun key' s hs => hw.signature key' s (hlookup key' s hs)⟩,
    Nat.le_refl _, Nat.le_refl _, rfl, rfl, List.subset_cons_self _ _, ?_, fun key' s hs => .inl (hlookup key' s hs)⟩
  · intro key'
    rw [messages_delete]
    split_ifs
    · exact List.nodup_nil
    · exact hw.ids key'
  · intro key'
    rw [messages_delete]
    split_ifs
    · exact List.Pairwise.nil
    · exact hw.entries key'
  · intro key₁ key₂ m hm m' hm' heq
    exact hw.apart key₁ key₂ m (hmem key₁ m hm) m' (hmem key₂ m' hm') heq
  · intro key' m hm
    exact .inl ⟨m, hmem key' m hm, rfl, rfl, fun _ => rfl⟩

/-! ## The writes of the archive -/

theorem mem_entering {first : Nat} {new : List (String × String × Bool)} {m : Message} (h : m ∈ World.entering first new) :
    first ≤ m.entry ∧ m.entry < first + new.length ∧ ∃ text, (m.id, text, m.visible) ∈ new := by
  obtain ⟨i, hi, rfl⟩ := List.mem_mapIdx.1 h
  exact ⟨Nat.le_add_right _ _, Nat.add_lt_add_left hi _, _, List.getElem_mem hi⟩

theorem entering_ids (first : Nat) (new : List (String × String × Bool)) :
    (World.entering first new).map Message.id = new.map (·.1) := by
  refine List.ext_getElem ?_ fun i h₁ h₂ => ?_
  · simp [World.entering]
  · simp [World.entering]

theorem entering_entries (first : Nat) (new : List (String × String × Bool)) :
    (World.entering first new).Pairwise fun a b => a.entry < b.entry := by
  unfold World.entering
  rw [List.pairwise_iff_getElem]
  intro i k hi hk hik
  rw [List.getElem_mapIdx, List.getElem_mapIdx]
  exact Nat.add_lt_add_left hik _

theorem append_writes (hw : Filed w) {new : List (String × String × Bool)} (hf : Fits w (.append key new))
    (hs : Sound w (.append key new)) :
    Writes w key (w.messages key ++ World.entering w.nextEntry new) (w.nextEntry + new.length) := by
  refine ⟨?_, ?_, Nat.le_add_right _ _, ?_, ?_⟩
  · rw [List.map_append, entering_ids]
    exact hf
  · refine List.pairwise_append.2 ⟨hw.entries key, entering_entries _ _, fun a ha b hb => ?_⟩
    exact Nat.lt_of_lt_of_le (hw.below key a ha) (mem_entering hb).1
  · intro m hm hlt
    rcases List.mem_append.1 hm with hm | hm
    · exact ⟨m, hm, rfl, rfl, fun _ => rfl⟩
    · exact absurd (mem_entering hm).1 (Nat.not_le_of_lt hlt)
  · intro m hm hle
    rcases List.mem_append.1 hm with hm | hm
    · exact absurd (hw.below key m hm) (Nat.not_lt_of_le hle)
    · obtain ⟨-, hlt, text, hin⟩ := mem_entering hm
      exact ⟨hlt, fun hv => hs _ hin hv⟩

/-- The messages are those that were there, perhaps no longer shown. -/
theorem kept_writes (hw : Filed w) (key : String) (f : Message → Message) (hid : ∀ m, (f m).id = m.id)
    (hentry : ∀ m, (f m).entry = m.entry) (hshown : ∀ m, (f m).visible = true → f m = m) :
    Writes w key ((w.messages key).map f) w.nextEntry := by
  refine ⟨?_, ?_, Nat.le_refl _, ?_, ?_⟩
  · have hcomp : Message.id ∘ f = Message.id := funext hid
    rw [List.map_map, hcomp]
    exact hw.ids key
  · rw [List.pairwise_map]
    refine (hw.entries key).imp fun {a b} hlt => ?_
    rw [hentry, hentry]
    exact hlt
  · intro m hm _
    obtain ⟨m₀, hm₀, rfl⟩ := List.mem_map.1 hm
    exact ⟨m₀, hm₀, hid m₀, hentry m₀, hshown m₀⟩
  · intro m hm hle
    obtain ⟨m₀, hm₀, rfl⟩ := List.mem_map.1 hm
    rw [hentry] at hle
    exact absurd (hw.below key m₀ hm₀) (Nat.not_lt_of_le hle)

/-! ## The runs -/

/-- Every sound step keeps the invariant. -/
theorem next_inv (h : Inv w w.journal) {e : Step} (hf : Fits w e) (hs : Sound w e) : Inv (w.next e) (w.next e).journal := by
  cases e with
  | append key new => exact ((append_writes h.filed hf hs).rewrites h.filed).inv h
  | withdraw key ids =>
    unfold World.next
    dsimp only
    split_ifs
    · refine ((kept_writes h.filed key _ ?_ ?_ ?_).rewrites h.filed).inv h
      · intro m
        split_ifs <;> rfl
      · intro m
        split_ifs <;> rfl
      · intro m hv
        split_ifs at hv ⊢
        rfl
    · exact h
  | touch key =>
    unfold World.next
    dsimp only
    split_ifs
    · have := kept_writes h.filed key id (fun _ => rfl) (fun _ => rfl) fun _ _ => rfl
      rw [List.map_id] at this
      exact (this.rewrites h.filed).inv h
    · exact h
  | delete key => exact (delete_rewrites h.filed key).inv h
  | scan p => exact h.scanned hs.1 hs.2
  | start p sessionKey =>
    unfold World.next Journal.poll
    dsimp only
    by_cases hkey : sessionKey.any (!validSessionKey ·) = true
    · rw [if_pos hkey]
      exact h
    · rw [if_neg hkey]
      by_cases hlimit : 1 ≤ p.limit ∧ p.limit ≤ 200
      · rw [if_neg (not_not.2 hlimit)]
        exact h.started hs.1 hs.2.1 hs.2.2 (by simpa using hkey)
      · rw [if_pos hlimit]
        exact h
  | poll p =>
    cases hc : w.client with
    | none =>
      unfold World.next
      rw [hc]
      exact h
    | some c =>
      by_cases hlimit : 1 ≤ p.limit ∧ p.limit ≤ 200
      · exact h.polled hc hs.1 hs.2 hlimit
      · have hpoll : w.journal.poll w.archive p.maxEvents p.skips (some c.cursor) c.sessionKey p.limit =
            (.invalidLimit, w.journal) := by
          unfold Journal.poll
          rw [if_neg (by rw [(h.followed c hc).valid.2.2]; decide), if_pos hlimit]
        unfold World.next
        rw [hc]
        dsimp only
        rw [hpoll]
        exact h

theorem Inv.init : Inv {} ({} : World).journal := by
  have hnone (key : String) : World.messages {} key = [] := rfl
  refine ⟨⟨?_, ?_, ?_, ?_, ?_⟩, ⟨List.Pairwise.nil, ?_, List.Sublist.refl _, List.nodup_nil, List.Pairwise.nil, ?_, ?_, ?_, ?_, ?_,
    ?_, ?_, rfl, ?_, ?_⟩, ?_⟩
  · intro key; exact List.nodup_nil
  · intro key; exact List.Pairwise.nil
  · intro key m hm; cases hm
  · intro key _ m hm; cases hm
  · intro key s hs; cases hs
  · intro e he; cases he
  · intro e he; cases he
  · intro e he; cases he
  · intro e he; cases he
  · intro e he; cases he
  · intro key s hs; cases hs
  · intro key n hn; cases hn
  · intro key s _ hs; cases hs
  · intro _ e he; cases he
  · intro n hn; cases hn
  · intro c hc; cases hc

/-- What the invariant says of the client. -/
theorem Inv.delivered (h : Inv w w.journal) (hc : w.client = some c) : Delivered w c := by
  have hf := h.followed c hc
  have hsub : c.received.Sublist w.journal.log := Sorting.sublist_of_subset hf.ordered h.logged.ids fun e he => (hf.received e he).1
  refine ⟨hf.ordered, h.logged.sorted.sublist hsub, h.logged.entries.sublist (hsub.filterMap _), fun e he => (hf.received e he).2.2.1,
    ?_, ?_⟩
  · intro e he m hm
    exact ⟨(hf.received e he).2.2.2 m hm, fun n hn => (h.logged.base n hn).2.2 e (hf.received e he).1 m hm⟩
  · intro hx hpos key m hm hin hstart hd
    cases hs : w.archive.lookup key with
    | none =>
      have hmem := hm.1
      rw [messages_of_none hs] at hmem
      cases hmem
    | some s =>
      have hseen := h.logged.known key s hs (h.logged.clean key s hd hs) m hm
      obtain ⟨e, he, rfl, hem⟩ := hf.logged key m hm hin hstart hseen
      exact ⟨e, hf.given hx e he (hpos ▸ h.logged.head e he) hin m hem hstart hm.1, rfl, hem⟩

/-- What the invariant says of the next poll. -/
theorem Inv.moves (h : Inv w w.journal) (hc : w.client = some c) : Moves w c := by
  intro p hs hlow hhigh
  have hnext := h.scanned hs.1 hs.2
  have htaken := (answer_taken hnext.logged (hnext.followed c hc) p.limit.toNat (by omega)).2
  rw [next_poll hc (h.followed c hc).valid.2.2 ⟨hlow, hhigh⟩]
  exact ⟨_, rfl, htaken⟩

/-- A client is given each new message once and no history, and its polls get on. -/
theorem delivered_once {w : World} (h : Reach World.next Allowed {} w) {c : Client} (hc : w.client = some c) :
    Delivered w c ∧ Moves w c := by
  have hinv : Inv w w.journal :=
    h.invariant (P := fun w => Inv w w.journal) .init fun _ _ hi hok => next_inv hi hok.1 hok.2
  exact ⟨hinv.delivered hc, hinv.moves hc⟩

namespace Sample

def run (es : List Step) : World := es.foldl World.next {}

def reader (es : List Step) : Client :=
  (run es).client.getD { sessionKey := none, cursor := ⟨0, "", ""⟩, startEntry := 0 }

/-- A message is written after the client has started, and one of the scans passes over it. -/
def written : List Step :=
  [.append "web:a" [("m1", "before", true)], .start {} none, .append "web:a" [("m2", "after", true)],
    .scan { skips := ["web:a"] }, .poll {}]

def replayed : List Step := [.append "web:a" [("m1", "old", true)], .start { skips := ["web:a"] } none, .poll {}]

def begun : List Step := [.scan {}, .append "web:a" [("m1", "old", true)], .start { skips := ["web:a"] } none, .poll {}]

/-- Another instance keeps one event, and the next one lowers the floor again. -/
def pruned : List Step :=
  [.start {} none, .append "web:a" [("m1", "one", true), ("m2", "two", true)], .scan { maxEvents := 1 }, .poll {}]

/-- A session is deleted and written again with the id it had, between two scans. -/
def restored : List Step :=
  [.append "web:a" [("m1", "old", true)], .start {} none, .delete "web:a", .append "web:a" [("m1", "new", true)], .poll {}]

/-- A run of possible steps after which the client was not given what it should have been. -/
def Fails (es : List Step) : Prop :=
  Reach World.next Fits {} (run es) ∧ (run es).client = some (reader es) ∧ ¬Delivered (run es) (reader es)

end Sample

theorem delivered_once_written : (Sample.reader Sample.written).received.map Event.entry = [some 1] ∧
    Delivered (Sample.run Sample.written) (Sample.reader Sample.written) :=
  ⟨by decide, (delivered_once (Reach.foldl _ _ .start (by decide)) (by decide)).1⟩

/-- The four ways in which history is given or a new message is lost. -/
theorem the_journal_replays_and_loses :
    Sample.Fails Sample.replayed ∧ Sample.Fails Sample.begun ∧ Sample.Fails Sample.pruned ∧ Sample.Fails Sample.restored := by
  refine ⟨⟨Reach.foldl _ _ .start (by decide), by decide, fun h => ?_⟩,
    ⟨Reach.foldl _ _ .start (by decide), by decide, fun h => ?_⟩,
    ⟨Reach.foldl _ _ .start (by decide), by decide, fun h => ?_⟩,
    ⟨Reach.foldl _ _ .start (by decide), by decide, fun h => ?_⟩⟩
  · have := (h.new ⟨1, "web:a", some { id := "m1", text := "old", entry := 0 }⟩ (by decide) _ rfl).1
    exact absurd this (by decide)
  · have := (h.new ⟨1, "web:a", some { id := "m1", text := "old", entry := 0 }⟩ (by decide) _ rfl).1
    exact absurd this (by decide)
  · have := h.all (by decide) (by decide) "web:a" { id := "m1", text := "one", entry := 0 }
      ⟨by decide, rfl⟩ (by decide) (by decide) (by decide)
    exact absurd this (by decide)
  · have := h.all (by decide) (by decide) "web:a" { id := "m1", text := "new", entry := 1 }
      ⟨by decide, rfl⟩ (by decide) (by decide) (by decide)
    exact absurd this (by decide)

end Flowly.Mcp.Events
