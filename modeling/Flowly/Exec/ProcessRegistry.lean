/-
  Flowly.Exec.ProcessRegistry — the sessions of background processes and where they are
  registered (`flowly/exec/process_registry.py`: `_spawn_with_activity`, `recover_detached`,
  `list_sessions`, `poll`, `kill`, `_reader_loop`, `_move_to_finished`, `_prune_locked`;
  `recover` of `flowly/exec/process_checkpoint.py`).

  A step is what runs between two awaits: a section under the lock, or the test and the flags of
  an exit. A spawn is two sections with the start of the process in between. Whoever notes an
  exit is its handler: it moves the session and then tells the observers, each a step of its own.
  `wait`, and `kill` where there is a process handle, change nothing here; `kill_all` is a kill
  for each session. What the checkpoint has of survivors is an input.

  Proved (`bookkeeping`): the books are kept in every run whose steps are `Ok`. A spawn counts
  only what is registered when it starts (`too_many`), and a recovery takes the place of a
  session that is registered under its id.
-/

import Flowly.Lib.Assoc
import Flowly.Lib.Reach
import Mathlib.Data.List.Sort

namespace Flowly.Exec.ProcessRegistry

open Flowly.Lib

def MAX_PROCESSES : Nat := 64
def FINISHED_TTL_SECONDS : Int := 1800

/-- A `ProcessSession`. -/
structure Session (ι : Type) where
  id : ι
  /-- Recovered from a checkpoint; it has no reader. -/
  detached : Bool
  /-- Its reader loop is not at the end of the output. -/
  reading : Bool
  exited : Bool := false
  finishedAt : Int := 0
  movedToFinished : Bool := false
  /-- How often it was moved, and its exit told. -/
  moves : Nat := 0
  told : Nat := 0

/-- Who has noted the exit of a session, and is to move it or has. -/
structure Handler where
  session : Nat
  moved : Bool := false

/-- Sessions have numbers here; the dicts have the number for the id. -/
structure St (ι : Type) where
  sessions : List (Session ι) := []
  running : List (ι × Nat) := []
  finished : List (ι × Nat) := []
  handlers : List Handler := []
  /-- Spawns that were let in and are starting their process. -/
  starting : Nat := 0
  /-- The sessions that `_prune_locked` has dropped. -/
  pruned : List Nat := []

inductive Event (ι : Type) where
  /-- `list_sessions`, which prunes. -/
  | list (now : Int)
  /-- A spawn is let in, or is told that the registry is full. -/
  | arrive (now : Int)
  /-- The process of a spawn cannot be started. -/
  | abandon
  | register (id : ι)
  | recover (ids : List ι)
  /-- A reader comes to the end of the output and has the exit code. -/
  | endOfOutput (session : Nat) (now : Int)
  /-- `gone`: the probe finds no process. -/
  | poll (id : ι) (gone : Bool) (now : Int)
  /-- `sent`: the signal was sent, or there is no process. -/
  | kill (id : ι) (sent : Bool) (now : Int)
  /-- A handler takes its next step. -/
  | advance (handler : Nat)
  /-- The call that a handler is in is cancelled. -/
  | cancel (handler : Nat)

variable {ι : Type} [DecidableEq ι]

namespace St

variable (s : St ι)

def registered : List (ι × Nat) := s.running ++ s.finished

def finishedAt (k : Nat) : Int := (s.sessions[k]?.map (·.finishedAt)).getD 0

def spawned (k : Nat) : Bool := s.sessions[k]?.any fun x => !x.detached

def drop (gone : ι × Nat → Bool) : St ι :=
  { s with
    finished := s.finished.filter fun e => !gone e
    pruned := s.pruned ++ (s.finished.filter gone).map (·.2) }

def pruneLocked (now : Int) : St ι :=
  let s := s.drop fun e => decide (FINISHED_TTL_SECONDS < now - s.finishedAt e.2)
  if MAX_PROCESSES ≤ s.running.length + s.finished.length ∧ s.finished ≠ [] then
    let oldest := (s.finished.insertionSort fun a b => s.finishedAt a.2 ≤ s.finishedAt b.2).take (max 1 (s.finished.length / 4))
    s.drop fun e => decide (e ∈ oldest)
  else s

/-- `self._running[id] = session`, of a new session. -/
def insert (id : ι) (detached : Bool) : St ι :=
  { s with
    sessions := s.sessions ++ [{ id, detached, reading := !detached }]
    running := Assoc.put s.running id s.sessions.length }

def exit (k : Nat) (now : Int) : St ι :=
  { s with
    sessions := s.sessions.modify k fun x => { x with exited := true, finishedAt := now, reading := false }
    handlers := s.handlers ++ [{ session := k }] }

/-- `self._running.get(id) or self._finished.get(id)`. -/
def find (id : ι) : Option Nat := (s.running.lookup id).or (s.finished.lookup id)

/-- The exit of a recovered session is noted by the first that sees it. -/
def detect (id : ι) (now : Int) : St ι :=
  match s.find id with
  | some k => if s.sessions[k]?.any fun x => x.detached && !x.exited then s.exit k now else s
  | none => s

/-- `_move_to_finished`. -/
def move (k : Nat) : St ι :=
  match s.sessions[k]? with
  | some x =>
    if x.movedToFinished then s
    else
      { s with
        sessions := s.sessions.modify k fun x => { x with movedToFinished := true, moves := x.moves + 1 }
        running := s.running.filter (·.1 ≠ x.id)
        finished := Assoc.put s.finished x.id k }
  | none => s

/-- `_notify_trigger(session, "exit")`. -/
def tell (k : Nat) : St ι := { s with sessions := s.sessions.modify k fun x => { x with told := x.told + 1 } }

def advance (i : Nat) : St ι :=
  match s.handlers[i]? with
  | some h =>
    if h.moved then { s.tell h.session with handlers := s.handlers.eraseIdx i }
    else { s.move h.session with handlers := s.handlers.set i { h with moved := true } }
  | none => s

def next : Event ι → St ι
  | .list now => s.pruneLocked now
  | .arrive now =>
    let s := s.pruneLocked now
    if MAX_PROCESSES ≤ s.running.length + s.finished.length then s else { s with starting := s.starting + 1 }
  | .abandon => { s with starting := s.starting - 1 }
  | .register id => if s.starting = 0 then s else { s.insert id false with starting := s.starting - 1 }
  | .recover ids => ids.foldl (fun s id => s.insert id true) s
  | .endOfOutput k now => if s.sessions[k]?.any fun x => x.reading then s.exit k now else s
  | .poll id gone now => if gone then s.detect id now else s
  | .kill id sent now => if sent then s.detect id now else s
  | .advance i => s.advance i
  | .cancel i => { s with handlers := s.handlers.eraseIdx i }

/-- A spawn registers while there is room, under a new id; a recovery finds none of its ids
registered; and no call that has noted an exit is cancelled before it has told it. -/
def Ok : Event ι → Prop
  | .register id => id ∉ s.registered.map (·.1) ∧ s.registered.countP (fun e => s.spawned e.2) < MAX_PROCESSES
  | .recover ids => ids.Nodup ∧ ∀ id ∈ ids, id ∉ s.registered.map (·.1)
  | .cancel i => s.handlers.length ≤ i
  | _ => True

def handling (k : Nat) : Nat := s.handlers.countP (·.session = k)

/-- What the books are to say. -/
structure Kept : Prop where
  room : s.registered.length ≤ MAX_PROCESSES + s.registered.countP fun e => !s.spawned e.2
  ids : (s.registered.map (·.1)).Nodup
  /-- A session is running, was moved once and is finished, or has been pruned since. -/
  place : ∀ k x, s.sessions[k]? = some x →
    ((x.id, k) ∈ s.running ∧ (x.id, k) ∉ s.finished ∧ k ∉ s.pruned ∧ x.moves = 0) ∨
    ((x.id, k) ∉ s.running ∧ (x.id, k) ∈ s.finished ∧ k ∉ s.pruned ∧ x.moves = 1) ∨
    ((x.id, k) ∉ s.running ∧ (x.id, k) ∉ s.finished ∧ k ∈ s.pruned ∧ x.moves = 1 ∧ x.exited = true)
  /-- An exit is told once, when its one handler is done. -/
  told : ∀ k x, s.sessions[k]? = some x → x.told + s.handling k = if x.exited then 1 else 0

/-! ## The invariant -/

structure Inv : Prop where
  running : ∀ e ∈ s.running, ∃ x, s.sessions[e.2]? = some x ∧ x.id = e.1 ∧ x.movedToFinished = false
  finished : ∀ e ∈ s.finished, ∃ x, s.sessions[e.2]? = some x ∧ x.id = e.1 ∧ x.movedToFinished = true
  ids : (s.registered.map (·.1)).Nodup
  home : ∀ (k : Nat) (x : Session ι), s.sessions[k]? = some x →
    if x.movedToFinished then (x.id, k) ∈ s.finished ∨ k ∈ s.pruned else (x.id, k) ∈ s.running
  gone : ∀ k ∈ s.pruned, ∃ x, s.sessions[k]? = some x ∧ x.movedToFinished = true ∧ (x.id, k) ∉ s.finished
  moves : ∀ (k : Nat) (x : Session ι), s.sessions[k]? = some x → x.moves = if x.movedToFinished then 1 else 0
  exits : ∀ (k : Nat) (x : Session ι), s.sessions[k]? = some x →
    (x.movedToFinished = true → x.exited = true) ∧ (x.reading = true → x.exited = false)
  told : ∀ (k : Nat) (x : Session ι), s.sessions[k]? = some x → x.told + s.handling k = if x.exited then 1 else 0
  handler : ∀ h ∈ s.handlers, ∃ x, s.sessions[h.session]? = some x ∧ x.movedToFinished = h.moved
  room : s.registered.countP (fun e => s.spawned e.2) ≤ MAX_PROCESSES

variable {s}

omit [DecidableEq ι] in
theorem Inv.kept (h : s.Inv) : s.Kept := by
  refine ⟨?_, h.ids, ?_, h.told⟩
  · have hsplit := s.registered.length_eq_countP_add_countP fun e => s.spawned e.2
    have hroom := h.room
    simp only [Bool.not_eq_true, Bool.decide_eq_false] at hsplit
    omega
  · intro k x hx
    have hmoves := h.moves k x hx
    have hhome := h.home k x hx
    have hrunning : (x.id, k) ∈ s.running → x.movedToFinished = false := by
      intro hmem
      obtain ⟨y, hy, -, hmoved⟩ := h.running _ hmem
      obtain rfl := Option.some.inj (hx.symm.trans hy)
      exact hmoved
    have hpruned : k ∈ s.pruned → x.movedToFinished = true ∧ (x.id, k) ∉ s.finished := by
      intro hmem
      obtain ⟨y, hy, hmoved⟩ := h.gone k hmem
      obtain rfl := Option.some.inj (hx.symm.trans hy)
      exact hmoved
    cases hm : x.movedToFinished with
    | false =>
      simp only [hm, Bool.false_eq_true, if_false] at hhome hmoves
      refine .inl ⟨hhome, fun hmem => ?_, fun hmem => ?_, hmoves⟩
      · obtain ⟨y, hy, -, hmoved⟩ := h.finished _ hmem
        obtain rfl := Option.some.inj (hx.symm.trans hy)
        rw [hm] at hmoved
        cases hmoved
      · rw [hm] at hpruned
        cases (hpruned hmem).1
    | true =>
      simp only [hm, if_true] at hhome hmoves
      have hnot : (x.id, k) ∉ s.running := fun hmem => by
        rw [hm] at hrunning
        cases hrunning hmem
      by_cases hgone : k ∈ s.pruned
      · exact .inr (.inr ⟨hnot, (hpruned hgone).2, hgone, hmoves, (h.exits k x hx).1 hm⟩)
      · exact .inr (.inl ⟨hnot, hhome.resolve_right hgone, hgone, hmoves⟩)

omit [DecidableEq ι] in
theorem Inv.start : ({} : St ι).Inv := by
  refine ⟨?_, ?_, List.nodup_nil, ?_, ?_, ?_, ?_, ?_, ?_, Nat.zero_le _⟩ <;> simp

/-! ## Pruning -/

omit [DecidableEq ι] in
theorem Inv.drop (h : s.Inv) (gone : ι × Nat → Bool) : (s.drop gone).Inv := by
  have hsub : (s.drop gone).registered.Sublist s.registered := List.Sublist.append_left List.filter_sublist _
  refine ⟨h.running, fun e he => h.finished e (List.mem_filter.1 he).1, h.ids.sublist (hsub.map _), ?_, ?_, h.moves, h.exits, h.told,
    h.handler, hsub.countP_le.trans h.room⟩
  · intro k x hx
    have hhome := h.home k x hx
    split at hhome
    · next hmoved =>
      rw [if_pos hmoved]
      rcases hhome with hfin | hpr
      · by_cases hg : gone (x.id, k) = true
        · exact .inr (List.mem_append_right _ (List.mem_map.2 ⟨_, List.mem_filter.2 ⟨hfin, hg⟩, rfl⟩))
        · exact .inl (List.mem_filter.2 ⟨hfin, by simpa using hg⟩)
      · exact .inr (List.mem_append_left _ hpr)
    · next hmoved => rwa [if_neg hmoved]
  · intro k hk
    rcases List.mem_append.1 hk with hk | hk
    · obtain ⟨x, hx, hmoved, hnot⟩ := h.gone k hk
      exact ⟨x, hx, hmoved, fun hmem => hnot (List.mem_filter.1 hmem).1⟩
    · obtain ⟨e, he, rfl⟩ := List.mem_map.1 hk
      obtain ⟨hfin, hg⟩ := List.mem_filter.1 he
      obtain ⟨x, hx, hid, hmoved⟩ := h.finished e hfin
      refine ⟨x, hx, hmoved, fun hmem => ?_⟩
      rw [hid] at hmem
      have := (List.mem_filter.1 hmem).2
      rw [hg] at this
      cases this

theorem Inv.pruneLocked (h : s.Inv) (now : Int) : (s.pruneLocked now).Inv := by
  unfold St.pruneLocked
  dsimp only
  split
  · exact (h.drop _).drop _
  · exact h.drop _

/-! ## A new session -/

theorem put_new {d : List (ι × Nat)} {id : ι} (h : id ∉ d.map (·.1)) (k : Nat) : Assoc.put d id k = d ++ [(id, k)] := by
  unfold Assoc.put
  rw [if_neg]
  simpa using h

omit [DecidableEq ι] in
/-- Everything that is registered is a session. -/
theorem Inv.lookup (h : s.Inv) {e : ι × Nat} (he : e ∈ s.registered) : ∃ x, s.sessions[e.2]? = some x ∧ x.id = e.1 := by
  rcases List.mem_append.1 he with he | he
  · obtain ⟨x, hx, hid, -⟩ := h.running e he
    exact ⟨x, hx, hid⟩
  · obtain ⟨x, hx, hid, -⟩ := h.finished e he
    exact ⟨x, hx, hid⟩

theorem getElem?_concat_cases {α : Type} {l : List α} {a x : α} {k : Nat} (h : (l ++ [a])[k]? = some x) :
    l[k]? = some x ∨ k = l.length ∧ x = a := by
  obtain ⟨hlt, -⟩ := List.getElem?_eq_some_iff.1 h
  rw [List.length_append, List.length_singleton] at hlt
  rcases Nat.lt_succ_iff_lt_or_eq.1 hlt with hlt | rfl
  · exact .inl ((List.getElem?_append_left hlt).symm.trans h)
  · rw [List.getElem?_concat_length] at h
    exact .inr ⟨rfl, (Option.some.inj h).symm⟩

theorem Inv.insert (h : s.Inv) {id : ι} {detached : Bool} (hnew : id ∉ s.registered.map (·.1))
    (hroom : detached = false → s.registered.countP (fun e => s.spawned e.2) < MAX_PROCESSES) :
    (s.insert id detached).Inv := by
  have hrunning : (s.insert id detached).running = s.running ++ [(id, s.sessions.length)] := by
    refine put_new (fun hmem => hnew ?_) _
    rw [St.registered, List.map_append]
    exact List.mem_append_left _ hmem
  have hold {k : Nat} {x : Session ι} (hx : s.sessions[k]? = some x) : (s.insert id detached).sessions[k]? = some x := by
    obtain ⟨hlt, -⟩ := List.getElem?_eq_some_iff.1 hx
    exact (List.getElem?_append_left hlt).trans hx
  have hself : (s.insert id detached).sessions[s.sessions.length]? = some { id, detached, reading := !detached } :=
    List.getElem?_concat_length
  have hperm : (s.insert id detached).registered.Perm ((id, s.sessions.length) :: s.registered) := by
    rw [St.registered, hrunning, List.append_assoc]
    exact List.perm_middle
  have hhandling : s.handling s.sessions.length = 0 := by
    refine List.countP_eq_zero.2 fun g hg heq => ?_
    obtain ⟨x, hx, -⟩ := h.handler g hg
    rw [of_decide_eq_true heq] at hx
    exact absurd (List.getElem?_eq_some_iff.1 hx).1 (Nat.lt_irrefl _)
  refine ⟨?_, fun e he => ?_, ?_, ?_, fun k hk => ?_, ?_, ?_, ?_, fun g hg => ?_, ?_⟩
  · intro e he
    rw [hrunning] at he
    rcases List.mem_append.1 he with he | he
    · obtain ⟨x, hx, hid⟩ := h.running e he
      exact ⟨x, hold hx, hid⟩
    · obtain rfl := List.mem_singleton.1 he
      exact ⟨_, hself, rfl, rfl⟩
  · obtain ⟨x, hx, hid⟩ := h.finished e he
    exact ⟨x, hold hx, hid⟩
  · rw [(hperm.map _).nodup_iff]
    exact List.nodup_cons.2 ⟨hnew, h.ids⟩
  · intro k x hx
    rw [hrunning]
    rcases getElem?_concat_cases hx with hx | ⟨rfl, rfl⟩
    · have hhome := h.home k x hx
      split at hhome
      · next hmoved => rwa [if_pos hmoved]
      · next hmoved =>
        rw [if_neg hmoved]
        exact List.mem_append_left _ hhome
    · exact List.mem_append_right _ List.mem_cons_self
  · obtain ⟨x, hx, hrest⟩ := h.gone k hk
    exact ⟨x, hold hx, hrest⟩
  · intro k x hx
    rcases getElem?_concat_cases hx with hx | ⟨rfl, rfl⟩
    · exact h.moves k x hx
    · rfl
  · intro k x hx
    rcases getElem?_concat_cases hx with hx | ⟨rfl, rfl⟩
    · exact h.exits k x hx
    · exact ⟨fun hmoved => (by cases hmoved), fun _ => rfl⟩
  · intro k x hx
    rcases getElem?_concat_cases hx with hx | ⟨rfl, rfl⟩
    · exact h.told k x hx
    · exact (Nat.zero_add _).trans hhandling
  · obtain ⟨x, hx, hmoved⟩ := h.handler g hg
    exact ⟨x, hold hx, hmoved⟩
  · have hsame : s.registered.countP (fun e => (s.insert id detached).spawned e.2) = s.registered.countP fun e => s.spawned e.2 := by
      refine List.countP_congr fun e he => ?_
      obtain ⟨x, hx, -⟩ := h.lookup he
      rw [St.spawned, St.spawned, hold hx, hx]
    rw [hperm.countP_eq, List.countP_cons, hsame, St.spawned, hself]
    cases detached with
    | true => exact h.room
    | false => exact hroom rfl

/-! ## Exits -/

section Lists

variable {α : Type} {l : List α} {k j : Nat} {f : α → α} {x y : α}

theorem getElem?_modify_cases (h : (l.modify k f)[j]? = some y) : ∃ x, l[j]? = some x ∧ y = if k = j then f x else x := by
  rw [List.getElem?_modify] at h
  obtain ⟨x, hx, rfl⟩ := Option.map_eq_some_iff.1 h
  exact ⟨x, hx, by split <;> rfl⟩

theorem getElem?_modify_of (h : l[j]? = some x) : (l.modify k f)[j]? = some (if k = j then f x else x) := by
  rw [List.getElem?_modify, h]
  split <;> rfl

/-- An element by its index, between those before and after it. -/
theorem exists_split (h : l[k]? = some x) : ∃ a b, l = a ++ x :: b ∧ a.length = k := by
  obtain ⟨hlt, rfl⟩ := List.getElem?_eq_some_iff.1 h
  exact ⟨l.take k, l.drop (k + 1), by simp, by simp; omega⟩

end Lists

omit [DecidableEq ι] in
/-- Changes that leave where a session is registered and how often it was moved. -/
theorem Inv.touch (h : s.Inv) {k : Nat} {f : Session ι → Session ι} {handlers : List Handler}
    (hf : ∀ x, (f x).id = x.id ∧ (f x).detached = x.detached ∧ (f x).movedToFinished = x.movedToFinished ∧ (f x).moves = x.moves)
    (hexits : ∀ x, s.sessions[k]? = some x →
      ((f x).movedToFinished = true → (f x).exited = true) ∧ ((f x).reading = true → (f x).exited = false))
    (htold : ∀ j x, s.sessions[j]? = some x → (if k = j then f x else x).told + handlers.countP (·.session = j) =
      if (if k = j then f x else x).exited then 1 else 0)
    (hhandler : ∀ g ∈ handlers, ∃ x, s.sessions[g.session]? = some x ∧ x.movedToFinished = g.moved) :
    ({ s with sessions := s.sessions.modify k f, handlers } : St ι).Inv := by
  have hkeep (j : Nat) (x : Session ι) : (if k = j then f x else x).id = x.id ∧ (if k = j then f x else x).detached = x.detached ∧
      (if k = j then f x else x).movedToFinished = x.movedToFinished ∧ (if k = j then f x else x).moves = x.moves := by
    split
    · exact hf x
    · exact ⟨rfl, rfl, rfl, rfl⟩
  refine ⟨fun e he => ?_, fun e he => ?_, h.ids, fun j y hy => ?_, fun j hj => ?_, fun j y hy => ?_, fun j y hy => ?_,
    fun j y hy => ?_, fun g hg => ?_, ?_⟩
  · obtain ⟨x, hx, hid, hmoved⟩ := h.running e he
    obtain ⟨h1, -, h3, -⟩ := hkeep e.2 x
    exact ⟨_, getElem?_modify_of hx, h1.trans hid, h3.trans hmoved⟩
  · obtain ⟨x, hx, hid, hmoved⟩ := h.finished e he
    obtain ⟨h1, -, h3, -⟩ := hkeep e.2 x
    exact ⟨_, getElem?_modify_of hx, h1.trans hid, h3.trans hmoved⟩
  · obtain ⟨x, hx, rfl⟩ := getElem?_modify_cases hy
    obtain ⟨h1, -, h3, -⟩ := hkeep j x
    rw [h1, h3]
    exact h.home j x hx
  · obtain ⟨x, hx, hmoved, hnot⟩ := h.gone j hj
    obtain ⟨h1, -, h3, -⟩ := hkeep j x
    exact ⟨_, getElem?_modify_of hx, h3.trans hmoved, h1 ▸ hnot⟩
  · obtain ⟨x, hx, rfl⟩ := getElem?_modify_cases hy
    obtain ⟨-, -, h3, h4⟩ := hkeep j x
    rw [h3, h4]
    exact h.moves j x hx
  · obtain ⟨x, hx, rfl⟩ := getElem?_modify_cases hy
    by_cases hkj : k = j
    · subst hkj
      rw [if_pos rfl]
      exact hexits x hx
    · rw [if_neg hkj]
      exact h.exits j x hx
  · obtain ⟨x, hx, rfl⟩ := getElem?_modify_cases hy
    exact htold j x hx
  · obtain ⟨x, hx, hmoved⟩ := hhandler g hg
    exact ⟨_, getElem?_modify_of hx, (hkeep g.session x).2.2.1.trans hmoved⟩
  · refine le_of_eq_of_le (List.countP_congr fun e he => ?_) h.room
    obtain ⟨x, hx, -⟩ := h.lookup he
    rw [St.spawned, St.spawned, getElem?_modify_of hx, hx, Option.any_some, Option.any_some, (hkeep e.2 x).2.1]

omit [DecidableEq ι] in
/-- An exit is noted where none was. -/
theorem Inv.exit (h : s.Inv) {k : Nat} {x : Session ι} (hx : s.sessions[k]? = some x) (hexited : x.exited = false) (now : Int) :
    (s.exit k now).Inv := by
  refine h.touch (fun y => ⟨rfl, rfl, rfl, rfl⟩) (fun y _ => ⟨fun _ => rfl, fun hr => by cases hr⟩) ?_ ?_
  · intro j y hy
    have htold := h.told j y hy
    unfold St.handling at htold
    rw [List.countP_append, List.countP_singleton]
    by_cases hkj : k = j
    · subst hkj
      obtain rfl := Option.some.inj (hx.symm.trans hy)
      rw [hexited] at htold
      simp only [if_true, decide_true]
      simp only [Bool.false_eq_true, if_false] at htold
      omega
    · simpa [hkj] using htold
  · intro g hg
    rcases List.mem_append.1 hg with hg | hg
    · exact h.handler g hg
    · obtain rfl := List.mem_singleton.1 hg
      refine ⟨x, hx, ?_⟩
      cases hmoved : x.movedToFinished with
      | false => rfl
      | true =>
        rw [(h.exits k x hx).1 hmoved] at hexited
        cases hexited

omit [DecidableEq ι] in
/-- A handler that has moved its session tells the exit and is done. -/
theorem Inv.tell (h : s.Inv) {i : Nat} {g : Handler} (hg : s.handlers[i]? = some g) :
    ({ s.tell g.session with handlers := s.handlers.eraseIdx i } : St ι).Inv := by
  obtain ⟨a, b, hab, rfl⟩ := exists_split hg
  have herase : s.handlers.eraseIdx a.length = a ++ b := by
    rw [hab, List.eraseIdx_append_of_length_le (Nat.le_refl _), Nat.sub_self, List.eraseIdx_cons_zero]
  rw [herase]
  refine h.touch (fun y => ⟨rfl, rfl, rfl, rfl⟩) (fun y hy => h.exits _ y hy) ?_ ?_
  · intro j y hy
    have htold := h.told j y hy
    unfold St.handling at htold
    rw [hab, List.countP_append, List.countP_cons] at htold
    rw [List.countP_append]
    by_cases hkj : g.session = j
    · simp only [hkj, decide_true, if_true] at htold ⊢
      rw [← htold]
      omega
    · simpa [hkj] using htold
  · intro g' hg'
    refine h.handler g' ?_
    rw [hab]
    rcases List.mem_append.1 hg' with hg' | hg'
    · exact List.mem_append_left _ hg'
    · exact List.mem_append_right _ (List.mem_cons_of_mem _ hg')

omit [DecidableEq ι] in
/-- No other entry is of the session. -/
theorem Inv.other (h : s.Inv) {k : Nat} {x : Session ι} (hx : s.sessions[k]? = some x) {e : ι × Nat} (he : e ∈ s.registered)
    (hid : e.1 ≠ x.id) : k ≠ e.2 := by
  obtain ⟨y, hy, hyid⟩ := h.lookup he
  rintro rfl
  exact hid (hyid.symm.trans (congrArg Session.id (Option.some.inj (hy.symm.trans hx))))

/-- The books around the entry of a session that leaves `_running`. -/
structure Leaving (s : St ι) (x : Session ι) (k : Nat) (front back : List (ι × Nat)) : Prop where
  running : s.running = front ++ (x.id, k) :: back
  rest : s.running.filter (·.1 ≠ x.id) = front ++ back
  finished : x.id ∉ s.finished.map (·.1)
  registered : ((front ++ back) ++ (s.finished ++ [(x.id, k)])).Perm s.registered
  kept : ∀ e ∈ front ++ back, e ∈ s.running ∧ k ≠ e.2

theorem Inv.leaving (h : s.Inv) {k : Nat} {x : Session ι} (hx : s.sessions[k]? = some x) (hmoved : x.movedToFinished = false) :
    ∃ front back, Leaving s x k front back := by
  have hrun : (x.id, k) ∈ s.running := by
    have hhome := h.home _ _ hx
    rwa [hmoved, if_neg (by decide)] at hhome
  obtain ⟨front, back, hsplit⟩ := List.append_of_mem hrun
  have hids := h.ids
  rw [St.registered, hsplit, List.append_assoc, List.cons_append, List.map_append, List.map_cons] at hids
  have hperm := List.nodup_middle.1 hids
  have hnew : x.id ∉ (front ++ (back ++ s.finished)).map (·.1) := by
    rw [List.map_append]
    exact (List.nodup_cons.1 hperm).1
  simp only [List.map_append, List.mem_append, not_or] at hnew
  obtain ⟨hfront, hback, hfin⟩ := hnew
  refine ⟨front, back, hsplit, ?_, hfin, ?_, fun e he => ?_⟩
  · have hne {l : List (ι × Nat)} (hl : x.id ∉ l.map (·.1)) : l.filter (·.1 ≠ x.id) = l := by
      refine List.filter_eq_self.2 fun e he => decide_eq_true fun heq => hl ?_
      exact heq ▸ List.mem_map_of_mem he
    rw [hsplit, List.filter_append, List.filter_cons_of_neg (by simp), hne hfront, hne hback]
  · rw [← List.append_assoc, St.registered, hsplit, List.append_assoc front back, List.append_assoc front (_ :: back)]
    exact (List.perm_append_singleton _ _).trans List.perm_middle.symm
  · have hmem : e ∈ s.running := by
      rw [hsplit]
      rcases List.mem_append.1 he with he | he
      · exact List.mem_append_left _ he
      · exact List.mem_append_right _ (List.mem_cons_of_mem _ he)
    refine ⟨hmem, h.other hx (List.mem_append_left _ hmem) fun hid => ?_⟩
    rcases List.mem_append.1 he with he | he
    · exact hfront (hid ▸ List.mem_map_of_mem he)
    · exact hback (hid ▸ List.mem_map_of_mem he)

omit [DecidableEq ι] in
/-- The exit of a session is noted by one handler only. -/
theorem Inv.noted (h : s.Inv) {g : Handler} {a b : List Handler} (hab : s.handlers = a ++ g :: b) {x : Session ι}
    (hx : s.sessions[g.session]? = some x) :
    x.exited = true ∧ ∀ g' : Handler, g' ∈ a ∨ g' ∈ b → g.session ≠ g'.session := by
  have htold := h.told _ _ hx
  unfold St.handling at htold
  rw [hab, List.countP_append, List.countP_cons, if_pos (decide_eq_true rfl)] at htold
  have hexited : x.exited = true := by
    cases hexited : x.exited with
    | true => rfl
    | false =>
      rw [hexited, if_neg (by decide)] at htold
      omega
  rw [hexited, if_pos rfl] at htold
  refine ⟨hexited, fun g' hg' heq => ?_⟩
  have hpos {l : List Handler} (hl : g' ∈ l) : 0 < l.countP (·.session = g.session) :=
    List.countP_pos_iff.2 ⟨g', hl, decide_eq_true heq.symm⟩
  rcases hg' with hg' | hg'
  · have := hpos hg'
    omega
  · have := hpos hg'
    omega

/-- Where the other sessions are when one has moved. -/
theorem Leaving.home (h : s.Inv) {k : Nat} {x : Session ι} {front back : List (ι × Nat)} (hl : Leaving s x k front back)
    {j : Nat} {z : Session ι} (hz : s.sessions[j]? = some z) (hj : k ≠ j) :
    if z.movedToFinished then (z.id, j) ∈ s.finished ++ [(x.id, k)] ∨ j ∈ s.pruned else (z.id, j) ∈ front ++ back := by
  have hhome := h.home j z hz
  split at hhome
  · next hzm =>
    rw [if_pos hzm]
    exact hhome.imp_left (List.mem_append_left _)
  · next hzm =>
    rw [if_neg hzm]
    rw [hl.running] at hhome
    rcases List.mem_append.1 hhome with hhome | hhome
    · exact List.mem_append_left _ hhome
    · rcases List.mem_cons.1 hhome with heq | hhome
      · exact absurd (congrArg Prod.snd heq).symm hj
      · exact List.mem_append_right _ hhome

/-- A handler that has not moved its session moves it: from the running ones to the finished ones. -/
theorem Inv.move (h : s.Inv) {i : Nat} {g : Handler} (hg : s.handlers[i]? = some g) (hunmoved : g.moved = false) :
    ({ s.move g.session with handlers := s.handlers.set i { g with moved := true } } : St ι).Inv := by
  obtain ⟨x, hx, hmoved⟩ := h.handler g (List.mem_of_getElem? hg)
  rw [hunmoved] at hmoved
  obtain ⟨a, b, hab, rfl⟩ := exists_split hg
  have hset : s.handlers.set a.length { g with moved := true } = a ++ { g with moved := true } :: b := by
    rw [hab, List.set_append_right _ _ (Nat.le_refl _), Nat.sub_self, List.set_cons_zero]
  obtain ⟨front, back, hl⟩ := h.leaving hx hmoved
  have hfinished : Assoc.put s.finished x.id g.session = s.finished ++ [(x.id, g.session)] := put_new hl.finished _
  rw [hset]
  unfold St.move
  rw [hx]
  simp only [hmoved, Bool.false_eq_true, if_false, hl.rest, hfinished]
  obtain ⟨hexited, hlone⟩ := h.noted hab hx
  have hself : (s.sessions.modify g.session fun y => { y with movedToFinished := true, moves := y.moves + 1 })[g.session]? =
      some { x with movedToFinished := true, moves := x.moves + 1 } := by
    rw [getElem?_modify_of hx, if_pos rfl]
  refine ⟨fun e he => ?_, fun e he => ?_, ?_, fun j y hy => ?_, fun j hj => ?_, fun j y hy => ?_, fun j y hy => ?_,
    fun j y hy => ?_, fun g' hg' => ?_, ?_⟩
  · obtain ⟨hmem, hne⟩ := hl.kept e he
    obtain ⟨y, hy, hid, hym⟩ := h.running e hmem
    exact ⟨y, by simpa [hne] using hy, hid, hym⟩
  · rcases List.mem_append.1 he with he | he
    · have hne := h.other hx (List.mem_append_right _ he) fun hid => hl.finished (hid ▸ List.mem_map_of_mem he)
      obtain ⟨y, hy, hid, hym⟩ := h.finished e he
      exact ⟨y, by simpa [hne] using hy, hid, hym⟩
    · obtain rfl := List.mem_singleton.1 he
      exact ⟨_, hself, rfl, rfl⟩
  · rw [St.registered, (hl.registered.map _).nodup_iff]
    exact h.ids
  · obtain ⟨z, hz, rfl⟩ := getElem?_modify_cases hy
    by_cases hj : g.session = j
    · subst hj
      obtain rfl := Option.some.inj (hx.symm.trans hz)
      rw [if_pos rfl]
      exact .inl (List.mem_append_right _ List.mem_cons_self)
    · rw [if_neg hj]
      exact hl.home h hz hj
  · obtain ⟨z, hz, hzm, hnot⟩ := h.gone j hj
    have hne : g.session ≠ j := by
      rintro rfl
      obtain rfl := Option.some.inj (hx.symm.trans hz)
      rw [hmoved] at hzm
      cases hzm
    refine ⟨z, by simpa [hne] using hz, hzm, fun hmem => ?_⟩
    rcases List.mem_append.1 hmem with hmem | hmem
    · exact hnot hmem
    · exact hne (congrArg Prod.snd (List.mem_singleton.1 hmem)).symm
  · obtain ⟨z, hz, rfl⟩ := getElem?_modify_cases hy
    have hmoves := h.moves j z hz
    by_cases hj : g.session = j
    · subst hj
      obtain rfl := Option.some.inj (hx.symm.trans hz)
      rw [hmoved, if_neg (by decide)] at hmoves
      simp [hmoves]
    · rwa [if_neg hj]
  · obtain ⟨z, hz, rfl⟩ := getElem?_modify_cases hy
    have hexits := h.exits j z hz
    by_cases hj : g.session = j
    · subst hj
      obtain rfl := Option.some.inj (hx.symm.trans hz)
      rw [if_pos rfl]
      exact ⟨fun _ => hexited, hexits.2⟩
    · rwa [if_neg hj]
  · obtain ⟨z, hz, rfl⟩ := getElem?_modify_cases hy
    have hz' := h.told j z hz
    unfold St.handling at hz' ⊢
    rw [hab, List.countP_append, List.countP_cons] at hz'
    rw [List.countP_append, List.countP_cons]
    split <;> exact hz'
  · rcases List.mem_append.1 hg' with hin | hin
    · obtain ⟨y, hy, hym⟩ := h.handler g' (hab ▸ List.mem_append_left _ hin)
      exact ⟨y, by simpa [hlone g' (.inl hin)] using hy, hym⟩
    · rcases List.mem_cons.1 hin with rfl | hin
      · exact ⟨_, hself, rfl⟩
      · obtain ⟨y, hy, hym⟩ := h.handler g' (hab ▸ List.mem_append_right _ (List.mem_cons_of_mem _ hin))
        exact ⟨y, by simpa [hlone g' (.inr hin)] using hy, hym⟩
  · rw [St.registered, hl.registered.countP_eq]
    refine le_of_eq_of_le (List.countP_congr fun e he => ?_) h.room
    obtain ⟨y, hy, -⟩ := h.lookup he
    rw [St.spawned, St.spawned, getElem?_modify_of hy, hy]
    split <;> rfl

/-! ## A step -/

theorem Inv.advance (h : s.Inv) (i : Nat) : (s.advance i).Inv := by
  unfold St.advance
  split
  · next g hg =>
    split
    · exact h.tell hg
    · next hunmoved => exact h.move hg (Bool.eq_false_iff.2 hunmoved)
  · exact h

theorem Inv.detect (h : s.Inv) (id : ι) (now : Int) : (s.detect id now).Inv := by
  unfold St.detect
  split
  · next k _ =>
    split
    · next hunseen =>
      obtain ⟨x, hx, hx'⟩ := (Option.any_eq_true _ _).1 hunseen
      simp only [Bool.and_eq_true, Bool.not_eq_true'] at hx'
      exact h.exit hx hx'.2 now
    · exact h
  · exact h

/-- A recovery registers its sessions one by one. -/
theorem Inv.recover {ids : List ι} (hids : ids.Nodup) (h : s.Inv) (hnew : ∀ id ∈ ids, id ∉ s.registered.map (·.1)) :
    (ids.foldl (fun s id => s.insert id true) s).Inv := by
  induction ids generalizing s with
  | nil => exact h
  | cons id ids ih =>
    obtain ⟨hid, hids⟩ := List.nodup_cons.1 hids
    have hfresh := hnew id List.mem_cons_self
    refine ih hids (h.insert hfresh fun hd => by cases hd) fun id' hid' hmem => ?_
    have hrunning : (s.insert id true).running = s.running ++ [(id, s.sessions.length)] := by
      refine put_new (fun hmem => hfresh ?_) _
      rw [St.registered, List.map_append]
      exact List.mem_append_left _ hmem
    have hold := hnew id' (List.mem_cons_of_mem _ hid')
    rw [St.registered, List.map_append, List.mem_append, not_or] at hold
    rw [St.registered, hrunning, List.map_append, List.map_append, List.mem_append, List.mem_append] at hmem
    rcases hmem with (hmem | hmem) | hmem
    · exact hold.1 hmem
    · obtain rfl : id' = id := List.mem_singleton.1 hmem
      exact hid hid'
    · exact hold.2 hmem

theorem Inv.next (h : s.Inv) {e : Event ι} (hok : s.Ok e) : (s.next e).Inv := by
  cases e with
  | list now => exact h.pruneLocked now
  | arrive now =>
    have hpruned := h.pruneLocked now
    unfold St.next
    dsimp only
    split
    · exact hpruned
    · exact { hpruned with }
  | abandon => exact { h with }
  | register id =>
    have hnew : (s.insert id false).Inv := h.insert hok.1 fun _ => hok.2
    unfold St.next
    dsimp only
    split
    · exact h
    · exact { hnew with }
  | recover ids => exact h.recover hok.1 hok.2
  | endOfOutput k now =>
    unfold St.next
    dsimp only
    split
    · next hreading =>
      obtain ⟨x, hx, hx'⟩ := (Option.any_eq_true _ _).1 hreading
      exact h.exit hx ((h.exits k x hx).2 hx') now
    · exact h
  | poll id gone now =>
    cases gone with
    | true => exact h.detect id now
    | false => exact h
  | kill id sent now =>
    cases sent with
    | true => exact h.detect id now
    | false => exact h
  | advance i => exact h.advance i
  | cancel i =>
    have hsame : s.handlers.eraseIdx i = s.handlers := List.eraseIdx_of_length_le hok
    have hnext : s.next (.cancel i) = s := by
      rw [St.next, hsame]
    rw [hnext]
    exact h

/-- The books are kept in every run: there is room for what is registered, each session is in one
place and was moved at most once, each exit is told once, and none is pruned that runs. -/
theorem bookkeeping (h : Reach St.next St.Ok ({} : St ι) s) : s.Kept :=
  have hinv : s.Inv := h.invariant Inv.start fun _ _ hs hok => Inv.next hs hok
  hinv.kept

instance : ∀ (s : St ι) (e : Event ι), Decidable (s.Ok e)
  | _, .register _ => inferInstanceAs (Decidable (_ ∧ _))
  | _, .recover _ => inferInstanceAs (Decidable (_ ∧ _))
  | _, .cancel _ => inferInstanceAs (Decidable (_ ≤ _))
  | _, .list _ => isTrue trivial
  | _, .arrive _ => isTrue trivial
  | _, .abandon => isTrue trivial
  | _, .endOfOutput _ _ => isTrue trivial
  | _, .poll _ _ _ => isTrue trivial
  | _, .kill _ _ _ => isTrue trivial
  | _, .advance _ => isTrue trivial

end St

namespace Sample

/-- A spawn comes to its end, a recovered session is killed while it is polled, both are told
and the first is pruned. -/
def day : List (Event Nat) :=
  [.arrive 0, .register 7, .recover [3], .endOfOutput 0 10, .poll 3 false 11, .kill 3 true 12, .poll 3 true 12, .advance 1, .advance 0,
    .advance 0, .advance 0, .list 1811]

theorem bookkeeping_day : (day.foldl St.next {}).Kept ∧ (day.foldl St.next {}).finished = [(3, 1)] ∧
    (day.foldl St.next {}).pruned = [0] := by
  have hok : Reach.Allowed St.next St.Ok ({} : St Nat) day := by decide +kernel
  have hrun := Reach.foldl day ({} : St Nat) Reach.start hok
  exact ⟨St.bookkeeping hrun, by decide +kernel, by decide +kernel⟩

/-- 65 spawns are let in before one of them registers. -/
def crowd : List (Event Nat) := List.replicate 65 (.arrive 0) ++ (List.range 65).map .register

theorem too_many : ¬ ∀ events : List (Event Nat), (events.foldl St.next {}).Kept := by
  intro h
  have hroom := (h crowd).room
  revert hroom
  decide +kernel

end Sample

end Flowly.Exec.ProcessRegistry
