/-
  Flowly.Mcp.OauthStore — the credential file of an MCP server and its guarded writes
  (`flowly/mcp/oauth.py`: `FlowlyTokenStorage`, `clear_tokens`, `backup_tokens`,
  `restore_tokens`).

  What runs under the state lock is one step; any number of storages and processes take them. A
  guard is opened with the revision of a snapshot, and each update under it puts the new
  revision into its context variable, unless the context is gone by then. `J` are the values of
  a JSON object.

  Proved (`guarded_update`): in every run in which no write gives the file a revision that an
  open guard expects, nobody else has written between a snapshot and a guarded update that
  succeeds. An absent file has no revision, so a login and a logout in between go unnoticed
  (`logged_out_and_back`), and a restored file has its old one.
-/

import Flowly.Lib.Assoc
import Flowly.Lib.Reach

namespace Flowly.Mcp.OauthStore

open Flowly.Lib

/-- A JSON object. -/
abbrev Dict (J : Type) := List (String × J)

/-- What the store takes from `json` and `hashlib`, over the bytes `R` of a file. -/
structure Host (R J : Type) where
  /-- None is no JSON, or no object. -/
  parse : R → Option (Dict J)
  dump : Dict J → R
  sha256 : R → String
  null : J
  str : String → J
  parse_dump : ∀ d, parse (dump d) = some d

/-- A `FlowlyTokenStorage`. -/
structure Storage where
  serverName : String
  url : Option String := none
  closed : Bool := false

variable {R J : Type} [DecidableEq J] (host : Host R J)

namespace Host

/-- `data.get(key)`. -/
def get (d : Dict J) (key : String) : J := (d.lookup key).getD host.null

/-- `_read`: one that has no revision is given the hash of its bytes for one. -/
def read : Option R → Dict J
  | none => []
  | some raw =>
    match host.parse raw with
    | none => []
    | some d => if (d.lookup "revision").isSome then d else Assoc.put d "revision" (host.str ("legacy:" ++ host.sha256 raw))

def revision (file : Option R) : J := host.get (host.read file) "revision"

def bound (storage : Storage) (d : Dict J) : Bool :=
  (d.lookup "server_name").getD (host.str storage.serverName) = host.str storage.serverName ∧
    storage.url.all fun url => (d.lookup "server_url").getD (host.str url) = host.str url

/-- `data.update(values)`. -/
def merge (d values : Dict J) : Dict J := values.foldl (fun d kv => Assoc.put d kv.1 kv.2) d

/-- `_update_sync`: what the file is then; none is `OAuthStateChangedError`. No expected revision is `_UNGUARDED`. -/
def updateSync (storage : Storage) (file : Option R) (values : Dict J) (expected : Option J) (uuid : String) : Option R :=
  if storage.closed then none
  else if expected.any (· ≠ host.revision file) then none
  else
    let d := host.read file
    let d := merge (if host.bound storage d then d else []) values
    let d := Assoc.put d "server_name" (host.str storage.serverName)
    let d := match storage.url with
      | some url => Assoc.put d "server_url" (host.str url)
      | none => d
    some (host.dump (Assoc.put d "revision" (host.str uuid)))

end Host

/-! ## Runs -/

/-- A guard: the revision its context variable has, and how many writes there were at its snapshot. -/
structure Guard (J : Type) where
  expected : J
  since : Nat
  /-- It is not left yet, or an update under it is still in its thread. -/
  live : Bool := true
  deriving DecidableEq

structure St (R J : Type) where
  file : Option R
  backups : List (Option R) := []
  guards : List (Guard J) := []
  /-- Who changed the file, in order: a guard, or another writer. -/
  writes : List (Option Nat) := []

inductive Event (J : Type) where
  /-- `snapshot`, for a guard. -/
  | snapshot
  | leave (guard : Nat)
  /-- An update, under a guard or none; `taken`: its context is there to have the new revision. -/
  | update (guard : Option Nat) (storage : Storage) (values : Dict J) (uuid : String) (taken : Bool)
  | clear
  | backup
  | restore (backup : Nat)

def Event.writer : Event J → Option Nat
  | .update guard _ _ _ _ => guard
  | _ => none

namespace St

variable (s : St R J)

/-- What `path.unlink` leaves, of a file that was there. -/
def unlinked : Option (Option R) := if s.file.isSome then some none else none

/-- What the file is after a step that changes it. -/
def written : Event J → Option (Option R)
  | .update none storage values uuid _ => (host.updateSync storage s.file values none uuid).map some
  | .update (some i) storage values uuid _ =>
    match s.guards[i]? with
    | some g => if g.live then (host.updateSync storage s.file values (some g.expected) uuid).map some else none
    | none => none
  | .clear => s.unlinked
  | .restore k =>
    match s.backups[k]? with
    | some (some raw) => some (some raw)
    | some none => s.unlinked
    | none => none
  | .snapshot | .leave _ | .backup => none

def advance : Event J → List (Guard J)
  | .update (some i) _ _ uuid true => s.guards.modify i fun g => { g with expected := host.str uuid }
  | _ => s.guards

def next (e : Event J) : St R J :=
  match s.written host e with
  | some file => { s with file, writes := s.writes ++ [e.writer], guards := s.advance host e }
  | none =>
    match e with
    | .snapshot => { s with guards := s.guards ++ [{ expected := host.revision s.file, since := s.writes.length }] }
    | .leave i => { s with guards := s.guards.modify i fun g => { g with live := false } }
    | .backup => { s with backups := s.backups ++ [s.file] }
    | _ => s

def Unexpected (revision : J) : Prop := ∀ g ∈ s.guards, g.live = true → g.expected ≠ revision

instance (revision : J) : Decidable (s.Unexpected revision) := inferInstanceAs (Decidable (∀ g ∈ s.guards, _))

/-- What a write gives the file for a revision is expected by no open guard: `uuid4` is new, a logout
finds no guard on an absent file, and what is restored has not been the file in a guard's time. -/
def Ok : Event J → Prop
  | .update _ _ _ uuid _ => s.Unexpected (host.str uuid)
  | .clear => s.file.isSome = true → s.Unexpected host.null
  | .restore k => ∀ file ∈ s.backups[k]?, file.isSome = true ∨ s.file.isSome = true → s.Unexpected (host.revision file)
  | .snapshot | .leave _ | .backup => True

instance (e : Event J) : Decidable (s.Ok host e) :=
  match e with
  | .update .. => inferInstanceAs (Decidable (s.Unexpected _))
  | .clear => inferInstanceAs (Decidable (_ → s.Unexpected _))
  | .restore _ => inferInstanceAs (Decidable (∀ file ∈ s.backups[_]?, _))
  | .snapshot | .leave _ | .backup => isTrue trivial

def Disturbed (i : Nat) (g : Guard J) : Prop := ∃ w ∈ s.writes.drop g.since, w ≠ some i

/-- An open guard expects what the file has no longer, once somebody else has written. -/
def Inv : Prop := ∀ i g, s.guards[i]? = some g → g.live = true →
  g.since ≤ s.writes.length ∧ (s.Disturbed i g → g.expected ≠ host.revision s.file)

variable {host s}

variable {file : Option R}

/-- An update that is not refused found the revision it expects, and leaves its own. -/
theorem revision_updateSync {storage : Storage} {values : Dict J} {expected : Option J} {uuid : String}
    {raw : R} (h : host.updateSync storage file values expected uuid = some raw) :
    host.revision (some raw) = host.str uuid ∧ ∀ x ∈ expected, x = host.revision file := by
  unfold Host.updateSync at h
  split at h
  · cases h
  · split at h
    · cases h
    · next hexpected =>
      cases h
      refine ⟨?_, ?_⟩
      · unfold Host.revision Host.read
        simp only [host.parse_dump, Assoc.lookup_put, if_true, Option.isSome_some, Host.get, Option.getD_some]
      · rintro x rfl
        simpa using hexpected

/-- An update that writes, and the guard it is under. -/
theorem written_update {guard : Option Nat} {storage : Storage} {values : Dict J} {uuid : String} {taken : Bool}
    (h : s.written host (.update guard storage values uuid taken) = some file) :
    host.revision file = host.str uuid ∧
      ∀ i ∈ guard, ∃ g, s.guards[i]? = some g ∧ g.live = true ∧ g.expected = host.revision s.file := by
  cases guard with
  | none =>
    obtain ⟨raw, hraw, rfl⟩ := Option.map_eq_some_iff.1 h
    exact ⟨(revision_updateSync hraw).1, by simp⟩
  | some i =>
    dsimp only [written] at h
    split at h
    · next g hg =>
      split at h
      · next hlive =>
        obtain ⟨raw, hraw, rfl⟩ := Option.map_eq_some_iff.1 h
        obtain ⟨hown, hfound⟩ := revision_updateSync hraw
        refine ⟨hown, ?_⟩
        rintro j ⟨⟩
        exact ⟨g, hg, hlive, hfound _ rfl⟩
      · cases h
    · cases h

omit [DecidableEq J] in
theorem unlinked_eq_some (h : s.unlinked = some file) : s.file.isSome = true ∧ file = none := by
  unfold unlinked at h
  split at h
  · next hsome => exact ⟨hsome, (Option.some.inj h).symm⟩
  · cases h

variable {e : Event J}

/-- Nothing that is written has a revision an open guard expects. -/
theorem Ok.written (hok : s.Ok host e) (h : s.written host e = some file) :
    s.Unexpected (host.revision file) := by
  cases e with
  | update guard storage values uuid taken =>
    rw [(written_update h).1]
    exact hok
  | clear =>
    obtain ⟨hsome, rfl⟩ := unlinked_eq_some h
    exact hok hsome
  | restore k =>
    dsimp only [St.written] at h
    split at h
    · next raw hraw =>
      cases h
      exact hok _ hraw (.inl rfl)
    · next hnone =>
      obtain ⟨hsome, rfl⟩ := unlinked_eq_some h
      exact hok _ hnone (.inr hsome)
    · cases h
  | snapshot | leave | backup => cases h

omit [DecidableEq J] in
/-- A guard after a write: as it was, or with the revision of its own update. -/
theorem advance_getElem? {i : Nat} {g : Guard J} (h : (s.advance host e)[i]? = some g) :
    s.guards[i]? = some g ∨ ∃ old storage values uuid, e = .update (some i) storage values uuid true ∧
      s.guards[i]? = some old ∧ g = { old with expected := host.str uuid } := by
  unfold advance at h
  split at h
  · next j storage values uuid =>
    rw [List.getElem?_modify] at h
    obtain ⟨old, hold, rfl⟩ := Option.map_eq_some_iff.1 h
    by_cases hji : j = i
    · subst hji
      exact .inr ⟨old, storage, values, uuid, rfl, hold, by simp⟩
    · exact .inl (by simpa [hji] using hold)
  · exact .inl h

/-- A step that writes nothing opens a guard, leaves one, or keeps them all. -/
theorem Inv.quiet (h : s.Inv host) (hnone : s.written host e = none) : (s.next host e).Inv host := by
  unfold next
  rw [hnone]
  cases e with
  | snapshot =>
    intro i g hg hlive
    dsimp only at hg
    rw [List.getElem?_append] at hg
    split at hg
    · exact h i g hg hlive
    · obtain ⟨-, rfl⟩ := List.getElem?_eq_some_iff.1 hg
      refine ⟨by simp, ?_⟩
      rintro ⟨w, hw, -⟩
      simp at hw
  | leave j =>
    intro i g hg hlive
    dsimp only at hg
    rw [List.getElem?_modify] at hg
    obtain ⟨old, hold, rfl⟩ := Option.map_eq_some_iff.1 hg
    by_cases hji : j = i
    · simp [hji] at hlive
    · simp only [hji, if_false] at hlive ⊢
      exact h i old hold hlive
  | backup | update | clear | restore => exact h

theorem Inv.write (h : s.Inv host) (hok : s.Ok host e) (hw : s.written host e = some file) :
    (s.next host e).Inv host := by
  unfold next
  rw [hw]
  intro i g hg hlive
  rcases advance_getElem? hg with hold | ⟨old, storage, values, uuid, rfl, hold, rfl⟩
  · refine ⟨?_, fun _ => hok.written hw g (List.mem_of_getElem? hold) hlive⟩
    rw [List.length_append]
    exact Nat.le_add_right_of_le (h i g hold hlive).1
  · obtain ⟨hsince, hkeeps⟩ := h i old hold hlive
    refine ⟨?_, ?_⟩
    · rw [List.length_append]
      exact Nat.le_add_right_of_le hsince
    · -- the new write is the guard's own, and it was let through: nobody else wrote before it
      rintro ⟨w, hmem, hother⟩
      obtain ⟨g, hg, -, hfound⟩ := (written_update hw).2 i rfl
      obtain rfl : old = g := Option.some.inj (hold.symm.trans hg)
      dsimp only at hmem
      rw [List.drop_append_of_le_length hsince, List.mem_append] at hmem
      rcases hmem with hmem | hmem
      · exact absurd hfound (hkeeps ⟨w, hmem, hother⟩)
      · exact absurd (List.mem_singleton.1 hmem) hother

theorem Inv.next (h : s.Inv host) (hok : s.Ok host e) : (s.next host e).Inv host := by
  cases hw : s.written host e with
  | none => exact h.quiet hw
  | some file => exact h.write hok hw

/-- A guarded update that succeeds comes after writes of its own guard only, since the snapshot. -/
theorem guarded_update {file : Option R} {backups : List (Option R)} (h : Reach (St.next host) (Ok host) { file, backups } s)
    {i : Nat} {g : Guard J} (hg : s.guards[i]? = some g) {storage : Storage} {values : Dict J} {uuid : String} {taken : Bool}
    (hupdate : (s.written host (.update (some i) storage values uuid taken)).isSome = true) :
    ∀ w ∈ s.writes.drop g.since, w = some i := by
  have hinv : s.Inv host := by
    refine h.invariant ?_ fun _ _ hs hok => hs.next hok
    intro i g hg
    cases hg
  obtain ⟨file, hfile⟩ := Option.isSome_iff_exists.1 hupdate
  obtain ⟨g', hg', hlive, hfound⟩ := (written_update hfile).2 i rfl
  obtain rfl : g = g' := Option.some.inj (hg.symm.trans hg')
  intro w hw
  by_contra hother
  exact (hinv i g hg hlive).2 ⟨w, hw, hother⟩ hfound

end St

namespace Sample

/-- A file that holds the object itself, its values texts or null. -/
def plain : Host (Dict (Option String)) (Option String) where
  parse := some
  dump := id
  sha256 := fun _ => ""
  null := none
  str := some
  parse_dump _ := rfl

def storage : Storage := { serverName := "mail", url := some "https://mail.test" }

def login (access uuid : String) : Event (Option String) := .update none storage [("tokens", some access)] uuid true

def refresh (access uuid : String) : Event (Option String) := .update (some 0) storage [("tokens", some access)] uuid true

/-- A login, then a refresh that first notes its attempt. -/
def refreshed : List (Event (Option String)) := [login "a" "r1", .snapshot, refresh "a" "r2", .backup]

theorem guarded_update_refreshed : (refreshed.foldl (St.next plain) { file := none }).writes.length = 2 ∧
    ∀ w ∈ ((refreshed.foldl (St.next plain) { file := none }).writes.drop 1), w = some 0 := by
  have hrun : Reach (St.next plain) (St.Ok plain) { file := none, backups := [] } (refreshed.foldl (St.next plain) { file := none }) :=
    Reach.foldl refreshed _ .start (by decide)
  have hguard : (refreshed.foldl (St.next plain) { file := none }).guards[0]? = some ⟨some "r2", 1, true⟩ := by decide
  have hupdate : ((refreshed.foldl (St.next plain) { file := none }).written plain (refresh "b" "r3")).isSome = true := by decide
  exact ⟨by decide, St.guarded_update hrun hguard hupdate⟩

/-- A first login is under way while somebody else logs in and out again. -/
def inFlight : List (Event (Option String)) := [.snapshot, login "a" "r1", .clear]

/-- The login and the logout came between the snapshot and an update that succeeds: the credentials are back. -/
theorem logged_out_and_back :
    let s := inFlight.foldl (St.next plain) { file := none }
    s.guards[0]? = some ⟨none, 0, true⟩ ∧ s.file = none ∧ ¬ (∀ w ∈ s.writes.drop 0, w = some 0) ∧
      s.written plain (refresh "b" "r2") = some (some
        [("tokens", some "b"), ("server_name", some "mail"), ("server_url", some "https://mail.test"), ("revision", some "r2")]) := by
  decide

end Sample

end Flowly.Mcp.OauthStore
