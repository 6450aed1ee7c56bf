/-
  Flowly.Session.HistoryPage — the display history in pages, newest first, each with a
  cursor to the page before it (`flowly/session/history_page.py`).

  A row's `body` is what `message_fingerprint` digests. The base64 and JSON of a cursor
  are given: `encode` writes `[1, session_key, identity]`, and `decode` reads any text
  back, none where it is no such list.

  Proved: however many rows are appended between the requests, and whatever sizes are
  asked for, a reader that follows the cursors is done after finitely many pages and was
  given each row of the history it began with once (`history_pages_partition`). A history
  without rows is one page without rows, and the cursor of a long identity is refused
  (`empty_page_and_refusals`).
-/

import Flowly.Session.Transactions

namespace Flowly.Session.HistoryPage

open Flowly.Session.Transactions (legacyEventId)

structure Row (β : Type) where
  /-- `_event_id`. -/
  eventId : IdValue := .falsy
  id : IdValue := .falsy
  role : String := ""
  body : β
  deriving DecidableEq

/-- A request parameter, as far as the function tells its values apart. -/
inductive Param where
  | absent
  | null
  | int (n : Int)
  | text (t : String)
  | other
  deriving DecidableEq

structure Info where
  historyPageVersion : Nat := 1
  hasOlder : Bool
  before : Option String

variable {β : Type}

/-- `message_fingerprint`, and the two directions of a cursor. -/
structure Coding (β : Type) where
  fingerprint : β → String
  encode : String → String → String
  decode : String → Option (String × String)

def sizeError : String := "History page size must be between 1 and 200."

def cursorError : String :=
  "This history page is no longer available. Reopen the conversation to refresh it."

/-- The identities of the rows; `seen` are the fingerprints of those before them. -/
def identities (fingerprint : β → String) : List String → List (Row β) → List String
  | _, [] => []
  | seen, row :: rows =>
    let own := fingerprint row.body
    let id := if row.eventId.truthy then row.eventId.str else legacyEventId own (seen.count own)
    id :: identities fingerprint (seen ++ [own]) rows

def limitOf : Param → Except String Nat
  | .absent => .ok 50
  | .int n => if 1 ≤ n ∧ n ≤ 200 then .ok n.toNat else .error sizeError
  | _ => .error sizeError

def endOf (coding : Coding β) (sessionKey : String) (ids : List String) : Param → Except String Nat
  | .absent | .null => .ok ids.length
  | .text before =>
    if 1 ≤ before.length ∧ before.length ≤ 2048 then
      match coding.decode before with
      | some (key, id) => if key = sessionKey ∧ id ∈ ids then .ok (ids.idxOf id) else .error cursorError
      | none => .error cursorError
    else .error cursorError
  | _ => .error cursorError

/-- Back to a user row, not below `floor`. -/
def backToUser (rows : List (Row β)) (floor : Nat) : Nat → Nat
  | 0 => 0
  | start + 1 =>
    if floor < start + 1 ∧ !(rows[start + 1]?.any (·.role = "user")) then backToUser rows floor start else start + 1

def present (row : Row β) (identity : String) : Row β :=
  { row with id := if row.id.truthy then row.id else .text identity }

def presented (fingerprint : β → String) (rows : List (Row β)) : List (Row β) :=
  List.zipWith present rows (identities fingerprint [] rows)

def historyPage (coding : Coding β) (rows : List (Row β)) (sessionKey : String) (limit before : Param) :
    Except String (List (Row β) × Option Info) := do
  if limit = .absent ∧ before = .absent then
    return (rows, none)
  let limit ← limitOf limit
  let ids := identities coding.fingerprint [] rows
  let stop ← endOf coding sessionKey ids before
  let start := backToUser rows (stop - 200) (stop - limit)
  let page := ((presented coding.fingerprint rows).take stop).drop start
  let cursor := if 0 < start then (ids[start]?).map (coding.encode sessionKey) else none
  return (page, some { hasOlder := 0 < start, before := cursor })

/-- The pages of a reader that follows the cursors: `logs` has the rows at each request,
    `limits` the size it asks for, and `fuel` bounds the number of requests. -/
def follow (coding : Coding β) (sessionKey : String) (logs : Nat → List (Row β)) (limits : Nat → Param) :
    Nat → Nat → Param → Option (Except String (List (List (Row β))))
  | 0, _, _ => none
  | fuel + 1, k, before =>
    match historyPage coding (logs k) sessionKey (limits k) before with
    | .error e => some (.error e)
    | .ok (page, some { hasOlder := true, before := some cursor, .. }) =>
      (follow coding sessionKey logs limits fuel (k + 1) (.text cursor)).map (·.map (page :: ·))
    | .ok (page, _) => some (.ok [page])

variable {coding : Coding β} {sessionKey : String} {rows : List (Row β)}

/-! ## Identities of a history that grows -/

theorem identities_length (fingerprint : β → String) (seen : List String) (rows : List (Row β)) :
    (identities fingerprint seen rows).length = rows.length := by
  induction rows generalizing seen with
  | nil => rfl
  | cons row rows ih => simp [identities, ih]

/-- Rows appended later leave the identities as they are. -/
theorem identities_prefix (fingerprint : β → String) (seen : List String) {rows log : List (Row β)} (h : rows <+: log) :
    identities fingerprint seen rows <+: identities fingerprint seen log := by
  induction rows generalizing seen log with
  | nil => exact List.nil_prefix
  | cons row rows ih =>
    obtain ⟨more, rfl⟩ := h
    simp only [identities, List.cons_append]
    exact (List.prefix_cons_inj _).mpr (ih _ (List.prefix_append _ _))

@[simp] theorem presented_length (fingerprint : β → String) (rows : List (Row β)) :
    (presented fingerprint rows).length = rows.length := by
  simp [presented, identities_length]

theorem presented_prefix (fingerprint : β → String) {log : List (Row β)} (h : rows <+: log) :
    presented fingerprint rows <+: presented fingerprint log := by
  obtain ⟨moreIds, hids⟩ := identities_prefix fingerprint [] h
  obtain ⟨more, rfl⟩ := h
  refine ⟨List.zipWith present more moreIds, ?_⟩
  rw [presented, presented, ← hids, List.zipWith_append (identities_length fingerprint [] rows).symm]

theorem presented_role (fingerprint : β → String) {i : Nat} {row : Row β} (h : rows[i]? = some row) :
    ∃ shown, (presented fingerprint rows)[i]? = some shown ∧ shown.role = row.role := by
  have hi : i < (identities fingerprint [] rows).length := by
    rw [identities_length]
    exact (List.getElem?_eq_some_iff.mp h).1
  refine ⟨present row (identities fingerprint [] rows)[i], ?_, rfl⟩
  rw [presented, List.getElem?_zipWith, h, List.getElem?_eq_getElem hi]

/-! ## One page -/

theorem backToUser_le (floor start : Nat) : backToUser rows floor start ≤ start := by
  induction start with
  | zero => exact le_refl _
  | succ start ih =>
    rw [backToUser]
    split
    · omega
    · exact le_refl _

theorem floor_le_backToUser {floor start : Nat} (h : floor ≤ start) : floor ≤ backToUser rows floor start := by
  induction start with
  | zero => simpa [backToUser] using h
  | succ start ih =>
    rw [backToUser]
    split
    · rename_i hback
      exact ih (by omega)
    · exact h

/-- It stops at the beginning, at the floor or at a user row. -/
theorem backToUser_stops {floor start : Nat} (h : floor ≤ start) :
    backToUser rows floor start = 0 ∨ backToUser rows floor start = floor ∨
      ∃ row, rows[backToUser rows floor start]? = some row ∧ row.role = "user" := by
  induction start with
  | zero => exact Or.inl rfl
  | succ start ih =>
    rw [backToUser]
    split
    · rename_i hback
      exact ih (by omega)
    · rename_i hstop
      right
      by_cases hfloor : floor = start + 1
      · exact Or.inl hfloor.symm
      · right
        have huser : rows[start + 1]?.any (·.role = "user") = true := by
          by_contra hno
          exact hstop ⟨by omega, by simpa using hno⟩
        cases hrow : rows[start + 1]? with
        | none =>
          rw [hrow] at huser
          cases huser
        | some row =>
          rw [hrow] at huser
          exact ⟨row, rfl, of_decide_eq_true huser⟩

theorem limitOf_bounds {limit : Param} {n : Nat} (h : limitOf limit = .ok n) : 1 ≤ n ∧ n ≤ 200 := by
  unfold limitOf at h
  split at h
  · cases h
    omega
  · rename_i m
    split at h
    · cases h
      omega
    · cases h
  · cases h

/-- What a request answers whose cursor is known and whose size is accepted. -/
theorem historyPage_eq {log : List (Row β)} {limit before : Param} {n stop : Nat} (hlimit : limitOf limit = .ok n)
    (hstop : endOf coding sessionKey (identities coding.fingerprint [] log) before = .ok stop)
    (hgiven : ¬ (limit = .absent ∧ before = .absent)) :
    historyPage coding log sessionKey limit before =
      .ok (((presented coding.fingerprint log).take stop).drop (backToUser log (stop - 200) (stop - n)),
        some { hasOlder := 0 < backToUser log (stop - 200) (stop - n),
               before := if 0 < backToUser log (stop - 200) (stop - n)
                 then ((identities coding.fingerprint [] log)[backToUser log (stop - 200) (stop - n)]?).map
                   (coding.encode sessionKey)
                 else none }) := by
  unfold historyPage
  rw [if_neg hgiven, hlimit]
  simp only [bind, Except.bind, pure, Except.pure, hstop]

/-! ## Cursors -/

/-- The cursors of a history are read back, and are not too long to be accepted. -/
def Readable (coding : Coding β) (sessionKey : String) (rows : List (Row β)) : Prop :=
  ∀ id ∈ identities coding.fingerprint [] rows, coding.decode (coding.encode sessionKey id) = some (sessionKey, id) ∧
    1 ≤ (coding.encode sessionKey id).length ∧ (coding.encode sessionKey id).length ≤ 2048

/-- The cursor of a row stands for its place, also once rows were appended. -/
theorem endOf_cursor (hids : (identities coding.fingerprint [] rows).Nodup) (hread : Readable coding sessionKey rows)
    {i : Nat} (hi : i < rows.length) :
    ∃ id, ∀ log, rows <+: log → (identities coding.fingerprint [] log)[i]? = some id ∧
      endOf coding sessionKey (identities coding.fingerprint [] log) (.text (coding.encode sessionKey id)) = .ok i := by
  have hi' : i < (identities coding.fingerprint [] rows).length := by
    rw [identities_length]
    exact hi
  have hmem : (identities coding.fingerprint [] rows)[i] ∈ identities coding.fingerprint [] rows := List.getElem_mem hi'
  obtain ⟨hdecode, hlow, hhigh⟩ := hread _ hmem
  refine ⟨(identities coding.fingerprint [] rows)[i], fun log hlog => ?_⟩
  obtain ⟨more, hmore⟩ := identities_prefix coding.fingerprint [] hlog
  constructor
  · rw [← hmore, List.getElem?_append_left hi', List.getElem?_eq_getElem hi']
  · simp only [endOf]
    rw [if_pos ⟨hlow, hhigh⟩, hdecode]
    simp only [true_and]
    rw [if_pos (hmore ▸ List.mem_append_left more hmem), ← hmore, List.idxOf_append_of_mem hmem, hids.idxOf_getElem]

/-! ## The whole history -/

/-- A page as the reader gets it, `older` being the pages after it. -/
structure PageOk (page : List (Row β)) (older : List (List (Row β))) : Prop where
  nonempty : page ≠ []
  atMost : page.length ≤ 200
  /-- It begins where the history does, is full, or begins at a user row. -/
  begins : older = [] ∨ page.length = 200 ∨ ∃ row, page.head? = some row ∧ row.role = "user"

/-- What is in front of `stop`, of the history and of one that grew out of it. -/
theorem presented_take (fingerprint : β → String) {log : List (Row β)} (hlog : rows <+: log) {stop : Nat}
    (hstop : stop ≤ rows.length) : (presented fingerprint log).take stop = (presented fingerprint rows).take stop := by
  obtain ⟨more, hmore⟩ := presented_prefix fingerprint hlog
  rw [← hmore, List.take_append_of_le_length (by rwa [presented_length])]

/-- A page is as long as the rows it takes, and begins as it should. -/
theorem page_begins (fingerprint : β → String) {log : List (Row β)} {n stop : Nat} (hn : 1 ≤ n ∧ n ≤ 200) (hstop : stop ≤ log.length)
    (hpos : 0 < stop) (older : List (List (Row β))) (holder : backToUser log (stop - 200) (stop - n) = 0 → older = []) :
    PageOk (((presented fingerprint log).take stop).drop (backToUser log (stop - 200) (stop - n))) older := by
  have hle : backToUser log (stop - 200) (stop - n) ≤ stop - n := backToUser_le _ _
  have hfloor : stop - 200 ≤ backToUser log (stop - 200) (stop - n) := floor_le_backToUser (by omega)
  have hstops : backToUser log (stop - 200) (stop - n) = 0 ∨ backToUser log (stop - 200) (stop - n) = stop - 200 ∨
      ∃ row, log[backToUser log (stop - 200) (stop - n)]? = some row ∧ row.role = "user" := backToUser_stops (by omega)
  generalize backToUser log (stop - 200) (stop - n) = start at *
  have hlen : (((presented fingerprint log).take stop).drop start).length = stop - start := by
    rw [List.length_drop, List.length_take, presented_length]
    omega
  refine ⟨fun hnil => ?_, by omega, ?_⟩
  · rw [hnil] at hlen
    simp only [List.length_nil] at hlen
    omega
  · rcases hstops with hzero | hfull | ⟨row, hrow, huser⟩
    · exact Or.inl (holder hzero)
    · by_cases hall : stop ≤ 200
      · exact Or.inl (holder (by omega))
      · exact Or.inr (Or.inl (by omega))
    · right
      right
      obtain ⟨shown, hshown, hrole⟩ := presented_role fingerprint hrow
      refine ⟨shown, ?_, hrole.trans huser⟩
      rw [List.head?_drop, List.getElem?_take_of_lt (by omega), hshown]

/-- Following the cursors from `stop` on gives the rows before it. -/
theorem follow_from (hids : (identities coding.fingerprint [] rows).Nodup) (hread : Readable coding sessionKey rows)
    {logs : Nat → List (Row β)} (hlogs : ∀ k, rows <+: logs k) {limits : Nat → Param}
    (hlimits : ∀ k, ∃ n, limitOf (limits k) = .ok n) {fuel stop k : Nat} {before : Param} (hfuel : stop < fuel)
    (hstop : stop ≤ rows.length)
    (hend : endOf coding sessionKey (identities coding.fingerprint [] (logs k)) before = .ok stop)
    (hgiven : ¬ (limits k = .absent ∧ before = .absent)) :
    ∃ pages, follow coding sessionKey logs limits fuel k before = some (.ok pages) ∧
      pages.reverse.flatten = (presented coding.fingerprint rows).take stop ∧
      (0 < stop → ∀ newer page older, pages = newer ++ page :: older → PageOk page older) := by
  induction fuel generalizing stop k before with
  | zero => omega
  | succ fuel ih =>
    obtain ⟨n, hn⟩ := hlimits k
    have hbounds := limitOf_bounds hn
    have hlog : stop ≤ (logs k).length := hstop.trans (hlogs k).length_le
    have hle : backToUser (logs k) (stop - 200) (stop - n) ≤ stop - n := backToUser_le _ _
    have hok := page_begins coding.fingerprint hbounds hlog
    have hpage := historyPage_eq hn hend hgiven
    rw [presented_take coding.fingerprint (hlogs k) hstop] at hok hpage
    generalize backToUser (logs k) (stop - 200) (stop - n) = start at *
    by_cases hzero : start = 0
    · subst hzero
      refine ⟨[(presented coding.fingerprint rows).take stop], by simp [follow, hpage], by simp, fun hpos newer page older hpages => ?_⟩
      obtain ⟨rfl, rfl, rfl⟩ : newer = [] ∧ page = (presented coding.fingerprint rows).take stop ∧ older = [] := by
        cases newer with
        | nil =>
          injection hpages with hhead htail
          exact ⟨rfl, hhead.symm, htail.symm⟩
        | cons p newer => simp at hpages
      exact hok hpos [] fun _ => rfl
    · obtain ⟨id, hid⟩ := endOf_cursor hids hread (i := start) (by omega)
      obtain ⟨hcursor, -⟩ := hid (logs k) (hlogs k)
      obtain ⟨pages, hfollow, hflat, hgood⟩ := ih (k := k + 1) (by omega) (by omega) (hid _ (hlogs (k + 1))).2 (by simp)
      refine ⟨((presented coding.fingerprint rows).take stop).drop start :: pages, ?_, ?_, fun hpos newer page older hpages => ?_⟩
      · have hmore : 0 < start := by omega
        simp [follow, hpage, hmore, hcursor, hfollow, Except.map]
      · have htake : (presented coding.fingerprint rows).take start = ((presented coding.fingerprint rows).take stop).take start := by
          rw [List.take_take, min_eq_left (by omega)]
        rw [List.reverse_cons, List.flatten_append, hflat, List.flatten_singleton, htake, List.take_append_drop]
      · cases newer with
        | nil =>
          injection hpages with hhead htail
          rw [← hhead]
          exact hok hpos older fun h => absurd h hzero
        | cons p newer =>
          injection hpages with _ htail
          exact hgood (by omega) newer page older htail

/-- The pages of a history: the rows it began with, each once, the oldest page last. -/
structure Partition (coding : Coding β) (rows : List (Row β)) (pages : List (List (Row β))) : Prop where
  whole : pages.reverse.flatten = presented coding.fingerprint rows
  pages : rows ≠ [] → ∀ newer page older, pages = newer ++ page :: older → PageOk page older

theorem history_pages_partition (coding : Coding β) (sessionKey : String) {rows : List (Row β)}
    (hids : (identities coding.fingerprint [] rows).Nodup) (hread : Readable coding sessionKey rows)
    {logs : Nat → List (Row β)} (hfirst : logs 0 = rows) (hlogs : ∀ k, rows <+: logs k) {limits : Nat → Param}
    (hlimits : ∀ k, ∃ n, limitOf (limits k) = .ok n) {before : Param} (hnewest : before = .absent ∨ before = .null)
    (hgiven : ¬ (limits 0 = .absent ∧ before = .absent)) :
    ∃ pages, follow coding sessionKey logs limits (rows.length + 1) 0 before = some (.ok pages) ∧ Partition coding rows pages := by
  have hend : endOf coding sessionKey (identities coding.fingerprint [] (logs 0)) before = .ok rows.length := by
    rw [hfirst, ← identities_length coding.fingerprint [] rows]
    rcases hnewest with rfl | rfl
    · rfl
    · rfl
  obtain ⟨pages, hfollow, hflat, hgood⟩ := follow_from hids hread hlogs hlimits (Nat.lt_succ_self _) (le_refl _) hend hgiven
  refine ⟨pages, hfollow, ?_, fun hne => hgood (List.length_pos_of_ne_nil hne)⟩
  rw [hflat, List.take_of_length_le (by rw [presented_length])]

namespace Sample

def question : Row String := { eventId := .text "e0", role := "user", body := "question" }

def answer : Row String := { eventId := .text "e1", role := "user", body := "answer" }

def shortIds : Coding String where
  fingerprint := id
  encode _ id := if id = "e0" then "WzEsICJjbGk6MSIsICJlMCJd" else "WzEsICJjbGk6MSIsICJlMSJd"
  decode before :=
    if before = "WzEsICJjbGk6MSIsICJlMCJd" then some ("cli:1", "e0")
    else if before = "WzEsICJjbGk6MSIsICJlMSJd" then some ("cli:1", "e1")
    else none

theorem identities_short : identities shortIds.fingerprint [] [question, answer] = ["e0", "e1"] := by
  simp [identities, question, answer, IdValue.truthy, IdValue.str]

theorem readable_short : Readable shortIds "cli:1" [question, answer] := by
  unfold Readable
  rw [identities_short]
  decide

theorem two_pages :
    ∃ pages, follow shortIds "cli:1" (fun _ => [question, answer]) (fun _ => .int 1) 3 0 .absent = some (.ok pages) ∧
      Partition shortIds [question, answer] pages :=
  history_pages_partition shortIds "cli:1" (by rw [identities_short]; decide) readable_short rfl
    (fun _ => List.prefix_refl _) (fun _ => ⟨1, rfl⟩) (Or.inl rfl) (by decide)

def longId : String := String.ofList (List.replicate 2049 'a')

theorem longId_length : longId.length = 2049 :=
  String.length_ofList.trans List.length_replicate

def long : Row String := { eventId := .text longId, role := "user", body := "long" }

theorem identities_long (fingerprint : String → String) :
    identities fingerprint [] [question, long] = ["e0", longId] := by
  have hne : longId ≠ "" := fun h => by
    have hlen := longId_length
    rw [h] at hlen
    cases hlen
  simp [identities, question, long, IdValue.truthy, IdValue.str, hne]

/-- A history without rows is a page without rows, a size is refused that is no page's, and
    so is the cursor of a long identity: it is longer than the identity. -/
theorem empty_page_and_refusals :
    follow shortIds "cli:1" (fun _ => []) (fun _ => .int 10) 1 0 .absent = some (.ok [[]]) ∧
      follow shortIds "cli:1" (fun _ => [question]) (fun _ => .int 0) 2 0 .absent = some (.error sizeError) ∧
      ∀ real : Coding String, (∀ key id, id.length < (real.encode key id).length) →
        follow real "cli:1" (fun _ => [question, long]) (fun _ => .int 1) 3 0 .absent = some (.error cursorError) := by
  refine ⟨by decide, by decide, fun real hlong => ?_⟩
  have hids := identities_long real.fingerprint
  have hstop : endOf real "cli:1" (identities real.fingerprint [] [question, long]) .absent = .ok 2 := by
    rw [hids]
    rfl
  have hstart : backToUser [question, long] (2 - 200) (2 - 1) = 1 := rfl
  have hrefused : historyPage real [question, long] "cli:1" (.int 1) (.text (real.encode "cli:1" longId)) =
      .error cursorError := by
    have hcursor : ¬ (1 ≤ (real.encode "cli:1" longId).length ∧ (real.encode "cli:1" longId).length ≤ 2048) := by
      have := hlong "cli:1" longId
      rw [longId_length] at this
      omega
    have hend : endOf real "cli:1" (identities real.fingerprint [] [question, long]) (.text (real.encode "cli:1" longId)) =
        .error cursorError := by
      rw [endOf, if_neg hcursor]
    unfold historyPage
    simp [hend, limitOf, bind, Except.bind]
  have hlimit : limitOf (.int 1) = .ok 1 := rfl
  have hpage := historyPage_eq hlimit hstop (by simp)
  rw [hstart, hids] at hpage
  simp [follow, hpage, hrefused, Except.map]

end Sample

end Flowly.Session.HistoryPage
