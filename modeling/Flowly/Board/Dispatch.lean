/-
  Flowly.Board.Dispatch — what the dispatcher takes up (`list_dispatchable` in
  `flowly/board/store.py`).

  Eligibility is written twice: once as a query, once as the checks of `claim_card`. On a
  reachable board they differ in one check: a claim of a voice card needs an instruction
  to deliver, the query does not ask for one (`dispatchable_granted_iff`). A voice task
  cancelled between two turns stays `ready` with nothing to deliver
  (`cancelled_between_turns`).
-/

import Flowly.Board.Claims
import Mathlib.Data.List.Sort

namespace Flowly.Board.Dispatch

open Claims

def dispatchable (db : Db) (o : Owner) (now : Int) (excluded : List String) (c : Card) : Bool :=
  c.status = .ready ∧ c.assigneeProfile ≠ "" ∧ c.scheduledAt.all (· ≤ now) ∧ !db.blockedByParent c.id ∧
    (c.executionMode = .voice ∨ c.assigneeProfile ∉ excluded) ∧ o.sees c

/-- `ORDER BY priority DESC, created_at ASC, id ASC`. -/
def comesFirst (a b : Card) : Bool :=
  b.priority < a.priority ∨ a.priority = b.priority ∧ (a.createdAt < b.createdAt ∨ a.createdAt = b.createdAt ∧ a.id ≤ b.id)

def rankedWith (a b : Card) : Bool :=
  a.assigneeProfile = b.assigneeProfile ∧
    (if a.executionMode = .voice then a.id else "") = (if b.executionMode = .voice then b.id else "")

/-- `excluded`: `exclude_profiles`, stripped, without the empty ones. -/
def listDispatchable (db : Db) (o : Owner) (now : Int) (limit : Int) (excluded : List String) : List Card :=
  let eligible := db.cards.filter (dispatchable db o now excluded)
  let ranked := eligible.filter fun c => eligible.all fun d => rankedWith c d → comesFirst c d
  (ranked.insertionSort (comesFirst · ·)).take (max 1 limit).toNat

variable {db : Db}

theorem mem_listDispatchable {o : Owner} {now limit : Int} {excluded : List String} {c : Card}
    (h : c ∈ listDispatchable db o now limit excluded) : c ∈ db.cards ∧ dispatchable db o now excluded c := by
  have hranked := (List.mem_insertionSort _).1 (List.mem_of_mem_take h)
  exact List.mem_filter.1 (List.mem_of_mem_filter hranked)

/-- On a board whose runs tell of its claims, an eligible card is not claimed. -/
theorem free_of_ready (hi : Inv db) {c : Card} (hc : c ∈ db.cards) (hready : c.status = .ready) : c.claimToken = none := by
  cases htoken : c.claimToken with
  | none => rfl
  | some t =>
    have hprogress := (hi.audited c hc).inProgress (by simp [htoken])
    exact absurd (hready.symm.trans hprogress) Status.noConfusion

theorem getCard_of_mem (hi : Inv db) {o : Owner} {c : Card} (hc : c ∈ db.cards) (hsees : o.sees c) :
    db.getCard o c.id = some c := by
  have hfind : db.cards.find? (·.id = c.id) = some c := by
    cases h : db.cards.find? (·.id = c.id) with
    | none => exact absurd (decide_eq_true rfl) (List.find?_eq_none.1 h c hc)
    | some c' =>
      have hid : c'.id = c.id := by simpa using List.find?_some h
      rw [List.inj_on_of_nodup_map hi.ids (List.mem_of_find?_eq_some h) hc hid]
  rw [Db.getCard, hfind]
  exact Option.filter_eq_some_iff.2 ⟨rfl, hsees⟩

/-- A claim of an eligible card asks for one thing more. -/
theorem granted_iff (hi : Inv db) {o : Owner} {now : Int} {excluded : List String} {c : Card} (hc : c ∈ db.cards)
    (hd : dispatchable db o now excluded c) {worker runId : String} {lease : Int}
    (hworker : worker ≠ "" ∧ worker.length ≤ 128) (hlease : 15 ≤ lease ∧ lease ≤ 600) (hrun : ∀ r ∈ db.runs, r.id ≠ runId) :
    (db.claimCard o c.id worker lease false runId now).isSome ↔
      (c.executionMode = .voice → (db.nextLocked c.id).isSome) := by
  simp only [dispatchable, decide_eq_true_eq] at hd
  obtain ⟨hready, -, hscheduled, hparents, -, hsees⟩ := hd
  have hfree := free_of_ready hi hc hready
  have hargs : ¬(worker = "" ∨ 128 < worker.length ∨ lease < 15 ∨ 600 < lease) := by
    obtain ⟨hne, hlong⟩ := hworker
    obtain ⟨hlow, hhigh⟩ := hlease
    rintro (h | h | h | h)
    · exact hne h
    · omega
    · omega
    · omega
  have hdue : ¬(!false ∧ c.scheduledAt.any (now < ·)) := by
    cases hat : c.scheduledAt with
    | none => simp
    | some t =>
      rw [hat] at hscheduled
      simpa using hscheduled
  have hfresh : ¬db.runs.any (·.id = runId) := by simpa using hrun
  unfold Db.claimCard
  rw [if_neg hargs, getCard_of_mem hi hc hsees]
  dsimp only
  rw [hfree, if_neg (by simp), hready, if_neg (by simp), if_neg hdue, if_neg (by simpa using hparents)]
  unfold Db.nextInstruction
  by_cases hvoice : c.executionMode = .voice
  · rw [if_pos hvoice]
    cases hnext : db.nextLocked c.id with
    | none => simp [hvoice]
    | some q => simp [hfresh]
  · rw [if_neg hvoice, if_neg (fun h => hvoice h.1), if_neg hfresh]
    simp [hvoice]

/-- The two tests agree on every card but a voice card without an instruction to deliver. -/
theorem dispatchable_granted_iff (es : List Ev) {o : Owner} {now limit : Int} {excluded : List String} {c : Card}
    (hc : c ∈ listDispatchable (World.run es).db o now limit excluded) {worker runId : String} {lease : Int}
    (hworker : worker ≠ "" ∧ worker.length ≤ 128) (hlease : 15 ≤ lease ∧ lease ≤ 600)
    (hrun : ∀ r ∈ (World.run es).db.runs, r.id ≠ runId) :
    ((World.run es).db.claimCard o c.id worker lease false runId now).isSome ↔
      (c.executionMode = .voice → ((World.run es).db.nextLocked c.id).isSome) := by
  obtain ⟨hmem, hd⟩ := mem_listDispatchable hc
  exact granted_iff (watched_run es).inv hmem hd hworker hlease hrun

/-- A voice task, its second instruction cancelled between two turns. -/
def cancelledBetweenTurns : List Ev :=
  [⟨.addCard
      { id := "c", status := .ready, assigneeProfile := "p", idempotencyKey := "k", executionMode := .voice
        voiceConversationId := "v" }, .host, 0⟩,
   ⟨.claimCard "c" "p" 60 false "r1", .host, 0⟩,
   ⟨.setWorkerRunId "c" 0 "w1", .host, 1⟩,
   ⟨.enqueue "v" "c" "more" 1, .host, 2⟩,
   ⟨.finishClaim "c" 0 .done 0 false, .host, 3⟩,
   ⟨.cancel "v" "c" "stop" 3, .host, 4⟩]

/-- The task before it is cancelled: its second instruction waits. -/
def betweenTurns : Card :=
  { id := "c", status := .ready, assigneeProfile := "p", idempotencyKey := "k", revision := 3, attemptCount := 1
    executionMode := .voice, voiceConversationId := "v", sessionKey := "desktop:voice-work:c" }

theorem betweenTurns_granted :
    ((World.run (cancelledBetweenTurns.take 5)).db.claimCard .host betweenTurns.id "p" 60 false "r2" 5).isSome ↔
      (betweenTurns.executionMode = .voice →
        ((World.run (cancelledBetweenTurns.take 5)).db.nextLocked betweenTurns.id).isSome) :=
  dispatchable_granted_iff (cancelledBetweenTurns.take 5)
    (by decide : betweenTurns ∈ listDispatchable (World.run (cancelledBetweenTurns.take 5)).db .host 5 5 [])
    (by decide) (by decide) (by decide)

/-- It is listed, and no claim of it succeeds. -/
theorem cancelled_between_turns :
    (listDispatchable (World.run cancelledBetweenTurns).db .host 5 5 []).map (·.id) = ["c"] ∧
      (World.run cancelledBetweenTurns).db.claimCard .host "c" "p" 60 false "r2" 5 = none := by decide

end Flowly.Board.Dispatch
