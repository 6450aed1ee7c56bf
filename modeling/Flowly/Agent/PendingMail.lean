/-
  Flowly.Agent.PendingMail — messages kept for a thread's next task, across crashes
  (`flowly/agent/subagent_registry.py`: `queue_mail`, `register`, `_write_locked`).

  A message waits in its thread's `pending_mail` until a follow-up moves it to the notes
  of the run it registers. The two places are two files: what waits is in threads.json,
  the notes are in runs.json, and threads.json is replaced first. A crash after it loses
  what moved (`followup_crash_loses_mail`). In a run without that crash every accepted
  message waits or is a note (`messages_held`), until its thread is closed or retention
  prunes the run that had it.
-/

import Flowly.Agent.Registry

namespace Flowly.Agent.Registry

open Flowly.Lib Flowly.Lib.Keyed

def messages (th : Thread) : List Text := (th.pendingMail.filter (!·.task)).map (·.text)

/-- The messages that wait for thread `t`. -/
def waitingFor (threads : List Thread) (t : Id) : List Text :=
  match findThread threads t with
  | some th => messages th
  | none => []

/-- The notes of the runs of thread `t`. -/
def notesOf (runs : List Run) (t : Id) : List Text := (runs.filter (·.threadId = some t)).flatMap (·.notes)

/-! ## Lists of threads and runs -/

variable {f : Thread → Thread} {threads : List Thread}

theorem findThread_map (hf : ∀ th, (f th).threadId = th.threadId) (t : Id) :
    findThread (threads.map f) t = (findThread threads t).map f := by
  unfold findThread
  rw [List.find?_map]
  congr 2
  funext th
  simp [hf]

theorem waitingFor_map (hf : ∀ th, (f th).threadId = th.threadId) (t : Id) :
    waitingFor (threads.map f) t = match findThread threads t with | some th => messages (f th) | none => [] := by
  rw [waitingFor, findThread_map hf]
  cases findThread threads t <;> rfl

variable {th : Thread} {t : Id}

theorem waitingFor_some (h : findThread threads t = some th) :
    waitingFor threads t = messages th := by
  rw [waitingFor, h]

theorem waitingFor_filter {p : Thread → Bool}
    (h : ∀ th, findThread threads t = some th → p th = true) : waitingFor (threads.filter p) t = waitingFor threads t := by
  have hfind : findThread (threads.filter p) t = findThread threads t := by
    unfold findThread at h ⊢
    rw [List.find?_filter]
    induction threads with
    | nil => rfl
    | cons th threads ih =>
      by_cases hid : th.threadId = t
      · have := h th (by simp [hid])
        simp [hid, this]
      · simp only [List.find?_cons, hid, decide_false] at h ⊢
        simpa using ih h
  rw [waitingFor, waitingFor, hfind]

theorem waitingFor_append (threads : List Thread) (th : Thread) (t : Id) :
    (waitingFor threads t).Sublist (waitingFor (threads ++ [th]) t) := by
  cases hf : findThread threads t with
  | none =>
    rw [waitingFor, hf]
    exact List.nil_sublist _
  | some x =>
    have : findThread (threads ++ [th]) t = some x := by
      rw [findThread, List.find?_append, ← findThread, hf]
      rfl
    rw [waitingFor_some hf, waitingFor_some this]

theorem notesOf_append (runs more : List Run) (t : Id) : notesOf (runs ++ more) t = notesOf runs t ++ notesOf more t := by
  simp [notesOf]

variable {runs : List Run}

/-- Replacing runs by ones with the same thread and notes. -/
theorem notesOf_map {f : Run → Run} (hf : ∀ r ∈ runs, (f r).threadId = r.threadId ∧ (f r).notes = r.notes)
    (t : Id) : notesOf (runs.map f) t = notesOf runs t := by
  induction runs with
  | nil => rfl
  | cons r runs ih =>
    have ih := ih fun x hx => hf x (List.mem_cons_of_mem _ hx)
    obtain ⟨ht, hn⟩ := hf r List.mem_cons_self
    unfold notesOf at ih ⊢
    by_cases hr : r.threadId = some t
    · simp [ht, hn, hr, ih]
    · simp [ht, hr, ih]

/-- Leaving out runs without notes for `t`. -/
theorem notesOf_filter {p : Run → Bool}
    (h : ∀ r ∈ runs, p r = false → r.threadId = some t → r.notes = []) : notesOf (runs.filter p) t = notesOf runs t := by
  induction runs with
  | nil => rfl
  | cons r runs ih =>
    have ih := ih fun x hx => h x (List.mem_cons_of_mem _ hx)
    have hr := h r List.mem_cons_self
    unfold notesOf at ih ⊢
    by_cases hp : p r = true
    · rw [List.filter_cons_of_pos hp, List.filter_cons, List.filter_cons]
      by_cases ht : r.threadId = some t
      · simp only [ht, decide_true, if_true, List.flatMap_cons, ih]
      · simp only [ht, decide_false, Bool.false_eq_true, if_false, ih]
    · rw [List.filter_cons_of_neg hp, ih, List.filter_cons]
      by_cases ht : r.threadId = some t
      · simp only [ht, decide_true, if_true, List.flatMap_cons, hr (by simpa using hp) ht, List.nil_append]
      · simp only [ht, decide_false, Bool.false_eq_true, if_false]

/-! ## What an operation does to the messages -/

/-- What holds of `m'` when an operation that accepts `accepted` writes it, having read `m`. -/
structure Moves (m m' : Mem) (accepted : List (Id × Text)) (moved : Bool) : Prop where
  threadIds : (m'.threads.map (·.threadId)).Nodup
  runIds : (m'.runs.map (·.runId)).Nodup
  bounded : ∀ th ∈ m'.threads, th.pendingMail.length ≤ MAX_PENDING_MAIL
  closings : m.closings ⊆ m'.closings
  known : ∀ th ∈ m'.threads, th.isOpen = false → th.threadId ∈ m'.closings ∨
    ∃ old ∈ m.threads, old.threadId = th.threadId ∧ old.isOpen = false
  held : ∀ t ∉ m'.closings, ∀ x, accepted.count (t, x) + (waitingFor m.threads t).count x + (notesOf m.runs t).count x ≤
    (waitingFor m'.threads t).count x + (notesOf m'.runs t).count x
  /-- Nothing leaves the threads. -/
  stays : moved = false → ∀ t ∉ m'.closings, ∀ x, (waitingFor m.threads t).count x ≤ (waitingFor m'.threads t).count x

structure Sane (m : Mem) : Prop where
  threadIds : (m.threads.map (·.threadId)).Nodup
  runIds : (m.runs.map (·.runId)).Nodup
  bounded : ∀ th ∈ m.threads, th.pendingMail.length ≤ MAX_PENDING_MAIL

/-- A change to threads that takes no message and opens or closes none. -/
structure KeepsMail (threads : List Thread) (f : Thread → Thread) : Prop where
  threadId : ∀ th, (f th).threadId = th.threadId
  isOpen : ∀ th, (f th).isOpen = th.isOpen
  messages : ∀ th ∈ threads, (messages th).Sublist (messages (f th))
  bounded : ∀ th ∈ threads, (f th).pendingMail.length ≤ MAX_PENDING_MAIL

theorem KeepsMail.waitingFor (h : KeepsMail threads f) (t : Id) :
    (waitingFor threads t).Sublist (waitingFor (threads.map f) t) := by
  rw [waitingFor_map h.threadId]
  cases hf : findThread threads t with
  | none => simp [Registry.waitingFor, hf]
  | some th =>
    rw [waitingFor_some hf]
    exact h.messages th (findThread_some hf).1

theorem KeepsMail.moves {m : Mem} (hm : Sane m) (h : KeepsMail m.threads f)
    (hids : (runs.map (·.runId)).Nodup) (hnotes : ∀ t, notesOf runs t = notesOf m.runs t) (moved : Bool) :
    Moves m { m with threads := m.threads.map f, runs := runs } [] moved where
  threadIds := nodup_keys_map hm.threadIds h.threadId
  runIds := hids
  bounded := by
    intro th hth
    obtain ⟨old, hold, rfl⟩ := List.mem_map.mp hth
    exact h.bounded old hold
  closings := List.Subset.refl _
  known := by
    intro th hth hopen
    obtain ⟨old, hold, rfl⟩ := List.mem_map.mp hth
    exact Or.inr ⟨old, hold, (h.threadId old).symm, by rw [← h.isOpen, hopen]⟩
  held := by
    intro t _ x
    have := (h.waitingFor t).count_le x
    simp only [hnotes, List.count_nil]
    omega
  stays := fun _ t _ x => (h.waitingFor t).count_le x

theorem moves_refl {m : Mem} (hm : Sane m) (moved : Bool) : Moves m m [] moved := by
  have hk : KeepsMail m.threads id := ⟨fun _ => rfl, fun _ => rfl, fun _ _ => List.Sublist.refl _, hm.bounded⟩
  simpa using hk.moves hm hm.runIds (fun _ => rfl) moved

theorem KeepsMail.modify {m : Mem} (hm : Sane m) {id : Id} (hid : ∀ th, (f th).threadId = th.threadId)
    (hopen : ∀ th, (f th).isOpen = th.isOpen) (hmsg : ∀ th ∈ m.threads, (Registry.messages th).Sublist (Registry.messages (f th)))
    (hb : ∀ th ∈ m.threads, th.threadId = id → (f th).pendingMail.length ≤ MAX_PENDING_MAIL) :
    KeepsMail m.threads fun th => if th.threadId = id then f th else th where
  threadId := fun th => by by_cases h : th.threadId = id <;> simp [h, hid]
  isOpen := fun th => by by_cases h : th.threadId = id <;> simp [h, hopen]
  messages := by
    intro th hth
    by_cases h : th.threadId = id
    · rw [if_pos h]
      exact hmsg th hth
    · rw [if_neg h]
  bounded := by
    intro th hth
    by_cases h : th.threadId = id
    · rw [if_pos h]
      exact hb th hth h
    · rw [if_neg h]
      exact hm.bounded th hth

/-! ## Closing -/

theorem closeThreads_moves {m : Mem} (hm : Sane m) (p : Thread → Bool) (now : Nat) (moved : Bool) :
    Moves m (closeThreads m p now) [] moved := by
  have hsame : ∀ t ∉ (closeThreads m p now).closings, waitingFor (closeThreads m p now).threads t = waitingFor m.threads t := by
    intro t ht
    rw [closeThreads, waitingFor_map (fun th => by split <;> rfl)]
    cases hf : findThread m.threads t with
    | none => simp [waitingFor, hf]
    | some th =>
      obtain ⟨hmem, hid⟩ := findThread_some hf
      have hp : ¬ p th = true := by
        intro hp
        refine ht (List.mem_append_right _ ?_)
        rw [← hid]
        exact List.mem_map_of_mem (List.mem_filter.mpr ⟨hmem, hp⟩)
      rw [waitingFor_some hf]
      simp only [if_neg hp]
  refine ⟨nodup_keys_map hm.threadIds (fun th => by split <;> rfl), hm.runIds, ?_, List.subset_append_left _ _, ?_, ?_,
    fun _ t ht x => by rw [hsame t ht]⟩
  · intro th hth
    obtain ⟨old, hold, rfl⟩ := List.mem_map.mp hth
    by_cases hp : p old = true
    · rw [if_pos hp]
      exact Nat.zero_le _
    · rw [if_neg hp]
      exact hm.bounded old hold
  · intro th hth hopen
    obtain ⟨old, hold, rfl⟩ := List.mem_map.mp hth
    by_cases hp : p old = true
    · refine Or.inl (List.mem_append_right _ ?_)
      rw [if_pos hp]
      exact List.mem_map.mpr ⟨old, List.mem_filter.mpr ⟨hold, hp⟩, rfl⟩
    · rw [if_neg hp] at hopen ⊢
      exact Or.inr ⟨old, hold, rfl, hopen⟩
  · intro t ht x
    rw [hsame t ht, List.count_nil, Nat.zero_add]
    exact Nat.le_refl _

variable {m m' : Mem}

theorem makeRoom_moves (hm : Sane m) {parent : String} {cap now : Nat} (h : makeRoom m parent cap now = some m')
    (moved : Bool) : Moves m m' [] moved ∧ m'.runs = m.runs ∧ ∀ th' ∈ m'.threads, ∃ th ∈ m.threads, th.threadId = th'.threadId := by
  simp only [makeRoom] at h
  split at h
  · cases h
    exact ⟨moves_refl hm moved, rfl, fun th hth => ⟨th, hth, rfl⟩⟩
  split at h
  · cases h
  · cases h
    refine ⟨closeThreads_moves hm _ now moved, rfl, fun th hth => ?_⟩
    obtain ⟨old, hold, rfl⟩ := List.mem_map.mp hth
    exact ⟨old, hold, by split <;> rfl⟩

/-! ## Registering -/

variable {now : Nat}

theorem register_new_moves (hm : Sane m) {record : Run} {cap : Option Nat} {r : Run}
    (hopen : th.isOpen = true) (hmail : th.pendingMail = []) (hr : register m record (some th) cap now = some (m', r))
    (moved : Bool) : Moves m m' [] moved := by
  obtain ⟨hnewRun, hnewThread, _, rfl, roomy, hroom, rfl⟩ := register_new hr
  have hq : Moves m roomy [] moved ∧ roomy.runs = m.runs ∧
      ∀ th' ∈ roomy.threads, ∃ th ∈ m.threads, th.threadId = th'.threadId := by
    rcases hroom with rfl | ⟨cap, hroom⟩
    · exact ⟨moves_refl hm moved, rfl, fun x hx => ⟨x, hx, rfl⟩⟩
    · exact makeRoom_moves hm hroom moved
  obtain ⟨hmoves, hruns, hold⟩ := hq
  have hmore : ∀ t x, (waitingFor roomy.threads t).count x ≤
      (waitingFor (roomy.threads ++ [{ th with runs := [r.runId], activeRunId := some r.runId }]) t).count x :=
    fun t x => (waitingFor_append _ _ t).count_le x
  refine ⟨?_, ?_, ?_, hmoves.closings, ?_, ?_, fun hs t ht x => (hmoves.stays hs t ht x).trans (hmore t x)⟩
  · refine nodup_keys_snoc hmoves.threadIds fun x hx => ?_
    obtain ⟨before, hbefore, hid⟩ := hold x hx
    exact hid ▸ hnewThread before hbefore
  · rw [hruns]
    exact nodup_keys_snoc hm.runIds hnewRun
  · intro x hx
    rcases List.mem_append.mp hx with hx | hx
    · exact hmoves.bounded x hx
    · rw [List.mem_singleton.mp hx]
      simp [hmail]
  · intro x hx hclosed
    rcases List.mem_append.mp hx with hx | hx
    · exact hmoves.known x hx hclosed
    · rw [List.mem_singleton.mp hx] at hclosed
      exact absurd hclosed (by simp [hopen])
  · intro t ht x
    rw [notesOf_append, List.count_append]
    exact (hmoves.held t ht x).trans (Nat.add_le_add (hmore t x) (Nat.le_add_right _ _))

/-- A follow-up takes what waits into the notes of its run. -/
theorem register_next_moves (hm : Sane m) {record : Run} {cap : Option Nat} {r : Run}
    (ht : record.threadId = some t) (hr : register m record none cap now = some (m', r)) :
    Moves m m' [] (waitingFor m.threads t ≠ []) := by
  obtain ⟨hnewRun, ⟨hnone, _⟩ | ⟨existing, hfind, hid, _, rfl, rfl⟩⟩ := register_next hr
  · rw [ht] at hnone
    cases hnone
  cases ht.symm.trans hid
  have hthread : ∀ u, u ≠ existing.threadId →
      waitingFor (modify m existing.threadId (·.taking record.runId)).threads u = waitingFor m.threads u := by
    intro u hu
    rw [modify, waitingFor_map (fun th => by split <;> rfl)]
    cases hf : findThread m.threads u with
    | none => simp [waitingFor, hf]
    | some th =>
      rw [waitingFor_some hf]
      have : th.threadId ≠ existing.threadId := by rw [(findThread_some hf).2]; exact hu
      simp only [if_neg this]
  refine ⟨nodup_keys_map hm.threadIds (fun th => by split <;> rfl), nodup_keys_snoc hm.runIds hnewRun, ?_, List.Subset.refl _, ?_, ?_, ?_⟩
  · intro x hx
    obtain ⟨old, hold, rfl⟩ := List.mem_map.mp hx
    have hb := hm.bounded old hold
    by_cases hid : old.threadId = existing.threadId
    · rw [if_pos hid]
      exact (List.length_filter_le _ _).trans hb
    · rw [if_neg hid]
      exact hb
  · intro x hx hclosed
    obtain ⟨old, hold, rfl⟩ := List.mem_map.mp hx
    refine Or.inr ⟨old, hold, by split <;> rfl, ?_⟩
    by_cases hid : old.threadId = existing.threadId
    · rwa [if_pos hid] at hclosed
    · rwa [if_neg hid] at hclosed
  · intro u _ x
    rw [notesOf_append, List.count_append, List.count_nil, Nat.zero_add]
    by_cases hu : u = existing.threadId
    · -- What waited is among the new run's notes.
      subst hu
      rw [waitingFor_some hfind]
      have hnotes : (messages existing).count x ≤ (notesOf [nextTurn record existing] existing.threadId).count x := by
        simp [notesOf, messages, nextTurn, hid]
      rw [Nat.add_comm]
      exact (Nat.add_le_add_left hnotes _).trans (Nat.le_add_left _ _)
    · rw [hthread u hu]
      exact Nat.add_le_add_left (Nat.le_add_right _ _) _
  · intro hnone u _ x
    by_cases hu : u = existing.threadId
    · subst hu
      have : waitingFor m.threads existing.threadId = [] := by simpa using hnone
      rw [this]
      exact Nat.zero_le _
    · rw [hthread u hu]

theorem register_alone_moves (hm : Sane m) {record : Run} {cap : Option Nat} {r : Run}
    (ht : record.threadId = none) (hr : register m record none cap now = some (m', r)) (moved : Bool) : Moves m m' [] moved := by
  obtain ⟨hnewRun, ⟨_, rfl, rfl⟩ | ⟨existing, _, hid, _⟩⟩ := register_next hr
  · have hrefl := moves_refl hm moved
    refine ⟨hm.threadIds, nodup_keys_snoc hm.runIds hnewRun, hrefl.bounded, hrefl.closings, hrefl.known, ?_, hrefl.stays⟩
    intro u hu x
    rw [notesOf_append, List.count_append]
    exact (hrefl.held u hu x).trans (Nat.add_le_add_left (Nat.le_add_right _ _) _)
  · rw [ht] at hid
    cases hid

/-! ## Mail and runs -/

theorem takePendingTasks_moves (hm : Sane m) {id : Id} (h : takePendingTasks m id = some m') (moved : Bool) :
    Moves m m' [] moved := by
  unfold takePendingTasks at h
  split at h
  · cases h
  split at h
  · cases h
  · cases h
    have hk : KeepsMail m.threads fun th => if th.threadId = id then { th with pendingMail := th.pendingMail.filter (!·.task) } else th :=
      KeepsMail.modify hm (fun _ => rfl) (fun _ => rfl) (fun th _ => by simp [messages])
        fun th hth _ => (List.length_filter_le _ _).trans (hm.bounded th hth)
    exact hk.moves hm hm.runIds (fun _ => rfl) moved

/-- Tasks kept again go in front, and what falls out at the limit are tasks. -/
theorem messages_requeue (tasks : List Mail) (th : Thread) (hb : th.pendingMail.length ≤ MAX_PENDING_MAIL) :
    (messages th).Sublist (messages { th with
      pendingMail := (tasks ++ th.pendingMail).drop ((tasks ++ th.pendingMail).length - MAX_PENDING_MAIL) }) := by
  have hle : (tasks ++ th.pendingMail).length - MAX_PENDING_MAIL ≤ tasks.length := by
    rw [List.length_append]
    omega
  simp only [messages]
  rw [List.drop_append_of_le_length hle]
  exact ((List.sublist_append_right _ _).filter _).map _

theorem requeueTasks_moves (hm : Sane m) {id : Id} {tasks : List Mail} (h : requeueTasks m id tasks = some m')
    (moved : Bool) : Moves m m' [] moved := by
  unfold requeueTasks at h
  split at h
  · cases h
  split at h
  · cases h
  · cases h
    have hk : KeepsMail m.threads fun th => if th.threadId = id then { th with
        pendingMail := (tasks ++ th.pendingMail).drop ((tasks ++ th.pendingMail).length - MAX_PENDING_MAIL) } else th := by
      refine KeepsMail.modify hm (fun _ => rfl) (fun _ => rfl) (fun th hth => messages_requeue tasks th (hm.bounded th hth)) ?_
      intro th _ _
      simp only [List.length_drop]
      omega
    exact hk.moves hm hm.runIds (fun _ => rfl) moved

theorem queueMail_moves (hm : Sane m) {id : Id} {mail : Mail} (h : queueMail m id mail = some m')
    (moved : Bool) : Moves m m' (acceptedBy (.queueMail id mail)) moved := by
  unfold queueMail at h
  split at h
  · cases h
  rename_i existing hfind
  split at h
  · cases h
  rename_i hroom
  simp only [Bool.or_eq_true, decide_eq_true_eq, not_or, Nat.not_le] at hroom
  cases h
  obtain ⟨hmem, rfl⟩ := findThread_some hfind
  have hmsg : ∀ th : Thread, messages { th with pendingMail := th.pendingMail ++ [mail] } =
      messages th ++ if mail.task then [] else [mail.text] := by
    intro th
    cases hm : mail.task <;> simp [messages, hm]
  have hk : KeepsMail m.threads fun th =>
      if th.threadId = existing.threadId then { th with pendingMail := th.pendingMail ++ [mail] } else th := by
    refine KeepsMail.modify hm (fun _ => rfl) (fun _ => rfl) (fun th _ => ?_) fun th hth hid => ?_
    · rw [hmsg]
      exact List.sublist_append_left _ _
    · rw [List.inj_on_of_nodup_map hm.threadIds hth hmem hid, List.length_append]
      exact hroom.2
  have hmoves := hk.moves hm hm.runIds (fun _ => rfl) moved
  refine ⟨hmoves.threadIds, hmoves.runIds, hmoves.bounded, hmoves.closings, hmoves.known, ?_, hmoves.stays⟩
  intro t ht x
  by_cases hid : t = existing.threadId
  · subst hid
    have hnew : waitingFor (modify m existing.threadId fun th => { th with pendingMail := th.pendingMail ++ [mail] }).threads
        existing.threadId = messages existing ++ if mail.task then [] else [mail.text] := by
      rw [modify, waitingFor_map (fun th => by split <;> rfl), hfind, ← hmsg]
      simp only [if_true]
    have hcount : (acceptedBy (.queueMail existing.threadId mail)).count (existing.threadId, x) =
        (if mail.task then [] else [mail.text]).count x := by
      cases hm : mail.task <;> simp [acceptedBy, hm, List.count_cons]
    rw [hnew, waitingFor_some hfind, hcount, List.count_append, Nat.add_comm ((if mail.task then [] else [mail.text]).count x)]
    exact Nat.le_refl _
  · have hcount : (acceptedBy (.queueMail existing.threadId mail)).count (t, x) = 0 := by
      have : ¬ existing.threadId = t := fun h => hid h.symm
      cases hm : mail.task <;> simp [acceptedBy, hm, this]
    rw [hcount]
    exact hmoves.held t ht x

theorem setRun_moves {m : Mem} (hm : Sane m) {old : Run} (hold : old ∈ m.runs) (c : Changes)
    (hf : KeepsMail m.threads f) (moved : Bool) :
    Moves m { setRun m (c.apply old) with threads := m.threads.map f } [] moved := by
  have hsame : ∀ r ∈ m.runs, (if r.runId = old.runId then c.apply old else r).runId = r.runId ∧
      (if r.runId = old.runId then c.apply old else r).threadId = r.threadId ∧
      (if r.runId = old.runId then c.apply old else r).notes = r.notes := by
    intro r hr
    by_cases hid : r.runId = old.runId
    · obtain rfl := List.inj_on_of_nodup_map hm.runIds hr hold hid
      rw [if_pos hid]
      exact ⟨rfl, rfl, rfl⟩
    · rw [if_neg hid]
      exact ⟨rfl, rfl, rfl⟩
  show Moves m { m with threads := m.threads.map f, runs := m.runs.map fun r => if r.runId = old.runId then c.apply old else r } [] moved
  refine hf.moves hm ?_ ?_ moved
  · have hids : (m.runs.map fun r => if r.runId = old.runId then c.apply old else r).map (·.runId) = m.runs.map (·.runId) := by
      rw [List.map_map]
      exact List.map_congr_left fun r hr => (hsame r hr).1
    rw [hids]
    exact hm.runIds
  · exact fun t => notesOf_map (fun r hr => (hsame r hr).2) t

theorem keepsMail_id {m : Mem} (hm : Sane m) : KeepsMail m.threads id :=
  ⟨fun _ => rfl, fun _ => rfl, fun _ _ => List.Sublist.refl _, hm.bounded⟩

theorem update_moves (hm : Sane m) {id : Id} {changes : Changes} (h : update m id changes = some m')
    (moved : Bool) : Moves m m' [] moved := by
  obtain ⟨old, hold, _, c, _, rfl | ⟨_, t, _, _, rfl⟩⟩ := update_changes h
  · simpa [setRun] using setRun_moves hm hold c (keepsMail_id hm) moved
  · refine setRun_moves hm hold c (KeepsMail.modify hm (closeOutRun_threadId · _) (closeOutRun_isOpen · _) ?_ ?_) moved
    · intro th _
      simp [messages]
    · intro th hth _
      rw [closeOutRun_pendingMail]
      exact hm.bounded th hth

theorem finish_moves (hm : Sane m) {id : Id} {outcome : Outcome} {report : Bool}
    (h : finish m id outcome report now = some m') (moved : Bool) : Moves m m' [] moved := by
  obtain ⟨_, _, hu⟩ := finish_updates h
  exact update_moves hm hu moved

theorem claim_moves (hm : Sane m) {id : Id} {owner expectedOwner : Nat} {changes : Changes}
    (h : claim m id owner expectedOwner changes = some m') (moved : Bool) : Moves m m' [] moved := by
  obtain ⟨old, hold, c, rfl⟩ := claim_changes h
  simpa [setRun] using setRun_moves hm hold c (keepsMail_id hm) moved

theorem closeThread_moves (hm : Sane m) {id : Id} (h : closeThread m id now = some m')
    (moved : Bool) : Moves m m' [] moved := by
  unfold closeThread at h
  split at h
  · cases h
  split at h
  · cases h
  · cases h
    exact closeThreads_moves hm _ now moved

theorem forgetParent_moves (hm : Sane m) {parent : String} (h : forgetParent m parent now = some m')
    (moved : Bool) : Moves m m' [] moved := by
  unfold forgetParent at h
  split at h
  · cases h
    exact closeThreads_moves hm _ now moved
  · cases h

/-- Whether an operation moves messages from threads.json to runs.json. -/
def Op.movesMail (m : Mem) : Op → Bool
  | .followup thread _ => waitingFor m.threads thread ≠ []
  | _ => false

theorem run_moves (hm : Sane m) {id : Id} {op : Op} {record : Option Run}
    (hr : run m id now op = some (m', record)) : Moves m m' (acceptedBy op) (op.movesMail m) := by
  cases op with
  | spawn parent origin cleanupDelete deliveryState openCap =>
    obtain ⟨r, hreg, rfl⟩ := written_some hr
    by_cases ho : origin = .system
    · simp only [ho, if_true] at hreg
      exact register_alone_moves hm rfl hreg _
    · simp only [ho, if_false] at hreg
      exact register_new_moves hm rfl rfl hreg _
  | followup thread origin =>
    obtain ⟨r, hreg, rfl⟩ := written_some hr
    exact register_next_moves hm rfl hreg
  | update run changes => exact update_moves hm (written_none hr).1 _
  | finish run outcome report => exact finish_moves hm (written_none hr).1 _
  | claim run owner expectedOwner changes => exact claim_moves hm (written_none hr).1 _
  | closeThread thread => exact closeThread_moves hm (written_none hr).1 _
  | queueMail thread mail => exact queueMail_moves hm (written_none hr).1 _
  | takePendingTasks thread => exact takePendingTasks_moves hm (written_none hr).1 _
  | requeueTasks thread tasks => exact requeueTasks_moves hm (written_none hr).1 _
  | forgetParent parent => exact forgetParent_moves hm (written_none hr).1 _
  | maintain =>
    cases hr
    exact moves_refl hm _

/-! ## Reading -/

/-- A thread that is open after reading has lost no mail to it. -/
theorem refresh_open (h : (refresh runs now th).isOpen = true) :
    (refresh runs now th).pendingMail = th.pendingMail := by
  unfold refresh at h ⊢
  rcases closeIdle_cases now (settleActive runs th) with hc | ⟨_, _, hc, _⟩
  · rw [hc]
    exact (settleActive_keeps runs th).2.2.2
  · rw [hc] at h
    cases h

theorem refresh_bounded (h : th.pendingMail.length ≤ MAX_PENDING_MAIL) :
    (refresh runs now th).pendingMail.length ≤ MAX_PENDING_MAIL := by
  unfold refresh closeIdle
  split
  · exact Nat.zero_le _
  · rw [(settleActive_keeps runs th).2.2.2]
    exact h

theorem mem_closings {d : Disk} (hth : th ∈ d.threads) (hopen : th.isOpen = true)
    (hclosed : (refresh (read now d).runs now th).isOpen = false) : th.threadId ∈ (read now d).closings :=
  List.mem_map_of_mem (List.mem_filter.mpr ⟨hth, by rw [hopen, Bool.true_and, Bool.not_eq_true']; exact hclosed⟩)

theorem read_waitingFor {d : Disk} (hopen : ∀ th ∈ d.threads, th.isOpen = false → th.threadId ≠ t)
    (ht : t ∉ (read now d).closings) : waitingFor (read now d).threads t = waitingFor d.threads t := by
  -- The thread is open on disk, and reading leaves it open.
  have hstays : ∀ th, findThread d.threads t = some th → (refresh (read now d).runs now th).isOpen = true := by
    intro th hf
    obtain ⟨hmem, hid⟩ := findThread_some hf
    by_contra hclosed
    rw [Bool.not_eq_true] at hclosed
    by_cases ho : th.isOpen = true
    · exact ht (hid ▸ mem_closings hmem ho hclosed)
    · exact hopen th hmem (by simpa using ho) hid
  have hkept : waitingFor (read now d).threads t = waitingFor (d.threads.map (refresh (read now d).runs now)) t := by
    refine waitingFor_filter fun th hf => ?_
    rw [findThread_map (refresh_threadId _ now), Option.map_eq_some_iff] at hf
    obtain ⟨old, hold, rfl⟩ := hf
    have hr := hstays old hold
    simp only [read] at hr
    simp [expired, hr]
  rw [hkept, waitingFor_map (refresh_threadId _ now)]
  cases hf : findThread d.threads t with
  | none => simp [waitingFor, hf]
  | some th =>
    rw [waitingFor_some hf]
    simp only [messages, refresh_open (hstays th hf)]

/-- No run that retention prunes holds a message of a thread that was never closed. -/
def PrunesNoNotes (s : St) (now : Nat) : Prop :=
  ∀ r ∈ s.disk.runs, keepsRun now r = false →
    r.notes = [] ∨ r.threadId.all (fun t => t ∈ s.closed ++ (read now s.disk).closings) = true

instance (s : St) (now : Nat) : Decidable (PrunesNoNotes s now) := inferInstanceAs (Decidable (∀ r ∈ _, _))

theorem read_notesOf {s : St} (hp : PrunesNoNotes s now) (ht : t ∉ s.closed ++ (read now s.disk).closings) :
    notesOf (read now s.disk).runs t = notesOf s.disk.runs t := by
  refine notesOf_filter fun r hr hk htid => ?_
  rcases hp r hr hk with h | h
  · exact h
  · rw [htid, Option.all_some, decide_eq_true_eq] at h
    exact absurd h ht

/-! ## Runs of the registry -/

structure Held (s : St) : Prop where
  threadIds : (s.disk.threads.map (·.threadId)).Nodup
  runIds : (s.disk.runs.map (·.runId)).Nodup
  bounded : ∀ th ∈ s.disk.threads, th.pendingMail.length ≤ MAX_PENDING_MAIL
  known : ∀ th ∈ s.disk.threads, th.isOpen = false → th.threadId ∈ s.closed
  held : ∀ t ∉ s.closed, ∀ x, s.accepted.count (t, x) ≤
    (waitingFor s.disk.threads t).count x + (notesOf s.disk.runs t).count x

theorem held_start : Held start := by
  constructor <;> simp [start]

theorem Held.sane {s : St} (h : Held s) (now : Nat) : Sane (read now s.disk) where
  threadIds := (nodup_keys_map h.threadIds (refresh_threadId _ now)).sublist (List.filter_sublist.map _)
  runIds := h.runIds.sublist (List.filter_sublist.map _)
  bounded := by
    intro th hth
    obtain ⟨old, hold, rfl⟩ := List.mem_map.mp (List.mem_of_mem_filter hth)
    exact refresh_bounded (h.bounded old hold)

theorem Held.read_waitingFor {s : St} (h : Held s) (ht : t ∉ s.closed ++ (read now s.disk).closings) :
    waitingFor (read now s.disk).threads t = waitingFor s.disk.threads t := by
  rw [List.mem_append, not_or] at ht
  exact Registry.read_waitingFor (fun th hth hclosed hid => ht.1 (hid ▸ h.known th hth hclosed)) ht.2

/-- Every message accepted for a thread never closed, up to its closing by this reading,
    waits for it or is a note of one of its runs. -/
def Reloaded (s : St) (now : Nat) : Prop :=
  ∀ t ∉ s.closed ++ (read now s.disk).closings, ∀ x, s.accepted.count (t, x) ≤
    (waitingFor (read now s.disk).threads t).count x + (notesOf (read now s.disk).runs t).count x

theorem Held.reloaded {s : St} (h : Held s) (hp : PrunesNoNotes s now) : Reloaded s now := by
  intro t ht x
  rw [h.read_waitingFor ht, read_notesOf hp ht]
  exact h.held t (fun hc => ht (List.mem_append_left _ hc)) x

/-- No crash between the two replacements of a follow-up that takes waiting messages, and
    no pruning of notes. -/
def LosesNoMail (s : St) (e : Ev) : Prop :=
  (e.crash = true → (run (read e.now s.disk) s.nextId e.now e.op).isSome = true → e.op.movesMail (read e.now s.disk) = false) ∧
    PrunesNoNotes s e.now

instance (s : St) (e : Ev) : Decidable (LosesNoMail s e) := inferInstanceAs (Decidable (_ ∧ _))

theorem Held.step {s : St} (h : Held s) {e : Ev} (hok : LosesNoMail s e) : Held (step s e) := by
  unfold Registry.step
  cases hrun : run (read e.now s.disk) s.nextId e.now e.op with
  | none => exact h
  | some result =>
    obtain ⟨m, record⟩ := result
    have hm := run_moves (h.sane e.now) hrun
    have hcount : ∀ t ∉ s.closed ++ m.closings, ∀ x,
        s.accepted.count (t, x) ≤ (waitingFor (read e.now s.disk).threads t).count x + (notesOf (read e.now s.disk).runs t).count x := by
      intro t ht x
      rw [List.mem_append, not_or] at ht
      refine h.reloaded hok.2 t ?_ x
      rw [List.mem_append, not_or]
      exact ⟨ht.1, fun hc => ht.2 (hm.closings hc)⟩
    refine ⟨hm.threadIds, ?_, hm.bounded, ?_, ?_⟩
    · simp only [write]
      split
      · exact h.runIds
      · exact hm.runIds
    · intro th hth hclosed
      rcases hm.known th hth hclosed with hc | ⟨old, hold, hid, hold'⟩
      · exact List.mem_append_right _ hc
      · obtain ⟨before, hbefore, rfl⟩ := List.mem_map.mp (List.mem_of_mem_filter hold)
        rw [refresh_threadId] at hid
        by_cases ho : before.isOpen = true
        · exact hid ▸ List.mem_append_right _ (hm.closings (mem_closings hbefore ho hold'))
        · exact hid ▸ List.mem_append_left _ (h.known before hbefore (by simpa using ho))
    · intro t ht x
      have hbefore := hcount t ht x
      have hclosings : t ∉ m.closings := fun hc => ht (List.mem_append_right _ hc)
      by_cases hcrash : e.crash = true
      · have hstays := hm.stays (hok.1 hcrash (by rw [hrun]; rfl)) t hclosings x
        have hnotes : (notesOf (read e.now s.disk).runs t).count x = (notesOf s.disk.runs t).count x := by
          rw [read_notesOf hok.2]
          rw [List.mem_append, not_or] at ht ⊢
          exact ⟨ht.1, fun hc => ht.2 (hm.closings hc)⟩
        simp only [write, hcrash, if_true, List.append_nil]
        omega
      · have hheld := hm.held t hclosings x
        simp only [write, hcrash, Bool.false_eq_true, if_false, List.count_append]
        omega

/-- In every run without such a crash, reloading finds every message of a thread never closed. -/
theorem messages_held {s : St} (h : Reach step LosesNoMail start s) {now : Nat} (hp : PrunesNoNotes s now) : Reloaded s now :=
  (h.invariant (P := Held) held_start fun _ _ hs hok => hs.step hok).reloaded hp

def portNote : Mail := { text := "Use port 8080.".toList }

/-- A message waits for the thread of an ended task; recording its next task survives. -/
def deliveredMail : List Ev :=
  [{ op := .spawn "cli:direct" .agent false .pending (some 32), now := 100 }, { op := .finish 0 .ok false, now := 200 },
    { op := .queueMail 0 portNote, now := 300, crash := false }, { op := .followup 0 .agent, now := 400 },
    { op := .finish 3 .ok false, now := 500, crash := true }]

theorem deliveredMail_held : Reloaded (deliveredMail.foldl step start) 600 :=
  messages_held (Reach.foldl deliveredMail start .start (by decide)) (by decide)

def lostMail : List Ev :=
  [{ op := .spawn "cli:direct" .agent false .pending (some 32), now := 100 }, { op := .finish 0 .ok false, now := 200 },
    { op := .queueMail 0 portNote, now := 300 }, { op := .followup 0 .agent, now := 400, crash := true }]

/-- threads.json has given the message away, runs.json never got it. -/
theorem followup_crash_loses_mail : ¬ Reloaded (lostMail.foldl step start) 500 := by
  intro h
  have hlost := h 0 (by decide) portNote.text
  revert hlost
  decide

end Flowly.Agent.Registry
