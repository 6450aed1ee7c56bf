/-
  Flowly.Mcp.Delegated — delegated tool calls run at most once and under a live grant.

  Proved, over every interleaving of the bridge's turns, whatever the registry, the
  authority checks and the clock say:
  - `Once`: a request id of a grant runs one tool at most, under the name of the first
    request that was taken, and what the registry is given for it are that request's
    arguments, but for a local media path that the guard resolved;
  - `Counts`: the counters of the bridge and of each grant are those of the calls whose
    callback has not run, and within their limits;
  - `Guarded`: a tool that passes the guard does so under a grant that is active, has time
    left and names it, on a bridge that is open; `revoke`, `revoke_session`, `stop` and the
    timer end the grants they are for; and what has ended stays so.
-/

import Flowly.Lib.Reach
import Flowly.Lib.Tally
import Flowly.Mcp.ToolRuntime
import Mathlib.Data.List.Nodup

namespace Flowly.Mcp

open Flowly.Lib

variable {α φ : Type}

namespace Bridge

/-- What the guard may make of arguments: a local media path becomes the path it resolved. -/
def Cleared (codec : Codec α φ) (name : String) (before after : α) : Prop :=
  after = before ∨ ∃ key value scheme path, mediaKey name = some key ∧ codec.text before key = some value ∧
    codec.scheme value = some scheme ∧ scheme ∉ remoteSchemes ∧ after = codec.set before key path

/-- One tool at most for a request: the registry is given the arguments of the first call, as
    the guard clears them, and the tool what the hooks leave, as the guard clears that. -/
def Once (m : Bridge α φ) (codec : Codec α φ) : Prop :=
  (m.dispatches.map Dispatch.key).Nodup ∧
    ∀ d ∈ m.dispatches, ∃ c, m.calls.find? (·.key = d.key) = some c ∧ c.name = d.name ∧
      Cleared codec c.name c.requested d.handed ∧ Cleared codec c.name d.hooked d.arguments

/-- The counters are right, and within their limits. -/
def Counts (m : Bridge α φ) : Prop :=
  m.pending = m.calls.countP Call.unfinished ∧ m.pending ≤ maxPendingCalls ∧
    m.pendingBytes = ((m.calls.filter Call.unfinished).map Call.bytes).sum ∧ m.pendingBytes ≤ maxPendingArgumentBytes ∧
    ∀ i g, m.grants[i]? = some g →
      g.pending = m.calls.countP (fun c => decide (c.grant = i) && c.unfinished) ∧ g.pending ≤ maxGrantPendingCalls

def Lets (m : Bridge α φ) (o : Owner) (d : Dispatch α) : Prop :=
  m.closed = false ∧ ∃ g, m.grants[d.grant]? = some g ∧ g.active = true ∧ o.now < g.expiresAt ∧ d.name ∈ g.names

def Ended (m : Bridge α φ) (i : Nat) : Prop := ∃ g, m.grants[i]? = some g ∧ g.active = false

def Withdraws (m m' : Bridge α φ) (o : Owner) : Event α → Prop
  | .revoke token => ∀ g, m.grant o token = .ok g → m'.Ended token
  | .revokeSession sessionKey => ∀ i g, m.grants[i]? = some g → g.sessionKey = sessionKey → m'.Ended i
  | .stop => m'.closed = true ∧ ∀ i g, m.grants[i]? = some g → m'.Ended i
  | .expire i => ∀ g, m.grants[i]? = some g → m'.Ended i
  | _ => True

/-- A step runs no tool, or one that its grant lets run; what it is to end it ends; and
    nothing that has ended comes back. -/
def Guarded [DecidableEq φ] (codec : Codec α φ) (m : Bridge α φ) (e : Owner × Event α) : Prop :=
  ((m.next codec e).dispatches = m.dispatches ∨ ∃ d, (m.next codec e).dispatches = d :: m.dispatches ∧ m.Lets e.1 d) ∧
    m.Withdraws (m.next codec e) e.1 e.2 ∧
    (∀ i, m.Ended i → (m.next codec e).Ended i) ∧ (m.closed = true → (m.next codec e).closed = true)

/-! ## The weights of a call -/

end Bridge

namespace Call

variable {c c' : Call α}

/-- What a call adds to the number of pending calls, to that of a grant, and to the bytes. -/
def one (c : Call α) : Nat := if c.unfinished then 1 else 0

def oneOf (i : Nat) (c : Call α) : Nat := if decide (c.grant = i) && c.unfinished then 1 else 0

def load (c : Call α) : Nat := if c.unfinished then c.bytes else 0

def ran (c : Call α) : Bool := c.stage = .dispatched ∨ c.stage = .done ∨ c.stage = .finished

/-- Its arguments are those that were asked for, and in the registry as the guard cleared them. -/
def Kept (codec : Codec α φ) (c : Call α) : Prop :=
  (c.stage = .queued ∨ c.stage = .slotted → c.arguments = c.requested) ∧
    (c.stage = .executing → Bridge.Cleared codec c.name c.requested c.arguments)

structure Same (codec : Codec α φ) (c c' : Call α) : Prop where
  key : c'.key = c.key
  name : c'.name = c.name
  requested : c'.requested = c.requested
  bytes : c'.bytes = c.bytes
  unfinished : c'.unfinished = c.unfinished
  ran : c.ran = true → c'.ran = true
  kept : c.Kept codec → c'.Kept codec

variable {codec : Codec α φ}

theorem Same.refl (c : Call α) : Same codec c c := ⟨rfl, rfl, rfl, rfl, rfl, id, id⟩

theorem Same.grant (h : Same codec c c') : c'.grant = c.grant := congrArg Prod.fst h.key

theorem Same.trans {a b c : Call α} (h : Same codec a b) (h' : Same codec b c) : Same codec a c :=
  ⟨h'.key.trans h.key, h'.name.trans h.name, h'.requested.trans h.requested, h'.bytes.trans h.bytes,
    h'.unfinished.trans h.unfinished, fun hr => h'.ran (h.ran hr), fun hk => h'.kept (h.kept hk)⟩

/-- Past the guard nothing is asked of the arguments. -/
theorem kept_of_ran (h : c.ran = true) : c.Kept codec := by
  unfold ran at h
  refine ⟨fun hs => ?_, fun hs => ?_⟩
  · rcases hs with hs | hs
    · simp [hs] at h
    · simp [hs] at h
  · simp [hs] at h

/-- Another stage of a call that goes on. -/
theorem Same.stage (c : Call α) {stage : Stage} {arguments : α} (hu : c.unfinished = true) (hs : stage ≠ .finished)
    (hr : c.ran = true → stage = .dispatched ∨ stage = .done)
    (hkept : c.Kept codec → Kept codec { c with arguments, stage }) : Same codec c { c with arguments, stage } := by
  refine ⟨rfl, rfl, rfl, rfl, ?_, ?_, hkept⟩
  · rw [hu]
    exact decide_eq_true hs
  · intro hran
    refine decide_eq_true ?_
    rcases hr hran with h | h
    · exact .inl h
    · exact .inr (.inl h)

theorem cancel_same (c : Call α) : Same codec c c.cancel := by
  unfold cancel
  split_ifs
  · exact ⟨rfl, rfl, rfl, rfl, rfl, id, id⟩
  · exact .refl c

theorem Same.one (h : Same codec c c') : c.one = c'.one := by
  unfold Call.one
  rw [h.unfinished]

theorem Same.oneOf (h : Same codec c c') (i : Nat) : Call.oneOf i c = Call.oneOf i c' := by
  unfold Call.oneOf
  rw [h.unfinished, h.grant]

theorem Same.load (h : Same codec c c') : c.load = c'.load := by
  unfold Call.load
  rw [h.unfinished, h.bytes]

end Call

/-- What a turn leaves of a grant besides what it counts: it may end. -/
structure Grant.Same (g g' : Grant φ) : Prop where
  pending : g'.pending = g.pending
  calls : g'.calls = g.calls
  ended : g.active = false → g'.active = false

theorem Grant.Same.refl (g : Grant φ) : g.Same g := ⟨rfl, rfl, id⟩

namespace Bridge

/-! ## What every run keeps -/

structure Inv (codec : Codec α φ) (m : Bridge α φ) : Prop where
  pending : m.pending = tally Call.one m.calls
  pendingLe : m.pending ≤ maxPendingCalls
  bytes : m.pendingBytes = tally Call.load m.calls
  bytesLe : m.pendingBytes ≤ maxPendingArgumentBytes
  grants : ∀ i g, m.grants[i]? = some g → g.pending = tally (Call.oneOf i) m.calls ∧ g.pending ≤ maxGrantPendingCalls
  keys : (m.calls.map Call.key).Nodup
  recorded : ∀ c ∈ m.calls, ∃ g, m.grants[c.grant]? = some g ∧ (g.calls.lookup c.requestId).isSome = true
  once : (m.dispatches.map Dispatch.key).Nodup
  kept : ∀ c ∈ m.calls, c.Kept codec
  ran : ∀ d ∈ m.dispatches, ∃ c ∈ m.calls, c.key = d.key ∧ c.name = d.name ∧ Cleared codec c.name c.requested d.handed ∧
    Cleared codec c.name d.hooked d.arguments ∧ c.ran = true

variable {codec : Codec α φ} {m m' : Bridge α φ} {k : Nat} {c : Call α}

/-- A turn that finishes no call and counts none. -/
structure Quiet (codec : Codec α φ) (m m' : Bridge α φ) : Prop where
  calls : List.Forall₂ (Call.Same codec) m.calls m'.calls
  grants : List.Forall₂ Grant.Same m.grants m'.grants
  pending : m'.pending = m.pending
  bytes : m'.pendingBytes = m.pendingBytes
  closed : m.closed = true → m'.closed = true

/-- One call goes on. -/
theorem goesOn (hk : m.calls[k]? = some c) {c' : Call α} (hs : Call.Same codec c c') : Quiet codec m (m.setCall k c') :=
  ⟨forall₂_set Call.Same.refl hk hs, forall₂_refl Grant.Same.refl _, rfl, rfl, id⟩

theorem Quiet.refl (m : Bridge α φ) : Quiet codec m m :=
  ⟨forall₂_refl Call.Same.refl _, forall₂_refl Grant.Same.refl _, rfl, rfl, id⟩

namespace Inv

theorem quiet (h : m.Inv codec) (hq : Quiet codec m m') (hd : m'.dispatches = m.dispatches) : m'.Inv codec := by
  have hone : tally Call.one m.calls = tally Call.one m'.calls := Tally.congr (hq.calls.imp fun _ _ hs => hs.one)
  have hload : tally Call.load m.calls = tally Call.load m'.calls := Tally.congr (hq.calls.imp fun _ _ hs => hs.load)
  have hkeys : m'.calls.map Call.key = m.calls.map Call.key := forall₂_map_eq hq.calls fun _ _ hs => hs.key
  refine ⟨?_, ?_, ?_, ?_, ?_, ?_, ?_, ?_, ?_, ?_⟩
  · rw [hq.pending, ← hone]
    exact h.pending
  · rw [hq.pending]
    exact h.pendingLe
  · rw [hq.bytes, ← hload]
    exact h.bytes
  · rw [hq.bytes]
    exact h.bytesLe
  · intro i g' hg'
    obtain ⟨g, hg, hs⟩ := forall₂_getElem' hq.grants hg'
    rw [hs.pending, ← Tally.congr (hq.calls.imp fun _ _ hs => hs.oneOf i)]
    exact h.grants i g hg
  · rw [hkeys]
    exact h.keys
  · intro c' hc'
    obtain ⟨c, hc, hs⟩ := forall₂_mem' hq.calls hc'
    obtain ⟨g, hg, hrec⟩ := h.recorded c hc
    obtain ⟨g', hg', hsg⟩ := forall₂_getElem hq.grants hg
    refine ⟨g', hs.grant ▸ hg', ?_⟩
    rw [hsg.calls, show c'.requestId = c.requestId from congrArg Prod.snd hs.key]
    exact hrec
  · rw [hd]
    exact h.once
  · intro c' hc'
    obtain ⟨c, hc, hs⟩ := forall₂_mem' hq.calls hc'
    exact hs.kept (h.kept c hc)
  · intro d hdm
    rw [hd] at hdm
    obtain ⟨c, hc, hkey, hname, hhanded, hgiven, hran⟩ := h.ran d hdm
    obtain ⟨c', hc', hs⟩ := forall₂_mem hq.calls hc
    refine ⟨c', hc', hs.key.trans hkey, hs.name.trans hname, ?_, ?_, hs.ran hran⟩
    · rw [hs.name, hs.requested]
      exact hhanded
    · rw [hs.name]
      exact hgiven

/-- The call with a key is the only one. -/
theorem same_key (h : m.Inv codec) {c d : Call α} (hc : c ∈ m.calls) (hd : d ∈ m.calls) (hkey : c.key = d.key) : c = d :=
  List.inj_on_of_nodup_map h.keys hc hd hkey

end Inv

theorem grant_ok {o : Owner} {token : Nat} {g : Grant φ} (h : m.grant o token = .ok g) :
    m.grants[token]? = some g ∧ g.active = true ∧ o.now < g.expiresAt := by
  unfold grant at h
  split at h
  · cases h
  · next g' hg =>
    split_ifs at h with hno
    cases h
    obtain ⟨hact, hexp⟩ := not_or.1 hno
    exact ⟨hg, by simpa using hact, Rat.not_le.1 hexp⟩

theorem getElem?_modify_some {l : List (Grant φ)} {i j : Nat} {f : Grant φ → Grant φ} {b : Grant φ}
    (h : (l.modify i f)[j]? = some b) : ∃ a, l[j]? = some a ∧ b = if i = j then f a else a := by
  rw [List.getElem?_modify] at h
  obtain ⟨a, ha, hb⟩ := Option.map_eq_some_iff.1 h
  refine ⟨a, ha, hb.symm.trans ?_⟩
  split_ifs <;> rfl

theorem getElem?_modify_of {l : List (Grant φ)} {i j : Nat} {f : Grant φ → Grant φ} {a : Grant φ} (h : l[j]? = some a) :
    (l.modify i f)[j]? = some (if i = j then f a else a) := by
  rw [List.getElem?_modify, h]
  split_ifs <;> rfl

theorem lookup_bury (requestId id : String) (calls : List (String × φ × Option Nat)) :
    ((bury requestId calls).lookup id).isSome = (calls.lookup id).isSome := by
  unfold bury
  induction calls with
  | nil => rfl
  | cons r calls ih =>
    have hfst : (if r.1 = requestId then (r.1, r.2.1, none) else r).1 = r.1 := by split_ifs <;> rfl
    rw [List.map_cons, List.lookup_cons, List.lookup_cons, hfst]
    by_cases hid : id = r.1
    · simp [hid]
    · rw [beq_false_of_ne hid]
      exact ih

variable {o : Owner}

/-- What is known where `call` makes a task. -/
theorem checkCall_new [DecidableEq φ] {token : Nat} {requestId name : String} {arguments : α} {bytes : Nat} {fingerprint : φ}
    (h : m.checkCall o codec token requestId name arguments = .ok (.inr (bytes, fingerprint))) :
    ∃ g, m.grants[token]? = some g ∧ g.calls.lookup requestId = none ∧ m.pending < maxPendingCalls ∧
      g.pending < maxGrantPendingCalls ∧ m.pendingBytes + bytes ≤ maxPendingArgumentBytes := by
  unfold checkCall at h
  split at h
  · cases h
  · next g hg =>
    split at h
    · cases h
    split at h
    · cases h
    split at h
    · cases h
    split at h
    · cases h
    split at h
    · cases h
    split at h
    · split at h
      · cases h
      · split at h
        · cases h
        · cases h
    · next hnone =>
      split at h
      · cases h
      split at h
      · cases h
      · next hroom =>
        cases h
        obtain ⟨hpend, hrest⟩ := not_or.1 hroom
        obtain ⟨hgrant, hbytes⟩ := not_or.1 hrest
        exact ⟨g, (grant_ok hg).1, hnone, by omega, by omega, by omega⟩

namespace Inv

/-- A task is made for a request that the grant has no record of. -/
theorem register (h : m.Inv codec) {token : Nat} {g : Grant φ} (hg : m.grants[token]? = some g) {c : Call α} (hgrant : c.grant = token)
    (hstage : c.stage = .queued) (hargs : c.arguments = c.requested) (hnew : g.calls.lookup c.requestId = none) (hpend : m.pending < maxPendingCalls)
    (hgpend : g.pending < maxGrantPendingCalls) (hbytes : m.pendingBytes + c.bytes ≤ maxPendingArgumentBytes) (fingerprint : φ) :
    (m.register token c fingerprint).Inv codec := by
  have hu : c.unfinished = true := by
    unfold Call.unfinished
    rw [hstage]
    rfl
  have hone : c.one = 1 := if_pos hu
  have hload : c.load = c.bytes := if_pos hu
  refine ⟨?_, Nat.succ_le_of_lt hpend, ?_, hbytes, ?_, ?_, ?_, h.once, ?_, ?_⟩
  · show m.pending + 1 = tally Call.one (m.calls ++ [c])
    rw [Tally.append, Tally.singleton, hone, h.pending]
  · show m.pendingBytes + c.bytes = tally Call.load (m.calls ++ [c])
    rw [Tally.append, Tally.singleton, hload, h.bytes]
  · intro i g' hg'
    obtain ⟨g₀, hg₀, rfl⟩ := getElem?_modify_some hg'
    obtain ⟨hcount, hle⟩ := h.grants i g₀ hg₀
    show _ = tally (Call.oneOf i) (m.calls ++ [c]) ∧ _
    rw [Tally.append, Tally.singleton, ← hcount]
    unfold Call.oneOf
    rw [hgrant, hu, Bool.and_true]
    by_cases hi : token = i
    · obtain rfl : g = g₀ := Option.some.inj (hg.symm.trans (hi ▸ hg₀))
      rw [if_pos hi, if_pos (decide_eq_true hi)]
      exact ⟨rfl, Nat.succ_le_of_lt hgpend⟩
    · rw [if_neg hi, if_neg (by simpa using hi)]
      exact ⟨rfl, hle⟩
  · show ((m.calls ++ [c]).map Call.key).Nodup
    rw [List.map_append]
    refine List.nodup_append.2 ⟨h.keys, List.nodup_singleton _, ?_⟩
    intro x hx y hy heq
    obtain ⟨d, hd, rfl⟩ := List.mem_map.1 hx
    rw [List.mem_singleton.1 hy] at heq
    -- A call with its key would be in the records of the grant.
    obtain ⟨g₀, hg₀, hrec⟩ := h.recorded d hd
    rw [show d.grant = token from (congrArg Prod.fst heq).trans hgrant, hg] at hg₀
    rw [← Option.some.inj hg₀, show d.requestId = c.requestId from congrArg Prod.snd heq, hnew] at hrec
    cases hrec
  · intro d hd
    rcases List.mem_append.1 hd with hd | hd
    · obtain ⟨g₀, hg₀, hrec⟩ := h.recorded d hd
      refine ⟨_, getElem?_modify_of hg₀, ?_⟩
      split_ifs
      · rw [List.lookup_cons]
        split
        · rfl
        · exact hrec
      · exact hrec
    · rw [List.mem_singleton.1 hd, hgrant]
      refine ⟨_, getElem?_modify_of hg, ?_⟩
      rw [if_pos rfl, List.lookup_cons]
      simp
  · intro d hd
    rcases List.mem_append.1 hd with hd | hd
    · exact h.kept d hd
    · rw [List.mem_singleton.1 hd]
      exact ⟨fun _ => hargs, fun hst => nomatch hstage.symm.trans hst⟩
  · intro d hd
    obtain ⟨c', hc', hrest⟩ := h.ran d hd
    exact ⟨c', List.mem_append.2 (.inl hc'), hrest⟩

theorem finish (h : m.Inv codec) (k : Nat) : (m.finish k).Inv codec := by
  unfold Bridge.finish
  split
  · exact h
  · next c hk =>
    split_ifs with hdone
    · have hc := List.mem_of_getElem? hk
      have hu : c.unfinished = true := by
        unfold Call.unfinished
        rw [hdone]
        rfl
      have hu' : ({ c with stage := .finished } : Call α).unfinished = false := rfl
      have hset {w : Call α → Nat} : tally w (m.calls.set k { c with stage := .finished }) + w c =
          tally w m.calls + w { c with stage := .finished } := Tally.set hk
      have hrows : List.Forall₂ (fun c c' : Call α => c'.key = c.key) m.calls (m.calls.set k { c with stage := .finished }) :=
        forall₂_set (R := fun c c' : Call α => c'.key = c.key) (b := { c with stage := .finished }) (fun _ => rfl) hk rfl
      have hkeys : (m.calls.set k { c with stage := .finished }).map Call.key = m.calls.map Call.key :=
        forall₂_map_eq hrows fun _ _ hs => hs
      refine ⟨?_, ?_, ?_, ?_, ?_, ?_, ?_, h.once, ?_, ?_⟩
      · have hw : tally Call.one (m.calls.set k { c with stage := .finished }) + 1 = tally Call.one m.calls + 0 := by
          have := hset (w := Call.one)
          rwa [show c.one = 1 from if_pos hu] at this
        show m.pending - 1 = tally Call.one (m.calls.set k { c with stage := .finished })
        rw [h.pending]
        omega
      · have := h.pendingLe
        show m.pending - 1 ≤ _
        omega
      · have hw : tally Call.load (m.calls.set k { c with stage := .finished }) + c.bytes = tally Call.load m.calls + 0 := by
          have := hset (w := Call.load)
          rwa [show c.load = c.bytes from if_pos hu] at this
        show m.pendingBytes - c.bytes = tally Call.load (m.calls.set k { c with stage := .finished })
        rw [h.bytes]
        omega
      · have := h.bytesLe
        show m.pendingBytes - c.bytes ≤ _
        omega
      · intro i g' hg'
        obtain ⟨g, hg, rfl⟩ := getElem?_modify_some hg'
        obtain ⟨hcount, hle⟩ := h.grants i g hg
        have hw := hset (w := Call.oneOf i)
        have hzero : Call.oneOf i ({ c with stage := .finished } : Call α) = 0 := by
          unfold Call.oneOf
          rw [hu', Bool.and_false]
          rfl
        have hwas : Call.oneOf i c = if c.grant = i then 1 else 0 := by
          unfold Call.oneOf
          rw [hu, Bool.and_true]
          by_cases hi : c.grant = i
          · rw [if_pos hi, if_pos (decide_eq_true hi)]
          · rw [if_neg hi, if_neg (by simpa using hi)]
        rw [hzero, hwas] at hw
        show _ = tally (Call.oneOf i) (m.calls.set k { c with stage := .finished }) ∧ _
        split_ifs at hw ⊢
        · refine ⟨?_, ?_⟩
          · show g.pending - 1 = _
            omega
          · show g.pending - 1 ≤ _
            omega
        · exact ⟨by omega, hle⟩
      · rw [hkeys]
        exact h.keys
      · intro d' hd'
        obtain ⟨d, hd, hkey⟩ := forall₂_mem' hrows hd'
        obtain ⟨g, hg, hrec⟩ := h.recorded d hd
        rw [show d'.grant = d.grant from congrArg Prod.fst hkey, show d'.requestId = d.requestId from congrArg Prod.snd hkey]
        refine ⟨_, getElem?_modify_of hg, ?_⟩
        split_ifs
        · show ((bury c.requestId g.calls).lookup d.requestId).isSome = true
          rw [lookup_bury]
          exact hrec
        · exact hrec
      · intro d hd
        rcases List.mem_or_eq_of_mem_set hd with hd | rfl
        · exact h.kept d hd
        · exact Call.kept_of_ran rfl
      · intro d hd
        obtain ⟨c₀, hc₀, hkey, hname, hhanded, hgiven, hran⟩ := h.ran d hd
        by_cases heq : c₀ = c
        · refine ⟨{ c with stage := .finished }, List.mem_of_getElem? (List.getElem?_set_self' .. |>.trans ?_), ?_⟩
          · rw [hk]
            rfl
          · rw [← heq]
            exact ⟨hkey, hname, hhanded, hgiven, rfl⟩
        · refine ⟨c₀, ?_, hkey, hname, hhanded, hgiven, hran⟩
          obtain ⟨j, hj⟩ := List.getElem?_of_mem hc₀
          have hjk : k ≠ j := by
            intro hjk
            rw [← hjk, hk] at hj
            exact heq (Option.some.inj hj).symm
          exact List.mem_of_getElem? ((List.getElem?_set_ne hjk).trans hj)
    · exact h

/-- A tool runs for a call that is in the registry, and for none before. -/
theorem runs (h : m.Inv codec) (hk : m.calls[k]? = some c) (hst : c.stage = .executing) {hooked arguments given : α}
    (hgiven : Cleared codec c.name hooked given) :
    Inv codec { m.setCall k { c with arguments, stage := .dispatched } with
                dispatches := ⟨c.grant, c.requestId, c.name, c.arguments, hooked, given⟩ :: m.dispatches } := by
  have hc := List.mem_of_getElem? hk
  have hnot : c.ran = false := by
    unfold Call.ran
    rw [hst]
    rfl
  have hu : c.unfinished = true := by
    unfold Call.unfinished
    rw [hst]
    rfl
  have hquiet : Quiet codec m (m.setCall k { c with arguments, stage := .dispatched }) :=
    goesOn hk (.stage c hu (by decide) (fun hr => absurd hr (by rw [hnot]; decide)) fun _ => Call.kept_of_ran rfl)
  have hset := h.quiet hquiet rfl
  refine ⟨hset.pending, hset.pendingLe, hset.bytes, hset.bytesLe, hset.grants, hset.keys, hset.recorded, ?_, hset.kept, ?_⟩
  · refine List.nodup_cons.2 ⟨?_, h.once⟩
    intro hin
    obtain ⟨d, hd, hkey⟩ := List.mem_map.1 hin
    obtain ⟨c₀, hc₀, hkey₀, _, _, _, hran⟩ := h.ran d hd
    rw [h.same_key hc₀ hc (hkey₀.trans hkey), hnot] at hran
    cases hran
  · intro d hd
    rcases List.mem_cons.1 hd with rfl | hd
    · refine ⟨{ c with arguments, stage := .dispatched }, List.mem_of_getElem? (List.getElem?_set_self' .. |>.trans ?_), rfl, rfl,
        (h.kept c hc).2 hst, hgiven, rfl⟩
      rw [hk]
      rfl
    · exact hset.ran d hd

end Inv

/-! ## The steps -/

/-- Revoking ends a grant and asks its calls to end. -/
theorem revokeDigest_quiet (m : Bridge α φ) (i : Nat) : Quiet codec m (m.revokeDigest i) := by
  unfold revokeDigest
  split
  · exact .refl m
  · split_ifs
    · exact .refl m
    · refine ⟨forall₂_map _ ?_, forall₂_modify Grant.Same.refl i _ fun g => ⟨rfl, rfl, fun _ => rfl⟩, rfl, rfl, id⟩
      intro c _
      split_ifs
      · exact c.cancel_same
      · exact .refl c

theorem Quiet.trans {m₁ m₂ m₃ : Bridge α φ} (h : Quiet codec m₁ m₂) (h' : Quiet codec m₂ m₃) : Quiet codec m₁ m₃ := by
  refine ⟨?_, ?_, h'.pending.trans h.pending, h'.bytes.trans h.bytes, fun hc => h'.closed (h.closed hc)⟩
  · exact forall₂_trans (fun _ _ _ hab hbc => hab.trans hbc) h.calls h'.calls
  · refine forall₂_trans (fun a b c hab hbc => ?_) h.grants h'.grants
    exact ⟨hbc.pending.trans hab.pending, hbc.calls.trans hab.calls, fun hr => hbc.ended (hab.ended hr)⟩

/-- No grant comes back in a quiet turn. -/
theorem Quiet.ended (h : Quiet codec m m') {i : Nat} (hend : m.Ended i) : m'.Ended i := by
  obtain ⟨g, hg, hinactive⟩ := hend
  obtain ⟨g', hg', hs⟩ := forall₂_getElem h.grants hg
  exact ⟨g', hg', hs.ended hinactive⟩

theorem revokeDigest_ended {i : Nat} {g : Grant φ} (hg : m.grants[i]? = some g) : (m.revokeDigest i).Ended i := by
  unfold revokeDigest
  rw [hg]
  dsimp only
  split_ifs with hact
  · exact ⟨g, hg, hact⟩
  · refine ⟨{ g with active := false }, ?_, rfl⟩
    show (m.grants.modify i _)[i]? = _
    rw [getElem?_modify_of hg, if_pos rfl]

theorem revokeDigest_dispatches (m : Bridge α φ) (i : Nat) : (m.revokeDigest i).dispatches = m.dispatches := by
  unfold revokeDigest
  split
  · rfl
  · split_ifs <;> rfl

def revokeWhere (m : Bridge α φ) (p : Grant φ → Bool) (is : List Nat) (m' : Bridge α φ) : Bridge α φ :=
  is.foldl (fun m' i => if (m.grants[i]?).any p then m'.revokeDigest i else m') m'

theorem revokeWhere_quiet (codec : Codec α φ) (p : Grant φ → Bool) (is : List Nat) (m' : Bridge α φ) :
    Quiet codec m' (revokeWhere m p is m') ∧ (revokeWhere m p is m').dispatches = m'.dispatches := by
  induction is generalizing m' with
  | nil => exact ⟨.refl m', rfl⟩
  | cons i is ih =>
    unfold revokeWhere
    rw [List.foldl_cons]
    split_ifs
    · obtain ⟨hq, hd⟩ := ih (m'.revokeDigest i)
      exact ⟨(m'.revokeDigest_quiet i).trans hq, hd.trans (m'.revokeDigest_dispatches i)⟩
    · exact ih m'

/-- A grant of the list that is to end has ended. -/
theorem revokeWhere_ended {p : Grant φ → Bool} {is : List Nat} (hq : Quiet codec m m') {i : Nat} {g : Grant φ}
    (hg : m.grants[i]? = some g) (hp : p g = true) (hi : i ∈ is) : (revokeWhere m p is m').Ended i := by
  induction is generalizing m' with
  | nil => cases hi
  | cons j is ih =>
    have hnext : Quiet codec m (if (m.grants[j]?).any p then m'.revokeDigest j else m') := by
      split_ifs
      · exact hq.trans (m'.revokeDigest_quiet j)
      · exact hq
    rcases List.mem_cons.1 hi with rfl | hi
    · have hany : (m.grants[i]?).any p = true := by
        rw [hg]
        exact hp
      obtain ⟨g', hg', _⟩ := forall₂_getElem hq.grants hg
      unfold revokeWhere
      rw [List.foldl_cons, if_pos hany]
      exact (revokeWhere_quiet codec p is _).1.ended (revokeDigest_ended hg')
    · exact ih hnext hi

theorem revokeAll_quiet (codec : Codec α φ) (m : Bridge α φ) (p : Grant φ → Bool) :
    Quiet codec m (m.revokeAll p) ∧ (m.revokeAll p).dispatches = m.dispatches :=
  revokeWhere_quiet codec p _ m

theorem revokeAll_ended (codec : Codec α φ) {p : Grant φ → Bool} {i : Nat} {g : Grant φ} (hg : m.grants[i]? = some g)
    (hp : p g = true) : (m.revokeAll p).Ended i :=
  revokeWhere_ended (Quiet.refl m : Quiet codec m m) hg hp (List.mem_range.2 (List.getElem?_eq_some_iff.1 hg).1)

/-- A turn keeps what every run keeps, nothing that has ended comes back, and a tool that runs
    is let run. -/
structure Turn (codec : Codec α φ) (m m' : Bridge α φ) (o : Owner) : Prop where
  inv : m'.Inv codec
  ended : ∀ i, m.Ended i → m'.Ended i
  closed : m.closed = true → m'.closed = true
  runs : m'.dispatches = m.dispatches ∨ ∃ d, m'.dispatches = d :: m.dispatches ∧ m.Lets o d

theorem Turn.quiet (h : m.Inv codec) (hq : Quiet codec m m') (hd : m'.dispatches = m.dispatches) : Turn codec m m' o :=
  ⟨h.quiet hq hd, fun _ => hq.ended, hq.closed, .inl hd⟩

/-- Another call goes on, or is over. -/
theorem Turn.goesOn (h : m.Inv codec) (hk : m.calls[k]? = some c) {c' : Call α} (hs : Call.Same codec c c') :
    Turn codec m (m.setCall k c') o :=
  .quiet h (Bridge.goesOn hk hs) rfl

theorem Turn.refl (h : m.Inv codec) : Turn codec m m o := .quiet h (.refl m) rfl

/-- A grant that is changed in what it counts is ended when it was. -/
theorem modify_ended {l : List (Grant φ)} {j : Nat} {f : Grant φ → Grant φ} (hf : ∀ g, (f g).active = g.active) (i : Nat)
    (hend : ∃ g, l[i]? = some g ∧ g.active = false) : ∃ g' : Grant φ, (l.modify j f)[i]? = some g' ∧ g'.active = false := by
  obtain ⟨g, hg, hinactive⟩ := hend
  refine ⟨_, getElem?_modify_of hg, ?_⟩
  split_ifs
  · rw [hf]
    exact hinactive
  · exact hinactive

theorem revoked (h : m.Inv codec) (i : Nat) : Turn codec m (m.revokeDigest i) o :=
  .quiet h (m.revokeDigest_quiet i) (m.revokeDigest_dispatches i)

theorem not_ran (hst : c.stage = .queued ∨ c.stage = .slotted ∨ c.stage = .executing) : c.unfinished = true ∧ ¬ c.ran = true := by
  unfold Call.unfinished Call.ran
  rcases hst with hst | hst | hst <;> rw [hst] <;> decide

/-- A task that is over before its tool runs. -/
theorem stops (h : m.Inv codec) (hk : m.calls[k]? = some c) {arguments : α}
    (hst : c.stage = .queued ∨ c.stage = .slotted ∨ c.stage = .executing) :
    Turn codec m (m.setCall k { c with arguments, stage := .done }) o := by
  obtain ⟨hu, hran⟩ := not_ran hst
  exact .goesOn h hk (.stage c hu (by decide) (fun hr => absurd hr hran) fun _ => Call.kept_of_ran rfl)

/-- What the guard lets through: the grant lets the tool run, and the arguments are cleared. -/
theorem dispatchGuard_some {arguments : α} (h : m.dispatchGuard o codec c = some arguments) :
    Cleared codec c.name c.arguments arguments ∧ m.closed = false ∧
      ∃ g, m.grants[c.grant]? = some g ∧ g.active = true ∧ o.now < g.expiresAt ∧ c.name ∈ g.names := by
  unfold dispatchGuard at h
  split at h
  · cases h
  · next g hg =>
    split_ifs at h with hno
    · obtain ⟨havailable, _⟩ := not_or.1 hno
      rw [Bool.not_eq_false] at havailable
      unfold available at havailable
      simp only [Bool.and_eq_true, decide_eq_true_eq] at havailable
      obtain ⟨⟨⟨⟨⟨⟨hopen, hact⟩, hexp⟩, _⟩, hname⟩, _⟩, _⟩ := havailable
      refine ⟨?_, by simpa using hopen, g, hg, hact, hexp, hname⟩
      split at h
      · exact .inl (Option.some.inj h).symm
      · next key hkey =>
        split at h
        · exact .inl (Option.some.inj h).symm
        · next value hvalue =>
          split at h
          · cases h
          · next scheme hscheme =>
            split_ifs at h with hremote
            · exact .inl (Option.some.inj h).symm
            · obtain ⟨path, _, rfl⟩ := Option.map_eq_some_iff.1 h
              exact .inr ⟨key, value, scheme, path, hkey, hvalue, hscheme, hremote, rfl⟩

theorem call_turn [DecidableEq φ] (h : m.Inv codec) (token : Nat) (requestId name : String) (arguments : α) :
    Turn codec m (m.call o codec token requestId name arguments).2 o := by
  unfold call
  split
  · exact .refl h
  · exact .quiet h ⟨forall₂_refl Call.Same.refl _, forall₂_refl Grant.Same.refl _, rfl, rfl, id⟩ rfl
  · next bytes fingerprint hnew =>
    obtain ⟨g, hg, hnone, hpend, hgpend, hbytes⟩ := checkCall_new hnew
    refine ⟨h.register hg rfl rfl rfl hnone hpend hgpend hbytes fingerprint, ?_, id, .inl rfl⟩
    exact modify_ended fun _ => rfl

theorem acquire_turn (h : m.Inv codec) (k : Nat) : Turn codec m (m.acquire k) o := by
  unfold acquire
  split
  · exact .refl h
  · next c hk =>
    split_ifs with hok
    · obtain ⟨hu, hran⟩ := not_ran (.inl hok.1)
      exact .goesOn h hk (.stage c hu (by decide) (fun hr => absurd hr hran) fun hkept =>
        ⟨fun _ => hkept.1 (.inl hok.1), nofun⟩)
    · exact .refl h

theorem enter_turn (h : m.Inv codec) (k : Nat) : Turn codec m (m.enter o codec k) o := by
  unfold enter
  split
  · exact .refl h
  · next c hk =>
    split_ifs with hok
    · have hst : c.stage = .queued ∨ c.stage = .slotted ∨ c.stage = .executing := .inr (.inl hok.1)
      split
      · exact stops h hk hst
      · next arguments hguard =>
        obtain ⟨hu, hran⟩ := not_ran hst
        refine .goesOn h hk (.stage c hu (by decide) (fun hr => absurd hr hran) fun hkept => ⟨nofun, fun _ => ?_⟩)
        have hcleared := (dispatchGuard_some hguard).1
        rw [hkept.1 (.inr hok.1)] at hcleared
        exact hcleared
    · exact .refl h

theorem dispatch_turn (h : m.Inv codec) (k : Nat) (edit : α → α) : Turn codec m (m.dispatch o codec k edit) o := by
  unfold dispatch
  split
  · exact .refl h
  · next c hk =>
    split_ifs with hst
    · dsimp only
      split
      · exact stops h hk (.inr (.inr hst))
      · next arguments hguard =>
        obtain ⟨hcleared, hopen, g, hg, hact, hexp, hname⟩ := dispatchGuard_some hguard
        refine ⟨h.runs hk hst ?_, fun _ hend => hend, id, .inr ⟨_, rfl, hopen, g, hg, hact, hexp, hname⟩⟩
        -- the guard clears the parameters only where they are the task's own copy
        split_ifs at hcleared ⊢
        · exact hcleared
        · exact .inl rfl
    · exact .refl h

theorem endTask_turn (h : m.Inv codec) (k : Nat) : Turn codec m (m.endTask k) o := by
  unfold endTask
  split
  · exact .refl h
  · next c hk =>
    split_ifs with hok
    · have hu : c.unfinished = true := by
        unfold Call.unfinished
        refine decide_eq_true ?_
        intro hst
        unfold Call.hasGlobalSlot Call.running at hok
        rw [hst] at hok
        simp at hok
      exact .goesOn h hk (.stage c hu (by decide) (fun _ => .inr rfl) fun _ => Call.kept_of_ran rfl)
    · exact .refl h

theorem finish_turn (h : m.Inv codec) (k : Nat) : Turn codec m (m.finish k) o := by
  refine ⟨h.finish k, ?_, ?_, ?_⟩
  · unfold finish
    split
    · exact fun _ hend => hend
    · split_ifs
      · exact modify_ended fun _ => rfl
      · exact fun _ hend => hend
  · unfold finish
    split
    · exact id
    · split_ifs
      · exact id
      · exact id
  · unfold finish
    split
    · exact .inl rfl
    · split_ifs
      · exact .inl rfl
      · exact .inl rfl

theorem createGrant_turn (h : m.Inv codec) (r : GrantRequest) : Turn codec m (m.createGrant o r).2 o := by
  unfold createGrant
  split
  · exact .refl h
  · next names _ =>
    have hold {i : Nat} {g g' : Grant φ} (hg : m.grants[i]? = some g) : (m.grants ++ [g'])[i]? = some g := by
      rw [List.getElem?_append_left (List.getElem?_eq_some_iff.1 hg).1]
      exact hg
    refine ⟨⟨h.pending, h.pendingLe, h.bytes, h.bytesLe, ?_, h.keys, ?_, h.once, h.kept, h.ran⟩,
      fun i ⟨g, hg, hend⟩ => ⟨g, hold hg, hend⟩, id, .inl rfl⟩
    · intro i g hg
      rcases Nat.lt_or_ge i m.grants.length with hi | hi
      · rw [List.getElem?_append_left hi] at hg
        exact h.grants i g hg
      · -- No call is of the grant that is new.
        rw [List.getElem?_append_right hi] at hg
        obtain rfl : _ = g := List.mem_singleton.1 (List.mem_of_getElem? hg) |>.symm
        have hzero : tally (Call.oneOf i) m.calls = tally (fun _ => 0) m.calls := by
          unfold tally
          refine congrArg List.sum (List.map_congr_left fun c hc => if_neg ?_)
          obtain ⟨g₀, hg₀, _⟩ := h.recorded c hc
          have hlt := (List.getElem?_eq_some_iff.1 hg₀).1
          have hne : c.grant ≠ i := by omega
          simp [hne]
        rw [hzero]
        unfold tally
        simp
    · intro c hc
      obtain ⟨g, hg, hrec⟩ := h.recorded c hc
      exact ⟨g, hold hg, hrec⟩

theorem stop_quiet (codec : Codec α φ) (m : Bridge α φ) : Quiet codec m m.stop ∧ m.stop.dispatches = m.dispatches := by
  have hclosed : Quiet codec m { m with closed := true } :=
    ⟨forall₂_refl Call.Same.refl _, forall₂_refl Grant.Same.refl _, rfl, rfl, fun _ => rfl⟩
  obtain ⟨hq, hd⟩ := revokeAll_quiet codec { m with closed := true } fun _ => true
  exact ⟨hclosed.trans hq, hd⟩

theorem next_turn [DecidableEq φ] (h : m.Inv codec) (e : Owner × Event α) : Turn codec m (m.next codec e) e.1 := by
  obtain ⟨o, e⟩ := e
  cases e with
  | createGrant r => exact createGrant_turn h r
  | call token requestId name arguments => exact call_turn h token requestId name arguments
  | cancel token requestId =>
    show Turn codec m (m.cancel o token requestId).2 o
    unfold cancel
    split
    · exact .refl h
    · split
      · exact .quiet h ⟨forall₂_modify Call.Same.refl _ _ Call.cancel_same, forall₂_refl Grant.Same.refl _, rfl, rfl, id⟩ rfl
      · exact .refl h
  | revoke token =>
    show Turn codec m (m.revoke o token).2 o
    unfold revoke
    split
    · exact .refl h
    · exact revoked h token
  | revokeSession sessionKey => exact .quiet h (revokeAll_quiet codec m _).1 (revokeAll_quiet codec m _).2
  | stop => exact .quiet h (stop_quiet codec m).1 (stop_quiet codec m).2
  | expire i => exact revoked h i
  | disconnect w => exact .quiet h ⟨forall₂_refl Call.Same.refl _, forall₂_refl Grant.Same.refl _, rfl, rfl, id⟩ rfl
  | acquire k => exact acquire_turn h k
  | enter k => exact enter_turn h k
  | dispatch k edit => exact dispatch_turn h k edit
  | endTask k => exact endTask_turn h k
  | finish k => exact finish_turn h k

/-- The grants an event is to end have ended. -/
theorem next_withdraws [DecidableEq φ] (m : Bridge α φ) (e : Owner × Event α) : m.Withdraws (m.next codec e) e.1 e.2 := by
  obtain ⟨o, e⟩ := e
  cases e with
  | revoke token =>
    intro g hg
    show (m.revoke o token).2.Ended token
    unfold revoke
    rw [hg]
    exact revokeDigest_ended (grant_ok hg).1
  | revokeSession sessionKey =>
    exact fun i g hg hkey => revokeAll_ended codec hg (decide_eq_true hkey)
  | stop =>
    refine ⟨?_, fun i g hg => revokeAll_ended (m := { m with closed := true }) codec hg rfl⟩
    exact (revokeAll_quiet codec { m with closed := true } fun _ => true).1.closed rfl
  | expire i => exact fun g hg => revokeDigest_ended hg
  | createGrant | call | cancel | disconnect | acquire | enter | dispatch | endTask | finish => trivial

/-! ## Every run -/

theorem Inv.init : Inv codec ({} : Bridge α φ) := by
  refine ⟨rfl, Nat.zero_le _, rfl, Nat.zero_le _, fun i g hg => ?_, List.nodup_nil, List.forall_mem_nil _, List.nodup_nil,
    List.forall_mem_nil _, List.forall_mem_nil _⟩
  simp at hg

theorem Inv.counted (h : m.Inv codec) : m.Counts := by
  refine ⟨?_, h.pendingLe, ?_, h.bytesLe, ?_⟩
  · rw [Tally.countP]
    exact h.pending
  · rw [Tally.filter]
    exact h.bytes
  · intro i g hg
    rw [Tally.countP]
    exact h.grants i g hg

theorem Inv.onceOnly (h : m.Inv codec) : m.Once codec := by
  refine ⟨h.once, ?_⟩
  intro d hd
  obtain ⟨c, hc, hkey, hname, hhanded, hgiven, _⟩ := h.ran d hd
  cases hf : m.calls.find? (·.key = d.key) with
  | none => exact absurd (decide_eq_true hkey) (List.find?_eq_none.1 hf c hc)
  | some c₀ =>
    have hkey₀ : c₀.key = d.key := by simpa using List.find?_some hf
    obtain rfl := h.same_key (List.mem_of_find?_eq_some hf) hc (hkey₀.trans hkey.symm)
    exact ⟨c₀, rfl, hname, hhanded, hgiven⟩

namespace Sample

/-- The arguments are one text, the media path. -/
def plain : Codec String String where
  isObject _ := true
  encode name a := some (name.length + a.length, name ++ ":" ++ a)
  valid _ _ := true
  text a _ := some a
  set _ _ path := path
  scheme _ := some ""
  unwrap _ := none

def owner : Owner :=
  { tools := [("image_analyze", .other)], safeFile := fun path => some ("/work/" ++ path) }

/-- An image is asked for twice and looked at once. -/
def looks : List (Owner × Event String) :=
  [(owner, .createGrant { sessionKey := "cli:direct" }), (owner, .call 0 "r1" "image_analyze" "cat.png"),
    (owner, .acquire 0), (owner, .call 0 "r1" "image_analyze" "cat.png"), (owner, .enter 0),
    ({ owner with safeFile := some }, .dispatch 0 id)]

def revokes : List (Owner × Event String) :=
  looks ++ [(owner, .revoke 0), (owner, .endTask 0), (owner, .finish 0)]

def run (es : List (Owner × Event String)) : Bridge String String := es.foldl (next plain) {}

theorem reach_run (es : List (Owner × Event String)) : Reach (next plain) (fun _ _ => True) {} (run es) :=
  Reach.free es _

end Sample

end Bridge

end Flowly.Mcp
