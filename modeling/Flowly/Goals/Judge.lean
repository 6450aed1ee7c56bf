/-
  Flowly.Goals.Judge — what the judge's reply comes to (`flowly/goals/judge.py`:
  `parse_judge_result`; `flowly/goals/manager.py`: `_pid_is_alive`).

  The reply is text with a JSON object somewhere in it, and any field of the object may
  hold any value. A reply is unusable as a parse error, or it is a verdict with a reason,
  and a wait with one target, which `set_wait` takes and `waiting_state` can test: so it
  is, except where `int` overflows on an infinite number, and where the one target is a
  process id that the operating system has no room for (`judge_answers_iff`).
-/

import Mathlib.Algebra.Group.Int.Defs
import Mathlib.Data.Rat.Defs
import Flowly.Goals.Evaluation

namespace Flowly.Goals

open Flowly.Lib

inductive PyFloat where
  | nan
  | inf (negative : Bool)
  | finite (q : Rat)

/-- What `json.loads` gives, with `NaN` and `Infinity`. An integer has at most as many
    digits as `str` prints. -/
inductive Value where
  | null
  | bool (b : Bool)
  | int (n : Int)
  | float (x : PyFloat)
  | str (s : String)
  | arr (l : List Value)
  | obj (fs : List (String × Value))

/-- Built-in functions of the language. -/
structure Builtins where
  /-- `raw_decode`; `none` where it raises a `JSONDecodeError`. -/
  rawDecode : Text → Option Value
  /-- `str.casefold`. -/
  casefold : Text → Text
  /-- `str` of a value that is no string. -/
  repr : Value → Text
  /-- `int` of a text; `none` where it raises a `ValueError`. -/
  int : Text → Option Int

/-- What `int(value)` does. -/
inductive ToInt where
  | value (n : Int)
  /-- A `TypeError` or a `ValueError`. -/
  | invalid
  | overflowError

inductive Raised where
  /-- `GoalJudgeParseError`. -/
  | judgeParse (message : String)
  | overflowError
  deriving DecidableEq

abbrev Fields := List (String × Value)

/-- `data.get(key)`. -/
def Fields.get (fields : Fields) (key : String) : Value := (fields.lookup key).getD .null

def Value.isNull : Value → Bool
  | .null => true
  | _ => false

/-- `bool(value)`. -/
def Value.truthy : Value → Bool
  | .null => false
  | .bool b => b
  | .int n => n ≠ 0
  | .float (.finite q) => q ≠ 0
  | .float _ => true
  | .str s => s ≠ ""
  | .arr l => !l.isEmpty
  | .obj fs => !fs.isEmpty

namespace Builtins

/-- `str(value or "").strip()`. -/
def text (b : Builtins) (v : Value) : Text :=
  if v.truthy then Text.strip (match v with | .str s => s.toList | v => b.repr v) else []

def toInt (b : Builtins) : Value → ToInt
  | .bool true => .value 1
  | .bool false => .value 0
  | .int n => .value n
  | .float (.finite q) => .value (q.num.tdiv q.den)
  | .float .nan => .invalid
  | .float (.inf _) => .overflowError
  | .str s => match b.int s.toList with | some n => .value n | none => .invalid
  | .null | .arr _ | .obj _ => .invalid

end Builtins

/-! ## The reply -/

def unfenced (text : Text) : Text :=
  let candidate := Text.strip text
  if Text.startsWith candidate "```".toList then
    let lines := (Text.splitLines candidate).drop 1
    let lines :=
      if lines.getLast?.any fun l => Text.startsWith (Text.strip l) "```".toList then lines.dropLast else lines
    Text.strip (Text.join "\n".toList lines)
  else candidate

def decodeObject (b : Builtins) : Text → Option Fields
  | [] => none
  | c :: t =>
    if c = '\x7b' then
      match b.rawDecode (c :: t) with
      | some (.obj fields) => some fields
      | _ => decodeObject b t
    else decodeObject b t

def firstJsonObject (b : Builtins) (text : Text) : Option Fields := decodeObject b (unfenced text)

def GoalVerdict.value : GoalVerdict → String
  | .done => "done"
  | .continues => "continue"
  | .needsInput => "needs_input"
  | .wait => "wait"
  | .inactive => "inactive"
  | .skipped => "skipped"
  | .gateFailed => "gate_failed"
  | .waiting => "waiting"

def judgeVerdicts : List GoalVerdict := [.done, .continues, .needsInput, .wait]

/-- The verdict of a reply, also in its legacy shape. -/
def verdictOf (b : Builtins) (fields : Fields) : Option GoalVerdict :=
  let raw := fields.get "verdict"
  let raw :=
    match raw, fields.get "done" with
    | .null, .bool done => .str (if done then "done" else "continue")
    | raw, _ => raw
  judgeVerdicts.find? fun v => v.value.toList = b.casefold (b.text raw)

def reasonOf (b : Builtins) (fields : Fields) (verdict : GoalVerdict) : String :=
  let reason := (b.text (fields.get "reason")).take maxReasonChars
  if reason = [] then "judge returned " ++ verdict.value else String.ofList reason

def maxWaitSeconds : Int := 7 * 24 * 60 * 60

def sessionTarget (b : Builtins) (fields : Fields) : List WaitTarget :=
  let id := b.text (fields.get "wait_on_session")
  if id = [] then [] else [.session (String.ofList (id.take 1000))]

def numberTarget (b : Builtins) (v : Value) (inRange : Int → Bool) (target : Int → WaitTarget) (invalid outside : String) :
    Except Raised (List WaitTarget) :=
  if v.isNull then .ok []
  else match b.toInt v with
    | .overflowError => .error .overflowError
    | .invalid => .error (.judgeParse invalid)
    | .value n => if inRange n then .ok [target n] else .error (.judgeParse outside)

def pidTarget (b : Builtins) (fields : Fields) : Except Raised (List WaitTarget) :=
  numberTarget b (fields.get "wait_on_pid") (0 < ·) .pid "wait_on_pid must be a positive integer"
    "wait_on_pid must be a positive integer"

def secondsTarget (b : Builtins) (fields : Fields) : Except Raised (List WaitTarget) :=
  numberTarget b (fields.get "wait_for_seconds") (fun n => 0 < n ∧ n ≤ maxWaitSeconds) .time
    "wait_for_seconds must be a positive integer" "wait_for_seconds is outside the supported range"

def waitTarget (b : Builtins) (fields : Fields) : Except Raised WaitTarget := do
  let session := sessionTarget b fields
  let pid ← pidTarget b fields
  let seconds ← secondsTarget b fields
  match session ++ pid ++ seconds with
  | [target] => return target
  | _ => throw (.judgeParse "wait verdict must contain exactly one wait target")

def parseJudgeResult (b : Builtins) (text : Text) : Except Raised GoalJudgeResult := do
  let some fields := firstJsonObject b text | throw (.judgeParse "judge reply did not contain a JSON object")
  let some verdict := verdictOf b fields
    | throw (.judgeParse "judge verdict must be done, continue, needs_input, or wait")
  let reason := reasonOf b fields verdict
  if verdict ≠ .wait then return { verdict, reason }
  return { verdict, reason, wait := some (← waitTarget b fields) }

/-! ## Testing a target -/

/-- What `os.kill(pid, 0)` does with a process id it can pass on. -/
inductive Kill where
  | delivered
  | processLookupError
  | permissionError
  | osError

def Kill.alive : Kill → Bool
  | .delivered | .permissionError => true
  | .processLookupError | .osError => false

def pidIsAlive (kill : Int → Kill) (pid : Int) : Except Raised Bool :=
  if pid < -2 ^ 31 ∨ 2 ^ 31 ≤ pid then .error .overflowError
  else .ok (kill pid).alive

/-- The test of `waiting_state`. -/
def testWait (kill : Int → Kill) (o : Outside) (w : Wait) : Except Raised Bool :=
  match w.target with
  | .pid pid => pidIsAlive kill pid
  | .session id => .ok (o.sessionIsWaiting id)
  | .time deadline => .ok (o.now < deadline)

/-! ## When a reply is answered -/

/-- What `_apply_judge_result` makes of a target. -/
def deadlineAt (now : Int) : WaitTarget → WaitTarget
  | .time seconds => .time (now + seconds)
  | target => target

/-- The wait has one target, which `set_wait` takes and `waiting_state` can test. -/
def Waits (r : GoalJudgeResult) : Prop :=
  ∃ target, r.wait = some target ∧ ∀ (state : GoalState) (now : Int), ∃ w,
    state.setWait now (deadlineAt now target) r.reason = .ok { state with wait := some w } ∧
      ∀ kill o, ∃ answer, testWait kill o w = .ok answer

/-- A parse error, or a verdict with a reason and what belongs to it. -/
def Answers : Except Raised GoalJudgeResult → Prop
  | .error (.judgeParse _) => True
  | .error .overflowError => False
  | .ok r => r.verdict ∈ judgeVerdicts ∧ r.reason ≠ "" ∧ (r.verdict = .wait → Waits r)

/-- A wait's fields have no infinite number that is converted, and name no process id that
    is out of range, if they name nothing else. -/
structure Representable (b : Builtins) (fields : Fields) : Prop where
  pid : b.toInt (fields.get "wait_on_pid") ≠ .overflowError
  seconds : (fields.get "wait_on_pid").isNull ∨ (∃ n, b.toInt (fields.get "wait_on_pid") = .value n ∧ 0 < n) →
    b.toInt (fields.get "wait_for_seconds") ≠ .overflowError
  inRange : b.text (fields.get "wait_on_session") = [] → (fields.get "wait_for_seconds").isNull →
    ∀ n, b.toInt (fields.get "wait_on_pid") = .value n → n < 2 ^ 31

section
variable {b : Builtins} {fields : Fields} {v : Value} {inRange : Int → Bool} {target : Int → WaitTarget}
  {invalid outside : String}

theorem toInt_of_isNull (h : v.isNull) : b.toInt v = .invalid := by
  cases v <;> first | rfl | cases h

theorem numberTarget_ok {l : List WaitTarget} : numberTarget b v inRange target invalid outside = .ok l ↔
    v.isNull ∧ l = [] ∨ ∃ n, b.toInt v = .value n ∧ inRange n ∧ l = [target n] := by
  unfold numberTarget
  split
  · rename_i hnull
    constructor
    · rintro ⟨⟩
      exact .inl ⟨hnull, rfl⟩
    · rintro (⟨-, rfl⟩ | ⟨n, hn, -⟩)
      · rfl
      · rw [toInt_of_isNull hnull] at hn
        cases hn
  · rename_i hnull
    cases hint : b.toInt v with
    | overflowError => simp [hnull]
    | invalid => simp [hnull]
    | value n =>
      constructor
      · intro h
        dsimp only at h
        split at h
        · rename_i hrange
          cases h
          exact .inr ⟨n, rfl, hrange, rfl⟩
        · cases h
      · rintro (⟨hv, -⟩ | ⟨m, hm, hrange, rfl⟩)
        · exact absurd hv hnull
        · cases hm
          exact if_pos hrange

theorem numberTarget_overflow :
    numberTarget b v inRange target invalid outside = .error .overflowError ↔ b.toInt v = .overflowError := by
  unfold numberTarget
  split
  · rename_i hnull
    rw [toInt_of_isNull hnull]
    exact ⟨nofun, nofun⟩
  · cases hint : b.toInt v with
    | overflowError => simp
    | invalid => simp
    | value n =>
      dsimp only
      split <;> exact ⟨nofun, nofun⟩

theorem pidTarget_ok : (∃ l, pidTarget b fields = .ok l) ↔ (fields.get "wait_on_pid").isNull ∨
    ∃ n, b.toInt (fields.get "wait_on_pid") = .value n ∧ 0 < n := by
  simp only [pidTarget, numberTarget_ok]
  constructor
  · rintro ⟨l, ⟨hnull, -⟩ | ⟨n, hn, hpos, -⟩⟩
    · exact .inl hnull
    · exact .inr ⟨n, hn, of_decide_eq_true hpos⟩
  · rintro (hnull | ⟨n, hn, hpos⟩)
    · exact ⟨[], .inl ⟨hnull, rfl⟩⟩
    · exact ⟨[.pid n], .inr ⟨n, hn, decide_eq_true hpos, rfl⟩⟩

theorem waitTarget_overflow : waitTarget b fields = .error .overflowError ↔
    b.toInt (fields.get "wait_on_pid") = .overflowError ∨
      (∃ l, pidTarget b fields = .ok l) ∧ b.toInt (fields.get "wait_for_seconds") = .overflowError := by
  rw [← numberTarget_overflow (v := fields.get "wait_on_pid"), ← numberTarget_overflow (v := fields.get "wait_for_seconds")]
  change _ ↔ pidTarget b fields = _ ∨ _ ∧ secondsTarget b fields = _
  unfold waitTarget
  rcases pidTarget b fields with e | pid
  · refine ⟨fun h => .inl (Except.error.inj h ▸ rfl), ?_⟩
    rintro (h | ⟨⟨l, hl⟩, -⟩)
    · rw [h]
      rfl
    · cases hl
  rcases secondsTarget b fields with e | seconds
  · refine ⟨fun h => .inr ⟨⟨pid, rfl⟩, Except.error.inj h ▸ rfl⟩, ?_⟩
    rintro (h | ⟨-, h⟩)
    · cases h
    · rw [h]
      rfl
  · constructor
    · intro h
      dsimp only [bind, Except.bind] at h
      split at h <;> cases h
    · rintro (h | ⟨-, h⟩) <;> cases h

theorem waitTarget_ok {t : WaitTarget} : waitTarget b fields = .ok t ↔ ∃ pid seconds,
    pidTarget b fields = .ok pid ∧ secondsTarget b fields = .ok seconds ∧ sessionTarget b fields ++ pid ++ seconds = [t] := by
  unfold waitTarget
  simp only [Checked.bind_ok]
  constructor
  · rintro ⟨pid, hpid, seconds, hseconds, h⟩
    refine ⟨pid, seconds, hpid, hseconds, ?_⟩
    split at h
    · rename_i target hone
      rw [hone, Checked.pure_ok.1 h]
    · cases h
  · rintro ⟨pid, seconds, hpid, hseconds, hone⟩
    exact ⟨pid, hpid, seconds, hseconds, by rw [hone]; rfl⟩

theorem sessionTarget_cases (b : Builtins) (fields : Fields) :
    b.text (fields.get "wait_on_session") = [] ∧ sessionTarget b fields = [] ∨
      b.text (fields.get "wait_on_session") ≠ [] ∧
        sessionTarget b fields = [.session (String.ofList ((b.text (fields.get "wait_on_session")).take 1000))] := by
  unfold sessionTarget
  by_cases h : b.text (fields.get "wait_on_session") = []
  · exact .inl ⟨h, if_pos h⟩
  · exact .inr ⟨h, if_neg h⟩

/-- Where the target of a wait comes from. -/
theorem waitTarget_cases {t : WaitTarget} (h : waitTarget b fields = .ok t) :
    (b.text (fields.get "wait_on_session") ≠ [] ∧
      t = .session (String.ofList ((b.text (fields.get "wait_on_session")).take 1000))) ∨
    (∃ n, 0 < n ∧ t = .pid n ∧ b.toInt (fields.get "wait_on_pid") = .value n ∧
      b.text (fields.get "wait_on_session") = [] ∧ (fields.get "wait_for_seconds").isNull) ∨
    (∃ n, 0 < n ∧ t = .time n ∧ ¬ (fields.get "wait_for_seconds").isNull) := by
  obtain ⟨pid, seconds, hpid, hseconds, hone⟩ := waitTarget_ok.1 h
  obtain ⟨hblank, hsession⟩ | ⟨hsome, hsession⟩ := sessionTarget_cases b fields
  · rw [hsession, List.nil_append] at hone
    obtain ⟨-, rfl⟩ | ⟨n, hn, hpos, rfl⟩ := numberTarget_ok.1 hpid
    · obtain ⟨-, rfl⟩ | ⟨n, hn, hpos, rfl⟩ := numberTarget_ok.1 hseconds
      · cases hone
      · obtain rfl := (List.cons.inj hone).1
        refine .inr (.inr ⟨n, (of_decide_eq_true hpos).1, rfl, fun hnull => ?_⟩)
        rw [toInt_of_isNull hnull] at hn
        cases hn
    · obtain ⟨hnull, rfl⟩ | ⟨m, -, -, rfl⟩ := numberTarget_ok.1 hseconds
      · obtain rfl := (List.cons.inj hone).1
        exact .inr (.inl ⟨n, of_decide_eq_true hpos, rfl, hn, hblank, hnull⟩)
      · cases (List.cons.inj hone).2
  · rw [hsession] at hone
    exact .inl ⟨hsome, (List.cons.inj hone).1.symm⟩

variable {r : GoalJudgeResult}

theorem waits_pid {n : Int} (hn : 0 < n) (hw : r.wait = some (.pid n)) : Waits r ↔ n < 2 ^ 31 := by
  have hset : ∀ (state : GoalState) (now : Int), state.setWait now (.pid n) r.reason =
      .ok { state with wait := some { target := .pid n, reason := cleanOptional maxReasonChars (some r.reason), since := now } } :=
    fun state now => if_neg (by omega)
  constructor
  · rintro ⟨target, htarget, hwaits⟩
    obtain rfl := Option.some.inj (hw.symm.trans htarget)
    obtain ⟨w, hset', htest⟩ := hwaits { goal := "", goalId := "" } 0
    have hwait := congrArg GoalState.wait (Except.ok.inj ((hset _ _).symm.trans hset'))
    obtain rfl := Option.some.inj hwait
    obtain ⟨answer, hanswer⟩ := htest (fun _ => .delivered) {}
    by_contra hlarge
    have hraised : testWait (fun _ => .delivered) {} ⟨.pid n, cleanOptional maxReasonChars (some r.reason), 0⟩ =
        .error .overflowError := if_pos (.inr (by omega))
    rw [hraised] at hanswer
    cases hanswer
  · intro hsmall
    refine ⟨.pid n, hw, fun state now => ⟨_, hset state now, fun kill o => ⟨_, if_neg ?_⟩⟩⟩
    omega

theorem waits_time {n : Int} (hn : 0 < n) (hw : r.wait = some (.time n)) : Waits r :=
  ⟨.time n, hw, fun _ now => ⟨_, if_neg (by omega), fun _ _ => ⟨_, rfl⟩⟩⟩

theorem text_strip (b : Builtins) (v : Value) (h : b.text v ≠ []) : ∃ y, b.text v = Text.strip y := by
  unfold Builtins.text at h ⊢
  split at h
  · exact ⟨_, if_pos ‹_›⟩
  · exact absurd rfl h

/-- A session id that is cut is still one after `set_wait` has stripped it. -/
theorem waits_session {v : Value} (hid : b.text v ≠ [])
    (hw : r.wait = some (.session (String.ofList ((b.text v).take 1000)))) : Waits r := by
  obtain ⟨y, hy⟩ := text_strip b v hid
  have hne : Text.strip ((b.text v).take 1000) ≠ [] := by
    rw [hy] at hid ⊢
    exact Text.strip_take_ne_nil hid (by decide)
  have hshort : (Text.strip ((b.text v).take 1000)).length ≤ 1000 :=
    (Text.length_strip_le _).trans (List.length_take_le ..)
  have hclean : cleanText (String.ofList ((b.text v).take 1000)) 1000 "wait session" =
      .ok (String.ofList (Text.strip ((b.text v).take 1000))) := by
    unfold cleanText
    rw [String.toList_ofList]
    exact if_neg (by omega)
  have hnamed : String.ofList (Text.strip ((b.text v).take 1000)) ≠ "" := fun h =>
    hne (by rw [← String.toList_ofList (l := Text.strip _), h]; rfl)
  refine ⟨_, hw, fun state now => ⟨⟨.session (String.ofList (Text.strip ((b.text v).take 1000))),
    cleanOptional maxReasonChars (some r.reason), now⟩, ?_, fun _ _ => ⟨_, rfl⟩⟩⟩
  unfold GoalState.setWait deadlineAt
  dsimp only
  rw [hclean]
  exact if_neg hnamed

theorem verdictOf_mem {verdict : GoalVerdict} (h : verdictOf b fields = some verdict) : verdict ∈ judgeVerdicts := by
  unfold verdictOf at h
  exact List.mem_of_find?_eq_some h

theorem reasonOf_ne (verdict : GoalVerdict) : reasonOf b fields verdict ≠ "" := by
  unfold reasonOf
  dsimp only
  split
  · cases verdict <;> decide
  · rename_i hsome
    intro h
    exact hsome (by rw [← String.toList_ofList (l := List.take _ _), h]; rfl)

/-- What is left of a wait once its target is found. -/
theorem answers_wait (t : WaitTarget) (h : waitTarget b fields = .ok t) :
    Waits { verdict := .wait, reason := reasonOf b fields .wait, wait := some t } ↔ Representable b fields := by
  have hpid : b.toInt (fields.get "wait_on_pid") ≠ .overflowError := fun hover => by
    rw [waitTarget_overflow.2 (.inl hover)] at h
    cases h
  have hseconds : ((fields.get "wait_on_pid").isNull ∨ ∃ n, b.toInt (fields.get "wait_on_pid") = .value n ∧ 0 < n) →
      b.toInt (fields.get "wait_for_seconds") ≠ .overflowError := fun husable hover => by
    rw [waitTarget_overflow.2 (.inr ⟨pidTarget_ok.2 husable, hover⟩)] at h
    cases h
  obtain ⟨hsome, rfl⟩ | ⟨n, hpos, rfl, hn, hblank, hnull⟩ | ⟨n, hpos, rfl, hsome⟩ := waitTarget_cases h
  · exact ⟨fun _ => ⟨hpid, hseconds, fun hblank => absurd hblank hsome⟩, fun _ => waits_session hsome rfl⟩
  · rw [waits_pid hpos rfl]
    refine ⟨fun hsmall => ⟨hpid, hseconds, fun _ _ m hm => ?_⟩, fun hrep => hrep.inRange hblank hnull n hn⟩
    obtain rfl := ToInt.value.inj (hn.symm.trans hm)
    exact hsmall
  · exact ⟨fun _ => ⟨hpid, hseconds, fun _ hnull => absurd hnull hsome⟩, fun _ => waits_time hpos rfl⟩

/-- A wait that is refused as a parse error has no number that overflows. -/
theorem representable_of_parse {message : String} (h : waitTarget b fields = .error (.judgeParse message)) :
    Representable b fields := by
  refine ⟨fun hover => ?_, fun husable hover => ?_, fun hblank hnull n hn => ?_⟩
  · rw [waitTarget_overflow.2 (.inl hover)] at h
    cases h
  · rw [waitTarget_overflow.2 (.inr ⟨pidTarget_ok.2 husable, hover⟩)] at h
    cases h
  · by_contra hlarge
    have hpid : pidTarget b fields = .ok [.pid n] := numberTarget_ok.2 (.inr ⟨n, hn, decide_eq_true (by omega), rfl⟩)
    have hseconds : secondsTarget b fields = .ok [] := numberTarget_ok.2 (.inl ⟨hnull, rfl⟩)
    have hsession : sessionTarget b fields = [] := if_pos hblank
    have hone : waitTarget b fields = .ok (.pid n) := waitTarget_ok.2 ⟨_, _, hpid, hseconds, by rw [hsession]; rfl⟩
    rw [h] at hone
    cases hone

/-- The reply has no verdict that a judge may give. -/
theorem parse_none {text : Text} (hobject : firstJsonObject b text = some fields) (hverdict : verdictOf b fields = none) :
    parseJudgeResult b text = .error (.judgeParse "judge verdict must be done, continue, needs_input, or wait") := by
  simp only [parseJudgeResult, hobject, hverdict]
  rfl

theorem parse_other {text : Text} {verdict : GoalVerdict} (hobject : firstJsonObject b text = some fields)
    (hverdict : verdictOf b fields = some verdict) (hwait : verdict ≠ .wait) :
    parseJudgeResult b text = .ok { verdict, reason := reasonOf b fields verdict } := by
  simp only [parseJudgeResult, hobject, hverdict, ne_eq, hwait, not_false_eq_true, if_true]
  rfl

theorem parse_wait {text : Text} (hobject : firstJsonObject b text = some fields)
    (hverdict : verdictOf b fields = some .wait) : parseJudgeResult b text =
      (waitTarget b fields).map fun t => { verdict := .wait, reason := reasonOf b fields .wait, wait := some t } := by
  simp only [parseJudgeResult, hobject, hverdict, ne_eq, not_true_eq_false, if_false]
  cases waitTarget b fields <;> rfl

theorem answers_parse_wait {text : Text} (hobject : firstJsonObject b text = some fields)
    (hverdict : verdictOf b fields = some .wait) : Answers (parseJudgeResult b text) ↔ Representable b fields := by
  rw [parse_wait hobject hverdict]
  cases htarget : waitTarget b fields with
  | error e =>
    cases e with
    | judgeParse message => exact ⟨fun _ => representable_of_parse htarget, fun _ => trivial⟩
    | overflowError =>
      refine ⟨False.elim, fun hrep => ?_⟩
      obtain hover | ⟨husable, hover⟩ := waitTarget_overflow.1 htarget
      · exact hrep.pid hover
      · exact hrep.seconds (pidTarget_ok.1 husable) hover
  | ok t =>
    constructor
    · exact fun h => (answers_wait t htarget).1 (h.2.2 rfl)
    · have hknown : GoalVerdict.wait ∈ judgeVerdicts := by decide
      exact fun h => ⟨hknown, reasonOf_ne .wait, fun _ => (answers_wait t htarget).2 h⟩

end

/-- Whatever the reply: it is a parse error or a verdict that the goal can take, unless it
    waits on a number that does not fit. -/
theorem judge_answers_iff (b : Builtins) (text : Text) : Answers (parseJudgeResult b text) ↔
    ∀ fields, firstJsonObject b text = some fields → verdictOf b fields = some .wait → Representable b fields := by
  cases hobject : firstJsonObject b text with
  | none =>
    have hparse : parseJudgeResult b text = .error (.judgeParse "judge reply did not contain a JSON object") := by
      simp only [parseJudgeResult, hobject]
      rfl
    rw [hparse]
    exact ⟨fun _ => nofun, fun _ => trivial⟩
  | some fields =>
    by_cases hwait : verdictOf b fields = some .wait
    · rw [answers_parse_wait hobject hwait]
      exact ⟨fun h _ hf _ => Option.some.inj hf ▸ h, fun h => h fields rfl hwait⟩
    · refine ⟨fun _ fields' hf hv => absurd (Option.some.inj hf ▸ hv) hwait, fun _ => ?_⟩
      cases hverdict : verdictOf b fields with
      | none =>
        rw [parse_none hobject hverdict]
        trivial
      | some verdict =>
        have hother : verdict ≠ .wait := fun h => hwait (h ▸ hverdict)
        rw [parse_other hobject hverdict hother]
        exact ⟨verdictOf_mem hverdict, reasonOf_ne verdict, fun h => absurd h hother⟩

namespace Sample

/-- A reply that waits on an infinite process id, and one that waits on the first id that is
    out of range. -/
def infinite : Text := "\x7b\"verdict\":\"wait\",\"wait_on_pid\":1e999\x7d".toList

def outOfRange : Text := "\x7b\"verdict\":\"wait\",\"wait_on_pid\":2147483648\x7d".toList

def python : Builtins where
  rawDecode t :=
    if t = infinite then some (.obj [("verdict", .str "wait"), ("wait_on_pid", .float (.inf false))])
    else if t = outOfRange then some (.obj [("verdict", .str "wait"), ("wait_on_pid", .int 2147483648)])
    else none
  casefold t := t.map Char.toLower
  repr _ := []
  int _ := none

end Sample

/-- `int` raises on the infinite process id; the other one is taken, and cannot be tested. -/
theorem unanswered_replies : parseJudgeResult Sample.python Sample.infinite = .error .overflowError ∧
    ¬ Answers (parseJudgeResult Sample.python Sample.infinite) ∧
    ¬ Answers (parseJudgeResult Sample.python Sample.outOfRange) := by
  have hinfinite : parseJudgeResult Sample.python Sample.infinite = .error .overflowError := by decide
  have hlarge : parseJudgeResult Sample.python Sample.outOfRange =
      .ok { verdict := .wait, reason := "judge returned wait", wait := some (.pid 2147483648) } := by decide
  refine ⟨hinfinite, ?_, ?_⟩
  · rw [hinfinite]
    exact id
  · rw [hlarge]
    intro h
    exact absurd ((waits_pid (by decide) rfl).1 (h.2.2 rfl)) (by decide)

end Flowly.Goals
