/-
  Flowly.Flowlets.Exprs — the expressions of a flowlet (`flowly/flowlets/queries.py`:
  `_BIN_OPS`, `_UNARY_OPS`, `_CMP_OPS`, `_FUNCS`, `eval_expr` and the date functions).

  An expression is parsed. Python's numbers are a parameter, with the operations that the
  evaluator takes from `operator` and `math`: which of them raise on what is up to them.

  Proved: what an expression evaluates to, or that it raises, stays so in a namespace with more
  names; it only ever waits for names that it has (`evalNode_keeps`).
-/

import Flowly.Flowlets.Series
import Flowly.Lib.Deferred

namespace Flowly.Flowlets.Exprs

open Flowly.Lib Flowly.Lib.Deferred

/-! ## Syntax -/

/-- `_BIN_OPS`, and any other operator. -/
inductive BinOp where
  | add
  | sub
  | mult
  | div
  | mod
  | pow
  | floorDiv
  | other (name : String)

/-- `_UNARY_OPS`, `not`, and any other operator. -/
inductive UnaryOp where
  | uadd
  | usub
  | not
  | other (name : String)

/-- `_CMP_OPS`, and any other comparison. -/
inductive CmpOp where
  | lt
  | ltE
  | gt
  | gtE
  | eq
  | notEq
  | other (name : String)

inductive BoolOp where
  | and
  | or
  deriving DecidableEq

/-- `_FUNCS` and `_DATE_FUNCS`, and any other name. -/
inductive Func where
  | min
  | max
  | abs
  | round
  | floor
  | ceil
  | now
  | weekday
  | daysUntil
  | daysSince
  | other (name : String)
  deriving DecidableEq

/-- A node of `ast.parse(expr)`, over the numbers `N`. -/
inductive Node (N : Type) where
  | binOp (op : BinOp) (left right : Node N)
  | unaryOp (op : UnaryOp) (operand : Node N)
  | compare (left : Node N) (ops : List CmpOp) (comparators : List (Node N))
  | boolOp (op : BoolOp) (values : List (Node N))
  /-- The function is none when it is not a name. -/
  | call (func : Option Func) (args : List (Node N)) (keywords : Bool)
  | name (id : String)
  | number (value : N)
  | text (value : String)
  /-- Any other constant or node, with the name of its type. -/
  | other (type : String)

/-! ## Values -/

/-- A value of `values`, and of a row. -/
inductive Value (N : Type) where
  | null
  | bool (b : Bool)
  | num (x : N)
  | str (s : String)
  | timer (running : Bool) (elapsed : N)
  | rows (items : List (List (String × Value N)))

abbrev Namespace (N : Type) := Values String (Value N)

inductive OpFault where
  | zeroDivision
  | other

structure Numbers (N : Type) where
  /-- `float` of an integer that a float can hold. -/
  ofInt : Int → N
  /-- `x == 0`. -/
  isZero : N → Bool
  /-- `isinstance(x, (int, float))`. -/
  real : N → Bool
  binOp : BinOp → N → N → Except OpFault N
  pos : N → N
  neg : N → N
  cmp : CmpOp → N → N → Option Bool
  abs : N → Option N
  /-- `round_half_away`. -/
  round : N → N → Option N
  /-- `float(math.floor(x))`. -/
  floor : N → Option N
  ceil : N → Option N
  /-- `int`. -/
  toInt : N → Option Int
  /-- `float`. -/
  toFloat : N → Option N
  /-- `sum` of floats, and it divided by how many they are. -/
  sum : List N → N
  mean : List N → N
  /-- `_clean_number`. -/
  clean : N → N
  /-- A number as `_fmt_value` writes it without a locale. -/
  plain : N → Option String
  /-- The same with the thousands set apart by commas. -/
  grouped : N → Option String
  /-- `str` of anything but a number. -/
  str : Value N → String

namespace Numbers

variable {N : Type} (num : Numbers N)

/-- `1.0 if b else 0.0`. -/
def ofBool (b : Bool) : N := num.ofInt (if b then 1 else 0)

end Numbers

def raised {α : Type} : Option α → Except Fault α
  | some a => .ok a
  | none => .error .raises

/-! ## Dates -/

def isLeap (y : Nat) : Bool := y % 4 = 0 ∧ (y % 100 ≠ 0 ∨ y % 400 = 0)

def daysInMonths (y : Nat) : List Nat := [31, if isLeap y then 29 else 28, 31, 30, 31, 30, 31, 31, 30, 31, 30, 31]

def EPOCH_ORD : Int := 719163

def toOrdinal (y m d : Nat) : Option Int :=
  if 1 ≤ y ∧ 1 ≤ m ∧ m ≤ 12 ∧ 1 ≤ d ∧ d ≤ (daysInMonths y).getD (m - 1) 0 then
    some ((y - 1) * 365 + (y - 1) / 4 - (y - 1) / 100 + (y - 1) / 400 + ((daysInMonths y).take (m - 1)).sum + d : Nat)
  else none

def daynumFromStr (s : String) : Except Fault Int :=
  match Text.strip s.toList with
  | [y₁, y₂, y₃, y₄, '-', m₁, m₂, '-', d₁, d₂] =>
    match Text.ofDecimals [y₁, y₂, y₃, y₄], Text.ofDecimals [m₁, m₂], Text.ofDecimals [d₁, d₂] with
    | some y, some m, some d =>
      match toOrdinal y m d with
      | some n => .ok (n - EPOCH_ORD)
      | none => .error .waits
    | _, _, _ => .error .waits
  | _ => .error .waits

/-! ## Evaluation -/

section Eval

variable {N : Type} (num : Numbers N) (z : Series.Zone) (ns : Namespace N)

def evalName (id : String) : Except Fault N :=
  match ns id with
  | some (.bool b) => .ok (num.ofBool b)
  | some (.num x) => if num.real x then .ok x else .error .waits
  | _ => .error .waits

/-- `min` and `max` of a list. -/
def extremum (op : CmpOp) (best : N) : List N → Option N
  | [] => some best
  | x :: rest => (num.cmp op x best).bind fun better => extremum op (if better then x else best) rest

/-- `_FUNCS[fn](*args)`; one argument to `min` or `max` is no iterable. -/
def callFunc : Func → List N → Option N
  | .min, x :: y :: rest => extremum num .lt x (y :: rest)
  | .max, x :: y :: rest => extremum num .gt x (y :: rest)
  | .abs, [x] => num.abs x
  | .round, [x] => num.round x (num.ofInt 0)
  | .round, [x, ndigits] => num.round x ndigits
  | .floor, [x] => num.floor x
  | .ceil, [x] => num.ceil x
  | _, _ => none

def Func.isDate : Func → Bool
  | .now | .weekday | .daysUntil | .daysSince => true
  | _ => false

def dateArg : List (Node N) → Except Fault String
  | .text s :: _ => .ok s
  | .name id :: _ =>
    match ns id with
    | some (.str s) => .ok s
    | _ => .error .waits
  | [] => .error .raises
  | _ => .error .waits

/-- `__now__`. -/
def nowMs : Except Fault Int :=
  match ns "__now__" with
  | some (.num x) => if num.real x then raised (num.toInt x) else .error .waits
  | _ => .error .waits

def evalDateFn (fn : Func) (args : List (Node N)) : Except Fault N := do
  let now ← nowMs num ns
  match fn with
  | .now => .ok (num.ofInt now)
  | .weekday => .ok (num.ofInt ((z.date now + 3) % 7))
  | fn =>
    let delta := (← daynumFromStr (← dateArg ns args)) - z.date now
    .ok (num.ofInt (if fn = .daysUntil then delta else -delta))

/-- `_BIN_OPS[op](left, right)`. -/
def applyBinOp (op : BinOp) (left right : N) : Except Fault N :=
  match num.binOp op left right with
  | .ok v => .ok v
  | .error .zeroDivision => .ok (num.ofInt 0)
  | .error .other => .error .raises

/-- `_UNARY_OPS[op](x)`, and `not`. -/
def applyUnaryOp (x : N) : UnaryOp → Except Fault N
  | .not => .ok (num.ofBool (num.isZero x))
  | .uadd => .ok (num.pos x)
  | .usub => .ok (num.neg x)
  | .other _ => .error .raises

mutual

def evalNode : Node N → Except Fault N
  | .binOp op left right => do
    let left ← evalNode left
    let right ← evalNode right
    applyBinOp num op left right
  | .unaryOp op operand => do applyUnaryOp num (← evalNode operand) op
  | .compare left ops comparators => do evalChain (← evalNode left) ops comparators
  | .boolOp op values => evalBool op values
  | .call none _ _ => .error .raises
  | .call (some fn) args _ =>
    if fn.isDate then evalDateFn num z ns fn args
    else do raised (callFunc num fn (← evalArgs args))
  | .name id => evalName num ns id
  | .number value => .ok value
  | .text _ | .other _ => .error .raises

def evalChain (left : N) : List CmpOp → List (Node N) → Except Fault N
  | op :: ops, comp :: comparators => do
    let right ← evalNode comp
    if ← raised (num.cmp op left right) then evalChain right ops comparators else .ok (num.ofBool false)
  | _, _ => .ok (num.ofBool true)

/-- `and` and `or`, as far as they are open. -/
def evalBool (op : BoolOp) : List (Node N) → Except Fault N
  | [] => .ok (num.ofBool (op = .and))
  | v :: values => do
    if num.isZero (← evalNode v) = decide (op = .and) then .ok (num.ofBool (op = .or)) else evalBool op values

def evalArgs : List (Node N) → Except Fault (List N)
  | [] => .ok []
  | a :: args => do
    let x ← evalNode a
    return x :: (← evalArgs args)

end

end Eval

/-! ## Names -/

mutual

def Node.names {N : Type} : Node N → List String
  | .binOp _ left right => left.names ++ right.names
  | .unaryOp _ operand => operand.names
  | .compare left _ comparators => left.names ++ namesAll comparators
  | .boolOp _ values => namesAll values
  | .call _ args _ => "__now__" :: namesAll args
  | .name id => [id]
  | .number _ | .text _ | .other _ => []

def namesAll {N : Type} : List (Node N) → List String
  | [] => []
  | a :: args => a.names ++ namesAll args

end

/-- A result that says the same as one, unless that one waits. -/
def Keeps {α : Type} (r r' : Except Fault α) : Prop := r = .error .waits ∨ r' = r

theorem Keeps.refl {α : Type} (r : Except Fault α) : Keeps r r := .inr rfl

theorem Keeps.waits {α : Type} (r : Except Fault α) : Keeps (.error .waits) r := .inl rfl

theorem Keeps.bind {α β : Type} {r r' : Except Fault α} {f f' : α → Except Fault β} (h : Keeps r r')
    (hf : ∀ a, r = .ok a → Keeps (f a) (f' a)) : Keeps (r >>= f) (r' >>= f') := by
  rcases h with rfl | rfl
  · exact .waits _
  · cases r' with
    | ok a => exact hf a rfl
    | error fault => exact .refl _

theorem Keeps.antisymm {α : Type} {r r' : Except Fault α} (h : Keeps r r') (h' : Keeps r' r) : r = r' := by
  rcases h with rfl | rfl
  · rcases h' with h' | h'
    · exact h'.symm
    · exact h'
  · rfl

theorem Keeps.map {α β : Type} {r r' : Except Fault α} (h : Keeps r r') (f : α → β) : Keeps (f <$> r) (f <$> r') := by
  rcases h with rfl | rfl
  · exact .waits _
  · exact .refl _

theorem Keeps.eq_of_ne {α : Type} {r r' : Except Fault α} (h : Keeps r r') (hr : r ≠ .error .waits) : r' = r :=
  h.resolve_left hr

/-- The second namespace has at these names what the first one has. -/
def Has {N : Type} (ns ns' : Namespace N) (names : List String) : Prop := ∀ n ∈ names, ∀ v, ns n = some v → ns' n = some v

section Keep

variable {N : Type} {num : Numbers N} {z : Series.Zone} {ns ns' : Namespace N}

theorem Has.left {l l' : List String} (h : Has ns ns' (l ++ l')) : Has ns ns' l := fun n hn => h n (List.mem_append_left _ hn)

theorem Has.right {l l' : List String} (h : Has ns ns' (l ++ l')) : Has ns ns' l' := fun n hn => h n (List.mem_append_right _ hn)

theorem Has.head {n : String} {l : List String} (h : Has ns ns' (n :: l)) {v : Value N} (hv : ns n = some v) : ns' n = some v :=
  h n List.mem_cons_self v hv

theorem Has.tail {n : String} {l : List String} (h : Has ns ns' (n :: l)) : Has ns ns' l :=
  fun m hm => h m (List.mem_cons_of_mem _ hm)

theorem Has.update {k : String} (v : Value N) (hk : ns k = none) (l : List String) : Has ns (Function.update ns k (some v)) l := by
  intro n _ w hw
  rw [Function.update_of_ne, hw]
  rintro rfl
  cases hk.symm.trans hw

theorem evalName_keeps {id : String} (h : Has ns ns' [id]) : Keeps (evalName num ns id) (evalName num ns' id) := by
  cases hv : ns id with
  | none => exact .inl (by simp [evalName, hv])
  | some v => exact .inr (by simp [evalName, hv, h.head hv])

theorem nowMs_keeps {l : List String} (h : Has ns ns' ("__now__" :: l)) : Keeps (nowMs num ns) (nowMs num ns') := by
  cases hv : ns "__now__" with
  | none => exact .inl (by simp [nowMs, hv])
  | some v => exact .inr (by simp [nowMs, hv, h.head hv])

theorem dateArg_keeps {args : List (Node N)} (h : Has ns ns' (namesAll args)) : Keeps (dateArg ns args) (dateArg ns' args) := by
  unfold dateArg
  split
  · exact .refl _
  · next id _ =>
    rw [namesAll, Node.names] at h
    cases hv : ns id with
    | none => exact .waits _
    | some v =>
      rw [h.head hv]
      exact .refl _
  · exact .refl _
  · exact .refl _

theorem evalDateFn_keeps (fn : Func) {args : List (Node N)} (h : Has ns ns' ("__now__" :: namesAll args)) :
    Keeps (evalDateFn num z ns fn args) (evalDateFn num z ns' fn args) := by
  refine (nowMs_keeps h).bind fun now _ => ?_
  split
  · exact .refl _
  · exact .refl _
  · exact (dateArg_keeps h.tail).bind fun _ _ => .refl _

mutual

/-- An expression keeps its value where the names that it looks at keep theirs. -/
theorem evalNode_keeps (e : Node N) (h : Has ns ns' e.names) : Keeps (evalNode num z ns e) (evalNode num z ns' e) := by
  match e with
  | .binOp op left right =>
    rw [Node.names] at h
    rw [evalNode, evalNode]
    exact (evalNode_keeps left h.left).bind fun _ _ => (evalNode_keeps right h.right).bind fun _ _ => .refl _
  | .unaryOp op operand =>
    rw [Node.names] at h
    rw [evalNode, evalNode]
    exact (evalNode_keeps operand h).bind fun _ _ => .refl _
  | .compare left ops comparators =>
    rw [Node.names] at h
    rw [evalNode, evalNode]
    exact (evalNode_keeps left h.left).bind fun l _ => evalChain_keeps l ops comparators h.right
  | .boolOp op values =>
    rw [Node.names] at h
    rw [evalNode, evalNode]
    exact evalBool_keeps op values h
  | .call none _ _ => exact .inr (by rw [evalNode, evalNode])
  | .call (some fn) args _ =>
    rw [Node.names] at h
    rw [evalNode, evalNode]
    split
    · exact evalDateFn_keeps fn h
    · exact (evalArgs_keeps args h.tail).bind fun _ _ => .refl _
  | .name id =>
    rw [Node.names] at h
    rw [evalNode, evalNode]
    exact evalName_keeps h
  | .number _ | .text _ | .other _ => exact .inr (by rw [evalNode, evalNode])

theorem evalChain_keeps (left : N) (ops : List CmpOp) (comparators : List (Node N)) (h : Has ns ns' (namesAll comparators)) :
    Keeps (evalChain num z ns left ops comparators) (evalChain num z ns' left ops comparators) := by
  match ops, comparators with
  | op :: ops, comp :: comparators =>
    rw [namesAll] at h
    rw [evalChain, evalChain]
    refine (evalNode_keeps comp h.left).bind fun right _ => (Keeps.refl _).bind fun b _ => ?_
    split
    · exact evalChain_keeps right ops comparators h.right
    · exact .refl _
  | [], _ => exact .inr (by rw [evalChain, evalChain] <;> simp)
  | _ :: _, [] => exact .inr (by rw [evalChain, evalChain] <;> simp)

theorem evalBool_keeps (op : BoolOp) (values : List (Node N)) (h : Has ns ns' (namesAll values)) :
    Keeps (evalBool num z ns op values) (evalBool num z ns' op values) := by
  match values with
  | [] => exact .inr (by rw [evalBool, evalBool])
  | v :: values =>
    rw [namesAll] at h
    rw [evalBool, evalBool]
    refine (evalNode_keeps v h.left).bind fun x _ => ?_
    split
    · exact .refl _
    · exact evalBool_keeps op values h.right

theorem evalArgs_keeps (args : List (Node N)) (h : Has ns ns' (namesAll args)) :
    Keeps (evalArgs num z ns args) (evalArgs num z ns' args) := by
  match args with
  | [] => exact .inr (by rw [evalArgs, evalArgs])
  | a :: args =>
    rw [namesAll] at h
    rw [evalArgs, evalArgs]
    exact (evalNode_keeps a h.left).bind fun _ _ => (evalArgs_keeps args h.right).bind fun _ _ => .refl _

end

end Keep

end Flowly.Flowlets.Exprs
