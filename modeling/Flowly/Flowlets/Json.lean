/-
  Flowly.Flowlets.Json — a flowlet's definitions, actions and state values: what Python's
  `json.loads` gives, with the few dict and value operations the flowlet code uses.
  A number is an exact rational; Python's rounding is left out.
-/

import Flowly.Lib.Text
import Mathlib.Algebra.Order.Ring.Unbundled.Rat

namespace Flowly.Flowlets

open Flowly.Lib

inductive Json where
  | null
  | bool (b : Bool)
  | num (q : Rat)
  | str (s : String)
  | arr (l : List Json)
  | obj (fs : List (String × Json))

namespace Json

def fields : Json → List (String × Json)
  | obj fs => fs
  | _ => []

def items : Json → List Json
  | arr l => l
  | _ => []

/-- `k in j`. -/
def has (j : Json) (k : String) : Bool := (j.fields.lookup k).isSome

/-- `j.get(k)`. -/
def get (j : Json) (k : String) : Json := (j.fields.lookup k).getD null

def isNull : Json → Bool
  | null => true
  | _ => false

def isObj : Json → Bool
  | obj _ => true
  | _ => false

def isArr : Json → Bool
  | arr _ => true
  | _ => false

def bool? : Json → Option Bool
  | bool b => some b
  | _ => none

/-- `_is_number`: `True` is not one. -/
def num? : Json → Option Rat
  | num q => some q
  | _ => none

def str? : Json → Option String
  | str s => some s
  | _ => none

/-- `bool(j)`. -/
def truthy : Json → Bool
  | null => false
  | bool b => b
  | num q => q ≠ 0
  | str s => s ≠ ""
  | arr l => !l.isEmpty
  | obj fs => !fs.isEmpty

/-- `j in ("", None)`. -/
def isEmpty : Json → Bool
  | null => true
  | str s => s = ""
  | _ => false

/-- `{**fs, k: v}`. -/
def setField (fs : List (String × Json)) (k : String) (v : Json) : List (String × Json) :=
  if (fs.lookup k).isSome then fs.map fun f => if f.1 = k then (k, v) else f else fs ++ [(k, v)]

/-- `j[k] = v`. -/
def set (j : Json) (k : String) (v : Json) : Json := obj (setField j.fields k v)

theorem lookup_setField (fs : List (String × Json)) (k k' : String) (v : Json) :
    (setField fs k v).lookup k' = if k' = k then some v else fs.lookup k' := by
  have hmap : ∀ gs : List (String × Json), (gs.map fun f => if f.1 = k then (k, v) else f).lookup k' =
      if k' = k then (gs.lookup k).map fun _ => v else gs.lookup k' := by
    intro gs
    induction gs with
    | nil => simp
    | cons f gs ih =>
      obtain ⟨n, j⟩ := f
      by_cases hn : n = k
      · subst hn
        by_cases hk : k' = n
        · simp [hk]
        · have hb : (k' == n) = false := beq_eq_false_iff_ne.2 hk
          simp [List.lookup_cons, hk, hb, ih]
      · by_cases hk : k' = n
        · subst hk
          simp [hn]
        · have hb : (k' == n) = false := beq_eq_false_iff_ne.2 hk
          have hkn : (k == n) = false := beq_eq_false_iff_ne.2 (Ne.symm hn)
          simp [List.lookup_cons, hn, hb, hkn, ih]
  unfold setField
  split
  · next hin =>
    rw [hmap]
    obtain ⟨j, hj⟩ := Option.isSome_iff_exists.1 hin
    rw [hj]
    rfl
  · next hout =>
    have hnone : fs.lookup k = none := Option.not_isSome_iff_eq_none.1 hout
    rw [List.lookup_append]
    by_cases hk : k' = k
    · subst hk
      simp [hnone]
    · have hb : (k' == k) = false := beq_eq_false_iff_ne.2 hk
      simp [List.lookup_cons, hk, hb]

@[simp] theorem get_set_self (j : Json) (k : String) (v : Json) : (j.set k v).get k = v := by
  show ((setField j.fields k v).lookup k).getD null = v
  rw [lookup_setField, if_pos rfl]
  rfl

theorem get_set_ne {k k' : String} (j v : Json) (h : k' ≠ k) : (j.set k v).get k' = j.get k' := by
  show ((setField j.fields k v).lookup k').getD null = _
  rw [lookup_setField, if_neg h]
  rfl

end Json

def strip (s : String) : String := String.ofList (Text.strip s.toList)

/-- `s[:n]`. -/
def cut (n : Nat) (s : String) : String := String.ofList (s.toList.take n)

end Flowly.Flowlets
