/-
  Flowly.Flowlets.Computed — the computed keys of a flowlet (`flowly/flowlets/queries.py`:
  `render_template`, `_aggregate_list`, `_resolve_cases`, and the fixpoint of `resolve_values`).

  An entry that looks at a name without a value waits for a later pass. A text does not: it
  shows a key without a value as nothing.

  Before the passes `expand_composites` has put the draft keys of the forms into the state and
  the metrics of the tracker cards among the entries. A computed key that is a key of the state
  too shows the value of the state until its entry is resolved.

  Proved: where there are values at all, they are the same in every order of the entries, and
  an entry without a cycle has the value of the evaluation in the order of its dependencies,
  if no entry comes out otherwise after another one than before it; and where no computed key
  is one of the state, just if no text is chosen before a key that it shows (`order_free_iff`).
-/

import Flowly.Flowlets.Exprs
import Flowly.Lib.Assoc
import Flowly.Lib.Keyed

namespace Flowly.Flowlets.Computed

open Flowly.Lib Flowly.Lib.Deferred Flowly.Flowlets.Exprs
open Flowly.Flowlets.Series (Agg Window windowStart)

/-! ## Templates -/

inductive Token where
  | char (c : Char)
  | key (k : String)

def isLetter (c : Char) : Bool := ('a' ≤ c && c ≤ 'z') || ('A' ≤ c && c ≤ 'Z')

/-- Whether a placeholder can go on with a character after those it has. -/
def goesOn (name : Text) (c : Char) : Bool := isLetter c || (!name.isEmpty && (('0' ≤ c && c ≤ '9') || c = '_'))

/-- The matches of `_TEMPLATE_RE`, and what is between them; `name` is what stands behind an open brace. -/
def tokensFrom : Option Text → Text → List Token
  | none, [] => []
  | some name, [] => ('\x7b' :: name).map .char
  | none, c :: t => if c = '\x7b' then tokensFrom (some []) t else .char c :: tokensFrom none t
  | some name, c :: t =>
    if c = '\x7b' then ('\x7b' :: name).map .char ++ tokensFrom (some []) t
    else if c = '\x7d' ∧ name ≠ [] then .key (String.ofList name) :: tokensFrom none t
    else if goesOn name c then tokensFrom (some (name ++ [c])) t
    else ('\x7b' :: name ++ [c]).map .char ++ tokensFrom none t

def tokens (text : String) : List Token := tokensFrom none text.toList

def Token.key? : Token → Option String
  | .char _ => none
  | .key k => some k

def keysOf (text : String) : List String := (tokens text).filterMap Token.key?

/-- A row of `_LOCALE_FORMATS`. -/
structure Format where
  thousands : Char
  decimal : Char
  yes : String
  no : String

/-- `_LOCALE_FORMATS`. -/
def localeFormat : Option String → Option Format
  | some "en" => some ⟨',', '.', "yes", "no"⟩
  | some "tr" => some ⟨'.', ',', "evet", "hayır"⟩
  | some "es" => some ⟨'.', ',', "sí", "no"⟩
  | _ => none

section Render

variable {N : Type} (num : Numbers N) (locale : Option String)

def Format.swap (fmt : Format) (c : Char) : Char := if c = ',' then fmt.thousands else if c = '.' then fmt.decimal else c

def fmtNumber (x : N) : Except Fault Text :=
  match localeFormat locale with
  | none => raised ((num.plain x).map String.toList)
  | some fmt => raised ((num.grouped x).map fun t => t.toList.map fmt.swap)

def fmtBool (b : Bool) : Text :=
  match localeFormat locale with
  | none => if b then "yes".toList else "no".toList
  | some fmt => if b then fmt.yes.toList else fmt.no.toList

def fmtValue : Value N → Except Fault Text
  | .bool b => .ok (fmtBool locale b)
  | .num x => if num.real x then fmtNumber num locale x else .ok (num.str (.num x)).toList
  | .timer _ elapsed => fmtNumber num locale elapsed
  | .str s => .ok s.toList
  | v => .ok (num.str v).toList

def shown : Option (Value N) → Except Fault Text
  | none | some .null => .ok []
  | some v => fmtValue num locale v

def renderTokens (values : Namespace N) : List Token → Except Fault Text
  | [] => .ok []
  | .char c :: rest => do return c :: (← renderTokens values rest)
  | .key k :: rest => do
    let text ← shown num locale (values k)
    return text ++ (← renderTokens values rest)

def renderTemplate (text : String) (values : Namespace N) : Except Fault (Value N) := do
  return .str (String.ofList (← renderTokens num locale values (tokens text)))

end Render

/-! ## Entries -/

structure Case (N : Type) where
  when_ : Node N
  text : String

inductive Spec (N : Type) where
  | series (series : String) (agg : Agg) (window : Window)
  | list (list : String) (agg : Agg) (field : Option String) (where_ : Option (Node N))
  | cases (cases : List (Case N)) (else_ : String)
  | expr (expr : Node N)

structure Event (N : Type) where
  series : String
  value : N
  ts : Int

/-- What an entry is resolved from besides the values. -/
structure Env (N : Type) where
  num : Numbers N
  events : List (Event N)
  now : Int
  zone : Series.Zone
  locale : Option String

namespace Env

variable {N : Type} (env : Env N)

def zero : N := env.num.ofInt 0

def applyAgg (values : List N) : Agg → Except Fault N
  | .count => .ok (env.num.ofInt values.length)
  | agg =>
    match values with
    | [] => .ok env.zero
    | x :: rest =>
      match agg with
      | .avg => .ok (env.num.mean (x :: rest))
      | .min => raised (extremum env.num .lt x rest)
      | .max => raised (extremum env.num .gt x rest)
      | .last => .ok ((x :: rest).getLastD x)
      | _ => .ok (env.num.sum (x :: rest))

def aggregateScalar (events : List (Event N)) (agg : Agg) (window : Window) : Except Fault N := do
  let start := windowStart env.zone window env.now
  let vals ← raised ((events.filter fun e => start.all (· ≤ e.ts) && decide (e.ts ≤ env.now)).mapM fun e => env.num.toFloat e.value)
  env.applyAgg vals agg

def rowNames (row : List (String × Value N)) : Namespace N := fun k =>
  if k = "__now__" then some (.num (env.num.ofInt env.now)) else row.lookup k

/-- The rows for which `where` holds; one that lacks a name is left out. -/
def selectRows (where_ : Node N) : List (List (String × Value N)) → Except Fault (List (List (String × Value N)))
  | [] => .ok []
  | row :: rest =>
    match evalNode env.num env.zone (env.rowNames row) where_ with
    | .ok x => do
      let kept ← selectRows where_ rest
      return if env.num.isZero x then kept else row :: kept
    | .error .waits => selectRows where_ rest
    | .error .raises => .error .raises

def rowNumber (field : Option String) (row : List (String × Value N)) : Option N :=
  match field.bind fun f => row.lookup f with
  | some (.num x) => if env.num.real x then some x else none
  | _ => none

def aggregateList (list : String) (agg : Agg) (field : Option String) (where_ : Option (Node N)) (values : Namespace N) :
    Except Fault N :=
  match values list with
  | some (.rows items) => do
    let items ← match where_ with
      | some cond => env.selectRows cond items
      | none => .ok items
    if agg = .count then return env.num.ofInt items.length
    let nums ← raised ((items.filterMap (env.rowNumber field)).mapM env.num.toFloat)
    env.applyAgg nums agg
  | _ => .error .waits

def chosen (values : Namespace N) (else_ : String) : List (Case N) → Except Fault String
  | [] => .ok else_
  | c :: cases => do
    if env.num.isZero (← evalNode env.num env.zone values c.when_) then chosen values else_ cases else return c.text

def resolveCases (cases : List (Case N)) (else_ : String) (values : Namespace N) : Except Fault (Value N) := do
  renderTemplate env.num env.locale (← env.chosen values else_ cases) values

/-- What the loop of `resolve_values` does with an entry. -/
def resolve (spec : Spec N) (values : Namespace N) : Except Fault (Value N) :=
  match spec with
  | .series series agg window => .num <$> env.aggregateScalar (env.events.filter (·.series = series)) agg window
  | .list list agg field where_ => .num <$> env.aggregateList list agg field where_ values
  | .cases cases else_ => env.resolveCases cases else_ values
  | .expr expr => .num <$> evalNode env.num env.zone values expr

end Env

def Spec.names {N : Type} : Spec N → List String
  | .series .. => []
  | .list key _ _ _ => [key]
  | .cases whens else_ => whens.flatMap (fun c => c.when_.names ++ keysOf c.text) ++ keysOf else_
  | .expr e => e.names

section Names

variable {N : Type} {env : Env N} {s t : Namespace N}

theorem raised_ne_waits {α : Type} (o : Option α) : raised o ≠ .error .waits := by
  cases o <;> simp [raised]

theorem shown_ne_waits (v : Option (Value N)) : shown env.num env.locale v ≠ .error .waits := by
  have hnum : ∀ x, fmtNumber env.num env.locale x ≠ .error .waits := fun x => by
    unfold fmtNumber
    split <;> exact raised_ne_waits _
  unfold shown
  split
  · nofun
  · nofun
  · unfold fmtValue
    split
    · nofun
    · split
      · exact hnum _
      · nofun
    · exact hnum _
    · nofun
    · nofun

theorem bind_ne_waits {α β : Type} {r : Except Fault α} {f : α → Except Fault β} (hr : r ≠ .error .waits)
    (hf : ∀ a, f a ≠ .error .waits) : r >>= f ≠ .error .waits := by
  cases r with
  | ok a => exact hf a
  | error fault =>
    cases fault with
    | waits => exact absurd rfl hr
    | raises => nofun

theorem renderTokens_ne_waits (values : Namespace N) (ts : List Token) :
    renderTokens env.num env.locale values ts ≠ .error .waits := by
  induction ts with
  | nil => nofun
  | cons token rest ih =>
    cases token with
    | char c => exact bind_ne_waits ih nofun
    | key k => exact bind_ne_waits (shown_ne_waits _) fun _ => bind_ne_waits ih nofun

theorem renderTemplate_ne_waits (values : Namespace N) (text : String) :
    renderTemplate env.num env.locale text values ≠ .error .waits := bind_ne_waits (renderTokens_ne_waits _ _) nofun

/-- A text is the same where its keys are shown the same. -/
theorem renderTemplate_congr {text : String}
    (h : ∀ k ∈ keysOf text, shown env.num env.locale (s k) = shown env.num env.locale (t k)) :
    renderTemplate env.num env.locale text s = renderTemplate env.num env.locale text t := by
  have htokens : ∀ ts : List Token, (∀ k ∈ ts.filterMap Token.key?, shown env.num env.locale (s k) = shown env.num env.locale (t k)) →
      renderTokens env.num env.locale s ts = renderTokens env.num env.locale t ts := fun ts => by
    induction ts with
    | nil => exact fun _ => rfl
    | cons token rest ih =>
      intro h
      cases token with
      | char c => rw [renderTokens, renderTokens, ih h]
      | key k =>
        obtain ⟨hk, hrest⟩ := List.forall_mem_cons.1 h
        rw [renderTokens, renderTokens, ih hrest, hk]
  rw [renderTemplate, renderTemplate, htokens _ h]

variable {cases : List (Case N)}

theorem chosen_keeps {else_ : String} (h : Has s t (cases.flatMap fun c => c.when_.names)) :
    Exprs.Keeps (env.chosen s else_ cases) (env.chosen t else_ cases) := by
  induction cases with
  | nil => exact .refl _
  | cons c cases ih =>
    rw [List.flatMap_cons] at h
    refine (evalNode_keeps c.when_ h.left).bind fun x _ => ?_
    split
    · exact ih h.right
    · exact .refl _

theorem chosen_mem {else_ text : String} (h : env.chosen s else_ cases = .ok text) :
    text = else_ ∨ ∃ c ∈ cases, text = c.text := by
  induction cases with
  | nil =>
    cases h
    exact .inl rfl
  | cons c cases ih =>
    unfold Env.chosen at h
    cases hev : evalNode env.num env.zone s c.when_ with
    | error fault =>
      rw [hev] at h
      cases h
    | ok x =>
      rw [hev] at h
      change (if env.num.isZero x = true then env.chosen s else_ cases else .ok c.text) = .ok text at h
      split at h
      · exact (ih h).imp_right fun ⟨c', hc', heq⟩ => ⟨c', List.mem_cons_of_mem _ hc', heq⟩
      · cases h
        exact .inr ⟨c, List.mem_cons_self, rfl⟩

theorem keysOf_chosen {else_ text k : String} (h : env.chosen s else_ cases = .ok text)
    (hk : k ∈ keysOf text) : k ∈ (Spec.cases cases else_).names := by
  rcases chosen_mem h with rfl | ⟨c, hc, rfl⟩
  · exact List.mem_append_right _ hk
  · exact List.mem_append_left _ (List.mem_flatMap.2 ⟨c, hc, List.mem_append_right _ hk⟩)

theorem has_whens {else_ : String} (h : Has s t (Spec.cases cases else_).names) :
    Has s t (cases.flatMap fun c => c.when_.names) := fun n hn => by
  obtain ⟨c, hc, hn⟩ := List.mem_flatMap.1 hn
  exact h n (List.mem_append_left _ (List.mem_flatMap.2 ⟨c, hc, List.mem_append_left _ hn⟩))

theorem aggregateList_keeps {list : String} {agg : Agg} {field : Option String} {where_ : Option (Node N)} (h : Has s t [list]) :
    Exprs.Keeps (env.aggregateList list agg field where_ s) (env.aggregateList list agg field where_ t) := by
  cases hv : s list with
  | none => exact .inl (by simp [Env.aggregateList, hv])
  | some v => exact .inr (by simp [Env.aggregateList, hv, h.head hv])

/-- An entry that is no text keeps its value. -/
theorem resolve_keeps {spec : Spec N} (hspec : ∀ cases else_, spec ≠ .cases cases else_) (h : Has s t spec.names) :
    Exprs.Keeps (env.resolve spec s) (env.resolve spec t) := by
  cases spec with
  | series => exact .refl _
  | list => exact (aggregateList_keeps h).map _
  | cases cases else_ => exact absurd rfl (hspec cases else_)
  | expr expr => exact (evalNode_keeps expr h).map _

theorem resolve_congr (spec : Spec N) (h : ∀ k ∈ spec.names, s k = t k) : env.resolve spec s = env.resolve spec t := by
  have hst : Has s t spec.names := fun n hn v hv => by rw [← h n hn, hv]
  have hts : Has t s spec.names := fun n hn v hv => by rw [h n hn, hv]
  by_cases hspec : ∃ cases else_, spec = .cases cases else_
  · obtain ⟨cases, else_, rfl⟩ := hspec
    have hch : env.chosen s else_ cases = env.chosen t else_ cases :=
      Exprs.Keeps.antisymm (chosen_keeps (has_whens hst)) (chosen_keeps (has_whens hts))
    show env.resolveCases cases else_ s = env.resolveCases cases else_ t
    unfold Env.resolveCases
    rw [← hch]
    cases htext : env.chosen s else_ cases with
    | error => rfl
    | ok text => exact renderTemplate_congr fun k hk => by rw [h k (keysOf_chosen htext hk)]
  · have hne : ∀ cases else_, spec ≠ .cases cases else_ := fun cases else_ heq => hspec ⟨cases, else_, heq⟩
    exact Exprs.Keeps.antisymm (resolve_keeps hne hst) (resolve_keeps hne hts)

end Names

/-! ## Resolution -/

/-- A definition, as far as its computed keys go. None is reserved: a key begins with a letter. -/
structure Definition (N : Type) where
  stateKeys : List String
  computed : List (String × Spec N)
  nodup : (computed.map Prod.fst).Nodup
  reserved : ∀ e ∈ computed, e.1 ≠ "__now__"

def Definition.reordered {N : Type} (d : Definition N) (order : List (String × Spec N)) (h : order.Perm d.computed) :
    Definition N where
  stateKeys := d.stateKeys
  computed := order
  nodup := (h.map Prod.fst).nodup_iff.2 d.nodup
  reserved e he := d.reserved e (h.mem_iff.1 he)

/-- What the composites inject: the draft keys `<id>__<field>` of the forms, and the metric
    `<id>__agg` of each tracker card. -/
structure Injected (N : Type) where
  state : List String
  computed : List (String × Spec N)
  reserved : ∀ e ∈ computed, e.1 ≠ "__now__"

/-- `expand_composites`. -/
def Definition.expandComposites {N : Type} (d : Definition N) (injected : Injected N) : Definition N where
  stateKeys := d.stateKeys ++ injected.state
  computed := Keyed.update Prod.fst d.computed injected.computed
  nodup := Keyed.nodup_update d.nodup _
  reserved e he := (Keyed.mem_update he).elim (d.reserved e) (injected.reserved e)

/-- Reordering the declared entries reorders those of the expanded definition. -/
theorem Definition.expand_reordered {N : Type} (d : Definition N) (injected : Injected N) {order : List (String × Spec N)}
    (h : order.Perm d.computed) :
    ((d.reordered order h).expandComposites injected).computed.Perm (d.expandComposites injected).computed :=
  Keyed.update_perm h _

/-- No computed key is a key of the state. -/
def Definition.Apart {N : Type} (d : Definition N) : Prop := ∀ e ∈ d.computed, e.1 ∉ d.stateKeys

namespace Env

variable {N : Type} (env : Env N)

/-- The values before the first pass: those of the state, and `__now__`. -/
def start (d : Definition N) (state : String → Value N) : Namespace N := fun key =>
  if key = "__now__" then some (.num (env.num.ofInt env.now)) else if key ∈ d.stateKeys then some (state key) else none

/-- `values`: what the passes have filled in, over the values before the first pass. -/
def layered (start filled : Namespace N) : Namespace N := fun key => (filled key).or (start key)

def evaluator (start : Namespace N) : Evaluator String (Spec N) (Value N) where
  eval spec filled := env.resolve spec (layered start filled)
  uses := Spec.names
  congr spec _ _ h := resolve_congr spec fun k hk => congrArg (Option.or · (start k)) (h k hk)

def fallback : Spec N → Value N
  | .cases .. => .str ""
  | _ => .num env.zero

def clean : Value N → Value N
  | .num x => .num (env.num.clean x)
  | v => v

/-- The value that a key has in the end, with what the passes have given it. -/
def present (d : Definition N) (start : Namespace N) (key : String) (value : Option (Value N)) : Option (Value N) :=
  ((value.or ((d.computed.lookup key).map env.fallback)).or (start key)).map env.clean

/-- The passes over the entries of a definition. -/
def filled (d : Definition N) (state : String → Value N) : Option (Namespace N) :=
  (env.evaluator (env.start d state)).run d.computed fun _ => none

/-- `resolve_values` of an expanded definition, but for the series of the charts. -/
def resolveValues (d : Definition N) (state : String → Value N) : Option (Namespace N) :=
  (env.filled d state).map fun filled key =>
    if key = "__now__" then none else env.present d (env.start d state) key (filled key)

/-- In every order of the computed entries the values are the same; a key without a cycle has the value that it has
when each entry is evaluated after all that it names. -/
structure OrderFree (d : Definition N) (state : String → Value N) : Prop where
  same : ∀ values, env.resolveValues d state = some values → ∀ order (h : order.Perm d.computed),
    env.resolveValues (d.reordered order h) state = some values
  ordered : ∀ values, env.resolveValues d state = some values → ∀ key ∈ d.computed.map Prod.fst,
    (env.evaluator (env.start d state)).Acyclic d.computed key →
      ∃ value, (env.evaluator (env.start d state)).Evaluates d.computed (fun _ => none) key value ∧
        values key = env.present d (env.start d state) key value

/-- The same of a stored definition, whose declared entries are reordered before its composites are expanded. -/
structure DeclaredFree (d : Definition N) (injected : Injected N) (state : String → Value N) : Prop where
  same : ∀ values, env.resolveValues (d.expandComposites injected) state = some values → ∀ order (h : order.Perm d.computed),
    env.resolveValues ((d.reordered order h).expandComposites injected) state = some values
  ordered : ∀ values, env.resolveValues (d.expandComposites injected) state = some values →
    ∀ key ∈ (d.expandComposites injected).computed.map Prod.fst,
      (env.evaluator (env.start (d.expandComposites injected) state)).Acyclic (d.expandComposites injected).computed key →
        ∃ value, (env.evaluator (env.start (d.expandComposites injected) state)).Evaluates
            (d.expandComposites injected).computed (fun _ => none) key value ∧
          values key = env.present (d.expandComposites injected) (env.start (d.expandComposites injected) state) key value

/-- What the entries can have filled in, in whatever order they are taken. -/
def Fills (d : Definition N) (state : String → Value N) (filled : Namespace N) : Prop :=
  (env.evaluator (env.start d state)).Path d.computed (some fun _ => none) (some filled)

/-- Whenever a key can be resolved, in whatever order the entries are taken, another entry that need not wait then comes
out the same after it. -/
def Settled (d : Definition N) (state : String → Value N) : Prop :=
  ∀ filled, env.Fills d state filled → ∀ e ∈ d.computed, ∀ e' ∈ d.computed, e.1 ≠ e'.1 →
    filled e.1 = none → filled e'.1 = none →
      ∀ v, env.resolve e.2 (layered (env.start d state) filled) = .ok v →
        env.resolve e'.2 (layered (env.start d state) filled) ≠ .error .waits →
          env.resolve e'.2 (layered (env.start d state) (Function.update filled e.1 (some v))) =
            env.resolve e'.2 (layered (env.start d state) filled)

/-- Whenever a key can be resolved while the text of another entry is chosen already, in whatever order the entries are
taken, that text does not show the key, or shows it as nothing. -/
def TextsSettled (d : Definition N) (state : String → Value N) : Prop :=
  ∀ filled, env.Fills d state filled →
    ∀ key cases else_ text, (key, .cases cases else_) ∈ d.computed → filled key = none →
      env.chosen (layered (env.start d state) filled) else_ cases = .ok text →
      ∀ other spec v, (other, spec) ∈ d.computed → other ≠ key → filled other = none →
        env.resolve spec (layered (env.start d state) filled) = .ok v →
        other ∈ keysOf text → shown env.num env.locale (some v) = .ok []

end Env

section Order

variable {N : Type} {env : Env N} {d : Definition N} {state : String → Value N} {start filled values : Namespace N}
  {order : List (String × Spec N)}

theorem over_update (start filled : Namespace N) (k : String) (v : Value N) :
    Env.layered start (Function.update filled k (some v)) = Function.update (Env.layered start filled) k (some v) := by
  funext key
  unfold Env.layered
  by_cases hk : key = k
  · subst hk
    rw [Function.update_self, Function.update_self, Option.some_or]
  · rw [Function.update_of_ne hk, Function.update_of_ne hk]

/-- Where no computed key is one of the state, one that is not filled in yet has no value. -/
theorem over_none (hd : d.Apart) {e : String × Spec N} (he : e ∈ d.computed) (hnew : filled e.1 = none) :
    Env.layered (env.start d state) filled e.1 = none := by
  rw [Env.layered, hnew, Option.none_or, Env.start, if_neg (d.reserved e he), if_neg (hd e he)]

theorem lookup_perm (h : order.Perm d.computed) (key : String) :
    order.lookup key = d.computed.lookup key := by
  cases hl : d.computed.lookup key with
  | some spec => exact Assoc.lookup_of_mem ((h.map Prod.fst).nodup_iff.2 d.nodup) (h.mem_iff.2 (Assoc.mem_of_lookup hl))
  | none =>
    cases ho : order.lookup key with
    | none => rfl
    | some spec => cases hl.symm.trans (Assoc.lookup_of_mem d.nodup (h.mem_iff.1 (Assoc.mem_of_lookup ho)))

theorem present_reordered (h : order.Perm d.computed) (key : String) (value : Option (Value N)) :
    env.present (d.reordered order h) start key value = env.present d start key value := by
  rw [Env.present, Env.present]
  congr 4
  exact lookup_perm h key

theorem resolveValues_eq_some (h : env.resolveValues d state = some values) :
    ∃ m, env.filled d state = some m ∧ ∀ key, key ≠ "__now__" → values key = env.present d (env.start d state) key (m key) := by
  obtain ⟨m, hm, rfl⟩ := Option.map_eq_some_iff.1 h
  exact ⟨m, hm, fun key hk => if_neg hk⟩

/-- What is chosen and comes to a text stays. -/
theorem chosen_update {cases : List (Case N)} {else_ other : String} {v : Value N}
    (hne : env.chosen values else_ cases ≠ .error .waits) (hother : values other = none) :
    env.chosen (Function.update values other (some v)) else_ cases = env.chosen values else_ cases :=
  (chosen_keeps (Has.update v hother _)).eq_of_ne hne

theorem resolve_cases_eq {cases : List (Case N)} {else_ text : String} (h : env.chosen values else_ cases = .ok text) :
    env.resolve (.cases cases else_) values = renderTemplate env.num env.locale text values := by
  rw [Env.resolve, Env.resolveCases, h]
  rfl

/-- Where no computed key is one of the state, only a text can come out otherwise. -/
theorem Env.TextsSettled.settled (hd : d.Apart) (h : env.TextsSettled d state) : env.Settled d state := by
  intro filled hpath e he e' he' hk hfresh hfresh' v hok hw
  have hnew : Env.layered (env.start d state) filled e.1 = none := over_none hd he hfresh
  have hsame := h filled hpath e'.1
  rw [over_update]
  obtain ⟨key, spec⟩ := e'
  by_cases hspec : ∃ cases else_, spec = .cases cases else_
  · obtain ⟨cases, else_, rfl⟩ := hspec
    generalize Env.layered (env.start d state) filled = values at hnew hok hw hsame ⊢
    have hne : env.chosen values else_ cases ≠ .error .waits := fun heq => hw (by
      rw [Env.resolve, Env.resolveCases, heq]
      rfl)
    have hch := chosen_update (v := v) hne hnew
    cases htext : env.chosen values else_ cases with
    | error =>
      show env.resolveCases cases else_ _ = env.resolveCases cases else_ _
      rw [Env.resolveCases, Env.resolveCases, hch, htext]
      rfl
    | ok text =>
      rw [resolve_cases_eq htext, resolve_cases_eq (hch.trans htext)]
      refine renderTemplate_congr fun k hkeys => ?_
      by_cases hke : k = e.1
      · subst hke
        rw [Function.update_self, hnew]
        exact hsame cases else_ text he' hfresh' htext e.1 e.2 v he hk hfresh hok hkeys
      · rw [Function.update_of_ne hke]
  · exact (resolve_keeps (fun cases else_ heq => hspec ⟨cases, else_, heq⟩) (Has.update v hnew _)).eq_of_ne hw

theorem bind_ok {α β : Type} {r : Except Fault α} {f : α → Except Fault β} {b : β} (h : r >>= f = .ok b) :
    ∃ a, r = .ok a ∧ f a = .ok b := by
  cases r with
  | ok a => exact ⟨a, rfl, h⟩
  | error fault => cases h

/-- A text is no longer after a key has its value just where it shows that as nothing. -/
theorem shown_nil_of_length {other : String} {v : Value N} (hother : values other = none) {ts : List Token}
    {t t' : Text} (ht : renderTokens env.num env.locale values ts = .ok t)
    (ht' : renderTokens env.num env.locale (Function.update values other (some v)) ts = .ok t') :
    t.length ≤ t'.length ∧ (t'.length ≤ t.length → other ∈ ts.filterMap Token.key? → shown env.num env.locale (some v) = .ok []) := by
  induction ts generalizing t t' with
  | nil =>
    cases ht
    cases ht'
    exact ⟨Nat.le_refl _, nofun⟩
  | cons token rest ih =>
    cases token with
    | char c =>
      obtain ⟨a, ha, heq⟩ := bind_ok ht
      obtain ⟨a', ha', heq'⟩ := bind_ok ht'
      cases heq
      cases heq'
      obtain ⟨hle, hnil⟩ := ih ha ha'
      exact ⟨Nat.succ_le_succ hle, fun hge hin => hnil (Nat.le_of_succ_le_succ hge) hin⟩
    | key k =>
      obtain ⟨x, hx, ht⟩ := bind_ok ht
      obtain ⟨a, ha, heq⟩ := bind_ok ht
      obtain ⟨x', hx', ht'⟩ := bind_ok ht'
      obtain ⟨a', ha', heq'⟩ := bind_ok ht'
      cases heq
      cases heq'
      obtain ⟨hle, hnil⟩ := ih ha ha'
      simp only [List.length_append]
      by_cases hk : k = other
      · subst hk
        rw [hother] at hx
        cases hx
        rw [Function.update_self] at hx'
        refine ⟨by simp; omega, fun hge _ => ?_⟩
        have hlen : x'.length = 0 := by
          rw [List.length_nil] at hge
          omega
        rw [hx', List.length_eq_zero_iff.1 hlen]
      · rw [Function.update_of_ne hk, hx] at hx'
        cases hx'
        refine ⟨Nat.add_le_add_left hle _, fun hge hin => hnil (Nat.le_of_add_le_add_left hge) ?_⟩
        exact (List.mem_cons.1 hin).resolve_left fun heq => hk heq.symm

/-- In every order a text that is chosen comes out as it is then. -/
theorem Env.OrderFree.text_eq (h : env.OrderFree d state) {final : Namespace N} (hfinal : env.resolveValues d state = some final)
    (hpath : env.Fills d state filled) {key else_ text : String} {cases : List (Case N)}
    (hmem : (key, .cases cases else_) ∈ d.computed) (hnew : filled key = none)
    (htext : env.chosen (Env.layered (env.start d state) filled) else_ cases = .ok text) :
    ∃ t, renderTokens env.num env.locale (Env.layered (env.start d state) filled) (tokens text) = .ok t ∧
      final key = some (.str (String.ofList t)) := by
  have hres := resolve_cases_eq htext
  have hw : env.resolve (.cases cases else_) (Env.layered (env.start d state) filled) ≠ .error .waits :=
    fun heq => renderTemplate_ne_waits _ _ (hres.symm.trans heq)
  obtain ⟨order, hperm, hall⟩ := Evaluator.exists_order d.nodup hpath hmem hnew hw
  obtain ⟨m, hm, hvalues⟩ := resolveValues_eq_some (h.same final hfinal order hperm)
  obtain ⟨v, hv, hmv⟩ := hall m hm
  obtain ⟨t, ht, heq⟩ := bind_ok (hres.symm.trans hv)
  cases heq
  refine ⟨t, ht, ?_⟩
  rw [hvalues key (d.reserved _ hmem), hmv]
  rfl

theorem Env.OrderFree.texts (hd : d.Apart) (h : env.OrderFree d state) (hvalues : ∃ values, env.resolveValues d state = some values) :
    env.TextsSettled d state := by
  obtain ⟨final, hfinal⟩ := hvalues
  intro filled hpath key cases else_ text hmem hnew htext other spec v hother hne hnone hv hin
  obtain ⟨t, ht, hkey⟩ := h.text_eq hfinal hpath hmem hnew htext
  have hpath' : env.Fills d state (Function.update filled other (some v)) := hpath.tail (.fills hother hnone hv)
  have hnew' : Function.update filled other (some v) key = none := by rw [Function.update_of_ne (Ne.symm hne), hnew]
  have hnone' : Env.layered (env.start d state) filled other = none := over_none hd hother hnone
  have htext' := (chosen_update (v := v) (by rw [htext]; nofun) hnone').trans htext
  rw [← over_update] at htext'
  obtain ⟨t', ht', hkey'⟩ := h.text_eq hfinal hpath' hmem hnew' htext'
  have hlen : t' = t := by
    have hstr := Value.str.inj (Option.some.inj (hkey'.symm.trans hkey))
    rw [← String.toList_ofList (l := t'), hstr, String.toList_ofList]
  rw [over_update] at ht'
  exact (shown_nil_of_length hnone' ht ht').2 (by rw [hlen]) hin

theorem Env.Settled.order_free (h : (∃ values, env.resolveValues d state = some values) → env.Settled d state) :
    env.OrderFree d state := by
  refine ⟨fun values hvalues order hperm => ?_, fun values hvalues key hkey hacyclic => ?_⟩
  · have hc : (env.evaluator (env.start d state)).Commutes d.computed fun _ => none := h ⟨values, hvalues⟩
    obtain ⟨m, hm, heq⟩ := Option.map_eq_some_iff.1 hvalues
    show ((env.evaluator (env.start d state)).run order fun _ => none).map _ = some values
    rw [hc.run_eq d.nodup (fun _ _ => rfl) hm hperm, ← heq, Option.map_some]
    congr 1
    funext key
    rw [present_reordered]
    rfl
  · have hc : (env.evaluator (env.start d state)).Commutes d.computed fun _ => none := h ⟨values, hvalues⟩
    obtain ⟨m, hm, hval⟩ := resolveValues_eq_some hvalues
    obtain ⟨e, he, rfl⟩ := List.mem_map.1 hkey
    exact ⟨m e.1, Evaluator.evaluates_of_acyclic d.nodup (fun _ _ => rfl) hc hm hkey hacyclic, hval e.1 (d.reserved e he)⟩

theorem Env.OrderFree.declared {injected : Injected N} (h : env.OrderFree (d.expandComposites injected) state) :
    env.DeclaredFree d injected state where
  same values hvalues _ hperm := h.same values hvalues _ (d.expand_reordered injected hperm)
  ordered := h.ordered

/-- Without a tracker card the declared entries are all there are. -/
theorem Env.DeclaredFree.all {injected : Injected N} (hnone : injected.computed = []) (h : env.DeclaredFree d injected state) :
    env.OrderFree (d.expandComposites injected) state := by
  obtain ⟨drafts, metrics, hreserved⟩ := injected
  subst hnone
  exact ⟨h.same, h.ordered⟩

end Order

namespace Sample

/-- Python's integers, without those operations that lead out of them. -/
def integers : Numbers Int where
  ofInt n := n
  isZero x := x = 0
  real _ := true
  binOp
    | .add, x, y => .ok (x + y)
    | .sub, x, y => .ok (x - y)
    | .mult, x, y => .ok (x * y)
    | .floorDiv, x, y => if y = 0 then .error .zeroDivision else .ok (x.fdiv y)
    | .mod, x, y => if y = 0 then .error .zeroDivision else .ok (x.fmod y)
    | _, _, _ => .error .other
  pos x := x
  neg x := -x
  cmp
    | .lt, x, y => some (x < y)
    | .ltE, x, y => some (x ≤ y)
    | .gt, x, y => some (y < x)
    | .gtE, x, y => some (y ≤ x)
    | .eq, x, y => some (x = y)
    | .notEq, x, y => some (x ≠ y)
    | .other _, _, _ => none
  abs x := some x.natAbs
  round x _ := some x
  floor x := some x
  ceil x := some x
  toInt x := some x
  toFloat := some
  sum := List.sum
  mean l := l.sum / l.length
  clean x := x
  plain x := some (toString x)
  grouped x := if x.natAbs < 1000 then some (toString x) else none
  str _ := ""

def env : Env Int := { num := integers, events := [], now := 0, zone := {}, locale := none }

def remaining : Definition Int where
  stateKeys := []
  computed := [
    ("label", .cases [{ when_ := .number 1, text := "\x7btotal\x7d left" }] ""),
    ("total", .expr (.binOp .add (.number 1) (.number 1)))]
  nodup := by decide
  reserved := by decide

/-- What composites inject that keep no tracker. -/
def drafts (keys : List String) : Injected Int := { state := keys, computed := [], reserved := by simp }

/-- Beside a form `f` with a field `x` its draft key is declared as a computed key too. -/
def shadowed : Definition Int where
  stateKeys := []
  computed := [("a", .expr (.binOp .add (.name "f__x") (.number 1))), ("f__x", .expr (.number 5))]
  nodup := by decide
  reserved := by decide

/-- `a` is counted from the draft as declared, and from 5 with its entry last. -/
theorem draft_counted : ¬ env.DeclaredFree shadowed (drafts ["f__x"]) fun _ => .num 1 := by
  intro h
  have ha : (env.resolveValues (shadowed.expandComposites (drafts ["f__x"])) fun _ => .num 1).bind (· "a") =
      some (.num 2) := rfl
  obtain ⟨values, hvalues, hfirst⟩ := Option.bind_eq_some_iff.1 ha
  have hlast : (env.resolveValues ((shadowed.reordered _ (List.reverse_perm _)).expandComposites (drafts ["f__x"]))
      fun _ => .num 1).bind (· "a") = some (.num 6) := rfl
  rw [h.same values hvalues, Option.bind_some, hfirst] at hlast
  cases hlast

end Sample

end Flowly.Flowlets.Computed
