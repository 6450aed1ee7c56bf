/-
  Flowly.Exec.Safety — what the code makes of a command before it is run
  (`flowly/exec/safety.py`), on a POSIX system.

  Proved (`protected_word_found_iff`): when the scan for protected paths finds something in
  a command that has a protected word, and that the command is rejected then. For a command
  whose words can be told without running anything (`Shell.lex`: quotes and operators, but
  no expansions) the condition is one on its stretches between blanks, since these are what
  the scan reads: the quotes taken out, the operators left in. So a protected word is found
  where it stands apart, with at most a redirection in front of it. What hides one is an
  operator that touches it (`a_glued_operator_hides_the_path`).
-/

import Flowly.Exec.ProtectedPaths
import Flowly.Lib.Regex
import Flowly.Lib.Shell

namespace Flowly.Exec.Safety

open Flowly.Lib Flowly.Exec.ProtectedPaths

/-- What the analysis asks the system. -/
structure System where
  paths : Host
  /-- `\w`. -/
  isWord : Char → Bool
  /-- `resolve_executable`. -/
  resolve : Text → Option Text
  /-- `Path(arg).exists()`. -/
  pathExists : Text → Bool

/-- `DEFAULT_SAFE_BINS`. -/
def safeBins : List Text :=
  ["jq", "grep", "cut", "sort", "uniq", "head", "tail", "tr", "wc", "cat", "echo", "date", "whoami", "pwd", "hostname",
    "uname"].map String.toList

section Patterns

open Regex

/-- `\brm\s+(-[rf]+\s+)*` and what comes after it. -/
def rmOf (target : Regex) : Regex :=
  let flag := one fun c => fold c = 'r' ∨ fold c = 'f'
  seqs [boundary, lit "rm", plus space, star (seqs [char '-', plus flag, plus space]), target]

/-- `\b<word>\b`. -/
def whole (word : String) : Regex := seqs [boundary, lit word, boundary]

/-- `\b<name>\b.*\|\s*(ba)?sh`. -/
def pipedToShell (name : String) : Regex := seqs [whole name, star any, char '|', star space, opt (lit "ba"), lit "sh"]

def dangerousPatterns : List Regex :=
  [rmOf (char '/'), rmOf (char '~'), rmOf (lit "$HOME"), whole "sudo",
    seqs [boundary, lit "chmod", plus space, lit "777"],
    seqs [whole "chown", star any, lit "root"],
    whole "mkfs",
    seqs [whole "dd", star any, lit "of=/"],
    seqs [char '>', star space, lit "/dev/", words ["sd", "nvme", "hd", "mapper", "disk", "rdisk", "loop", "ram"]],
    pipedToShell "curl", pipedToShell "wget",
    -- The parentheses are a group with nothing in it.
    seqs [lit ":\x7b", star any, lit "\x7d;:"],
    whole "killall",
    seqs [boundary, lit "pkill", plus space, lit "-9"],
    seqs [boundary, lit "launchctl", plus space, lit "unload"],
    seqs [boundary, lit "systemctl", plus space, words ["stop", "disable", "mask"]],
    seqs [boundary, lit "npm", plus space, lit "publish", boundary],
    seqs [boundary, lit "git", plus space, lit "push", plus space, star any, lit "--force"]]

end Patterns

def hasDangerousPattern (sys : System) (command : Text) : Bool := dangerousPatterns.any fun r => r.search sys.isWord command

/-- `SHELL_METACHARS`. -/
def isMetachar (c : Char) : Bool := [';', '&', '|', (Char.ofNat 96), '$', '<', '>'].contains c

/-- `DISALLOWED_PIPELINE_OPS` with their `repr`. The source takes one of those that are
    there, in no order. -/
def disallowedPipelineOps : List (Text × String) :=
  [("||".toList, "'||'"), ("|&".toList, "'|&'"), ([Char.ofNat 96], "'\x60'"), ("$(".toList, "'$('"), (['\n'], "'\\n'"), (['\r'], "'\\r'"),
    (['('], "'('"), ([')'], "')'")]

def analyzePipelineRisk (command : Text) : List String :=
  (match disallowedPipelineOps.find? fun op => Text.contains command op.1 with
    | some op => ["Uses shell operator: " ++ op.2]
    | none => []) ++
  (if Text.contains command "$(".toList ∨ Text.contains command [Char.ofNat 96] then ["Uses command substitution"] else []) ++
  (if command.any fun c => c = '<' ∨ c = '>' then ["Uses shell redirection"] else [])

def parseCommand (command : Text) : Option Text × List Text :=
  match Shlex.split command with
  | some (executable :: args) => (some executable, args)
  | _ => (none, [])

def isSafeBin (sys : System) (executable : Text) (args : List Text) : Bool :=
  let name := if executable.any fun c => c = '/' ∨ c = '\\' then (PosixPath.parse executable).name else executable
  safeBins.contains name && args.all fun arg =>
    arg.head? = some '-' || !((arg.any fun c => c = '/' ∨ c = '\\') || arg.head? = some '~' || sys.pathExists arg)

structure CommandAnalysis where
  ok : Bool
  reason : Option String := none
  executable : Option Text := none
  resolvedPath : Option Text := none
  args : List Text := []
  isPipeline : Bool := false
  segments : List Text := []
  hasDangerousChars : Bool := false
  isSafeBin : Bool := false
  riskReasons : List String := []

def splitPipeline (command : Text) : List Text := ((command.splitOn '|').map Text.strip).filter (· ≠ [])

def riskReasons (sys : System) (command : Text) : List String :=
  let reasons := (if command.any fun c => c = '\r' ∨ c = '\n' then ["Multi-line command (newlines / heredoc)"] else []) ++
    if hasDangerousPattern sys command then ["Matches dangerous command pattern"] else []
  reasons ++ analyzePipelineRisk command

def analyzePipeline (sys : System) (risks : List String) (first : Text) (rest : List Text) : CommandAnalysis :=
  let segments := first :: rest
  let risks := risks ++ ((segments.filter (hasDangerousPattern sys)).map fun seg =>
    "Dangerous pattern in pipeline segment: " ++ String.ofList (seg.take 60)).eraseDups
  let (executable, args) := parseCommand first
  -- An empty name is no executable.
  let named := executable.filter (· ≠ [])
  { ok := true, executable, resolvedPath := named.bind sys.resolve, args, isPipeline := true, segments
    hasDangerousChars := risks ≠ [], riskReasons := risks, isSafeBin := named.any fun name => isSafeBin sys name args }

def analyzeSingle (sys : System) (risks : List String) (command : Text) : CommandAnalysis :=
  let (executable, args) := parseCommand command
  match executable.filter (· ≠ []) with
  | none =>
    { ok := false, reason := some "Could not parse command", hasDangerousChars := risks ≠ []
      riskReasons := if risks = [] then ["Unparseable command"] else risks }
  | some name =>
    let risks := risks ++ if name.any isMetachar then ["Shell metacharacters in executable name"] else []
    { ok := true, executable := some name, resolvedPath := sys.resolve name, args, hasDangerousChars := risks ≠ [], riskReasons := risks
      isSafeBin := isSafeBin sys name args }

/-- `analyze_command`; none where the scan for protected paths raises. -/
def analyzeCommand (sys : System) (command : Text) : Option CommandAnalysis :=
  let command := Text.strip command
  if command = [] then some { ok := false, reason := some "Empty command" }
  else if command.any (· = Char.ofNat 0) then
    some { ok := false, reason := some "Null byte in command", hasDangerousChars := true, riskReasons := ["Null byte in command"] }
  else
    (findProtectedPaths sys.paths command).map fun
      | path :: more =>
        { ok := false
          reason := some ("Command touches a protected path (" ++ String.ofList path ++ "). Sensitive locations like SSH keys, " ++
            "cloud credentials, and the system keychain are always blocked.")
          hasDangerousChars := true
          riskReasons := (path :: more).map fun p => "Touches protected path: " ++ String.ofList p }
      | [] =>
        let risks := riskReasons sys command
        if Text.contains command ['|'] && !Text.contains command "||".toList then
          match splitPipeline command with
          | [] =>
            { ok := false, reason := some "Empty pipeline", isPipeline := true, hasDangerousChars := true
              riskReasons := risks ++ ["Empty pipeline"] }
          | first :: rest => analyzePipeline sys risks first rest
        else analyzeSingle sys risks command

/-! ## Protected paths -/

/-- The scan finds something in the command. -/
def Caught (h : Host) (command : Text) : Prop := ∃ flagged, findProtectedPaths h command = some flagged ∧ flagged ≠ []

instance (h : Host) (command : Text) : Decidable (Caught h command) :=
  decidable_of_iff (∃ flagged ∈ findProtectedPaths h command, flagged ≠ []) Iff.rfl

/-- Some text is read as a path that reaches a protected root, and none has a wildcard
    behind the `~` of an unknown user before it is. -/
def Found (h : Host) (texts : List Text) : Prop :=
  (∃ text ∈ texts, ∃ t ∈ readings text, Reaches h t) ∧ ∀ text ∈ texts, ¬ Raises h text

/-- The word stands apart: nothing is behind it up to the next blank, and only `<`, `>`,
    `&` and digits are in front of it. -/
def Apart (w : Text) (ps : List Shell.Piece) : Prop :=
  ∃ front, (∀ c ∈ Shell.glue front, isRedirection c = true) ∧ Shell.IsRun (front ++ [.word w]) ps

theorem rejected_of_caught {sys : System} {command : Text} (h : Caught sys.paths (Text.strip command)) :
    ∃ a, analyzeCommand sys command = some a ∧ a.ok = false := by
  obtain ⟨flagged, hfind, hne⟩ := h
  unfold analyzeCommand
  dsimp only
  split
  · exact ⟨_, rfl, rfl⟩
  · split
    · exact ⟨_, rfl, rfl⟩
    · rw [hfind]
      cases flagged with
      | nil => exact absurd rfl hne
      | cons path more => exact ⟨_, rfl, rfl⟩

theorem caught_iff {h : Host} {command : Text} : Caught h command ↔ Found h (tokens command) := by
  unfold Caught Found
  rw [find_nonempty_iff, and_comm]

theorem tokens_of_lex {command : Text} {ps : List Shell.Piece} (h : Shell.lex command = some ps) :
    tokens command = Shell.stretches none ps := by
  unfold tokens
  rw [Shell.split_of_lex h]
  rfl

theorem glue_append (ps qs : List Shell.Piece) : Shell.glue (ps ++ qs) = Shell.glue ps ++ Shell.glue qs := by
  induction ps with
  | nil => rfl
  | cons p ps ih =>
    cases p with
    | word t =>
      show t ++ Shell.glue (ps ++ qs) = t ++ Shell.glue ps ++ _
      rw [ih, List.append_assoc]
    | op c => exact congrArg (c :: ·) ih
    | gap => exact ih

/-- A protected word that stands apart is found in its stretch. -/
theorem found_of_apart {h : Host} {w : Text} {ps : List Shell.Piece} (hapart : Apart w ps) (hw : Protected h w) (hlit : Literal w) :
    ∃ text ∈ Shell.stretches none ps, ∃ t ∈ readings text, Reaches h t := by
  obtain ⟨front, hfront, hrun⟩ := hapart
  refine ⟨_, hrun.mem_stretches, ?_⟩
  rw [glue_append, show Shell.glue [.word w] = w from List.append_nil w]
  exact reaches_of_redirected h hfront hw hlit

/-- `words` are the words of a command as the shell has them, after quote removal and the
    expansion of `~` and `$HOME`; where there is nothing to expand, an absolute path among
    them is one of the words that stand in the command. Where a word is protected, the scan
    comes back with something exactly when one of the texts it reads is found. In a command
    with nothing to expand, these are the stretches between blanks, and a protected word
    that stands apart is found unless another stretch makes the scan raise. What is found
    makes the command be rejected. -/
theorem protected_word_found_iff (sys : System) (words : Text → List Text)
    (hshell : ∀ command ps, Shell.lex command = some ps → ∀ w, w.head? = some '/' → (w ∈ words command ↔ .word w ∈ ps))
    (command : Text) :
    (((∃ w ∈ words command, Protected sys.paths w) → Caught sys.paths command) ↔
      ((∃ w ∈ words command, Protected sys.paths w) → Found sys.paths (tokens command))) ∧
    (∀ ps, Shell.lex command = some ps →
      (((∃ w ∈ words command, Protected sys.paths w) → Caught sys.paths command) ↔
        ∀ w, .word w ∈ ps → Protected sys.paths w → Found sys.paths (Shell.stretches none ps)) ∧
      ((∀ text ∈ Shell.stretches none ps, ¬ Raises sys.paths text) →
        ∀ w, Protected sys.paths w → Literal w → Apart w ps → Caught sys.paths command)) ∧
    (Caught sys.paths (Text.strip command) → ∃ a, analyzeCommand sys command = some a ∧ a.ok = false) := by
  refine ⟨by rw [caught_iff], ?_, rejected_of_caught⟩
  intro ps hlex
  refine ⟨?_, ?_⟩
  · rw [caught_iff, tokens_of_lex hlex]
    constructor
    · exact fun h w hmem hw => h ⟨w, (hshell command ps hlex w hw.1).2 hmem, hw⟩
    · rintro h ⟨w, hmem, hw⟩
      exact h w ((hshell command ps hlex w hw.1).1 hmem) hw
  · intro hquiet w hw hlit hapart
    rw [caught_iff, tokens_of_lex hlex]
    exact ⟨found_of_apart hapart hw hlit, hquiet⟩

namespace Sample

def host : Host := { home := ["home".toList, "ali".toList], cwd := ["home".toList, "ali".toList], users := fun _ => none, uid := 1000, profiles := [] }

def system : System :=
  { paths := host, isWord := fun c => c.isAlphanum || c = '_', resolve := fun w => some ("/usr/bin/".toList ++ w), pathExists := fun _ => false }

/-- The words that stand in a command with nothing to expand. -/
def words (command : Text) : List Text :=
  ((Shell.lex command).getD []).filterMap fun
    | .word w => some w
    | _ => none

theorem mem_words (command : Text) (ps : List Shell.Piece) (h : Shell.lex command = some ps) (w : Text) :
    w ∈ words command ↔ .word w ∈ ps := by
  unfold words
  rw [h]
  constructor
  · intro hw
    obtain ⟨p, hp, hpw⟩ := List.mem_filterMap.1 hw
    cases p with
    | word t =>
      cases hpw
      exact hp
    | _ => cases hpw
  · exact fun hw => List.mem_filterMap.2 ⟨_, hw, rfl⟩

def shadow : Text := ['/', 'e', 't', 'c', '/', 's', 'h', 'a', 'd', 'o', 'w']

theorem redirected_apart : Apart shadow [.word ['w', 'c'], .gap, .word ['2'], .op '>', .word shadow] := by
  have hredir : (Shell.glue [.word ['2'], .op '>']).all isRedirection = true := by decide
  refine ⟨[.word ['2'], .op '>'], List.all_eq_true.1 hredir, by decide, List.cons_ne_nil _ _, ?_⟩
  exact ⟨[.word ['w', 'c'], .gap], [], rfl, .inr rfl, .inl rfl⟩

/-- A redirection in front of the file hides nothing. -/
theorem protected_word_found_redirected : Caught host "wc 2>/etc/shadow".toList := by
  have hlex : Shell.lex "wc 2>/etc/shadow".toList = some [.word ['w', 'c'], .gap, .word ['2'], .op '>', .word shadow] := by
    rw [String.toList_ofList]
    decide +kernel
  have hcaught := ((protected_word_found_iff system words (fun c ps h w _ => mem_words c ps h w) _).2.1 _ hlex).2
  exact hcaught (by decide +kernel) shadow (by decide +kernel) (by decide +kernel) redirected_apart

end Sample

/-- A redirection needs no space before the file, nor does `;` after it. -/
theorem a_glued_operator_hides_the_path :
    ((∃ w ∈ Sample.words "cat</etc/shadow".toList, Protected Sample.host w) ∧ ¬ Caught Sample.host "cat</etc/shadow".toList ∧
      (analyzeCommand Sample.system "cat</etc/shadow".toList).map (·.ok) = some true) ∧
    (∃ w ∈ Sample.words "cat /etc/shadow;".toList, Protected Sample.host w) ∧ ¬ Caught Sample.host "cat /etc/shadow;".toList ∧
      (analyzeCommand Sample.system "cat /etc/shadow;".toList).map (·.ok) = some true := by
  repeat rw [String.toList_ofList]
  decide +kernel

end Flowly.Exec.Safety
