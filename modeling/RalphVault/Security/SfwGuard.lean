import RalphVault.ShellWords
import RalphVault.Security.EnvPrefix

/-!
# Security — the sfw guard

`sfw_protection_payload` of `pre_tool_guard.py`: a package manager that
reaches the network has to run through `sfw`. A plain command is refused with
the same words behind `sfw` as the suggestion; a line with operators is cut
into segments and refused without one.
-/

namespace RalphVault.SfwGuard

open ShellWords EnvPrefix
open Memory (asciiLower)

/-- `str.lower`, of which the ASCII part is fixed. -/
structure Casing where
  lower : Text → Text
  lower_ascii : ∀ t, (∀ c ∈ t, c.toNat < 128) → lower t = asciiLower t

/-- The casing of an interpreter that knows ASCII only. -/
def Casing.ascii : Casing := ⟨asciiLower, fun _ _ => rfl⟩

/-! ## Tables -/

/-- `SFW_PROTECTED_COMMANDS`; the commands without subcommands are protected
as they are. -/
def sfwProtectedCommands : List (Text × Option (List Text)) :=
  [(txt "bun", some [txt "add", txt "install", txt "update", txt "x"]),
   (txt "bundle", some [txt "add", txt "install", txt "update"]),
   (txt "cargo", some [txt "add", txt "fetch", txt "install", txt "update"]),
   (txt "composer", some [txt "install", txt "require", txt "update"]),
   (txt "gem", some [txt "install", txt "update"]),
   (txt "go", some [txt "get", txt "install"]),
   (txt "npm", some [txt "add", txt "ci", txt "exec", txt "install", txt "i", txt "update", txt "x"]),
   (txt "npx", none),
   (txt "pip", some [txt "install"]),
   (txt "pip3", some [txt "install"]),
   (txt "pnpm", some [txt "add", txt "dlx", txt "exec", txt "i", txt "import", txt "install",
      txt "update", txt "up"]),
   (txt "uv", some [txt "add", txt "pip", txt "run", txt "sync", txt "tool"]),
   (txt "uvx", none),
   (txt "yarn", some [txt "add", txt "dlx", txt "exec", txt "install", txt "up", txt "upgrade"])]

/-- `PYTHON_BINARIES`. -/
def pythonBinaries : List Text :=
  [txt "python", txt "python3", txt "python3.10", txt "python3.11", txt "python3.12",
   txt "python3.13", txt "python3.14"]

/-- `CLI_OPTIONS_WITH_VALUE`. -/
def cliOptionsWithValue : List Text :=
  [txt "-C", txt "-c", txt "-w", txt "--cache", txt "--chdir", txt "--config", txt "--cwd",
   txt "--dir", txt "--filter", txt "--global-folder", txt "--globalconfig", txt "--prefix",
   txt "--project", txt "--registry", txt "--userconfig", txt "--workspace"]

/-- `CLI_TERMINAL_OPTIONS`. -/
def cliTerminalOptions : List Text := [txt "-h", txt "--help", txt "--version"]

/-- `PIP_OPTIONS_WITH_VALUE`. -/
def pipOptionsWithValue : List Text :=
  [txt "--cache-dir", txt "--cert", txt "--client-cert", txt "--config-settings",
   txt "--exists-action", txt "--extra-index-url", txt "--find-links", txt "--global-option",
   txt "--index-url", txt "--log", txt "--platform", txt "--prefix", txt "--progress-bar",
   txt "--proxy", txt "--python", txt "--retries", txt "--root", txt "--src", txt "--target",
   txt "--timeout", txt "--trusted-host"]

/-- `PIP_TERMINAL_OPTIONS`. -/
def pipTerminalOptions : List Text := [txt "-h", txt "-V", txt "--help", txt "--version"]

/-- `PYTHON_OPTIONS_WITH_VALUE`. -/
def pythonOptionsWithValue : List Text := [txt "-W", txt "-X", txt "--check-hash-based-pycs"]

/-- `SHELL_SEGMENT_PUNCTUATION`, and the comments of `shlex.shlex`. -/
def segmentDialect : Dialect := ⟨[';', '&', '|', '(', ')', '\u0060'], ['#'], by decide⟩

/-- `SFW_BLOCK_REASON`. -/
def sfwBlockReason : Text := txt "Package-manager network commands must run through sfw."

/-- `SFW_GUIDANCE`. -/
def sfwGuidance : Text := txt "Re-run the package-manager segment with sfw as the prefix."

/-! ## Commands behind options -/

/-- `option.split("=", 1)[0]`. -/
def optionName (arg : Text) : Text := arg.takeWhile (· != '=')

/-- The argument is an option with its value in the same word. -/
def isGlued (values : List Text) (arg : Text) : Bool :=
  2 < arg.length && values.contains (arg.take 2)

/-- The argument at `command_index_after_options`; `skip` arguments are the
value of an option. -/
def commandAfterOptions (values terminals : List Text) : Nat → List Text → Option Text
  | _, [] => none
  | skip + 1, _ :: rest => commandAfterOptions values terminals skip rest
  | 0, arg :: rest =>
      if arg = txt "--" then none
      else if !startsWith ['-'] arg || arg == ['-'] then some arg
      else if terminals.contains (optionName arg) then none
      else if values.contains (optionName arg) then
        commandAfterOptions values terminals (if arg.contains '=' then 0 else 1) rest
      -- a value that is glued to a short option is no word of its own
      else commandAfterOptions values terminals 0 rest

/-- `pip_args_require_sfw`. -/
def pipArgsRequireSfw (tokens : List Text) : Bool :=
  commandAfterOptions pipOptionsWithValue pipTerminalOptions 0 tokens == some (txt "install")

/-- The loop of `python_invokes_pip`. -/
def pipModule : Nat → List Text → Bool
  | _, [] => false
  | skip + 1, _ :: rest => pipModule skip rest
  | 0, arg :: rest =>
      if arg = txt "--" then false
      else if arg = txt "-m" then
        match rest with
        | [] => false
        | name :: args => name == txt "pip" && pipArgsRequireSfw args
      else if arg = txt "-c" then false
      else if !startsWith ['-'] arg || arg == ['-'] then false
      else if pythonOptionsWithValue.contains (optionName arg) then
        pipModule (if arg.contains '=' || isGlued pythonOptionsWithValue arg then 0 else 1) rest
      else pipModule 0 rest

section Guard

variable (casing : Casing)

/-- `executable_name`. -/
def executableName (token : Text) : Text := EnvPrefix.executableName casing.lower token

/-- `python_invokes_pip`. -/
def pythonInvokesPip (tokens : List Text) : Bool :=
  match tokens with
  | [] => false
  | token :: rest =>
      !(tokens.length < 4 || !pythonBinaries.contains (executableName casing token)) &&
        pipModule 0 rest

/-- `tokens_require_sfw`. -/
def tokensRequireSfw (tokens : List Text) : Bool :=
  match tokens with
  | [] => false
  | token :: rest =>
      let tool := executableName casing token
      if tool = txt "sfw" then false
      else if pythonInvokesPip casing tokens then true
      else if [txt "pip", txt "pip3"].contains tool then pipArgsRequireSfw rest
      else match (sfwProtectedCommands.find? (·.1 == tool)).map Prod.snd with
        | none => false
        | some none => true
        | some (some subcommands) =>
            (commandAfterOptions cliOptionsWithValue cliTerminalOptions 0 rest).any subcommands.contains

/-- `strip_environment_prefix`, with fuel enough. -/
def stripPrefix (tokens : List Text) : List Text :=
  (stripEnvironmentPrefix casing.lower (weight tokens + 1) tokens).getD []

/-- `has_environment_prefix`. -/
def hasEnvironmentPrefix (tokens : List Text) : Bool :=
  match tokens with
  | [] => false
  | token :: _ => isEnvExecutable casing.lower token || isAssignmentPrefix token

/-- `shell_segments`, and nothing where it raises. -/
def shellSegments (command : Text) : Option (List (List Text)) :=
  (lex segmentDialect command).map (segments segmentDialect)

/-- `shell_segments_require_sfw`. -/
def shellSegmentsRequireSfw (command : Text) : Bool :=
  match shellSegments command with
  | none => false
  | some parts => parts.any fun part => tokensRequireSfw casing (stripPrefix casing part)

/-- The alternatives of `SHELL_COMPLEXITY_RE`. -/
def shellOperators : List Text :=
  [txt "&&", txt "||", txt ";", txt "|", ['\u0060'], txt "$("]

/-- `SHELL_COMPLEXITY_RE.search`. -/
def isComplex (command : Text) : Bool := shellOperators.any (contains · command)

/-- The payload of a refusal. -/
structure SfwPayload where
  reason : Text
  suggestedCommand : Option Text

/-- `sfw_protection_payload`. -/
def sfwProtectionPayload (command : Text) : Option SfwPayload :=
  if isComplex command then
    if shellSegmentsRequireSfw casing command then some ⟨sfwGuidance, none⟩ else none
  else
    match Security.shlexStep .blank [] command with
    | none => none
    | some rawTokens =>
        let tokens := stripPrefix casing rawTokens
        if !tokensRequireSfw casing tokens then none
        else if hasEnvironmentPrefix casing rawTokens then some ⟨sfwGuidance, none⟩
        else some ⟨sfwBlockReason, some (join (txt "sfw" :: tokens))⟩

end Guard

/-! ## The lexer of the split -/

/-- The state of `shlex.split` as a state of the lexer. -/
def stateOf : Security.Shlex → Lex
  | .blank => .blank
  | .word => .word
  | .quoted q => .quoted q
  | .escaped back => .escaped back

theorem start_splitting (c : Char) : start splitting c =
    if c = '\\' then (.escaped none, [])
    else if c = '\'' || c = '"' then (.quoted c, []) else (.word, [c]) := rfl

/-- **`shlex.split` is the lexer without punctuation and comments.** -/
theorem shlexStep_eq (state : Security.Shlex) (tok t : Text) :
    Security.shlexStep state tok t = lexStep splitting (stateOf state) tok t := by
  induction t generalizing state tok with
  | nil =>
      cases state with
      | escaped back => cases back <;> rfl
      | _ => rfl
  | cons c t ih =>
      cases state with
      | blank =>
          simp only [Security.shlexStep, stateOf, lexStep, start_splitting]
          show (if isBlankChar c = true then _ else _) = if isBlankChar c = true then _ else _
          split
          · exact ih .blank []
          · show _ = lexStep splitting _ _ t
            split
            · exact ih (.escaped none) []
            · split
              · exact ih (.quoted c) []
              · exact ih .word [c]
      | word =>
          simp only [Security.shlexStep, stateOf, lexStep]
          show (if isBlankChar c = true then _ else _) = if isBlankChar c = true then _ else _
          split
          · rw [ih .blank []]
            rfl
          · show _ = if (decide (c = '\'') || decide (c = '"')) = true then _ else _
            by_cases hescape : c = '\\'
            · subst hescape
              exact ih (.escaped none) tok
            · rw [if_neg hescape, if_neg hescape]
              split
              · exact ih (.quoted c) tok
              · exact ih .word (tok ++ [c])
      | quoted q =>
          simp only [Security.shlexStep, stateOf, lexStep]
          split
          · exact ih .word tok
          · split
            · exact ih (.escaped (some q)) tok
            · exact ih (.quoted q) (tok ++ [c])
      | escaped back =>
          cases back with
          | none => exact ih .word (tok ++ [c])
          | some q => exact ih (.quoted q) _

theorem split_join (words : List Text) :
    Security.shlexStep .blank [] (join words) = some words := by
  rw [shlexStep_eq]
  exact lex_join words

/-! ## The suggestion -/

theorem isComplex_join (words : List Text) : isComplex (join words) = words.any isComplex := by
  have hoperator : ∀ p ∈ shellOperators, contains p (join words) = words.any (contains p ·) := by
    intro p hp
    refine contains_join ?_ ?_ words
    · rintro rfl
      exact absurd hp (by decide)
    · exact (by decide : ∀ p ∈ shellOperators, ∀ c ∈ p, c ≠ ' ' ∧ c ≠ '\'' ∧ c ≠ '"') p hp
  rw [Bool.eq_iff_iff, isComplex, List.any_eq_true, List.any_eq_true]
  constructor
  · rintro ⟨p, hp, hin⟩
    rw [hoperator p hp, List.any_eq_true] at hin
    obtain ⟨w, hw, hin⟩ := hin
    exact ⟨w, hw, List.any_eq_true.mpr ⟨p, hp, hin⟩⟩
  · rintro ⟨w, hw, hin⟩
    obtain ⟨p, hp, hin⟩ := List.any_eq_true.mp hin
    refine ⟨p, hp, ?_⟩
    rw [hoperator p hp]
    exact List.any_eq_true.mpr ⟨w, hw, hin⟩

/-- The segments of the words behind the first operator. -/
def laterSegments (words : List Text) : List (List Text) :=
  segments segmentDialect (words.dropWhile fun w => !isOperator segmentDialect w)

section Suggestion

variable {casing : Casing}

theorem executableName_sfw : executableName casing (txt "sfw") = txt "sfw" := by
  have hname : executableName casing (txt "sfw") = casing.lower (txt "sfw") := rfl
  rw [hname, casing.lower_ascii _ (by decide)]
  decide

theorem tokensRequireSfw_sfw (rest : List Text) :
    tokensRequireSfw casing (txt "sfw" :: rest) = false := by
  simp only [tokensRequireSfw, executableName_sfw, if_true]

theorem stripPrefix_of_bare {tokens : List Text} (h : hasEnvironmentPrefix casing tokens = false) :
    stripPrefix casing tokens = tokens := by
  have hstripped : Stripped casing.lower tokens := by
    cases tokens with
    | nil => exact fun token htoken => by cases htoken
    | cons token rest =>
        rintro head ⟨⟩
        simpa [hasEnvironmentPrefix] using h
  rw [stripPrefix, stripEnvironmentPrefix_of_stripped hstripped]
  rfl

theorem hasEnvironmentPrefix_sfw (rest : List Text) :
    hasEnvironmentPrefix casing (txt "sfw" :: rest) = false := by
  have hname : EnvPrefix.executableName casing.lower (txt "sfw") = txt "sfw" := executableName_sfw
  simp only [hasEnvironmentPrefix, isEnvExecutable, hname]
  decide

/-- The segment of `sfw` passes; the ones behind it are judged on their own. -/
theorem shellSegmentsRequireSfw_join (words : List Text) :
    shellSegmentsRequireSfw casing (join (txt "sfw" :: words)) =
      (laterSegments words).any fun part => tokensRequireSfw casing (stripPrefix casing part) := by
  have hlex : lex segmentDialect (join (txt "sfw" :: words)) = some (txt "sfw" :: words) :=
    lex_join _
  have hsfw : isOperator segmentDialect (txt "sfw") = false := by decide
  have hcut : segments segmentDialect (txt "sfw" :: words) =
      (txt "sfw" :: words.takeWhile fun w => !isOperator segmentDialect w) ::
        laterSegments words := by
    rw [segments, segmentsFrom, hsfw]
    exact segmentsFrom_cut (List.cons_ne_nil _ _) words
  rw [shellSegmentsRequireSfw, shellSegments, hlex, Option.map_some, hcut]
  simp only [List.any_cons]
  rw [stripPrefix_of_bare (hasEnvironmentPrefix_sfw _), tokensRequireSfw_sfw, Bool.false_or]

/-- The command is refused with a suggestion, and these are its words. -/
structure Suggests (casing : Casing) (command : Text) (words : List Text) : Prop where
  simple : isComplex command = false
  split : Security.shlexStep .blank [] command = some words
  requires : tokensRequireSfw casing words = true
  bare : hasEnvironmentPrefix casing words = false

theorem sfwProtectionPayload_suggests {command s : Text} :
    (∃ payload, sfwProtectionPayload casing command = some payload ∧
      payload.suggestedCommand = some s) ↔
    ∃ words, Suggests casing command words ∧ s = join (txt "sfw" :: words) := by
  constructor
  · rintro ⟨payload, hpayload, hs⟩
    unfold sfwProtectionPayload at hpayload
    split at hpayload
    · split at hpayload
      · cases hpayload
        cases hs
      · cases hpayload
    · next hsimple =>
      split at hpayload
      · cases hpayload
      · next words hsplit =>
        dsimp only at hpayload
        split at hpayload
        · cases hpayload
        · next hrequires =>
          split at hpayload
          · cases hpayload
            cases hs
          · next hbare =>
            have hbare : hasEnvironmentPrefix casing words = false := by simpa using hbare
            rw [stripPrefix_of_bare hbare] at hpayload hrequires
            cases hpayload
            exact ⟨words, ⟨by simpa using hsimple, hsplit, by simpa using hrequires, hbare⟩,
              (Option.some.inj hs).symm⟩
  · rintro ⟨words, h, rfl⟩
    refine ⟨⟨sfwBlockReason, some (join (txt "sfw" :: words))⟩, ?_, rfl⟩
    simp only [sfwProtectionPayload, h.simple, h.split, h.bare, stripPrefix_of_bare h.bare,
      h.requires]
    rfl

/-- The guard refuses what stands behind `sfw` exactly if a segment behind an
operator is refused, and an operator is seen. -/
theorem sfwProtectionPayload_sfw (words : List Text) :
    sfwProtectionPayload casing (join (txt "sfw" :: words)) = none ↔
      ¬(words.any isComplex = true ∧ ((laterSegments words).any fun part =>
        tokensRequireSfw casing (stripPrefix casing part)) = true) := by
  have hcomplex : isComplex (join (txt "sfw" :: words)) = words.any isComplex := by
    rw [isComplex_join]
    rfl
  rw [sfwProtectionPayload, hcomplex, shellSegmentsRequireSfw_join]
  cases hany : words.any isComplex with
  | true =>
      cases hlater : (laterSegments words).any fun part =>
          tokensRequireSfw casing (stripPrefix casing part) with
      | true => simp
      | false => simp
  | false =>
      refine iff_of_true ?_ (fun h => by cases h.1)
      rw [split_join]
      simp only [Bool.false_eq_true, if_false, stripPrefix_of_bare (hasEnvironmentPrefix_sfw words),
        tokensRequireSfw_sfw, Bool.not_false, if_true]

/-- What the guard suggests passes the guard. -/
def Admits (casing : Casing) (command : Text) : Prop :=
  ∀ payload s, sfwProtectionPayload casing command = some payload →
    payload.suggestedCommand = some s → sfwProtectionPayload casing s = none

/-- The suggestion passes unless an operator in quotes has a package manager
behind it. -/
theorem admits_iff (command : Text) : Admits casing command ↔
    ∀ words, Suggests casing command words →
      ¬(words.any isComplex = true ∧ ((laterSegments words).any fun part =>
        tokensRequireSfw casing (stripPrefix casing part)) = true) := by
  constructor
  · intro h words hwords
    rw [← sfwProtectionPayload_sfw]
    obtain ⟨payload, hpayload, hs⟩ := sfwProtectionPayload_suggests.mpr ⟨words, hwords, rfl⟩
    exact h payload _ hpayload hs
  · intro h payload s hpayload hs
    obtain ⟨words, hwords, rfl⟩ := sfwProtectionPayload_suggests.mp ⟨payload, hpayload, hs⟩
    exact (sfwProtectionPayload_sfw words).mpr (h words hwords)

end Suggestion

end RalphVault.SfwGuard
