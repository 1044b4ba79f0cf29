import RalphVault.PurePath
import RalphVault.Security.DatabaseUrl

/-!
# Security — environment prefixes

The environment prefix of a command in `pre_tool_guard.py`: assignments and
invocations of `env` with their options, split strings included, which are
read by `shlex` and stripped in turn. Functions that call each other carry a
fuel; a run that has more of it than the tokens have characters ends.
-/

namespace RalphVault.EnvPrefix

open Security

/-! ## Tokens -/

section Tokens

variable (lower : Text → Text)

/-- `executable_name`; `lower` is `str.lower`. -/
def executableName (token : Text) : Text :=
  lower (((PurePath.parse token).parts.getLast?.map Subtype.val).getD [])

/-- `is_env_executable`. -/
def isEnvExecutable (token : Text) : Bool := executableName lower token == txt "env"

end Tokens

/-- `is_assignment_prefix`. -/
def isAssignmentPrefix (token : Text) : Bool :=
  token.contains '=' && !startsWith ['-'] token && !(token.takeWhile (· != '=')).isEmpty

/-- `ENV_OPTIONS_WITH_VALUE`. -/
def envOptionsWithValue : List Text :=
  [txt "-u", txt "--unset", txt "-C", txt "--chdir", txt "-P", txt "-a", txt "--argv0"]

/-- `ENV_SPLIT_STRING_OPTIONS`. -/
def envSplitStringOptions : List Text := [txt "-S", txt "--split-string"]

/-- `ENV_SHORT_OPTIONS_WITH_VALUE`. -/
def envShortOptionsWithValue : List Char := ['u', 'C', 'P', 'a']

/-- `ENV_SHORT_OPTIONS_WITHOUT_VALUE`. -/
def envShortOptionsWithoutValue : List Char := ['0', 'i', 'v']

/-- The token is a long option of the set with its value after `=`. -/
def isLongWithValue (options : List Text) (token : Text) : Bool :=
  options.any fun option =>
    startsWith (txt "--") option && startsWith (option ++ ['=']) token

/-- `token.split("=", 1)[1]`. -/
def valueOf (token : Text) : Text := (token.dropWhile (· != '=')).drop 1

/-! ## Short options -/

/-- The action of `parse_short_env_options`; a split string comes with the
tokens behind it and is expanded by the caller. -/
inductive ShortAction where
  | notShortOption
  | consumeOption
  | consumeOptionWithNext
  | splitString (value : Text) (suffix : List Text)
  | splitNothing
  | unknownOption

/-- The loop of `parse_short_env_options` over the letters of one token;
`rest` are the tokens behind it. -/
def shortOptions (rest : List Text) : Text → ShortAction
  | [] => .consumeOption
  | option :: value =>
      if envShortOptionsWithoutValue.contains option then shortOptions rest value
      else if envShortOptionsWithValue.contains option then
        if !value.isEmpty || rest.isEmpty then .consumeOption else .consumeOptionWithNext
      else if option = 'S' then
        if !value.isEmpty then .splitString value rest
        else match rest with
          | [] => .splitNothing
          | next :: suffix => .splitString next suffix
      else .unknownOption

/-- `parse_short_env_options`. -/
def parseShortEnvOptions (token : Text) (rest : List Text) : ShortAction :=
  match token with
  | '-' :: '-' :: _ => .notShortOption
  | '-' :: options => shortOptions rest options
  | _ => .notShortOption

/-! ## Stripping -/

/-- `expand_env_split_string`, given the two functions it calls. -/
def expandEnvSplitString (invocation prefixes : List Text → Option (List Text)) (value : Text)
    (suffix : List Text) : Option (List Text) :=
  match shlexStep .blank [] value with
  | none => some []
  | some tokens => (invocation (tokens ++ suffix)).bind prefixes

section Strip

variable (lower : Text → Text)

mutual

/-- The loop of `strip_env_invocation`, over the tokens behind the `env`.
The tokens behind the first assignment are operands: what follows them is
the command. -/
def stripEnvInvocation : Nat → List Text → Option (List Text)
  | 0, _ => none
  | _ + 1, [] => some []
  | fuel + 1, token :: rest =>
      let expand := expandEnvSplitString (stripEnvInvocation fuel) (stripEnvironmentPrefix fuel)
      if token = txt "--" then some rest
      else if envSplitStringOptions.contains token then
        match rest with
        | [] => some []
        | value :: suffix => expand value suffix
      else if isLongWithValue envSplitStringOptions token then expand (valueOf token) rest
      else match parseShortEnvOptions token rest with
        | .splitString value suffix => expand value suffix
        | .splitNothing => some []
        | .consumeOption => stripEnvInvocation fuel rest
        | .consumeOptionWithNext => stripEnvInvocation fuel (rest.drop 1)
        | .notShortOption | .unknownOption =>
            if envOptionsWithValue.contains token then stripEnvInvocation fuel (rest.drop 1)
            else if isLongWithValue envOptionsWithValue token || startsWith ['-'] token then
              stripEnvInvocation fuel rest
            else if isAssignmentPrefix token then some (rest.dropWhile isAssignmentPrefix)
            else some (token :: rest)

/-- `strip_environment_prefix`. -/
def stripEnvironmentPrefix : Nat → List Text → Option (List Text)
  | 0, _ => none
  | _ + 1, [] => some []
  | fuel + 1, token :: rest =>
      if isEnvExecutable lower token then
        (stripEnvInvocation fuel rest).bind (stripEnvironmentPrefix fuel)
      else if isAssignmentPrefix token then stripEnvironmentPrefix fuel rest
      else some (token :: rest)

end

end Strip

/-! ## The characters of the tokens -/

/-- The characters of a list of tokens, and one for each token. -/
def weight (tokens : List Text) : Nat := (tokens.map fun token => token.length + 1).sum

@[simp] theorem weight_nil : weight [] = 0 := rfl

@[simp] theorem weight_cons (token : Text) (tokens : List Text) :
    weight (token :: tokens) = token.length + 1 + weight tokens := by
  simp [weight]

@[simp] theorem weight_append (s t : List Text) : weight (s ++ t) = weight s + weight t := by
  simp [weight]

theorem weight_le_of_suffix {s t : List Text} (h : s <:+ t) : weight s ≤ weight t := by
  obtain ⟨front, rfl⟩ := h
  rw [weight_append]
  exact Nat.le_add_left ..

theorem weight_drop_le (n : Nat) (tokens : List Text) : weight (tokens.drop n) ≤ weight tokens :=
  weight_le_of_suffix (List.drop_suffix n tokens)

/-- What `shlex` may still add to the word it is in. -/
def pending : Shlex → Text → Nat
  | .blank, _ => 1
  | .escaped (some _), word => word.length + 2
  | _, word => word.length + 1

/-- One character moves `shlex` to a state that owes at most one more, or it
ends the word. -/
theorem shlexStep_cons (state : Shlex) (word : Text) (c : Char) (t : Text) :
    (∃ state' word', shlexStep state word (c :: t) = shlexStep state' word' t ∧
      pending state' word' ≤ pending state word + 1) ∨
    (pending state word = word.length + 1 ∧
      shlexStep state word (c :: t) = (shlexStep .blank [] t).map (word :: ·)) := by
  cases state with
  | blank =>
      refine .inl ?_
      simp only [shlexStep]
      split
      · exact ⟨_, _, rfl, by simp [pending]⟩
      · split
        · exact ⟨_, _, rfl, by simp [pending]⟩
        · split
          · exact ⟨_, _, rfl, by simp [pending]⟩
          · exact ⟨_, _, rfl, by simp [pending]⟩
  | word =>
      simp only [shlexStep]
      split
      · exact .inr ⟨rfl, rfl⟩
      · refine .inl ?_
        split
        · exact ⟨_, _, rfl, by simp [pending]⟩
        · split
          · exact ⟨_, _, rfl, by simp [pending]⟩
          · exact ⟨_, _, rfl, by simp [pending]⟩
  | quoted q =>
      refine .inl ?_
      simp only [shlexStep]
      split
      · exact ⟨_, _, rfl, by simp [pending]⟩
      · split
        · exact ⟨_, _, rfl, by simp [pending]⟩
        · exact ⟨_, _, rfl, by simp [pending]⟩
  | escaped back =>
      refine .inl ?_
      cases back with
      | none => exact ⟨_, _, rfl, by simp [pending]⟩
      | some q =>
          refine ⟨_, _, rfl, ?_⟩
          -- the backslash comes back before a character that needs none
          simp only [pending]
          split <;> simp

/-- `shlex` reads words that are, with one character between them, no longer
than the text. -/
theorem weight_shlexStep {state : Shlex} {word t : Text} {words : List Text}
    (h : shlexStep state word t = some words) : weight words ≤ pending state word + t.length := by
  induction t generalizing state word words with
  | nil =>
      cases state with
      | blank =>
          cases Option.some.inj h
          exact Nat.zero_le _
      | word =>
          cases Option.some.inj h
          simp [pending]
      | quoted q => cases h
      | escaped back => cases back <;> cases h
  | cons c t ih =>
      rw [List.length_cons]
      obtain ⟨state', word', hstep, hle⟩ | ⟨hpending, hstep⟩ := shlexStep_cons state word c t
      · have hwords := ih (hstep ▸ h)
        omega
      · obtain ⟨later, hlater, rfl⟩ := Option.map_eq_some_iff.mp (hstep ▸ h)
        have hwords := ih hlater
        rw [hpending, weight_cons]
        simp only [pending] at hwords
        omega

/-- A text that is split weighs no more than the token that it was. -/
theorem weight_split {value : Text} {words : List Text}
    (h : shlexStep .blank [] value = some words) : weight words ≤ value.length + 1 := by
  have := weight_shlexStep h
  simp only [pending] at this
  omega

/-- What a short option splits lies behind it, and is less than it was. -/
theorem shortOptions_split {rest : List Text} {options value : Text} {suffix : List Text}
    (h : shortOptions rest options = .splitString value suffix) :
    value.length + 1 + weight suffix ≤ options.length + weight rest := by
  induction options with
  | nil => cases h
  | cons option later ih =>
      unfold shortOptions at h
      rw [List.length_cons]
      split at h
      · have := ih h
        omega
      · split at h
        · split at h <;> cases h
        · split at h
          · split at h
            · cases h
              omega
            · split at h
              · cases h
              · cases h
                simp only [weight_cons]
                omega
          · cases h

theorem parseShortEnvOptions_split {token value : Text} {rest suffix : List Text}
    (h : parseShortEnvOptions token rest = .splitString value suffix) :
    value.length + 1 + weight suffix ≤ token.length + weight rest := by
  unfold parseShortEnvOptions at h
  split at h
  · cases h
  · have := shortOptions_split h
    simp only [List.length_cons]
    omega
  · cases h

theorem length_valueOf_lt {token : Text} (h : isLongWithValue envSplitStringOptions token = true) :
    (valueOf token).length < token.length := by
  have hsome : token ≠ [] := by
    rintro rfl
    exact absurd h (by decide)
  have hpos : 0 < token.length := List.length_pos_iff.mpr hsome
  have hle : (token.dropWhile (· != '=')).length ≤ token.length :=
    (List.dropWhile_suffix _).length_le
  rw [valueOf, List.length_drop]
  omega

/-! ## Runs -/

section Runs

variable {lower : Text → Text}

/-- The tokens start with no assignment and with no `env`. -/
def Stripped (lower : Text → Text) (tokens : List Text) : Prop :=
  ∀ token, tokens.head? = some token →
    isEnvExecutable lower token = false ∧ isAssignmentPrefix token = false

/-- A function of the fuel has one result once the fuel is more than `n`. -/
def Ends (n : Nat) (f : Nat → Option (List Text)) (result : List Text) : Prop :=
  ∀ fuel, n < fuel → f fuel = some result

/-- Both functions end on tokens of weight up to `n`, with results that weigh
no more, and the prefixes are stripped. -/
structure Settles (lower : Text → Text) (n : Nat) : Prop where
  invocation : ∀ tokens, weight tokens ≤ n → ∃ result,
    weight result ≤ weight tokens ∧ Ends n (stripEnvInvocation lower · tokens) result
  prefixes : ∀ tokens, weight tokens ≤ n → ∃ result, weight result ≤ weight tokens ∧
    Stripped lower result ∧ Ends n (stripEnvironmentPrefix lower · tokens) result

theorem Settles.expand {n : Nat} (h : Settles lower n) (value : Text) (suffix : List Text)
    (hle : value.length + 1 + weight suffix ≤ n) : ∃ result,
      weight result ≤ value.length + 1 + weight suffix ∧
      Ends n (fun fuel => expandEnvSplitString (stripEnvInvocation lower fuel)
        (stripEnvironmentPrefix lower fuel) value suffix) result := by
  cases hsplit : shlexStep .blank [] value with
  | none =>
      refine ⟨[], Nat.zero_le _, fun fuel _ => ?_⟩
      simp [expandEnvSplitString, hsplit]
  | some words =>
      have hwords := weight_split hsplit
      obtain ⟨command, hcommand, hends⟩ := h.invocation (words ++ suffix)
        (by rw [weight_append]; omega)
      rw [weight_append] at hcommand
      obtain ⟨result, hresult, -, hends'⟩ := h.prefixes command (by omega)
      refine ⟨result, by omega, fun fuel hfuel => ?_⟩
      simp only [expandEnvSplitString, hsplit]
      have hinvocation : stripEnvInvocation lower fuel (words ++ suffix) = some command :=
        hends fuel hfuel
      rw [hinvocation, Option.bind_some]
      exact hends' fuel hfuel

theorem Ends.succ {n : Nat} {f : Nat → Option (List Text)} {result : List Text}
    (h : ∀ fuel, n ≤ fuel → f (fuel + 1) = some result) : Ends n f result := by
  intro fuel hfuel
  obtain ⟨before, rfl⟩ : ∃ before, fuel = before + 1 := ⟨fuel - 1, by omega⟩
  exact h before (by omega)

/-- One token behind an `env`: the loop ends with tokens it has, goes on with
fewer, or expands a text that is shorter than the token and the rest. -/
theorem stripEnvInvocation_cons (lower : Text → Text) (token : Text) (rest : List Text) :
    (∃ result, weight result ≤ token.length + 1 + weight rest ∧
      ∀ fuel, stripEnvInvocation lower (fuel + 1) (token :: rest) = some result) ∨
    (∃ tokens, weight tokens ≤ weight rest ∧
      ∀ fuel, stripEnvInvocation lower (fuel + 1) (token :: rest) =
        stripEnvInvocation lower fuel tokens) ∨
    (∃ value suffix, value.length + 1 + weight suffix ≤ token.length + weight rest ∧
      ∀ fuel, stripEnvInvocation lower (fuel + 1) (token :: rest) =
        expandEnvSplitString (stripEnvInvocation lower fuel) (stripEnvironmentPrefix lower fuel)
          value suffix) := by
  simp only [stripEnvInvocation]
  split
  · exact .inl ⟨rest, by omega, fun _ => rfl⟩
  · split
    · next hsplit =>
      cases rest with
      | nil => exact .inl ⟨[], Nat.zero_le _, fun _ => rfl⟩
      | cons value suffix =>
          refine .inr (.inr ⟨value, suffix, ?_, fun _ => rfl⟩)
          rw [weight_cons]
          exact Nat.le_add_left ..
    · split
      · next hlong =>
        have hshort := length_valueOf_lt hlong
        exact .inr (.inr ⟨valueOf token, rest, by omega, fun _ => rfl⟩)
      · have hdrop := weight_drop_le 1 rest
        split
        · next value suffix hshort =>
          exact .inr (.inr ⟨value, suffix, parseShortEnvOptions_split hshort, fun _ => rfl⟩)
        · exact .inl ⟨[], Nat.zero_le _, fun _ => rfl⟩
        · exact .inr (.inl ⟨rest, Nat.le_refl _, fun _ => rfl⟩)
        · exact .inr (.inl ⟨rest.drop 1, hdrop, fun _ => rfl⟩)
        -- no short option: a long one, a word with a dash, or an operand
        all_goals
          split
          · exact .inr (.inl ⟨rest.drop 1, hdrop, fun _ => rfl⟩)
          · split
            · exact .inr (.inl ⟨rest, Nat.le_refl _, fun _ => rfl⟩)
            · split
              · have hoperands := weight_le_of_suffix
                  (List.dropWhile_suffix isAssignmentPrefix (l := rest))
                exact .inl ⟨rest.dropWhile isAssignmentPrefix, by omega, fun _ => rfl⟩
              · exact .inl ⟨token :: rest, by simp, fun _ => rfl⟩

theorem Settles.invocation_cons {n : Nat} (h : Settles lower n) {token : Text} {rest : List Text}
    (hle : token.length + 1 + weight rest ≤ n + 1) : ∃ result,
      weight result ≤ token.length + 1 + weight rest ∧
      Ends (n + 1) (stripEnvInvocation lower · (token :: rest)) result := by
  obtain ⟨result, hweight, hstep⟩ | ⟨tokens, hshort, hstep⟩ | ⟨value, suffix, hshort, hstep⟩ :=
    stripEnvInvocation_cons lower token rest
  · exact ⟨result, hweight, Ends.succ fun fuel _ => hstep fuel⟩
  · obtain ⟨result, hweight, hends⟩ := h.invocation tokens (by omega)
    refine ⟨result, by omega, Ends.succ fun fuel hfuel => ?_⟩
    rw [hstep fuel]
    exact hends fuel (by omega)
  · obtain ⟨result, hweight, hends⟩ := h.expand value suffix (by omega)
    refine ⟨result, by omega, Ends.succ fun fuel hfuel => ?_⟩
    rw [hstep fuel]
    exact hends fuel (by omega)

theorem Settles.prefixes_cons {n : Nat} (h : Settles lower n) {token : Text} {rest : List Text}
    (hle : token.length + 1 + weight rest ≤ n + 1) : ∃ result,
      weight result ≤ token.length + 1 + weight rest ∧ Stripped lower result ∧
      Ends (n + 1) (stripEnvironmentPrefix lower · (token :: rest)) result := by
  by_cases henv : isEnvExecutable lower token = true
  · obtain ⟨command, hcommand, hends⟩ := h.invocation rest (by omega)
    obtain ⟨result, hweight, hstripped, hends'⟩ := h.prefixes command (by omega)
    refine ⟨result, by omega, hstripped, Ends.succ fun fuel hfuel => ?_⟩
    have hinvocation : stripEnvInvocation lower fuel rest = some command := hends fuel (by omega)
    simp only [stripEnvironmentPrefix, henv, if_true, hinvocation, Option.bind_some]
    exact hends' fuel (by omega)
  · by_cases hassign : isAssignmentPrefix token = true
    · obtain ⟨result, hweight, hstripped, hends⟩ := h.prefixes rest (by omega)
      refine ⟨result, by omega, hstripped, Ends.succ fun fuel hfuel => ?_⟩
      simp only [stripEnvironmentPrefix, henv, hassign, if_true]
      exact hends fuel (by omega)
    · refine ⟨token :: rest, by simp, ?_, Ends.succ fun fuel _ => ?_⟩
      · rintro head ⟨⟩
        exact ⟨by simpa using henv, by simpa using hassign⟩
      · simp [stripEnvironmentPrefix, henv, hassign]

theorem settles (n : Nat) : Settles lower n := by
  induction n with
  | zero =>
      have hnil {tokens : List Text} (h : weight tokens ≤ 0) : tokens = [] := by
        cases tokens with
        | nil => rfl
        | cons token rest =>
            rw [weight_cons] at h
            omega
      constructor
      · intro tokens h
        cases hnil h
        exact ⟨[], Nat.le_refl _, Ends.succ fun _ _ => rfl⟩
      · intro tokens h
        cases hnil h
        exact ⟨[], Nat.le_refl _, fun _ h => (by cases h), Ends.succ fun _ _ => rfl⟩
  | succ n ih =>
      constructor
      · intro tokens h
        cases tokens with
        | nil => exact ⟨[], Nat.le_refl _, Ends.succ fun _ _ => rfl⟩
        | cons token rest =>
            rw [weight_cons] at h ⊢
            exact ih.invocation_cons h
      · intro tokens h
        cases tokens with
        | nil => exact ⟨[], Nat.le_refl _, fun _ h => (by cases h), Ends.succ fun _ _ => rfl⟩
        | cons token rest =>
            rw [weight_cons] at h ⊢
            exact ih.prefixes_cons h

/-- Tokens that are stripped are left as they are. -/
theorem stripEnvironmentPrefix_of_stripped {tokens : List Text} (h : Stripped lower tokens)
    (fuel : Nat) : stripEnvironmentPrefix lower (fuel + 1) tokens = some tokens := by
  cases tokens with
  | nil => rfl
  | cons token rest =>
      obtain ⟨henv, hassign⟩ := h token rfl
      simp [stripEnvironmentPrefix, henv, hassign]

end Runs

/-- Stripping ends on every list of tokens, with one result that starts with
no assignment and no `env`, and that stripping leaves as it is. -/
theorem stripEnvironmentPrefix_settles (lower : Text → Text) (tokens : List Text) : ∃ result,
    (∀ fuel, weight tokens < fuel → stripEnvironmentPrefix lower fuel tokens = some result) ∧
    (∀ token, result.head? = some token →
      isEnvExecutable lower token = false ∧ isAssignmentPrefix token = false) ∧
    ∀ fuel, 0 < fuel → stripEnvironmentPrefix lower fuel result = some result := by
  obtain ⟨result, -, hstripped, hends⟩ := (settles (weight tokens)).prefixes tokens (Nat.le_refl _)
  refine ⟨result, hends, hstripped, fun fuel hfuel => ?_⟩
  obtain ⟨before, rfl⟩ : ∃ before, fuel = before + 1 := ⟨fuel - 1, by omega⟩
  exact stripEnvironmentPrefix_of_stripped hstripped before

example : stripEnvironmentPrefix Memory.asciiLower 40
    [txt "A=1", txt "/usr/bin/env", txt "-vS", txt "-u HOME B=2 'env' x=y", txt "npm"] =
      some [txt "npm"] := by
  decide +kernel

end RalphVault.EnvPrefix
