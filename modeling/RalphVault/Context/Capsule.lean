import RalphVault.Places
import RalphVault.Memory.Value
import RalphVault.SessionStart.Reducer

/-!
# Context — capsules

The bounded text a progress context is shown as: `_clean`, `_fit_lines`,
`_capsule_lines` and `render_capsule` of `progress_context.py`. A source
holds the fields of a checked state as its schema has them. The four
patterns of `_clean` are written by what they take: a digest mark and at
most 64 hexadecimal digits, a run of letters and digits, or everything up
to the next blank, comma or semicolon.
-/

namespace RalphVault.Context.Capsule

open Memory
open SessionStart (joinLines)

/-! ## Sanitising -/

/-- `[0-9a-f]`, ignoring case. -/
def isHex (c : Char) : Bool :=
  isAsciiDigit c || (97 ≤ c.toNat && c.toNat ≤ 102) || (65 ≤ c.toNat && c.toNat ≤ 70)

/-- `[A-Za-z0-9]`, ignoring case. -/
def isWordChar (c : Char) : Bool := isAsciiAlnum (foldCase c)

/-- `[^\s,;]`. -/
def isPathChar (c : Char) : Bool := !(isSpace c || c == ',' || c == ';')

/-- `sha256:[0-9a-f]{8}`, ignoring case: the head of a match of `_HASH_RE`. -/
def digestMark : List (Char → Bool) :=
  (txt "sha256:").map (fun a c => foldCase c == a) ++ List.replicate 8 isHex

/-- The length of a match of `_HASH_RE` at the head of a text, 0 if there is none. -/
def digestLength (t : Text) : Nat :=
  if frontMatches digestMark t then 7 + min 64 ((t.drop 7).takeWhile isHex).length else 0

/-- `_HASH_RE.sub("", text)`: `skip` characters still belong to the last match. -/
def dropDigests : Nat → Text → Text
  | _, [] => []
  | skip + 1, _ :: t => dropDigests skip t
  | 0, c :: t =>
      match digestLength (c :: t) with
      | 0 => c :: dropDigests 0 t
      | n + 1 => dropDigests n t

/-- `(?<![A-Za-z0-9])`, ignoring case. -/
def wordStart : Option Char → Bool
  | none => true
  | some c => !isWordChar c

/-- `_HEX_HASH_RE` matches at the place. -/
def hexHashAt : Place := fun prev t =>
  let run := t.takeWhile isWordChar
  wordStart prev && run.all isHex && 7 ≤ run.length && run.length ≤ 64

/-- `_HEX_HASH_RE.sub("", text)`. -/
def dropHexHashes (t : Text) : Text := replaceFrom hexHashAt (fun c => !isWordChar c) [] false none t

/-- `(?<![A-Za-z0-9])`. -/
def nameStart : Option Char → Bool
  | none => true
  | some c => !isAsciiAlnum c

/-- `_ABSOLUTE_PATH_RE` matches at the place. -/
def absolutePathAt : Place := fun prev t =>
  nameStart prev && frontMatches [(· == '/'), isPathChar] t

/-- `_WINDOWS_PATH_RE` matches at the place. -/
def windowsPathAt : Place := fun prev t => nameStart prev &&
  frontMatches [fun c => isAsciiLower c || isAsciiUpper c, (· == ':'), (· == '\\'), isPathChar] t

def repoFile : Text := txt "repo-file"

/-- `pattern.sub("repo-file", text)` for one of the two patterns of a path. -/
def subPaths (starts : Place) (t : Text) : Text :=
  replaceFrom starts (fun c => !isPathChar c) repoFile false none t

/-- The text of `_clean` before its limit is applied. -/
def sanitized (t : Text) : Text :=
  compactSpace (subPaths windowsPathAt (subPaths absolutePathAt
    (dropHexHashes (dropDigests 0 (compactSpace t)))))

/-- `_clean`. -/
def clean (limit : Nat) (t : Text) : Text :=
  if limit < (sanitized t).length then rstrip ((sanitized t).take (limit - 3)) ++ txt "..."
  else sanitized t

/-! ## Budgets -/

def fits (byteLimit wordLimit : Nat) (t : Text) : Bool :=
  utf8Len t ≤ byteLimit && (words t).length ≤ wordLimit

/-- The loop that takes words off the end of a first line that does not fit;
`n` words are left. -/
def popWords (byteLimit wordLimit : Nat) (ws : List Text) : Nat → Option Text
  | 0 => none
  | n + 1 =>
      if fits byteLimit wordLimit (joinWith [' '] (ws.take (n + 1))) then
        some (joinWith [' '] (ws.take (n + 1)))
      else popWords byteLimit wordLimit ws n

/-- One turn of the loop of `_fit_lines`. -/
def fitLine (byteLimit wordLimit : Nat) (selected : List Text) (rawLine : Text) : List Text :=
  let line := clean 500 rawLine
  if line.isEmpty then selected
  else if fits byteLimit wordLimit (joinLines (selected ++ [line])) then selected ++ [line]
  else if selected.isEmpty then
    (popWords byteLimit wordLimit (words line) (words line).length).toList
  else selected

/-- `_fit_lines`. -/
def fitLines (lines : List Text) (byteLimit wordLimit : Nat) : Text :=
  joinLines (lines.foldl (fitLine byteLimit wordLimit) [])

/-! ## Lines -/

/-- What a capsule reads of a `ContextSource`. -/
structure Source where
  planId : Text
  status : Text
  phase : Text
  objective : Text
  nextAction : Text
  /-- The summary of `latest_decision`. -/
  latestDecision : Option Text
  openBlockers : List Text
  openQuestions : List Text
  validation : List (Text × Text)
  generation : Int
  /-- The summaries of the events. -/
  events : List Text

inductive Kind where
  | full
  | delta
  | expanded

inductive Profile where
  | luna
  | terra
  | sol
  | unknown

/-- `CAPSULE_KINDS`. -/
def kindNamed (kind : Text) : Option Kind :=
  if kind = txt "full" then some .full
  else if kind = txt "delta" then some .delta
  else if kind = txt "expanded" then some .expanded
  else none

/-- `profile if profile in PROFILES else "unknown"`. -/
def checkedProfile (profile : Text) : Profile :=
  if profile = txt "luna" then .luna
  else if profile = txt "terra" then .terra
  else if profile = txt "sol" then .sol
  else .unknown

/-- `not verified or profile in {"unknown", "sol"}`. -/
def pointerOnly (verified : Bool) : Profile → Bool
  | .unknown => true
  | .sol => true
  | _ => !verified

/-- The pairs of `_validation_line`. -/
def validationPairs (validation : List (Text × Text)) : List (Text × Text) :=
  ((validation.insertionSort fun a b => textLt b.1 a.1 = false).map fun e =>
    (clean 80 e.1, clean 80 e.2)).filter fun e => !e.1.isEmpty && !e.2.isEmpty

/-- `_validation_line`. -/
def validationLine (validation : List (Text × Text)) : Text :=
  joinWith (txt ", ") ((validationPairs validation).map fun e => e.1 ++ '=' :: e.2)

/-- `_latest_summary`. -/
def latestSummary (s : Source) : Text :=
  let decision := s.latestDecision.getD []
  clean 280 (if decision.isEmpty then s.events.getLast?.getD [] else decision)

/-- The items of a list field that are shown. -/
def shownItems (ts : List Text) : List Text := (ts.map (clean 180)).filter (!·.isEmpty)

def fullAuthority : Text :=
  txt "Authority: current user instructions and repository files remain authoritative."
def shortAuthority : Text := txt "Authority: user instructions/repo files prevail."

/-- A line that is only there when its text is. -/
def lineIf (label value : Text) : List Text := if value.isEmpty then [] else [label ++ value]

section Lines

variable (s : Source) (kind : Kind) (profile : Profile) (verified : Bool)

def planLimit : Nat :=
  if pointerOnly verified profile then 23
  else match profile, kind with
    | .terra, _ => 64
    | _, .delta => 48
    | _, _ => 180

def phaseLimit : Nat :=
  match profile, kind with
  | .terra, _ => 32
  | _, .delta => 48
  | _, _ => 120

def planText : Text := clean (planLimit kind profile verified) s.planId
def statusText : Text := clean 80 s.status
def phaseText : Text := clean (phaseLimit kind profile) s.phase
def nextText : Text := clean 280 s.nextAction

/-- The line of the status and the phase. -/
def stateLine : List Text :=
  if (statusText s).isEmpty then []
  else if (phaseText s kind profile).isEmpty then [txt "State: " ++ statusText s]
  else [txt "State: " ++ statusText s ++ (txt "; phase: " ++ phaseText s kind profile)]

/-- `pointer` below a verified profile. -/
def pointerLines : List Text :=
  [txt "Progress: " ++ planText s kind profile verified] ++ stateLine s kind profile ++
    [match profile with
      | .luna => fullAuthority
      | _ => shortAuthority] ++
    lineIf (txt "Next: ") (nextText s)

/-- `_capsule_lines`: the lines, the byte limit and the word limit. -/
def capsuleLines : List Text × Nat × Nat :=
  if pointerOnly verified profile then
    ([txt "Progress: " ++ planText s kind profile verified] ++
      lineIf (txt "State: ") (statusText s) ++ [shortAuthority], 96, 40)
  else
    let pointer := pointerLines s kind profile verified
    match profile, kind with
    | .terra, _ => (pointer, 192, 32)
    | _, .delta =>
        ([txt "Implementation progress update"] ++ pointer.take 3 ++
          (if (latestSummary s).isEmpty then []
            else [txt "Changed: " ++ clean 120 (latestSummary s)]) ++
          (if (nextText s).isEmpty then [] else [txt "Next: " ++ clean 110 (nextText s)]),
          256, 35)
    | _, .expanded =>
        ([txt "Implementation progress"] ++ pointer.take 3 ++
          lineIf (txt "Objective: ") (clean 240 s.objective) ++
          lineIf (txt "Latest decision: ") (latestSummary s) ++
          lineIf (txt "Next: ") (nextText s) ++
          lineIf (txt "Blockers: ") (joinWith (txt "; ") ((shownItems s.openBlockers).take 3)) ++
          lineIf (txt "Questions: ") (joinWith (txt "; ") ((shownItems s.openQuestions).take 3)) ++
          lineIf (txt "Validation: ") (validationLine s.validation), 1024, 180)
    | _, .full =>
        ([txt "Implementation progress"] ++ pointer.take 3 ++
          lineIf (txt "Latest decision: ") (latestSummary s) ++
          lineIf (txt "Next: ") (nextText s) ++
          lineIf (txt "Blockers: ") (joinWith (txt "; ") ((shownItems s.openBlockers).take 3)) ++
          lineIf (txt "Validation: ") (validationLine s.validation) ++
          (if 0 < s.generation then [txt "Generation: " ++ decimalText s.generation.toNat] else []),
          512, 80)

end Lines

/-- `render_capsule`, unless the kind is not supported. -/
def renderCapsule (s : Source) (kind profile : Text) (verified : Bool) : Option Text := do
  let kind ← kindNamed kind
  let (lines, byteLimit, wordLimit) := capsuleLines s kind (checkedProfile profile) verified
  return fitLines lines byteLimit wordLimit

end RalphVault.Context.Capsule
