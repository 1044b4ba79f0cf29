import RalphVault.Security.Patterns

/-!
# Sensitive content — database URLs

The three span finders behind the `database_url` class: URLs whose
credential segment is not a runtime variable, `printf` command lines
that put a literal into such a URL, and assignments to a URL setting. A
span is a pair of positions of the scanned text.
-/

namespace RalphVault.Security

open Regex

abbrev Span := Nat × Nat

/-- `text[a:b]`. -/
def slice (t : List α) (a b : Nat) : List α := (t.take b).drop a

/-- `text.find(c)`. -/
def findChar (c : Char) (t : Text) : Option Nat := t.findIdx? (· == c)

/-- `text.rfind(c)`. -/
def rfindChar (c : Char) : Text → Option Nat
  | [] => none
  | d :: t => match rfindChar c t with
      | some i => some (i + 1)
      | none => if d == c then some 0 else none

/-- `_database_url_authority_end`, as the number of characters of the
authority; `depth` counts the open parentheses of a command
substitution. -/
def authorityLen : Nat → Text → Nat
  | _, [] => 0
  | 0, '$' :: '(' :: t => 2 + authorityLen 1 t
  | 0, c :: t =>
      if isSpace c || ['\'', '"', '<', '>', '/'].contains c then 0
      else 1 + authorityLen 0 t
  | depth + 1, c :: t =>
      1 + authorityLen (if c = '(' then depth + 2 else if c = ')' then depth else depth + 1) t

/-- The authority of a URL whose scheme ends at `e`. -/
def authority (t : Text) (e : Nat) : Text := (t.drop e).take (authorityLen 0 (t.drop e))

/-- What stands between the first colon of the user information and the
last `@` of the authority. -/
def credentialSegment (auth : Text) : Option Text :=
  match rfindChar '@' auth with
  | none => none
  | some sep => (findChar ':' (auth.take sep)).map fun colon => (auth.take sep).drop (colon + 1)

section Finders

variable (uni : Unicode)

/-- `_database_url_credential_spans`. -/
def credentialSpans (text : Text) (safeTemplates : List Span) : List Span :=
  (finditer (dbUrlStart uni) text).filterMap fun (s, e) =>
    match credentialSegment (authority text e) with
    | none => none
    | some seg =>
        if fullmatch runtimePasswordRef seg then none
        else if seg == txt "%s" && safeTemplates.any (fun (a, b) => a ≤ s && s < b) then none
        else some (s, e + (authority text e).length)

/-! ## Shell words -/

/-- A shell token and where it stands. -/
structure Token where
  text : Text
  start : Nat
  stop : Nat

/-- The length of an unquoted or quoted shell word and the quote still
open at its end. -/
def wordLen : Option Char → Text → Nat × Option Char
  | q, [] => (0, q)
  | some q, '\\' :: d :: t =>
      if q ≠ '\'' then let r := wordLen (some q) t; (2 + r.1, r.2)
      else let r := wordLen (some q) (d :: t); (1 + r.1, r.2)
  | some q, c :: t =>
      let r := wordLen (if c = q then none else some q) t; (1 + r.1, r.2)
  | none, c :: t =>
      if c = '\'' || c = '"' then let r := wordLen (some c) t; (1 + r.1, r.2)
      else if isSpace c || [';', '|', '&', '<', '>'].contains c then (0, none)
      else let r := wordLen none t; (1 + r.1, r.2)

/-- The length of the redirection operator at a position. -/
def redirectionLen (t : Text) : Nat :=
  if [txt ">>", txt "<<", txt "<>", txt ">&", txt "<&"].any (startsWith · t) then 2 else 1

/-- The length of the operator at a position, `0` where none stands. -/
def operatorLen (t : Text) : Nat :=
  if startsWith (txt "&&") t || startsWith (txt "||") t then 2
  else if startsWith (txt "&>>") t then 3
  else if startsWith (txt "&>") t then 2
  else match t with
    | [] => 0
    | c :: _ =>
        if [';', '|', '&'].contains c then 1
        else
          let fd := (t.takeWhile uni.digit).length
          match t.drop fd with
          | [] => 0
          | d :: _ => if d = '<' || d = '>' then fd + redirectionLen (t.drop fd) else 0

/-- The loop of `_shell_tokens` from position `i`; every round consumes a
character, so the length of the text is fuel enough. -/
def shellTokensFrom : Nat → Nat → Text → Option (List Token)
  | 0, _, _ => some []
  | _ + 1, _, [] => some []
  | fuel + 1, i, c :: t =>
      if isSpace c then shellTokensFrom fuel (i + 1) t
      else
        let op := operatorLen uni (c :: t)
        if 0 < op then
          (shellTokensFrom fuel (i + op) ((c :: t).drop op)).map
            (⟨(c :: t).take op, i, i + op⟩ :: ·)
        else
          let w := wordLen none (c :: t)
          if w.2.isSome then none
          else (shellTokensFrom fuel (i + w.1) ((c :: t).drop w.1)).map
            (⟨(c :: t).take w.1, i, i + w.1⟩ :: ·)

/-- `_shell_tokens`. -/
def shellTokens (command : Text) : Option (List Token) :=
  shellTokensFrom uni (command.length + 1) 0 command

/-- The states of `shlex` in POSIX mode: between words, in a word, in a
quote, after an escape (inside the quote it returns to, if any). -/
inductive Shlex where
  | blank
  | word
  | quoted (q : Char)
  | escaped (back : Option Char)

def shlexStep : Shlex → Text → Text → Option (List Text)
  | .blank, _, [] => some []
  | .blank, _, c :: t =>
      if [' ', '\t', '\r', '\n'].contains c then shlexStep .blank [] t
      else if c = '\\' then shlexStep (.escaped none) [] t
      else if c = '\'' || c = '"' then shlexStep (.quoted c) [] t
      else shlexStep .word [c] t
  | .word, tok, [] => some [tok]
  | .word, tok, c :: t =>
      if [' ', '\t', '\r', '\n'].contains c then (shlexStep .blank [] t).map (tok :: ·)
      else if c = '\\' then shlexStep (.escaped none) tok t
      else if c = '\'' || c = '"' then shlexStep (.quoted c) tok t
      else shlexStep .word (tok ++ [c]) t
  | .quoted _, _, [] => none
  | .quoted q, tok, c :: t =>
      if c = q then shlexStep .word tok t
      else if c = '\\' && q = '"' then shlexStep (.escaped (some q)) tok t
      else shlexStep (.quoted q) (tok ++ [c]) t
  | .escaped _, _, [] => none
  | .escaped none, tok, c :: t => shlexStep .word (tok ++ [c]) t
  | .escaped (some q), tok, c :: t =>
      shlexStep (.quoted q) (if c ≠ '\\' && c ≠ q then tok ++ ['\\', c] else tok ++ [c]) t

/-- `_decode_shell_word`. -/
def decodeShellWord (w : Text) : Option Text :=
  match shlexStep .blank [] w with
  | some [part] => some part
  | _ => none

/-- `_runtime_shell_reference`. -/
def runtimeShellReference (w : Text) : Bool :=
  fullmatch runtimePasswordRef w ||
    fullmatch (seq [lit ['"'], runtimePasswordRef, lit ['"']]) w

/-! ## `printf` -/

/-- `_printf_format_positions` from position `i`. -/
def formatPositionsFrom : Nat → Text → Option (List Nat)
  | _, [] => some []
  | i, '%' :: '%' :: t => formatPositionsFrom (i + 2) t
  | i, '%' :: 's' :: t => (formatPositionsFrom (i + 2) t).map (i :: ·)
  | i, c :: t => if c = '%' then none else formatPositionsFrom (i + 1) t

def printfFormatPositions (format : Text) : Option (List Nat) := formatPositionsFrom 0 format

/-- `_printf_format_index`, counted from the word after `printf`: the
format and the arguments behind it. -/
def printfFormat : List Token → Option (Token × List Token)
  | [] => none
  | w :: ws =>
      if w.text == txt "--" then ws.head?.map fun f => (f, ws.tail)
      else if w.text == txt "-v" then
        match ws with
        | [] => none
        | _ :: ws => printfFormat ws
      else if startsWith ['-'] w.text then none
      else some (w, ws)

/-- `_without_shell_redirections`; the flag is `skip_target`. -/
def withoutShellRedirections : Bool → List Token → List Token
  | _, [] => []
  | true, _ :: ws => withoutShellRedirections false ws
  | false, w :: ws =>
      match matchLen (redirection uni) none w.text with
      | none => w :: withoutShellRedirections false ws
      | some n => withoutShellRedirections (n == w.text.length) ws

/-- Whether every repetition of the format passes a runtime reference at
position `k` of its `size` arguments. -/
def credentialArgumentsSafe (k size : Nat) (args : List Token) : Bool :=
  (List.range (args.length / size)).all fun rep =>
    match args[rep * size + k]? with
    | some arg => runtimeShellReference arg.text
    | none => false

/-- The loop over the database URLs of one format: how often the format is
recorded as safe, and whether the line is recorded as unsafe. `flagged`
tells that an earlier command of the line was. -/
def checkFormatUrls (format : Text) (positions : List Nat) (args : List Token)
    (flagged : Bool) : List Span → Nat × Bool
  | [] => (0, false)
  | (_, e) :: ms =>
      let auth := authority format e
      let userinfo := match rfindChar '@' auth with
        | some sep => auth.take sep
        | none => []
      match findChar ':' userinfo with
      | none => checkFormatUrls format positions args flagged ms
      | some colon =>
          if userinfo.drop (colon + 1) != txt "%s" then
            checkFormatUrls format positions args flagged ms
          else match positions.findIdx? (· == e + colon + 1) with
            | none => (0, true)
            | some k =>
                if args.length % positions.length != 0 then (0, true)
                else if credentialArgumentsSafe k positions.length args then
                  if flagged then (1, false)
                  else let r := checkFormatUrls format positions args flagged ms; (1 + r.1, r.2)
                else (0, true)

/-- One simple command of a line, its redirections removed: safe format
spans and whether the line is unsafe. -/
def checkPrintf (offset : Nat) (words : List Token) (flagged : Bool) : List Span × Bool :=
  match printfFormat words with
  | none => ([], true)
  | some (f, args) =>
      match (decodeShellWord f.text).bind fun format =>
          (printfFormatPositions format).map fun ps => (format, ps) with
      | none => ([], false)
      | some (_, []) => ([], false)
      | some (format, p :: ps) =>
          let r := checkFormatUrls format (p :: ps) args flagged
            (finditer (dbUrlStart uni) format)
          (List.replicate r.1 (offset + f.start, offset + f.stop), r.2)

def isSeparator (w : Token) : Bool :=
  [txt ";", txt "|", txt "&&", txt "||"].contains w.text

/-- The simple commands of a line. -/
def simpleCommands : List Token → List (List Token)
  | [] => []
  | w :: ws =>
      if isSeparator w then simpleCommands ws
      else match ws, simpleCommands ws with
        | v :: _, c :: cs => if isSeparator v then [w] :: c :: cs else (w :: c) :: cs
        | _, cs => [w] :: cs

/-- The commands of a line from left to right: the safe spans and one mark
for every time the line is recorded as unsafe. -/
def checkCommands (offset : Nat) (flagged : Bool) : List (List Token) → List Span × Nat
  | [] => ([], 0)
  | cmd :: cmds =>
      match cmd.dropWhile (fun w => w.text != txt "printf") with
      | [] => checkCommands offset flagged cmds
      | p :: ws =>
          let r := checkPrintf uni offset ((withoutShellRedirections uni false (p :: ws)).drop 1)
            flagged
          let rest := checkCommands offset (flagged || r.2) cmds
          (r.1 ++ rest.1, (if r.2 then 1 else 0) + rest.2)

/-- The command line of a raw line: a diff mark and leading blanks are
dropped. -/
def lineCommand (content : Text) : Text :=
  match content with
  | c :: t => if c = '+' || c = '-' then lstrip t else lstrip content
  | [] => []

/-- The first `$(printf ...)` of a command: where its group starts, and
the group. -/
def printfSubstitution (command : Text) : Option (Nat × Text) :=
  match finditer (seq [substitutionOpen, substitutionBody uni, lit [')']]) command with
  | [] => none
  | (s, e) :: _ =>
      let inner := slice command (s + 2) (e - 1)
      let body := lstrip inner
      some (s + 2 + (inner.length - body.length), body)

/-- One line of `_printf_database_url_templates`. -/
def checkLine (offset : Nat) (content : Text) : List Span × List Span :=
  let line : Span := (offset, offset + content.length)
  let command := lineCommand content
  let start := offset + content.length - command.length
  let (start, command, tokens) :=
    match shellTokens uni command with
    | none => (start, command, none)
    | some tokens =>
        if tokens.any (fun w => w.text == txt "printf") then (start, command, some tokens)
        else match printfSubstitution uni command with
          | none => (start, command, some tokens)
          | some (s, body) => (start + s, body, shellTokens uni body)
  match tokens with
  | none =>
      if contains (txt "printf") command && test (dbUrlStart uni) command then ([], [line])
      else ([], [])
  | some tokens =>
      let r := checkCommands uni start false (simpleCommands tokens)
      (r.1, List.replicate r.2 line)

/-- `str.splitlines(keepends=True)`. -/
def splitLines : Text → List Text
  | [] => []
  | '\r' :: '\n' :: t => ['\r', '\n'] :: splitLines t
  | c :: t =>
      if isLineBoundary c then [c] :: splitLines t
      else match splitLines t with
        | [] => [[c]]
        | l :: ls => (c :: l) :: ls

/-- `line.rstrip("\r\n")`. -/
def rstripNewline (l : Text) : Text :=
  (l.reverse.dropWhile fun c => c == '\r' || c == '\n').reverse

/-- `_printf_database_url_templates`: safe format spans and unsafe line
spans. -/
def printfTemplates (offset : Nat) : List Text → List Span × List Span
  | [] => ([], [])
  | l :: ls =>
      let r := checkLine uni offset (rstripNewline l)
      let rest := printfTemplates (offset + l.length) ls
      (r.1 ++ rest.1, r.2 ++ rest.2)

/-! ## Assignments -/

/-- `_database_url_assignment_spans`. -/
def assignmentSpans (text : Text) : List Span :=
  (finditer (dbUrlAssignmentStart uni) text).filterMap fun (s, e) =>
    let rest := text.drop e
    if (matchLen (dbUrlStart uni) (text.take e).getLast? rest).isSome then none
    else
      let value := rest.takeWhile fun c => !(isSpace c || c == '\'' || c == '"')
      if value.isEmpty then none else some (s, e + value.length)

/-! ## Findings -/

/-- `_database_url_findings`. -/
def databaseUrlFindings (text : Text) : List (Text × Span) :=
  let printf := printfTemplates uni 0 (splitLines text)
  (credentialSpans uni text printf.1).map (txt "database_url_with_credentials", ·) ++
    printf.2.map (txt "printf_database_url_literal_credential_argument", ·) ++
    (assignmentSpans uni text).map (txt "database_url_assignment", ·)

end Finders
end RalphVault.Security
