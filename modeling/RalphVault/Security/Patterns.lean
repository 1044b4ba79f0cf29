import RalphVault.Regex
import RalphVault.Text

/-!
# Sensitive content — the patterns

The compiled patterns of `scripts/security/sensitive_content.py` as
values of `Regex Char`. Everything under `(?i)` compares through
`foldCase`; `\b` and `\s` are the Unicode ones.
-/

namespace RalphVault.Security

open Regex

/-! ## Building blocks -/

section Blocks

variable (uni : Unicode)

/-- `\b`. -/
def boundary : Regex Char := look fun l e => (l.any uni.word) != (e.any uni.word)

/-- `\s`. -/
def space : Regex Char := chr isSpace

/-- A literal. -/
def lit (w : Text) : Regex Char := word (fun p c => c == p) w

/-- A literal under `(?i)`, written in lower case. -/
def litCI (w : Text) : Regex Char := word (fun p c => foldCase c == p) w

/-- One of the characters of `cs`. -/
def among (cs : Text) : Regex Char := chr fun c => cs.contains c

/-- `[_-]?`. -/
def optSep : Regex Char := opt (among ['_', '-'])

/-- `['"]?`. -/
def optQuote : Regex Char := opt (among ['\'', '"'])

/-- `[a-z0-9]` under `(?i)`. -/
def alnumCI (c : Char) : Bool :=
  isAsciiLower (foldCase c) || isAsciiDigit c

end Blocks

/-! ## The detectors of `PATTERNS` -/

section Detectors

variable (uni : Unicode)

def apiKeyPattern : Regex Char :=
  seq [boundary uni,
    anyOf [lit (txt "sk-"), lit (txt "AIza"), lit (txt "ghp_"), lit (txt "github_pat_"),
      lit (txt "glpat-"), lit (txt "xoxb-"), lit (txt "xoxp-"), lit (txt "SG.")],
    atLeast 16 (chr fun c => isAsciiAlnum c || c == '_' || c == '.' || c == '-' || c == '='),
    boundary uni]

def secretAssignmentPattern : Regex Char :=
  seq [boundary uni,
    anyOf [seq [litCI (txt "api"), optSep, litCI (txt "key")],
      litCI (txt "x-api-key"),
      litCI (txt "token"),
      seq [litCI (txt "access"), optSep, litCI (txt "token")],
      seq [litCI (txt "refresh"), optSep, litCI (txt "token")],
      seq [litCI (txt "id"), optSep, litCI (txt "token")],
      litCI (txt "secret"),
      seq [litCI (txt "client"), optSep, litCI (txt "secret")],
      litCI (txt "password"),
      litCI (txt "credential"),
      seq [litCI (txt "private"), optSep, litCI (txt "key")]],
    star true space, among [':', '='], star true space, optQuote,
    atLeast 4 (chr fun c => !(c == '\'' || c == '"' || isSpace c))]

def oauthTokenPattern : Regex Char :=
  seq [boundary uni,
    anyOf [seq [litCI (txt "oauth"), optSep, litCI (txt "token")], litCI (txt "bearer")],
    boundary uni, star true space, opt (among [':', '=']), star true space, optQuote,
    atLeast 16 (chr fun c => alnumCI c || c == '_' || c == '.' || c == '-')]

def jwtPart : Regex Char :=
  atLeast 8 (chr fun c => isAsciiAlnum c || c == '_' || c == '-')

def jwtPattern : Regex Char :=
  seq [boundary uni, lit (txt "eyJ"), jwtPart, lit ['.'], jwtPart, lit ['.'], jwtPart,
    boundary uni]

def pemRule (verb : Text) : Regex Char :=
  seq [lit (txt "-----"), litCI verb, atLeast 1 space,
    upTo 32 (chr fun c => alnumCI c || c == ' '),
    litCI (txt "private"), atLeast 1 space, litCI (txt "key"), lit (txt "-----")]

def privateKeyPattern : Regex Char :=
  seq [pemRule (txt "begin"), star false (chr fun _ => true), pemRule (txt "end")]

def seedWord : Regex Char := between 3 12 (chr fun c => isAsciiLower (foldCase c))

def seedPhrasePattern : Regex Char :=
  seq [boundary uni,
    anyOf [seq [litCI (txt "seed"), atLeast 1 space, litCI (txt "phrase")],
      seq [litCI (txt "recovery"), atLeast 1 space, litCI (txt "phrase")],
      litCI (txt "mnemonic")],
    boundary uni, upTo 200 (chr fun _ => true), boundary uni,
    between 11 23 (seq [seedWord, atLeast 1 space]), seedWord, boundary uni]

def hexCI (c : Char) : Bool :=
  isAsciiDigit c || (97 ≤ (foldCase c).toNat && (foldCase c).toNat ≤ 102)

def walletMaterialPattern : Regex Char :=
  seq [boundary uni,
    anyOf [litCI (txt "wallet"), litCI (txt "mnemonic"), litCI (txt "seed"),
      seq [litCI (txt "private"), optSep, litCI (txt "key")]],
    upTo 100 (chr fun c => c != '\n'), boundary uni,
    opt (litCI (txt "0x")), times 64 (chr hexCI) empty, boundary uni]

def customerDataPattern : Regex Char :=
  seq [boundary uni,
    anyOf [seq [litCI (txt "customer"), optSep,
        anyOf [litCI (txt "id"), litCI (txt "email"), litCI (txt "name"), litCI (txt "data")]],
      seq [litCI (txt "customer"), atLeast 1 space,
        anyOf [litCI (txt "data"), litCI (txt "record")]],
      litCI (txt "ssn"),
      seq [litCI (txt "social"), atLeast 1 space, litCI (txt "security")],
      seq [litCI (txt "patient"), optSep, anyOf [litCI (txt "id"), litCI (txt "record")]],
      seq [litCI (txt "personal"), atLeast 1 space, litCI (txt "data")],
      litCI (txt "pii"),
      litCI (txt "dob")],
    boundary uni]

/-- One entry of `PATTERNS`. -/
structure Detector where
  kind : Text
  label : Text
  pattern : Regex Char

/-- `PATTERNS`, in the order of the source. -/
def patterns : List Detector :=
  [⟨txt "api_key", txt "known_api_key_prefix", apiKeyPattern uni⟩,
   ⟨txt "secret_assignment", txt "secret_like_assignment", secretAssignmentPattern uni⟩,
   ⟨txt "oauth_token", txt "oauth_or_bearer_token", oauthTokenPattern uni⟩,
   ⟨txt "jwt", txt "jwt_token", jwtPattern uni⟩,
   ⟨txt "private_key", txt "private_key_pem", privateKeyPattern⟩,
   ⟨txt "seed_phrase", txt "wallet_seed_phrase", seedPhrasePattern uni⟩,
   ⟨txt "wallet_material", txt "wallet_private_material", walletMaterialPattern uni⟩,
   ⟨txt "customer_data", txt "customer_sensitive_marker", customerDataPattern uni⟩]

end Detectors

/-! ## Database URLs -/

section DatabaseUrl

variable (uni : Unicode)

/-- `_DB_URL_START`. -/
def dbUrlStart : Regex Char :=
  seq [boundary uni,
    anyOf [seq [litCI (txt "postgres"), opt (litCI (txt "ql"))],
      litCI (txt "mysql"), litCI (txt "mariadb"),
      seq [litCI (txt "mongodb"), opt (litCI (txt "+srv"))],
      litCI (txt "redis"), litCI (txt "rediss")],
    lit (txt "://")]

/-- `_DB_URL_ASSIGNMENT_START`. -/
def dbUrlAssignmentStart : Regex Char :=
  seq [boundary uni,
    anyOf [litCI (txt "database_url"), litCI (txt "db_url"),
      litCI (txt "sqlalchemy_database_uri"), litCI (txt "mongo_uri"), litCI (txt "redis_url")],
    star true space, among [':', '='], star true space, optQuote]

/-- `[A-Za-z_][A-Za-z0-9_]*`. -/
def identifier : Regex Char :=
  seq [chr fun c => isAsciiLower c || isAsciiUpper c || c == '_',
    star true (chr fun c => isAsciiAlnum c || c == '_')]

/-- `_RUNTIME_DB_PASSWORD_REF`. -/
def runtimePasswordRef : Regex Char :=
  anyOf [seq [lit (txt "$\x7b"), identifier, lit (txt "\x7d")], seq [lit ['$'], identifier]]

/-- `\$\(\s*(printf\b[^)]*)\)` up to its group. -/
def substitutionOpen : Regex Char := seq [lit (txt "$("), star true space]

/-- The group of the substitution pattern. -/
def substitutionBody : Regex Char :=
  seq [lit (txt "printf"), boundary uni, star true (chr fun c => c != ')')]

/-- `_REDIRECTION_RE`, without its anchor. -/
def redirection : Regex Char :=
  anyOf [seq [lit (txt "&>"), opt (lit ['>'])],
    seq [star true (chr uni.decimal),
      anyOf [lit (txt ">&"), lit (txt "<&"), seq [lit ['>'], opt (lit ['>'])],
        lit (txt "<<"), lit (txt "<>")]]]

end DatabaseUrl
end RalphVault.Security
