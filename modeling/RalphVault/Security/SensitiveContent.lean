import Mathlib
import RalphVault.Security.DatabaseUrl

/-!
# Sensitive content — scan, redact, classify

The entry points of `scripts/security/sensitive_content.py`. `scanText`
runs every detector on the text; `redactText` replaces the database
spans and then the matches of one detector after another, each on the
text the previous one left.
-/

namespace RalphVault.Security

open Regex

/-! ## Span replacement -/

/-- Descending order of spans, `sorted(..., reverse=True)`. -/
def spanGe (a b : Span) : Bool := b.1 < a.1 || (a.1 == b.1 && b.2 ≤ a.2)

/-- `sorted(set(spans), reverse=True)`. -/
def orderedSpans (spans : List Span) : List Span := spans.dedup.insertionSort (spanGe · ·)

/-- One round of `_replace_spans`. -/
def replaceSpan (label : List α) (text : List α) (s : Span) : List α :=
  text.take s.1 ++ label ++ text.drop s.2

/-- `_replace_spans`. -/
def replaceSpans (text : List α) (spans : List Span) (label : List α) : List α × Bool :=
  ((orderedSpans spans).foldl (replaceSpan label) text, !spans.isEmpty)

section Scan

variable (uni : Unicode)

/-- The finding of a class: its kind and label, both RED. -/
structure Finding where
  kind : Text
  label : Text
deriving DecidableEq

/-- Every finding, one for each detector that matches and one for each
database finding. -/
def rawFindings (text : Text) : List Finding :=
  ((patterns uni).filter fun d => test d.pattern text).map (fun d => ⟨d.kind, d.label⟩) ++
    (databaseUrlFindings uni text).map fun f => ⟨txt "database_url", f.1⟩

/-- `scan_text`. -/
def scanText (text : Text) : List Finding := (rawFindings uni text).eraseDups

/-- `[REDACTED:kind]`. -/
def redactionLabel (kind : Text) : Text := txt "[REDACTED:" ++ kind ++ [']']

/-- One round of the pattern loop of `redact_text`. -/
def redactStep (acc : Text × Bool) (d : Detector) : Text × Bool :=
  let r := subn d.pattern (redactionLabel d.kind) acc.1
  (r.1, acc.2 || 0 < r.2)

/-- `redact_text`. -/
def redactText (text : Text) : Text × Bool :=
  let spans := (databaseUrlFindings uni text).map Prod.snd
  (patterns uni).foldl redactStep (replaceSpans text spans (redactionLabel (txt "database_url")))

/-- `is_red`, without a requested classification. -/
def isRed (text : Text) : Bool := !(scanText uni text).isEmpty

end Scan
end RalphVault.Security
