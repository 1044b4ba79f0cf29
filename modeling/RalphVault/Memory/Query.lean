import RalphVault.Memory.Scope

/-!
# Memory tree — queries

`terms` and `analyze_query` of `scripts/memory/recall_v2.py`. A query term is
a run of the characters the index is made of.
-/

namespace RalphVault.Memory

open Regex

/-! ## Runs of characters -/

/-- `[-A-Za-z0-9_./]`. -/
def isTermChar (c : Char) : Bool :=
  isAsciiAlnum c || c == '_' || c == '.' || c == '/' || c == '-'

/-- `re.findall(r"[-A-Za-z0-9_./]+", text)`. -/
def runs (t : Text) : List Text :=
  (splitWhere (fun c => !isTermChar c) t).filter fun run => !run.isEmpty

/-- A word no character of which cuts the text lies in one of its parts. -/
theorem exists_part {p : Char → Bool} {u t : Text} (hu : u ≠ []) (hp : ∀ c ∈ u, p c = false)
    (h : u <:+: t) : ∃ part ∈ splitWhere p t, u <:+: part := by
  have hprefix : ∀ {u t : Text}, (∀ c ∈ u, p c = false) → u <+: t →
      ∃ part parts, splitWhere p t = part :: parts ∧ u <+: part := by
    intro u
    induction u with
    | nil =>
        intro t _ _
        cases hparts : splitWhere p t with
        | nil => cases t <;> grind [splitWhere]
        | cons part parts => exact ⟨part, parts, rfl, List.nil_prefix⟩
    | cons a u ih =>
        intro t hp hut
        obtain ⟨t', rfl⟩ := hut
        obtain ⟨part, parts, hparts, hpre⟩ := ih (t := u ++ t')
          (fun c hc => hp c (List.mem_cons_of_mem _ hc)) (List.prefix_append u t')
        have ha : p a = false := hp a List.mem_cons_self
        exact ⟨a :: part, parts, by simp [splitWhere, ha, hparts], by simpa using hpre⟩
  induction t with
  | nil => exact absurd (List.infix_nil.mp h) hu
  | cons a t ih =>
      rcases List.infix_cons_iff.mp h with hpre | htail
      · obtain ⟨part, parts, hparts, hin⟩ := hprefix hp hpre
        exact ⟨part, by simp [hparts], hin.isInfix⟩
      · obtain ⟨part, hmem, hin⟩ := ih htail
        simp only [splitWhere]
        split
        · exact ⟨part, List.mem_cons_of_mem _ hmem, hin⟩
        · cases hparts : splitWhere p t with
          | nil => simp [hparts] at hmem
          | cons first parts =>
              rw [hparts] at hmem
              rcases List.mem_cons.mp hmem with rfl | hmem
              · exact ⟨a :: part, List.mem_cons_self, hin.trans (List.infix_cons List.infix_rfl)⟩
              · exact ⟨part, List.mem_cons_of_mem _ hmem, hin⟩

/-- A part of a text is found in the text, and nothing in it cuts it. -/
theorem part_isInfix {p : Char → Bool} {part : Text} :
    ∀ {t : Text}, part ∈ splitWhere p t → part <:+: t ∧ ∀ c ∈ part, p c = false := by
  have hhead : ∀ {t first : Text} {parts : List Text}, splitWhere p t = first :: parts →
      first <+: t := by
    intro t
    induction t with
    | nil =>
        intro first parts h
        simp only [splitWhere, List.cons.injEq] at h
        exact h.1 ▸ List.nil_prefix
    | cons a t ih =>
        intro first parts h
        simp only [splitWhere] at h
        split at h
        · simp only [List.cons.injEq] at h
          exact h.1 ▸ List.nil_prefix
        · cases hparts : splitWhere p t with
          | nil =>
              simp only [hparts, List.cons.injEq] at h
              rw [← h.1]
              simp
          | cons first' parts' =>
              simp only [hparts, List.cons.injEq] at h
              rw [← h.1]
              simpa using ih hparts
  intro t
  induction t generalizing part with
  | nil =>
      intro h
      simp only [splitWhere, List.mem_singleton] at h
      simp [h]
  | cons a t ih =>
      intro h
      simp only [splitWhere] at h
      split at h
      · rcases List.mem_cons.mp h with rfl | h
        · simp
        · exact ⟨(ih h).1.trans (List.infix_cons List.infix_rfl), (ih h).2⟩
      · rename_i ha
        rw [Bool.not_eq_true] at ha
        cases hparts : splitWhere p t with
        | nil =>
            simp only [hparts, List.mem_singleton] at h
            subst h
            exact ⟨(List.prefix_append [a] t).isInfix, by simpa using ha⟩
        | cons first parts =>
            simp only [hparts, List.mem_cons] at h ih
            rcases h with rfl | h
            · refine ⟨(List.prefix_cons_inj a |>.mpr (hhead hparts)).isInfix, ?_⟩
              intro c hc
              rcases List.mem_cons.mp hc with rfl | hc
              · exact ha
              · exact (ih (.inl rfl)).2 c hc
            · exact ⟨(ih (.inr h)).1.trans (List.infix_cons List.infix_rfl), (ih (.inr h)).2⟩

theorem mem_runs {t run : Text} (h : run ∈ runs t) :
    run <:+: t ∧ run ≠ [] ∧ ∀ c ∈ run, isTermChar c = true := by
  obtain ⟨hpart, hne⟩ := List.mem_filter.mp h
  obtain ⟨hin, hall⟩ := part_isInfix hpart
  exact ⟨hin, by simpa using hne, fun c hc => by simpa using hall c hc⟩

/-- A word of term characters is found in a text if it is found in one of its
runs. -/
theorem exists_run_iff {u t : Text} (hu : u ≠ []) (hp : ∀ c ∈ u, isTermChar c = true) :
    (∃ run ∈ runs t, u <:+: run) ↔ u <:+: t := by
  constructor
  · rintro ⟨run, hrun, hin⟩
    exact hin.trans (mem_runs hrun).1
  · intro h
    obtain ⟨part, hpart, hin⟩ := exists_part (p := fun c => !isTermChar c) hu
      (fun c hc => by simpa using hp c hc) h
    refine ⟨part, List.mem_filter.mpr ⟨hpart, ?_⟩, hin⟩
    cases part with
    | nil => exact absurd (List.infix_nil.mp hin) hu
    | cons a part => rfl

/-! ## Query terms -/

def stopwords : List Text :=
  [txt "the", txt "and", txt "for", txt "with", txt "from", txt "that", txt "this", txt "what",
   txt "when", txt "where", txt "into", txt "node", txt "memory", txt "does", txt "exist",
   txt "exists"]

def lowSignalTerms : List Text :=
  [txt "fixture", txt "marker", txt "placeholder", txt "reject", txt "rejection"]

def highRisk : List Text :=
  [txt "exact", txt "raw", txt "quote", txt "quoted", txt "reproduce", txt "version", txt "date",
   txt "metric", txt "command", txt "path", txt "function", txt "class", txt "benchmark",
   txt "number"]

def mediumRisk : List Text :=
  [txt "why", txt "how", txt "risk", txt "validate", txt "compare", txt "should",
   txt "migration", txt "debug", txt "failure"]

section Query

variable (host : Host)

/-- `terms`. -/
def terms (value : Text) : List Text :=
  ((runs (host.lower value)).filter fun item =>
    3 ≤ item.length && !stopwords.contains item).eraseDups

def digit : Regex Char := chr host.unicode.decimal

/-- `\s+`. -/
def spaces : Regex Char := atLeast 1 Security.space

/-- `EXACT_PATTERNS`, under `re.IGNORECASE`. -/
def exactPatterns : List (Regex Char) :=
  let bound := Security.boundary host.unicode
  [seq [bound, Security.litCI (txt "exact"), spaces,
     anyOf [Security.litCI (txt "command"),
       seq [Security.litCI (txt "file"), spaces, Security.litCI (txt "path")],
       Security.litCI (txt "path"), Security.litCI (txt "function"), Security.litCI (txt "class"),
       Security.litCI (txt "metric"), Security.litCI (txt "date"), Security.litCI (txt "version"),
       Security.litCI (txt "number")], bound],
   seq [bound, anyOf [Security.litCI (txt "quote"), Security.litCI (txt "quoted"),
     Security.litCI (txt "reproduce")], bound],
   seq [bound, anyOf [Security.litCI (txt "config"), Security.litCI (txt "key")], bound,
     upTo 40 (chr fun c => c != '\n'), bound,
     anyOf [Security.litCI (txt "exists"), Security.litCI (txt "exist"),
       Security.litCI (txt "present"), Security.litCI (txt "set")], bound],
   seq [bound, Security.litCI (txt "selected_memory_ids"), bound],
   seq [bound, atLeast 1 (digit host),
     opt (seq [Security.lit ['.'], atLeast 1 (digit host)]), bound],
   seq [bound, Security.lit (txt "20"), digit host, digit host, Security.lit ['-'], digit host,
     digit host, Security.lit ['-'], digit host, digit host, bound],
   seq [bound, opt (Security.litCI ['v']), atLeast 1 (digit host), Security.lit ['.'],
     atLeast 1 (digit host), opt (seq [Security.lit ['.'], atLeast 1 (digit host)]), bound]]

def temporalPattern : Regex Char :=
  let bound := Security.boundary host.unicode
  seq [bound, anyOf [
    seq [Security.lit (txt "20"), digit host, digit host, Security.lit ['-'], digit host,
      digit host, Security.lit ['-'], digit host, digit host],
    seq [Security.lit (txt "20"), digit host, digit host],
    Security.lit (txt "today"), Security.lit (txt "yesterday"), Security.lit (txt "tomorrow")],
    bound]

def mergeCandidatePattern : Regex Char :=
  seq [Security.boundary host.unicode, Security.litCI (txt "merge"), spaces,
    Security.litCI (txt "candidate"), Security.boundary host.unicode]

/-- `analyze_query`. -/
def analyzeQuery (query : Text) : Analysis :=
  let queryTerms := terms host query
  let exactFact := (exactPatterns host).any (fun pattern => test pattern query) ||
    (queryTerms.contains (txt "exact") && queryTerms.any highRisk.contains)
  { semanticTerms := queryTerms
    searchTerms := queryTerms.filter fun item =>
      !highRisk.contains item && !mediumRisk.contains item
    intentTerms := queryTerms.filter fun item => highRisk.contains item || mediumRisk.contains item
    temporalTerms := ((pieces (temporalPattern host) (host.lower query)).filter Piece.isHit).map
      Piece.text
    riskLevel :=
      if exactFact || queryTerms.any highRisk.contains then .high
      else if queryTerms.any mediumRisk.contains then .medium
      else .low
    exactFactMode := exactFact
    mergeCandidateRequested := queryTerms.contains (txt "merge_candidate") ||
      queryTerms.contains (txt "merge-candidate") || test (mergeCandidatePattern host) query }

variable {host}

/-- What a term is made of. -/
theorem mem_terms {value item : Text} (h : item ∈ terms host value) :
    3 ≤ item.length ∧ ∀ c ∈ item, isTermChar c = true := by
  rw [terms, List.mem_eraseDups, List.mem_filter] at h
  obtain ⟨hrun, hkeep⟩ := h
  simp only [Bool.and_eq_true, decide_eq_true_eq] at hkeep
  exact ⟨hkeep.1, (mem_runs hrun).2.2⟩

theorem mem_searchTerms {query item : Text} (h : item ∈ (analyzeQuery host query).searchTerms) :
    3 ≤ item.length ∧ ∀ c ∈ item, isTermChar c = true :=
  mem_terms (List.mem_of_mem_filter h)

end Query

end RalphVault.Memory
