import Mathlib
import RalphVault.Security.SensitiveContent

/-!
# Sensitive content — quiet texts

Every detector and every span finder needs one of a few short fragments
in the text, whatever else it looks at. A text with none of them is not
RED. `quiet` looks for the fragments in one pass over the character
codes, so that it can be evaluated where running the detectors is out of
reach; it is the classifier of the evaluated examples.
-/

namespace RalphVault.Security

open Regex

/-! ## Fragments -/

/-- One of the fragments occurs in the text, up to case. -/
def HasFragment (ws : List Text) (t : Text) : Prop := ∃ w ∈ ws, w <:+: t.map foldCase

theorem hasFragment_upward (ws : List Text) : Upward (HasFragment ws) := by
  rintro u v huv ⟨w, hw, hin⟩
  exact ⟨w, hw, hin.trans (huv.map foldCase)⟩

theorem HasFragment.mono {ws vs : List Text} {t : Text} (h : HasFragment ws t)
    (hsub : ∀ w ∈ ws, w ∈ vs) : HasFragment vs t := by
  obtain ⟨w, hw, hin⟩ := h
  exact ⟨w, hsub w hw, hin⟩

/-- Whether a word contains one of the fragments. -/
def withFragment (ws : List Text) (t : Text) : Bool := ws.any fun w => contains w t

theorem isInfix_of_contains {w t : Text} (h : contains w t = true) : w <:+: t := by
  induction t with
  | nil =>
      simp only [contains, List.isEmpty_iff] at h
      subst h
      exact List.nil_infix
  | cons c t ih =>
      simp only [contains, Bool.or_eq_true] at h
      rcases h with h | h
      · exact (List.isPrefixOf_iff_prefix.mp h).isInfix
      · exact (ih h).trans (List.suffix_cons c t).isInfix

theorem contains_of_isInfix {w t : Text} (h : w <:+: t) : contains w t = true := by
  induction t with
  | nil => simpa [contains] using h
  | cons c t ih =>
      rw [contains, Bool.or_eq_true]
      rcases List.infix_cons_iff.mp h with h | h
      · exact .inl (List.isPrefixOf_iff_prefix.mpr h)
      · exact .inr (ih h)

theorem contains_iff {w t : Text} : contains w t = true ↔ w <:+: t :=
  ⟨isInfix_of_contains, contains_of_isInfix⟩

theorem hasFragment_of_fold {ws : List Text} {t : Text}
    (h : withFragment ws (t.map foldCase) = true) : HasFragment ws t := by
  simp only [withFragment, List.any_eq_true] at h
  obtain ⟨w, hw, hc⟩ := h
  exact ⟨w, hw, isInfix_of_contains hc⟩

theorem forall₂_eq {w u : Text} (h : List.Forall₂ (fun a b => (b == a) = true) w u) : u = w := by
  induction h with
  | nil => rfl
  | cons hab _ ih => rw [eq_of_beq hab, ih]

theorem forall₂_fold {w u : Text}
    (h : List.Forall₂ (fun a b => (foldCase b == a) = true) w u) : u.map foldCase = w := by
  induction h with
  | nil => rfl
  | cons hab _ ih => rw [List.map_cons, eq_of_beq hab, ih]

theorem lit_forces {ws : List Text} {w : Text} (h : withFragment ws (w.map foldCase) = true) :
    Forces (lit w) (HasFragment ws) := by
  intro l u e hm
  have hu := forall₂_eq (matches_word hm)
  subst hu
  exact hasFragment_of_fold h

theorem litCI_forces {ws : List Text} {w : Text} (h : withFragment ws w = true) :
    Forces (litCI w) (HasFragment ws) := by
  intro l u e hm
  have hu := forall₂_fold (matches_word hm)
  exact hasFragment_of_fold (by rw [hu]; exact h)

theorem HasFragment.with {ws : List Text} {t : Text} (h : HasFragment ws t) :
    withFragment ws (t.map foldCase) = true := by
  obtain ⟨w, hw, hin⟩ := h
  exact List.any_eq_true.mpr ⟨w, hw, contains_of_isInfix hin⟩

example : withFragment [txt "key"] ((txt "API_KEY").map foldCase) = true := by decide +kernel

/-! ## The patterns -/

section Patterns

variable (uni : Unicode)

/-- Three characters of every literal a detector needs, in lower case. -/
def apiKeyFragments : List Text :=
  [txt "sk-", txt "aiz", txt "ghp", txt "thu", txt "lpa", txt "xox", txt "sg."]

def secretFragments : List Text := [txt "key", txt "tok", txt "ecr", txt "ssw", txt "tia"]

def oauthFragments : List Text := [txt "tok", txt "rer"]

def jwtFragments : List Text := [txt "eyj"]

def privateKeyFragments : List Text := [txt "---"]

def seedPhraseFragments : List Text := [txt "phr", txt "mne"]

def walletFragments : List Text := [txt "wal", txt "mne", txt "see", txt "key"]

def customerFragments : List Text :=
  [txt "cus", txt "ssn", txt "soc", txt "tie", txt "rso", txt "pii", txt "dob"]

/-- What the span finders need. -/
def databaseFragments : List Text := [txt "://", txt "ntf", txt "_ur"]

theorem seq_forces {ws : List Text} {rs : List (Regex Char)} (r : Regex Char) (hr : r ∈ rs)
    (h : Forces r (HasFragment ws)) : Forces (seq rs) (HasFragment ws) :=
  Forces.seq (hasFragment_upward ws) hr h

theorem apiKey_forces : Forces (apiKeyPattern uni) (HasFragment apiKeyFragments) := by
  refine seq_forces _ (List.mem_cons_of_mem _ List.mem_cons_self) (Forces.anyOf ?_)
  simp only [List.forall_mem_cons]
  refine ⟨?_, ?_, ?_, ?_, ?_, ?_, ?_, ?_, by simp⟩ <;> exact lit_forces (by decide)

theorem secretAssignment_forces :
    Forces (secretAssignmentPattern uni) (HasFragment secretFragments) := by
  refine seq_forces _ (List.mem_cons_of_mem _ List.mem_cons_self) (Forces.anyOf ?_)
  have hlast : ∀ {a b : Regex Char} {w : Text}, withFragment secretFragments w = true →
      Forces (seq [a, b, litCI w]) (HasFragment secretFragments) := by
    intro a b w h
    exact seq_forces (litCI w) (by simp) (litCI_forces h)
  simp only [List.forall_mem_cons]
  exact ⟨hlast (by decide), litCI_forces (by decide), litCI_forces (by decide),
    hlast (by decide), hlast (by decide), hlast (by decide), litCI_forces (by decide),
    hlast (by decide), litCI_forces (by decide), litCI_forces (by decide),
    hlast (by decide), by simp⟩

example : withFragment secretFragments (txt "token") = true := by decide +kernel

theorem oauthToken_forces : Forces (oauthTokenPattern uni) (HasFragment oauthFragments) := by
  refine seq_forces _ (List.mem_cons_of_mem _ List.mem_cons_self) (Forces.anyOf ?_)
  simp only [List.forall_mem_cons]
  refine ⟨?_, litCI_forces (by decide), by simp⟩
  exact seq_forces (litCI (txt "token")) (by simp) (litCI_forces (by decide))

theorem jwt_forces : Forces (jwtPattern uni) (HasFragment jwtFragments) :=
  seq_forces (lit (txt "eyJ")) (by simp) (lit_forces (by decide))

theorem privateKey_forces : Forces privateKeyPattern (HasFragment privateKeyFragments) := by
  refine seq_forces (pemRule (txt "begin")) (by simp) ?_
  exact seq_forces (lit (txt "-----")) (by simp) (lit_forces (by decide))

theorem seedPhrase_forces : Forces (seedPhrasePattern uni) (HasFragment seedPhraseFragments) := by
  refine seq_forces _ (List.mem_cons_of_mem _ List.mem_cons_self) (Forces.anyOf ?_)
  simp only [List.forall_mem_cons]
  refine ⟨?_, ?_, litCI_forces (by decide), by simp⟩
  · exact seq_forces (litCI (txt "phrase")) (by simp) (litCI_forces (by decide))
  · exact seq_forces (litCI (txt "phrase")) (by simp) (litCI_forces (by decide))

theorem walletMaterial_forces : Forces (walletMaterialPattern uni) (HasFragment walletFragments) := by
  refine seq_forces _ (List.mem_cons_of_mem _ List.mem_cons_self) (Forces.anyOf ?_)
  simp only [List.forall_mem_cons]
  refine ⟨litCI_forces (by decide), litCI_forces (by decide), litCI_forces (by decide), ?_,
    by simp⟩
  exact seq_forces (litCI (txt "key")) (by simp) (litCI_forces (by decide))

theorem customerData_forces : Forces (customerDataPattern uni) (HasFragment customerFragments) := by
  refine seq_forces _ (List.mem_cons_of_mem _ List.mem_cons_self) (Forces.anyOf ?_)
  have hfirst : ∀ {w : Text} {rs : List (Regex Char)}, withFragment customerFragments w = true →
      Forces (seq (litCI w :: rs)) (HasFragment customerFragments) := by
    intro w rs h
    exact seq_forces (litCI w) List.mem_cons_self (litCI_forces h)
  simp only [List.forall_mem_cons]
  exact ⟨hfirst (by decide), hfirst (by decide), litCI_forces (by decide), hfirst (by decide),
    hfirst (by decide), hfirst (by decide), litCI_forces (by decide), litCI_forces (by decide),
    by simp⟩

example : withFragment customerFragments (txt "customer") = true := by decide +kernel

/-- The detectors with their fragments. -/
def guardedPatterns : List (List Text × Regex Char) :=
  [(apiKeyFragments, apiKeyPattern uni), (secretFragments, secretAssignmentPattern uni),
   (oauthFragments, oauthTokenPattern uni), (jwtFragments, jwtPattern uni),
   (privateKeyFragments, privateKeyPattern), (seedPhraseFragments, seedPhrasePattern uni),
   (walletFragments, walletMaterialPattern uni), (customerFragments, customerDataPattern uni)]

theorem guardedPatterns_eq : (guardedPatterns uni).map Prod.snd = (patterns uni).map (·.pattern) :=
  rfl

theorem guardedPatterns_force : ∀ g ∈ guardedPatterns uni, Forces g.2 (HasFragment g.1) := by
  simp only [guardedPatterns, List.forall_mem_cons]
  exact ⟨apiKey_forces uni, secretAssignment_forces uni, oauthToken_forces uni, jwt_forces uni,
    privateKey_forces, seedPhrase_forces uni, walletMaterial_forces uni, customerData_forces uni,
    by simp⟩

theorem dbUrlStart_forces : Forces (dbUrlStart uni) (HasFragment databaseFragments) :=
  seq_forces (lit (txt "://")) (by simp) (lit_forces (by decide))

theorem dbUrlAssignmentStart_forces :
    Forces (dbUrlAssignmentStart uni) (HasFragment databaseFragments) := by
  refine seq_forces _ (List.mem_cons_of_mem _ List.mem_cons_self) (Forces.anyOf ?_)
  simp only [List.forall_mem_cons]
  refine ⟨?_, ?_, ?_, ?_, ?_, by simp⟩ <;> exact litCI_forces (by decide)

theorem substitution_forces :
    Forces (seq [substitutionOpen, substitutionBody uni, lit [')']])
      (HasFragment databaseFragments) := by
  refine seq_forces (substitutionBody uni) (by simp) ?_
  exact seq_forces (lit (txt "printf")) (by simp) (lit_forces (by decide))

end Patterns

/-! ## The span finders -/

section Finders

variable (uni : Unicode)

theorem printf_hasFragment {t : Text} (h : txt "printf" <:+: t) : HasFragment databaseFragments t :=
  (hasFragment_upward _) h (hasFragment_of_fold (by decide))

theorem shellTokensFrom_infix {fuel : Nat} :
    ∀ {i : Nat} {t : Text} {ws : List Token}, shellTokensFrom uni fuel i t = some ws →
      ∀ w ∈ ws, w.text <:+: t := by
  induction fuel with
  | zero =>
      intro i t ws h w hw
      cases h
      simp at hw
  | succ fuel ih =>
      intro i t ws h w hw
      cases t with
      | nil =>
          cases h
          simp at hw
      | cons c t =>
          simp only [shellTokensFrom] at h
          split at h
          · exact (ih h w hw).trans (List.suffix_cons c t).isInfix
          · split at h
            · simp only [Option.map_eq_some_iff] at h
              obtain ⟨rest, hrest, rfl⟩ := h
              rcases List.mem_cons.mp hw with rfl | hw
              · exact (List.take_prefix _ _).isInfix
              · exact (ih hrest w hw).trans (List.drop_suffix _ _).isInfix
            · split at h
              · cases h
              · simp only [Option.map_eq_some_iff] at h
                obtain ⟨rest, hrest, rfl⟩ := h
                rcases List.mem_cons.mp hw with rfl | hw
                · exact (List.take_prefix _ _).isInfix
                · exact (ih hrest w hw).trans (List.drop_suffix _ _).isInfix

theorem mem_simpleCommands {ws : List Token} :
    ∀ {cmd : List Token} {w : Token}, cmd ∈ simpleCommands ws → w ∈ cmd → w ∈ ws := by
  induction ws with
  | nil =>
      intro cmd w hcmd hw
      simp [simpleCommands] at hcmd
  | cons v ws ih =>
      intro cmd w hcmd hw
      simp only [simpleCommands] at hcmd
      split at hcmd
      · exact List.mem_cons_of_mem _ (ih hcmd hw)
      · have hkeep : ∀ {cs : List (List Token)}, (∀ d ∈ cs, ∀ x ∈ d, x ∈ v :: ws) →
            cmd ∈ cs → w ∈ v :: ws := fun h hm => h cmd hm w hw
        have htail : ∀ d ∈ simpleCommands ws, ∀ x ∈ d, x ∈ v :: ws :=
          fun d hd x hx => List.mem_cons_of_mem _ (ih hd hx)
        split at hcmd
        · rename_i v' ws' c cs heq
          rw [heq, List.forall_mem_cons] at htail
          split at hcmd
          · refine hkeep ?_ hcmd
            simp only [List.forall_mem_cons]
            exact ⟨⟨List.mem_cons_self, by simp⟩, htail.1, htail.2⟩
          · refine hkeep ?_ hcmd
            simp only [List.forall_mem_cons]
            exact ⟨⟨List.mem_cons_self, htail.1⟩, htail.2⟩
        · refine hkeep ?_ hcmd
          rw [List.forall_mem_cons]
          exact ⟨by simp, htail⟩

/-- A line without the word `printf` is never recorded as unsafe. -/
theorem checkCommands_of_no_printf (offset : Nat) {cmds : List (List Token)} :
    ∀ (flagged : Bool), (∀ cmd ∈ cmds, ∀ w ∈ cmd, w.text ≠ txt "printf") →
      (checkCommands uni offset flagged cmds).2 = 0 := by
  induction cmds with
  | nil => exact fun _ _ => rfl
  | cons cmd cmds ih =>
      intro flagged h
      rw [List.forall_mem_cons] at h
      have hdrop : cmd.dropWhile (fun w => w.text != txt "printf") = [] := by
        rw [List.dropWhile_eq_nil_iff]
        intro w hw
        simpa using h.1 w hw
      rw [checkCommands, hdrop]
      exact ih flagged h.2

theorem lineCommand_suffix (content : Text) : lineCommand content <:+ content := by
  unfold lineCommand
  split
  · split
    · exact (List.dropWhile_suffix _).trans (List.suffix_cons _ _)
    · exact List.dropWhile_suffix _
  · exact List.nil_suffix

theorem checkLine_hasFragment {offset : Nat} {content : Text}
    (h : (checkLine uni offset content).2 ≠ []) : HasFragment databaseFragments content := by
  have hcommand := (lineCommand_suffix content).isInfix
  refine (hasFragment_upward _) hcommand ?_
  unfold checkLine at h
  cases htokens : shellTokens uni (lineCommand content) with
  | none =>
      simp only [htokens] at h
      split at h
      · rename_i hprintf
        rw [Bool.and_eq_true] at hprintf
        exact printf_hasFragment (isInfix_of_contains hprintf.1)
      · simp at h
  | some tokens =>
      simp only [htokens] at h
      by_cases hany : tokens.any (fun w => w.text == txt "printf") = true
      · obtain ⟨w, hw, heq⟩ := List.any_eq_true.mp hany
        have hin := shellTokensFrom_infix uni htokens w hw
        rw [eq_of_beq heq] at hin
        exact printf_hasFragment hin
      · cases hsub : printfSubstitution uni (lineCommand content) with
        | some sb =>
            have hfind : finditer (seq [substitutionOpen, substitutionBody uni, lit [')']])
                (lineCommand content) ≠ [] := by
              intro hnil
              simp [printfSubstitution, hnil] at hsub
            exact Forces.of_test (hasFragment_upward _) (substitution_forces uni)
              (test_of_finditer hfind)
        | none =>
            -- no token is `printf`, so no command is checked
            have hno : ∀ cmd ∈ simpleCommands tokens, ∀ w ∈ cmd, w.text ≠ txt "printf" := by
              intro cmd hcmd w hw heq
              exact hany (List.any_eq_true.mpr ⟨w, mem_simpleCommands hcmd hw, by simp [heq]⟩)
            simp only [hany, hsub, Bool.false_eq_true, if_false] at h
            simp [checkCommands_of_no_printf uni _ false hno] at h

/-- Splitting with `keepends` loses nothing. -/
theorem flatten_splitLines (t : Text) : (splitLines t).flatten = t := by
  fun_induction splitLines t with
  | case1 => rfl
  | case2 t ih => simp [ih]
  | case3 c t _ _ ih => simp [ih]
  | case4 c t _ _ heq ih =>
      rw [heq] at ih
      simp [← ih]
  | case5 c t _ _ l ls heq ih =>
      rw [heq] at ih
      simp [← ih]

example : (splitLines (txt "a\r\nb")).flatten = txt "a\r\nb" := by decide +kernel

theorem printfTemplates_hasFragment {offset : Nat} {lines : List Text}
    (h : (printfTemplates uni offset lines).2 ≠ []) : ∃ l ∈ lines, HasFragment databaseFragments l := by
  induction lines generalizing offset with
  | nil => simp [printfTemplates] at h
  | cons l lines ih =>
      simp only [printfTemplates] at h
      by_cases hline : (checkLine uni offset (rstripNewline l)).2 = []
      · rw [hline, List.nil_append] at h
        obtain ⟨l', hl', hfrag⟩ := ih h
        exact ⟨l', List.mem_cons_of_mem _ hl', hfrag⟩
      · refine ⟨l, List.mem_cons_self, (hasFragment_upward _) ?_ (checkLine_hasFragment uni hline)⟩
        have hsuffix : (l.reverse.dropWhile fun c => c == '\r' || c == '\n') <:+ l.reverse :=
          List.dropWhile_suffix _
        have := List.reverse_prefix.mpr hsuffix
        rw [List.reverse_reverse] at this
        exact this.isInfix

theorem ne_nil_of_filterMap {f : α → Option β} {l : List α} (h : l.filterMap f ≠ []) : l ≠ [] := by
  rintro rfl
  exact h rfl

theorem databaseUrlFindings_hasFragment {t : Text} (h : databaseUrlFindings uni t ≠ []) :
    HasFragment databaseFragments t := by
  by_cases hcred : credentialSpans uni t (printfTemplates uni 0 (splitLines t)).1 = []
  · by_cases hline : (printfTemplates uni 0 (splitLines t)).2 = []
    · have hassign : assignmentSpans uni t ≠ [] := by
        intro hnil
        simp [databaseUrlFindings, hcred, hline, hnil] at h
      exact Forces.of_test (hasFragment_upward _) (dbUrlAssignmentStart_forces uni)
        (test_of_finditer (ne_nil_of_filterMap hassign))
    · obtain ⟨l, hl, hfrag⟩ := printfTemplates_hasFragment uni hline
      have hin := List.infix_of_mem_flatten hl
      rw [flatten_splitLines] at hin
      exact (hasFragment_upward _) hin hfrag
  · exact Forces.of_test (hasFragment_upward _) (dbUrlStart_forces uni)
      (test_of_finditer (ne_nil_of_filterMap hcred))

end Finders

example : withFragment databaseFragments (txt "postgres://host") = true := by decide +kernel

/-! ## A guarded scan -/

/-- Every fragment. -/
def fragments : List Text :=
  apiKeyFragments ++ secretFragments ++ oauthFragments ++ jwtFragments ++ privateKeyFragments ++
    seedPhraseFragments ++ walletFragments ++ customerFragments ++ databaseFragments

/-- Run only the detectors whose fragments `present` finds. -/
def guardedRed (uni : Unicode) (present : List Text → Bool) (t : Text) : Bool :=
  (guardedPatterns uni).any (fun g => present g.1 && quickTest g.2 none t) ||
    (present databaseFragments && !(databaseUrlFindings uni t).isEmpty)

theorem isRed_eq_findings (uni : Unicode) (t : Text) :
    isRed uni t = ((guardedPatterns uni).any (fun g => test g.2 t) ||
      !(databaseUrlFindings uni t).isEmpty) := by
  have hpatterns : (guardedPatterns uni).any (fun g => test g.2 t) =
      (patterns uni).any fun d => test d.pattern t := by
    have := congrArg (fun ps : List (Regex Char) => ps.any fun p => test p t)
      (guardedPatterns_eq uni)
    simpa only [List.any_map, Function.comp_def] using this
  have hscan : isRed uni t = !(rawFindings uni t).isEmpty := by
    unfold isRed scanText
    cases rawFindings uni t with
    | nil => rfl
    | cons f fs => simp [List.eraseDups_cons]
  rw [hscan, hpatterns, rawFindings, Bool.eq_iff_iff]
  simp [or_iff_not_imp_left]

theorem mem_fragments {uni : Unicode} {g : List Text × Regex Char} (hg : g ∈ guardedPatterns uni) :
    ∀ w ∈ g.1, w ∈ fragments := by
  intro w hw
  simp only [guardedPatterns, List.mem_cons, List.not_mem_nil, or_false] at hg
  rcases hg with rfl | rfl | rfl | rfl | rfl | rfl | rfl | rfl <;> simp [fragments, hw]

theorem mem_fragments_database : ∀ w ∈ databaseFragments, w ∈ fragments := by
  intro w hw
  simp [fragments, hw]

/-- A guarded scan that misses no fragment is the scan. -/
theorem guardedRed_eq {uni : Unicode} {present : List Text → Bool} {t : Text}
    (h : ∀ ws, (∀ w ∈ ws, w ∈ fragments) → HasFragment ws t → present ws = true) :
    guardedRed uni present t = isRed uni t := by
  simp only [isRed_eq_findings, guardedRed, quickTest_eq_test]
  congr 1
  · have hguard : ∀ g ∈ guardedPatterns uni, test g.2 t = true → present g.1 = true :=
      fun g hg htest => h g.1 (mem_fragments hg)
        (Forces.of_test (hasFragment_upward _) (guardedPatterns_force uni g hg) htest)
    rw [Bool.eq_iff_iff, List.any_eq_true, List.any_eq_true]
    constructor
    · rintro ⟨g, hg, hboth⟩
      exact ⟨g, hg, (Bool.and_eq_true _ _ ▸ hboth).2⟩
    · rintro ⟨g, hg, htest⟩
      exact ⟨g, hg, by rw [hguard g hg htest, htest]; rfl⟩
  · cases hfound : databaseUrlFindings uni t with
    | nil => simp
    | cons f fs =>
        have := h databaseFragments mem_fragments_database
          (databaseUrlFindings_hasFragment uni (by simp [hfound]))
        simp [this]

/-- **A RED text has one of the fragments.** -/
theorem isRed_hasFragment {uni : Unicode} {t : Text} (h : isRed uni t = true) :
    HasFragment fragments t := by
  rw [isRed_eq_findings, Bool.or_eq_true, List.any_eq_true] at h
  rcases h with ⟨g, hg, htest⟩ | hfound
  · exact (Forces.of_test (hasFragment_upward _) (guardedPatterns_force uni g hg) htest).mono
      (mem_fragments hg)
  · have hne : databaseUrlFindings uni t ≠ [] := by simpa [List.isEmpty_iff] using hfound
    exact (databaseUrlFindings_hasFragment uni hne).mono mem_fragments_database

/-- A pattern that matches nowhere replaces nothing. -/
theorem subn_of_not_test {r : Regex α} {t label : List α} (h : test r t = false) :
    (subn r label t).1 = t := by
  have hscan : ∀ prev skip, (∀ p ∈ scan r prev skip t, p.isHit = false) → skip = 0 →
      (scan r prev skip t).flatMap (Piece.replaced label) = t := by
    clear h
    induction t with
    | nil => intro prev skip _ _; rfl
    | cons a t ih =>
        rintro prev skip hkeep rfl
        rw [scan] at hkeep ⊢
        split at hkeep
        · have hhit := hkeep _ List.mem_cons_self
          cases hhit
        · rw [List.flatMap_cons, ih (some a) 0 (fun p hp => hkeep p (List.mem_cons_of_mem _ hp)) rfl]
          rfl
  refine hscan none 0 (fun p hp => ?_) rfl
  have hall := List.any_eq_false.mp h p hp
  exact Bool.eq_false_iff.mpr hall

/-- A text that is not RED is not redacted. -/
theorem redactText_of_not_red {uni : Unicode} {t : Text} (h : isRed uni t = false) :
    (redactText uni t).1 = t := by
  rw [isRed_eq_findings, Bool.or_eq_false_iff] at h
  obtain ⟨hpatterns, hfindings⟩ := h
  have hnone : databaseUrlFindings uni t = [] := by simpa using hfindings
  have hquiet : ∀ d ∈ patterns uni, test d.pattern t = false := by
    intro d hd
    have hmem : d.pattern ∈ (guardedPatterns uni).map Prod.snd := by
      rw [guardedPatterns_eq]
      exact List.mem_map_of_mem hd
    obtain ⟨g, hg, hpattern⟩ := List.mem_map.mp hmem
    have htest := List.any_eq_false.mp hpatterns g hg
    rw [← hpattern]
    exact Bool.eq_false_iff.mpr htest
  have hfold : ∀ (ds : List Detector) (changed : Bool), (∀ d ∈ ds, test d.pattern t = false) →
      (ds.foldl redactStep (t, changed)).1 = t := by
    intro ds
    induction ds with
    | nil => intro changed _; rfl
    | cons d ds ih =>
        intro changed hds
        obtain ⟨hd, hrest⟩ := List.forall_mem_cons.mp hds
        rw [List.foldl_cons, redactStep, subn_of_not_test hd]
        exact ih _ hrest
  rw [redactText, hnone]
  exact hfold (patterns uni) false hquiet

/-! ## One pass -/

/-- The code of a character with the case of a letter removed. -/
def code (c : Char) : Nat := c.toNat ||| 32

/-- A number below 256 from three codes. -/
def hash3 (a b c : Nat) : Nat := (7 * a + 3 * b + c) % 256

/-- The codes of the fragments. -/
def fragmentCodes : List (List Nat) := fragments.map fun w => w.map code

/-- The numbers of the fragments, as the bits of one number. -/
def fragmentMask : Nat := 0x20905002211110861004200128018002000800500404000000000000002000

/-- The fragments that occur in a text, by their codes. -/
def foundCodes : List Nat → List (List Nat)
  | a :: b :: c :: t =>
      if fragmentMask.testBit (hash3 a b c) && fragmentCodes.contains [a, b, c] then
        [a, b, c] :: foundCodes (b :: c :: t)
      else foundCodes (b :: c :: t)
  | _ => []

def isAscii (t : Text) : Bool := t.all fun c => c.toNat < 128

/-- ASCII, and none of the fragments. -/
def quiet (t : Text) : Bool := isAscii t && (foundCodes (t.map code)).isEmpty

/-- Whether one of some fragments may occur. -/
def present (t : Text) (ws : List Text) : Bool :=
  !isAscii t || ws.any fun w => (foundCodes (t.map code)).contains (w.map code)

theorem code_fold {c : Char} (h : c.toNat < 128) : code (foldCase c) = code c := by
  have hall : ∀ n < 128, code (foldCase (Char.ofNat n)) = code (Char.ofNat n) := by decide
  have := hall c.toNat h
  rwa [Char.ofNat_toNat] at this

example : code (foldCase 'K') = code 'K' := by decide +kernel

theorem codes_fold {t : Text} (h : isAscii t = true) : (t.map foldCase).map code = t.map code := by
  rw [List.map_map]
  refine List.map_congr_left fun c hc => ?_
  rw [isAscii, List.all_eq_true] at h
  exact code_fold (by simpa using h c hc)

/-- Three codes whose bit is in the mask. -/
def masked : List Nat → Bool
  | [a, b, c] => fragmentMask.testBit (hash3 a b c)
  | _ => false

/-- Every fragment is three codes, and its bit is in the mask. -/
theorem fragmentCodes_masked {w : List Nat} (hw : w ∈ fragmentCodes) :
    ∃ a b c, w = [a, b, c] ∧ fragmentMask.testBit (hash3 a b c) = true := by
  have hall : fragmentCodes.all masked = true := by decide +kernel
  have hone := List.all_eq_true.mp hall w hw
  unfold masked at hone
  split at hone
  · rename_i a b c
    exact ⟨a, b, c, rfl, hone⟩
  · cases hone

theorem foundCodes_cons {w : List Nat} {a : Nat} {t : List Nat} (h : w ∈ foundCodes t) :
    w ∈ foundCodes (a :: t) := by
  cases t with
  | nil => simp [foundCodes] at h
  | cons b t =>
      cases t with
      | nil => simp [foundCodes] at h
      | cons c t =>
          rw [foundCodes]
          split
          · exact List.mem_cons_of_mem _ h
          · exact h

/-- The pass finds every fragment. -/
theorem foundCodes_of_infix {w t : List Nat} (hw : w ∈ fragmentCodes) (h : w <:+: t) :
    w ∈ foundCodes t := by
  obtain ⟨s, u, rfl⟩ := h
  rw [List.append_assoc]
  induction s with
  | nil =>
      obtain ⟨a, b, c, rfl, hmask⟩ := fragmentCodes_masked hw
      have hin : fragmentCodes.contains [a, b, c] = true := by simpa using hw
      rw [List.nil_append, List.cons_append, List.cons_append, List.cons_append, foundCodes,
        hmask, hin]
      exact List.mem_cons_self
  | cons a s ih => exact foundCodes_cons ih

theorem HasFragment.found {ws : List Text} {t : Text} (h : HasFragment ws t)
    (hws : ∀ w ∈ ws, w ∈ fragments) (hascii : isAscii t = true) :
    ∃ w ∈ ws, w.map code ∈ foundCodes (t.map code) := by
  obtain ⟨w, hw, hin⟩ := h
  refine ⟨w, hw, ?_⟩
  rw [← codes_fold hascii]
  exact foundCodes_of_infix (List.mem_map_of_mem (hws w hw)) (hin.map code)

/-- **Quiet texts are not RED.** -/
theorem isRed_of_quiet {uni : Unicode} {t : Text} (h : quiet t = true) : isRed uni t = false := by
  rw [quiet, Bool.and_eq_true, List.isEmpty_iff] at h
  obtain ⟨hascii, hnone⟩ := h
  cases hred : isRed uni t with
  | false => rfl
  | true =>
      obtain ⟨w, -, hfound⟩ := (isRed_hasFragment hred).found (fun _ hw => hw) hascii
      rw [hnone] at hfound
      cases hfound

/-- `quiet` in one pass: none of the codes ends a fragment after the two
before it. -/
def quietFrom : Nat → Nat → Text → Bool
  | _, _, [] => true
  | a, b, c :: t =>
      match Nat.ble 128 c.toNat ||
          (fragmentMask.testBit (hash3 a b (code c)) && fragmentCodes.contains [a, b, code c]) with
      | true => false
      | false => quietFrom b (code c) t

theorem quietFrom_sound {a b : Nat} {t : Text} (h : quietFrom a b t = true) :
    isAscii t = true ∧ foundCodes (a :: b :: t.map code) = [] := by
  induction t generalizing a b with
  | nil => exact ⟨rfl, rfl⟩
  | cons c t ih =>
      rw [quietFrom] at h
      split at h
      · cases h
      · rename_i hclear
        rw [Bool.or_eq_false_iff] at hclear
        obtain ⟨hascii, hnone⟩ := hclear
        obtain ⟨htail, hfound⟩ := ih h
        constructor
        · have hlt : c.toNat < 128 := by
            rw [← Nat.not_le, ← Nat.ble_eq, hascii]
            decide
          rw [isAscii, List.all_cons, ← isAscii, htail]
          simpa using hlt
        · rw [List.map_cons, foundCodes, hnone]
          exact hfound

theorem quiet_of_quietFrom {t : Text} (h : quietFrom 0 0 t = true) : quiet t = true := by
  obtain ⟨hascii, hfound⟩ := quietFrom_sound h
  have hnone : foundCodes (t.map code) = [] := by
    rw [List.eq_nil_iff_forall_not_mem]
    intro w hw
    have := foundCodes_cons (a := 0) (foundCodes_cons (a := 0) hw)
    rw [hfound] at this
    cases this
  rw [quiet, hascii, hnone]
  rfl

example : quietFrom 0 0 (txt "a plain line") = true := by decide +kernel

/-- The scan, with the detectors skipped that cannot match. -/
def quickRed (uni : Unicode) (t : Text) : Bool :=
  !quietFrom 0 0 t && guardedRed uni (present t) t

/-- **The quick scan is the scan.** -/
theorem quickRed_eq (uni : Unicode) (t : Text) : quickRed uni t = isRed uni t := by
  unfold quickRed
  cases hquiet : quietFrom 0 0 t with
  | true => rw [isRed_of_quiet (quiet_of_quietFrom hquiet), Bool.not_true, Bool.false_and]
  | false =>
      rw [Bool.not_false, Bool.true_and]
      refine guardedRed_eq fun ws hsub hws => ?_
      unfold present
      cases hascii : isAscii t with
      | false => rfl
      | true =>
          obtain ⟨w, hw, hfound⟩ := hws.found hsub hascii
          rw [Bool.not_true, Bool.false_or, List.any_eq_true]
          exact ⟨w, hw, by simpa using hfound⟩

end RalphVault.Security
