import RalphVault.Memory.Lossless

/-!
# Memory tree — the budget of a recall

What the loop of a recall keeps below its limit and its budget. An item is
counted before the hint of a recall of high risk is added to it; the hint
makes it longer.
-/

namespace RalphVault.Memory

/-! ## Counting words -/

section Words

variable {p : Char → Bool}

theorem splitWhere_ne_nil (t : Text) : splitWhere p t ≠ [] := by
  cases t with
  | nil => simp [splitWhere]
  | cons c t =>
      simp only [splitWhere]
      split
      · simp
      · split <;> simp

theorem splitWhere_append {s : Char} (hs : p s = true) (u v : Text) :
    splitWhere p (u ++ s :: v) = splitWhere p u ++ splitWhere p v := by
  induction u with
  | nil => simp [splitWhere, hs]
  | cons c u ih =>
      cases hparts : splitWhere p u with
      | nil => exact absurd hparts (splitWhere_ne_nil u)
      | cons part parts =>
          rw [hparts] at ih
          by_cases hc : p c = true
          · simp [splitWhere, hc, ih, hparts]
          · simp [splitWhere, hc, ih, hparts]

/-- The lengths of the parts depend on the places of the cuts only. -/
theorem splitWhere_lengths {t t' : Text} (h : t.map p = t'.map p) :
    (splitWhere p t).map List.length = (splitWhere p t').map List.length := by
  induction t generalizing t' with
  | nil =>
      obtain rfl : t' = [] := by simpa using h.symm
      rfl
  | cons c t ih =>
      cases t' with
      | nil => simp at h
      | cons c' t' =>
          simp only [List.map_cons, List.cons.injEq] at h
          have hrest := ih h.2
          by_cases hc : p c = true
          · simp [splitWhere, hc, ← h.1, hrest]
          · cases hparts : splitWhere p t with
            | nil => exact absurd hparts (splitWhere_ne_nil t)
            | cons part parts =>
                cases hparts' : splitWhere p t' with
                | nil => exact absurd hparts' (splitWhere_ne_nil t')
                | cons part' parts' =>
                    rw [hparts, hparts'] at hrest
                    simp only [List.map_cons, List.cons.injEq] at hrest
                    simp [splitWhere, hc, ← h.1, hparts, hparts', hrest]

/-- `len(t.split())`. -/
def wordCount (t : Text) : Nat := (words t).length

theorem wordCount_append {s : Char} (hs : isSpace s = true) (u v : Text) :
    wordCount (u ++ s :: v) = wordCount u + wordCount v := by
  simp [wordCount, words, splitWhere_append hs]

theorem wordCount_congr {t t' : Text} (h : t.map isSpace = t'.map isSpace) :
    wordCount t = wordCount t' := by
  have hcount : ∀ t : Text, wordCount t =
      (((splitWhere isSpace t).map List.length).filter fun n => n != 0).length := by
    intro t
    rw [wordCount, words, List.filter_map, List.length_map]
    congr 2
    funext part
    cases part <;> rfl
  rw [hcount, hcount, splitWhere_lengths h]

/-- The last character of a text counts as any other that is no space. -/
theorem wordCount_last {c c' : Char} (h : isSpace c = false) (h' : isSpace c' = false) (t : Text) :
    wordCount (t ++ [c]) = wordCount (t ++ [c']) :=
  wordCount_congr (by simp [h, h'])

theorem wordCount_pos {c : Char} (hc : isSpace c = false) (t : Text) : 0 < wordCount (c :: t) := by
  cases hparts : splitWhere isSpace t with
  | nil => exact absurd hparts (splitWhere_ne_nil t)
  | cons part parts => simp [wordCount, words, splitWhere, hc, hparts]

/-- A character in front of a word belongs to it. -/
theorem wordCount_cons {c d : Char} (hc : isSpace c = false) (hd : isSpace d = false) (t : Text) :
    wordCount (c :: d :: t) = wordCount (d :: t) := by
  cases hparts : splitWhere isSpace t with
  | nil => exact absurd hparts (splitWhere_ne_nil t)
  | cons part parts => simp [wordCount, words, splitWhere, hc, hd, hparts]

end Words

/-! ## The length of an item -/

section Units

variable {host : Host}

/-- The words of a member, with the comma behind it. -/
def memberWords (host : Host) (e : Text × Value) : Nat :=
  wordCount (Json.asciiQuoteTo e.1 [] ++ [':']) + wordCount (jsonLine host e.2 ++ [','])

theorem wordCount_members {d : Fields} (hne : d ≠ []) :
    wordCount (joinWith [',', ' '] (jsonMembers host d) ++ ['\x7d']) =
      (d.map (memberWords host)).sum := by
  have hmember : ∀ (k : Text) (v : Value) (last : Char) (rest : Text), isSpace last = false →
      wordCount (Json.asciiQuoteTo k [] ++ [':', ' '] ++ jsonLine host v ++ [last]) =
        memberWords host (k, v) := by
    intro k v last rest hlast
    have hsplit : Json.asciiQuoteTo k [] ++ [':', ' '] ++ jsonLine host v ++ [last] =
        (Json.asciiQuoteTo k [] ++ [':']) ++ ' ' :: (jsonLine host v ++ [last]) := by simp
    rw [hsplit, wordCount_append (by decide),
      wordCount_last hlast (by decide : isSpace ',' = false)]
    rfl
  induction d with
  | nil => exact absurd rfl hne
  | cons e d ih =>
      obtain ⟨k, v⟩ := e
      cases d with
      | nil =>
          simp only [jsonMembers, joinWith, List.map_cons, List.map_nil, List.sum_cons,
            List.sum_nil, Nat.add_zero]
          exact hmember k v '\x7d' [] (by decide)
      | cons e' d =>
          have hjoin : joinWith [',', ' '] (jsonMembers host ((k, v) :: e' :: d)) ++ ['\x7d'] =
              (Json.asciiQuoteTo k [] ++ [':', ' '] ++ jsonLine host v ++ [',']) ++
                ' ' :: (joinWith [',', ' '] (jsonMembers host (e' :: d)) ++ ['\x7d']) := by
            simp [jsonMembers, joinWith]
          rw [hjoin, wordCount_append (by decide), hmember k v ',' [] (by decide), ih (by simp)]
          simp

/-- An item is as long as its members together. -/
theorem estimateUnits_eq {d : Fields} (hne : d ≠ []) :
    estimateUnits host d = max 1 (d.map (memberWords host)).sum := by
  have hstart : ∃ t, joinWith [',', ' '] (jsonMembers host d) ++ ['\x7d'] = '"' :: t := by
    cases d with
    | nil => exact absurd rfl hne
    | cons e d =>
        cases d with
        | nil => exact ⟨_, rfl⟩
        | cons e' d => exact ⟨_, rfl⟩
  obtain ⟨t, ht⟩ := hstart
  have hwords : (words (jsonLine host (.obj d))).length =
      wordCount (joinWith [',', ' '] (jsonMembers host d) ++ ['\x7d']) := by
    change wordCount ('\x7b' :: (joinWith [',', ' '] (jsonMembers host d) ++ ['\x7d'])) = _
    rw [ht]
    exact wordCount_cons (by decide) (by decide) t
  rw [estimateUnits, hwords, wordCount_members hne]

theorem set_new {d : Fields} {k : Text} (h : d.get? k = none) (v : Value) :
    d.set k v = d ++ [(k, v)] := by
  induction d with
  | nil => rfl
  | cons e d ih =>
      obtain ⟨a, w⟩ := e
      simp only [Fields.get?, SortedMap.get?] at h ih
      split at h
      · cases h
      · rename_i ha
        simp [Fields.set, ha, ih h]

/-- The words of the members after one was replaced. -/
theorem sum_set {d : Fields} {k : Text} {w : Value} (h : d.get? k = some w) (v : Value) :
    ((d.set k v).map (memberWords host)).sum + memberWords host (k, w) =
      (d.map (memberWords host)).sum + memberWords host (k, v) := by
  induction d with
  | nil => cases h
  | cons e d ih =>
      obtain ⟨a, u⟩ := e
      simp only [Fields.get?, SortedMap.get?] at h ih
      split at h
      · rename_i ha
        cases h
        subst ha
        simp only [Fields.set, if_true, List.map_cons, List.sum_cons]
        omega
      · rename_i ha
        have hrest := ih h
        simp only [Fields.set, ha, if_false, List.map_cons, List.sum_cons]
        omega

/-- The hint makes an item longer. -/
theorem estimateUnits_withHint {clock : Clock} {d item : Fields} {score : Rat}
    (h : renderContext clock d .high score = .ok item) :
    estimateUnits host item < estimateUnits host (withHint host .high item) := by
  obtain ⟨b, hraw, hread⟩ : ∃ b, item.get? (txt "RAW_RECOMMENDED") = some (.bool b) ∧
      item.get? (txt "suggested_read_command") = none := by
    unfold renderContext at h
    split at h
    · cases h
    · simp only [Except.ok.injEq] at h
      refine ⟨truthy (d.getD (txt "raw_ref") .null), ?_, ?_⟩
      · rw [← h]
        rfl
      · rw [← h]
        split <;> split <;> rfl
  have hne : item ≠ [] := by
    rintro rfl
    cases hraw
  have hbool : ∀ b, memberWords host (txt "RAW_RECOMMENDED", .bool b) = 2 := by
    intro b
    cases b <;> rfl
  have hset := @sum_set host _ _ _ hraw (.bool true)
  rw [hbool, hbool] at hset
  have hnew : (item.set (txt "RAW_RECOMMENDED") (.bool true)).get?
      (txt "suggested_read_command") = none := by
    rw [Fields.get?_set, if_neg (by decide), hread]
  have hhint : ∀ cmd, 1 < memberWords host (txt "suggested_read_command", .str cmd) := by
    intro cmd
    have hkey : wordCount (Json.asciiQuoteTo (txt "suggested_read_command") [] ++ [':']) = 1 := by
      decide
    have hvalue : 0 < wordCount (jsonLine host (.str cmd) ++ [',']) :=
      wordCount_pos (by decide) _
    simp only [memberWords, hkey]
    omega
  rw [withHint, if_pos rfl, set_new hnew, estimateUnits_eq hne, estimateUnits_eq (by simp),
    List.map_append, List.sum_append, List.map_singleton, List.sum_singleton]
  have hcmd := hhint (rawReadCommand (pyStr host (item.getD (txt "node_id") .null)))
  omega

end Units

/-! ## The loop -/

section Loop

variable {host : Host} {risk : Risk} {limit budget : Nat}

/-- The words of the items as they are shown. -/
def shownUnits (host : Host) (items : List Fields) : Nat := (items.map (estimateUnits host)).sum

/-- The loop keeps to its limit and, as it counts, to its budget; without the
hint it counts the items as they are shown. -/
theorem select_within {next : List (Memo Fields)} {s s' : Selection}
    (hlimit : s.items.length ≤ limit) (hbudget : s.used ≤ budget)
    (hused : risk ≠ .high → s.used = shownUnits host s.items)
    (h : select host risk limit budget next s = .ok s') :
    s'.items.length ≤ limit ∧ s'.used ≤ budget ∧
      (risk ≠ .high → s'.used = shownUnits host s'.items) := by
  induction next generalizing s with
  | nil =>
      cases h
      exact ⟨hlimit, hbudget, hused⟩
  | cons item next ih =>
      rw [select.eq_def] at h
      dsimp only at h
      split at h
      · cases h
        exact ⟨hlimit, hbudget, hused⟩
      · rename_i hroom
        split at h
        · cases h
        · rename_i item
          split at h
          · exact ih (by exact hlimit) (by exact hbudget) (by exact hused) h
          · rename_i hfits
            refine ih ?_ ?_ ?_ h
            · simp only [List.length_append, List.length_singleton]
              omega
            · simp only
              omega
            · intro hrisk
              simp [shownUnits, withHint, hrisk, hused hrisk]

end Loop

end RalphVault.Memory
