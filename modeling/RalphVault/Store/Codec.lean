import RalphVault.Store.Records

/-!
# Implementation store — reading back what was written

A check is a *codec* for an encoding and a predicate when everything it
accepts satisfies the predicate and every value that satisfies the
predicate is accepted from its encoding, as itself. The checks of the
schema are codecs, and so are the record decoders built from them: a
record that passed validation once passes it again when it is read back,
under any label.
-/

namespace RalphVault.Store

/-- `f` accepts only values with `P`, and reads each of them back from
`enc`. -/
structure Codec (f : Json → Check β) (enc : β → Json) (P : β → Prop) : Prop where
  sound : ∀ {j b}, f j = .ok b → P b
  complete : ∀ {b}, P b → f (enc b) = .ok b

theorem Codec.of_iff {f : Json → Check β} {enc : β → Json} {P : β → Prop}
    (h : ∀ j b, f j = .ok b ↔ j = enc b ∧ P b) : Codec f enc P :=
  ⟨fun hb => ((h _ _).mp hb).2, fun hb => (h _ _).mpr ⟨rfl, hb⟩⟩

/-! ## Scalars -/

section Scalars

variable [Named β]

theorem enum_name (b : β) (label : String) : enum (nameJson b) label = .ok b := by
  unfold enum nameJson
  have hfind : (Named.members : List β).find? (fun c => name c == name b) = some b := by
    cases h : (Named.members : List β).find? (fun c => name c == name b) with
    | none =>
        rw [List.find?_eq_none] at h
        exact absurd (h b (Named.complete b)) (by simp)
    | some c =>
        have hc := List.find?_some h
        rw [Named.distinct c b (by simpa using hc)]
  simp only [hfind]

theorem enum_eq_ok {j : Json} {label : String} {b : β} :
    enum j label = .ok b ↔ j = nameJson b := by
  constructor
  · intro h
    cases j with
    | str t =>
        simp only [enum] at h
        cases hf : (Named.members : List β).find? (fun c => name c == t) with
        | none => simp [hf] at h
        | some c =>
            rw [hf] at h
            cases h
            have ht := List.find?_some hf
            rw [nameJson, show name b = t by simpa using ht]
    | _ => simp [enum] at h
  · intro h
    rw [h, enum_name]

theorem enum_codec (label : String) :
    Codec (fun j => enum j label) (nameJson (β := β)) fun _ => True :=
  ⟨fun _ => trivial, fun _ => enum_name _ label⟩

end Scalars

theorem integer_eq_ok {j : Json} {label : String} {minimum n : Nat} :
    integer j label minimum = .ok n ↔ j = natJson n ∧ minimum ≤ n := by
  cases j with
  | num m =>
      simp only [integer, natJson]
      split
      · simp only [Except.ok.injEq, Json.num.injEq]
        omega
      · simp only [reduceCtorEq, Json.num.injEq, false_iff]
        omega
  | _ => simp [integer, natJson]

theorem boolean_eq_ok {j : Json} {label : String} {b : Bool} :
    boolean j label = .ok b ↔ j = .bool b := by
  cases j <;> simp [boolean]

section Texts

variable (env : Env)

/-- What `_text` asks of a string. -/
structure TextOk (limit : Nat) (allowEmpty : Bool) (t : Text) : Prop where
  nonblank : (allowEmpty || !isBlank t) = true
  bounded : t.length ≤ limit
  printable : (t.all fun c => 32 ≤ c.toNat || c == '\n' || c == '\t') = true
  notRed : isRed env t = false

theorem text_eq_ok {j : Json} {label : String} {limit : Nat} {allowEmpty : Bool} {t : Text} :
    text env j label limit allowEmpty = .ok t ↔ j = .str t ∧ TextOk env limit allowEmpty t := by
  cases j with
  | str s =>
      simp only [text, bind_eq_ok, require_eq_ok, pure, Except.pure, Except.ok.injEq,
        Json.str.injEq, Bool.and_eq_true, decide_eq_true_eq, Bool.not_eq_true']
      constructor
      · rintro ⟨_, ⟨h1, h2⟩, _, h3, _, h4, rfl⟩
        exact ⟨rfl, h1, h2, h3, h4⟩
      · rintro ⟨rfl, h⟩
        exact ⟨(), ⟨h.nonblank, h.bounded⟩, (), h.printable, (), h.notRed, rfl⟩
  | _ => simp [text]

/-- What `_identifier` asks of a string. -/
def IdentifierOk (allowEmpty : Bool) (t : Text) : Prop :=
  (allowEmpty = true ∧ t = []) ∨ (isIdentifier t = true ∧ isRed env t = false)

theorem identifier_eq_ok {j : Json} {label : String} {allowEmpty : Bool} {t : Text} :
    identifier env j label allowEmpty = .ok t ↔ j = .str t ∧ IdentifierOk env allowEmpty t := by
  cases j with
  | str s =>
      simp only [identifier, IdentifierOk, Json.str.injEq]
      by_cases h : (allowEmpty && s.isEmpty) = true
      · simp only [h, if_true, Except.ok.injEq]
        simp only [Bool.and_eq_true, List.isEmpty_iff] at h
        obtain ⟨ha, rfl⟩ := h
        constructor
        · rintro rfl
          exact ⟨rfl, .inl ⟨ha, rfl⟩⟩
        · rintro ⟨rfl, -⟩
          rfl
      · simp only [h, if_false, Bool.false_eq_true, bind_eq_ok, require_eq_ok, pure, Except.pure,
          Except.ok.injEq, Bool.not_eq_true']
        simp only [Bool.and_eq_true, List.isEmpty_iff, not_and] at h
        constructor
        · rintro ⟨_, h1, _, h2, rfl⟩
          exact ⟨rfl, .inr ⟨h1, h2⟩⟩
        · rintro ⟨rfl, ⟨ha, ht⟩ | ⟨h1, h2⟩⟩
          · exact absurd ht (h ha)
          · exact ⟨(), h1, (), h2, rfl⟩
  | _ => simp [identifier]

/-- What `_hash` asks of a string. -/
def HashOk (allowEmpty : Bool) (t : Text) : Prop :=
  (allowEmpty = true ∧ t = []) ∨ isHash t = true

theorem hash_eq_ok {j : Json} {label : String} {allowEmpty : Bool} {t : Text} :
    hash j label allowEmpty = .ok t ↔ j = .str t ∧ HashOk allowEmpty t := by
  cases j with
  | str s =>
      simp only [hash, HashOk, Json.str.injEq]
      by_cases h : (allowEmpty && s.isEmpty) = true
      · simp only [h, if_true, Except.ok.injEq]
        simp only [Bool.and_eq_true, List.isEmpty_iff] at h
        obtain ⟨ha, rfl⟩ := h
        constructor
        · rintro rfl
          exact ⟨rfl, .inl ⟨ha, rfl⟩⟩
        · rintro ⟨rfl, -⟩
          rfl
      · simp only [h, if_false, Bool.false_eq_true, bind_eq_ok, require_eq_ok, pure, Except.pure,
          Except.ok.injEq]
        simp only [Bool.and_eq_true, List.isEmpty_iff, not_and] at h
        constructor
        · rintro ⟨_, h1, rfl⟩
          exact ⟨rfl, .inr h1⟩
        · rintro ⟨rfl, ⟨ha, ht⟩ | h1⟩
          · exact absurd ht (h ha)
          · exact ⟨(), h1, rfl⟩
  | _ => simp [hash]

/-- What `_plan_id` asks of a non-empty string. -/
structure PlanIdOk (t : Text) : Prop where
  relative : (!t.isEmpty && t.length ≤ 180 && !t.contains '\\' && !startsWith ['/'] t) = true
  noTraversal : ((splitOn '/' t).length ≤ 8 &&
    (splitOn '/' t).all fun p => !(p.isEmpty || p == ['.'] || p == ['.', '.'])) = true
  components : ((splitOn '/' t).all fun p =>
    !startsWith ['~'] p && p.all fun c => 32 ≤ c.toNat) = true
  notRed : isRed env t = false

theorem PlanIdOk.ne_nil {t : Text} (h : PlanIdOk env t) : t ≠ [] := by
  rintro rfl
  simpa using h.relative

theorem planId_eq_ok {j : Json} {t : Text} :
    planId env j false = .ok t ↔ j = .str t ∧ PlanIdOk env t := by
  cases j with
  | str s =>
      simp only [planId, Bool.false_and, if_false, Bool.false_eq_true, bind_eq_ok, require_eq_ok,
        pure, Except.pure, Except.ok.injEq, Json.str.injEq, Bool.not_eq_true']
      constructor
      · rintro ⟨_, h1, _, h2, _, h3, _, h4, rfl⟩
        exact ⟨rfl, h1, h2, h3, h4⟩
      · rintro ⟨rfl, h⟩
        exact ⟨(), h.relative, (), h.noTraversal, (), h.components, (), h.notRed, rfl⟩
  | _ => simp [planId]

/-- What `_repo_relative_path` asks of a string. -/
def PathOk (allowEmpty : Bool) (t : Text) : Prop :=
  (allowEmpty = true ∧ t = []) ∨
    ((!t.isEmpty && t.length ≤ 320 && !startsWith ['/'] t && !t.contains '\\') = true ∧
      ((splitOn '/' t).all fun p => !(p.isEmpty || p == ['.'] || p == ['.', '.'])) = true ∧
      isRed env t = false)

theorem repoRelativePath_eq_ok {j : Json} {label : String} {allowEmpty : Bool} {t : Text} :
    repoRelativePath env j label allowEmpty = .ok t ↔ j = .str t ∧ PathOk env allowEmpty t := by
  cases j with
  | str s =>
      simp only [repoRelativePath, PathOk, Json.str.injEq]
      by_cases h : (allowEmpty && s.isEmpty) = true
      · simp only [h, if_true, Except.ok.injEq]
        simp only [Bool.and_eq_true, List.isEmpty_iff] at h
        obtain ⟨ha, rfl⟩ := h
        constructor
        · rintro rfl
          exact ⟨rfl, .inl ⟨ha, rfl⟩⟩
        · rintro ⟨rfl, -⟩
          rfl
      · simp only [h, if_false, Bool.false_eq_true, bind_eq_ok, require_eq_ok, pure, Except.pure,
          Except.ok.injEq, Bool.not_eq_true']
        simp only [Bool.and_eq_true, List.isEmpty_iff, not_and] at h
        constructor
        · rintro ⟨_, h1, _, h2, _, h3, rfl⟩
          exact ⟨rfl, .inr ⟨h1, h2, h3⟩⟩
        · rintro ⟨rfl, ⟨ha, ht⟩ | ⟨h1, h2, h3⟩⟩
          · exact absurd ht (h ha)
          · exact ⟨(), h1, (), h2, (), h3, rfl⟩
  | _ => simp [repoRelativePath]

end Texts

/-! ## Lists and objects -/

section Lists

theorem items_eq_ok {f : Json → String → Check β} {enc : β → Json} {P : β → Prop}
    (hf : ∀ j l b, f j l = .ok b ↔ j = enc b ∧ P b) {label : String} {bs : List β} :
    ∀ {i : Nat} {js : List Json},
      items f label i js = .ok bs ↔ js = bs.map enc ∧ ∀ b ∈ bs, P b := by
  induction bs with
  | nil =>
      intro i js
      cases js with
      | nil => simp [items]
      | cons j js => simp [items, bind_eq_ok, pure, Except.pure]
  | cons b bs ih =>
      intro i js
      cases js with
      | nil => simp [items]
      | cons j js =>
          simp only [items, bind_eq_ok, pure, Except.pure, Except.ok.injEq, List.cons.injEq,
            List.map_cons, List.forall_mem_cons]
          constructor
          · rintro ⟨b', hb, bs', hbs, rfl, rfl⟩
            rw [hf] at hb
            rw [ih] at hbs
            exact ⟨⟨hb.1, hbs.1⟩, hb.2, hbs.2⟩
          · rintro ⟨⟨hj, hjs⟩, hb, hbs⟩
            exact ⟨b, (hf _ _ _).mpr ⟨hj, hb⟩, bs, ih.mpr ⟨hjs, hbs⟩, rfl, rfl⟩

theorem boundedList_eq_ok {f : Json → String → Check β} {enc : β → Json} {P : β → Prop}
    (hf : ∀ j l b, f j l = .ok b ↔ j = enc b ∧ P b) {j : Json} {label : String} {n : Nat}
    {bs : List β} :
    boundedList f j label n = .ok bs ↔
      j = .arr (bs.map enc) ∧ bs.length ≤ n ∧ ∀ b ∈ bs, P b := by
  cases j with
  | arr js =>
      simp only [boundedList, bind_eq_ok, require_eq_ok, decide_eq_true_eq, items_eq_ok hf,
        Json.arr.injEq]
      constructor
      · rintro ⟨_, hlen, rfl, hbs⟩
        exact ⟨rfl, by simpa using hlen, hbs⟩
      · rintro ⟨rfl, hlen, hbs⟩
        exact ⟨(), by simpa using hlen, rfl, hbs⟩
  | _ => simp [boundedList]

variable (env : Env)

/-- What `_text_list` asks of a list. -/
def TextsOk (maxItems maxLength : Nat) (ts : List Text) : Prop :=
  ts.length ≤ maxItems ∧ ∀ t ∈ ts, TextOk env maxLength false t

theorem textList_eq_ok {j : Json} {label : String} {maxItems maxLength : Nat} {ts : List Text} :
    textList env j label maxItems maxLength = .ok ts ↔
      j = textsJson ts ∧ TextsOk env maxItems maxLength ts :=
  boundedList_eq_ok fun _ _ _ => text_eq_ok env

/-- What `_path_list` asks of a list. -/
def PathsOk (maxItems : Nat) (ts : List Text) : Prop :=
  ts.length ≤ maxItems ∧ ∀ t ∈ ts, PathOk env false t

theorem pathList_eq_ok {j : Json} {label : String} {maxItems : Nat} {ts : List Text} :
    pathList env j label maxItems = .ok ts ↔ j = textsJson ts ∧ PathsOk env maxItems ts :=
  boundedList_eq_ok fun _ _ _ => repoRelativePath_eq_ok env

theorem code_eq_ok {j : Json} {label : String} {t : Text} :
    code j label = .ok t ↔ j = .str t ∧ isCode t = true := by
  cases j with
  | str s =>
      simp only [code, bind_eq_ok, require_eq_ok, pure, Except.pure, Except.ok.injEq,
        Json.str.injEq]
      constructor
      · rintro ⟨_, h, rfl⟩
        exact ⟨rfl, h⟩
      · rintro ⟨rfl, h⟩
        exact ⟨(), h, rfl⟩
  | _ => simp [code]

/-- What `_code_list` asks of a list. -/
def CodesOk (maxItems : Nat) (ts : List Text) : Prop :=
  ts.length ≤ maxItems ∧ ∀ t ∈ ts, isCode t = true

theorem codeList_eq_ok {j : Json} {label : String} {maxItems : Nat} {ts : List Text} :
    codeList j label maxItems = .ok ts ↔ j = textsJson ts ∧ CodesOk maxItems ts :=
  boundedList_eq_ok fun _ _ _ => code_eq_ok

theorem object_eq_ok {j : Json} {label : String} {d : Dict} :
    object j label = .ok d ↔ j = .obj d := by
  cases j <;> simp [object]

theorem unknownKeys_of_subset {d : Dict} {allowed : List Text} {label : String}
    (h : ∀ k ∈ d.keys, k ∈ allowed) : unknownKeys d allowed label = .ok () := by
  have hnone : (d.keys.filter fun k => !allowed.contains k) = [] := by
    rw [List.filter_eq_nil_iff]
    intro k hk
    simpa using h k hk
  simp only [unknownKeys, hnone, List.isEmpty_nil, require_true]

end Lists

/-! ## Nested records -/

section Nested

variable (env : Env)

structure GitOk (g : Git) : Prop where
  commit : TextOk env 80 true g.commit ∧ (g.commit.isEmpty || isCommit g.commit) = true
  branch : TextOk env 240 true g.branch
  workspace : IdentifierOk env true g.workspaceInstanceId
  repository : IdentifierOk env true g.repositoryId

theorem git_codec : Codec (git env) (fun g => .obj g.toDict) (GitOk env) where
  sound := by
    intro j g h
    simp only [git, bind_eq_ok, object_eq_ok, text_eq_ok, identifier_eq_ok, require_eq_ok, pure,
      Except.pure, Except.ok.injEq] at h
    obtain ⟨d, -, -, -, commit, ⟨-, hc⟩, -, hcommit, branch, ⟨-, hb⟩, ws, ⟨-, hw⟩, repo,
      ⟨-, hr⟩, rfl⟩ := h
    exact ⟨⟨hc, hcommit⟩, hb, hw, hr⟩
  complete := by
    intro g h
    simp only [git, bind_eq_ok, pure, Except.pure, Except.ok.injEq]
    exact ⟨g.toDict, rfl, (), rfl, g.commit, (text_eq_ok env).mpr ⟨rfl, h.commit.1⟩, (),
      require_eq_ok.mpr h.commit.2, g.branch, (text_eq_ok env).mpr ⟨rfl, h.branch⟩,
      g.workspaceInstanceId, (identifier_eq_ok env).mpr ⟨rfl, h.workspace⟩, g.repositoryId,
      (identifier_eq_ok env).mpr ⟨rfl, h.repository⟩, rfl⟩

structure DecisionOk (d : Decision) : Prop where
  eventId : IdentifierOk env true d.eventId
  summary : TextOk env 400 true d.summary

theorem latestDecision_codec (label : String) :
    Codec (fun j => latestDecision env j label) decisionJson
      fun o => ∀ d, o = some d → DecisionOk env d where
  sound := by
    intro j o h d hd
    subst hd
    cases j with
    | null => simp [latestDecision] at h
    | _ =>
        simp only [latestDecision, bind_eq_ok, object_eq_ok, identifier_eq_ok, text_eq_ok, pure,
          Except.pure, Except.ok.injEq, Option.some.injEq] at h
        obtain ⟨_, -, _, -, id, ⟨-, hid⟩, summary, ⟨-, hs⟩, rfl⟩ := h
        exact ⟨hid, hs⟩
  complete := by
    intro o h
    cases o with
    | none => rfl
    | some d =>
        have hd := h d rfl
        simp only [latestDecision, decisionJson, bind_eq_ok, pure, Except.pure, Except.ok.injEq,
          Option.some.injEq]
        exact ⟨d.toDict, rfl, (), rfl, d.eventId,
          (identifier_eq_ok env).mpr ⟨rfl, hd.eventId⟩, d.summary,
          (text_eq_ok env).mpr ⟨rfl, hd.summary⟩, rfl⟩

structure ValidationOk (m : ValidationMap) : Prop where
  bounded : m.length ≤ 16
  sorted : SortedMap.Sorted textLt m
  codes : ∀ e ∈ m, isCode e.1 = true

theorem gates_eq_ok {d : Dict} {es : List (Text × GateResult)} :
    gates d = .ok es ↔
      d = es.map (fun e => (e.1, nameJson e.2)) ∧ ∀ e ∈ es, isCode e.1 = true := by
  induction d generalizing es with
  | nil =>
      cases es with
      | nil => simp [gates]
      | cons e es => simp [gates]
  | cons m d ih =>
      obtain ⟨k, j⟩ := m
      simp only [gates, bind_eq_ok, require_eq_ok, enum_eq_ok, pure, Except.pure,
        Except.ok.injEq]
      constructor
      · rintro ⟨_, hk, r, rfl, rest, hrest, rfl⟩
        rw [ih] at hrest
        exact ⟨by simp [hrest.1], by
          intro e he
          rcases List.mem_cons.mp he with rfl | he
          · exact hk
          · exact hrest.2 e he⟩
      · rintro ⟨hd, hcodes⟩
        cases es with
        | nil => simp at hd
        | cons e es =>
            simp only [List.map_cons, List.cons.injEq, Prod.mk.injEq] at hd
            obtain ⟨⟨rfl, rfl⟩, hd⟩ := hd
            rw [List.forall_mem_cons] at hcodes
            exact ⟨(), hcodes.1, e.2, rfl, es, ih.mpr ⟨hd, hcodes.2⟩, rfl⟩

theorem validation_codec : Codec validation validationJson ValidationOk where
  sound := by
    intro j m h
    simp only [validation, bind_eq_ok, object_eq_ok, require_eq_ok, decide_eq_true_eq,
      gates_eq_ok, pure, Except.pure, Except.ok.injEq] at h
    obtain ⟨d, -, _, hlen, es, ⟨hd, hcodes⟩, rfl⟩ := h
    subst hd
    have hbound := @SortedMap.length_ofList_le _ _ _ textLt es
    rw [List.length_map] at hlen
    exact ⟨by unfold ValidationMap.ofEntries; omega,
      SortedMap.sorted_ofList textLt_strict es,
      fun e he => hcodes e (SortedMap.mem_ofList he)⟩
  complete := by
    intro m h
    simp only [validation, validationJson, bind_eq_ok, object_eq_ok, require_eq_ok,
      decide_eq_true_eq, gates_eq_ok, pure, Except.pure, Except.ok.injEq, Json.obj.injEq]
    exact ⟨_, rfl, (), by simpa using h.bounded, m, ⟨rfl, h.codes⟩,
      SortedMap.ofList_of_sorted textLt_strict h.sorted⟩

end Nested

/-! ## State snapshots -/

section States

variable (env : Env)

/-- What the field checks of `validate_state` ask of a state. -/
structure State.FieldsOk (s : State) : Prop where
  planId : PlanIdOk env s.planId
  planPath : PathOk env true s.planPath
  phase : TextOk env 160 true s.phase
  objective : TextOk env 480 true s.objective
  nextAction : TextOk env 400 true s.nextAction
  decision : ∀ d, s.latestDecision = some d → DecisionOk env d
  blockers : TextsOk env 8 400 s.openBlockers
  questions : TextsOk env 8 400 s.openQuestions
  validation : ValidationOk s.validation
  activeFiles : PathsOk env 16 s.activeFiles
  operation : IdentifierOk env true s.lastOperationId
  eventHash : HashOk true s.lastEventHash
  git : GitOk env s.git
  writer : IdentifierOk env true s.writerSessionId
  origin : TextOk env 80 false s.origin
  intent : TextOk env 80 false s.intent
  createdAt : TextOk env 64 true s.createdAt
  updatedAt : TextOk env 64 true s.updatedAt
  semanticHash : HashOk true s.semanticHash

theorem schemaVersion_one {d : Dict} (label : String)
    (h : d.getD (txt "schema_version") .null = .num 1) : schemaVersion d label = .ok () := by
  simp [schemaVersion, h, require]

theorem expected_all {expected : Option Text} {t : Text} :
    expected.all (· == t) = true ↔ ∀ p, expected = some p → p = t := by
  cases expected <;> simp

theorem decodeState_sound {d : Dict} {expected : Option Text} {s : State}
    (h : decodeState env d expected = .ok s) :
    s.FieldsOk env ∧ ∀ p, expected = some p → p = s.planId := by
  simp only [decodeState, bind_eq_ok, planId_eq_ok, repoRelativePath_eq_ok, text_eq_ok,
    identifier_eq_ok, textList_eq_ok, pathList_eq_ok, hash_eq_ok, timestamp, require_eq_ok,
    expected_all, pure, Except.pure, Except.ok.injEq] at h
  obtain ⟨_, -, _, -, plan, hplan, _, hexp, path, hpath, gen, -, status, -, cls, -, h⟩ := h
  obtain ⟨phase, hphase, objective, hobjective, next, hnext, decision, hdecision, h⟩ := h
  obtain ⟨blockers, hblockers, questions, hquestions, gates, hgates, files, hfiles, h⟩ := h
  obtain ⟨op, hop, seq, -, ehash, hehash, git, hgit, writer, hwriter, family, -, h⟩ := h
  obtain ⟨source, -, verified, -, origin, horigin, intent, hintent, created, hcreated, h⟩ := h
  obtain ⟨updated, hupdated, shash, hshash, rfl⟩ := h
  exact ⟨⟨hplan.2, hpath.2, hphase.2, hobjective.2, hnext.2,
    (latestDecision_codec env _).sound hdecision, hblockers.2, hquestions.2,
    validation_codec.sound hgates, hfiles.2, hop.2, hehash.2, (git_codec env).sound hgit,
    hwriter.2, horigin.2, hintent.2, hcreated.2, hupdated.2, hshash.2⟩, hexp⟩

theorem decodeState_toDict {expected : Option Text} {s : State} (h : s.FieldsOk env)
    (hexp : ∀ p, expected = some p → p = s.planId) :
    decodeState env s.toDict expected = .ok s := by
  simp only [decodeState, bind_eq_ok, planId_eq_ok, repoRelativePath_eq_ok, text_eq_ok,
    identifier_eq_ok, textList_eq_ok, pathList_eq_ok, hash_eq_ok, timestamp, require_eq_ok,
    expected_all, enum_eq_ok, integer_eq_ok, boolean_eq_ok, pure, Except.pure, Except.ok.injEq]
  exact ⟨(), schemaVersion_one "state" rfl, (), rfl, s.planId, ⟨rfl, h.planId⟩, (), hexp,
    s.planPath, ⟨rfl, h.planPath⟩, s.generation, ⟨rfl, Nat.zero_le _⟩, s.status, rfl,
    s.classification, rfl, s.phase, ⟨rfl, h.phase⟩, s.objective, ⟨rfl, h.objective⟩,
    s.nextAction, ⟨rfl, h.nextAction⟩, s.latestDecision,
    (latestDecision_codec env _).complete h.decision, s.openBlockers, ⟨rfl, h.blockers⟩,
    s.openQuestions, ⟨rfl, h.questions⟩, s.validation, validation_codec.complete h.validation,
    s.activeFiles, ⟨rfl, h.activeFiles⟩, s.lastOperationId, ⟨rfl, h.operation⟩,
    s.lastEventSequence, ⟨rfl, Nat.zero_le _⟩, s.lastEventHash, ⟨rfl, h.eventHash⟩, s.git,
    (git_codec env).complete h.git, s.writerSessionId, ⟨rfl, h.writer⟩, s.modelFamily, rfl,
    s.modelSource, rfl, s.modelVerified, rfl, s.origin, ⟨rfl, h.origin⟩, s.intent,
    ⟨rfl, h.intent⟩, s.createdAt, ⟨rfl, h.createdAt⟩, s.updatedAt, ⟨rfl, h.updatedAt⟩,
    s.semanticHash, ⟨rfl, h.semanticHash⟩, rfl⟩

/-! The hash of a snapshot does not see the hash field. -/

theorem isHash_digest (j : Json) : isHash (digest env j) = true := by
  have hlen := env.sha256_length j.canonical
  have hhex : ∀ c ∈ env.sha256 j.canonical, isHexDigit c = true := by
    intro c hc
    rcases env.sha256_hex j.canonical c hc with h | h
    · simp [isHexDigit, h]
    · simp [isHexDigit, h.1, h.2]
  simp only [isHash, digest, startsWith, Bool.and_eq_true, beq_iff_eq, List.all_eq_true]
  refine ⟨⟨?_, ?_⟩, ?_⟩
  · exact List.isPrefixOf_iff_prefix.mpr (List.prefix_append _ _)
  · rw [List.length_append, hlen]
    rfl
  · rw [show 7 = (txt "sha256:").length from rfl, List.drop_left]
    exact hhex

theorem State.material_eq (s : State) (h : Text) :
    stateSemanticHash env { s with semanticHash := h }.toDict = stateSemanticHash env s.toDict :=
  rfl

@[simp] theorem State.rehashed_rehashed (s : State) :
    (s.rehashed env).rehashed env = s.rehashed env := rfl

theorem State.FieldsOk.rehashed {s : State} (h : s.FieldsOk env) :
    (s.rehashed env).FieldsOk env :=
  { h with semanticHash := .inr (isHash_digest env _) }

/-- The last two checks of `validate_state`, on the normalised snapshot. -/
structure State.Fits (limit : Nat) (s : State) : Prop where
  notRed : isRed env (Json.canonical (.obj s.toDict)) = false
  bounded : Json.encodedSize (.obj s.toDict) ≤ limit

/-- A snapshot as `validate_state` returns it. -/
structure State.Valid (limit : Nat) (s : State) : Prop where
  fields : s.FieldsOk env
  hashed : s.rehashed env = s
  fits : s.Fits env limit

theorem validateState_sound {d : Dict} {expected : Option Text} {limit : Nat} {s : State}
    (h : validateState env d expected limit = .ok s) :
    s.Valid env limit ∧ (∀ p, expected = some p → p = s.planId) ∧
      ∃ t, decodeState env d expected = .ok t ∧ s = t.rehashed env := by
  simp only [validateState, bind_eq_ok, rejectRed, require_eq_ok, Bool.not_eq_true',
    decide_eq_true_eq, pure, Except.pure, Except.ok.injEq] at h
  obtain ⟨t, ht, _, -, _, hred, _, hsize, rfl⟩ := h
  have hfields := decodeState_sound env ht
  exact ⟨⟨hfields.1.rehashed env, rfl, hred, hsize⟩, hfields.2, t, ht, rfl⟩

/-- Validating a snapshot whose fields are in order comes down to the last
two checks. -/
theorem validateState_toDict {s : State} {expected : Option Text} {limit : Nat}
    (h : s.FieldsOk env) (hexp : ∀ p, expected = some p → p = s.planId)
    (hhash : s.semanticHash = [] ∨ s.rehashed env = s) :
    validateState env s.toDict expected limit = (do
      rejectRed env (.obj (s.rehashed env).toDict) "state"
      require (Json.encodedSize (.obj (s.rehashed env).toDict) ≤ limit)
        (.schemaError s!"state exceeds hard limit of {limit} UTF-8 bytes")
      pure (s.rehashed env)) := by
  have hsupplied : (s.semanticHash.isEmpty ||
      s.semanticHash == (s.rehashed env).semanticHash) = true := by
    rcases hhash with hempty | hsame
    · simp [hempty]
    · rw [hsame]
      simp
  simp only [validateState, decodeState_toDict env h hexp, bind, Except.bind, hsupplied,
    require_true]

theorem validateState_ok {s : State} {expected : Option Text} {limit : Nat}
    (h : s.FieldsOk env) (hexp : ∀ p, expected = some p → p = s.planId)
    (hhash : s.semanticHash = [] ∨ s.rehashed env = s)
    (hfits : (s.rehashed env).Fits env limit) :
    validateState env s.toDict expected limit = .ok (s.rehashed env) := by
  rw [validateState_toDict env h hexp hhash]
  simp [rejectRed, hfits.notRed, hfits.bounded, bind, Except.bind, pure, Except.pure]

/-- **Snapshots read back**: what `validate_state` returned it returns again
when it is read from the file it was written to. -/
theorem State.Valid.reads {limit : Nat} {s : State} (h : s.Valid env limit)
    {expected : Option Text} (hexp : ∀ p, expected = some p → p = s.planId) :
    validateState env s.toDict expected limit = .ok s := by
  rw [validateState_ok env h.fields hexp (.inr h.hashed) (by rw [h.hashed]; exact h.fits),
    h.hashed]

end States

/-! ## Patches -/

section Patches

variable (env : Env)

theorem Dict.get?_ofOptions {es : List (Text × Option Json)} (h : (es.map Prod.fst).Nodup)
    (k : Text) : Dict.get? k (Dict.ofOptions es) = (SortedMap.get? k es).join := by
  induction es with
  | nil => rfl
  | cons e es ih =>
      obtain ⟨k', o⟩ := e
      rw [List.map_cons, List.nodup_cons] at h
      have habsent : SortedMap.get? k' es = none := by
        cases hget : SortedMap.get? k' es with
        | none => rfl
        | some v => exact absurd (List.mem_map_of_mem (SortedMap.mem_of_get? hget)) h.1
      cases o with
      | none =>
          by_cases hk : k' = k
          · subst hk
            simpa [Dict.ofOptions, SortedMap.get?, habsent] using ih h.2
          · simpa [Dict.ofOptions, SortedMap.get?, hk] using ih h.2
      | some j =>
          by_cases hk : k' = k
          · simp [Dict.ofOptions, SortedMap.get?, Dict.get?, hk]
          · simpa [Dict.ofOptions, SortedMap.get?, Dict.get?, hk] using ih h.2

theorem Dict.keys_ofOptions {es : List (Text × Option Json)} {k : Text}
    (h : k ∈ (Dict.ofOptions es).keys) : k ∈ es.map Prod.fst := by
  simp only [Dict.keys, Dict.ofOptions, List.mem_map, List.mem_filterMap] at h
  obtain ⟨m, ⟨e, he, hm⟩, rfl⟩ := h
  cases ho : e.2 with
  | none => simp [ho] at hm
  | some j =>
      rw [ho] at hm
      cases hm
      exact List.mem_map_of_mem he

theorem patchField_sound {k : Text} {f : Json → Check β} {enc : β → Json} {P : β → Prop}
    (hf : Codec f enc P) {d : Dict} {o : Option β} (h : patchField k f d = .ok o) :
    ∀ b, o = some b → P b := by
  intro b hb
  subst hb
  unfold patchField at h
  split at h
  · simp at h
  · simp only [bind_eq_ok, pure, Except.pure, Except.ok.injEq, Option.some.injEq] at h
    obtain ⟨b', hb', rfl⟩ := h
    exact hf.sound hb'

theorem patchField_complete {k : Text} {f : Json → Check β} {enc : β → Json} {P : β → Prop}
    (hf : Codec f enc P) {d : Dict} {o : Option β} (hd : d.get? k = o.map enc)
    (h : ∀ b, o = some b → P b) : patchField k f d = .ok o := by
  cases o with
  | none => simp [patchField, hd]
  | some b => simp [patchField, hd, hf.complete (h b rfl), bind, Except.bind, pure, Except.pure]

/-- What the field checks of `_state_patch` ask of a patch. -/
structure StatePatch.FieldsOk (p : StatePatch) : Prop where
  planPath : ∀ t, p.planPath = some t → PathOk env true t
  phase : ∀ t, p.phase = some t → TextOk env 160 true t
  objective : ∀ t, p.objective = some t → TextOk env 480 true t
  decision : ∀ o, p.latestDecision = some o → ∀ d, o = some d → DecisionOk env d
  nextAction : ∀ t, p.nextAction = some t → TextOk env 400 true t
  blockers : ∀ ts, p.openBlockers = some ts → TextsOk env 8 400 ts
  questions : ∀ ts, p.openQuestions = some ts → TextsOk env 8 400 ts
  validation : ∀ m, p.validation = some m → ValidationOk m
  activeFiles : ∀ ts, p.activeFiles = some ts → PathsOk env 16 ts
  git : ∀ g, p.git = some g → GitOk env g
  origin : ∀ t, p.origin = some t → TextOk env 80 false t
  intent : ∀ t, p.intent = some t → TextOk env 80 false t

theorem text_codec (label : String) (limit : Nat) (allowEmpty : Bool) :
    Codec (fun j => text env j label limit allowEmpty) .str (TextOk env limit allowEmpty) :=
  .of_iff fun _ _ => text_eq_ok env

theorem path_codec (label : String) (allowEmpty : Bool) :
    Codec (fun j => repoRelativePath env j label allowEmpty) .str (PathOk env allowEmpty) :=
  .of_iff fun _ _ => repoRelativePath_eq_ok env

theorem textList_codec (label : String) (maxItems maxLength : Nat) :
    Codec (fun j => textList env j label maxItems maxLength) textsJson
      (TextsOk env maxItems maxLength) :=
  .of_iff fun _ _ => textList_eq_ok env

theorem pathList_codec (label : String) (maxItems : Nat) :
    Codec (fun j => pathList env j label maxItems) textsJson (PathsOk env maxItems) :=
  .of_iff fun _ _ => pathList_eq_ok env

theorem boolean_codec (label : String) :
    Codec (fun j => boolean j label) .bool fun _ => True :=
  .of_iff fun _ _ => by simp [boolean_eq_ok]

theorem decodePatch_sound {d : Dict} {p : StatePatch} (h : decodePatch env d = .ok p) :
    p.FieldsOk env := by
  simp only [decodePatch, bind_eq_ok, pure, Except.pure, Except.ok.injEq] at h
  obtain ⟨_, -, _, -, path, hpath, status, -, cls, -, phase, hphase, objective, hobjective, h⟩ := h
  obtain ⟨decision, hdecision, next, hnext, blockers, hblockers, questions, hquestions, h⟩ := h
  obtain ⟨gates, hgates, files, hfiles, git, hgit, family, -, source, -, verified, -, h⟩ := h
  obtain ⟨origin, horigin, intent, hintent, rfl⟩ := h
  exact
    { planPath := patchField_sound (path_codec env _ _) hpath
      phase := patchField_sound (text_codec env _ _ _) hphase
      objective := patchField_sound (text_codec env _ _ _) hobjective
      decision := patchField_sound (latestDecision_codec env _) hdecision
      nextAction := patchField_sound (text_codec env _ _ _) hnext
      blockers := patchField_sound (textList_codec env _ _ _) hblockers
      questions := patchField_sound (textList_codec env _ _ _) hquestions
      validation := patchField_sound validation_codec hgates
      activeFiles := patchField_sound (pathList_codec env _ _) hfiles
      git := patchField_sound (git_codec env) hgit
      origin := patchField_sound (text_codec env _ _ _) horigin
      intent := patchField_sound (text_codec env _ _ _) hintent }

theorem StatePatch.members_keys (p : StatePatch) : p.members.map Prod.fst = statePatchKeys := rfl

theorem StatePatch.get?_toDict (p : StatePatch) (k : Text) :
    p.toDict.get? k = (SortedMap.get? k p.members).join :=
  Dict.get?_ofOptions (by rw [p.members_keys]; decide) k

theorem decodePatch_toDict {p : StatePatch} (h : p.FieldsOk env) :
    decodePatch env p.toDict = .ok p := by
  have hlen : p.toDict.length ≤ statePatchKeys.length := by
    rw [← p.members_keys, List.length_map]
    exact List.length_filterMap_le _ _
  have hkeys : ∀ k ∈ p.toDict.keys, k ∈ statePatchKeys := by
    intro k hk
    rw [← p.members_keys]
    exact Dict.keys_ofOptions hk
  have hmember : ∀ k o, SortedMap.get? k p.members = some o → p.toDict.get? k = o := by
    intro k o ho
    rw [p.get?_toDict, ho]
    rfl
  simp only [decodePatch, bind_eq_ok, pure, Except.pure, Except.ok.injEq]
  exact ⟨(), by simpa using hlen, (), unknownKeys_of_subset hkeys,
    p.planPath, patchField_complete (path_codec env _ _) (hmember _ _ rfl) h.planPath,
    p.status, patchField_complete (enum_codec _) (hmember _ _ rfl) (fun _ _ => trivial),
    p.classification, patchField_complete (enum_codec _) (hmember _ _ rfl) (fun _ _ => trivial),
    p.phase, patchField_complete (text_codec env _ _ _) (hmember _ _ rfl) h.phase,
    p.objective, patchField_complete (text_codec env _ _ _) (hmember _ _ rfl) h.objective,
    p.latestDecision,
    patchField_complete (latestDecision_codec env _) (hmember _ _ rfl) h.decision,
    p.nextAction, patchField_complete (text_codec env _ _ _) (hmember _ _ rfl) h.nextAction,
    p.openBlockers, patchField_complete (textList_codec env _ _ _) (hmember _ _ rfl) h.blockers,
    p.openQuestions,
    patchField_complete (textList_codec env _ _ _) (hmember _ _ rfl) h.questions,
    p.validation, patchField_complete validation_codec (hmember _ _ rfl) h.validation,
    p.activeFiles, patchField_complete (pathList_codec env _ _) (hmember _ _ rfl) h.activeFiles,
    p.git, patchField_complete (git_codec env) (hmember _ _ rfl) h.git,
    p.modelFamily, patchField_complete (enum_codec _) (hmember _ _ rfl) (fun _ _ => trivial),
    p.modelSource, patchField_complete (enum_codec _) (hmember _ _ rfl) (fun _ _ => trivial),
    p.modelVerified,
    patchField_complete (boolean_codec _) (hmember _ _ rfl) (fun _ _ => trivial),
    p.origin, patchField_complete (text_codec env _ _ _) (hmember _ _ rfl) h.origin,
    p.intent, patchField_complete (text_codec env _ _ _) (hmember _ _ rfl) h.intent, rfl⟩

/-- A patch as `_state_patch` returns it. -/
structure StatePatch.Valid (p : StatePatch) : Prop where
  fields : p.FieldsOk env
  notRed : isRed env (Json.canonical (.obj p.toDict)) = false

theorem statePatch_codec : Codec (statePatch env) (fun p => .obj p.toDict) (StatePatch.Valid env)
    where
  sound := by
    intro j p h
    simp only [statePatch, bind_eq_ok, rejectRed, require_eq_ok, Bool.not_eq_true', pure,
      Except.pure, Except.ok.injEq] at h
    obtain ⟨d, -, p, hp, _, hred, rfl⟩ := h
    exact ⟨decodePatch_sound env hp, hred⟩
  complete := by
    intro p h
    simp only [statePatch, bind_eq_ok, object_eq_ok, rejectRed, require_eq_ok, Bool.not_eq_true',
      pure, Except.pure, Except.ok.injEq, Json.obj.injEq]
    exact ⟨p.toDict, rfl, p, decodePatch_toDict env h.fields, (), h.notRed, rfl⟩

end Patches

/-! ## Journal records -/

section Events

variable (env : Env)

/-- What the field checks of `validate_event` ask of a record of a plan
journal. -/
structure Event.FieldsOk (e : Event) : Prop where
  sequence : 1 ≤ e.sequence
  eventId : IdentifierOk env false e.eventId
  operationId : IdentifierOk env false e.operationId
  timestamp : TextOk env 64 false e.timestamp
  planId : PlanIdOk env e.planId
  planPath : PathOk env true e.planPath
  summary : TextOk env 400 true e.summary
  reason : TextOk env 400 true e.reason
  nextAction : TextOk env 400 true e.nextAction
  phase : TextOk env 160 true e.phase
  references : PathsOk env 8 e.references
  evidenceCodes : CodesOk 8 e.evidenceCodes
  git : GitOk env e.git
  writer : IdentifierOk env true e.writerSessionId
  origin : TextOk env 80 false e.origin
  intent : TextOk env 80 false e.intent
  patch : e.statePatch.Valid env
  payloadHash : HashOk true e.operationPayloadHash
  stateHash : HashOk true e.stateSemanticHash
  previous : HashOk true e.previousEventHash
  recordHash : HashOk true e.recordHash

theorem HashOk.weaken {a : Bool} {t : Text} (h : HashOk a t) : HashOk true t :=
  h.imp (fun h => ⟨rfl, h.2⟩) id

theorem decodeEvent_sound {d : Dict} {expected : Option Text} {allowUnhashed : Bool} {e : Event}
    (h : decodeEvent env d expected false allowUnhashed = .ok e) :
    e.FieldsOk env ∧ (∀ p, expected = some p → p = e.planId) ∧
      (allowUnhashed = true ∨ e.recordHash ≠ []) := by
  simp only [decodeEvent, bind_eq_ok, planId_eq_ok, repoRelativePath_eq_ok, text_eq_ok,
    identifier_eq_ok, pathList_eq_ok, codeList_eq_ok, hash_eq_ok, integer_eq_ok, timestamp,
    require_eq_ok, expected_all, pure, Except.pure, Except.ok.injEq] at h
  obtain ⟨_, -, _, -, seq, hseq, id, hid, op, hop, ts, hts, kind, -, _, -, h⟩ := h
  obtain ⟨plan, hplan, _, hexp, path, hpath, summary, hsummary, reason, hreason, h⟩ := h
  obtain ⟨next, hnext, status, -, cls, -, phase, hphase, refs, hrefs, codes, hcodes, h⟩ := h
  obtain ⟨git, hgit, writer, hwriter, family, -, source, -, verified, -, h⟩ := h
  obtain ⟨origin, horigin, intent, hintent, patch, hpatch, payload, hpayload, h⟩ := h
  obtain ⟨state, hstate, previous, hprevious, record, hrecord, _, hunhashed, rfl⟩ := h
  refine ⟨⟨hseq.2, hid.2, hop.2, hts.2, hplan.2, hpath.2, hsummary.2, hreason.2, hnext.2,
    hphase.2, hrefs.2, hcodes.2, (git_codec env).sound hgit, hwriter.2, horigin.2, hintent.2,
    (statePatch_codec env).sound hpatch, hpayload.2, hstate.2, hprevious.2,
    hrecord.2.weaken⟩, hexp, ?_⟩
  simpa [List.isEmpty_iff] using hunhashed

theorem decodeEvent_toDict {expected : Option Text} {allowUnhashed : Bool} {e : Event}
    (h : e.FieldsOk env) (hexp : ∀ p, expected = some p → p = e.planId)
    (hhash : allowUnhashed = true ∨ e.recordHash ≠ []) :
    decodeEvent env e.toDict expected false allowUnhashed = .ok e := by
  have hrecord : HashOk allowUnhashed e.recordHash := by
    rcases h.recordHash with ⟨-, hempty⟩ | hhex
    · exact .inl ⟨hhash.resolve_right fun hne => hne hempty, hempty⟩
    · exact .inr hhex
  simp only [decodeEvent, bind_eq_ok, planId_eq_ok, repoRelativePath_eq_ok, text_eq_ok,
    identifier_eq_ok, pathList_eq_ok, codeList_eq_ok, hash_eq_ok, integer_eq_ok, boolean_eq_ok,
    enum_eq_ok, timestamp, require_eq_ok, expected_all, pure, Except.pure, Except.ok.injEq]
  exact ⟨(), schemaVersion_one "event" rfl, (), rfl, e.sequence, ⟨rfl, h.sequence⟩, e.eventId,
    ⟨rfl, h.eventId⟩, e.operationId, ⟨rfl, h.operationId⟩, e.timestamp, ⟨rfl, h.timestamp⟩,
    e.kind, rfl, (), rfl, e.planId, ⟨rfl, h.planId⟩, (), hexp, e.planPath, ⟨rfl, h.planPath⟩,
    e.summary, ⟨rfl, h.summary⟩, e.reason, ⟨rfl, h.reason⟩, e.nextAction, ⟨rfl, h.nextAction⟩,
    e.status, rfl, e.classification, rfl, e.phase, ⟨rfl, h.phase⟩, e.references,
    ⟨rfl, h.references⟩, e.evidenceCodes, ⟨rfl, h.evidenceCodes⟩, e.git,
    (git_codec env).complete h.git, e.writerSessionId, ⟨rfl, h.writer⟩, e.modelFamily, rfl,
    e.modelSource, rfl, e.modelVerified, rfl, e.origin, ⟨rfl, h.origin⟩, e.intent,
    ⟨rfl, h.intent⟩, e.statePatch, (statePatch_codec env).complete h.patch,
    e.operationPayloadHash, ⟨rfl, h.payloadHash⟩, e.stateSemanticHash, ⟨rfl, h.stateHash⟩,
    e.previousEventHash, ⟨rfl, h.previous⟩, e.recordHash, ⟨rfl, hrecord⟩, (),
    by simpa [List.isEmpty_iff] using hhash, rfl⟩

/-- A record of a plan journal as `validate_event` returns it. -/
structure Event.Valid (e : Event) : Prop where
  fields : e.FieldsOk env
  notRed : isRed env (Json.canonical (.obj e.toDict)) = false
  hashed : e.recordHash = eventRecordHash env e
  bounded : Json.encodedSize (.obj e.toDict) ≤ eventHardLimitBytes

theorem validateEvent_sound {d : Dict} {expected : Option Text} {e : Event}
    (h : validateEvent env d expected false false = .ok e) :
    e.Valid env ∧ ∀ p, expected = some p → p = e.planId := by
  simp only [validateEvent, bind_eq_ok, rejectRed, require_eq_ok, Bool.not_eq_true', pure,
    Except.pure, Except.ok.injEq, Bool.false_eq_true, if_false, decide_eq_true_eq] at h
  obtain ⟨e, he, _, hred, _, hhash, _, hsize, rfl⟩ := h
  obtain ⟨hfields, hexp, hne⟩ := decodeEvent_sound env he
  have hne : e.recordHash ≠ [] := by simpa using hne
  exact ⟨⟨hfields, hred, by simpa [List.isEmpty_iff, hne] using hhash, hsize⟩, hexp⟩

theorem isHash_ne_nil {t : Text} (h : isHash t = true) : t ≠ [] := by
  rintro rfl
  simp [isHash] at h

/-- **Journal records read back**: a record `validate_event` returned is
returned again when its line is read. -/
theorem Event.Valid.reads {e : Event} (h : e.Valid env) {expected : Option Text}
    (hexp : ∀ p, expected = some p → p = e.planId) :
    validateEvent env e.toDict expected false false = .ok e := by
  have hne : e.recordHash ≠ [] := by
    rw [h.hashed]
    exact isHash_ne_nil (isHash_digest env _)
  simp [validateEvent, decodeEvent_toDict env h.fields hexp (.inr hne), rejectRed, h.notRed,
    ← h.hashed, h.bounded, bind, Except.bind, pure, Except.pure]

end Events

/-! ## The manifest -/

section Manifests

variable (env : Env)

/-- What `_store_relative_path` asks of a string. -/
def StorePathOk (t : Text) : Prop :=
  PathOk env false t ∧ (startsWith (txt ".local-notes/ralph/implementation/") t &&
    startsWith (txt "/state.json").reverse t.reverse) = true

theorem storeRelativePath_eq_ok {j : Json} {label : String} {t : Text} :
    storeRelativePath env j label = .ok t ↔ j = .str t ∧ StorePathOk env t := by
  simp only [storeRelativePath, bind_eq_ok, repoRelativePath_eq_ok, require_eq_ok, pure,
    Except.pure, Except.ok.injEq, StorePathOk]
  constructor
  · rintro ⟨t, ⟨hj, ht⟩, _, hends, rfl⟩
    exact ⟨hj, ht, hends⟩
  · rintro ⟨hj, ht, hends⟩
    exact ⟨t, ⟨hj, ht⟩, (), hends, rfl⟩

structure Pointer.FieldsOk (p : Pointer) : Prop where
  planId : PlanIdOk env p.planId
  planPath : PathOk env true p.planPath
  statePath : StorePathOk env p.statePath
  branch : TextOk env 240 true p.branch
  workspace : IdentifierOk env true p.workspaceInstanceId
  semanticHash : HashOk true p.semanticHash

theorem decodePointer_codec (label : String) :
    Codec (fun j => decodePointer env j label) (fun p => .obj p.toDict) (Pointer.FieldsOk env)
    where
  sound := by
    intro j p h
    simp only [decodePointer, bind_eq_ok, object_eq_ok, planId_eq_ok, repoRelativePath_eq_ok,
      storeRelativePath_eq_ok, text_eq_ok, identifier_eq_ok, hash_eq_ok, pure, Except.pure,
      Except.ok.injEq] at h
    obtain ⟨d, -, _, -, plan, hplan, path, hpath, state, hstate, status, -, h⟩ := h
    obtain ⟨branch, hbranch, ws, hws, shash, hshash, seq, -, rfl⟩ := h
    exact ⟨hplan.2, hpath.2, hstate.2, hbranch.2, hws.2, hshash.2⟩
  complete := by
    intro p h
    simp only [decodePointer, bind_eq_ok, object_eq_ok, planId_eq_ok, repoRelativePath_eq_ok,
      storeRelativePath_eq_ok, text_eq_ok, identifier_eq_ok, hash_eq_ok, enum_eq_ok,
      integer_eq_ok, pure, Except.pure, Except.ok.injEq, Json.obj.injEq]
    exact ⟨p.toDict, rfl, (), rfl, p.planId, ⟨rfl, h.planId⟩, p.planPath, ⟨rfl, h.planPath⟩,
      p.statePath, ⟨rfl, h.statePath⟩, p.status, rfl, p.branch, ⟨rfl, h.branch⟩,
      p.workspaceInstanceId, ⟨rfl, h.workspace⟩, p.semanticHash, ⟨rfl, h.semanticHash⟩,
      p.lastEventSequence, ⟨rfl, Nat.zero_le _⟩, rfl⟩

/-- The plan identifiers of the pointers, each once and none of `seen`. -/
structure PointersOk (seen : List Text) (ps : List Pointer) : Prop where
  fields : ∀ p ∈ ps, p.FieldsOk env
  distinct : (ps.map Pointer.planId).Nodup
  fresh : ∀ p ∈ ps, p.planId ∉ seen

theorem decodePointers_sound {js : List Json} :
    ∀ {seen : List Text} {i : Nat} {ps : List Pointer}, decodePointers env seen i js = .ok ps →
      PointersOk env seen ps ∧ ps.length = js.length := by
  induction js with
  | nil =>
      intro seen i ps h
      simp only [decodePointers, Except.ok.injEq] at h
      subst h
      exact ⟨⟨by simp, by simp, by simp⟩, rfl⟩
  | cons j js ih =>
      intro seen i ps h
      simp only [decodePointers, bind_eq_ok, require_eq_ok, pure, Except.pure,
        Except.ok.injEq] at h
      obtain ⟨p, hp, _, hseen, ps, hps, rfl⟩ := h
      obtain ⟨hok, hlen⟩ := ih hps
      have hseen : p.planId ∉ seen := by simpa using hseen
      refine ⟨⟨?_, ?_, ?_⟩, by simp [hlen]⟩
      · rw [List.forall_mem_cons]
        exact ⟨(decodePointer_codec env _).sound hp, hok.fields⟩
      · rw [List.map_cons, List.nodup_cons]
        refine ⟨?_, hok.distinct⟩
        intro hmem
        obtain ⟨q, hq, heq⟩ := List.mem_map.mp hmem
        exact hok.fresh q hq (by simp [heq])
      · rw [List.forall_mem_cons]
        exact ⟨hseen, fun q hq hmem => hok.fresh q hq (List.mem_append_left _ hmem)⟩

theorem decodePointers_complete {ps : List Pointer} :
    ∀ {seen : List Text} {i : Nat}, PointersOk env seen ps →
      decodePointers env seen i (ps.map fun p => .obj p.toDict) = .ok ps := by
  induction ps with
  | nil => exact fun _ => rfl
  | cons p ps ih =>
      intro seen i h
      have hp := h.fields p List.mem_cons_self
      have hnodup := List.nodup_cons.mp h.distinct
      have hfresh : p.planId ∉ seen := h.fresh p List.mem_cons_self
      have hrest : PointersOk env (seen ++ [p.planId]) ps := by
        refine ⟨fun q hq => h.fields q (List.mem_cons_of_mem _ hq), hnodup.2, ?_⟩
        intro q hq hmem
        rcases List.mem_append.mp hmem with hmem | hmem
        · exact h.fresh q (List.mem_cons_of_mem _ hq) hmem
        · rw [List.mem_singleton] at hmem
          exact hnodup.1 (hmem ▸ List.mem_map_of_mem hq)
      simp [decodePointers, (decodePointer_codec env _).complete hp, hfresh, ih hrest, bind,
        Except.bind, pure, Except.pure]

/-- A manifest as `validate_manifest` returns it. -/
structure Manifest.Valid (m : Manifest) : Prop where
  identity : IdentifierOk env true m.canonicalRepoIdentity
  count : m.plans.length ≤ 64
  pointers : PointersOk env [] m.plans
  notRed : isRed env (Json.canonical (.obj m.toDict)) = false
  bounded : Json.encodedSize (.obj m.toDict) ≤ manifestHardLimitBytes

theorem pointerList_codec :
    Codec (pointerList env) (fun ps => .arr (ps.map fun p => .obj p.toDict))
      (fun ps => ps.length ≤ 64 ∧ PointersOk env [] ps) where
  sound := by
    intro j ps h
    cases j with
    | arr js =>
        simp only [pointerList, bind_eq_ok, require_eq_ok, decide_eq_true_eq] at h
        obtain ⟨_, hcount, hps⟩ := h
        obtain ⟨hok, hlen⟩ := decodePointers_sound env hps
        exact ⟨by rw [hlen]; exact hcount, hok⟩
    | _ => simp [pointerList] at h
  complete := by
    intro ps h
    simp [pointerList, bind, Except.bind, h.1, decodePointers_complete env h.2]

theorem validateManifest_sound {d : Dict} {m : Manifest} (h : validateManifest env d = .ok m) :
    m.Valid env := by
  simp only [validateManifest, bind_eq_ok, identifier_eq_ok, rejectRed, require_eq_ok,
    Bool.not_eq_true', decide_eq_true_eq, pure, Except.pure, Except.ok.injEq] at h
  obtain ⟨_, -, _, -, identity, hidentity, gen, -, plans, hplans, h⟩ := h
  obtain ⟨_, hred, _, hsize, rfl⟩ := h
  have hps := (pointerList_codec env).sound hplans
  exact ⟨hidentity.2, hps.1, hps.2, hred, hsize⟩

theorem decodePointer_exact {p q : Pointer} {label : String}
    (h : decodePointer env (.obj p.toDict) label = .ok q) : q = p := by
  simp only [decodePointer, object, bind_eq_ok, Except.ok.injEq, exists_eq_left', planId_eq_ok,
    repoRelativePath_eq_ok, storeRelativePath, text_eq_ok, identifier_eq_ok, hash_eq_ok,
    integer_eq_ok, enum_eq_ok, pure, Except.pure] at h
  obtain ⟨_, -, id, hid, path, hpath, state, ⟨_, hstate, _, -, rfl⟩, status, hstatus, h⟩ := h
  obtain ⟨branch, hbranch, ws, hws, shash, hhash, seq, hseq, rfl⟩ := h
  cases p
  simp only [Pointer.mk.injEq]
  exact ⟨(Json.str.inj hid.1).symm, (Json.str.inj hpath.1).symm, (Json.str.inj hstate.1).symm,
    (Named.distinct _ _ (Json.str.inj hstatus)).symm, (Json.str.inj hbranch.1).symm,
    (Json.str.inj hws.1).symm, (Json.str.inj hhash.1).symm,
    (Int.ofNat.inj (Json.num.inj hseq.1)).symm⟩

theorem decodePointers_exact {ps qs : List Pointer} :
    ∀ {seen : List Text} {i : Nat},
      decodePointers env seen i (ps.map fun p => .obj p.toDict) = .ok qs → qs = ps := by
  induction ps generalizing qs with
  | nil =>
      intro seen i h
      cases h
      rfl
  | cons p ps ih =>
      intro seen i h
      simp only [List.map_cons, decodePointers, bind_eq_ok, pure, Except.pure,
        Except.ok.injEq] at h
      obtain ⟨q, hq, _, -, qs', hqs, rfl⟩ := h
      rw [decodePointer_exact env hq, ih hqs]

/-- Validating the object of a manifest gives that manifest. -/
theorem validateManifest_exact {m m' : Manifest} (h : validateManifest env m.toDict = .ok m') :
    m' = m := by
  simp only [validateManifest, bind_eq_ok, identifier_eq_ok, integer_eq_ok, rejectRed, pure,
    Except.pure, Except.ok.injEq] at h
  obtain ⟨_, -, _, -, identity, hidentity, gen, hgen, plans, hplans, _, -, _, -, rfl⟩ := h
  have hps : plans = m.plans := by
    have hlist : pointerList env (.arr (m.plans.map fun p => .obj p.toDict)) = .ok plans := hplans
    simp only [pointerList, bind_eq_ok] at hlist
    obtain ⟨_, -, hlist⟩ := hlist
    exact decodePointers_exact env hlist
  cases m
  simp only [Manifest.mk.injEq]
  exact ⟨(Json.str.inj hidentity.1).symm, (Int.ofNat.inj (Json.num.inj hgen.1)).symm, hps⟩

/-- **Manifests read back.** -/
theorem Manifest.Valid.reads {m : Manifest} (h : m.Valid env) :
    validateManifest env m.toDict = .ok m := by
  simp only [validateManifest, bind_eq_ok, identifier_eq_ok, rejectRed, require_eq_ok,
    Bool.not_eq_true', decide_eq_true_eq, integer_eq_ok, pure, Except.pure, Except.ok.injEq]
  exact ⟨(), schemaVersion_one "manifest" rfl, (), rfl, m.canonicalRepoIdentity,
    ⟨rfl, h.identity⟩, m.generation, ⟨rfl, Nat.zero_le _⟩, m.plans,
    (pointerList_codec env).complete ⟨h.count, h.pointers⟩, (), h.notRed, (), h.bounded, rfl⟩

end Manifests
end RalphVault.Store
