import RalphVault.Memory.Value
import RalphVault.RegexPlace
import RalphVault.Security.Quiet

/-!
# Security — the external boundary

`external_denial` of `.codex/hooks/shared/security_boundary.py`: the input of
an external tool is encoded as one JSON text, and the scanner reads this text.
A string stands in it with its escapes and between quotes, so that what the
scanner finds in the string it need not find in the text.
-/

namespace RalphVault.ExternalBoundary

open Memory Security Regex

/-! ## The encoded input -/

/-- A string as `json.dumps` writes it. -/
def quoted (t : Text) : Text := Json.asciiQuoteTo t []

def member (m : Text × Text) : Text := quoted m.1 ++ (txt ": " ++ m.2)

/-- The members in the order of their keys. -/
def inKeyOrder (ms : List (Text × Text)) : List (Text × Text) :=
  ms.insertionSort fun a b => textLt b.1 a.1 = false

section Encode

variable (host : Host)

mutual
/-- `json.dumps(value, ensure_ascii=True, sort_keys=True)`. -/
def encode : Value → Text
  | .null => txt "null"
  | .bool b => if b then txt "true" else txt "false"
  | .int n => Json.intText n
  | .float q => host.floatText q
  | .str t => quoted t
  | .arr vs => ['['] ++ joinWith (txt ", ") (encodeItems vs) ++ [']']
  | .obj fs => ['\x7b'] ++ joinWith (txt ", ") ((inKeyOrder (encodeFields fs)).map member) ++ ['\x7d']

def encodeItems : List Value → List Text
  | [] => []
  | v :: vs => encode v :: encodeItems vs

def encodeFields : List (Text × Value) → List (Text × Text)
  | [] => []
  | (k, v) :: fs => (k, encode v) :: encodeFields fs
end

/-! ## The denial -/

/-- `tool_input`. -/
def toolInput (payload : Fields) : Fields :=
  ([txt "tool_input", txt "toolInput", txt "input"].findSome? fun key =>
    match Fields.get? payload key with
    | some (.obj data) => some data
    | _ => none).getD []

/-- `raw_tool_name`. -/
def rawToolName (payload : Fields) : Text :=
  let value := [txt "tool_name", txt "toolName", txt "tool"].findSome? fun key =>
    (Fields.get? payload key).filter truthy
  host.lower (strip ((value.map (pyStr host)).getD []))

def isExternal (payload : Fields) : Bool :=
  startsWith (txt "mcp__") (rawToolName host payload) ||
    startsWith (txt "mcp.") (rawToolName host payload)

/-- `external_denial`: the reason, if the call is denied. -/
def externalDenial (payload : Fields) : Option Text :=
  if isExternal host payload && isRed host.unicode (encode host (.obj (toolInput payload))) then
    some (txt "Sensitive material must remain local and cannot be sent through an external tool.")
  else none

end Encode

/-! ## The parts of an input -/

/-- What is judged by itself: a string value, and the line of a key with its
string value. -/
inductive Part where
  | value (t : Text)
  | line (key value : Text)

/-- A part as plain text. -/
def Part.text : Part → Text
  | value t => t
  | line k v => k ++ txt ": " ++ v

/-- A part as it stands in the encoded input. -/
def Part.json : Part → Text
  | value t => quoted t
  | line k v => member (k, quoted v)

/-- The line of a key, if its value is a string. -/
def lineParts (k : Text) : Value → List Part
  | .str t => [.line k t]
  | _ => []

mutual
def parts : Value → List Part
  | .str t => [.value t]
  | .arr vs => itemParts vs
  | .obj fs => fieldParts fs
  | _ => []

def itemParts : List Value → List Part
  | [] => []
  | v :: vs => parts v ++ itemParts vs

def fieldParts : List (Text × Value) → List Part
  | [] => []
  | (k, v) :: fs => lineParts k v ++ (parts v ++ fieldParts fs)
end

/-! ## A part in the encoded input -/

/-- What stands beside an encoded part. -/
def Edge (o : Option Char) : Prop := ∀ c ∈ o, c ∈ [' ', ',', ':', '[', ']', '\x7b', '\x7d']

/-- A text stands in another, between edges. -/
def Embedded (t whole : Text) : Prop :=
  ∃ a b, whole = a ++ (t ++ b) ∧ Edge a.getLast? ∧ Edge b.head?

section Embedding

variable {t u w : Text} {host : Host}

theorem edge_none : Edge none := fun _ h => nomatch h

theorem edge_some {c : Char} (h : c ∈ [' ', ',', ':', '[', ']', '\x7b', '\x7d']) : Edge (some c) := by
  intro d hd
  rw [← Option.some.inj hd]
  exact h

theorem Embedded.refl (t : Text) : Embedded t t :=
  ⟨[], [], by rw [List.append_nil, List.nil_append], edge_none, edge_none⟩

theorem Embedded.trans (h : Embedded t u) (h' : Embedded u w) : Embedded t w := by
  have hor : ∀ {o o' : Option Char}, Edge o → Edge o' → Edge (o.or o') := by
    intro o o' ho ho'
    cases o with
    | none => exact ho'
    | some c => exact ho
  obtain ⟨a, b, rfl, ha, hb⟩ := h
  obtain ⟨a', b', rfl, ha', hb'⟩ := h'
  refine ⟨a' ++ a, b ++ b', by simp only [List.append_assoc], ?_, ?_⟩
  · rw [List.getLast?_append]
    exact hor ha ha'
  · rw [head?_append_or]
    exact hor hb hb'

/-- An item between its separators. -/
theorem embedded_joinWith {items : List Text} (h : t ∈ items) :
    Embedded t (joinWith (txt ", ") items) := by
  induction items with
  | nil => exact absurd h List.not_mem_nil
  | cons item items ih =>
      cases items with
      | nil =>
          rw [List.mem_singleton.mp h]
          exact Embedded.refl item
      | cons next items =>
          have hjoin : joinWith (txt ", ") (item :: next :: items) =
              item ++ (txt ", " ++ joinWith (txt ", ") (next :: items)) := List.append_assoc _ _ _
          rw [hjoin]
          rcases List.mem_cons.mp h with rfl | h
          · exact ⟨[], _, rfl, edge_none, edge_some (by decide)⟩
          · refine (ih h).trans ⟨item ++ txt ", ", [], ?_, ?_, edge_none⟩
            · rw [List.append_nil, List.append_assoc]
            · rw [List.getLast?_append]
              exact edge_some (by decide)

/-- A text between brackets. -/
theorem embedded_block {c d : Char} (hc : Edge (some c)) (hd : Edge (some d)) (t : Text) :
    Embedded t ([c] ++ t ++ [d]) :=
  ⟨[c], [d], List.append_assoc _ _ _, hc, hd⟩

theorem embedded_member (m : Text × Text) : Embedded m.2 (member m) := by
  refine ⟨quoted m.1 ++ txt ": ", [], ?_, ?_, edge_none⟩
  · rw [member, List.append_nil, List.append_assoc]
  · rw [List.getLast?_append]
    exact edge_some (by decide)

mutual
/-- **Every part stands in the encoded value.** -/
theorem parts_embedded : ∀ (v : Value), ∀ part ∈ parts v, Embedded part.json (encode host v)
  | .str t, part, h => by
      rw [List.mem_singleton.mp h, encode]
      exact Embedded.refl _
  | .arr vs, part, h => by
      obtain ⟨item, hitem, hpart⟩ := items_embedded vs part h
      rw [encode]
      exact hpart.trans ((embedded_joinWith hitem).trans
        (embedded_block (edge_some (by decide)) (edge_some (by decide)) _))
  | .obj fs, part, h => by
      obtain ⟨m, hm, hpart⟩ := fields_embedded fs part h
      have hsorted : m ∈ inKeyOrder (encodeFields host fs) :=
        (List.perm_insertionSort _ _).mem_iff.mpr hm
      rw [encode]
      exact hpart.trans ((embedded_joinWith (List.mem_map_of_mem hsorted)).trans
        (embedded_block (edge_some (by decide)) (edge_some (by decide)) _))
  | .null, _, h => absurd h List.not_mem_nil
  | .bool _, _, h => absurd h List.not_mem_nil
  | .int _, _, h => absurd h List.not_mem_nil
  | .float _, _, h => absurd h List.not_mem_nil

theorem items_embedded : ∀ (vs : List Value), ∀ part ∈ itemParts vs,
    ∃ item ∈ encodeItems host vs, Embedded part.json item
  | [], _, h => absurd h List.not_mem_nil
  | v :: vs, part, h => by
      rcases List.mem_append.mp h with h | h
      · exact ⟨encode host v, List.mem_cons_self, parts_embedded v part h⟩
      · obtain ⟨item, hitem, hpart⟩ := items_embedded vs part h
        exact ⟨item, List.mem_cons_of_mem _ hitem, hpart⟩

theorem fields_embedded : ∀ (fs : List (Text × Value)), ∀ part ∈ fieldParts fs,
    ∃ m ∈ encodeFields host fs, Embedded part.json (member m)
  | [], _, h => absurd h List.not_mem_nil
  | (k, v) :: fs, part, h => by
      have hself : (k, encode host v) ∈ encodeFields host ((k, v) :: fs) := List.mem_cons_self
      rcases List.mem_append.mp h with h | h
      · cases v with
        | str t =>
            rw [List.mem_singleton.mp h]
            exact ⟨_, hself, Embedded.refl _⟩
        | _ => exact absurd h List.not_mem_nil
      rcases List.mem_append.mp h with h | h
      · exact ⟨_, hself, (parts_embedded v part h).trans (embedded_member _)⟩
      · obtain ⟨m, hm, hpart⟩ := fields_embedded fs part h
        exact ⟨m, List.mem_cons_of_mem _ hm, hpart⟩
end

end Embedding

/-! ## What stays found -/

section Found

variable {uni : Unicode} {t w : Text}

/-- Neighbours that a boundary does not tell apart. -/
def Same (uni : Unicode) (l l' : Option Char) : Prop := l.any uni.word = l'.any uni.word

theorem blind_boundary : Blind (Same uni) (boundary uni) := by
  intro l l' e e' hl he
  show (l.any uni.word != e.any uni.word) = (l'.any uni.word != e'.any uni.word)
  rw [show l.any uni.word = l'.any uni.word from hl, show e.any uni.word = e'.any uni.word from he]

theorem blind_litCI (w : Text) : Blind (Same uni) (litCI w) := blind_word _ _

theorem blind_lit (w : Text) : Blind (Same uni) (lit w) := blind_word _ _

theorem blind_patterns : ∀ d ∈ patterns uni, Blind (Same uni) d.pattern := by
  have hspace : Blind (Same uni) Security.space := trivial
  have hamong : ∀ cs, Blind (Same uni) (among cs) := fun _ => trivial
  have hsep : Blind (Same uni) optSep := blind_opt.mpr trivial
  have hquote : Blind (Same uni) optQuote := blind_opt.mpr trivial
  simp only [patterns, apiKeyPattern, secretAssignmentPattern, oauthTokenPattern, jwtPattern,
    jwtPart, privateKeyPattern, pemRule, seedPhrasePattern, seedWord, walletMaterialPattern,
    customerDataPattern, List.forall_mem_cons, List.not_mem_nil, false_imp_iff, implies_true,
    and_true, blind_boundary, blind_lit, blind_litCI, hspace, hamong, hsep, hquote, blind_empty,
    blind_chr, blind_star, blind_seq, blind_anyOf, blind_opt, blind_upTo, blind_times,
    blind_between, blind_atLeast]

theorem nullable_patterns : ∀ d ∈ patterns uni, nullable d.pattern = false := by
  have hall : ((patterns uni).all fun d => !nullable d.pattern) = true := rfl
  intro d hd
  simpa using List.all_eq_true.mp hall d hd

/-- An edge is to a boundary like nothing. -/
theorem same_edge {o : Option Char} (h : Edge o) : Same uni none o := by
  cases o with
  | none => rfl
  | some c =>
      have hc := h c rfl
      have hword : ∀ c ∈ [' ', ',', ':', '[', ']', '\x7b', '\x7d'],
          c.toNat < 128 ∧ isAsciiAlnum c = false ∧ (c == '_') = false := by decide
      obtain ⟨hlow, halnum, hunder⟩ := hword c hc
      show false = uni.word c
      rw [Unicode.word, uni.alnum_ascii c hlow, halnum, hunder]
      rfl

/-- **What a pattern finds in an embedded text it finds in the whole.** -/
theorem Embedded.test (h : Embedded t w) {r : Regex Char} (hblind : Blind (Same uni) r)
    (hr : nullable r = false) (ht : Regex.test r t = true) : Regex.test r w = true := by
  obtain ⟨a, b, rfl, ha, hb⟩ := h
  obtain ⟨pre, u, post, rfl, hm⟩ := test_place ht
  have hsame : ∀ {o o' v : Option Char}, Same uni o o' → Same uni (v.or o) (v.or o') := by
    intro o o' v ho
    cases v with
    | none => exact ho
    | some c => rfl
  have hleft : Same uni pre.getLast? ((a ++ pre).getLast?) := by
    rw [List.getLast?_append]
    have h := hsame (v := pre.getLast?) (same_edge ha)
    rwa [Option.or_none] at h
  have hright : Same uni post.head? ((post ++ b).head?) := by
    rw [head?_append_or]
    have h := hsame (v := post.head?) (same_edge hb)
    rwa [Option.or_none] at h
  have hrefl : ∀ l, Same uni l l := fun _ => rfl
  have hplace : Matches r (a ++ pre).getLast? u (post ++ b).head? :=
    hm.beside hrefl hblind hleft hright
  have hfound := test_of_place hr hplace
  simpa only [List.append_assoc] using hfound

theorem isRed_of_pattern {d : Detector} (hd : d ∈ patterns uni)
    (h : Regex.test d.pattern t = true) : isRed uni t = true := by
  have hmem : (⟨d.kind, d.label⟩ : Finding) ∈ scanText uni t := by
    rw [scanText, List.mem_eraseDups, rawFindings]
    exact List.mem_append_left _ (List.mem_map.mpr ⟨d, List.mem_filter.mpr ⟨hd, h⟩, rfl⟩)
  rw [isRed, Bool.not_eq_true', List.isEmpty_eq_false_iff]
  exact List.ne_nil_of_mem hmem

end Found

/-! ## Calls that are denied -/

/-- Whether a pattern finds something in a part as it is encoded. -/
def flagged (uni : Unicode) (part : Part) : Bool :=
  (patterns uni).any fun d => Regex.test d.pattern part.json

section Denial

variable (host : Host) (payload : Fields)

/-- The parts of the input of a call. -/
def inputParts : List Part := parts (.obj (toolInput payload))

/-- An external call with a RED part is denied. -/
def KeptIn : Prop :=
  isExternal host payload = true → (∃ part ∈ inputParts payload, isRed host.unicode part.text = true) →
    externalDenial host payload ≠ none

/-- When a part is RED, a pattern finds something in an encoded part. -/
def StaysFound : Prop :=
  (∃ part ∈ inputParts payload, isRed host.unicode part.text = true) →
    ∃ part ∈ inputParts payload, flagged host.unicode part = true

end Denial

def asciiHost : Host := Host.ascii id

/-- A call of an external tool with one argument. -/
def argumentCall (key value : Text) : Fields :=
  [(txt "tool_name", .str (txt "mcp__notes__add")), (txt "tool_input", .obj [(key, .str value)])]

end RalphVault.ExternalBoundary
