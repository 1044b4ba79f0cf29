import Mathlib
import RalphVault.Text

/-!
# Places

Conditions on a place of a text: the character before it and the text
from it on. `occurs` asks whether a condition holds at some place. Where
a condition sees nothing across the characters of a class (`Local`), it
occurs in a text if and only if it occurs in one of the parts between
them.

`replaceFrom` is the substitution of a pattern that, once it starts,
takes everything up to the next character of a class. `occurs_replace`
says what can be found in its result.
-/

namespace RalphVault

/-- A condition on a place. -/
abbrev Place := Option Char → Text → Bool

/-- The condition holds at some place of the text. -/
def occurs (P : Place) : Option Char → Text → Bool
  | _, [] => false
  | prev, c :: t => P prev (c :: t) || occurs P (some c) t

theorem occurs_cons (P : Place) (prev : Option Char) (c : Char) (t : Text) :
    occurs P prev (c :: t) = (P prev (c :: t) || occurs P (some c) t) := rfl

/-! ## Conditions that see nothing across a class -/

/-- The condition never starts at a character of the class, does not tell
it from the start of the text, and does not look behind it. -/
structure Local (brk : Char → Bool) (P : Place) : Prop where
  atBreak : ∀ prev b t, brk b = true → P prev (b :: t) = false
  behindBreak : ∀ b t, brk b = true → P (some b) t = P none t
  front : ∀ prev t, P prev t = P prev (t.takeWhile fun c => !brk c)

theorem Local.mono {brk brk' : Char → Bool} {P : Place} (h : Local brk P)
    (hsub : ∀ c, brk' c = true → brk c = true) : Local brk' P := by
  refine ⟨fun prev b t hb => h.atBreak prev b t (hsub b hb),
    fun b t hb => h.behindBreak b t (hsub b hb), fun prev t => ?_⟩
  rw [h.front prev t, h.front prev (t.takeWhile fun c => !brk' c)]
  congr 1
  induction t with
  | nil => rfl
  | cons c t ih =>
      cases hc : brk c with
      | true =>
          cases hc' : brk' c with
          | true => simp [hc, hc']
          | false => simp [hc, hc']
      | false =>
          have hc' : brk' c = false := by
            by_contra hne
            rw [hsub c (by simpa using hne)] at hc
            cases hc
          simp [hc, hc', ih]

section Local

variable {brk : Char → Bool} {P : Place}

theorem Local.occurs_behind (h : Local brk P) {b : Char} (hb : brk b = true) (t : Text) :
    occurs P (some b) t = occurs P none t := by
  cases t with
  | nil => rfl
  | cons c t => rw [occurs_cons, occurs_cons, h.behindBreak b _ hb]

/-- Across a character of the class the two sides do not see each other. -/
theorem Local.occurs_append (h : Local brk P) {b : Char} (hb : brk b = true) (s u : Text)
    (prev : Option Char) :
    occurs P prev (s ++ b :: u) = (occurs P prev s || occurs P none u) := by
  induction s generalizing prev with
  | nil =>
      rw [List.nil_append, occurs_cons, h.atBreak prev b u hb, h.occurs_behind hb]
      rfl
  | cons c s ih =>
      have hfront : P prev (c :: s ++ b :: u) = P prev (c :: s) := by
        rw [h.front prev (c :: s ++ b :: u), h.front prev (c :: s), List.takeWhile_append]
        split
        · rename_i hall
          rw [List.takeWhile_cons_of_neg (by simp [hb]), List.append_nil]
          exact congrArg (P prev) (List.IsPrefix.eq_of_length (List.takeWhile_prefix _) hall).symm
        · rfl
      rw [List.cons_append, occurs_cons, ih, ← List.cons_append, hfront, occurs_cons, Bool.or_assoc]

/-- A condition occurs in one of the parts between the characters of the class. -/
theorem Local.occurs_split (h : Local brk P) (t : Text) : ∀ prev, ∃ first rest,
    splitWhere brk t = first :: rest ∧
      occurs P prev t = (occurs P prev first || rest.any (occurs P none)) ∧
      first = t.takeWhile fun c => !brk c := by
  induction t with
  | nil => exact fun prev => ⟨[], [], rfl, rfl, rfl⟩
  | cons c t ih =>
      intro prev
      obtain ⟨first, rest, hsplit, hoccurs, hfirst⟩ := ih (some c)
      cases hc : brk c with
      | true =>
          refine ⟨[], first :: rest, ?_, ?_, ?_⟩
          · rw [splitWhere, if_pos hc, hsplit]
          · rw [occurs_cons, h.atBreak prev c t hc, hoccurs, h.occurs_behind hc]
            rfl
          · rw [List.takeWhile_cons_of_neg (by simp [hc])]
      | false =>
          have htake : (c :: t).takeWhile (fun c => !brk c) = c :: first := by
            rw [List.takeWhile_cons_of_pos (by simp [hc]), hfirst]
          have hself : (c :: first).takeWhile (fun c => !brk c) = c :: first := by
            rw [← htake, List.takeWhile_idem]
          refine ⟨c :: first, rest, ?_, ?_, htake.symm⟩
          · rw [splitWhere, if_neg (by simp [hc]), hsplit]
          · rw [occurs_cons, hoccurs, h.front prev (c :: t), htake, occurs_cons, Bool.or_assoc]

theorem Local.occurs_parts (h : Local brk P) (t : Text) :
    occurs P none t = (splitWhere brk t).any (occurs P none) := by
  obtain ⟨first, rest, hsplit, hoccurs, -⟩ := h.occurs_split t none
  rw [hsplit, hoccurs, List.any_cons]

theorem Local.occurs_words (h : Local isSpace P) (t : Text) :
    occurs P none t = (words t).any (occurs P none) := by
  rw [h.occurs_parts, words]
  induction splitWhere isSpace t with
  | nil => rfl
  | cons part parts ih =>
      rw [List.any_cons, ih]
      cases part with
      | nil => rfl
      | cons c part => rw [List.filter_cons_of_pos rfl, List.any_cons]

theorem Local.occurs_joinWith (h : Local brk P) {b : Char} (hb : brk b = true) {sep : Text}
    (hsep : occurs P none sep = false) (hend : sep = [] ∨ ∃ s d, sep = s ++ [d] ∧ brk d = true)
    (ts : List Text) : occurs P none (joinWith (b :: sep) ts) = ts.any (occurs P none) := by
  induction ts with
  | nil => rfl
  | cons t ts ih =>
      cases ts with
      | nil => simp [joinWith]
      | cons t' ts =>
          have hjoin : joinWith (b :: sep) (t :: t' :: ts) =
              t ++ b :: (sep ++ joinWith (b :: sep) (t' :: ts)) := by
            simp [joinWith]
          rw [hjoin, h.occurs_append hb, List.any_cons, ← ih]
          rcases hend with rfl | ⟨s, d, rfl, hd⟩
          · rw [List.nil_append]
          · have hs : occurs P none s = false := by
              rw [h.occurs_append hd s [] none, Bool.or_eq_false_iff] at hsep
              exact hsep.1
            rw [List.append_assoc, List.singleton_append, h.occurs_append hd, hs, Bool.false_or]

end Local

/-! ## Heads of a text -/

/-- The text starts with one character of each class. -/
def frontMatches : List (Char → Bool) → Text → Bool
  | [], _ => true
  | _ :: _, [] => false
  | p :: ps, c :: t => p c && frontMatches ps t

theorem frontMatches_takeWhile {q : Char → Bool} {ps : List (Char → Bool)}
    (h : ∀ p ∈ ps, ∀ c, p c = true → q c = true) (s : Text) :
    frontMatches ps s = frontMatches ps (s.takeWhile q) := by
  induction ps generalizing s with
  | nil => cases s <;> rfl
  | cons p ps ih =>
      obtain ⟨hp, hps⟩ := List.forall_mem_cons.mp h
      cases s with
      | nil => rfl
      | cons c s =>
          cases hq : q c with
          | true => rw [List.takeWhile_cons_of_pos hq, frontMatches, frontMatches, ih hps s]
          | false =>
              have hpc : p c = false := by
                by_contra hne
                rw [hp c (by simpa using hne)] at hq
                cases hq
              rw [List.takeWhile_cons_of_neg (by simp [hq])]
              show (p c && frontMatches ps s) = false
              rw [hpc]
              rfl

/-! ## Substitutions up to the next character of a class -/

/-- `pattern.sub(label, text)` of a pattern that starts at the places of
`starts` and takes everything up to the next character of `stop`; the flag
tells that a match is being taken. -/
def replaceFrom (starts : Place) (stop : Char → Bool) (label : Text) :
    Bool → Option Char → Text → Text
  | _, _, [] => []
  | true, _, c :: t =>
      if stop c then c :: replaceFrom starts stop label false (some c) t
      else replaceFrom starts stop label true (some c) t
  | false, prev, c :: t =>
      if starts prev (c :: t) then label ++ replaceFrom starts stop label true (some c) t
      else c :: replaceFrom starts stop label false (some c) t

section Replace

variable {starts : Place} {stop : Char → Bool} {label : Text} {P Q : Place}

/-- What is found in the result was found in the text: a condition that
neither starts at a character of the class nor in the label, and that a kept
place only shows if the text does there. -/
theorem occurs_replace (hstop : ∀ prev c t, stop c = true → P prev (c :: t) = false)
    (hlabel : ∀ prev u, occurs P prev (label ++ u) = true → ∃ prev', occurs P prev' u = true)
    (hkeep : ∀ prev c t, starts prev (c :: t) = false →
      P prev (c :: replaceFrom starts stop label false (some c) t) = true → Q prev (c :: t) = true)
    (t : Text) : ∀ prev,
      (occurs P prev (replaceFrom starts stop label false prev t) = true →
        occurs Q prev t = true) ∧
      ∀ shown, occurs P shown (replaceFrom starts stop label true prev t) = true →
        occurs Q prev t = true := by
  induction t with
  | nil =>
      intro prev
      refine ⟨?_, fun shown => ?_⟩
      · intro h
        cases h
      · intro h
        cases h
  | cons c t ih =>
      intro prev
      obtain ⟨hkept, htaken⟩ := ih (some c)
      rw [occurs_cons Q]
      refine ⟨fun h => ?_, fun shown h => ?_⟩
      · rw [replaceFrom] at h
        split at h
        · obtain ⟨prev', h⟩ := hlabel _ _ h
          rw [htaken prev' h, Bool.or_true]
        · rename_i hstarts
          rw [occurs_cons, Bool.or_eq_true] at h
          rcases h with h | h
          · rw [hkeep prev c t (by simpa using hstarts) h, Bool.true_or]
          · rw [hkept h, Bool.or_true]
      · rw [replaceFrom] at h
        split at h
        · rename_i hc
          rw [occurs_cons, hstop shown c _ hc, Bool.false_or] at h
          rw [hkept h, Bool.or_true]
        · rw [htaken shown h, Bool.or_true]

/-- A character of the result that is neither in front of the label nor, when
the label is empty, of the class, is one of the text. -/
theorem replaceFrom_eq_cons {prev : Option Char} {t : Text} {a : Char} {o : Text}
    (h : replaceFrom starts stop label false prev t = a :: o) (hlabel : label.head? ≠ some a)
    (hstop : label = [] → stop a = false) :
    ∃ t', t = a :: t' ∧ o = replaceFrom starts stop label false (some a) t' := by
  cases t with
  | nil => cases h
  | cons c t =>
      rw [replaceFrom] at h
      split at h
      · cases label with
        | nil =>
            -- behind a match that leaves nothing comes a character of the class
            rw [List.nil_append] at h
            have hhead : ∀ (t : Text) (prev : Option Char),
                replaceFrom starts stop [] true prev t = a :: o → stop a = true := by
              intro t
              induction t with
              | nil =>
                  intro prev h
                  cases h
              | cons d t ih =>
                  intro prev h
                  rw [replaceFrom] at h
                  split at h
                  · rename_i hd
                    rw [List.cons.injEq] at h
                    exact h.1 ▸ hd
                  · exact ih _ h
            rw [hhead t _ h] at hstop
            exact absurd (hstop rfl) (by decide)
        | cons l ls =>
            rw [List.cons_append, List.cons.injEq] at h
            exact absurd (congrArg some h.1) hlabel
      · rw [List.cons.injEq] at h
        obtain ⟨rfl, rfl⟩ := h
        exact ⟨t, rfl, rfl⟩

end Replace

end RalphVault
