import Mathlib

/-!
# Regex — backtracking matcher

Regular expressions with the order of a backtracking engine: `run r c`
lists the cursors at which a match of `r` started at `c` can end, in the
order in which the engine tries them, so that its head is the match a
leftmost-first engine reports. Zero-width conditions look at the two
neighbours of a position (`look`), which is all that `\b` and a
one-character lookbehind need.

Beside the engine stands the relation `Matches r l u e`: `r` matches the
word `u` when the character before it is `l` and the one after it is
`e`. The relation never mentions the rest of the text, so a match found
in one text is a match in any text that agrees with it on the word and
its two neighbours. `mem_run` ties the two together.
-/

namespace RalphVault

variable {α : Type}

inductive Regex (α : Type) where
  | empty
  | chr (p : α → Bool)
  | look (p : Option α → Option α → Bool)
  | cat (r s : Regex α)
  | alt (r s : Regex α)
  | star (greedy : Bool) (r : Regex α)

namespace Regex

/-! ## Derived forms -/

/-- `r` exactly `n` times, then `s`. -/
def times (n : Nat) (r s : Regex α) : Regex α :=
  match n with
  | 0 => s
  | n + 1 => cat r (times n r s)

/-- `r?`. -/
def opt (r : Regex α) : Regex α := alt r empty

/-- `r{0,n}`, longest first. -/
def upTo (n : Nat) (r : Regex α) : Regex α :=
  match n with
  | 0 => empty
  | n + 1 => opt (cat r (upTo n r))

/-- `r{lo,hi}`. -/
def between (lo hi : Nat) (r : Regex α) : Regex α := times lo r (upTo (hi - lo) r)

/-- `r{n,}`. -/
def atLeast (n : Nat) (r : Regex α) : Regex α := times n r (star true r)

/-- A sequence. -/
def seq : List (Regex α) → Regex α
  | [] => empty
  | [r] => r
  | r :: rs => cat r (seq rs)

/-- An alternation, tried left to right. -/
def anyOf : List (Regex α) → Regex α
  | [] => chr fun _ => false
  | [r] => r
  | r :: rs => alt r (anyOf rs)

/-- A literal word, each character compared by `eqv`. -/
def word (eqv : α → α → Bool) : List α → Regex α
  | [] => empty
  | [a] => chr (eqv a)
  | a :: w => cat (chr (eqv a)) (word eqv w)

/-! ## The engine -/

/-- A position of a text: how many characters were consumed, the
character before it and the characters from it on. -/
structure Cursor (α : Type) where
  pos : Nat
  prev : Option α
  rest : List α

/-- The cursor `u` further on. -/
def Cursor.advance (c : Cursor α) (u : List α) : Cursor α :=
  ⟨c.pos + u.length, u.getLast?.or c.prev, c.rest.drop u.length⟩

/-- The iterations of a repeat; one that consumes nothing is not tried. -/
def starRun (greedy : Bool) (f : Cursor α → List (Cursor α)) :
    Nat → Cursor α → List (Cursor α)
  | 0, c => [c]
  | n + 1, c =>
      let more := ((f c).filter fun d => decide (c.pos < d.pos)).flatMap (starRun greedy f n)
      if greedy then more ++ [c] else c :: more

def run : Regex α → Cursor α → List (Cursor α)
  | empty, c => [c]
  | chr p, c => match c.rest with
      | [] => []
      | a :: t => if p a then [⟨c.pos + 1, some a, t⟩] else []
  | look p, c => if p c.prev c.rest.head? then [c] else []
  | cat r s, c => (run r c).flatMap (run s)
  | alt r s, c => run r c ++ run s c
  | star greedy r, c => starRun greedy (run r) c.rest.length c

/-- `pattern.match`: the length of the match at a cursor. -/
def matchLen (r : Regex α) (prev : Option α) (rest : List α) : Option Nat :=
  (run r ⟨0, prev, rest⟩).head?.map Cursor.pos

/-- `pattern.fullmatch`. -/
def fullmatch (r : Regex α) (t : List α) : Bool :=
  (run r ⟨0, none, t⟩).any fun c => c.rest.isEmpty

/-- What a left-to-right scan makes of a text: characters outside every
match, and the matches. -/
inductive Piece (α : Type) where
  | keep (a : α)
  | hit (u : List α)

/-- The scan of `pattern.finditer` and `pattern.sub`: `skip` characters
still belong to the last match. Only patterns that consume something are
scanned for. -/
def scan (r : Regex α) : Option α → Nat → List α → List (Piece α)
  | _, _, [] => []
  | _, skip + 1, a :: t => scan r (some a) skip t
  | prev, 0, a :: t =>
      match matchLen r prev (a :: t) with
      | some (n + 1) => .hit ((a :: t).take (n + 1)) :: scan r (some a) n t
      | _ => .keep a :: scan r (some a) 0 t

def pieces (r : Regex α) (t : List α) : List (Piece α) := scan r none 0 t

def Piece.isHit : Piece α → Bool
  | keep _ => false
  | hit _ => true

def Piece.text : Piece α → List α
  | keep a => [a]
  | hit u => u

def Piece.replaced (label : List α) : Piece α → List α
  | keep a => [a]
  | hit _ => label

/-- `pattern.search(t)` as a truth value. -/
def test (r : Regex α) (t : List α) : Bool := (pieces r t).any Piece.isHit

/-- `pattern.subn(label, t)`. -/
def subn (r : Regex α) (label t : List α) : List α × Nat :=
  ((pieces r t).flatMap (Piece.replaced label), ((pieces r t).filter Piece.isHit).length)

/-- The spans of the matches of a scan that starts at position `i`. -/
def spansFrom : Nat → List (Piece α) → List (Nat × Nat)
  | _, [] => []
  | i, .keep _ :: ps => spansFrom (i + 1) ps
  | i, .hit u :: ps => (i, i + u.length) :: spansFrom (i + u.length) ps

/-- The spans of `pattern.finditer(t)`. -/
def finditer (r : Regex α) (t : List α) : List (Nat × Nat) := spansFrom 0 (pieces r t)

/-- `pattern.findall(t)`, for a pattern without groups. -/
def findall (r : Regex α) (t : List α) : List (List α) :=
  ((pieces r t).filter Piece.isHit).map Piece.text

/-! ## The words a regex matches -/

/-- `r` matches the word `u` between the neighbours `l` and `e`. -/
inductive Matches : Regex α → Option α → List α → Option α → Prop where
  | empty {l e} : Matches .empty l [] e
  | chr {p : α → Bool} {l e a} (h : p a = true) : Matches (.chr p) l [a] e
  | look {p : Option α → Option α → Bool} {l e} (h : p l e = true) :
      Matches (.look p) l [] e
  | cat {r s l u v e} (hr : Matches r l u (v.head?.or e))
      (hs : Matches s (u.getLast?.or l) v e) : Matches (.cat r s) l (u ++ v) e
  | altL {r s l u e} (h : Matches r l u e) : Matches (.alt r s) l u e
  | altR {r s l u e} (h : Matches s l u e) : Matches (.alt r s) l u e
  | starNil {g r l e} : Matches (.star g r) l [] e
  | starCons {g r l u v e} (hr : Matches r l u (v.head?.or e))
      (hs : Matches (.star g r) (u.getLast?.or l) v e) :
      Matches (.star g r) l (u ++ v) e

/-- `c'` is a cursor at which a match of the relation ends. -/
def Reaches (r : Regex α) (c c' : Cursor α) : Prop :=
  ∃ u, c.rest = u ++ c'.rest ∧ c' = c.advance u ∧ Matches r c.prev u c'.rest.head?

theorem Cursor.advance_nil (c : Cursor α) : c.advance [] = c := by
  simp [advance]

theorem Cursor.advance_append (c : Cursor α) (u v : List α) :
    (c.advance u).advance v = c.advance (u ++ v) := by
  simp only [advance, List.length_append, List.getLast?_append, List.drop_drop,
    Option.or_assoc, Nat.add_assoc]

theorem head?_append_or (u v : List α) : (u ++ v).head? = u.head?.or v.head? := by
  cases u <;> rfl

theorem Reaches.comp {r s : Regex α} {c c' c'' : Cursor α}
    (h : Reaches r c c') (h' : Reaches s c' c'') :
    ∃ u v, c.rest = u ++ (v ++ c''.rest) ∧ c'' = c.advance (u ++ v) ∧
      Matches r c.prev u (v.head?.or c''.rest.head?) ∧
      Matches s (u.getLast?.or c.prev) v c''.rest.head? := by
  obtain ⟨u, hu, hc, hm⟩ := h
  obtain ⟨v, hv, hc', hm'⟩ := h'
  refine ⟨u, v, by rw [hu, hv], ?_, ?_, ?_⟩
  · rw [hc', hc, Cursor.advance_append]
  · rwa [← head?_append_or, ← hv]
  · rwa [hc] at hm'

theorem starRun_sound {g : Bool} {r : Regex α}
    (ih : ∀ c c' : Cursor α, c' ∈ run r c → Reaches r c c') :
    ∀ (n : Nat) (c c' : Cursor α), c' ∈ starRun g (run r) n c → Reaches (.star g r) c c' := by
  have stay : ∀ c : Cursor α, Reaches (.star g r) c c :=
    fun c => ⟨[], rfl, c.advance_nil.symm, .starNil⟩
  intro n
  induction n with
  | zero =>
      intro c c' h
      rw [starRun, List.mem_singleton] at h
      rw [h]
      exact stay c
  | succ n ihn =>
      intro c c' h
      have hmem : c' = c ∨ ∃ d ∈ run r c, c' ∈ starRun g (run r) n d := by
        cases g <;>
          simp only [starRun, Bool.false_eq_true, if_true, if_false, List.mem_append,
            List.mem_cons, List.mem_flatMap, List.mem_filter, List.not_mem_nil, or_false] at h
        · rcases h with h | ⟨d, hd, hc⟩
          · exact .inl h
          · exact .inr ⟨d, hd.1, hc⟩
        · rcases h with ⟨d, hd, hc⟩ | h
          · exact .inr ⟨d, hd.1, hc⟩
          · exact .inl h
      rcases hmem with rfl | ⟨d, hd, hc⟩
      · exact stay c'
      · obtain ⟨u, v, hrest, hadv, hr, hs⟩ := (ih c d hd).comp (ihn d c' hc)
        exact ⟨u ++ v, by rw [hrest, List.append_assoc], hadv, .starCons hr hs⟩

/-- Every cursor the engine reports ends a match. -/
theorem run_sound (r : Regex α) : ∀ c c' : Cursor α, c' ∈ run r c → Reaches r c c' := by
  induction r with
  | empty =>
      intro c c' h
      rw [run, List.mem_singleton] at h
      subst h
      exact ⟨[], rfl, c'.advance_nil.symm, .empty⟩
  | chr p =>
      intro c c' h
      rw [run] at h
      cases hrest : c.rest with
      | nil => simp [hrest] at h
      | cons a t =>
          rw [hrest] at h
          by_cases hp : p a = true
          · simp only [hp, if_true, List.mem_singleton] at h
            subst h
            exact ⟨[a], hrest, by simp [Cursor.advance, hrest], .chr hp⟩
          · simp [hp] at h
  | look p =>
      intro c c' h
      rw [run] at h
      by_cases hp : p c.prev c.rest.head? = true
      · simp only [hp, if_true, List.mem_singleton] at h
        subst h
        exact ⟨[], rfl, c'.advance_nil.symm, .look hp⟩
      · simp [hp] at h
  | cat r s ihr ihs =>
      intro c c' h
      rw [run, List.mem_flatMap] at h
      obtain ⟨d, hd, hc⟩ := h
      obtain ⟨u, v, hrest, hadv, hr, hs⟩ := (ihr c d hd).comp (ihs d c' hc)
      exact ⟨u ++ v, by rw [hrest, List.append_assoc], hadv, .cat hr hs⟩
  | alt r s ihr ihs =>
      intro c c' h
      rw [run, List.mem_append] at h
      rcases h with h | h
      · obtain ⟨u, hu, hc, hm⟩ := ihr c c' h
        exact ⟨u, hu, hc, .altL hm⟩
      · obtain ⟨u, hu, hc, hm⟩ := ihs c c' h
        exact ⟨u, hu, hc, .altR hm⟩
  | star g r ih =>
      intro c c' h
      exact starRun_sound ih _ c c' h

theorem starRun_stay (g : Bool) (f : Cursor α → List (Cursor α)) (n : Nat) (c : Cursor α) :
    c ∈ starRun g f n c := by
  cases n with
  | zero => simp [starRun]
  | succ n => cases g <;> simp [starRun]

theorem starRun_step {g : Bool} {f : Cursor α → List (Cursor α)} {n : Nat}
    {c d c' : Cursor α} (hd : d ∈ f c) (hlt : c.pos < d.pos)
    (hc : c' ∈ starRun g f n d) : c' ∈ starRun g f (n + 1) c := by
  have hmore : c' ∈ ((f c).filter fun d => decide (c.pos < d.pos)).flatMap (starRun g f n) :=
    List.mem_flatMap.mpr ⟨d, List.mem_filter.mpr ⟨hd, by simpa using hlt⟩, hc⟩
  cases g
  · exact List.mem_cons_of_mem _ hmore
  · exact List.mem_append_left _ hmore

/-- Every match of the relation is reported by the engine. The induction is
on the derivation; a repeat needs as much fuel as the word has
characters, since an iteration that consumes nothing is dropped. -/
theorem run_complete {r : Regex α} {l e : Option α} {u : List α} (h : Matches r l u e) :
    ∀ (i : Nat) (w : List α), w.head? = e →
      (⟨i, l, u ++ w⟩ : Cursor α).advance u ∈ run r ⟨i, l, u ++ w⟩ ∧
      (∀ g r', r = .star g r' → ∀ n, u.length ≤ n →
        (⟨i, l, u ++ w⟩ : Cursor α).advance u ∈ starRun g (run r') n ⟨i, l, u ++ w⟩) := by
  induction h with
  | empty => exact fun i w _ => ⟨by simp [run, Cursor.advance], by simp⟩
  | chr hp => exact fun i w _ => ⟨by simp [run, Cursor.advance, hp], by simp⟩
  | look hp =>
      intro i w hw
      subst hw
      exact ⟨by simp [run, Cursor.advance, hp], by simp⟩
  | @cat r s l u v e hr hs ihr ihs =>
      intro i w hw
      refine ⟨?_, by simp⟩
      have h1 := (ihr i (v ++ w) (by rw [head?_append_or, hw])).1
      have h2 := (ihs (i + u.length) w hw).1
      rw [run, List.mem_flatMap, List.append_assoc]
      refine ⟨_, h1, ?_⟩
      rw [← Cursor.advance_append]
      simpa [Cursor.advance] using h2
  | altL h ih =>
      intro i w hw
      exact ⟨by rw [run]; exact List.mem_append_left _ (ih i w hw).1, by simp⟩
  | altR h ih =>
      intro i w hw
      exact ⟨by rw [run]; exact List.mem_append_right _ (ih i w hw).1, by simp⟩
  | @starNil g r l e =>
      intro i w _
      have hstay : ∀ n, (⟨i, l, [] ++ w⟩ : Cursor α).advance [] ∈
          starRun g (run r) n ⟨i, l, [] ++ w⟩ := by
        intro n
        rw [Cursor.advance_nil]
        exact starRun_stay g _ n _
      refine ⟨by rw [run]; exact hstay _, ?_⟩
      intro g' r' heq n _
      cases heq
      exact hstay n
  | @starCons g r l u v e hr hs ihr ihs =>
      intro i w hw
      have hfuel : ∀ n, (u ++ v).length ≤ n →
          (⟨i, l, (u ++ v) ++ w⟩ : Cursor α).advance (u ++ v) ∈
            starRun g (run r) n ⟨i, l, (u ++ v) ++ w⟩ := by
        intro n hn
        rcases List.eq_nil_or_concat u with rfl | ⟨u', a, rfl⟩
        · exact (ihs i w hw).2 g r rfl n (by simpa using hn)
        · obtain ⟨m, rfl⟩ : ∃ m, n = m + 1 := ⟨n - 1, by simp at hn; omega⟩
          have h1 := (ihr i (v ++ w) (by rw [head?_append_or, hw])).1
          have h2 := (ihs (i + (u' ++ [a]).length) w hw).2 g r rfl m
            (by simp at hn; omega)
          rw [List.append_assoc]
          refine starRun_step h1 (by simp [Cursor.advance]) ?_
          rw [← Cursor.advance_append]
          simpa [Cursor.advance] using h2
      refine ⟨?_, ?_⟩
      · rw [run]
        exact hfuel _ (by simp)
      · intro g' r' heq n hn
        cases heq
        exact hfuel n hn

/-- **The engine and the relation agree**: the cursors `run` lists are the
ends of the words the relation matches. -/
theorem mem_run {r : Regex α} {c c' : Cursor α} : c' ∈ run r c ↔ Reaches r c c' := by
  refine ⟨run_sound r c c', ?_⟩
  rintro ⟨u, hu, hc, hm⟩
  obtain ⟨i, l, rest⟩ := c
  simp only at hu hm
  have := (run_complete hm i c'.rest rfl).1
  rw [← hu] at this
  rwa [hc]

/-! ## What every match contains

A property of words that holds of every word with a part that has it
(`Upward`) can be read off a pattern: it holds of every match of a
sequence when one member forces it, and of an alternation when every
branch does. -/

/-- Inherited from a part by the whole. -/
def Upward (P : List α → Prop) : Prop := ∀ {u v : List α}, u <:+: v → P u → P v

/-- Every word `r` matches has the property. -/
def Forces (r : Regex α) (P : List α → Prop) : Prop := ∀ {l u e}, Matches r l u e → P u

section Forces

variable {P : List α → Prop}

theorem Forces.catL {r s : Regex α} (hP : Upward P) (h : Forces r P) : Forces (cat r s) P := by
  intro l u e hm
  cases hm with
  | cat hr hs => exact hP (List.infix_append' [] _ _) (h hr)

theorem Forces.catR {r s : Regex α} (hP : Upward P) (h : Forces s P) : Forces (cat r s) P := by
  intro l u e hm
  cases hm with
  | @cat _ _ _ u v _ hr hs => exact hP (List.suffix_append u v).isInfix (h hs)

theorem Forces.alt {r s : Regex α} (hr : Forces r P) (hs : Forces s P) : Forces (alt r s) P := by
  intro l u e hm
  cases hm with
  | altL h => exact hr h
  | altR h => exact hs h

theorem Forces.seq {rs : List (Regex α)} (hP : Upward P) {r : Regex α} (hr : r ∈ rs)
    (h : Forces r P) : Forces (seq rs) P := by
  induction rs with
  | nil => simp at hr
  | cons r' rs ih =>
      cases rs with
      | nil =>
          rw [List.mem_singleton] at hr
          subst hr
          exact h
      | cons r'' rs =>
          rcases List.mem_cons.mp hr with rfl | hr
          · exact Forces.catL hP h
          · exact Forces.catR hP (ih hr)

theorem Forces.anyOf {rs : List (Regex α)} (h : ∀ r ∈ rs, Forces r P) : Forces (anyOf rs) P := by
  induction rs with
  | nil =>
      intro l u e hm
      cases hm with
      | chr hp => simp at hp
  | cons r rs ih =>
      cases rs with
      | nil => exact h r List.mem_cons_self
      | cons r' rs =>
          exact Forces.alt (h r List.mem_cons_self)
            (ih fun r hr => h r (List.mem_cons_of_mem _ hr))

end Forces

/-- A literal word matches words that are equal to it character by
character. -/
theorem matches_word {eqv : α → α → Bool} {w : List α} :
    ∀ {l : Option α} {u : List α} {e : Option α}, Matches (word eqv w) l u e →
      List.Forall₂ (fun a b => eqv a b = true) w u := by
  induction w with
  | nil =>
      intro l u e h
      cases h with
      | empty => exact .nil
  | cons a w ih =>
      intro l u e h
      cases w with
      | nil =>
          cases h with
          | chr hp => exact .cons hp .nil
      | cons b w =>
          cases h with
          | cat hr hs =>
              cases hr with
              | chr hp => exact .cons hp (ih hs)

/-! ## Matches of a scan -/

theorem matchLen_some {r : Regex α} {prev : Option α} {t : List α} {n : Nat}
    (h : matchLen r prev t = some n) :
    n ≤ t.length ∧ Matches r prev (t.take n) (t.drop n).head? := by
  simp only [matchLen, Option.map_eq_some_iff] at h
  obtain ⟨c, hc, rfl⟩ := h
  obtain ⟨u, hu, hadv, hm⟩ := run_sound r _ c (List.mem_of_mem_head? hc)
  have hu : t = u ++ c.rest := hu
  have hpos : c.pos = u.length := by
    rw [hadv]
    simp [Cursor.advance]
  rw [hpos, hu, List.take_left, List.drop_left]
  exact ⟨by simp, hm⟩

/-- A hit of a scan is a match in the scanned text. -/
theorem scan_hit {r : Regex α} {u : List α} {t : List α} :
    ∀ {prev : Option α} {skip : Nat}, Piece.hit u ∈ scan r prev skip t →
      u <:+: t ∧ ∃ l e, Matches r l u e := by
  induction t with
  | nil =>
      intro prev skip h
      simp [scan] at h
  | cons a t ih =>
      intro prev skip h
      have hlater : ∀ {prev : Option α} {skip : Nat}, Piece.hit u ∈ scan r prev skip t →
          u <:+: a :: t ∧ ∃ l e, Matches r l u e := by
        intro prev skip h
        have := ih h
        exact ⟨this.1.trans (List.suffix_cons a t).isInfix, this.2⟩
      cases skip with
      | succ skip => exact hlater h
      | zero =>
          simp only [scan] at h
          split at h
          · rename_i n hlen
            rcases List.mem_cons.mp h with heq | h
            · cases heq
              exact ⟨(List.take_prefix _ _).isInfix, _, _, (matchLen_some hlen).2⟩
            · exact hlater h
          · rcases List.mem_cons.mp h with heq | h
            · cases heq
            · exact hlater h

theorem test_match {r : Regex α} {t : List α} (h : test r t = true) :
    ∃ l u e, u <:+: t ∧ Matches r l u e := by
  simp only [test, pieces, List.any_eq_true] at h
  obtain ⟨p, hp, hhit⟩ := h
  cases p with
  | keep a => simp [Piece.isHit] at hhit
  | hit u =>
      obtain ⟨hu, l, e, hm⟩ := scan_hit hp
      exact ⟨l, u, e, hu, hm⟩

theorem test_of_spansFrom {i : Nat} {ps : List (Piece α)} (h : spansFrom i ps ≠ []) :
    ps.any Piece.isHit = true := by
  induction ps generalizing i with
  | nil => simp [spansFrom] at h
  | cons p ps ih =>
      cases p with
      | keep a => simpa [Piece.isHit] using ih h
      | hit u => simp [Piece.isHit]

theorem test_of_finditer {r : Regex α} {t : List α} (h : finditer r t ≠ []) : test r t = true :=
  test_of_spansFrom h

/-- A forced property holds of the text in which a match was found. -/
theorem Forces.of_test {P : List α → Prop} {r : Regex α} {t : List α} (hP : Upward P)
    (h : Forces r P) (ht : test r t = true) : P t := by
  obtain ⟨l, u, e, hu, hm⟩ := test_match ht
  exact hP hu (h hm)

/-! ## First characters -/

/-- Whether a regex may match the empty word. -/
def nullable : Regex α → Bool
  | empty => true
  | chr _ => false
  | look _ => true
  | cat r s => nullable r && nullable s
  | alt r s => nullable r || nullable s
  | star _ _ => true

/-- Whether a match may begin with a character. -/
def leads : Regex α → α → Bool
  | empty, _ => false
  | chr p, a => p a
  | look _, _ => false
  | cat r s, a => leads r a || (nullable r && leads s a)
  | alt r s, a => leads r a || leads s a
  | star _ r, a => leads r a

theorem Matches.nullable {r : Regex α} {l e : Option α} {u : List α} (h : Matches r l u e)
    (hu : u = []) : nullable r = true := by
  induction h with
  | empty => rfl
  | chr _ => cases hu
  | look _ => rfl
  | cat _ _ ihr ihs =>
      rw [List.append_eq_nil_iff] at hu
      rw [Regex.nullable, ihr hu.1, ihs hu.2]
      rfl
  | altL _ ih => rw [Regex.nullable, ih hu, Bool.true_or]
  | altR _ ih => rw [Regex.nullable, ih hu, Bool.or_true]
  | starNil => rfl
  | starCons _ _ _ _ => rfl

/-- A match of a word begins with a character that leads. -/
theorem Matches.leads {r : Regex α} {l e : Option α} {u : List α} (h : Matches r l u e)
    {a : α} {v : List α} (hu : u = a :: v) : leads r a = true := by
  induction h generalizing v with
  | empty => cases hu
  | chr hp =>
      obtain ⟨rfl, -⟩ := List.cons.inj hu
      exact hp
  | look _ => cases hu
  | @cat r s l w x e hr _ ihr ihs =>
      rw [Regex.leads]
      cases w with
      | nil =>
          have hnull : Regex.nullable r = true := hr.nullable rfl
          have hlead := ihs hu
          rw [hnull, hlead, Bool.true_and, Bool.or_true]
      | cons b w =>
          obtain ⟨rfl, -⟩ := List.cons.inj hu
          rw [ihr rfl, Bool.true_or]
  | altL _ ih => rw [Regex.leads, ih hu, Bool.true_or]
  | altR _ ih => rw [Regex.leads, ih hu, Bool.or_true]
  | starNil => cases hu
  | @starCons g r l w x e _ _ ihr ihs =>
      cases w with
      | nil => exact ihs hu
      | cons b w =>
          obtain ⟨rfl, -⟩ := List.cons.inj hu
          exact ihr rfl

/-! ## Matching with a continuation -/

/-- The first iterations of a repeat with which `k` succeeds. -/
def starFirst (greedy : Bool) (f : Cursor α → (Cursor α → Option β) → Option β) :
    Nat → Cursor α → (Cursor α → Option β) → Option β
  | 0, c, k => k c
  | n + 1, c, k =>
      let more := f c fun d => if c.pos < d.pos then starFirst greedy f n d k else none
      if greedy then more.or (k c) else (k c).or more

/-- The first end of a match with which `k` succeeds. -/
def firstMatch : Regex α → Cursor α → (Cursor α → Option β) → Option β
  | empty, c, k => k c
  | chr p, c, k => match c.rest with
      | [] => none
      | a :: t => if p a then k ⟨c.pos + 1, some a, t⟩ else none
  | look p, c, k => if p c.prev c.rest.head? then k c else none
  | cat r s, c, k => firstMatch r c fun d => firstMatch s d k
  | alt r s, c, k => (firstMatch r c k).or (firstMatch s c k)
  | star greedy r, c, k => starFirst greedy (firstMatch r) c.rest.length c k

theorem findSome?_flatMap (f : γ → List δ) (k : δ → Option β) (l : List γ) :
    (l.flatMap f).findSome? k = l.findSome? fun c => (f c).findSome? k := by
  induction l with
  | nil => rfl
  | cons c l ih =>
      rw [List.flatMap_cons, List.findSome?_append, List.findSome?_cons, ih]
      cases (f c).findSome? k <;> rfl

theorem findSome?_filter (p : γ → Bool) (k : γ → Option δ) (l : List γ) :
    (l.filter p).findSome? k = l.findSome? fun c => if p c then k c else none := by
  induction l with
  | nil => rfl
  | cons c l ih => by_cases hp : p c <;> simp [List.findSome?_cons, hp, ih]

theorem starFirst_eq {greedy : Bool} {g : Cursor α → List (Cursor α)}
    {f : Cursor α → (Cursor α → Option β) → Option β}
    (h : ∀ c k, f c k = (g c).findSome? k) (n : Nat) (c : Cursor α) (k : Cursor α → Option β) :
    starFirst greedy f n c k = (starRun greedy g n c).findSome? k := by
  induction n generalizing c k with
  | zero => simp [starFirst, starRun]
  | succ n ih =>
      have hmore : (f c fun d => if c.pos < d.pos then starFirst greedy f n d k else none) =
          (((g c).filter fun d => decide (c.pos < d.pos)).flatMap
            (starRun greedy g n)).findSome? k := by
        rw [h, findSome?_flatMap, findSome?_filter]
        congr 1
        funext d
        by_cases hlt : c.pos < d.pos
        · simp [hlt, ih]
        · simp [hlt]
      simp only [starFirst, starRun, hmore]
      cases greedy with
      | true => simp [List.findSome?_append]
      | false =>
          simp only [Bool.false_eq_true, if_false, List.findSome?_cons]
          cases k c <;> rfl

/-- **The continuation sees the ends of the matches in order.** -/
theorem firstMatch_eq (r : Regex α) (c : Cursor α) (k : Cursor α → Option β) :
    firstMatch r c k = (run r c).findSome? k := by
  induction r generalizing c k with
  | empty => simp [firstMatch, run]
  | chr p =>
      cases hrest : c.rest with
      | nil => simp [firstMatch, run, hrest]
      | cons a t => by_cases hp : p a <;> simp [firstMatch, run, hrest, hp]
  | look p => by_cases hp : p c.prev c.rest.head? <;> simp [firstMatch, run, hp]
  | cat r s ihr ihs =>
      simp only [firstMatch, run, ihr, ihs, findSome?_flatMap]
  | alt r s ihr ihs => simp only [firstMatch, run, ihr, ihs, List.findSome?_append]
  | star g r ih => exact starFirst_eq ih _ _ _

theorem firstMatch_pos (r : Regex α) (prev : Option α) (t : List α) :
    firstMatch r ⟨0, prev, t⟩ (fun c => some c.pos) = matchLen r prev t := by
  rw [firstMatch_eq, matchLen]
  cases run r ⟨0, prev, t⟩ <;> rfl

/-- `test`, tried only where a match may begin. -/
def quickTest (r : Regex α) : Option α → List α → Bool
  | _, [] => false
  | prev, a :: t =>
      (leads r a && (firstMatch r ⟨0, prev, a :: t⟩ fun c => some c.pos).any fun n => 0 < n) ||
        quickTest r (some a) t

/-- **The quick test is the test.** -/
theorem quickTest_eq_test (r : Regex α) (t : List α) : quickTest r none t = test r t := by
  have hscan : ∀ prev, quickTest r prev t = (scan r prev 0 t).any Piece.isHit := by
    induction t with
    | nil => exact fun _ => rfl
    | cons a t ih =>
        intro prev
        rw [quickTest, firstMatch_pos, ih (some a), scan]
        split
        · -- a match that consumes something begins with a character that leads
          rename_i n hlen
          obtain ⟨-, hm⟩ := matchLen_some hlen
          have hlead := hm.leads List.take_succ_cons
          simp [hlead, hlen, Piece.isHit]
        · rename_i hnone
          have hany : ((matchLen r prev (a :: t)).any fun n => 0 < n) = false := by
            cases hlen : matchLen r prev (a :: t) with
            | none => rfl
            | some n =>
                cases n with
                | zero => rfl
                | succ n => exact absurd hlen (hnone n)
          rw [hany, Bool.and_false, Bool.false_or, List.any_cons]
          rfl
  exact hscan none

end Regex
end RalphVault
