import RalphVault.Regex

/-!
# Regex — matches in their place

A search finds a pattern exactly if the text can be cut so that the pattern
matches the part in the middle, between the neighbours it has there. What a
match asks of its neighbours are the conditions at its two ends, so that it
stays a match beside others which these conditions do not tell apart.
-/

namespace RalphVault.Regex

variable {α : Type} {r s : Regex α}

/-! ## Searches -/

theorem getLast?_cons_or (a : α) (u : List α) (l : Option α) :
    (a :: u).getLast?.or l = u.getLast?.or (some a) := by
  cases h : u.getLast? with
  | none =>
      obtain rfl : u = [] := List.getLast?_eq_none_iff.mp h
      rfl
  | some b => simp [List.getLast?_cons, h]

/-- A hit of a scan and what stands around it. -/
theorem scan_place {u : List α} {t : List α} :
    ∀ {prev : Option α} {skip : Nat}, Piece.hit u ∈ scan r prev skip t →
      ∃ pre post, t = pre ++ u ++ post ∧ Matches r (pre.getLast?.or prev) u post.head? := by
  induction t with
  | nil =>
      intro prev skip h
      simp [scan] at h
  | cons a t ih =>
      intro prev skip h
      have hlater : ∀ {skip : Nat}, Piece.hit u ∈ scan r (some a) skip t →
          ∃ pre post, a :: t = pre ++ u ++ post ∧
            Matches r (pre.getLast?.or prev) u post.head? := by
        intro skip h
        obtain ⟨pre, post, rfl, hm⟩ := ih h
        exact ⟨a :: pre, post, by simp, by rwa [getLast?_cons_or]⟩
      cases skip with
      | succ skip => exact hlater h
      | zero =>
          simp only [scan] at h
          split at h
          · rename_i n hlen
            rcases List.mem_cons.mp h with heq | h
            · cases heq
              exact ⟨[], _, (List.take_append_drop (n + 1) (a :: t)).symm, (matchLen_some hlen).2⟩
            · exact hlater h
          · rcases List.mem_cons.mp h with heq | h
            · cases heq
            · exact hlater h

theorem test_place {t : List α} (h : test r t = true) :
    ∃ pre u post, t = pre ++ u ++ post ∧ Matches r pre.getLast? u post.head? := by
  simp only [test, pieces, List.any_eq_true] at h
  obtain ⟨p, hp, hhit⟩ := h
  cases p with
  | keep a => simp [Piece.isHit] at hhit
  | hit u =>
      obtain ⟨pre, post, ht, hm⟩ := scan_place hp
      exact ⟨pre, u, post, ht, by simpa using hm⟩

/-- A pattern that consumes something is found where it matches. -/
theorem quickTest_of_place (hr : nullable r = false) {u post : List α} {pre : List α} :
    ∀ {prev : Option α}, Matches r (pre.getLast?.or prev) u post.head? →
      quickTest r prev (pre ++ u ++ post) = true := by
  induction pre with
  | nil =>
      intro prev hm
      cases u with
      | nil =>
          rw [hm.nullable rfl] at hr
          cases hr
      | cons a u =>
          have hlead : leads r a = true := hm.leads rfl
          obtain ⟨c, hc, hpos⟩ : ∃ c, (run r ⟨0, prev, a :: u ++ post⟩).head? = some c ∧
              0 < c.pos := by
            have hmem := (run_complete hm 0 post rfl).1
            cases hrun : run r ⟨0, prev, a :: u ++ post⟩ with
            | nil =>
                simp only [List.getLast?_nil, Option.none_or] at hmem
                rw [hrun] at hmem
                cases hmem
            | cons c cs =>
                refine ⟨c, rfl, Nat.pos_of_ne_zero fun hzero => ?_⟩
                obtain ⟨v, -, hadv, hv⟩ := run_sound r _ c (hrun ▸ List.mem_cons_self)
                have hlen : v.length = 0 := by
                  have hcpos := congrArg Cursor.pos hadv
                  simp only [Cursor.advance, Nat.zero_add] at hcpos
                  rw [← hcpos, hzero]
                rw [hv.nullable (List.eq_nil_of_length_eq_zero hlen)] at hr
                cases hr
          have hlen : matchLen r prev (a :: u ++ post) = some c.pos := by
            rw [matchLen, hc]
            rfl
          simp only [List.nil_append, List.cons_append] at hlen ⊢
          rw [quickTest, firstMatch_pos, hlen]
          simp [hlead, hpos]
  | cons b pre ih =>
      intro prev hm
      rw [getLast?_cons_or] at hm
      simp only [List.cons_append, quickTest]
      rw [ih hm, Bool.or_true]

theorem test_of_place (hr : nullable r = false) {pre u post : List α}
    (h : Matches r pre.getLast? u post.head?) : test r (pre ++ u ++ post) = true := by
  rw [← quickTest_eq_test]
  exact quickTest_of_place hr (by simpa using h)

/-! ## Sequences -/

/-! ## Matches in any place -/

/-- A pattern matches a word whatever stands beside it. -/
def Always (r : Regex α) (u : List α) : Prop := ∀ l e, Matches r l u e

namespace Always

variable {u v : List α}

theorem empty : Always (.empty : Regex α) [] := fun _ _ => .empty

theorem chr {p : α → Bool} {a : α} (h : p a = true) : Always (.chr p) [a] := fun _ _ => .chr h

theorem cat (hu : Always r u) (hv : Always s v) : Always (.cat r s) (u ++ v) :=
  fun l e => .cat (hu l _) (hv _ e)

theorem star {p : α → Bool} (g : Bool) (h : ∀ a ∈ u, p a = true) :
    Always (.star g (.chr p)) u := by
  induction u with
  | nil => exact fun _ _ => .starNil
  | cons a u ih =>
      obtain ⟨ha, hu⟩ := List.forall_mem_cons.mp h
      exact fun l e => .starCons (chr ha l _) (ih hu _ e)

theorem atLeast_one {p : α → Bool} (hne : u ≠ []) (h : ∀ a ∈ u, p a = true) :
    Always (atLeast 1 (.chr p)) u := by
  obtain ⟨a, u, rfl⟩ := List.exists_cons_of_ne_nil hne
  obtain ⟨ha, hu⟩ := List.forall_mem_cons.mp h
  exact cat (chr ha) (star true hu)

theorem opt_some (h : Always r u) : Always (opt r) u := fun l e => .altL (h l e)

theorem opt_none : Always (opt r) [] := fun _ _ => .altR .empty

theorem anyOf {rs : List (Regex α)} (hr : r ∈ rs) (h : Always r u) : Always (anyOf rs) u := by
  induction rs with
  | nil => cases hr
  | cons r' rs ih =>
      cases rs with
      | nil =>
          obtain rfl := List.mem_singleton.mp hr
          exact h
      | cons r'' rs =>
          rcases List.mem_cons.mp hr with rfl | hr
          · exact fun l e => .altL (h l e)
          · exact fun l e => .altR (ih hr l e)

theorem word {eqv : α → α → Bool} {w : List α} (h : List.Forall₂ (fun a b => eqv a b = true) w u) :
    Always (word eqv w) u := by
  induction h with
  | nil => exact empty
  | @cons a b w u hab hrest ih =>
      cases w with
      | nil =>
          cases hrest
          exact chr hab
      | cons a' w => exact cat (chr hab) ih

theorem seq {rs : List (Regex α)} {us : List (List α)} (h : List.Forall₂ Always rs us) :
    Always (seq rs) us.flatten := by
  induction h with
  | nil => exact empty
  | @cons r u rs us hr hrest ih =>
      cases rs with
      | nil =>
          cases hrest
          rw [List.flatten_cons, List.flatten_nil, List.append_nil]
          exact hr
      | cons r' rs => exact cat hr ih

/-- A sequence that ends with a condition. -/
theorem seq_look {rs : List (Regex α)} {us : List (List α)} (h : List.Forall₂ Always rs us)
    {p : Option α → Option α → Bool} {l e : Option α} (hp : p (us.flatten.getLast?.or l) e = true) :
    Matches (Regex.seq (rs ++ [look p])) l us.flatten e := by
  induction h generalizing l with
  | nil => exact .look hp
  | @cons r u rs us hr hrest ih =>
      have hrun : Matches (Regex.seq (rs ++ [look p])) (u.getLast?.or l) us.flatten e := by
        refine ih ?_
        rwa [List.flatten_cons, List.getLast?_append, Option.or_assoc] at hp
      have hne : rs ++ [look p] ≠ [] := by simp
      obtain ⟨r', rs', hcons⟩ := List.exists_cons_of_ne_nil hne
      rw [List.cons_append, List.flatten_cons]
      rw [hcons] at hrun ⊢
      exact .cat (hr l _) hrun

end Always

/-! ## Neighbours -/

/-- The conditions of a pattern do not tell apart neighbours that are the
same. -/
def Blind (same : Option α → Option α → Prop) : Regex α → Prop
  | look p => ∀ l l' e e', same l l' → same e e' → p l e = p l' e'
  | cat r s => Blind same r ∧ Blind same s
  | alt r s => Blind same r ∧ Blind same s
  | star _ r => Blind same r
  | _ => True

/-- A match stays one beside neighbours that are the same. -/
theorem Matches.beside {same : Option α → Option α → Prop} (hrefl : ∀ l, same l l)
    {l e : Option α} {u : List α} (h : Matches r l u e) :
    ∀ {l' e'}, Blind same r → same l l' → same e e' → Matches r l' u e' := by
  have hor : ∀ {v : Option α} {l l' : Option α}, same l l' → same (v.or l) (v.or l') := by
    intro v l l' hl
    cases v with
    | none => exact hl
    | some a => exact hrefl _
  induction h with
  | empty => exact fun _ _ _ => .empty
  | chr hp => exact fun _ _ _ => .chr hp
  | look hp =>
      intro l' e' hblind hl he
      exact .look (by rw [← hblind _ _ _ _ hl he]; exact hp)
  | cat _ _ ihr ihs =>
      intro l' e' hblind hl he
      exact .cat (ihr hblind.1 hl (hor he)) (ihs hblind.2 (hor hl) he)
  | altL _ ih => exact fun hblind hl he => .altL (ih hblind.1 hl he)
  | altR _ ih => exact fun hblind hl he => .altR (ih hblind.2 hl he)
  | starNil => exact fun _ _ _ => .starNil
  | starCons _ _ ihr ihs =>
      intro l' e' hblind hl he
      exact .starCons (ihr hblind hl (hor he)) (ihs hblind (hor hl) he)

section Blind

variable {same : Option α → Option α → Prop}

theorem blind_empty : Blind same (empty : Regex α) := trivial

theorem blind_chr (p : α → Bool) : Blind same (chr p) := trivial

theorem blind_star (greedy : Bool) : Blind same (star greedy r) ↔ Blind same r := Iff.rfl

theorem blind_opt : Blind same (opt r) ↔ Blind same r := and_iff_left trivial

theorem blind_seq {rs : List (Regex α)} : Blind same (seq rs) ↔ ∀ r ∈ rs, Blind same r := by
  induction rs with
  | nil => exact ⟨fun _ r hr => absurd hr List.not_mem_nil, fun _ => trivial⟩
  | cons r rs ih =>
      rw [List.forall_mem_cons, ← ih]
      cases rs with
      | nil => exact (and_iff_left trivial).symm
      | cons r' rs => exact Iff.rfl

theorem blind_anyOf {rs : List (Regex α)} : Blind same (anyOf rs) ↔ ∀ r ∈ rs, Blind same r := by
  induction rs with
  | nil => exact ⟨fun _ r hr => absurd hr List.not_mem_nil, fun _ => trivial⟩
  | cons r rs ih =>
      rw [List.forall_mem_cons, ← ih]
      cases rs with
      | nil => exact (and_iff_left trivial).symm
      | cons r' rs => exact Iff.rfl

theorem blind_word (eqv : α → α → Bool) (w : List α) : Blind same (word eqv w) := by
  induction w with
  | nil => trivial
  | cons a w ih =>
      cases w with
      | nil => trivial
      | cons b w => exact ⟨trivial, ih⟩

theorem blind_upTo (n : Nat) (hr : Blind same r) : Blind same (upTo n r) := by
  induction n with
  | zero => trivial
  | succ n ih => exact blind_opt.mpr ⟨hr, ih⟩

theorem blind_times (n : Nat) (hr : Blind same r) (hs : Blind same s) :
    Blind same (times n r s) := by
  induction n with
  | zero => exact hs
  | succ n ih => exact ⟨hr, ih⟩

theorem blind_atLeast (n : Nat) (hr : Blind same r) : Blind same (atLeast n r) :=
  blind_times n hr hr

theorem blind_between (lo hi : Nat) (hr : Blind same r) : Blind same (between lo hi r) :=
  blind_times lo hr (blind_upTo _ hr)

end Blind

end RalphVault.Regex
