import RalphVault.Security.Quiet
import RalphVault.SessionStart.Reducer

/-!
# SessionStart — the fence

The body of a context is what the hard budget lets through of its lines, and
nothing of it is escaped: a marker in a line within the budget is a marker in
the body.
-/

namespace RalphVault.SessionStart

open Security
open Memory (strip)

/-! ## Joining -/

theorem joinWith_append_cons (sep : Text) {a : List Text} (ha : a ≠ []) (b : Text) (bs : List Text) :
    joinWith sep (a ++ b :: bs) = joinWith sep a ++ sep ++ joinWith sep (b :: bs) := by
  induction a with
  | nil => exact absurd rfl ha
  | cons t a ih =>
      cases a with
      | nil => rfl
      | cons t' a =>
          show t ++ sep ++ joinWith sep ((t' :: a) ++ b :: bs) = _
          rw [ih (List.cons_ne_nil t' a)]
          show _ = t ++ sep ++ joinWith sep (t' :: a) ++ sep ++ _
          simp only [List.append_assoc]

/-- What stands in front of a line that is added to others. -/
def before (selected : List Text) : Text :=
  if selected.isEmpty then [] else joinLines selected ++ ['\n']

theorem joinLines_append_singleton (selected : List Text) (line : Text) :
    joinLines (selected ++ [line]) = before selected ++ line := by
  cases selected with
  | nil => rfl
  | cons t ts => exact joinWith_append_cons ['\n'] (List.cons_ne_nil t ts) line []

theorem joinLines_append_starts {selected : List Text} (h : selected ≠ []) (lines : List Text) :
    ∃ rest, joinLines (selected ++ lines) = joinLines selected ++ rest := by
  cases lines with
  | nil => exact ⟨[], by rw [List.append_nil, List.append_nil]⟩
  | cons line lines =>
      exact ⟨['\n'] ++ joinLines (line :: lines), by
        rw [joinLines, joinWith_append_cons _ h, List.append_assoc]; rfl⟩

theorem utf8Len_before (selected : List Text) : utf8Len (before selected) =
    utf8Len (joinLines selected) + if selected.isEmpty then 0 else 1 := by
  have hbreak : utf8Len ['\n'] = 1 := by decide
  cases selected with
  | nil => rfl
  | cons t ts =>
      show utf8Len (joinLines (t :: ts) ++ ['\n']) = _
      rw [utf8Len_append, hbreak]
      rfl

/-! ## What is selected -/

/-- The selected lines show what the hard budget lets through of all of them. -/
theorem clip_selectLines (soft hard : Nat) (selected lines : List Text) :
    rstrip (clip hard (joinLines (selectLines soft hard selected lines))) =
      rstrip (clip hard (joinLines (selected ++ lines))) := by
  induction lines generalizing selected with
  | nil => rw [selectLines, List.append_nil]
  | cons line lines ih =>
      have hmore : selected ++ line :: lines = (selected ++ [line]) ++ lines := by
        rw [List.append_assoc, List.singleton_append]
      rw [selectLines]
      dsimp only
      split
      · rw [ih, hmore]
      · split
        · rw [ih, hmore]
        · rename_i hover
          rw [joinLines_append_singleton] at hover
          -- the first line that does not fit is the last one that is cut
          have hcut : clip hard (joinLines (selected ++ line :: lines)) =
              clip hard (before selected ++ line) := by
            obtain ⟨rest, hrest⟩ :=
              joinLines_append_starts (List.append_ne_nil_of_right_ne_nil selected
                (List.cons_ne_nil line [])) lines
            rw [hmore, hrest, joinLines_append_singleton, clip_append_of_lt (Nat.lt_of_not_le hover)]
          rw [hcut, Nat.sub_sub, ← utf8Len_before]
          split
          · rename_i hroom
            have hfits : utf8Len (before selected) ≤ hard := by omega
            rw [joinLines_append_singleton, clip_append hfits, clip_append hfits,
              clip_of_le (utf8Len_trimUtf8_le _ _), ← rstrip_append_rstrip, rstrip_trimUtf8,
              rstrip_append_rstrip]
          · rename_i hfull
            cases selected with
            | nil =>
                have hzero : hard = 0 := by
                  have hnone : utf8Len (before []) = 0 := rfl
                  omega
                rw [hzero, clip_zero, clip_zero]
            | cons t ts =>
                have hbefore : before (t :: ts) = joinLines (t :: ts) ++ ['\n'] := rfl
                have hsize := utf8Len_before (t :: ts)
                rw [if_neg (by simp)] at hsize
                rw [hbefore, List.append_assoc]
                rcases Nat.lt_or_ge hard (utf8Len (joinLines (t :: ts))) with hlt | hge
                · rw [clip_append_of_lt hlt]
                · -- there is room for the line feed at most, which is stripped
                  rw [clip_append hge, clip_of_le hge, ← rstrip_append_rstrip]
                  have hblank : rstrip (clip (hard - utf8Len (joinLines (t :: ts)))
                      (['\n'] ++ line)) = [] := by
                    have hnewline : ('\n' : Char).utf8Size = 1 := rfl
                    rw [List.singleton_append, clip, hnewline]
                    split
                    · have hnone : hard - utf8Len (joinLines (t :: ts)) - 1 = 0 := by omega
                      rw [hnone, clip_zero]
                      rfl
                    · rfl
                  rw [hblank, List.append_nil]

/-! ## The body -/

/-- A text that starts with something other than a blank. -/
def Headed (t : Text) : Prop := ∃ c rest, t = c :: rest ∧ isSpace c = false

theorem Headed.append {s : Text} (h : Headed s) (t : Text) : Headed (s ++ t) := by
  obtain ⟨c, rest, rfl, hc⟩ := h
  exact ⟨c, rest ++ t, rfl, hc⟩

/-- Nothing is stripped from the start of a part of a headed text. -/
theorem Headed.lstrip {s t : Text} (h : Headed t) (hs : s <+: t) : lstrip s = s := by
  obtain ⟨c, rest, rfl, hc⟩ := h
  cases s with
  | nil => rfl
  | cons d s =>
      have hd : d = c := (List.cons_prefix_cons.mp hs).1
      rw [RalphVault.lstrip, List.dropWhile_cons_of_neg]
      rw [hd, hc]
      exact Bool.false_ne_true

theorem selectLines_starts (soft hard : Nat) (selected lines : List Text) :
    selected <+: selectLines soft hard selected lines := by
  induction lines generalizing selected with
  | nil => exact List.prefix_rfl
  | cons line lines ih =>
      have hmore := (List.prefix_append selected [line]).trans (ih (selected ++ [line]))
      rw [selectLines]
      dsimp only
      split
      · exact hmore
      · split
        · exact hmore
        · rw [Nat.sub_sub, ← utf8Len_before]
          split
          · exact List.prefix_append _ _
          · exact List.prefix_rfl

theorem lstrip_selectLines {line : Text} (h : Headed line) (soft hard : Nat) (lines : List Text) :
    lstrip (joinLines (selectLines soft hard [] (line :: lines))) =
      joinLines (selectLines soft hard [] (line :: lines)) := by
  have hmore : ∀ selected, [line] <+: selected → lstrip (joinLines selected) = joinLines selected := by
    rintro selected ⟨rest, rfl⟩
    obtain ⟨tail, htail⟩ := joinLines_append_starts (List.cons_ne_nil line []) rest
    rw [htail]
    exact (h.append tail).lstrip List.prefix_rfl
  rw [selectLines]
  dsimp only
  split
  · exact hmore _ (selectLines_starts soft hard [line] lines)
  · split
    · exact hmore _ (selectLines_starts soft hard [line] lines)
    · rw [Nat.sub_sub, ← utf8Len_before]
      split
      · exact h.lstrip (trimUtf8_isPrefix _ _)
      · rfl

/-- The body is cut after it is stripped, or fits. -/
theorem trim_strip {t : Text} (h : lstrip t = t) (hard : Nat) :
    (if hard < utf8Len (strip t) then trimUtf8 (strip t) hard else strip t) =
      rstrip (clip hard t) := by
  rw [strip, h, ← rstrip_clip_rstrip]
  split
  · rename_i hover
    rw [trimUtf8, if_neg (Nat.not_le.mpr hover)]
  · rename_i hfits
    rw [clip_of_le (Nat.not_lt.mp hfits), rstrip_rstrip]

/-- What the hard budget of a profile lets through of some lines. -/
def withinBudget (lines : List Text) (profile : RuntimeProfile) : Text :=
  clip (profile.sessionContextBytesHard - wrapperBytes) (joinLines lines)

theorem render_eq {line : Text} (h : Headed line) (lines : List Text) (profile : RuntimeProfile) :
    render (line :: lines) profile =
      if (rstrip (withinBudget (line :: lines) profile)).isEmpty then []
      else frame (rstrip (withinBudget (line :: lines) profile)) := by
  rw [render, if_neg (by simp)]
  dsimp only
  rw [trim_strip (lstrip_selectLines h _ _ lines), clip_selectLines]
  rfl

/-! ## The fence -/

/-- A text without a marker. -/
def Unmarked (t : Text) : Prop := ¬contextBegin <:+: t ∧ ¬contextEnd <:+: t

/-- A text is empty, or is within the limit and stands between the markers,
under the notice, with no marker in between. -/
def Fenced (limit : Nat) (t : Text) : Prop :=
  t = [] ∨ utf8Len t ≤ limit ∧
    ∃ between, t = contextBegin ++ '\n' :: (contextNotice ++ (between ++ contextEnd)) ∧
      Unmarked between

theorem contextBegin_closed : ∃ front c, contextBegin = front ++ [c] ∧ isSpace c = false :=
  ⟨contextBegin.dropLast, '>', by decide, by decide⟩

theorem contextEnd_closed : ∃ front c, contextEnd = front ++ [c] ∧ isSpace c = false :=
  ⟨contextEnd.dropLast, '>', by decide, by decide⟩

theorem unmarked_rstrip {t : Text} : Unmarked (rstrip t) ↔ Unmarked t := by
  rw [Unmarked, infix_rstrip_iff contextBegin_closed, infix_rstrip_iff contextEnd_closed, Unmarked]

/-- A marker is in the space around a body only if it is in the body. -/
theorem infix_body {w body : Text} (hw : w ≠ []) (hbreak : '\n' ∉ w)
    (h : w <:+: '\n' :: '\n' :: (body ++ ['\n'])) : w <:+: body := by
  have hnil : ¬w <:+: [] := fun hin => hw (List.infix_nil.mp hin)
  have h₁ := (infix_append_cons hbreak (show w <:+: [] ++ '\n' :: _ from h)).resolve_left hnil
  have h₂ := (infix_append_cons hbreak (show w <:+: [] ++ '\n' :: _ from h₁)).resolve_left hnil
  exact (infix_append_cons hbreak h₂).resolve_right hnil

theorem unmarked_body {body : Text} :
    Unmarked ('\n' :: '\n' :: (body ++ ['\n'])) ↔ Unmarked body := by
  have hinside : body <:+: '\n' :: '\n' :: (body ++ ['\n']) := ⟨['\n', '\n'], ['\n'], by simp⟩
  constructor
  · intro h
    exact ⟨fun hin => h.1 (hin.trans hinside), fun hin => h.2 (hin.trans hinside)⟩
  · intro h
    exact ⟨fun hin => h.1 (infix_body (by decide) (by decide) hin),
      fun hin => h.2 (infix_body (by decide) (by decide) hin)⟩

theorem fenced_frame {limit : Nat} {body : Text} (hfits : utf8Len (frame body) ≤ limit) :
    Fenced limit (frame body) ↔ Unmarked body := by
  have hshape : frame body = contextBegin ++ '\n' ::
      (contextNotice ++ (('\n' :: '\n' :: (body ++ ['\n'])) ++ contextEnd)) := by
    simp only [frame, List.cons_append, List.append_assoc, List.nil_append]
  rw [← unmarked_body]
  constructor
  · rintro (hempty | ⟨-, between, heq, hunmarked⟩)
    · cases hempty
    · rw [hshape] at heq
      have hrest := List.append_cancel_left (List.cons.inj (List.append_cancel_left heq)).2
      rw [List.append_cancel_right hrest]
      exact hunmarked
  · intro hunmarked
    exact .inr ⟨hfits, _, hshape, hunmarked⟩

theorem utf8Len_frame (body : Text) : utf8Len (frame body) = wrapperBytes + utf8Len body := by
  simp only [wrapperBytes, frame, utf8Len_append, utf8Len_cons, utf8Len_nil]
  omega

/-! ## Events -/

section Events

variable (host : Host)

/-- There are no lines, or the first one starts with a word of its own. -/
def Opens (lines : List Text) : Prop :=
  lines = [] ∨ ∃ line rest, lines = line :: rest ∧ Headed line

theorem Headed.opens {line : Text} (h : Headed line) (rest : List Text) : Opens (line :: rest) :=
  .inr ⟨line, rest, rfl, h⟩

theorem opens_unlessAlone {lines : List Text} (h : Opens lines) : Opens (unlessAlone lines) := by
  rw [unlessAlone]
  split
  · exact h
  · exact .inl rfl

theorem headed_session (t : Text) : Headed (txt "SessionStart" ++ t) :=
  ⟨'S', _, rfl, by decide⟩

theorem opens_startupLines (snapshot : Snapshot) (checkpoint : Checkpoint) (handoff : Handoff)
    (legacy : Bool) : Opens (startupLines snapshot checkpoint handoff legacy) := by
  have hheading : ∀ t : Text, Headed ('#' :: t) := fun t => ⟨'#', t, rfl, by decide⟩
  rw [startupLines]
  split
  · exact (hheading _).opens _
  · split
    · dsimp only
      simp only [List.append_assoc, List.singleton_append]
      exact (hheading _).opens _
    · split
      · exact .inl rfl
      · dsimp only
        simp only [List.append_assoc, List.singleton_append]
        exact (headed_session _).opens _

theorem opens_lines (e : Event) : Opens (e.lines host) := by
  rw [Event.lines]
  split
  · exact .inl rfl
  · dsimp only
    split
    · exact .inl rfl
    · split
      · exact .inl rfl
      · rw [compactLines]
        simp only [List.append_assoc, List.singleton_append]
        exact opens_unlessAlone ((headed_session _).opens _)
    · split
      · exact .inl rfl
      · rw [deltaLines]
        split
        · exact .inl rfl
        · exact opens_unlessAlone ((headed_session _).opens _)
    · split
      · exact opens_startupLines _ _ _ _
      · exact .inl rfl

/-- The text that is returned for some lines is fenced exactly when no marker is
within their budget. -/
theorem fenced_render_iff {lines : List Text} (h : Opens lines) (profile : RuntimeProfile) :
    Fenced profile.sessionContextBytesHard
        (trimUtf8 (render lines profile) profile.sessionContextBytesHard) ↔
      Unmarked (withinBudget lines profile) := by
  have hnone : Unmarked [] := ⟨by decide, by decide⟩
  rcases h with rfl | ⟨line, lines, rfl, hheaded⟩
  · exact iff_of_true (.inl rfl) hnone
  · rw [render_eq hheaded, ← unmarked_rstrip]
    split
    · rename_i hempty
      rw [List.isEmpty_iff.mp hempty]
      exact iff_of_true (.inl rfl) hnone
    · rename_i hbody
      -- something is let through, so the hard budget has room for the markers
      have hclip := utf8Len_le_of_isPrefix (rstrip_isPrefix (withinBudget (line :: lines) profile))
      have hcut := utf8Len_clip_le (profile.sessionContextBytesHard - wrapperBytes)
        (joinLines (line :: lines))
      have hsome : 0 < utf8Len (rstrip (withinBudget (line :: lines) profile)) := by
        cases hcase : rstrip (withinBudget (line :: lines) profile) with
        | nil => simp [hcase] at hbody
        | cons c t =>
            have hsize := c.utf8Size_pos
            rw [utf8Len_cons]
            omega
      have hfits : utf8Len (frame (rstrip (withinBudget (line :: lines) profile))) ≤
          profile.sessionContextBytesHard := by
        rw [utf8Len_frame]
        rw [withinBudget] at hclip hsome ⊢
        omega
      rw [trimUtf8_of_le hfits]
      exact fenced_frame hfits

end Events

/-! ## A marker in a checkpoint -/

def asciiHost : Host := ⟨Unicode.ascii, Memory.asciiLower⟩

def luna : RuntimeProfile := ⟨txt "luna", 1500, 2200, 2⟩

/-- The first SessionStart of a session whose checkpoint has an objective only. -/
def startupWith (objective : Text) : Event where
  source := .startup
  profile := luna
  legacy := false
  cleared := false
  memoryRelevant := false
  checkpoint := .found ⟨some objective, none, none, none, none, [], [], []⟩ false
  handoff := .unusable .missing
  projectSlug := []
  branch := []
  sha := []
  memoryIds := []
  routes := []
  locked := true
  previous := ⟨false, false, none, fun _ => true⟩
  recovery := none

end RalphVault.SessionStart
