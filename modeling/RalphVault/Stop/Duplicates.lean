import Mathlib
import RalphVault.IndentedSize
import RalphVault.SpacedJson
import RalphVault.Stop.Terminal

/-!
# Stop — duplicates

When a claim calls its Stop a duplicate. The marker holds what has been
committed last for each of the last 256 scopes, and the next claim reads it
back. Its size grows with the digits of the sequence numbers only, which
count the commits: the reader accepts it until there are more of them than
any project will ever have.
-/

namespace RalphVault.Stop.Terminal

open Json StateFile Recency

/-! ## What the marker holds -/

/-- A history with the sequence numbers its commits were given. -/
def stamped : List (Text × Text) → List (Text × BusinessEntry)
  | [] => []
  | c :: past => (c.1, ⟨c.2, past.length⟩) :: stamped past

/-- The entries of the marker after a history. -/
def ledger (history : List (Text × Text)) : List (Text × BusinessEntry) :=
  (Lru.latest (stamped history)).take maxBusinessEntries

/-- The scopes committed last. -/
def keptScopes (history : List (Text × Text)) : List Text :=
  ((Lru.latest history).map Prod.fst).take maxBusinessEntries

variable {α β : Type} {history past : List (Text × Text)} {c : Text × Text}

theorem get?_stamped (k : Text) :
    (SortedMap.get? k (stamped history)).map (·.fingerprint) = SortedMap.get? k history := by
  induction history with
  | nil => rfl
  | cons c past ih =>
      rw [stamped, SortedMap.get?, SortedMap.get?]
      by_cases hk : c.1 = k
      · rw [if_pos hk, if_pos hk]
        rfl
      · rw [if_neg hk, if_neg hk, ih]

theorem keys_latest_stamped :
    (Lru.latest (stamped history)).map Prod.fst = (Lru.latest history).map Prod.fst := by
  induction history with
  | nil => rfl
  | cons c past ih =>
      rw [stamped, Lru.latest_cons, Lru.latest_cons, Lru.keys_touch, Lru.keys_touch, ih]

theorem sequence_lt {e : Text × BusinessEntry} (h : e ∈ stamped history) :
    e.2.sequence < history.length := by
  induction history with
  | nil => cases h
  | cons c past ih =>
      rcases List.mem_cons.mp h with rfl | h
      · exact Nat.lt_succ_self _
      · exact Nat.lt_succ_of_lt (ih h)

theorem stamped_pairwise : (stamped history).Pairwise fun a b => b.2.sequence < a.2.sequence := by
  induction history with
  | nil => exact List.Pairwise.nil
  | cons c past ih => exact List.pairwise_cons.mpr ⟨fun e he => sequence_lt he, ih⟩

theorem mem_stamped {e : Text × BusinessEntry} (h : e ∈ stamped history) :
    (e.1, e.2.fingerprint) ∈ history := by
  induction history with
  | nil => cases h
  | cons c past ih =>
      rcases List.mem_cons.mp h with rfl | h
      · exact List.mem_cons_self
      · exact List.mem_cons_of_mem _ (ih h)

theorem ledger_sublist : (ledger history).Sublist (stamped history) :=
  (List.take_sublist _ _).trans Lru.latest_sublist

theorem nodup_ledger : ((ledger history).map Prod.fst).Nodup :=
  Lru.nodup_latest.sublist ((List.take_sublist _ _).map _)

theorem length_ledger_le : (ledger history).length ≤ maxBusinessEntries := List.length_take_le _ _

/-- The scopes of the marker are those committed last, with what was committed. -/
theorem get?_ledger (k : Text) :
    (SortedMap.get? k (ledger history)).map (·.fingerprint) =
      if k ∈ keptScopes history then SortedMap.get? k history else none := by
  rw [ledger, Lru.get?_take Lru.nodup_latest, List.map_take, keys_latest_stamped, keptScopes]
  by_cases hk : k ∈ ((Lru.latest history).map Prod.fst).take maxBusinessEntries
  · rw [if_pos hk, if_pos hk, Lru.get?_latest, get?_stamped]
  · rw [if_neg hk, if_neg hk]
    rfl

/-! ## A commit -/

theorem le_foldr_max {f : α → Nat} {l : List α} {a : α} (h : a ∈ l) :
    f a ≤ (l.map f).foldr max 0 := by
  induction l with
  | nil => cases h
  | cons b l ih =>
      rw [List.map_cons, List.foldr_cons]
      rcases List.mem_cons.mp h with rfl | h
      · exact le_max_left _ _
      · exact (ih h).trans (le_max_right _ _)

theorem foldr_max_le {f : α → Nat} {l : List α} {n : Nat} (h : ∀ a ∈ l, f a ≤ n) :
    (l.map f).foldr max 0 ≤ n := by
  induction l with
  | nil => exact Nat.zero_le n
  | cons b l ih =>
      obtain ⟨hb, hl⟩ := List.forall_mem_cons.mp h
      rw [List.map_cons, List.foldr_cons]
      exact max_le hb (ih hl)

/-- The next sequence number counts the commits. -/
theorem nextSequence_eq {entries : Entries} (h : entries.entries.Perm (ledger history)) :
    nextSequence entries = history.length := by
  refine le_antisymm (foldr_max_le fun e he => ?_) ?_
  · exact sequence_lt (ledger_sublist.subset (h.mem_iff.mp he))
  · cases history with
    | nil => exact Nat.zero_le _
    | cons c past =>
        have hhead : (c.1, (⟨c.2, past.length⟩ : BusinessEntry)) ∈ ledger (c :: past) := by
          rw [ledger, stamped, Lru.latest_cons, Lru.touch, maxBusinessEntries, List.take_succ_cons]
          exact List.mem_cons_self
        exact le_foldr_max (f := fun e : Text × BusinessEntry => e.2.sequence + 1)
          (h.mem_iff.mpr hhead)

theorem assign_perm {r : Records β} {l : List (Text × β)} {k : Text} {v : β}
    (hkeys : (l.map Prod.fst).Nodup) (h : r.entries.Perm l) :
    (r.assign k v).entries.Perm (Lru.touch (k, v) l) := by
  refine SortedMap.perm_of_get? (Records.nodup_keys _) (Lru.nodup_touch hkeys) fun k' => ?_
  have hassign := r.get?_assign k k' v
  rw [Records.get?] at hassign
  rw [hassign, Lru.get?_touch, Records.get?, SortedMap.get?_of_perm h r.nodup_keys]

theorem ledger_pairwise : (ledger history).Pairwise fun a b => recency b < recency a := by
  refine List.Pairwise.imp ?_ (stamped_pairwise.sublist ledger_sublist)
  intro a b hab
  exact Prod.Lex.toLex_lt_toLex.mpr (.inl hab)

/-- What a commit writes: the ledger of the history it makes. -/
theorem writeBusiness_assign {entries : Entries} (h : entries.entries.Perm (ledger history))
    (c : Text × Text) :
    writeBusiness (entries.assign c.1 ⟨c.2, nextSequence entries⟩) =
      indented (businessPayload (ledger (c :: history))) := by
  have hperm := assign_perm (k := c.1) (v := ⟨c.2, nextSequence entries⟩) nodup_ledger h
  have htake : (Lru.touch (c.1, ⟨c.2, history.length⟩) (ledger history)).take maxBusinessEntries =
      ledger (c :: history) := by
    rw [ledger, Lru.take_touch_take Lru.nodup_latest, ledger, stamped, Lru.latest_cons]
  have hsorted : (Lru.touch (c.1, (⟨c.2, history.length⟩ : BusinessEntry))
      (ledger history)).Pairwise fun a b => recency b < recency a := by
    refine List.pairwise_cons.mpr ⟨fun e he => ?_, ledger_pairwise.sublist List.filter_sublist⟩
    refine Prod.Lex.toLex_lt_toLex.mpr (.inl ?_)
    exact sequence_lt (ledger_sublist.subset (List.mem_of_mem_filter he))
  rw [nextSequence_eq h] at hperm ⊢
  rw [writeBusiness, mostRecent_of_perm hperm hsorted, htake]

/-! ## The marker read back -/

/-- What the marker is made of: keys and fingerprints of hexadecimal digits. -/
structure Shaped (c : Text × Text) : Prop where
  scope : c.1.length = 32 ∧ ∀ a ∈ c.1, isLowerHex a = true
  fingerprint : c.2.length = 64 ∧ ∀ a ∈ c.2, isLowerHex a = true

theorem readEntry_json {acc : Nat × Entries} {e : Text × BusinessEntry}
    (hkey : e.1.length ≤ 128) (hfingerprint : e.2.fingerprint.length = 64) :
    (readEntry acc (e.1, e.2.json)).2 = acc.2.assign e.1 e.2 := by
  have hget : SortedMap.get? (txt "fingerprint")
      [(txt "fingerprint", Json.str e.2.fingerprint), (txt "sequence", .num e.2.sequence)] =
        some (.str e.2.fingerprint) := rfl
  have hsequence : SortedMap.get? (txt "sequence")
      [(txt "fingerprint", Json.str e.2.fingerprint), (txt "sequence", .num e.2.sequence)] =
        some (.num e.2.sequence) := rfl
  simp only [readEntry, BusinessEntry.json, hget, hsequence, hfingerprint, if_true,
    if_neg (Int.not_lt.mpr (Int.natCast_nonneg _)), Int.toNat_natCast, List.take_of_length_le hkey]

theorem foldl_readEntry {es : List (Text × BusinessEntry)} {acc : Nat × Entries}
    (h : ∀ e ∈ es, e.1.length ≤ 128 ∧ e.2.fingerprint.length = 64) :
    ((es.map fun e => (e.1, e.2.json)).foldl readEntry acc).2 =
      es.foldl (fun r e => r.assign e.1 e.2) acc.2 := by
  induction es generalizing acc with
  | nil => rfl
  | cons e es ih =>
      obtain ⟨he, hes⟩ := List.forall_mem_cons.mp h
      rw [List.map_cons, List.foldl_cons, List.foldl_cons, ih hes, readEntry_json he.1 he.2]

theorem entries_foldl_assign (es : List (Text × β)) (r : Records β) :
    (es.foldl (fun r e => r.assign e.1 e.2) r).entries =
      es.foldl (fun acc e => SortedMap.insert textLt e.1 e.2 acc) r.entries := by
  induction es generalizing r with
  | nil => rfl
  | cons e es ih => rw [List.foldl_cons, List.foldl_cons, ih]; rfl

theorem norm_entries {es : List (Text × BusinessEntry)} :
    Json.norm (.obj (es.map fun e => (e.1, e.2.json))) =
      .obj ((sortMembers es).map fun e => (e.1, e.2.json)) := by
  rw [Json.norm, normFields_eq, List.map_map, ← sortMembers_map]
  rfl

theorem norm_payload (es : List (Text × BusinessEntry)) :
    Json.norm (businessPayload es) =
      .obj [(txt "entries", Json.norm (.obj (es.map fun e => (e.1, e.2.json)))),
        (txt "schema_version", .num 1)] := rfl

/-- **A marker that is small enough is read back.** -/
theorem readBusiness_payload {es : List (Text × BusinessEntry)} (hkeys : (es.map Prod.fst).Nodup)
    (hlen : es.length ≤ maxBusinessEntries * 2)
    (h : ∀ e ∈ es, e.1.length ≤ 128 ∧ e.2.fingerprint.length = 64)
    (hfits : utf8Len (indented (businessPayload es)) ≤ maxMarkerBytes) :
    ∃ entries, readBusiness (indented (businessPayload es)) = some entries ∧
      entries.entries.Perm es := by
  have hperm := sortMembers_perm hkeys
  have hlength : ¬maxBusinessEntries * 2 <
      ((sortMembers es).map fun e => (e.1, e.2.json)).length := by
    rw [List.length_map, hperm.length_eq]
    exact Nat.not_lt.mpr hlen
  refine ⟨(((sortMembers es).map fun e => (e.1, e.2.json)).foldl readEntry (0, .empty)).2, ?_, ?_⟩
  · rw [readBusiness, if_neg (Nat.not_lt.mpr hfits), loads_indented, norm_payload, norm_entries]
    exact if_neg hlength
  · rw [foldl_readEntry fun e he => h e (hperm.mem_iff.mp he), entries_foldl_assign]
    exact (sortMembers_perm (keys_sortMembers es)).trans hperm

/-! ## The size of the marker -/

theorem isAsciiPlain_of_isLowerHex {a : Char} (h : isLowerHex a = true) :
    isAsciiPlain a = true := by
  simp only [isLowerHex, isAsciiDigit, Bool.or_eq_true, Bool.and_eq_true, decide_eq_true_eq] at h
  simp only [isAsciiPlain, isPlain, Bool.and_eq_true, Bool.or_eq_true, Nat.ble_eq, Nat.beq_eq,
    decide_eq_true_eq]
  omega

/-- The bytes of an entry of a marker, on its lines. -/
def entrySize (e : Text × BusinessEntry) : Nat := 157 + (decimalText e.2.sequence).length

theorem occupies_entry {e : Text × BusinessEntry} (h : Shaped (e.1, e.2.fingerprint)) :
    Occupies 2 e.2.json (115 + (decimalText e.2.sequence).length) := by
  have hsize := occupies_obj 2
    [(txt "fingerprint", .str e.2.fingerprint, asciiSize e.2.fingerprint + 2),
      (txt "sequence", .num e.2.sequence, (decimalText e.2.sequence).length)]
    (by
      have hnames : [txt "fingerprint", txt "sequence"].Nodup := by decide
      exact hnames)
    (by
      intro f hf
      simp only [List.mem_cons, List.not_mem_nil, or_false] at hf
      rcases hf with rfl | rfl
      · exact occupies_str _ _
      · exact occupies_num _ _)
  have hplain := asciiSize_plain fun a ha => isAsciiPlain_of_isLowerHex (h.fingerprint.2 a ha)
  have hfingerprint : asciiSize (txt "fingerprint") = 11 := by decide
  have hsequence : asciiSize (txt "sequence") = 8 := by decide
  rw [hplain, h.fingerprint.1] at hsize
  intro rest
  rw [BusinessEntry.json]
  refine (hsize rest).trans ?_
  simp only [blockSize, List.map_cons, List.map_nil, List.isEmpty_cons, Bool.false_eq_true,
    if_false, List.sum_cons, List.sum_nil, hfingerprint, hsequence]
  omega

theorem occupies_entries {es : List (Text × BusinessEntry)} (hne : es ≠ [])
    (hkeys : (es.map Prod.fst).Nodup) (h : ∀ e ∈ es, Shaped (e.1, e.2.fingerprint)) :
    Occupies 1 (.obj (es.map fun e => (e.1, e.2.json))) ((es.map entrySize).sum + 4) := by
  have hentries := occupies_obj 1
    (es.map fun e => (e.1, e.2.json, 115 + (decimalText e.2.sequence).length))
    (by rw [List.map_map]; exact hkeys)
    (by
      intro f hf
      obtain ⟨e, he, rfl⟩ := List.mem_map.mp hf
      exact occupies_entry (h e he))
  have hsizes : (es.map fun e => asciiSize e.1 + 4 + (115 + (decimalText e.2.sequence).length) +
      (2 * 1 + 4)) = es.map entrySize := by
    refine List.map_congr_left fun e he => ?_
    have hkey := asciiSize_plain fun a ha => isAsciiPlain_of_isLowerHex ((h e he).scope.2 a ha)
    have hscope : e.1.length = 32 := (h e he).scope.1
    rw [hkey, hscope, entrySize]
    omega
  rw [blockSize_of_ne_nil (by simpa using hne), List.map_map, List.map_map, List.map_map] at hentries
  rw [← hsizes]
  exact hentries

/-- **The bytes of a marker.** -/
theorem utf8Len_marker {es : List (Text × BusinessEntry)} (hne : es ≠ [])
    (hkeys : (es.map Prod.fst).Nodup) (h : ∀ e ∈ es, Shaped (e.1, e.2.fingerprint)) :
    utf8Len (indented (businessPayload es)) = (es.map entrySize).sum + 45 := by
  have hpayload := occupies_obj 0
    [(txt "schema_version", .num (1 : Nat), 1),
      (txt "entries", .obj (es.map fun e => (e.1, e.2.json)), (es.map entrySize).sum + 4)]
    (by
      have hnames : [txt "schema_version", txt "entries"].Nodup := by decide
      exact hnames)
    (by
      intro f hf
      simp only [List.mem_cons, List.not_mem_nil, or_false] at hf
      rcases hf with rfl | rfl
      · exact occupies_num _ 1
      · exact occupies_entries hne hkeys h)
  have hschema : asciiSize (txt "schema_version") = 14 := by decide
  have hname : asciiSize (txt "entries") = 7 := by decide
  refine (utf8Len_indented hpayload).trans ?_
  rw [blockSize_of_ne_nil (by simp)]
  simp only [List.map_cons, List.map_nil, List.sum_cons, List.sum_nil, hschema, hname]
  omega

/-! ## Runs -/

/-- What is true after every run. -/
structure Holds (r : Run) : Prop where
  shaped : ∀ c ∈ r.history, Shaped c
  marker : r.world.marker =
    if r.history = [] then none else some (indented (businessPayload (ledger r.history)))
  holder : ∀ h, r.world.holder = some h → h.entries.entries.Perm (ledger r.history)

section Reading

variable {r : Run}

theorem Holds.shaped_ledger (h : Holds r) :
    ∀ e ∈ ledger r.history, Shaped (e.1, e.2.fingerprint) := fun e he =>
  h.shaped _ (mem_stamped (ledger_sublist.subset he))

theorem readBusiness_ledger (h : Holds r)
    (hfits : utf8Len (indented (businessPayload (ledger r.history))) ≤ maxMarkerBytes) :
    ∃ entries, readBusiness (indented (businessPayload (ledger r.history))) = some entries ∧
      entries.entries.Perm (ledger r.history) := by
  refine readBusiness_payload nodup_ledger ?_ (fun e he => ?_) hfits
  · exact length_ledger_le.trans (Nat.le_mul_of_pos_right _ (by decide))
  · have hshaped := h.shaped_ledger e he
    exact ⟨hshaped.scope.1.trans_le (by decide), hshaped.fingerprint.1⟩

/-- What is read is the ledger. -/
theorem Holds.perm_of_load (h : Holds r) {entries : Entries}
    (hload : loadBusiness r.world.marker = some entries) :
    entries.entries.Perm (ledger r.history) := by
  rw [h.marker] at hload
  by_cases hnil : r.history = []
  · rw [if_pos hnil] at hload
    cases hload
    rw [hnil]
    exact List.Perm.refl _
  · rw [if_neg hnil, loadBusiness] at hload
    by_cases hfits : utf8Len (indented (businessPayload (ledger r.history))) ≤ maxMarkerBytes
    · obtain ⟨entries', hread, hperm⟩ := readBusiness_ledger h hfits
      rw [hread, Option.some.injEq] at hload
      exact hload ▸ hperm
    · rw [readBusiness, if_pos (Nat.not_le.mp hfits)] at hload
      cases hload

theorem Holds.load (h : Holds r)
    (hfits : utf8Len (indented (businessPayload (ledger r.history))) ≤ maxMarkerBytes) :
    ∃ entries, loadBusiness r.world.marker = some entries := by
  rw [h.marker]
  by_cases hnil : r.history = []
  · rw [if_pos hnil]
    exact ⟨_, rfl⟩
  · rw [if_neg hnil]
    obtain ⟨entries, hread, -⟩ := readBusiness_ledger h hfits
    exact ⟨entries, hread⟩

/-- The sequence numbers of a run that is not too long leave room. -/
theorem Holds.fits (h : Holds r) (hshort : r.history.length ≤ 10 ^ 350) :
    utf8Len (indented (businessPayload (ledger r.history))) ≤ maxMarkerBytes := by
  by_cases hnil : ledger r.history = []
  · rw [hnil]
    decide
  have hentry : ∀ n ∈ (ledger r.history).map entrySize, n ≤ 507 := by
    intro n hn
    obtain ⟨e, he, rfl⟩ := List.mem_map.mp hn
    have hdigits : (decimalText e.2.sequence).length ≤ 350 :=
      (Nat.length_toDigits_le_iff (by decide) (by decide)).mpr
        ((sequence_lt (ledger_sublist.subset he)).trans_le hshort)
    exact Nat.add_le_add_left hdigits 157
  have hsum : ((ledger r.history).map entrySize).sum ≤ (ledger r.history).length * 507 := by
    simpa using List.sum_le_card_nsmul _ 507 hentry
  have hlen : (ledger r.history).length ≤ 256 := length_ledger_le
  rw [utf8Len_marker hnil nodup_ledger h.shaped_ledger, maxMarkerBytes]
  omega

end Reading

/-- What a claim finds of a scope. -/
theorem Holds.get?_of_load {r : Run} (h : Holds r) {entries : Entries}
    (hload : loadBusiness r.world.marker = some entries) (k : Text) :
    (entries.get? k).map (·.fingerprint) =
      if k ∈ keptScopes r.history then SortedMap.get? k r.history else none := by
  rw [Records.get?, SortedMap.get?_of_perm (h.perm_of_load hload) entries.nodup_keys, get?_ledger]

section Steps

variable {r : Run} {w : World} {claim : Option TerminalBusinessClaim} {l : Label}

theorem Holds.initial : Holds ⟨.initial, []⟩ where
  shaped _ hc := by cases hc
  marker := rfl
  holder _ hh := by cases hh

theorem shaped_stop (stop : TerminalStop) : Shaped (stop.scopeKey.text, stop.fingerprint.text) :=
  ⟨⟨stop.scopeKey.length, stop.scopeKey.hex⟩, ⟨stop.fingerprint.length, stop.fingerprint.hex⟩⟩

/-- A claim that begins reads the marker and leaves it. -/
theorem Holds.enter (h : Holds r) {stop : TerminalStop} {host : ClaimHost}
    (hstep : r.world.step (.enter stop host) = some (w, claim)) : Holds ⟨w, r.history⟩ := by
  simp only [World.step] at hstep
  split at hstep
  · cases hstep
    exact h
  · split at hstep
    · cases hstep
    · split at hstep
      · cases hstep
        exact h
      · rename_i entries hload
        cases hstep
        refine ⟨h.shaped, h.marker, fun holder hholder => ?_⟩
        cases hholder
        refine h.perm_of_load ?_
        split at hload
        · exact hload
        · cases hload

/-- A claim that ends writes the ledger of the history it makes. -/
theorem Holds.leave (h : Holds r) {requested : Bool} {publication : Publication}
    (hstep : r.world.step (.leave requested publication) = some (w, claim)) :
    Holds ⟨w, r.world.committed (.leave requested publication) ++ r.history⟩ := by
  obtain ⟨holder, hholder, hw⟩ := Option.map_eq_some_iff.mp hstep
  obtain ⟨rfl, -⟩ := Prod.mk.injEq .. ▸ hw
  have hwritten := writeBusiness_assign (h.holder holder hholder)
    (holder.stop.scopeKey.text, holder.stop.fingerprint.text)
  simp only [World.committed, hholder]
  by_cases hcommit : (requested && !holder.duplicate) = true
  · have hshaped : ∀ c ∈ (holder.stop.scopeKey.text, holder.stop.fingerprint.text) :: r.history,
        Shaped c := List.forall_mem_cons.mpr ⟨shaped_stop holder.stop, h.shaped⟩
    have hcommits : holder.commits requested publication = (publication != .refused) := by
      rw [Holder.commits, hcommit, Bool.true_and]
    rw [if_pos hcommit, hcommits]
    cases publication with
    | refused => exact ⟨h.shaped, h.marker, fun _ hnone => by cases hnone⟩
    | done => exact ⟨hshaped, congrArg some hwritten, fun _ hnone => by cases hnone⟩
    | unacknowledged => exact ⟨hshaped, congrArg some hwritten, fun _ hnone => by cases hnone⟩
  · have hcommits : holder.commits requested publication = false := by
      rw [Holder.commits, Bool.eq_false_iff.mpr hcommit, Bool.false_and]
    rw [if_neg hcommit, hcommits]
    exact ⟨h.shaped, h.marker, fun _ hnone => by cases hnone⟩

theorem Holds.step (h : Holds r) (hstep : r.world.step l = some (w, claim)) :
    Holds ⟨w, r.world.committed l ++ r.history⟩ := by
  cases l with
  | enter stop host => exact h.enter hstep
  | leave requested publication => exact h.leave hstep

theorem run_holds {labels : List Label} (hrun : run labels = some r) : Holds r := by
  induction labels generalizing r with
  | nil =>
      cases hrun
      exact Holds.initial
  | cons l past ih =>
      obtain ⟨r', hr', hnext⟩ := Option.bind_eq_some_iff.mp hrun
      obtain ⟨⟨w, claim⟩, hstep, rfl⟩ := Option.map_eq_some_iff.mp hnext
      exact (ih hr').step hstep

end Steps

/-! ## Exact claims -/

/-- What a claim begins with when its host lets it read the marker. -/
theorem step_enter {w : World} (hfree : w.holder = none) (stop : TerminalStop)
    {host : ClaimHost} (hworks : host.works) {entries : Entries}
    (hload : loadBusiness w.marker = some entries) {duplicate : Bool}
    (hduplicate : decide ((entries.get? stop.scopeKey.text).map (·.fingerprint) =
      some stop.fingerprint.text) = duplicate) :
    w.step (.enter stop host) =
      some (⟨w.marker, some ⟨stop, duplicate, entries⟩⟩, some ⟨duplicate, true⟩) := by
  obtain ⟨hsafe, hlockable, hreadable⟩ := hworks
  simp only [World.step, hsafe, hlockable, hfree, hreadable, hload, hduplicate, if_true,
    Bool.not_true, Bool.or_self, Bool.false_eq_true, if_false]

/-- The claims after a run are exact: one that the host lets read the marker is
available, and calls its Stop a duplicate exactly when it is what was committed
last for its scope and the scope is one of those committed last. The marker is
accepted, and has what was committed last. -/
structure Run.Exact (r : Run) : Prop where
  duplicate : r.world.holder = none → ∀ stop host, host.works →
    ∃ w duplicate, r.world.step (.enter stop host) = some (w, some ⟨duplicate, true⟩) ∧
      (duplicate = true ↔
        SortedMap.get? stop.scopeKey.text r.history = some stop.fingerprint.text ∧
          stop.scopeKey.text ∈ keptScopes r.history)
  accepted : ∃ entries, loadBusiness r.world.marker = some entries ∧
    ∀ c past, r.history = c :: past → (entries.get? c.1).map (·.fingerprint) = some c.2

/-- **After every run of at most 10^350 commits the claims are exact.** -/
theorem claims_exact (labels : List Label) (r : Run) (hrun : run labels = some r)
    (hshort : r.history.length ≤ 10 ^ 350) : r.Exact := by
  have hholds := run_holds hrun
  obtain ⟨entries, hload⟩ := hholds.load (hholds.fits hshort)
  have hget := hholds.get?_of_load hload
  refine ⟨fun hfree stop host hworks => ?_, entries, hload, fun c past hhistory => ?_⟩
  · refine ⟨_, _, step_enter hfree stop hworks hload rfl, ?_⟩
    rw [decide_eq_true_eq, hget]
    by_cases hkept : stop.scopeKey.text ∈ keptScopes r.history
    · rw [if_pos hkept]
      exact (and_iff_left hkept).symm
    · rw [if_neg hkept]
      exact iff_of_false (Option.some_ne_none _).symm fun hboth => hkept hboth.2
  · have hkept : c.1 ∈ keptScopes r.history := by
      rw [hhistory, keptScopes, Lru.latest_cons, Lru.keys_touch, maxBusinessEntries,
        List.take_succ_cons]
      exact List.mem_cons_self
    rw [hget, if_pos hkept, hhistory, SortedMap.get?, if_pos rfl]

/-! ## Longer runs -/

theorem isLowerHex_hexDigit : ∀ d < 16, isLowerHex (hexDigit d) = true := by decide

/-- A digest of one digit. -/
def constantDigest (n : Nat) (d : Fin 16) : Digest n where
  text := List.replicate n (hexDigit d)
  length := List.length_replicate
  hex a ha := by
    rw [List.eq_of_mem_replicate ha]
    exact isLowerHex_hexDigit d d.isLt

def working : ClaimHost := ⟨true, true, true⟩

theorem working_works : working.works := ⟨rfl, rfl, rfl⟩

/-- Stops that are claimed and committed one after the other, the last one first. -/
def serve : List TerminalStop → List Label
  | [] => []
  | stop :: past => .leave true .done :: .enter stop working :: serve past

/-- What the Stops commit. -/
def commits (stops : List TerminalStop) : List (Text × Text) :=
  stops.map fun stop => (stop.scopeKey.text, stop.fingerprint.text)

/-- A Stop of a project without a marker. -/
def zeroDigest (n : Nat) : Digest n := constantDigest n 0

def firstStop : TerminalStop := ⟨zeroDigest 32, zeroDigest 64⟩

theorem claims_exact_after_first_stop :
    (⟨⟨some (writeBusiness (Holder.committed ⟨firstStop, false, .empty⟩)), none⟩,
      commits [firstStop]⟩ : Run).Exact :=
  claims_exact (serve [firstStop]) _ rfl (Nat.one_le_pow 350 10 (by decide))

/-- No Stop repeats the one before it for its scope. -/
def Novel : List TerminalStop → Prop
  | [] => True
  | stop :: past =>
      SortedMap.get? stop.scopeKey.text (commits past) ≠ some stop.fingerprint.text ∧ Novel past

/-- As long as the marker is accepted, every novel Stop is committed. -/
theorem run_serve (haccepted : ∀ labels r, run labels = some r → loadBusiness r.world.marker ≠ none)
    {stops : List TerminalStop} (h : Novel stops) :
    ∃ r, run (serve stops) = some r ∧ r.world.holder = none ∧ r.history = commits stops := by
  induction stops with
  | nil => exact ⟨_, rfl, rfl, rfl⟩
  | cons stop past ih =>
      obtain ⟨hnovel, hpast⟩ := h
      obtain ⟨r, hrun, hfree, hhistory⟩ := ih hpast
      obtain ⟨entries, hload⟩ := Option.ne_none_iff_exists'.mp (haccepted _ r hrun)
      have hfresh : decide ((entries.get? stop.scopeKey.text).map (·.fingerprint) =
          some stop.fingerprint.text) = false := by
        rw [decide_eq_false_iff_not, (run_holds hrun).get?_of_load hload, hhistory]
        split
        · exact hnovel
        · exact (Option.some_ne_none _).symm
      have hstep := step_enter hfree stop working_works hload hfresh
      refine ⟨⟨⟨some (writeBusiness (Holder.committed ⟨stop, false, entries⟩)), none⟩,
        commits (stop :: past)⟩, ?_, rfl, rfl⟩
      simp only [serve, run, hrun, hstep, Option.bind_some, Option.map_some]
      rw [hhistory]
      rfl

theorem novel_append {front past : List TerminalStop} (hpast : Novel past)
    (hkeys : ((commits front).map Prod.fst).Nodup)
    (hnew : ∀ k ∈ (commits front).map Prod.fst, k ∉ (commits past).map Prod.fst) :
    Novel (front ++ past) := by
  induction front with
  | nil => exact hpast
  | cons stop front ih =>
      simp only [commits, List.map_cons, List.nodup_cons] at hkeys
      refine ⟨?_, ih hkeys.2 fun k hk => hnew k (List.mem_cons_of_mem _ hk)⟩
      have hmissing : stop.scopeKey.text ∉ (commits (front ++ past)).map Prod.fst := by
        rw [commits, List.map_append, List.map_append, List.mem_append, not_or]
        exact ⟨hkeys.1, hnew _ List.mem_cons_self⟩
      have hnone := SortedMap.get?_eq_none hmissing
      exact fun hsome => Option.some_ne_none _ (hsome.symm.trans hnone)

/-- The entries of the last commits are numbered after the earlier ones. -/
theorem stamped_append (front past : List (Text × Text)) :
    ∃ new, stamped (front ++ past) = new ++ stamped past ∧
      new.map Prod.fst = front.map Prod.fst ∧ ∀ e ∈ new, past.length ≤ e.2.sequence := by
  induction front with
  | nil => exact ⟨[], rfl, rfl, fun _ he => by cases he⟩
  | cons c front ih =>
      obtain ⟨new, hnew, hkeys, hlate⟩ := ih
      refine ⟨(c.1, ⟨c.2, (front ++ past).length⟩) :: new, ?_, ?_, ?_⟩
      · rw [List.cons_append, stamped, hnew, List.cons_append]
      · rw [List.map_cons, List.map_cons, hkeys]
      · refine List.forall_mem_cons.mpr ⟨?_, hlate⟩
        rw [List.length_append]
        exact Nat.le_add_left _ _

/-- A digest for each of 256 scopes. -/
def scopeDigest (i : Fin 256) : Digest 32 where
  text := hexDigit (i / 16) :: hexDigit (i % 16) :: List.replicate 30 '0'
  length := rfl
  hex a ha := by
    rcases List.mem_cons.mp ha with rfl | ha
    · exact isLowerHex_hexDigit _ (by omega)
    · rcases List.mem_cons.mp ha with rfl | ha
      · exact isLowerHex_hexDigit _ (by omega)
      · rw [List.eq_of_mem_replicate ha]
        decide

theorem scopeDigest_inj {i j : Fin 256} (h : (scopeDigest i).text = (scopeDigest j).text) :
    i = j := by
  have hdigit : ∀ {d d' : Nat}, d < 16 → d' < 16 → hexDigit d = hexDigit d' → d = d' := by
    intro d d' hd hd' heq
    rw [← hexValue_hexDigit d hd, heq, hexValue_hexDigit d' hd']
  simp only [scopeDigest, List.cons.injEq, and_true] at h
  have hhigh := hdigit (by omega) (by omega) h.1
  have hlow := hdigit (by omega) (by omega) h.2
  omega

/-- Stops of one scope with two fingerprints in turn. -/
def alternating : Nat → List TerminalStop
  | 0 => []
  | n + 1 => ⟨constantDigest 32 15, constantDigest 64 (if n % 2 = 0 then 0 else 1)⟩ :: alternating n

theorem length_alternating (n : Nat) : (alternating n).length = n := by
  induction n with
  | zero => rfl
  | succ n ih => rw [alternating, List.length_cons, ih]

theorem novel_alternating (n : Nat) : Novel (alternating n) := by
  induction n with
  | zero => trivial
  | succ n ih =>
      refine ⟨?_, ih⟩
      cases n with
      | zero => exact (Option.some_ne_none _).symm
      | succ n =>
          have hget : SortedMap.get? (constantDigest 32 15).text (commits (alternating (n + 1))) =
              some (constantDigest 64 (if n % 2 = 0 then 0 else 1)).text := if_pos rfl
          rw [hget]
          rcases Nat.mod_two_eq_zero_or_one n with hn | hn
          · rw [if_pos hn, if_neg (by omega)]
            decide
          · rw [if_neg (by omega), if_pos (by omega)]
            decide

theorem keys_alternating {n : Nat} : ∀ k ∈ (commits (alternating n)).map Prod.fst,
    k = (constantDigest 32 15).text := by
  induction n with
  | zero => simp [alternating, commits]
  | succ n ih => exact List.forall_mem_cons.mpr ⟨rfl, ih⟩

/-- One Stop for each of 256 scopes. -/
def others : List TerminalStop :=
  (List.finRange 256).map fun i => ⟨scopeDigest i, constantDigest 64 0⟩

theorem keys_others : (commits others).map Prod.fst =
    (List.finRange 256).map fun i => (scopeDigest i).text := by
  rw [commits, others, List.map_map, List.map_map]
  rfl

theorem nodup_others : ((commits others).map Prod.fst).Nodup := by
  rw [keys_others]
  exact (List.nodup_finRange 256).map fun i j h => scopeDigest_inj h

theorem novel_others (n : Nat) : Novel (others ++ alternating n) := by
  refine novel_append (novel_alternating n) nodup_others fun k hk hmem => ?_
  rw [keys_others] at hk
  obtain ⟨i, -, rfl⟩ := List.mem_map.mp hk
  have hthird := congrArg (fun t : Text => t[2]?) (keys_alternating _ hmem)
  exact absurd hthird (by simp [scopeDigest, constantDigest, hexDigit])

/-- After 10^360 commits of one scope and one of each of 256 others, the marker
is larger than its reader accepts. -/
theorem marker_outgrows_reader :
    ∃ labels r, run labels = some r ∧ loadBusiness r.world.marker = none := by
  by_contra hnever
  have haccepted : ∀ labels r, run labels = some r → loadBusiness r.world.marker ≠ none :=
    fun labels r hrun hnone => hnever ⟨labels, r, hrun, hnone⟩
  obtain ⟨n, hn⟩ : ∃ n, 10 ^ 360 ≤ n := ⟨_, le_rfl⟩
  obtain ⟨r, hrun, -, hhistory⟩ := run_serve haccepted (novel_others n)
  have hholds := run_holds hrun
  obtain ⟨new, hstamped, hkeys, hlate⟩ :=
    stamped_append (commits others) (commits (alternating n))
  have hlen : new.length = maxBusinessEntries := by
    have hcount := congrArg List.length hkeys
    rwa [List.length_map, keys_others, List.length_map, List.length_finRange] at hcount
  have hledger : ledger r.history = new := by
    have hsplit : commits (others ++ alternating n) = commits others ++ commits (alternating n) :=
      List.map_append
    rw [hhistory, ledger, hsplit, hstamped, ← hlen]
    exact Lru.take_latest_append (hkeys ▸ nodup_others)
  have hentry : ∀ m ∈ new.map entrySize, 518 ≤ m := by
    intro m hm
    obtain ⟨e, he, rfl⟩ := List.mem_map.mp hm
    have hsequence : 10 ^ 360 ≤ e.2.sequence := by
      have hcount := hlate e he
      rw [commits, List.length_map, length_alternating] at hcount
      exact hn.trans hcount
    have hdigits : ¬(decimalText e.2.sequence).length ≤ 360 := fun hle =>
      Nat.not_lt.mpr hsequence ((Nat.length_toDigits_le_iff (by decide) (by decide)).mp hle)
    rw [entrySize]
    omega
  have hsum : new.length * 518 ≤ (new.map entrySize).sum := by
    simpa using List.card_nsmul_le_sum _ 518 hentry
  have hne : new ≠ [] := by
    rintro rfl
    cases hlen
  have hsize := utf8Len_marker hne (hledger ▸ nodup_ledger) (hledger ▸ hholds.shaped_ledger)
  have hhistory_ne : r.history ≠ [] := by
    intro hnil
    rw [hnil] at hledger
    exact hne hledger.symm
  have hlarge : maxMarkerBytes < utf8Len (indented (businessPayload new)) := by
    rw [hsize, maxMarkerBytes]
    rw [hlen, maxBusinessEntries] at hsum
    omega
  refine haccepted _ r hrun ?_
  rw [hholds.marker, if_neg hhistory_ne, hledger, loadBusiness, readBusiness, if_pos hlarge]

end RalphVault.Stop.Terminal
