import Mathlib

/-!
# Hash chains

A list of records in which every record holds the hash of the one before
it. When no two records at hand have the same hash, the hash of a record
determines the whole list up to it.
-/

namespace RalphVault.HashChain

variable {ρ δ : Type}

/-- Every record points to the hash of the one before it, the first one to
`start`. -/
def Linked (previous hash : ρ → δ) : δ → List ρ → Prop
  | _, [] => True
  | start, r :: rs => previous r = start ∧ Linked previous hash (hash r) rs

variable {previous hash : ρ → δ}

/-- A record after the first points to the one before it. -/
theorem Linked.getElem? {start : δ} {rs : List ρ} (h : Linked previous hash start rs) {n : Nat}
    {r : ρ} (hr : rs[n + 1]? = some r) : ∃ q, rs[n]? = some q ∧ previous r = hash q := by
  induction rs generalizing start n with
  | nil => simp at hr
  | cons q rs ih =>
      cases n with
      | zero =>
          cases rs with
          | nil => simp at hr
          | cons q' rs =>
              have hq : q' = r := by simpa using hr
              rw [← hq]
              exact ⟨q, rfl, h.2.1⟩
      | succ n => exact ih h.2 (by simpa using hr)

/-- **The hash of a record pins the list up to it.** -/
theorem Linked.take_eq {start start' : δ} {rs rs' : List ρ}
    (h : Linked previous hash start rs) (h' : Linked previous hash start' rs')
    (hinj : ∀ r ∈ rs, ∀ r' ∈ rs', hash r = hash r' → r = r') {n : Nat} {r r' : ρ}
    (hr : rs[n]? = some r) (hr' : rs'[n]? = some r') (heq : hash r = hash r') :
    rs.take (n + 1) = rs'.take (n + 1) := by
  have hsame : r = r' :=
    hinj r (List.mem_of_getElem? hr) r' (List.mem_of_getElem? hr') heq
  subst hsame
  rw [List.take_add_one, List.take_add_one, hr, hr']
  congr 1
  -- the record tells the hash of the one before it
  induction n generalizing r with
  | zero => rfl
  | succ n ih =>
      obtain ⟨q, hq, hprevious⟩ := h.getElem? hr
      obtain ⟨q', hq', hprevious'⟩ := h'.getElem? hr'
      have hhash : hash q = hash q' := by rw [← hprevious, ← hprevious']
      have hsame : q = q' :=
        hinj q (List.mem_of_getElem? hq) q' (List.mem_of_getElem? hq') hhash
      subst hsame
      rw [List.take_add_one, List.take_add_one, hq, hq', ih hq hq' rfl]

end RalphVault.HashChain
