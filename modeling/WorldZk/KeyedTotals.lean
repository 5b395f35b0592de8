import Mathlib.Algebra.BigOperators.Group.List.Basic
import Mathlib.Algebra.GroupWithZero.Nat
import Mathlib.Data.List.AList

/-!
# Totals over keyed entries

A map from keys to values with a weight for each value. Removing an entry takes its weight from the
total, and inserting one replaces the weight of what was there.
-/

namespace WorldZk.KeyedTotals

variable {κ ν : Type} [DecidableEq κ]

/-- Maps with values of one type. -/
abbrev KeyedMap (κ ν : Type) [DecidableEq κ] : Type := AList fun _ : κ => ν

variable (weight : ν → ℕ) {m : KeyedMap κ ν} {k : κ} {v : ν}

def total (m : KeyedMap κ ν) : ℕ := (m.entries.map fun entry => weight entry.2).sum

/-- How many entries there are. -/
def card (m : KeyedMap κ ν) : ℕ := m.entries.length

variable {weight}

@[simp] theorem total_empty : total weight (∅ : KeyedMap κ ν) = 0 := rfl

@[simp] theorem card_empty : card (∅ : KeyedMap κ ν) = 0 := rfl

theorem erase_of_lookup_none (h : m.lookup k = none) : m.erase k = m :=
  AList.ext (List.kerase_of_notMem_keys (AList.lookup_eq_none.mp h))

theorem lookup_of_lookup_erase {k' : κ} (h : (m.erase k).lookup k' = some v) :
    m.lookup k' = some v := by
  by_cases hk : k' = k
  · rw [hk, AList.lookup_erase] at h
    cases h
  · rwa [AList.lookup_erase_ne hk] at h

theorem exists_entries_of_lookup (h : m.lookup k = some v) : ∃ before after,
    m.entries = before ++ ⟨k, v⟩ :: after ∧ (m.erase k).entries = before ++ after := by
  have hmem : k ∈ m := AList.lookup_isSome.mp (by rw [h]; rfl)
  obtain ⟨v', before, after, -, hentries, herase⟩ :=
    List.exists_of_kerase (AList.mem_keys.mp hmem)
  have hv : (⟨k, v'⟩ : Sigma fun _ : κ => ν) ∈ m.entries := by
    rw [hentries]
    exact List.mem_append_right _ List.mem_cons_self
  have hlookup := AList.mem_lookup_iff.mpr hv
  rw [h] at hlookup
  cases Option.some.inj hlookup
  exact ⟨before, after, hentries, herase⟩

theorem total_erase (h : m.lookup k = some v) :
    total weight (m.erase k) + weight v = total weight m := by
  obtain ⟨before, after, hentries, herase⟩ := exists_entries_of_lookup h
  simp only [total, hentries, herase, List.map_append, List.map_cons, List.sum_append,
    List.sum_cons]
  omega

theorem card_erase (h : m.lookup k = some v) : card (m.erase k) + 1 = card m := by
  obtain ⟨before, after, hentries, herase⟩ := exists_entries_of_lookup h
  simp only [card, hentries, herase, List.length_append, List.length_cons]
  omega

theorem card_erase_le : card (m.erase k) ≤ card m := by
  cases h : m.lookup k with
  | none => rw [erase_of_lookup_none h]
  | some v =>
    have hcard := card_erase h
    omega

theorem total_insert : total weight (m.insert k v) = total weight (m.erase k) + weight v := by
  rw [total, AList.entries_insert, List.map_cons, List.sum_cons, Nat.add_comm]
  rfl

theorem card_insert : card (m.insert k v) = card (m.erase k) + 1 := by
  rw [card, AList.entries_insert, List.length_cons]
  rfl

end WorldZk.KeyedTotals
