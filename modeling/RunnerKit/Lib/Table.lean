import Mathlib

/-!
# Hash maps

The value of a `HashMap`: an association list without repeated keys, as Mathlib has it. What
is added here is to visit the values, to change one in its place, and to keep some of the
entries.
-/

namespace RunnerKit.Lib

abbrev Table (κ α : Type) := AList fun _ : κ => α

namespace Table

variable {κ α : Type}

def values (m : Table κ α) : List α := m.entries.map Sigma.snd

/-- Keeps the entries that `p` accepts. -/
def retain (p : κ → α → Bool) (m : Table κ α) : Table κ α :=
  ⟨m.entries.filter fun e => p e.1 e.2, m.nodupKeys.sublist List.filter_sublist⟩

@[simp] theorem retain_empty (p : κ → α → Bool) : retain p (∅ : Table κ α) = ∅ := rfl

variable [DecidableEq κ]

/-- Changes the value of a key that is there. -/
def modify (k : κ) (f : α → α) (m : Table κ α) : Table κ α :=
  match m.lookup k with
  | some v => m.insert k (f v)
  | none => m

theorem lookup_retain (p : κ → α → Bool) (m : Table κ α) (k : κ) :
    (m.retain p).lookup k = (m.lookup k).filter (p k) := by
  apply Option.ext
  intro v
  have hkept : v ∈ (m.retain p).lookup k ↔ (⟨k, v⟩ : Sigma fun _ : κ => α) ∈ (m.retain p).entries :=
    AList.mem_lookup_iff
  have hheld : v ∈ m.lookup k ↔ (⟨k, v⟩ : Sigma fun _ : κ => α) ∈ m.entries := AList.mem_lookup_iff
  simp only [Option.mem_def] at hkept hheld
  rw [hkept, Option.filter_eq_some_iff, hheld]
  exact List.mem_filter

theorem modify_of_some {m : Table κ α} {k : κ} {v : α} (h : m.lookup k = some v) (f : α → α) :
    m.modify k f = m.insert k (f v) := by
  rw [modify, h]

theorem lookup_modify (k : κ) (f : α → α) (m : Table κ α) (k' : κ) :
    (m.modify k f).lookup k' = if k' = k then (m.lookup k).map f else m.lookup k' := by
  unfold modify
  split
  · rename_i v hv
    split
    · subst k'
      rw [AList.lookup_insert, hv, Option.map_some]
    · rename_i hne
      exact AList.lookup_insert_ne hne
  · rename_i hnone
    split
    · subst k'
      rw [hnone, Option.map_none]
    · rfl

end Table

end RunnerKit.Lib
