import Mathlib

/-!
# Maps sorted by key

The value of a `BTreeMap`: its entries in increasing order of their keys. The
order is a field, so no map can be built out of order, and reading the entries
from the front is reading them by key.
-/

namespace RunnerKit.Lib

/-- A finite map as its entries, strictly increasing by key. -/
structure SortedMap (κ β : Type*) [LinearOrder κ] where
  entries : List (κ × β)
  sorted : (entries.map Prod.fst).Pairwise (· < ·)

namespace SortedMap

variable {κ β : Type*} [LinearOrder κ]

def empty : SortedMap κ β := ⟨[], List.Pairwise.nil⟩

def keys (m : SortedMap κ β) : List κ := m.entries.map Prod.fst

def values (m : SortedMap κ β) : List β := m.entries.map Prod.snd

/-- The smallest key. -/
def firstKey (m : SortedMap κ β) : Option κ := m.keys.head?

def insertEntry (k : κ) (v : β) : List (κ × β) → List (κ × β)
  | [] => [(k, v)]
  | (a, b) :: rest =>
      if k < a then (k, v) :: (a, b) :: rest
      else if k = a then (k, v) :: rest
      else (a, b) :: insertEntry k v rest

theorem mem_keys_insertEntry {k : κ} {v : β} {x : κ} : ∀ {l : List (κ × β)},
    x ∈ (insertEntry k v l).map Prod.fst ↔ x = k ∨ x ∈ l.map Prod.fst
  | [] => by simp [insertEntry]
  | (a, b) :: rest => by
      have ih := mem_keys_insertEntry (k := k) (v := v) (x := x) (l := rest)
      unfold insertEntry
      split
      · simp
      · split
        · rename_i hka
          simp [hka]
        · simp only [List.map_cons, List.mem_cons, ih]
          tauto

theorem insertEntry_sorted {k : κ} {v : β} : ∀ {l : List (κ × β)},
    (l.map Prod.fst).Pairwise (· < ·) →
      ((insertEntry k v l).map Prod.fst).Pairwise (· < ·)
  | [], _ => by simp [insertEntry]
  | (a, b) :: rest, h => by
      obtain ⟨ha, hrest⟩ := List.pairwise_cons.mp h
      unfold insertEntry
      split
      · rename_i hka
        refine List.pairwise_cons.mpr ⟨?_, h⟩
        intro x hx
        rcases List.mem_cons.mp hx with rfl | hx
        · exact hka
        · exact lt_trans hka (ha x hx)
      · split
        · rename_i hka
          exact List.pairwise_cons.mpr ⟨by simpa [hka] using ha, hrest⟩
        · rename_i hlt hne
          refine List.pairwise_cons.mpr ⟨?_, insertEntry_sorted hrest⟩
          intro x hx
          rcases mem_keys_insertEntry.mp hx with rfl | hx
          · exact lt_of_le_of_ne (not_lt.mp hlt) (Ne.symm hne)
          · exact ha x hx

def insert (m : SortedMap κ β) (k : κ) (v : β) : SortedMap κ β :=
  ⟨insertEntry k v m.entries, insertEntry_sorted m.sorted⟩

def erase (m : SortedMap κ β) (k : κ) : SortedMap κ β :=
  ⟨m.entries.filter (fun e => decide (e.1 ≠ k)),
    m.sorted.sublist (List.filter_sublist.map _)⟩

theorem mem_keys_insert {m : SortedMap κ β} {k x : κ} {v : β} :
    x ∈ (m.insert k v).keys ↔ x = k ∨ x ∈ m.keys :=
  mem_keys_insertEntry

@[simp] theorem entries_empty : (empty : SortedMap κ β).entries = [] := rfl

@[simp] theorem entries_erase (m : SortedMap κ β) (k : κ) :
    (m.erase k).entries = m.entries.filter (fun e => decide (e.1 ≠ k)) := rfl

/-- A key above all others goes to the end. -/
theorem entries_insert_of_lt {m : SortedMap κ β} {k : κ} {v : β}
    (h : ∀ x ∈ m.keys, x < k) : (m.insert k v).entries = m.entries ++ [(k, v)] := by
  obtain ⟨l, hl⟩ := m
  change insertEntry k v l = l ++ [(k, v)]
  change ∀ x ∈ l.map Prod.fst, x < k at h
  clear hl
  induction l with
  | nil => rfl
  | cons e rest ih =>
      obtain ⟨a, b⟩ := e
      have hak : a < k := h a (by simp)
      rw [insertEntry, if_neg (not_lt.mpr hak.le), if_neg hak.ne',
        ih fun x hx => h x (by simp [hx])]
      rfl

/-- The first key is the least one. -/
theorem firstKey_le {m : SortedMap κ β} {first x : κ}
    (hf : m.firstKey = some first) (hx : x ∈ m.keys) : first ≤ x := by
  obtain ⟨rest, hrest⟩ := List.head?_eq_some_iff.mp hf
  have hs := m.sorted
  change (m.keys).Pairwise (· < ·) at hs
  rw [hrest] at hs hx
  rcases List.mem_cons.mp hx with rfl | hx
  · exact le_refl _
  · exact ((List.pairwise_cons.mp hs).1 x hx).le

theorem exists_firstKey {m : SortedMap κ β} {x : κ} (hx : x ∈ m.keys) :
    ∃ first, m.firstKey = some first := by
  unfold firstKey
  cases hk : m.keys with
  | nil => simp [hk] at hx
  | cons a rest => exact ⟨a, rfl⟩

theorem firstKey_mem {m : SortedMap κ β} {first : κ}
    (hf : m.firstKey = some first) : first ∈ m.keys :=
  List.mem_of_mem_head? hf

end SortedMap

end RunnerKit.Lib
