import Mathlib

/-!
# Obligations settled once

Obligations are numbered as they are issued. Some are open, the others are
listed in the order in which they were settled. `Settles n owed paid` says
that the first `n` numbers are issued and that each of them is open once or
settled once, never both; no other number is open or settled.

The open ones are given by a count for each number, so that a development can
add up the places where an obligation can lie.
-/

namespace RunnerKit.Lib

structure Settles (n : ℕ) (owed : ℕ → ℕ) (paid : List ℕ) : Prop where
  total : ∀ i, owed i + paid.count i = if i < n then 1 else 0

namespace Settles

variable {n : ℕ} {owed owed' : ℕ → ℕ} {paid : List ℕ}

theorem zero : Settles 0 (fun _ => 0) [] :=
  ⟨by simp⟩

theorem congr (h : Settles n owed paid) (ho : ∀ i, owed' i = owed i) :
    Settles n owed' paid := by
  refine ⟨fun i => ?_⟩
  rw [ho i]
  exact h.total i

theorem fresh (h : Settles n owed paid) : owed n = 0 := by
  have hn := h.total n
  simp only [lt_irrefl, if_false] at hn
  omega

/-- A new obligation is open. -/
theorem issue (h : Settles n owed paid)
    (ho : ∀ i, owed' i = owed i + if i = n then 1 else 0) :
    Settles (n + 1) owed' paid := by
  refine ⟨fun i => ?_⟩
  have hi := h.total i
  rw [ho i]
  split_ifs at hi ⊢ <;> omega

/-- An open obligation is settled. -/
theorem pay (h : Settles n owed paid) {i : ℕ}
    (ho : ∀ j, owed j = owed' j + if j = i then 1 else 0) :
    Settles n owed' (paid ++ [i]) := by
  refine ⟨fun j => ?_⟩
  have hj := h.total j
  rw [ho j] at hj
  rw [List.count_append, List.count_singleton, ← hj]
  by_cases hij : j = i
  · subst hij
    simp only [if_true, beq_self_eq_true]
    omega
  · have hne : (i == j) = false := by simpa using Ne.symm hij
    simp only [hij, if_false, hne, Bool.false_eq_true]
    omega

/-- A step that settles an obligation or none. -/
theorem payIf (h : Settles n owed paid) {i : ℕ} {b : Bool}
    (ho : ∀ j, owed j = owed' j + if j = i then b.toNat else 0) :
    Settles n owed' (paid ++ if b then [i] else []) := by
  cases b with
  | false =>
      rw [if_neg Bool.false_ne_true, List.append_nil]
      exact h.congr fun j => by simp [ho j]
  | true => exact h.pay ho

theorem nodup (h : Settles n owed paid) : paid.Nodup := by
  refine List.nodup_iff_count_le_one.mpr fun i => ?_
  have hi := h.total i
  split_ifs at hi <;> omega

theorem lt_of_mem (h : Settles n owed paid) {i : ℕ} (hi : i ∈ paid) :
    i < n := by
  have hc := List.count_pos_iff.mpr hi
  have ht := h.total i
  split_ifs at ht with hlt
  · exact hlt
  · omega

theorem not_mem_of_owed (h : Settles n owed paid) {i : ℕ} (hi : 0 < owed i) :
    i ∉ paid := by
  intro hmem
  have hc := List.count_pos_iff.mpr hmem
  have ht := h.total i
  split_ifs at ht <;> omega

/-- What is issued and not open is settled. -/
theorem mem_of_not_owed (h : Settles n owed paid) {i : ℕ} (hlt : i < n)
    (hi : owed i = 0) : i ∈ paid := by
  have ht := h.total i
  rw [if_pos hlt, hi] at ht
  exact List.count_pos_iff.mp (by omega)

end Settles

end RunnerKit.Lib
