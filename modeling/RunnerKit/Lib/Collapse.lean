import Mathlib

/-!
# Collapsing repeats at the end of a list

`destutter (· ≠ ·)` drops each element that equals the one before it. A log
grows at its end, so what is needed is how the collapsed list changes when one
more element is appended.
-/

namespace RunnerKit.Lib

variable {α : Type*} [DecidableEq α]

theorem destutter'_ne_snoc (a x : α) (l : List α) :
    (l ++ [x]).destutter' (· ≠ ·) a =
      if (a :: l).getLast? = some x then l.destutter' (· ≠ ·) a
      else l.destutter' (· ≠ ·) a ++ [x] := by
  induction l generalizing a with
  | nil =>
      by_cases h : a = x
      · simp [h]
      · simp [h]
  | cons b l ih =>
      have hlast : (a :: b :: l).getLast? = (b :: l).getLast? := by simp
      rw [hlast]
      by_cases hab : a ≠ b
      · rw [List.cons_append, List.destutter'_cons_pos _ hab, ih b,
          List.destutter'_cons_pos _ hab]
        split_ifs <;> rfl
      · have heq : a = b := not_not.mp hab
        subst heq
        rw [List.cons_append, List.destutter'_cons_neg _ hab, ih a,
          List.destutter'_cons_neg _ hab]

/-- Appending the last element again changes nothing; another one is kept. -/
theorem destutter_ne_snoc (l : List α) (x : α) :
    (l ++ [x]).destutter (· ≠ ·) =
      if l.getLast? = some x then l.destutter (· ≠ ·)
      else l.destutter (· ≠ ·) ++ [x] := by
  cases l with
  | nil => simp
  | cons a l => exact destutter'_ne_snoc a x l

theorem mem_destutter_ne {l : List α} {x : α} :
    x ∈ l.destutter (· ≠ ·) ↔ x ∈ l := by
  induction l using List.reverseRecOn with
  | nil => simp
  | append_singleton l a ih =>
      rw [destutter_ne_snoc]
      split_ifs with h
      · have ha : a ∈ l := List.mem_of_getLast? h
        rw [ih, List.mem_append, List.mem_singleton]
        constructor
        · exact Or.inl
        · rintro (hx | rfl)
          · exact hx
          · exact ha
      · rw [List.mem_append, ih, List.mem_append]

end RunnerKit.Lib
