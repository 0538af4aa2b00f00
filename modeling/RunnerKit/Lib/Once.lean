import Mathlib

/-!
# What is taken once is spent once

Parties race for keys. A key is taken under a lock, by one party, and never given
back; the party that took it spends it later, when others may already be at work.
`Once` says of the taken keys, of the keys that parties still have in hand and of
the keys that were spent that no key was spent twice.
-/

namespace RunnerKit.Lib

structure Once {κ ι : Type*} (taken : κ → Prop) (inHand : ι → Option κ) (spent : List κ) :
    Prop where
  nodup : spent.Nodup
  spent_taken : ∀ k ∈ spent, taken k
  held_taken : ∀ i k, inHand i = some k → taken k
  apart : ∀ i k, inHand i = some k → k ∉ spent
  alone : ∀ i j k, inHand i = some k → inHand j = some k → i = j

namespace Once

variable {κ ι : Type*} {taken taken' : κ → Prop} {inHand : ι → Option κ} {spent : List κ}
  {i : ι} {k : κ}

theorem new (h : ∀ i, inHand i = none) : Once taken inHand [] := by
  refine ⟨List.nodup_nil, ?_, ?_, ?_, ?_⟩ <;> simp [h]

variable [DecidableEq ι]

/-- A party takes a key that nobody has taken. -/
theorem take (h : Once taken inHand spent) (hnew : ¬ taken k)
    (htaken : ∀ k', taken' k' ↔ taken k' ∨ k' = k) :
    Once taken' (Function.update inHand i (some k)) spent := by
  have hheld : ∀ j k', Function.update inHand i (some k) j = some k' →
      j = i ∧ k' = k ∨ j ≠ i ∧ inHand j = some k' := by
    intro j k' hj
    by_cases hji : j = i
    · subst hji
      rw [Function.update_self, Option.some.injEq] at hj
      exact .inl ⟨rfl, hj.symm⟩
    · rw [Function.update_of_ne hji] at hj
      exact .inr ⟨hji, hj⟩
  refine ⟨h.nodup, ?_, ?_, ?_, ?_⟩
  · intro k' hk'
    exact (htaken k').mpr (.inl (h.spent_taken k' hk'))
  · intro j k' hj
    obtain ⟨-, rfl⟩ | ⟨-, hj⟩ := hheld j k' hj
    · exact (htaken k').mpr (.inr rfl)
    · exact (htaken k').mpr (.inl (h.held_taken j k' hj))
  · intro j k' hj hspent
    obtain ⟨-, rfl⟩ | ⟨-, hj⟩ := hheld j k' hj
    · exact hnew (h.spent_taken k' hspent)
    · exact h.apart j k' hj hspent
  · intro j j' k' hj hj'
    rcases hheld j k' hj with ⟨hji, hk⟩ | ⟨-, hold⟩
    · rcases hheld j' k' hj' with ⟨hji', -⟩ | ⟨-, hold'⟩
      · rw [hji, hji']
      · exact absurd (hk ▸ h.held_taken j' k' hold') hnew
    · rcases hheld j' k' hj' with ⟨-, hk⟩ | ⟨-, hold'⟩
      · exact absurd (hk ▸ h.held_taken j k' hold) hnew
      · exact h.alone j j' k' hold hold'

/-- What a party has in hand after it has put its key away. -/
theorem of_put_away {j : ι} {k' : κ} (hj : Function.update inHand i none j = some k') :
    j ≠ i ∧ inHand j = some k' := by
  by_cases hji : j = i
  · subst hji
    simp at hj
  · rw [Function.update_of_ne hji] at hj
    exact ⟨hji, hj⟩

/-- A party spends the key it has in hand. -/
theorem spend (h : Once taken inHand spent) (hi : inHand i = some k) :
    Once taken (Function.update inHand i none) (spent ++ [k]) := by
  refine ⟨?_, ?_, ?_, ?_, ?_⟩
  · rw [List.nodup_append]
    refine ⟨h.nodup, List.nodup_singleton k, ?_⟩
    rintro k' hk' _ hlast rfl
    rw [List.mem_singleton.mp hlast] at hk'
    exact h.apart i k hi hk'
  · intro k' hk'
    rcases List.mem_append.mp hk' with hk' | hk'
    · exact h.spent_taken k' hk'
    · rw [List.mem_singleton.mp hk']
      exact h.held_taken i k hi
  · intro j k' hj
    exact h.held_taken j k' (of_put_away hj).2
  · intro j k' hj hspent
    obtain ⟨hji, hj⟩ := of_put_away hj
    rcases List.mem_append.mp hspent with hspent | hlast
    · exact h.apart j k' hj hspent
    · rw [List.mem_singleton.mp hlast] at hj
      exact hji (h.alone j i k hj hi)
  · intro j j' k' hj hj'
    exact h.alone j j' k' (of_put_away hj).2 (of_put_away hj').2

end Once

end RunnerKit.Lib
