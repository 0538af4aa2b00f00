import Mathlib

/-!
# Pages of a sorted listing

A listing is paged by a cursor: a page is cut from the items beyond the cursor,
and the next cursor is the last item of the page. The items may come from
another read for every page; what makes the pages fit together is one strict
order in which every read lists its items.
-/

namespace RunnerKit.Lib.Paging

variable {α κ : Type*} {lt : κ → κ → Prop} {key : α → κ}

/-- The read lists its items in the order. -/
def Sorted (lt : κ → κ → Prop) (key : α → κ) (read : List α) : Prop :=
  read.Pairwise fun x y => lt (key x) (key y)

instance [DecidableRel lt] (read : List α) : Decidable (Sorted lt key read) :=
  inferInstanceAs (Decidable (read.Pairwise fun x y => lt (key x) (key y)))

/-- The item comes after the cursor; with no cursor every item does. -/
def Beyond (lt : κ → κ → Prop) (after : Option κ) (k : κ) : Prop :=
  ∀ a, after = some a → lt a k

theorem Sorted.sublist {read rest : List α} (h : Sorted lt key read)
    (hs : rest.Sublist read) : Sorted lt key rest :=
  List.Pairwise.sublist hs h

/-- What is left of a read behind the item with this key. -/
def afterKey [DecidableEq κ] (key : α → κ) (a : κ) : List α → Option (List α)
  | [] => none
  | x :: rest => if key x = a then some rest else afterKey key a rest

theorem afterKey_split [DecidableEq κ] {a : κ} {read rest : List α}
    (h : afterKey key a read = some rest) :
    ∃ pre x, read = pre ++ x :: rest ∧ key x = a := by
  induction read with
  | nil => cases h
  | cons x read ih =>
      unfold afterKey at h
      split at h
      · cases h
        exact ⟨[], x, rfl, ‹_›⟩
      · obtain ⟨pre, y, rfl, hy⟩ := ih h
        exact ⟨x :: pre, y, rfl, hy⟩

theorem afterKey_none [DecidableEq κ] {a : κ} {read : List α}
    (h : afterKey key a read = none) : a ∉ read.map key := by
  induction read with
  | nil => simp
  | cons x read ih =>
      unfold afterKey at h
      split at h
      · cases h
      · rename_i hne
        simpa [Ne.symm hne] using ih h

/-- Behind an item stand exactly the items beyond it. -/
theorem mem_afterKey [DecidableEq κ] (hirrefl : ∀ k, ¬ lt k k)
    (htrans : ∀ i j k, lt i j → lt j k → lt i k) {a : κ} {read rest : List α}
    (hsorted : Sorted lt key read) (h : afterKey key a read = some rest) {x : α} :
    x ∈ rest ↔ x ∈ read ∧ lt a (key x) := by
  obtain ⟨pre, y, rfl, rfl⟩ := afterKey_split h
  obtain ⟨-, hrest, hcross⟩ := List.pairwise_append.mp hsorted
  have hbehind := (List.pairwise_cons.mp hrest).1
  constructor
  · exact fun hx => ⟨by simp [hx], hbehind x hx⟩
  · rintro ⟨hx, hlt⟩
    rcases List.mem_append.mp hx with hx | hx
    · have hbefore := hcross x hx y List.mem_cons_self
      exact absurd (htrans _ _ _ hlt hbefore) (hirrefl _)
    · rcases List.mem_cons.mp hx with rfl | hx
      · exact absurd hlt (hirrefl _)
      · exact hx

theorem afterKey_sublist [DecidableEq κ] {a : κ} {read rest : List α}
    (h : afterKey key a read = some rest) : rest.Sublist read := by
  obtain ⟨pre, x, rfl, -⟩ := afterKey_split h
  exact (List.sublist_cons_self ..).trans (List.sublist_append_right ..)

/-- An item of a cut listing is on its page or beyond the last item of it. -/
theorem mem_take_or_beyond {l : List α} (h : Sorted lt key l) (n : ℕ) {x : α}
    (hx : x ∈ l) :
    x ∈ l.take n ∨ Beyond lt ((l.take n).getLast?.map key) (key x) := by
  rw [← List.take_append_drop n l] at hx h
  rcases List.mem_append.mp hx with hx | hx
  · exact Or.inl hx
  · right
    intro a ha
    obtain ⟨last, hlast, rfl⟩ := Option.map_eq_some_iff.mp ha
    exact (List.pairwise_append.mp h).2.2 last (List.mem_of_getLast? hlast) x hx

/-- Pages that go on beyond the cursor fit behind what was given up to it. -/
theorem Sorted.append (htrans : ∀ i j k, lt i j → lt j k → lt i k)
    {given page : List α} {after : Option κ} (hgiven : Sorted lt key given)
    (hpage : Sorted lt key page) (hbeyond : ∀ x ∈ page, Beyond lt after (key x))
    (hafter : ∀ x ∈ given, ∃ a, after = some a ∧ (key x = a ∨ lt (key x) a)) :
    Sorted lt key (given ++ page) := by
  refine List.pairwise_append.mpr ⟨hgiven, hpage, ?_⟩
  intro x hx y hy
  obtain ⟨a, ha, hle⟩ := hafter x hx
  have hlt := hbeyond y hy a ha
  rcases hle with rfl | hle
  · exact hlt
  · exact htrans _ _ _ hle hlt

/-- The keys up to the last item of a sorted list. -/
theorem Sorted.le_last {l : List α} (h : Sorted lt key l) {last : α}
    (hlast : l.getLast? = some last) {x : α} (hx : x ∈ l) :
    key x = key last ∨ lt (key x) (key last) := by
  obtain ⟨init, rfl⟩ := List.getLast?_eq_some_iff.mp hlast
  rcases List.mem_append.mp hx with hx | hx
  · exact Or.inr ((List.pairwise_append.mp h).2.2 x hx last (by simp))
  · exact Or.inl (by rw [List.mem_singleton.mp hx])

end RunnerKit.Lib.Paging
