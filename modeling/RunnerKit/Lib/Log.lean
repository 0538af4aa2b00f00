import Mathlib

/-!
# Statements about the order of a log

A log only grows at its end. `Always Q log` says of every entry that `Q` held
of the entries before it and of the entry itself, so a statement about order
("nothing of this kind stands before that") is proved one appended entry at a
time. `since p log` is what was logged after the last entry of a kind.
-/

namespace RunnerKit.Lib

variable {α : Type*} {Q : List α → α → Prop}

/-- `Q` holds of each entry of the log and the entries before it. -/
def Always (Q : List α → α → Prop) (log : List α) : Prop :=
  ∀ pre x post, log = pre ++ x :: post → Q pre x

theorem always_nil : Always Q [] := by
  intro pre x post h
  simp at h

theorem Always.of_append {log rest : List α} (h : Always Q (log ++ rest)) :
    Always Q log := by
  intro pre x post hlog
  exact h pre x (post ++ rest) (by simp [hlog])

theorem Always.last {log : List α} {x : α} (h : Always Q (log ++ [x])) :
    Q log x :=
  h log x [] rfl

theorem always_snoc {log : List α} {x : α} :
    Always Q (log ++ [x]) ↔ Always Q log ∧ Q log x := by
  constructor
  · intro h
    exact ⟨h.of_append, h.last⟩
  · rintro ⟨hlog, hx⟩ pre y post h
    -- the entry is the appended one, or stands in the log before it
    rcases List.eq_nil_or_concat post with rfl | ⟨post', z, rfl⟩
    · obtain ⟨rfl, hxy⟩ := List.append_inj' h rfl
      cases hxy
      exact hx
    · have h' : log ++ [x] = (pre ++ y :: post') ++ [z] := by simpa using h
      obtain ⟨rfl, -⟩ := List.append_inj' h' rfl
      exact hlog pre y post' rfl

/-- Entries of which `Q` holds behind any log may be appended. -/
theorem always_append {log more : List α} (h : Always Q log)
    (hmore : ∀ x ∈ more, ∀ pre, Q pre x) : Always Q (log ++ more) := by
  induction more using List.reverseRecOn with
  | nil => simpa using h
  | append_singleton more x ih =>
      rw [← List.append_assoc, always_snoc]
      exact ⟨ih fun y hy => hmore y (List.mem_append_left _ hy), hmore x (by simp) _⟩

theorem Always.mono {Q' : List α → α → Prop} {log : List α}
    (h : Always Q log) (hq : ∀ pre x, Q pre x → Q' pre x) : Always Q' log :=
  fun pre x post hlog => hq pre x (h pre x post hlog)

/-! ## The part of a log after the last entry of a kind -/

/-- The entries after the last one that meets `p`; all of them if none does. -/
def since (p : α → Bool) (log : List α) : List α :=
  log.foldl (fun kept x => if p x then [] else kept ++ [x]) []

theorem since_snoc (p : α → Bool) (log : List α) (x : α) :
    since p (log ++ [x]) = if p x then [] else since p log ++ [x] := by
  simp [since]

theorem mem_of_mem_since {p : α → Bool} {log : List α} {x : α}
    (h : x ∈ since p log) : x ∈ log := by
  induction log using List.reverseRecOn with
  | nil => exact h
  | append_singleton log y ih =>
      rw [since_snoc] at h
      split_ifs at h
      · cases h
      · rcases List.mem_append.mp h with h | h
        · exact List.mem_append_left _ (ih h)
        · exact List.mem_append_right _ h

/-- The entries up to the last one that meets `p`, this one with them. -/
def upto (p : α → Bool) (log : List α) : List α := log.rdropWhile fun x => !p x

theorem upto_snoc (p : α → Bool) (log : List α) (x : α) :
    upto p (log ++ [x]) = if p x then log ++ [x] else upto p log := by
  simp only [upto, List.rdropWhile_concat]
  by_cases h : p x <;> simp [h]

/-- A log falls into the entries up to the last one of a kind and those behind
it. -/
theorem mem_upto_or_since {p : α → Bool} {log : List α} {x : α} (h : x ∈ log) :
    x ∈ upto p log ∨ x ∈ since p log := by
  induction log using List.reverseRecOn with
  | nil => cases h
  | append_singleton log y ih =>
      rw [upto_snoc, since_snoc]
      split
      · exact Or.inl h
      · rcases List.mem_append.mp h with h | h
        · rcases ih h with h | h
          · exact Or.inl h
          · exact Or.inr (List.mem_append_left _ h)
        · exact Or.inr (List.mem_append_right _ h)

theorem since_append {p : α → Bool} {log more : List α} (h : ∀ x ∈ more, p x = false) :
    since p (log ++ more) = since p log ++ more := by
  induction more using List.reverseRecOn with
  | nil => simp
  | append_singleton more x ih =>
      rw [← List.append_assoc, since_snoc, ih fun y hy => h y (List.mem_append_left _ hy)]
      simp [h x (by simp)]

theorem mem_since {p : α → Bool} {log : List α} {x : α} :
    x ∈ since p log ↔ ∃ pre post, log = pre ++ x :: post ∧ ∀ y ∈ x :: post, p y = false := by
  constructor
  · intro h
    induction log using List.reverseRecOn with
    | nil => cases h
    | append_singleton log y ih =>
        rw [since_snoc] at h
        split at h
        · cases h
        · rename_i hy
          rw [Bool.not_eq_true] at hy
          rcases List.mem_append.mp h with h | h
          · obtain ⟨pre, post, rfl, hpost⟩ := ih h
            refine ⟨pre, post ++ [y], by simp, fun z hz => ?_⟩
            rcases List.mem_append.mp (List.cons_append ▸ hz) with hz | hz
            · exact hpost z hz
            · exact List.mem_singleton.mp hz ▸ hy
          · cases List.mem_singleton.mp h
            exact ⟨log, [], rfl, by simpa using hy⟩
  · rintro ⟨pre, post, rfl, hpost⟩
    rw [since_append hpost]
    exact List.mem_append_right _ List.mem_cons_self

/-- What stands behind the last entry of a kind splits the log there. -/
theorem split_of_mem_since {p : α → Bool} {log : List α} {x : α} (h : x ∈ since p log) :
    ∃ pre post, log = pre ++ x :: post ∧ upto p pre = upto p log := by
  induction log using List.reverseRecOn with
  | nil => cases h
  | append_singleton log y ih =>
      rw [since_snoc] at h
      split at h
      · cases h
      · rename_i hy
        rw [Bool.not_eq_true] at hy
        have hupto : upto p (log ++ [y]) = upto p log := by simp [upto_snoc, hy]
        rcases List.mem_append.mp h with h | h
        · obtain ⟨pre, post, rfl, heq⟩ := ih h
          exact ⟨pre, post ++ [y], by simp, by rw [heq, hupto]⟩
        · cases List.mem_singleton.mp h
          exact ⟨log, [], rfl, hupto.symm⟩

/-! ## What a log says last -/

section Said

variable {β : Type*} {f : α → Option (Option β)}

/-- Each entry sets the value, clears it (`some none`) or says nothing of it (`none`). -/
def said (f : α → Option (Option β)) (log : List α) : Option β :=
  log.foldl (fun value x => (f x).getD value) none

theorem said_snoc (f : α → Option (Option β)) (log : List α) (x : α) :
    said f (log ++ [x]) = (f x).getD (said f log) := by
  simp only [said, List.foldl_append, List.foldl_cons, List.foldl_nil]

/-- Entries that say nothing may be appended. -/
theorem said_append {log more : List α} (h : ∀ x ∈ more, f x = none) :
    said f (log ++ more) = said f log := by
  induction more using List.reverseRecOn with
  | nil => rw [List.append_nil]
  | append_singleton more x ih =>
      rw [← List.append_assoc, said_snoc, h x (by simp)]
      exact ih fun y hy => h y (List.mem_append_left _ hy)

end Said

end RunnerKit.Lib
