import RunnerKit.Jobs.Model

/-!
# What `Feed` gives

`feed.rs`: an error that is not `Unreadable` ends the feed, and is given again by
every later call without asking the source.
-/

namespace RunnerKit.RunnerTransport

open RunnerKit.Jobs

def isUnreadable : Error → Bool
  | .unreadable _ => true
  | _ => false

variable {α : Type}

/-- The error that `Feed` keeps once it gives an event of its source. -/
def keepEnd (kept : Option Error) : Except Error α → Option Error
  | .ok _ => kept
  | .error error => if isUnreadable error then kept else some error

/-- A value, or the error of a single entry. -/
def Single (event : Except Error α) : Prop :=
  ∀ error, event = .error error → isUnreadable error = true

/-- Values and errors of single entries come first, and then nothing but the error
that ended the source. -/
def EndsWith (events : List (Except Error α)) (ended : Option Error) : Prop :=
  ∃ before after, events = before ++ after ∧ (∀ event ∈ before, Single event) ∧
    ∀ event ∈ after, ∃ error, ended = some error ∧ event = .error error

variable {events : List (Except Error α)} {ended : Option Error}

theorem EndsWith.nil : EndsWith ([] : List (Except Error α)) ended :=
  ⟨[], [], rfl, by simp, by simp⟩

/-- Before the source has ended nothing but single events was given. -/
theorem EndsWith.single (h : EndsWith events none) : ∀ event ∈ events, Single event := by
  obtain ⟨before, after, rfl, hbefore, hafter⟩ := h
  intro event hin
  rcases List.mem_append.mp hin with hin | hin
  · exact hbefore event hin
  · obtain ⟨error, hnone, -⟩ := hafter event hin
    cases hnone

theorem EndsWith.of_single (h : ∀ event ∈ events, Single event) : EndsWith events ended :=
  ⟨events, [], by simp, h, by simp⟩

theorem EndsWith.again (h : EndsWith events ended) {error : Error}
    (hended : ended = some error) : EndsWith (events ++ [.error error]) ended := by
  obtain ⟨before, after, rfl, hbefore, hafter⟩ := h
  refine ⟨before, after ++ [.error error], by simp, hbefore, ?_⟩
  intro event hin
  rcases List.mem_append.mp hin with hin | hin
  · exact hafter event hin
  · exact ⟨error, hended, List.mem_singleton.mp hin⟩

end RunnerKit.RunnerTransport
