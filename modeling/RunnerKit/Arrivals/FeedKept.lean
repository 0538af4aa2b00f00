import RunnerKit.Arrivals.Feed

/-!
# What the arrival feed keeps

The arrivals that the calls of `next` gave, with those in the buffer, are those
of the opening and of each thing that the raw feed gave, in order, wherever the
futures were dropped: dropping one loses nothing and repeats nothing. An error
ends the feed, and comes last.
-/

namespace RunnerKit.Arrivals.Feed

open RunnerKit.Jobs RunnerKit.Lib

variable {s s' : Sys}

/-! ## The order of what is given -/

/-- The entry of the event whose read is still to be made. -/
def pendingEntry (resolving : Option ItemArrived) : List Entry :=
  (resolving.map fun event => ⟨.ok event, none⟩).toList

/-- Nothing was given before the feed is open. -/
def Blank (s : Sys) : Prop :=
  s.buffer = [] ∧ s.resolving = none ∧ s.ended = none ∧ s.start = [] ∧ s.story = [] ∧
    s.results = []

structure Ordered (s : Sys) : Prop where
  /-- Before the feed is open nothing was given. -/
  blank : s.place.isOpen = false → Blank s
  /-- Only the last entry may wait for its read. -/
  story : ∃ past, s.story = past ++ pendingEntry s.resolving ∧
    ∀ entry ∈ past, entry.pending = none
  /-- Only the last entry may end the feed. -/
  ended : s.ended = s.story.getLast?.bind Entry.error ∧
    ∀ entry ∈ s.story.dropLast, entry.error = none
  fits : ∀ entry ∈ s.story, entry.fits = true
  given : s.given ++ s.buffer = s.start ++ s.story.flatMap Entry.arrivals
  results : ∃ errors : List Error, s.results = s.given.map .ok ++ errors.map .error ∧
    ∀ error ∈ errors, s.ended = some error
  closed : s.ended.isSome → s.buffer = [] ∧ s.resolving = none
  level : ∀ event, s.resolving = some event → isRunLevelNotice event = true
  reading : ∀ event, s.place = .reading event → s.buffer = [] ∧ s.resolving = some event
  waiting : s.place = .waiting → s.buffer = [] ∧ s.resolving = none ∧ s.ended = none

/-- What `Ordered` is about is the same. -/
structure Same (s s' : Sys) : Prop where
  buffer : s'.buffer = s.buffer
  resolving : s'.resolving = s.resolving
  ended : s'.ended = s.ended
  start : s'.start = s.start
  story : s'.story = s.story
  results : s'.results = s.results

theorem Same.blank (h : Same s s') (hblank : Blank s) : Blank s' := by
  obtain ⟨hbuffer, hresolving, hended, hstart, hstory, hresults⟩ := hblank
  exact ⟨h.buffer.trans hbuffer, h.resolving.trans hresolving, h.ended.trans hended,
    h.start.trans hstart, h.story.trans hstory, h.results.trans hresults⟩

theorem given_eq (h : s'.results = s.results) : s'.given = s.given := by
  unfold Sys.given
  rw [h]

theorem Ordered.same (h : Ordered s) (hsame : Same s s')
    (hblank : s'.place.isOpen = false → Blank s)
    (hreading : ∀ event, s'.place = .reading event → s.buffer = [] ∧ s.resolving = some event)
    (hwaiting : s'.place = .waiting → s.buffer = [] ∧ s.resolving = none ∧ s.ended = none) :
    Ordered s' where
  blank := fun hplace => hsame.blank (hblank hplace)
  story := by
    obtain ⟨past, hpast⟩ := h.story
    refine ⟨past, ?_⟩
    rw [hsame.story, hsame.resolving]
    exact hpast
  ended := by
    rw [hsame.story, hsame.ended]
    exact h.ended
  fits := by
    rw [hsame.story]
    exact h.fits
  given := by
    rw [given_eq hsame.results, hsame.buffer, hsame.start, hsame.story]
    exact h.given
  results := by
    rw [hsame.results, given_eq hsame.results, hsame.ended]
    exact h.results
  closed := by
    rw [hsame.ended, hsame.buffer, hsame.resolving]
    exact h.closed
  level := by
    rw [hsame.resolving]
    exact h.level
  reading := by
    rw [hsame.buffer, hsame.resolving]
    exact hreading
  waiting := by
    rw [hsame.buffer, hsame.resolving, hsame.ended]
    exact hwaiting

/-- The feed is at the place of an owner that does nothing, or of a turn. -/
theorem Ordered.goTo (h : Ordered s) (hsame : Same s s')
    (hplace : s'.place = .idle ∨ s'.place = .top) : Ordered s' := by
  refine h.same hsame ?_ ?_ ?_
  · rcases hplace with hplace | hplace <;> simp [hplace, Place.isOpen]
  · rcases hplace with hplace | hplace <;> simp [hplace]
  · rcases hplace with hplace | hplace <;> simp [hplace]

/-- What happens around the feed leaves it as it is. -/
theorem Ordered.around (h : Ordered s) (hsame : Same s s') (hplace : s'.place = s.place) :
    Ordered s' := by
  refine h.same hsame ?_ ?_ ?_
  · rw [hplace]
    exact h.blank
  · rw [hplace]
    exact h.reading
  · rw [hplace]
    exact h.waiting

theorem Blank.ordered (h : Blank s) (hreading : ∀ event, s.place ≠ .reading event) :
    Ordered s := by
  obtain ⟨hbuffer, hresolving, hended, hstart, hstory, hresults⟩ := h
  have hgiven : s.given = [] := by simp [Sys.given, hresults]
  refine ⟨fun _ => ⟨hbuffer, hresolving, hended, hstart, hstory, hresults⟩, ⟨[], ?_⟩, ?_, ?_, ?_,
    ⟨[], ?_⟩, ?_, ?_, ?_, fun _ => ⟨hbuffer, hresolving, hended⟩⟩
  · simp [hstory, hresolving, pendingEntry]
  · simp [hstory, hended]
  · simp [hstory]
  · simp [hgiven, hbuffer, hstart, hstory]
  · simp [hresults, hgiven]
  · simp [hended]
  · simp [hresolving]
  · exact fun event hplace => absurd hplace (hreading event)

theorem given_give_ok (arrival : Arrival) :
    (s.give (.ok arrival)).given = s.given ++ [arrival] := by
  simp [Sys.give, Sys.given, Except.toOption]

theorem given_give_error (error : Error) : (s.give (.error error)).given = s.given := by
  simp [Sys.give, Sys.given, Except.toOption]

/-- The feed gives its error, and nothing else any more. -/
theorem Ordered.giveError {error : Error} (h : Ordered s)
    (hended : s.ended = some error) : Ordered (s.give (.error error)) where
  blank := by simp [Sys.give, Place.isOpen]
  story := h.story
  ended := h.ended
  fits := h.fits
  given := by
    rw [given_give_error]
    exact h.given
  results := by
    obtain ⟨errors, hresults, herrors⟩ := h.results
    refine ⟨errors ++ [error], ?_, ?_⟩
    · rw [given_give_error]
      simp [Sys.give, hresults]
    · intro other hin
      rcases List.mem_append.mp hin with hin | hin
      · exact herrors other hin
      · rw [List.mem_singleton.mp hin]
        exact hended
  closed := h.closed
  level := h.level
  reading := by simp [Sys.give]
  waiting := by simp [Sys.give]

/-- While something is in the buffer no error was given. -/
theorem Ordered.results_ok (h : Ordered s) (hended : s.ended = none) :
    s.results = s.given.map .ok := by
  obtain ⟨errors, hresults, herrors⟩ := h.results
  cases errors with
  | nil => simpa using hresults
  | cons error later =>
      rw [hended] at herrors
      exact absurd (herrors error List.mem_cons_self) (by simp)

/-- A turn gives the next arrival of the buffer, or the error that ended the feed, or
goes on to its next await. -/
theorem Ordered.turn (h : Ordered s) : Ordered s.turn := by
  unfold Sys.turn
  split
  · rename_i arrival rest hbuffer
    have hended : s.ended = none := by
      cases hended : s.ended with
      | none => rfl
      | some error =>
          have hempty := (h.closed (by simp [hended])).1
          rw [hbuffer] at hempty
          cases hempty
    have hgiven : (({ s with buffer := rest } : Sys).give (.ok arrival)).given =
        s.given ++ [arrival] := given_give_ok arrival
    refine ⟨by simp [Sys.give, Place.isOpen], h.story, h.ended, h.fits, ?_, ⟨[], ?_⟩, ?_,
      h.level, by simp [Sys.give], by simp [Sys.give]⟩
    · have hold := h.given
      rw [hbuffer] at hold
      rw [hgiven, List.append_assoc]
      exact hold
    · rw [hgiven]
      simp [Sys.give, h.results_ok hended]
    · intro hsome
      have hnone : s.ended.isSome = true := hsome
      rw [hended] at hnone
      cases hnone
  · rename_i hbuffer
    split
    · rename_i error hended
      exact h.giveError hended
    · rename_i hended
      split
      · rename_i event hresolving
        refine h.same ⟨rfl, rfl, rfl, rfl, rfl, rfl⟩ ?_ ?_ ?_
        · simp [Place.isOpen]
        · intro other hplace
          cases hplace
          exact ⟨hbuffer, hresolving⟩
        · simp
      · rename_i hresolving
        refine h.same ⟨rfl, rfl, rfl, rfl, rfl, rfl⟩ ?_ ?_ ?_
        · simp [Place.isOpen]
        · simp
        · exact fun _ => ⟨hbuffer, hresolving, hended⟩

/-- The entry with an error is the last one, and its error ended the feed. -/
theorem Ordered.ended_eq (h : Ordered s) {entry : Entry} (hin : entry ∈ s.story) {error : Error}
    (herror : entry.error = some error) : s.ended = some error := by
  obtain ⟨hlast, hbefore⟩ := h.ended
  rcases List.eq_nil_or_concat' s.story with hempty | ⟨before, last, hstory⟩
  · rw [hempty] at hin
    cases hin
  · rw [hstory] at hin hlast hbefore
    rcases List.mem_append.mp hin with hin | hin
    · have hnone := hbefore entry (by simpa using hin)
      rw [herror] at hnone
      cases hnone
    · rw [List.mem_singleton.mp hin] at herror
      simpa [herror] using hlast

/-- While the feed goes on no entry ended it. -/
theorem Ordered.errors (h : Ordered s) (hended : s.ended = none) :
    ∀ entry ∈ s.story, entry.error = none := by
  intro entry hin
  cases herror : entry.error with
  | none => rfl
  | some error =>
      have hsome := h.ended_eq hin herror
      rw [hended] at hsome
      cases hsome

/-- What the raw feed gives is the next entry of the story. -/
theorem Ordered.hear (h : Ordered s) (hplace : s.place = .waiting) (raw : Raw) :
    Ordered (s.hear raw) := by
  obtain ⟨hbuffer, hresolving, hended⟩ := h.waiting hplace
  have hpast : ∀ entry ∈ s.story, entry.pending = none := by
    obtain ⟨past, hstory, hpending⟩ := h.story
    rw [hresolving] at hstory
    have hall : s.story = past := by simpa [pendingEntry] using hstory
    rw [hall]
    exact hpending
  have hgiven : s.given = s.start ++ s.story.flatMap Entry.arrivals := by
    have hold := h.given
    rwa [hbuffer, List.append_nil] at hold
  have herrors := h.errors hended
  have hresults := h.results_ok hended
  have hfits : ∀ entry ∈ s.story ++ [⟨raw, none⟩], entry.fits = true := by
    intro entry hin
    rcases List.mem_append.mp hin with hin | hin
    · exact h.fits entry hin
    · rw [List.mem_singleton.mp hin]
      rfl
  have hopen : ∀ value : Bool, s.ended.isSome = true → value = true := by
    intro value hsome
    rw [hended] at hsome
    cases hsome
  unfold Sys.hear
  cases raw with
  | ok event =>
      refine ⟨by simp [Place.isOpen], ?_, ?_, hfits, ?_, h.results, ?_, ?_, by simp, by simp⟩
      · by_cases hlevel : isRunLevelNotice event = true
        · exact ⟨s.story, by simp [Sys.record, hlevel, pendingEntry], hpast⟩
        · refine ⟨s.story ++ [⟨.ok event, none⟩], ?_, ?_⟩
          · simp [Sys.record, hlevel, hresolving, pendingEntry]
          · intro entry hin
            rcases List.mem_append.mp hin with hin | hin
            · exact hpast entry hin
            · rw [List.mem_singleton.mp hin]
              simp [Entry.pending, hlevel]
      · exact ⟨by simpa [Sys.record, Entry.error] using hended, by simpa [Sys.record] using herrors⟩
      · show s.given ++ (s.buffer ++ [.item event]) = _
        rw [hbuffer, hgiven]
        simp [Sys.record, Entry.arrivals]
      · intro hsome
        exact absurd (hopen false hsome) (by decide)
      · intro other
        by_cases hlevel : isRunLevelNotice event = true
        · simp only [hlevel, if_true, Option.some.injEq]
          rintro rfl
          exact hlevel
        · simp [hlevel, hresolving]
  | error error =>
      have hstory : ∃ past, s.story ++ [⟨.error error, none⟩] = past ++ pendingEntry s.resolving ∧
          ∀ entry ∈ past, entry.pending = none := by
        refine ⟨s.story ++ [⟨.error error, none⟩], by simp [hresolving, pendingEntry], ?_⟩
        intro entry hin
        rcases List.mem_append.mp hin with hin | hin
        · exact hpast entry hin
        · rw [List.mem_singleton.mp hin]
          rfl
      dsimp only
      split
      · rename_i hunreadable
        have hrecorded := given_give_ok (s := s.record (.error error)) (.unreadable none error)
        refine ⟨by simp [Sys.give, Place.isOpen], hstory, ?_, hfits, ?_, ⟨[], ?_⟩, ?_, ?_,
          by simp [Sys.give], by simp [Sys.give]⟩
        · refine ⟨?_, by simpa [Sys.give, Sys.record] using herrors⟩
          simpa [Sys.give, Sys.record, Entry.error, hunreadable] using hended
        · rw [hrecorded]
          show (s.given ++ [_]) ++ s.buffer = _
          rw [hbuffer, hgiven]
          simp [Sys.give, Sys.record, Entry.arrivals, hunreadable]
        · rw [hrecorded]
          refine ⟨?_, by simp⟩
          show s.results ++ [_] = _
          rw [hresults]
          simp [Sys.record, Sys.given]
        · intro hsome
          exact absurd (hopen false hsome) (by decide)
        · intro other hother
          have hsome : s.resolving = some other := hother
          rw [hresolving] at hsome
          cases hsome
      · rename_i hunreadable
        have hrecorded := given_give_error
          (s := ({ s.record (.error error) with ended := some error } : Sys)) error
        refine ⟨by simp [Sys.give, Place.isOpen], hstory, ?_, hfits, ?_, ⟨[error], ?_⟩, ?_, ?_,
          by simp [Sys.give], by simp [Sys.give]⟩
        · refine ⟨?_, by simpa [Sys.give, Sys.record] using herrors⟩
          simp [Sys.give, Sys.record, Entry.error, hunreadable]
        · rw [hrecorded]
          show s.given ++ s.buffer = _
          rw [hbuffer, hgiven]
          simp [Sys.give, Sys.record, Entry.arrivals, hunreadable]
        · rw [hrecorded]
          refine ⟨?_, by simp [Sys.give]⟩
          show s.results ++ [_] = _
          rw [hresults]
          simp [Sys.record, Sys.given]
        · exact fun _ => ⟨hbuffer, hresolving⟩
        · intro other hother
          have hsome : s.resolving = some other := hother
          rw [hresolving] at hsome
          cases hsome

/-- A read that ends the feed brings no arrivals. -/
theorem resolve_failed {event : ItemArrived} {reads : Except Error (List Read)}
    (h : (resolve event reads).2.isSome = true) : (resolve event reads).1 = [] := by
  unfold resolve at h ⊢
  split
  · simp at h
  · split <;> simp_all

/-- The read of the pending event ends, and its entry gets what it gave. -/
theorem Ordered.resolved {event : ItemArrived} (h : Ordered s) (hplace : s.place = .reading event)
    (reads : Except Error (List Read)) : Ordered (s.resolved event reads) := by
  obtain ⟨hbuffer, hresolving⟩ := h.reading event hplace
  have hended : s.ended = none := by
    cases hended : s.ended with
    | none => rfl
    | some error =>
        have hnone := (h.closed (by simp [hended])).2
        rw [hresolving] at hnone
        cases hnone
  have hlevel := h.level event hresolving
  have herrors := h.errors hended
  obtain ⟨past, hstory, hpast⟩ := h.story
  rw [hresolving] at hstory
  have hbefore : s.story.dropLast = past := by simp [hstory, pendingEntry]
  have hgiven : s.given = s.start ++ past.flatMap Entry.arrivals ++ [.item event] := by
    have hold := h.given
    rw [hbuffer, hstory] at hold
    simpa [pendingEntry, Entry.arrivals] using hold
  have hin : ∀ entry ∈ past, entry ∈ s.story := by
    intro entry hin
    rw [hstory]
    exact List.mem_append_left _ hin
  refine ⟨by simp [Sys.resolved, Place.isOpen], ?_, ?_, ?_, ?_, ?_, ?_, by simp [Sys.resolved],
    by simp [Sys.resolved], by simp [Sys.resolved]⟩
  · refine ⟨past ++ [⟨.ok event, some reads⟩], by simp [Sys.resolved, hbefore, pendingEntry], ?_⟩
    intro entry hentry
    rcases List.mem_append.mp hentry with hentry | hentry
    · exact hpast entry hentry
    · rw [List.mem_singleton.mp hentry]
      rfl
  · refine ⟨?_, ?_⟩
    · simp [Sys.resolved, hbefore, hended, Entry.error]
    · simpa [Sys.resolved, hbefore] using fun entry hentry => herrors entry (hin entry hentry)
  · intro entry hentry
    simp only [Sys.resolved, hbefore] at hentry
    rcases List.mem_append.mp hentry with hentry | hentry
    · exact h.fits entry (hin entry hentry)
    · rw [List.mem_singleton.mp hentry]
      exact hlevel
  · show s.given ++ (s.buffer ++ (resolve event reads).1) = _
    rw [hbuffer, hgiven]
    simp [Sys.resolved, hbefore, Entry.arrivals, live, hlevel]
  · obtain ⟨errors, hresults, hall⟩ := h.results
    refine ⟨errors, hresults, fun error hmem => ?_⟩
    have hsome := hall error hmem
    rw [hended] at hsome
    cases hsome
  · intro hsome
    have hfailed : (resolve event reads).2.isSome = true := by
      simpa [Sys.resolved, hended] using hsome
    refine ⟨?_, rfl⟩
    show s.buffer ++ (resolve event reads).1 = []
    rw [hbuffer, resolve_failed hfailed]
    rfl

/-! ## Every step -/

/-- A raw event of the feed is rung once, and heard in order. -/
def Heard (s : Sys) : Prop := s.rung = s.story.map Entry.raw ++ s.queue

theorem hear_heard {raw : Raw} {rest : List Raw} (h : Heard s) (hqueue : s.queue = raw :: rest) :
    Heard ({ s with queue := rest }.hear raw) := by
  unfold Heard at h ⊢
  cases raw with
  | ok event => simp [Sys.hear, Sys.record, h, hqueue]
  | error error =>
      unfold Sys.hear
      dsimp only
      split <;> simp [Sys.give, Sys.record, h, hqueue]

theorem turn_heard (h : Heard s) : Heard s.turn := by
  unfold Sys.turn
  split
  · exact h
  · split
    · exact h
    · split <;> exact h

/-- The feed opens with the replay of the unread items. -/
theorem Blank.opened (h : Blank s) (buffer : List Arrival) :
    Ordered { s with buffer := buffer, start := buffer, place := .idle } := by
  obtain ⟨-, hresolving, hended, -, hstory, hresults⟩ := h
  have hgiven : s.given = [] := by simp [Sys.given, hresults]
  refine ⟨by simp [Place.isOpen], ⟨[], ?_⟩, ?_, ?_, ?_, ⟨[], ?_⟩, ?_, ?_, by simp, by simp⟩
  · simp [hstory, hresolving, pendingEntry]
  · simp [hstory, hended]
  · simp [hstory]
  · show s.given ++ buffer = buffer ++ s.story.flatMap Entry.arrivals
    simp [hgiven, hstory]
  · show s.results = s.given.map Except.ok ++ _ ∧ _
    simp [hresults, hgiven]
  · simp [hended]
  · simp [hresolving]

theorem Ordered.step {e : Event} (h : Ordered s) (hs : s.step e = some s') : Ordered s' := by
  unfold Sys.step at hs
  cases e with
  | store item =>
      cases hs
      exact h.around ⟨rfl, rfl, rfl, rfl, rfl, rfl⟩ rfl
  | ring i =>
      obtain ⟨item, -, rfl⟩ := Option.map_eq_some_iff.mp hs
      dsimp only
      split
      · exact h.around ⟨rfl, rfl, rfl, rfl, rfl, rfl⟩ rfl
      · exact h.around ⟨rfl, rfl, rfl, rfl, rfl, rfl⟩ rfl
  | mark itemId =>
      cases hs
      exact h.around ⟨rfl, rfl, rfl, rfl, rfl, rfl⟩ rfl
  | raw raw =>
      dsimp only at hs
      split at hs <;> cases hs
      exact h.around ⟨rfl, rfl, rfl, rfl, rfl, rfl⟩ rfl
  | «open» =>
      dsimp only at hs
      split at hs <;> cases hs
      rename_i hclosed
      have hblank : Blank s := h.blank (by simp [hclosed, Place.isOpen])
      exact Blank.ordered hblank (by simp)
  | serve =>
      dsimp only at hs
      split at hs <;> cases hs
      exact h.around ⟨rfl, rfl, rfl, rfl, rfl, rfl⟩ rfl
  | opened failed =>
      dsimp only at hs
      split at hs
      · rename_i hopening
        have hblank : Blank s := h.blank (by simp [hopening, Place.isOpen])
        obtain ⟨reads, -, rfl⟩ := Option.map_eq_some_iff.mp hs
        split
        · exact hblank.opened _
        · exact Blank.ordered hblank (by simp)
      · cases hs
  | dropOpen =>
      dsimp only at hs
      split at hs <;> cases hs
      rename_i hopening
      have hblank : Blank s := h.blank (by simp [hopening, Place.isOpen])
      exact Blank.ordered hblank (by simp)
  | next =>
      dsimp only at hs
      split at hs <;> cases hs
      exact h.goTo ⟨rfl, rfl, rfl, rfl, rfl, rfl⟩ (Or.inr rfl)
  | step =>
      dsimp only at hs
      split at hs <;> cases hs
      exact h.turn
  | heard =>
      dsimp only at hs
      split at hs
      · rename_i raw rest hplace hqueue
        cases hs
        have hsame : Ordered { s with queue := rest } :=
          h.around ⟨rfl, rfl, rfl, rfl, rfl, rfl⟩ rfl
        exact hsame.hear hplace raw
      · cases hs
  | read failed =>
      dsimp only at hs
      split at hs
      · rename_i event hplace
        obtain ⟨reads, -, rfl⟩ := Option.map_eq_some_iff.mp hs
        exact h.resolved hplace reads
      · cases hs
  | drop =>
      dsimp only at hs
      split at hs <;> cases hs
      · exact h.goTo ⟨rfl, rfl, rfl, rfl, rfl, rfl⟩ (Or.inl rfl)
      · exact h.goTo ⟨rfl, rfl, rfl, rfl, rfl, rfl⟩ (Or.inl rfl)

/-- Rings reach the raw feed while it is open, and only its owner hears them. -/
theorem heard_step {e : Event} (h : Heard s) (hordered : Ordered s)
    (hs : s.step e = some s') : Heard s' := by
  unfold Sys.step at hs
  cases e with
  | ring i =>
      obtain ⟨item, -, rfl⟩ := Option.map_eq_some_iff.mp hs
      dsimp only
      split
      · exact h
      · simp [Heard, Sys.push, show s.rung = _ from h]
  | raw raw =>
      dsimp only at hs
      split at hs <;> cases hs
      simp [Heard, Sys.push, show s.rung = _ from h]
  | opened failed =>
      dsimp only at hs
      split at hs
      · rename_i hopening
        have hblank : Blank s := hordered.blank (by simp [hopening, Place.isOpen])
        obtain ⟨reads, -, rfl⟩ := Option.map_eq_some_iff.mp hs
        split
        · exact h
        · simp [Heard, hblank.2.2.2.2.1]
      · cases hs
  | dropOpen =>
      dsimp only at hs
      split at hs <;> cases hs
      rename_i hopening
      have hblank : Blank s := hordered.blank (by simp [hopening, Place.isOpen])
      simp [Heard, hblank.2.2.2.2.1]
  | step =>
      dsimp only at hs
      split at hs <;> cases hs
      exact turn_heard h
  | heard =>
      dsimp only at hs
      split at hs
      · rename_i raw rest hplace hqueue
        cases hs
        exact hear_heard h hqueue
      · cases hs
  | read failed =>
      dsimp only at hs
      split at hs
      · rename_i event hplace
        obtain ⟨reads, -, rfl⟩ := Option.map_eq_some_iff.mp hs
        obtain ⟨past, hstory, -⟩ := hordered.story
        rw [(hordered.reading event hplace).2] at hstory
        have hbefore : s.story.dropLast = past := by simp [hstory, pendingEntry]
        have hraws : s.story.map Entry.raw = past.map Entry.raw ++ [.ok event] := by
          simp [hstory, pendingEntry]
        simp [Heard, Sys.resolved, hbefore, show s.rung = _ from h, hraws]
      · cases hs
  | _ =>
      simp only at hs
      first
        | cases hs
          exact h
        | (split at hs <;> cases hs <;> exact h)

/-! ## Every reachable state -/

theorem ordered_of_reachable (h : machine.Reachable s) : Ordered s ∧ Heard s := by
  refine h.invariant (P := fun s => Ordered s ∧ Heard s) ?_ ?_
  · refine ⟨Blank.ordered ⟨rfl, rfl, rfl, rfl, rfl, rfl⟩ ?_, rfl⟩
    intro event hplace
    cases hplace
  · rintro s s' e ⟨hordered, hheard⟩ hs
    exact ⟨hordered.step hs, heard_step hheard hordered hs⟩

/-- What the calls of `next` gave, in every run of a feed and wherever its futures
were dropped. -/
structure FeedOrder (s : Sys) : Prop where
  /-- Each raw event is heard once and in order, and what it brings given after what
  came before it. -/
  raws : s.rung = s.story.map Entry.raw ++ s.queue
  given : s.given ++ s.buffer = s.start ++ s.story.flatMap Entry.arrivals
  /-- A read is made for a run-level notice alone, before the next event is heard. -/
  reads : ∀ entry ∈ s.story, entry.fits = true
  pending : ∀ entry ∈ s.story.dropLast, entry.pending = none
  /-- The feed ends once, and from then on gives its error, after all that it had. -/
  ended : s.ended = s.story.getLast?.bind Entry.error
  last : ∀ entry ∈ s.story.dropLast, entry.error = none
  results : ∃ errors : List Error, s.results = s.given.map .ok ++ errors.map .error ∧
    ∀ error ∈ errors, s.ended = some error ∧ s.buffer = []

theorem feed_order (h : machine.Reachable s) : FeedOrder s := by
  obtain ⟨hordered, hheard⟩ := ordered_of_reachable h
  refine ⟨hheard, hordered.given, hordered.fits, ?_, hordered.ended.1, hordered.ended.2, ?_⟩
  · obtain ⟨past, hstory, hpast⟩ := hordered.story
    intro entry hin
    cases hresolving : s.resolving with
    | none =>
        obtain hall : s.story = past := by simpa [hresolving, pendingEntry] using hstory
        rw [hall] at hin
        exact hpast entry (List.mem_of_mem_dropLast hin)
    | some event =>
        have hall : s.story.dropLast = past := by simp [hstory, hresolving, pendingEntry]
        rw [hall] at hin
        exact hpast entry hin
  · obtain ⟨errors, hresults, herrors⟩ := hordered.results
    refine ⟨errors, hresults, fun error hin => ⟨herrors error hin, ?_⟩⟩
    exact (hordered.closed (by simp [herrors error hin])).1

/-- The item of a completed sync call. -/
def completedItem : Item where
  event := { address := none, itemId := 5, kind := .callNotice }
  read := .item (.callNotice
    { itemId := 5, address := none, kind := .runCompleted, noticeType := none,
      childJobId := some 8, position := none, message := none, report := none,
      inline := some ⟨"text", []⟩, resultRef := none })

/-- The item is stored while the feed opens, and the read that is made for its ring is
dropped once and made again. -/
def droppedRun : List Event :=
  [.open, .serve, .store completedItem, .ring 0, .opened none, .next, .step, .heard, .step,
    .next, .step, .serve, .drop, .next, .step, .serve, .read none, .step]

theorem feed_order_droppedRun :
    ∃ s, machine.run droppedRun = some s ∧ FeedOrder s ∧
      s.results = [.ok (.item completedItem.event),
        .ok (.syncEnd 8 (.completed (some ⟨"text", []⟩) none))] :=
  ⟨_, rfl, feed_order (Machine.reachable_of_run droppedRun rfl), rfl⟩

end RunnerKit.Arrivals.Feed
