import RunnerKit.Arrivals.FeedKept

/-!
# No unread item is missed

An item that jobs stores while the feed opens may be in the replay, in a ring, or
in both. The invariant says of each unread item where it is to be found, and of
the read under way that it saw each unread item that is not on its way.
-/

namespace RunnerKit.Arrivals.Feed

open RunnerKit.Jobs RunnerKit.Lib

variable {s s' : Sys}

/-! ## Where an unread item is -/

/-- The entry is of the item's ring, and the read made for it, if one ended well,
gave the item. -/
def Entry.finds (item : Item) (entry : Entry) : Prop :=
  entry.raw = .ok item.event ∧ ∀ reads, entry.read = some (.ok reads) → item.read ∈ reads

/-- Where an unread item is: in the replay, or on its way, or in what the feed gave
for its ring. A replay whose read could not be read gives that alone. -/
inductive Covered (s : Sys) (item : Item) : Prop where
  | replayed (start : ∀ arrival ∈ replayed item.read, arrival ∈ s.start)
  | unreadable (error : Error) (start : s.start = [.unreadable none error])
  | stored (unrung : item ∈ s.unrung)
  | rung (queue : .ok item.event ∈ s.queue)
  | given (entry : Entry) (story : entry ∈ s.story) (finds : entry.finds item)

/-- An unread item that the read under way did not see is still to be heard of. -/
def Served (s : Sys) : Prop :=
  ∀ reads, s.seen = some reads → s.place.reads = true →
    ∀ item ∈ s.unread, item.read ∈ reads ∨ item ∈ s.unrung ∨ .ok item.event ∈ s.queue

structure Complete (s : Sys) : Prop where
  served : Served s
  covered : s.place.isOpen = true → ∀ item ∈ s.unread, Covered s item

theorem mem_eraseIdx {α : Type} {l : List α} {x y : α} {i : ℕ} (hx : x ∈ l)
    (hi : l[i]? = some y) : x = y ∨ x ∈ l.eraseIdx i := by
  obtain ⟨j, hj⟩ := List.mem_iff_getElem?.mp hx
  by_cases hij : j = i
  · subst hij
    exact Or.inl (Option.some.inj (hj.symm.trans hi))
  · exact Or.inr (List.mem_eraseIdx_iff_getElem?.mpr ⟨j, hij, hj⟩)

/-- The parts of a state that cover an item, as far as they only grow. -/
theorem Covered.mono {item : Item} (h : Covered s item) (hstart : s'.start = s.start)
    (hunrung : item ∈ s.unrung → item ∈ s'.unrung ∨ .ok item.event ∈ s'.queue)
    (hqueue : .ok item.event ∈ s.queue →
      .ok item.event ∈ s'.queue ∨ ∃ entry ∈ s'.story, entry.finds item)
    (hstory : ∀ entry ∈ s.story, entry.finds item →
      Covered s' item ∨ ∃ entry ∈ s'.story, entry.finds item) : Covered s' item := by
  cases h with
  | replayed start => exact .replayed (by rw [hstart]; exact start)
  | unreadable error start => exact .unreadable error (by rw [hstart]; exact start)
  | stored unrung =>
      rcases hunrung unrung with hin | hin
      · exact .stored hin
      · exact .rung hin
  | rung queue =>
      rcases hqueue queue with hin | ⟨entry, hin, hfinds⟩
      · exact .rung hin
      · exact .given entry hin hfinds
  | given entry story finds =>
      rcases hstory entry story finds with hcovered | ⟨entry', hin, hfinds⟩
      · exact hcovered
      · exact .given entry' hin hfinds

/-- What only adds to the unrung items, to the queue and to the story. -/
theorem Complete.mono (h : Complete s) (hstart : s'.start = s.start)
    (hplace : s'.place = s.place) (hseen : s'.seen = s.seen) (hstory : s'.story = s.story)
    (hqueue : ∀ raw ∈ s.queue, raw ∈ s'.queue)
    (hunread : ∀ item ∈ s'.unread, item ∈ s.unread ∨ item ∈ s'.unrung)
    (hunrung : ∀ item ∈ s.unrung, s.place ≠ .closed →
      item ∈ s'.unrung ∨ .ok item.event ∈ s'.queue) : Complete s' where
  served := by
    intro reads hreads hplace' item hin
    rw [hseen] at hreads
    rw [hplace] at hplace'
    have hopen : s.place ≠ .closed := by
      rintro hclosed
      rw [hclosed] at hplace'
      cases hplace'
    rcases hunread item hin with hin | hin
    · rcases h.served reads hreads hplace' item hin with hread | hin | hin
      · exact Or.inl hread
      · exact Or.inr (hunrung item hin hopen)
      · exact Or.inr (Or.inr (hqueue _ hin))
    · exact Or.inr (Or.inl hin)
  covered := by
    intro hplace' item hin
    rw [hplace] at hplace'
    have hopen : s.place ≠ .closed := by
      rintro hclosed
      rw [hclosed] at hplace'
      cases hplace'
    rcases hunread item hin with hin | hin
    · refine (h.covered hplace' item hin).mono hstart (fun h => hunrung item h hopen)
        (fun h => Or.inl (hqueue _ h)) fun entry hentry hfinds => Or.inr ⟨entry, ?_, hfinds⟩
      rw [hstory]
      exact hentry
    · exact .stored hin

/-- The feed goes to another place where no read is under way. -/
theorem Complete.goTo (h : Complete s) (hopen : s.place.isOpen = true)
    (hstart : s'.start = s.start) (hstory : s'.story = s.story) (hqueue : s'.queue = s.queue)
    (hunread : s'.unread = s.unread) (hunrung : s'.unrung = s.unrung)
    (hreads : s'.place.reads = true → s'.seen = none) : Complete s' where
  served := by
    intro reads hseen hplace
    rw [hreads hplace] at hseen
    cases hseen
  covered := by
    intro _ item hin
    rw [hunread] at hin
    refine (h.covered hopen item hin).mono hstart ?_ ?_ ?_
    · rw [hunrung]
      exact Or.inl
    · rw [hqueue]
      exact Or.inl
    · rw [hstory]
      exact fun entry hentry hfinds => Or.inr ⟨entry, hentry, hfinds⟩

theorem Complete.closed (hplace : s.place.isOpen = false) (hseen : s.seen = none ∨
    s.place.reads = false) : Complete s where
  served := by
    intro reads hreads hplace'
    rcases hseen with hseen | hseen
    · rw [hseen] at hreads
      cases hreads
    · rw [hseen] at hplace'
      cases hplace'
  covered := by
    intro hopen
    rw [hplace] at hopen
    cases hopen

theorem mem_replay {read : Read} {reads : List Read} (h : read ∈ reads) :
    ∀ arrival ∈ replayed read, arrival ∈ replay reads :=
  fun _ hin => List.mem_flatMap.mpr ⟨read, h, hin⟩

theorem reads_served {reads : Except Error (List Read)} (h : s.reads none = some reads) :
    ∃ seen, s.seen = some seen ∧ reads = .ok seen := by
  obtain ⟨seen, hseen, heq⟩ := Option.map_eq_some_iff.mp h
  exact ⟨seen, hseen, heq.symm⟩

/-- The replay brings what its read saw. -/
theorem Complete.opened {failed : Option Error} {reads : Except Error (List Read)}
    {buffer : List Arrival} (h : Complete s) (hplace : s.place = .opening)
    (hreads : s.reads failed = some reads) (hbuffer : fromRaw reads = .ok buffer) :
    Complete { s with buffer := buffer, start := buffer, place := .idle } where
  served := by
    intro _ _ hplace'
    cases hplace'
  covered := by
    intro _ item hin
    cases failed with
    | some error =>
        obtain rfl : Except.error error = reads := by simpa [Sys.reads] using hreads
        simp only [fromRaw] at hbuffer
        split at hbuffer <;> cases hbuffer
        exact .unreadable error rfl
    | none =>
        obtain ⟨seen, hseen, rfl⟩ := reads_served hreads
        obtain rfl : replay seen = buffer := by simpa [fromRaw] using hbuffer
        rcases h.served seen hseen (by rw [hplace]; rfl) item hin with hread | hin | hin
        · exact .replayed (mem_replay hread)
        · exact .stored hin
        · exact .rung hin

/-- What is heard leaves the queue for the story. -/
theorem Complete.hear {raw : Raw} {rest : List Raw} (h : Complete s)
    (hplace : s.place = .waiting) (hqueue : s.queue = raw :: rest) :
    Complete ({ s with queue := rest }.hear raw) := by
  have hcovered : ∀ item ∈ s.unread, ∀ s' : Sys, s'.start = s.start → s'.queue = rest →
      s'.unrung = s.unrung → s'.story = s.story ++ [⟨raw, none⟩] → Covered s' item := by
    intro item hin s' hstart hqueue' hunrung hstory
    refine (h.covered (by rw [hplace]; rfl) item hin).mono hstart ?_ ?_ ?_
    · rw [hunrung]
      exact Or.inl
    · rw [hqueue, hqueue', hstory]
      intro hring
      rcases List.mem_cons.mp hring with hraw | hring
      · refine Or.inr ⟨⟨raw, none⟩, List.mem_append_right _ List.mem_cons_self, hraw.symm, ?_⟩
        intro reads hreads
        cases hreads
      · exact Or.inl hring
    · rw [hstory]
      exact fun entry hentry hfinds => Or.inr ⟨entry, List.mem_append_left _ hentry, hfinds⟩
  unfold Sys.hear
  cases raw with
  | ok event =>
      refine ⟨?_, fun _ item hin => hcovered item hin _ rfl rfl rfl rfl⟩
      intro _ _ hplace'
      cases hplace'
  | error error =>
      dsimp only
      split
      · refine ⟨?_, fun _ item hin => hcovered item hin _ rfl rfl rfl rfl⟩
        intro _ _ hplace'
        cases hplace'
      · refine ⟨?_, fun _ item hin => hcovered item hin _ rfl rfl rfl rfl⟩
        intro _ _ hplace'
        cases hplace'

/-- The read of the pending event saw each unread item that is not on its way. -/
theorem Complete.resolved {event : ItemArrived} {failed : Option Error}
    {reads : Except Error (List Read)} (h : Complete s) (hordered : Ordered s)
    (hplace : s.place = .reading event) (hreads : s.reads failed = some reads) :
    Complete (s.resolved event reads) where
  served := by
    intro _ _ hplace'
    cases hplace'
  covered := by
    intro _ item hin
    obtain ⟨past, hstory, -⟩ := hordered.story
    rw [(hordered.reading event hplace).2] at hstory
    have hbefore : s.story.dropLast = past := by simp [hstory, pendingEntry]
    have hstory' : (s.resolved event reads).story = past ++ [⟨.ok event, some reads⟩] := by
      simp [Sys.resolved, hbefore]
    refine (h.covered (by rw [hplace]; rfl) item hin).mono rfl Or.inl Or.inl ?_
    intro entry hentry hfinds
    rw [hstory] at hentry
    rw [hstory']
    rcases List.mem_append.mp hentry with hentry | hentry
    · exact Or.inr ⟨entry, List.mem_append_left _ hentry, hfinds⟩
    · obtain rfl : entry = ⟨.ok event, none⟩ := by simpa [pendingEntry] using hentry
      cases failed with
      | some error =>
          obtain rfl : Except.error error = reads := by simpa [Sys.reads] using hreads
          refine Or.inr ⟨_, List.mem_append_right _ List.mem_cons_self, hfinds.1, ?_⟩
          intro _ hread
          cases hread
      | none =>
          obtain ⟨seen, hseen, rfl⟩ := reads_served hreads
          rcases h.served seen hseen (by rw [hplace]; rfl) item hin with hread | hin | hin
          · refine Or.inr ⟨_, List.mem_append_right _ List.mem_cons_self, hfinds.1, ?_⟩
            intro _ heq
            cases heq
            exact hread
          · exact Or.inl (.stored hin)
          · exact Or.inl (.rung hin)

theorem Complete.turn (h : Complete s) (hplace : s.place = .top) : Complete s.turn := by
  have hopen : s.place.isOpen = true := by rw [hplace]; rfl
  unfold Sys.turn
  split
  · exact h.goTo hopen rfl rfl rfl rfl rfl (fun hreads => by cases hreads)
  · split
    · exact h.goTo hopen rfl rfl rfl rfl rfl (fun hreads => by cases hreads)
    · split
      · exact h.goTo hopen rfl rfl rfl rfl rfl fun _ => rfl
      · exact h.goTo hopen rfl rfl rfl rfl rfl (fun hreads => by cases hreads)

theorem Complete.step {e : Event} (h : Complete s) (hordered : Ordered s)
    (hs : s.step e = some s') : Complete s' := by
  unfold Sys.step at hs
  cases e with
  | store item =>
      cases hs
      refine h.mono rfl rfl rfl rfl (fun _ hin => hin) ?_ ?_
      · intro other hin
        rcases List.mem_append.mp hin with hin | hin
        · exact Or.inl hin
        · exact Or.inr (List.mem_append_right _ hin)
      · exact fun other hin _ => Or.inl (List.mem_append_left _ hin)
  | ring i =>
      obtain ⟨item, hitem, rfl⟩ := Option.map_eq_some_iff.mp hs
      dsimp only
      split
      · rename_i hclosed
        exact h.mono rfl rfl rfl rfl (fun _ hin => hin) (fun _ hin => Or.inl hin)
          fun _ _ hopen => absurd hclosed hopen
      · refine h.mono rfl rfl rfl rfl (fun _ hin => List.mem_append_left _ hin)
          (fun _ hin => Or.inl hin) ?_
        -- the item that is rung for goes to the queue
        intro other hin _
        rcases mem_eraseIdx hin hitem with rfl | hin
        · exact Or.inr (List.mem_append_right _ List.mem_cons_self)
        · exact Or.inl hin
  | mark itemId =>
      cases hs
      exact h.mono rfl rfl rfl rfl (fun _ hin => hin)
        (fun _ hin => Or.inl (List.mem_of_mem_filter hin)) fun _ hin _ => Or.inl hin
  | raw raw =>
      dsimp only at hs
      split at hs <;> cases hs
      exact h.mono rfl rfl rfl rfl (fun _ hin => List.mem_append_left _ hin)
        (fun _ hin => Or.inl hin) fun _ hin _ => Or.inl hin
  | «open» =>
      dsimp only at hs
      split at hs <;> cases hs
      exact .closed rfl (Or.inl rfl)
  | serve =>
      dsimp only at hs
      split at hs <;> cases hs
      refine ⟨?_, fun hopen item hin => (h.covered hopen item hin).mono rfl Or.inl Or.inl ?_⟩
      · intro reads hreads _ item hin
        cases hreads
        exact Or.inl (List.mem_map_of_mem hin)
      · exact fun entry hentry hfinds => Or.inr ⟨entry, hentry, hfinds⟩
  | opened failed =>
      dsimp only at hs
      split at hs
      · rename_i hopening
        obtain ⟨reads, hreads, rfl⟩ := Option.map_eq_some_iff.mp hs
        split
        · rename_i hbuffer
          exact h.opened hopening hreads hbuffer
        · exact .closed rfl (Or.inr rfl)
      · cases hs
  | dropOpen =>
      dsimp only at hs
      split at hs <;> cases hs
      exact .closed rfl (Or.inr rfl)
  | next =>
      dsimp only at hs
      split at hs <;> cases hs
      rename_i hidle
      exact h.goTo (by rw [hidle]; rfl) rfl rfl rfl rfl rfl (fun hreads => by cases hreads)
  | step =>
      dsimp only at hs
      split at hs <;> cases hs
      rename_i htop
      exact h.turn htop
  | heard =>
      dsimp only at hs
      split at hs
      · rename_i raw rest hplace hqueue
        cases hs
        exact h.hear hplace hqueue
      · cases hs
  | read failed =>
      dsimp only at hs
      split at hs
      · rename_i event hplace
        obtain ⟨reads, hreads, rfl⟩ := Option.map_eq_some_iff.mp hs
        exact h.resolved hordered hplace hreads
      · cases hs
  | drop =>
      dsimp only at hs
      split at hs
      · rename_i hplace
        cases hs
        exact h.goTo (by rw [hplace]; rfl) rfl rfl rfl rfl rfl (fun hreads => by cases hreads)
      · rename_i hplace
        cases hs
        exact h.goTo (by rw [hplace]; rfl) rfl rfl rfl rfl rfl (fun hreads => by cases hreads)
      · cases hs

/-! ## Every reachable state -/

end RunnerKit.Arrivals.Feed
