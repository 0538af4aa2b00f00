import RunnerKit.InboxPort.WaitsKept

/-!
# An item is marked once

The mark of an item is taken once under the lock of the inbox, so one call holds
its marker. What a call marks was listed, and what is listed was converted from an
item of a page that is given.
-/

namespace RunnerKit.InboxPort.Waiting

open RunnerKit.Jobs RunnerKit.Lib

variable {s s' : Sys} {w : ℕ} {x : Wait} {more : List Obs}

/-! ## Pages in the log -/

def Obs.ofListing : Obs → Option ℕ
  | .cut c _ _ | .gave c _ _ => some c
  | _ => none

def Obs.cutOf (c : ℕ) : Obs → Option (List UnreadItem)
  | .cut d _ page => if d = c then some page else none
  | _ => none

/-- The page that the listing has cut last. -/
def lastCut (c : ℕ) (log : List Obs) : Option (List UnreadItem) :=
  (log.filterMap (Obs.cutOf c)).getLast?

@[simp] theorem lastCut_cut (c : ℕ) (log : List Obs) (agent : Uuid)
    (page : List UnreadItem) : lastCut c (log ++ [.cut c agent page]) = some page := by
  simp [lastCut, Obs.cutOf]

theorem lastCut_append {c : ℕ} {log : List Obs}
    (h : ∀ obs ∈ more, obs.cutOf c = none) : lastCut c (log ++ more) = lastCut c log := by
  have hnone : more.filterMap (Obs.cutOf c) = [] := List.filterMap_eq_nil_iff.mpr h
  simp [lastCut, hnone]

theorem cutOf_none {obs : Obs} {c : ℕ} (h : obs.ofListing ≠ some c) :
    obs.cutOf c = none := by
  cases obs with
  | cut d agent page => simpa [Obs.cutOf, Obs.ofListing] using h
  | _ => rfl

end RunnerKit.InboxPort.Waiting

/-! ## A listing call -/

namespace RunnerKit.InboxPort

/-- The page that the call has cut. -/
def Place.cut : Place → Option Cut
  | .converting cut | .keeping cut | .recording cut _ => some cut
  | _ => none

end RunnerKit.InboxPort

namespace RunnerKit.InboxPort.Waiting

open RunnerKit.Jobs RunnerKit.Lib

/-- The call of the listing gives the item: it recorded its page and gives it at
once. -/
def Giving (s : Sys) (agent : Uuid) (u : UnreadItem) : Prop :=
  ∃ c l cut rest, s.port.listings c = some l ∧ l.agent = agent ∧
    l.place = .recording cut rest ∧ u ∈ cut.page

/-- A listing of the agent gave the item out. -/
def GivenOut (s : Sys) (agent : Uuid) (u : UnreadItem) : Prop :=
  (∃ c page, .gave c agent page ∈ s.log ∧ u ∈ page) ∨ Giving s agent u

structure ListingsOk (s : Sys) : Prop where
  fresh : ∀ c, s.port.nextListing ≤ c → s.port.listings c = none
  cuts : ∀ c l cut, s.port.listings c = some l → l.place.cut = some cut →
    lastCut c s.log = some cut.page
  recording : ∀ c l cut rest, s.port.listings c = some l →
    l.place = .recording cut rest → ∀ u ∈ rest, u ∈ cut.page
  listed : ∀ agent e entry, s.port.inbox.listed agent e = some entry →
    ∃ u, convert u = (e, entry) ∧ GivenOut s agent u

variable {s s' : Sys} {more : List Obs}

/-! ## Steps beside a listing -/

/-- What a step that is not one of a listing does to the listings. -/
structure BesideListings (s s' : Sys) (more : List Obs) : Prop where
  log : s'.log = s.log ++ more
  quiet : ∀ obs ∈ more, obs.ofListing = none
  listings : s'.port.listings = s.port.listings
  next : s'.port.nextListing = s.port.nextListing
  listed : s'.port.inbox.listed = s.port.inbox.listed

theorem step_beside_listings {e : Event} (hs : s.step e = some s')
    (hne : ∀ event, e ≠ .listing event) : ∃ more, BesideListings s s' more ∧
      (e.ofWait = none → ∀ w agent, .returned w agent (.ok ()) ∉ more) := by
  have silent : ∀ {t : Sys}, t.log = s.log → t.port.listings = s.port.listings →
      t.port.nextListing = s.port.nextListing → t.port.inbox.listed = s.port.inbox.listed →
      ∃ more, BesideListings s t more ∧
        (e.ofWait = none → ∀ w agent, .returned w agent (.ok ()) ∉ more) :=
    fun h1 h2 h3 h4 => ⟨[], ⟨by simpa using h1, by simp, h2, h3, h4⟩, by simp⟩
  cases hof : e.ofWait with
  | some v =>
      obtain ⟨x, x', more, -, rfl, hmore⟩ := own_step hof hs
      refine ⟨more, ⟨rfl, fun obs hobs => ?_, rfl, rfl, rfl⟩, by simp⟩
      have hown := hmore.own obs hobs
      cases obs <;> first | rfl | cases hown
  | none =>
      cases e with
      | listing event => exact absurd rfl (hne event)
      | markStep c =>
          obtain ⟨call, -, hs⟩ := Option.bind_eq_some_iff.mp hs
          unfold Sys.markStep at hs
          split at hs
          · cases hs
            exact silent rfl rfl rfl rfl
          · split at hs
            · cases hs
              exact silent rfl rfl rfl rfl
            · cases hs
              exact ⟨_, ⟨rfl, by simp [Obs.ofListing], rfl, rfl, rfl⟩, by simp⟩
          · cases hs
            exact ⟨_, ⟨rfl, by simp [Obs.ofListing], rfl, rfl, rfl⟩, by simp⟩
          · cases hs
      | markRead agent entryId lookup =>
          simp only [Sys.step, Option.ite_none_right_eq_some, Option.some.injEq] at hs
          obtain ⟨-, rfl⟩ := hs
          unfold Sys.markRead
          split <;> exact silent rfl rfl rfl rfl
      | agent agent =>
          simp only [Sys.step, Option.ite_none_right_eq_some, Option.some.injEq] at hs
          obtain ⟨-, rfl⟩ := hs
          exact silent rfl rfl rfl rfl
      | registrationEnded agent =>
          simp only [Sys.step, Option.ite_none_right_eq_some, Option.some.injEq] at hs
          obtain ⟨-, rfl⟩ := hs
          exact ⟨_, ⟨rfl, by simp [Obs.ofListing], rfl, rfl, rfl⟩, by simp⟩
      | arrival event =>
          simp only [Sys.step, Option.ite_none_right_eq_some, Option.some.injEq] at hs
          obtain ⟨-, rfl⟩ := hs
          cases event with
          | item item =>
              cases haddress : item.address with
              | none => apply silent <;> simp [Sys.arrival, haddress]
              | some address =>
                  refine ⟨[.doorbell address item.itemId],
                    ⟨?_, by simp [Obs.ofListing], ?_, ?_, ?_⟩, by simp⟩ <;>
                    simp [Sys.arrival, haddress, Sys.wake]
          | syncEnd child ended => exact silent rfl rfl rfl rfl
          | unreadable child error => cases child <;> exact silent rfl rfl rfl rfl
      | arrivalEnded error =>
          simp only [Sys.step, Option.ite_none_right_eq_some, Option.some.injEq] at hs
          obtain ⟨-, rfl⟩ := hs
          unfold Sys.arrivalEnded
          split
          · exact silent rfl rfl rfl rfl
          · exact ⟨_, ⟨rfl, by simp [Obs.ofListing], rfl, rfl, rfl⟩, by simp⟩
      | wakeAll i =>
          obtain ⟨error, -, rfl⟩ := Option.map_eq_some_iff.mp hs
          exact silent rfl rfl rfl rfl
      | arrivalOpenAgain =>
          simp only [Sys.step, Option.ite_none_right_eq_some, Option.some.injEq] at hs
          obtain ⟨-, rfl⟩ := hs
          exact ⟨_, ⟨rfl, by simp [Obs.ofListing], rfl, rfl, rfl⟩, by simp⟩
      | dropBook =>
          simp only [Sys.step, Option.ite_none_right_eq_some, Option.some.injEq] at hs
          obtain ⟨-, rfl⟩ := hs
          exact ⟨_, ⟨rfl, by simp [Obs.ofListing], rfl, rfl, rfl⟩, by simp⟩
      | wait agent lookup =>
          simp only [Sys.step, Option.ite_none_right_eq_some, Option.some.injEq] at hs
          obtain ⟨-, rfl⟩ := hs
          unfold Sys.wait
          dsimp only
          split
          · exact silent rfl rfl rfl rfl
          · exact ⟨_, ⟨rfl, by simp [Obs.ofListing], rfl, rfl, rfl⟩, by simp⟩
      | waitStep v => cases hof
      | readDone v result => cases hof
      | woken v => cases hof
      | registered v => cases hof
      | dropWait v => cases hof

theorem GivenOut.beside {agent : Uuid} {u : UnreadItem} (h : GivenOut s agent u)
    (hb : BesideListings s s' more) : GivenOut s' agent u := by
  rcases h with ⟨c, page, hin, hu⟩ | ⟨c, l, cut, rest, hl, hrest⟩
  · refine Or.inl ⟨c, page, ?_, hu⟩
    rw [hb.log]
    exact List.mem_append_left _ hin
  · refine Or.inr ⟨c, l, cut, rest, ?_, hrest⟩
    rw [hb.listings]
    exact hl

theorem ListingsOk.beside (h : ListingsOk s) (hb : BesideListings s s' more) :
    ListingsOk s' where
  fresh := by
    rw [hb.next, hb.listings]
    exact h.fresh
  cuts := by
    rw [hb.listings]
    intro c l cut hl hcut
    rw [hb.log, lastCut_append]
    · exact h.cuts c l cut hl hcut
    · exact fun obs hobs => cutOf_none (by rw [hb.quiet obs hobs]; simp)
  recording := by
    rw [hb.listings]
    exact h.recording
  listed := by
    rw [hb.listed]
    intro agent e entry hlisted
    obtain ⟨u, hu, hgiven⟩ := h.listed agent e entry hlisted
    exact ⟨u, hu, hgiven.beside hb⟩

/-! ## Steps of a listing -/

/-- Where a call goes, with what it lists and what it tells. -/
inductive Moves (s : Sys) (c : ℕ) (l : Listing) :
    Place → (Uuid → Uuid → Option MailEntry) → List Obs → Prop where
  | plain {place : Place} (hcut : place.cut = none)
      (hbefore : ∀ cut rest, l.place ≠ .recording cut rest) :
      Moves s c l place s.port.inbox.listed []
  | empty (hbefore : ∀ cut rest, l.place ≠ .recording cut rest) :
      Moves s c l .idle s.port.inbox.listed [.gave c l.agent []]
  | cut {cut : Cut} (hpage : ∀ u ∈ cut.page, u.itemId ∉ s.port.inbox.marked l.agent)
      (hbefore : ∀ cut rest, l.place ≠ .recording cut rest) :
      Moves s c l (.converting cut) s.port.inbox.listed [.cut c l.agent cut.page]
  | keep {cut : Cut} {place : Place} (hcut : l.place.cut = some cut)
      (hplace : place = .keeping cut ∨ place = .recording cut cut.page)
      (hbefore : ∀ cut rest, l.place ≠ .recording cut rest) :
      Moves s c l place s.port.inbox.listed []
  | record {cut : Cut} {item : UnreadItem} {rest : List UnreadItem}
      (hplace : l.place = .recording cut (item :: rest)) :
      Moves s c l (.recording cut rest)
        (s.port.inbox.recordListed l.agent (convert item).1 (convert item).2).listed []
  | give {cut : Cut} (hplace : l.place = .recording cut []) :
      Moves s c l .idle s.port.inbox.listed [.gave c l.agent cut.page]

/-- The step of one listing call. -/
structure CallStep (s s' : Sys) (c : ℕ) (l l' : Listing) (more : List Obs) : Prop where
  before : s.port.listings c = some l
  log : s'.log = s.log ++ more
  listings : s'.port.listings = Function.update s.port.listings c (some l')
  next : s'.port.nextListing = s.port.nextListing
  agent : l'.agent = l.agent
  moves : Moves s c l l'.place s'.port.inbox.listed more

/-- A listing begins. -/
structure NewListing (s s' : Sys) (l : Listing) : Prop where
  log : s'.log = s.log
  listings : s'.port.listings = Function.update s.port.listings s.port.nextListing (some l)
  next : s'.port.nextListing = s.port.nextListing + 1
  idle : l.place = .idle
  listed : s'.port.inbox.listed = s.port.inbox.listed

theorem listing_cases {event : InboxPort.Event} (hs : s.step (.listing event) = some s') :
    (∃ l, NewListing s s' l) ∨ ∃ c l l' more, CallStep s s' c l l' more := by
  simp only [Sys.step, Option.ite_none_right_eq_some] at hs
  obtain ⟨hallowed, hs⟩ := hs
  obtain ⟨port, hport, rfl⟩ := Option.map_eq_some_iff.mp hs
  cases event with
  | begin agent after =>
      cases hport
      exact Or.inl ⟨_, by simp [Sys.listingTold], rfl, rfl, rfl, rfl⟩
  | items c limit =>
      obtain ⟨l, hl, hport⟩ := Option.bind_eq_some_iff.mp hport
      split at hport
      · rename_i hplace
        split at hport
        · cases hport
        · cases hport
          exact Or.inr ⟨c, l, _, [], hl, by simp [Sys.listingTold], rfl, rfl, rfl,
            .plain rfl (by simp [hplace])⟩
      · cases hport
  | step c =>
      obtain ⟨l, hl, hport⟩ := Option.bind_eq_some_iff.mp hport
      right
      unfold InboxPort.Sys.listingStep at hport
      split at hport
      · rename_i limit hplace
        cases hport
        unfold InboxPort.Sys.start
        split
        · refine ⟨c, l, { l with after := l.after, finished := true, place := .idle },
            [.gave c l.agent []], hl, ?_, ?_, rfl, rfl, .empty (by simp [hplace])⟩
          · simp [Sys.listingTold, hl, hplace, InboxPort.Sys.give, InboxPort.Sys.setListing]
          · simp [InboxPort.Sys.give, InboxPort.Sys.setListing]
        · split
          · rename_i rest kept _
            refine ⟨c, l, { l with place := .cutting limit rest kept false }, [], hl, ?_, rfl,
              rfl, rfl, .plain rfl (by simp [hplace])⟩
            simp [Sys.listingTold, hl, hplace, InboxPort.Sys.moveTo, InboxPort.Sys.setListing]
          · refine ⟨c, l, { l with place := .reading limit }, [], hl, ?_, rfl, rfl, rfl,
              .plain rfl (by simp [hplace])⟩
            simp [Sys.listingTold, hl, hplace, InboxPort.Sys.moveTo, InboxPort.Sys.setListing]
      · rename_i limit rest read fresh hplace
        cases hport
        let unmarked := leaveOutMarked (s.port.inbox.marked l.agent) rest
        let cut : Cut := ⟨read, fresh, unmarked.take limit,
          nextCursor (unmarked.take limit) (decide (limit < unmarked.length))⟩
        refine ⟨c, l, { l with place := .converting cut }, [.cut c l.agent cut.page], hl, ?_,
          rfl, rfl, rfl, .cut ?_ (by simp [hplace])⟩
        · simp [Sys.listingTold, hl, hplace, InboxPort.Sys.cutPage, InboxPort.Sys.moveTo,
            InboxPort.Sys.setListing, cut, unmarked]
        · intro u hu
          have hin := List.mem_of_mem_take hu
          simpa [leaveOutMarked] using (List.mem_filter.mp hin).2
      · rename_i cut hplace
        cases hport
        refine ⟨c, l, { l with place := .recording cut cut.page }, [], hl, ?_, ?_, ?_, rfl, ?_⟩
        · unfold InboxPort.Sys.keep
          dsimp only
          split <;>
            simp [Sys.listingTold, hl, hplace, InboxPort.Sys.moveTo, InboxPort.Sys.setListing]
        · unfold InboxPort.Sys.keep
          dsimp only
          split <;> rfl
        · unfold InboxPort.Sys.keep
          dsimp only
          split <;> rfl
        · have hkeep : Moves s c l (.recording cut cut.page) s.port.inbox.listed [] :=
            .keep (show l.place.cut = some cut by simp [hplace, Place.cut]) (Or.inr rfl)
              (by simp [hplace])
          unfold InboxPort.Sys.keep
          dsimp only
          split <;> exact hkeep
      · rename_i cut rest hplace
        cases hport
        cases rest with
        | nil =>
            refine ⟨c, l, { l with after := cut.next.or l.after, finished := cut.next.isNone
                                   place := .idle }, [.gave c l.agent cut.page], hl, ?_, rfl,
              rfl, rfl, .give hplace⟩
            simp [Sys.listingTold, hl, hplace, InboxPort.Sys.record, InboxPort.Sys.give,
              InboxPort.Sys.setListing]
        | cons item rest =>
            refine ⟨c, l, { l with place := .recording cut rest }, [], hl, ?_, rfl, rfl, rfl,
              .record hplace⟩
            simp [Sys.listingTold, hl, hplace, InboxPort.Sys.record, InboxPort.Sys.moveTo,
              InboxPort.Sys.setListing]
      · cases hport
  | readDone c result =>
      obtain ⟨l, hl, hport⟩ := Option.bind_eq_some_iff.mp hport
      cases result with
      | ok read =>
          simp only [InboxPort.Sys.readDone] at hport
          split at hport
          · rename_i hplace
            cases hport
            exact Or.inr ⟨c, l, _, [], hl, by simp [Sys.listingTold], rfl, rfl, rfl,
              .plain rfl (by simp [hplace])⟩
          · cases hport
      | error error =>
          simp only [InboxPort.Sys.readDone] at hport
          split at hport
          · rename_i hplace
            cases hport
            exact Or.inr ⟨c, l, _, [], hl, by simp [Sys.listingTold], rfl, rfl, rfl,
              .plain rfl (by simp [hplace])⟩
          · cases hport
  | converted c ok =>
      obtain ⟨l, hl, hport⟩ := Option.bind_eq_some_iff.mp hport
      unfold InboxPort.Sys.converted at hport
      split at hport
      · rename_i cut hplace
        cases hport
        cases ok with
        | true =>
            exact Or.inr ⟨c, l, _, [], hl, by simp [Sys.listingTold], rfl, rfl, rfl,
              .keep (by simp [hplace, Place.cut]) (Or.inl rfl) (by simp [hplace])⟩
        | false =>
            exact Or.inr ⟨c, l, _, [], hl, by simp [Sys.listingTold], rfl, rfl, rfl,
              .plain rfl (by simp [hplace])⟩
      · cases hport
  | drop c =>
      obtain ⟨l, hl, hport⟩ := Option.bind_eq_some_iff.mp hport
      unfold InboxPort.Sys.drop at hport
      split at hport
      · rename_i hplace
        cases hport
        exact Or.inr ⟨c, l, _, [], hl, by simp [Sys.listingTold], rfl, rfl, rfl,
          .plain rfl (by simp [hplace])⟩
      · rename_i hplace
        cases hport
        exact Or.inr ⟨c, l, _, [], hl, by simp [Sys.listingTold], rfl, rfl, rfl,
          .plain rfl (by simp [hplace])⟩
      · cases hport
  | registrationEnded agent => cases hallowed
  | markRead agent entryId => cases hallowed

/-- What was given out stays given out. -/
theorem GivenOut.call {c : ℕ} {l l' : Listing} {agent : Uuid} {u : UnreadItem}
    (h : GivenOut s agent u) (hc : CallStep s s' c l l' more) : GivenOut s' agent u := by
  rcases h with ⟨d, page, hin, hu⟩ | ⟨d, k, cut, rest, hk, hagent, hplace, hu⟩
  · refine Or.inl ⟨d, page, ?_, hu⟩
    rw [hc.log]
    exact List.mem_append_left _ hin
  · by_cases hd : d = c
    · subst hd
      obtain rfl : k = l := by
        have := hc.before
        rw [hk] at this
        exact Option.some.inj this
      have hmoves := hc.moves
      have hlistings : s'.port.listings d = some l' := by
        rw [hc.listings, Function.update_self]
      generalize hp : l'.place = place at hmoves
      generalize hl : s'.port.inbox.listed = listed at hmoves
      cases hmoves with
      | plain hcut hbefore => exact absurd hplace (hbefore _ _)
      | empty hbefore => exact absurd hplace (hbefore _ _)
      | cut hpage hbefore => exact absurd hplace (hbefore _ _)
      | keep hcut hp' hbefore => exact absurd hplace (hbefore _ _)
      | record hrec =>
          rw [hplace] at hrec
          cases hrec
          exact Or.inr ⟨d, l', cut, _, hlistings, hc.agent.trans hagent, hp, hu⟩
      | give hgive =>
          rw [hplace] at hgive
          cases hgive
          refine Or.inl ⟨d, cut.page, ?_, hu⟩
          rw [hc.log, hagent]
          simp
    · refine Or.inr ⟨d, k, cut, rest, ?_, hagent, hplace, hu⟩
      rw [hc.listings, Function.update_of_ne hd]
      exact hk

theorem GivenOut.new {l : Listing} {agent : Uuid} {u : UnreadItem} (hok : ListingsOk s)
    (h : GivenOut s agent u) (hn : NewListing s s' l) : GivenOut s' agent u := by
  rcases h with ⟨d, page, hin, hu⟩ | ⟨d, k, cut, rest, hk, hrest⟩
  · exact Or.inl ⟨d, page, hn.log ▸ hin, hu⟩
  · have hd : d ≠ s.port.nextListing := by
      rintro rfl
      rw [hok.fresh _ (Nat.le_refl _)] at hk
      cases hk
    refine Or.inr ⟨d, k, cut, rest, ?_, hrest⟩
    rw [hn.listings, Function.update_of_ne hd]
    exact hk

theorem ListingsOk.new {l : Listing} (h : ListingsOk s) (hn : NewListing s s' l) :
    ListingsOk s' where
  fresh := by
    intro c hc
    rw [hn.next] at hc
    rw [hn.listings, Function.update_of_ne (by omega)]
    exact h.fresh c (by omega)
  cuts := by
    intro c k cut hk hcut
    rw [hn.listings] at hk
    rw [hn.log]
    by_cases hc : c = s.port.nextListing
    · subst hc
      rw [Function.update_self] at hk
      cases hk
      rw [hn.idle] at hcut
      cases hcut
    · rw [Function.update_of_ne hc] at hk
      exact h.cuts c k cut hk hcut
  recording := by
    intro c k cut rest hk hplace
    rw [hn.listings] at hk
    by_cases hc : c = s.port.nextListing
    · subst hc
      rw [Function.update_self] at hk
      cases hk
      rw [hn.idle] at hplace
      cases hplace
    · rw [Function.update_of_ne hc] at hk
      exact h.recording c k cut rest hk hplace
  listed := by
    rw [hn.listed]
    intro agent e entry hlisted
    obtain ⟨u, hu, hgiven⟩ := h.listed agent e entry hlisted
    exact ⟨u, hu, hgiven.new h hn⟩

theorem Moves.others {c d : ℕ} {l : Listing} {place : Place}
    {listed : Uuid → Uuid → Option MailEntry} (h : Moves s c l place listed more)
    (hd : d ≠ c) : ∀ obs ∈ more, obs.cutOf d = none := by
  cases h <;> simp [Obs.cutOf, hd.symm]

theorem ListingsOk.call {c : ℕ} {l l' : Listing} (h : ListingsOk s)
    (hc : CallStep s s' c l l' more) : ListingsOk s' where
  fresh := by
    intro d hd
    rw [hc.next] at hd
    have hne : d ≠ c := by
      rintro rfl
      have hbefore := hc.before
      rw [h.fresh _ hd] at hbefore
      cases hbefore
    rw [hc.listings, Function.update_of_ne hne]
    exact h.fresh d hd
  cuts := by
    intro d k cut hk hcut
    rw [hc.listings] at hk
    rw [hc.log]
    by_cases hd : d = c
    · subst hd
      rw [Function.update_self] at hk
      cases hk
      have hmoves := hc.moves
      have hold := fun cut => h.cuts d l cut hc.before
      generalize hp : l'.place = place at hmoves hcut
      generalize s'.port.inbox.listed = listed at hmoves
      cases hmoves with
      | plain hplain hbefore =>
          rw [hplain] at hcut
          cases hcut
      | empty hbefore => cases hcut
      | cut hpage hbefore =>
          cases hcut
          exact lastCut_cut ..
      | keep hkeep hplace hbefore =>
          rw [List.append_nil]
          rcases hplace with rfl | rfl <;> cases hcut <;> exact hold _ hkeep
      | record hrec =>
          cases hcut
          rw [List.append_nil]
          exact hold _ (by rw [hrec]; rfl)
      | give hgive => cases hcut
    · rw [Function.update_of_ne hd] at hk
      rw [lastCut_append (hc.moves.others hd)]
      exact h.cuts d k cut hk hcut
  recording := by
    intro d k cut rest hk hplace
    rw [hc.listings] at hk
    by_cases hd : d = c
    · subst hd
      rw [Function.update_self] at hk
      cases hk
      have hmoves := hc.moves
      generalize hp : l'.place = place at hmoves hplace
      generalize s'.port.inbox.listed = listed at hmoves
      cases hmoves with
      | plain hplain hbefore =>
          rw [hplace] at hplain
          cases hplain
      | empty hbefore => cases hplace
      | cut hpage hbefore => cases hplace
      | keep hkeep hplace' hbefore =>
          rcases hplace' with rfl | rfl
          · cases hplace
          · cases hplace
            exact fun u hu => hu
      | record hrec =>
          cases hplace
          exact fun u hu =>
            h.recording d l _ _ hc.before hrec u (List.mem_cons_of_mem _ hu)
      | give hgive => cases hplace
    · rw [Function.update_of_ne hd] at hk
      exact h.recording d k cut rest hk hplace
  listed := by
    intro agent e entry hlisted
    have old : s.port.inbox.listed agent e = some entry →
        ∃ u, convert u = (e, entry) ∧ GivenOut s' agent u := by
      intro hold
      obtain ⟨u, hu, hgiven⟩ := h.listed agent e entry hold
      exact ⟨u, hu, hgiven.call hc⟩
    have hmoves := hc.moves
    have hlistings : s'.port.listings c = some l' := by
      rw [hc.listings, Function.update_self]
    generalize hp : l'.place = place at hmoves
    generalize hl : s'.port.inbox.listed = listed at hmoves hlisted
    cases hmoves with
    | plain hplain hbefore => exact old hlisted
    | empty hbefore => exact old hlisted
    | cut hpage hbefore => exact old hlisted
    | keep hkeep hplace hbefore => exact old hlisted
    | give hgive => exact old hlisted
    | @record cut item rest hrec =>
        by_cases hagent : agent = l.agent
        · subst hagent
          by_cases he : e = (convert item).1
          · subst he
            simp only [Inbox.recordListed, Function.update_self, Option.some.injEq] at hlisted
            subst hlisted
            refine ⟨item, rfl, Or.inr ⟨c, l', cut, rest, hlistings, hc.agent, hp, ?_⟩⟩
            exact h.recording c l cut _ hc.before hrec item (by simp)
          · apply old
            simpa [Inbox.recordListed, Function.update_of_ne he] using hlisted
        · apply old
          simpa [Inbox.recordListed, Function.update_of_ne hagent] using hlisted

theorem ListingsOk.step (h : ListingsOk s) {e : Event} (hs : s.step e = some s') :
    ListingsOk s' := by
  by_cases hlisting : ∃ event, e = .listing event
  · obtain ⟨event, rfl⟩ := hlisting
    rcases listing_cases hs with ⟨l, hnew⟩ | ⟨c, l, l', more, hcall⟩
    · exact h.new hnew
    · exact h.call hcall
  · push Not at hlisting
    obtain ⟨more, hmore, -⟩ := step_beside_listings hs hlisting
    exact h.beside hmore

theorem GivenOut.step {agent : Uuid} {u : UnreadItem} (h : GivenOut s agent u)
    (hok : ListingsOk s) {e : Event} (hs : s.step e = some s') : GivenOut s' agent u := by
  by_cases hlisting : ∃ event, e = .listing event
  · obtain ⟨event, rfl⟩ := hlisting
    rcases listing_cases hs with ⟨l, hnew⟩ | ⟨c, l, l', more, hcall⟩
    · exact h.new hok hnew
    · exact h.call hcall
  · push Not at hlisting
    obtain ⟨more, hmore, -⟩ := step_beside_listings hs hlisting
    exact h.beside hmore

/-! ## The calls of `mark_read` -/

/-- The marker and its follow-up, as far as they are of the agent and the item. -/
def Obs.markerOf (agent k : Uuid) : Obs → Option (Queue.Write × Option Queue.Write)
  | .held _ (.marker runId itemId of entryId) follow =>
      if of = agent ∧ itemId = k then some (.marker runId itemId of entryId, follow) else none
  | _ => none

/-- The markers of the agent and the item that were handed over. -/
def markersOf (agent k : Uuid) (log : List Obs) :
    List (Queue.Write × Option Queue.Write) :=
  log.filterMap (Obs.markerOf agent k)

theorem markersOf_append (agent k : Uuid) (log : List Obs) :
    markersOf agent k (log ++ more) = markersOf agent k log ++ markersOf agent k more := by
  simp [markersOf]

theorem markersOf_none {agent k : Uuid} (h : ∀ obs ∈ more, obs.ofMark = none) :
    markersOf agent k more = [] := by
  apply List.filterMap_eq_nil_iff.mpr
  intro obs hobs
  have hnone := h obs hobs
  cases obs with
  | held c marker follow => cases hnone
  | _ => rfl

/-- The call has taken the mark of the item and not handed its marker over. -/
def Holds (s : Sys) (c : ℕ) (agent k : Uuid) : Prop :=
  ∃ call listed, s.marks c = some call ∧ call.place = .holding listed ∧
    call.agent = agent ∧ listed.itemId = k

/-- What is marked was listed, and what is listed was given out. -/
def FromListing (s : Sys) (agent entryId : Uuid) (listed : MailEntry) : Prop :=
  ∃ u, convert u = (entryId, listed) ∧ GivenOut s agent u

structure MarksOk (s : Sys) : Prop where
  fresh : ∀ c, s.nextMark ≤ c → s.marks c = none
  free : ∀ agent k, k ∉ s.port.inbox.marked agent →
    markersOf agent k s.log = [] ∧ ∀ c, ¬ Holds s c agent k
  unsent : ∀ c agent k, Holds s c agent k → markersOf agent k s.log = []
  one : ∀ c d agent k, Holds s c agent k → Holds s d agent k → c = d
  once : ∀ agent k, (markersOf agent k s.log).length ≤ 1
  calls : ∀ c call listed, s.marks c = some call →
    call.place = .marking listed ∨ call.place = .holding listed →
    FromListing s call.agent call.entryId listed
  held : ∀ c marker follow, .held c marker follow ∈ s.log → ∃ agent entryId listed,
    FromListing s agent entryId listed ∧
      marker = .marker s.runId listed.itemId agent entryId ∧
      follow = finishOf s.runId listed

theorem FromListing.step {agent entryId : Uuid} {listed : MailEntry}
    (h : FromListing s agent entryId listed) (hok : ListingsOk s) {e : Event}
    (hs : s.step e = some s') : FromListing s' agent entryId listed := by
  obtain ⟨u, hu, hgiven⟩ := h
  exact ⟨u, hu, hgiven.step hok hs⟩

theorem MarksOk.beside (h : MarksOk s) (hok : ListingsOk s) {e : Event}
    (hs : s.step e = some s') (hb : BesideMarks s s' more) : MarksOk s' := by
  have hmarkers : ∀ agent k, markersOf agent k s'.log = markersOf agent k s.log := by
    intro agent k
    rw [hb.log, markersOf_append, markersOf_none hb.quiet, List.append_nil]
  -- a call that is new holds nothing and has found nothing
  have hcalls : ∀ c call, s'.marks c = some call → s.marks c = some call ∨
      call.place = .looking := by
    intro c call hc
    rcases hb.calls with ⟨heq, -⟩ | ⟨agent, entryId, heq, -⟩
    · exact Or.inl (heq ▸ hc)
    · rw [heq] at hc
      by_cases hn : c = s.nextMark
      · subst hn
        rw [Function.update_self] at hc
        cases hc
        exact Or.inr rfl
      · rw [Function.update_of_ne hn] at hc
        exact Or.inl hc
  have hholds : ∀ c agent k, Holds s' c agent k → Holds s c agent k := by
    rintro c agent k ⟨call, listed, hc, hplace, hrest⟩
    rcases hcalls c call hc with hold | hlooking
    · exact ⟨call, listed, hold, hplace, hrest⟩
    · rw [hlooking] at hplace
      cases hplace
  constructor
  · intro c hc
    rcases hb.calls with ⟨heq, hnext⟩ | ⟨agent, entryId, heq, hnext⟩
    · rw [heq]
      exact h.fresh c (hnext ▸ hc)
    · rw [hnext] at hc
      rw [heq, Function.update_of_ne (by omega)]
      exact h.fresh c (by omega)
  · intro agent k hk
    rw [hb.marked] at hk
    obtain ⟨hnil, hnone⟩ := h.free agent k hk
    exact ⟨(hmarkers agent k).trans hnil, fun c hc => hnone c (hholds c agent k hc)⟩
  · intro c agent k hc
    rw [hmarkers]
    exact h.unsent c agent k (hholds c agent k hc)
  · exact fun c d agent k hc hd => h.one c d agent k (hholds _ _ _ hc) (hholds _ _ _ hd)
  · intro agent k
    rw [hmarkers]
    exact h.once agent k
  · intro c call listed hc hplace
    rcases hcalls c call hc with hold | hlooking
    · exact (h.calls c call listed hold hplace).step hok hs
    · rw [hlooking] at hplace
      rcases hplace with hp | hp <;> cases hp
  · intro c marker follow hin
    rw [hb.log] at hin
    rcases List.mem_append.mp hin with hin | hin
    · obtain ⟨agent, entryId, listed, hfrom, hmarker, hfollow⟩ := h.held c marker follow hin
      refine ⟨agent, entryId, listed, hfrom.step hok hs, ?_, ?_⟩
      · rw [hb.runId]
        exact hmarker
      · rw [hb.runId]
        exact hfollow
    · cases hb.quiet _ hin

/-- The call goes on, and holds nothing behind the step. -/
theorem MarksOk.move (h : MarksOk s) {c : ℕ} {call : MarkCall} (place : MarkPlace)
    (hc : s.marks c = some call) (hplace : ∀ listed, place ≠ .holding listed)
    (hlisted : ∀ listed, place = .marking listed →
      FromListing s call.agent call.entryId listed) :
    MarksOk (s.setMark c { call with place := place }) := by
  have hcalls : ∀ d k, (s.setMark c { call with place := place }).marks d = some k →
      (d = c ∧ k = { call with place := place }) ∨ (d ≠ c ∧ s.marks d = some k) := by
    intro d k hk
    by_cases hd : d = c
    · subst hd
      simp only [Sys.setMark, Function.update_self, Option.some.injEq] at hk
      exact Or.inl ⟨rfl, hk.symm⟩
    · simp only [Sys.setMark, Function.update_of_ne hd] at hk
      exact Or.inr ⟨hd, hk⟩
  have hholds : ∀ d agent k, Holds (s.setMark c { call with place := place }) d agent k →
      Holds s d agent k := by
    rintro d agent k ⟨call', listed, hd, hp, hrest⟩
    rcases hcalls d call' hd with ⟨-, rfl⟩ | ⟨-, hold⟩
    · exact absurd hp (hplace listed)
    · exact ⟨call', listed, hold, hp, hrest⟩
  constructor
  · intro d hd
    have hne : d ≠ c := by
      rintro rfl
      rw [h.fresh d hd] at hc
      cases hc
    simp only [Sys.setMark, Function.update_of_ne hne]
    exact h.fresh d hd
  · intro agent k hk
    obtain ⟨hnil, hnone⟩ := h.free agent k hk
    exact ⟨hnil, fun d hd => hnone d (hholds d agent k hd)⟩
  · exact fun d agent k hd => h.unsent d agent k (hholds d agent k hd)
  · exact fun d d' agent k hd hd' => h.one d d' agent k (hholds _ _ _ hd) (hholds _ _ _ hd')
  · exact h.once
  · intro d k listed hk hp
    rcases hcalls d k hk with ⟨-, rfl⟩ | ⟨-, hold⟩
    · rcases hp with hp | hp
      · exact hlisted listed hp
      · exact absurd hp (hplace listed)
    · exact h.calls d k listed hold hp
  · exact h.held

/-- The first mark of the item makes the call its only holder. -/
theorem MarksOk.mark (h : MarksOk s) (hok : ListingsOk s) {c : ℕ} {call : MarkCall}
    {listed : MailEntry} (hc : s.marks c = some call) (hplace : call.place = .marking listed)
    (hnot : listed.itemId ∉ s.port.inbox.marked call.agent)
    (hstep : s.step (.markStep c) = some s') : MarksOk s' := by
  have hs : s.markStep c call = some s' := by
    simpa [Sys.step, hc] using hstep
  obtain ⟨hnil, hnone⟩ := h.free call.agent listed.itemId hnot
  have hfrom := h.calls c call listed hc (Or.inl hplace)
  simp only [Sys.markStep, hplace, hnot, if_false] at hs
  cases hs
  have hcalls : ∀ d k, Function.update s.marks c (some { call with place := .holding listed })
      d = some k → (d = c ∧ k = { call with place := .holding listed }) ∨
        (d ≠ c ∧ s.marks d = some k) := by
    intro d k hk
    by_cases hd : d = c
    · subst hd
      rw [Function.update_self] at hk
      exact Or.inl ⟨rfl, (Option.some.inj hk).symm⟩
    · rw [Function.update_of_ne hd] at hk
      exact Or.inr ⟨hd, hk⟩
  have hmarkers : ∀ agent k, markersOf agent k
      (s.log ++ [.marked c call.agent listed.itemId]) = markersOf agent k s.log := by
    intro agent k
    simp [markersOf, Obs.markerOf]
  constructor
  · intro d hd
    have hne : d ≠ c := by
      rintro rfl
      rw [h.fresh d hd] at hc
      cases hc
    show Function.update s.marks c _ d = none
    rw [Function.update_of_ne hne]
    exact h.fresh d hd
  · intro agent k hk
    have hold : k ∉ s.port.inbox.marked agent := fun hin => hk (mem_mark hin)
    obtain ⟨hnil', hnone'⟩ := h.free agent k hold
    refine ⟨(hmarkers agent k).trans hnil', ?_⟩
    rintro d ⟨call', listed', hd, hp, hagent, hitem⟩
    rcases hcalls d call' hd with ⟨-, rfl⟩ | ⟨-, hd'⟩
    · cases hp
      subst hagent hitem
      exact hk (by simp [Sys.setMark, Inbox.mark])
    · exact hnone' d ⟨call', listed', hd', hp, hagent, hitem⟩
  · rintro d agent k ⟨call', listed', hd, hp, hagent, hitem⟩
    rw [Sys.told_log]
    refine (hmarkers agent k).trans ?_
    rcases hcalls d call' hd with ⟨-, rfl⟩ | ⟨-, hd'⟩
    · cases hp
      subst hagent hitem
      exact hnil
    · exact h.unsent d agent k ⟨call', listed', hd', hp, hagent, hitem⟩
  · rintro d d' agent k ⟨call₁, listed₁, hd, hp, hagent, hitem⟩
      ⟨call₂, listed₂, hd', hp', hagent', hitem'⟩
    rcases hcalls d call₁ hd with ⟨rfl, rfl⟩ | ⟨-, hold⟩
    · rcases hcalls d' call₂ hd' with ⟨rfl, rfl⟩ | ⟨-, hold'⟩
      · rfl
      · cases hp
        subst hagent hitem
        exact absurd ⟨call₂, listed₂, hold', hp', hagent', hitem'⟩ (hnone d')
    · rcases hcalls d' call₂ hd' with ⟨rfl, rfl⟩ | ⟨-, hold'⟩
      · cases hp'
        subst hagent' hitem'
        exact absurd ⟨call₁, listed₁, hold, hp, hagent, hitem⟩ (hnone d)
      · exact h.one d d' agent k ⟨call₁, listed₁, hold, hp, hagent, hitem⟩
          ⟨call₂, listed₂, hold', hp', hagent', hitem'⟩
  · intro agent k
    rw [Sys.told_log]
    exact (hmarkers agent k).symm ▸ h.once agent k
  · intro d k listed' hk hp
    rcases hcalls d k hk with ⟨-, rfl⟩ | ⟨-, hold⟩
    · rcases hp with hp | hp
      · cases hp
      · cases hp
        exact hfrom.step hok hstep
    · exact (h.calls d k listed' hold hp).step hok hstep
  · intro d marker follow hin
    rcases List.mem_append.mp hin with hin | hin
    · obtain ⟨agent, entryId, entry, hold, hrest⟩ := h.held d marker follow hin
      exact ⟨agent, entryId, entry, hold.step hok hstep, hrest⟩
    · cases List.mem_singleton.mp hin

/-- The holder hands its marker over and holds it no more. -/
theorem MarksOk.hold (h : MarksOk s) (hok : ListingsOk s) {c : ℕ} {call : MarkCall}
    {listed : MailEntry} (hc : s.marks c = some call) (hplace : call.place = .holding listed) :
    MarksOk ((s.setMark c { call with place := .done }).told
      [.held c (markerOf s.runId call listed) (finishOf s.runId listed)]) := by
  have hholds : Holds s c call.agent listed.itemId := ⟨call, listed, hc, hplace, rfl, rfl⟩
  have hnil := h.unsent c call.agent listed.itemId hholds
  have hmoved := h.move .done hc (by simp) (by simp)
  have hstep : s.step (.markStep c) = some ((s.setMark c { call with place := .done }).told
      [.held c (markerOf s.runId call listed) (finishOf s.runId listed)]) := by
    simp [Sys.step, hc, Sys.markStep, hplace]
  have hmarkers : ∀ agent k, markersOf agent k
      (s.log ++ [.held c (markerOf s.runId call listed) (finishOf s.runId listed)]) =
      markersOf agent k s.log ++ if call.agent = agent ∧ listed.itemId = k then
        [(markerOf s.runId call listed, finishOf s.runId listed)] else [] := by
    intro agent k
    rw [markersOf_append]
    by_cases hk : call.agent = agent ∧ listed.itemId = k <;>
      simp [markersOf, Obs.markerOf, markerOf, hk]
  have hother : ∀ d agent k, Holds (s.setMark c { call with place := .done }) d agent k →
      ¬ (call.agent = agent ∧ listed.itemId = k) := by
    rintro d agent k ⟨call', listed', hd, hp, hagent, hitem⟩ ⟨rfl, rfl⟩
    by_cases hdc : d = c
    · subst hdc
      simp only [Sys.setMark, Function.update_self, Option.some.injEq] at hd
      subst hd
      cases hp
    · simp only [Sys.setMark, Function.update_of_ne hdc] at hd
      exact hdc (h.one d c _ _ ⟨call', listed', hd, hp, hagent, hitem⟩ hholds)
  constructor
  · exact hmoved.fresh
  · intro agent k hk
    obtain ⟨hnil', hnone⟩ := hmoved.free agent k hk
    refine ⟨?_, hnone⟩
    have hne : ¬ (call.agent = agent ∧ listed.itemId = k) := by
      rintro ⟨rfl, rfl⟩
      exact (h.free _ _ hk).2 c hholds
    rw [Sys.told_log]
    refine (hmarkers agent k).trans ?_
    rw [if_neg hne, List.append_nil]
    exact hnil'
  · intro d agent k hd
    rw [Sys.told_log]
    refine (hmarkers agent k).trans ?_
    rw [if_neg (hother d agent k hd), List.append_nil]
    exact hmoved.unsent d agent k hd
  · exact hmoved.one
  · intro agent k
    rw [Sys.told_log]
    have heq := hmarkers agent k
    show (markersOf agent k (s.log ++ _)).length ≤ 1
    rw [heq]
    split
    · rename_i hk
      obtain ⟨rfl, rfl⟩ := hk
      simp [hnil]
    · simpa using h.once agent k
  · intro d k entry hk hp
    by_cases hd : d = c
    · subst hd
      simp only [Sys.told_marks, Sys.setMark, Function.update_self, Option.some.injEq] at hk
      subst hk
      rcases hp with hp | hp <;> cases hp
    · simp only [Sys.told_marks, Sys.setMark, Function.update_of_ne hd] at hk
      exact (h.calls d k entry hk hp).step hok hstep
  · intro d marker follow hin
    rcases List.mem_append.mp hin with hin | hin
    · obtain ⟨agent, entryId, entry, hold, hrest⟩ := h.held d marker follow hin
      exact ⟨agent, entryId, entry, hold.step hok hstep, hrest⟩
    · cases List.mem_singleton.mp hin
      exact ⟨call.agent, call.entryId, listed,
        (h.calls c call listed hc (Or.inr hplace)).step hok hstep, rfl, rfl⟩

theorem MarksOk.step (h : MarksOk s) (hok : ListingsOk s) {e : Event}
    (hs : s.step e = some s') : MarksOk s' := by
  by_cases hmark : ∃ c, e = .markStep c
  · obtain ⟨c, rfl⟩ := hmark
    have hstep := hs
    obtain ⟨call, hc, hs⟩ := Option.bind_eq_some_iff.mp hs
    unfold Sys.markStep at hs
    split at hs
    · cases hs
      refine h.move _ hc ?_ ?_
      · intro listed
        split <;> simp
      · intro listed hlisted
        split at hlisted
        · rename_i entry hentry
          cases hlisted
          exact hok.listed _ _ _ hentry
        · cases hlisted
    · rename_i listed hplace
      split at hs
      · cases hs
        exact h.move _ hc (by simp) (by simp)
      · rename_i hnot
        exact h.mark hok hc hplace hnot hstep
    · rename_i listed hplace
      cases hs
      exact h.hold hok hc hplace
    · cases hs
  · push Not at hmark
    obtain ⟨more, hmore⟩ := step_beside_marks hs hmark
    exact h.beside hok hs hmore

theorem marksOk {runId : Uuid} (h : (Sys.machine runId).Reachable s) :
    ListingsOk s ∧ MarksOk s := by
  refine h.invariant (P := fun s => ListingsOk s ∧ MarksOk s) ⟨?_, ?_⟩
    fun hp hs => ⟨hp.1.step hs, hp.2.step hp.1 hs⟩
  · constructor <;> simp [Sys.machine, Sys.init, InboxPort.Sys.init, Inbox.new]
  · constructor <;> simp [Sys.machine, Sys.init, Holds, markersOf]

/-! ## Marked items are left out -/

def MarkedIn (log : List Obs) (agent k : Uuid) : Prop := ∃ c, .marked c agent k ∈ log

/-- A page is cut without the marked items, a page that is given is the last one
that was cut, and a wait returns for an item that is not marked. -/
def LeftOut (pre : List Obs) : Obs → Prop
  | .cut _ agent page => ∀ u ∈ page, ¬ MarkedIn pre agent u.itemId
  | .gave c _ page => page = [] ∨ lastCut c pre = some page
  | .returned w agent (.ok ()) => ∃ read unmarked, ∃ u ∈ unmarked, u ∈ read ∧
      pre.getLast? = some (.readHeld w read unmarked) ∧ ¬ MarkedIn pre agent u.itemId
  | _ => True

theorem leftOut_own {v : ℕ} {x : Wait} {pre : List Obs}
    (hown : Own s v x more) (hok : ∀ agent, .returned v agent (.ok ()) ∉ more)
    {obs : Obs} (hobs : obs ∈ more) : LeftOut pre obs := by
  have hof := hown.own obs hobs
  cases obs with
  | cut => cases hof
  | gave => cases hof
  | returned w agent result =>
      cases result with
      | error error => trivial
      | ok _ =>
          cases hof
          exact absurd hobs (hok agent)
  | _ => trivial

theorem leftOut_step {runId : Uuid} (hreach : (Sys.machine runId).Reachable s)
    (h : Always LeftOut s.log) {e : Event} (hs : s.step e = some s') :
    Always LeftOut s'.log := by
  have hlistings := (marksOk hreach).1
  have hmarked : ∀ {agent k}, MarkedIn s.log agent k → k ∈ s.port.inbox.marked agent := by
    rintro agent k ⟨c, hc⟩
    exact marked_of_log hreach hc
  by_cases hlisting : ∃ event, e = .listing event
  · obtain ⟨event, rfl⟩ := hlisting
    rcases listing_cases hs with ⟨l, hnew⟩ | ⟨c, l, l', more, hcall⟩
    · rw [hnew.log]
      exact h
    · rw [hcall.log]
      have hmoves := hcall.moves
      have hcuts := fun cut => hlistings.cuts c l cut hcall.before
      generalize l'.place = place at hmoves
      generalize s'.port.inbox.listed = listed at hmoves
      cases hmoves with
      | plain => simpa using h
      | keep => simpa using h
      | record => simpa using h
      | empty => exact always_snoc.mpr ⟨h, Or.inl rfl⟩
      | cut hpage =>
          exact always_snoc.mpr ⟨h, fun u hu hin => hpage u hu (hmarked hin)⟩
      | give hgive =>
          exact always_snoc.mpr ⟨h, Or.inr (hcuts _ (by rw [hgive]; rfl))⟩
  · cases hof : e.ofWait with
    | some v =>
        obtain ⟨x, x', more, -, rfl, hown⟩ := own_step hof hs
        rw [Sys.told_log]
        by_cases hok : ∀ agent, .returned v agent (.ok ()) ∉ more
        · exact always_append h fun obs hobs pre => leftOut_own hown hok hobs
        · push Not at hok
          obtain ⟨agent, hin⟩ := hok
          obtain ⟨items, hne, rfl⟩ := hown.ok agent hin
          obtain ⟨u, hu⟩ := List.exists_mem_of_ne_nil _ hne
          have hsplit := List.mem_filter.mp hu
          have hnot : u.itemId ∉ s.port.inbox.marked x.agent := by simpa using hsplit.2
          rw [List.append_cons]
          refine always_snoc.mpr ⟨always_snoc.mpr ⟨h, trivial⟩, items, _, u, hu, hsplit.1,
            by simp, ?_⟩
          rintro ⟨c, hc⟩
          have hc' : .marked c x.agent u.itemId ∈ s.log := by simpa [Sys.setWait] using hc
          exact hnot (hmarked ⟨c, hc'⟩)
    | none =>
        push Not at hlisting
        obtain ⟨more, hb, hok⟩ := step_beside_listings hs hlisting
        rw [hb.log]
        apply always_append h
        intro obs hobs pre
        have hnone := hb.quiet obs hobs
        cases obs with
        | cut => cases hnone
        | gave => cases hnone
        | returned w agent result =>
            cases result with
            | error error => trivial
            | ok _ => exact absurd hobs (hok hof w agent)
        | _ => trivial

/-! ## Marked at most once -/

theorem finishOf_convert {runId e : Uuid} {listed : MailEntry} {u : UnreadItem}
    (h : convert u = (e, listed)) (follow : Option Queue.Write)
    (hf : follow = finishOf runId listed) :
    (∀ jobId, follow = some (.finish runId jobId u.itemId) ↔
      ∃ notice, u = .callNotice notice ∧ notice.kind = .runCompleted ∧
        notice.childJobId = some jobId) ∧
    (follow = none ↔ ¬ ∃ jobId notice, u = .callNotice notice ∧
      notice.kind = .runCompleted ∧ notice.childJobId = some jobId) := by
  subst hf
  cases u with
  | callNotice notice =>
      cases h
      simp only [finishOf, UnreadItem.itemId, UnreadItem.callNotice.injEq, exists_eq_left']
      cases hkind : notice.kind <;> cases hchild : notice.childJobId <;> simp
  | _ =>
      cases h
      simp [finishOf]

/-- What is true of the marks of a book. -/
structure MarkedOnce (s : Sys) : Prop where
  /-- At most one marker is handed over for an agent and an item. -/
  once : ∀ agent k, (markersOf agent k s.log).length ≤ 1
  /-- A marker is that of an item that a listing of the agent gave out; with it goes
  the finish of the child job that a completed call names. -/
  marker : ∀ c marker follow, .held c marker follow ∈ s.log → ∃ agent entryId u,
    GivenOut s agent u ∧ marker = .marker s.runId u.itemId agent entryId ∧
      (∀ jobId, follow = some (.finish s.runId jobId u.itemId) ↔
        ∃ notice, u = .callNotice notice ∧ notice.kind = .runCompleted ∧
          notice.childJobId = some jobId) ∧
      (follow = none ↔ ¬ ∃ jobId notice, u = .callNotice notice ∧
        notice.kind = .runCompleted ∧ notice.childJobId = some jobId)
  /-- From the mark on no page that is cut holds the item, and it ends no wait. -/
  leftOut : Always LeftOut s.log

theorem convert_itemId {e : Uuid} {listed : MailEntry} {u : UnreadItem}
    (h : convert u = (e, listed)) : listed.itemId = u.itemId := by
  cases u <;> cases h <;> rfl

theorem marked_once {runId : Uuid} (h : (Sys.machine runId).Reachable s) :
    MarkedOnce s where
  once := (marksOk h).2.once
  marker := by
    intro c marker follow hin
    obtain ⟨agent, entryId, listed, ⟨u, hu, hgiven⟩, hmarker, hfollow⟩ :=
      (marksOk h).2.held c marker follow hin
    refine ⟨agent, entryId, u, hgiven, ?_, finishOf_convert hu follow hfollow⟩
    rw [hmarker, convert_itemId hu]
  leftOut := Machine.Reach.invariant (P := fun s => Always LeftOut s.log) always_nil
    (fun hreach hp _ hs => leftOut_step hreach hp hs) h

/-- A page of the completed call of a child job. -/
def completedNotice : UnreadItem :=
  .callNotice ⟨7, some 5, .runCompleted, none, some 9, none, none, none, none, none⟩

/-- A listing call of the agent, up to the page that it has cut. -/
def cutRun (c : ℕ) : List Event :=
  [.listing (.begin 5 none), .listing (.items c 1), .listing (.step c),
    .listing (.readDone c (.ok [completedNotice])), .listing (.step c)]

/-- From the cut to the page that is given. -/
def giveRun (c : ℕ) : List Event :=
  [.listing (.converted c true), .listing (.step c), .listing (.step c), .listing (.step c)]

def markRun (c : ℕ) : List Event :=
  [.markRead 5 7 none, .markStep c, .markStep c, .markStep c]

/-- Two marks of a listed notice: one marker, with its finish. -/
theorem marked_once_twoMarks :
    ∃ s, (Sys.machine 0).run ([.agent 5, .registrationEnded 5] ++ cutRun 0 ++ giveRun 0 ++
      [.markRead 5 7 none, .markRead 5 7 none, .markStep 0, .markStep 1, .markStep 0,
        .markStep 1, .markStep 0]) = some s ∧
      markersOf 5 7 s.log = [(.marker 0 7 5 7, some (.finish 0 9 7))] ∧ MarkedOnce s :=
  ⟨_, rfl, rfl, marked_once (Machine.reachable_of_run (M := Sys.machine 0)
    ([.agent 5, .registrationEnded 5] ++ cutRun 0 ++ giveRun 0 ++
      [.markRead 5 7 none, .markRead 5 7 none, .markStep 0, .markStep 1, .markStep 0,
        .markStep 1, .markStep 0]) rfl)⟩

/-- A page that was cut before the mark is given behind it. -/
theorem marked_given : ¬ ∀ (runId : Uuid) (s : Sys), (Sys.machine runId).Reachable s →
    Always (fun pre obs => ∀ c agent page, obs = .gave c agent page →
      ∀ u ∈ page, ¬ MarkedIn pre agent u.itemId) s.log := by
  intro h
  have hrun : ∃ s, (Sys.machine 0).run ([.agent 5, .registrationEnded 5] ++ cutRun 0 ++
      giveRun 0 ++ cutRun 1 ++ markRun 0 ++ giveRun 1) = some s ∧
      s.log = [.registrationEnded 5, .cut 0 5 [completedNotice], .gave 0 5 [completedNotice],
        .cut 1 5 [completedNotice], .marked 0 5 7,
        .held 0 (.marker 0 7 5 7) (some (.finish 0 9 7))] ++ [.gave 1 5 [completedNotice]] :=
    ⟨_, rfl, rfl⟩
  obtain ⟨s, hs, hlog⟩ := hrun
  have hleft := h 0 s (Machine.reachable_of_run _ hs)
  rw [hlog] at hleft
  refine hleft.last 1 5 [completedNotice] rfl completedNotice (by simp) ⟨0, ?_⟩
  show Obs.marked 0 5 7 ∈ _
  simp

end RunnerKit.InboxPort.Waiting
