import RunnerKit.Toolkit.Arrival

/-!
# What the keeper keeps

The failure that the end store keeps is set and cleared from different places
of the keeper. An invariant ties it to the flag of the keeper, to its place
and to what the log of the run says last.
-/

namespace RunnerKit.Toolkit.Arrival

open RunnerKit.Jobs RunnerKit.Lib
open RunnerKit.EndWait (Sys Obs Outcome)

/-! ## What the log says last -/

/-- A failure that the store has taken stands until the next opening. -/
def Note.stands : Note → Option (Option Error)
  | .book (.failed error) => some (some error)
  | .opened _ => some none
  | _ => none

/-- An end with `InfraMissing` is owed to the store until the store takes it, or a panic comes
first. -/
def Note.owes : Note → Option (Option Error)
  | .ended error => some (if error.isInfraMissing then some error else none)
  | .book (.failed _) => some none
  | .panicked => some none
  | _ => none

/-- The feed that is open. -/
def Note.feed : Note → Option (Option ℕ)
  | .opened n => some (some n)
  | .closed _ => some none
  | _ => none

def Note.isOpened : Note → Bool
  | .opened _ => true
  | _ => false

def Note.book? : Note → Option Obs
  | .book obs => some obs
  | _ => none

/-- The note is one of the waits, or of an outcome that was recorded. -/
def Note.aside : Note → Bool
  | .book (.failed _) | .book .reopened => false
  | .book _ => true
  | _ => false

theorem Note.of_aside {note : Note} (h : note.aside = true) :
    note.stands = none ∧ note.owes = none ∧ note.feed = none ∧ note.isOpened = false := by
  cases note with
  | book obs => cases obs <;> first | exact ⟨rfl, rfl, rfl, rfl⟩ | cases h
  | _ => cases h

/-! ## The steps of the waits -/

section Waits

variable {s s' : Sys}

/-- A step that leaves the failures of the store alone. -/
structure Aside (s s' : Sys) : Prop where
  held : s'.held.kept = s.held.kept
  log : ∃ more, s'.log = s.log ++ more ∧ ∀ obs ∈ more, (Note.book obs).aside = true

theorem Aside.same (hheld : s'.held = s.held) (hlog : s'.log = s.log) : Aside s s' :=
  ⟨by rw [hheld], [], by rw [hlog, List.append_nil], by simp⟩

theorem Aside.snoc {obs : Obs} (hheld : s'.held = s.held) (hlog : s'.log = s.log ++ [obs])
    (haside : (Note.book obs).aside = true) : Aside s s' :=
  ⟨by rw [hheld], [obs], hlog, by simpa using haside⟩

theorem released_aside (hheld : s'.held = s.held) (hlog : s'.log = s.log) :
    Aside s s'.released := by
  unfold EndWait.Sys.released
  split
  · exact .same hheld hlog
  · exact .snoc hheld (by rw [← hlog]) rfl

theorem arrival_aside {arrival : Arrival} (hs : s.step (.arrival arrival) = some s') :
    Aside s s' := by
  have hrecord : ∀ child outcome, Aside s (s.record child outcome) := by
    intro child outcome
    refine ⟨?_, [_], rfl, by simp [Note.aside]⟩
    simp only [EndWait.Sys.record, EndWait.Held.record]
    split <;> rfl
  simp only [EndWait.Sys.step] at hs
  split at hs <;> cases hs
  cases arrival with
  | item item => exact .same rfl rfl
  | syncEnd child ended => exact hrecord child _
  | unreadable child error =>
      cases child with
      | none => exact .same rfl rfl
      | some child => exact hrecord child _

theorem signal_aside (hs : s.step .signal = some s') : Aside s s' := by
  simp only [EndWait.Sys.step] at hs
  split at hs <;> cases hs
  exact .same rfl rfl

theorem dropBook_aside (hs : s.step .dropBook = some s') : Aside s s' := by
  simp only [EndWait.Sys.step] at hs
  split at hs <;> cases hs
  exact released_aside rfl rfl

theorem wait_aside {event : EndWait.Event} (he : ofWait event = true)
    (hs : s.step event = some s') : Aside s s' := by
  cases event with
  | watching child =>
      cases hs
      exact .same rfl rfl
  | poll w =>
      obtain ⟨wait, hw, hs⟩ := Option.bind_eq_some_iff.mp hs
      unfold EndWait.Sys.poll at hs
      split at hs <;> cases hs
      · exact .same rfl rfl
      · exact .same rfl rfl
      · exact .snoc rfl rfl rfl
  | step w =>
      obtain ⟨wait, hw, hs⟩ := Option.bind_eq_some_iff.mp hs
      unfold EndWait.Sys.waitStep at hs
      split at hs <;> cases hs
      · exact .snoc rfl rfl rfl
      · exact released_aside rfl rfl
      · unfold EndWait.Sys.upgrade
        split
        · exact .same rfl rfl
        · exact .snoc rfl rfl rfl
      · unfold EndWait.Sys.decideSection
        cases s.held.decide wait.child wait.generation with
        | none => exact .same rfl rfl
        | some outcome => exact .snoc rfl rfl rfl
      · rename_i decision _
        cases decision <;> exact released_aside rfl rfl
      · unfold EndWait.Sys.check
        split
        · exact .same rfl rfl
        · split
          · exact .same rfl rfl
          · exact .snoc rfl rfl rfl
  | abandon w =>
      obtain ⟨wait, hw, hs⟩ := Option.bind_eq_some_iff.mp hs
      unfold EndWait.Sys.abandon at hs
      split at hs <;> cases hs <;> exact .same rfl rfl
  | _ => cases he

end Waits

/-! ## The invariant -/

/-- A feed is open and has not ended. -/
def KeepPlace.fed : KeepPlace → Bool
  | .reopening | .reopened | .reading | .storing => true
  | _ => false

/-- No feed is open. -/
def KeepPlace.unfed : KeepPlace → Bool
  | .opening | .panicked _ _ | .resting | .gone => true
  | _ => false

/-- A feed is opened when none is open, and closed when it is the open one; the store takes the
failure that is owed, and is reopened while a feed is open. -/
def InTurn (pre : List Note) : Note → Prop
  | .opened n => said Note.feed pre = none ∧ n = pre.countP Note.isOpened
  | .closed n => said Note.feed pre = some n
  | .book (.failed error) => said Note.owes pre = some error
  | .book .reopened => (said Note.feed pre).isSome
  | _ => True

structure KeeperInv (k : Keeper) : Prop where
  store : EndWait.Sys.machine.Reachable k.store
  book : k.log.filterMap Note.book? = k.store.log
  flag : k.place.reads = true → k.wasCut = false
  quiet : k.place.tells = false → k.wasCut = false → k.store.held.kept = none
  reopened : k.place = .reopened → k.store.held.kept = none
  standing : k.place.fed = true → said Note.stands k.log = none
  stands : ∀ e, said Note.stands k.log = some e → k.store.held.kept = some e
  owes : ∀ e, said Note.owes k.log = some e ↔
    e.isInfraMissing = true ∧ k.place = .ending e .called
  feed : said Note.feed k.log = k.feed
  fed : k.place.fed = true → k.feed.isSome
  unfed : k.place.unfed = true → k.feed = none
  feeds : k.feeds = k.log.countP Note.isOpened
  turns : Always InTurn k.log

variable {k k' : Keeper}

theorem keeperInv_init : KeeperInv Keeper.init where
  store := Machine.Reachable.init
  book := rfl
  flag := fun h => by cases h
  quiet := fun _ _ => rfl
  reopened := fun h => by cases h
  standing := fun h => by cases h
  stands := fun e h => by cases h
  owes := by simp [Keeper.init, said]
  feed := rfl
  fed := fun h => by cases h
  unfed := fun _ => rfl
  feeds := rfl
  turns := always_nil

theorem inTurn_aside {pre : List Note} {note : Note} (h : note.aside = true) :
    InTurn pre note := by
  cases note with
  | book obs =>
      cases obs with
      | failed error => cases h
      | reopened => cases h
      | _ => trivial
  | _ => trivial

theorem book_map (more : List Obs) : (more.map Note.book).filterMap Note.book? = more := by
  rw [List.filterMap_map]
  exact List.filterMap_some

theorem countP_aside {more : List Note} (h : ∀ note ∈ more, note.aside = true) :
    more.countP Note.isOpened = 0 := by
  refine List.countP_eq_zero.mpr fun note hnote => ?_
  simp [(Note.of_aside (h note hnote)).2.2.2]

theorem reachable_step {s s' : Sys} {event : EndWait.Event}
    (h : EndWait.Sys.machine.Reachable s) (hs : s.step event = some s') :
    EndWait.Sys.machine.Reachable s' :=
  Machine.Reachable.step h hs

/-- A step beside the failures: the store goes on, the flag and the feed stay. -/
theorem KeeperInv.move (h : KeeperInv k) (hstore : EndWait.Sys.machine.Reachable k'.store)
    {more : List Obs} (hlog : k'.log = k.log ++ more.map .book)
    (hbook : k'.store.log = k.store.log ++ more)
    (hmore : ∀ obs ∈ more, (Note.book obs).aside = true)
    (hkept : k'.store.held.kept = k.store.held.kept) (hcut : k'.wasCut = k.wasCut)
    (hfeed : k'.feed = k.feed) (hfeeds : k'.feeds = k.feeds)
    (hreads : k'.place.reads = true → k.wasCut = false)
    (htells : k'.place.tells = false → k.place.tells = false)
    (hreopened : k'.place = .reopened → k.place = .reopened)
    (hfed : k'.place.fed = true → k.place.fed = true)
    (hunfed : k'.place.unfed = true → k.place.unfed = true)
    (hcalled : ∀ e, e.isInfraMissing = true →
      (k'.place = .ending e .called ↔ k.place = .ending e .called)) : KeeperInv k' := by
  have haside : ∀ note ∈ more.map Note.book, note.aside = true := by
    intro note hnote
    obtain ⟨obs, hobs, rfl⟩ := List.mem_map.mp hnote
    exact hmore obs hobs
  have hstands : said Note.stands k'.log = said Note.stands k.log := by
    rw [hlog]
    exact said_append fun note hnote => (Note.of_aside (haside note hnote)).1
  have howes : said Note.owes k'.log = said Note.owes k.log := by
    rw [hlog]
    exact said_append fun note hnote => (Note.of_aside (haside note hnote)).2.1
  refine ⟨hstore, ?_, ?_, ?_, ?_, ?_, ?_, ?_, ?_, ?_, ?_, ?_, ?_⟩
  · rw [hlog, List.filterMap_append, h.book, book_map, hbook]
  · rw [hcut]
    exact hreads
  · rw [hcut, hkept]
    exact fun ht => h.quiet (htells ht)
  · rw [hkept]
    exact fun hr => h.reopened (hreopened hr)
  · rw [hstands]
    exact fun hf => h.standing (hfed hf)
  · rw [hstands, hkept]
    exact h.stands
  · intro e
    rw [howes, h.owes e]
    exact and_congr_right fun he => (hcalled e he).symm
  · rw [hfeed, ← h.feed, hlog]
    exact said_append fun note hnote => (Note.of_aside (haside note hnote)).2.2.1
  · rw [hfeed]
    exact fun hf => h.fed (hfed hf)
  · rw [hfeed]
    exact fun hu => h.unfed (hunfed hu)
  · rw [hfeeds, h.feeds, hlog, List.countP_append, countP_aside haside, Nat.add_zero]
  · rw [hlog]
    exact always_append h.turns fun note hnote pre => inTurn_aside (haside note hnote)

/-- The keeper takes a step of the store that leaves the failures alone. -/
theorem KeeperInv.onStore (h : KeeperInv k) {event : EndWait.Event} {store : Sys}
    (hs : k.store.step event = some store) (haside : Aside k.store store) {place : KeepPlace}
    (hreads : place.reads = true → k.wasCut = false)
    (htells : place.tells = false → k.place.tells = false)
    (hreopened : place = .reopened → k.place = .reopened)
    (hfed : place.fed = true → k.place.fed = true)
    (hunfed : place.unfed = true → k.place.unfed = true)
    (hcalled : ∀ e, e.isInfraMissing = true →
      (place = .ending e .called ↔ k.place = .ending e .called)) :
    KeeperInv ((k.onStore store).atPlace place) := by
  obtain ⟨more, hlog, hmore⟩ := haside.log
  have hnotes : (store.log.drop k.store.log.length).map Note.book = more.map Note.book := by
    rw [hlog, List.drop_left]
  refine h.move (reachable_step h.store hs) ?_ hlog hmore
    haside.held rfl rfl rfl hreads htells hreopened hfed hunfed hcalled
  exact congrArg (k.log ++ ·) hnotes

/-- A step of the keeper that touches nothing but its place. -/
theorem KeeperInv.atPlace (h : KeeperInv k) {place : KeepPlace}
    (hreads : place.reads = true → k.wasCut = false)
    (htells : place.tells = false → k.place.tells = false)
    (hreopened : place = .reopened → k.place = .reopened)
    (hfed : place.fed = true → k.place.fed = true)
    (hunfed : place.unfed = true → k.place.unfed = true)
    (hcalled : ∀ e, e.isInfraMissing = true →
      (place = .ending e .called ↔ k.place = .ending e .called)) :
    KeeperInv (k.atPlace place) :=
  h.move h.store (List.append_nil _).symm
    (List.append_nil _).symm (by simp) rfl rfl rfl rfl hreads htells hreopened hfed hunfed hcalled

theorem KeeperInv.openOk (h : KeeperInv k) (hp : k.place = .opening) :
    KeeperInv k.openOk := by
  have hnone : k.feed = none := h.unfed (by rw [hp]; rfl)
  have htells : k.place.tells = false := by rw [hp]; rfl
  refine ⟨h.store, ?_, ?_, ?_, ?_, ?_, ?_, ?_, ?_, ?_, ?_, ?_, ?_⟩
  · rw [show k.openOk.log = k.log ++ [.opened k.feeds] from rfl, List.filterMap_append, h.book]
    exact List.append_nil _
  · intro hreads
    cases hc : k.wasCut with
    | false => exact hc
    | true => simp [Keeper.openOk, hc, KeepPlace.reads] at hreads
  · exact fun _ hc => h.quiet htells hc
  · intro hr
    cases hc : k.wasCut <;> simp [Keeper.openOk, hc] at hr
  · intro _
    simp [Keeper.openOk, said_snoc, Note.stands]
  · intro e he
    simp [Keeper.openOk, said_snoc, Note.stands] at he
  · intro e
    have hold : said Note.owes k.openOk.log = said Note.owes k.log := by
      simp [Keeper.openOk, said_snoc, Note.owes]
    rw [hold, h.owes e, hp]
    cases hc : k.wasCut <;> simp [Keeper.openOk, hc]
  · simp [Keeper.openOk, said_snoc, Note.feed]
  · exact fun _ => rfl
  · intro hu
    cases hc : k.wasCut <;> simp [Keeper.openOk, hc, KeepPlace.unfed] at hu
  · simp [Keeper.openOk, h.feeds, Note.isOpened]
  · refine always_snoc.mpr ⟨h.turns, ?_, h.feeds⟩
    rw [h.feed, hnone]

theorem KeeperInv.endWith (h : KeeperInv k) (error : Error) : KeeperInv (k.endWith error) := by
  refine ⟨h.store, ?_, nofun, nofun, nofun, nofun, ?_, ?_, ?_, nofun, nofun, ?_, ?_⟩
  · rw [show (k.endWith error).log = k.log ++ [.ended error] from rfl, List.filterMap_append,
      h.book]
    exact List.append_nil _
  · intro e he
    exact h.stands e (by simpa [Keeper.endWith, said_snoc, Note.stands] using he)
  · intro e
    simp only [Keeper.endWith, said_snoc, Note.owes, Option.getD_some]
    constructor
    · intro he
      split at he <;> cases he
      exact ⟨‹_›, rfl⟩
    · rintro ⟨hmissing, heq⟩
      cases heq
      rw [if_pos hmissing]
  · simpa [Keeper.endWith, said_snoc, Note.feed] using h.feed
  · simpa [Keeper.endWith, Note.isOpened] using h.feeds
  · exact always_snoc.mpr ⟨h.turns, trivial⟩

/-- The book is told of the opening. -/
theorem KeeperInv.reopen (h : KeeperInv k) (hp : k.place = .reopening) {store : Sys}
    (hs : k.store.step .arrivalOpenAgain = some store) :
    KeeperInv ((k.onStore store).atPlace .reopened) := by
  have hstore := reachable_step h.store hs
  have hbook : store = k.store.arrivalOpenAgain := by
    simp only [EndWait.Sys.step] at hs
    split at hs <;> cases hs
    rfl
  have hlog : ((k.onStore store).atPlace .reopened).log = k.log ++ [.book .reopened] := by
    simp [Keeper.onStore, Keeper.atPlace, hbook, EndWait.Sys.arrivalOpenAgain]
  have hkept : ((k.onStore store).atPlace .reopened).store.held.kept = none := by
    simp [Keeper.onStore, Keeper.atPlace, hbook, EndWait.Sys.arrivalOpenAgain,
      EndWait.Held.reopened]
  have hstanding : said Note.stands ((k.onStore store).atPlace .reopened).log = none := by
    rw [hlog, said_snoc]
    exact h.standing (by rw [hp]; rfl)
  have hsome : k.feed.isSome := h.fed (by rw [hp]; rfl)
  refine ⟨hstore, ?_, fun hr => (by cases hr), fun _ _ => hkept, fun _ => hkept,
    fun _ => hstanding, ?_, ?_, ?_, fun _ => hsome, fun hu => (by cases hu), ?_, ?_⟩
  · rw [hlog, List.filterMap_append, h.book]
    simp [Note.book?, Keeper.onStore, Keeper.atPlace, hbook, EndWait.Sys.arrivalOpenAgain]
  · intro e he
    rw [hstanding] at he
    cases he
  · intro e
    rw [hlog, said_snoc, show Note.owes (.book .reopened) = none from rfl, Option.getD_none,
      h.owes e, hp]
    simp [Keeper.atPlace]
  · rw [hlog, said_snoc]
    exact h.feed
  · rw [hlog]
    simpa [Note.isOpened, Keeper.onStore, Keeper.atPlace] using h.feeds
  · rw [hlog]
    refine always_snoc.mpr ⟨h.turns, ?_⟩
    show (said Note.feed k.log).isSome
    rw [h.feed]
    exact hsome

/-- The flag is cleared behind the call. -/
theorem KeeperInv.reread (h : KeeperInv k) (hp : k.place = .reopened) :
    KeeperInv { k with wasCut := false, place := .reading } where
  store := h.store
  book := h.book
  flag := fun _ => rfl
  quiet := fun _ _ => h.reopened hp
  reopened := nofun
  standing := fun _ => h.standing (by rw [hp]; rfl)
  stands := h.stands
  owes := by
    intro e
    rw [h.owes e, hp]
    simp
  feed := h.feed
  fed := fun _ => h.fed (by rw [hp]; rfl)
  unfed := nofun
  feeds := h.feeds
  turns := h.turns

/-- The store takes the failure that is told. -/
theorem KeeperInv.fail (h : KeeperInv k) {error : Error}
    (hp : k.place = .ending error .called) (hmissing : error.isInfraMissing = true)
    {store : Sys} (hs : k.store.step (.arrivalEnded error) = some store) :
    KeeperInv ((k.onStore store).atPlace (.ending error .signalling)) := by
  have hstore := reachable_step h.store hs
  have hreadable : error.isUnreadable = false := by
    cases error <;> first | rfl | cases hmissing
  have hbook : store = { k.store with
      held := k.store.held.infraMissing error
      due := k.store.due + 1
      log := k.store.log ++ [.failed error] } := by
    simp only [EndWait.Sys.step] at hs
    split at hs <;> cases hs
    simp [EndWait.Sys.arrivalEnded, hreadable, hmissing]
  have hlog : ((k.onStore store).atPlace (.ending error .signalling)).log =
      k.log ++ [.book (.failed error)] := by
    simp [Keeper.onStore, Keeper.atPlace, hbook]
  have howed := (h.owes error).mpr ⟨hmissing, hp⟩
  refine ⟨hstore, ?_, fun hr => (by cases hr), fun hr => (by cases hr), fun hr => (by cases hr),
    fun hr => (by cases hr), ?_, ?_, ?_, fun hr => (by cases hr), fun hr => (by cases hr), ?_, ?_⟩
  · rw [hlog, List.filterMap_append, h.book]
    simp [Note.book?, Keeper.onStore, Keeper.atPlace, hbook]
  · intro e he
    rw [hlog, said_snoc] at he
    cases he
    simp [Keeper.onStore, Keeper.atPlace, hbook, EndWait.Held.infraMissing]
  · intro e
    rw [hlog, said_snoc]
    simp [Note.owes, Keeper.atPlace]
  · rw [hlog, said_snoc]
    exact h.feed
  · rw [hlog]
    simpa [Note.isOpened, Keeper.onStore, Keeper.atPlace] using h.feeds
  · rw [hlog]
    exact always_snoc.mpr ⟨h.turns, howed⟩

/-! ## Ends of a cycle -/

theorem drop_log (k : Keeper) :
    (k.drop.log.filterMap Note.book? = k.log.filterMap Note.book?) ∧
      said Note.stands k.drop.log = said Note.stands k.log ∧
      said Note.owes k.drop.log = said Note.owes k.log ∧
      k.drop.log.countP Note.isOpened = k.log.countP Note.isOpened := by
  unfold Keeper.drop
  cases k.feed with
  | none => simp
  | some n =>
      simp [Note.book?, said_snoc, Note.stands, Note.owes, Note.isOpened]

theorem KeeperInv.drop_feed (h : KeeperInv k) : said Note.feed k.drop.log = none := by
  have hfeed := h.feed
  unfold Keeper.drop
  cases hf : k.feed with
  | none => simpa [hf] using hfeed
  | some n => simp [said_snoc, Note.feed]

theorem KeeperInv.drop_turns (h : KeeperInv k) : Always InTurn k.drop.log := by
  have hfeed := h.feed
  have hturns := h.turns
  unfold Keeper.drop
  cases hf : k.feed with
  | none => simpa using hturns
  | some n =>
      refine always_snoc.mpr ⟨hturns, ?_⟩
      show said Note.feed k.log = some n
      rw [hfeed, hf]

/-- The cycle is over: no feed is open any more. -/
theorem KeeperInv.leave (h : KeeperInv k) {place : KeepPlace} {wasCut : Bool}
    (hunfed : place.unfed = true) (htells : place.tells = true ∨
      wasCut = true ∨ wasCut = k.wasCut ∧ k.place.tells = false)
    (hnot : ∀ e, e.isInfraMissing = true → k.place ≠ .ending e .called) :
    KeeperInv { k.drop with wasCut := wasCut, place := place } := by
  obtain ⟨hbook, hstands, howes, hcount⟩ := drop_log k
  have hfed : place.fed = false := by cases place <;> first | rfl | cases hunfed
  have hreads : place.reads = false := by cases place <;> first | rfl | cases hunfed
  refine ⟨h.store, ?_, ?_, ?_, ?_, ?_, ?_, ?_, ?_, ?_, fun _ => rfl, ?_, h.drop_turns⟩
  · exact hbook.trans h.book
  · exact fun hr => absurd (hr : place.reads = true) (by simp [hreads])
  · intro ht hc
    have hcut : wasCut = false := hc
    rcases htells with hp | hp | ⟨hp, hquiet⟩
    · rw [show place.tells = false from ht] at hp
      cases hp
    · rw [hcut] at hp
      cases hp
    · exact h.quiet hquiet (by rw [← hp, hcut])
  · rintro rfl
    cases hunfed
  · exact fun hf => absurd (hf : place.fed = true) (by simp [hfed])
  · intro e he
    exact h.stands e (hstands ▸ he)
  · intro e
    rw [show ({ k.drop with wasCut := wasCut, place := place } : Keeper).log = k.drop.log from rfl,
      howes, h.owes e]
    constructor
    · rintro ⟨hmissing, hp⟩
      exact absurd hp (hnot e hmissing)
    · rintro ⟨-, rfl⟩
      cases hunfed
  · exact h.drop_feed
  · exact fun hf => absurd (hf : place.fed = true) (by simp [hfed])
  · exact h.feeds.trans hcount.symm

theorem KeeperInv.unwind (h : KeeperInv k) (text : String) : KeeperInv (k.unwind text) := by
  obtain ⟨hbook, hstands, howes, hcount⟩ := drop_log k
  have hlog : (k.unwind text).log = k.drop.log ++ [.panicked] := rfl
  refine ⟨h.store, ?_, nofun, nofun, nofun, nofun, ?_, ?_, ?_, nofun, fun _ => rfl, ?_, ?_⟩
  · rw [hlog, List.filterMap_append, hbook, h.book]
    exact List.append_nil _
  · intro e he
    rw [hlog, said_snoc] at he
    exact h.stands e (hstands ▸ he)
  · intro e
    rw [hlog, said_snoc]
    simp [Note.owes, Keeper.unwind]
  · rw [hlog, said_snoc]
    exact h.drop_feed
  · rw [hlog, List.countP_append, hcount]
    exact h.feeds
  · rw [hlog]
    exact always_snoc.mpr ⟨h.drop_turns, trivial⟩

/-! ## Every step -/

theorem KeeperInv.tell (h : KeeperInv k) {error : Error} {part : Telling}
    {place : Telling → KeepPlace} (hp : k.place = place part)
    (hplace : place = .ending error ∨
      ∃ text, place = .panicked text ∧ error.isInfraMissing = false)
    (hs : k.tell error place part = some k') : KeeperInv k' := by
  have htells : ∀ p, (place p).tells = true := by
    rcases hplace with rfl | ⟨text, rfl, -⟩ <;> exact fun _ => rfl
  have hreads : ∀ p, (place p).reads = false := by
    rcases hplace with rfl | ⟨text, rfl, -⟩ <;> exact fun _ => rfl
  have hfed : ∀ p, (place p).fed = false := by
    rcases hplace with rfl | ⟨text, rfl, -⟩ <;> exact fun _ => rfl
  have hunfed : ∀ p q, (place p).unfed = (place q).unfed := by
    rcases hplace with rfl | ⟨text, rfl, -⟩ <;> exact fun _ _ => rfl
  have hreopened : ∀ p, place p ≠ .reopened := by
    rcases hplace with rfl | ⟨text, rfl, -⟩ <;> exact fun _ => nofun
  -- Only the first part of telling an `InfraMissing` owes anything.
  have hcalled : ∀ p e, e.isInfraMissing = true → place p = .ending e .called →
      p = .called ∧ error.isInfraMissing = true := by
    intro p e he heq
    rcases hplace with rfl | ⟨text, rfl, -⟩
    · cases heq
      exact ⟨rfl, he⟩
    · cases heq
  cases part with
  | called =>
      simp only [Keeper.tell] at hs
      split at hs
      · rename_i hunreadable
        cases hs
        refine h.leave rfl (Or.inr (Or.inl rfl)) fun e he heq => ?_
        have hmissing := (hcalled .called e he (hp ▸ heq)).2
        cases error with
        | infraMissing _ => cases hunreadable
        | _ => cases hmissing
      · split at hs
        · rename_i hmissing
          obtain ⟨store, hstep, rfl⟩ := Option.map_eq_some_iff.mp hs
          rcases hplace with rfl | ⟨text, rfl, hnot⟩
          · exact h.fail hp hmissing hstep
          · rw [hmissing] at hnot
            cases hnot
        · rename_i hnot
          cases hs
          refine h.atPlace ?_ ?_ ?_ ?_ ?_ fun e he => ⟨fun heq => ?_, fun heq => ?_⟩
          · simp [hreads]
          · simp [htells]
          · exact fun hr => absurd hr (hreopened _)
          · simp [hfed]
          · rw [hp, hunfed .waking .called]
            exact id
          · cases (hcalled .waking e he heq).1
          · exact absurd (hcalled .called e he (hp ▸ heq)).2 hnot
  | signalling =>
      obtain ⟨store, hstep, rfl⟩ := Option.map_eq_some_iff.mp hs
      refine h.onStore hstep (signal_aside hstep) ?_ ?_ ?_ ?_ ?_
        fun e he => ⟨fun heq => ?_, fun heq => ?_⟩
      · simp [hreads]
      · simp [htells]
      · exact fun hr => absurd hr (hreopened _)
      · simp [hfed]
      · rw [hp, hunfed .waking .signalling]
        exact id
      · cases (hcalled .waking e he heq).1
      · cases (hcalled .signalling e he (hp ▸ heq)).1
  | waking =>
      cases hs
      refine h.leave rfl (Or.inr (Or.inl rfl)) fun e he heq => ?_
      cases (hcalled .waking e he (hp ▸ heq)).1

theorem KeeperInv.go (h : KeeperInv k) (hs : k.go = some k') : KeeperInv k' := by
  unfold Keeper.go at hs
  split at hs
  · obtain ⟨store, hstep, rfl⟩ := Option.map_eq_some_iff.mp hs
    exact h.reopen ‹_› hstep
  · cases hs
    exact h.reread ‹_›
  · rename_i hp
    obtain ⟨store, hstep, rfl⟩ := Option.map_eq_some_iff.mp hs
    refine h.onStore hstep (signal_aside hstep) ?_ ?_ nofun ?_ nofun ?_
    · exact fun _ => h.flag (by rw [hp]; rfl)
    · exact fun _ => by rw [hp]; rfl
    · exact fun _ => by rw [hp]; rfl
    · simp [hp]
  · exact h.tell ‹_› (Or.inl rfl) hs
  · exact h.tell ‹_› (Or.inr ⟨_, rfl, rfl⟩) hs
  · cases hs

theorem KeeperInv.panic (h : KeeperInv k) {text : String} (hs : k.panic text = some k') :
    KeeperInv k' := by
  -- The second panic is caught behind the unwinding, with no feed open.
  have hcaught : ∀ t part, k.place = .panicked t part →
      KeeperInv { k with wasCut := true, place := .resting } := by
    intro t part hp
    have hnone : k.feed = none := h.unfed (by rw [hp]; rfl)
    have hleave : KeeperInv { k.drop with wasCut := true, place := .resting } :=
      h.leave rfl (Or.inr (Or.inl rfl)) fun e _ heq => by rw [hp] at heq; cases heq
    have hsame : k.drop = k := by
      unfold Keeper.drop
      obtain ⟨store, place, wasCut, feed, feeds, log⟩ := k
      obtain rfl : feed = none := hnone
      simp
    rwa [hsame] at hleave
  unfold Keeper.panic at hs
  split at hs <;> cases hs
  · exact h.unwind text
  · exact h.unwind text
  · exact h.unwind text
  · exact h.unwind text
  · exact h.unwind text
  · exact h.unwind text
  · exact hcaught _ _ ‹_›
  · exact hcaught _ _ ‹_›

theorem KeeperInv.aside (h : KeeperInv k) {event : EndWait.Event} {store : Sys}
    (hs : k.store.step event = some store) (haside : Aside k.store store) :
    KeeperInv (k.onStore store) :=
  h.onStore hs haside h.flag id id id id fun _ _ => Iff.rfl

theorem KeeperInv.step (h : KeeperInv k) {event : KeepEvent} (hs : k.step event = some k') :
    KeeperInv k' := by
  cases event with
  | openOk =>
      simp only [Keeper.step] at hs
      split at hs <;> cases hs
      exact h.openOk ‹_›
  | openErr error =>
      simp only [Keeper.step] at hs
      split at hs <;> cases hs
      exact h.endWith error
  | next arrival =>
      simp only [Keeper.step] at hs
      split at hs
      · rename_i hp
        obtain ⟨store, hstep, rfl⟩ := Option.map_eq_some_iff.mp hs
        have hplace : ∀ place, place = .reading ∨ place = .storing →
            KeeperInv ((k.onStore store).atPlace place) := by
          intro place hplace
          refine h.onStore hstep (arrival_aside hstep) ?_ ?_ ?_ ?_ ?_ ?_
          · exact fun _ => h.flag (by rw [hp]; rfl)
          · exact fun _ => by rw [hp]; rfl
          · rcases hplace with rfl | rfl <;> exact nofun
          · exact fun _ => by rw [hp]; rfl
          · rcases hplace with rfl | rfl <;> exact nofun
          · rcases hplace with rfl | rfl <;> simp [hp]
        split_ifs
        · exact hplace _ (Or.inl rfl)
        · exact hplace _ (Or.inr rfl)
      · cases hs
  | nextErr error =>
      simp only [Keeper.step] at hs
      split at hs <;> cases hs
      exact h.endWith error
  | go => exact h.go hs
  | panic text => exact h.panic hs
  | beat =>
      simp only [Keeper.step] at hs
      split at hs <;> cases hs
      rename_i hp
      refine h.atPlace nofun ?_ nofun nofun ?_ ?_
      · exact fun _ => by rw [hp]; rfl
      · exact fun _ => by rw [hp]; rfl
      · simp [hp]
  | abort =>
      simp only [Keeper.step] at hs
      split at hs <;> cases hs <;>
        · rename_i hp
          refine h.leave rfl (Or.inr (Or.inr ⟨rfl, by rw [hp]; rfl⟩)) fun e _ heq => ?_
          rw [hp] at heq
          cases heq
  | aside event =>
      simp only [Keeper.step] at hs
      split at hs
      · obtain ⟨store, hstep, rfl⟩ := Option.map_eq_some_iff.mp hs
        exact h.aside hstep (dropBook_aside hstep)
      · split at hs
        · rename_i hwait
          obtain ⟨store, hstep, rfl⟩ := Option.map_eq_some_iff.mp hs
          exact h.aside hstep (wait_aside hwait hstep)
        · cases hs

theorem keeperInv (h : Keeper.machine.Reachable k) : KeeperInv k :=
  h.invariant (P := KeeperInv) keeperInv_init fun hp hs => hp.step hs

/-! ## What the waits of the Run see -/

/-- Behind a reopening with no failure after it nothing is kept. -/
theorem keptFailure_reopened {pre post : List Obs} (h : ∀ e, .failed e ∉ post) :
    EndWait.keptFailure (pre ++ .reopened :: post) = none := by
  induction post using List.reverseRecOn with
  | nil => rw [EndWait.keptFailure_snoc]
  | append_singleton post obs ih =>
      have hrest := ih fun e he => h e (List.mem_append_left _ he)
      rw [← List.cons_append, ← List.append_assoc, EndWait.keptFailure_snoc]
      cases obs with
      | failed e => exact absurd (by simp) (h e)
      | _ => first | rfl | exact hrest

/-- A wait that was opened behind the last failure has seen none. -/
theorem failuresSince_opened {log post : List Obs} {w : ℕ} (h : ∀ e, .failed e ∉ post)
    (hw : .opened w ∈ post) : EndWait.failuresSince w (log ++ post) = 0 := by
  induction post using List.reverseRecOn with
  | nil => cases hw
  | append_singleton post obs ih =>
      have hrest : ∀ e, .failed e ∉ post := fun e he => h e (List.mem_append_left _ he)
      rw [← List.append_assoc, EndWait.failuresSince_snoc]
      rcases List.mem_append.mp hw with hw | hw
      · have hzero := ih hrest hw
        cases obs with
        | failed e => exact absurd (by simp) (h e)
        | opened w' =>
            simp only []
            split_ifs
            · rfl
            · exact hzero
        | _ => exact hzero
      · obtain rfl := List.mem_singleton.mp hw
        simp

/-- What the keeper keeps, and what the waits of its Run see, in one state. -/
structure ArrivalKept (k : Keeper) : Prop where
  /-- A feed that is open and read is healthy: no failure is kept. -/
  healthy : k.place.reads = true → k.feed.isSome ∧ k.store.held.kept = none
  /-- A feed is opened only when none is open, each with the next number; it is closed once,
  and the book is told of an opening only while a feed is open. -/
  turns : Always InTurn k.log
  open_feed : said Note.feed k.log = k.feed
  book : k.log.filterMap Note.book? = k.store.log
  /-- An end or a failed opening with `InfraMissing` that no panic has come before is about to
  be told, or the store has taken it. -/
  owed : ∀ e, said Note.owes k.log = some e → k.place = .ending e .called
  /-- From there to the next opening every wait that has no outcome fails as it looks. -/
  fails : ∀ e, said Note.stands k.log = some e → ∀ w wait, k.store.waits w = some wait →
    wait.place.watches = true → EndWait.firstOutcome wait.child k.store.log = none →
    k.store.held.decide wait.child wait.generation = some (.error e)
  /-- A wait that was opened before a failure fails also behind the reopening. -/
  fails_later : ∀ w wait, k.store.waits w = some wait → wait.place.watches = true →
    EndWait.failuresSince w k.store.log ≠ 0 →
    k.store.held.decide wait.child wait.generation ≠ none
  /-- A parked wait sleeps on no failure whose signal is given. -/
  woken : ∀ w wait, k.store.waits w = some wait → wait.place = .parked →
    wait.seen = k.store.version →
    k.store.held.decide wait.child wait.generation = none ∨ 0 < k.store.due
  /-- A wait that was opened behind `arrival_open_again` fails because of no failure before. -/
  fresh : ∀ pre post w wait, k.store.log = pre ++ .reopened :: post → .opened w ∈ post →
    (∀ e, .failed e ∉ post) → k.store.waits w = some wait → wait.place.watches = true →
    k.store.held.decide wait.child wait.generation =
      EndWait.firstOutcome wait.child k.store.log

theorem arrival_kept (h : Keeper.machine.Reachable k) : ArrivalKept k := by
  have hinv := keeperInv h
  have hstore := EndWait.Sys.storeInv hinv.store
  refine ⟨?_, hinv.turns, hinv.feed, hinv.book, ?_, ?_, ?_, ?_, ?_⟩
  · intro hreads
    have hfed : k.place.fed = true := by
      revert hreads
      cases k.place <;> simp [KeepPlace.reads, KeepPlace.fed]
    have htells : k.place.tells = false := by
      revert hreads
      cases k.place <;> simp [KeepPlace.reads, KeepPlace.tells]
    exact ⟨hinv.fed hfed, hinv.quiet htells (hinv.flag hreads)⟩
  · exact fun e he => ((hinv.owes e).mp he).2
  · intro e he w wait hw hwatches hnone
    have hkept := hinv.stands e he
    rw [hstore.decide_eq hw hwatches]
    unfold EndWait.decision
    rw [hnone, ← hstore.kept, hkept]
    rfl
  · intro w wait hw hwatches hsince
    rw [hstore.decide_eq hw hwatches]
    unfold EndWait.decision
    rw [if_neg hsince]
    intro hnone
    have hlast := (Option.or_eq_none_iff.mp (Option.or_eq_none_iff.mp hnone).2).2
    have hnil : EndWait.failures k.store.log = [] := by
      simpa using hlast
    have hopened := hstore.opened w wait hw hwatches
    rw [hstore.generation, hnil] at hopened
    simp only [List.length_nil] at hopened
    omega
  · intro w wait hw hparked hseen
    rw [hstore.decide_eq hw (by rw [hparked]; rfl)]
    exact (EndWait.Sys.ends_reach_waits hinv.store).no_lost_wakeup w wait hw hparked hseen
  · intro pre post w wait hlog hopened hquiet hw hwatches
    rw [hstore.decide_eq hw hwatches]
    unfold EndWait.decision
    have hkept : EndWait.keptFailure k.store.log = none := by
      rw [hlog]
      exact keptFailure_reopened hquiet
    have hsince : EndWait.failuresSince w k.store.log = 0 := by
      rw [hlog, show pre ++ .reopened :: post = (pre ++ [.reopened]) ++ post by simp]
      exact failuresSince_opened hquiet hopened
    rw [hkept, if_pos hsince]
    simp

/-! ## The moment of the opening -/

/-- The last end or failed opening was one with `InfraMissing`, and no feed was opened since. -/
def Note.missing : Note → Option (Option Error)
  | .ended error => some (if error.isInfraMissing then some error else none)
  | .opened _ => some none
  | _ => none

/-- Every wait without an outcome fails from such an end on. -/
def FailsAtOnce (k : Keeper) : Prop :=
  ∀ e, said Note.missing k.log = some e → ∀ w wait, k.store.waits w = some wait →
    wait.place.watches = true → EndWait.firstOutcome wait.child k.store.log = none →
    k.store.held.decide wait.child wait.generation ≠ none

/-- A wait that was opened behind the opening of a feed fails because of no end before. -/
def FreshBehindOpening (k : Keeper) : Prop :=
  ∀ pre n post w wait, k.log = pre ++ .opened n :: post → .book (.opened w) ∈ post →
    (∀ e, .ended e ∈ post → e.isInfraMissing = false) → k.store.waits w = some wait →
    wait.place.watches = true →
    k.store.held.decide wait.child wait.generation =
      EndWait.firstOutcome wait.child k.store.log

/-- The sink panics before the store has taken the end; a wait was there before. -/
def untoldRun : List KeepEvent :=
  [.openOk, .aside (.watching 7), .aside (.step 0), .aside (.step 0), .aside (.poll 0),
    .nextErr (.infraMissing "gone"), .panic "the sink"]

/-- A wait is opened between the opening of the second feed and `arrival_open_again`. -/
def betweenRun : List KeepEvent :=
  [.openOk, .nextErr (.infraMissing "gone"), .go, .go, .go, .beat, .openOk,
    .aside (.watching 7), .aside (.step 0), .aside (.step 0), .aside (.poll 0)]

theorem arrival_not_at_once :
    (¬ ∀ k, Keeper.machine.Reachable k → FailsAtOnce k) ∧
      ¬ ∀ k, Keeper.machine.Reachable k → FreshBehindOpening k := by
  constructor
  · intro h
    have hfails := h _ (Machine.reachable_of_run untoldRun rfl)
    exact hfails (.infraMissing "gone") rfl 0 _ rfl rfl rfl rfl
  · intro h
    have hfresh := h _ (Machine.reachable_of_run betweenRun rfl)
    have heq := hfresh
      [.opened 0, .ended (.infraMissing "gone"), .book (.failed (.infraMissing "gone")), .closed 0]
      1 [.book (.opened 0)] 0 _ rfl (by simp) (by simp) rfl rfl
    cases heq

/-- A wait fails on the missing feed; the feed is open again and a new wait is pending. -/
def cutRun : List KeepEvent :=
  [.openOk, .nextErr (.infraMissing "gone"), .go, .go, .go, .beat, .openOk, .go, .go,
    .aside (.watching 7), .aside (.step 0), .aside (.step 0), .aside (.poll 0)]

theorem arrival_kept_cutRun : ∃ k, Keeper.machine.run cutRun = some k ∧ ArrivalKept k ∧
    k.feed = some 1 ∧ k.store.held.kept = none ∧ k.store.held.generation = 1 :=
  ⟨_, rfl, arrival_kept (Machine.reachable_of_run cutRun rfl), rfl, rfl, rfl⟩

end RunnerKit.Toolkit.Arrival
