import RunnerKit.InboxPort.Convert

/-!
# A failed listing changes nothing

Up to its conversions a call of `items` moves nothing but its own place, and the calls
that fail end there. What may be left of one is the recipients that it has read. A later
call that needs them does not ask for them again, so it answers as it would without the
failed call, had it asked and been told the same.
-/

namespace RunnerKit.InboxPort

open RunnerKit.Jobs RunnerKit.Lib

namespace Converting

variable {port : Port} {f g h g' h' : Converting} {c : ℕ} {l : Listing}

/-! ## The calls of one listing -/

/-- An event of the calls of listing `c`. -/
def IsCall (c : ℕ) : ConvertEvent → Prop
  | .base (.items v _) | .base (.step v) | .base (.readDone v _) | .base (.drop v) => v = c
  | .rejected v _ | .look v _ | .answered v _ _ | .joined v => v = c
  | _ => False

/-- The runs in which listing `c` alone makes calls. -/
def Calls (port : Port) (f : Converting) (c : ℕ) : Converting → Prop :=
  (machine port f).Reach fun _ e => IsCall c e

def Failed (answers : List (ℕ × Answer)) : Prop :=
  ∀ answer ∈ answers, ∃ error, answer.2 = .error error

/-- The places before the page of a call is kept. -/
def isEarly : Place → Bool
  | .keeping _ | .recording _ _ => false
  | _ => true

/-- No call has come further than its conversions. -/
structure Early (f g : Converting) (c : ℕ) (l : Listing) (place : Place) : Prop where
  early : isEarly place = true
  sys : g.sys = f.sys.moveTo c l place
  conversions : (∀ cut, place ≠ .converting cut) → g.conversions c = []

/-- The call keeps and records its page, and will give it. -/
structure Late (g : Converting) (c : ℕ) : Prop where
  place : ∃ l, g.sys.listings c = some l ∧ isEarly l.place = false
  made : (g.conversions c).all isMade = true

/-- What the calls of `c` leave alone. -/
structure Framed (f g : Converting) (c : ℕ) : Prop where
  others : ∀ v, v ≠ c → g.conversions v = f.conversions v
  asking : ∀ item mail, (item, Conversion.asking mail) ∈ g.conversions c →
    f.recipients mail = none
  kept : ∀ mail recipients, f.recipients mail = some recipients →
    g.recipients mail = some recipients

/-! ## Steps of a call -/

@[simp] theorem setConversions_self (items : List (UnreadItem × Conversion)) :
    (g.setConversions c items).conversions c = items := by
  simp [setConversions]

theorem setConversions_other {v : ℕ} (hne : v ≠ c) (items : List (UnreadItem × Conversion)) :
    (g.setConversions c items).conversions v = g.conversions v := by
  simp [setConversions, hne]

/-- Where a step of a call has led. -/
theorem arrive_cases (g : Converting) (c : ℕ) :
    (∃ cut l, g.sys.listings c = some l ∧ l.place = .converting cut ∧
      g.arrive c = g.setConversions c (cut.page.map fun item => (item, .waiting))) ∨
    (∃ l next, g.sys.listings c = some l ∧ l.place = .idle ∧
      g.arrive c = g.answer c (.ok (g.madeItems c, next))) ∨
    g.arrive c = g := by
  unfold arrive
  split
  · exact Or.inr (Or.inr rfl)
  · rename_i l hl
    split
    · rename_i cut hplace
      exact Or.inl ⟨cut, l, hl, hplace, rfl⟩
    · rename_i hplace
      exact Or.inr (Or.inl ⟨l, _, hl, hplace, rfl⟩)
    · exact Or.inr (Or.inr rfl)

/-! ### Answers are only added -/

def Grows (f g : Converting) : Prop := ∃ more, g.answers = f.answers ++ more

theorem Grows.of_eq (h : g.answers = f.answers) : Grows f g := ⟨[], by simp [h]⟩

theorem grows_answer (sys : Sys) (result : Answer) :
    Grows f ({ f with sys := sys }.answer c result) := ⟨[(c, result)], rfl⟩

theorem grows_arrive (sys : Sys) : Grows f ({ f with sys := sys }.arrive c) := by
  rcases arrive_cases { f with sys := sys } c with
    ⟨cut, l, -, -, harrive⟩ | ⟨l, next, -, -, harrive⟩ | harrive
  · exact .of_eq (by rw [harrive]; rfl)
  · rw [harrive]
    exact grows_answer sys _
  · exact .of_eq (by rw [harrive])

theorem grows_fail {error : Error} (hs : f.fail c error = some g) : Grows f g := by
  obtain ⟨sys, -, rfl⟩ := Option.map_eq_some_iff.mp hs
  exact grows_answer sys _

theorem grows_settle {i : ℕ} {item : UnreadItem} {result : Except Error InboxItem}
    (hs : f.settle c i item result = some g) : Grows f g := by
  cases result with
  | error error => exact grows_fail hs
  | ok made =>
      cases hs
      exact .of_eq rfl

theorem grows_step {e : ConvertEvent} (hs : f.step port e = some g) : Grows f g := by
  cases e with
  | base event =>
      cases event with
      | step v =>
          obtain ⟨sys, -, rfl⟩ := Option.map_eq_some_iff.mp hs
          exact grows_arrive sys
      | readDone v result =>
          cases result with
          | error error =>
              obtain ⟨sys, -, rfl⟩ := Option.map_eq_some_iff.mp hs
              exact grows_answer sys _
          | ok read =>
              obtain ⟨sys, -, rfl⟩ := Option.map_eq_some_iff.mp hs
              exact .of_eq rfl
      | converted v ok => cases hs
      | items v limit =>
          obtain ⟨sys, -, rfl⟩ := Option.map_eq_some_iff.mp hs
          exact .of_eq rfl
      | drop v =>
          obtain ⟨sys, -, rfl⟩ := Option.map_eq_some_iff.mp hs
          exact .of_eq rfl
      | _ =>
          cases hs
          exact .of_eq rfl
  | rejected v error =>
      simp only [Converting.step, Option.ite_none_right_eq_some, Option.some.injEq] at hs
      obtain ⟨-, rfl⟩ := hs
      exact grows_answer f.sys _
  | look v i =>
      simp only [Converting.step] at hs
      split at hs
      · unfold Converting.look at hs
        split at hs
        · exact grows_settle hs
        · split at hs
          · exact grows_settle hs
          · cases hs
            exact .of_eq rfl
      · cases hs
  | answered v i result =>
      simp only [Converting.step] at hs
      split at hs
      · cases result with
        | error error => exact grows_fail hs
        | ok recipients =>
            have hgrows : Grows (f.keepRecipients _ recipients) g := grows_settle hs
            exact hgrows
      · cases hs
  | joined v =>
      simp only [Converting.step, Option.ite_none_right_eq_some] at hs
      obtain ⟨sys, -, rfl⟩ := Option.map_eq_some_iff.mp hs.2
      exact .of_eq rfl

/-! ### What a call leaves alone -/

theorem Framed.refl (hconv : f.conversions c = []) : Framed f f c :=
  ⟨fun _ _ => rfl, by simp [hconv], fun _ _ hkept => hkept⟩

/-- Conversions that ask for nothing new take the place of the others. -/
theorem Framed.set (hg : Framed f g c) {items : List (UnreadItem × Conversion)}
    (hasking : ∀ item mail, (item, Conversion.asking mail) ∈ items →
      f.recipients mail = none) (sys : Sys) :
    Framed f ({ g with sys := sys }.setConversions c items) c where
  others v hne := (setConversions_other hne items).trans (hg.others v hne)
  asking item mail hmem := hasking item mail (by simpa using hmem)
  kept := hg.kept

theorem Framed.answer (hg : Framed f g c) (sys : Sys) (result : Answer) :
    Framed f ({ g with sys := sys }.answer c result) c where
  others v hne := (setConversions_other hne []).trans (hg.others v hne)
  asking := by simp [Converting.answer]
  kept := hg.kept

theorem Framed.arrive (hg : Framed f g c) (sys : Sys) :
    Framed f ({ g with sys := sys }.arrive c) c := by
  rcases arrive_cases { g with sys := sys } c with
    ⟨cut, l, -, -, harrive⟩ | ⟨l, next, -, -, harrive⟩ | harrive
  · rw [harrive]
    exact hg.set (by simp) sys
  · rw [harrive]
    exact hg.answer sys _
  · rw [harrive]
    exact ⟨hg.others, hg.asking, hg.kept⟩

theorem Framed.fail (hg : Framed f g c) {error : Error} (hs : g.fail c error = some g') :
    Framed f g' c := by
  obtain ⟨sys, -, rfl⟩ := Option.map_eq_some_iff.mp hs
  exact hg.answer sys _

theorem Framed.settle (hg : Framed f g c) {i : ℕ} {item : UnreadItem}
    {result : Except Error InboxItem} (hs : g.settle c i item result = some g') :
    Framed f g' c := by
  cases result with
  | error error => exact hg.fail hs
  | ok made =>
      cases hs
      refine hg.set (fun other mail hmem => ?_) g.sys
      rcases List.mem_or_eq_of_mem_set hmem with hmem | heq
      · exact hg.asking other mail hmem
      · cases heq

theorem Framed.keepRecipients (hg : Framed f g c) {mail : Uuid} (hnone : f.recipients mail = none)
    (recipients : Recipients) : Framed f (g.keepRecipients mail recipients) c where
  others := hg.others
  asking := hg.asking
  kept other found hfound := by
    have hne : other ≠ mail := by
      rintro rfl
      simp [hnone] at hfound
    simpa [Converting.keepRecipients, hne] using hg.kept other found hfound

theorem Framed.look (hg : Framed f g c) {i : ℕ} {item : UnreadItem}
    (hs : g.look port c i item = some g') : Framed f g' c := by
  unfold Converting.look at hs
  split at hs
  · exact hg.settle hs
  · rename_i mail _
    split at hs
    · exact hg.settle hs
    · rename_i hnone
      cases hs
      refine hg.set (fun other asked hmem => ?_) g.sys
      rcases List.mem_or_eq_of_mem_set hmem with hmem | heq
      · exact hg.asking other asked hmem
      · cases heq
        by_contra hsome
        obtain ⟨found, hfound⟩ := Option.ne_none_iff_exists'.mp hsome
        rw [hg.kept mail found hfound] at hnone
        cases hnone

/-- A call of `c` keeps the conversions of the others, and the recipients that the book
kept before. -/
theorem Framed.step (hg : Framed f g c) {e : ConvertEvent} (hcall : IsCall c e)
    (hs : g.step port e = some g') : Framed f g' c := by
  cases e with
  | base event =>
      cases event with
      | items v limit =>
          obtain ⟨sys, -, rfl⟩ := Option.map_eq_some_iff.mp hs
          exact ⟨hg.others, hg.asking, hg.kept⟩
      | step v =>
          cases hcall
          obtain ⟨sys, -, rfl⟩ := Option.map_eq_some_iff.mp hs
          exact hg.arrive sys
      | readDone v result =>
          cases hcall
          cases result with
          | error error =>
              obtain ⟨sys, -, rfl⟩ := Option.map_eq_some_iff.mp hs
              exact hg.answer sys _
          | ok read =>
              obtain ⟨sys, -, rfl⟩ := Option.map_eq_some_iff.mp hs
              exact ⟨hg.others, hg.asking, hg.kept⟩
      | drop v =>
          cases hcall
          obtain ⟨sys, -, rfl⟩ := Option.map_eq_some_iff.mp hs
          exact hg.set (by simp) sys
      | _ => cases hcall
  | rejected v error =>
      cases hcall
      simp only [Converting.step, Option.ite_none_right_eq_some, Option.some.injEq] at hs
      obtain ⟨-, rfl⟩ := hs
      exact hg.answer g.sys _
  | look v i =>
      cases hcall
      simp only [Converting.step] at hs
      split at hs
      · exact hg.look hs
      · cases hs
  | answered v i result =>
      cases hcall
      simp only [Converting.step] at hs
      split at hs
      · rename_i item mail hi
        have hnone := hg.asking item mail (List.mem_of_getElem? hi)
        cases result with
        | error error => exact hg.fail hs
        | ok recipients => exact (hg.keepRecipients hnone recipients).settle hs
      · cases hs
  | joined v =>
      cases hcall
      simp only [Converting.step, Option.ite_none_right_eq_some] at hs
      obtain ⟨sys, -, rfl⟩ := Option.map_eq_some_iff.mp hs.2
      exact ⟨hg.others, hg.asking, hg.kept⟩

theorem moveTo_moveTo (s : Sys) (c : ℕ) (l : Listing) (p q : Place) :
    (s.moveTo c l p).moveTo c { l with place := p } q = s.moveTo c l q := by
  simp [Sys.moveTo, Sys.setListing]

theorem moveTo_idle {s : Sys} (hl : s.listings c = some l) (hidle : l.place = .idle) :
    s.moveTo c l .idle = s := by
  have heq : ({ l with place := .idle } : Listing) = l := by
    rw [← hidle]
  rw [Sys.moveTo, heq, Sys.setListing, ← hl, Function.update_eq_self]

theorem Early.listing {place : Place} (he : Early f g c l place) :
    g.sys.listings c = some { l with place := place } := by
  simp [he.sys, Sys.moveTo, Sys.setListing]

/-- Either no call of `c` has come further than its conversions, or one will give its
page. -/
def Story (f g : Converting) (c : ℕ) (l : Listing) : Prop :=
  (∃ place, Early f g c l place) ∨ Late g c

/-- The call has given a page, so not every call has failed. -/
theorem not_failed_of_ok {answers more : List (ℕ × Answer)} {page : List InboxItem × Option Uuid}
    (h : answers ++ [(c, .ok page)] = answers ++ more) : ¬ Failed more := by
  intro hfailed
  rw [← List.append_cancel_left h] at hfailed
  obtain ⟨error, herror⟩ := hfailed _ List.mem_cons_self
  cases herror

/-- A call moves on to a place before its conversions. -/
theorem Early.moveTo {place p : Place} (he : Early f g c l place)
    (hconv : g.conversions c = []) (hp : isEarly p = true) :
    Early f { g with sys := g.sys.moveTo c { l with place := place } p } c l p where
  early := hp
  sys := by
    rw [he.sys]
    exact moveTo_moveTo f.sys c l place p
  conversions := fun _ => hconv

/-- A call that fails ends where no other call sees it. -/
theorem Early.fail {place : Place} (he : Early f g c l place) {error : Error}
    (hs : g.fail c error = some g') : Early f g' c l .idle := by
  obtain ⟨sys, hsys, rfl⟩ := Option.map_eq_some_iff.mp hs
  simp only [Sys.step, he.listing, Option.bind_some] at hsys
  cases place with
  | converting cut =>
      cases hsys
      refine ⟨rfl, ?_, fun _ => setConversions_self []⟩
      have hmove := moveTo_moveTo f.sys c l (.converting cut) .idle
      rw [← he.sys] at hmove
      exact hmove
  | _ => cases hsys

/-- A conversion that ends leaves the call at its conversions, or fails it. -/
theorem Early.settle {cut : Cut} (he : Early f g c l (.converting cut)) {i : ℕ}
    {item : UnreadItem} {result : Except Error InboxItem}
    (hs : g.settle c i item result = some g') : ∃ place, Early f g' c l place := by
  cases result with
  | error error => exact ⟨_, he.fail hs⟩
  | ok made =>
      cases hs
      exact ⟨_, rfl, he.sys, fun hnot => absurd rfl (hnot cut)⟩

theorem Early.look {cut : Cut} (he : Early f g c l (.converting cut)) {i : ℕ}
    {item : UnreadItem} (hs : g.look port c i item = some g') :
    ∃ place, Early f g' c l place := by
  unfold Converting.look at hs
  split at hs
  · exact he.settle hs
  · split at hs
    · exact he.settle hs
    · cases hs
      exact ⟨_, rfl, he.sys, fun hnot => absurd rfl (hnot cut)⟩

/-- Where a call has conversions it stands at them. -/
theorem Early.converting {place : Place} (he : Early f g c l place) {i : ℕ}
    {conversion : UnreadItem × Conversion} (hi : (g.conversions c)[i]? = some conversion) :
    ∃ cut, place = .converting cut := by
  by_contra hnot
  push Not at hnot
  rw [he.conversions hnot] at hi
  cases hi

theorem arrive_give (l : Listing) (read : Option (List UnreadItem)) (page : List UnreadItem)
    (next : Option Uuid) : ∃ given,
      ({ g with sys := g.sys.give c l read page next }.arrive c).answers =
        g.answers ++ [(c, .ok given)] := by
  refine ⟨(g.madeItems c, if next.isNone then none else next.or l.after), ?_⟩
  simp [arrive, Sys.give, Sys.setListing, Converting.answer, setConversions, madeItems]

/-- A step of a call up to its conversions. -/
theorem Early.listingStep {place : Place} (he : Early f g c l place) {sys : Sys}
    (hsys : g.sys.step (.step c) = some sys) {more : List (ℕ × Answer)}
    (hmore : ({ g with sys := sys }.arrive c).answers = g.answers ++ more)
    (hfailed : Failed more) : Story f ({ g with sys := sys }.arrive c) c l := by
  simp only [Sys.step, he.listing, Option.bind_some] at hsys
  have hmoves : ∀ p, isEarly p = true → (∀ cut, p ≠ .converting cut) → p ≠ .idle →
      (∀ cut, place ≠ .converting cut) →
      Story f ({ g with sys := g.sys.moveTo c { l with place := place } p }.arrive c) c l := by
    intro p hp hnot hidle hplace
    have harrive : { g with sys := g.sys.moveTo c { l with place := place } p }.arrive c =
        { g with sys := g.sys.moveTo c { l with place := place } p } := by
      unfold arrive
      cases p <;> simp_all [Sys.moveTo, Sys.setListing]
    rw [harrive]
    exact Or.inl ⟨p, he.moveTo (he.conversions hplace) hp⟩
  cases place with
  | starting limit =>
      cases hsys
      unfold Sys.start at hmore ⊢
      split
      · rename_i hq
        rw [if_pos hq] at hmore
        obtain ⟨given, hgiven⟩ := arrive_give (g := g) (c := c)
          { l with place := .starting limit } none [] none
        exact absurd hfailed (not_failed_of_ok (hgiven.symm.trans hmore))
      · split
        · exact hmoves _ rfl (by simp) (by simp) (by simp)
        · exact hmoves _ rfl (by simp) (by simp) (by simp)
  | cutting limit rest read fresh =>
      cases hsys
      have hconverting : ∃ cut, g.sys.cutPage c { l with place := .cutting limit rest read fresh }
          limit rest read fresh = g.sys.moveTo c
            { l with place := .cutting limit rest read fresh } (.converting cut) := ⟨_, rfl⟩
      obtain ⟨cut, hcut⟩ := hconverting
      rw [hcut]
      refine Or.inl ⟨.converting cut, rfl, ?_, fun hnot => absurd rfl (hnot cut)⟩
      have hmove := moveTo_moveTo f.sys c l (.cutting limit rest read fresh) (.converting cut)
      rw [← he.sys] at hmove
      have hsame : ∀ g : Converting, (g.arrive c).sys = g.sys := by
        intro g
        rcases arrive_cases g c with ⟨_, _, -, -, h⟩ | ⟨_, _, -, -, h⟩ | h <;> rw [h] <;> rfl
      rw [hsame]
      exact hmove
  | keeping cut => cases he.early
  | recording cut rest => cases he.early
  | idle => cases hsys
  | reading limit => cases hsys
  | converting cut => cases hsys

/-- A step of a call that keeps or records its page. -/
theorem Late.listingStep (hl : Late g c) {sys : Sys} (hsys : g.sys.step (.step c) = some sys)
    {more : List (ℕ × Answer)}
    (hmore : ({ g with sys := sys }.arrive c).answers = g.answers ++ more)
    (hfailed : Failed more) : Late ({ g with sys := sys }.arrive c) c := by
  obtain ⟨⟨l, hlisting, hearly⟩, hmade⟩ := hl
  simp only [Sys.step, hlisting, Option.bind_some] at hsys
  have hmoves : ∀ (sys : Sys) (p : Place), isEarly p = false →
      sys.listings c = some { l with place := p } →
      Late ({ g with sys := sys }.arrive c) c := by
    intro sys p hp hlist
    have harrive : { g with sys := sys }.arrive c = { g with sys := sys } := by
      unfold arrive
      cases p <;> simp_all [isEarly]
    rw [harrive]
    exact ⟨⟨_, hlist, hp⟩, hmade⟩
  unfold Sys.listingStep at hsys
  split at hsys
  · rename_i hplace
    simp [hplace, isEarly] at hearly
  · rename_i hplace
    simp [hplace, isEarly] at hearly
  · rename_i cut hplace
    cases hsys
    apply hmoves _ (.recording cut cut.page) rfl
    unfold Sys.keep
    split <;> simp [Sys.moveTo, Sys.setListing]
  · rename_i cut rest hplace
    cases hsys
    cases rest with
    | nil =>
        obtain ⟨given, hgiven⟩ := arrive_give (g := g) (c := c) l (some cut.read) cut.page cut.next
        exact absurd hfailed (not_failed_of_ok (hgiven.symm.trans hmore))
    | cons item rest =>
        apply hmoves _ (.recording cut rest) rfl
        simp [Sys.record, Sys.moveTo, Sys.setListing]
  · cases hsys

/-- While every call of `c` that has ended has failed, none has come further. -/
theorem Early.step {place : Place} (he : Early f g c l place) {e : ConvertEvent}
    (hcall : IsCall c e) (hs : g.step port e = some g') {more : List (ℕ × Answer)}
    (hmore : g'.answers = g.answers ++ more) (hfailed : Failed more) : Story f g' c l := by
  cases e with
  | base event =>
      cases event with
      | items v limit =>
          cases hcall
          obtain ⟨sys, hsys, rfl⟩ := Option.map_eq_some_iff.mp hs
          simp only [Sys.step, he.listing, Option.bind_some] at hsys
          cases place with
          | idle =>
              simp only [Option.ite_none_left_eq_some, Option.some.injEq] at hsys
              obtain ⟨-, rfl⟩ := hsys
              exact Or.inl ⟨_, he.moveTo (he.conversions (by simp)) rfl⟩
          | _ => cases hsys
      | step v =>
          cases hcall
          obtain ⟨sys, hsys, rfl⟩ := Option.map_eq_some_iff.mp hs
          exact he.listingStep hsys hmore hfailed
      | readDone v result =>
          cases hcall
          cases result with
          | error error =>
              obtain ⟨sys, hsys, rfl⟩ := Option.map_eq_some_iff.mp hs
              simp only [Sys.step, he.listing, Option.bind_some] at hsys
              cases place with
              | reading limit =>
                  cases hsys
                  have hback := he.moveTo (p := .idle) (he.conversions (by simp)) rfl
                  exact Or.inl ⟨.idle, rfl, hback.sys, fun _ => setConversions_self []⟩
              | _ => cases hsys
          | ok read =>
              obtain ⟨sys, hsys, rfl⟩ := Option.map_eq_some_iff.mp hs
              simp only [Sys.step, he.listing, Option.bind_some] at hsys
              cases place with
              | reading limit =>
                  cases hsys
                  exact Or.inl ⟨_, he.moveTo (he.conversions (by simp)) rfl⟩
              | _ => cases hsys
      | drop v =>
          cases hcall
          obtain ⟨sys, hsys, rfl⟩ := Option.map_eq_some_iff.mp hs
          simp only [Sys.step, he.listing, Option.bind_some] at hsys
          have hback := moveTo_moveTo f.sys c l place .idle
          rw [← he.sys] at hback
          cases place with
          | reading limit =>
              cases hsys
              exact Or.inl ⟨.idle, rfl, hback, fun _ => setConversions_self []⟩
          | converting cut =>
              cases hsys
              exact Or.inl ⟨.idle, rfl, hback, fun _ => setConversions_self []⟩
          | _ => cases hsys
      | _ => cases hcall
  | rejected v error =>
      cases hcall
      simp only [Converting.step, Option.ite_none_right_eq_some, Option.some.injEq] at hs
      obtain ⟨-, rfl⟩ := hs
      exact Or.inl ⟨place, he.early, he.sys, fun _ => setConversions_self []⟩
  | look v i =>
      cases hcall
      simp only [Converting.step] at hs
      split at hs
      · rename_i item hi
        obtain ⟨cut, rfl⟩ := he.converting hi
        exact Or.inl (he.look hs)
      · cases hs
  | answered v i result =>
      cases hcall
      simp only [Converting.step] at hs
      split at hs
      · rename_i item mail hi
        obtain ⟨cut, rfl⟩ := he.converting hi
        cases result with
        | error error => exact Or.inl ⟨_, he.fail hs⟩
        | ok recipients =>
            have hkept : Early f (g.keepRecipients mail recipients) c l (.converting cut) :=
              ⟨he.early, he.sys, he.conversions⟩
            exact Or.inl (hkept.settle hs)
      · cases hs
  | joined v =>
      cases hcall
      simp only [Converting.step, Option.ite_none_right_eq_some] at hs
      obtain ⟨hmade, hs⟩ := hs
      obtain ⟨sys, hsys, rfl⟩ := Option.map_eq_some_iff.mp hs
      simp only [Sys.step, he.listing, Option.bind_some] at hsys
      cases place with
      | converting cut =>
          cases hsys
          refine Or.inr ⟨⟨{ l with place := .keeping cut }, ?_, rfl⟩, hmade⟩
          simp [Sys.moveTo, Sys.setListing]
      | _ => cases hsys

/-- A call whose conversions are made has no other step than the ones that keep and
record its page. -/
theorem Late.step (hl : Late g c) {e : ConvertEvent} (hcall : IsCall c e)
    (hs : g.step port e = some g') {more : List (ℕ × Answer)}
    (hmore : g'.answers = g.answers ++ more) (hfailed : Failed more) : Late g' c := by
  obtain ⟨⟨l, hlisting, hearly⟩, hmade⟩ := hl
  have hnone : ∀ i conversion, (g.conversions c)[i]? = some conversion →
      isMade conversion = true := fun i conversion hi =>
    List.all_eq_true.mp hmade conversion (List.mem_of_getElem? hi)
  have hplaces : (∃ cut, l.place = .keeping cut) ∨ ∃ cut rest, l.place = .recording cut rest := by
    cases hplace : l.place with
    | keeping cut => exact Or.inl ⟨cut, rfl⟩
    | recording cut rest => exact Or.inr ⟨cut, rest, rfl⟩
    | _ => simp [hplace, isEarly] at hearly
  cases e with
  | base event =>
      cases event with
      | step v =>
          cases hcall
          obtain ⟨sys, hsys, rfl⟩ := Option.map_eq_some_iff.mp hs
          exact Late.listingStep ⟨⟨l, hlisting, hearly⟩, hmade⟩ hsys hmore hfailed
      | items v limit =>
          cases hcall
          obtain ⟨sys, hsys, rfl⟩ := Option.map_eq_some_iff.mp hs
          rcases hplaces with ⟨cut, hplace⟩ | ⟨cut, rest, hplace⟩ <;>
            simp [Sys.step, hlisting, hplace] at hsys
      | readDone v result =>
          cases hcall
          cases result with
          | error error =>
              obtain ⟨sys, hsys, rfl⟩ := Option.map_eq_some_iff.mp hs
              rcases hplaces with ⟨cut, hplace⟩ | ⟨cut, rest, hplace⟩ <;>
                simp [Sys.step, hlisting, Sys.readDone, hplace] at hsys
          | ok read =>
              obtain ⟨sys, hsys, rfl⟩ := Option.map_eq_some_iff.mp hs
              rcases hplaces with ⟨cut, hplace⟩ | ⟨cut, rest, hplace⟩ <;>
                simp [Sys.step, hlisting, Sys.readDone, hplace] at hsys
      | drop v =>
          cases hcall
          obtain ⟨sys, hsys, rfl⟩ := Option.map_eq_some_iff.mp hs
          rcases hplaces with ⟨cut, hplace⟩ | ⟨cut, rest, hplace⟩ <;>
            simp [Sys.step, hlisting, Sys.drop, hplace] at hsys
      | _ => cases hcall
  | rejected v error =>
      cases hcall
      rcases hplaces with ⟨cut, hplace⟩ | ⟨cut, rest, hplace⟩ <;>
        simp [Converting.step, isIdle, hlisting, hplace] at hs
  | look v i =>
      cases hcall
      simp only [Converting.step] at hs
      split at hs
      · rename_i hi
        cases hnone i _ hi
      · cases hs
  | answered v i result =>
      cases hcall
      simp only [Converting.step] at hs
      split at hs
      · rename_i hi
        cases hnone i _ hi
      · cases hs
  | joined v =>
      cases hcall
      simp only [Converting.step, Option.ite_none_right_eq_some] at hs
      obtain ⟨sys, hsys, rfl⟩ := Option.map_eq_some_iff.mp hs.2
      rcases hplaces with ⟨cut, hplace⟩ | ⟨cut, rest, hplace⟩ <;>
        simp [Sys.step, hlisting, Sys.converted, hplace] at hsys

/-- What holds of the calls of `c` at any time. -/
theorem calls_inv (hl : f.sys.listings c = some l) (hidle : l.place = .idle)
    (hconv : f.conversions c = []) (h : Calls port f c g) :
    Framed f g c ∧ ∃ answers, g.answers = f.answers ++ answers ∧
      (Failed answers → Story f g c l) := by
  refine Machine.Reach.invariant (P := fun g => Framed f g c ∧ ∃ answers,
    g.answers = f.answers ++ answers ∧ (Failed answers → Story f g c l)) ?_ ?_ h
  · refine ⟨.refl hconv, [], by simp [machine], fun _ => Or.inl ⟨.idle, ?_⟩⟩
    exact ⟨rfl, (moveTo_idle hl hidle).symm, fun _ => hconv⟩
  · rintro g g' e - ⟨hframed, answers, hanswers, hstory⟩ hcall hs
    obtain ⟨more, hmore⟩ := grows_step hs
    refine ⟨hframed.step hcall hs, answers ++ more, ?_, fun hfailed => ?_⟩
    · rw [hmore, hanswers, List.append_assoc]
    · have hbefore : Failed answers := fun a ha => hfailed a (List.mem_append_left _ ha)
      have hlast : Failed more := fun a ha => hfailed a (List.mem_append_right _ ha)
      rcases hstory hbefore with ⟨place, he⟩ | hlate
      · exact he.step hcall hs hmore hlast
      · exact Or.inr (hlate.step hcall hs hmore hlast)

theorem isIdle_place (h : f.isIdle c = true) :
    ∃ l, f.sys.listings c = some l ∧ l.place = .idle := by
  unfold isIdle at h
  split at h
  · rename_i l hl
    split at h
    · rename_i hplace
      exact ⟨l, hl, hplace⟩
    · cases h
  · cases h

/-- Calls of a listing that have all failed leave the state as it was, but for the
recipients that they read. -/
theorem failed_unchanged (hidle : f.isIdle c = true) (hconv : f.conversions c = [])
    (h : Calls port f c g) (hend : g.isIdle c = true) {answers : List (ℕ × Answer)}
    (hanswers : g.answers = f.answers ++ answers) (hfailed : Failed answers) :
    g.sys = f.sys ∧ g.conversions = f.conversions ∧
      ∀ mail recipients, f.recipients mail = some recipients →
        g.recipients mail = some recipients := by
  obtain ⟨l, hl, hplace⟩ := isIdle_place hidle
  obtain ⟨l', hl', hplace'⟩ := isIdle_place hend
  obtain ⟨hframed, given, hgiven, hstory⟩ := calls_inv hl hplace hconv h
  have heq : given = answers := List.append_cancel_left (hgiven.symm.trans hanswers)
  rcases hstory (heq ▸ hfailed) with ⟨place, he⟩ | hlate
  · have hat : place = .idle := by
      have hsame := Option.some.inj (he.listing.symm.trans hl')
      rw [← hplace', ← hsame]
    subst hat
    refine ⟨he.sys.trans (moveTo_idle hl hplace), ?_, hframed.kept⟩
    funext v
    by_cases hv : v = c
    · rw [hv, he.conversions (by simp), hconv]
    · exact hframed.others v hv
  · obtain ⟨⟨l'', hl'', hearly⟩, -⟩ := hlate
    cases hl'.symm.trans hl''
    simp [hplace', isEarly] at hearly

/-! ## Later calls -/

/-- `h` is `g` without some recipients of `kept` that `g` keeps. -/
structure Less (kept : Uuid → Option Recipients) (g h : Converting) : Prop where
  sys : h.sys = g.sys
  conversions : h.conversions = g.conversions
  recipients : ∀ mail, h.recipients mail = g.recipients mail ∨
    h.recipients mail = none ∧ g.recipients mail = kept mail

variable {kept : Uuid → Option Recipients}

/-- The same answers are added on both sides. -/
structure Alike (kept : Uuid → Option Recipients) (g h g' h' : Converting) : Prop where
  less : Less kept g' h'
  answers : ∃ more, g'.answers = g.answers ++ more ∧ h'.answers = h.answers ++ more

theorem Less.answer (hless : Less kept g h) (sys : Sys) (result : Answer) :
    Alike kept g h ({ g with sys := sys }.answer c result)
      ({ h with sys := sys }.answer c result) where
  less := ⟨rfl, by simp [Converting.answer, setConversions, hless.conversions],
    hless.recipients⟩
  answers := ⟨[(c, result)], rfl, rfl⟩

theorem Less.set (hless : Less kept g h) (sys : Sys)
    (items : List (UnreadItem × Conversion)) :
    Alike kept g h ({ g with sys := sys }.setConversions c items)
      ({ h with sys := sys }.setConversions c items) where
  less := ⟨rfl, by simp [setConversions, hless.conversions], hless.recipients⟩
  answers := ⟨[], by simp [setConversions], by simp [setConversions]⟩

theorem Less.plain (hless : Less kept g h) (sys : Sys) :
    Alike kept g h { g with sys := sys } { h with sys := sys } where
  less := ⟨rfl, hless.conversions, hless.recipients⟩
  answers := ⟨[], by simp, by simp⟩

theorem Less.arrive (hless : Less kept g h) (sys : Sys) :
    Alike kept g h ({ g with sys := sys }.arrive c) ({ h with sys := sys }.arrive c) := by
  unfold Converting.arrive
  simp only
  split
  · exact hless.plain sys
  · split
    · exact hless.set sys _
    · have hmade : ({ h with sys := sys } : Converting).madeItems c =
          ({ g with sys := sys } : Converting).madeItems c := by
        simp [madeItems, hless.conversions]
      rw [hmade]
      exact hless.answer sys _
    · exact hless.plain sys

theorem Less.fail (hless : Less kept g h) {error : Error} (hs : g.fail c error = some g') :
    ∃ h', h.fail c error = some h' ∧ Alike kept g h g' h' := by
  obtain ⟨sys, hsys, rfl⟩ := Option.map_eq_some_iff.mp hs
  refine ⟨_, ?_, hless.answer sys _⟩
  simp [Converting.fail, hless.sys, hsys]

theorem Less.replace (hless : Less kept g h) (items : List (UnreadItem × Conversion)) :
    Alike kept g h (g.setConversions c items) (h.setConversions c items) where
  less := ⟨hless.sys, by simp [setConversions, hless.conversions], hless.recipients⟩
  answers := ⟨[], by simp [setConversions], by simp [setConversions]⟩

theorem Less.settle (hless : Less kept g h) {i : ℕ} {item : UnreadItem}
    {result : Except Error InboxItem} (hs : g.settle c i item result = some g') :
    ∃ h', h.settle c i item result = some h' ∧ Alike kept g h g' h' := by
  cases result with
  | error error => exact hless.fail hs
  | ok made =>
      cases hs
      refine ⟨_, rfl, ?_⟩
      rw [hless.conversions]
      exact hless.replace _

theorem Less.keepRecipients (hless : Less kept g h) (mail : Uuid) (recipients : Recipients) :
    Less kept (g.keepRecipients mail recipients) (h.keepRecipients mail recipients) where
  sys := hless.sys
  conversions := hless.conversions
  recipients other := by
    by_cases hother : other = mail
    · left
      simp [Converting.keepRecipients, hother]
    · simpa [Converting.keepRecipients, hother] using hless.recipients other

/-- What is told now of the recipients is what was kept of them. -/
theorem Less.ask (hless : Less kept g h) {mail : Uuid} {recipients : Recipients}
    (hg : g.recipients mail = some recipients) :
    Less kept g (h.keepRecipients mail recipients) where
  sys := hless.sys
  conversions := hless.conversions
  recipients other := by
    by_cases hother : other = mail
    · left
      simp [Converting.keepRecipients, hother, hg]
    · simpa [Converting.keepRecipients, hother] using hless.recipients other

/-- A conversion that asked ends as one that did not ask. -/
theorem settle_set {i : ℕ} (item : UnreadItem) (conversion : UnreadItem × Conversion)
    (result : Except Error InboxItem) :
    (h.setConversions c ((h.conversions c).set i conversion)).settle c i item result =
      h.settle c i item result := by
  cases result with
  | ok made => simp [Converting.settle, setConversions]
  | error error =>
      simp only [Converting.settle, Converting.fail]
      congr 1
      funext sys
      simp [Converting.answer, setConversions]

/-- A step of the calls, and what stands for it without the kept recipients. -/
def Stands (kept : Uuid → Option Recipients) (e : ConvertEvent) (es : List ConvertEvent) :
    Prop :=
  es = [e] ∨ ∃ c i mail recipients, kept mail = some recipients ∧ e = .look c i ∧
    es = [e, .answered c i (.ok recipients)]

theorem Less.look (hless : Less kept g h) {i : ℕ} {item : UnreadItem}
    (hi : (g.conversions c)[i]? = some (item, .waiting))
    (hs : g.look port c i item = some g') :
    ∃ es h', Stands kept (.look c i) es ∧ (machine port f).runFrom h es = some h' ∧
      Alike kept g h g' h' := by
  have hi' : (h.conversions c)[i]? = some (item, .waiting) := hless.conversions ▸ hi
  have hagent : h.agentOf c = g.agentOf c := by rw [agentOf, agentOf, hless.sys]
  have hone : ∀ h', h.look port c i item = some h' → Alike kept g h g' h' →
      ∃ es h', Stands kept (.look c i) es ∧ (machine port f).runFrom h es = some h' ∧
        Alike kept g h g' h' := by
    intro h' hlook halike
    refine ⟨[.look c i], h', Or.inl rfl, ?_, halike⟩
    simp [Machine.runFrom, machine, Converting.step, hi', hlook]
  unfold Converting.look at hs
  split at hs
  · rename_i hmail
    obtain ⟨h', hset, halike⟩ := hless.settle hs
    exact hone h' (by simp [Converting.look, hmail, hagent, hset]) halike
  · rename_i mail hmail
    split at hs
    · rename_i recipients hkept
      rcases hless.recipients mail with hsame | ⟨hnone, hsome⟩
      · obtain ⟨h', hset, halike⟩ := hless.settle hs
        exact hone h' (by simp [Converting.look, hmail, hsame, hkept, hagent, hset]) halike
      · -- the recipients are asked for again, and told to be those that were kept
        obtain ⟨h', hset, halike⟩ := (hless.ask hkept).settle hs
        refine ⟨[.look c i, .answered c i (.ok recipients)], h',
          Or.inr ⟨c, i, mail, recipients, hsome ▸ hkept, rfl, rfl⟩, ?_,
          ⟨halike.less, halike.answers⟩⟩
        have hlt : i < (h.conversions c).length := (List.getElem?_eq_some_iff.mp hi').1
        have hasked : h.look port c i item =
            some (h.setConversions c ((h.conversions c).set i (item, .asking mail))) := by
          simp [Converting.look, hmail, hnone]
        have htold : ((h.setConversions c
            ((h.conversions c).set i (item, .asking mail))).answered port c i item mail
              (.ok recipients)) = some h' := by
          have hsettle := settle_set (h := h.keepRecipients mail recipients) (c := c) (i := i)
            item (item, .asking mail) (port.convertItem (h.agentOf c) recipients item)
          rw [← hagent] at hset
          exact hsettle.trans hset
        have hi'' : ((h.setConversions c
            ((h.conversions c).set i (item, .asking mail))).conversions c)[i]? =
              some (item, .asking mail) := by
          rw [setConversions_self, List.getElem?_set_self hlt]
        simp only [Machine.runFrom, machine, Converting.step, hi', hasked, Option.bind_some,
          hi'', htold]
    · rename_i hnone
      cases hs
      have hsame : h.recipients mail = none := by
        rcases hless.recipients mail with hsame | ⟨hsame, -⟩
        · rw [hsame, hnone]
        · exact hsame
      refine hone _ (by simp [Converting.look, hmail, hsame]; rfl) ?_
      rw [hless.conversions]
      exact hless.replace _

/-- Each later step has steps that stand for it without the kept recipients. -/
theorem Less.step (hless : Less kept g h) {e : ConvertEvent}
    (hs : g.step port e = some g') :
    ∃ es h', Stands kept e es ∧ (machine port f).runFrom h es = some h' ∧
      Alike kept g h g' h' := by
  have hone : ∀ h', h.step port e = some h' → Alike kept g h g' h' →
      ∃ es h', Stands kept e es ∧ (machine port f).runFrom h es = some h' ∧
        Alike kept g h g' h' := by
    intro h' hstep halike
    refine ⟨[e], h', Or.inl rfl, ?_, halike⟩
    simp [Machine.runFrom, machine, hstep]
  cases e with
  | base event =>
      cases event with
      | step v =>
          obtain ⟨sys, hsys, rfl⟩ := Option.map_eq_some_iff.mp hs
          refine hone _ ?_ (hless.arrive sys)
          simp [Converting.step, baseStep, hless.sys, hsys]
      | readDone v result =>
          cases result with
          | error error =>
              obtain ⟨sys, hsys, rfl⟩ := Option.map_eq_some_iff.mp hs
              refine hone _ ?_ (hless.answer sys _)
              simp [Converting.step, baseStep, hless.sys, hsys]
          | ok read =>
              obtain ⟨sys, hsys, rfl⟩ := Option.map_eq_some_iff.mp hs
              refine hone _ ?_ (hless.plain sys)
              simp [Converting.step, baseStep, hless.sys, hsys]
      | drop v =>
          obtain ⟨sys, hsys, rfl⟩ := Option.map_eq_some_iff.mp hs
          refine hone _ ?_ (hless.set sys [])
          simp [Converting.step, baseStep, hless.sys, hsys]
      | items v limit =>
          obtain ⟨sys, hsys, rfl⟩ := Option.map_eq_some_iff.mp hs
          refine hone _ ?_ (hless.plain sys)
          simp [Converting.step, baseStep, hless.sys, hsys]
      | converted v ok => cases hs
      | begin agent after =>
          cases hs
          refine hone _ ?_ (hless.plain _)
          simp [Converting.step, baseStep, hless.sys, Sys.step]
      | registrationEnded agent =>
          cases hs
          refine hone _ ?_ (hless.plain _)
          simp [Converting.step, baseStep, hless.sys, Sys.step]
      | markRead agent entryId =>
          cases hs
          refine hone _ ?_ (hless.plain _)
          simp [Converting.step, baseStep, hless.sys, Sys.step]
  | rejected v error =>
      simp only [Converting.step, Option.ite_none_right_eq_some, Option.some.injEq] at hs
      obtain ⟨hidle, rfl⟩ := hs
      have hidle' : h.isIdle v = true := by
        rw [← hidle, isIdle, isIdle, hless.sys]
      refine hone (h.answer v (.error error)) (by simp [Converting.step, hidle']) ?_
      have hself : ({ h with sys := g.sys } : Converting) = h := by rw [← hless.sys]
      have hanswer := hless.answer (c := v) g.sys (.error error)
      rw [hself] at hanswer
      exact hanswer
  | look v i =>
      simp only [Converting.step] at hs
      split at hs
      · rename_i item hi
        exact hless.look hi hs
      · cases hs
  | answered v i result =>
      simp only [Converting.step] at hs
      split at hs
      · rename_i item mail hi
        have hi' : (h.conversions v)[i]? = some (item, .asking mail) :=
          hless.conversions ▸ hi
        have hagent : h.agentOf v = g.agentOf v := by rw [agentOf, agentOf, hless.sys]
        cases result with
        | error error =>
            obtain ⟨h', hfail, halike⟩ := hless.fail hs
            exact hone h' (by simp [Converting.step, hi', Converting.answered, hfail]) halike
        | ok recipients =>
            obtain ⟨h', hset, halike⟩ := (hless.keepRecipients mail recipients).settle hs
            refine hone h' ?_ ⟨halike.less, halike.answers⟩
            simp [Converting.step, hi', Converting.answered, hagent, hset]
      · cases hs
  | joined v =>
      simp only [Converting.step, Option.ite_none_right_eq_some] at hs
      obtain ⟨hmade, hs⟩ := hs
      obtain ⟨sys, hsys, rfl⟩ := Option.map_eq_some_iff.mp hs
      refine hone _ ?_ (hless.plain sys)
      simp [Converting.step, hless.conversions, hmade, hless.sys, hsys]

/-- A later schedule, with reads that are answered with the kept recipients. -/
inductive StandsFor (kept : Uuid → Option Recipients) :
    List ConvertEvent → List ConvertEvent → Prop where
  | nil : StandsFor kept [] []
  | cons {e : ConvertEvent} {es es' rest : List ConvertEvent} :
      Stands kept e es → StandsFor kept es' rest → StandsFor kept (e :: es') (es ++ rest)

theorem runFrom_append {M : Machine Converting ConvertEvent} (es es' : List ConvertEvent)
    (s : Converting) : M.runFrom s (es ++ es') = (M.runFrom s es).bind fun t =>
      M.runFrom t es' := by
  induction es generalizing s with
  | nil => rfl
  | cons e es ih =>
      rw [List.cons_append, Machine.runFrom, Machine.runFrom]
      cases M.step s e with
      | none => rfl
      | some t => exact ih t

theorem Less.run (hless : Less kept g h) {es : List ConvertEvent}
    (hs : (machine port f).runFrom g es = some g') :
    ∃ es' h', StandsFor kept es es' ∧ (machine port f).runFrom h es' = some h' ∧
      Alike kept g h g' h' := by
  induction es generalizing g h with
  | nil =>
      cases hs
      exact ⟨[], h, .nil, rfl, hless, [], by simp, by simp⟩
  | cons e es ih =>
      obtain ⟨t, ht, hrest⟩ := Option.bind_eq_some_iff.mp hs
      obtain ⟨first, u, hstands, hfirst, halike⟩ := hless.step (f := f) ht
      obtain ⟨last, h', hfor, hlast, hlater⟩ := ih halike.less hrest
      refine ⟨first ++ last, h', .cons hstands hfor, ?_, hlater.less, ?_⟩
      · rw [runFrom_append, hfirst]
        exact hlast
      · obtain ⟨more, hmore, hmore'⟩ := halike.answers
        obtain ⟨later, hl, hl'⟩ := hlater.answers
        exact ⟨more ++ later, by rw [hl, hmore, List.append_assoc],
          by rw [hl', hmore', List.append_assoc]⟩

/-- Where a schedule leads does not depend on the first state of the machine. -/
theorem runFrom_machine (s : Converting) (es : List ConvertEvent) :
    (machine port g).runFrom s es = (machine port f).runFrom s es := by
  induction es generalizing s with
  | nil => rfl
  | cons e es ih =>
      rw [Machine.runFrom, Machine.runFrom]
      cases hs : s.step port e with
      | none => simp [machine, hs]
      | some t => simpa [machine, hs] using ih t

/-! ## Results -/

/-- No call of the listing is under way. -/
def NoCall (f : Converting) (c : ℕ) : Prop := f.isIdle c = true ∧ f.conversions c = []

/-- Listings that return errors leave the entries, the marks and the snapshots as they
were. Any later run has the same states and answers without them, if the recipients that
they have read are read again and told alike. -/
theorem failed_listing (port : Port) (f g : Converting) (c : ℕ) (hidle : NoCall f c)
    (h : Calls port f c g) (hend : g.isIdle c = true) (answers : List (ℕ × Answer))
    (hanswers : g.answers = f.answers ++ answers) (hfailed : Failed answers) :
    g.sys = f.sys ∧ g.conversions = f.conversions ∧
      (∀ mail recipients, f.recipients mail = some recipients →
        g.recipients mail = some recipients) ∧
      ∀ es g', (machine port g).run es = some g' →
        ∃ es' f', StandsFor g.recipients es es' ∧ (machine port f).run es' = some f' ∧
          f'.sys = g'.sys ∧
          ∃ more, g'.answers = g.answers ++ more ∧ f'.answers = f.answers ++ more := by
  obtain ⟨hsys, hconv, hkept⟩ :=
    failed_unchanged hidle.1 hidle.2 h hend hanswers hfailed
  refine ⟨hsys, hconv, hkept, fun es g' hrun => ?_⟩
  have hless : Less g.recipients g f := by
    refine ⟨hsys.symm, hconv.symm, fun mail => ?_⟩
    rcases Option.eq_none_or_eq_some (f.recipients mail) with hnone | ⟨found, hfound⟩
    · exact Or.inr ⟨hnone, rfl⟩
    · exact Or.inl (hfound.trans (hkept mail found hfound).symm)
  obtain ⟨es', f', hfor, hrun', halike⟩ :=
    hless.run (f := f) ((runFrom_machine g es).symm.trans hrun)
  exact ⟨es', f', hfor, hrun', halike.less.sys, halike.answers⟩

/-- A port on which every id is good. -/
def samplePort : Port where
  isV7 _ := true
  isBlank text := text == ""
  isEntry _ _ := true
  mailOf _ := ⟨7, 2, "Ann", some 3, "subject", "body", []⟩

/-- A registered agent that begins a listing. -/
def begun : Converting where
  sys := { Sys.init with queued := fun _ => false }.begin 1 none
  recipients _ := none
  conversions _ := []
  answers := []

/-- The mail of the page is converted, and the blank notice behind it is not. -/
def blankPage : List ConvertEvent :=
  [.base (.items 0 2), .base (.step 0),
    .base (.readDone 0 (.ok [.directMail 5 none 7, .mailNotice 6 none none ""])),
    .base (.step 0), .look 0 0, .answered 0 0 (.ok ⟨[1], []⟩), .look 0 1]

theorem failed_listing_blankPage : ∃ g, Calls samplePort begun 0 g ∧
    g.recipients 7 = some ⟨[1], []⟩ ∧ g.sys = begun.sys := by
  have hrun : ∃ g, (machine samplePort begun).run blankPage = some g ∧
      g.isIdle 0 = true ∧ g.recipients 7 = some ⟨[1], []⟩ ∧
      g.answers = [(0, .error (cannot "a blank notice"))] := ⟨_, rfl, rfl, rfl, rfl⟩
  obtain ⟨g, hg, hend, hkept, hanswers⟩ := hrun
  have hcalls : Calls samplePort begun 0 g :=
    Machine.Reach.runFrom .init (by simp [Machine.Guarded, blankPage, IsCall]) hg
  refine ⟨g, hcalls, hkept, ?_⟩
  exact (failed_listing samplePort begun g 0 ⟨rfl, rfl⟩ hcalls hend
    [(0, .error (cannot "a blank notice"))] hanswers (by simp [Failed])).1

/-- The calls of a listing of the mail alone, up to its conversion. -/
def mailPage : List ConvertEvent :=
  [.base (.items 0 2), .base (.step 0), .base (.readDone 0 (.ok [.directMail 5 none 7])),
    .base (.step 0), .look 0 0]

/-- Behind the failed listing a page is given without another read of the recipients;
without the failed listing the same calls ask for them, and fail if jobs does. -/
theorem failed_listing_seen : ∃ g g' f' item,
    (machine samplePort begun).run blankPage = some g ∧ g.isIdle 0 = true ∧
    g.answers = [(0, .error (cannot "a blank notice"))] ∧
    (machine samplePort g).run (mailPage ++ [.joined 0, .base (.step 0), .base (.step 0),
      .base (.step 0)]) = some g' ∧
    g'.answers = g.answers ++ [(0, .ok ([item], none))] ∧
    (machine samplePort begun).run (mailPage ++ [.answered 0 0 (.error .unauthenticated)]) =
      some f' ∧
    f'.answers = begun.answers ++ [(0, .error .unauthenticated)] :=
  ⟨_, _, _, _, rfl, rfl, rfl, rfl, rfl, rfl, rfl⟩

end Converting

end RunnerKit.InboxPort
