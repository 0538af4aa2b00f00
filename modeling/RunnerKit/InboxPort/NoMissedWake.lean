import RunnerKit.InboxPort.WaitSteps

/-!
# A parked wait has missed nothing

A wait throws its queued wakes away only before it looks again, and it looks
only once the registration of its agent has ended or while it still listens to
that end. So whatever comes behind the start of its last read is a wake that is
still queued.
-/

namespace RunnerKit.InboxPort.Waiting

open RunnerKit.Jobs RunnerKit.Lib

/-! ## The last read of a wait -/

def Obs.startsRead (w : ℕ) : Obs → Bool
  | .readStarted v => v == w
  | _ => false

/-- What was logged behind the start of the last read. -/
def sinceRead (w : ℕ) (log : List Obs) : List Obs := since (Obs.startsRead w) log

/-- What was logged up to the start of the last read. -/
def uptoRead (w : ℕ) (log : List Obs) : List Obs := upto (Obs.startsRead w) log

/-- Nothing that the wait listens to came behind the start of its last read, as
far as it is not queued for it. -/
structure Started (s : Sys) (w : ℕ) (x : Wait) : Prop where
  began : .readStarted w ∈ s.log
  unqueued : s.port.queued x.agent = false
  ended : .registrationEnded x.agent ∉ sinceRead w s.log
  rung : x.wakes = [] → ∀ k, .doorbell x.agent k ∉ sinceRead w s.log

/-- The last read held nothing that was not marked at its end. -/
def HeldNothing (s : Sys) (w : ℕ) (x : Wait) : Prop :=
  ∃ read, .readHeld w read [] ∈ sinceRead w s.log ∧
    leaveOutMarked (s.port.inbox.marked x.agent) read = []

structure WaitOk (s : Sys) (w : ℕ) (x : Wait) : Prop where
  watching : x.place ≠ .subscribing → x.place ≠ .done → x.watching = true
  opened : x.place ≠ .subscribing → x.place ≠ .checking → x.place ≠ .done →
    s.port.queued x.agent = true → x.registrationOpen = true
  reading : x.place = .reading → Started s w x
  filtering : ∀ items, x.place = .filtering items → Started s w x
  empty : x.place = .emptied ∨ x.place = .parked →
    x.registrationOpen = true ∨ (Started s w x ∧ HeldNothing s w x)

/-! ## What happens beside a wait -/

/-- What others log, and what they queue for the wait. -/
structure Beside (s s' : Sys) (w : ℕ) (x : Wait) (wakes : List Wake) (more : List Obs) :
    Prop where
  log : s'.log = s.log ++ more
  quiet : ∀ obs ∈ more, obs.startsRead w = false
  rung : x.watching = true → x.place ≠ .done →
    ∀ k, .doorbell x.agent k ∈ more → wakes ≠ []
  ended : .registrationEnded x.agent ∈ more → s.port.queued x.agent = true
  queued : s'.port.queued x.agent = true → s.port.queued x.agent = true
  marked : ∀ k ∈ s.port.inbox.marked x.agent, k ∈ s'.port.inbox.marked x.agent

variable {s s' : Sys} {w : ℕ} {x : Wait} {wakes : List Wake} {more : List Obs}

theorem Beside.since (h : Beside s s' w x wakes more) :
    sinceRead w s'.log = sinceRead w s.log ++ more := by
  rw [sinceRead, h.log]
  exact since_append h.quiet

theorem leaveOutMarked_mono {marked marked' : List Uuid} {items : List UnreadItem}
    (h : leaveOutMarked marked items = []) (hmono : ∀ k ∈ marked, k ∈ marked') :
    leaveOutMarked marked' items = [] := by
  simp only [leaveOutMarked, List.filter_eq_nil_iff, decide_eq_true_eq, not_not] at h ⊢
  exact fun item hitem => hmono _ (h item hitem)

theorem Started.beside (h : Started s w x) (hb : Beside s s' w x wakes more)
    (hwatching : x.watching = true) (hdone : x.place ≠ .done) :
    Started s' w { x with wakes := x.wakes ++ wakes } where
  began := by
    rw [hb.log]
    exact List.mem_append_left _ h.began
  unqueued := by
    rw [Bool.eq_false_iff]
    intro hqueued
    have hold := hb.queued hqueued
    rw [h.unqueued] at hold
    cases hold
  ended := by
    rw [hb.since, List.mem_append]
    rintro (hin | hin)
    · exact h.ended hin
    · have hold := hb.ended hin
      rw [h.unqueued] at hold
      cases hold
  rung := by
    intro hnil k
    obtain ⟨hx, hwakes⟩ := List.append_eq_nil_iff.mp hnil
    rw [hb.since, List.mem_append]
    rintro (hin | hin)
    · exact h.rung hx k hin
    · exact hb.rung hwatching hdone k hin hwakes

theorem HeldNothing.beside (h : HeldNothing s w x) (hb : Beside s s' w x wakes more) :
    HeldNothing s' w { x with wakes := x.wakes ++ wakes } := by
  obtain ⟨read, hread, hnil⟩ := h
  refine ⟨read, ?_, leaveOutMarked_mono hnil hb.marked⟩
  rw [hb.since]
  exact List.mem_append_left _ hread

theorem WaitOk.beside (h : WaitOk s w x) (hb : Beside s s' w x wakes more) :
    WaitOk s' w { x with wakes := x.wakes ++ wakes } where
  watching := h.watching
  opened := fun h1 h2 h3 hqueued => h.opened h1 h2 h3 (hb.queued hqueued)
  reading := by
    intro hplace
    have hdone : x.place ≠ .done := by
      rw [hplace]
      exact WaitPlace.noConfusion
    refine (h.reading hplace).beside hb (h.watching ?_ hdone) hdone
    rw [hplace]
    exact WaitPlace.noConfusion
  filtering := by
    intro items hplace
    have hdone : x.place ≠ .done := by
      rw [hplace]
      exact WaitPlace.noConfusion
    refine (h.filtering items hplace).beside hb (h.watching ?_ hdone) hdone
    rw [hplace]
    exact WaitPlace.noConfusion
  empty := by
    intro (hplace : x.place = .emptied ∨ x.place = .parked)
    have hdone : x.place ≠ .done := by
      rcases hplace with hp | hp <;> simp [hp]
    have hsub : x.place ≠ .subscribing := by
      rcases hplace with hp | hp <;> simp [hp]
    rcases h.empty hplace with hopen | ⟨hstarted, hheld⟩
    · exact Or.inl hopen
    · exact Or.inr ⟨hstarted.beside hb (h.watching hsub hdone) hdone, hheld.beside hb⟩

/-! ## Steps beside a wait -/

theorem startsRead_of_ne {obs : Obs} (h : obs.ofWait ≠ some w) :
    obs.startsRead w = false := by
  cases obs with
  | readStarted v => simpa [Obs.startsRead, Obs.ofWait] using h
  | _ => rfl

theorem Beside.of_eq (hlog : s'.log = s.log ++ more)
    (hquiet : ∀ obs ∈ more, obs.startsRead w = false ∧ (∀ k, obs ≠ .doorbell x.agent k) ∧
      obs ≠ .registrationEnded x.agent)
    (hqueued : s'.port.queued = s.port.queued)
    (hmarked : ∀ k ∈ s.port.inbox.marked x.agent, k ∈ s'.port.inbox.marked x.agent) :
    Beside s s' w x wakes more where
  log := hlog
  quiet := fun obs hobs => (hquiet obs hobs).1
  rung := fun _ _ k hin => absurd rfl ((hquiet _ hin).2.1 k)
  ended := fun hin => absurd rfl (hquiet _ hin).2.2
  queued := by
    rw [hqueued]
    exact id
  marked := hmarked

/-- What is queued for a wait whose receiver exists. -/
def wakesFor (x : Wait) (wakes : Wait → Bool) (wake : Wake) : List Wake :=
  if x.receives && wakes x then [wake] else []

theorem wake_waits (h : s.waits w = some x) (wakes : Wait → Bool) (wake : Wake) :
    (s.wake wakes wake).waits w =
      some { x with wakes := x.wakes ++ wakesFor x wakes wake } := by
  simp only [Sys.wake, h, Option.map_some, wakesFor]
  split <;> simp

/-- Whatever is not a step of the wait only queues wakes for it. -/
theorem step_beside {e : Event} (hs : s.step e = some s') (hne : e.ofWait ≠ some w)
    (hx : s.waits w = some x) (hw : w < s.nextWait) :
    ∃ wakes more, s'.waits w = some { x with wakes := x.wakes ++ wakes } ∧
      Beside s s' w x wakes more := by
  have quiet : ∀ {t : Sys} {more : List Obs}, t.waits w = some x → t.log = s.log ++ more →
      (∀ obs ∈ more, obs.startsRead w = false ∧ (∀ k, obs ≠ .doorbell x.agent k) ∧
        obs ≠ .registrationEnded x.agent) → t.port.queued = s.port.queued →
      (∀ k ∈ s.port.inbox.marked x.agent, k ∈ t.port.inbox.marked x.agent) →
      ∃ wakes more, t.waits w = some { x with wakes := x.wakes ++ wakes } ∧
        Beside s t w x wakes more := fun hwait hlog hquiet hqueued hmarked =>
    ⟨[], _, by simpa using hwait, .of_eq hlog hquiet hqueued hmarked⟩
  cases hof : e.ofWait with
  | some v =>
      have hv : v ≠ w := fun heq => hne (by rw [hof, heq])
      obtain ⟨y, y', more, -, rfl, hmore⟩ := own_step hof hs
      refine quiet (by simpa [Sys.told, Sys.setWait, Function.update_of_ne hv.symm] using hx)
        rfl ?_ rfl (fun _ hk => hk)
      intro obs hobs
      have hown := hmore.own obs hobs
      refine ⟨startsRead_of_ne (by rw [hown]; simpa using hv), ?_, ?_⟩
      · rintro k rfl
        cases hown
      · rintro rfl
        cases hown
  | none =>
      cases e with
      | agent agent =>
          simp only [Sys.step, Option.ite_none_right_eq_some, Option.some.injEq] at hs
          obtain ⟨-, rfl⟩ := hs
          exact quiet hx (List.append_nil _).symm (by simp) rfl fun _ hk => hk
      | listing event =>
          simp only [Sys.step, Option.ite_none_right_eq_some] at hs
          obtain ⟨hallowed, hs⟩ := hs
          obtain ⟨port, hport, rfl⟩ := Option.map_eq_some_iff.mp hs
          obtain ⟨hqueued, hmarked⟩ := listing_port hallowed hport
          refine quiet hx rfl ?_ hqueued ?_
          · intro obs hobs
            rcases listingTold_quiet hobs with ⟨c, agent, page, rfl⟩ | ⟨c, agent, page, rfl⟩
            · exact ⟨rfl, by simp, by simp⟩
            · exact ⟨rfl, by simp, by simp⟩
          · intro k hk
            show k ∈ port.inbox.marked x.agent
            rwa [hmarked]
      | registrationEnded agent =>
          simp only [Sys.step, Option.ite_none_right_eq_some, Option.some.injEq] at hs
          obtain ⟨hqueued, rfl⟩ := hs
          refine ⟨[], [.registrationEnded agent], by simpa using hx, ?_⟩
          refine ⟨rfl, by simp [Obs.startsRead], by simp, ?_, ?_, fun _ hk => hk⟩
          · intro hin
            cases List.mem_singleton.mp hin
            exact hqueued
          · intro hafter
            by_cases hagent : x.agent = agent
            · rw [hagent]
              exact hqueued
            · simpa [Sys.told, Function.update_of_ne hagent] using hafter
      | arrival event =>
          simp only [Sys.step, Option.ite_none_right_eq_some, Option.some.injEq] at hs
          obtain ⟨-, rfl⟩ := hs
          cases event with
          | item item =>
              cases haddress : item.address with
              | none =>
                  have hsame : s.arrival (.item item) = s := by simp [Sys.arrival, haddress]
                  rw [hsame]
                  exact quiet hx (List.append_nil _).symm (by simp) rfl fun _ hk => hk
              | some address =>
                  refine ⟨wakesFor x (fun wait => wait.agent == address) (.item item),
                    [.doorbell address item.itemId], ?_, ?_⟩
                  · simpa [Sys.arrival, haddress, Sys.told] using
                      wake_waits hx (fun wait => wait.agent == address) (.item item)
                  · refine ⟨?_, by simp [Obs.startsRead], ?_, by simp, ?_, ?_⟩
                    · simp [Sys.arrival, haddress, Sys.told, Sys.wake]
                    · intro hwatching hdone k hin
                      cases List.mem_singleton.mp hin
                      have hreceives : x.receives = true := by
                        unfold Wait.receives
                        split
                        · rename_i hp
                          exact absurd hp hdone
                        · exact hwatching
                      simp [wakesFor, hreceives]
                    · simp [Sys.arrival, haddress, Sys.told, Sys.wake]
                    · simp [Sys.arrival, haddress, Sys.told, Sys.wake]
          | syncEnd child ended => exact quiet hx (List.append_nil _).symm (by simp) rfl fun _ hk => hk
          | unreadable child error =>
              cases child <;> exact quiet hx (List.append_nil _).symm (by simp) rfl fun _ hk => hk
      | arrivalEnded error =>
          simp only [Sys.step, Option.ite_none_right_eq_some, Option.some.injEq] at hs
          obtain ⟨-, rfl⟩ := hs
          unfold Sys.arrivalEnded
          split
          · exact quiet hx (List.append_nil _).symm (by simp) rfl fun _ hk => hk
          · exact quiet hx rfl (by simp [Obs.startsRead]) rfl fun _ hk => hk
      | wakeAll i =>
          obtain ⟨error, -, rfl⟩ := Option.map_eq_some_iff.mp hs
          refine ⟨wakesFor x (fun _ => true) (.feedEnded error), [], ?_, ?_⟩
          · exact wake_waits hx (fun _ => true) (.feedEnded error)
          · exact .of_eq (List.append_nil _).symm (by simp) rfl fun _ hk => hk
      | arrivalOpenAgain =>
          simp only [Sys.step, Option.ite_none_right_eq_some, Option.some.injEq] at hs
          obtain ⟨-, rfl⟩ := hs
          exact quiet hx rfl (by simp [Obs.startsRead]) rfl fun _ hk => hk
      | dropBook =>
          simp only [Sys.step, Option.ite_none_right_eq_some, Option.some.injEq] at hs
          obtain ⟨-, rfl⟩ := hs
          exact quiet hx rfl (by simp [Obs.startsRead]) rfl fun _ hk => hk
      | wait agent lookup =>
          simp only [Sys.step, Option.ite_none_right_eq_some, Option.some.injEq] at hs
          obtain ⟨-, rfl⟩ := hs
          have hne : w ≠ s.nextWait := hw.ne
          unfold Sys.wait
          dsimp only
          split
          · exact quiet (by simpa [Sys.setWait, Function.update_of_ne hne] using hx)
              (List.append_nil _).symm (by simp) rfl fun _ hk => hk
          · refine quiet (by simpa [Sys.fail, Sys.setWait, Function.update_of_ne hne] using hx)
              rfl ?_ rfl fun _ hk => hk
            simp [Obs.startsRead]
      | markRead agent entryId lookup =>
          simp only [Sys.step, Option.ite_none_right_eq_some, Option.some.injEq] at hs
          obtain ⟨-, rfl⟩ := hs
          unfold Sys.markRead
          split <;> exact quiet hx (List.append_nil _).symm (by simp) rfl fun _ hk => hk
      | markStep c =>
          obtain ⟨call, -, hs⟩ := Option.bind_eq_some_iff.mp hs
          unfold Sys.markStep at hs
          split at hs
          · cases hs
            exact quiet hx (List.append_nil _).symm (by simp) rfl fun _ hk => hk
          · split at hs
            · cases hs
              exact quiet hx (List.append_nil _).symm (by simp) rfl fun _ hk => hk
            · cases hs
              refine quiet hx rfl (by simp [Obs.startsRead]) rfl fun k hk => ?_
              exact mem_mark hk
          · cases hs
            exact quiet hx rfl (by simp [Obs.startsRead]) rfl fun _ hk => hk
          · cases hs
      | waitStep v => cases hof
      | readDone v result => cases hof
      | woken v => cases hof
      | registered v => cases hof
      | dropWait v => cases hof

/-! ## Steps of the wait itself -/

theorem WaitOk.done (hplace : x.place = .done) : WaitOk s w x := by
  constructor <;> simp [hplace]

/-- A wait that is between two looks has only its registration to keep. -/
theorem WaitOk.draining (hplace : x.place = .draining ∨ x.place = .head ∨ x.place = .looking)
    (hwatching : x.watching = true)
    (hopened : s.port.queued x.agent = true → x.registrationOpen = true) :
    WaitOk s w x := by
  rcases hplace with hp | hp | hp <;> constructor <;> simp_all

theorem WaitOk.fail (error : PortError) {y : Wait}
    (hy : (s.fail w x error).waits w = some y) : WaitOk (s.fail w x error) w y := by
  simp only [Sys.fail, Sys.told_waits, Sys.setWait, Function.update_self,
    Option.some.injEq] at hy
  subst hy
  exact .done rfl

theorem WaitOk.took (h : WaitOk s w x) (hplace : x.place = .parked ∨ x.place = .draining)
    (hs : s.took w x = some s') {y : Wait} (hy : s'.waits w = some y) : WaitOk s' w y := by
  have hsub : x.place ≠ .subscribing := by rcases hplace with hp | hp <;> simp [hp]
  have hcheck : x.place ≠ .checking := by rcases hplace with hp | hp <;> simp [hp]
  have hdone : x.place ≠ .done := by rcases hplace with hp | hp <;> simp [hp]
  unfold Sys.took at hs
  split at hs
  · cases hs
    simp only [Sys.setWait, Function.update_self, Option.some.injEq] at hy
    subst hy
    exact .draining (Or.inl rfl) (h.watching hsub hdone) (h.opened hsub hcheck hdone)
  · cases hs
    exact .fail _ hy
  · split at hs
    · cases hs
    · cases hs
      exact .fail _ hy

/-- A read that starts now has missed nothing yet. -/
theorem WaitOk.start (h : WaitOk s w x) (hplace : x.place = .looking)
    (hqueued : s.port.queued x.agent = false) :
    WaitOk ((s.setWait w (x.moveTo .reading)).told [.readStarted w]) w
      (x.moveTo .reading) := by
  have hwatching : x.watching = true := h.watching (by simp [hplace]) (by simp [hplace])
  have hnil : sinceRead w (s.log ++ [.readStarted w]) = [] := by
    simp [sinceRead, since_snoc, Obs.startsRead]
  constructor
  · exact fun _ _ => hwatching
  · intro _ _ _ hq
    rw [Sys.told_port] at hq
    exact absurd hq (by simp [Sys.setWait, Wait.moveTo, hqueued])
  · intro _
    refine ⟨by simp, hqueued, ?_, ?_⟩
    · rw [Sys.told_log]
      simp [Sys.setWait, hnil]
    · rw [Sys.told_log]
      simp [Sys.setWait, hnil]
  · simp [Wait.moveTo]
  · simp [Wait.moveTo]

theorem empty_cases :
    (∃ error, s.ends.kept = some error ∧ x.first = true ∧
      s.empty w x = s.fail w x (.fault error)) ∨
      s.empty w x = s.setWait w { x with first := false, place := .parked } := by
  unfold Sys.empty
  split
  · rename_i hfirst
    split
    · rename_i error hkept
      exact Or.inl ⟨error, hkept, hfirst, rfl⟩
    · exact Or.inr rfl
  · rename_i hfirst
    simp only [Bool.not_eq_true] at hfirst
    right
    simp [Wait.moveTo, ← hfirst]

/-- A wait that finds nothing parks, or tells the error that the book keeps. -/
theorem WaitOk.parks (h : WaitOk s w x) (hplace : x.place = .emptied) {y : Wait}
    (hy : (s.empty w x).waits w = some y) : WaitOk (s.empty w x) w y := by
  have hempty := h.empty (Or.inl hplace)
  have hwatching : x.watching = true := h.watching (by simp [hplace]) (by simp [hplace])
  have hopened := h.opened (by simp [hplace]) (by simp [hplace]) (by simp [hplace])
  rcases empty_cases (s := s) (w := w) (x := x) with ⟨error, -, -, heq⟩ | heq
  · rw [heq] at hy ⊢
    exact .fail _ hy
  · rw [heq] at hy ⊢
    simp only [Sys.setWait, Function.update_self, Option.some.injEq] at hy
    subst hy
    constructor
    · exact fun _ _ => hwatching
    · exact fun _ _ _ hq => hopened hq
    · simp
    · simp
    · intro _
      rcases hempty with hopen | ⟨⟨h1, h2, h3, h4⟩, hheld⟩
      · exact Or.inl hopen
      · exact Or.inr ⟨⟨h1, h2, h3, h4⟩, hheld⟩

theorem WaitOk.step (h : WaitOk s w x) (hs : s.waitStep w x = some s') {y : Wait}
    (hy : s'.waits w = some y) : WaitOk s' w y := by
  unfold Sys.waitStep at hs
  split at hs
  · rename_i hplace
    cases hs
    simp only [Sys.told_waits, Sys.setWait, Function.update_self, Option.some.injEq] at hy
    subst hy
    constructor <;> simp
  · rename_i hplace
    cases hs
    simp only [Sys.setWait, Function.update_self, Option.some.injEq] at hy
    subst hy
    exact .draining (Or.inr (Or.inl rfl)) (h.watching (by simp [hplace]) (by simp [hplace])) id
  · rename_i hplace
    split at hs
    · cases hs
      simp only [Sys.setWait, Function.update_self, Option.some.injEq] at hy
      subst hy
      refine .draining (Or.inr (Or.inr rfl))
        (h.watching (by simp [hplace]) (by simp [hplace])) fun hq => ?_
      have hopen := h.opened (by simp [hplace]) (by simp [hplace]) (by simp [hplace]) hq
      have hq' : s.port.queued x.agent = true := hq
      simp [hopen, hq']
    · cases hs
      exact .fail _ hy
  · rename_i hplace
    split at hs
    · rename_i hqueued
      cases hs
      simp only [Sys.told_waits, Sys.setWait, Function.update_self, Option.some.injEq] at hy
      subst hy
      have hopen := h.opened (by simp [hplace]) (by simp [hplace]) (by simp [hplace]) hqueued
      have hwatching := h.watching (by simp [hplace]) (by simp [hplace])
      constructor <;> simp [Wait.moveTo, hopen, hwatching]
    · rename_i hqueued
      cases hs
      simp only [Sys.told_waits, Sys.setWait, Function.update_self, Option.some.injEq] at hy
      subst hy
      exact h.start hplace (by simpa using hqueued)
  · rename_i items hplace
    have hwatching := h.watching (by simp [hplace]) (by simp [hplace])
    have hopened := h.opened (by simp [hplace]) (by simp [hplace]) (by simp [hplace])
    have hstarted := h.filtering items hplace
    dsimp only at hs
    split at hs
    · rename_i hnil
      cases hs
      simp only [Sys.told_waits, Sys.setWait, Function.update_self, Option.some.injEq] at hy
      subst hy
      rw [List.isEmpty_iff] at hnil
      have hsince : sinceRead w (s.log ++ [.readHeld w items [], .emptied w]) =
          sinceRead w s.log ++ [.readHeld w items [], .emptied w] :=
        since_append (by simp [Obs.startsRead])
      obtain ⟨h1, h2, h3, h4⟩ := hstarted
      constructor
      · exact fun _ _ => hwatching
      · exact fun _ _ _ hq => hopened hq
      · simp [Wait.moveTo]
      · simp [Wait.moveTo]
      · intro _
        right
        refine ⟨⟨?_, h2, ?_, ?_⟩, items, ?_, hnil⟩
        · rw [Sys.told_log]
          exact List.mem_append_left _ h1
        · rw [Sys.told_log, hnil]
          simpa [hsince, Wait.moveTo, Sys.setWait] using h3
        · rw [Sys.told_log, hnil]
          simpa [hsince, Wait.moveTo, Sys.setWait] using h4
        · rw [Sys.told_log, hnil]
          simp [hsince, Sys.setWait]
    · cases hs
      simp only [Sys.told_waits, Sys.setWait, Function.update_self, Option.some.injEq] at hy
      subst hy
      exact .done rfl
  · rename_i hplace
    cases hs
    exact h.parks hplace hy
  · rename_i hplace
    split at hs
    · cases hs
      simp only [Sys.setWait, Function.update_self, Option.some.injEq] at hy
      subst hy
      exact .draining (Or.inr (Or.inl rfl)) (h.watching (by simp [hplace]) (by simp [hplace]))
        (h.opened (by simp [hplace]) (by simp [hplace]) (by simp [hplace]))
    · exact h.took (Or.inr hplace) hs hy
  · cases hs

theorem WaitOk.own (h : WaitOk s w x) (hx : s.waits w = some x) {e : Event}
    (he : e.ofWait = some w) (hs : s.step e = some s') {y : Wait}
    (hy : s'.waits w = some y) : WaitOk s' w y := by
  have bound : ∀ {f : Wait → Option Sys}, (s.waits w).bind f = some s' → f x = some s' := by
    intro f hf
    rwa [hx, Option.bind_some] at hf
  cases e with
  | waitStep v =>
      cases he
      exact h.step (bound hs) hy
  | readDone v result =>
      cases he
      have hs := bound hs
      cases result with
      | ok items =>
          simp only [Sys.readDone] at hs
          split at hs
          · rename_i hplace
            cases hs
            simp only [Sys.setWait, Function.update_self, Option.some.injEq] at hy
            subst hy
            obtain ⟨h1, h2, h3, h4⟩ := h.reading hplace
            constructor
            · exact fun _ _ => h.watching (by simp [hplace]) (by simp [hplace])
            · exact fun _ _ _ =>
                h.opened (by simp [hplace]) (by simp [hplace]) (by simp [hplace])
            · simp [Wait.moveTo]
            · exact fun _ _ => ⟨h1, h2, h3, h4⟩
            · simp [Wait.moveTo]
          · cases hs
      | error error =>
          simp only [Sys.readDone] at hs
          split at hs
          · cases hs
            exact .fail _ hy
          · cases hs
  | woken v =>
      cases he
      have hs := bound hs
      unfold Sys.woken at hs
      split at hs
      · rename_i hplace
        exact h.took (Or.inl hplace) hs hy
      · cases hs
  | registered v =>
      cases he
      have hs := bound hs
      unfold Sys.registered at hs
      split at hs
      · rename_i hplace
        split at hs
        · rename_i hready
          simp only [Bool.and_eq_true, Bool.not_eq_true'] at hready
          cases hs
          simp only [Sys.setWait, Function.update_self, Option.some.injEq] at hy
          subst hy
          refine .draining (Or.inl rfl) (h.watching (by simp [hplace]) (by simp [hplace]))
            fun hq => ?_
          have hq' : s.port.queued x.agent = true := hq
          rw [hready.2] at hq'
          cases hq'
        · cases hs
      · cases hs
  | dropWait v =>
      cases he
      have hs := bound hs
      unfold Sys.dropWait at hs
      split at hs
      · cases hs
        simp only [Sys.setWait, Function.update_self, Option.some.injEq] at hy
        subst hy
        exact .done rfl
      · cases hs
        simp only [Sys.setWait, Function.update_self, Option.some.injEq] at hy
        subst hy
        exact .done rfl
      · cases hs
  | agent _ => cases he
  | listing _ => cases he
  | registrationEnded _ => cases he
  | arrival _ => cases he
  | arrivalEnded _ => cases he
  | wakeAll _ => cases he
  | arrivalOpenAgain => cases he
  | dropBook => cases he
  | wait _ _ => cases he
  | markRead _ _ _ => cases he
  | markStep _ => cases he

/-! ## The whole run -/

/-- The waits stay, and a new one has nothing to keep yet. -/
theorem step_waits {e : Event} (hs : s.step e = some s') :
    (s'.nextWait = s.nextWait ∧ ∀ v, (s'.waits v).isSome = (s.waits v).isSome) ∨
    ∃ x, s'.nextWait = s.nextWait + 1 ∧
      s'.waits = Function.update s.waits s.nextWait (some x) ∧
      (x.place = .subscribing ∨ x.place = .done) := by
  cases hof : e.ofWait with
  | some v =>
      obtain ⟨x, x', more, hx, rfl, -⟩ := own_step hof hs
      refine Or.inl ⟨rfl, fun u => ?_⟩
      by_cases hu : u = v
      · subst hu
        simp [Sys.setWait, hx]
      · simp [Sys.setWait, Function.update_of_ne hu]
  | none =>
      cases e with
      | wait agent lookup =>
          simp only [Sys.step, Option.ite_none_right_eq_some, Option.some.injEq] at hs
          obtain ⟨-, rfl⟩ := hs
          right
          unfold Sys.wait
          dsimp only
          split
          · exact ⟨_, rfl, rfl, Or.inl rfl⟩
          · exact ⟨_, rfl, rfl, Or.inr rfl⟩
      | agent agent =>
          simp only [Sys.step, Option.ite_none_right_eq_some, Option.some.injEq] at hs
          obtain ⟨-, rfl⟩ := hs
          exact Or.inl ⟨rfl, fun _ => rfl⟩
      | listing event =>
          simp only [Sys.step, Option.ite_none_right_eq_some] at hs
          obtain ⟨-, hs⟩ := hs
          obtain ⟨port, -, rfl⟩ := Option.map_eq_some_iff.mp hs
          exact Or.inl ⟨rfl, fun _ => rfl⟩
      | registrationEnded agent =>
          simp only [Sys.step, Option.ite_none_right_eq_some, Option.some.injEq] at hs
          obtain ⟨-, rfl⟩ := hs
          exact Or.inl ⟨rfl, fun _ => rfl⟩
      | arrival event =>
          simp only [Sys.step, Option.ite_none_right_eq_some, Option.some.injEq] at hs
          obtain ⟨-, rfl⟩ := hs
          left
          cases event with
          | item item =>
              cases haddress : item.address <;> simp [Sys.arrival, haddress, Sys.wake]
          | syncEnd child ended => exact ⟨rfl, fun _ => rfl⟩
          | unreadable child error => cases child <;> exact ⟨rfl, fun _ => rfl⟩
      | arrivalEnded error =>
          simp only [Sys.step, Option.ite_none_right_eq_some, Option.some.injEq] at hs
          obtain ⟨-, rfl⟩ := hs
          unfold Sys.arrivalEnded
          split <;> exact Or.inl ⟨rfl, fun _ => rfl⟩
      | wakeAll i =>
          obtain ⟨error, -, rfl⟩ := Option.map_eq_some_iff.mp hs
          left
          simp [Sys.wake]
      | arrivalOpenAgain =>
          simp only [Sys.step, Option.ite_none_right_eq_some, Option.some.injEq] at hs
          obtain ⟨-, rfl⟩ := hs
          exact Or.inl ⟨rfl, fun _ => rfl⟩
      | dropBook =>
          simp only [Sys.step, Option.ite_none_right_eq_some, Option.some.injEq] at hs
          obtain ⟨-, rfl⟩ := hs
          exact Or.inl ⟨rfl, fun _ => rfl⟩
      | markRead agent entryId lookup =>
          simp only [Sys.step, Option.ite_none_right_eq_some, Option.some.injEq] at hs
          obtain ⟨-, rfl⟩ := hs
          unfold Sys.markRead
          split <;> exact Or.inl ⟨rfl, fun _ => rfl⟩
      | markStep c =>
          obtain ⟨call, -, hs⟩ := Option.bind_eq_some_iff.mp hs
          unfold Sys.markStep at hs
          split at hs
          · cases hs
            exact Or.inl ⟨rfl, fun _ => rfl⟩
          · split at hs <;> cases hs <;> exact Or.inl ⟨rfl, fun _ => rfl⟩
          · cases hs
            exact Or.inl ⟨rfl, fun _ => rfl⟩
          · cases hs
      | waitStep v => cases hof
      | readDone v result => cases hof
      | woken v => cases hof
      | registered v => cases hof
      | dropWait v => cases hof

def WaitsOk (s : Sys) : Prop :=
  ∀ w x, s.waits w = some x → w < s.nextWait ∧ WaitOk s w x

theorem WaitsOk.step (h : WaitsOk s) {e : Event} (hs : s.step e = some s') :
    WaitsOk s' := by
  have hknown := fun v x hx => (h v x hx).1
  intro w y hy
  have old : ∀ x, s.waits w = some x → WaitOk s' w y := by
    intro x hx
    by_cases hof : e.ofWait = some w
    · exact (h w x hx).2.own hx hof hs hy
    · obtain ⟨wakes, more, hwait, hbeside⟩ := step_beside hs hof hx (hknown w x hx)
      rw [hwait] at hy
      cases hy
      exact (h w x hx).2.beside hbeside
  rcases step_waits hs with ⟨hnext, hsome⟩ | ⟨x, hnext, hwaits, hplace⟩
  · have hw := hsome w
    rw [hy, Option.isSome_some] at hw
    obtain ⟨x, hx⟩ := Option.isSome_iff_exists.mp hw.symm
    exact ⟨hnext ▸ hknown w x hx, old x hx⟩
  · rw [hwaits] at hy
    by_cases hw : w = s.nextWait
    · subst hw
      rw [Function.update_self] at hy
      cases hy
      refine ⟨by omega, ?_⟩
      rcases hplace with hp | hp
      · constructor <;> simp [hp]
      · exact .done hp
    · rw [Function.update_of_ne hw] at hy
      have hlt := hknown w y hy
      exact ⟨by omega, old y hy⟩

theorem waitsOk_init {runId : Uuid} : WaitsOk (Sys.init runId) := by
  intro w x hx
  cases hx

theorem waitsOk {runId : Uuid} (h : (Sys.machine runId).Reachable s) : WaitsOk s :=
  h.invariant (P := WaitsOk) waitsOk_init fun hp hs => hp.step hs

end RunnerKit.InboxPort.Waiting
