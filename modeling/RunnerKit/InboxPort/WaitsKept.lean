import RunnerKit.InboxPort.Complete
import RunnerKit.InboxPort.NoMissedWake

/-!
# What parks a wait and what ends it

A wait gives an error only for the end of the feed, the drop of the book, a
failed read, a failure that is kept the first time it finds nothing, or a refusal
before it subscribes.
-/

namespace RunnerKit.InboxPort.Waiting

open RunnerKit.Jobs RunnerKit.Lib

variable {s s' : Sys} {w : ℕ} {x : Wait} {more : List Obs}

/-! ## Why a wait gives an error -/

def keptAfter (kept : Option Error) : Obs → Option Error
  | .feedEnded error => if error.isInfraMissing then some error else kept
  | .openedAgain => none
  | _ => kept

/-- The failure that the book keeps. -/
def keptOf (log : List Obs) : Option Error := log.foldl keptAfter none

@[simp] theorem keptOf_append (log more : List Obs) :
    keptOf (log ++ more) = more.foldl keptAfter (keptOf log) := by
  simp [keptOf]

def Obs.findsNothing (w : ℕ) : Obs → Bool
  | .emptied v => v == w
  | _ => false

/-- How often the wait found nothing. -/
def foundNothing (w : ℕ) (log : List Obs) : ℕ := log.countP (Obs.findsNothing w)

@[simp] theorem foundNothing_append (w : ℕ) (log more : List Obs) :
    foundNothing w (log ++ more) = foundNothing w log + foundNothing w more := by
  simp [foundNothing]

/-- The end of the feed was given to the book, the book was dropped, a read
failed, a failure is kept the first time the wait finds nothing, or the wait was
refused before it subscribed. -/
def Reason (pre : List Obs) (w : ℕ) : PortError → Prop
  | .lookup _ => .subscribed w ∉ pre
  | .fault error =>
      .feedEnded error ∈ pre ∨ (error = .bookDropped ∧ .bookDropped ∈ pre) ∨
        .readFailed w error ∈ pre ∨ (keptOf pre = some error ∧ foundNothing w pre = 1) ∨
        (error = notHolder ∧ .subscribed w ∉ pre)

def Reasoned (pre : List Obs) (obs : Obs) : Prop :=
  ∀ w agent error, obs = .returned w agent (.error error) → Reason pre w error

def WaitPlace.found : WaitPlace → ℕ
  | .emptied => 1
  | _ => 0

structure ReasonInv (s : Sys) : Prop where
  due : ∀ error ∈ s.due, .feedEnded error ∈ s.log
  wakes : ∀ w x error, s.waits w = some x → .feedEnded error ∈ x.wakes →
    .feedEnded error ∈ s.log
  kept : s.ends.kept = keptOf s.log
  book : s.book = false → .bookDropped ∈ s.log
  firsts : ∀ w x, s.waits w = some x → x.first = true → x.place ≠ .done →
    foundNothing w s.log = x.place.found
  fresh : ∀ w, s.nextWait ≤ w → foundNothing w s.log = 0 ∧ .subscribed w ∉ s.log
  told : Always Reasoned s.log

theorem ReasonInv.init {runId : Uuid} : ReasonInv (Sys.init runId) := by
  constructor <;> simp [Sys.init, EndWait.Held.new, keptOf, foundNothing, Always]

theorem foundNothing_others {v : ℕ} (h : ∀ obs ∈ more, obs.ofWait ≠ some v) :
    foundNothing v more = 0 := by
  apply List.countP_eq_zero.mpr
  intro obs hobs
  have hne := h obs hobs
  cases obs with
  | emptied u => simpa [Obs.findsNothing, Obs.ofWait] using hne
  | _ => simp [Obs.findsNothing]

theorem keptAfter_own {kept : Option Error} (h : ∀ obs ∈ more, obs.ofWait = some w) :
    more.foldl keptAfter kept = kept := by
  induction more with
  | nil => rfl
  | cons obs more ih =>
      have hobs := h obs (by simp)
      have hkept : keptAfter kept obs = kept := by
        cases obs <;> first | rfl | cases hobs
      rw [List.foldl_cons, hkept]
      exact ih fun o ho => h o (List.mem_cons_of_mem _ ho)

/-- A step of a wait that has read wakes and told of itself. -/
theorem ReasonInv.own (h : ReasonInv s) (x' : Wait) (hx : s.waits w = some x)
    (hw : w < s.nextWait) (hmore : ∀ obs ∈ more, obs.ofWait = some w)
    (hwakes : ∀ wake ∈ x'.wakes, wake ∈ x.wakes)
    (hfirst : x'.first = true → x'.place ≠ .done →
      foundNothing w (s.log ++ more) = x'.place.found)
    (htold : Always Reasoned (s.log ++ more)) : ReasonInv ((s.setWait w x').told more) where
  due := fun error he => List.mem_append_left _ (h.due error he)
  wakes := by
    intro v y error hy hin
    apply List.mem_append_left
    by_cases hv : v = w
    · subst hv
      simp only [Sys.told_waits, Sys.setWait, Function.update_self, Option.some.injEq] at hy
      subst hy
      exact h.wakes v x error hx (hwakes _ hin)
    · simp only [Sys.told_waits, Sys.setWait, Function.update_of_ne hv] at hy
      exact h.wakes v y error hy hin
  kept := by
    rw [Sys.told_log]
    show s.ends.kept = keptOf (s.log ++ more)
    rw [keptOf_append, keptAfter_own hmore]
    exact h.kept
  book := fun hbook => List.mem_append_left _ (h.book hbook)
  firsts := by
    intro v y hy
    by_cases hv : v = w
    · subst hv
      simp only [Sys.told_waits, Sys.setWait, Function.update_self, Option.some.injEq] at hy
      subst hy
      exact hfirst
    · simp only [Sys.told_waits, Sys.setWait, Function.update_of_ne hv] at hy
      intro hf hdone
      show foundNothing v (s.log ++ more) = _
      rw [foundNothing_append, h.firsts v y hy hf hdone, foundNothing_others, Nat.add_zero]
      exact fun obs hobs => by simpa [hmore obs hobs] using Ne.symm hv
  fresh := by
    intro v hv
    have hne : ∀ obs ∈ more, obs.ofWait ≠ some v := by
      intro obs hobs
      rw [hmore obs hobs]
      have hv' : s.nextWait ≤ v := hv
      simp only [ne_eq, Option.some.injEq]
      omega
    obtain ⟨hcount, hsub⟩ := h.fresh v hv
    constructor
    · show foundNothing v (s.log ++ more) = 0
      rw [foundNothing_append, hcount, foundNothing_others hne]
    · intro hin
      rcases List.mem_append.mp hin with hin | hin
      · exact hsub hin
      · exact hne _ hin rfl
  told := htold

/-- A wait that fails for a reason. -/
theorem ReasonInv.fail (h : ReasonInv s) (hx : s.waits w = some x) (hw : w < s.nextWait)
    {error : PortError} (hreason : Reason s.log w error) :
    ReasonInv (s.fail w x error) := by
  refine h.own (x.moveTo .done) hx hw (by simp [Obs.ofWait]) (fun _ hin => hin)
    (fun _ hdone => absurd rfl hdone) (always_snoc.mpr ⟨h.told, ?_⟩)
  intro v agent error' heq
  cases heq
  exact hreason

/-- A step of a wait that tells nothing of an error. -/
theorem ReasonInv.quiet (h : ReasonInv s) (hx : s.waits w = some x) (hw : w < s.nextWait)
    {x' : Wait} (hmore : ∀ obs ∈ more, obs.ofWait = some w ∧
      ∀ agent error, obs ≠ .returned w agent (.error error))
    (hwakes : ∀ wake ∈ x'.wakes, wake ∈ x.wakes)
    (hfirst : x'.first = true → x'.place ≠ .done →
      foundNothing w (s.log ++ more) = x'.place.found) :
    ReasonInv ((s.setWait w x').told more) := by
  refine h.own x' hx hw (fun obs hobs => (hmore obs hobs).1) hwakes hfirst ?_
  apply always_append h.told
  rintro obs hobs pre v agent error rfl
  obtain ⟨hv, hne⟩ := hmore _ hobs
  cases hv
  exact absurd rfl (hne agent error)

/-- The same, for a step that logs nothing. -/
theorem ReasonInv.silent (h : ReasonInv s) (hx : s.waits w = some x) (hw : w < s.nextWait)
    {x' : Wait} (hwakes : ∀ wake ∈ x'.wakes, wake ∈ x.wakes)
    (hfirst : x'.first = true → x'.place ≠ .done → x.first = true ∧ x.place ≠ .done ∧
      x'.place.found = x.place.found) : ReasonInv (s.setWait w x') := by
  have hquiet : ReasonInv ((s.setWait w x').told []) := by
    refine h.quiet hx hw (by simp) hwakes fun hf hd => ?_
    obtain ⟨hfirst, hdone, hfound⟩ := hfirst hf hd
    rw [List.append_nil, h.firsts w x hx hfirst hdone, hfound]
  simpa [Sys.told] using hquiet

theorem ReasonInv.took (h : ReasonInv s) (hx : s.waits w = some x) (hw : w < s.nextWait)
    (hplace : x.place = .parked ∨ x.place = .draining) (hs : s.took w x = some s') :
    ReasonInv s' := by
  unfold Sys.took at hs
  split at hs
  · rename_i item rest hwakes
    cases hs
    refine h.silent hx hw ?_ ?_
    · intro wake hin
      rw [hwakes]
      exact List.mem_cons_of_mem _ hin
    · intro hf _
      rcases hplace with hp | hp <;> simp_all [WaitPlace.found]
  · rename_i error rest hwakes
    cases hs
    exact h.fail hx hw (Or.inl (h.wakes w x error hx (by rw [hwakes]; simp)))
  · split at hs
    · cases hs
    · rename_i hbook
      cases hs
      exact h.fail hx hw (Or.inr (Or.inl ⟨rfl, h.book (by simpa using hbook)⟩))

theorem ReasonInv.waitStep (h : ReasonInv s) (hx : s.waits w = some x)
    (hw : w < s.nextWait) (hs : s.waitStep w x = some s') : ReasonInv s' := by
  unfold Sys.waitStep at hs
  split at hs
  · rename_i hplace
    cases hs
    refine h.quiet hx hw (by simp [Obs.ofWait]) (fun _ hin => hin) fun hf _ => ?_
    rw [foundNothing_append, h.firsts w x hx hf (by simp [hplace]), hplace]
    rfl
  · rename_i hplace
    cases hs
    refine h.silent hx hw (fun _ hin => hin) fun hf _ => ?_
    exact ⟨hf, by simp [hplace], by simp [hplace, WaitPlace.found]⟩
  · rename_i hplace
    split at hs
    · cases hs
      refine h.silent hx hw (fun _ hin => hin) fun hf _ => ?_
      exact ⟨hf, by simp [hplace], by simp [hplace, WaitPlace.found]⟩
    · rename_i hbook
      cases hs
      exact h.fail hx hw (Or.inr (Or.inl ⟨rfl, h.book (by simpa using hbook)⟩))
  · rename_i hplace
    split at hs
    · cases hs
      refine h.quiet hx hw (by simp [Obs.ofWait]) (fun _ hin => hin) fun hf _ => ?_
      rw [foundNothing_append, h.firsts w x hx hf (by simp [hplace]), hplace]
      simp [foundNothing, Obs.findsNothing, WaitPlace.found, Wait.moveTo]
    · cases hs
      refine h.quiet hx hw (by simp [Obs.ofWait]) (fun _ hin => hin) fun hf _ => ?_
      rw [foundNothing_append, h.firsts w x hx hf (by simp [hplace]), hplace]
      simp [foundNothing, Obs.findsNothing, WaitPlace.found, Wait.moveTo]
  · rename_i items hplace
    dsimp only at hs
    split at hs
    · cases hs
      refine h.quiet hx hw (by simp [Obs.ofWait]) (fun _ hin => hin) fun hf _ => ?_
      rw [foundNothing_append, h.firsts w x hx hf (by simp [hplace]), hplace]
      simp [foundNothing, Obs.findsNothing, WaitPlace.found, Wait.moveTo]
    · cases hs
      exact h.quiet hx hw (by simp [Obs.ofWait]) (fun _ hin => hin)
        fun _ hdone => absurd rfl hdone
  · rename_i hplace
    cases hs
    rcases empty_cases (s := s) (w := w) (x := x) with ⟨error, hkept, hfirst, heq⟩ | heq
    · rw [heq]
      refine h.fail hx hw (Or.inr (Or.inr (Or.inr (Or.inl ⟨?_, ?_⟩))))
      · rw [← h.kept, hkept]
      · rw [h.firsts w x hx hfirst (by simp [hplace]), hplace]
        rfl
    · rw [heq]
      exact h.silent hx hw (fun _ hin => hin) fun hf => by simp at hf
  · rename_i hplace
    split at hs
    · cases hs
      refine h.silent hx hw (fun _ hin => hin) fun hf _ => ?_
      exact ⟨hf, by simp [hplace], by simp [hplace, WaitPlace.found, Wait.moveTo]⟩
    · exact h.took hx hw (Or.inr hplace) hs
  · cases hs

theorem ReasonInv.ofWait (h : ReasonInv s) {e : Event} (he : e.ofWait = some w)
    (hw : w < s.nextWait) (hs : s.step e = some s') : ReasonInv s' := by
  cases e with
  | waitStep v =>
      cases he
      obtain ⟨x, hx, hs⟩ := Option.bind_eq_some_iff.mp hs
      exact h.waitStep hx hw hs
  | readDone v result =>
      cases he
      obtain ⟨x, hx, hs⟩ := Option.bind_eq_some_iff.mp hs
      cases result with
      | ok items =>
          simp only [Sys.readDone] at hs
          split at hs
          · rename_i hplace
            cases hs
            refine h.silent hx hw (fun _ hin => hin) fun hf _ => ?_
            exact ⟨hf, by simp [hplace], by simp [hplace, WaitPlace.found, Wait.moveTo]⟩
          · cases hs
      | error error =>
          simp only [Sys.readDone] at hs
          split at hs
          · rename_i hplace
            cases hs
            -- the failed read is told first, and is the reason
            have hfailed : ReasonInv ((s.setWait w x).told [.readFailed w error]) := by
              refine h.quiet hx hw (by simp [Obs.ofWait]) (fun _ hin => hin) fun hf _ => ?_
              rw [foundNothing_append, h.firsts w x hx hf (by simp [hplace])]
              simp [foundNothing, Obs.findsNothing]
            have hsame : s.setWait w x = s := by
              simp [Sys.setWait, ← hx]
            rw [hsame] at hfailed
            refine hfailed.fail (w := w) (x := x) hx hw (Or.inr (Or.inr (Or.inl ?_)))
            simp
          · cases hs
  | woken v =>
      cases he
      obtain ⟨x, hx, hs⟩ := Option.bind_eq_some_iff.mp hs
      unfold Sys.woken at hs
      split at hs
      · rename_i hplace
        exact h.took hx hw (Or.inl hplace) hs
      · cases hs
  | registered v =>
      cases he
      obtain ⟨x, hx, hs⟩ := Option.bind_eq_some_iff.mp hs
      unfold Sys.registered at hs
      split at hs
      · rename_i hplace
        split at hs
        · cases hs
          refine h.silent hx hw (fun _ hin => hin) fun hf _ => ?_
          exact ⟨hf, by simp [hplace], by simp [hplace, WaitPlace.found]⟩
        · cases hs
      · cases hs
  | dropWait v =>
      cases he
      obtain ⟨x, hx, hs⟩ := Option.bind_eq_some_iff.mp hs
      unfold Sys.dropWait at hs
      split at hs
      · cases hs
        exact h.silent hx hw (fun _ hin => hin) fun _ hdone => absurd rfl hdone
      · cases hs
        exact h.silent hx hw (fun _ hin => hin) fun _ hdone => absurd rfl hdone
      · cases hs
  | agent _ => cases he
  | listing _ => cases he
  | registrationEnded _ => cases he
  | arrival _ => cases he
  | arrivalEnded _ => cases he
  | wakeAll _ => cases he
  | arrivalOpenAgain => cases he
  | dropBook => cases he
  | wait _ _ => cases he
  | markRead _ _ _ => cases he
  | markStep _ => cases he

/-- A step of somebody else. -/
theorem ReasonInv.frame (h : ReasonInv s) (hlog : s'.log = s.log ++ more)
    (hnone : ∀ obs ∈ more, obs.ofWait = none) (hnext : s'.nextWait = s.nextWait)
    (hwaits : ∀ v y, s'.waits v = some y → ∃ x, s.waits v = some x ∧ y.first = x.first ∧
      y.place = x.place ∧ ∀ error, .feedEnded error ∈ y.wakes →
        .feedEnded error ∈ x.wakes ∨ error ∈ s.due)
    (hdue : ∀ error ∈ s'.due, error ∈ s.due ∨ .feedEnded error ∈ more)
    (hkept : s'.ends.kept = more.foldl keptAfter s.ends.kept)
    (hbook : s'.book = false → s.book = false ∨ .bookDropped ∈ more) : ReasonInv s' := by
  have hothers : ∀ v, ∀ obs ∈ more, obs.ofWait ≠ some v := by
    intro v obs hobs
    rw [hnone obs hobs]
    simp
  constructor
  · intro error he
    rw [hlog]
    rcases hdue error he with hin | hin
    · exact List.mem_append_left _ (h.due error hin)
    · exact List.mem_append_right _ hin
  · intro v y error hy hin
    obtain ⟨x, hx, -, -, hwakes⟩ := hwaits v y hy
    rw [hlog]
    apply List.mem_append_left
    rcases hwakes error hin with hin | hin
    · exact h.wakes v x error hx hin
    · exact h.due error hin
  · rw [hkept, hlog, keptOf_append, h.kept]
  · intro hb
    rw [hlog]
    rcases hbook hb with hin | hin
    · exact List.mem_append_left _ (h.book hin)
    · exact List.mem_append_right _ hin
  · intro v y hy hf hdone
    obtain ⟨x, hx, hfirst, hplace, -⟩ := hwaits v y hy
    rw [hlog, foundNothing_append, foundNothing_others (hothers v), hplace]
    exact h.firsts v x hx (hfirst ▸ hf) (hplace ▸ hdone)
  · intro v hv
    rw [hnext] at hv
    obtain ⟨hcount, hsub⟩ := h.fresh v hv
    rw [hlog, foundNothing_append, hcount, foundNothing_others (hothers v)]
    refine ⟨rfl, fun hin => ?_⟩
    rcases List.mem_append.mp hin with hin | hin
    · exact hsub hin
    · exact hothers v _ hin rfl
  · rw [hlog]
    apply always_append h.told
    rintro obs hobs pre v agent error rfl
    exact absurd rfl (hothers v _ hobs)

/-- A wait that was refused is done with its error. -/
theorem ReasonInv.wait (h : ReasonInv s) (agent : Uuid) (lookup : Option String) :
    ReasonInv (s.wait agent lookup) := by
  obtain ⟨hcount, hsub⟩ := h.fresh s.nextWait (Nat.le_refl _)
  -- a wait that has done nothing yet
  have made : ∀ place : WaitPlace, place.found = 0 →
      ReasonInv (({ s with nextWait := s.nextWait + 1 } : Sys).setWait s.nextWait
        ⟨agent, false, [], false, true, place⟩) := by
    intro place hplace
    constructor
    · exact h.due
    · intro v y error hy hin
      by_cases hv : v = s.nextWait
      · subst hv
        simp only [Sys.setWait, Function.update_self, Option.some.injEq] at hy
        subst hy
        cases hin
      · simp only [Sys.setWait, Function.update_of_ne hv] at hy
        exact h.wakes v y error hy hin
    · exact h.kept
    · exact h.book
    · intro v y hy hf hdone
      by_cases hv : v = s.nextWait
      · subst hv
        simp only [Sys.setWait, Function.update_self, Option.some.injEq] at hy
        subst hy
        exact hcount.trans hplace.symm
      · simp only [Sys.setWait, Function.update_of_ne hv] at hy
        exact h.firsts v y hy hf hdone
    · exact fun v hv => h.fresh v (Nat.le_of_succ_le hv)
    · exact h.told
  unfold Sys.wait
  dsimp only
  split
  · exact made .subscribing rfl
  · rename_i error hrefused
    have hreason : Reason s.log s.nextWait error := by
      unfold Sys.resolve at hrefused
      split at hrefused
      · cases hrefused
        exact hsub
      · split at hrefused
        · cases hrefused
        · cases hrefused
          exact Or.inr (Or.inr (Or.inr (Or.inr ⟨rfl, hsub⟩)))
    have hfail := (made .subscribing rfl).fail (w := s.nextWait)
      (x := ⟨agent, false, [], false, true, .subscribing⟩)
      (by simp [Sys.setWait]) (Nat.lt_succ_self _) hreason
    simpa [Sys.fail, Sys.setWait] using hfail

theorem wake_kept {wakes : Wait → Bool} {wake : Wake} {y : Wait}
    (hy : (s.wake wakes wake).waits w = some y) :
    ∃ x, s.waits w = some x ∧ y.first = x.first ∧ y.place = x.place ∧
      ∀ other ∈ y.wakes, other ∈ x.wakes ∨ other = wake := by
  obtain ⟨x, hx, heq⟩ := Option.map_eq_some_iff.mp hy
  refine ⟨x, hx, ?_⟩
  split at heq
  · subst heq
    exact ⟨rfl, rfl, fun other hin => by simpa using hin⟩
  · subst heq
    exact ⟨rfl, rfl, fun other hin => Or.inl hin⟩

theorem ReasonInv.step (h : ReasonInv s) (hok : WaitsOk s) {e : Event}
    (hs : s.step e = some s') : ReasonInv s' := by
  have same : ∀ v y, s.waits v = some y → ∃ x, s.waits v = some x ∧ y.first = x.first ∧
      y.place = x.place ∧ ∀ error, .feedEnded error ∈ y.wakes →
        .feedEnded error ∈ x.wakes ∨ error ∈ s.due :=
    fun v y hy => ⟨y, hy, rfl, rfl, fun _ hin => Or.inl hin⟩
  have silent : ∀ {t : Sys}, t.waits = s.waits → t.log = s.log → t.nextWait = s.nextWait →
      t.due = s.due → t.ends.kept = s.ends.kept → t.book = s.book → ReasonInv t := by
    intro t hwaits hlog hnext hdue hkept hbook
    refine h.frame (show t.log = s.log ++ [] by simpa using hlog) (by simp) hnext ?_ ?_
      (by simpa using hkept) ?_
    · rw [hwaits]
      exact same
    · rw [hdue]
      exact fun _ hin => Or.inl hin
    · rw [hbook]
      exact Or.inl
  cases hof : e.ofWait with
  | some v =>
      obtain ⟨x, -, -, hx, -, -⟩ := own_step hof hs
      exact h.ofWait hof (hok v x hx).1 hs
  | none =>
      cases e with
      | wait agent lookup =>
          simp only [Sys.step, Option.ite_none_right_eq_some, Option.some.injEq] at hs
          obtain ⟨-, rfl⟩ := hs
          exact h.wait agent lookup
      | agent agent =>
          simp only [Sys.step, Option.ite_none_right_eq_some, Option.some.injEq] at hs
          obtain ⟨-, rfl⟩ := hs
          exact silent rfl rfl rfl rfl rfl rfl
      | listing event =>
          simp only [Sys.step, Option.ite_none_right_eq_some] at hs
          obtain ⟨-, hs⟩ := hs
          obtain ⟨port, -, rfl⟩ := Option.map_eq_some_iff.mp hs
          refine h.frame rfl ?_ rfl same (fun _ hin => Or.inl hin) ?_ Or.inl
          · intro obs hobs
            rcases listingTold_quiet hobs with ⟨c, agent, page, rfl⟩ | ⟨c, agent, page, rfl⟩ <;>
              rfl
          · suffices hsame : ∀ more : List Obs, (∀ obs ∈ more, (∃ c agent page, obs = .cut c agent page) ∨
                ∃ c agent page, obs = .gave c agent page) → ∀ kept,
                more.foldl keptAfter kept = kept from
              (hsame _ (fun obs hobs => listingTold_quiet hobs) _).symm
            intro more hmore kept
            induction more with
            | nil => rfl
            | cons obs more ih =>
                rw [List.foldl_cons]
                have hobs : keptAfter kept obs = kept := by
                  rcases hmore obs (by simp) with ⟨c, agent, page, rfl⟩ | ⟨c, agent, page, rfl⟩ <;>
                    rfl
                rw [hobs]
                exact ih fun o ho => hmore o (List.mem_cons_of_mem _ ho)
      | registrationEnded agent =>
          simp only [Sys.step, Option.ite_none_right_eq_some, Option.some.injEq] at hs
          obtain ⟨-, rfl⟩ := hs
          exact h.frame rfl (by simp [Obs.ofWait]) rfl same (fun _ hin => Or.inl hin) rfl Or.inl
      | arrival event =>
          simp only [Sys.step, Option.ite_none_right_eq_some, Option.some.injEq] at hs
          obtain ⟨-, rfl⟩ := hs
          have hrecord : ∀ child outcome, (s.ends.record child outcome).2.kept = s.ends.kept := by
            intro child outcome
            unfold EndWait.Held.record
            split <;> rfl
          cases event with
          | item item =>
              cases haddress : item.address with
              | none =>
                  have hsame : s.arrival (.item item) = s := by simp [Sys.arrival, haddress]
                  rw [hsame]
                  exact h
              | some address =>
                  have heq : s.arrival (.item item) =
                      (s.wake (fun wait => wait.agent == address) (.item item)).told
                        [.doorbell address item.itemId] := by
                    simp [Sys.arrival, haddress]
                  rw [heq]
                  refine h.frame rfl (by simp [Obs.ofWait]) rfl ?_ (fun _ hin => Or.inl hin) rfl
                    Or.inl
                  intro v y hy
                  obtain ⟨x, hx, hfirst, hplace, hwakes⟩ := wake_kept hy
                  refine ⟨x, hx, hfirst, hplace, fun error hin => ?_⟩
                  rcases hwakes _ hin with hin | heq
                  · exact Or.inl hin
                  · cases heq
          | syncEnd child ended => exact silent rfl rfl rfl rfl (hrecord _ _) rfl
          | unreadable child error =>
              cases child with
              | none => exact h
              | some child => exact silent rfl rfl rfl rfl (hrecord _ _) rfl
      | arrivalEnded error =>
          simp only [Sys.step, Option.ite_none_right_eq_some, Option.some.injEq] at hs
          obtain ⟨-, rfl⟩ := hs
          unfold Sys.arrivalEnded
          split
          · exact h
          · refine h.frame rfl (by simp [Obs.ofWait]) rfl same ?_ ?_ Or.inl
            · intro e he
              rcases List.mem_append.mp he with he | he
              · exact Or.inl he
              · cases List.mem_singleton.mp he
                exact Or.inr (by simp)
            · by_cases hmissing : error.isInfraMissing <;>
                simp [keptAfter, hmissing, EndWait.Held.infraMissing]
      | wakeAll i =>
          obtain ⟨error, herror, rfl⟩ := Option.map_eq_some_iff.mp hs
          have hdue : error ∈ s.due := List.mem_of_getElem? herror
          refine h.frame (List.append_nil _).symm (by simp) rfl ?_ ?_ rfl Or.inl
          · intro v y hy
            obtain ⟨x, hx, hfirst, hplace, hwakes⟩ := wake_kept hy
            refine ⟨x, hx, hfirst, hplace, fun error' hin => ?_⟩
            rcases hwakes _ hin with hin | heq
            · exact Or.inl hin
            · cases heq
              exact Or.inr hdue
          · exact fun e he => Or.inl (List.mem_of_mem_eraseIdx he)
      | arrivalOpenAgain =>
          simp only [Sys.step, Option.ite_none_right_eq_some, Option.some.injEq] at hs
          obtain ⟨-, rfl⟩ := hs
          exact h.frame rfl (by simp [Obs.ofWait]) rfl same (fun _ hin => Or.inl hin) rfl Or.inl
      | dropBook =>
          simp only [Sys.step, Option.ite_none_right_eq_some, Option.some.injEq] at hs
          obtain ⟨-, rfl⟩ := hs
          exact h.frame rfl (by simp [Obs.ofWait]) rfl same (fun _ hin => Or.inl hin) rfl
            fun _ => Or.inr (by simp)
      | markRead agent entryId lookup =>
          simp only [Sys.step, Option.ite_none_right_eq_some, Option.some.injEq] at hs
          obtain ⟨-, rfl⟩ := hs
          unfold Sys.markRead
          split <;> exact silent rfl rfl rfl rfl rfl rfl
      | markStep c =>
          obtain ⟨call, -, hs⟩ := Option.bind_eq_some_iff.mp hs
          unfold Sys.markStep at hs
          split at hs
          · cases hs
            exact silent rfl rfl rfl rfl rfl rfl
          · split at hs
            · cases hs
              exact silent rfl rfl rfl rfl rfl rfl
            · cases hs
              exact h.frame rfl (by simp [Obs.ofWait]) rfl same (fun _ hin => Or.inl hin) rfl
                Or.inl
          · cases hs
            exact h.frame rfl (by simp [Obs.ofWait]) rfl same (fun _ hin => Or.inl hin) rfl Or.inl
          · cases hs
      | waitStep v => cases hof
      | readDone v result => cases hof
      | woken v => cases hof
      | registered v => cases hof
      | dropWait v => cases hof

theorem reasonInv {runId : Uuid} (h : (Sys.machine runId).Reachable s) : ReasonInv s := by
  have hboth : WaitsOk s ∧ ReasonInv s :=
    h.invariant (P := fun s => WaitsOk s ∧ ReasonInv s)
      ⟨waitsOk_init, ReasonInv.init⟩
      fun hp hs => ⟨hp.1.step hs, hp.2.step hp.1 hs⟩
  exact hboth.2

/-! ## What is true of every wait -/

/-- A branch of the `select!` is ready. -/
def Ready (s : Sys) (x : Wait) : Prop :=
  x.wakes ≠ [] ∨ s.book = false ∨
    (x.registrationOpen = true ∧ s.port.queued x.agent = false)

/-- Every doorbell of the address and the end of the registration came before the
start of the last read, and that read held nothing unmarked. -/
structure NothingMissed (s : Sys) (w : ℕ) (x : Wait) : Prop where
  began : .readStarted w ∈ s.log
  unqueued : s.port.queued x.agent = false
  ended : .registrationEnded x.agent ∉ sinceRead w s.log
  rung : ∀ k, .doorbell x.agent k ∉ sinceRead w s.log
  held : HeldNothing s w x

/-- Jobs rings only when the item is among the unread items, and keeps it there
until it is marked: what a read of the wait should hold. -/
def Served (w : ℕ) (agent : Uuid) (pre : List Obs) (obs : Obs) : Prop :=
  ∀ read unmarked, obs = .readHeld w read unmarked →
    ∀ k, .doorbell agent k ∈ uptoRead w pre →
      k ∈ read.map UnreadItem.itemId ∨ ∃ c, .marked c agent k ∈ pre

structure WaitsKept (s : Sys) : Prop where
  /-- A parked wait listens to its registration, or has missed nothing. -/
  parked : ∀ w x, s.waits w = some x → x.place = .parked → ¬ Ready s x →
    (s.port.queued x.agent = true ∧ x.registrationOpen = true) ∨ NothingMissed s w x
  /-- An unmarked item whose doorbell rang leaves no wait parked. -/
  unmarked : ∀ w x, s.waits w = some x → x.place = .parked → ¬ Ready s x →
    s.port.queued x.agent = false → Always (Served w x.agent) s.log →
      ∀ k, .doorbell x.agent k ∈ s.log → k ∈ s.port.inbox.marked x.agent
  errors : Always Reasoned s.log

theorem WaitOk.nothingMissed (h : WaitOk s w x) (hplace : x.place = .parked)
    (hready : ¬ Ready s x) :
    (s.port.queued x.agent = true ∧ x.registrationOpen = true) ∨
      NothingMissed s w x := by
  simp only [Ready, not_or, not_and, Bool.not_eq_false, ne_eq, not_not] at hready
  obtain ⟨hwakes, -, hopen⟩ := hready
  rcases h.empty (Or.inr hplace) with hregistration | ⟨hstarted, hheld⟩
  · exact Or.inl ⟨hopen hregistration, hregistration⟩
  · exact Or.inr ⟨hstarted.began, hstarted.unqueued, hstarted.ended, hstarted.rung hwakes,
      hheld⟩

theorem NothingMissed.marked {runId : Uuid} (h : NothingMissed s w x)
    (hreach : (Sys.machine runId).Reachable s)
    (hserved : Always (Served w x.agent) s.log) {k : Uuid}
    (hrung : .doorbell x.agent k ∈ s.log) : k ∈ s.port.inbox.marked x.agent := by
  obtain ⟨read, hread, hnil⟩ := h.held
  -- the doorbell came before the read started, so the read should hold the item
  have hupto : .doorbell x.agent k ∈ uptoRead w s.log :=
    (mem_upto_or_since hrung).resolve_right (h.rung k)
  obtain ⟨pre, post, hlog, hsplit⟩ := split_of_mem_since hread
  have hpre : .doorbell x.agent k ∈ uptoRead w pre := by
    rw [uptoRead, hsplit]
    exact hupto
  rcases hserved pre _ post hlog read [] rfl k hpre with hin | ⟨c, hc⟩
  · obtain ⟨item, hitem, rfl⟩ := List.mem_map.mp hin
    simp only [leaveOutMarked, List.filter_eq_nil_iff, decide_eq_true_eq, not_not] at hnil
    exact hnil item hitem
  · apply marked_of_log hreach (c := c)
    rw [hlog]
    exact List.mem_append_left _ hc

theorem waits_kept {runId : Uuid} (h : (Sys.machine runId).Reachable s) : WaitsKept s where
  parked w x hx hplace hready := (waitsOk h w x hx).2.nothingMissed hplace hready
  unmarked := by
    intro w x hx hplace hready hqueued hserved k hrung
    rcases (waitsOk h w x hx).2.nothingMissed hplace hready with ⟨hq, -⟩ | hmissed
    · rw [hqueued] at hq
      cases hq
    · exact hmissed.marked h hserved hrung
  errors := (reasonInv h).told

/-- A wait of a registered agent: the doorbell of an item rings while it reads, it
reads again, and it parks because the item was marked meanwhile. -/
def markedRun : List Event :=
  [.agent 5, .registrationEnded 5, .wait 5 none, .waitStep 0, .waitStep 0, .waitStep 0,
    .waitStep 0, .arrival (.item ⟨some 5, 7, .unknown⟩), .readDone 0 (.ok []), .waitStep 0,
    .waitStep 0, .woken 0, .waitStep 0, .waitStep 0, .waitStep 0,
    .listing (.begin 5 none), .listing (.items 0 1), .listing (.step 0),
    .listing (.readDone 0 (.ok [itemOf 7])), .listing (.step 0),
    .listing (.converted 0 true), .listing (.step 0), .listing (.step 0),
    .listing (.step 0), .markRead 5 7 none, .markStep 0, .markStep 0, .markStep 0,
    .readDone 0 (.ok [itemOf 7]), .waitStep 0, .waitStep 0]

theorem waits_kept_markedRun :
    ∃ s x, (Sys.machine 0).run markedRun = some s ∧ s.waits 0 = some x ∧
      s.port.inbox.marked 5 = [7] ∧ NothingMissed s 0 x := by
  obtain ⟨s, x, hrun, hx, hmarked, hplace, hwakes, hbook, hopen, hqueued⟩ :
      ∃ s x, (Sys.machine 0).run markedRun = some s ∧ s.waits 0 = some x ∧
        s.port.inbox.marked 5 = [7] ∧ x.place = .parked ∧ x.wakes = [] ∧
        s.book = true ∧ x.registrationOpen = false ∧ s.port.queued x.agent = false :=
    ⟨_, _, rfl, rfl, rfl, rfl, rfl, rfl, rfl, rfl⟩
  have hready : ¬ Ready s x := by
    rintro (h | h | ⟨h, -⟩)
    · exact h hwakes
    · rw [hbook] at h
      cases h
    · rw [hopen] at h
      cases h
  refine ⟨s, x, hrun, hx, hmarked, ?_⟩
  rcases (waits_kept (Machine.reachable_of_run _ hrun)).parked 0 x hx hplace hready with
    ⟨h, -⟩ | hmissed
  · rw [hqueued] at h
    cases h
  · exact hmissed

/-! ## A wait that was refused -/

/-- The reasons for which a wait may give an error, without the refusal before it
subscribes. -/
def FeedReason (pre : List Obs) (w : ℕ) (error : PortError) : Prop :=
  (∃ ended, .feedEnded ended ∈ pre) ∨ .bookDropped ∈ pre ∨
    (∃ failed, .readFailed w failed ∈ pre ∧ error = .fault failed) ∨
    ∃ kept, keptOf pre = some kept

/-- A wait of an agent that holds no inbox gives an error though nothing of the
feed, the book or a read failed. -/
theorem wait_refused : ¬ ∀ (runId : Uuid) (s : Sys),
    (Sys.machine runId).Reachable s →
      Always (fun pre obs => ∀ w agent error, obs = .returned w agent (.error error) →
        FeedReason pre w error) s.log := by
  intro h
  have hrun : (Sys.machine 0).run [.wait 5 none] = some _ := rfl
  have hfeed := h 0 _ (Machine.reachable_of_run _ hrun)
  have hreason := hfeed [] _ [] rfl 0 5 (.fault notHolder) rfl
  simp [FeedReason, keptOf] at hreason

end RunnerKit.InboxPort.Waiting
