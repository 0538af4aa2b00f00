import RunnerKit.Queue.Fifo

/-!
# What a drained call waits for

A drained call subscribes to the progress value, reads the next sequence
number as its target, and then looks at `pending` until no number below the
target is left. The log dates the call at the reading of the target.
-/

namespace RunnerKit.Queue

open RunnerKit.Jobs RunnerKit.Lib

/-! ## The part of a log before a drained call -/

def Obs.isDrainCall (d : ℕ) : Obs → Bool
  | .drainCalled d' => d' == d
  | _ => false

/-- What was observed before the call `d`. -/
def beforeCall (d : ℕ) : List Obs → Option (List Obs)
  | [] => none
  | obs :: rest =>
      if obs.isDrainCall d then some []
      else (beforeCall d rest).map (obs :: ·)

theorem beforeCall_append_some {d : ℕ} {log more pre : List Obs}
    (h : beforeCall d log = some pre) : beforeCall d (log ++ more) = some pre := by
  induction log generalizing pre with
  | nil => cases h
  | cons obs rest ih =>
      simp only [beforeCall, List.cons_append] at h ⊢
      split_ifs at h ⊢
      · exact h
      · obtain ⟨pre', hpre, rfl⟩ := Option.map_eq_some_iff.mp h
        rw [ih hpre]
        rfl

theorem beforeCall_append_none {d : ℕ} {log more : List Obs}
    (h : beforeCall d log = none) :
    beforeCall d (log ++ more) = (beforeCall d more).map (log ++ ·) := by
  induction log with
  | nil => simp
  | cons obs rest ih =>
      simp only [beforeCall, List.cons_append] at h ⊢
      split_ifs at h ⊢
      rw [ih (Option.map_eq_none_iff.mp h), Option.map_map]
      rfl

theorem beforeCall_eq_none {d : ℕ} {log : List Obs}
    (h : ∀ obs ∈ log, obs.isDrainCall d = false) : beforeCall d log = none := by
  induction log with
  | nil => rfl
  | cons obs rest ih =>
      simp only [beforeCall, h obs List.mem_cons_self, Bool.false_eq_true,
        if_false, ih fun o ho => h o (List.mem_cons_of_mem _ ho), Option.map_none]

theorem beforeCall_sublist {d : ℕ} {log pre : List Obs}
    (h : beforeCall d log = some pre) : ∃ post, log = pre ++ post := by
  induction log generalizing pre with
  | nil => cases h
  | cons obs rest ih =>
      simp only [beforeCall] at h
      split_ifs at h
      · cases h
        exact ⟨_, rfl⟩
      · obtain ⟨pre', hpre, rfl⟩ := Option.map_eq_some_iff.mp h
        obtain ⟨post, rfl⟩ := ih hpre
        exact ⟨post, rfl⟩

/-! ## Looking at `pending` -/

namespace Sys

variable {s s' : Sys}

theorem waitsBelow_iff {st : State} {upto : ℕ} :
    st.waitsBelow upto = true ↔ ∃ k ∈ st.pending.keys, k < upto := by
  unfold State.waitsBelow
  cases hfirst : st.pending.firstKey with
  | none =>
      constructor
      · intro h
        cases h
      · rintro ⟨k, hk, -⟩
        obtain ⟨first, hsome⟩ := SortedMap.exists_firstKey hk
        rw [hfirst] at hsome
        cases hsome
  | some first =>
      simp only [decide_eq_true_eq]
      constructor
      · exact fun h => ⟨first, SortedMap.firstKey_mem hfirst, h⟩
      · rintro ⟨k, hk, hlt⟩
        exact lt_of_le_of_lt (SortedMap.firstKey_le hfirst hk) hlt

/-- The call `d` has the target `upto`: the numbers below it are those of the
writes registered before the call. -/
def Target (s : Sys) (d upto : ℕ) : Prop :=
  ∃ pre, beforeCall d s.log = some pre ∧
    (registered pre).map Entry.seq = List.range upto

/-- A completion has left `pending` and has not signalled yet. -/
def Signalling (s : Sys) : Prop :=
  ∃ k, s.task.completing = some k ∧ (k.stage = .sending ∨ k.stage = .signalling)

/-- What holds of a drained call at each of its places. -/
def DrainOk (s : Sys) (d : ℕ) : Drain → Prop
  | .subscribed seen => seen ≤ s.progress ∧ beforeCall d s.log = none
  | .checking upto seen => seen ≤ s.progress ∧ s.Target d upto
  | .parked upto seen => seen ≤ s.progress ∧ s.Target d upto ∧
      (s.st.waitsBelow upto = true ∨ seen < s.progress ∨ s.Signalling)
  | .leaving => ∃ pre, beforeCall d s.log = some pre ∧
      ∀ e ∈ registered pre, e.seq ∈ processed s.log

structure DrainInv (s : Sys) : Prop where
  fresh : ∀ d, s.nextDrain ≤ d → s.drains d = none ∧ beforeCall d s.log = none
  ok : ∀ d drain, s.drains d = some drain → s.DrainOk d drain

theorem drainInv_init : init.DrainInv where
  fresh := fun d _ => ⟨rfl, rfl⟩
  ok := by simp [init]

theorem Target.append {d upto : ℕ} {more : List Obs} (h : s.Target d upto)
    (hlog : s'.log = s.log ++ more) : s'.Target d upto := by
  obtain ⟨pre, hpre, hseqs⟩ := h
  refine ⟨pre, ?_, hseqs⟩
  rw [hlog]
  exact beforeCall_append_some hpre

theorem processed_mono {log more : List Obs} {q : ℕ} (h : q ∈ processed log) :
    q ∈ processed (log ++ more) := by
  simp [h]

/-- What holds of one drained call goes on to hold while others step: what was
pending below its target stays so, or its completion has still to signal, or
the signal is there. -/
theorem DrainOk.frame {d : ℕ} {drain : Drain} (hok : s.DrainOk d drain)
    {more : List Obs} (hlog : s'.log = s.log ++ more)
    (hmore : ∀ obs ∈ more, obs.isDrainCall d = false)
    (hprogress : s.progress ≤ s'.progress)
    (hwaits : ∀ upto, s.st.waitsBelow upto = true →
      s'.st.waitsBelow upto = true ∨ s'.Signalling)
    (hsignal : s.Signalling → s'.Signalling ∨ s.progress < s'.progress) :
    s'.DrainOk d drain := by
  cases drain with
  | subscribed seen =>
      obtain ⟨hseen, hcall⟩ := hok
      refine ⟨hseen.trans hprogress, ?_⟩
      rw [hlog, beforeCall_append_none hcall, beforeCall_eq_none hmore]
      rfl
  | checking upto seen => exact ⟨hok.1.trans hprogress, hok.2.append hlog⟩
  | parked upto seen =>
      obtain ⟨hseen, htarget, hwait⟩ := hok
      refine ⟨hseen.trans hprogress, htarget.append hlog, ?_⟩
      rcases hwait with hwait | hlt | hsig
      · rcases hwaits upto hwait with hw | hsig
        · exact Or.inl hw
        · exact Or.inr (Or.inr hsig)
      · exact Or.inr (Or.inl (lt_of_lt_of_le hlt hprogress))
      · rcases hsignal hsig with hsig' | hlt
        · exact Or.inr (Or.inr hsig')
        · exact Or.inr (Or.inl (lt_of_le_of_lt hseen hlt))
  | leaving =>
      obtain ⟨pre, hpre, hproc⟩ := hok
      refine ⟨pre, ?_, fun e he => ?_⟩
      · rw [hlog]
        exact beforeCall_append_some hpre
      · rw [hlog]
        exact processed_mono (hproc e he)

/-- A step outside the drained calls. -/
theorem DrainInv.frame (h : s.DrainInv) {more : List Obs}
    (hlog : s'.log = s.log ++ more)
    (hmore : ∀ d, ∀ obs ∈ more, obs.isDrainCall d = false)
    (hdrains : s'.drains = s.drains) (hnext : s'.nextDrain = s.nextDrain)
    (hprogress : s.progress ≤ s'.progress)
    (hwaits : ∀ upto, s.st.waitsBelow upto = true →
      s'.st.waitsBelow upto = true ∨ s'.Signalling)
    (hsignal : s.Signalling → s'.Signalling ∨ s.progress < s'.progress) :
    s'.DrainInv where
  fresh := by
    intro d hd
    rw [hnext] at hd
    obtain ⟨hnone, hcall⟩ := h.fresh d hd
    refine ⟨by rw [hdrains]; exact hnone, ?_⟩
    rw [hlog, beforeCall_append_none hcall, beforeCall_eq_none (hmore d)]
    rfl
  ok := by
    intro d drain hd
    rw [hdrains] at hd
    exact (h.ok d drain hd).frame hlog (hmore d) hprogress hwaits hsignal

/-- A step that leaves `pending`, the progress value and the completion as they
are. -/
theorem DrainInv.same (h : s.DrainInv) {more : List Obs}
    (hlog : s'.log = s.log ++ more)
    (hmore : ∀ d, ∀ obs ∈ more, obs.isDrainCall d = false)
    (hdrains : s'.drains = s.drains) (hnext : s'.nextDrain = s.nextDrain)
    (hprogress : s'.progress = s.progress)
    (hpending : ∀ k ∈ s.st.pending.keys, k ∈ s'.st.pending.keys)
    (hsignal : s.Signalling → s'.Signalling) : s'.DrainInv := by
  refine h.frame hlog hmore hdrains hnext hprogress.ge ?_ fun hs => Or.inl (hsignal hs)
  intro upto hwait
  obtain ⟨k, hk, hlt⟩ := waitsBelow_iff.mp hwait
  exact Or.inl (waitsBelow_iff.mpr ⟨k, hpending k hk, hlt⟩)

theorem not_signalling (hfree : s.task.completing = none) : ¬ s.Signalling := by
  rintro ⟨k, hk, -⟩
  rw [hfree] at hk
  cases hk

/-- A step of the task with no completion under way. -/
theorem DrainInv.free (h : s.DrainInv) (hfree : s.task.completing = none)
    {more : List Obs} (hlog : s'.log = s.log ++ more)
    (hmore : ∀ d, ∀ obs ∈ more, obs.isDrainCall d = false)
    (hdrains : s'.drains = s.drains) (hnext : s'.nextDrain = s.nextDrain)
    (hprogress : s'.progress = s.progress)
    (hpending : ∀ k ∈ s.st.pending.keys, k ∈ s'.st.pending.keys) :
    s'.DrainInv :=
  h.same hlog hmore hdrains hnext hprogress hpending
    fun hs => absurd hs (not_signalling hfree)

theorem DrainInv.complete (h : s.DrainInv) {entry : Entry} {result : WriteResult}
    {stage : Stage} (hc : s.task.completing = some ⟨entry, result, stage⟩) :
    (s.completeStep entry result stage).DrainInv := by
  have hnot : stage = .reporting → ¬ s.Signalling := by
    rintro rfl ⟨k, hk, hstage⟩
    rw [hc] at hk
    cases hk
    rcases hstage with hstage | hstage <;> cases hstage
  cases stage with
  | reporting =>
      exact h.same rfl (by simp [Obs.isDrainCall]) rfl rfl rfl (fun k hk => hk)
        fun hs => absurd hs (hnot rfl)
  | removing =>
      have hsig : (s.completeStep entry result .removing).Signalling :=
        ⟨⟨entry, result, .sending⟩, rfl, Or.inl rfl⟩
      exact h.frame rfl (by simp [Obs.isDrainCall]) rfl rfl le_rfl
        (fun _ _ => Or.inr hsig) fun _ => Or.inl hsig
  | sending =>
      have hsig : (s.completeStep entry result .sending).Signalling :=
        ⟨⟨entry, result, .signalling⟩, rfl, Or.inr rfl⟩
      exact h.same rfl (by simp [Obs.isDrainCall]) rfl rfl rfl (fun k hk => hk)
        fun _ => hsig
  | signalling =>
      exact h.frame (List.append_nil _).symm (by simp) rfl rfl (Nat.le_succ _)
        (fun _ hw => Or.inl hw) fun _ => Or.inr (Nat.lt_succ_self _)

/-- A step of the call `d` itself. -/
theorem DrainInv.set (h : s.DrainInv) {d : ℕ} {drain : Option Drain}
    {more : List Obs} (hlog : s'.log = s.log ++ more)
    (hmore : ∀ d', d' ≠ d → ∀ obs ∈ more, obs.isDrainCall d' = false)
    (hdrains : s'.drains = Function.update s.drains d drain)
    (hnext : s'.nextDrain = s.nextDrain) (hst : s'.st = s.st)
    (htask : s'.task = s.task) (hprogress : s'.progress = s.progress)
    (hlt : d < s.nextDrain)
    (hd : ∀ x, drain = some x → s'.DrainOk d x) : s'.DrainInv where
  fresh := by
    intro d' hd'
    rw [hnext] at hd'
    have hne : d' ≠ d := (lt_of_lt_of_le hlt hd').ne'
    obtain ⟨hnone, hcall⟩ := h.fresh d' hd'
    refine ⟨by rw [hdrains, Function.update_of_ne hne]; exact hnone, ?_⟩
    rw [hlog, beforeCall_append_none hcall, beforeCall_eq_none (hmore d' hne)]
    rfl
  ok := by
    intro d' x hx
    rw [hdrains] at hx
    by_cases hne : d' = d
    · subst hne
      rw [Function.update_self] at hx
      exact hd x hx
    · rw [Function.update_of_ne hne] at hx
      refine (h.ok d' x hx).frame hlog (hmore d' hne) hprogress.ge ?_ ?_
      · intro upto hw
        rw [hst]
        exact Or.inl hw
      · rintro ⟨k, hk, hstage⟩
        exact Or.inl ⟨k, by rw [htask]; exact hk, hstage⟩

theorem DrainInv.lt (h : s.DrainInv) {d : ℕ} {drain : Drain}
    (hd : s.drains d = some drain) : d < s.nextDrain := by
  by_contra hge
  have hnone := (h.fresh d (not_lt.mp hge)).1
  rw [hd] at hnone
  cases hnone

/-- Reading the target: the numbers given out so far are those below it. -/
theorem DrainInv.read (h : s.DrainInv) (hgood : s.ledger.Good) {d seen : ℕ}
    (hd : s.drains d = some (.subscribed seen)) : (s.readTarget d seen).DrainInv := by
  obtain ⟨hseen, hcall⟩ := h.ok d _ hd
  have hbefore : beforeCall d (s.log ++ [.drainCalled d]) = some s.log := by
    rw [beforeCall_append_none hcall]
    simp [beforeCall, Obs.isDrainCall]
  refine h.set rfl ?_ rfl rfl rfl rfl rfl (h.lt hd) ?_
  · intro d' hne obs hobs
    cases List.mem_singleton.mp hobs
    simpa [Obs.isDrainCall] using Ne.symm hne
  · intro x hx
    cases hx
    exact ⟨hseen, s.log, hbefore, hgood.registered_seqs⟩

/-- Nothing below the target is pending: what was registered before the call is
processed. -/
theorem DrainInv.pass (h : s.DrainInv) (hgood : s.ledger.Good) {d upto seen : ℕ}
    (hd : s.drains d = some (.checking upto seen))
    (hwaits : s.st.waitsBelow upto = false) :
    (s.setDrain d (some .leaving)).DrainInv := by
  obtain ⟨-, pre, hpre, hseqs⟩ := h.ok d _ hd
  refine h.set (List.append_nil _).symm (by simp) rfl rfl rfl rfl rfl (h.lt hd) ?_
  intro x hx
  cases hx
  refine ⟨pre, hpre, fun e he => ?_⟩
  obtain ⟨post, hlog⟩ := beforeCall_sublist hpre
  have hlt : e.seq < upto := by
    have hmem : e.seq ∈ (registered pre).map Entry.seq := List.mem_map_of_mem he
    rw [hseqs] at hmem
    exact List.mem_range.mp hmem
  have hreg : e ∈ registered s.log := by
    rw [hlog, registered_append]
    exact List.mem_append_left _ he
  by_contra hnot
  have hkey : e.seq ∈ s.st.pending.keys :=
    (mem_pending_keys hgood).mpr ⟨seq_lt_of_registered hgood hreg, hnot⟩
  have htrue := waitsBelow_iff.mpr ⟨e.seq, hkey, hlt⟩
  rw [hwaits] at htrue
  cases htrue

/-- A new call has seen the progress value of the state it subscribes in. -/
theorem DrainInv.drain (h : s.DrainInv) : s.drain.DrainInv where
  fresh := by
    intro d hd
    have hlt : s.nextDrain < d := hd
    obtain ⟨hnone, hcall⟩ := h.fresh d hlt.le
    refine ⟨?_, hcall⟩
    rw [show s.drain.drains = Function.update s.drains s.nextDrain _ from rfl,
      Function.update_of_ne hlt.ne']
    exact hnone
  ok := by
    intro d x hx
    rw [show s.drain.drains = Function.update s.drains s.nextDrain _ from rfl] at hx
    by_cases hne : d = s.nextDrain
    · subst hne
      rw [Function.update_self] at hx
      cases hx
      exact ⟨le_rfl, (h.fresh s.nextDrain le_rfl).2⟩
    · rw [Function.update_of_ne hne] at hx
      exact (h.ok d x hx).frame (List.append_nil _).symm (by simp) le_rfl
        (fun _ hw => Or.inl hw) fun hsig => Or.inl hsig

/-- A call that is dropped leaves the others as they are. -/
theorem DrainInv.abandon (h : s.DrainInv) (d : ℕ) :
    (s.setDrain d none).DrainInv where
  fresh := by
    intro d' hd'
    obtain ⟨hnone, hcall⟩ := h.fresh d' hd'
    refine ⟨?_, hcall⟩
    rw [show (s.setDrain d none).drains = Function.update s.drains d none from rfl]
    by_cases hne : d' = d
    · rw [hne, Function.update_self]
    · rw [Function.update_of_ne hne]
      exact hnone
  ok := by
    intro d' x hx
    rw [show (s.setDrain d none).drains = Function.update s.drains d none from rfl]
      at hx
    by_cases hne : d' = d
    · rw [hne, Function.update_self] at hx
      cases hx
    · rw [Function.update_of_ne hne] at hx
      exact (h.ok d' x hx).frame (List.append_nil _).symm (by simp) le_rfl
        (fun _ hw => Or.inl hw) fun hsig => Or.inl hsig

theorem register_pending {st : State} {write : Write} {now k : ℕ}
    (hk : k ∈ st.pending.keys) : k ∈ (st.register write now).pending.keys :=
  SortedMap.mem_keys_insert.mpr (Or.inr hk)

theorem DrainInv.step (h : s.DrainInv) (hgood : s.ledger.Good) (hs : Step s s') :
    s'.DrainInv := by
  have hnone : s.log = s.log ++ [] := (List.append_nil _).symm
  cases hs with
  | enqueue write now hopen =>
      exact h.same rfl (by simp [Obs.isDrainCall]) rfl rfl rfl
        (fun k hk => register_pending hk) id
  | hold write follow now hopen =>
      exact h.same rfl (by simp [Obs.isDrainCall]) rfl rfl rfl
        (fun k hk => register_pending hk) id
  | unqueue write removal hwhy =>
      exact h.same rfl (by simp [Obs.isDrainCall]) rfl rfl rfl (fun k hk => hk) id
  | callNotify chan hcall =>
      exact h.same rfl (by simp [Obs.isDrainCall]) rfl rfl rfl (fun k hk => hk) id
  | callTable chan write removal hcall =>
      refine h.same hnone (by simp) rfl rfl rfl ?_ id
      intro k hk
      simpa [callTable] using hk
  | callAnswer chan write removal hcall =>
      exact h.same rfl (by simp [Obs.isDrainCall]) rfl rfl rfl (fun k hk => hk) id
  | callReport chan write removal hcall =>
      exact h.same rfl (by simp [Obs.isDrainCall]) rfl rfl rfl (fun k hk => hk) id
  | stopNow => exact h.same hnone (by simp) rfl rfl rfl (fun k hk => hk) id
  | stopCancel hstop => exact h.same hnone (by simp) rfl rfl rfl (fun k hk => hk) id
  | complete entry result stage hc => exact h.complete hc
  | takeNewHeld hfree hpoint =>
      exact h.free hfree hnone (by simp) rfl rfl rfl fun k hk => hk
  | noHead hat => exact h.free hat.free hnone (by simp) rfl rfl rfl fun k hk => hk
  | takeHead head rest hat hentry hopen hfifo hblocked =>
      exact h.free hat.free hnone (by simp) rfl rfl rfl fun k hk => hk
  | skipHead head rest removal hat hentry hopen hfifo hblocked =>
      exact h.free hat.free hnone (by simp) rfl rfl rfl fun k hk => hk
  | send attempt hat hattempt hphase =>
      exact h.free hat.free rfl (by simp [Obs.isDrainCall]) rfl rfl rfl
        fun k hk => hk
  | retry attempt error hat hattempt hphase =>
      exact h.free hat.free rfl (by simp [Obs.isDrainCall]) rfl rfl rfl
        fun k hk => hk
  | attemptDone attempt outcome result hat hattempt hphase hjudge =>
      exact h.free hat.free hnone (by simp) rfl rfl rfl fun k hk => hk
  | endHeld seq marker follow held removal hat htake hwhy =>
      exact h.free hat.free hnone (by simp) rfl rfl rfl fun k hk => hk
  | joinHeld seq marker follow held now hat hopen htake =>
      refine h.free hat.free rfl (by simp [Obs.isDrainCall]) rfl rfl rfl ?_
      cases follow with
      | none => exact fun k hk => hk
      | some write => exact fun k hk => register_pending hk
  | woken hat hwake => exact h.free hat.free hnone (by simp) rfl rfl rfl fun k hk => hk
  | dropTask hfree hpoint =>
      exact h.free hfree hnone (by simp) rfl rfl rfl fun k hk => hk
  | dropLocked rest hat =>
      exact h.free hat.free rfl (by simp [Obs.isDrainCall]) rfl rfl rfl
        fun k hk => hk
  | dropEntry entry rest hat =>
      exact h.free hat.free hnone (by simp) rfl rfl rfl fun k hk => hk
  | dropEnd hat => exact h.free hat.free hnone (by simp) rfl rfl rfl fun k hk => hk
  | drain => exact h.drain
  | drainRead d seen hd => exact h.read hgood hd
  | drainPark d upto seen hd hwaits =>
      obtain ⟨hseen, htarget⟩ := h.ok d _ hd
      refine h.set hnone (by simp) rfl rfl rfl rfl rfl (h.lt hd) ?_
      intro x hx
      cases hx
      exact ⟨hseen, htarget, Or.inl hwaits⟩
  | drainPass d upto seen hd hwaits => exact h.pass hgood hd hwaits
  | drainWake d upto seen hd hseen =>
      obtain ⟨-, htarget, -⟩ := h.ok d _ hd
      refine h.set hnone (by simp) rfl rfl rfl rfl rfl (h.lt hd) ?_
      intro x hx
      cases hx
      exact ⟨le_rfl, htarget⟩
  | drainLeave d hd =>
      exact h.set rfl (by simp [Obs.isDrainCall]) rfl rfl rfl rfl rfl (h.lt hd)
        (by simp)
  | drainAbandon d => exact h.abandon d

theorem drainInv (h : machine.Reachable s) : s.DrainInv := by
  have hboth : s.ledger.Good ∧ s.DrainInv := by
    refine Machine.Reach.invariant (P := fun s => s.ledger.Good ∧ s.DrainInv)
      ⟨good .init, drainInv_init⟩ ?_ h
    intro s s' e hr hp _ hs
    exact ⟨good (hr.step trivial hs), hp.2.step hp.1 (step_cases hs)⟩
  exact hboth.2

end Sys

end RunnerKit.Queue
