import RunnerKit.Lib.Log
import RunnerKit.Toolkit.Claims

/-!
# What stops the claims

The claims are stopped exactly when a stopping refusal was processed for a
claim sent after the last mode value was given. This holds in every run in
which no store of `stop_claims` undoes the stop of a newer value: between the
load and the store a new value may be given, another slot may stop the claims
of that value, and the late store then puts the older epoch in its place.
-/

namespace RunnerKit.Toolkit

open RunnerKit.Lib

def Obs.isGiven : Obs → Bool
  | .given _ => true
  | _ => false

/-- How many mode values were given. -/
def givens (log : List Obs) : ℕ := log.countP Obs.isGiven

/-- A stopping refusal was processed for a claim that was sent after the last
mode value was given. -/
def Stopped (log : List Obs) : Prop :=
  ∃ claim, .sent claim ∈ since Obs.isGiven log ∧ .processed claim ∈ log

/-- Each answer of `claims_stopped` is right at a moment of the call. -/
def AnsweredRight (pre : List Obs) (obs : Obs) : Prop :=
  ∀ i b, obs = .answered i b → ∃ before during, pre = before ++ .asked i :: during ∧
    .asked i ∉ during ∧ ∃ now later, during = now ++ later ∧
      (b = true ↔ Stopped (before ++ .asked i :: now))

/-- The epoch of a log, and what an epoch of a claim of that log is. -/
def epochAt (log : List Obs) : Epoch := BitVec.ofNat 64 (givens log)

/-- The condition on a step: values are given fewer than `u64::MAX` times, and
a store of `stop_claims` comes while its claim is still of the current value,
or finds no stop of the current value. -/
def Sys.calm (s : Sys) : Event → Bool
  | .given _ => decide (givens s.log + 1 < 2 ^ 64 - 1)
  | .slot i .stopStore =>
      match s.slots i with
      | .storing _ epoch =>
          decide (epoch = s.modeEpoch) || decide (s.stoppedEpoch ≠ s.modeEpoch)
      | _ => true
  | _ => true

def Sys.Calm (s : Sys) (e : Event) : Prop := s.calm e = true

/-! ## Reading the log -/

section Log

variable {log : List Obs} {obs : Obs}

@[simp] theorem givens_snoc (log : List Obs) (obs : Obs) :
    givens (log ++ [obs]) = givens log + if obs.isGiven then 1 else 0 := by
  cases h : obs.isGiven <;> simp [givens, h]

theorem givens_append (log more : List Obs) :
    givens (log ++ more) = givens log + givens more :=
  List.countP_append

/-- No claim was sent since a value that has just been given. -/
theorem not_stopped_given (mode : Mode) : ¬ Stopped (log ++ [.given mode]) := by
  rintro ⟨claim, hsent, -⟩
  rw [since_snoc] at hsent
  cases hsent

theorem mem_since_snoc (hobs : obs.isGiven = false) {x : Obs} :
    x ∈ since Obs.isGiven (log ++ [obs]) ↔ x ∈ since Obs.isGiven log ∨ x = obs := by
  rw [since_snoc, hobs]
  simp

/-- Only sending and processing tell anything about the stop. -/
theorem stopped_other (hobs : obs.isGiven = false)
    (hsent : ∀ claim, obs ≠ .sent claim) (hproc : ∀ claim, obs ≠ .processed claim) :
    Stopped (log ++ [obs]) ↔ Stopped log := by
  constructor
  · rintro ⟨claim, hs, hp⟩
    rcases (mem_since_snoc hobs).mp hs with hs | hs
    · rcases List.mem_append.mp hp with hp | hp
      · exact ⟨claim, hs, hp⟩
      · exact absurd (List.mem_singleton.mp hp).symm (hproc claim)
    · exact absurd hs.symm (hsent claim)
  · rintro ⟨claim, hs, hp⟩
    exact ⟨claim, (mem_since_snoc hobs).mpr (Or.inl hs), List.mem_append_left _ hp⟩

/-- A new claim is processed later only. -/
theorem stopped_sent {claim : ℕ} (hnew : .processed claim ∉ log) :
    Stopped (log ++ [.sent claim]) ↔ Stopped log := by
  constructor
  · rintro ⟨c, hs, hp⟩
    have hp' : .processed c ∈ log := by simpa using hp
    rcases (mem_since_snoc rfl).mp hs with hs | hs
    · exact ⟨c, hs, hp'⟩
    · cases hs
      exact absurd hp' hnew
  · rintro ⟨c, hs, hp⟩
    exact ⟨c, (mem_since_snoc rfl).mpr (Or.inl hs), List.mem_append_left _ hp⟩

theorem stopped_processed {claim : ℕ} :
    Stopped (log ++ [.processed claim]) ↔
      Stopped log ∨ .sent claim ∈ since Obs.isGiven log := by
  constructor
  · rintro ⟨c, hs, hp⟩
    have hs' : .sent c ∈ since Obs.isGiven log := by
      rcases (mem_since_snoc rfl).mp hs with hs | hs
      · exact hs
      · cases hs
    rcases List.mem_append.mp hp with hp | hp
    · exact Or.inl ⟨c, hs', hp⟩
    · cases List.mem_singleton.mp hp
      exact Or.inr hs'
  · rintro (⟨c, hs, hp⟩ | hs)
    · exact ⟨c, (mem_since_snoc rfl).mpr (Or.inl hs), List.mem_append_left _ hp⟩
    · exact ⟨claim, (mem_since_snoc rfl).mpr (Or.inl hs), by simp⟩

end Log

/-! ## Epochs -/

theorem ofNat_inj {m n : ℕ} (hm : m < 2 ^ 64) (hn : n < 2 ^ 64)
    (h : (BitVec.ofNat 64 m) = BitVec.ofNat 64 n) : m = n := by
  have hval := congrArg BitVec.toNat h
  rw [BitVec.toNat_ofNat, BitVec.toNat_ofNat, Nat.mod_eq_of_lt hm,
    Nat.mod_eq_of_lt hn] at hval
  exact hval

theorem ofNat_ne_notStopped {n : ℕ} (hn : n < 2 ^ 64 - 1) :
    BitVec.ofNat 64 n ≠ notStopped := by
  intro h
  have hval := congrArg BitVec.toNat h
  have hlt : n < 2 ^ 64 := by omega
  simp only [notStopped, BitVec.toNat_ofNat, BitVec.toNat_allOnes,
    Nat.mod_eq_of_lt hlt] at hval
  omega

/-- A value that `stopped_epoch` can hold when `g` values were given. -/
def Stop (g : ℕ) (epoch : Epoch) : Prop :=
  epoch = notStopped ∨ ∃ k ≤ g, epoch = BitVec.ofNat 64 k

theorem Stop.mono {g g' : ℕ} {epoch : Epoch} (h : Stop g epoch) (hle : g ≤ g') :
    Stop g' epoch := by
  rcases h with h | ⟨k, hk, rfl⟩
  · exact Or.inl h
  · exact Or.inr ⟨k, Nat.le_trans hk hle, rfl⟩

/-- No such value is the epoch of a later mode value. -/
theorem Stop.ne {g g' : ℕ} {epoch : Epoch} (h : Stop g epoch) (hlt : g < g')
    (hg' : g' < 2 ^ 64 - 1) : epoch ≠ BitVec.ofNat 64 g' := by
  rcases h with rfl | ⟨k, hk, rfl⟩
  · exact (ofNat_ne_notStopped hg').symm
  · intro heq
    have hsame := ofNat_inj (by omega) (by omega) heq
    omega

/-! ## What one calm step can do -/

/-- The claim that a slot has sent and not processed. -/
def Slot.claim? : Slot → Option (ℕ × Epoch)
  | .sent _ claim epoch => some (claim, epoch)
  | .stopping claim epoch => some (claim, epoch)
  | .storing claim epoch => some (claim, epoch)
  | _ => none

/-- What a slot has loaded in `claims_stopped`. -/
def Slot.loaded? : Slot → Option Epoch
  | .asked _ _ _ stopped => some stopped
  | _ => none

inductive Step (s : Sys) : Sys → Prop where
  | given (mode : Mode) (hfew : givens s.log + 1 < 2 ^ 64 - 1) : Step s (s.bump mode)
  /-- Only the loop state, the feed or the drain changes. -/
  | shared {s' : Sys} (hmode : s'.modeEpoch = s.modeEpoch)
      (hstopped : s'.stoppedEpoch = s.stoppedEpoch) (hslots : s'.slots = s.slots)
      (hclaims : s'.claims = s.claims) (hlog : s'.log = s.log) : Step s s'
  /-- A slot goes on, with the claim it has or without one. -/
  | move (i : ℕ) (slot : Slot)
      (hclaim : ∀ c, slot.claim? = some c → (s.slots i).claim? = some c)
      (hloaded : slot.loaded? = none) : Step s (s.setSlot i slot)
  | ask (i : ℕ) (held : Option Jobs.Uuid) (state : LoopState) (version : ℕ) :
      Step s ((s.setSlot i (.asked held state version s.stoppedEpoch)).observe
        (.asked i))
  | answer (i : ℕ) (held : Option Jobs.Uuid) (state : LoopState) (version : ℕ)
      (stopped : Epoch) (hslot : (s.slots i).loaded? = some stopped) :
      Step s (s.answer i held state version stopped)
  | send (i : ℕ) (held : Option Jobs.Uuid) (fresh : Jobs.Uuid) :
      Step s (s.send i held fresh)
  | stale (i claim : ℕ) (epoch : Epoch)
      (hslot : (s.slots i).claim? = some (claim, epoch))
      (hne : epoch ≠ s.modeEpoch) :
      Step s ((s.setSlot i (.top none)).observe (.processed claim))
  | store (i claim : ℕ) (epoch : Epoch)
      (hslot : (s.slots i).claim? = some (claim, epoch))
      (hcalm : epoch = s.modeEpoch ∨ s.stoppedEpoch ≠ s.modeEpoch) :
      Step s (s.stopStore i claim epoch)

theorem Slot.claim?_choose (held : Option Jobs.Uuid) (state : LoopState)
    (version : ℕ) (blocked : Bool) :
    (Slot.choose held state version blocked).claim? = none := by
  unfold Slot.choose
  split_ifs <;> rfl

theorem Slot.loaded?_choose (held : Option Jobs.Uuid) (state : LoopState)
    (version : ℕ) (blocked : Bool) :
    (Slot.choose held state version blocked).loaded? = none := by
  unfold Slot.choose
  split_ifs <;> rfl

/-- A reply leaves the slot with its claim, or without one. -/
theorem Slot.claim?_reply {claimId : Jobs.Uuid} {claim : ℕ} {epoch : Epoch}
    {r : Reply} {c : ℕ × Epoch} (h : (Slot.reply claimId claim epoch r).claim? = some c) :
    c = (claim, epoch) := by
  unfold Slot.reply at h
  split at h
  · cases h
  · cases h
  · split at h <;> cases h
    rfl
  · cases h
    rfl
  · cases h

theorem Slot.loaded?_reply (claimId : Jobs.Uuid) (claim : ℕ) (epoch : Epoch)
    (r : Reply) : (Slot.reply claimId claim epoch r).loaded? = none := by
  unfold Slot.reply
  split
  · rfl
  · rfl
  · split <;> rfl
  · rfl
  · rfl

namespace Sys

variable {s s' : Sys}

theorem slotStep_cases {i : ℕ} {e : SlotEvent} (hcalm : s.Calm (.slot i e))
    (h : s.slotStep i e = some s') : Step s s' := by
  cases e with
  | look =>
      simp only [slotStep] at h
      split at h
      · split at h <;> cases h <;> exact .move i _ (by simp [Slot.claim?]) rfl
      · cases h
  | ask =>
      simp only [slotStep] at h
      split at h <;> cases h
      unfold Sys.ask
      split
      · exact .ask i ..
      · exact .move i _ (by simp [Slot.claim?_choose]) (Slot.loaded?_choose ..)
  | answer =>
      simp only [slotStep] at h
      split at h <;> cases h
      rename_i hslot
      exact .answer i _ _ _ _ (by rw [hslot]; rfl)
  | wake =>
      simp only [slotStep] at h
      split at h
      · split at h
        · cases h
          exact .move i _ (by simp [Slot.claim?]) rfl
        · split at h <;> cases h
          exact .move i _ (by simp [Slot.claim?]) rfl
      · cases h
  | send fresh =>
      simp only [slotStep] at h
      split at h <;> cases h
      exact .send i ..
  | reply r =>
      simp only [slotStep] at h
      split at h <;> cases h
      rename_i hslot
      refine .move i _ ?_ (Slot.loaded?_reply ..)
      intro c hc
      rw [hslot, Slot.claim?_reply hc]
      rfl
  | stopLoad =>
      simp only [slotStep] at h
      split at h <;> cases h
      rename_i claim epoch hslot
      unfold Sys.stopLoad
      split
      · refine .move i _ ?_ rfl
        intro c hc
        rw [hslot]
        exact hc
      · exact .stale i claim epoch (by rw [hslot]; rfl) ‹_›
  | stopStore =>
      simp only [slotStep] at h
      split at h <;> cases h
      rename_i claim epoch hslot
      refine .store i claim epoch (by rw [hslot]; rfl) ?_
      simpa [Calm, calm, hslot] using hcalm
  | resume =>
      simp only [slotStep] at h
      split at h <;> cases h <;> exact .move i _ (by simp [Slot.claim?]) rfl
  | panic =>
      simp only [slotStep] at h
      split at h <;> cases h
      exact .move i _ (by simp [Slot.claim?]) rfl

theorem step_cases {e : Event} (hcalm : s.Calm e) (h : s.step e = some s') :
    Step s s' := by
  cases e with
  | given mode =>
      simp only [step] at h
      split at h <;> cases h
      exact .given mode (of_decide_eq_true hcalm)
  | publish =>
      obtain ⟨mode, -, rfl⟩ := Option.map_eq_some_iff.mp h
      exact .shared rfl rfl rfl rfl rfl
  | replay complete =>
      cases h
      exact .shared rfl rfl rfl rfl rfl
  | drain =>
      cases h
      exact .shared rfl rfl rfl rfl rfl
  | slot i e => exact slotStep_cases hcalm h

end Sys

/-! ## The invariant -/

/-- The epoch of a claim is the number of values given before it was sent. -/
def ClaimOk (log : List Obs) (claims claim : ℕ) (epoch : Epoch) : Prop :=
  claim < claims ∧ ∃ k ≤ givens log, epoch = BitVec.ofNat 64 k ∧
    (.sent claim ∈ since Obs.isGiven log ↔ k = givens log)

/-- What was loaded tells whether the claims were stopped at that moment. -/
def LoadOk (log : List Obs) (i : ℕ) (stopped : Epoch) : Prop :=
  ∃ before during, log = before ++ .asked i :: during ∧ .asked i ∉ during ∧
    Stop (givens before) stopped ∧ (stopped = epochAt before ↔ Stopped before)

theorem ClaimOk.snoc {log : List Obs} {claims claims' claim : ℕ} {epoch : Epoch}
    (h : ClaimOk log claims claim epoch) {obs : Obs} (hobs : obs ≠ .sent claim)
    (hle : claims ≤ claims') :
    ClaimOk (log ++ [obs]) claims' claim epoch := by
  obtain ⟨hlt, k, hk, rfl, hiff⟩ := h
  refine ⟨by omega, k, by rw [givens_snoc]; omega, rfl, ?_⟩
  rw [givens_snoc, since_snoc]
  by_cases hgiven : obs.isGiven = true
  · simp only [hgiven, if_true, List.not_mem_nil, false_iff]
    omega
  · simp only [hgiven, if_false, List.mem_append, List.mem_singleton, Nat.add_zero,
      Bool.false_eq_true]
    rw [← hiff]
    simp [hobs.symm]

theorem LoadOk.snoc {log : List Obs} {i : ℕ} {stopped : Epoch}
    (h : LoadOk log i stopped) {obs : Obs} (hobs : obs ≠ .asked i) :
    LoadOk (log ++ [obs]) i stopped := by
  obtain ⟨before, during, rfl, hnot, hstop, hiff⟩ := h
  refine ⟨before, during ++ [obs], by simp, ?_, hstop, hiff⟩
  intro hmem
  rcases List.mem_append.mp hmem with hmem | hmem
  · exact hnot hmem
  · exact hobs (List.mem_singleton.mp hmem).symm

/-- The second load gives what was right at the first one, or, with a value
given in between, what was right at that one. -/
theorem LoadOk.answered {log : List Obs} {i : ℕ} {stopped : Epoch}
    (h : LoadOk log i stopped) (hfew : givens log < 2 ^ 64 - 1) :
    AnsweredRight log (.answered i (stopped = epochAt log)) := by
  obtain ⟨before, during, rfl, hnot, hstop, hiff⟩ := h
  intro i' b hobs
  cases hobs
  refine ⟨before, during, rfl, hnot, ?_⟩
  have hgivens : givens (before ++ .asked i :: during) =
      givens before + givens during := by
    rw [givens_append]
    simp [givens, Obs.isGiven]
  have hasked : Stopped (before ++ [.asked i]) ↔ Stopped before :=
    stopped_other rfl (by simp) (by simp)
  by_cases hzero : givens during = 0
  · refine ⟨[], during, rfl, ?_⟩
    rw [show before ++ .asked i :: [] = before ++ [.asked i] from rfl, hasked, ← hiff]
    simp [epochAt, hgivens, hzero]
  · obtain ⟨obs, hobs, hgiven⟩ := List.countP_pos_iff.mp (Nat.pos_of_ne_zero hzero)
    obtain ⟨now, later, rfl⟩ := List.append_of_mem hobs
    refine ⟨now ++ [obs], later, by simp, ?_⟩
    have hne : stopped ≠ epochAt (before ++ .asked i :: (now ++ obs :: later)) := by
      refine hstop.ne ?_ hfew
      rw [hgivens]
      omega
    cases obs with
    | given mode =>
        have hnone : ¬ Stopped (before ++ .asked i :: now ++ [.given mode]) :=
          not_stopped_given mode
        simp only [hne, decide_false, Bool.false_eq_true, false_iff]
        simpa using hnone
    | _ => cases hgiven

namespace Sys

structure ClaimInv (s : Sys) : Prop where
  few : givens s.log < 2 ^ 64 - 1
  epoch : s.modeEpoch = epochAt s.log
  stop : Stop (givens s.log) s.stoppedEpoch
  follows : s.stoppedEpoch = s.modeEpoch ↔ Stopped s.log
  processed : ∀ claim, .processed claim ∈ s.log → claim < s.claims
  claims : ∀ i claim epoch, (s.slots i).claim? = some (claim, epoch) →
    ClaimOk s.log s.claims claim epoch
  loads : ∀ i stopped, (s.slots i).loaded? = some stopped → LoadOk s.log i stopped
  answered : Always AnsweredRight s.log

variable {s s' : Sys}

theorem claimInv_init : init.ClaimInv where
  few := by decide
  epoch := rfl
  stop := Or.inl rfl
  follows := by
    constructor
    · intro h
      exact absurd h (by decide)
    · rintro ⟨claim, -, hp⟩
      cases hp
  processed := by simp [init]
  claims := by simp [init, Slot.claim?]
  loads := by simp [init, Slot.loaded?]
  answered := always_nil

/-- One more entry of the log, when one slot at most changes. -/
theorem ClaimInv.snoc (h : s.ClaimInv) {obs : Obs} (hlog : s'.log = s.log ++ [obs])
    (hfew : givens s'.log < 2 ^ 64 - 1) (hepoch : s'.modeEpoch = epochAt s'.log)
    (hstop : Stop (givens s'.log) s'.stoppedEpoch)
    (hfollows : s'.stoppedEpoch = s'.modeEpoch ↔ Stopped s'.log)
    (hclaims : s.claims ≤ s'.claims)
    (hprocessed : ∀ claim, obs = .processed claim → claim < s.claims)
    (hanswered : AnsweredRight s.log obs) {i : ℕ} {slot : Slot}
    (hslots : s'.slots = Function.update s.slots i slot)
    (hsent : ∀ claim, obs = .sent claim → s.claims ≤ claim)
    (hasked : ∀ j, obs = .asked j → j = i)
    (hclaim : ∀ claim epoch, slot.claim? = some (claim, epoch) →
      ClaimOk s'.log s'.claims claim epoch)
    (hloaded : ∀ stopped, slot.loaded? = some stopped → LoadOk s'.log i stopped) :
    s'.ClaimInv where
  few := hfew
  epoch := hepoch
  stop := hstop
  follows := hfollows
  processed := by
    intro claim hmem
    rw [hlog] at hmem
    rcases List.mem_append.mp hmem with hmem | hmem
    · exact lt_of_lt_of_le (h.processed claim hmem) hclaims
    · exact lt_of_lt_of_le (hprocessed claim (List.mem_singleton.mp hmem).symm) hclaims
  claims := by
    intro j claim epoch hj
    rw [hslots] at hj
    by_cases hji : j = i
    · subst hji
      rw [Function.update_self] at hj
      exact hclaim claim epoch hj
    · rw [Function.update_of_ne hji] at hj
      have hok := h.claims j claim epoch hj
      rw [hlog]
      refine hok.snoc ?_ hclaims
      rintro rfl
      exact absurd hok.1 (not_lt.mpr (hsent claim rfl))
  loads := by
    intro j stopped hj
    rw [hslots] at hj
    by_cases hji : j = i
    · subst hji
      rw [Function.update_self] at hj
      exact hloaded stopped hj
    · rw [Function.update_of_ne hji] at hj
      rw [hlog]
      refine (h.loads j stopped hj).snoc ?_
      rintro rfl
      exact hji (hasked j rfl)
  answered := by
    rw [hlog, always_snoc]
    exact ⟨h.answered, hanswered⟩

theorem ClaimInv.given (h : s.ClaimInv) (mode : Mode)
    (hfew : givens s.log + 1 < 2 ^ 64 - 1) : (s.bump mode).ClaimInv := by
  have hlog : (s.bump mode).log = s.log ++ [.given mode] := rfl
  have hgivens : givens (s.bump mode).log = givens s.log + 1 := by
    rw [hlog, givens_snoc]
    rfl
  have hepoch : (s.bump mode).modeEpoch = epochAt (s.bump mode).log := by
    unfold epochAt
    rw [hgivens, BitVec.ofNat_add, show (s.bump mode).modeEpoch = s.modeEpoch + 1 from rfl,
      h.epoch]
    rfl
  have hself : (s.bump mode).slots = Function.update s.slots 0 (s.slots 0) :=
    (Function.update_eq_self 0 s.slots).symm
  refine h.snoc hlog (by rw [hgivens]; exact hfew) hepoch
    (h.stop.mono (by rw [hgivens]; exact Nat.le_succ _)) ?_ le_rfl (by simp)
    (by simp [AnsweredRight]) hself (by simp) (by simp) ?_ ?_
  · constructor
    · intro heq
      refine absurd heq ?_
      rw [hepoch]
      exact h.stop.ne (by rw [hgivens]; exact Nat.lt_succ_self _)
        (by rw [hgivens]; exact hfew)
    · intro hstopped
      exact absurd hstopped (not_stopped_given mode)
  · intro claim epoch hslot
    rw [hlog]
    exact (h.claims 0 claim epoch hslot).snoc (by simp) le_rfl
  · intro stopped hslot
    rw [hlog]
    exact (h.loads 0 stopped hslot).snoc (by simp)

/-- A step that logs what is neither a value nor about the stop. -/
theorem ClaimInv.other (h : s.ClaimInv) {obs : Obs} (hlog : s'.log = s.log ++ [obs])
    (hgiven : obs.isGiven = false) (hsent : ∀ claim, obs ≠ .sent claim)
    (hproc : ∀ claim, obs ≠ .processed claim) (hmode : s'.modeEpoch = s.modeEpoch)
    (hstopped : s'.stoppedEpoch = s.stoppedEpoch) (hclaims : s'.claims = s.claims)
    (hanswered : AnsweredRight s.log obs) {i : ℕ} {slot : Slot}
    (hslots : s'.slots = Function.update s.slots i slot)
    (hasked : ∀ j, obs = .asked j → j = i) (hclaim : slot.claim? = none)
    (hloaded : ∀ stopped, slot.loaded? = some stopped → LoadOk s'.log i stopped) :
    s'.ClaimInv := by
  have hgivens : givens s'.log = givens s.log := by
    rw [hlog, givens_snoc, hgiven]
    rfl
  refine h.snoc hlog (by rw [hgivens]; exact h.few) ?_ ?_ ?_ hclaims.ge
    (fun claim heq => absurd heq (hproc claim)) hanswered hslots
    (fun claim heq => absurd heq (hsent claim)) hasked (by simp [hclaim]) hloaded
  · unfold epochAt
    rw [hgivens, hmode]
    exact h.epoch
  · rw [hgivens, hstopped]
    exact h.stop
  · rw [hlog, stopped_other hgiven hsent hproc, hstopped, hmode]
    exact h.follows

/-- A claim of the epoch `e` was sent after the last value exactly if `e` is
the epoch of that value. -/
theorem ClaimInv.current_iff (h : s.ClaimInv) {claim : ℕ} {epoch : Epoch}
    (hok : ClaimOk s.log s.claims claim epoch) :
    .sent claim ∈ since Obs.isGiven s.log ↔ epoch = s.modeEpoch := by
  obtain ⟨-, k, hk, rfl, hiff⟩ := hok
  have hfew := h.few
  rw [hiff, h.epoch]
  constructor
  · rintro rfl
    rfl
  · exact fun heq => ofNat_inj (by omega) (by omega) heq

theorem ClaimInv.send (h : s.ClaimInv) {i : ℕ} {held : Option Jobs.Uuid}
    {fresh : Jobs.Uuid} : (s.send i held fresh).ClaimInv := by
  have hlog : (s.send i held fresh).log = s.log ++ [.sent s.claims] := rfl
  have hgivens : givens (s.send i held fresh).log = givens s.log := by
    rw [hlog, givens_snoc]
    rfl
  have hnew : .processed s.claims ∉ s.log :=
    fun hp => lt_irrefl _ (h.processed s.claims hp)
  refine h.snoc hlog (by rw [hgivens]; exact h.few) ?_ ?_ ?_ (Nat.le_succ _) (by simp)
    (by simp [AnsweredRight]) (i := i) rfl (by simp) (by simp) ?_ (by simp [Slot.loaded?])
  · unfold epochAt
    rw [hgivens]
    exact h.epoch
  · rw [hgivens]
    exact h.stop
  · rw [hlog, stopped_sent hnew]
    exact h.follows
  · intro claim epoch hslot
    cases hslot
    refine ⟨Nat.lt_succ_self _, givens s.log, hgivens.ge, h.epoch, ?_⟩
    rw [hgivens, hlog, mem_since_snoc rfl]
    simp

/-- The refusal of a claim is processed, and `epoch` is what is stored then. -/
theorem ClaimInv.process (h : s.ClaimInv) {i claim : ℕ} {epoch : Epoch}
    (hslot : (s.slots i).claim? = some (claim, epoch))
    (hlog : s'.log = s.log ++ [.processed claim])
    (hslots : s'.slots = Function.update s.slots i (.top none))
    (hmode : s'.modeEpoch = s.modeEpoch) (hclaims : s'.claims = s.claims)
    (hstop : Stop (givens s.log) s'.stoppedEpoch)
    (hfollows : s'.stoppedEpoch = s.modeEpoch ↔
      s.stoppedEpoch = s.modeEpoch ∨ epoch = s.modeEpoch) : s'.ClaimInv := by
  have hgivens : givens s'.log = givens s.log := by
    rw [hlog, givens_snoc]
    rfl
  have hok := h.claims i claim epoch hslot
  refine h.snoc hlog (by rw [hgivens]; exact h.few) ?_ (by rw [hgivens]; exact hstop) ?_
    hclaims.ge ?_ (by simp [AnsweredRight]) hslots (by simp) (by simp)
    (by simp [Slot.claim?]) (by simp [Slot.loaded?])
  · unfold epochAt
    rw [hgivens, hmode]
    exact h.epoch
  · rw [hlog, stopped_processed, hmode, hfollows, h.follows, h.current_iff hok]
  · rintro c heq
    cases heq
    exact hok.1

theorem ClaimInv.stop_of_claim (h : s.ClaimInv) {i claim : ℕ} {epoch : Epoch}
    (hslot : (s.slots i).claim? = some (claim, epoch)) :
    Stop (givens s.log) epoch := by
  obtain ⟨-, k, hk, rfl, -⟩ := h.claims i claim epoch hslot
  exact Or.inr ⟨k, hk, rfl⟩

theorem ClaimInv.step (h : s.ClaimInv) (hs : Step s s') : s'.ClaimInv := by
  cases hs with
  | given mode hfew => exact h.given mode hfew
  | shared hmode hstopped hslots hclaims hlog =>
      obtain ⟨hfew, hepoch, hstop, hfollows, hprocessed, hslotClaims, hloads,
        hanswered⟩ := h
      refine ⟨?_, ?_, ?_, ?_, ?_, ?_, ?_, ?_⟩ <;>
        simpa only [hmode, hstopped, hslots, hclaims, hlog]
  | move i slot hclaim hloaded =>
      refine ⟨h.few, h.epoch, h.stop, h.follows, h.processed, ?_, ?_, h.answered⟩
      · intro j claim epoch hj
        by_cases hji : j = i
        · subst hji
          rw [show (s.setSlot j slot).slots j = slot from Function.update_self ..] at hj
          exact h.claims j claim epoch (hclaim _ hj)
        · rw [show (s.setSlot i slot).slots j = s.slots j from
            Function.update_of_ne hji ..] at hj
          exact h.claims j claim epoch hj
      · intro j stopped hj
        by_cases hji : j = i
        · subst hji
          rw [show (s.setSlot j slot).slots j = slot from Function.update_self ..,
            hloaded] at hj
          cases hj
        · rw [show (s.setSlot i slot).slots j = s.slots j from
            Function.update_of_ne hji ..] at hj
          exact h.loads j stopped hj
  | ask i held state version =>
      refine h.other rfl rfl (by simp) (by simp) rfl rfl rfl (by simp [AnsweredRight]) rfl
        ?_ rfl ?_
      · rintro j heq
        cases heq
        rfl
      · intro stopped hloaded
        cases hloaded
        refine ⟨s.log, [], rfl, by simp, h.stop, ?_⟩
        rw [← h.epoch]
        exact h.follows
  | answer i held state version stopped hslot =>
      have hright := (h.loads i stopped hslot).answered h.few
      rw [← h.epoch] at hright
      exact h.other rfl rfl (by simp) (by simp) rfl rfl rfl hright rfl (by simp)
        (Slot.claim?_choose ..) (by simp [Slot.loaded?_choose])
  | send i held fresh => exact h.send
  | stale i claim epoch hslot hne =>
      refine h.process hslot rfl rfl rfl rfl h.stop ?_
      simp [hne, observe, setSlot]
  | store i claim epoch hslot hcalm =>
      refine h.process hslot rfl rfl rfl rfl (h.stop_of_claim hslot) ?_
      constructor
      · exact fun heq => Or.inr heq
      · rintro (heq | heq)
        · exact hcalm.resolve_right (not_not.mpr heq)
        · exact heq

theorem claimInv (h : machine.Reach Calm s) : s.ClaimInv := by
  refine Machine.Reach.invariant (P := ClaimInv) claimInv_init ?_ h
  intro s s' e _ hp hcalm hs
  exact hp.step (step_cases hcalm hs)

/-- In a calm run the claims are stopped exactly when a stopping refusal was
processed for a claim sent after the last value, and each answer of
`claims_stopped` is right at a moment of its call. -/
theorem claims_follow_mode (h : machine.Reach Calm s) :
    (s.claimsStopped = true ↔ Stopped s.log) ∧ Always AnsweredRight s.log := by
  have hinv := claimInv h
  refine ⟨?_, hinv.answered⟩
  unfold claimsStopped
  rw [decide_eq_true_iff]
  exact hinv.follows

/-- A store that is not calm undoes the stop of the current value. -/
theorem stopStore_undoes (h : machine.Reach Calm s) {i claim : ℕ} {epoch : Epoch}
    (hslot : s.slots i = .storing claim epoch) (hcalm : ¬ s.Calm (.slot i .stopStore)) :
    (s.stopStore i claim epoch).claimsStopped = false ∧
      Stopped (s.stopStore i claim epoch).log := by
  obtain ⟨hne, heq⟩ : epoch ≠ s.modeEpoch ∧ s.stoppedEpoch = s.modeEpoch := by
    simpa [Calm, calm, hslot] using hcalm
  constructor
  · exact decide_eq_false hne
  · exact stopped_processed.mpr (Or.inl ((claimInv h).follows.mp heq))

def refusedClaim : Reply := .error (.refused ⟨.claim, .notClaimMode, "", none⟩)

/-- A slot reads the loop state and sends a claim that is refused. -/
def refused (i : ℕ) (fresh : Jobs.Uuid) : List Event :=
  [.slot i .look, .slot i .ask, .slot i .answer, .slot i (.send fresh),
    .slot i (.reply refusedClaim), .slot i .stopLoad]

def stoppedRun : List Event :=
  [.given .claim, .publish, .replay true] ++ refused 0 1 ++ [.slot 0 .stopStore]

theorem claims_follow_mode_stoppedRun :
    ∃ s, machine.runChecked calm init stoppedRun = some s ∧
      (s.claimsStopped = true ↔ Stopped s.log) ∧ s.claimsStopped = true :=
  ⟨_, rfl, (claims_follow_mode (Machine.reach_of_checked stoppedRun rfl)).1, rfl⟩

/-- Slot 0 has checked the epoch of its claim; a new value is given and slot 1
stops the claims of that value; then slot 0 stores. -/
def staleRun : List Event :=
  [.given .claim, .publish, .replay true] ++ refused 0 1 ++ [.given .claim, .publish] ++
    refused 1 2 ++ [.slot 1 .stopStore, .slot 0 .stopStore]

theorem stop_undone :
    ∃ s, machine.run staleRun = some s ∧ s.claimsStopped = false ∧ Stopped s.log :=
  ⟨_, rfl, rfl, 1, by decide, by decide⟩

end Sys

end RunnerKit.Toolkit
