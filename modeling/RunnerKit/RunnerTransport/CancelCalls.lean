import RunnerKit.RunnerTransport.Fail
import RunnerKit.RunnerTransport.Feed
import RunnerKit.RunnerTransport.LiveOrders

/-!
# The calls of the cancel feed

`CancelFeed::next` and `failed` of `runner_transport/cancel.rs` under `Feed::next`,
from one await to the next. A call awaits the watch, or the state of the stream
when the watch has failed, and may be dropped at both.
-/

namespace RunnerKit.RunnerTransport.CancelCalls

open RunnerKit.Jobs RunnerKit.Lib

inductive WatchEnd where
  | failed (text : String)
  | ended

inductive Await where
  | watching
  /-- In `failed`, with the text of the error of the watch. -/
  | classifying (text : String)

structure Sys where
  feed : CancelFeed
  /-- The error that `Feed` keeps. -/
  kept : Option Error
  call : Option Await
  /-- The entries that the watch has given. -/
  taken : List Entry
  /-- How the watch has ended, the first time it told so. -/
  «end» : Option WatchEnd
  given : List (Except Error CancelEvent)
  /-- The watch was polled after its end. -/
  spoilt : Bool

inductive Event where
  | entry (entry : Entry)
  | watchFailed (text : String)
  | watchEnded
  | info (missing : Bool)
  | next
  | drop

def endedText : String := "the cancel watch ended"

namespace Sys

def init (stored : ℕ) : Sys :=
  { feed := .opened stored, kept := none, call := none, taken := [], «end» := none
    given := [], spoilt := false }

def give (s : Sys) (event : Except Error CancelEvent) : Sys :=
  { s with
    call := none
    given := s.given ++ [event]
    kept := keepEnd s.kept event }

/-- The head of the loop of `next`. -/
def loop (s : Sys) : Sys :=
  match s.feed.pending with
  | event :: rest => { s with feed := { s.feed with pending := rest } }.give event
  | [] =>
      match s.feed.ended with
      | some error => s.give (.error error)
      | none => { s with call := some .watching }

def next (s : Sys) : Sys :=
  match s.kept with
  | some error => s.give (.error error)
  | none => s.loop

def endWith (s : Sys) (error : Error) : Sys :=
  { s with feed := { s.feed with ended := some error } }

/-- The watch is polled, and tells of its end where `told` is one. -/
def polled (s : Sys) (told : Option WatchEnd) : Sys :=
  { s with «end» := s.end.or told, spoilt := s.spoilt || s.end.isSome }

def take (w : Wire) (s : Sys) (entry : Entry) : Sys :=
  { s with feed := s.feed.take w entry, taken := s.taken ++ [entry] }

end Sys

def step (w : Wire) (s : Sys) : Event → Option Sys
  | .entry entry =>
      match s.call with
      | some .watching => some ((s.polled none).take w entry).loop
      | _ => none
  | .watchFailed text =>
      match s.call with
      | some .watching =>
          some { s.polled (some (.failed text)) with call := some (.classifying text) }
      | _ => none
  | .watchEnded =>
      match s.call with
      | some .watching =>
          some ((s.polled (some .ended)).endWith (Fail.lost endedText)).loop
      | _ => none
  | .info missing =>
      match s.call with
      | some (.classifying text) => some (s.endWith (CancelFeed.failed w missing text)).loop
      | _ => none
  | .next =>
      match s.call with
      | none => some s.next
      | some _ => none
  | .drop =>
      match s.call with
      | none => none
      | some _ => some { s with call := none }

def machine (w : Wire) (stored : ℕ) : Machine Sys Event := ⟨.init stored, step w⟩

/-! ## The condition -/

/-- No call is dropped while the failure of the watch is being classified. -/
def Sys.classifies (s : Sys) : Event → Bool
  | .drop =>
      match s.call with
      | some (.classifying _) => false
      | _ => true
  | _ => true

def Sys.Classifies (s : Sys) (e : Event) : Prop := s.classifies e = true

def isDrop : Event → Bool
  | .drop => true
  | _ => false

/-- The states of the runs in which no call is dropped. -/
def Undropped (w : Wire) (stored : ℕ) : Sys → Prop :=
  (machine w stored).Reach fun _ e => isDrop e = false

def WatchEnd.error (w : Wire) (missing : Bool) : WatchEnd → Error
  | .failed text => CancelFeed.failed w missing text
  | .ended => Fail.lost endedText

/-- The end of the watch is the end of the feed. -/
def Kept (w : Wire) (s : Sys) : Prop :=
  ∀ watchEnd, s.end = some watchEnd → ∃ missing, s.feed.ended = some (watchEnd.error w missing)

/-! ## Taking an entry -/

section Take

variable {w : Wire} {feed : CancelFeed} {entry : Entry}

theorem single_made (runId : Uuid) (value : List UInt8) : Single (w.made runId value) := by
  intro error h
  unfold Wire.made at h
  split at h
  · split at h <;> cases h
    rfl
  · cases h
    rfl

theorem told_single : ∀ event ∈ feed.told w entry, Single event := by
  unfold CancelFeed.told
  split
  · simp
  · split
    · intro event hin
      obtain rfl := List.mem_singleton.mp hin
      exact single_made _ entry.value
    · split
      · intro event hin
        obtain rfl := List.mem_singleton.mp hin
        exact fun error heq => by cases heq
      · simp

theorem mark_single : ∀ event ∈ feed.mark entry, Single event := by
  unfold CancelFeed.mark
  split
  · intro event hin
    obtain rfl := List.mem_singleton.mp hin
    exact fun error heq => by cases heq
  · simp

theorem take_single (h : ∀ event ∈ feed.pending, Single event) :
    ∀ event ∈ (feed.take w entry).pending, Single event := by
  rw [take_eq]
  intro event hin
  rcases List.mem_append.mp hin with hin | hin
  · rcases List.mem_append.mp hin with hin | hin
    · exact h event hin
    · exact told_single event hin
  · exact mark_single event hin

end Take

/-! ## The calls -/

structure CallInv (w : Wire) (s : Sys) : Prop where
  sound : s.spoilt = false
  unended : ∀ await, s.call = some await → s.feed.ended = none
  empty : ∀ await, s.call = some await → s.feed.pending = []
  kept : ∀ error, s.kept = some error → s.feed.ended = some error ∧ s.feed.pending = []
  single : ∀ event ∈ s.feed.pending, Single event
  watch : (∀ text, s.call ≠ some (.classifying text)) → Kept w s
  classifying : ∀ text, s.call = some (.classifying text) → s.end = some (.failed text)
  given : EndsWith s.given s.feed.ended
  early : s.feed.pending ≠ [] → ∀ event ∈ s.given, Single event

/-- What the head of the loop needs. -/
structure Loopable (w : Wire) (s : Sys) : Prop where
  sound : s.spoilt = false
  kept : s.kept = none
  single : ∀ event ∈ s.feed.pending, Single event
  watch : Kept w s
  given : EndsWith s.given s.feed.ended
  early : s.feed.pending ≠ [] → ∀ event ∈ s.given, Single event

section Steps

variable {w : Wire} {stored : ℕ} {s s' : Sys}

theorem callInv_give_error {error : Error} (hsound : s.spoilt = false)
    (hended : s.feed.ended = some error) (hpending : s.feed.pending = [])
    (hkept : s.kept = none ∨ s.kept = some error) (hwatch : Kept w s)
    (hgiven : EndsWith s.given s.feed.ended) : CallInv w (s.give (.error error)) := by
  refine ⟨hsound, by simp [Sys.give], by simp [Sys.give], ?_, ?_, fun _ => hwatch,
    by simp [Sys.give], hgiven.again hended, fun hne => absurd hpending hne⟩
  · intro e he
    have heq : e = error := by
      simp only [Sys.give, keepEnd] at he
      split at he
      · rcases hkept with hkept | hkept
        · rw [hkept] at he
          cases he
        · rw [hkept] at he
          exact (Option.some.inj he).symm
      · exact (Option.some.inj he).symm
    subst heq
    exact ⟨hended, hpending⟩
  · show ∀ event ∈ s.feed.pending, Single event
    rw [hpending]
    simp

theorem Loopable.loop (h : Loopable w s) : CallInv w s.loop := by
  unfold Sys.loop
  split
  · rename_i event rest hpending
    have hevent : Single event := h.single event (by rw [hpending]; simp)
    have hgiven : ∀ other ∈ s.given ++ [event], Single other := by
      intro other hin
      rcases List.mem_append.mp hin with hin | hin
      · exact h.early (by rw [hpending]; simp) other hin
      · obtain rfl := List.mem_singleton.mp hin
        exact hevent
    have hkept : keepEnd s.kept event = none := by
      unfold keepEnd
      split
      · exact h.kept
      · rename_i error
        rw [if_pos (hevent error rfl)]
        exact h.kept
    refine ⟨h.sound, by simp [Sys.give], by simp [Sys.give], ?_, ?_, fun _ => h.watch,
      by simp [Sys.give], .of_single hgiven, fun _ => hgiven⟩
    · intro error he
      rw [show Sys.kept _ = keepEnd s.kept event from rfl, hkept] at he
      cases he
    · intro other hin
      exact h.single other (by rw [hpending]; exact List.mem_cons_of_mem _ hin)
  · rename_i hpending
    split
    · exact callInv_give_error h.sound ‹_› hpending (Or.inl h.kept) h.watch h.given
    · rename_i hended
      refine ⟨h.sound, fun _ _ => hended, fun _ _ => hpending, ?_, h.single, fun _ => h.watch,
        by simp, h.given, h.early⟩
      intro error he
      rw [show s.kept = none from h.kept] at he
      cases he

/-- At an await the feed has not ended and gives single events only. -/
theorem CallInv.running (h : CallInv w s) {await : Await} (hcall : s.call = some await) :
    s.kept = none ∧ ∀ event ∈ s.given, Single event := by
  have hended := h.unended await hcall
  constructor
  · cases hkept : s.kept with
    | none => rfl
    | some error =>
        have hsome := (h.kept error hkept).1
        rw [hended] at hsome
        cases hsome
  · have hgiven := h.given
    rw [hended] at hgiven
    exact hgiven.single

/-- While the watch is awaited it has not ended. -/
theorem CallInv.watching (h : CallInv w s) (hcall : s.call = some .watching) :
    s.end = none := by
  cases hend : s.end with
  | none => rfl
  | some watchEnd =>
      obtain ⟨missing, hended⟩ := h.watch (by rw [hcall]; simp) watchEnd hend
      rw [h.unended _ hcall] at hended
      cases hended

theorem CallInv.loopable (h : CallInv w s) {await : Await} (hcall : s.call = some await)
    {t : Sys} (hspoilt : t.spoilt = false) (hkept : t.kept = s.kept)
    (hgiven : t.given = s.given) (hsingle : ∀ event ∈ t.feed.pending, Single event)
    (hwatch : Kept w t) : Loopable w t := by
  obtain ⟨hnone, hall⟩ := h.running hcall
  refine ⟨hspoilt, hkept.trans hnone, hsingle, hwatch, ?_, ?_⟩
  · rw [hgiven]
    exact .of_single hall
  · rw [hgiven]
    exact fun _ => hall

theorem CallInv.step (h : CallInv w s) {e : Event} (hok : s.Classifies e)
    (hs : step w s e = some s') : CallInv w s' := by
  cases e with
  | entry entry =>
      simp only [CancelCalls.step] at hs
      split at hs <;> cases hs
      rename_i hcall
      have hend := h.watching hcall
      refine Loopable.loop (h.loopable hcall ?_ rfl rfl (take_single h.single) ?_)
      · simp [Sys.take, Sys.polled, hend, h.sound]
      · intro watchEnd heq
        simp [Sys.take, Sys.polled, hend] at heq
  | watchFailed text =>
      simp only [CancelCalls.step] at hs
      split at hs <;> cases hs
      rename_i hcall
      have hend := h.watching hcall
      refine ⟨?_, fun _ _ => h.unended _ hcall, fun _ _ => h.empty _ hcall, h.kept, h.single,
        fun hnot => absurd rfl (hnot text), ?_, h.given, h.early⟩
      · simp [Sys.polled, hend, h.sound]
      · intro text' heq
        cases heq
        simp [Sys.polled, hend]
  | watchEnded =>
      simp only [CancelCalls.step] at hs
      split at hs <;> cases hs
      rename_i hcall
      have hend := h.watching hcall
      refine Loopable.loop (h.loopable hcall ?_ rfl rfl h.single ?_)
      · simp [Sys.endWith, Sys.polled, hend, h.sound]
      · intro watchEnd heq
        have hsame : watchEnd = .ended := by
          simpa [Sys.endWith, Sys.polled, hend, eq_comm] using heq
        subst hsame
        exact ⟨false, rfl⟩
  | info missing =>
      simp only [CancelCalls.step] at hs
      split at hs <;> cases hs
      rename_i text hcall
      refine Loopable.loop (h.loopable hcall h.sound rfl rfl h.single ?_)
      intro watchEnd heq
      have hfailed := h.classifying text hcall
      rw [show s.end = some watchEnd from heq] at hfailed
      cases hfailed
      exact ⟨missing, rfl⟩
  | next =>
      simp only [CancelCalls.step] at hs
      split at hs <;> cases hs
      rename_i hnone
      have hwatch := h.watch (by rw [hnone]; simp)
      unfold Sys.next
      split
      · rename_i error hkept
        obtain ⟨hended, hpending⟩ := h.kept error hkept
        exact callInv_give_error h.sound hended hpending (Or.inr hkept) hwatch h.given
      · rename_i hkept
        exact Loopable.loop ⟨h.sound, hkept, h.single, hwatch, h.given, h.early⟩
  | drop =>
      simp only [CancelCalls.step] at hs
      split at hs <;> cases hs
      rename_i await hcall
      have hnot : ∀ text, s.call ≠ some (.classifying text) := by
        intro text heq
        simp [Sys.Classifies, Sys.classifies, heq] at hok
      exact ⟨h.sound, by simp, by simp, h.kept, h.single, fun _ => h.watch hnot, by simp,
        h.given, h.early⟩

theorem callInv (h : (machine w stored).Reach Sys.Classifies s) : CallInv w s := by
  apply Machine.Reach.invariant (P := CallInv w) ?_ (fun _ hp hc hs => hp.step hc hs) h
  refine ⟨rfl, ?_, ?_, ?_, ?_, ?_, ?_, .nil, fun _ => (by simp [machine, Sys.init])⟩
  · intro await hcall
    cases hcall
  · intro await hcall
    cases hcall
  · intro error hkept
    cases hkept
  · intro event hin
    unfold machine Sys.init CancelFeed.opened at hin
    dsimp only at hin
    split at hin
    · obtain rfl := List.mem_singleton.mp hin
      exact fun error heq => by cases heq
    · cases hin
  · intro _ watchEnd heq
    cases heq
  · intro text hcall
    cases hcall

/-! ## A run without drops -/

inductive Lags : Option Await → Option Await → Prop where
  | same (call : Option Await) : Lags call call
  | left : Lags (some .watching) none

/-- A run without drops reaches the state, a call that still awaits the watch
apart. -/
def Sim (w : Wire) (stored : ℕ) (s : Sys) : Prop :=
  ∃ call, Undropped w stored { s with call := call } ∧ Lags call s.call

theorem Sim.same (h : Sim w stored s) {await : Await} (hcall : s.call = some await) :
    Undropped w stored s := by
  obtain ⟨call, hreach, hlags⟩ := h
  rw [hcall] at hlags
  cases hlags
  have hsame : ({ s with call := some await } : Sys) = s := by rw [← hcall]
  rwa [hsame] at hreach

theorem Undropped.sim (h : Undropped w stored s) {e : Event}
    (hs : CancelCalls.step w s e = some s') (hdrop : isDrop e = false) : Sim w stored s' :=
  ⟨s'.call, Machine.Reach.step h hdrop hs, .same _⟩

theorem Sim.step (h : Sim w stored s) {e : Event} (hok : s.Classifies e)
    (hs : step w s e = some s') : Sim w stored s' := by
  have hstep := hs
  cases e with
  | entry entry =>
      simp only [CancelCalls.step] at hs
      split at hs <;> cases hs
      exact (h.same ‹_›).sim hstep rfl
  | watchFailed text =>
      simp only [CancelCalls.step] at hs
      split at hs <;> cases hs
      exact (h.same ‹_›).sim hstep rfl
  | watchEnded =>
      simp only [CancelCalls.step] at hs
      split at hs <;> cases hs
      exact (h.same ‹_›).sim hstep rfl
  | info missing =>
      simp only [CancelCalls.step] at hs
      split at hs <;> cases hs
      exact (h.same ‹_›).sim hstep rfl
  | next =>
      simp only [CancelCalls.step] at hs
      split at hs <;> cases hs
      rename_i hnone
      obtain ⟨call, hreach, hlags⟩ := h
      rw [hnone] at hlags
      cases hlags with
      | same =>
          have hsame : ({ s with call := none } : Sys) = s := by rw [← hnone]
          rw [hsame] at hreach
          exact hreach.sim hstep rfl
      | left =>
          -- the call without drops still awaits the watch, and so does the new one
          have hcalls : CallInv w { s with call := some .watching } := by
            refine callInv (hreach.mono fun _ e he => ?_)
            cases e with
            | drop => cases he
            | _ => rfl
          have hkept := (hcalls.running rfl).1
          have hpending := hcalls.empty _ rfl
          have hended := hcalls.unended _ rfl
          dsimp only at hkept hpending hended
          have hnext : s.next = { s with call := some .watching } := by
            simp only [Sys.next, hkept, Sys.loop, hpending, hended]
          rw [hnext]
          exact ⟨some .watching, hreach, .same _⟩
  | drop =>
      simp only [CancelCalls.step] at hs
      split at hs <;> cases hs
      rename_i await hcall
      cases await with
      | watching =>
          refine ⟨some .watching, ?_, .left⟩
          have hreach := h.same hcall
          have hsame : ({ s with call := some .watching } : Sys) = s := by rw [← hcall]
          show Undropped w stored { s with call := some .watching }
          rwa [hsame]
      | classifying text => simp [Sys.Classifies, Sys.classifies, hcall] at hok

theorem sim (h : (machine w stored).Reach Sys.Classifies s) : Sim w stored s := by
  apply Machine.Reach.invariant (P := Sim w stored) ?_ (fun _ hp hc hs => hp.step hc hs) h
  exact ⟨none, .init, .same _⟩

end Steps

/-! ## Drops change nothing -/

structure Lasting (w : Wire) (stored : ℕ) (s : Sys) : Prop where
  /-- A run without drops gives the same, of the same watch. -/
  undropped : ∃ call, Undropped w stored { s with call := call }
  /-- The watch is not polled after its end. -/
  sound : s.spoilt = false
  /-- The end of the watch is not lost. -/
  kept : (∀ text, s.call ≠ some (.classifying text)) → Kept w s
  /-- Nothing is given after the error that ends the feed but that error. -/
  given : EndsWith s.given s.feed.ended
  /-- It is given by every call, once nothing else waits. -/
  again : ∀ error, s.feed.ended = some error → s.feed.pending = [] → s.call = none →
    step w s .next = some (s.give (.error error))

theorem lasting {w : Wire} {stored : ℕ} {s : Sys}
    (h : (machine w stored).Reach Sys.Classifies s) : Lasting w stored s where
  undropped := by
    obtain ⟨call, hreach, -⟩ := sim h
    exact ⟨call, hreach⟩
  sound := (callInv h).sound
  kept := (callInv h).watch
  given := (callInv h).given
  again := by
    intro error hended hpending hnone
    have hnext : s.next = s.give (.error error) := by
      unfold Sys.next
      split
      · rename_i e hkept
        rw [((callInv h).kept e hkept).1] at hended
        cases hended
        rfl
      · simp only [Sys.loop, hpending, hended]
    simp only [CancelCalls.step, hnone, hnext]

end RunnerKit.RunnerTransport.CancelCalls
