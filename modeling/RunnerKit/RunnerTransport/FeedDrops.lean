import RunnerKit.RunnerTransport.CancelCalls
import RunnerKit.RunnerTransport.ModeDrops

/-!
# Dropped calls of the two feeds

A call of `Feed::next` may be dropped at any await but one: while the end of the
watch is being classified, that end is held by the call alone. A drop there loses
it, and the next call polls the watch again.
-/

namespace RunnerKit.RunnerTransport

open RunnerKit.Jobs RunnerKit.Lib

theorem drops_change_nothing {w : Mode.ModeWire} {past : List Mode.Entry} {s : Mode.Sys}
    {v : Wire} {stored : ℕ} {t : CancelCalls.Sys}
    (hmode : (Mode.machine w past).Reach Mode.Sys.Classifies s)
    (hcancel : (CancelCalls.machine v stored).Reach CancelCalls.Sys.Classifies t) :
    Mode.Lasting w past s ∧ CancelCalls.Lasting v stored t :=
  ⟨Mode.lasting hmode, CancelCalls.lasting hcancel⟩

/-! ## Drops -/

def mediumWire : Mode.ModeWire where
  fromValue _ := .ok .push
  bucket := "published-language"

/-- Dropped at the direct read and at the `select`, before the bucket is gone. -/
def modeDrops : List Mode.Event :=
  [.next, .pollPending, .drop, .next, .pollPending, .created false, .read, .next, .drop,
    .next, .watchReady (.fabric (.other "gone")), .reopened (some .subjectNotCovered),
    .next]

/-- Dropped at the watch, before the order of a Run and the end of the watch. -/
def cancelDrops : List CancelCalls.Event :=
  [.next, .drop, .next, .entry ⟨"key", .put, [], true⟩, .next, .next, .drop, .next,
    .watchFailed "cut", .info false, .next]

def keyWire : Wire where
  parseStr key := if key = "key" then some 1 else none
  runCancelKey _ := "key"
  display _ := "key"
  fromSlice _ := .ok ⟨1⟩
  cancelBucket := "cancel"

theorem drops_change_nothing_twoFeeds :
    ∃ s t, (Mode.machine mediumWire []).run modeDrops = some s ∧
      (CancelCalls.machine keyWire 1).run cancelDrops = some t ∧
      s.given.map Mode.Item.event =
        [.ok .noEntry, .error (.infraMissing "the bucket published-language is missing"),
          .error (.infraMissing "the bucket published-language is missing")] ∧
      t.given = [.ok (.orderMade 1), .ok .replayComplete,
        .error (Fail.lost "the cancel watch failed: cut"),
        .error (Fail.lost "the cancel watch failed: cut")] ∧
      Mode.Lasting mediumWire [] s ∧ CancelCalls.Lasting keyWire 1 t := by
  have hmode : (Mode.machine mediumWire []).Reach (fun s e => s.classifies e = true) _ :=
    Machine.reach_of_checked modeDrops rfl
  have hcancel : (CancelCalls.machine keyWire 1).Reach (fun s e => s.classifies e = true) _ :=
    Machine.reach_of_checked cancelDrops rfl
  exact ⟨_, _, rfl, rfl, rfl, rfl, drops_change_nothing hmode hcancel⟩

/-! ## A drop while the end is being classified -/

/-- A completed watch is polled again, and the end of a failed one is lost. -/
theorem dropped_end_lost :
    (¬ ∀ (w : Mode.ModeWire) (past : List Mode.Entry) (s : Mode.Sys),
      (Mode.machine w past).Reachable s → Mode.Lasting w past s) ∧
    ¬ ∀ (w : Wire) (stored : ℕ) (s : CancelCalls.Sys),
      (CancelCalls.machine w stored).Reachable s → CancelCalls.Lasting w stored s := by
  constructor
  · intro h
    have hrun : ∃ s, (Mode.machine mediumWire []).run
        [.next, .watchReady (.fabric (.other "gone")), .drop, .next, .pollOver] = some s ∧
        s.spoilt = true := ⟨_, rfl, rfl⟩
    obtain ⟨s, hs, hspoilt⟩ := hrun
    have hsound := (h _ _ s (Machine.reachable_of_run _ hs)).sound
    rw [hspoilt] at hsound
    cases hsound
  · intro h
    have hrun : ∃ s, (CancelCalls.machine keyWire 1).run
        [.next, .watchFailed "cut", .drop] = some s ∧ s.call = none ∧
        s.end = some (.failed "cut") ∧ s.feed.ended = none := ⟨_, rfl, rfl, rfl, rfl⟩
    obtain ⟨s, hs, hcall, hend, hended⟩ := hrun
    obtain ⟨missing, hkept⟩ := (h _ _ s (Machine.reachable_of_run _ hs)).kept
      (by rw [hcall]; simp) _ hend
    rw [hended] at hkept
    cases hkept

end RunnerKit.RunnerTransport
