import RunnerKit.Client.Claim
import RunnerKit.Lib.Log
import RunnerKit.Toolkit.SlotMoves

/-!
# Claim ids

The slots of the toolkit with the answers of jobs as they come from the transport:
which claim id a slot sends, what it is answered, and when it reads the trigger feed.
A slot repeats a claim id only as long as no answer to it has resolved it, and it
does nothing else until then.
-/

namespace RunnerKit.Toolkit.ClaimIds

open RunnerKit.Jobs RunnerKit.Lib RunnerKit.Client

/-! ## The answers -/

/-- What `claim_step` tells apart. -/
def toReply : Except Error (Option Parsed) → Reply
  | .ok (some _) => .work
  | .ok none => .none
  | .error error => .error error

/-- The claim id is kept: a busy or an unknown-instance refusal, or any error but a
refusal and an invalid input. -/
def unresolved : Except Error (Option Parsed) → Bool
  | .ok _ => false
  | .error (.refused refusal) =>
      decide (refusal.reason = .busy) || decide (refusal.reason = .instanceUnknown)
  | .error (.invalidInput _) => false
  | .error _ => true

/-! ## The machine -/

inductive Obs where
  | sent (slot : ℕ) (claimId : Uuid)
  | answered (slot : ℕ) (claimId : Uuid) (reply : Except Error (Option Parsed))
  /-- In `push_step`. -/
  | reads (slot : ℕ)
  | panicked (slot : ℕ)

structure Sys where
  base : Toolkit.Sys
  log : List Obs

inductive Event where
  /-- Any step but a reply. -/
  | base (event : Toolkit.Event)
  | answer (slot : ℕ) (answer : Except Error (List UInt8))

/-- What a step of the slots tells, with the state it leads to. -/
def told (s t : Toolkit.Sys) : Toolkit.Event → List Obs
  | .slot i (.send fresh) =>
      match s.slots i with
      | .claiming held => [.sent i (held.getD fresh)]
      | _ => []
  | .slot i .ask =>
      match t.slots i with
      | .working _ => [.reads i]
      | _ => []
  | .slot i .answer =>
      match t.slots i with
      | .working _ => [.reads i]
      | _ => []
  | .slot i .panic => [.panicked i]
  | _ => []

/-- The replies come by `Event.answer`. -/
def isReply : Toolkit.Event → Bool
  | .slot _ (.reply _) => true
  | _ => false

variable (w : ClaimWire) (wait : ℕ)

def step (s : Sys) : Event → Option Sys
  | .base event =>
      if isReply event then none
      else (s.base.step event).map fun t => ⟨t, s.log ++ told s.base t event⟩
  | .answer i answer =>
      match s.base.slots i with
      | .sent claimId _ _ =>
          let reply := w.claim claimId wait answer
          (s.base.step (.slot i (.reply (toReply reply)))).map fun t =>
            ⟨t, s.log ++ [.answered i claimId reply]⟩
      | _ => none

def init : Sys := ⟨.init, []⟩

def machine : Machine Sys Event := ⟨init, step w wait⟩

/-- `Uuid::now_v7` gives an id that was not sent before. -/
def Sys.isFresh (s : Sys) : Event → Bool
  | .base (.slot _ (.send fresh)) => s.log.all fun obs =>
      match obs with
      | .sent _ claimId => decide (claimId ≠ fresh)
      | _ => true
  | _ => true

def Sys.Fresh (s : Sys) (e : Event) : Prop := s.isFresh e = true

/-! ## What the log says -/

def holdsAfter (slot : ℕ) (held : Option Uuid) : Obs → Option Uuid
  | .sent i claimId => if i = slot then some claimId else held
  | .answered i claimId reply =>
      if i = slot then if unresolved reply then some claimId else none else held
  | .panicked i => if i = slot then none else held
  | .reads _ => held

/-- The claim id that the slot has sent and that is not resolved. -/
def holdsOf (slot : ℕ) (log : List Obs) : Option Uuid := log.foldl (holdsAfter slot) none

/-- Each earlier answer to a claim id that is sent left it unresolved. -/
def RepeatsUnresolved (pre : List Obs) (obs : Obs) : Prop :=
  ∀ i claimId, obs = .sent i claimId →
    ∀ j reply, .answered j claimId reply ∈ pre → unresolved reply = true

/-- A slot with an unresolved claim id sends no other, and reads no trigger. -/
def KeepsUnresolved (pre : List Obs) (obs : Obs) : Prop :=
  (∀ i claimId, obs = .sent i claimId → ∀ held, holdsOf i pre = some held → claimId = held) ∧
    ∀ i, obs = .reads i → holdsOf i pre = none

@[simp] theorem holdsOf_snoc (slot : ℕ) (log : List Obs) (obs : Obs) :
    holdsOf slot (log ++ [obs]) = holdsAfter slot (holdsOf slot log) obs := by
  simp [holdsOf]

/-! ## The claim id of a slot -/

def heldBy : Slot → Option Uuid
  | .top held => held
  | .looked held _ _ => held
  | .asked held _ _ _ => held
  | .waiting held _ => held
  | .claiming held => held
  | .sent claimId _ _ => some claimId
  | .stopping _ _ => none
  | .storing _ _ => none
  | .pausing claimId => some claimId
  | .working held => held
  | .left => none

theorem heldBy_choose (held : Option Uuid) (state : LoopState) (version : ℕ)
    (claimsBlocked : Bool) : heldBy (Slot.choose held state version claimsBlocked) = held := by
  unfold Slot.choose
  split
  · rfl
  · split <;> rfl

/-- A slot that holds a claim id does not go on to the triggers. -/
theorem choose_working {held working : Option Uuid} {state : LoopState} {version : ℕ}
    {claimsBlocked : Bool}
    (h : Slot.choose held state version claimsBlocked = .working working) :
    held = none ∧ working = none := by
  unfold Slot.choose at h
  split at h
  · cases h
  · rename_i hwait
    split at h
    · cases h
    · rename_i hclaims
      cases h
      cases held with
      | none => exact ⟨rfl, rfl⟩
      | some claimId => simp_all [mustWait, Slot.claims]

theorem heldBy_reply (claimId : Uuid) (claim : ℕ) (epoch : Epoch)
    (reply : Except Error (Option Parsed)) :
    heldBy (Slot.reply claimId claim epoch (toReply reply)) =
      if unresolved reply then some claimId else none := by
  match reply with
  | .ok (some _) => rfl
  | .ok none => rfl
  | .error (.refused refusal) =>
      obtain ⟨operation, reason, message, retryAfterMs⟩ := refusal
      cases reason <;> rfl
  | .error (.invalidInput _) => rfl
  | .error (.credential _) => rfl
  | .error .unauthenticated => rfl
  | .error (.unavailable _) => rfl
  | .error (.lost _) => rfl
  | .error (.infraMissing _) => rfl
  | .error (.unreadable _) => rfl
  | .error .bookDropped => rfl

theorem reply_not_working (claimId : Uuid) (claim : ℕ) (epoch : Epoch) (reply : Reply)
    {held : Option Uuid} (h : Slot.reply claimId claim epoch reply = .working held) :
    held = none := by
  unfold Slot.reply at h
  split at h
  · cases h
    rfl
  · cases h
  · split at h <;> cases h
  · cases h
  · cases h

/-- The step of a slot that neither sends nor is answered nor panics. -/
def isQuiet : SlotEvent → Bool
  | .send _ | .reply _ | .panic => false
  | _ => true

/-- Only the slot itself moves, and it keeps its claim id, or leaves. -/
structure Kept (s t : Toolkit.Sys) (i : ℕ) : Prop where
  others : ∀ j, j ≠ i → t.slots j = s.slots j
  held : t.slots i = .left ∨ heldBy (t.slots i) = heldBy (s.slots i)
  working : ∀ held, t.slots i = .working held → held = none

section Steps

variable {s t : Toolkit.Sys} {i : ℕ}

/-- Beside a sending, a reply and a panic a slot keeps its claim id. -/
theorem moves_kept {event : SlotEvent} {old new : Slot} (hquiet : isQuiet event = true)
    (h : Moves s event old new) :
    (new = .left ∨ heldBy new = heldBy old) ∧ ∀ held, new = .working held → held = none := by
  cases h with
  | leaves _ => exact ⟨Or.inl rfl, by simp⟩
  | looks _ => exact ⟨Or.inr rfl, by simp⟩
  | asks => exact ⟨Or.inr rfl, by simp⟩
  | asksNothing =>
      exact ⟨Or.inr (heldBy_choose _ _ _ _), fun held heq => (choose_working heq).2⟩
  | answered =>
      exact ⟨Or.inr (heldBy_choose _ _ _ _), fun held heq => (choose_working heq).2⟩
  | wakes => exact ⟨Or.inr rfl, by simp⟩
  | quits => exact ⟨Or.inl rfl, by simp⟩
  | sends => cases hquiet
  | replied => cases hquiet
  | loads => exact ⟨Or.inr rfl, by simp⟩
  | loadsOlder => exact ⟨Or.inr rfl, by simp⟩
  | stores => exact ⟨Or.inr rfl, by simp⟩
  | repeats => exact ⟨Or.inr rfl, by simp⟩
  | returns => exact ⟨Or.inr rfl, by simp⟩
  | panics _ => cases hquiet

theorem slotStep_kept {event : SlotEvent} (hquiet : isQuiet event = true)
    (hs : s.slotStep i event = some t) : Kept s t i := by
  have hmove := slotStep_move hs
  obtain ⟨hheld, hworking⟩ := moves_kept hquiet hmove.moves
  exact ⟨hmove.others, hheld, hworking⟩

end Steps

/-! ## The invariant -/

/-- The claim id was sent by this slot alone, and no answer has resolved it. -/
def Belongs (i : ℕ) (claimId : Uuid) (log : List Obs) : Prop :=
  .sent i claimId ∈ log ∧ (∀ j, .sent j claimId ∈ log → j = i) ∧
    ∀ j reply, .answered j claimId reply ∈ log → unresolved reply = true

structure Inv (s : Sys) : Prop where
  held : ∀ i claimId, heldBy (s.base.slots i) = some claimId → Belongs i claimId s.log
  tracks : ∀ i, s.base.slots i ≠ .left → holdsOf i s.log = heldBy (s.base.slots i)
  working : ∀ i held, s.base.slots i = .working held → held = none
  answered : ∀ i claimId reply, .answered i claimId reply ∈ s.log → ∃ j, .sent j claimId ∈ s.log
  repeats : Always RepeatsUnresolved s.log
  keeps : Always KeepsUnresolved s.log

def Obs.slot : Obs → ℕ
  | .sent slot _ => slot
  | .answered slot _ _ => slot
  | .reads slot => slot
  | .panicked slot => slot

theorem holdsAfter_other {obs : Obs} {i : ℕ} (h : obs.slot ≠ i) (held : Option Uuid) :
    holdsAfter i held obs = held := by
  cases obs with
  | sent j claimId => exact if_neg h
  | answered j claimId reply => exact if_neg h
  | reads j => rfl
  | panicked j => exact if_neg h

theorem Belongs.snoc {i : ℕ} {claimId : Uuid} {log : List Obs} {obs : Obs}
    (h : Belongs i claimId log) (hsent : ∀ j, obs = .sent j claimId → j = i)
    (hanswered : ∀ j reply, obs = .answered j claimId reply → unresolved reply = true) :
    Belongs i claimId (log ++ [obs]) := by
  obtain ⟨hmem, hown, hopen⟩ := h
  refine ⟨List.mem_append_left _ hmem, ?_, ?_⟩
  · intro j hj
    rcases List.mem_append.mp hj with hj | hj
    · exact hown j hj
    · exact hsent j (List.mem_singleton.mp hj).symm
  · intro j reply hj
    rcases List.mem_append.mp hj with hj | hj
    · exact hopen j reply hj
    · exact hanswered j reply (List.mem_singleton.mp hj).symm

/-- A claim id belongs to one slot. -/
theorem Belongs.unique {i j : ℕ} {claimId : Uuid} {log : List Obs}
    (hi : Belongs i claimId log) (hj : Belongs j claimId log) : i = j :=
  hj.2.1 i hi.1

namespace Inv

variable {s : Sys} {t : Toolkit.Sys} {i : ℕ}

/-- A step that one slot takes and tells of. -/
theorem snoc (inv : Inv s) {obs : Obs} (hothers : ∀ j, j ≠ i → t.slots j = s.base.slots j)
    (hslot : obs.slot = i)
    (hown : ∀ claimId, heldBy (t.slots i) = some claimId → Belongs i claimId (s.log ++ [obs]))
    (hfree : ∀ j claimId, j ≠ i → Belongs j claimId s.log →
      (∀ k, obs ≠ .sent k claimId) ∧ ∀ k reply, obs ≠ .answered k claimId reply)
    (htracks : t.slots i ≠ .left →
      holdsAfter i (holdsOf i s.log) obs = heldBy (t.slots i))
    (hworking : ∀ held, t.slots i = .working held → held = none)
    (hanswered : ∀ j claimId reply, obs = .answered j claimId reply →
      ∃ k, .sent k claimId ∈ s.log)
    (hrepeats : RepeatsUnresolved s.log obs) (hkeeps : KeepsUnresolved s.log obs) :
    Inv ⟨t, s.log ++ [obs]⟩ := by
  refine ⟨?_, ?_, ?_, ?_, always_snoc.mpr ⟨inv.repeats, hrepeats⟩,
    always_snoc.mpr ⟨inv.keeps, hkeeps⟩⟩
  · intro j claimId hheld
    by_cases hj : j = i
    · subst hj
      exact hown claimId hheld
    · rw [show t.slots j = s.base.slots j from hothers j hj] at hheld
      have hbelongs := inv.held j claimId hheld
      obtain ⟨hsent, hans⟩ := hfree j claimId hj hbelongs
      exact hbelongs.snoc (fun k hk => absurd hk (hsent k))
        fun k reply hk => absurd hk (hans k reply)
  · intro j hleft
    rw [holdsOf_snoc]
    by_cases hj : j = i
    · subst hj
      exact htracks hleft
    · rw [holdsAfter_other (by rw [hslot]; exact Ne.symm hj)]
      rw [show t.slots j = s.base.slots j from hothers j hj] at hleft ⊢
      exact inv.tracks j hleft
  · intro j held hheld
    by_cases hj : j = i
    · subst hj
      exact hworking held hheld
    · rw [show t.slots j = s.base.slots j from hothers j hj] at hheld
      exact inv.working j held hheld
  · intro j claimId reply hmem
    have hold : ∃ k, .sent k claimId ∈ s.log := by
      rcases List.mem_append.mp hmem with hmem | hmem
      · exact inv.answered j claimId reply hmem
      · exact hanswered j claimId reply (List.mem_singleton.mp hmem).symm
    obtain ⟨k, hk⟩ := hold
    exact ⟨k, List.mem_append_left _ hk⟩

/-- A step of one slot that is not told. -/
theorem silent (inv : Inv s) (hkept : Kept s.base t i) (hleft : s.base.slots i ≠ .left) :
    Inv ⟨t, s.log⟩ := by
  have hheld : ∀ j, t.slots j = .left ∨ heldBy (t.slots j) = heldBy (s.base.slots j) := by
    intro j
    by_cases hj : j = i
    · subst hj
      exact hkept.held
    · exact Or.inr (by rw [hkept.others j hj])
  refine ⟨?_, ?_, ?_, inv.answered, inv.repeats, inv.keeps⟩
  · intro j claimId hj
    rcases hheld j with hl | hsame
    · rw [show t.slots j = .left from hl] at hj
      cases hj
    · exact inv.held j claimId (hsame ▸ hj)
  · intro j hj
    rcases hheld j with hl | hsame
    · exact absurd hl hj
    · rw [hsame]
      refine inv.tracks j fun hl => ?_
      by_cases hji : j = i
      · exact hleft (hji ▸ hl)
      · exact hj ((hkept.others j hji).trans hl)
  · intro j held hj
    by_cases hji : j = i
    · subst hji
      exact hkept.working held hj
    · exact inv.working j held ((hkept.others j hji).symm.trans hj)

/-- The slot goes on to the trigger feed. -/
theorem reads (inv : Inv s) (hkept : Kept s.base t i) (hleft : s.base.slots i ≠ .left)
    {held : Option Uuid} (hworking : t.slots i = .working held) :
    Inv ⟨t, s.log ++ [.reads i]⟩ := by
  have hsilent := inv.silent hkept hleft
  have hnone : held = none := hsilent.working i held hworking
  subst hnone
  have hholds : holdsOf i s.log = none := by
    have htracks := hsilent.tracks i (by rw [hworking]; exact Slot.noConfusion)
    rw [show holdsOf i s.log = _ from htracks, hworking]
    rfl
  refine inv.snoc hkept.others rfl ?_ ?_ ?_ ?_ ?_ ?_ ?_
  · intro claimId hheld
    rw [hworking] at hheld
    cases hheld
  · intro j claimId _ _
    exact ⟨fun k => Obs.noConfusion, fun k reply => Obs.noConfusion⟩
  · intro _
    rw [hworking]
    exact hholds
  · intro held hheld
    rw [hworking] at hheld
    cases hheld
    rfl
  · intro j claimId reply h
    cases h
  · intro j claimId h
    cases h
  · refine ⟨fun j claimId h => (by cases h), fun j h => ?_⟩
    cases h
    exact hholds

theorem panicked (inv : Inv s) (hothers : ∀ j, j ≠ i → t.slots j = s.base.slots j)
    (htop : t.slots i = .top none) : Inv ⟨t, s.log ++ [.panicked i]⟩ := by
  refine inv.snoc hothers rfl ?_ ?_ ?_ ?_ ?_ ?_ ?_
  · intro claimId hheld
    rw [htop] at hheld
    cases hheld
  · intro j claimId _ _
    exact ⟨fun k => Obs.noConfusion, fun k reply => Obs.noConfusion⟩
  · intro _
    rw [htop]
    exact if_pos rfl
  · intro held hheld
    rw [htop] at hheld
    cases hheld
  · intro j claimId reply h
    cases h
  · intro j claimId h
    cases h
  · exact ⟨fun j claimId h => (by cases h), fun j h => (by cases h)⟩

/-- A fresh claim id, or the one that the slot holds, is sent. -/
theorem sent (inv : Inv s) {held : Option Uuid} {fresh : Uuid} {claim : ℕ} {epoch : Epoch}
    (hothers : ∀ j, j ≠ i → t.slots j = s.base.slots j)
    (hclaiming : s.base.slots i = .claiming held)
    (hsent : t.slots i = .sent (held.getD fresh) claim epoch)
    (hfresh : ∀ j, .sent j fresh ∉ s.log) :
    Inv ⟨t, s.log ++ [.sent i (held.getD fresh)]⟩ := by
  -- the claim id belongs to the slot, or nothing was logged of it
  have hcase : Belongs i (held.getD fresh) s.log ∨ ∀ j, .sent j (held.getD fresh) ∉ s.log := by
    cases held with
    | none => exact Or.inr hfresh
    | some claimId =>
        exact Or.inl (inv.held i claimId (by rw [hclaiming]; rfl))
  have hopen : ∀ j reply, .answered j (held.getD fresh) reply ∈ s.log →
      unresolved reply = true := by
    intro j reply hmem
    rcases hcase with hbelongs | hnew
    · exact hbelongs.2.2 j reply hmem
    · obtain ⟨k, hk⟩ := inv.answered j _ reply hmem
      exact absurd hk (hnew k)
  refine inv.snoc hothers rfl ?_ ?_ ?_ ?_ ?_ ?_ ?_
  · intro claimId hheld
    rw [hsent] at hheld
    cases hheld
    refine ⟨List.mem_append_right _ (List.mem_singleton_self _), ?_, ?_⟩
    · intro j hj
      rcases List.mem_append.mp hj with hj | hj
      · rcases hcase with hbelongs | hnew
        · exact hbelongs.2.1 j hj
        · exact absurd hj (hnew j)
      · cases List.mem_singleton.mp hj
        rfl
    · intro j reply hj
      rcases List.mem_append.mp hj with hj | hj
      · exact hopen j reply hj
      · cases List.mem_singleton.mp hj
  · intro j claimId hj hbelongs
    refine ⟨?_, fun k reply => Obs.noConfusion⟩
    intro k hk
    cases hk
    rcases hcase with hown | hnew
    · exact hj (hbelongs.unique hown)
    · exact hnew j hbelongs.1
  · intro _
    rw [hsent]
    exact if_pos rfl
  · intro working hworking
    rw [hsent] at hworking
    cases hworking
  · intro j claimId reply h
    cases h
  · intro j claimId h
    cases h
    exact hopen
  · refine ⟨?_, fun j h => by cases h⟩
    intro j claimId h kept hkept
    cases h
    rw [inv.tracks i (by rw [hclaiming]; exact Slot.noConfusion), hclaiming] at hkept
    cases (show held = some kept from hkept)
    rfl

/-- A claim is answered. -/
theorem replied (inv : Inv s) {claimId : Uuid} {claim : ℕ} {epoch : Epoch}
    {reply : Except Error (Option Parsed)}
    (hothers : ∀ j, j ≠ i → t.slots j = s.base.slots j)
    (hsent : s.base.slots i = .sent claimId claim epoch)
    (hreply : t.slots i = Slot.reply claimId claim epoch (toReply reply)) :
    Inv ⟨t, s.log ++ [.answered i claimId reply]⟩ := by
  have hbelongs : Belongs i claimId s.log := inv.held i claimId (by rw [hsent]; rfl)
  have hheldBy : heldBy (t.slots i) = if unresolved reply then some claimId else none := by
    rw [hreply]
    exact heldBy_reply claimId claim epoch reply
  refine inv.snoc hothers rfl ?_ ?_ ?_ ?_ ?_ ?_ ?_
  · intro kept hkept
    rw [hheldBy] at hkept
    split at hkept
    · rename_i hunresolved
      cases hkept
      refine hbelongs.snoc (fun j h => by cases h) fun j other h => ?_
      cases h
      exact hunresolved
    · cases hkept
  · intro j other hj hother
    refine ⟨fun k => Obs.noConfusion, fun k answer h => ?_⟩
    cases h
    exact hj (hother.unique hbelongs)
  · intro _
    rw [hheldBy]
    exact if_pos rfl
  · intro held hheld
    exact reply_not_working claimId claim epoch _ (hreply.symm.trans hheld)
  · intro j other answer h
    cases h
    exact ⟨i, hbelongs.1⟩
  · intro j other h
    cases h
  · exact ⟨fun j other h => (by cases h), fun j h => (by cases h)⟩

end Inv

/-! ## The steps -/

section Run

variable {s t : Toolkit.Sys} {i : ℕ}

theorem slotStep_left {event : SlotEvent} (hs : s.slotStep i event = some t) :
    s.slots i ≠ .left := by
  intro hleft
  have hmoves := (slotStep_move hs).moves
  rw [hleft] at hmoves
  generalize t.slots i = new at hmoves
  cases hmoves with
  | panics hne => exact hne rfl

/-- A quiet step tells at most that the slot goes on to the triggers. -/
theorem told_quiet (s t : Toolkit.Sys) (i : ℕ) {event : SlotEvent}
    (hquiet : isQuiet event = true) :
    told s t (.slot i event) = [] ∨
      told s t (.slot i event) = [.reads i] ∧ ∃ held, t.slots i = .working held := by
  have hread : (match t.slots i with | .working _ => [Obs.reads i] | _ => []) = [] ∨
      (match t.slots i with | .working _ => [Obs.reads i] | _ => []) = [.reads i] ∧
        ∃ held, t.slots i = .working held := by
    split
    · rename_i held hslot
      exact Or.inr ⟨rfl, held, hslot⟩
    · exact Or.inl rfl
  cases event with
  | ask => exact hread
  | answer => exact hread
  | look => exact Or.inl rfl
  | wake => exact Or.inl rfl
  | stopLoad => exact Or.inl rfl
  | stopStore => exact Or.inl rfl
  | resume => exact Or.inl rfl
  | send fresh => cases hquiet
  | reply reply => cases hquiet
  | panic => cases hquiet

end Run

theorem Sys.Fresh.not_sent {s : Sys} {i : ℕ} {fresh : Uuid}
    (h : s.Fresh (.base (.slot i (.send fresh)))) (j : ℕ) : .sent j fresh ∉ s.log := by
  intro hmem
  have hne := List.all_eq_true.mp h _ hmem
  simp at hne

namespace Inv

variable {s : Sys} {t : Toolkit.Sys}

/-- A step that leaves the slots alone. -/
theorem aside (inv : Inv s) (h : t.slots = s.base.slots) : Inv ⟨t, s.log⟩ :=
  ⟨by rw [h]; exact inv.held, by rw [h]; exact inv.tracks, by rw [h]; exact inv.working,
    inv.answered, inv.repeats, inv.keeps⟩

theorem slotStep (inv : Inv s) {i : ℕ} {event : SlotEvent}
    (hfresh : s.Fresh (.base (.slot i event))) (hreply : isReply (.slot i event) = false)
    (hs : s.base.slotStep i event = some t) :
    Inv ⟨t, s.log ++ told s.base t (.slot i event)⟩ := by
  have hleft := slotStep_left hs
  by_cases hquiet : isQuiet event = true
  · have hkept := slotStep_kept hquiet hs
    rcases told_quiet s.base t i hquiet with htold | ⟨htold, held, hworking⟩
    · rw [htold, List.append_nil]
      exact inv.silent hkept hleft
    · rw [htold]
      exact inv.reads hkept hleft hworking
  · cases event with
    | send fresh =>
        simp only [Toolkit.Sys.slotStep] at hs
        split at hs <;> cases hs
        rename_i held hclaiming
        rw [show told s.base _ (.slot i (.send fresh)) = [.sent i (held.getD fresh)] by
          simp [told, hclaiming]]
        have hsent : (s.base.send i held fresh).slots i =
            .sent (held.getD fresh) s.base.claims s.base.modeEpoch := by
          simp [Toolkit.Sys.send, Toolkit.Sys.setSlot, Toolkit.Sys.observe]
        refine inv.sent ?_ hclaiming hsent hfresh.not_sent
        intro j hj
        exact Function.update_of_ne hj _ s.base.slots
    | panic =>
        have ht : t = s.base.setSlot i (.top none) := by
          simp only [Toolkit.Sys.slotStep] at hs
          exact (Option.some.inj hs).symm
        subst ht
        refine inv.panicked ?_ ?_
        · intro j hj
          exact Function.update_of_ne hj _ s.base.slots
        · simp [Toolkit.Sys.setSlot]
    | reply reply => cases hreply
    | look => exact absurd rfl hquiet
    | ask => exact absurd rfl hquiet
    | answer => exact absurd rfl hquiet
    | wake => exact absurd rfl hquiet
    | stopLoad => exact absurd rfl hquiet
    | stopStore => exact absurd rfl hquiet
    | resume => exact absurd rfl hquiet

theorem base (inv : Inv s) {event : Toolkit.Event} (hfresh : s.Fresh (.base event))
    (hreply : isReply event = false) (hs : s.base.step event = some t) :
    Inv ⟨t, s.log ++ told s.base t event⟩ := by
  cases event with
  | slot i event => exact inv.slotStep hfresh hreply hs
  | given mode =>
      simp only [Toolkit.Sys.step] at hs
      split at hs <;> cases hs
      exact (List.append_nil s.log).symm ▸ inv.aside rfl
  | publish =>
      obtain ⟨mode, -, rfl⟩ := Option.map_eq_some_iff.mp hs
      exact (List.append_nil s.log).symm ▸ inv.aside rfl
  | replay complete =>
      cases hs
      exact (List.append_nil s.log).symm ▸ inv.aside rfl
  | drain =>
      cases hs
      exact (List.append_nil s.log).symm ▸ inv.aside rfl

variable {w : ClaimWire} {wait : ℕ}

theorem step (inv : Inv s) {s' : Sys} {e : Event} (hfresh : s.Fresh e)
    (hs : ClaimIds.step w wait s e = some s') : Inv s' := by
  cases e with
  | base event =>
      simp only [ClaimIds.step] at hs
      split at hs
      · cases hs
      · rename_i hreply
        obtain ⟨t, ht, rfl⟩ := Option.map_eq_some_iff.mp hs
        exact inv.base hfresh (Bool.not_eq_true _ ▸ hreply) ht
  | answer i answer =>
      simp only [ClaimIds.step] at hs
      split at hs
      · rename_i claimId claim epoch hsent
        obtain ⟨t, ht, rfl⟩ := Option.map_eq_some_iff.mp hs
        have hstep : t = s.base.setSlot i
            (Slot.reply claimId claim epoch (toReply (w.claim claimId wait answer))) := by
          simp only [Toolkit.Sys.step, Toolkit.Sys.slotStep, hsent] at ht
          exact (Option.some.inj ht).symm
        subst hstep
        refine inv.replied ?_ hsent ?_
        · intro j hj
          exact Function.update_of_ne hj _ s.base.slots
        · simp [Toolkit.Sys.setSlot]
      · cases hs

theorem reach (h : (machine w wait).Reach Sys.Fresh s) : Inv s := by
  refine h.invariant ?_ fun _ inv hfresh hs => inv.step hfresh hs
  refine ⟨?_, ?_, ?_, ?_, always_nil, always_nil⟩
  · intro i claimId hheld
    cases hheld
  · intro i _
    rfl
  · intro i held hheld
    cases hheld
  · intro i claimId reply hmem
    cases hmem

end Inv

/-! ## Results -/

section Results

variable (w : ClaimWire) (wait : ℕ)

/-- A claim id is sent again only while each answer to it has left it unresolved, and
a slot that holds an unresolved one does nothing else. -/
theorem claim_ids {s : Sys} (h : (machine w wait).Reach Sys.Fresh s) :
    Always RepeatsUnresolved s.log ∧ Always KeepsUnresolved s.log :=
  ⟨(Inv.reach h).repeats, (Inv.reach h).keeps⟩

end Results

/-! ## An unreadable reply

A reply of jobs that gives a run the contract cannot read keeps the claim id as well.
-/

/-- The bytes of an object with an empty run in it. -/
def emptyRun : List UInt8 := [123, 34, 114, 117, 110, 34, 58, 123, 125, 125]

def sampleWire : ClaimWire where
  fromSlice raw :=
    if raw = emptyRun then .ok (.object [("run", .object [])]) else .error ⟨.eof, 1, 0⟩
  trigger _ := .error ⟨.data, 0, 0⟩
  readsPassport _ := false
  reply _ := .ok ⟨none, none⟩
  parseUuid _ := none

/-- The claims are let through, and slot 0 claims. -/
def claiming (fresh : Uuid) : List Event :=
  [.base (.slot 0 .look), .base (.slot 0 .ask), .base (.slot 0 .answer),
    .base (.slot 0 (.send fresh))]

def unreadableRun : List Event :=
  [.base (.given .claim), .base .publish, .base (.replay true)] ++ claiming 7 ++
    [.answer 0 (.ok emptyRun), .base (.slot 0 .resume)] ++ claiming 8

theorem claim_ids_unreadableRun :
    ∃ s, (machine sampleWire 30).Reach Sys.Fresh s ∧
      (Always RepeatsUnresolved s.log ∧ Always KeepsUnresolved s.log) ∧
      s.log = [.sent 0 7, .answered 0 7 (sampleWire.claim 7 30 (.ok emptyRun)), .sent 0 7] := by
  have h : (machine sampleWire 30).Reach (fun s e => s.isFresh e = true) _ :=
    Machine.reach_of_checked unreadableRun rfl
  exact ⟨_, h, claim_ids sampleWire 30 h, rfl⟩

/-- What leaves a claim id unresolved when an unreadable reply does not. -/
def unresolvedUnlessRead : Except Error (Option Parsed) → Bool
  | .error (.unreadable _) => false
  | reply => unresolved reply

def RepeatsUnlessRead (pre : List Obs) (obs : Obs) : Prop :=
  ∀ i claimId, obs = .sent i claimId →
    ∀ j reply, .answered j claimId reply ∈ pre → unresolvedUnlessRead reply = true

theorem unreadable_repeats :
    ∃ s, (machine sampleWire 30).run unreadableRun = some s ∧
      ¬ Always RepeatsUnlessRead s.log := by
  refine ⟨_, rfl, fun h => ?_⟩
  have hlast := h [.sent 0 7, .answered 0 7 (sampleWire.claim 7 30 (.ok emptyRun))]
    (.sent 0 7) [] rfl 0 7 rfl 0 _ (List.mem_cons_of_mem _ (List.mem_singleton_self _))
  exact absurd hlast (by decide)

end RunnerKit.Toolkit.ClaimIds
