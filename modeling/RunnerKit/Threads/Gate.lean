import RunnerKit.Lib.Log
import RunnerKit.Lib.Rely
import RunnerKit.Threads.Handle

/-!
# What the gate of a handle keeps

The log of a handle is in order if each entry agrees with those before it: a
chunk is taken with the next number, while nothing is on its way and no closing
stands, and so on (`Ordered`). The gate carries the argument. Whoever holds it
may rely on the chunks, the flag of a broken handle and the set of closings;
whoever has begun a closing may rely on the flag of it.
-/

namespace RunnerKit.Threads.Stream

open Lib

variable {β : Type}

/-! ## Reading the log -/

def Obs.chunk? : Obs β → Option (Chunk β)
  | .taken _ _ chunk => some chunk
  | _ => none

/-- What calls log that do not hold the gate. -/
def Obs.apart : Obs β → Bool
  | .called .. | .settled .. | .ended .. => true
  | _ => false

section Log

/-- The chunks taken, in the order they were taken. -/
def takenChunks (log : List (Obs β)) : List (Chunk β) := log.filterMap Obs.chunk?

def AllAcked (log : List (Obs β)) : Prop :=
  ∀ seq < (takenChunks log).length, .acked seq ∈ log

/-- The publish of a chunk failed or was dropped. -/
def Broke (log : List (Obs β)) : Prop := ∃ seq, .broke seq ∈ log

/-- The closing was refused or did not reach Threads. -/
def Undone (log : List (Obs β)) (id : ℕ) : Prop :=
  .settled id (some .refused) ∈ log ∨ .settled id none ∈ log

def AllUndone (log : List (Obs β)) : Prop :=
  ∀ i id kind command, .sent i id kind command ∈ log → Undone log id

def SomeConfirmed (log : List (Obs β)) : Prop :=
  ∃ id, .settled id (some .confirmed) ∈ log

/-- The call began after a closing was confirmed. -/
def Late (i : ℕ) (log : List (Obs β)) : Prop :=
  ∃ before op after, log = before ++ .called i op :: after ∧ SomeConfirmed before

end Log

/-- The call is a closing that the checks refuse before they look at the
handle, and ends as invalid. -/
def Rejected (handle : Handle β) (op : Op β) (result : Except Error (Option Outcome)) :
    Prop :=
  ∃ closing reason, op = .close closing ∧
    handle.precheck closing = .error (.invalid reason) ∧ result = .error (.invalid reason)

def Ordered (handle : Handle β) (pre : List (Obs β)) : Obs β → Prop
  | .taken i seq _ =>
      seq = (takenChunks pre).length ∧ AllAcked pre ∧ ¬ Broke pre ∧ AllUndone pre ∧
        ¬ Late i pre
  | .sent i _ kind command =>
      ¬ Late i pre ∧ (kind = .completed → ¬ Broke pre) ∧
        ∀ streamSeal, command.body.streamSeal? = some streamSeal →
          sealOf handle.lib (takenChunks pre) = .ok streamSeal ∧ AllAcked pre
  | .ended i op result =>
      Late i pre → result = .error .streamClosed ∨ Rejected handle op result
  | _ => True

section Log

variable {log more : List (Obs β)}

@[simp] theorem takenChunks_append (log more : List (Obs β)) :
    takenChunks (log ++ more) = takenChunks log ++ takenChunks more :=
  List.filterMap_append

@[simp] theorem takenChunks_nil : takenChunks ([] : List (Obs β)) = [] := rfl

@[simp] theorem takenChunks_cons (obs : Obs β) (log : List (Obs β)) :
    takenChunks (obs :: log) = obs.chunk?.toList ++ takenChunks log := by
  cases h : obs.chunk? <;> simp [takenChunks, h]

theorem takenChunks_apart (h : ∀ x ∈ more, x.apart = true) : takenChunks more = [] := by
  refine List.filterMap_eq_nil_iff.mpr fun x hx => ?_
  have hapart := h x hx
  cases x <;> first | rfl | cases hapart

theorem AllAcked.append (h : AllAcked log) (hmore : takenChunks more = []) :
    AllAcked (log ++ more) := by
  intro seq hseq
  rw [takenChunks_append, hmore, List.append_nil] at hseq
  exact List.mem_append_left _ (h seq hseq)

theorem Undone.append {id : ℕ} (h : Undone log id) : Undone (log ++ more) id :=
  h.imp (List.mem_append_left _) (List.mem_append_left _)

theorem AllUndone.append_apart (h : AllUndone log) (hmore : ∀ x ∈ more, x.apart = true) :
    AllUndone (log ++ more) := by
  intro i id kind command hmem
  rcases List.mem_append.mp hmem with hmem | hmem
  · exact (h i id kind command hmem).append
  · cases hmore _ hmem

theorem Late.append {i : ℕ} (h : Late i log) : Late i (log ++ more) := by
  obtain ⟨before, op, after, rfl, hconf⟩ := h
  exact ⟨before, op, after ++ more, by simp, hconf⟩

/-- A call that has begun in time is not late afterwards. -/
theorem not_late_append {i : ℕ} (h : ¬ Late i log) (hmore : ∀ op, .called i op ∉ more) :
    ¬ Late i (log ++ more) := by
  rintro ⟨before, op, after, heq, hconf⟩
  rcases List.append_eq_append_iff.mp heq with ⟨rest, hbefore, hmid⟩ | ⟨rest, hlog, hmid⟩
  · exact hmore op (hmid ▸ by simp)
  · cases rest with
    | nil => exact hmore op (by simp at hmid; simp [← hmid])
    | cons x rest =>
        obtain ⟨rfl, -⟩ : Obs.called i op = x ∧ _ := by simpa using hmid
        exact h ⟨before, op, rest, hlog, hconf⟩

theorem not_late_of_none (h : ¬ SomeConfirmed log) (i : ℕ) : ¬ Late i log := by
  rintro ⟨before, op, after, rfl, id, hmem⟩
  exact h ⟨id, List.mem_append_left _ hmem⟩

end Log

/-! ## The protocol -/

structure Inv (handle : Handle β) (s : Core β) : Prop where
  chunks : takenChunks s.log = s.chunks
  broken : s.broken = false → ¬ Broke s.log
  free : s.gate = none → s.broken = false → AllAcked s.log
  sent : ∀ i id kind command, .sent i id kind command ∈ s.log → id < s.nextClosing
  owner : ∀ i j id kind kind' command command', .sent i id kind command ∈ s.log →
    .sent j id kind' command' ∈ s.log → i = j
  removed : ∀ id < s.nextClosing, s.closings id = none → .settled id none ∈ s.log
  refused : ∀ id, s.closings id = some .refused → .settled id (some .refused) ∈ s.log
  confirmed : ∀ id, .settled id (some .confirmed) ∈ s.log →
    id < s.nextClosing ∧ s.closings id = some .confirmed
  ordered : Always (Ordered handle) s.log

/-- What the call `i` relies on. -/
structure Relies (i : ℕ) (s t : Core β) : Prop where
  log : ∃ more, t.log = s.log ++ more ∧ (∀ op, .called i op ∉ more) ∧
    (s.gate = some i → ∀ x ∈ more, x.apart = true)
  gate : t.gate = some i ↔ s.gate = some i
  held : s.gate = some i →
    t.chunks = s.chunks ∧ t.broken = s.broken ∧ t.nextClosing = s.nextClosing
  mine : ∀ id kind command, .sent i id kind command ∈ s.log → t.closings id = s.closings id

theorem Relies.refl (i : ℕ) (s : Core β) : Relies i s s where
  log := ⟨[], by simp⟩
  gate := Iff.rfl
  held := fun _ => ⟨rfl, rfl, rfl⟩
  mine := fun _ _ _ _ => rfl

theorem Relies.trans {i : ℕ} {s t u : Core β} (h : Relies i s t) (h' : Relies i t u) :
    Relies i s u where
  log := by
    obtain ⟨more, hlog, hcalled, hapart⟩ := h.log
    obtain ⟨more', hlog', hcalled', hapart'⟩ := h'.log
    refine ⟨more ++ more', by rw [hlog', hlog, List.append_assoc], ?_, ?_⟩
    · intro op hmem
      exact (List.mem_append.mp hmem).elim (hcalled op) (hcalled' op)
    · intro hgate x hx
      exact (List.mem_append.mp hx).elim (hapart hgate x) (hapart' (h.gate.mpr hgate) x)
  gate := h'.gate.trans h.gate
  held := by
    intro hgate
    obtain ⟨hchunks, hbroken, hnext⟩ := h.held hgate
    obtain ⟨hchunks', hbroken', hnext'⟩ := h'.held (h.gate.mpr hgate)
    exact ⟨hchunks'.trans hchunks, hbroken'.trans hbroken, hnext'.trans hnext⟩
  mine := by
    intro id kind command hmem
    obtain ⟨more, hlog, -⟩ := h.log
    have hmem' : .sent i id kind command ∈ t.log := hlog ▸ List.mem_append_left _ hmem
    exact (h'.mine id kind command hmem').trans (h.mine id kind command hmem)

def gateProtocol (handle : Handle β) : Protocol (Core β) where
  inv := Inv handle
  rely := Relies
  refl := Relies.refl
  trans := Relies.trans

/-! ## The invariant over one action -/

/-- What neither takes a chunk nor changes a closing. -/
def Obs.quiet : Obs β → Bool
  | .called .. | .acked .. | .ended .. => true
  | _ => false

section Steps

variable {handle : Handle β} {s s' : Core β} {i : ℕ}

theorem inv_init (handle : Handle β) : Inv handle Core.init where
  chunks := rfl
  broken := by simp [Core.init, Broke]
  free := by simp [Core.init, AllAcked]
  sent := by simp [Core.init]
  owner := by simp [Core.init]
  removed := by simp [Core.init]
  refused := by simp [Core.init]
  confirmed := by simp [Core.init]
  ordered := always_nil

theorem Inv.gateOnly (h : Inv handle s) (gate : Option ℕ)
    (hfree : gate = none → s.broken = false → AllAcked s.log) :
    Inv handle { s with gate := gate } where
  chunks := h.chunks
  broken := h.broken
  free := hfree
  sent := h.sent
  owner := h.owner
  removed := h.removed
  refused := h.refused
  confirmed := h.confirmed
  ordered := h.ordered

theorem Inv.note (h : Inv handle s) {obs : Obs β} (hquiet : obs.quiet = true)
    (hordered : Ordered handle s.log obs) : Inv handle (s.observe obs) := by
  have hchunk : takenChunks [obs] = [] := by cases obs <;> first | rfl | cases hquiet
  have hbroke : ∀ seq, obs ≠ .broke seq := by rintro seq rfl; cases hquiet
  have hsent : ∀ i id kind command, obs ≠ .sent i id kind command := by
    rintro i id kind command rfl
    cases hquiet
  have hsettled : ∀ id outcome, obs ≠ .settled id outcome := by
    rintro id outcome rfl
    cases hquiet
  have hmem : ∀ {x}, obs ≠ x → x ∈ s.log ++ [obs] → x ∈ s.log := by
    intro x hne hx
    simpa [hne.symm] using hx
  constructor
  · show takenChunks (s.log ++ [obs]) = s.chunks
    rw [takenChunks_append, hchunk, List.append_nil]
    exact h.chunks
  · rintro hb ⟨seq, hseq⟩
    exact h.broken hb ⟨seq, hmem (hbroke seq) hseq⟩
  · exact fun hgate hb => (h.free hgate hb).append hchunk
  · exact fun i id kind command hx => h.sent i id kind command (hmem (hsent i id kind command) hx)
  · intro i j id kind kind' command command' hx hx'
    exact h.owner i j id kind kind' command command' (hmem (hsent i id kind command) hx)
      (hmem (hsent j id kind' command') hx')
  · exact fun id hid hnone => List.mem_append_left _ (h.removed id hid hnone)
  · exact fun id href => List.mem_append_left _ (h.refused id href)
  · exact fun id hx => h.confirmed id (hmem (hsettled id _) hx)
  · exact always_snoc.mpr ⟨h.ordered, hordered⟩

theorem Inv.take (h : Inv handle s) (hgate : s.gate = some i) {seq : ℕ} {chunk : Chunk β}
    (hordered : Ordered handle s.log (.taken i seq chunk)) :
    Inv handle (s.take i seq chunk) where
  chunks := by
    show takenChunks (s.log ++ [.taken i seq chunk]) = s.chunks ++ [chunk]
    rw [takenChunks_append, h.chunks]
    rfl
  broken := by
    rintro hb ⟨k, hk⟩
    exact h.broken hb ⟨k, by simpa [Core.take, Core.observe] using hk⟩
  free := by
    intro hnone
    cases hgate.symm.trans hnone
  sent := by
    intro j id kind command hx
    exact h.sent j id kind command (by simpa [Core.take, Core.observe] using hx)
  owner := by
    intro j k id kind kind' command command' hx hx'
    exact h.owner j k id kind kind' command command'
      (by simpa [Core.take, Core.observe] using hx)
      (by simpa [Core.take, Core.observe] using hx')
  removed := fun id hid hnone => List.mem_append_left _ (h.removed id hid hnone)
  refused := fun id href => List.mem_append_left _ (h.refused id href)
  confirmed := fun id hx =>
    h.confirmed id (by simpa [Core.take, Core.observe] using hx)
  ordered := always_snoc.mpr ⟨h.ordered, hordered⟩

theorem Inv.breakHandle (h : Inv handle s) (seq : ℕ) : Inv handle (s.breakHandle seq) where
  chunks := by
    show takenChunks (s.log ++ [.broke seq]) = s.chunks
    rw [takenChunks_append, h.chunks]
    exact List.append_nil _
  broken := fun hb => nomatch hb
  free := fun _ hb => nomatch hb
  sent := by
    intro j id kind command hx
    exact h.sent j id kind command (by simpa [Core.breakHandle, Core.observe] using hx)
  owner := by
    intro j k id kind kind' command command' hx hx'
    exact h.owner j k id kind kind' command command'
      (by simpa [Core.breakHandle, Core.observe] using hx)
      (by simpa [Core.breakHandle, Core.observe] using hx')
  removed := fun id hid hnone => List.mem_append_left _ (h.removed id hid hnone)
  refused := fun id href => List.mem_append_left _ (h.refused id href)
  confirmed := fun id hx =>
    h.confirmed id (by simpa [Core.breakHandle, Core.observe] using hx)
  ordered := always_snoc.mpr ⟨h.ordered, trivial⟩

theorem Inv.beginClosing (h : Inv handle s) (hgate : s.gate = some i) {kind : ClosureKind}
    {command : Command β}
    (hordered : Ordered handle s.log (.sent i s.nextClosing kind command)) :
    Inv handle (s.beginClosing i kind command) := by
  have hold : ∀ {id}, id ≠ s.nextClosing →
      (s.beginClosing i kind command).closings id = s.closings id :=
    fun hne => Function.update_of_ne hne _ _
  have hnew : (s.beginClosing i kind command).closings s.nextClosing = some .waiting :=
    Function.update_self ..
  constructor
  · show takenChunks (s.log ++ [.sent i s.nextClosing kind command]) = s.chunks
    rw [takenChunks_append, h.chunks]
    exact List.append_nil _
  · rintro hb ⟨k, hk⟩
    exact h.broken hb ⟨k, by simpa [Core.beginClosing, Core.observe] using hk⟩
  · intro hnone
    cases hgate.symm.trans hnone
  · intro j id kind' command' hx
    rcases List.mem_append.mp hx with hx | hx
    · exact Nat.lt_succ_of_lt (h.sent j id kind' command' hx)
    · cases List.mem_singleton.mp hx
      exact Nat.lt_succ_self _
  · intro j k id kind₁ kind₂ command₁ command₂ hx hx'
    rcases List.mem_append.mp hx with hx | hx <;>
      rcases List.mem_append.mp hx' with hx' | hx'
    · exact h.owner j k id kind₁ kind₂ command₁ command₂ hx hx'
    · cases List.mem_singleton.mp hx'
      exact absurd (h.sent j _ kind₁ command₁ hx) (Nat.lt_irrefl _)
    · cases List.mem_singleton.mp hx
      exact absurd (h.sent k _ kind₂ command₂ hx') (Nat.lt_irrefl _)
    · cases List.mem_singleton.mp hx
      cases List.mem_singleton.mp hx'
      rfl
  · intro id hid hnone
    by_cases hne : id = s.nextClosing
    · rw [hne, hnew] at hnone
      cases hnone
    · rw [hold hne] at hnone
      have hlt : id < s.nextClosing := Nat.lt_of_le_of_ne (Nat.lt_succ_iff.mp hid) hne
      exact List.mem_append_left _ (h.removed id hlt hnone)
  · intro id href
    by_cases hne : id = s.nextClosing
    · rw [hne, hnew] at href
      cases href
    · rw [hold hne] at href
      exact List.mem_append_left _ (h.refused id href)
  · intro id hx
    obtain ⟨hlt, hconf⟩ := h.confirmed id (by simpa [Core.beginClosing, Core.observe] using hx)
    exact ⟨Nat.lt_succ_of_lt hlt, (hold (Nat.ne_of_lt hlt)).trans hconf⟩
  · exact always_snoc.mpr ⟨h.ordered, hordered⟩

theorem Inv.settle (h : Inv handle s) {id : ℕ} {outcome : Option Flag}
    (hlt : id < s.nextClosing) (hwaiting : s.closings id = some .waiting) :
    Inv handle (s.settle id outcome) := by
  have hold : ∀ {k}, k ≠ id → (s.settle id outcome).closings k = s.closings k :=
    fun hne => Function.update_of_ne hne _ _
  have hnew : (s.settle id outcome).closings id = outcome := Function.update_self ..
  have hsettled : .settled id outcome ∈ (s.settle id outcome).log := by
    simp [Core.settle, Core.observe]
  constructor
  · show takenChunks (s.log ++ [.settled id outcome]) = s.chunks
    rw [takenChunks_append, h.chunks]
    exact List.append_nil _
  · rintro hb ⟨k, hk⟩
    exact h.broken hb ⟨k, by simpa [Core.settle, Core.observe] using hk⟩
  · exact fun hgate hb => (h.free hgate hb).append rfl
  · intro j k kind command hx
    exact h.sent j k kind command (by simpa [Core.settle, Core.observe] using hx)
  · intro j k id' kind kind' command command' hx hx'
    exact h.owner j k id' kind kind' command command'
      (by simpa [Core.settle, Core.observe] using hx)
      (by simpa [Core.settle, Core.observe] using hx')
  · intro k hk hnone
    by_cases hne : k = id
    · subst hne
      rw [hnew] at hnone
      exact hnone ▸ hsettled
    · rw [hold hne] at hnone
      exact List.mem_append_left _ (h.removed k hk hnone)
  · intro k href
    by_cases hne : k = id
    · subst hne
      rw [hnew] at href
      exact href ▸ hsettled
    · rw [hold hne] at href
      exact List.mem_append_left _ (h.refused k href)
  · intro k hx
    rcases List.mem_append.mp hx with hx | hx
    · obtain ⟨hk, hconf⟩ := h.confirmed k hx
      have hne : k ≠ id := by
        rintro rfl
        cases hwaiting.symm.trans hconf
      exact ⟨hk, (hold hne).trans hconf⟩
    · cases List.mem_singleton.mp hx
      exact ⟨hlt, hnew⟩
  · exact always_snoc.mpr ⟨h.ordered, trivial⟩

/-- A step of the holder of the gate that leaves the earlier closings alone. -/
theorem good_holding (h : Inv handle s) (hgate : s.gate = some i)
    (hgate' : s'.gate = some i ∨ s'.gate = none) {more : List (Obs β)}
    (hlog : s'.log = s.log ++ more) (hcalled : ∀ j op, .called j op ∉ more)
    (hclosings : ∀ id < s.nextClosing, s'.closings id = s.closings id)
    (h' : Inv handle s') : (gateProtocol handle).Good i s s' := by
  refine ⟨h', fun j hj => ?_⟩
  have hnot : s.gate ≠ some j := fun heq => hj (Option.some.inj (heq.symm.trans hgate))
  constructor
  · exact ⟨more, hlog, hcalled j, fun heq => absurd heq hnot⟩
  · refine iff_of_false ?_ hnot
    rcases hgate' with hgate' | hgate' <;> rw [hgate']
    · exact fun heq => hj (Option.some.inj heq).symm
    · exact nofun
  · exact fun heq => absurd heq hnot
  · exact fun id kind command hx => hclosings id (h.sent j id kind command hx)

/-- A step beside the gate, which may change the closings of the call. -/
theorem good_beside (hgate : s'.gate = s.gate) (hchunks : s'.chunks = s.chunks)
    (hbroken : s'.broken = s.broken) (hnext : s'.nextClosing = s.nextClosing)
    {obs : Obs β} (hlog : s'.log = s.log ++ [obs]) (hapart : obs.apart = true)
    (hcalled : ∀ j op, obs = .called j op → j = i)
    (hmine : ∀ j id kind command, j ≠ i → .sent j id kind command ∈ s.log →
      s'.closings id = s.closings id)
    (h' : Inv handle s') : (gateProtocol handle).Good i s s' := by
  refine ⟨h', fun j hj => ?_⟩
  constructor
  · refine ⟨[obs], hlog, ?_, ?_⟩
    · exact fun op hmem => hj (hcalled j op (List.mem_singleton.mp hmem).symm)
    · exact fun _ x hx => List.mem_singleton.mp hx ▸ hapart
  · rw [hgate]
  · exact fun _ => ⟨hchunks, hbroken, hnext⟩
  · exact fun id kind command hx => hmine j id kind command hj hx

end Steps

end RunnerKit.Threads.Stream
