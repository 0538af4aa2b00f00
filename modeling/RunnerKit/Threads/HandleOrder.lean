import RunnerKit.Threads.Gate

/-!
# The protocol of a stream handle

Every write and every closing keeps the gate's protocol, so the log of a handle
is in order in every run: chunks are published one at a time with their
numbers, and no closing is passed by. A call that began after a closing was
confirmed takes and sends nothing; it ends as closed, unless it is a closing
that the checks refuse before they look at the handle.
-/

namespace RunnerKit.Threads.Stream

open Lib

variable {β : Type} {handle : Handle β} {s t u : Core β} {i : ℕ}

/-! ## What the holder of the gate knows -/

structure Gated (i : ℕ) (s : Core β) : Prop where
  gate : s.gate = some i
  acked : s.broken = false → AllAcked s.log

/-- A write that was judged: it may take a chunk. -/
structure Passed (i : ℕ) (s : Core β) : Prop extends Gated i s where
  whole : s.broken = false
  undone : AllUndone s.log
  intime : ¬ Late i s.log

/-- A closing that was judged and has read the chunks. -/
structure Deciding (i : ℕ) (broken : Bool) (chunks : List (Chunk β)) (s : Core β) :
    Prop extends Gated i s where
  same : s.broken = broken
  chunks : s.chunks = chunks
  intime : ¬ Late i s.log

/-- The chunk `seq` is on its way, the earlier ones are acknowledged. -/
structure Publishing (i seq : ℕ) (s : Core β) : Prop where
  gate : s.gate = some i
  acked : ∀ k < (takenChunks s.log).length, k ≠ seq → .acked k ∈ s.log
  intime : ¬ Late i s.log

/-- The call has begun the closing `id`, whose command is on its way. -/
structure Begun (i id : ℕ) (s : Core β) : Prop where
  mine : ∃ kind command, .sent i id kind command ∈ s.log
  waiting : s.closings id = some .waiting
  intime : ¬ Late i s.log

theorem Relies.intime (h : Relies i s t) (hs : ¬ Late i s.log) : ¬ Late i t.log := by
  obtain ⟨more, hlog, hcalled, -⟩ := h.log
  rw [hlog]
  exact not_late_append hs hcalled

/-- While the gate is held the others only log what is apart from it. -/
theorem Relies.apart (h : Relies i s t) (hgate : s.gate = some i) :
    ∃ more, t.log = s.log ++ more ∧ ∀ x ∈ more, x.apart = true := by
  obtain ⟨more, hlog, -, hapart⟩ := h.log
  exact ⟨more, hlog, hapart hgate⟩

theorem Gated.later (h : Gated i s) (hrely : Relies i s t) : Gated i t := by
  obtain ⟨more, hlog, hapart⟩ := hrely.apart h.gate
  obtain ⟨-, hbroken, -⟩ := hrely.held h.gate
  refine ⟨hrely.gate.mpr h.gate, fun hb => ?_⟩
  rw [hlog]
  exact (h.acked (hbroken ▸ hb)).append (takenChunks_apart hapart)

theorem Passed.later (h : Passed i s) (hrely : Relies i s t) : Passed i t := by
  obtain ⟨more, hlog, hapart⟩ := hrely.apart h.gate
  obtain ⟨-, hbroken, -⟩ := hrely.held h.gate
  refine ⟨h.toGated.later hrely, hbroken.trans h.whole, ?_, hrely.intime h.intime⟩
  rw [hlog]
  exact h.undone.append_apart hapart

theorem Deciding.later {broken : Bool} {chunks : List (Chunk β)}
    (h : Deciding i broken chunks s) (hrely : Relies i s t) :
    Deciding i broken chunks t := by
  obtain ⟨hchunks, hbroken, -⟩ := hrely.held h.gate
  exact ⟨h.toGated.later hrely, hbroken.trans h.same, hchunks.trans h.chunks,
    hrely.intime h.intime⟩

theorem Publishing.later {seq : ℕ} (h : Publishing i seq s) (hrely : Relies i s t) :
    Publishing i seq t := by
  obtain ⟨more, hlog, hapart⟩ := hrely.apart h.gate
  refine ⟨hrely.gate.mpr h.gate, ?_, hrely.intime h.intime⟩
  intro k hk hne
  rw [hlog, takenChunks_append, takenChunks_apart hapart, List.append_nil] at hk
  rw [hlog]
  exact List.mem_append_left _ (h.acked k hk hne)

theorem Begun.later {id : ℕ} (h : Begun i id s) (hrely : Relies i s t) : Begun i id t := by
  obtain ⟨kind, command, hmem⟩ := h.mine
  obtain ⟨more, hlog, -⟩ := hrely.log
  refine ⟨⟨kind, command, hlog ▸ List.mem_append_left _ hmem⟩, ?_, hrely.intime h.intime⟩
  exact (hrely.mine id kind command hmem).trans h.waiting

/-! ## Steps at the gate -/

theorem good_acquire (h : Inv handle s) (hfree : s.gateFree = true) :
    (gateProtocol handle).Good i s (s.takeGate i) := by
  have hnone : s.gate = none := Option.isNone_iff_eq_none.mp hfree
  refine ⟨h.gateOnly (some i) nofun, fun j hj => ?_⟩
  constructor
  · exact ⟨[], by simp [Core.takeGate]⟩
  · refine iff_of_false ?_ (by simp [hnone])
    exact fun heq => hj (Option.some.inj heq).symm
  · exact fun heq => absurd heq (by simp [hnone])
  · exact fun _ _ _ _ => rfl

theorem gated_acquire (h : Inv handle s) (hfree : s.gateFree = true) :
    Gated i (s.takeGate i) where
  gate := rfl
  acked := h.free (Option.isNone_iff_eq_none.mp hfree)

theorem good_release (h : Gated i s) (hinv : Inv handle s) :
    (gateProtocol handle).Good i s s.releaseGate := by
  refine good_holding hinv h.gate (Or.inr rfl) (List.append_nil _).symm (by simp)
    (fun _ _ => rfl) (hinv.gateOnly none fun _ => h.acked)

/-- The rule of the gate: a body that ends with the gate held and gives up
nothing of what must hold when it is free. -/
theorem wp_gate {α : Type} {body : Call β α} {Q : α → Core β → Prop}
    {E : Error → Core β → Prop}
    (hbody : ∀ t, Gated i t → Inv handle t →
      (gateProtocol handle).wp i (id ∘ Core.releaseGate)
        (fun a u => Gated i u ∧ ∀ v, Relies i u v → Q a v.releaseGate)
        (fun e u => Gated i u ∧ ∀ v, Relies i u v → E e v.releaseGate) body t) :
    (gateProtocol handle).wp i id Q E
      ((Prog.acquire Core.gateFree (Core.takeGate · i)).bind fun _ =>
        Prog.guarded Core.releaseGate body) s := by
  refine Protocol.wp_bind (Protocol.wp_acquire (fun t ht => .same ht.2) ?_)
  intro t ht hfree
  have hgood := good_acquire (i := i) ht.2 hfree
  refine ⟨hgood, Protocol.wp_guarded ?_⟩
  refine Protocol.wp_mono (hbody _ (gated_acquire ht.2 hfree) hgood.1) ?_ ?_
  · rintro a u ⟨hgated, hq⟩ v hv
    exact ⟨good_release (hgated.later hv.1) hv.2, hq v hv.1⟩
  · rintro e u ⟨hgated, he⟩ v hv
    exact ⟨good_release (hgated.later hv.1) hv.2, he v hv.1⟩

/-! ## Writes -/

theorem not_confirmed_of_judged (hinv : Inv handle s) (h : s.confirmed = false) :
    ¬ SomeConfirmed s.log := by
  rintro ⟨id, hmem⟩
  obtain ⟨hlt, hconf⟩ := hinv.confirmed id hmem
  have hany : s.confirmed = true :=
    List.any_eq_true.mpr ⟨id, List.mem_range.mpr hlt, by simp [hconf]⟩
  cases h.symm.trans hany

theorem undone_of_judged (hinv : Inv handle s)
    (h : s.anyClosing (· != .refused) = false) : AllUndone s.log := by
  intro j id kind command hmem
  have hlt := hinv.sent j id kind command hmem
  have hall := (List.any_eq_false.mp h) id (List.mem_range.mpr hlt)
  cases hflag : s.closings id with
  | none => exact Or.inr (hinv.removed id hlt hflag)
  | some flag =>
      have hrefused : flag = .refused := by simpa [hflag] using hall
      exact Or.inl (hinv.refused id (hrefused ▸ hflag))

theorem passed_of_judged (h : Gated i s) (hinv : Inv handle s)
    (hjudge : s.judgeChunk = .ok ()) : Passed i s := by
  unfold Core.judgeChunk at hjudge
  split at hjudge
  · cases hjudge
  split at hjudge
  · cases hjudge
  split at hjudge
  · cases hjudge
  rename_i hconf hbroken hany
  have hnone := not_confirmed_of_judged hinv (Bool.eq_false_iff.mpr hconf)
  exact ⟨h, Bool.eq_false_iff.mpr hbroken,
    undone_of_judged hinv (Bool.eq_false_iff.mpr hany), not_late_of_none hnone i⟩

/-- A write that is refused was refused as closed, or is no late call. -/
theorem judgeChunk_error (hinv : Inv handle s) {e : Error}
    (hjudge : s.judgeChunk = .error e) : e = .streamClosed ∨ ¬ Late i s.log := by
  unfold Core.judgeChunk at hjudge
  split at hjudge
  · cases hjudge
    exact Or.inl rfl
  · rename_i hconf
    have hnone := not_confirmed_of_judged hinv (Bool.eq_false_iff.mpr hconf)
    exact Or.inr (not_late_of_none hnone i)

theorem good_take (h : Passed i s) (hinv : Inv handle s) (chunk : Chunk β) :
    (gateProtocol handle).Good i s (s.take i s.chunks.length chunk) := by
  refine good_holding hinv h.gate (Or.inl h.gate) rfl (by simp) (fun _ _ => rfl) ?_
  refine hinv.take h.gate ⟨?_, h.acked h.whole, hinv.broken h.whole, h.undone, h.intime⟩
  rw [hinv.chunks]

theorem publishing_take (h : Passed i s) (hinv : Inv handle s) (chunk : Chunk β) :
    Publishing i s.chunks.length (s.take i s.chunks.length chunk) where
  gate := h.gate
  acked := by
    intro k hk hne
    have hk' : k < s.chunks.length + 1 := by
      simpa [Core.take, Core.observe, hinv.chunks, Obs.chunk?] using hk
    have hlt : k < (takenChunks s.log).length := by
      rw [hinv.chunks]
      exact Nat.lt_of_le_of_ne (Nat.lt_succ_iff.mp hk') hne
    exact List.mem_append_left _ (h.acked h.whole k hlt)
  intime := not_late_append h.intime (by simp)

theorem good_break {seq : ℕ} {gate : Option ℕ} (hgate : gate = some i ∨ gate = none)
    (h : Publishing i seq s) (hinv : Inv handle s) :
    (gateProtocol handle).Good i s { s.breakHandle seq with gate := gate } := by
  have hlog : { s.breakHandle seq with gate := gate }.log = s.log ++ [.broke seq] := rfl
  refine good_holding hinv h.gate hgate hlog (by simp) (fun _ _ => rfl) ?_
  exact (hinv.breakHandle seq).gateOnly gate fun _ hb => nomatch hb

theorem wp_publish {seq : ℕ} {chunk : Chunk β} (h : Publishing i seq s) :
    (gateProtocol handle).wp i (id ∘ Core.releaseGate)
      (fun _ t => Gated i t ∧ ¬ Late i t.log)
      (fun _ t => Gated i t ∧ ¬ Late i t.log) (handle.publish seq chunk) s := by
  intro t ht
  have hpub := h.later ht.1
  refine ⟨good_break (Or.inr rfl) hpub ht.2, ?_⟩
  intro reply
  match reply with
  | .ok () =>
      refine Protocol.wp_modify fun u hu => ?_
      have hpub' := hpub.later hu.1
      have hgood : (gateProtocol handle).Good i u (u.observe (.acked seq)) :=
        good_holding hu.2 hpub'.gate (Or.inl hpub'.gate) rfl (by simp) (fun _ _ => rfl)
          (hu.2.note rfl trivial)
      refine ⟨hgood, ⟨hpub'.gate, fun _ k hk => ?_⟩, not_late_append hpub'.intime (by simp)⟩
      have hk' : k < (takenChunks u.log).length := by
        simpa [Core.observe, Obs.chunk?] using hk
      by_cases hne : k = seq
      · simp [Core.observe, hne]
      · exact List.mem_append_left _ (hpub'.acked k hk' hne)
  | .error e =>
      refine Protocol.wp_bind (Protocol.wp_modify fun u hu => ?_)
      have hpub' := hpub.later hu.1
      refine ⟨good_break (Or.inl hpub'.gate) hpub' hu.2, ?_⟩
      exact ⟨⟨hpub'.gate, fun hb => by cases hb⟩, not_late_append hpub'.intime (by simp)⟩

/-- A write ends as closed, or was no late call. -/
theorem wp_push (build : Except Error (Chunk β)) :
    (gateProtocol handle).wp i id (fun _ t => ¬ Late i t.log)
      (fun e t => e = .streamClosed ∨ ¬ Late i t.log) (handle.push i build) s := by
  refine wp_gate fun t hgated hinv => ?_
  refine Protocol.wp_bind (Protocol.wp_gets fun t₁ ht₁ => ?_)
  have hgated₁ := hgated.later ht₁.1
  refine Protocol.wp_bind (Protocol.wp_ofExcept (fun _ hjudge => ?_) fun e hjudge => ?_)
  · have hpassed := passed_of_judged hgated₁ ht₁.2 hjudge
    -- whatever fails from here on, the call is not late
    have hfail : ∀ e : Error, Gated i t₁ ∧ ∀ v, Relies i t₁ v →
        e = .streamClosed ∨ ¬ Late i v.releaseGate.log :=
      fun e => ⟨hgated₁, fun v hv => Or.inr (hv.intime hpassed.intime)⟩
    refine Protocol.wp_bind (Protocol.wp_ofExcept (fun chunk _ => ?_) fun e _ => hfail e)
    refine Protocol.wp_bind (Protocol.wp_gets fun t₂ ht₂ => ?_)
    have hpassed₂ := hpassed.later ht₂.1
    refine Protocol.wp_bind (Protocol.wp_ofExcept (fun seq hseq => ?_) fun e _ => ?_)
    · obtain rfl : t₂.chunks.length = seq := by
        unfold seqOf at hseq
        split at hseq <;> cases hseq
        rfl
      refine Protocol.wp_bind (Protocol.wp_modify fun t₃ ht₃ => ?_)
      have hpassed₃ := hpassed₂.later ht₃.1
      have hlen : t₃.chunks.length = t₂.chunks.length := by
        rw [(ht₃.1.held hpassed₂.gate).1]
      refine ⟨hlen ▸ good_take hpassed₃ ht₃.2 chunk, ?_⟩
      have hpublishing := publishing_take hpassed₃ ht₃.2 chunk
      rw [hlen] at hpublishing
      refine Protocol.wp_mono (wp_publish hpublishing) ?_ ?_
      · exact fun _ u hu => ⟨hu.1, fun v hv => hv.intime hu.2⟩
      · exact fun _ u hu => ⟨hu.1, fun v hv => Or.inr (hv.intime hu.2)⟩
    · exact ⟨hpassed₂.toGated, fun v hv => Or.inr (hv.intime hpassed₂.intime)⟩
  · refine ⟨hgated₁, fun v hv => ?_⟩
    exact (judgeChunk_error ht₁.2 hjudge).imp_right hv.intime

/-! ## Closings -/

theorem judgeClosing_ok {completed : Bool} (hinv : Inv handle s)
    (hjudge : s.judgeClosing completed = .ok ()) :
    ¬ Late i s.log ∧ (completed = true → s.broken = false) := by
  unfold Core.judgeClosing at hjudge
  split at hjudge
  · cases hjudge
  split at hjudge
  · cases hjudge
  rename_i hconf hbroken
  have hnone := not_confirmed_of_judged hinv (Bool.eq_false_iff.mpr hconf)
  refine ⟨not_late_of_none hnone i, fun hcompleted => ?_⟩
  simpa [hcompleted] using hbroken

theorem judgeClosing_error {completed : Bool} (hinv : Inv handle s) {e : Error}
    (hjudge : s.judgeClosing completed = .error e) :
    e = .streamClosed ∨ ¬ Late i s.log := by
  unfold Core.judgeClosing at hjudge
  split at hjudge
  · cases hjudge
    exact Or.inl rfl
  · rename_i hconf
    have hnone := not_confirmed_of_judged hinv (Bool.eq_false_iff.mpr hconf)
    exact Or.inr (not_late_of_none hnone i)

theorem gated_begin (h : Gated i s) (kind : ClosureKind) (command : Command β) :
    Gated i (s.beginClosing i kind command) :=
  ⟨h.gate, fun hb => (h.acked hb).append rfl⟩

theorem begun_begin (h : ¬ Late i s.log) (kind : ClosureKind) (command : Command β) :
    Begun i s.nextClosing (s.beginClosing i kind command) where
  mine := ⟨kind, command, by simp [Core.beginClosing, Core.observe]⟩
  waiting := Function.update_self ..
  intime := not_late_append h (by simp)

/-- What the decision under the gate gives for the log. -/
theorem good_begin {broken : Bool} {chunks : List (Chunk β)} {kind : ClosureKind}
    {parts : CloseParts} {command : Command β} (h : Deciding i broken chunks s)
    (hinv : Inv handle s) (hcompleted : kind = .completed → broken = false)
    (hseal : ∀ streamSeal, parts.streamSeal = some streamSeal →
      broken = false ∧ sealOf handle.lib chunks = .ok streamSeal)
    (hcommand : closing handle.lib parts = .ok command) :
    (gateProtocol handle).Good i s (s.beginClosing i kind command) := by
  refine good_holding hinv h.gate (Or.inl h.gate) rfl (by simp) ?_ ?_
  · exact fun id hid => Function.update_of_ne (Nat.ne_of_lt hid) _ _
  · refine hinv.beginClosing h.gate ⟨h.intime, fun hkind => ?_, fun streamSeal hs => ?_⟩
    · exact hinv.broken (h.same.trans (hcompleted hkind))
    · rw [closing_streamSeal hcommand] at hs
      obtain ⟨hb, hchunks⟩ := hseal streamSeal hs
      rw [hinv.chunks, h.chunks]
      exact ⟨hchunks, h.acked (h.same.trans hb)⟩

/-- The seal that the source chooses goes with a whole handle. -/
theorem seal_chosen {lib : Library β} {chunks : List (Chunk β)} {content chosen : Bool}
    {choice : Option StreamSeal}
    (h : (if content && chosen then (sealOf lib chunks).map some else .ok none) =
      .ok choice) :
    ∀ streamSeal, choice = some streamSeal →
      chosen = true ∧ sealOf lib chunks = .ok streamSeal := by
  rintro streamSeal rfl
  split at h
  · rename_i hboth
    cases hs : sealOf lib chunks with
    | error e =>
        rw [hs] at h
        cases h
    | ok found =>
        rw [hs] at h
        cases h
        exact ⟨(Bool.and_eq_true_iff.mp hboth).2, rfl⟩
  · cases h

theorem wp_register (request : Closing) (reason : ClosureReason) (hgated : Gated i s) :
    (gateProtocol handle).wp i (id ∘ Core.releaseGate)
      (fun a t => Gated i t ∧ Begun i a.1 t)
      (fun e t => Gated i t ∧ (e = .streamClosed ∨ ¬ Late i t.log))
      (handle.register i request reason) s := by
  refine Protocol.wp_bind (Protocol.wp_gets fun t₁ ht₁ => ?_)
  have hgated₁ := hgated.later ht₁.1
  refine Protocol.wp_bind (Protocol.wp_ofExcept (fun _ hjudge => ?_) fun e hjudge => ?_)
  swap
  · exact ⟨hgated₁, judgeClosing_error ht₁.2 hjudge⟩
  obtain ⟨hintime, hcompleted⟩ := judgeClosing_ok (i := i) ht₁.2 hjudge
  refine Protocol.wp_bind (Protocol.wp_gets fun t₂ ht₂ => ?_)
  have hdeciding₂ : Deciding i t₁.broken t₂.chunks t₂ :=
    ⟨hgated₁.later ht₂.1, (ht₂.1.held hgated₁.gate).2.1, rfl, ht₂.1.intime hintime⟩
  dsimp only
  split
  · exact ⟨hdeciding₂.toGated, Or.inr hdeciding₂.intime⟩
  refine Protocol.wp_bind (Protocol.wp_gets fun t₃ ht₃ => ?_)
  have hdeciding₃ := hdeciding₂.later ht₃.1
  refine Protocol.wp_bind (Protocol.wp_ofExcept (fun choice hchoice => ?_) fun e _ => ?_)
  swap
  · exact ⟨hdeciding₃.toGated, Or.inr hdeciding₃.intime⟩
  refine Protocol.wp_bind (Protocol.wp_ofExcept (fun command hcommand => ?_) fun e _ => ?_)
  swap
  · exact ⟨hdeciding₃.toGated, Or.inr hdeciding₃.intime⟩
  intro t₄ ht₄
  have hdeciding₄ := hdeciding₃.later ht₄.1
  refine ⟨good_begin hdeciding₄ ht₄.2 ?_ ?_ hcommand, ?_⟩
  · exact fun hkind => hcompleted (decide_eq_true hkind)
  · intro streamSeal hs
    obtain ⟨hchosen, hsealed⟩ := seal_chosen hchoice streamSeal hs
    refine ⟨?_, hsealed⟩
    -- either the closing is Completed, or the handle was read as healthy
    rcases Bool.or_eq_true_iff.mp hchosen with hkind | hhealthy
    · exact hcompleted hkind
    · rw [← hdeciding₃.same]
      exact (Bool.not_eq_true' _).mp (Bool.and_eq_true_iff.mp hhealthy).1
  · exact ⟨gated_begin hdeciding₄.toGated .., begun_begin hdeciding₄.intime ..⟩

theorem good_settle {id : ℕ} (h : Begun i id s) (hinv : Inv handle s)
    (outcome : Option Flag) :
    (gateProtocol handle).Good i s (s.settle id outcome) := by
  obtain ⟨kind, command, hmem⟩ := h.mine
  have hlt := hinv.sent i id kind command hmem
  have hinv' : Inv handle (s.settle id outcome) := hinv.settle hlt h.waiting
  refine good_beside rfl rfl rfl rfl rfl rfl (by simp) ?_ hinv'
  intro j k kind' command' hj hmem'
  refine Function.update_of_ne ?_ _ _
  rintro rfl
  exact hj (hinv.owner j i k kind' kind command' command hmem' hmem)

theorem wp_sendClosing {n : ℕ} {command : Command β} {wait : ℕ} (h : Begun i n s) :
    (gateProtocol handle).wp i id (fun _ t => ¬ Late i t.log) (fun _ t => ¬ Late i t.log)
      (Handle.sendClosing n command wait) s := by
  intro t ht
  have hbegun := h.later ht.1
  refine ⟨good_settle hbegun ht.2 _, ?_⟩
  -- whatever the answer is, the closing is settled next
  have hsettle : ∀ (outcome : Option Flag) u, (gateProtocol handle).Later i t u →
      (gateProtocol handle).Good i u (u.settle n outcome) ∧
        ¬ Late i (u.settle n outcome).log := by
    intro outcome u hu
    have hbegun' := hbegun.later hu.1
    exact ⟨good_settle hbegun' hu.2 outcome, not_late_append hbegun'.intime (by simp)⟩
  intro reply
  match reply with
  | .ok outcome => exact Protocol.wp_bind (Protocol.wp_modify (hsettle _))
  | .error (.unavailable failure) => exact Protocol.wp_bind (Protocol.wp_modify (hsettle _))
  | .error (.refused refusal) => exact Protocol.wp_bind (Protocol.wp_modify (hsettle _))
  | .error (.invalidInput _) | .error (.credential _) | .error .unauthenticated
  | .error (.lost _) | .error (.unreadable _) | .error .streamBroken
  | .error .streamClosed | .error (.infraMissing _) | .error (.store _) =>
      exact Protocol.wp_bind (Protocol.wp_modify (hsettle _))

theorem Begun.release {n : ℕ} (h : Begun i n s) : Begun i n s.releaseGate :=
  ⟨h.mine, h.waiting, h.intime⟩

theorem wp_closeMessage (request : Closing) :
    (gateProtocol handle).wp i id (fun _ t => ¬ Late i t.log)
      (fun e t => handle.precheck request = .error e ∨ e = .streamClosed ∨ ¬ Late i t.log)
      (handle.closeMessage i request) s := by
  refine Protocol.wp_bind (Protocol.wp_ofExcept (fun reason _ => ?_) fun e he => Or.inl he)
  -- the gate is free again before the command is sent
  show (gateProtocol handle).wp i id _ _
    (((Prog.acquire Core.gateFree (Core.takeGate · i)).bind fun _ =>
      Prog.guarded Core.releaseGate (handle.register i request reason)).bind fun a =>
        Handle.sendClosing a.1 a.2 request.wait) s
  refine Protocol.wp_bind (wp_gate fun t hgated _ => ?_)
  refine Protocol.wp_mono (wp_register request reason hgated) ?_ ?_
  · rintro a u ⟨hgated', hbegun⟩
    refine ⟨hgated', fun v hv => ?_⟩
    refine Protocol.wp_mono (wp_sendClosing (hbegun.later hv).release) (fun _ _ h => h) ?_
    exact fun _ _ h => Or.inr (Or.inr h)
  · rintro e u ⟨hgated', he⟩
    exact ⟨hgated', fun v hv => Or.inr (he.imp_right hv.intime)⟩

/-! ## Whole calls -/

theorem reason_invalid {lib : Library β} {kind : ClosureKind} {detail : Option String}
    {e : Error} (h : kind.reason lib detail = .error e) : ∃ reason, e = .invalid reason := by
  unfold ClosureKind.reason at h
  split at h
  · cases h
    exact ⟨_, rfl⟩
  · rename_i _ _ text
    cases hcheck : lib.closureDetail kind text with
    | ok _ => simp [hcheck, Except.mapError, Except.map] at h
    | error code =>
        simp only [hcheck, Except.mapError, Except.map, Except.error.injEq] at h
        exact ⟨code, h.symm⟩
  · cases h

/-- The checks refuse a closing as invalid. -/
theorem precheck_invalid {request : Closing} {e : Error}
    (h : handle.precheck request = .error e) : ∃ reason, e = .invalid reason := by
  simp only [Handle.precheck, requireWait, bind, Except.bind] at h
  by_cases hwait : request.wait = 0
  · simp only [if_pos hwait] at h
    cases h
    exact ⟨_, rfl⟩
  · simp only [if_neg hwait] at h
    cases hreason : request.kind.reason handle.lib request.detail with
    | error e' =>
        rw [hreason] at h
        cases h
        exact reason_invalid hreason
    | ok reason =>
        rw [hreason] at h
        by_cases hmessage : handle.messageId ≠ request.messageId
        · simp only [if_pos hmessage] at h
          cases h
          exact ⟨_, rfl⟩
        · simp only [if_neg hmessage] at h
          cases h

theorem wp_body (op : Op β) :
    (gateProtocol handle).wp i id (fun _ t => ¬ Late i t.log)
      (fun e t => Rejected handle op (.error e) ∨ e = .streamClosed ∨ ¬ Late i t.log)
      (handle.body i op) s := by
  cases op with
  | write write =>
      refine Protocol.wp_bind (Protocol.wp_mono (wp_push _) (fun _ _ h => h) ?_)
      exact fun _ _ h => Or.inr h
  | close request =>
      refine Protocol.wp_bind (Protocol.wp_mono (wp_closeMessage _) (fun _ _ h => h) ?_)
      intro e _ h
      refine h.imp_left fun hcheck => ?_
      obtain ⟨reason, rfl⟩ := precheck_invalid hcheck
      exact ⟨request, reason, rfl, hcheck, rfl⟩

theorem good_note {obs : Obs β} (hinv : Inv handle s) (hquiet : obs.quiet = true)
    (hapart : obs.apart = true) (hcalled : ∀ j op, obs = .called j op → j = i)
    (hordered : Ordered handle s.log obs) :
    (gateProtocol handle).Good i s (s.observe obs) :=
  good_beside rfl rfl rfl rfl rfl hapart hcalled (fun _ _ _ _ _ _ => rfl)
    (hinv.note hquiet hordered)

theorem keeps_prog (op : Op β) :
    (gateProtocol handle).Keeps i (handle.prog i op) s := by
  refine Protocol.wp_bind (Protocol.wp_modify fun t ht => ?_)
  refine ⟨good_note ht.2 rfl rfl (fun j op h => by cases h; rfl) trivial, ?_⟩
  refine Protocol.wp_bind (Protocol.wp_attempt (Protocol.wp_mono (wp_body op) ?_ ?_))
  · intro outcome u hintime
    refine Protocol.wp_modify fun v hv => ⟨?_, trivial⟩
    refine good_note hv.2 rfl rfl (by simp) fun hlate => ?_
    exact absurd hlate (hv.1.intime hintime)
  · intro e u he
    refine Protocol.wp_modify fun v hv => ⟨?_, trivial⟩
    refine good_note hv.2 rfl rfl (by simp) fun hlate => ?_
    rcases he with hrejected | rfl | hintime
    · exact Or.inr hrejected
    · exact Or.inl rfl
    · exact absurd hlate (hv.1.intime hintime)

/-- In every run of calls on one handle, with any of them dropped at any await
and every outcome of each publish and command, the log is in order: chunks are
numbered in the order they were taken, each after all earlier ones were
acknowledged, after no failed or dropped publish and past no standing closing;
a Completed closing is sent after no such publish, and a seal covers the chunks
taken, all acknowledged; a call that began after a confirmed closing takes and
sends nothing and ends as closed, or with the error of the checks that a closing
goes through first. -/
theorem stream_in_order {s : Calls (Core β) (Ask.Reply (β := β)) Error}
    (h : handle.world.machine.Reachable s) : Always (Ordered handle) s.shared.log :=
  (World.reachable_inv (w := handle.world) (P := gateProtocol handle) (inv_init handle)
    (fun _ op _ _ => keeps_prog op) (fun e => nomatch e) h).ordered

/-! ## A closing after the confirmed one -/

/-- A library that takes every detail and names a hash by the chunks' number. -/
def countLibrary : Library String where
  sealHash := fun chunks => .ok (toString chunks.length)
  closureDetail := fun _ _ => .ok ()
  closureJson := fun _ => .ok "closure"

def sample : Handle String where
  lib := countLibrary
  messageId := 1
  wait := 1

/-- Every publish and every command succeeds. -/
def takenUp : ∀ ask : Ask String, ask.Reply
  | .chunk .. => (.ok () : Except Error Unit)
  | .command .. => (.ok ⟨5, some .cancelled⟩ : Except Error Outcome)

/-- Version and variant of a UUIDv7. -/
def commandId : Jobs.Uuid := 0x00000000000070008000000000000000#128

def cancelled (wait : ℕ) : Closing where
  commandId := commandId
  threadId := 2
  messageId := 1
  kind := .cancelled
  detail := none
  actingUserId := none
  wait := wait

def steps (i n : ℕ) : List (Event (Ask.Reply (β := String)) (Op String) Empty) :=
  List.replicate n (.run i)

/-- A chunk is published, the message is closed, then comes another closing. -/
def closedRun (wait : ℕ) : List (Event (Ask.Reply (β := String)) (Op String) Empty) :=
  [.start (.write .keepalive)] ++ steps 0 5 ++ [.reply 0 takenUp] ++ steps 0 3 ++
    [.start (.close (cancelled 1))] ++ steps 1 7 ++ [.reply 1 takenUp] ++ steps 1 2 ++
    [.start (.close (cancelled wait))]

theorem stream_in_order_closedRun :
    ∃ s, sample.world.machine.run (closedRun 1 ++ steps 2 5) = some s ∧
      Always (Ordered sample) s.shared.log ∧
      .ended 2 (.close (cancelled 1)) (.error .streamClosed) ∈ s.shared.log :=
  ⟨_, rfl, stream_in_order (Machine.reachable_of_run (closedRun 1 ++ steps 2 5) rfl),
    List.mem_of_getElem? (i := 9) rfl⟩

/-- After a confirmed closing, a closing with a zero wait does not end as
closed. -/
theorem late_closing_invalid :
    ∃ r s t, sample.world.machine.run (closedRun 0) = some r ∧
      sample.world.machine.run (closedRun 0 ++ steps 2 1) = some s ∧
      sample.world.machine.run (closedRun 0 ++ steps 2 2) = some t ∧
      SomeConfirmed r.shared.log ∧
      s.shared.log = r.shared.log ++ [.called 2 (.close (cancelled 0))] ∧
      t.shared.log = s.shared.log ++
        [.ended 2 (.close (cancelled 0)) (.error (.invalid "the outcome wait is zero"))] :=
  ⟨_, _, _, rfl, rfl, rfl, ⟨0, List.mem_of_getElem? (i := 6) rfl⟩, rfl, rfl⟩

end RunnerKit.Threads.Stream
