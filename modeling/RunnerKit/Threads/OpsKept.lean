import RunnerKit.Threads.OpsTurns

/-!
# The operations keep the protocol

Each operation goes from its scope to the same, whatever it answers, so it may be dropped at
every await. Three of them are gone through step by step: what reads the lane of a response, the
keepalive, and the end of an instance, which say more.
-/

namespace RunnerKit.Threads.Ops

open Lib Lib.Protocol
open Jobs (Uuid)
open Delivery (Ended QueueInner Queued TaskPlace)
open Response (Messages ModelResponse ResponseDelta)

variable {β D B U E : Type} {settings : Settings β D B U E} {i j : ℕ} {s s' u v : Inner β D}
  {t : ThreadRef} {T : Set ThreadRef} {ε ε' α γ : Type} {X : Inner β D → Inner β D}

/-! ## Chunks of deltas, entries and annotations -/

/-- What was mapped. -/
theorem of_map_ok {f : α → γ} {x : Except ε α} {c : γ} (h : x.map f = .ok c) :
    ∃ a, c = f a := by
  cases x with
  | error e => cases h
  | ok a => exact ⟨a, (Except.ok.inj h).symm⟩

theorem deltaChunk_isKeepalive {message : Uuid} {delta : Delta β} {chunk : Chunk β}
    (h : deltaChunk message delta = .ok chunk) : chunk.isKeepalive = false := by
  unfold deltaChunk at h
  split at h
  · cases h
  · obtain ⟨json, rfl⟩ := of_map_ok h
    rfl

theorem entryChunk_isKeepalive {entry : TurnEntry β} {chunk : Chunk β}
    (h : entryChunk entry = .ok chunk) : chunk.isKeepalive = false := by
  unfold entryChunk at h
  split at h
  · cases h
  · cases h
  · obtain ⟨json, rfl⟩ := of_map_ok h
    rfl

theorem annotationChunk_isKeepalive {after : Uuid} {value : Threads.Annotation β}
    {chunk : Chunk β} (h : annotationChunk after value = .ok chunk) :
    chunk.isKeepalive = false := by
  obtain ⟨json, rfl⟩ := of_map_ok h
  rfl

/-! ## Deltas -/

theorem runs_sendDelta {lane : ResponseControl} {delta : ResponseDelta B U E} :
    Runs settings i (Under i lane.thread T) (sendDelta settings i lane delta) := by
  intro X s hX hs
  refine wp_bind (wp_ofExcept (fun chunk hchunk => ?_) fun _ _ => hs)
  refine runs_withMem (Runs.bind (runs_newId Inside.stable) fun id => ?_) hX hs
  exact runs_pushChunk (deltaChunk_isKeepalive hchunk)

theorem runs_deliver {sink : ResponseControl} {delta : ResponseDelta B U E} :
    Runs settings i (Under i sink.thread T)
      (deliver settings i sink delta : Call β D ε Unit) := by
  refine Runs.bind (runs_gets Under.stable) fun shared => ?_
  split
  · exact runs_pure
  · split
    · exact runs_pure
    · exact runs_setShared Under.stable
    · refine Runs.bind (runs_setShared Under.stable) fun _ => ?_
      refine Runs.bind runs_sendDelta.attempt fun sent => ?_
      cases sent with
      | ok _ => exact runs_setShared Under.stable
      | error error => exact runs_setShared Under.stable

theorem runs_send {sink : ResponseControl} {delta : ResponseDelta B U E} :
    Runs settings i (Out i T) (send settings i sink delta : Call β D ε Unit) := by
  refine Runs.bind (runs_wait Out.stable) fun _ => runs_ordered ?_
  exact runs_deliver.withShared Under.stable

theorem runs_sendAll {control : ResponseControl} {deltas : List (ResponseDelta B U E)} :
    Runs settings i (Under i control.thread T) (sendAll settings i control deltas) := by
  induction deltas with
  | nil => exact runs_pure
  | cons delta rest ih =>
      refine Runs.bind runs_sendDelta.attempt fun sent => ?_
      cases sent with
      | error error => exact Runs.bind (runs_setShared Under.stable) fun _ => runs_fail
      | ok _ =>
          refine Runs.bind (runs_setShared Under.stable) fun _ => ?_
          refine Runs.bind (runs_gets Under.stable) fun draft => ?_
          refine Runs.bind runs_ofExcept fun draft => ?_
          exact Runs.bind (runs_setShared Under.stable) fun _ => ih

theorem runs_complete [DecidableEq B] [DecidableEq U] [DecidableEq E]
    {control : ResponseControl} {response : ModelResponse B U E} :
    Runs settings i (Under i control.thread T) (complete settings i control response) := by
  refine Runs.withShared Under.stable ?_
  refine Runs.bind (runs_gets Under.stable) fun shared => ?_
  split
  · exact runs_fail
  · split
    · exact runs_fail
    · refine Runs.bind runs_ofExcept fun deltas => ?_
      exact Runs.bind runs_sendAll fun _ => runs_setShared Under.stable

theorem runs_discard {control : ResponseControl} :
    Runs settings i (Under i control.thread T) (discard settings i control) := by
  refine Runs.withShared Under.stable ?_
  refine Runs.bind (runs_gets Under.stable) fun shared => ?_
  split
  · exact runs_pure
  · split
    · exact runs_pure
    · exact runs_pure
    · refine Runs.bind runs_sendDelta.attempt fun sent => ?_
      split
      · exact runs_setShared Under.stable
      · exact runs_setShared Under.stable
      · exact Runs.bind (runs_setShared Under.stable) fun _ => runs_fail

theorem runs_end {J : Inner β D → Prop} (hJ : Stable settings i J) {control : ResponseControl} :
    Runs settings i J («end» i control : Call β D ε Unit) :=
  Runs.withShared hJ (runs_setShared hJ)

/-! ## Responses -/

/-- From a scope to the same, with a result of which more is known. -/
def Gives (settings : Settings β D B U E) (i : ℕ) (J : Inner β D → Prop) (P : α → Prop)
    (p : Call β D ε α) : Prop :=
  ∀ {X : Inner β D → Inner β D} {s : Inner β D}, Lets settings i X → J s →
    (actions settings).wp i X (fun a s => J s ∧ P a) (fun _ => J) p s

section Rules

variable {J : Inner β D → Prop} {P : α → Prop}

theorem Gives.bind {p : Call β D ε α} {k : α → Call β D ε γ} (hp : Gives settings i J P p)
    (hk : ∀ a, P a → Runs settings i J (k a)) : Runs settings i J (p >>= k) :=
  fun hX hs => wp_bind (wp_mono (hp hX hs) (fun a _ h => hk a h.2 hX h.1) fun _ _ h => h)

theorem Runs.gives {p : Call β D ε γ} {k : γ → Call β D ε α} (hp : Runs settings i J p)
    (hk : ∀ a, Gives settings i J P (k a)) : Gives settings i J P (p >>= k) :=
  fun hX hs => wp_bind (wp_mono (hp hX hs) (fun a _ h => hk a hX h) fun _ _ h => h)

theorem Gives.withMem {work : Call β D ε α} (h : Gives settings i (Inside settings i t T) P work) :
    Gives settings i (Under i t T) P (Ops.withMem i t work) := by
  intro X s hX hs
  refine wp_withMem hX hs.toOut fun u hu hpeek => ?_
  refine wp_mono (h hX.releaseMem (hs.takeMem hu.1 hpeek)) ?_ ?_
  · exact fun a v hv => ⟨hv.1.toPeek, fun w hw => ⟨(hv.1.later hw.1).releaseMem, hv.2⟩⟩
  · exact fun e v hv => ⟨hv.toPeek, fun w hw => (hv.later hw.1).releaseMem⟩

end Rules

/-- The control that the memory holds is one of the thread. -/
def OfThread (t : ThreadRef) (held : Option ResponseControl) : Prop :=
  ∀ control, held = some control → control.thread = t

theorem gives_held {entry : Uuid} :
    Gives settings i (Inside settings i t T) (OfThread t) (do
      let held ← Prog.gets fun s => (s.mem t).responses.lookup entry
      return held.map OpenResponse.control : Call β D Error (Option ResponseControl)) := by
  intro X s _ hs
  refine wp_bind (wp_gets fun u hu => ⟨hs.later hu.1, fun control hcontrol => ?_⟩)
  obtain ⟨response, hresponse, rfl⟩ := Option.map_eq_some_iff.mp hcontrol
  exact hu.2.lanes t entry response hresponse

theorem runs_controls {turn : AiTurnRef} {entry : Uuid} :
    Gives settings i (Under i t T) (fun control => control.thread = t)
      (controls settings t turn entry : Call β D ε ResponseControl) := by
  intro X s _ hs u hu
  have haside : Aside u (u.newShared (settings.draft turn.id entry)) :=
    aside_same (fun _ h => h) rfl rfl rfl rfl rfl rfl rfl rfl rfl
  exact ⟨haside.good_of_log hu.2 rfl, (hs.later hu.1).later (haside.relies rfl), rfl⟩

/-- The responses of a thread are written, its turns are not. -/
theorem runs_setResponses {f : Inner β D → Table Uuid OpenResponse}
    (hf : ∀ s entry response, Base settings s → (f s).lookup entry = some response →
      response.control.thread = t) :
    Runs settings i (Inside settings i t T)
      (Prog.modify fun s => s.setMem t { s.mem t with responses := f s } :
        Call β D ε Unit) := by
  intro X s _ hs u hu
  have hin := hs.later hu.1
  refine ⟨good_setMem hu.2 hin.lock (Or.inl hin.order) (fun _ state h => ⟨state, h, rfl⟩)
    (Or.inr rfl) fun entry response h => hf u entry response hu.2 h, ?_⟩
  have hself : ((u.setMem t { u.mem t with responses := f u }).mem t).turns = (u.mem t).turns := by
    simp [Inner.setMem]
  exact ⟨⟨hin.built, hin.slots, hin.memLock, hin.fits.congr hself (fun _ => rfl) (le_refl _)⟩,
    hin.order⟩

theorem runs_putResponse {entry : Uuid} {response : OpenResponse}
    (h : response.control.thread = t) :
    Runs settings i (Inside settings i t T)
      (Prog.modify (Inner.putResponse · t entry response) : Call β D ε Unit) := by
  refine runs_setResponses fun s entry' response' hb hlookup => ?_
  by_cases heq : entry' = entry
  · subst entry'
    rw [AList.lookup_insert] at hlookup
    cases hlookup
    exact h
  · rw [AList.lookup_insert_ne heq] at hlookup
    exact hb.lanes t entry' response' hlookup

theorem runs_removeResponse {entry : Uuid} :
    Runs settings i (Inside settings i t T)
      (Prog.modify (Inner.removeResponse · t entry) : Call β D ε Unit) := by
  refine runs_setResponses fun s entry' response' hb hlookup => ?_
  by_cases heq : entry' = entry
  · subst entry'
    rw [AList.lookup_erase] at hlookup
    cases hlookup
  · rw [AList.lookup_erase_ne heq] at hlookup
    exact hb.lanes t entry' response' hlookup

theorem runs_needsOpening {turn : AiTurnRef} :
    Runs settings i (Under i t T) (needsOpening i t turn : Call β D Error Bool) := by
  refine runs_withMem (Runs.bind (runs_gets Inside.stable) fun held => ?_)
  split
  · exact runs_pure
  · split
    · exact runs_fail
    · exact runs_pure

theorem runs_faulty {J : Inner β D → Prop} {work : Call β D Error α}
    (h : Runs settings i J work) : Runs settings i J (faulty work) :=
  h.mapError

theorem runs_orderedWithContext {turn : AiTurnRef}
    {work : Option WriteContext → Call β D Error α}
    (h : ∀ ctx, Runs settings i (Under i t T) (work ctx)) :
    Runs settings i (Out i T) (orderedWithContext i t turn work) := by
  refine Runs.bind (runs_faulty (runs_ordered ?_)) fun done => ?_
  · refine Runs.bind runs_needsOpening fun needs => ?_
    split
    · exact runs_pure
    · exact Runs.bind (h none) fun a => runs_pure
  · split
    · exact runs_pure
    · refine Runs.bind (runs_contextFor Out.stable) fun ctx => ?_
      exact runs_faulty (runs_ordered (h (some ctx)))

theorem runs_openWork {turn : AiTurnRef} {entry : Uuid} {ctx : Option WriteContext}
    (ht : t ∈ T) : Runs settings i (Under i t T) (openWork settings i t turn entry ctx) := by
  have hlast : Runs settings i (Under i t T) (do
      let control ← controls settings t turn entry
      withMem i t (Prog.modify (Inner.putResponse · t entry ⟨turn.agent, control⟩))
      return control : Call β D Error ResponseControl) := by
    refine Gives.bind runs_controls fun control hcontrol => ?_
    exact Runs.bind (runs_withMem (runs_putResponse hcontrol)) fun _ => runs_pure
  unfold openWork
  apply Gives.bind (P := OfThread t)
  · apply Gives.withMem
    cases ctx with
    | none => exact gives_held
    | some ctx => exact Runs.gives (runs_ensureTurn ht) fun _ => gives_held
  · intro earlier hearlier
    cases earlier with
    | none => exact hlast
    | some earlier =>
        obtain rfl := hearlier earlier rfl
        refine Runs.bind runs_discard fun _ => ?_
        exact Runs.bind (runs_end Under.stable) fun _ => hlast

theorem runs_completeWork [DecidableEq B] [DecidableEq U] [DecidableEq E] {turn : AiTurnRef}
    {entry : Uuid} {response : ModelResponse B U E} {ctx : WriteContext} (ht : t ∈ T) :
    Runs settings i (Under i t T) (completeWork settings i t turn entry response ctx) := by
  have hlast : ∀ control, control.thread = t → Runs settings i (Under i t T) (do
      complete settings i control response
      «end» i control
      withMem i t (Prog.modify (Inner.removeResponse · t entry)) : Call β D Error Unit) := by
    rintro control rfl
    refine Runs.bind runs_complete fun _ => Runs.bind (runs_end Under.stable) fun _ => ?_
    exact runs_withMem runs_removeResponse
  unfold completeWork
  apply Gives.bind (P := OfThread t)
  · apply Gives.withMem
    exact Runs.gives (runs_ensureTurn ht) fun _ => gives_held
  · intro held hheld
    cases held with
    | none => exact Gives.bind runs_controls hlast
    | some control => exact hlast control (hheld control rfl)

theorem runs_discardWork {entry : Uuid} :
    Runs settings i (Under i t T) (discardWork settings i t entry) := by
  refine Gives.bind (P := OfThread t) gives_held.withMem fun held hheld => ?_
  cases held with
  | none => exact runs_pure
  | some control =>
      obtain rfl := hheld control rfl
      refine Runs.bind runs_discard fun _ => Runs.bind (runs_end Under.stable) fun _ => ?_
      exact runs_withMem runs_removeResponse

/-! ## Operations -/

theorem Out.addSlot (h : Out i T s) : Out i (insert t T) (s.addSlot t) := by
  refine ⟨h.built, fun t' ht' => ?_, h.free⟩
  rcases Set.mem_insert_iff.mp ht' with rfl | ht'
  · exact mem_addSlot
  · exact aside_addSlot.slots t' (h.slots t' ht')

/-- What comes after `slot` has the slot. -/
theorem runs_slot {p : Call β D ε α} (h : Runs settings i (Out i (insert t T)) p) :
    Runs settings i (Out i T) (do
      Prog.modify (Inner.addSlot · t)
      p) := by
  intro X s hX hs
  refine wp_bind (wp_modify fun u hu => ⟨aside_addSlot.good_of_log hu.2 rfl, ?_⟩)
  refine wp_mono (h hX (hs.later hu.1).addSlot) ?_ ?_
  all_goals
    intro a v hv
    exact ⟨hv.built, fun t' ht' => hv.slots t' (Set.mem_insert_of_mem _ ht'), hv.free⟩

theorem runs_openResponse {turn : AiTurnRef} {entry : Uuid} :
    Runs settings i (Out i T) (openResponse settings i t turn entry) := by
  refine runs_slot (Runs.bind (runs_orderedWithContext fun ctx => ?_) fun sink => ?_)
  · exact runs_openWork (Set.mem_insert _ _)
  · apply runs_modify Out.stable
    · exact fun s => aside_same (fun _ h => h) rfl rfl rfl rfl rfl rfl rfl rfl rfl
    · exact fun _ => rfl

theorem runs_completeResponse [DecidableEq B] [DecidableEq U] [DecidableEq E]
    {turn : AiTurnRef} {entry : Uuid} {response : ModelResponse B U E} :
    Runs settings i (Out i T) (completeResponse settings i t turn entry response) := by
  refine Runs.bind (runs_contextFor Out.stable) fun ctx => runs_slot (runs_faulty ?_)
  exact runs_ordered (runs_completeWork (Set.mem_insert _ _))

theorem runs_discardResponse {entry : Uuid} :
    Runs settings i (Out i T) (discardResponse settings i t entry) :=
  runs_slot (runs_faulty (runs_ordered runs_discardWork))

theorem runs_openResult {turn : AiTurnRef} :
    Runs settings i (Out i T) (openResult settings i t turn) := by
  refine runs_slot (runs_orderedWithContext fun ctx => ?_)
  cases ctx with
  | none => exact runs_pure
  | some ctx => exact runs_withMem (runs_ensureTurn (Set.mem_insert _ _))

theorem runs_addInputTurn {turn : InputTurn β} :
    Runs settings i (Out i T) (addInputTurn settings i t turn) := by
  refine Runs.bind (runs_contextFor Out.stable) fun ctx => ?_
  refine Runs.bind (runs_faulty runs_ofExcept) fun body => runs_slot (runs_faulty ?_)
  exact runs_ordered (runs_withMem (runs_whole (Set.mem_insert _ _)))

theorem runs_entryIntoTurn {turn : AiTurnRef} {ctx : WriteContext} {entry : Uuid}
    {chunk : Chunk β} (h : chunk.isKeepalive = false) :
    Runs settings i (Out i T) (entryIntoTurn settings i t turn ctx entry chunk) := by
  refine runs_slot (runs_faulty (runs_ordered (runs_withMem ?_)))
  refine Runs.bind (runs_ensureTurn (Set.mem_insert _ _)) fun _ => ?_
  exact Runs.bind (runs_newId Inside.stable) fun id => runs_pushChunk h

/-- A chunk is made, and then goes into the turn. -/
theorem runs_chunk {J : Inner β D → Prop} {x : Except Error (Chunk β)}
    {k : Chunk β → Call β D PortError α}
    (h : ∀ chunk, x = .ok chunk → Runs settings i J (k chunk)) :
    Runs settings i J (do
      let chunk ← faulty (Prog.ofExcept x)
      k chunk) := by
  intro X s hX hs
  refine wp_bind (wp_mapError (wp_ofExcept (fun chunk hchunk => ?_) fun _ _ => hs))
  exact h chunk hchunk hX hs

theorem runs_addEntry {turn : AiTurnRef} {entry : TurnEntry β} :
    Runs settings i (Out i T) (addEntry settings i t turn entry) := by
  unfold addEntry
  split
  · exact runs_fail
  · exact runs_fail
  · refine runs_chunk fun chunk hchunk => ?_
    refine Runs.bind (runs_contextFor Out.stable) fun ctx => ?_
    exact runs_entryIntoTurn (entryChunk_isKeepalive hchunk)

theorem runs_completeResult {turn : AiTurnRef} {results : RuntimeToolResults β} :
    Runs settings i (Out i T) (completeResult settings i t turn results) := by
  refine runs_chunk fun chunk hchunk => ?_
  refine Runs.bind (runs_contextFor Out.stable) fun ctx => ?_
  exact runs_entryIntoTurn (entryChunk_isKeepalive hchunk)

theorem runs_addAnnotation {message entry : Uuid} {value : Threads.Annotation β} :
    Runs settings i (Out i T) ( addAnnotation settings i t message entry value) := by
  refine runs_chunk fun chunk hchunk => runs_slot (runs_faulty ?_)
  refine runs_ordered (runs_withMem (Runs.bind (runs_gets Inside.stable) fun held => ?_))
  split
  · exact runs_fail
  · split
    · exact runs_fail
    · split
      · exact runs_fail
      · refine Runs.bind (runs_newId Inside.stable) fun id => ?_
        exact runs_pushChunk (annotationChunk_isKeepalive hchunk)

theorem runs_closeTurn {turn : AiTurnRef} {reason : ClosureReason} :
    Runs settings i (Out i T) (closeTurn settings i t turn reason) := by
  refine Runs.bind (runs_faulty runs_ofExcept) fun kind => ?_
  refine Runs.bind (runs_contextFor Out.stable) fun ctx => runs_slot (runs_faulty ?_)
  exact runs_ordered (runs_closeWork (Set.mem_insert _ _))

theorem runs_drained : Runs settings i (Out i T) (drained t : Call β D ε Unit) := by
  refine Runs.bind (runs_gets Out.stable) fun there => ?_
  split
  · exact Runs.bind (runs_gets Out.stable) fun target => runs_wait Out.stable
  · exact runs_pure

theorem runs_setTip {tip : Option Uuid} : Runs settings i (Peek settings i t T)
    (Prog.modify (Inner.setTip · t tip) : Call β D ε Unit) := by
  intro X s _ hs u hu
  have hin := hs.later hu.1
  refine ⟨good_setTip hu.2 hin.lock, hin.built, hin.slots, hin.memLock, ?_⟩
  have hself : ((u.setTip t tip).mem t).turns = (u.mem t).turns := by
    simp [Inner.setTip, Inner.setMem]
  exact hin.fits.congr hself (fun _ => rfl) (le_refl _)

theorem runs_read : Runs settings i (Out i T) (read settings i t) := by
  refine Runs.bind runs_drained fun _ => ?_
  refine Runs.bind (runs_faulty (runs_call Out.stable fun _ => runs_ofExcept)) fun context => ?_
  split
  · exact runs_fail
  · exact runs_fail
  · refine runs_slot (Runs.bind (runs_peek runs_setTip) fun _ => ?_)
    split
    · exact runs_pure
    · exact runs_faulty runs_ofExcept

/-! ## Keepalives -/

theorem runs_dueAt {message : Uuid} :
    Runs settings i (Out i T) (dueAt settings i t message : Call β D ε (Option ℕ)) :=
  runs_peek (Runs.bind (runs_gets Peek.stable) fun _ => runs_pure)

theorem of_due {interval : ℕ} {message : Uuid} (h : s.due interval t message = true) :
    ∃ state, (s.mem t).turns.lookup message = some state ∧ state.closed = false ∧
      state.lastItemAt + interval ≤ s.now := by
  unfold Inner.due at h
  cases hheld : (s.mem t).turns.lookup message with
  | none =>
      rw [hheld] at h
      cases h
  | some state =>
      rw [hheld] at h
      exact ⟨state, rfl, by simpa using h⟩

/-- Under the guards a keepalive stays due, whatever the others do. -/
theorem keepaliveDue_of {u₁ u₂ u₃ : Inner β D} {message : Uuid}
    (hs : Inside settings i t T u₁)
    (hdue : u₁.due settings.keepaliveInterval t message = true) (h₁₂ : Rests i u₁ u₂)
    (hidle : (u₂.queue t).items = []) (h₂₃ : Rests i u₂ u₃) (hb : Base settings u₃)
    (hrefused : u₃.refused message = false) (hr : Rests i u₃ u) :
    KeepaliveDue settings.keepaliveInterval u.log t message u.now (u.queue t).items.length := by
  obtain ⟨state, hstate, hopen, hpassed⟩ := of_due hdue
  have h₁ : Rests i u₁ u := (h₁₂.trans h₂₃).trans hr
  have hstream := (h₁.turns t (Or.inl hs.order)).2.2 message
  have hquiet := (h₂₃.trans hr).idle t ((h₁₂.order t).mpr hs.order) hidle
  have hfit := hs.fits.fits message
  rw [hstate] at hfit
  obtain ⟨opening, rest, hitems, hopening, hrest⟩ := hfit.of_open hopen
  refine ⟨?_, fun x hx => ?_, fun item hitem hof => ?_, fun x hx => ?_, ?_⟩
  · have hmem : opening ∈ (stream t message u₁.log).map Prod.fst := by
      rw [hitems]
      exact List.mem_cons_self
    obtain ⟨x, hx, rfl⟩ := List.mem_map.mp hmem
    exact ⟨x, hstream ▸ hx, hopening⟩
  · rw [hstream] at hx
    have hmem := List.mem_map_of_mem (f := Prod.fst) hx
    rw [hitems] at hmem
    rcases List.mem_cons.mp hmem with heq | hmem
    · rw [heq, hopening]
      exact ItemKind.noConfusion
    · rw [hrest.kind hmem]
      exact ItemKind.noConfusion
  · have hmarked := hb.refused t item (h₂₃.grown.mem (hquiet.refused item hitem))
    rw [hof, hrefused] at hmarked
    cases hmarked
  · rw [hstream] at hx
    have hlast := (hs.fits.lastItem message state hstate hopen).2 x hx
    have hnow := h₁.now
    omega
  · rw [hquiet.queue.1, hidle]
    rfl

theorem Fits.retry {lib : Library β} {held : Option (TurnState β)} {items : List (Item β)}
    (h : Fits lib held items) (now : ℕ) :
    Fits lib (held.map fun state => { state with lastItemAt := now }) items := by
  cases h with
  | none => exact Fits.none
  | opened hopen hopening hchunks => exact Fits.opened hopen hopening hchunks
  | closed hclosed hopening hchunks hclosing =>
      exact Fits.closed hclosed hopening hchunks hclosing
  | closedBy hclosed hchunks hclosing => exact Fits.closedBy hclosed hchunks hclosing

/-- Only the time of the next try is written. -/
theorem Inside.retryAt (message : Uuid) (h : Inside settings i t T s) (hb : Base settings s) :
    (protocol settings).Good i s (s.setMem t ((s.mem t).retryAt message s.now)) ∧
      Inside settings i t T (s.setMem t ((s.mem t).retryAt message s.now)) := by
  have hlookup : ∀ m, ((s.mem t).retryAt message s.now).turns.lookup m =
      if m = message then ((s.mem t).turns.lookup message).map fun state =>
        { state with lastItemAt := s.now }
      else (s.mem t).turns.lookup m :=
    fun m => Table.lookup_modify message _ (s.mem t).turns m
  have hself : (s.setMem t ((s.mem t).retryAt message s.now)).mem t =
      (s.mem t).retryAt message s.now := by
    simp [Inner.setMem]
  refine ⟨good_setMem hb h.lock (Or.inl h.order) (fun m state hstate => ?_) ?_ (hb.lanes t), ?_⟩
  · rw [hlookup]
    split
    · subst m
      refine ⟨{ state with lastItemAt := s.now }, ?_, rfl⟩
      rw [hstate]
      rfl
    · exact ⟨state, hstate, rfl⟩
  · by_cases hslot : t ∈ s.slots
    · exact Or.inl hslot
    · right
      have hempty := hb.slots t hslot
      show Table.modify message _ (s.mem t).turns = _
      rw [hempty]
      rfl
  · refine ⟨⟨h.built, h.slots, h.memLock, fun m => ?_, h.fits.times, fun m state hstate hopen => ?_⟩,
      h.order⟩
    · rw [hself, hlookup]
      split
      · subst m
        exact (h.fits.fits message).retry s.now
      · exact h.fits.fits m
    · rw [hself, hlookup] at hstate
      split at hstate
      · subst m
        obtain ⟨old, hold, rfl⟩ := Option.map_eq_some_iff.mp hstate
        exact ⟨le_refl _, h.fits.times message⟩
      · exact h.fits.lastItem m state hstate hopen

theorem Inside.mem_eq (h : Inside settings i t T s) (hr : Rests i s u) : u.mem t = s.mem t := by
  obtain ⟨hturns, hresponses, -⟩ := hr.turns t (Or.inl h.order)
  have htip := hr.tip t h.lock
  cases hu : u.mem t
  cases hs : s.mem t
  simp only [hu, hs] at hturns hresponses htip
  subst hturns hresponses htip
  rfl

theorem Inside.observe {obs : Obs β} (h : Inside settings i t T s) (hplain : obs.plain = true) :
    Inside settings i t T (s.observe obs) :=
  h.rests (aside_observe hplain).rests

/-- The work of a tick: what it has decided holds when its item is accepted, and if the item is
not kept, the thread is as it was. -/
theorem runs_keepaliveWork {message : Uuid} :
    Runs settings i (Under i t T) (keepaliveWork settings i t message) := by
  refine runs_withMem ?_
  intro X s hX hs
  refine wp_bind (wp_gets fun u₁ h₁ => wp_bind (wp_gets fun u₂ h₂ => wp_bind (wp_gets ?_)))
  intro u₃ h₃
  have hin₁ := hs.later h₁.1
  have hin₃ := (hin₁.later h₂.1).later h₃.1
  show (actions settings).wp i X _ _ (if _ then _ else _) _
  split
  · exact hin₃
  rename_i hgo
  obtain ⟨hdue, hidle, hrefused⟩ : u₁.due settings.keepaliveInterval t message = true ∧
      (u₂.queue t).items = [] ∧ u₃.refused message = false := by
    simpa [and_assoc] using hgo
  have hkeepalive := fun u =>
    keepaliveDue_of (u := u) hin₁ hdue h₂.1.toRests hidle h₃.1.toRests h₃.2 hrefused
  refine wp_bind (wp_newId fun id u₄ h₄ => wp_bind (wp_modify fun u₅ h₅ => ?_))
  have h₃₅ : Relies i u₃ u₅ := h₄.1.trans h₅.1
  have hin₅ := hin₃.later h₃₅
  have hempty : (u₅.queue t).items = [] :=
    (((h₃.1.trans h₃₅).idle t (hin₁.later h₂.1).order hidle).queue.1).trans hidle
  have hother : ∀ j, j ≠ i →
      (Obs.decided i t message (u₅.mem t) (u₅.queue t)).decided? j = none :=
    fun j hj => if_neg hj.symm
  refine ⟨good_observe rfl h₅.2 trivial hother, wp_bind (wp_attempt ?_)⟩
  -- the tick has decided
  have hnoted : Rests i u₅ (u₅.observe (.decided i t message (u₅.mem t) (u₅.queue t))) :=
    (aside_observe rfl).rests
  refine wp_pushChunk hX (hin₅.observe rfl) ?_ (fun _ hv => hv) fun error u hu => ?_
  · exact fun _ u hu => hkeepalive u ((h₃₅.toRests.trans hnoted).trans hu.1.toRests)
  -- it was not kept
  refine wp_bind (wp_modify fun v₁ k₁ => ?_)
  have h₅₁ : Rests i u₅ v₁ := (hnoted.trans hu.1.toRests).trans k₁.1.toRests
  have hin := hin₅.rests h₅₁
  obtain ⟨hgood, hretry⟩ := hin.retryAt message k₁.2
  refine ⟨hgood, wp_bind (wp_modify fun v₂ k₂ => ?_)⟩
  have hrule : Rule settings.keepaliveInterval v₂.log
      (.unkept i t message error (v₂.mem t) (v₂.queue t)) := by
    refine ⟨u₅.mem t, u₅.queue t, v₁.now, ?_, ?_, hempty, ?_⟩
    · have hnow : decisions i v₂.log = decisions i u₅.log ++
          [(t, message, u₅.mem t, u₅.queue t)] := by
        rw [k₂.1.decided]
        show decisions i v₁.log = _
        rw [(hu.1.trans k₁.1).decided]
        simp [decisions, Inner.observe, Obs.decided?]
      rw [hnow, List.getLast?_concat]
    · rw [hretry.mem_eq k₂.1.toRests, ← hin₅.mem_eq h₅₁]
      simp [Inner.setMem]
    · have hqueue := (h₅₁.idle t hin₅.order hempty).queue
      exact hqueue.trans (k₂.1.idle t hretry.order (hqueue.1.trans hempty)).queue
  have hin₂ := hretry.later k₂.1
  refine ⟨good_observe rfl k₂.2 hrule fun _ _ => rfl, wp_modify fun v₃ k₃ => ?_⟩
  exact ⟨good_observe rfl k₃.2 trivial fun _ _ => rfl,
    ((hin₂.observe rfl).later k₃.1).observe rfl⟩

theorem runs_keepalives {message : Uuid} {rounds : ℕ} :
    Runs settings i (Out i T) (keepalives settings i t message rounds : Call β D ε Unit) := by
  induction rounds with
  | zero => exact runs_pure
  | succ rounds ih =>
      refine Runs.bind (runs_gets Out.stable) fun stopped => ?_
      refine Runs.bind (runs_gets Out.stable) fun refused => ?_
      split
      · exact runs_pure
      · refine Runs.bind runs_dueAt fun due => ?_
        split
        · exact runs_pure
        · refine Runs.bind (runs_gets Out.stable) fun now => ?_
          split
          · exact Runs.bind (runs_wait Out.stable) fun _ => ih
          · refine Runs.bind (runs_wait Out.stable) fun _ => ?_
            refine Runs.bind (Runs.bind ?_ fun _ => runs_pure) fun _ => ih
            exact Runs.attempt (runs_ordered runs_keepaliveWork)

theorem runs_keepaliveTask {task rounds : ℕ} :
    Runs settings i (Out i T) (keepaliveTask settings i task rounds : Call β D ε Unit) := by
  refine Runs.bind (runs_wait Out.stable) fun _ => ?_
  apply runs_atom Out.stable
  · exact fun s => aside_same (fun _ h => h) rfl rfl rfl rfl rfl rfl rfl rfl rfl
  · exact fun _ => rfl
  · intro s
    split
    · exact runs_keepalives
    · exact runs_pure

/-! ## The end of an instance -/

/-- Of the turns of the agent in the memory `mem`, each is held on one of the threads `rest`, or
has been taken off its thread. -/
structure Ending (i : ℕ) (agent : Uuid) (pre : List (Obs β)) (mem : ThreadRef → Mem β)
    (rest : List ThreadRef) (s : Inner β D) : Prop where
  log : ∃ after, s.log = pre ++ .ending i agent mem :: after ∧
    ∀ t message state, (mem t).turns.lookup message = some state → state.agent = agent →
      t ∈ rest ∧ Holds s t message agent ∨ ∃ obs ∈ after, obs.drops t message = true

variable {agent : Uuid} {pre : List (Obs β)} {mem : ThreadRef → Mem β}
  {rest rest' : List ThreadRef}

theorem Ending.grown (h : Ending i agent pre mem rest s) (hg : Grown s u) :
    Ending i agent pre mem rest u := by
  obtain ⟨after, hlog, hall⟩ := h.log
  obtain ⟨more, hmore, hheld⟩ := hg
  refine ⟨after ++ more, by simp [hmore, hlog], fun t message state hstate hagent => ?_⟩
  rcases hall t message state hstate hagent with ⟨ht, hholds⟩ | ⟨obs, hobs, hdrops⟩
  · rcases hheld t message agent hholds with hholds | ⟨obs, hobs, hdrops⟩
    · exact Or.inl ⟨ht, hholds⟩
    · exact Or.inr ⟨obs, List.mem_append_right _ hobs, hdrops⟩
  · exact Or.inr ⟨obs, List.mem_append_left _ hobs, hdrops⟩

theorem Ending.same (h : Ending i agent pre mem rest s) (hlog : u.log = s.log)
    (hmem : u.mem = s.mem) : Ending i agent pre mem rest u := by
  refine h.grown ⟨[], by rw [hlog, List.append_nil], fun t message agent hholds => Or.inl ?_⟩
  unfold Holds at hholds ⊢
  rwa [hmem]

/-- A thread where the agent holds no turn is no more to be gone to. -/
theorem Ending.leave (h : Ending i agent pre mem rest s)
    (hnone : ∀ message, ¬ Holds s t message agent)
    (hrest : ∀ t' ∈ rest, t' = t ∨ t' ∈ rest') : Ending i agent pre mem rest' s := by
  obtain ⟨after, hlog, hall⟩ := h.log
  refine ⟨after, hlog, fun t' message state hstate hagent => ?_⟩
  rcases hall t' message state hstate hagent with ⟨ht', hholds⟩ | hdropped
  · rcases hrest t' ht' with rfl | hin
    · exact absurd hholds (hnone message)
    · exact Or.inl ⟨hin, hholds⟩
  · exact Or.inr hdropped

theorem Ending.mono (h : Ending i agent pre mem rest s) (hrest : ∀ t' ∈ rest, t' ∈ rest') :
    Ending i agent pre mem rest' s := by
  obtain ⟨after, hlog, hall⟩ := h.log
  refine ⟨after, hlog, fun t' message state hstate hagent => ?_⟩
  exact (hall t' message state hstate hagent).imp_left fun h => ⟨hrest t' h.1, h.2⟩

/-- The end that the call has begun goes along with a scope. -/
theorem Stable.ending {J : Inner β D → Prop} (hJ : Stable settings i J) :
    Stable settings i fun s => J s ∧ Ending i agent pre mem rest s where
  later := fun h hr => ⟨hJ.later h.1 hr, h.2.grown hr.grown⟩
  calm := fun h => hJ.calm h.1

theorem Mem.not_holds_of_holdsOf (h : (s.mem t).holdsOf agent = false) (message : Uuid) :
    ¬ Holds s t message agent := by
  rintro ⟨state, hstate, hagent⟩
  have hmem : message ∈ (s.mem t).turnsOf agent := Mem.mem_turnsOf.mpr ⟨state, hstate, hagent⟩
  obtain ⟨hturns, -⟩ : (s.mem t).turnsOf agent = [] ∧ (s.mem t).responsesOf agent = [] := by
    simpa [Mem.holdsOf] using h
  rw [hturns] at hmem
  cases hmem

theorem releaseMem_log : (s.releaseMem i t).log = s.log := by
  unfold Inner.releaseMem
  split <;> rfl

theorem releaseMem_mem : (s.releaseMem i t).mem = s.mem := by
  unfold Inner.releaseMem
  split <;> rfl

theorem releaseOrder_log : (s.releaseOrder i t).log = s.log := by
  unfold Inner.releaseOrder
  split <;> rfl

theorem releaseOrder_mem : (s.releaseOrder i t).mem = s.mem := by
  unfold Inner.releaseOrder
  split <;> rfl

theorem Holds.of_turns {message : Uuid} (h : Holds u t message agent)
    (hturns : (u.mem t).turns = (s.mem t).turns) : Holds s t message agent := by
  obtain ⟨state, hstate, hagent⟩ := h
  exact ⟨state, hturns ▸ hstate, hagent⟩

theorem wp_involved {R : ε → Inner β D → Prop} {before : List ThreadRef}
    (hX : Lets settings i X) (hs : Out i T s)
    (hending : Ending i agent pre mem (before ++ t :: rest) s) :
    (actions settings).wp i X (fun found u => Out i T u ∧
      Ending i agent pre mem (before ++ found.toList.map Prod.fst ++ rest) u) R
      (involved i agent t : Call β D ε (Option (ThreadRef × ℕ))) s := by
  refine wp_bind (wp_gets fun u₁ h₁ => wp_bind (wp_withMem hX (hs.later h₁.1) ?_))
  intro u₂ h₂ hpeek
  have hending₂ : Ending i agent pre mem (before ++ t :: rest) (u₂.takeMem i t) :=
    ((hending.grown h₁.1.grown).grown h₂.1.grown).same rfl rfl
  refine wp_gets fun v hv => ⟨hpeek.later hv.1, fun w hw => ?_⟩
  have hout := ((hpeek.later hv.1).later hw.1).releaseMem
  have hending_w : Ending i agent pre mem (before ++ t :: rest) (w.releaseMem i t) :=
    ((hending₂.grown hv.1.grown).grown hw.1.grown).same releaseMem_log releaseMem_mem
  show (actions settings).wp i X _ _ (if _ then _ else _) _
  split
  · refine wp_bind (wp_gets fun x hx => ⟨hout.later hx.1, ?_⟩)
    exact (hending_w.grown hx.1.grown).mono (by simp)
  · rename_i hnot
    have hrest : ∀ t' ∈ before ++ t :: rest, t' = t ∨ t' ∈ before ++ [] ++ rest := by
      intro t' ht'
      simp only [List.mem_append, List.mem_cons] at ht'
      simp only [List.append_nil, List.mem_append]
      tauto
    refine ⟨hout, hending_w.leave (fun message hholds => ?_) hrest⟩
    have hfree : (v.mem t).holdsOf agent = false := by
      simp only [Bool.or_eq_true, not_or, Bool.not_eq_true] at hnot
      exact hnot.2
    have hturns := (hw.1.turns t (Or.inr (hpeek.later hv.1).lock)).1
    refine Mem.not_holds_of_holdsOf hfree message (hholds.of_turns ?_)
    rw [releaseMem_mem, hturns]

theorem wp_allInvolved {R : ε → Inner β D → Prop} {slots before : List ThreadRef}
    (hX : Lets settings i X) (hs : Out i T s)
    (hending : Ending i agent pre mem (before ++ slots) s) :
    (actions settings).wp i X (fun waits u => Out i T u ∧
      Ending i agent pre mem (before ++ waits.map Prod.fst) u) R
      (allInvolved i agent slots : Call β D ε (List (ThreadRef × ℕ))) s := by
  induction slots generalizing before s with
  | nil => exact ⟨hs, hending⟩
  | cons t slots ih =>
      refine wp_bind (wp_mono (wp_involved hX hs hending) (fun found u hu => ?_) fun _ _ h => h)
      refine wp_bind (wp_mono (ih hu.1 hu.2) (fun others v hv => ?_) fun _ _ h => h)
      refine ⟨hv.1, ?_⟩
      rw [List.map_append, ← List.append_assoc]
      exact hv.2

/-- What an end takes off a thread fits the log. -/
theorem Inside.dropAgent (h : Inside settings i t T s) :
    Inside settings i t T (s.dropAgent i t agent) := by
  have hself : (s.dropAgent i t agent).mem t = (s.mem t).without agent := by
    simp [Inner.dropAgent, Inner.observe, Inner.setMem]
  have hdrops : ∀ message, (Obs.dropped (β := β) i t agent ((s.mem t).turnsOf agent)).drops t
      message = decide (message ∈ (s.mem t).turnsOf agent) := by
    intro message
    simp [Obs.drops]
  have hstream : ∀ message, stream t message (s.dropAgent i t agent).log =
      if message ∈ (s.mem t).turnsOf agent then [] else stream t message s.log := by
    intro message
    show stream t message (s.log ++ [_]) = _
    rw [stream_snoc, hdrops]
    simp [Obs.item?]
  refine ⟨⟨h.built, h.slots, h.memLock, fun message => ?_, fun message x hx => ?_,
    fun message state hstate hopen => ?_⟩, h.order⟩
  · rw [hself, hstream, Mem.lookup_without]
    cases hheld : (s.mem t).turns.lookup message with
    | none =>
        have hnot : message ∉ (s.mem t).turnsOf agent := by
          intro hin
          obtain ⟨state, hstate, -⟩ := Mem.mem_turnsOf.mp hin
          rw [hheld] at hstate
          cases hstate
        rw [if_neg hnot]
        have hfit := h.fits.fits message
        rw [hheld] at hfit
        exact hfit
    | some state =>
        have hfit := h.fits.fits message
        rw [hheld] at hfit
        by_cases hagent : state.agent = agent
        · rw [if_pos (Mem.mem_turnsOf.mpr ⟨state, hheld, hagent⟩)]
          simp only [Option.filter_some, hagent, ne_eq, not_true_eq_false, decide_false]
          exact Fits.none
        · have hnot : message ∉ (s.mem t).turnsOf agent := by
            intro hin
            obtain ⟨state', hstate', hagent'⟩ := Mem.mem_turnsOf.mp hin
            rw [hheld] at hstate'
            cases hstate'
            exact hagent hagent'
          rw [if_neg hnot]
          simpa [Option.filter_some, hagent] using hfit
  · rw [hstream] at hx
    split at hx
    · cases hx
    · exact h.fits.times message x hx
  · rw [hself, Mem.lookup_without, Option.filter_eq_some_iff] at hstate
    obtain ⟨hlast, htimes⟩ := h.fits.lastItem message state hstate.1 hopen
    refine ⟨hlast, fun x hx => ?_⟩
    rw [hstream] at hx
    split at hx
    · cases hx
    · exact htimes x hx

theorem Ending.dropAgent (h : Ending i agent pre mem (t :: rest) s) :
    Ending i agent pre mem rest (s.dropAgent i t agent) := by
  obtain ⟨after, hlog, hall⟩ := h.log
  refine ⟨after ++ [.dropped i t agent ((s.mem t).turnsOf agent)], ?_, ?_⟩
  · show s.log ++ [_] = _
    rw [hlog]
    simp
  · intro t' message state hstate hagent
    rcases hall t' message state hstate hagent with ⟨ht', hholds⟩ | ⟨obs, hobs, hdrops⟩
    · by_cases heq : t' = t
      · subst t'
        right
        refine ⟨_, List.mem_append_right _ (List.mem_singleton.mpr rfl), decide_eq_true ⟨rfl, ?_⟩⟩
        exact Mem.mem_turnsOf.mpr hholds
      · left
        refine ⟨(List.mem_cons.mp ht').resolve_left heq, hholds.of_turns ?_⟩
        simp [Inner.dropAgent, Inner.observe, Inner.setMem, heq]
    · exact Or.inr ⟨obs, List.mem_append_left _ hobs, hdrops⟩

theorem wp_endOn {R : ε → Inner β D → Prop} (hX : Lets settings i X) (hs : Out i T s)
    (hending : Ending i agent pre mem (t :: rest) s) (herr : ∀ e u, Out i T u → R e u) :
    (actions settings).wp i X (fun _ u => Out i T u ∧ Ending i agent pre mem rest u) R
      (endOn i agent t : Call β D ε Unit) s := by
  refine wp_ordered hX hs fun u hu hunder => ?_
  have hending_u : Ending i agent pre mem (t :: rest) (u.takeOrder i t) :=
    (hending.grown hu.1.grown).same rfl rfl
  refine wp_bind (wp_withMem hX.releaseOrder hunder.toOut fun v hv hpeek => ?_)
  have hin := hunder.takeMem hv.1 hpeek
  have hending_v : Ending i agent pre mem (t :: rest) (v.takeMem i t) :=
    (hending_u.grown hv.1.grown).same rfl rfl
  refine wp_bind (wp_gets fun v₁ k₁ => wp_bind (wp_modify fun v₂ k₂ => ?_))
  have hin₂ := (hin.later k₁.1).later k₂.1
  have haside : Aside v₂ (v₂.unbreak ((v₁.mem t).turnsOf agent)) :=
    aside_same (fun _ h => h) rfl rfl rfl rfl rfl rfl rfl rfl rfl
  refine ⟨haside.good_of_log k₂.2 rfl, fun v₃ k₃ => ?_⟩
  have hr : Relies i (v.takeMem i t) v₃ :=
    (k₁.1.trans k₂.1).trans ((haside.relies rfl).trans k₃.1)
  have hin₃ := hin.later hr
  refine ⟨good_dropAgent k₃.2 hin₃.order hin₃.lock, hin₃.dropAgent.toPeek, fun w hw => ?_⟩
  have hin_w := hin₃.dropAgent.later hw.1
  have hending_w : Ending i agent pre mem rest (w.releaseMem i t) :=
    ((hending_v.grown hr.grown).dropAgent.grown hw.1.grown).same releaseMem_log releaseMem_mem
  -- the responses end
  have hends : Runs settings i (fun s => Under i t T s ∧ Ending i agent pre mem rest s)
      (Prog.each («end» i) ((v₃.mem t).responsesOf agent) : Call β D ε Unit) :=
    runs_each fun control _ => runs_end Under.stable.ending
  refine wp_mono (hends hX.releaseOrder ⟨hin_w.releaseMem, hending_w⟩) ?_ ?_
  · intro _ x hx y hy
    exact ⟨(hx.1.later hy.1).releaseOrder,
      (hx.2.grown hy.1.grown).same releaseOrder_log releaseOrder_mem⟩
  · intro e x hx y hy
    exact herr e _ (hx.1.later hy.1).releaseOrder

/-- When it returns, what it found is gone. -/
theorem runs_instanceEnded {order : Visit} :
    Runs settings i (Out i T) (instanceEnded i agent order : Call β D ε Unit) := by
  intro X s hX hs u hu
  refine ⟨good_observe rfl hu.2 trivial fun _ _ => rfl, ?_⟩
  have hout : Out i T (u.observe (.ending i agent u.mem)) :=
    (hs.later hu.1).later ((aside_observe rfl).relies (decisions_observe rfl))
  have hending : Ending i agent u.log u.mem ([] ++ order.visit u.slots)
      (u.observe (.ending i agent u.mem)) := by
    refine ⟨[], rfl, fun t message state hstate hagent => Or.inl ⟨?_, state, hstate, hagent⟩⟩
    exact (order.perm u.slots).mem_iff.mpr (slot_of_turn hu.2 hstate)
  refine wp_bind (wp_mono (wp_allInvolved hX hout hending) (fun waits v hv => ?_) fun _ _ h => h)
  -- the items of the agent that wait are waited for
  have hwaits : Runs settings i
      (fun s => Out i T s ∧ Ending i agent u.log u.mem (waits.map Prod.fst) s)
      (Prog.each (fun wait => waitPast wait.1 wait.2) waits : Call β D ε Unit) :=
    runs_each fun _ _ => runs_wait Out.stable.ending
  refine wp_bind (wp_mono (hwaits hX hv) (fun _ w hw => ?_) fun _ _ h => h.1)
  refine wp_bind (wp_mono (wp_each (J := fun waits s => Out i T s ∧
    Ending i agent u.log u.mem (waits.map Prod.fst) s) ?_ hw) (fun _ x hx => ?_) fun _ _ h => h)
  · intro wait rest x hx
    exact wp_endOn hX hx.1 hx.2 fun _ _ h => h
  · intro y hy
    obtain ⟨after, hlog, hall⟩ := (hx.2.grown hy.1.grown).log
    refine ⟨good_observe rfl hy.2 ⟨u.log, u.mem, after, hlog, ?_⟩ fun _ _ => rfl, ?_⟩
    · exact fun t message state hstate hagent =>
        (hall t message state hstate hagent).resolve_left fun h => by cases h.1
    · exact (hx.1.later hy.1).later ((aside_observe rfl).relies (decisions_observe rfl))

/-! ## The system -/

theorem base_init {draft : D} {leftovers : List (ThreadRef × Item β)} :
    Base settings (Inner.init draft leftovers) where
  built := fun _ _ => ⟨rfl, rfl⟩
  fits := by
    intro t _
    refine ⟨fun _ => Fits.none, fun message x hx => ?_, fun message state hstate => ?_⟩
    · cases hx
    · cases hstate
  front := fun _ _ hhead => by cases hhead
  refused := fun _ _ hitem => by cases hitem
  slots := fun _ _ => rfl
  lanes := fun _ _ _ hresponse => by cases hresponse
  rules := always_nil

section

variable [DecidableEq B] [DecidableEq U] [DecidableEq E]

theorem runs_body (op : Op β B U E) : Runs settings i (Out i T) (body settings i op) := by
  cases op with
  | addInputTurn t turn => exact runs_addInputTurn
  | addEntry t turn entry => exact runs_addEntry
  | completeResult t turn results => exact runs_completeResult
  | addAnnotation t message entry value => exact runs_addAnnotation
  | closeTurn t turn reason => exact runs_closeTurn
  | openResponse t turn entry => exact runs_openResponse
  | completeResponse t turn entry response => exact runs_completeResponse
  | discardResponse t entry => exact runs_discardResponse
  | openResult t turn => exact runs_openResult
  | send sink delta => exact runs_send
  | read t => exact Runs.bind (Runs.attempt runs_read) fun _ => runs_pure
  | instanceEnded agent order => exact runs_instanceEnded
  | keepalives task rounds => exact runs_keepaliveTask

/-- A call waits until the adapter is there, and holds no guard then. -/
theorem keeps_prog {leftovers : List (ThreadRef × Item β)} {op : Op β B U E}
    (hr : Relies i (Inner.init (settings.draft 0 0) leftovers) s) :
    (actions settings).Keeps i (prog settings i op) s := by
  refine wp_bind (wp_acquire (fun u hu => Good.same hu.2) fun u hu hbuilt => ?_)
  have hfree : ∀ t, u.memLock t ≠ some i := by
    intro t ht
    have hnone := ((hr.trans hu.1).memLock t).mp ht
    cases hnone
  refine ⟨Good.same hu.2, wp_mono (runs_body (T := ∅) op lets_id ⟨hbuilt, ?_, hfree⟩) ?_ ?_⟩
  · exact fun t ht => by cases ht
  · exact fun _ _ _ => trivial
  · exact fun _ _ _ => trivial

theorem world_kept {leftovers : List (ThreadRef × Item β)} :
    World.Kept (world settings leftovers) (actions settings) where
  init := base_init
  prog := fun _ _ _ _ hr => keeps_prog hr
  env := fun _ _ _ hb h => env_kept hb h

theorem base_of_reachable {leftovers : List (ThreadRef × Item β)}
    {s : Calls (Inner β D) Ask.Reply PortError}
    (h : (world settings leftovers).machine.Reachable s) : Base settings s.shared :=
  (World.sound_of_reachable world_kept h).inv

end

end RunnerKit.Threads.Ops
