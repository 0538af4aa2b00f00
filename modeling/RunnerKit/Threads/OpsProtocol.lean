import RunnerKit.Lib.Log
import RunnerKit.Lib.Rely
import RunnerKit.Threads.Ops

/-!
# What the operations of the adapter keep

The lock of a thread's memory guards what the memory says of the log: whoever takes it finds that
the items of each turn fit the turn (`Fits`), and has to leave it so. Turns change only under that
lock and the place in the order together, so a call that holds one of the two may rely on them.
While a call holds the order and no item waits, none comes, and no opening of the thread is
refused.

The worker of a thread only works on the first item that waits.
-/

namespace RunnerKit.Threads.Ops

open Lib
open Jobs (Uuid)
open Delivery (Ended QueueInner Queued TaskPlace)

variable {β D B U E : Type}

/-! ## Reading the log -/

/-- An end of an instance takes the turn of the message off the thread. -/
def Obs.drops (t : ThreadRef) (message : Uuid) : Obs β → Bool
  | .dropped _ t' _ turns => decide (t' = t ∧ message ∈ turns)
  | _ => false

/-- An item of an AI turn is accepted, at a time. -/
def Obs.item? (t : ThreadRef) (message : Uuid) : Obs β → Option (Item β × ℕ)
  | .queued _ t' item time _ | .unsent _ t' item time _ =>
      if t' = t ∧ item.message = message ∧ item.kind ≠ .wholeMessage then some (item, time)
      else none
  | _ => none

/-- What was accepted for the turn of a message, since the last end of an instance that took it
off its thread. -/
def stream (t : ThreadRef) (message : Uuid) (log : List (Obs β)) : List (Item β × ℕ) :=
  (since (Obs.drops t message) log).filterMap (Obs.item? t message)

/-- What leaves the streams of a thread as they are. -/
def Obs.passes (t : ThreadRef) : Obs β → Bool
  | .queued _ t' _ _ _ | .unsent _ t' _ _ _ | .dropped _ t' _ _ => decide (t' ≠ t)
  | _ => true

section Log

variable {t : ThreadRef} {message : Uuid} {log more : List (Obs β)} {obs : Obs β}

@[simp] theorem stream_nil : stream t message ([] : List (Obs β)) = [] := rfl

theorem stream_snoc : stream t message (log ++ [obs]) =
    if obs.drops t message then [] else stream t message log ++ (obs.item? t message).toList := by
  unfold stream
  rw [since_snoc]
  split
  · rfl
  · rw [List.filterMap_append]
    cases h : obs.item? t message <;> simp [h]

theorem Obs.drops_of_passes (h : obs.passes t = true) : obs.drops t message = false := by
  cases obs with
  | dropped i t' agent turns =>
      have hne : t' ≠ t := of_decide_eq_true h
      simp [Obs.drops, hne]
  | _ => rfl

theorem Obs.item?_of_passes (h : obs.passes t = true) : obs.item? t message = none := by
  cases obs with
  | queued i t' item time waiting =>
      have hne : t' ≠ t := of_decide_eq_true h
      simp [Obs.item?, hne]
  | unsent i t' item time waiting =>
      have hne : t' ≠ t := of_decide_eq_true h
      simp [Obs.item?, hne]
  | _ => rfl

theorem stream_append (h : ∀ obs ∈ more, obs.passes t = true) :
    stream t message (log ++ more) = stream t message log := by
  induction more using List.reverseRecOn with
  | nil => rw [List.append_nil]
  | append_singleton more obs ih =>
      have hobs : obs.passes t = true := h obs (by simp)
      rw [← List.append_assoc, stream_snoc, Obs.drops_of_passes hobs, Obs.item?_of_passes hobs,
        ih fun x hx => h x (List.mem_append_left _ hx)]
      simp

end Log

/-! ## The items of a turn -/

/-- The chunks with their numbers. -/
def Chunked (chunks : List (Chunk β)) (items : List (Item β)) : Prop :=
  items.map (fun item => (item.kind, item.payload)) =
    chunks.mapIdx fun seq chunk => (ItemKind.chunk, Payload.chunk (UInt64.ofNat seq) chunk)

/-- A closing, whose seal, if it has one, is the seal of the chunks. -/
structure Closes (lib : Library β) (chunks : List (Chunk β)) (item : Item β) : Prop where
  kind : item.kind = .closing
  streamSeal : ∀ body, item.payload = .command body → ∀ streamSeal,
    body.streamSeal? = some streamSeal → sealOf lib chunks = .ok streamSeal

/-- The accepted items of a message and the state of its turn. -/
inductive Fits (lib : Library β) : Option (TurnState β) → List (Item β) → Prop
  | none : Fits lib none []
  | opened {state : TurnState β} {opening : Item β} {items : List (Item β)}
      (hopen : state.closed = false) (hopening : opening.kind = .opening)
      (hchunks : Chunked state.chunks items) : Fits lib (some state) (opening :: items)
  | closed {state : TurnState β} {opening closing : Item β} {items : List (Item β)}
      (hclosed : state.closed = true) (hopening : opening.kind = .opening)
      (hchunks : Chunked state.chunks items) (hclosing : Closes lib state.chunks closing) :
      Fits lib (some state) (opening :: items ++ [closing])
  /-- A closing was accepted for a turn that was not held. -/
  | closedBy {state : TurnState β} {closing : Item β} (hclosed : state.closed = true)
      (hchunks : state.chunks = []) (hclosing : Closes lib [] closing) :
      Fits lib (some state) [closing]

/-- What the memory of a thread says of the log. -/
structure MemFits (lib : Library β) (t : ThreadRef) (s : Inner β D) : Prop where
  fits : ∀ message, Fits lib ((s.mem t).turns.lookup message)
    ((stream t message s.log).map Prod.fst)
  times : ∀ message, ∀ x ∈ stream t message s.log, x.2 ≤ s.now
  lastItem : ∀ message state, (s.mem t).turns.lookup message = some state →
    state.closed = false →
      state.lastItemAt ≤ s.now ∧ ∀ x ∈ stream t message s.log, x.2 ≤ state.lastItemAt

theorem Chunked.kind {chunks : List (Chunk β)} {items : List (Item β)} (h : Chunked chunks items)
    {item : Item β} (hitem : item ∈ items) : item.kind = .chunk := by
  have hmem : (item.kind, item.payload) ∈ items.map fun item => (item.kind, item.payload) :=
    List.mem_map_of_mem hitem
  rw [h, List.mem_mapIdx] at hmem
  obtain ⟨seq, hseq, heq⟩ := hmem
  exact (congrArg Prod.fst heq).symm

theorem Chunked.snoc {chunks : List (Chunk β)} {items : List (Item β)} (h : Chunked chunks items)
    {chunk : Chunk β} {item : Item β} (hkind : item.kind = .chunk)
    (hpayload : item.payload = .chunk (UInt64.ofNat chunks.length) chunk) :
    Chunked (chunks ++ [chunk]) (items ++ [item]) := by
  unfold Chunked at h ⊢
  rw [List.map_append, h, List.mapIdx_concat]
  simp [hkind, hpayload]

/-- An open turn was opened and not closed. -/
theorem Fits.of_open {lib : Library β} {state : TurnState β} {items : List (Item β)}
    (h : Fits lib (some state) items) (hopen : state.closed = false) :
    ∃ opening rest, items = opening :: rest ∧ opening.kind = .opening ∧
      Chunked state.chunks rest := by
  cases h with
  | opened _ hopening hchunks => exact ⟨_, _, rfl, hopening, hchunks⟩
  | closed hclosed => simp [hopen] at hclosed
  | closedBy hclosed => simp [hopen] at hclosed

/-! ## The rules of the log -/

def isKeepalive (item : Item β) : Bool :=
  match item.payload with
  | .chunk _ chunk => chunk.isKeepalive
  | .command _ => false

/-- A keepalive of the turn may be accepted. -/
structure KeepaliveDue (interval : ℕ) (pre : List (Obs β)) (t : ThreadRef) (message : Uuid)
    (time waiting : ℕ) : Prop where
  opened : ∃ x ∈ stream t message pre, x.1.kind = .opening
  unclosed : ∀ x ∈ stream t message pre, x.1.kind ≠ .closing
  unrefused : ∀ item, .refused t item ∈ pre → item.message ≠ message
  passed : ∀ x ∈ stream t message pre, x.2 + interval ≤ time
  idle : waiting = 0

/-- The queues differ at most in what says that the worker goes on. -/
def SameQueue (queue queue' : QueueInner β) : Prop :=
  queue'.items = queue.items ∧ queue'.lastFailure = queue.lastFailure ∧
    queue'.dropped = queue.dropped ∧ queue'.lastNo = queue.lastNo

/-- What a tick of the call `i` has decided on: the memory and the queue of its thread. -/
def Obs.decided? (i : ℕ) : Obs β → Option (ThreadRef × Uuid × Mem β × QueueInner β)
  | .decided j t message mem queue => if j = i then some (t, message, mem, queue) else none
  | _ => none

/-- The decisions of the call in their order. -/
def decisions (i : ℕ) (log : List (Obs β)) : List (ThreadRef × Uuid × Mem β × QueueInner β) :=
  log.filterMap (Obs.decided? i)

theorem decisions_append {i : ℕ} {log more : List (Obs β)}
    (h : ∀ obs ∈ more, obs.decided? i = none) : decisions i (log ++ more) = decisions i log := by
  unfold decisions
  rw [List.filterMap_append, List.filterMap_eq_nil_iff.mpr h, List.append_nil]

/-- Of the turns of the agent that the call found, each has been taken off its thread since. -/
def AllDropped (i : ℕ) (agent : Uuid) (pre : List (Obs β)) : Prop :=
  ∃ before mem after, pre = before ++ .ending i agent mem :: after ∧
    ∀ t message state, (mem t).turns.lookup message = some state → state.agent = agent →
      ∃ obs ∈ after, obs.drops t message = true

def Rule (interval : ℕ) (pre : List (Obs β)) : Obs β → Prop
  | .queued _ t item time waiting | .unsent _ t item time waiting =>
      isKeepalive item = true → KeepaliveDue interval pre t item.message time waiting
  | .unkept i t message _ mem queue =>
      ∃ before queue' now, (decisions i pre).getLast? = some (t, message, before, queue') ∧
        mem = before.retryAt message now ∧ queue'.items = [] ∧ SameQueue queue' queue
  | .returned i agent => AllDropped i agent pre
  | _ => True

/-! ## The protocol -/

/-- The item that a worker is at. -/
def headOf : TaskPlace β → Option (Queued β)
  | .took head | .attempting head | .answered head _ | .sleeping head | .ending head _
  | .popping head _ => some head
  | _ => none

structure Base (settings : Settings β D B U E) (s : Inner β D) : Prop where
  built : s.built = false → ∀ t, s.order t = none ∧ s.memLock t = none
  fits : ∀ t, s.memLock t = none → MemFits settings.lib t s
  front : ∀ t head, headOf (s.worker t) = some head → (s.queue t).items.head? = some head
  refused : ∀ t item, .refused t item ∈ s.log → s.refused item.message = true
  slots : ∀ t, t ∉ s.slots → (s.mem t).turns = ∅
  lanes : ∀ t entry response, (s.mem t).responses.lookup entry = some response →
    response.control.thread = t
  rules : Always (Rule settings.keepaliveInterval) s.log

/-- The agent holds the turn. -/
def Holds (s : Inner β D) (t : ThreadRef) (message agent : Uuid) : Prop :=
  ∃ state, (s.mem t).turns.lookup message = some state ∧ state.agent = agent

/-- The log has grown, and who held a turn holds it, or it was taken off. -/
def Grown (s s' : Inner β D) : Prop :=
  ∃ more, s'.log = s.log ++ more ∧ ∀ t message agent, Holds s t message agent →
    Holds s' t message agent ∨ ∃ obs ∈ more, obs.drops t message = true

/-- The queue of the thread, where nothing waits, and the refusals are as they were. -/
structure Quiet (s s' : Inner β D) (t : ThreadRef) : Prop where
  queue : SameQueue (s.queue t) (s'.queue t)
  refused : ∀ item, .refused t item ∈ s'.log → .refused t item ∈ s.log

/-- What a call has found stays so, as long as only others go on or it only notes something. -/
structure Rests (i : ℕ) (s s' : Inner β D) : Prop where
  slots : ∀ t ∈ s.slots, t ∈ s'.slots
  now : s.now ≤ s'.now
  built : s.built = true → s'.built = true
  order : ∀ t, s'.order t = some i ↔ s.order t = some i
  memLock : ∀ t, s'.memLock t = some i ↔ s.memLock t = some i
  turns : ∀ t, s.order t = some i ∨ s.memLock t = some i →
    (s'.mem t).turns = (s.mem t).turns ∧ (s'.mem t).responses = (s.mem t).responses ∧
      ∀ message, stream t message s'.log = stream t message s.log
  tip : ∀ t, s.memLock t = some i → (s'.mem t).tip = (s.mem t).tip
  idle : ∀ t, s.order t = some i → (s.queue t).items = [] → Quiet s s' t
  grown : Grown s s'

structure Relies (i : ℕ) (s s' : Inner β D) : Prop extends Rests i s s' where
  /-- Nobody else decides for the call. -/
  decided : decisions i s'.log = decisions i s.log

theorem SameQueue.refl (queue : QueueInner β) : SameQueue queue queue := ⟨rfl, rfl, rfl, rfl⟩

theorem SameQueue.trans {a b c : QueueInner β} (h : SameQueue a b) (h' : SameQueue b c) :
    SameQueue a c :=
  ⟨h'.1.trans h.1, h'.2.1.trans h.2.1, h'.2.2.1.trans h.2.2.1, h'.2.2.2.trans h.2.2.2⟩

section

variable {i j : ℕ} {s s' u : Inner β D} {t : ThreadRef}

theorem Grown.refl (s : Inner β D) : Grown s s :=
  ⟨[], (List.append_nil _).symm, fun _ _ _ h => Or.inl h⟩

theorem Grown.trans (h : Grown s s') (h' : Grown s' u) : Grown s u := by
  obtain ⟨more, hlog, hheld⟩ := h
  obtain ⟨more', hlog', hheld'⟩ := h'
  refine ⟨more ++ more', by rw [hlog', hlog, List.append_assoc], ?_⟩
  intro t message agent hs
  rcases hheld t message agent hs with hs' | ⟨obs, hobs, hdrops⟩
  · rcases hheld' t message agent hs' with hu | ⟨obs, hobs, hdrops⟩
    · exact Or.inl hu
    · exact Or.inr ⟨obs, List.mem_append_right _ hobs, hdrops⟩
  · exact Or.inr ⟨obs, List.mem_append_left _ hobs, hdrops⟩

theorem Grown.mem (h : Grown s s') {obs : Obs β} (hobs : obs ∈ s.log) : obs ∈ s'.log := by
  obtain ⟨more, hlog, -⟩ := h
  rw [hlog]
  exact List.mem_append_left _ hobs

theorem Rests.refl (i : ℕ) (s : Inner β D) : Rests i s s where
  slots := fun _ h => h
  now := le_refl _
  built := id
  order := fun _ => Iff.rfl
  memLock := fun _ => Iff.rfl
  turns := fun _ _ => ⟨rfl, rfl, fun _ => rfl⟩
  tip := fun _ _ => rfl
  idle := fun _ _ _ => ⟨SameQueue.refl _, fun _ h => h⟩
  grown := Grown.refl s

theorem Rests.trans (h : Rests i s s') (h' : Rests i s' u) : Rests i s u where
  slots := fun t ht => h'.slots t (h.slots t ht)
  now := le_trans h.now h'.now
  built := fun hb => h'.built (h.built hb)
  order := fun t => (h'.order t).trans (h.order t)
  memLock := fun t => (h'.memLock t).trans (h.memLock t)
  turns := by
    intro t ht
    obtain ⟨hturns, hresponses, hstream⟩ := h.turns t ht
    have ht' : s'.order t = some i ∨ s'.memLock t = some i :=
      ht.imp (h.order t).mpr (h.memLock t).mpr
    obtain ⟨hturns', hresponses', hstream'⟩ := h'.turns t ht'
    exact ⟨hturns'.trans hturns, hresponses'.trans hresponses,
      fun message => (hstream' message).trans (hstream message)⟩
  tip := fun t ht => (h'.tip t ((h.memLock t).mpr ht)).trans (h.tip t ht)
  idle := by
    intro t ht hitems
    have hquiet := h.idle t ht hitems
    have hquiet' := h'.idle t ((h.order t).mpr ht) (hquiet.queue.1.trans hitems)
    exact ⟨hquiet.queue.trans hquiet'.queue,
      fun item hitem => hquiet.refused item (hquiet'.refused item hitem)⟩
  grown := h.grown.trans h'.grown

theorem Relies.refl (i : ℕ) (s : Inner β D) : Relies i s s := ⟨Rests.refl i s, rfl⟩

theorem Relies.trans (h : Relies i s s') (h' : Relies i s' u) : Relies i s u :=
  ⟨h.toRests.trans h'.toRests, h'.decided.trans h.decided⟩

end

def protocol (settings : Settings β D B U E) : Protocol (Inner β D) where
  inv := Base settings
  rely := Relies
  refl := Relies.refl
  trans := Relies.trans

end RunnerKit.Threads.Ops
