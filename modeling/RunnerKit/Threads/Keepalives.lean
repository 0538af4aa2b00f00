import RunnerKit.Threads.OpsKept

/-!
# Keepalives of a turn

A keepalive is decided on what the memory of its thread, the queue and the refusals say, and it is
accepted later, behind the wait for the store. What was decided on holds until then, so a keepalive
goes only to a turn that is open, after the interval, on a thread where nothing waits, and a tick
that comes late queues nothing. An end of an instance takes the state of a turn away; the next
operation of the turn opens it again, and then it has keepalives again.
-/

namespace RunnerKit.Threads.Ops

open Lib Lib.Protocol
open Jobs (Uuid)
open Delivery (QueueInner)
open Response (Messages)

variable {β D B U E : Type} {t : ThreadRef} {message : Uuid}

/-! ## What the log says of the keepalives -/

/-- What is accepted, when, and behind how many that wait. -/
def Obs.accepted? : Obs β → Option (ThreadRef × Item β × ℕ × ℕ)
  | .queued _ t item time waiting | .unsent _ t item time waiting => some (t, item, time, waiting)
  | _ => none

/-- A keepalive of the turn is accepted. -/
def Obs.Keeps (t : ThreadRef) (message : Uuid) (obs : Obs β) : Prop :=
  ∃ item time waiting, obs.accepted? = some (t, item, time, waiting) ∧ item.message = message ∧
    isKeepalive item = true

/-- An opening or a closing of the turn is accepted. -/
def Obs.Accepts (t : ThreadRef) (message : Uuid) (kind : ItemKind) (obs : Obs β) : Prop :=
  ∃ item time waiting, obs.accepted? = some (t, item, time, waiting) ∧ item.message = message ∧
    item.kind = kind

/-- An end of an instance took the turn off its thread, and then it was opened again. -/
def Reopened (t : ThreadRef) (message : Uuid) (log : List (Obs β)) : Prop :=
  ∃ (before after : List (Obs β)) (opening : Obs β), log = before ++ opening :: after ∧
    (∃ obs ∈ before, obs.drops t message = true) ∧ opening.Accepts t message .opening ∧
    ∀ obs ∈ after, obs.drops t message = false

structure KeepalivesKept (interval : ℕ) (log : List (Obs β)) : Prop where
  due : ∀ (pre post : List (Obs β)) (obs : Obs β) t item time waiting,
    log = pre ++ obs :: post → obs.accepted? = some (t, item, time, waiting) →
      isKeepalive item = true → KeepaliveDue interval pre t item.message time waiting
  closed : ∀ (pre mid post : List (Obs β)) (closing obs : Obs β) t message,
    log = pre ++ closing :: mid ++ obs :: post → closing.Accepts t message .closing →
      obs.Keeps t message → Reopened t message mid
  ended : ∀ (pre mid post : List (Obs β)) (obs : Obs β) i agent,
    log = pre ++ Obs.returned i agent :: mid ++ obs :: post →
      ∃ (before after : List (Obs β)) (mem : ThreadRef → Mem β),
        pre = before ++ Obs.ending i agent mem :: after ∧
          ∀ t message state, (mem t).turns.lookup message = some state → state.agent = agent →
            obs.Keeps t message → Reopened t message (after ++ Obs.returned i agent :: mid)
  /-- It is the last decision of the call whose item was not kept. -/
  unkept : ∀ (pre post : List (Obs β)) i t message error mem queue,
    log = pre ++ Obs.unkept i t message error mem queue :: post →
      ∃ before queue' now, (decisions i pre).getLast? = some (t, message, before, queue') ∧
        mem = before.retryAt message now ∧ SameQueue queue' queue

/-! ## From the rules -/

theorem item?_eq_some {obs : Obs β} {x : Item β × ℕ} : obs.item? t message = some x ↔
    ∃ waiting, obs.accepted? = some (t, x.1, x.2, waiting) ∧ x.1.message = message ∧
      x.1.kind ≠ .wholeMessage := by
  cases obs with
  | queued i t' item time waiting =>
      simp only [Obs.item?, Obs.accepted?, Option.ite_none_right_eq_some, Option.some.injEq,
        Prod.mk.injEq]
      constructor
      · rintro ⟨⟨rfl, hmessage, hkind⟩, rfl⟩
        exact ⟨waiting, ⟨rfl, rfl, rfl, rfl⟩, hmessage, hkind⟩
      · rintro ⟨_, ⟨rfl, rfl, rfl, -⟩, hmessage, hkind⟩
        exact ⟨⟨rfl, hmessage, hkind⟩, rfl⟩
  | unsent i t' item time waiting =>
      simp only [Obs.item?, Obs.accepted?, Option.ite_none_right_eq_some, Option.some.injEq,
        Prod.mk.injEq]
      constructor
      · rintro ⟨⟨rfl, hmessage, hkind⟩, rfl⟩
        exact ⟨waiting, ⟨rfl, rfl, rfl, rfl⟩, hmessage, hkind⟩
      · rintro ⟨_, ⟨rfl, rfl, rfl, -⟩, hmessage, hkind⟩
        exact ⟨⟨rfl, hmessage, hkind⟩, rfl⟩
  | _ => simp [Obs.item?, Obs.accepted?]

theorem mem_stream {log : List (Obs β)} {x : Item β × ℕ} : x ∈ stream t message log ↔
    ∃ pre obs post, log = pre ++ obs :: post ∧ obs.item? t message = some x ∧
      ∀ y ∈ obs :: post, y.drops t message = false := by
  unfold stream
  rw [List.mem_filterMap]
  constructor
  · rintro ⟨obs, hobs, hitem⟩
    obtain ⟨pre, post, hlog, hpost⟩ := mem_since.mp hobs
    exact ⟨pre, obs, post, hlog, hitem, hpost⟩
  · rintro ⟨pre, obs, post, hlog, hitem, hpost⟩
    exact ⟨obs, mem_since.mpr ⟨pre, post, hlog, hpost⟩, hitem⟩

theorem due_of_rules {interval : ℕ} {log pre post : List (Obs β)} {obs : Obs β} {item : Item β}
    {time waiting : ℕ} (hrules : Always (Rule interval) log) (hlog : log = pre ++ obs :: post)
    (haccepted : obs.accepted? = some (t, item, time, waiting))
    (hkeepalive : isKeepalive item = true) :
    KeepaliveDue interval pre t item.message time waiting := by
  have hrule := hrules pre obs post hlog
  cases obs with
  | queued i t' item' time' waiting' =>
      cases haccepted
      exact hrule hkeepalive
  | unsent i t' item' time' waiting' =>
      cases haccepted
      exact hrule hkeepalive
  | _ => cases haccepted

theorem Obs.Keeps.due {interval : ℕ} {log pre post : List (Obs β)} {obs : Obs β}
    (h : obs.Keeps t message) (hrules : Always (Rule interval) log)
    (hlog : log = pre ++ obs :: post) :
    ∃ time waiting, KeepaliveDue interval pre t message time waiting := by
  obtain ⟨item, time, waiting, haccepted, rfl, hkeepalive⟩ := h
  exact ⟨time, waiting, due_of_rules hrules hlog haccepted hkeepalive⟩

/-- The last opening of a turn that was taken off its thread is behind that. -/
theorem reopened_of_opened (pre : List (Obs β)) {mid : List (Obs β)}
    (hopened : ∃ x ∈ stream t message (pre ++ mid), x.1.kind = .opening)
    (hdropped : ∃ obs ∈ mid, obs.drops t message = true) : Reopened t message mid := by
  obtain ⟨x, hx, hkind⟩ := hopened
  obtain ⟨drop, hdrop, hdrops⟩ := hdropped
  obtain ⟨before, opening, after, hlog, hitem, hafter⟩ := mem_stream.mp hx
  obtain ⟨waiting, haccepted, hmessage, -⟩ := item?_eq_some.mp hitem
  have haccepts : opening.Accepts t message .opening :=
    ⟨x.1, x.2, waiting, haccepted, hmessage, hkind⟩
  rcases List.append_eq_append_iff.mp hlog with ⟨between, rfl, hmid⟩ | ⟨between, rfl, hmid⟩
  · refine ⟨between, after, opening, hmid, ⟨drop, ?_, hdrops⟩, haccepts, fun obs hobs => ?_⟩
    · rw [hmid] at hdrop
      refine (List.mem_append.mp hdrop).resolve_right fun hin => ?_
      exact Bool.false_ne_true ((hafter drop hin).symm.trans hdrops)
    · exact hafter obs (List.mem_cons_of_mem _ hobs)
  · -- the opening is older than the drop
    have hin : drop ∈ opening :: after := by
      rw [hmid]
      exact List.mem_append_right _ hdrop
    exact absurd ((hafter drop hin).symm.trans hdrops) Bool.false_ne_true

theorem kept_of_rules {interval : ℕ} {log : List (Obs β)} (h : Always (Rule interval) log) :
    KeepalivesKept interval log where
  due := fun _ _ _ _ _ _ _ hlog haccepted hkeepalive =>
    due_of_rules h hlog haccepted hkeepalive
  closed := by
    intro pre mid post closing obs t message hlog hcloses hkeeps
    obtain ⟨time, waiting, hdue⟩ := hkeeps.due h hlog
    have hdropped : ∃ drop ∈ closing :: mid, drop.drops t message = true := by
      by_contra hnot
      obtain ⟨item, time', waiting', haccepted, hmessage, hkind⟩ := hcloses
      have hin : (item, time') ∈ stream t message (pre ++ closing :: mid) := by
        refine mem_stream.mpr ⟨pre, closing, mid, rfl, ?_, fun y hy => ?_⟩
        · refine item?_eq_some.mpr ⟨waiting', haccepted, hmessage, ?_⟩
          rw [hkind]
          exact ItemKind.noConfusion
        · exact Bool.eq_false_iff.mpr fun hdrops => hnot ⟨y, hy, hdrops⟩
      exact hdue.unclosed _ hin hkind
    have hclosing : closing.drops t message = false := by
      obtain ⟨item, time', waiting', haccepted, -⟩ := hcloses
      cases closing with
      | queued => rfl
      | unsent => rfl
      | _ => cases haccepted
    have hmid : ∃ drop ∈ mid, drop.drops t message = true := by
      obtain ⟨drop, hdrop, hdrops⟩ := hdropped
      rcases List.mem_cons.mp hdrop with rfl | hdrop
      · exact absurd (hclosing.symm.trans hdrops) Bool.false_ne_true
      · exact ⟨drop, hdrop, hdrops⟩
    refine reopened_of_opened (pre ++ [closing]) ?_ hmid
    simpa using hdue.opened
  ended := by
    intro pre mid post obs i agent hlog
    obtain ⟨before, mem, after, rfl, hall⟩ : AllDropped i agent pre :=
      h pre (.returned i agent) (mid ++ obs :: post) (by simp [hlog])
    refine ⟨before, after, mem, rfl, fun t message state hstate hagent hkeeps => ?_⟩
    obtain ⟨time, waiting, hdue⟩ := hkeeps.due h hlog
    obtain ⟨drop, hdrop, hdrops⟩ := hall t message state hstate hagent
    refine reopened_of_opened (before ++ [.ending i agent mem]) ?_
      ⟨drop, List.mem_append_left _ hdrop, hdrops⟩
    simpa using hdue.opened
  unkept := by
    intro pre post i t message error mem queue hlog
    obtain ⟨before, queue', now, hdecided, hmem, -, hqueue⟩ := h pre _ post hlog
    exact ⟨before, queue', now, hdecided, hmem, hqueue⟩

/-- In every run of turn operations, sends, reads, keepalives, deliveries and ends of instances,
each dropped at any await, with every answer of the store and of Threads: a keepalive is accepted
only for a turn that was opened since the last end that took it off its thread, not closed since,
and never refused, the interval after its last item, and when nothing waits on the thread. After a
closing, or an end of its instance that found it, a turn has keepalives only once it was taken
off and opened again. A keepalive that is not kept leaves the queue, and all of the memory but the
time of the next try, as they were when it was decided. -/
theorem keepalives_kept [DecidableEq B] [DecidableEq U] [DecidableEq E]
    {settings : Settings β D B U E} {leftovers : List (ThreadRef × Item β)}
    {s : Calls (Inner β D) Ask.Reply PortError}
    (h : (world settings leftovers).machine.Reachable s) :
    KeepalivesKept settings.keepaliveInterval s.shared.log :=
  kept_of_rules (base_of_reachable h).rules

/-! ## A turn that is opened after its closing -/

def namingLibrary : Library Jobs.Value where
  sealHash := fun chunks => .ok (toString chunks.length)
  closureDetail := fun _ _ => .ok ()
  closureJson := fun _ => .ok (.string "closure")

def noMessages : Messages Unit Unit Unit Unit where
  fresh := ()
  turn _ := 0
  entry _ := 0
  apply _ _ := .error "unknown_operation"
  metadata _ := ⟨none, none, none⟩
  slots _ := []
  unstarted _ := true
  intoResponse _ := none
  blockId _ := 0

def tickSettings : Settings Jobs.Value Unit Unit Unit Unit where
  lib := namingLibrary
  json := plainJson
  messages := noMessages
  draft _ _ := ()
  deltaJson _ := .error "no delta"
  fromParts _ _ := .error "no conversation"
  newId n := BitVec.ofNat 128 (0x70008000000000000000 + n)
  keepaliveInterval := 1

theorem tick_isV7 : IsV7 0x70008000000000000001 := by decide

def tickThread : ThreadRef := ⟨0x70008000000000000001, tick_isV7⟩

def planned : AiTurnRef := ⟨9, 5, "planner"⟩

def asFound : Visit := ⟨id, fun _ => .refl _⟩

abbrev TickEvent := Event Ask.Reply (Op Jobs.Value Unit Unit Unit) Env

/-- The store keeps all, and there is a context. -/
def allKept : ∀ ask : Ask, ask.Reply
  | .context _ => (.ok ⟨5, "planner", none, none, none⟩ : Except PortError WriteContext)
  | .append _ => (.ok () : Except Error Unit)
  | .readContext _ => (.ok none : Except Error (Option Context))

def ticks (i n : ℕ) : List TickEvent := List.replicate n (.run i)

/-- The worker sends the item that waits, and looks again. -/
def sent (answer : Except Error (Option MessageStatus)) : List TickEvent :=
  [.env (.work tickThread), .env (.work tickThread), .env (.work tickThread),
    .env (.answer tickThread answer), .env (.work tickThread), .env (.work tickThread),
    .env (.work tickThread), .env (.goOn tickThread), .env (.work tickThread)]

/-- A turn that was never opened is closed, and Threads knows no such message; its instance ends;
then the turn is opened. -/
def reopenedRun : List TickEvent := List.flatten
  [.start (.closeTurn tickThread planned (.known .cancelled none)) :: ticks 0 1,
    .reply 0 allKept :: ticks 0 7, .reply 0 allKept :: ticks 0 6,
    sent (.error (.library "message_not_found")),
    .start (.instanceEnded 5 asFound) :: ticks 1 16,
    .start (.openResult tickThread planned) :: ticks 2 7, .reply 2 allKept :: ticks 2 6,
    .reply 2 allKept :: ticks 2 11, sent (.ok none),
    .env .tick :: .start (.keepalives 0 1) :: ticks 3 19, .reply 3 allKept :: ticks 3 6]

/-- What is read off the log of the run. -/
inductive Mark where
  | accepted (t : ThreadRef) (message : Uuid) (kind : ItemKind) (keepalive : Bool)
  | dropped (t : ThreadRef) (turns : List Uuid)
  | returned (agent : Uuid)
  | other
deriving DecidableEq

def Obs.mark : Obs β → Mark
  | .queued _ t item _ _ | .unsent _ t item _ _ =>
      .accepted t item.message item.kind (isKeepalive item)
  | .dropped _ t _ turns => .dropped t turns
  | .returned _ agent => .returned agent
  | _ => .other

def reopenedMarks : List Mark :=
  [.accepted tickThread 9 .closing false, .other, .other, .dropped tickThread [9], .returned 5,
    .accepted tickThread 9 .opening false, .other, .other, .accepted tickThread 9 .chunk true]

theorem reopened_run : ∃ s, (world tickSettings []).machine.run reopenedRun = some s ∧
    s.shared.log.map Obs.mark = reopenedMarks := by
  have hmarks : ((world tickSettings []).machine.run reopenedRun).map
      (fun s => s.shared.log.map Obs.mark) = some reopenedMarks := by decide +kernel
  exact Option.map_eq_some_iff.mp hmarks

theorem Obs.of_mark {obs : Obs β} {kind : ItemKind} {keepalive : Bool}
    (h : obs.mark = .accepted t message kind keepalive) :
    ∃ item time waiting, obs.accepted? = some (t, item, time, waiting) ∧
      item.message = message ∧ item.kind = kind ∧ isKeepalive item = keepalive := by
  cases obs with
  | queued i t' item time waiting =>
      obtain ⟨rfl, rfl, rfl, rfl⟩ := Mark.accepted.inj h
      exact ⟨item, time, waiting, rfl, rfl, rfl, rfl⟩
  | unsent i t' item time waiting =>
      obtain ⟨rfl, rfl, rfl, rfl⟩ := Mark.accepted.inj h
      exact ⟨item, time, waiting, rfl, rfl, rfl, rfl⟩
  | _ => cases h

/-- A keepalive is accepted for a turn after its closing was accepted, and after an end of its
instance that took it off its thread. -/
theorem keepalive_after_closing :
    ∃ (s : Calls (Inner Jobs.Value Unit) Ask.Reply PortError) (closing keepalive : Obs Jobs.Value),
      (world tickSettings []).machine.run reopenedRun = some s ∧
      s.shared.log[0]? = some closing ∧ closing.Accepts tickThread 9 .closing ∧
      (s.shared.log.map Obs.mark)[3]? = some (.dropped tickThread [9]) ∧
      (s.shared.log.map Obs.mark)[4]? = some (.returned 5) ∧
      s.shared.log[8]? = some keepalive ∧ keepalive.Keeps tickThread 9 := by
  obtain ⟨s, hrun, hmarks⟩ := reopened_run
  have hat : ∀ (k : ℕ) (mark : Mark), reopenedMarks[k]? = some mark →
      ∃ obs : Obs Jobs.Value, s.shared.log[k]? = some obs ∧ obs.mark = mark := by
    intro k mark hk
    rw [← hmarks, List.getElem?_map] at hk
    exact Option.map_eq_some_iff.mp hk
  obtain ⟨closing, hclosing, hcloses⟩ := hat 0 _ rfl
  obtain ⟨keepalive, hkeepalive, hkeeps⟩ := hat 8 _ rfl
  obtain ⟨item, time, waiting, haccepted, hmessage, hkind, -⟩ := Obs.of_mark hcloses
  obtain ⟨item', time', waiting', haccepted', hmessage', -, hkeeps⟩ := Obs.of_mark hkeeps
  refine ⟨s, closing, keepalive, hrun, hclosing, ⟨item, time, waiting, haccepted, hmessage, hkind⟩,
    ?_, ?_, hkeepalive, item', time', waiting', haccepted', hmessage', hkeeps⟩
  · rw [hmarks]
    rfl
  · rw [hmarks]
    rfl

theorem keepalives_kept_reopened :
    ∃ s, (world tickSettings []).machine.Reachable s ∧ KeepalivesKept 1 s.shared.log ∧
      s.shared.log.map Obs.mark = reopenedMarks := by
  obtain ⟨s, hrun, hmarks⟩ := reopened_run
  have hreach := Machine.reachable_of_run reopenedRun hrun
  exact ⟨s, hreach, keepalives_kept hreach, hmarks⟩

end RunnerKit.Threads.Ops
