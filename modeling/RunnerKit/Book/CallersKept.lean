import RunnerKit.Book.Callers
import RunnerKit.Lib.Log
import RunnerKit.Lib.Once

/-!
# What an agent book keeps under its callers

The book lists an agent only after its Registration was handed over: the lock of
the agents is held in between. A caller names an agent as the sender of a mail or
the owner of a mark only after it saw the agent in the book. So whatever the
callers do, each agent of the book has one Registration, and its mails and markers
are handed over behind it.
-/

namespace RunnerKit.Book

open RunnerKit.Jobs RunnerKit.Queue RunnerKit.Lib

/-! ## The indexes and the Registrations -/

def Write.isRegistration : Write → Bool
  | .registration _ _ => true
  | _ => false

namespace Agents

variable {agents : Agents} {key : AgentKey} {agentId : Uuid}

/-- The ids name the agents of the key map, and no others. -/
def Named (agents : Agents) : Prop :=
  ∀ agentId key, agents.byId agentId = some key →
    ∃ slot, agents.byKey key = some slot ∧ slot.agentId = agentId

theorem Indexed.listed_of_byKey {slot : Slot} (h : agents.Indexed)
    (hslot : agents.byKey key = some slot) :
    (⟨key, slot.agentId, slot.hasInbox⟩ : BookedAgent) ∈ agents.listed := by
  refine List.mem_filterMap.mpr ⟨key, ?_, ?_⟩
  · exact (h.held key).mpr (by simp [hslot])
  · simp [listedAgent, hslot]

theorem Indexed.byKey_eq_none (h : agents.Indexed) :
    agents.byKey key = none ↔ key ∉ agents.listed.map BookedAgent.key := by
  rw [h.keys, h.held]
  simp

theorem Named.add {hasInbox : Bool} {n : ℕ} (h : agents.Named)
    (hkey : agents.byKey key = none) :
    (agents.add key agentId hasInbox n).2.Named := by
  intro id k hid
  by_cases hold : id = agentId
  · subst hold
    have hk : key = k := by simpa [Agents.add] using hid
    subst hk
    exact ⟨⟨id, hasInbox, n⟩, by simp [Agents.add], rfl⟩
  · have hbefore : agents.byId id = some k := by simpa [Agents.add, hold] using hid
    obtain ⟨slot, hslot, hsame⟩ := h id k hbefore
    have hne : k ≠ key := by
      rintro rfl
      simp [hkey] at hslot
    exact ⟨slot, by simpa [Agents.add, hne] using hslot, hsame⟩

end Agents

/-- The Registration of an agent. -/
def AgentBook.declares (book : AgentBook) (agent : BookedAgent) : Write :=
  book.registration agent.agentId agent.hasInbox

def Registering.agent (r : Registering) : BookedAgent := ⟨r.key, r.agentId, r.hasInbox⟩

/-- The agent under the lock has its Registration, and is not in the book yet. -/
structure Waits (book : AgentBook) (r : Registering) : Prop where
  key : book.agents.byKey r.key = none
  v7 : isV7 r.agentId = true
  fresh : r.agentId ∉ book.listed.map BookedAgent.agentId
  handed : book.handed[r.registration]? = some (book.declares r.agent)

structure AgentsOk (book : AgentBook) (lock : Option Registering)
    (answers : List (AgentKey × Uuid)) : Prop where
  indexed : book.agents.Indexed
  named : book.agents.Named
  slots : ∀ key slot, book.agents.byKey key = some slot →
    book.handed[slot.registration]? = some (book.registration slot.agentId slot.hasInbox)
  waits : ∀ r, lock = some r → Waits book r
  registered : book.handed.filter Write.isRegistration =
    (book.listed ++ lock.toList.map Registering.agent).map book.declares
  answered : ∀ answer ∈ answers, ∃ agent ∈ book.listed, (agent.key, agent.agentId) = answer

namespace AgentsOk

variable {book : AgentBook} {lock : Option Registering} {answers : List (AgentKey × Uuid)}
  {write : Write} {r : Registering}

theorem empty (core : Work) (canRestart : Bool) :
    AgentsOk ⟨core, canRestart, Agents.default, []⟩ none [] := by
  refine ⟨Agents.Indexed.default, ?_, ?_, ?_, ?_, ?_⟩
  · intro agentId key hid
    simp [Agents.default] at hid
  · intro key slot hslot
    simp [Agents.default] at hslot
  · simp
  · simp [AgentBook.listed, Agents.listed, Agents.default]
  · simp

/-- What was handed over keeps its place. -/
theorem getElem?_handOver {n : ℕ} {w : Write} (h : book.handed[n]? = some w) :
    (book.handOver write).handed[n]? = some w := by
  obtain ⟨hn, -⟩ := List.getElem?_eq_some_iff.mp h
  simpa [AgentBook.handOver, List.getElem?_append_left hn] using h

/-- A write that registers nobody. -/
theorem handOver (h : AgentsOk book lock answers) (hwrite : Write.isRegistration write = false) :
    AgentsOk (book.handOver write) lock answers := by
  refine ⟨h.indexed, h.named, ?_, ?_, ?_, h.answered⟩
  · intro key slot hslot
    exact getElem?_handOver (h.slots key slot hslot)
  · intro r hr
    have hwaits := h.waits r hr
    exact ⟨hwaits.key, hwaits.v7, hwaits.fresh, getElem?_handOver hwaits.handed⟩
  · have hregistered := h.registered
    simp only [AgentBook.handOver, List.filter_append, hwrite, List.filter_cons,
      Bool.false_eq_true, if_false, List.filter_nil, List.append_nil]
    exact hregistered

/-- A key that is not in the book, with a fresh id: the Registration is handed over. -/
theorem register {key : AgentKey} {agentId : Uuid} (h : AgentsOk book none answers)
    (hkey : book.agents.byKey key = none) (hv7 : isV7 agentId = true)
    (hfresh : agentId ∉ book.listed.map BookedAgent.agentId) (c : ℕ) (hasInbox : Bool) :
    AgentsOk (book.handOver (book.registration agentId hasInbox))
      (some ⟨c, key, agentId, hasInbox, book.handed.length⟩) answers := by
  refine ⟨h.indexed, h.named, ?_, ?_, ?_, h.answered⟩
  · intro k slot hslot
    exact getElem?_handOver (h.slots k slot hslot)
  · intro r hr
    cases hr
    exact ⟨hkey, hv7, hfresh, by simp [AgentBook.handOver, AgentBook.declares,
      Registering.agent, AgentBook.registration]⟩
  · have hregistered := h.registered
    have hone : Write.isRegistration (book.registration agentId hasInbox) = true := rfl
    simp only [Option.toList_none, List.map_nil, List.append_nil] at hregistered
    show (book.handed ++ [book.registration agentId hasInbox]).filter Write.isRegistration = _
    rw [List.filter_append, hregistered, List.filter_cons, if_pos hone, List.filter_nil]
    simp only [Option.toList_some, List.map_cons, List.map_nil, List.map_append]
    rfl

/-- The agent under the lock is added. -/
theorem add (h : AgentsOk book (some r) answers) :
    AgentsOk { book with
      agents := (book.agents.add r.key r.agentId r.hasInbox r.registration).2 } none
      (answers ++ [(r.key, r.agentId)]) := by
  have hwaits := h.waits r rfl
  have hlisted := Agents.listed_add h.indexed hwaits.key r.agentId r.hasInbox r.registration
  refine ⟨h.indexed.add hwaits.key hwaits.fresh hwaits.v7, h.named.add hwaits.key, ?_, ?_, ?_, ?_⟩
  · intro key slot hslot
    by_cases hkey : key = r.key
    · subst hkey
      have heq : (⟨r.agentId, r.hasInbox, r.registration⟩ : Slot) = slot := by
        simpa [Agents.add] using hslot
      subst heq
      exact hwaits.handed
    · exact h.slots key slot (by simpa [Agents.add, hkey] using hslot)
  · simp
  · have hregistered := h.registered
    simp only [AgentBook.listed] at hregistered ⊢
    rw [hlisted, hregistered]
    simp only [Option.toList_some, Option.toList_none, List.map_cons, List.map_nil,
      List.append_nil]
    rfl
  · intro answer hanswer
    simp only [AgentBook.listed]
    rw [hlisted]
    rcases List.mem_append.mp hanswer with hold | hnew
    · obtain ⟨agent, hagent, hsame⟩ := h.answered answer hold
      exact ⟨agent, List.mem_append_left _ hagent, hsame⟩
    · exact ⟨⟨r.key, r.agentId, r.hasInbox⟩, by simp, (List.mem_singleton.mp hnew).symm⟩

/-- A key that the book has is answered from it. -/
theorem answer {key : AgentKey} {slot : Slot} (h : AgentsOk book lock answers)
    (hslot : book.agents.byKey key = some slot) :
    AgentsOk book lock (answers ++ [(key, slot.agentId)]) := by
  refine ⟨h.indexed, h.named, h.slots, h.waits, h.registered, ?_⟩
  intro answer hanswer
  rcases List.mem_append.mp hanswer with hold | hnew
  · exact h.answered answer hold
  · exact ⟨_, h.indexed.listed_of_byKey hslot, (List.mem_singleton.mp hnew).symm⟩

/-- An agent of the book has its Registration. -/
theorem registered_of_listed {agent : BookedAgent} (h : AgentsOk book lock answers)
    (hagent : agent ∈ book.listed) : book.declares agent ∈ book.handed := by
  have hmem : book.declares agent ∈ book.handed.filter Write.isRegistration := by
    rw [h.registered]
    exact List.mem_map_of_mem (List.mem_append_left _ hagent)
  exact List.mem_of_mem_filter hmem

/-- An id that the book has names an agent that it lists. -/
theorem listed_of_byId {agentId : Uuid} {key : AgentKey} (h : AgentsOk book lock answers)
    (hid : book.agents.byId agentId = some key) :
    agentId ∈ book.listed.map BookedAgent.agentId := by
  obtain ⟨slot, hslot, rfl⟩ := h.named agentId key hid
  exact List.mem_map_of_mem (h.indexed.listed_of_byKey hslot)

end AgentsOk

/-! ## A made book -/

/-- The loop of `make` registers one agent after the other, with nobody between. -/
theorem AgentsOk.restore {book : AgentBook} {agent : RestoredAgent} (h : AgentsOk book none [])
    (hkey : book.agents.byKey agent.key = none) (hv7 : isV7 agent.agentId = true)
    (hfresh : agent.agentId ∉ book.listed.map BookedAgent.agentId) :
    AgentsOk (book.restore agent) none [] := by
  have hregistered := h.register hkey hv7 hfresh 0 agent.hasInbox
  have hadded := hregistered.add
  exact ⟨hadded.indexed.markRestored, hadded.named, hadded.slots, by simp, hadded.registered,
    by simp⟩

theorem AgentsOk.restored {restored : List RestoredAgent} (core : Work) (canRestart : Bool)
    (hv7 : ∀ agent ∈ restored, isV7 agent.agentId = true)
    (hkeys : (restored.map RestoredAgent.key).Nodup)
    (hids : (restored.map RestoredAgent.agentId).Nodup) :
    AgentsOk (restored.foldl AgentBook.restore ⟨core, canRestart, Agents.default, []⟩) none [] ∧
      (restored.foldl AgentBook.restore ⟨core, canRestart, Agents.default, []⟩).listed =
        restored.map AgentBook.booked := by
  induction restored using List.reverseRecOn with
  | nil => exact ⟨AgentsOk.empty core canRestart, rfl⟩
  | append_singleton restored agent ih =>
      simp only [List.map_append, List.map_cons, List.map_nil, List.nodup_append,
        List.mem_singleton] at hkeys hids
      obtain ⟨hkeys, -, hkey⟩ := hkeys
      obtain ⟨hids, -, hid⟩ := hids
      obtain ⟨hok, hlisted⟩ :=
        ih (fun other ho => hv7 other (List.mem_append_left _ ho)) hkeys hids
      rw [List.foldl_append, List.foldl_cons, List.foldl_nil]
      set book := restored.foldl AgentBook.restore ⟨core, canRestart, Agents.default, []⟩
      have hnew : book.agents.byKey agent.key = none := by
        rw [hok.indexed.byKey_eq_none]
        show agent.key ∉ book.listed.map BookedAgent.key
        rw [hlisted, List.map_map]
        intro hmem
        exact hkey _ hmem _ rfl rfl
      have hfresh : agent.agentId ∉ book.listed.map BookedAgent.agentId := by
        rw [hlisted, List.map_map]
        intro hmem
        exact hid _ hmem _ rfl rfl
      refine ⟨hok.restore hnew (hv7 agent (by simp)) hfresh, ?_⟩
      rw [List.map_append, ← hlisted]
      exact Agents.listed_add hok.indexed hnew agent.agentId agent.hasInbox book.handed.length

/-! ## What the callers hand over -/

/-- The agent of a mail or a marker. -/
def Write.agent : Write → Option Uuid
  | .mail mail => some mail.fromAddress
  | .marker _ _ agentId _ => some agentId
  | _ => none

def Write.mailId : Write → Option Uuid
  | .mail mail => some mail.mailId
  | _ => none

def Write.markOf : Write → Option (Uuid × Uuid)
  | .marker _ itemId agentId _ => some (agentId, itemId)
  | _ => none

/-- The agent of a mail or a marker was registered before. -/
def BehindRegistration (past : List Write) (write : Write) : Prop :=
  ∀ agentId, Write.agent write = some agentId →
    ∃ runId agent, .registration runId agent ∈ past ∧ agent.agentId = agentId

/-- The agent that a caller has found in the book. -/
def Caller.agent : Caller → Option Uuid
  | .named agent _ | .resolved agent _ | .sending agent _ | .looked agent _ _
  | .marking agent _ _ => some agent
  | _ => none

def Caller.mailInHand : Caller → Option Uuid
  | .sending _ mail => some mail.id
  | _ => none

def Caller.markInHand : Caller → Option (Uuid × Uuid)
  | .marking agent _ listed => some (agent, listed.itemId)
  | _ => none

def Sys.inHand {κ : Type} (s : Sys) (f : Caller → Option κ) (c : ℕ) : Option κ :=
  (s.callers c).bind f

/-- The caller has nothing in hand that it took. -/
def EmptyHanded (s : Sys) (c : ℕ) : Prop :=
  s.inHand Caller.mailInHand c = none ∧ s.inHand Caller.markInHand c = none

structure CallersOk (s : Sys) : Prop where
  known : ∀ c caller agentId, s.callers c = some caller → caller.agent = some agentId →
    agentId ∈ s.book.listed.map BookedAgent.agentId
  behind : Always BehindRegistration s.book.handed
  mails : Once (fun id => id ∈ s.takenMails) (s.inHand Caller.mailInHand)
    (s.book.handed.filterMap Write.mailId)
  marks : Once (fun mark : Uuid × Uuid => mark.2 ∈ s.inbox.marked mark.1)
    (s.inHand Caller.markInHand) (s.book.handed.filterMap Write.markOf)

namespace Sys

variable {κ : Type} {s : Sys} {f : Caller → Option κ} {c : ℕ} {caller : Caller}

theorem inHand_goTo : (s.goTo c caller).inHand f = Function.update (s.inHand f) c (f caller) := by
  funext d
  by_cases hd : d = c
  · subst hd
    simp [inHand, goTo]
  · simp [inHand, goTo, hd]

theorem inHand_goTo_none (hold : s.inHand f c = none) (hnew : f caller = none) :
    (s.goTo c caller).inHand f = s.inHand f := by
  rw [inHand_goTo, hnew, ← hold, Function.update_eq_self]

end Sys

namespace CallersOk

variable {s s' : Sys} {c : ℕ} {caller : Caller} {agent : Uuid}

/-- The agent of a caller that goes on is known. -/
theorem known_goTo (h : CallersOk s)
    (hknown : ∀ agentId, caller.agent = some agentId →
      agentId ∈ s.book.listed.map BookedAgent.agentId) :
    ∀ d x agentId, (s.goTo c caller).callers d = some x → x.agent = some agentId →
      agentId ∈ s.book.listed.map BookedAgent.agentId := by
  intro d x agentId hd hx
  by_cases hdc : d = c
  · subst hdc
    have heq : caller = x := by simpa [Sys.goTo] using hd
    exact hknown agentId (heq ▸ hx)
  · have hbefore : s.callers d = some x := by simpa [Sys.goTo, hdc] using hd
    exact h.known d x agentId hbefore hx

/-- A caller goes on, with nothing in hand before or after. -/
theorem goTo (h : CallersOk s) (hempty : EmptyHanded s c)
    (hmail : caller.mailInHand = none) (hmark : caller.markInHand = none)
    (hknown : ∀ agentId, caller.agent = some agentId →
      agentId ∈ s.book.listed.map BookedAgent.agentId) : CallersOk (s.goTo c caller) := by
  refine ⟨h.known_goTo hknown, h.behind, ?_, ?_⟩
  · rw [Sys.inHand_goTo_none hempty.1 hmail]
    exact h.mails
  · rw [Sys.inHand_goTo_none hempty.2 hmark]
    exact h.marks

/-- A write that is of no agent is handed over, or agents are added. -/
theorem book {book : AgentBook} {lock : Option Registering} {answers : List (AgentKey × Uuid)}
    {more : List Write} (h : CallersOk s) (hhanded : book.handed = s.book.handed ++ more)
    (hmore : ∀ write ∈ more, Write.agent write = none)
    (hlisted : s.book.listed ⊆ book.listed) :
    CallersOk { s with book := book, lock := lock, answers := answers } := by
  have hmails : more.filterMap Write.mailId = [] := by
    refine List.filterMap_eq_nil_iff.mpr fun write hwrite => ?_
    have hnone := hmore write hwrite
    cases write <;> first | rfl | simp [Write.agent] at hnone
  have hmarks : more.filterMap Write.markOf = [] := by
    refine List.filterMap_eq_nil_iff.mpr fun write hwrite => ?_
    have hnone := hmore write hwrite
    cases write <;> first | rfl | simp [Write.agent] at hnone
  refine ⟨?_, ?_, ?_, ?_⟩
  · intro c caller agentId hc hagent
    exact List.map_subset _ hlisted (h.known c caller agentId hc hagent)
  · show Always BehindRegistration book.handed
    rw [hhanded]
    refine always_append h.behind fun write hwrite past agentId hagent => ?_
    rw [hmore write hwrite] at hagent
    cases hagent
  · show Once _ _ (book.handed.filterMap Write.mailId)
    rw [hhanded, List.filterMap_append, hmails, List.append_nil]
    exact h.mails
  · show Once _ _ (book.handed.filterMap Write.markOf)
    rw [hhanded, List.filterMap_append, hmarks, List.append_nil]
    exact h.marks

/-- A mail that was not taken is in the hand of the caller. -/
theorem take {mail : NewMail} (h : CallersOk s) (hempty : EmptyHanded s c)
    (hknown : agent ∈ s.book.listed.map BookedAgent.agentId) (hnew : mail.id ∉ s.takenMails) :
    CallersOk { s.goTo c (.sending agent mail) with
      takenMails := mail.id :: s.takenMails } := by
  refine ⟨h.known_goTo (by simpa [Caller.agent] using hknown), h.behind, ?_, ?_⟩
  · show Once _ ((s.goTo c _).inHand _) _
    rw [Sys.inHand_goTo]
    refine h.mails.take hnew fun id => ?_
    rw [List.mem_cons, or_comm]
  · show Once _ ((s.goTo c _).inHand _) _
    rw [Sys.inHand_goTo_none hempty.2 rfl]
    exact h.marks

theorem mark {entryId : Uuid} {listed : InboxPort.MailEntry} (h : CallersOk s)
    (hempty : EmptyHanded s c) (hknown : agent ∈ s.book.listed.map BookedAgent.agentId)
    (hnew : listed.itemId ∉ s.inbox.marked agent) :
    CallersOk { s.goTo c (.marking agent entryId listed) with
      inbox := s.inbox.mark agent listed.itemId } := by
  refine ⟨h.known_goTo (by simpa [Caller.agent] using hknown), h.behind, ?_, ?_⟩
  · show Once _ ((s.goTo c _).inHand _) _
    rw [Sys.inHand_goTo_none hempty.1 rfl]
    exact h.mails
  · show Once _ ((s.goTo c _).inHand _) _
    rw [Sys.inHand_goTo]
    refine h.marks.take hnew ?_
    rintro ⟨of, itemId⟩
    by_cases hof : of = agent
    · subst hof
      simp [InboxPort.Inbox.mark, or_comm]
    · simp [InboxPort.Inbox.mark, hof]

/-- A mail or a marker of a listed agent is behind its Registration. -/
theorem behind_handOver {write : Write} (h : CallersOk s)
    (hagents : AgentsOk s.book s.lock s.answers) (hwrite : Write.agent write = some agent)
    (hknown : agent ∈ s.book.listed.map BookedAgent.agentId) :
    Always BehindRegistration (s.book.handOver write).handed := by
  refine always_snoc.mpr ⟨h.behind, fun agentId hagent => ?_⟩
  rw [hwrite, Option.some.injEq] at hagent
  obtain ⟨booked, hbooked, rfl⟩ := List.mem_map.mp hknown
  exact ⟨_, _, hagents.registered_of_listed hbooked, hagent⟩

theorem send {mail : NewMail} (h : CallersOk s) (hagents : AgentsOk s.book s.lock s.answers)
    (hc : s.callers c = some (.sending agent mail)) : CallersOk (s.sendMail c agent mail) := by
  have hhand : s.inHand Caller.mailInHand c = some mail.id := by simp [Sys.inHand, hc,
    Caller.mailInHand]
  have hnone : s.inHand Caller.markInHand c = none := by simp [Sys.inHand, hc,
    Caller.markInHand]
  refine ⟨h.known_goTo (by simp [Caller.agent]),
    h.behind_handOver hagents rfl (h.known c _ agent hc rfl), ?_, ?_⟩
  · show Once _ ((s.goTo c _).inHand _) ((s.book.handed ++ [_]).filterMap _)
    rw [Sys.inHand_goTo, List.filterMap_append]
    exact h.mails.spend hhand
  · show Once _ ((s.goTo c _).inHand _) ((s.book.handed ++ [_]).filterMap _)
    rw [Sys.inHand_goTo_none hnone rfl, List.filterMap_append]
    show Once _ _ (_ ++ [])
    rw [List.append_nil]
    exact h.marks

theorem hold {entryId : Uuid} {listed : InboxPort.MailEntry} (h : CallersOk s)
    (hagents : AgentsOk s.book s.lock s.answers)
    (hc : s.callers c = some (.marking agent entryId listed)) :
    CallersOk (s.holdMarker c agent entryId listed) := by
  have hhand : s.inHand Caller.markInHand c = some (agent, listed.itemId) := by
    simp [Sys.inHand, hc, Caller.markInHand]
  have hnone : s.inHand Caller.mailInHand c = none := by simp [Sys.inHand, hc,
    Caller.mailInHand]
  refine ⟨h.known_goTo (by simp [Caller.agent]),
    h.behind_handOver hagents rfl (h.known c _ agent hc rfl), ?_, ?_⟩
  · show Once _ ((s.goTo c _).inHand _) ((s.book.handed ++ [_]).filterMap _)
    rw [Sys.inHand_goTo_none hnone rfl, List.filterMap_append]
    show Once _ _ (_ ++ [])
    rw [List.append_nil]
    exact h.mails
  · show Once _ ((s.goTo c _).inHand _) ((s.book.handed ++ [_]).filterMap _)
    rw [Sys.inHand_goTo, List.filterMap_append]
    exact h.marks.spend hhand

end CallersOk

/-! ## The steps -/

/-- The book is of the same Work, and lists the agents it was made with first. -/
structure MadeFrom (made book : AgentBook) : Prop where
  core : book.core = made.core
  canRestart : book.canRestart = made.canRestart
  first : made.listed <+: book.listed

theorem MadeFrom.handOver {made book : AgentBook} {write : Write} (h : MadeFrom made book) :
    MadeFrom made (book.handOver write) :=
  ⟨h.core, h.canRestart, h.first⟩

/-- What the steps keep. -/
structure Kept (made : AgentBook) (s : Sys) : Prop where
  agents : AgentsOk s.book s.lock s.answers
  callers : CallersOk s
  made : MadeFrom made s.book

namespace Kept

variable {made : AgentBook} {s s' : Sys} {c : ℕ} {caller : Caller}

theorem emptyHanded (hc : s.callers c = some caller) (hmail : caller.mailInHand = none)
    (hmark : caller.markInHand = none) : EmptyHanded s c := by
  constructor
  · simp [Sys.inHand, hc, hmail]
  · simp [Sys.inHand, hc, hmark]

theorem goTo {next : Caller} (h : Kept made s) (hempty : EmptyHanded s c)
    (hmail : next.mailInHand = none) (hmark : next.markInHand = none)
    (hknown : ∀ agentId, next.agent = some agentId →
      agentId ∈ s.book.listed.map BookedAgent.agentId) : Kept made (s.goTo c next) :=
  ⟨h.agents, h.callers.goTo hempty hmail hmark hknown, h.made⟩

/-- A caller returns. -/
theorem returned {result : Except Error Unit} (h : Kept made s) (hempty : EmptyHanded s c) :
    Kept made (s.goTo c (.returned result)) :=
  h.goTo hempty rfl rfl (by simp [Caller.agent])

theorem agentFor {key : AgentKey} {hasInbox : Bool} {fresh : Uuid} (h : Kept made s)
    (hempty : EmptyHanded s c) (hlock : s.lock = none)
    (hs : s.agentFor c key hasInbox fresh = some s') : Kept made s' := by
  unfold Sys.agentFor at hs
  split at hs
  · rename_i found hfound
    cases hs
    obtain ⟨slot, hslot, rfl⟩ := Option.map_eq_some_iff.mp hfound
    refine ⟨h.agents.answer hslot, ?_, h.made⟩
    exact (h.callers.goTo hempty rfl rfl (by simp [Caller.agent])).book
      (List.append_nil _).symm (by simp) (fun _ hmem => hmem)
  · rename_i hnone
    split at hs
    · rename_i hfresh
      cases hs
      have hagents := h.agents
      rw [hlock] at hagents
      refine ⟨hagents.register (Option.map_eq_none_iff.mp hnone) hfresh.1 hfresh.2 c hasInbox, ?_,
        h.made.handOver⟩
      exact (h.callers.goTo hempty rfl rfl (by simp [Caller.agent])).book rfl
        (by simp [AgentBook.registration, Write.agent]) (fun _ hmem => hmem)
    · cases hs

/-- The lock is held by a caller that has nothing in hand. -/
theorem addAgent {r : Registering} (h : Kept made s) (hempty : EmptyHanded s r.caller)
    (hlock : s.lock = some r) : Kept made (s.addAgent r) := by
  have hagents := h.agents
  rw [hlock] at hagents
  have hlisted := Agents.listed_add hagents.indexed (hagents.waits r rfl).key r.agentId
    r.hasInbox r.registration
  have hprefix : s.book.listed <+:
      (s.book.agents.add r.key r.agentId r.hasInbox r.registration).2.listed := by
    rw [hlisted]
    exact List.prefix_append _ _
  refine ⟨hagents.add, ?_, ⟨h.made.core, h.made.canRestart, h.made.first.trans hprefix⟩⟩
  exact (h.callers.goTo hempty rfl rfl (by simp [Caller.agent])).book
    (List.append_nil _).symm (by simp) hprefix.subset

theorem compareKey {inboxKey : Option AgentKey} {agent : Uuid} {task : Task} (h : Kept made s)
    (hempty : EmptyHanded s c) : Kept made (s.compareKey c inboxKey agent task) := by
  unfold Sys.compareKey
  split
  · exact h.returned hempty
  · rename_i key
    split
    · rename_i hkey
      refine h.goTo hempty rfl rfl fun agentId hagent => ?_
      have heq : agent = agentId := by simpa [Caller.agent] using hagent
      exact heq ▸ h.agents.listed_of_byId hkey
    · exact h.returned hempty

/-- The agent of the caller is known already. -/
theorem same_agent {next : Caller} {agent : Uuid} (h : Kept made s) (hc : s.callers c = some caller)
    (hcaller : caller.agent = some agent) (hnext : next.agent = some agent) :
    ∀ agentId, next.agent = some agentId →
      agentId ∈ s.book.listed.map BookedAgent.agentId := by
  intro agentId hagent
  rw [hnext, ← hcaller] at hagent
  exact h.callers.known c caller agentId hc hagent

theorem stepOf {fresh : Uuid} (h : Kept made s) (hc : s.callers c = some caller)
    (hs : s.stepOf c fresh caller = some s') : Kept made s' := by
  have hlocked : ∀ {next : Option Sys}, s.whenFree next = some s' →
      s.lock = none ∧ next = some s' := by
    intro next hnext
    unfold Sys.whenFree at hnext
    split at hnext
    · rename_i hfree
      exact ⟨Option.isNone_iff_eq_none.mp hfree, hnext⟩
    · cases hnext
  cases caller with
  | looking key hasInbox =>
      obtain ⟨hlock, hs⟩ := hlocked hs
      exact h.agentFor (emptyHanded hc rfl rfl) hlock hs
  | registering =>
      obtain ⟨r, hr, hs⟩ := Option.bind_eq_some_iff.mp hs
      split at hs
      · rename_i hrc
        cases hs
        exact h.addAgent (emptyHanded (hrc ▸ hc) rfl rfl) hr
      · cases hs
  | resolving inboxKey agent task =>
      obtain ⟨-, hs⟩ := hlocked hs
      cases hs
      exact h.compareKey (emptyHanded hc rfl rfl)
  | named agent task =>
      obtain ⟨-, hs⟩ := hlocked hs
      cases hs
      unfold Sys.compareInbox
      split
      · exact h.goTo (emptyHanded hc rfl rfl) rfl rfl (h.same_agent hc rfl rfl)
      · exact h.returned (emptyHanded hc rfl rfl)
  | resolved agent task =>
      have hempty : EmptyHanded s c := emptyHanded hc rfl rfl
      have hknown := h.callers.known c _ agent hc rfl
      cases task with
      | send mail =>
          cases hs
          unfold Sys.takeMail
          split
          · exact h.returned hempty
          · rename_i hnew
            exact ⟨h.agents, h.callers.take hempty hknown hnew, h.made⟩
      | markRead entryId =>
          cases hs
          unfold Sys.lookListed
          split
          · exact h.returned hempty
          · exact h.goTo hempty rfl rfl (h.same_agent hc rfl rfl)
  | sending agent mail =>
      cases hs
      exact ⟨h.agents.handOver rfl, h.callers.send h.agents hc, h.made.handOver⟩
  | looked agent entryId listed =>
      cases hs
      unfold Sys.mark
      split
      · exact h.returned (emptyHanded hc rfl rfl)
      · rename_i hnew
        exact ⟨h.agents, h.callers.mark (emptyHanded hc rfl rfl)
          (h.callers.known c _ agent hc rfl) hnew, h.made⟩
  | marking agent entryId listed =>
      cases hs
      exact ⟨h.agents.handOver rfl, h.callers.hold h.agents hc, h.made.handOver⟩
  | answered agentId => cases hs
  | returned result => cases hs

/-- A call comes in under a number that is free. -/
theorem call (h : Kept made s) (hmail : caller.mailInHand = none) (hmark : caller.markInHand = none)
    (hagent : caller.agent = none) (hs : s.call c caller = some s') : Kept made s' := by
  unfold Sys.call at hs
  split at hs
  · rename_i hended
    cases hs
    refine h.goTo ?_ hmail hmark (by simp [hagent])
    cases hc : s.callers c with
    | none => simp [EmptyHanded, Sys.inHand, hc]
    | some before =>
        have hbefore : before.ended = true := by simpa [hc] using hended
        refine emptyHanded hc ?_ ?_ <;> cases before <;>
          first | rfl | simp [Caller.ended] at hbefore
  · cases hs

theorem step {e : Event} (h : Kept made s) (hs : s.step e = some s') : Kept made s' := by
  cases e with
  | agentId c entry label => exact h.call rfl rfl rfl hs
  | send c entry agent mail => exact h.call rfl rfl rfl hs
  | markRead c entry agent entryId => exact h.call rfl rfl rfl hs
  | step c fresh =>
      obtain ⟨caller, hc, hs⟩ := Option.bind_eq_some_iff.mp hs
      exact h.stepOf hc hs
  | recordListed agent entryId entry =>
      cases hs
      exact ⟨h.agents,
        ⟨h.callers.known, h.callers.behind, h.callers.mails, h.callers.marks⟩, h.made⟩
  | handOver write =>
      simp only [Sys.step, Option.ite_none_left_eq_some, Option.some.injEq] at hs
      obtain ⟨hother, rfl⟩ := hs
      have hnone : Write.isRegistration write = false ∧ Write.agent write = none := by
        cases write <;> first | exact ⟨rfl, rfl⟩ | exact absurd rfl hother
      refine ⟨h.agents.handOver hnone.1, ?_, h.made.handOver⟩
      exact h.callers.book rfl (by simpa using hnone.2) (fun _ hmem => hmem)

end Kept

/-! ## The book of a Work -/

def Write.registeredId : Write → Option Uuid
  | .registration _ agent => some agent.agentId
  | _ => none

/-- What holds of a book that was made, whatever its callers do. -/
structure BookKept (restored : List RestoredAgent) (made : AgentBook) (s : Sys) : Prop where
  /-- The order, the keys and the ids name the same agents. -/
  indexed : s.book.agents.Indexed ∧ s.book.agents.Named
  /-- The agents that were restored stay first. -/
  first : restored.map AgentBook.booked <+: s.book.listed
  /-- A key is always answered with one id, and another key with another. -/
  answers : ∀ answer ∈ s.answers, ∀ other ∈ s.answers, answer.1 = other.1 ↔ answer.2 = other.2
  /-- No agent is registered twice. -/
  once : (s.book.handed.filterMap Write.registeredId).Nodup
  /-- While no agent is being added, the registered agents are those of the book, in
  order. -/
  registered : s.lock = none → s.book.handed.filter Write.isRegistration =
    s.book.listed.map fun agent =>
      .registration made.core.runId ⟨agent.agentId, agent.hasInbox, made.canRestart⟩
  /-- The end that the book keeps of an agent is that of its Registration. -/
  ends : ∀ key slot, s.book.agents.byKey key = some slot →
    s.book.handed[slot.registration]? =
      some (.registration made.core.runId ⟨slot.agentId, slot.hasInbox, made.canRestart⟩)
  behind : Always BehindRegistration s.book.handed
  mails : (s.book.handed.filterMap Write.mailId).Nodup
  marks : (s.book.handed.filterMap Write.markOf).Nodup

theorem Kept.registered_once {made : AgentBook} {s : Sys} (h : Kept made s) :
    (s.book.handed.filterMap Write.registeredId).Nodup := by
  have hfilter : s.book.handed.filterMap Write.registeredId =
      (s.book.handed.filter Write.isRegistration).filterMap Write.registeredId := by
    rw [List.filterMap_filter]
    refine List.filterMap_congr fun write _ => ?_
    cases write <;> rfl
  have hids : ∀ agents : List BookedAgent,
      (agents.map s.book.declares).filterMap Write.registeredId =
        agents.map BookedAgent.agentId := by
    intro agents
    rw [List.filterMap_map]
    show agents.filterMap (some ∘ BookedAgent.agentId) = _
    rw [List.filterMap_eq_map]
  rw [hfilter, h.agents.registered, hids, List.map_append, List.nodup_append]
  refine ⟨h.agents.indexed.ids, ?_, ?_⟩
  · cases s.lock <;> simp
  · intro id hid id' hid' heq
    cases hlock : s.lock with
    | none => simp [hlock] at hid'
    | some r =>
        have hr : id' = r.agentId := by simpa [hlock, Registering.agent] using hid'
        exact (h.agents.waits r hlock).fresh (hr ▸ heq ▸ hid)

theorem Kept.answered_alike {made : AgentBook} {s : Sys} (h : Kept made s) :
    ∀ answer ∈ s.answers, ∀ other ∈ s.answers, answer.1 = other.1 ↔ answer.2 = other.2 := by
  intro answer hanswer other hother
  obtain ⟨agent, hagent, rfl⟩ := h.agents.answered answer hanswer
  obtain ⟨agent', hagent', rfl⟩ := h.agents.answered other hother
  constructor
  · intro hkey
    have heq := List.inj_on_of_nodup_map h.agents.indexed.nodup_keys hagent hagent' hkey
    exact congrArg BookedAgent.agentId heq
  · intro hid
    have heq := List.inj_on_of_nodup_map h.agents.indexed.ids hagent hagent' hid
    exact congrArg BookedAgent.key heq

theorem Kept.bookKept {restored : List RestoredAgent} {made : AgentBook} {s : Sys}
    (h : Kept made s) (hmade : made.listed = restored.map AgentBook.booked) :
    BookKept restored made s := by
  have hdeclares : ∀ agentId hasInbox, s.book.registration agentId hasInbox =
      .registration made.core.runId ⟨agentId, hasInbox, made.canRestart⟩ := by
    intro agentId hasInbox
    rw [AgentBook.registration, h.made.core, h.made.canRestart]
  refine ⟨⟨h.agents.indexed, h.agents.named⟩, hmade ▸ h.made.first, h.answered_alike,
    h.registered_once, ?_, ?_, h.callers.behind, h.callers.mails.nodup, h.callers.marks.nodup⟩
  · intro hlock
    rw [h.agents.registered, hlock]
    simp only [Option.toList_none, List.map_nil, List.append_nil]
    exact List.map_congr_left fun agent _ => hdeclares agent.agentId agent.hasInbox
  · intro key slot hslot
    rw [h.agents.slots key slot hslot, hdeclares]

theorem AgentsOk.make {core core' : Work} {restored : List RestoredAgent} {canRestart : Bool}
    {book : AgentBook} (h : AgentBook.make core restored canRestart = (.ok book, core')) :
    AgentsOk book none [] := by
  unfold AgentBook.make at h
  split at h
  · cases h
  · rename_i hcheck
    split at h
    · cases h
    · cases h
      obtain ⟨hv7, hkeys, -, hids, -⟩ := AgentBook.checkRestoredFrom_eq_ok.mp hcheck
      exact (AgentsOk.restored { core with bookMade := true } canRestart hv7 hkeys hids).1

/-- A book without agents, and without callers. -/
theorem CallersOk.empty (core : Work) (canRestart : Bool) :
    CallersOk (Sys.new ⟨core, canRestart, Agents.default, []⟩) := by
  refine ⟨?_, always_nil, Once.new ?_, Once.new ?_⟩ <;> simp [Sys.new, Sys.inHand]

theorem Kept.new {core core' : Work} {restored : List RestoredAgent} {canRestart : Bool}
    {book : AgentBook} (h : AgentBook.make core restored canRestart = (.ok book, core')) :
    Kept book (Sys.new book) := by
  obtain ⟨hbooked, -⟩ := AgentBook.make_ok h
  refine ⟨AgentsOk.make h, ?_, ⟨rfl, rfl, List.prefix_refl _⟩⟩
  refine (CallersOk.empty book.core book.canRestart).book (List.nil_append _).symm ?_
    (List.nil_subset _)
  intro write hwrite
  rw [hbooked.handed] at hwrite
  obtain ⟨agent, -, rfl⟩ := List.mem_map.mp hwrite
  rfl

/-- Whatever the callers of a made book do and in whatever order, the book names its
agents one way, registers each of them once, and hands over no mail and no marker of an
agent before its Registration, and none twice. -/
theorem book_kept {core core' : Work} {restored : List RestoredAgent} {canRestart : Bool}
    {book : AgentBook} (hmake : AgentBook.make core restored canRestart = (.ok book, core'))
    {s : Sys} (h : (machine book).Reachable s) : BookKept restored book s :=
  (Machine.Reachable.invariant (Kept.new hmake) Kept.step h).bookKept (AgentBook.make_ok hmake).2.1

/-! A run in which a mail of a restored agent waits for an agent that is added, the mail
is sent again, and an item of the new agent is marked. -/

def restoredId : Uuid := 0x00000000000070008000000000000001
def addedId : Uuid := 0x00000000000070008000000000000002

def restoredAgent : RestoredAgent := ⟨⟨"node", "main"⟩, restoredId, true⟩

def madeBook : AgentBook := AgentBook.restore ⟨⟨9, true⟩, true, Agents.default, []⟩ restoredAgent

def nodeEntry : NodeEntry := ⟨"node", some "main"⟩
def otherEntry : NodeEntry := ⟨"other", some "box"⟩

def firstMail : NewMail := ⟨5, "main", 6, "subject", "body", [addedId], [], []⟩

def contendedRun : List Event :=
  [.agentId 0 otherEntry "box", .send 1 nodeEntry restoredId firstMail, .step 0 addedId,
    .handOver (.started 9 3), .step 0 0,
    .step 1 0, .step 1 0, .step 1 0, .step 1 0,
    .send 1 nodeEntry restoredId firstMail, .step 1 0, .step 1 0, .step 1 0,
    .recordListed addedId 8 ⟨7, none, .directMail⟩,
    .markRead 2 otherEntry addedId 8, .step 2 0, .step 2 0, .step 2 0, .step 2 0, .step 2 0,
    .agentId 3 otherEntry "box", .step 3 0]

theorem book_kept_contendedRun : ∃ s, (machine madeBook).run contendedRun = some s ∧
    s.book.handed = [madeBook.registration restoredId true, madeBook.registration addedId true,
      .started 9 3, .mail (inputOf restoredId firstMail), .marker 9 7 addedId 8] ∧
    s.answers = [(⟨"other", "box"⟩, addedId), (⟨"other", "box"⟩, addedId)] ∧
    BookKept [restoredAgent] madeBook s := by
  have hrun : ∃ s, (machine madeBook).run contendedRun = some s ∧
      s.book.handed = [madeBook.registration restoredId true,
        madeBook.registration addedId true, .started 9 3,
        .mail (inputOf restoredId firstMail), .marker 9 7 addedId 8] ∧
      s.answers = [(⟨"other", "box"⟩, addedId), (⟨"other", "box"⟩, addedId)] :=
    ⟨_, rfl, rfl, rfl⟩
  obtain ⟨s, hs, hhanded, hanswers⟩ := hrun
  have hmake : AgentBook.make ⟨9, false⟩ [restoredAgent] true = (.ok madeBook, ⟨9, true⟩) := rfl
  exact ⟨s, hs, hhanded, hanswers, book_kept hmake (Machine.reachable_of_run _ hs)⟩

end RunnerKit.Book
