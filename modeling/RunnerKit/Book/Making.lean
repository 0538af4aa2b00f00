import RunnerKit.Jobs.Text
import RunnerKit.Queue.Write

/-!
# The agent book of a Run

`book/agents.rs` and the part of `book/mod.rs` that makes a book and finds or adds its
agents. The indexes of `Agents` are maps; the end of a registration is the number of the
write in what the book has handed over to its writer. The check, the registration and
the addition of an agent are under the lock of the agents, so each call is one step.
-/

namespace RunnerKit.Book

open RunnerKit.Jobs RunnerKit.Queue

/-! ## UUIDs of version 7 -/

/-- `get_version_num` -/
def versionNum (id : Uuid) : ℕ := id.toNat / 2 ^ 76 % 16

/-- `get_variant`, as far as it is `RFC4122`. -/
def isRfc4122 (id : Uuid) : Bool := id.toNat / 2 ^ 62 % 4 = 2

def isV7 (id : Uuid) : Bool := versionNum id = 7 ∧ isRfc4122 id

/-! ## The agents -/

/-- A node of the graph and a label; each key has one agent id. -/
structure AgentKey where
  node : String
  label : String
deriving DecidableEq

structure BookedAgent where
  key : AgentKey
  agentId : Uuid
  hasInbox : Bool
deriving DecidableEq

structure RestoredAgent where
  key : AgentKey
  agentId : Uuid
  hasInbox : Bool
deriving DecidableEq

structure Slot where
  agentId : Uuid
  hasInbox : Bool
  registration : ℕ
deriving DecidableEq

structure Agents where
  order : List AgentKey
  byKey : AgentKey → Option Slot
  byId : Uuid → Option AgentKey
  restored : Uuid → Bool

structure BookedAgentRef where
  agentId : Uuid
  hasInbox : Bool
  created : Bool
  registration : ℕ
deriving DecidableEq

def Slot.reference (slot : Slot) (created : Bool) : BookedAgentRef :=
  ⟨slot.agentId, slot.hasInbox, created, slot.registration⟩

namespace Agents

def default : Agents := ⟨[], fun _ => none, fun _ => none, fun _ => false⟩

def find (agents : Agents) (key : AgentKey) : Option BookedAgentRef :=
  (agents.byKey key).map fun slot => slot.reference false

def add (agents : Agents) (key : AgentKey) (agentId : Uuid) (hasInbox : Bool)
    (registration : ℕ) : BookedAgentRef × Agents :=
  let slot : Slot := ⟨agentId, hasInbox, registration⟩
  (slot.reference true,
    { agents with
      order := agents.order ++ [key]
      byId := Function.update agents.byId agentId (some key)
      byKey := Function.update agents.byKey key (some slot) })

def markRestored (agents : Agents) (agentId : Uuid) : Agents :=
  { agents with restored := Function.update agents.restored agentId true }

def listedAgent (agents : Agents) (key : AgentKey) : Option BookedAgent :=
  (agents.byKey key).map fun slot => ⟨key, slot.agentId, slot.hasInbox⟩

def listed (agents : Agents) : List BookedAgent :=
  agents.order.filterMap agents.listedAgent

end Agents

/-! ## The book -/

/-- The core of a `Work`, as far as a book is about it. -/
structure Work where
  runId : Uuid
  bookMade : Bool
deriving DecidableEq

structure AgentBook where
  core : Work
  canRestart : Bool
  agents : Agents
  /-- What was handed over to the writer, in order. -/
  handed : List Write

namespace AgentBook

/-- `agents` of the book. -/
def listed (book : AgentBook) : List BookedAgent := book.agents.listed

/-- The write that registers an agent of the book. -/
def registration (book : AgentBook) (agentId : Uuid) (hasInbox : Bool) : Write :=
  .registration book.core.runId ⟨agentId, hasInbox, book.canRestart⟩

def register (book : AgentBook) (key : AgentKey) (agentId : Uuid) (hasInbox : Bool) :
    BookedAgentRef × AgentBook :=
  let (reference, agents) := book.agents.add key agentId hasInbox book.handed.length
  (reference,
    { book with
      agents := agents
      handed := book.handed ++ [book.registration agentId hasInbox] })

/-- One turn of the loop of `make`. -/
def restore (book : AgentBook) (agent : RestoredAgent) : AgentBook :=
  let (_, book) := book.register agent.key agent.agentId agent.hasInbox
  { book with agents := book.agents.markRestored agent.agentId }

/-- The keys and the ids are those of the agents that were looked at. -/
def checkRestoredFrom (keys : List AgentKey) (ids : List Uuid) :
    List RestoredAgent → Except Error Unit
  | [] => .ok ()
  | agent :: restored =>
      if !isV7 agent.agentId then .error (.invalidInput "a restored agent id is not a UUIDv7")
      else if agent.key ∈ keys then
        .error (.invalidInput "a restored agent key is given twice")
      else if agent.agentId ∈ ids then
        .error (.invalidInput "a restored agent id is given twice")
      else checkRestoredFrom (agent.key :: keys) (agent.agentId :: ids) restored

def checkRestored (restored : List RestoredAgent) : Except Error Unit :=
  checkRestoredFrom [] [] restored

/-- With what the core of the Work is afterwards. -/
def make (core : Work) (restored : List RestoredAgent) (canRestart : Bool) :
    Except Error AgentBook × Work :=
  match checkRestored restored with
  | .error error => (.error error, core)
  | .ok () =>
      if core.bookMade then
        (.error (.invalidInput "the agent book of this Work was made already"), core)
      else
        let core := { core with bookMade := true }
        (.ok (restored.foldl restore ⟨core, canRestart, Agents.default, []⟩), core)

/-- `agent_for`, with the id that `Uuid::now_v7` would give. -/
def agentFor (book : AgentBook) (key : AgentKey) (inboxLabel : Bool) (fresh : Uuid) :
    BookedAgentRef × AgentBook :=
  match book.agents.find key with
  | some found => (found, book)
  | none => book.register key fresh inboxLabel

end AgentBook

/-! ## The indexes agree -/

namespace Agents

variable {agents : Agents} {key : AgentKey} {agentId : Uuid} {hasInbox : Bool} {n : ℕ}

/-- Each key of the order has its slot, no key and no id is there twice, and each id is
of version 7. -/
structure Indexed (agents : Agents) : Prop where
  order : agents.order.Nodup
  held : ∀ key, key ∈ agents.order ↔ (agents.byKey key).isSome
  ids : (agents.listed.map BookedAgent.agentId).Nodup
  v7 : ∀ agent ∈ agents.listed, isV7 agent.agentId = true
  byId : ∀ agent ∈ agents.listed, agents.byId agent.agentId = some agent.key

theorem Indexed.default : Indexed default := by
  refine ⟨?_, ?_, ?_, ?_, ?_⟩ <;> simp [Agents.default, listed]

@[simp] theorem listed_markRestored : (agents.markRestored agentId).listed = agents.listed :=
  rfl

theorem Indexed.markRestored (h : agents.Indexed) : (agents.markRestored agentId).Indexed :=
  ⟨h.order, h.held, h.ids, h.v7, h.byId⟩

/-- What the index holds of a key is what is listed under it. -/
theorem Indexed.listedAgent_eq_some (h : agents.Indexed) {agent : BookedAgent} :
    agents.listedAgent key = some agent ↔ agent ∈ agents.listed ∧ agent.key = key := by
  constructor
  · intro hlisted
    obtain ⟨slot, hslot, rfl⟩ := Option.map_eq_some_iff.mp hlisted
    refine ⟨List.mem_filterMap.mpr ⟨key, (h.held key).mpr ?_, hlisted⟩, rfl⟩
    rw [hslot]
    rfl
  · rintro ⟨hin, rfl⟩
    obtain ⟨key, -, hlisted⟩ := List.mem_filterMap.mp hin
    obtain ⟨slot, -, rfl⟩ := Option.map_eq_some_iff.mp hlisted
    exact hlisted

/-- Two indexes that list the same agents answer alike. -/
theorem Indexed.find_congr {other : Agents} (h : agents.Indexed) (hother : other.Indexed)
    (hlisted : other.listed = agents.listed) (key : AgentKey) :
    (other.find key).map (fun found => (found.agentId, found.hasInbox)) =
      (agents.find key).map (fun found => (found.agentId, found.hasInbox)) := by
  have hsame : other.listedAgent key = agents.listedAgent key := by
    refine Option.ext fun agent => ?_
    rw [hother.listedAgent_eq_some, h.listedAgent_eq_some, hlisted]
  have hfind : ∀ agents : Agents,
      (agents.find key).map (fun found => (found.agentId, found.hasInbox)) =
        (agents.listedAgent key).map fun agent => (agent.agentId, agent.hasInbox) := by
    intro agents
    rw [find, listedAgent, Option.map_map, Option.map_map]
    rfl
  rw [hfind, hfind, hsame]

/-- A key that has no slot is added at the end. -/
theorem listed_add (h : agents.Indexed) (hkey : agents.byKey key = none) (agentId : Uuid)
    (hasInbox : Bool) (n : ℕ) :
    (agents.add key agentId hasInbox n).2.listed =
      agents.listed ++ [⟨key, agentId, hasInbox⟩] := by
  have hnew : key ∉ agents.order := by simp [h.held, hkey]
  have hold : ∀ k ∈ agents.order,
      (agents.add key agentId hasInbox n).2.listedAgent k = agents.listedAgent k := by
    intro k hk
    have hne : k ≠ key := by
      rintro rfl
      exact hnew hk
    simp [listedAgent, add, hne]
  simp only [listed]
  calc (agents.add key agentId hasInbox n).2.order.filterMap
        (agents.add key agentId hasInbox n).2.listedAgent
      = (agents.order ++ [key]).filterMap (agents.add key agentId hasInbox n).2.listedAgent :=
        rfl
    _ = agents.order.filterMap agents.listedAgent ++ [⟨key, agentId, hasInbox⟩] := by
        rw [List.filterMap_append, List.filterMap_congr hold]
        simp [listedAgent, add]

/-- The listed keys are the order. -/
theorem Indexed.keys (h : agents.Indexed) : agents.listed.map BookedAgent.key = agents.order := by
  have hall : ∀ order : List AgentKey, (∀ key ∈ order, (agents.byKey key).isSome) →
      (order.filterMap agents.listedAgent).map BookedAgent.key = order := by
    intro order
    induction order with
    | nil => simp
    | cons key order ih =>
        intro hheld
        obtain ⟨slot, hslot⟩ := Option.isSome_iff_exists.mp (hheld key List.mem_cons_self)
        simp [listedAgent, hslot, ih fun k hk => hheld k (List.mem_cons_of_mem _ hk)]
  exact hall agents.order fun key hkey => (h.held key).mp hkey

theorem Indexed.nodup_keys (h : agents.Indexed) :
    (agents.listed.map BookedAgent.key).Nodup := by
  rw [h.keys]
  exact h.order

theorem mem_order_of_listed {agent : BookedAgent} (h : agent ∈ agents.listed) :
    agent.key ∈ agents.order := by
  obtain ⟨k, hk, hagent⟩ := List.mem_filterMap.mp h
  obtain ⟨slot, -, rfl⟩ := Option.map_eq_some_iff.mp hagent
  exact hk

theorem Indexed.add (h : agents.Indexed) (hkey : agents.byKey key = none)
    (hid : agentId ∉ agents.listed.map BookedAgent.agentId) (hv7 : isV7 agentId = true) :
    (agents.add key agentId hasInbox n).2.Indexed := by
  have hnew : key ∉ agents.order := by simp [h.held, hkey]
  have hlisted := listed_add h hkey agentId hasInbox n
  refine ⟨?_, ?_, ?_, ?_, ?_⟩
  · simpa [Agents.add, List.nodup_append] using ⟨h.order, fun k hk => by
      rintro rfl
      exact hnew hk⟩
  · intro k
    by_cases hk : k = key
    · simp [Agents.add, hk]
    · simp [Agents.add, hk, h.held]
  · rw [hlisted, List.map_append, List.nodup_append]
    refine ⟨h.ids, by simp, ?_⟩
    rintro id hmem _ hlast rfl
    have heq : id = agentId := List.mem_singleton.mp hlast
    exact hid (heq ▸ hmem)
  · rw [hlisted]
    rintro agent hagent
    rcases List.mem_append.mp hagent with hagent | hagent
    · exact h.v7 agent hagent
    · rw [List.mem_singleton.mp hagent]
      exact hv7
  · rw [hlisted]
    rintro agent hagent
    rcases List.mem_append.mp hagent with hagent | hagent
    · have hne : agent.agentId ≠ agentId := by
        intro heq
        exact hid (heq ▸ List.mem_map_of_mem hagent)
      simpa [Agents.add, hne] using h.byId agent hagent
    · rw [List.mem_singleton.mp hagent]
      simp [Agents.add]

end Agents

/-! ## What a book keeps -/

namespace AgentBook

variable {book : AgentBook} {key : AgentKey} {agentId : Uuid} {hasInbox : Bool}

/-- Its indexes agree, and it has handed over one registration for each agent it lists,
in that order. -/
structure Booked (book : AgentBook) : Prop where
  indexed : book.agents.Indexed
  handed : book.handed =
    book.listed.map fun agent => book.registration agent.agentId agent.hasInbox

theorem Booked.empty (core : Work) (canRestart : Bool) :
    Booked ⟨core, canRestart, Agents.default, []⟩ :=
  ⟨Agents.Indexed.default, rfl⟩

theorem listed_register (h : book.Booked) (hkey : book.agents.byKey key = none) :
    (book.register key agentId hasInbox).2.listed =
      book.listed ++ [⟨key, agentId, hasInbox⟩] :=
  Agents.listed_add h.indexed hkey agentId hasInbox book.handed.length

theorem Booked.register (h : book.Booked) (hkey : book.agents.byKey key = none)
    (hid : agentId ∉ book.listed.map BookedAgent.agentId) (hv7 : isV7 agentId = true) :
    (book.register key agentId hasInbox).2.Booked := by
  refine ⟨h.indexed.add hkey hid hv7, ?_⟩
  rw [listed_register h hkey, List.map_append]
  have hhanded := h.handed
  simp only [AgentBook.register, List.map_cons, List.map_nil]
  exact congrArg (· ++ [book.registration agentId hasInbox]) hhanded

theorem Booked.agentFor {inboxLabel : Bool} {fresh : Uuid} (h : book.Booked)
    (hfresh : book.agents.find key = none →
      isV7 fresh = true ∧ fresh ∉ book.listed.map BookedAgent.agentId) :
    (book.agentFor key inboxLabel fresh).2.Booked := by
  unfold AgentBook.agentFor
  split
  · exact h
  · rename_i hnone
    obtain ⟨hv7, hid⟩ := hfresh hnone
    exact h.register (Option.map_eq_none_iff.mp hnone) hid hv7

/-- A key that the book has is answered from it. -/
theorem agentFor_known {agent : BookedAgent} (h : book.Booked) (hagent : agent ∈ book.listed)
    (inboxLabel : Bool) (fresh : Uuid) :
    (book.agentFor agent.key inboxLabel fresh).2 = book := by
  have hmem := Agents.mem_order_of_listed hagent
  obtain ⟨slot, hslot⟩ := Option.isSome_iff_exists.mp ((h.indexed.held agent.key).mp hmem)
  simp [AgentBook.agentFor, Agents.find, hslot]

/-! ## Making a book -/

/-- The agent as the book lists it. -/
def booked (agent : RestoredAgent) : BookedAgent := ⟨agent.key, agent.agentId, agent.hasInbox⟩

theorem checkRestoredFrom_eq_ok {restored : List RestoredAgent} :
    ∀ {keys : List AgentKey} {ids : List Uuid},
      checkRestoredFrom keys ids restored = .ok () ↔
        (∀ agent ∈ restored, isV7 agent.agentId = true) ∧
          (restored.map RestoredAgent.key).Nodup ∧
          (∀ agent ∈ restored, agent.key ∉ keys) ∧
          (restored.map RestoredAgent.agentId).Nodup ∧
          ∀ agent ∈ restored, agent.agentId ∉ ids := by
  induction restored with
  | nil => simp [checkRestoredFrom]
  | cons agent restored ih =>
      intro keys ids
      simp only [checkRestoredFrom]
      split_ifs with hv7 hkey hid
      · simp_all
      · simp_all
      · simp_all
      · rw [ih]
        simp only [List.mem_cons, not_or, List.map_cons, List.nodup_cons, List.mem_map,
          forall_eq_or_imp, not_exists, not_and]
        constructor
        · rintro ⟨hrest, hkeys, hnew, hids, hold⟩
          exact ⟨⟨by simpa using hv7, hrest⟩, ⟨fun other ho => (hnew other ho).1, hkeys⟩,
            ⟨hkey, fun other ho => (hnew other ho).2⟩,
            ⟨fun other ho => (hold other ho).1, hids⟩, hid, fun other ho => (hold other ho).2⟩
        · rintro ⟨⟨-, hrest⟩, ⟨hne, hkeys⟩, ⟨-, hnew⟩, ⟨hne', hids⟩, -, hold⟩
          exact ⟨hrest, hkeys, fun other ho => ⟨hne other ho, hnew other ho⟩, hids,
            fun other ho => ⟨hne' other ho, hold other ho⟩⟩

/-- The agents are taken one after the other, each with the keys and the ids of the book
so far for the sets of the check. -/
theorem restore_all {restored : List RestoredAgent} : ∀ {book : AgentBook}, book.Booked →
    (∀ agent ∈ restored, isV7 agent.agentId = true) →
    (restored.map RestoredAgent.key).Nodup →
    (∀ agent ∈ restored, book.agents.byKey agent.key = none) →
    (restored.map RestoredAgent.agentId).Nodup →
    (∀ agent ∈ restored, agent.agentId ∉ book.listed.map BookedAgent.agentId) →
      (restored.foldl restore book).Booked ∧
        (restored.foldl restore book).listed = book.listed ++ restored.map booked ∧
        (restored.foldl restore book).core = book.core ∧
        (restored.foldl restore book).canRestart = book.canRestart := by
  induction restored with
  | nil => exact fun h _ _ _ _ _ => ⟨h, by simp, rfl, rfl⟩
  | cons agent restored ih =>
      intro book h hv7 hkeys hnew hids hold
      rw [List.map_cons, List.nodup_cons] at hkeys hids
      have hkey := hnew agent List.mem_cons_self
      have hid := hold agent List.mem_cons_self
      have hlisted : (book.restore agent).listed = book.listed ++ [booked agent] :=
        listed_register h hkey
      have hbooked : (book.restore agent).Booked := by
        have hregistered : (book.register agent.key agent.agentId agent.hasInbox).2.Booked :=
          h.register hkey hid (hv7 agent List.mem_cons_self)
        exact ⟨hregistered.indexed.markRestored, hregistered.handed⟩
      have hrest := ih hbooked (fun other ho => hv7 other (List.mem_cons_of_mem _ ho)) hkeys.2
        (fun other ho => by
          have hne : other.key ≠ agent.key := by
            intro heq
            exact hkeys.1 (heq ▸ List.mem_map_of_mem ho)
          simpa [restore, register, Agents.add, Agents.markRestored, hne] using
            hnew other (List.mem_cons_of_mem _ ho))
        hids.2
        (fun other ho => by
          rw [hlisted, List.map_append, List.mem_append, not_or]
          refine ⟨hold other (List.mem_cons_of_mem _ ho), fun hmem => ?_⟩
          have heq : other.agentId = agent.agentId := by simpa [booked] using hmem
          exact hids.1 (heq ▸ List.mem_map_of_mem ho))
      obtain ⟨hall, hlist, hcore, hcan⟩ := hrest
      refine ⟨hall, ?_, hcore, hcan⟩
      rw [List.foldl_cons, hlist, hlisted, List.map_cons, List.append_assoc]
      rfl

/-- A book that is made lists the restored agents in order, each handed over once. -/
theorem make_ok {core core' : Work} {restored : List RestoredAgent} {canRestart : Bool}
    {book : AgentBook} (h : make core restored canRestart = (.ok book, core')) :
    book.Booked ∧ book.listed = restored.map booked ∧
      book.core = { core with bookMade := true } ∧ book.canRestart = canRestart := by
  unfold make at h
  split at h
  · cases h
  · rename_i hcheck
    split at h
    · cases h
    · cases h
      obtain ⟨hv7, hkeys, -, hids, -⟩ := checkRestoredFrom_eq_ok.mp hcheck
      have hall := restore_all (Booked.empty { core with bookMade := true } canRestart) hv7
        hkeys (fun _ _ => rfl) hids (by simp [listed, Agents.listed, Agents.default])
      simpa [listed, Agents.listed, Agents.default] using hall

/-- The agents of a book pass the check, and a Work that has no book yet gets one. -/
theorem make_of_booked {core : Work} (h : book.Booked) {restored : List RestoredAgent}
    (hrestored : restored.map booked = book.listed) (hcore : core.bookMade = false)
    (canRestart : Bool) :
    checkRestored restored = .ok () ∧
      ∃ made, make core restored canRestart = (.ok made, { core with bookMade := true }) := by
  have hkeyEq : restored.map RestoredAgent.key = book.listed.map BookedAgent.key := by
    rw [← hrestored, List.map_map]
    rfl
  have hidEq : restored.map RestoredAgent.agentId = book.listed.map BookedAgent.agentId := by
    rw [← hrestored, List.map_map]
    rfl
  have hcheck : checkRestored restored = .ok () := by
    refine checkRestoredFrom_eq_ok.mpr ⟨?_, ?_, by simp, ?_, by simp⟩
    · intro agent hagent
      have hlisted : booked agent ∈ book.listed := by
        rw [← hrestored]
        exact List.mem_map_of_mem hagent
      exact h.indexed.v7 (booked agent) hlisted
    · rw [hkeyEq]
      exact h.indexed.nodup_keys
    · rw [hidEq]
      exact h.indexed.ids
  have hmake : make core restored canRestart =
      (.ok (restored.foldl restore
        ⟨{ core with bookMade := true }, canRestart, Agents.default, []⟩),
        { core with bookMade := true }) := by
    simp only [make, hcheck, hcore, Bool.false_eq_true, if_false]
  exact ⟨hcheck, _, hmake⟩

end AgentBook

end RunnerKit.Book
