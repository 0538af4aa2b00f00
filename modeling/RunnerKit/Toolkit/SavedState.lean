import RunnerKit.Book.Making
import RunnerKit.Jobs.Text
import RunnerKit.Jobs.Value
import RunnerKit.Lib.Machine

/-!
# The saved state of a Run

`saved_state.rs`: the document of the state fields and the agents that a Run which can
restart saves, and its reading at the restart. The states of the graph, the JSON text and
the parser of UUIDs are those of libraries; `Libs` stands for them. The derived readers
take a struct from an object by the names of its fields, or from an array in their order.
The texts of the errors are the libraries' too, so a failure is `none`.
-/

namespace RunnerKit.Toolkit.SavedState

open RunnerKit.Book RunnerKit.Jobs RunnerKit.Lib RunnerKit.Queue

/-! ## The libraries -/

abbrev NonZeroUsize := {n : ℕ // n ≠ 0}

structure Libs (F : Type) where
  State : Type
  toJson : State → Option (List UInt8)
  /-- `State::rebuild`, and `State::rebuild_with_limit` with a limit. -/
  rebuild : Option NonZeroUsize → List UInt8 → Option State
  intoFields : State → F
  fromSlice : List UInt8 → Option Value
  toVec : Value → Option (List UInt8)
  parseStr : String → Option Uuid

namespace Libs

variable {F : Type} (lib : Libs F)

/-- What is assumed of them. The members of an object may come in another order when a
text is read and written again, which no reader of it sees. -/
structure Inverse : Prop where
  parse : ∀ id : Uuid, lib.parseStr id.hyphenated = some id
  rewrites : ∀ state json, lib.toJson state = some json →
    ∃ value bytes, lib.fromSlice json = some value ∧ lib.toVec value = some bytes ∧
      lib.fromSlice bytes = some value ∧ bytes.length = json.length
  rebuilds : ∀ limit json bytes, lib.fromSlice json = lib.fromSlice bytes →
    json.length = bytes.length → lib.rebuild limit json = lib.rebuild limit bytes

/-- The state is within the limit: its own text gives it back. -/
def Within (limit : Option NonZeroUsize) (state : lib.State) : Prop :=
  ∃ json, lib.toJson state = some json ∧ lib.rebuild limit json = some state

end Libs

/-! ## The document -/

structure SavedAgent where
  node : String
  label : String
  agentId : Uuid
  hasInbox : Bool
deriving DecidableEq

structure Document where
  fields : Value
  agents : List SavedAgent

/-- The members of an object are kept in the order of their names. -/
def SavedAgent.toValue (agent : SavedAgent) : Value :=
  .object [("agent_id", .string agent.agentId.hyphenated), ("has_inbox", .bool agent.hasInbox),
    ("label", .string agent.label), ("node", .string agent.node)]

def Document.toValue (document : Document) : Value :=
  .object [("agents", .array (document.agents.map SavedAgent.toValue)),
    ("fields", document.fields)]

def asBool : Value → Option Bool
  | .bool b => some b
  | _ => none

def SavedAgent.ofValue (parseStr : String → Option Uuid) (value : Value) : Option SavedAgent := do
  match ← Value.structFields ["node", "label", "agent_id", "has_inbox"] value with
  | [node, label, agentId, hasInbox] =>
      let node ← node.asStr
      let label ← label.asStr
      let agentId ← agentId.asStr.bind parseStr
      let hasInbox ← asBool hasInbox
      return ⟨node, label, agentId, hasInbox⟩
  | _ => none

def Document.ofValue (parseStr : String → Option Uuid) (value : Value) : Option Document := do
  match ← Value.structFields ["fields", "agents"] value with
  | [fields, agents] =>
      let agents ← agents.asArray
      let agents ← agents.mapM (SavedAgent.ofValue parseStr)
      return ⟨fields, agents⟩
  | _ => none

/-! ## Encoding and decoding -/

structure Restored (F : Type) where
  fields : F
  agents : List RestoredAgent

def savedAgent (agent : BookedAgent) : SavedAgent :=
  ⟨agent.key.node, agent.key.label, agent.agentId, agent.hasInbox⟩

def restoredAgent (agent : SavedAgent) : RestoredAgent :=
  ⟨⟨agent.node, agent.label⟩, agent.agentId, agent.hasInbox⟩

section

variable {F : Type} (lib : Libs F)

def encode (state : lib.State) (agents : List BookedAgent) : Option Value := do
  let json ← lib.toJson state
  let fields ← lib.fromSlice json
  return Document.toValue ⟨fields, agents.map savedAgent⟩

def decode (value : Value) (limit : Option NonZeroUsize) : Option (Restored F) := do
  let document ← Document.ofValue lib.parseStr value
  let bytes ← lib.toVec document.fields
  let state ← lib.rebuild limit bytes
  return ⟨lib.intoFields state, document.agents.map restoredAgent⟩

end

/-! ## The round trip of a document -/

theorem SavedAgent.ofValue_toValue {parseStr : String → Option Uuid}
    (hparse : ∀ id : Uuid, parseStr id.hyphenated = some id) (agent : SavedAgent) :
    SavedAgent.ofValue parseStr agent.toValue = some agent := by
  simp [SavedAgent.ofValue, SavedAgent.toValue, Value.structFields, Value.get, Value.asStr, asBool,
    hparse]

theorem Document.ofValue_toValue {parseStr : String → Option Uuid}
    (hparse : ∀ id : Uuid, parseStr id.hyphenated = some id) (document : Document) :
    Document.ofValue parseStr document.toValue = some document := by
  have hagents : (document.agents.map SavedAgent.toValue).mapM (SavedAgent.ofValue parseStr) =
      some document.agents := by
    induction document.agents with
    | nil => rfl
    | cons agent agents ih =>
        simp [List.mapM_cons, SavedAgent.ofValue_toValue hparse, ih]
  simp [Document.ofValue, Document.toValue, Value.structFields, Value.get, Value.asArray, hagents]

/-- A booked agent comes back from the document. -/
def restoredOf (agent : BookedAgent) : RestoredAgent :=
  ⟨agent.key, agent.agentId, agent.hasInbox⟩

@[simp] theorem booked_restoredOf (agent : BookedAgent) :
    AgentBook.booked (restoredOf agent) = agent := rfl

theorem decode_encode {F : Type} {lib : Libs F} (hlib : lib.Inverse)
    {limit : Option NonZeroUsize} {state : lib.State} (hstate : lib.Within limit state)
    (agents : List BookedAgent) :
    ∃ document, encode lib state agents = some document ∧
      decode lib document limit = some ⟨lib.intoFields state, agents.map restoredOf⟩ := by
  obtain ⟨json, hjson, hrebuild⟩ := hstate
  obtain ⟨value, bytes, hvalue, hbytes, hread, hlength⟩ := hlib.rewrites state json hjson
  -- the text that is rebuilt is the state's own one, up to the order of members
  have hsame : lib.rebuild limit bytes = some state := by
    rw [← hrebuild]
    exact hlib.rebuilds limit bytes json (hread.trans hvalue.symm) hlength
  refine ⟨Document.toValue ⟨value, agents.map savedAgent⟩, by simp [encode, hjson, hvalue], ?_⟩
  simp only [decode, Document.ofValue_toValue hlib.parse, Option.bind_eq_bind, Option.bind_some,
    hbytes, hsame, List.map_map]
  rfl

/-! ## The books over restarts -/

inductive Event {F : Type} (lib : Libs F) where
  /-- With the id that `Uuid::now_v7` would give. -/
  | agentFor (key : AgentKey) (inboxLabel : Bool) (fresh : Uuid)
  /-- The Run ends with this state, and another one restores what it has saved. -/
  | restart (core : Work) (canRestart : Bool) (limit : Option NonZeroUsize) (state : lib.State)

/-- The book of a Run that restores nothing. -/
def freshBook (core : Work) (canRestart : Bool) : AgentBook :=
  ⟨{ core with bookMade := true }, canRestart, Agents.default, []⟩

section

variable {F : Type} (lib : Libs F)

def step (book : AgentBook) : Event lib → Option AgentBook
  | .agentFor key inboxLabel fresh => some (book.agentFor key inboxLabel fresh).2
  | .restart core canRestart limit state => do
      let document ← encode lib state book.listed
      let restored ← decode lib document limit
      (AgentBook.make core restored.agents canRestart).1.toOption

def machine (core : Work) (canRestart : Bool) : Machine AgentBook (Event lib) :=
  ⟨freshBook core canRestart, step lib⟩

end

variable {F : Type} {lib : Libs F} {core : Work} {canRestart : Bool} {book : AgentBook}

/-- The ids that are drawn are of version 7 and no two are the same. -/
def Fresh (book : AgentBook) : Event lib → Prop
  | .agentFor key _ fresh => book.agents.find key = none →
      isV7 fresh = true ∧ fresh ∉ book.listed.map BookedAgent.agentId
  | .restart .. => True

theorem make_fresh (hcore : core.bookMade = false) (canRestart : Bool) :
    AgentBook.make core [] canRestart =
      (.ok (freshBook core canRestart), { core with bookMade := true }) := by
  simp [AgentBook.make, AgentBook.checkRestored, AgentBook.checkRestoredFrom, hcore, freshBook]

theorem reach_booked (h : (machine lib core canRestart).Reach Fresh book) : book.Booked := by
  refine h.invariant (AgentBook.Booked.empty _ _) ?_
  intro book book' e _ hbooked hfresh hs
  cases e with
  | agentFor key inboxLabel fresh =>
      cases hs
      exact hbooked.agentFor hfresh
  | restart core canRestart limit state =>
      obtain ⟨document, -, hs⟩ := Option.bind_eq_some_iff.mp hs
      obtain ⟨restored, -, hs⟩ := Option.bind_eq_some_iff.mp hs
      cases hmade : AgentBook.make core restored.agents canRestart with
      | mk result core' =>
          rw [hmade] at hs
          cases result with
          | error error => cases hs
          | ok made =>
              cases hs
              exact (AgentBook.make_ok hmade).1

/-- As long as each key that is asked for is one of the book's, it stays as it is. -/
theorem agentFor_all (h : book.Booked) : ∀ {calls : List (AgentKey × Bool × Uuid)},
    (∀ call ∈ calls, call.1 ∈ book.listed.map BookedAgent.key) →
      calls.foldl (fun book call => (book.agentFor call.1 call.2.1 call.2.2).2) book = book := by
  intro calls
  induction calls with
  | nil => exact fun _ => rfl
  | cons call calls ih =>
      intro hknown
      obtain ⟨agent, hagent, hkey⟩ := List.mem_map.mp (hknown call List.mem_cons_self)
      rw [List.foldl_cons, ← hkey, AgentBook.agentFor_known h hagent]
      exact ih fun other ho => hknown other (List.mem_cons_of_mem _ ho)

/-- A restart gives the fields back and a book with the same agents in the same order,
each found under its key and handed over once for its registration; saved again, they make
the same document. -/
theorem restores_agents (hlib : lib.Inverse)
    (hbook : (machine lib core canRestart).Reach Fresh book)
    {limit : Option NonZeroUsize} {state : lib.State} (hstate : lib.Within limit state)
    (core' : Work) (hcore : core'.bookMade = false) (canRestart' : Bool) :
    ∃ document restored made,
      encode lib state book.listed = some document ∧
        decode lib document limit = some restored ∧
        restored.fields = lib.intoFields state ∧
        restored.agents = book.listed.map restoredOf ∧
        AgentBook.checkRestored restored.agents = .ok () ∧
        AgentBook.make core' restored.agents canRestart' =
          (.ok made, { core' with bookMade := true }) ∧
        made.listed = book.listed ∧
        (∀ key, (made.agents.find key).map (fun found => (found.agentId, found.hasInbox)) =
          (book.agents.find key).map (fun found => (found.agentId, found.hasInbox))) ∧
        made.handed = book.listed.map (fun agent =>
          Write.registration core'.runId ⟨agent.agentId, agent.hasInbox, canRestart'⟩) ∧
        ∀ calls : List (AgentKey × Bool × Uuid),
          (∀ call ∈ calls, call.1 ∈ book.listed.map BookedAgent.key) →
            encode lib state (calls.foldl (fun book call =>
              (book.agentFor call.1 call.2.1 call.2.2).2) made).listed = some document := by
  have hbooked := reach_booked hbook
  obtain ⟨document, hencode, hdecode⟩ := decode_encode hlib hstate book.listed
  have hagents : (book.listed.map restoredOf).map AgentBook.booked = book.listed := by
    simp [List.map_map, Function.comp_def]
  obtain ⟨hcheck, made, hmake⟩ := AgentBook.make_of_booked hbooked hagents hcore canRestart'
  obtain ⟨hmade, hlisted, hmadeCore, hmadeCan⟩ := AgentBook.make_ok hmake
  rw [hagents] at hlisted
  refine ⟨document, _, made, hencode, hdecode, rfl, rfl, hcheck, hmake, hlisted,
    Agents.Indexed.find_congr hbooked.indexed hmade.indexed hlisted, ?_, ?_⟩
  · have hhanded := hmade.handed
    simpa [AgentBook.registration, hlisted, hmadeCore, hmadeCan] using hhanded
  · intro calls hcalls
    rw [← hlisted] at hcalls hencode
    rw [agentFor_all hmade hcalls]
    exact hencode

/-! ## A library of two states -/

def trueText : List UInt8 := [116, 114, 117, 101]

def falseText : List UInt8 := [102, 97, 108, 115, 101]

def readBool (text : List UInt8) : Option Bool :=
  if text = trueText then some true else if text = falseText then some false else none

def writeBool (b : Bool) : List UInt8 := if b then trueText else falseText

/-- The states are a truth value, written as its JSON text. -/
def boolLibs : Libs Bool where
  State := Bool
  toJson b := some (writeBool b)
  rebuild limit text := if limit.all (text.length ≤ ·.val) then readBool text else none
  intoFields := id
  fromSlice text := (readBool text).map .bool
  toVec value := (asBool value).map writeBool
  parseStr text := some (readDigits text)

theorem readBool_writeBool (b : Bool) : readBool (writeBool b) = some b := by
  cases b <;> rfl

theorem boolLibs_inverse : boolLibs.Inverse := by
  refine ⟨fun id => congrArg some (readDigits_hyphenated id), ?_, ?_⟩
  · intro b json hjson
    cases hjson
    have hread := congrArg (Option.map Value.bool) (readBool_writeBool b)
    exact ⟨.bool b, writeBool b, hread, rfl, hread, rfl⟩
  · intro limit json bytes hsame hlength
    have hread : readBool json = readBool bytes := by
      have hinj : Function.Injective Value.bool := fun _ _ heq => Value.bool.inj heq
      exact Option.map_injective hinj hsame
    simp [boolLibs, hread, hlength]

/-- A Run with two agents, its restart, and an agent that is added there. -/
def restartedRun : List (Event boolLibs) :=
  [.agentFor ⟨"planner", "lead"⟩ true 0x70008000000000000001,
    .agentFor ⟨"writer", "side"⟩ false 0x70008000000000000002,
    .restart ⟨2, false⟩ true none true,
    .agentFor ⟨"writer", "main"⟩ true 0x70008000000000000003]

theorem restores_agents_restarted :
    ∃ book, (machine boolLibs ⟨1, false⟩ true).Reach Fresh book ∧
      book.listed.map BookedAgent.agentId =
        [0x70008000000000000001, 0x70008000000000000002, 0x70008000000000000003] ∧
      ∃ document restored made,
        encode boolLibs true book.listed = some document ∧
          decode boolLibs document (some ⟨5, by decide⟩) = some restored ∧
          AgentBook.make ⟨3, false⟩ restored.agents true = (.ok made, ⟨3, true⟩) ∧
          made.listed = book.listed ∧
          (made.agents.find ⟨"writer", "side"⟩).map (fun found => (found.agentId, found.hasInbox)) =
            some (0x70008000000000000002, false) := by
  obtain ⟨book, hrun, hids, hold⟩ : ∃ book,
      (machine boolLibs ⟨1, false⟩ true).run restartedRun = some book ∧
        book.listed.map BookedAgent.agentId =
          [0x70008000000000000001, 0x70008000000000000002, 0x70008000000000000003] ∧
        (book.agents.find ⟨"writer", "side"⟩).map (fun found => (found.agentId, found.hasInbox)) =
          some (0x70008000000000000002, false) := ⟨_, rfl, rfl, rfl⟩
  have hfresh : (machine boolLibs ⟨1, false⟩ true).Guarded Fresh
      (freshBook ⟨1, false⟩ true) restartedRun := by
    refine ⟨fun _ => by decide, fun s hs => ?_⟩
    cases hs
    refine ⟨fun _ => by decide, fun s hs => ?_⟩
    cases hs
    refine ⟨trivial, fun s hs => ?_⟩
    cases hs
    refine ⟨fun _ => by decide, fun _ _ => trivial⟩
  have hbook := Machine.Reach.runFrom .init hfresh hrun
  have hwithin : boolLibs.Within (some ⟨5, by decide⟩) true := ⟨writeBool true, rfl, rfl⟩
  obtain ⟨document, restored, made, hencode, hdecode, -, -, -, hmake, hlisted, hfound, -⟩ :=
    restores_agents boolLibs_inverse hbook hwithin ⟨3, false⟩ rfl true
  exact ⟨book, hbook, hids, document, restored, made, hencode, hdecode, hmake, hlisted,
    (hfound _).trans hold⟩

end RunnerKit.Toolkit.SavedState
