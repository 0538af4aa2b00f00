import RunnerKit.Jobs.Model

/-!
# The writes of a delivery queue and the dependencies between them

`queue/write.rs` and `queue/deps.rs`. A write names the keys it depends on;
the table of ended keys keeps, for each key, the end of the last write that
owned it.
-/

namespace RunnerKit.Queue

open RunnerKit.Jobs

/-! ## Writes and their names -/

inductive WriteKind where
  | started | registration | mail | readMarker | upload | create | finish
  | cancel | answer | savedState | planDeclared | stepStarted | completed
  | failed
deriving DecidableEq

structure WriteName where
  kind : WriteKind
  ids : List Uuid
deriving DecidableEq

inductive Write where
  | started (runId startId : Uuid)
  | registration (runId : Uuid) (agent : AgentDeclaration)
  | mail (mail : NewMailInput)
  | marker (runId itemId agentId entryId : Uuid)
  | upload (jobId : Uuid) (content : Content)
  | create (create : CreateChild)
  | finish (runId jobId commandId : Uuid)
  | cancel (runId jobId commandId : Uuid)
  | answer (content : Content)
  | savedState (state : Value)
  | fact (fact : Fact) (messageId : Uuid)

def Write.name : Write → WriteName
  | .started runId startId => ⟨.started, [runId, startId]⟩
  | .registration _ agent => ⟨.registration, [agent.agentId]⟩
  | .mail m => ⟨.mail, [m.mailId, m.fromAddress]⟩
  | .marker _ itemId agentId _ => ⟨.readMarker, [itemId, agentId]⟩
  | .upload jobId _ => ⟨.upload, [jobId]⟩
  | .create c => ⟨.create, [c.jobId, c.commandId]⟩
  | .finish _ jobId commandId => ⟨.finish, [jobId, commandId]⟩
  | .cancel _ jobId commandId => ⟨.cancel, [jobId, commandId]⟩
  | .answer _ => ⟨.answer, []⟩
  | .savedState _ => ⟨.savedState, []⟩
  | .fact (.plan runId _ _) _ => ⟨.planDeclared, [runId]⟩
  | .fact (.step runId _ _ _) _ => ⟨.stepStarted, [runId]⟩
  | .fact (.completed runId) _ => ⟨.completed, [runId]⟩
  | .fact (.failed runId _) _ => ⟨.failed, [runId]⟩

/-! ## How a write ends -/

inductive Removal where
  | refused (error : Error)
  | failed (error : Error)
  | dependsOnRemoved
  | leftUnsent
deriving DecidableEq

/-- `Result<(), Removal>`: delivered, or removed with a cause. -/
inductive WriteResult where
  | ok
  | err (removal : Removal)
deriving DecidableEq

inductive QueueReport where
  | retrying (write : WriteName) (error : Error)
  | removed (write : WriteName) (removal : Removal)
  | delivered (write : WriteName)
deriving DecidableEq

/-- The report that `complete` makes of a result. -/
def QueueReport.ofResult (name : WriteName) : WriteResult → QueueReport
  | .ok => .delivered name
  | .err removal => .removed name removal

/-- What a terminal report tells of a write; a retry ends nothing. -/
def QueueReport.terminal : QueueReport → Option (WriteName × WriteResult)
  | .retrying _ _ => none
  | .removed name removal => some (name, .err removal)
  | .delivered name => some (name, .ok)

@[simp] theorem QueueReport.terminal_ofResult (name : WriteName)
    (result : WriteResult) :
    (QueueReport.ofResult name result).terminal = some (name, result) := by
  cases result <;> rfl

/-! ## Dependencies -/

inductive DepKey where
  | started
  | registration (agent : Uuid)
  | upload (job : Uuid)
  | create (job : Uuid)
  | answer
  | savedState
deriving DecidableEq

inductive Ended where
  | delivered
  | refused (error : Error)
  | failed
  | depends
  | unsent
deriving DecidableEq

def Ended.of : WriteResult → Ended
  | .ok => .delivered
  | .err (.refused error) => .refused error
  | .err (.failed _) => .failed
  | .err .dependsOnRemoved => .depends
  | .err .leftUnsent => .unsent

/-- The table of ended keys. -/
abbrev Table := DepKey → Option Ended

def ownKey : Write → Option DepKey
  | .started _ _ => some .started
  | .registration _ agent => some (.registration agent.agentId)
  | .upload jobId _ => some (.upload jobId)
  | .create c => some (.create c.jobId)
  | .answer _ => some .answer
  | .savedState _ => some .savedState
  | _ => none

def Write.isStarted : Write → Bool
  | .started _ _ => true
  | _ => false

def Write.isCreate : Write → Bool
  | .create _ => true
  | _ => false

def DepKey.isUpload : DepKey → Bool
  | .upload _ => true
  | _ => false

/-- The keys that only some kinds of write depend on. -/
def ownDeps : Write → List DepKey
  | .mail m => [.registration m.fromAddress]
  | .marker _ _ agentId _ => [.registration agentId]
  | .create c =>
      .upload c.jobId :: match c.mode with
        | .background callerAddress => [.registration callerAddress]
        | .sync => []
  | .finish _ jobId _ => [.create jobId]
  | .cancel _ jobId _ => [.create jobId]
  | .fact (.completed _) _ => [.answer, .savedState]
  | _ => []

def dependsOn (write : Write) : List DepKey :=
  (if write.isStarted then [] else [.started]) ++ ownDeps write

/-- What one end of `key` does to a write that depends on it. -/
def blockedBy (write : Write) (key : DepKey) : Option Ended → Option Removal
  | none => none
  | some .delivered => none
  | some (.refused error) =>
      if write.isCreate && key.isUpload then some (.refused error)
      else some .dependsOnRemoved
  | some _ => some .dependsOnRemoved

/-- The first dependency, in the order of `dependsOn`, that removes the
write. -/
def blocked (write : Write) (ended : Table) : Option Removal :=
  (dependsOn write).findSome? fun key => blockedBy write key (ended key)

theorem blocked_congr {write : Write} {t t' : Table}
    (h : ∀ key ∈ dependsOn write, t key = t' key) :
    blocked write t = blocked write t' := by
  unfold blocked
  revert h
  generalize dependsOn write = keys
  intro h
  induction keys with
  | nil => rfl
  | cons key rest ih =>
      simp only [List.findSome?_cons, h key List.mem_cons_self,
        ih fun k hk => h k (List.mem_cons_of_mem _ hk)]

end RunnerKit.Queue
