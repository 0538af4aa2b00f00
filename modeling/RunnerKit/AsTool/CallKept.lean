import RunnerKit.AsTool.Refined

/-!
# What a call of a RunnerTool keeps

The call of the child Job keeps the rules of such a call in every run. When the
call of the tool is over, a child Job whose create was taken is accounted for, or
the call was one in background mode that returned its acknowledgement. The rest
is about the functions of the author and about what the call returns: the result
is caused by what the log says, and it is the cancelled one if and only if the
cancel view was seen triggered.
-/

namespace RunnerKit.AsTool

open RunnerKit.Jobs RunnerKit.Queue RunnerKit.Calls RunnerKit.Lib

variable {β χ : Type} {tool : Tool β χ} {s s' : Sys β χ}

/-! ## What was heard is so -/

/-- The host may drop a call whenever it awaits. -/
def Sys.world (s : Sys β χ) : World where
  createEnd := s.createEnd
  waitEnd := s.waitEnd
  cancel := s.cancel
  gone := true

abbrev Speaks (s s' : Sys β χ) : Prop := Says s.world s.log s'.world s'.log

theorem Speaks.after {x : Obs (Act β χ)} (hx : s.world.Bears x) (h : Speaks (s.say [x]) s') :
    Speaks s s' :=
  Says.after (x := x) hx h

theorem says_settle {ended : SyncEnd} : Speaks s (s.settle tool ended) := by
  unfold Sys.settle
  split
  · exact .one rfl trivial
  · exact .one rfl trivial
  · exact .one rfl trivial
  · exact .nothing (.refl _) rfl
  · exact .nothing (.refl _) rfl

theorem says_process {result : Content} : Speaks s (s.process tool result) := by
  unfold Sys.process
  split
  · exact .one rfl trivial
  · exact .nothing (.refl _) rfl

theorem says_pollWork {work : Work} {answer : Answer β χ}
    (hs : s.pollWork tool work answer = some s') : Speaks s s' := by
  unfold Sys.pollWork at hs
  split at hs
  · cases hs
    exact .nothing (.refl _) rfl
  all_goals
    cases hs
  all_goals exact .one rfl trivial

theorem says_run {answer : Answer β χ} (hs : s.run tool answer = some s') : Speaks s s' := by
  have hview : ∀ {place : Place β χ}, s.cancel = true →
      Speaks s ((s.say [.triggered]).goTo place) := fun hcancel => .one rfl hcancel
  unfold Sys.run at hs
  split at hs
  · cases hs
    split
    · exact .one rfl trivial
    · split <;> exact .nothing (.refl _) rfl
  · cases hs
    split
    · rename_i hcancel
      exact hview hcancel
    · exact .nothing (.refl _) rfl
  · exact says_pollWork hs
  · cases hs
    split
    · rename_i hcancel
      exact hview hcancel
    · exact .nothing (.refl _) rfl
  · cases hs
    exact .one rfl trivial
  · cases hs
    exact .two rfl trivial trivial
  · cases hs
    split
    · rename_i hcancel
      exact hview hcancel
    · exact .nothing (.refl _) rfl
  · cases hs
    exact .one rfl trivial
  · cases hs
    exact .two rfl trivial trivial
  · cases hs
    split
    · exact .nothing (.refl _) rfl
    · rename_i hended
      exact .after (x := .ended (.ok _)) hended says_settle
    · rename_i hended
      exact .one rfl hended
  · cases hs
    exact .nothing (.refl _) rfl
  · cases hs
    split
    · exact .nothing (.refl _) rfl
    · rename_i hcreated
      exact .one rfl hcreated
    · rename_i hcreated
      exact .one rfl hcreated
  · cases hs
    split
    · rename_i hcancel
      exact hview hcancel
    · exact .nothing (.refl _) rfl
  · -- the create is dead only if its end is known to be a removal
    rename_i createEnd stop _
    cases hs
    refine .one rfl ?_
    cases hdead : s.dead createEnd with
    | false => exact trivial
    | true =>
        simp only [Sys.dead, Bool.and_eq_true] at hdead
        have hremoved := hdead.2
        split at hremoved
        · rename_i removal hend
          exact ⟨removal, hend⟩
        · cases hremoved
  · cases hs
    exact .one rfl trivial
  · cases hs
    split
    · rename_i hcancel
      exact hview hcancel
    · exact .one rfl trivial
  · cases hs
    refine .after (x := .finish tool.child tool.finishId) trivial ?_
    split
    · exact says_process
    · exact .nothing (.refl _) rfl
  · cases hs
    split
    · rename_i hcancel
      exact hview hcancel
    · exact .nothing (.refl _) rfl
  · cases hs
    exact .one rfl trivial
  · cases hs

theorem says_step {e : Event β χ} (hs : s.step tool e = some s') : Speaks s s' := by
  cases e with
  | step answer => exact says_run hs
  | abandon =>
      simp only [Sys.step] at hs
      split at hs <;> cases hs
      exact .one rfl rfl
  | trigger =>
      cases hs
      exact .nothing ⟨fun _ h => h, fun _ h => h, fun _ => rfl, id⟩ rfl
  | createEnds result =>
      simp only [Sys.step] at hs
      split at hs <;> cases hs
      rename_i hnone
      exact .nothing (World.stays_createEnd hnone) rfl
  | waitEnds result =>
      simp only [Sys.step] at hs
      split at hs <;> cases hs
      rename_i hnone
      exact .nothing (World.stays_waitEnd hnone) rfl

/-- Everything that a call heard was so, and still is. -/
theorem bears_of_reachable (h : (machine tool).Reachable s) : ∀ x ∈ s.log, s.world.Bears x := by
  refine h.invariant (P := fun s => ∀ x ∈ s.log, s.world.Bears x) ?_ ?_
  · intro x hx
    cases hx
  · exact fun hold hs => (says_step hs).bears hold

/-! ## The order of the calls -/

/-- What an entry of the log is, for the order of the calls of the author. -/
inductive Mark where
  | builder | readResult | processor | returned | create | triggered | gone | other

def mark : Obs (Act β χ) → Mark
  | .own .builder => .builder
  | .own (.readResult _ _) => .readResult
  | .own (.processor _) => .processor
  | .own (.returned _) => .returned
  | .create _ true => .create
  | .triggered => .triggered
  | .gone => .gone
  | _ => .other

def Without (marks : List Mark) (log : List (Obs (Act β χ))) : Prop :=
  ∀ x ∈ log, mark x ∉ marks

/-- What holds before the calls of a tool's own: the builder is called first, the
Result read once and for the reference of the completed end, the processor once,
with the Result, and only when the finish was handed over and no cancel was seen. -/
def ToolRule (tool : Tool β χ) (past : List (Obs (Act β χ))) : Obs (Act β χ) → Prop
  | .own .builder => past = []
  | .own (.readResult reference keep) =>
      keep = tool.keep ∧ .ended (.ok (.completed none (some reference))) ∈ past ∧
        Without [.readResult, .processor, .returned, .triggered, .gone] past
  | .own (.processor result) =>
      tool.processor = true ∧ .finish tool.child tool.finishId ∈ past ∧
        .read (.ok result) ∈ past ∧ Without [.processor, .returned, .triggered, .gone] past
  | .own (.returned _) => Without [.returned, .gone] past
  | _ => True

/-! ## What a call returns -/

/-- The causes of each result of a call. -/
inductive Caused (tool : Tool β χ) (log : List (Obs (Act β χ))) :
    Except (Stop χ) (ToolContent β) → Prop where
  | cancelled (seen : .triggered ∈ log) : Caused tool log (.error .cancelled)
  | arguments (cause : χ) (builder : tool.builder = false)
      (failed : tool.arguments = .error cause) : Caused tool log (.error (.fault (.other cause)))
  | builder (failure : AuthorFailure χ) (failed : .own (.built (.error failure)) ∈ log) :
      Caused tool log (.error failure.stop)
  | upload (content : Content) (error : Jobs.Error)
      (refused : [.own (.refused error), .upload tool.child content false] <:+: log) :
      Caused tool log (.error (.fault (.jobs error)))
  | create (form : PayloadForm) (error : Jobs.Error)
      (refused : [.own (.refused error), .create (tool.createInput form) false] <:+: log) :
      Caused tool log (.error (.fault (.jobs error)))
  | removed (removal : Removal) (heard : .created (.err removal) ∈ log) :
      Caused tool log (.error (Tool.removed removal))
  | endWait (error : Jobs.Error) (heard : .ended (.error error) ∈ log) :
      Caused tool log (.error (.fault (.jobs error)))
  | failedEnd (report : Option FailureReportView) (message : String)
      (heard : .ended (.ok (.failed report message)) ∈ log) :
      Caused tool log (.error (.flag (tool.endedText "failed" message)))
  | cancelledEnd (message : String) (heard : .ended (.ok (.cancelled message)) ∈ log) :
      Caused tool log (.error (.flag (tool.endedText "cancelled" message)))
  | read (error : Jobs.Error) (heard : .read (.error error) ∈ log)
      (finished : .finish tool.child tool.finishId ∈ log) :
      Caused tool log (.error (tool.readStop error))
  | processor (failure : AuthorFailure χ) (failed : .own (.processed (.error failure)) ∈ log)
      (finished : .finish tool.child tool.finishId ∈ log) :
      Caused tool log (.error failure.stop)
  | processed (blocks : List β) (given : .own (.processed (.ok blocks)) ∈ log)
      (finished : .finish tool.child tool.finishId ∈ log) :
      Caused tool log (.ok ⟨blocks, false⟩)
  | default (result : Content) (processor : tool.processor = false)
      (heard : .read (.ok result) ∈ log) (finished : .finish tool.child tool.finishId ∈ log) :
      Caused tool log (tool.defaultContent result)
  | handed (background : tool.mode ≠ .sync) (created : ∃ input, .create input true ∈ log) :
      Caused tool log tool.acknowledgement

/-- In background mode the call returns its acknowledgement when its create was
taken and no cancel was seen. -/
def Acknowledged (tool : Tool β χ) (log : List (Obs (Act β χ)))
    (result : Except (Stop χ) (ToolContent β)) : Prop :=
  tool.mode ≠ .sync → .triggered ∉ log → (∃ input, .create input true ∈ log) →
    result = tool.acknowledgement

/-- The result is decided, and not returned. -/
structure Decided (tool : Tool β χ) (log : List (Obs (Act β χ)))
    (result : Except (Stop χ) (ToolContent β)) : Prop where
  free : Without [.returned, .gone] log
  caused : Caused tool log result
  cancelled : .triggered ∈ log → result = .error .cancelled
  acknowledged : Acknowledged tool log result

/-- What was taken of the Result. -/
def Took (tool : Tool β χ) (log : List (Obs (Act β χ))) : Except (Stop χ) Content → Prop
  | .ok result => .read (.ok result) ∈ log
  | .error stop => ∃ error, .read (.error error) ∈ log ∧ stop = tool.readStop error

/-- The call went on to its Result, in sync mode. -/
def Going (tool : Tool β χ) (log : List (Obs (Act β χ))) : Prop :=
  tool.mode = .sync ∧ Without [.processor, .returned, .triggered, .gone] log

/-- What the log says at each place. -/
def Stands (tool : Tool β χ) (s : Sys β χ) : Prop :=
  match s.place with
  | .start => s.log = []
  | .guard _ .build | .uploadView _ | .upload _ | .createView _ | .create _ =>
      Without [.readResult, .processor, .returned, .create, .triggered, .gone] s.log
  | .raceEnd _ | .raceCreated _ | .raceView _ =>
      Going tool s.log ∧ Without [.readResult] s.log
  | .backgroundView =>
      Without [.returned, .triggered, .gone] s.log ∧ tool.mode ≠ .sync ∧
        ∃ input, .create input true ∈ s.log
  | .guard _ (.read _) => Going tool s.log
  | .view read | .finish read => Going tool s.log ∧ Took tool s.log read
  | .guard _ (.process _) =>
      tool.mode = .sync ∧ Without [.returned, .triggered, .gone] s.log ∧
        .finish tool.child tool.finishId ∈ s.log
  | .unlessDead _ stop | .cancel stop => Decided tool s.log (.error stop)
  | .give result => Decided tool s.log result
  | .done =>
      Without [.returned] s.log ∧ .gone ∈ s.log ∨
        ∃ past result, s.log = past ++ [.own (.returned (tool.intoResult result))] ∧
          Decided tool past result

section Log

variable {log : List (Obs (Act β χ))} {x : Obs (Act β χ)} {marks fewer : List Mark}

theorem Without.say (h : Without marks log) (hx : mark x ∉ marks) : Without marks (log ++ [x]) := by
  intro y hy
  rcases List.mem_append.mp hy with hy | hy
  · exact h y hy
  · rw [List.mem_singleton.mp hy]
    exact hx

theorem Without.mono (h : Without marks log) (hsub : ∀ m ∈ fewer, m ∈ marks) :
    Without fewer log :=
  fun y hy hin => h y hy (hsub _ hin)

theorem Without.not_mem (h : Without marks log) (hx : mark x ∈ marks) : x ∉ log :=
  fun hin => h x hin hx

theorem Caused.mono {result : Except (Stop χ) (ToolContent β)} (h : Caused tool log result) :
    Caused tool (log ++ [x]) result := by
  have hmem : ∀ {y : Obs (Act β χ)}, y ∈ log → y ∈ log ++ [x] := List.mem_append_left _
  have hpart : ∀ {part : List (Obs (Act β χ))}, part <:+: log → part <:+: log ++ [x] :=
    fun hin => hin.trans (List.prefix_append log [x]).isInfix
  cases h with
  | cancelled seen => exact .cancelled (hmem seen)
  | arguments cause builder failed => exact .arguments cause builder failed
  | builder failure failed => exact .builder failure (hmem failed)
  | upload content error refused => exact .upload content error (hpart refused)
  | create form error refused => exact .create form error (hpart refused)
  | removed removal heard => exact .removed removal (hmem heard)
  | endWait error heard => exact .endWait error (hmem heard)
  | failedEnd report message heard => exact .failedEnd report message (hmem heard)
  | cancelledEnd message heard => exact .cancelledEnd message (hmem heard)
  | read error heard finished => exact .read error (hmem heard) (hmem finished)
  | processor failure failed finished => exact .processor failure (hmem failed) (hmem finished)
  | processed blocks given finished => exact .processed blocks (hmem given) (hmem finished)
  | default result processor heard finished =>
      exact .default result processor (hmem heard) (hmem finished)
  | handed background created => exact .handed background (created.imp fun _ => hmem)

theorem Took.mono {read : Except (Stop χ) Content} (h : Took tool log read) :
    Took tool (log ++ [x]) read := by
  cases read with
  | ok result => exact List.mem_append_left _ h
  | error stop => exact h.imp fun _ hin => ⟨List.mem_append_left _ hin.1, hin.2⟩

theorem Acknowledged.sync {result : Except (Stop χ) (ToolContent β)}
    (hmode : tool.mode = .sync) : Acknowledged tool log result :=
  fun hother => absurd hmode hother

/-- Before a cancel was seen and the create was taken, any cause decides the result. -/
theorem Without.decided {result : Except (Stop χ) (ToolContent β)}
    (h : Without [.returned, .create, .triggered, .gone] log) (hc : Caused tool log result) :
    Decided tool log result where
  free := h.mono (by simp)
  caused := hc
  cancelled := fun hin => absurd hin (h.not_mem (by simp [mark]))
  acknowledged := by
    rintro - - ⟨input, hin⟩
    exact absurd hin (h.not_mem (by simp [mark]))

/-- So it does in sync mode before a cancel was seen. -/
theorem Without.decided_sync {result : Except (Stop χ) (ToolContent β)}
    (h : Without [.returned, .triggered, .gone] log) (hmode : tool.mode = .sync)
    (hc : Caused tool log result) : Decided tool log result where
  free := h.mono (by simp)
  caused := hc
  cancelled := fun hin => absurd hin (h.not_mem (by simp [mark]))
  acknowledged := .sync hmode

theorem Without.triggered (h : Without [.returned, .gone] log) :
    Decided tool (log ++ [.triggered]) (.error .cancelled) where
  free := h.say (by simp [mark])
  caused := .cancelled (List.mem_append_right _ List.mem_cons_self)
  cancelled := fun _ => rfl
  acknowledged := fun _ hno _ => absurd (List.mem_append_right _ List.mem_cons_self) hno

theorem Decided.say {result : Except (Stop χ) (ToolContent β)} (h : Decided tool log result)
    (hx : mark x ∉ [.returned, .create, .triggered, .gone]) :
    Decided tool (log ++ [x]) result := by
  have hold : ∀ y : Obs (Act β χ), mark y ∈ [.returned, .create, .triggered, .gone] →
      y ∈ log ++ [x] → y ∈ log := by
    intro y hy hin
    rcases List.mem_append.mp hin with hin | hin
    · exact hin
    · rw [List.mem_singleton.mp hin] at hy
      exact absurd hy hx
  refine ⟨h.free.say fun hin => hx ?_, h.caused.mono, fun hin => ?_, ?_⟩
  · have hsub : ∀ m ∈ [Mark.returned, .gone], m ∈ [Mark.returned, .create, .triggered, .gone] := by
      simp
    exact hsub _ hin
  · exact h.cancelled (hold _ (by simp [mark]) hin)
  · rintro hmode hno ⟨input, hin⟩
    refine h.acknowledged hmode (fun hin => hno (List.mem_append_left _ hin)) ⟨input, ?_⟩
    exact hold _ (by simp [mark]) hin

end Log

/-! ## One step -/

structure Kept (tool : Tool β χ) (s : Sys β χ) : Prop where
  order : Always (ToolRule tool) s.log
  stands : Stands tool s

theorem Kept.said {x : Obs (Act β χ)} {place : Place β χ}
    (horder : Always (ToolRule tool) s.log) (hrule : ToolRule tool s.log x)
    (hstands : Stands tool ((s.say [x]).goTo place)) : Kept tool ((s.say [x]).goTo place) :=
  ⟨always_snoc.mpr ⟨horder, hrule⟩, hstands⟩

theorem kept_stopped (horder : Always (ToolRule tool) s.log)
    (hfree : Without [.returned, .gone] s.log) : Kept tool s.stopped :=
  .said horder trivial hfree.triggered

/-- The handle did not take a call, and the tool stops with the error it gave. -/
theorem kept_refused {x : Obs (Act β χ)} {error : Jobs.Error}
    (horder : Always (ToolRule tool) s.log)
    (hfree : Without [.readResult, .processor, .returned, .create, .triggered, .gone] s.log)
    (hrule : ToolRule tool (s.log ++ [.own (.refused error)]) x) (hx : mark x = .other)
    (hcaused : ∀ log, [.own (.refused error), x] <:+: log →
      Caused tool log (.error (.fault (.jobs error)))) :
    Kept tool (((s.say [.own (.refused error)]).say [x]).goTo
      (stopWith (.fault (.jobs error)))) := by
  refine .said (always_snoc.mpr ⟨horder, trivial⟩) hrule (Without.decided ?_ (hcaused _ ?_))
  · refine Without.say (Without.say (hfree.mono (by simp)) (by simp [mark])) ?_
    simp [hx]
  · exact ⟨s.log, [], by simp [Sys.say, Sys.goTo]⟩

theorem stands_handOver {prepared : Prepared}
    (h : Without [.readResult, .processor, .returned, .create, .triggered, .gone] s.log) :
    Stands tool (s.goTo (handOver prepared)) := by
  unfold handOver
  split <;> exact h

/-- The end of the call was heard, and is the last entry of the log. -/
theorem kept_settle {ended : SyncEnd} (horder : Always (ToolRule tool) s.log)
    (hgoing : Going tool s.log) (hread : Without [.readResult] s.log)
    (hended : .ended (.ok ended) ∈ s.log) : Kept tool (s.settle tool ended) := by
  have htook : ∀ result : Content, Kept tool (s.took result) := by
    intro result
    refine .said horder trivial ⟨⟨hgoing.1, hgoing.2.say (by simp [mark])⟩, ?_⟩
    exact List.mem_append_right _ List.mem_cons_self
  have hfree : Without [.returned, .triggered, .gone] s.log := hgoing.2.mono (by simp)
  unfold Sys.settle
  split
  · exact htook _
  · refine .said horder ⟨rfl, hended, ?_⟩ ⟨hgoing.1, hgoing.2.say (by simp [mark])⟩
    intro x hx hin
    rcases List.mem_cons.mp hin with hmark | hin
    · exact hread x hx (List.mem_singleton.mpr hmark)
    · exact hgoing.2 x hx hin
  · exact htook _
  · exact ⟨horder, hfree.decided_sync hgoing.1 (.failedEnd _ _ hended)⟩
  · exact ⟨horder, hfree.decided_sync hgoing.1 (.cancelledEnd _ hended)⟩

/-- The finish was handed over, and the Result is in hand. -/
theorem kept_process {result : Content} (horder : Always (ToolRule tool) s.log)
    (hgoing : Going tool s.log) (hread : .read (.ok result) ∈ s.log)
    (hfinished : .finish tool.child tool.finishId ∈ s.log) :
    Kept tool (s.process tool result) := by
  have hfree : Without [.returned, .triggered, .gone] s.log := hgoing.2.mono (by simp)
  unfold Sys.process
  split
  · rename_i hprocessor
    refine .said horder ⟨hprocessor, hfinished, hread, hgoing.2⟩ ⟨hgoing.1, ?_, ?_⟩
    · exact hfree.say (by simp [mark])
    · exact List.mem_append_left _ hfinished
  · rename_i hprocessor
    refine ⟨horder, hfree.decided_sync hgoing.1 ?_⟩
    exact .default result (by simpa using hprocessor) hread hfinished

theorem kept_pollWork {work : Work} {answer : Answer β χ} (h : Kept tool s)
    (hplace : s.place = .guard false work) (hs : s.pollWork tool work answer = some s') :
    Kept tool s' := by
  obtain ⟨horder, hstands⟩ := h
  have hlast : ∀ {x : Obs (Act β χ)}, x ∈ s.log ++ [x] :=
    List.mem_append_right _ List.mem_cons_self
  unfold Stands at hstands
  rw [hplace] at hstands
  unfold Sys.pollWork at hs
  split at hs
  · cases hs
    refine ⟨horder, ?_⟩
    unfold Stands
    cases work <;> exact hstands
  · cases hs
    exact .said horder trivial (stands_handOver (hstands.say (by simp [mark])))
  · cases hs
    exact .said horder trivial (stands_handOver (hstands.say (by simp [mark])))
  · cases hs
    refine .said horder trivial (Without.decided ?_ (.builder _ hlast))
    exact (hstands.say (by simp [mark])).mono (by simp)
  · cases hs
    exact .said horder trivial ⟨⟨hstands.1, hstands.2.say (by simp [mark])⟩, hlast⟩
  · cases hs
    exact .said horder trivial
      ⟨⟨hstands.1, hstands.2.say (by simp [mark])⟩, _, hlast, rfl⟩
  · obtain ⟨hmode, hfree, hfinished⟩ := hstands
    cases hs
    refine .said horder trivial ((hfree.say (by simp [mark])).decided_sync hmode ?_)
    exact .processed _ hlast (List.mem_append_left _ hfinished)
  · obtain ⟨hmode, hfree, hfinished⟩ := hstands
    cases hs
    refine .said horder trivial ((hfree.say (by simp [mark])).decided_sync hmode ?_)
    exact .processor _ hlast (List.mem_append_left _ hfinished)
  · cases hs

theorem kept_run {answer : Answer β χ} (h : Kept tool s) (hs : s.run tool answer = some s') :
    Kept tool s' := by
  have hwhole := h
  obtain ⟨horder, hstands⟩ := h
  have hlast : ∀ {x : Obs (Act β χ)}, x ∈ s.log ++ [x] :=
    List.mem_append_right _ List.mem_cons_self
  unfold Sys.run at hs
  split at hs
  any_goals
    rename_i hplace
    unfold Stands at hstands
    rw [hplace] at hstands
  · have hempty : ∀ marks, Without marks s.log := by
      intro marks x hx
      rw [show s.log = [] from hstands] at hx
      cases hx
    cases hs
    split
    · exact .said horder hstands ((hempty _).say (by simp [mark]))
    · rename_i hbuilder
      split
      · exact ⟨horder, stands_handOver (hempty _)⟩
      · rename_i hfailed
        refine ⟨horder, (hempty _).decided ?_⟩
        exact .arguments _ (by simpa using hbuilder) hfailed
  · rename_i work
    cases hs
    split
    · refine kept_stopped horder ?_
      cases work with
      | build => exact hstands.mono (by simp)
      | read reference => exact hstands.2.mono (by simp)
      | process result => exact hstands.2.1.mono (by simp)
    · refine ⟨horder, ?_⟩
      unfold Stands
      cases work <;> exact hstands
  · exact kept_pollWork hwhole hplace hs
  · cases hs
    split
    · exact kept_stopped horder (hstands.mono (by simp))
    · exact ⟨horder, hstands⟩
  · cases hs
    exact .said horder trivial (hstands.say (by simp [mark]))
  · cases hs
    exact kept_refused horder hstands trivial rfl fun _ => .upload _ _
  · cases hs
    split
    · exact kept_stopped horder (hstands.mono (by simp))
    · exact ⟨horder, hstands⟩
  · rename_i form
    cases hs
    refine .said horder trivial ?_
    unfold Stands Tool.created
    cases hmode : tool.mode with
    | sync =>
        refine ⟨⟨hmode, Without.say (hstands.mono (by simp)) (by simp [mark])⟩, ?_⟩
        exact Without.say (hstands.mono (by simp)) (by simp [mark])
    | background callerAddress =>
        refine ⟨Without.say (hstands.mono (by simp)) (by simp [mark]), ?_, _, hlast⟩
        simp
  · cases hs
    exact kept_refused horder hstands trivial rfl fun _ => .create _ _
  · obtain ⟨hgoing, hread⟩ := hstands
    cases hs
    split
    · exact ⟨horder, hgoing, hread⟩
    · exact kept_settle (always_snoc.mpr ⟨horder, trivial⟩)
        ⟨hgoing.1, hgoing.2.say (by simp [mark])⟩ (hread.say (by simp [mark])) hlast
    · refine .said horder trivial (Without.decided_sync ?_ hgoing.1 (.endWait _ hlast))
      exact (hgoing.2.say (by simp [mark])).mono (by simp)
  · cases hs
    exact ⟨horder, hstands⟩
  · obtain ⟨hgoing, hread⟩ := hstands
    cases hs
    split
    · exact ⟨horder, hgoing, hread⟩
    · exact .said horder trivial
        ⟨⟨hgoing.1, hgoing.2.say (by simp [mark])⟩, hread.say (by simp [mark])⟩
    · refine .said horder trivial (Without.decided_sync ?_ hgoing.1 (.removed _ hlast))
      exact (hgoing.2.say (by simp [mark])).mono (by simp)
  · cases hs
    split
    · refine .said horder trivial (Without.triggered ?_)
      exact hstands.1.2.mono (by simp)
    · exact ⟨horder, hstands⟩
  · rename_i createEnd stop
    have hlooked : Decided tool (s.log ++ [.looked (s.dead createEnd)]) (.error stop) :=
      hstands.say (by simp [mark])
    cases hs
    split <;> exact .said horder trivial hlooked
  · cases hs
    exact .said horder trivial (hstands.say (by simp [mark]))
  · obtain ⟨hgoing, htook⟩ := hstands
    cases hs
    split
    · exact kept_stopped horder (hgoing.2.mono (by simp))
    · exact .said horder trivial ⟨⟨hgoing.1, hgoing.2.say (by simp [mark])⟩, htook.mono⟩
  · rename_i read _
    obtain ⟨hgoing, htook⟩ := hstands
    have horder' : Always (ToolRule tool) (s.log ++ [.finish tool.child tool.finishId]) :=
      always_snoc.mpr ⟨horder, trivial⟩
    have hgoing' : Going tool (s.log ++ [.finish tool.child tool.finishId]) :=
      ⟨hgoing.1, hgoing.2.say (by simp [mark])⟩
    cases hs
    cases read with
    | ok result => exact kept_process horder' hgoing' (List.mem_append_left _ htook) hlast
    | error stop =>
        obtain ⟨error, hread, rfl⟩ := htook
        refine ⟨horder', Without.decided_sync (hgoing'.2.mono (by simp)) hgoing.1 ?_⟩
        exact .read error (List.mem_append_left _ hread) hlast
  · obtain ⟨hfree, hmode, hcreated⟩ := hstands
    cases hs
    split
    · refine .said horder trivial (Without.triggered ?_)
      exact hfree.mono (by simp)
    · refine ⟨horder, hfree.mono (by simp), .handed hmode hcreated, ?_, fun _ _ _ => rfl⟩
      exact fun hin => absurd hin (hfree.not_mem (by simp [mark]))
  · rename_i result
    cases hs
    exact .said horder hstands.free (Or.inr ⟨s.log, result, rfl, hstands⟩)
  · cases hs

/-- The host drops the call, and nothing is returned. -/
theorem kept_abandon (h : Kept tool s) (hawaits : s.place.awaits = true) :
    Kept tool ((s.say [.gone]).goTo .done) := by
  obtain ⟨horder, hstands⟩ := h
  refine .said horder trivial (Or.inl ⟨?_, List.mem_append_right _ List.mem_cons_self⟩)
  refine Without.say ?_ (by simp [mark])
  unfold Place.awaits at hawaits
  unfold Stands at hstands
  split at hawaits
  · rename_i work hplace
    rw [hplace] at hstands
    cases work with
    | build => exact hstands.mono (by simp)
    | read reference => exact hstands.2.mono (by simp)
    | process result => exact hstands.2.1.mono (by simp)
  · rename_i hplace
    rw [hplace] at hstands
    exact hstands.1.2.mono (by simp)
  · cases hawaits

theorem kept_step {e : Event β χ} (h : Kept tool s) (hs : s.step tool e = some s') :
    Kept tool s' := by
  cases e with
  | step answer => exact kept_run h hs
  | abandon =>
      simp only [Sys.step] at hs
      split at hs <;> cases hs
      rename_i hawaits
      exact kept_abandon h hawaits
  | trigger =>
      cases hs
      exact ⟨h.order, h.stands⟩
  | createEnds result =>
      simp only [Sys.step] at hs
      split at hs <;> cases hs
      exact ⟨h.order, h.stands⟩
  | waitEnds result =>
      simp only [Sys.step] at hs
      split at hs <;> cases hs
      exact ⟨h.order, h.stands⟩

/-! ## Every reachable state -/

theorem kept_of_reachable (h : (machine tool).Reachable s) : Kept tool s := by
  refine h.invariant (P := Kept tool) ?_ fun hold hs => kept_step hold hs
  exact ⟨always_nil, rfl⟩

/-- What holds of the call of the child Job. -/
structure ChildKept (tool : Tool β χ) (s : Sys β χ) : Prop where
  rules : Rules s.log
  heard : ∀ x ∈ s.log, s.world.Bears x
  settled : s.place = .done → ∀ input, .create input true ∈ s.log →
    Settled s.log input.jobId ∨
      tool.mode ≠ .sync ∧ .own (.returned (tool.intoResult tool.acknowledgement)) ∈ s.log

/-- In every run of a call of the tool the call of its child Job keeps the rules. When
it is over, a child Job whose create was taken is accounted for, as `Settled` lists it,
or the call was one in background mode that returned its acknowledgement. -/
theorem call_child (h : (machine tool).Reachable s) : ChildKept tool s := by
  obtain ⟨t, hrun, hfits⟩ := (refines tool).accepted h
  have hkept := kept_of_run hrun
  refine ⟨hkept.rules, bears_of_reachable h, ?_⟩
  intro hdone input hcreated
  have hof := hkept.child input hcreated
  have hstands := (kept_of_reachable h).stands
  unfold Stands at hstands
  rw [hdone] at hfits hstands
  dsimp only at hstands
  rcases hfits with rfl | rfl | ⟨hmode, rfl⟩
  · exact hof.elim
  · exact Or.inl hof
  · -- the call left its child Job to itself
    refine Or.inr ⟨hmode, ?_⟩
    rcases hstands with ⟨-, hgone⟩ | ⟨past, result, hlog, hdecided⟩
    · exact absurd hgone (hkept.not_mem (by simp [Obs.kind, Stage.kinds]))
    · have hno : .triggered ∉ s.log := hkept.not_mem (by simp [Obs.kind, Stage.kinds])
      rw [hlog] at hno hcreated ⊢
      have hpast : .create input true ∈ past := by simpa using hcreated
      rw [hdecided.acknowledged hmode (fun hin => hno (List.mem_append_left _ hin)) ⟨_, hpast⟩]
      exact List.mem_append_right _ List.mem_cons_self

/-- The tool that the runs below are of: it keeps its payload and processes the Result. -/
def translate (mode : ToolMode) : Tool String Unit where
  runnerType := "translate"
  mode := mode
  config := none
  maxAttempts := none
  kind := .kept
  keep := true
  builder := false
  processor := true
  child := 1
  createId := 2
  cancelId := 3
  finishId := 4
  arguments := .ok "{}"
  text := .ok
  errorText := fun text => .ok ⟨[text], true⟩

/-- The create of a call in background mode is taken, and the call is over. -/
def backgroundRun : List (Event String Unit) :=
  [.step .nothing, .step .nothing, .step (.taken (.ok ())), .step .nothing,
    .step (.taken (.ok ())), .step .nothing, .step .nothing]

theorem call_child_backgroundRun :
    ∃ s, (machine (translate (.background 9))).run backgroundRun = some s ∧
      ChildKept (translate (.background 9)) s ∧ s.place = .done ∧
      s.log.map Obs.kind = [.upload, .create, .own] :=
  ⟨_, rfl, call_child (Machine.reachable_of_run backgroundRun rfl), rfl, rfl⟩

end RunnerKit.AsTool
