import RunnerKit.Jobs.Value

/-!
# Judging the reply to a GraphQL request

`reply.rs` of br-runner-connection, and the part of `http/mod.rs` that makes a
reply of what the connection gives. A body is the list of its bytes;
`fromSlice` stands for the JSON reader of `serde_json`, and an HTTP response
is its status with its body, or with the error that the reading of the body
ends with.
-/

namespace RunnerKit.Connection

open RunnerKit.Jobs (Value Cause Failure CredentialFailure)

/-! ## Errors -/

inductive CodeOrigin where
  | service | connection
deriving DecidableEq

structure Refusal where
  code : String
  reason : Option String
  params : List (String × Value)
  message : String
  origin : CodeOrigin

inductive Error where
  | invalidInput (text : String)
  | credential (failure : CredentialFailure)
  | unavailable (failure : Failure)
  | lost (failure : Failure)
  | unauthenticated
  | refused (refusal : Refusal)
  | unreadable (text : String)

/-! ## The errors of a body -/

structure Reply where
  status : ℕ
  body : List UInt8

def unauthenticatedCode : String := "UNAUTHENTICATED"

def forbiddenCode : String := "FORBIDDEN"

/-- A key of an extensions object, where null counts as absent. -/
def optional (extensions : Value) (key : String) : Option Value :=
  (extensions.get key).filter fun value => !value.isNull

/-- The refusal of an error with a readable code. A reason that is no text and
parameters that are no object leave no readable code. -/
def coded (error : Value) : Option Refusal := do
  let extensions ← error.get "extensions"
  let _ ← extensions.asObject
  let code ← (← extensions.get "code").asStr
  let reason ←
    match optional extensions "reason" with
    | none => some none
    | some value => value.asStr.map some
  let params ←
    match optional extensions "params" with
    | none => some []
    | some value => value.asObject
  let message := ((error.get "message").bind Value.asStr).getD ""
  some ⟨code, reason, params, message, .service⟩

def unauthenticated (error : Value) : Bool :=
  (coded error).any fun refusal => refusal.code == unauthenticatedCode

/-- The errors of the body, `none` where they are neither absent nor null nor a list. -/
def errorList (body : Option Value) : Option (List Value) :=
  match body.bind fun b => b.get "errors" with
  | none | some .null => some []
  | some (.array items) => some items
  | some _ => none

def dataOf (body : Value) : Except Error Value :=
  match body.get "data" with
  | some .null | none => .error (.unreadable "the response holds no data")
  | some (.object members) => .ok (.object members)
  | some _ => .error (.unreadable "the data is not an object")

/-! ## The judgment -/

def success (status : ℕ) : Bool := 200 ≤ status && status < 300

/-- What a status that is no success says where no error has a readable code. -/
def ofStatus (status : ℕ) : Error :=
  if status = 403 then .refused ⟨forbiddenCode, none, [], "", .connection⟩
  else .lost ⟨.transport, s!"status {status} without a readable code"⟩

/-- What makes the errors of a success unreadable where none has a readable code. -/
def uncoded (listed : Option (List Value)) : Option String :=
  match listed with
  | none => some "the errors are not a list"
  | some (_ :: _) => some "an error without a code"
  | some [] => none

def judge (fromSlice : List UInt8 → Option Value) (reply : Reply) : Except Error Value :=
  if reply.status = 401 then .error .unauthenticated
  else
    let body := fromSlice reply.body
    let listed := errorList body
    if (listed.getD []).any unauthenticated then .error .unauthenticated
    else
      match ((listed.getD []).filterMap coded).head? with
      | some first => .error (.refused first)
      | none =>
          if !success reply.status then .error (ofStatus reply.status)
          else
            match body with
            | none => .error (.unreadable "the response is not JSON")
            | some body =>
                match uncoded listed with
                | some reason => .error (.unreadable reason)
                | none => dataOf body

/-! ## The reply of a connection -/

/-- An HTTP response whose head has come. The text of an error is that of its chain. -/
structure Response where
  status : ℕ
  body : Except String (List UInt8)

def lost (chain : String) : Error := .lost ⟨.transport, chain⟩

/-- The body of a 401 is not read, and that of a 403 need not come. -/
def roundtrip (sent : Except String Response) : Except Error Reply :=
  match sent with
  | .error chain => .error (lost chain)
  | .ok response =>
      if response.status = 401 then .ok ⟨response.status, []⟩
      else
        match response.body with
        | .ok collected => .ok ⟨response.status, collected⟩
        | .error chain =>
            if response.status = 403 then .ok ⟨response.status, []⟩
            else .error (lost chain)

/-- The answer beside the driver of the connection. `ended` is how the driver
ended, where it did so before the answer was there. -/
def exchange (sent : Except String Response) (ended : Option (Except String Unit)) :
    Except Error Reply :=
  match ended with
  | none => roundtrip sent
  | some ended =>
      match roundtrip sent, ended with
      | .ok reply, _ => .ok reply
      | .error _, .error chain => .error (lost chain)
      | .error error, .ok () => .error error

/-! ## What a body says -/

section

variable (fromSlice : List UInt8 → Option Value)

/-- The extensions of an error are an object, and have this value under the key. -/
def Extension (error : Value) (key : String) (value : Value) : Prop :=
  ∃ members, error.get "extensions" = some (.object members) ∧
    (Value.object members).get key = some value

/-- A key that may be left out: null counts as absent. -/
def Absent (error : Value) (key : String) : Prop :=
  ∀ value, Extension error key value → value = .null

/-- The code of an error is readable, and makes this refusal: it is a text, and reason and
parameters are a text and an object where they are not absent. -/
structure ReadableCode (error : Value) (refusal : Refusal) : Prop where
  code : Extension error "code" (.string refusal.code)
  reason : refusal.reason = none ∧ Absent error "reason" ∨
    ∃ text, refusal.reason = some text ∧ Extension error "reason" (.string text)
  params : refusal.params = [] ∧ Absent error "params" ∨
    Extension error "params" (.object refusal.params)
  message : error.get "message" = some (.string refusal.message) ∨
    refusal.message = "" ∧ ∀ text, error.get "message" ≠ some (.string text)
  origin : refusal.origin = .service

/-- An error without a readable code. -/
def Codeless (error : Value) : Prop := ∀ refusal, ¬ReadableCode error refusal

/-- The errors of a reply, where the body has a list of them. -/
def errorsOf (reply : Reply) : List Value :=
  match (fromSlice reply.body).bind fun body => body.get "errors" with
  | some (.array items) => items
  | _ => []

/-- The first error with a readable code makes this refusal. -/
def FirstReadable (reply : Reply) (refusal : Refusal) : Prop :=
  ∃ before error after, errorsOf fromSlice reply = before ++ error :: after ∧
    (∀ earlier ∈ before, Codeless earlier) ∧ ReadableCode error refusal

/-- The errors of a body are absent, null or an empty list. -/
def NoErrors (body : Value) : Prop :=
  body.get "errors" = none ∨ body.get "errors" = some .null ∨
    body.get "errors" = some (.array [])

variable {fromSlice}

theorem errorList_nil_iff {body : Value} : errorList (some body) = some [] ↔ NoErrors body := by
  unfold errorList NoErrors
  rw [Option.bind_some]
  constructor
  · intro h
    split at h
    · next hg => exact Or.inl hg
    · next hg => exact Or.inr (Or.inl hg)
    · next items hg =>
        obtain rfl : items = [] := Option.some.inj h
        exact Or.inr (Or.inr hg)
    · cases h
  · rintro (hg | hg | hg) <;> rw [hg]

theorem uncoded_eq_none {listed : Option (List Value)} :
    uncoded listed = none ↔ listed = some [] := by
  constructor
  · intro h
    match listed with
    | none => cases h
    | some [] => rfl
    | some (_ :: _) => cases h
  · rintro rfl
    rfl

theorem dataOf_ok {body data : Value} :
    dataOf body = .ok data ↔ body.get "data" = some data ∧ data.asObject.isSome := by
  unfold dataOf
  constructor
  · intro h
    split at h
    · cases h
    · cases h
    · next members hg =>
        cases h
        exact ⟨hg, rfl⟩
    · cases h
  · rintro ⟨hg, hobject⟩
    rw [hg]
    match data, hobject with
    | .object members, _ => rfl

/-- Where the body gives no data, it is unreadable. -/
theorem dataOf_error {body : Value} {error : Error} (h : dataOf body = .error error) :
    ∃ text, error = .unreadable text := by
  unfold dataOf at h
  split at h <;> cases h <;> exact ⟨_, rfl⟩

theorem any_unauthenticated {errors : List Value} :
    errors.any unauthenticated = true ↔
      ∃ refusal ∈ errors.filterMap coded, refusal.code = unauthenticatedCode := by
  rw [List.any_eq_true]
  constructor
  · rintro ⟨e, he, hu⟩
    unfold unauthenticated at hu
    obtain ⟨refusal, hr, hcode⟩ := (Option.any_eq_true _ _).mp hu
    exact ⟨refusal, List.mem_filterMap.mpr ⟨e, he, hr⟩, eq_of_beq hcode⟩
  · rintro ⟨refusal, hr, hcode⟩
    obtain ⟨e, he, hc⟩ := List.mem_filterMap.mp hr
    refine ⟨e, he, ?_⟩
    unfold unauthenticated
    rw [hc]
    exact beq_iff_eq.mpr hcode

/-! ## Readable codes -/

theorem isNull_iff {value : Value} : value.isNull = true ↔ value = .null := by
  cases value <;> simp [Value.isNull]

theorem asStr_eq_some {value : Value} {text : String} :
    value.asStr = some text ↔ value = .string text := by
  cases value <;> simp [Value.asStr]

theorem asObject_eq_some {value : Value} {members : List (String × Value)} :
    value.asObject = some members ↔ value = .object members := by
  cases value <;> simp [Value.asObject]

section Members

variable {error : Value} {members : List (String × Value)} {key : String}

theorem extension_iff (hx : error.get "extensions" = some (.object members)) {value : Value} :
    Extension error key value ↔ (Value.object members).get key = some value := by
  constructor
  · rintro ⟨members', hx', hget⟩
    obtain rfl : members = members' := Value.object.inj (Option.some.inj (hx.symm.trans hx'))
    exact hget
  · exact fun hget => ⟨members, hx, hget⟩

theorem optional_eq_none (hx : error.get "extensions" = some (.object members)) :
    optional (.object members) key = none ↔ Absent error key := by
  unfold optional Absent
  rw [Option.filter_eq_none_iff]
  refine forall_congr' fun value => ?_
  rw [extension_iff hx, Bool.not_eq_true', Bool.not_eq_false, isNull_iff]

theorem optional_eq_some (hx : error.get "extensions" = some (.object members)) {value : Value} :
    optional (.object members) key = some value ↔ Extension error key value ∧ value ≠ .null := by
  unfold optional
  rw [Option.filter_eq_some_iff, extension_iff hx, Bool.not_eq_true', Bool.eq_false_iff,
    ne_eq, isNull_iff]

theorem reason_iff (hx : error.get "extensions" = some (.object members))
    {reason : Option String} :
    (match optional (.object members) "reason" with
      | none => some none
      | some value => value.asStr.map some) = some reason ↔
      (reason = none ∧ Absent error "reason" ∨
        ∃ text, reason = some text ∧ Extension error "reason" (.string text)) := by
  cases h : optional (.object members) "reason" with
  | none =>
      have habsent := (optional_eq_none hx).mp h
      constructor
      · intro heq
        exact Or.inl ⟨(Option.some.inj heq).symm, habsent⟩
      · rintro (⟨rfl, -⟩ | ⟨text, -, htext⟩)
        · rfl
        · cases habsent _ htext
  | some value =>
      obtain ⟨hvalue, hnull⟩ := (optional_eq_some hx).mp h
      constructor
      · intro heq
        obtain ⟨text, htext, rfl⟩ := Option.map_eq_some_iff.mp heq
        rw [asStr_eq_some.mp htext] at hvalue
        exact Or.inr ⟨text, rfl, hvalue⟩
      · rintro (⟨-, habsent⟩ | ⟨text, rfl, htext⟩)
        · exact absurd (habsent _ hvalue) hnull
        · rw [extension_iff hx] at hvalue htext
          cases hvalue.symm.trans htext
          rfl

theorem params_iff (hx : error.get "extensions" = some (.object members))
    {params : List (String × Value)} :
    (match optional (.object members) "params" with
      | none => some []
      | some value => value.asObject) = some params ↔
      (params = [] ∧ Absent error "params" ∨ Extension error "params" (.object params)) := by
  cases h : optional (.object members) "params" with
  | none =>
      have habsent := (optional_eq_none hx).mp h
      constructor
      · intro heq
        exact Or.inl ⟨(Option.some.inj heq).symm, habsent⟩
      · rintro (⟨rfl, -⟩ | hparams)
        · rfl
        · cases habsent _ hparams
  | some value =>
      obtain ⟨hvalue, hnull⟩ := (optional_eq_some hx).mp h
      constructor
      · intro heq
        rw [asObject_eq_some.mp heq] at hvalue
        exact Or.inr hvalue
      · rintro (⟨-, habsent⟩ | hparams)
        · exact absurd (habsent _ hvalue) hnull
        · rw [extension_iff hx] at hvalue hparams
          cases hvalue.symm.trans hparams
          rfl

end Members

theorem message_iff {error : Value} {message : String} :
    ((error.get "message").bind Value.asStr).getD "" = message ↔
      (error.get "message" = some (.string message) ∨
        message = "" ∧ ∀ text, error.get "message" ≠ some (.string text)) := by
  cases h : (error.get "message").bind Value.asStr with
  | none =>
      have hno : ∀ text, error.get "message" ≠ some (.string text) := by
        intro text htext
        rw [htext] at h
        cases h
      constructor
      · intro heq
        exact Or.inr ⟨heq.symm, hno⟩
      · rintro (htext | ⟨rfl, -⟩)
        · exact absurd htext (hno _)
        · rfl
  | some text =>
      obtain ⟨value, hvalue, htext⟩ := Option.bind_eq_some_iff.mp h
      rw [asStr_eq_some.mp htext] at hvalue
      constructor
      · rintro rfl
        exact Or.inl hvalue
      · rintro (hmessage | ⟨-, hno⟩)
        · cases hvalue.symm.trans hmessage
          rfl
        · exact absurd hvalue (hno _)

/-- The reads of `coded` one after the other. -/
theorem coded_eq (error : Value) :
    coded error = (error.get "extensions").bind fun extensions =>
      extensions.asObject.bind fun _ =>
        (extensions.get "code").bind fun value => value.asStr.bind fun code =>
          Option.bind
            (match optional extensions "reason" with
              | none => some none
              | some value => value.asStr.map some) fun reason =>
            Option.bind
              (match optional extensions "params" with
                | none => some []
                | some value => value.asObject) fun params =>
              some ⟨code, reason, params,
                ((error.get "message").bind Value.asStr).getD "", .service⟩ := by
  unfold coded
  cases error.get "extensions" with
  | none => rfl
  | some extensions =>
      simp only [Option.bind_eq_bind, Option.bind_some]
      cases optional extensions "reason" <;> cases optional extensions "params" <;> rfl

/-- What `coded` reads are the readable codes. -/
theorem coded_eq_some {error : Value} {refusal : Refusal} :
    coded error = some refusal ↔ ReadableCode error refusal := by
  rw [coded_eq]
  simp only [Option.bind_eq_some_iff]
  constructor
  · rintro ⟨extensions, hx, members, hmembers, value, hget, code, hcode, reason, hreason, params,
      hparams, heq⟩
    obtain rfl := asObject_eq_some.mp hmembers
    obtain rfl := asStr_eq_some.mp hcode
    cases heq
    exact
      { code := ⟨members, hx, hget⟩
        reason := (reason_iff hx).mp hreason
        params := (params_iff hx).mp hparams
        message := message_iff.mp rfl
        origin := rfl }
  · intro h
    obtain ⟨members, hx, hget⟩ := h.code
    refine ⟨.object members, hx, members, rfl, _, hget, refusal.code, rfl, refusal.reason,
      (reason_iff hx).mpr h.reason, refusal.params, (params_iff hx).mpr h.params, ?_⟩
    rw [message_iff.mpr h.message, ← h.origin]

theorem coded_eq_none {error : Value} : coded error = none ↔ Codeless error := by
  rw [Option.eq_none_iff_forall_not_mem]
  exact forall_congr' fun refusal => not_congr coded_eq_some

/-- The refusals of the errors with a readable code, in the order of the list. -/
def refusals (fromSlice : List UInt8 → Option Value) (reply : Reply) : List Refusal :=
  (errorsOf fromSlice reply).filterMap coded

theorem errorsOf_eq {reply : Reply} :
    (errorList (fromSlice reply.body)).getD [] = errorsOf fromSlice reply := by
  unfold errorList errorsOf
  cases (fromSlice reply.body).bind fun body => body.get "errors" with
  | none => rfl
  | some listed => cases listed <;> rfl

theorem mem_refusals {reply : Reply} {refusal : Refusal} :
    refusal ∈ refusals fromSlice reply ↔
      ∃ error ∈ errorsOf fromSlice reply, ReadableCode error refusal := by
  simp only [refusals, List.mem_filterMap, coded_eq_some]

theorem refusals_eq_nil {reply : Reply} :
    refusals fromSlice reply = [] ↔ ∀ error ∈ errorsOf fromSlice reply, Codeless error := by
  simp only [refusals, List.filterMap_eq_nil_iff, coded_eq_none]

theorem refusals_eq_cons {reply : Reply} {first : Refusal} :
    (∃ rest, refusals fromSlice reply = first :: rest) ↔
      FirstReadable fromSlice reply first := by
  unfold refusals FirstReadable
  constructor
  · rintro ⟨rest, h⟩
    obtain ⟨before, error, after, hlist, hbefore, hcoded, -⟩ := List.filterMap_eq_cons_iff.mp h
    exact ⟨before, error, after, hlist, fun e he => coded_eq_none.mp (hbefore e he),
      coded_eq_some.mp hcoded⟩
  · rintro ⟨before, error, after, hlist, hbefore, hreadable⟩
    refine ⟨after.filterMap coded, List.filterMap_eq_cons_iff.mpr ?_⟩
    exact ⟨before, error, after, hlist, fun e he => coded_eq_none.mpr (hbefore e he),
      coded_eq_some.mpr hreadable, rfl⟩

/-! ## The classes -/

/-- The status is a success: 2xx. -/
def Success (status : ℕ) : Prop := 200 ≤ status ∧ status < 300

theorem success_iff {status : ℕ} : success status = true ↔ Success status := by
  simp [success, Success]

/-- What outranks every refusal: the status 401, or an error that says it. -/
def SaysUnauthenticated (fromSlice : List UInt8 → Option Value) (reply : Reply) : Prop :=
  reply.status = 401 ∨ ∃ error ∈ errorsOf fromSlice reply, ∃ refusal,
    ReadableCode error refusal ∧ refusal.code = "UNAUTHENTICATED"

theorem says_iff {reply : Reply} :
    SaysUnauthenticated fromSlice reply ↔ reply.status = 401 ∨
      ∃ refusal ∈ refusals fromSlice reply, refusal.code = unauthenticatedCode := by
  refine or_congr_right ?_
  constructor
  · rintro ⟨error, hin, refusal, hreadable, hcode⟩
    exact ⟨refusal, mem_refusals.mpr ⟨error, hin, hreadable⟩, hcode⟩
  · rintro ⟨refusal, hin, hcode⟩
    obtain ⟨error, hin, hreadable⟩ := mem_refusals.mp hin
    exact ⟨error, hin, refusal, hreadable, hcode⟩

theorem judge_of_unauthenticated {reply : Reply} (h : SaysUnauthenticated fromSlice reply) :
    judge fromSlice reply = .error .unauthenticated := by
  unfold judge
  by_cases hs : reply.status = 401
  · rw [if_pos hs]
  · rw [if_neg hs]
    have hany := any_unauthenticated.mpr ((says_iff.mp h).resolve_left hs)
    rw [← errorsOf_eq] at hany
    exact if_pos hany

/-- The judgment once no error and no status says 401. -/
theorem judge_authenticated {reply : Reply} (h : ¬SaysUnauthenticated fromSlice reply) :
    judge fromSlice reply =
      match (refusals fromSlice reply).head? with
      | some first => .error (.refused first)
      | none =>
          if !success reply.status then .error (ofStatus reply.status)
          else
            match fromSlice reply.body with
            | none => .error (.unreadable "the response is not JSON")
            | some body =>
                match uncoded (errorList (some body)) with
                | some reason => .error (.unreadable reason)
                | none => dataOf body := by
  have hs : reply.status ≠ 401 := fun hs => h (Or.inl hs)
  have hany : (errorsOf fromSlice reply).any unauthenticated = false := by
    rw [Bool.eq_false_iff]
    intro hany
    exact h (says_iff.mpr (Or.inr (any_unauthenticated.mp hany)))
  unfold judge
  rw [if_neg hs]
  simp only [errorsOf_eq, hany, Bool.false_eq_true, ↓reduceIte]
  unfold refusals
  split
  · rfl
  · split
    · rfl
    · cases hb : fromSlice reply.body <;> rfl

theorem judge_refused {reply : Reply} {first : Refusal} {rest : List Refusal}
    (h : ¬SaysUnauthenticated fromSlice reply) (hr : refusals fromSlice reply = first :: rest) :
    judge fromSlice reply = .error (.refused first) := by
  rw [judge_authenticated h, hr]
  rfl

theorem judge_ofStatus {reply : Reply} (h : ¬SaysUnauthenticated fromSlice reply)
    (hr : refusals fromSlice reply = []) (hs : success reply.status = false) :
    judge fromSlice reply = .error (ofStatus reply.status) := by
  rw [judge_authenticated h, hr, hs]
  rfl

/-- A body without errors has no refusals and does not say 401 under a success. -/
theorem of_noErrors {reply : Reply} {body : Value} (hs : success reply.status = true)
    (hb : fromSlice reply.body = some body) (hn : NoErrors body) :
    ¬SaysUnauthenticated fromSlice reply ∧ refusals fromSlice reply = [] := by
  have herrors : errorsOf fromSlice reply = [] := by
    rw [← errorsOf_eq, hb, errorList_nil_iff.mpr hn]
    rfl
  refine ⟨?_, refusals_eq_nil.mpr (by simp [herrors])⟩
  rintro (h401 | ⟨error, hmem, _⟩)
  · rw [h401] at hs
    exact absurd hs (by decide)
  · rw [herrors] at hmem
    exact absurd hmem List.not_mem_nil

/-- A success without refusals gives the data of a body without errors, or is unreadable. -/
theorem judge_success {reply : Reply} (h : ¬SaysUnauthenticated fromSlice reply)
    (hr : refusals fromSlice reply = []) (hs : success reply.status = true) :
    (∃ body, fromSlice reply.body = some body ∧ NoErrors body ∧
        judge fromSlice reply = dataOf body) ∨
      ∃ text, judge fromSlice reply = .error (.unreadable text) := by
  rw [judge_authenticated h, hr, hs]
  simp only [List.head?_nil, Bool.not_true, Bool.false_eq_true, ↓reduceIte]
  cases hb : fromSlice reply.body with
  | none => exact Or.inr ⟨_, rfl⟩
  | some body =>
      dsimp only
      cases hu : uncoded (errorList (some body)) with
      | some reason => exact Or.inr ⟨reason, rfl⟩
      | none => exact Or.inl ⟨body, rfl, errorList_nil_iff.mp (uncoded_eq_none.mp hu), rfl⟩

/-- Data is let through from a success whose body has an object as its data and no errors
beside it, and it is given as it is. -/
theorem judge_ok_iff {reply : Reply} {data : Value} :
    judge fromSlice reply = .ok data ↔
      success reply.status = true ∧ ∃ body, fromSlice reply.body = some body ∧ NoErrors body ∧
        body.get "data" = some data ∧ data.asObject.isSome := by
  constructor
  · intro hok
    by_cases h : SaysUnauthenticated fromSlice reply
    · rw [judge_of_unauthenticated h] at hok
      cases hok
    cases hr : refusals fromSlice reply with
    | cons first rest =>
        rw [judge_refused h hr] at hok
        cases hok
    | nil =>
        cases hs : success reply.status with
        | false =>
            rw [judge_ofStatus h hr hs] at hok
            cases hok
        | true =>
            refine ⟨rfl, ?_⟩
            rcases judge_success h hr hs with ⟨body, hb, hn, hj⟩ | ⟨text, hj⟩
            · exact ⟨body, hb, hn, dataOf_ok.mp (hj ▸ hok)⟩
            · rw [hj] at hok
              cases hok
  · rintro ⟨hs, body, hb, hn, hdata⟩
    obtain ⟨h, hr⟩ := of_noErrors hs hb hn
    rw [judge_authenticated h, hr, hs, hb]
    show (match uncoded (errorList (some body)) with
      | some reason => Except.error (Error.unreadable reason)
      | none => dataOf body) = _
    rw [uncoded_eq_none.mpr (errorList_nil_iff.mpr hn)]
    exact dataOf_ok.mpr hdata

/-- The refusal of a status is no 401 of its own. -/
theorem ofStatus_ne {status : ℕ} : ofStatus status ≠ .unauthenticated := by
  unfold ofStatus
  split <;> exact fun h => by cases h

theorem judge_unauthenticated_iff {reply : Reply} :
    judge fromSlice reply = .error .unauthenticated ↔ SaysUnauthenticated fromSlice reply := by
  refine ⟨?_, judge_of_unauthenticated⟩
  intro hj
  by_contra h
  cases hr : refusals fromSlice reply with
  | cons first rest =>
      rw [judge_refused h hr] at hj
      cases hj
  | nil =>
      cases hs : success reply.status with
      | false =>
          rw [judge_ofStatus h hr hs] at hj
          exact ofStatus_ne (Except.error.inj hj)
      | true =>
          rcases judge_success h hr hs with ⟨body, hb, hn, hd⟩ | ⟨text, hd⟩
          · obtain ⟨text, ht⟩ := dataOf_error (hd ▸ hj)
            cases ht
          · rw [hd] at hj
            cases hj

/-! ## Replies that differ where the judgment does not look -/

/-- Errors that differ in their messages and unknown keys alone. -/
structure Reworded (error error' : Value) : Prop where
  extensions : ∃ members members', error.get "extensions" = some (.object members) ∧
    error'.get "extensions" = some (.object members') ∧
    ∀ key ∈ ["code", "reason", "params"],
      (Value.object members).get key = (Value.object members').get key

/-- One change of an error list that leaves the readable codes alone. -/
inductive Edited : List Value → List Value → Prop where
  | permuted {errors errors' : List Value} : errors.Perm errors' → Edited errors errors'
  | reworded {errors rest : List Value} {error error' : Value} : Reworded error error' →
      Edited (errors ++ error :: rest) (errors ++ error' :: rest)
  | codeless {errors rest : List Value} {error : Value} : Codeless error →
      Edited (errors ++ error :: rest) (errors ++ rest)

/-- Replies with one status whose error lists come from each other by such changes;
everything else of the bodies is free. -/
structure Alike (fromSlice : List UInt8 → Option Value) (reply reply' : Reply) : Prop where
  status : reply.status = reply'.status
  errors : Relation.EqvGen Edited (errorsOf fromSlice reply) (errorsOf fromSlice reply')

/-- Results of one class. -/
inductive SameClass : Except Error Value → Except Error Value → Prop where
  | data {data data' : Value} : SameClass (.ok data) (.ok data')
  | unauthenticated : SameClass (.error .unauthenticated) (.error .unauthenticated)
  | refused {refusal refusal' : Refusal} :
      SameClass (.error (.refused refusal)) (.error (.refused refusal'))
  | lost {failure failure' : Failure} :
      SameClass (.error (.lost failure)) (.error (.lost failure'))
  | unreadable {text text' : String} :
      SameClass (.error (.unreadable text)) (.error (.unreadable text'))

/-- The readable codes of an error list. -/
def codes (errors : List Value) : List String := (errors.filterMap coded).map Refusal.code

theorem codes_append {errors errors' : List Value} :
    codes (errors ++ errors') = codes errors ++ codes errors' := by
  unfold codes
  rw [List.filterMap_append, List.map_append]

theorem Reworded.coded {error error' : Value} (h : Reworded error error') :
    (coded error).map Refusal.code = (coded error').map Refusal.code := by
  obtain ⟨members, members', hx, hx', hkeys⟩ := h.extensions
  have hcode := hkeys "code" (by simp)
  have hreason := hkeys "reason" (by simp)
  have hparams := hkeys "params" (by simp)
  unfold Connection.coded optional
  rw [hx, hx']
  simp only [Option.bind_eq_bind, Option.bind_some, Value.asObject, hcode, hreason, hparams]
  -- Only the message of the refusal comes from beside the three keys.
  cases (Value.object members').get "code" with
  | none => rfl
  | some code =>
      rw [Option.bind_some, Option.bind_some]
      cases code.asStr with
      | none => rfl
      | some code =>
          generalize ((Value.object members').get "reason").filter _ = reason
          generalize ((Value.object members').get "params").filter _ = params
          rcases reason with _ | reason <;> rcases params with _ | params
          · rfl
          · cases params <;> rfl
          · cases reason <;> rfl
          · cases reason <;> cases params <;> rfl

theorem codes_singleton {error : Value} :
    codes [error] = ((coded error).map Refusal.code).toList := by
  unfold codes
  cases h : coded error with
  | none => rw [List.filterMap_cons_none h]; rfl
  | some refusal => rw [List.filterMap_cons_some h]; rfl

theorem Reworded.codes {error error' : Value} (h : Reworded error error') :
    codes [error] = codes [error'] := by
  rw [codes_singleton, codes_singleton, h.coded]

theorem codes_of_codeless {error : Value} (h : Codeless error) : codes [error] = [] := by
  rw [codes_singleton, coded_eq_none.mpr h]
  rfl

theorem codes_cons {error : Value} {errors : List Value} :
    codes (error :: errors) = codes [error] ++ codes errors :=
  @codes_append [error] errors

theorem Edited.codes {errors errors' : List Value} (h : Edited errors errors') :
    (codes errors).Perm (codes errors') := by
  cases h with
  | permuted hp => exact (hp.filterMap _).map _
  | reworded hr =>
      rw [codes_append, codes_append, codes_cons, hr.codes, ← codes_cons]
  | codeless hu =>
      rw [codes_append, codes_append, codes_cons, codes_of_codeless hu, List.nil_append]

/-- Any number of such changes keeps the codes, up to their order. -/
theorem codes_perm {errors errors' : List Value} (h : Relation.EqvGen Edited errors errors') :
    (codes errors).Perm (codes errors') := by
  induction h with
  | rel _ _ hstep => exact hstep.codes
  | refl _ => exact List.Perm.refl _
  | symm _ _ _ ih => exact ih.symm
  | trans _ _ _ _ _ ih ih' => exact ih.trans ih'

theorem Alike.codes {reply reply' : Reply} (h : Alike fromSlice reply reply') :
    (codes (errorsOf fromSlice reply)).Perm (codes (errorsOf fromSlice reply')) :=
  codes_perm h.errors

theorem saysUnauthenticated_iff {reply : Reply} :
    SaysUnauthenticated fromSlice reply ↔
      reply.status = 401 ∨ unauthenticatedCode ∈ codes (errorsOf fromSlice reply) := by
  rw [says_iff]
  unfold refusals codes
  rw [List.mem_map]

theorem codes_eq_nil_iff {reply : Reply} :
    codes (errorsOf fromSlice reply) = [] ↔ refusals fromSlice reply = [] := by
  unfold codes refusals
  rw [List.map_eq_nil_iff]

theorem Alike.saysUnauthenticated {reply reply' : Reply} (h : Alike fromSlice reply reply') :
    SaysUnauthenticated fromSlice reply ↔ SaysUnauthenticated fromSlice reply' := by
  rw [saysUnauthenticated_iff, saysUnauthenticated_iff, h.status, h.codes.mem_iff]

theorem Alike.refusals {reply reply' : Reply} (h : Alike fromSlice reply reply')
    (hne : refusals fromSlice reply ≠ []) : refusals fromSlice reply' ≠ [] := by
  intro h'
  apply hne
  rw [← codes_eq_nil_iff] at h' ⊢
  exact List.Perm.eq_nil (h' ▸ h.codes)

/-- With a readable code in the list the class is that of the codes and the status. -/
theorem Alike.sameClass {reply reply' : Reply} (h : Alike fromSlice reply reply')
    (hne : Connection.refusals fromSlice reply ≠ []) :
    SameClass (judge fromSlice reply) (judge fromSlice reply') := by
  by_cases hu : SaysUnauthenticated fromSlice reply
  · rw [judge_of_unauthenticated hu, judge_of_unauthenticated (h.saysUnauthenticated.mp hu)]
    exact SameClass.unauthenticated
  · have hu' : ¬SaysUnauthenticated fromSlice reply' := mt h.saysUnauthenticated.mpr hu
    obtain ⟨first, rest, hr⟩ := List.exists_cons_of_ne_nil hne
    obtain ⟨first', rest', hr'⟩ := List.exists_cons_of_ne_nil (h.refusals hne)
    rw [judge_refused hu hr, judge_refused hu' hr']
    exact SameClass.refused

/-! ## What becomes of a response -/

/-- What a request gives once a connection is there. -/
def answered (fromSlice : List UInt8 → Option Value) (sent : Except String Response)
    (ended : Option (Except String Unit)) : Except Error Value :=
  (exchange sent ended).bind (judge fromSlice)

/-- The end of the driver changes the text of an error alone. -/
theorem exchange_ok {sent : Except String Response} {ended : Option (Except String Unit)}
    {reply : Reply} (h : roundtrip sent = .ok reply) : exchange sent ended = .ok reply := by
  unfold exchange
  rcases ended with _ | ended
  · exact h
  · rw [h]

theorem exchange_lost {sent : Except String Response} {ended : Option (Except String Unit)}
    {chain : String} (h : roundtrip sent = .error (lost chain)) :
    ∃ chain', exchange sent ended = .error (lost chain') := by
  unfold exchange
  rcases ended with _ | chain' | _
  · exact ⟨chain, h⟩
  · exact ⟨chain', by rw [h]⟩
  · exact ⟨chain, by rw [h]⟩

/-- A response whose body was read is judged by its status and body. A body that was not
read is as an empty one under 401 and 403, and loses the request under every other status. -/
theorem answered_of_response {response : Response} {ended : Option (Except String Unit)} :
    (∀ body, response.body = .ok body →
      answered fromSlice (.ok response) ended = judge fromSlice ⟨response.status, body⟩) ∧
    ∀ chain, response.body = .error chain →
      if response.status = 401 ∨ response.status = 403 then
        answered fromSlice (.ok response) ended = judge fromSlice ⟨response.status, []⟩
      else ∃ chain', answered fromSlice (.ok response) ended = .error (lost chain') := by
  have hjudged : ∀ reply, roundtrip (.ok response) = .ok reply →
      answered fromSlice (.ok response) ended = judge fromSlice reply := by
    intro reply h
    unfold answered
    rw [exchange_ok h]
    rfl
  by_cases h401 : response.status = 401
  · have hr : roundtrip (.ok response) = .ok ⟨response.status, []⟩ := if_pos h401
    refine ⟨?_, ?_⟩
    · intro body _
      rw [hjudged _ hr, judge_of_unauthenticated (Or.inl h401),
        judge_of_unauthenticated (Or.inl h401)]
    · intro chain _
      rw [if_pos (Or.inl h401)]
      exact hjudged _ hr
  refine ⟨?_, ?_⟩
  · intro body hb
    apply hjudged
    simp only [roundtrip, h401, ↓reduceIte, hb]
  · intro chain hb
    by_cases h403 : response.status = 403
    · rw [if_pos (Or.inr h403)]
      apply hjudged
      simp only [roundtrip, h401, ↓reduceIte, hb, if_pos h403]
    · rw [if_neg (not_or.mpr ⟨h401, h403⟩)]
      have hr : roundtrip (.ok response) = .error (lost chain) := by
        simp only [roundtrip, h401, ↓reduceIte, hb, h403]
      obtain ⟨chain', hx⟩ := @exchange_lost _ ended _ hr
      refine ⟨chain', ?_⟩
      unfold answered
      rw [hx]
      rfl

/-- The judgment of a reply, in the order in which its rules outrank each other. -/
theorem judge_classes (fromSlice : List UInt8 → Option Value) (reply : Reply) :
    (∀ data, judge fromSlice reply = .ok data ↔
      Success reply.status ∧ ∃ body, fromSlice reply.body = some body ∧ NoErrors body ∧
        body.get "data" = some data ∧ ∃ members, data = .object members) ∧
    (judge fromSlice reply = .error .unauthenticated ↔ SaysUnauthenticated fromSlice reply) ∧
    (¬SaysUnauthenticated fromSlice reply →
      (∀ refusal, FirstReadable fromSlice reply refusal →
        judge fromSlice reply = .error (.refused refusal)) ∧
      ((∀ error ∈ errorsOf fromSlice reply, Codeless error) →
        (reply.status = 403 → judge fromSlice reply =
          .error (.refused ⟨"FORBIDDEN", none, [], "", .connection⟩)) ∧
        (¬Success reply.status → reply.status ≠ 403 → judge fromSlice reply =
          .error (.lost ⟨.transport, s!"status {reply.status} without a readable code"⟩)) ∧
        (Success reply.status → (∀ data, judge fromSlice reply ≠ .ok data) →
          ∃ text, judge fromSlice reply = .error (.unreadable text)))) ∧
    (∀ reply', Alike fromSlice reply reply' →
      (∃ error ∈ errorsOf fromSlice reply, ¬Codeless error) →
      SameClass (judge fromSlice reply) (judge fromSlice reply') ∧
      ∀ data, judge fromSlice reply' ≠ .ok data) ∧
    ∀ body, fromSlice reply.body = some body → ¬NoErrors body →
      ∀ data, judge fromSlice reply ≠ .ok data := by
  refine ⟨?_, judge_unauthenticated_iff, ?_, ?_, ?_⟩
  · intro data
    rw [judge_ok_iff, success_iff]
    simp only [Option.isSome_iff_exists, asObject_eq_some]
  · intro h
    refine ⟨fun refusal hfirst => ?_, fun hnone => ⟨?_, ?_, ?_⟩⟩
    · obtain ⟨rest, hr⟩ := refusals_eq_cons.mpr hfirst
      exact judge_refused h hr
    · intro hforbidden
      rw [judge_ofStatus h (refusals_eq_nil.mpr hnone) (by rw [hforbidden]; rfl), ofStatus,
        if_pos hforbidden]
      rfl
    · intro hno hforbidden
      have hs : success reply.status = false := Bool.eq_false_iff.mpr (mt success_iff.mp hno)
      rw [judge_ofStatus h (refusals_eq_nil.mpr hnone) hs, ofStatus, if_neg hforbidden]
    · intro hs hno
      have hsuccess := judge_success h (refusals_eq_nil.mpr hnone) (success_iff.mpr hs)
      rcases hsuccess with ⟨body, _, _, hj⟩ | hunreadable
      · cases hd : dataOf body with
        | ok data => exact absurd (hj.trans hd) (hno data)
        | error error =>
            obtain ⟨text, rfl⟩ := dataOf_error hd
            exact ⟨text, hj.trans hd⟩
      · exact hunreadable
  · rintro reply' halike ⟨error, hin, hcode⟩
    have hne : refusals fromSlice reply ≠ [] :=
      fun hnil => hcode (refusals_eq_nil.mp hnil error hin)
    refine ⟨halike.sameClass hne, ?_⟩
    intro data hok
    obtain ⟨hs, body, hb, hn, _⟩ := judge_ok_iff.mp hok
    exact halike.refusals hne (of_noErrors hs hb hn).2
  · intro body hb hn data hok
    obtain ⟨_, body', hb', hn', _⟩ := judge_ok_iff.mp hok
    obtain rfl : body = body' := Option.some.inj (hb.symm.trans hb')
    exact hn hn'

/-- An error whose reason is a number, and one with a readable code. -/
def numbered : Value := .object [("extensions", .object [("code", .string "C"),
  ("reason", .number "7")])]

def conflict : Value := .object [("message", .string "no way"),
  ("extensions", .object [("code", .string "CONFLICT"), ("reason", .null)])]

/-- A body with data beside errors, and one with data alone. -/
def sample : List UInt8 → Option Value
  | [1] => some (.object [("data", .object []), ("errors", .array [numbered, conflict])])
  | [2] => some (.object [("data", .object []), ("errors", .null)])
  | _ => none

/-- The first readable code is the refusal, the data beside it is not given, 403 is
forbidden where no code can be read, 302 is lost, and 299 gives its data. -/
theorem judge_classes_sample :
    judge sample ⟨200, [1]⟩ =
      .error (.refused ⟨"CONFLICT", none, [], "no way", .service⟩) ∧
    judge sample ⟨403, []⟩ = .error (.refused ⟨"FORBIDDEN", none, [], "", .connection⟩) ∧
    judge sample ⟨302, []⟩ = .error (.lost ⟨.transport, "status 302 without a readable code"⟩) ∧
    judge sample ⟨299, [2]⟩ = .ok (.object []) := by
  have hnone : ∀ status, status ≠ 401 → ¬SaysUnauthenticated sample ⟨status, []⟩ := by
    rintro status hstatus (h401 | ⟨error, hin, -⟩)
    · exact hstatus h401
    · cases hin
  have hconflict : ¬SaysUnauthenticated sample ⟨200, [1]⟩ := by
    have hrefusals : refusals sample ⟨200, [1]⟩ =
        [⟨"CONFLICT", none, [], "no way", .service⟩] := rfl
    rw [says_iff, hrefusals]
    rintro (h401 | ⟨refusal, hin, hcode⟩)
    · cases h401
    · rw [List.mem_singleton.mp hin] at hcode
      exact absurd hcode (by decide)
  refine ⟨?_, ?_, ?_, ?_⟩
  · refine ((judge_classes sample ⟨200, [1]⟩).2.2.1 hconflict).1 _
      ⟨[numbered], conflict, [], rfl, ?_, coded_eq_some.mp rfl⟩
    exact fun error hin => coded_eq_none.mp (by rw [List.mem_singleton.mp hin]; rfl)
  · exact (((judge_classes sample ⟨403, []⟩).2.2.1 (hnone 403 (by decide))).2
      (by simp [errorsOf, sample])).1 rfl
  · exact (((judge_classes sample ⟨302, []⟩).2.2.1 (hnone 302 (by decide))).2
      (by simp [errorsOf, sample])).2.1 (by simp [Success]) (by decide)
  · exact ((judge_classes sample ⟨299, [2]⟩).1 _).mpr
      ⟨by simp [Success], _, rfl, Or.inr (Or.inl rfl), rfl, [], rfl⟩

end

end RunnerKit.Connection
