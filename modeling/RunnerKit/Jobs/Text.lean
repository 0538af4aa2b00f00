import RunnerKit.Jobs.Model

/-!
# The texts of errors and of identifiers

The words and the `Display` texts of `error.rs` and `reason.rs`. A Run that
fails because one of its writes was removed carries this text in its failed
fact. A UUID is written in its hyphenated form.
-/

namespace RunnerKit.Jobs

/-! ## Identifiers -/

def hexDigit (n : ℕ) : Char := Nat.digitChar n

/-- The 32 hexadecimal digits, the highest first. -/
def Uuid.digits (id : Uuid) : List Char :=
  (List.range 32).reverse.map fun i => hexDigit (id.toNat / 16 ^ i % 16)

def Uuid.hyphenated (id : Uuid) : String :=
  let d := Uuid.digits id
  String.ofList (d.take 8 ++ '-' :: (d.drop 8).take 4 ++ '-' :: (d.drop 12).take 4 ++
    '-' :: (d.drop 16).take 4 ++ '-' :: d.drop 20)

def hexValue (c : Char) : ℕ := if c.isDigit then c.toNat - 48 else c.toNat - 87

/-- The number its digits write, wherever the hyphens are. -/
def readDigits (text : String) : Uuid :=
  BitVec.ofNat 128
    ((text.toList.filter (· ≠ '-')).foldl (fun acc c => 16 * acc + hexValue c) 0)

theorem hexValue_hexDigit : ∀ d < 16, hexValue (hexDigit d) = d ∧ hexDigit d ≠ '-' := by
  decide

theorem foldl_digits (n : ℕ) : ∀ k acc : ℕ,
    ((List.range k).reverse.map fun i => hexDigit (n / 16 ^ i % 16)).foldl
      (fun acc c => 16 * acc + hexValue c) acc = acc * 16 ^ k + n % 16 ^ k := by
  intro k
  induction k with
  | zero => simp [Nat.mod_one]
  | succ k ih =>
      intro acc
      have hdigit := (hexValue_hexDigit (n / 16 ^ k % 16) (Nat.mod_lt _ (by decide))).1
      simp only [List.range_succ, List.reverse_append, List.reverse_cons, List.reverse_nil,
        List.nil_append, List.cons_append, List.map_cons, List.foldl_cons, hdigit, ih]
      have hsplit := Nat.mod_mul (x := n) (a := 16 ^ k) (b := 16)
      rw [pow_succ, hsplit]
      ring

theorem filter_digits (id : Uuid) :
    id.hyphenated.toList.filter (· ≠ '-') = Uuid.digits id := by
  have hnone : ∀ c ∈ Uuid.digits id, c ≠ '-' := by
    intro c hc
    obtain ⟨i, -, rfl⟩ := List.mem_map.mp hc
    exact (hexValue_hexDigit _ (Nat.mod_lt _ (by decide))).2
  have hkeep : ∀ l : List Char, (∀ c ∈ l, c ∈ Uuid.digits id) → l.filter (· ≠ '-') = l := by
    intro l hl
    exact List.filter_eq_self.mpr fun c hc => by simpa using hnone c (hl c hc)
  have htake : ∀ a b, ((((Uuid.digits id).drop a).take b).filter (· ≠ '-')) =
      ((Uuid.digits id).drop a).take b := by
    intro a b
    exact hkeep _ fun c hc => List.mem_of_mem_drop (List.mem_of_mem_take hc)
  have hfirst := htake 0 8
  have hlast := hkeep ((Uuid.digits id).drop 20) fun c hc => List.mem_of_mem_drop hc
  have hjoin : ∀ a b : ℕ, ((Uuid.digits id).drop a).take b ++ (Uuid.digits id).drop (a + b) =
      (Uuid.digits id).drop a := by
    intro a b
    rw [← List.drop_drop, List.take_append_drop]
  simp only [Uuid.hyphenated, String.toList_ofList, List.filter_append, List.filter_cons]
  rw [List.drop_zero] at hfirst
  simp only [hfirst, htake, hlast, ne_eq, not_true_eq_false, decide_false, Bool.false_eq_true,
    if_false, List.append_assoc]
  rw [hjoin 16 4, hjoin 12 4, hjoin 8 4]
  exact List.take_append_drop 8 _

theorem readDigits_hyphenated (id : Uuid) : readDigits id.hyphenated = id := by
  rw [readDigits, filter_digits, Uuid.digits, foldl_digits]
  have hlt : id.toNat < 16 ^ 32 := id.isLt
  rw [Nat.mod_eq_of_lt hlt, Nat.zero_mul, Nat.zero_add]
  simp

/-! ## Errors -/

def Failure.display (failure : Failure) : String :=
  let cause := match failure.cause with
    | .waitFired => "the wait fired"
    | .transport => "the transport failed"
    | .noListener => "no listener"
  cause ++ ": " ++ failure.text

def CredentialFailure.display (failure : CredentialFailure) : String :=
  let kind := match failure.kind with
    | .noUsable => "no usable credential"
    | .fetchFailed => "credential fetch failed"
  kind ++ ": " ++ failure.text

def Operation.asStr : Operation → String
  | .claim => "claim"
  | .startedFact => "started fact"
  | .create => "create"
  | .finish => "finish"
  | .cancel => "cancel"
  | .mail => "mail"
  | .registration => "registration"
  | .readMarker => "read marker"
  | .agentList => "agent list"
  | .upload => "upload"
  | .payload => "payload"
  | .result => "result"
  | .savedState => "saved state"
  | .attachment => "attachment"
  | .read => "read"
  | .size => "size"

def RefusalReason.asStr : RefusalReason → String
  | .instanceUnknown => "instance_unknown"
  | .notClaimMode => "not_claim_mode"
  | .instanceDraining => "instance_draining"
  | .runnerTypeRetired => "runner_type_retired"
  | .claimSpent => "claim_spent"
  | .malformedClaim => "malformed_claim"
  | .busy => "busy"
  | .runUnknown => "run_unknown"
  | .runNotStarted => "run_not_started"
  | .runEnded => "run_ended"
  | .runRemoved => "run_removed"
  | .instanceMismatch => "instance_mismatch"
  | .agentIdInOtherTree => "agent_id_in_other_tree"
  | .agentIdNotFinished => "agent_id_not_finished"
  | .itemNotYours => "item_not_yours"
  | .malformed => "malformed"
  | .runHeld => "run_held"
  | .runReservedElsewhere => "run_reserved_elsewhere"
  | .runNotPending => "run_not_pending"
  | .notRequester => "not_requester"
  | .runnerNotWorkingTheJob => "runner_not_working_the_job"
  | .actingRunMissing => "acting_run_missing"
  | .actingRunNotLive => "acting_run_not_live"
  | .jobUnknown => "job_unknown"
  | .jobTerminal => "job_terminal"
  | .passportRequired => "passport_required"
  | .passportUserMismatch => "passport_user_mismatch"
  | .passportParentMismatch => "passport_parent_mismatch"
  | .initialJobMismatch => "initial_job_mismatch"
  | .parentTerminal => "parent_terminal"
  | .parentJobUnknown => "parent_job_unknown"
  | .invalidPriority => "invalid_priority"
  | .payloadTooLarge => "payload_too_large"
  | .payloadNotUploaded => "payload_not_uploaded"
  | .payloadUploaderMismatch => "payload_uploader_mismatch"
  | .modeRequired => "mode_required"
  | .callerAddressNotHeld => "caller_address_not_held"
  | .callerAddressNotOfRun => "caller_address_not_of_run"
  | .maxAttemptsAboveCeiling => "max_attempts_above_ceiling"
  | .idReuse => "id_reuse"
  | .duplicateActiveEntity => "duplicate_active_entity"
  | .malformedPayload => "malformed_payload"
  | .mailNotYours => "mail_not_yours"
  | .unknown word => word

/-- The reasons that have a word of their own. -/
def RefusalReason.known : List RefusalReason :=
  [.instanceUnknown, .notClaimMode, .instanceDraining, .runnerTypeRetired, .claimSpent,
   .malformedClaim, .busy, .runUnknown, .runNotStarted, .runEnded, .runRemoved,
   .instanceMismatch, .agentIdInOtherTree, .agentIdNotFinished, .itemNotYours,
   .malformed, .runHeld, .runReservedElsewhere, .runNotPending, .notRequester,
   .runnerNotWorkingTheJob, .actingRunMissing, .actingRunNotLive, .jobUnknown,
   .jobTerminal, .passportRequired, .passportUserMismatch, .passportParentMismatch,
   .initialJobMismatch, .parentTerminal, .parentJobUnknown, .invalidPriority,
   .payloadTooLarge, .payloadNotUploaded, .payloadUploaderMismatch, .modeRequired,
   .callerAddressNotHeld, .callerAddressNotOfRun, .maxAttemptsAboveCeiling, .idReuse,
   .duplicateActiveEntity, .malformedPayload, .mailNotYours]

/-- `from_word`. -/
def RefusalReason.ofWord (word : String) : RefusalReason :=
  (RefusalReason.known.find? fun reason => reason.asStr == word).getD (.unknown word)

@[simp] theorem RefusalReason.asStr_ofWord (word : String) :
    (RefusalReason.ofWord word).asStr = word := by
  unfold RefusalReason.ofWord
  cases hfind : RefusalReason.known.find? fun reason => reason.asStr == word with
  | none => rfl
  | some reason => simpa using List.find?_some hfind

def Error.display : Error → String
  | .invalidInput text => "invalid input: " ++ text
  | .credential failure => failure.display
  | .unauthenticated => "unauthenticated"
  | .unavailable failure => "unavailable, " ++ failure.display
  | .lost failure => "lost, " ++ failure.display
  | .refused refusal =>
      "refused: " ++ refusal.operation.asStr ++ ": " ++ refusal.reason.asStr ++
        ": " ++ refusal.message
  | .infraMissing text => "infra missing: " ++ text
  | .unreadable text => "unreadable: " ++ text
  | .bookDropped => "the agent book was dropped"

end RunnerKit.Jobs
