import Mathlib

/-!
# Back-off delays

`backoff.rs`. A duration is its number of nanoseconds, with the bound of the type; a
product beyond it is the largest duration. The factor of a delay is a power of two in
`u32`, and the number of attempts is a `u32` too: both stop at the largest one.
-/

namespace RunnerKit.Kit

/-- `Duration::MAX` -/
def maxNanos : ℕ := (2 ^ 64 - 1) * 10 ^ 9 + 999999999

structure Duration where
  nanos : ℕ
  le_max : nanos ≤ maxNanos
deriving DecidableEq

/-- `u32::MAX` -/
def u32Max : ℕ := 2 ^ 32 - 1

def saturatingPow (base exp : UInt32) : UInt32 :=
  UInt32.ofNat (min (base.toNat ^ exp.toNat) u32Max)

def saturatingAdd (a b : UInt32) : UInt32 := UInt32.ofNat (min (a.toNat + b.toNat) u32Max)

namespace Duration

def saturatingMul (d : Duration) (factor : UInt32) : Duration :=
  ⟨min (d.nanos * factor.toNat) maxNanos, Nat.min_le_right _ _⟩

def min (d cap : Duration) : Duration := if d.nanos ≤ cap.nanos then d else cap

end Duration

inductive BackoffConfigError where
  | zeroBase | capBelowBase
deriving DecidableEq

structure Backoff where
  base : Duration
  cap : Duration
  attempts : UInt32
  pos : 0 < base.nanos
  base_le_cap : base.nanos ≤ cap.nanos

namespace Backoff

def new (base cap : Duration) : Except BackoffConfigError Backoff :=
  if hzero : base.nanos = 0 then .error .zeroBase
  else if hcap : cap.nanos < base.nanos then .error .capBelowBase
  else .ok ⟨base, cap, 0, Nat.pos_of_ne_zero hzero, Nat.le_of_not_lt hcap⟩

def nextDelay (b : Backoff) : Duration × Backoff :=
  let factor := saturatingPow 2 b.attempts
  ((b.base.saturatingMul factor).min b.cap,
    { b with attempts := saturatingAdd b.attempts 1 })

def reset (b : Backoff) : Backoff := { b with attempts := 0 }

/-! ## Calls, one after the other -/

inductive Call where
  | nextDelay | reset
deriving DecidableEq

def after (b : Backoff) : List Call → Backoff
  | [] => b
  | .nextDelay :: calls => b.nextDelay.2.after calls
  | .reset :: calls => b.reset.after calls

/-- The delays that the calls return. -/
def delays (b : Backoff) : List Call → List ℕ
  | [] => []
  | .nextDelay :: calls => b.nextDelay.1.nanos :: b.nextDelay.2.delays calls
  | .reset :: calls => b.reset.delays calls

/-- The delays of a law that gives the `n`-th one after a reset, from the `n`-th on. -/
def byLaw (law : ℕ → ℕ) : ℕ → List Call → List ℕ
  | _, [] => []
  | n, .nextDelay :: calls => law n :: byLaw law (n + 1) calls
  | _, .reset :: calls => byLaw law 0 calls

/-- The most delays in a row that are asked for without a reset, `n` having been asked
for before. -/
def longest : ℕ → List Call → ℕ
  | n, [] => n
  | n, .nextDelay :: calls => longest (n + 1) calls
  | n, .reset :: calls => max n (longest 0 calls)

/-- The capped doubling. -/
def doubling (base cap : Duration) (n : ℕ) : ℕ := min cap.nanos (base.nanos * 2 ^ n)

/-- What the saturating factor makes of it. -/
def saturated (base cap : Duration) (n : ℕ) : ℕ :=
  min cap.nanos (base.nanos * min (2 ^ n) u32Max)

/-! ## One delay -/

variable {b : Backoff} {base cap : Duration}

theorem saturatingPow_toNat (exp : UInt32) :
    (saturatingPow 2 exp).toNat = min (2 ^ exp.toNat) u32Max := by
  have hle : min (2 ^ exp.toNat) u32Max < 2 ^ 32 :=
    Nat.lt_of_le_of_lt (Nat.min_le_right _ _) (by decide)
  exact Nat.mod_eq_of_lt hle

theorem saturatingAdd_toNat (a : UInt32) :
    (saturatingAdd a 1).toNat = min (a.toNat + 1) u32Max := by
  have hle : min (a.toNat + 1) u32Max < 2 ^ 32 :=
    Nat.lt_of_le_of_lt (Nat.min_le_right _ _) (by decide)
  exact Nat.mod_eq_of_lt hle

theorem Duration.min_nanos (d cap : Duration) :
    (d.min cap).nanos = min cap.nanos d.nanos := by
  unfold Kit.Duration.min
  split
  · rename_i h
    exact (Nat.min_eq_right h).symm
  · rename_i h
    exact (Nat.min_eq_left (Nat.le_of_not_le h)).symm

/-- The product saturates above every cap. -/
theorem nextDelay_nanos (b : Backoff) :
    b.nextDelay.1.nanos =
      min b.cap.nanos (b.base.nanos * min (2 ^ b.attempts.toNat) u32Max) := by
  have hcap : b.cap.nanos ≤ maxNanos := b.cap.le_max
  simp only [nextDelay, Duration.min_nanos, Kit.Duration.saturatingMul, saturatingPow_toNat]
  exact (Nat.min_assoc _ _ _).symm.trans (by
    rw [Nat.min_eq_left]
    exact (Nat.min_le_left _ _).trans hcap)

/-! ## Any calls -/

/-- The counter of attempts after `n` of them. -/
def Counts (b : Backoff) (n : ℕ) : Prop := b.attempts.toNat = min n u32Max

theorem counts_nextDelay {n : ℕ} (h : b.Counts n) : b.nextDelay.2.Counts (n + 1) := by
  have hnext : b.nextDelay.2.attempts.toNat = min (b.attempts.toNat + 1) u32Max :=
    saturatingAdd_toNat _
  have hn : b.attempts.toNat = min n u32Max := h
  rw [hn] at hnext
  refine hnext.trans ?_
  rcases Nat.le_total n u32Max with hle | hle
  · rw [Nat.min_eq_left hle]
  · rw [Nat.min_eq_right hle, Nat.min_eq_right (Nat.le_succ _),
      Nat.min_eq_right (hle.trans (Nat.le_succ _))]

theorem counts_reset : b.reset.Counts 0 := rfl

/-- The power saturates before the counter does. -/
theorem factor_of_counts {n : ℕ} (h : b.Counts n) :
    min (2 ^ b.attempts.toNat) u32Max = min (2 ^ n) u32Max := by
  have hn : b.attempts.toNat = min n u32Max := h
  rcases Nat.le_total n u32Max with hle | hle
  · rw [hn, Nat.min_eq_left hle]
  · have hpow : u32Max ≤ 2 ^ u32Max := Nat.le_of_lt Nat.lt_two_pow_self
    have hpow' : u32Max ≤ 2 ^ n := hpow.trans (Nat.pow_le_pow_right (by decide) hle)
    rw [hn, Nat.min_eq_right hle, Nat.min_eq_right hpow, Nat.min_eq_right hpow']

theorem nextDelay_of_counts {n : ℕ} (h : b.Counts n) :
    b.nextDelay.1.nanos = saturated b.base b.cap n := by
  rw [nextDelay_nanos, factor_of_counts h]
  rfl

theorem delays_eq_byLaw {calls : List Call} : ∀ {b : Backoff} {n : ℕ}, b.Counts n →
    b.delays calls = byLaw (saturated b.base b.cap) n calls := by
  induction calls with
  | nil => exact fun _ => rfl
  | cons call calls ih =>
      intro b n h
      cases call with
      | nextDelay =>
          show b.nextDelay.1.nanos :: b.nextDelay.2.delays calls = _ :: _
          rw [nextDelay_of_counts h, ih (counts_nextDelay h)]
          rfl
      | reset => exact ih counts_reset

theorem counts_after (calls : List Call) : ∀ {b : Backoff} {n : ℕ}, b.Counts n →
    ∃ m, (b.after calls).Counts m ∧ (b.after calls).base = b.base ∧
      (b.after calls).cap = b.cap := by
  induction calls with
  | nil => exact fun h => ⟨_, h, rfl, rfl⟩
  | cons call calls ih =>
      intro b n h
      cases call with
      | nextDelay => exact ih (counts_nextDelay h)
      | reset => exact ih (counts_reset (b := b))

theorem after_append {calls more : List Call} : ∀ {b : Backoff},
    b.after (calls ++ more) = (b.after calls).after more := by
  induction calls with
  | nil => exact rfl
  | cons call calls ih =>
      intro b
      cases call with
      | nextDelay => exact ih
      | reset => exact ih

theorem counts_replicate : ∀ {k n : ℕ} {b : Backoff}, b.Counts n →
    (b.after (List.replicate k .nextDelay)).Counts (n + k)
  | 0, _, _, h => h
  | k + 1, n, _, h => by
      have hnext := counts_replicate (k := k) (counts_nextDelay h)
      rwa [Nat.add_right_comm, Nat.add_assoc] at hnext

/-! ## Where the factor is exact -/

theorem longest_ge : ∀ (calls : List Call) (n : ℕ), n ≤ longest n calls
  | [], _ => Nat.le_refl _
  | .nextDelay :: calls, n => (Nat.le_succ n).trans (longest_ge calls (n + 1))
  | .reset :: _, _ => Nat.le_max_left _ _

theorem saturated_eq {n : ℕ} (h : cap.nanos ≤ base.nanos * u32Max ∨ n < 32) :
    saturated base cap n = doubling base cap n := by
  unfold saturated doubling
  rcases Nat.le_total (2 ^ n) u32Max with hle | hle
  · rw [Nat.min_eq_left hle]
  · have hcap : cap.nanos ≤ base.nanos * u32Max := by
      refine h.resolve_right fun hn => ?_
      have hpow : 2 ^ n ≤ 2 ^ 31 := Nat.pow_le_pow_right (by decide) (Nat.lt_succ_iff.mp hn)
      exact absurd (hle.trans hpow) (by decide)
    rw [Nat.min_eq_right hle, Nat.min_eq_left hcap,
      Nat.min_eq_left (hcap.trans (Nat.mul_le_mul_left _ hle))]

/-- From the 33rd attempt on the factor is short, and a cap above shows it. -/
theorem saturated_lt (hpos : 0 < base.nanos) (hcap : base.nanos * u32Max < cap.nanos) :
    saturated base cap 32 < doubling base cap 32 := by
  have hshort : min (2 ^ 32) u32Max = u32Max := by decide
  have hmul : base.nanos * u32Max < base.nanos * 2 ^ 32 :=
    Nat.mul_lt_mul_of_pos_left (by decide) hpos
  have hleft : saturated base cap 32 = base.nanos * u32Max := by
    unfold saturated
    rw [hshort]
    exact Nat.min_eq_right (Nat.le_of_lt hcap)
  rw [hleft]
  exact Nat.lt_min.mpr ⟨hcap, hmul⟩

theorem byLaw_eq {calls : List Call} : ∀ {n : ℕ}, n ≤ 32 → 0 < base.nanos →
    (byLaw (saturated base cap) n calls = byLaw (doubling base cap) n calls ↔
      cap.nanos ≤ base.nanos * u32Max ∨ longest n calls ≤ 32) := by
  induction calls with
  | nil => exact fun hn _ => iff_of_true rfl (Or.inr hn)
  | cons call calls ih =>
      intro n hn hpos
      cases call with
      | reset =>
          refine (ih (Nat.zero_le _) hpos).trans (or_congr_right ?_)
          exact ⟨fun h => Nat.max_le.mpr ⟨hn, h⟩, fun h => (Nat.max_le.mp h).2⟩
      | nextDelay =>
          rcases Nat.lt_or_eq_of_le hn with hlt | rfl
          · have hhead : saturated base cap n = doubling base cap n := saturated_eq (Or.inr hlt)
            refine Iff.trans ?_ (ih hlt hpos)
            show saturated base cap n :: _ = doubling base cap n :: _ ↔ _
            rw [hhead]
            exact ⟨fun h => (List.cons.inj h).2, fun h => congrArg _ h⟩
          · constructor
            · intro h
              refine Or.inl (Nat.le_of_not_lt fun hcap => ?_)
              exact absurd (List.cons.inj h).1 (Nat.ne_of_lt (saturated_lt hpos hcap))
            · rintro (hcap | hlong)
              · exact congrArg (fun law => byLaw law 32 (.nextDelay :: calls))
                  (funext fun n => saturated_eq (Or.inl hcap))
              · exact absurd (longest_ge calls 33) (Nat.not_le_of_gt (Nat.lt_succ_of_le hlong))

/-! ## What holds of any base and cap -/

theorem base_le_saturated (hle : base.nanos ≤ cap.nanos) (n : ℕ) :
    base.nanos ≤ saturated base cap n := by
  have hone : 1 ≤ min (2 ^ n) u32Max := Nat.le_min.mpr ⟨Nat.one_le_two_pow, by decide⟩
  exact Nat.le_min.mpr ⟨hle, Nat.le_mul_of_pos_right _ hone⟩

theorem saturated_mono {m n : ℕ} (h : m ≤ n) : saturated base cap m ≤ saturated base cap n := by
  have hpow : 2 ^ m ≤ 2 ^ n := Nat.pow_le_pow_right (by decide) h
  refine Nat.le_min.mpr ⟨Nat.min_le_left _ _, (Nat.min_le_right _ _).trans ?_⟩
  refine Nat.mul_le_mul_left _ (Nat.le_min.mpr ⟨?_, Nat.min_le_right _ _⟩)
  exact (Nat.min_le_left _ _).trans hpow

theorem saturated_at_cap (hcap : cap.nanos ≤ base.nanos * u32Max) {n : ℕ} (hn : 32 ≤ n) :
    saturated base cap n = cap.nanos := by
  have hpow : u32Max ≤ 2 ^ n :=
    (by decide : u32Max ≤ 2 ^ 32).trans (Nat.pow_le_pow_right (by decide) hn)
  unfold saturated
  rw [Nat.min_eq_right hpow, Nat.min_eq_left hcap]

theorem saturated_below_cap (hcap : base.nanos * u32Max < cap.nanos) (n : ℕ) :
    saturated base cap n < cap.nanos := by
  refine Nat.lt_of_le_of_lt (Nat.min_le_right _ _) (Nat.lt_of_le_of_lt ?_ hcap)
  exact Nat.mul_le_mul_left _ (Nat.min_le_right _ _)

theorem new_ok (h : new base cap = .ok b) :
    b.base = base ∧ b.cap = cap ∧ b.Counts 0 := by
  unfold new at h
  split_ifs at h
  cases h
  exact ⟨rfl, rfl, rfl⟩

/-! ## The law -/

/-- The calls return the capped doubling exactly if the cap is in reach of the factor, or
no more than 32 delays are asked for in a row; the cap is reached, from any point, exactly
if it is in reach of the factor. In any case the delays lie between the base and the cap
and do not decrease without a reset. -/
theorem delays_double (h : new base cap = .ok b) :
    (∀ calls, b.delays calls = byLaw (doubling base cap) 0 calls ↔
      cap.nanos ≤ base.nanos * u32Max ∨ longest 0 calls ≤ 32) ∧
    (∀ calls, (∃ k, (b.after (calls ++ List.replicate k .nextDelay)).nextDelay.1.nanos =
        cap.nanos) ↔ cap.nanos ≤ base.nanos * u32Max) ∧
    ∀ calls, base.nanos ≤ (b.after calls).nextDelay.1.nanos ∧
      (b.after calls).nextDelay.1.nanos ≤ cap.nanos ∧
      (b.after calls).nextDelay.1.nanos ≤ (b.after calls).nextDelay.2.nextDelay.1.nanos := by
  obtain ⟨rfl, rfl, hcounts⟩ := new_ok h
  refine ⟨fun calls => ?_, fun calls => ?_, fun calls => ?_⟩
  · rw [delays_eq_byLaw hcounts]
    exact byLaw_eq (Nat.zero_le _) b.pos
  · obtain ⟨m, hm, hbase, hcap⟩ := counts_after calls hcounts
    have hdelay : ∀ k, (b.after (calls ++ List.replicate k .nextDelay)).nextDelay.1.nanos =
        saturated b.base b.cap (m + k) := by
      intro k
      obtain ⟨_, -, hbase', hcap'⟩ := counts_after (List.replicate k .nextDelay) hm
      rw [after_append, nextDelay_of_counts (counts_replicate hm), hbase', hcap', hbase, hcap]
    constructor
    · rintro ⟨k, hk⟩
      refine Nat.le_of_not_lt fun hlt => ?_
      exact absurd ((hdelay k).symm.trans hk) (Nat.ne_of_lt (saturated_below_cap hlt _))
    · intro hreach
      exact ⟨32, (hdelay 32).trans (saturated_at_cap hreach (Nat.le_add_left _ _))⟩
  · obtain ⟨m, hm, hbase, hcap⟩ := counts_after calls hcounts
    have hnext := nextDelay_of_counts (counts_nextDelay hm)
    rw [nextDelay_of_counts hm, hnext]
    show _ ∧ _ ∧ saturated (b.after calls).base (b.after calls).cap m ≤
      saturated (b.after calls).base (b.after calls).cap (m + 1)
    rw [hbase, hcap]
    exact ⟨base_le_saturated b.base_le_cap m, Nat.min_le_left _ _,
      saturated_mono (Nat.le_succ m)⟩

def millis (n : ℕ) (h : n * 10 ^ 6 ≤ maxNanos) : Duration := ⟨n * 10 ^ 6, h⟩

/-- The bounds with which the feeds reconnect. -/
theorem delays_double_reconnect : ∃ b,
    new (millis 500 (by decide)) (millis 15000 (by decide)) = .ok b ∧
      b.delays (List.replicate 40 .nextDelay) =
        byLaw (doubling (millis 500 (by decide)) (millis 15000 (by decide))) 0
          (List.replicate 40 .nextDelay) :=
  ⟨_, rfl, ((delays_double rfl).1 _).mpr (Or.inl (by decide))⟩

set_option maxRecDepth 4000 in
/-- From a base of one nanosecond the 33rd delay is one nanosecond short of its double,
and no delay reaches a cap of five seconds. -/
theorem delays_stop_short : ∃ b : Backoff,
    new ⟨1, by decide⟩ ⟨5 * 10 ^ 9, by decide⟩ = .ok b ∧
      (b.delays (List.replicate 33 .nextDelay)).getLast? = some 4294967295 ∧
      doubling ⟨1, by decide⟩ ⟨5 * 10 ^ 9, by decide⟩ 32 = 4294967296 ∧
      ∀ n, (b.after (List.replicate n .nextDelay)).nextDelay.1.nanos ≠ 5 * 10 ^ 9 := by
  refine ⟨_, rfl, by decide, by decide, fun n => Nat.ne_of_lt ?_⟩
  rw [nextDelay_nanos]
  obtain ⟨_, -, hbase, -⟩ := counts_after (List.replicate n .nextDelay) (n := 0)
    (b := ⟨⟨1, by decide⟩, ⟨5 * 10 ^ 9, by decide⟩, 0, by decide, by decide⟩) rfl
  rw [hbase]
  refine Nat.lt_of_le_of_lt ((Nat.min_le_right _ _).trans ?_)
    (by decide : 1 * u32Max < 5 * 10 ^ 9)
  exact Nat.mul_le_mul_left _ (Nat.min_le_right _ _)

end Backoff

end RunnerKit.Kit
