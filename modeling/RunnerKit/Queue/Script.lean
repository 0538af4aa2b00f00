import RunnerKit.Queue.Shared

/-!
# A script of writes, one after another

A script is a finite sequence of writes with the outcome that each of them has
once it is sent. `Script.table` and `Script.result` are the ends of its writes
when each write ends before the next is handed over.

A queue looks at the dependencies of a write when it is handed over and again
when it is sent, so it may look before earlier writes have ended. `Seen` says
what its table can hold meanwhile, and `Coherent` is the condition under which
such a look tells nothing that the one-after-another run does not tell.
-/

namespace RunnerKit.Queue

open RunnerKit.Jobs

/-- The table after the end of one write. -/
def Table.record (t : Table) (write : Write) (result : WriteResult) : Table :=
  match ownKey write with
  | some key => Function.update t key (some (Ended.of result))
  | none => t

theorem recordEnd_ended (st : State) (write : Write) (result : WriteResult) :
    (st.recordEnd write result).ended = st.ended.record write result := by
  unfold State.recordEnd Table.record
  cases ownKey write <;> rfl

theorem Table.record_own {t : Table} {write : Write} {result : WriteResult}
    {key : DepKey} (h : ownKey write = some key) :
    t.record write result key = some (Ended.of result) := by
  simp [record, h]

theorem Table.record_other {t : Table} {write : Write} {result : WriteResult}
    {key : DepKey} (h : ownKey write ≠ some key) :
    t.record write result key = t key := by
  unfold record
  cases hown : ownKey write with
  | none => rfl
  | some own =>
      have hne : key ≠ own := by
        rintro rfl
        exact h hown
      exact Function.update_of_ne hne ..

/-- Two searches that differ only where the first finds `v` agree, or the
first finds `v`. -/
theorem findSome_eq_or {α β : Type*} {l : List α} {g g' : α → Option β} {v : Option β}
    (h : ∀ a ∈ l, g a = g' a ∨ g a = v ∧ v ≠ none) :
    l.findSome? g = l.findSome? g' ∨ l.findSome? g = v := by
  induction l with
  | nil => exact Or.inl rfl
  | cons a rest ih =>
      have hrest := ih fun x hx => h x (List.mem_cons_of_mem _ hx)
      simp only [List.findSome?_cons]
      rcases h a List.mem_cons_self with heq | ⟨rfl, hv⟩
      · rw [← heq]
        cases g a with
        | none => exact hrest
        | some b => exact Or.inl rfl
      · obtain ⟨b, hb⟩ := Option.ne_none_iff_exists'.mp hv
        rw [hb]
        exact Or.inr rfl

/-- The cause of a removal for a dependency removes what depends on it. -/
theorem blockedBy_of_blocked {write write' : Write} {t : Table} {removal : Removal}
    (h : blocked write t = some removal) (key : DepKey) :
    blockedBy write' key (some (Ended.of (.err removal))) ≠ none := by
  obtain ⟨k, -, hk⟩ := List.exists_of_findSome?_eq_some h
  unfold blockedBy at hk
  split at hk
  · cases hk
  · cases hk
  · split at hk <;> cases hk
    · simp only [Ended.of, blockedBy]
      split <;> simp
    · simp [Ended.of, blockedBy]
  · cases hk
    simp [Ended.of, blockedBy]

/-! ## The one-after-another run -/

structure Script where
  length : ℕ
  write : ℕ → Write
  outcome : ℕ → WriteResult

namespace Script

variable (sc : Script)

/-- How the write `i` ends when the table is `t` at its turn. -/
def endAt (t : Table) (i : ℕ) : WriteResult :=
  match blocked (sc.write i) t with
  | some removal => .err removal
  | none => sc.outcome i

/-- The table before the write `i`, when each write ends before the next. -/
def table : ℕ → Table
  | 0 => fun _ => none
  | i + 1 => (table i).record (sc.write i) (sc.endAt (table i) i)

def result (i : ℕ) : WriteResult := sc.endAt (sc.table i) i

/-- Why the write `i` is removed for a dependency, if it is. -/
def verdict (i : ℕ) : Option Removal := blocked (sc.write i) (sc.table i)

/-- The end of the write `p`, as the table keeps it. -/
def ended (p : ℕ) : Ended := Ended.of (sc.result p)

/-- The write `j` can be removed at its hand-over while the writes from `f` on
have still to end: a dependency ended removed before that, or belongs to a
write that was removed in this way itself. -/
inductive Early (f : ℕ) : ℕ → Prop where
  | seen {j m : ℕ} (hj : j < sc.length) (hf : m ≤ f) (hm : m ≤ j)
      (hblocked : blocked (sc.write j) (sc.table m) ≠ none) : Early f j
  | chain {j j' : ℕ} {key : DepKey} (hj : j < sc.length) (hlt : j' < j)
      (hdep : key ∈ dependsOn (sc.write j)) (hown : ownKey (sc.write j') = some key)
      (hearly : Early f j') : Early f j

/-- Out of turn, the table can show the end of `p` for its key to a look at the
write `i`: `p` ended at its hand-over, or ended after a later owner did so. -/
inductive Shows (i p : ℕ) : Prop where
  | late (hearly : sc.Early i p)
  | overtaken {j : ℕ} (hp : p < i) (hj : p < j)
      (hown : ownKey (sc.write j) = ownKey (sc.write p)) (hearly : sc.Early p j)

/-- The ends of the script do not turn on when the queue looks. -/
structure Coherent : Prop where
  /-- What removes a write before its turn removes it at its turn, with the
  same cause. -/
  steady : ∀ i < sc.length, ∀ m ≤ i, blocked (sc.write i) (sc.table m) = none ∨
    blocked (sc.write i) (sc.table m) = sc.verdict i
  /-- An end that shows out of turn tells what is told at its turn. -/
  shows : ∀ i < sc.length, ∀ key ∈ dependsOn (sc.write i), ∀ p,
    ownKey (sc.write p) = some key → sc.Shows i p →
      blockedBy (sc.write i) key (some (sc.ended p)) = sc.verdict i

variable {sc}

theorem Early.mono {f f' j : ℕ} (h : sc.Early f j) (hle : f ≤ f') :
    sc.Early f' j := by
  induction h with
  | seen hj hf hm hblocked => exact .seen hj (hf.trans hle) hm hblocked
  | chain hj hlt hdep hown _ ih => exact .chain hj hlt hdep hown ih

theorem Early.lt {f j : ℕ} (h : sc.Early f j) : j < sc.length := by
  cases h <;> assumption

/-- Only what ended before the hand-over counts. -/
theorem Early.self {f j : ℕ} (h : sc.Early f j) : sc.Early j j := by
  induction h with
  | seen hj hf hm hblocked => exact .seen hj hm hm hblocked
  | chain hj hlt hdep hown _ ih => exact .chain hj hlt hdep hown (ih.mono hlt.le)

theorem result_of_verdict {i : ℕ} {removal : Removal}
    (h : sc.verdict i = some removal) : sc.result i = .err removal := by
  unfold verdict at h
  simp [result, endAt, h]

theorem result_of_none {i : ℕ} (h : sc.verdict i = none) :
    sc.result i = sc.outcome i := by
  unfold verdict at h
  simp [result, endAt, h]

/-- What ends at its hand-over is removed in its turn too. -/
theorem Coherent.verdict_of_early (hc : sc.Coherent) {f j : ℕ} (h : sc.Early f j) :
    sc.verdict j ≠ none := by
  induction h with
  | @seen j m hj hf hm hblocked =>
      rcases hc.steady j hj m hm with hnone | heq
      · exact absurd hnone hblocked
      · rwa [← heq]
  | @chain j j' key hj hlt hdep hown hearly ih =>
      obtain ⟨removal, hremoval⟩ := Option.ne_none_iff_exists'.mp ih
      have hshow : sc.Shows j j' := .late (hearly.self.mono hlt.le)
      rw [← hc.shows j hj key hdep j' hown hshow, ended, result_of_verdict hremoval]
      exact blockedBy_of_blocked hremoval key

/-- With owners that never wait on a removed dependency nothing shows out of
turn. -/
theorem coherent_of_steady
    (hsteady : ∀ i < sc.length, ∀ m ≤ i, blocked (sc.write i) (sc.table m) = none ∨
      blocked (sc.write i) (sc.table m) = sc.verdict i)
    (hfree : ∀ j < sc.length, ownKey (sc.write j) ≠ none →
      ∀ m ≤ j, blocked (sc.write j) (sc.table m) = none) : sc.Coherent := by
  have hearly : ∀ f j, sc.Early f j → ownKey (sc.write j) = none := by
    intro f j h
    induction h with
    | @seen j m hj hf hm hblocked =>
        by_contra hown
        exact hblocked (hfree j hj hown m hm)
    | @chain j j' key hj hlt hdep hown h ih =>
        rw [hown] at ih
        cases ih
  refine ⟨hsteady, ?_⟩
  intro i hi key hkey p hp hshows
  cases hshows with
  | late h =>
      rw [hearly i p h] at hp
      cases hp
  | overtaken hlt hj hown h =>
      rw [← hown, hearly p _ h] at hp
      cases hp

/-! ## The table of the one-after-another run -/

theorem table_none {i : ℕ} {key : DepKey}
    (h : ∀ j < i, ownKey (sc.write j) ≠ some key) : sc.table i key = none := by
  induction i with
  | zero => rfl
  | succ i ih =>
      rw [table, Table.record_other (h i (Nat.lt_succ_self i))]
      exact ih fun j hj => h j (Nat.lt_succ_of_lt hj)

/-- The table holds the end of the last owner. -/
theorem table_last {i p : ℕ} {key : DepKey} (hp : p < i)
    (hown : ownKey (sc.write p) = some key)
    (hlast : ∀ j, p < j → j < i → ownKey (sc.write j) ≠ some key) :
    sc.table i key = some (sc.ended p) := by
  induction i with
  | zero => exact absurd hp (Nat.not_lt_zero p)
  | succ i ih =>
      rw [table]
      rcases Nat.lt_succ_iff_lt_or_eq.mp hp with hlt | rfl
      · rw [Table.record_other (hlast i hlt (Nat.lt_succ_self i))]
        exact ih hlt fun j hpj hji => hlast j hpj (Nat.lt_succ_of_lt hji)
      · rw [Table.record_own hown]
        rfl

/-! ## What the table of a run can hold -/

/-- The table of a run in which the writes of `done` have ended. -/
structure Seen (sc : Script) (t : Table) (done : ℕ → Prop) : Prop where
  /-- What ended before an earlier write did so at its hand-over. -/
  early : ∀ j, done j → ∀ i < j, ¬ done i → sc.Early i j
  /-- For each key the table shows the end of one owner; a later owner that
  has ended did so first. -/
  last : ∀ key, (t key = none ∧ ∀ j, done j → ownKey (sc.write j) ≠ some key) ∨
    ∃ p, done p ∧ ownKey (sc.write p) = some key ∧ t key = some (sc.ended p) ∧
      ∀ j, done j → ownKey (sc.write j) = some key → p < j → sc.Early p j

variable {t : Table} {done done' : ℕ → Prop}

theorem seen_init : sc.Seen (fun _ => none) fun _ => False where
  early := fun _ h => h.elim
  last := fun _ => Or.inl ⟨rfl, fun _ h => h.elim⟩

theorem Seen.congr (h : sc.Seen t done) (hdone : ∀ j, done' j ↔ done j) :
    sc.Seen t done' := by
  obtain rfl : done' = done := funext fun j => propext (hdone j)
  exact h

/-- The end of one more write `q`: of the next one in turn, or of one that was
removed at its hand-over. -/
theorem Seen.record (h : sc.Seen t done) {q : ℕ}
    (hdone : ∀ j, done' j ↔ done j ∨ j = q) (hq : ¬ done q)
    (hbelow : ∀ i < q, ¬ done i → sc.Early i q) :
    sc.Seen (t.record (sc.write q) (sc.result q)) done' where
  early := by
    intro j hj i hi hopen
    have hopen' : ¬ done i := fun hd => hopen ((hdone i).mpr (Or.inl hd))
    rcases (hdone j).mp hj with hj | rfl
    · exact h.early j hj i hi hopen'
    · exact hbelow i hi hopen'
  last := by
    intro key
    by_cases hown : ownKey (sc.write q) = some key
    · refine Or.inr ⟨q, (hdone q).mpr (Or.inr rfl), hown, Table.record_own hown, ?_⟩
      intro j hj hj' hlt
      rcases (hdone j).mp hj with hj | rfl
      · exact h.early j hj q hlt hq
      · exact absurd hlt (lt_irrefl _)
    · rw [Table.record_other hown]
      rcases h.last key with ⟨hnone, hfree⟩ | ⟨p, hp, hpown, hshown, hlater⟩
      · refine Or.inl ⟨hnone, fun j hj => ?_⟩
        rcases (hdone j).mp hj with hj | rfl
        · exact hfree j hj
        · exact hown
      · refine Or.inr ⟨p, (hdone p).mpr (Or.inl hp), hpown, hshown, ?_⟩
        intro j hj hjown hlt
        rcases (hdone j).mp hj with hj | rfl
        · exact hlater j hj hjown hlt
        · exact absurd hjown hown

/-- A look at the write `i` while the writes from `f` on have still to end:
each key shows what the one-after-another run shows before `f`, or an end that
can show out of turn. -/
theorem Seen.look (h : sc.Seen t done) {i f : ℕ} (hfi : f ≤ i)
    (hbelow : ∀ j < f, done j) (hf : ¬ done f) (key : DepKey) :
    t key = sc.table f key ∨
      ∃ p, ownKey (sc.write p) = some key ∧ t key = some (sc.ended p) ∧
        sc.Shows i p ∧ ∃ j, done j ∧ ownKey (sc.write j) = some key ∧
          sc.Early f j := by
  rcases h.last key with ⟨hnone, hfree⟩ | ⟨p, hp, hpown, hshown, hlater⟩
  · refine Or.inl ?_
    rw [hnone, table_none fun j hj => hfree j (hbelow j hj)]
  · rcases lt_trichotomy p f with hpf | rfl | hpf
    · by_cases hover : ∃ j, done j ∧ ownKey (sc.write j) = some key ∧ p < j
      · obtain ⟨j, hj, hjown, hlt⟩ := hover
        have hearly := hlater j hj hjown hlt
        exact Or.inr ⟨p, hpown, hshown, .overtaken (lt_of_lt_of_le hpf hfi) hlt
          (hjown.trans hpown.symm) hearly, j, hj, hjown, hearly.mono hpf.le⟩
      · refine Or.inl ?_
        rw [hshown, table_last hpf hpown fun j hpj hjf hjown =>
          hover ⟨j, hbelow j hjf, hjown, hpj⟩]
    · exact absurd hp hf
    · have hearly := h.early p hp f hpf hf
      exact Or.inr ⟨p, hpown, hshown, .late (hearly.mono hfi), p, hp, hpown, hearly⟩

/-- An end that shows out of turn is a removal. -/
theorem Coherent.verdict_of_shows (hc : sc.Coherent) {i f j : ℕ} {key : DepKey}
    (hi : i < sc.length) (hfi : f ≤ i) (hkey : key ∈ dependsOn (sc.write i))
    (hown : ownKey (sc.write j) = some key) (hearly : sc.Early f j) :
    sc.verdict i ≠ none := by
  obtain ⟨removal, hremoval⟩ := Option.ne_none_iff_exists'.mp (hc.verdict_of_early hearly)
  rw [← hc.shows i hi key hkey j hown (.late (hearly.mono hfi)), ended,
    result_of_verdict hremoval]
  exact blockedBy_of_blocked hremoval key

/-- A look finds what the one-after-another run finds before `f`, or what it
finds in the write's turn. -/
theorem Seen.blocked_eq_or (h : sc.Seen t done) (hc : sc.Coherent) {i f : ℕ}
    (hi : i < sc.length) (hfi : f ≤ i) (hbelow : ∀ j < f, done j) (hf : ¬ done f) :
    blocked (sc.write i) t = blocked (sc.write i) (sc.table f) ∨
      blocked (sc.write i) t = sc.verdict i := by
  refine findSome_eq_or fun key hkey => ?_
  rcases h.look hfi hbelow hf key with heq | ⟨p, hown, hshown, hshows, j, -, hj, hearly⟩
  · rw [heq]
    exact Or.inl rfl
  · refine Or.inr ⟨?_, hc.verdict_of_shows hi hfi hkey hj hearly⟩
    rw [hshown]
    exact hc.shows i hi key hkey p hown hshows

/-- The look at the head, when everything before it has ended. -/
theorem Seen.blocked_head (h : sc.Seen t done) (hc : sc.Coherent) {i : ℕ}
    (hi : i < sc.length) (hbelow : ∀ j < i, done j) (hopen : ¬ done i) :
    blocked (sc.write i) t = sc.verdict i := by
  rcases h.blocked_eq_or hc hi le_rfl hbelow hopen with heq | heq <;> exact heq

/-- The look at the hand-over, when everything before it was handed over. -/
theorem Seen.blocked_handOver (h : sc.Seen t done) (hc : sc.Coherent) {i : ℕ}
    (hi : i < sc.length) (hdone : ∀ j, done j → j < i) {removal : Removal}
    (hblocked : blocked (sc.write i) t = some removal) :
    sc.verdict i = some removal ∧ ∀ m < i, ¬ done m → sc.Early m i := by
  classical
  have hex : ∃ f, ¬ done f := ⟨i, fun hd => lt_irrefl i (hdone i hd)⟩
  -- the first write that has still to end
  obtain ⟨f, hf, hleast⟩ : ∃ f, ¬ done f ∧ ∀ m, ¬ done m → f ≤ m :=
    ⟨Nat.find hex, Nat.find_spec hex, fun m hm => Nat.find_min' hex hm⟩
  have hfi : f ≤ i := hleast i fun hd => lt_irrefl i (hdone i hd)
  have hbelow : ∀ j < f, done j := fun j hj => by
    by_contra hopen
    exact absurd (hleast j hopen) (not_le.mpr hj)
  have hverdict : sc.verdict i = some removal := by
    rcases h.blocked_eq_or hc hi hfi hbelow hf with heq | heq
    · rcases hc.steady i hi f hfi with hnone | hsome
      · rw [heq, hnone] at hblocked
        cases hblocked
      · rw [← hsome, ← heq]
        exact hblocked
    · rw [← heq]
      exact hblocked
  have hearly : sc.Early f i := by
    by_cases hagree : ∀ key ∈ dependsOn (sc.write i), t key = sc.table f key
    · refine .seen hi le_rfl hfi ?_
      rw [← blocked_congr hagree, hblocked]
      exact Option.some_ne_none _
    · obtain ⟨key, hkey, hne⟩ : ∃ key ∈ dependsOn (sc.write i),
          ¬ t key = sc.table f key := by simpa using hagree
      rcases h.look hfi hbelow hf key with heq | ⟨p, -, -, -, j, hj, hown, hj'⟩
      · exact absurd heq hne
      · exact .chain hi (hdone j hj) hkey hown hj'
  exact ⟨hverdict, fun m _ hm => hearly.mono (hleast m hm)⟩

end Script

end RunnerKit.Queue
