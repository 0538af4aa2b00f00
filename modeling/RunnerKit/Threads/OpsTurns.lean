import RunnerKit.Threads.OpsScopes

/-!
# Turns and their items

What is accepted under the guards of a thread, and the memory that is written after it. Between
the two the memory does not fit the log; no await is there.
-/

namespace RunnerKit.Threads.Ops

open Lib Lib.Protocol
open Jobs (Uuid)
open Delivery (Ended QueueInner Queued TaskPlace)

variable {β D B U E : Type} {settings : Settings β D B U E} {i j : ℕ} {s s' u v : Inner β D}
  {t : ThreadRef} {T : Set ThreadRef} {ε ε' α γ : Type} {X : Inner β D → Inner β D}

/-! ## What is accepted -/

/-- The item belongs to a turn of the message. -/
def OfTurn (item : Item β) (message : Uuid) : Prop :=
  item.message = message ∧ item.kind ≠ .wholeMessage

instance (item : Item β) (message : Uuid) : Decidable (OfTurn item message) :=
  inferInstanceAs (Decidable (_ ∧ _))

theorem stream_enqueued {item : Item β} {no : ℕ} {message : Uuid} :
    stream t message (s.enqueued i t item no).log =
      stream t message s.log ++ if OfTurn item message then [(item, s.now)] else [] := by
  unfold Inner.enqueued
  split
  · show stream t message ((s.log ++ [_]) ++ [_]) = _
    rw [stream_snoc, stream_snoc]
    by_cases h : OfTurn item message
    · have h' := h
      obtain ⟨hmessage, hkind⟩ := h'
      simp [Obs.drops, Obs.item?, h, hmessage, hkind]
    · have h' : ¬ (item.message = message ∧ item.kind ≠ .wholeMessage) := h
      simp [Obs.drops, Obs.item?, h, h']
  · show stream t message (s.log ++ [_]) = _
    rw [stream_snoc]
    by_cases h : OfTurn item message
    · have h' := h
      obtain ⟨hmessage, hkind⟩ := h'
      simp [Obs.drops, Obs.item?, h, hmessage, hkind]
    · have h' : ¬ (item.message = message ∧ item.kind ≠ .wholeMessage) := h
      simp [Obs.drops, Obs.item?, h, h']

/-- An item that was accepted, with its time, and the thread as it was before. -/
structure Debt (β : Type) where
  item : Item β
  time : ℕ
  turns : Table Uuid (TurnState β)
  tip : Option Uuid
  streams : Uuid → List (Item β × ℕ)

/-- The streams with the item. -/
def Debt.after (d : Debt β) (message : Uuid) : List (Item β × ℕ) :=
  d.streams message ++ if OfTurn d.item message then [(d.item, d.time)] else []

/-- The guards are held, and the memory does not have the item yet. -/
structure Owed (i : ℕ) (t : ThreadRef) (T : Set ThreadRef) (d : Debt β) (s : Inner β D) :
    Prop where
  built : s.built = true
  slots : ∀ t ∈ T, t ∈ s.slots
  order : s.order t = some i
  memLock : ∀ t', s.memLock t' = some i ↔ t' = t
  turns : (s.mem t).turns = d.turns
  tip : (s.mem t).tip = d.tip
  time : d.time ≤ s.now
  streams : ∀ message, stream t message s.log = d.after message

variable {d : Debt β}

theorem Owed.later (h : Owed i t T d s) (hr : Relies i s u) : Owed i t T d u := by
  obtain ⟨hturns, -, hstream⟩ := hr.turns t (Or.inl h.order)
  exact ⟨hr.built h.built, fun t' ht' => hr.slots t' (h.slots t' ht'),
    (hr.order t).mpr h.order, fun t' => (hr.memLock t').trans (h.memLock t'),
    hturns.trans h.turns, (hr.tip t ((h.memLock t).mpr rfl)).trans h.tip,
    le_trans h.time hr.now, fun message => (hstream message).trans (h.streams message)⟩

theorem Owed.lock (h : Owed i t T d s) : s.memLock t = some i := (h.memLock t).mpr rfl

/-- What is owed once the item is accepted. -/
def debt (s : Inner β D) (t : ThreadRef) (item : Item β) (time : ℕ) : Debt β :=
  ⟨item, time, (s.mem t).turns, (s.mem t).tip, (stream t · s.log)⟩

theorem Inside.enqueued {item : Item β} {no : ℕ} (h : Inside settings i t T s) :
    Owed i t T (debt s t item s.now) (s.enqueued i t item no) := by
  have hkept : (s.enqueued i t item no).built = s.built ∧
      (s.enqueued i t item no).slots = s.slots ∧ (s.enqueued i t item no).order = s.order ∧
      (s.enqueued i t item no).memLock = s.memLock ∧ (s.enqueued i t item no).mem = s.mem ∧
      (s.enqueued i t item no).now = s.now := by
    unfold Inner.enqueued
    split
    · exact ⟨rfl, rfl, rfl, rfl, rfl, rfl⟩
    · exact ⟨rfl, rfl, rfl, rfl, rfl, rfl⟩
  obtain ⟨hbuilt, hslots, horder, hlock, hmem, hnow⟩ := hkept
  exact ⟨hbuilt ▸ h.built, hslots ▸ h.slots, horder ▸ h.order, hlock ▸ h.memLock,
    by rw [hmem]; rfl, by rw [hmem]; rfl, le_of_eq hnow.symm, fun message => stream_enqueued⟩

/-- What `accept` leaves: an item that the memory owes, or all as it was. -/
theorem wp_accept {item : Item β} {Q : Unit → Inner β D → Prop} {R : Error → Inner β D → Prop}
    (hX : Lets settings i X) (hs : Inside settings i t T s) (hslot : t ∈ s.slots)
    (hrule : ∀ u, Later settings i s u → isKeepalive item = true →
      KeepaliveDue settings.keepaliveInterval u.log t item.message u.now
        (u.queue t).items.length)
    (hok : ∀ v time, s.now ≤ time → Owed i t T (debt s t item time) v → Q () v)
    (herr : ∀ e u, Later settings i s u → R e u) :
    (actions settings).wp i X Q R (accept settings i t item) s := by
  refine wp_bind (wp_gets fun u₁ h₁ => ?_)
  have hnext : ∀ {u}, Later settings i s u → (actions settings).wp i X Q R
      (do
        let stored ← Prog.ofExcept (item.stored settings.json t)
        append stored
        enqueue i t item : Call β D Error Unit) u := by
    intro u hu
    refine wp_bind (wp_ofExcept (fun stored _ => ?_) fun e _ => herr e u hu)
    intro u₂ h₂
    have hu₂ : Later settings i s u₂ := h₂.after hu.1
    refine ⟨hX u₂ h₂.2 (Inside.stable.calm (hs.later hu₂.1)), fun kept => ?_⟩
    refine wp_bind (wp_ofExcept (fun _ _ => ?_) fun e _ => herr e u₂ hu₂)
    -- from here on there is no await
    intro u₃ h₃
    have hu₃ : Later settings i s u₃ := h₃.after hu₂.1
    have hcount : Aside u₃ { u₃ with numbers := u₃.numbers + 1 } :=
      aside_same (fun _ h => h) rfl rfl rfl rfl rfl rfl rfl rfl rfl
    refine ⟨hcount.good_of_log h₃.2 rfl, fun u₄ h₄ => ?_⟩
    have hu₄ : Later settings i s u₄ := h₄.after (hu₃.1.trans (hcount.relies rfl))
    have hin := hs.later hu₄.1
    refine ⟨good_enqueued h₄.2 hin.order hin.lock (hu₄.1.slots t hslot) (hrule u₄ hu₄), ?_⟩
    have howed : Owed i t T (debt s t item u₄.now) (u₄.enqueued i t item (u₃.numbers + 1)) := by
      obtain ⟨hturns, -, hstream⟩ := hu₄.1.turns t (Or.inl hs.order)
      have hdebt : debt u₄ t item u₄.now = debt s t item u₄.now := by
        simp only [debt, hturns, hu₄.1.tip t hs.lock, hstream]
      exact hdebt ▸ hin.enqueued
    show (actions settings).wp i X Q R (if _ then _ else _) _
    split
    · exact hok _ _ hu₄.1.now howed
    · intro u₅ h₅
      exact ⟨aside_spawned.good_of_log h₅.2 rfl,
        hok _ _ hu₄.1.now ((howed.later h₅.1).later (aside_spawned.relies rfl))⟩
  show (actions settings).wp i X Q R (if _ then _ else _) _
  split
  · exact herr _ u₁ h₁
  · exact hnext h₁

/-! ## What is written -/

/-- What fits the log before an item is accepted. -/
structure FitsAt (lib : Library β) (turns : Table Uuid (TurnState β))
    (streams : Uuid → List (Item β × ℕ)) (now : ℕ) : Prop where
  fits : ∀ message, Fits lib (turns.lookup message) ((streams message).map Prod.fst)
  times : ∀ message, ∀ x ∈ streams message, x.2 ≤ now
  lastItem : ∀ message state, turns.lookup message = some state → state.closed = false →
    state.lastItemAt ≤ now ∧ ∀ x ∈ streams message, x.2 ≤ state.lastItemAt

theorem fitsAt_iff {lib : Library β} : MemFits lib t s ↔
    FitsAt lib (s.mem t).turns (stream t · s.log) s.now :=
  ⟨fun h => ⟨h.fits, h.times, h.lastItem⟩, fun h => ⟨h.fits, h.times, h.lastItem⟩⟩

theorem FitsAt.later {lib : Library β} {turns : Table Uuid (TurnState β)}
    {streams : Uuid → List (Item β × ℕ)} {now now' : ℕ} (h : FitsAt lib turns streams now)
    (hle : now ≤ now') : FitsAt lib turns streams now' where
  fits := h.fits
  times := fun message x hx => le_trans (h.times message x hx) hle
  lastItem := by
    intro message state hstate hopen
    obtain ⟨hlast, htimes⟩ := h.lastItem message state hstate hopen
    exact ⟨le_trans hlast hle, htimes⟩

theorem FitsAt.after_le {lib : Library β} {now : ℕ} (h : FitsAt lib d.turns d.streams now)
    (htime : d.time ≤ now) (message : Uuid) : ∀ x ∈ d.after message, x.2 ≤ now := by
  intro x hx
  rcases List.mem_append.mp hx with hx | hx
  · exact h.times message x hx
  · split at hx
    · obtain rfl := List.mem_singleton.mp hx
      exact htime
    · cases hx

/-- The turn of the message is written with the item that was accepted for it. -/
theorem FitsAt.write {lib : Library β} {now : ℕ} {state : TurnState β} {message : Uuid}
    (h : FitsAt lib d.turns d.streams now) (hof : OfTurn d.item message) (htime : d.time ≤ now)
    (hfits : Fits lib (some state) ((d.streams message).map Prod.fst ++ [d.item]))
    (hlast : state.closed = false → state.lastItemAt ≤ now ∧
      ∀ x ∈ d.after message, x.2 ≤ state.lastItemAt) :
    FitsAt lib (d.turns.insert message state) d.after now := by
  have hself : d.after message = d.streams message ++ [(d.item, d.time)] := by
    rw [Debt.after, if_pos hof]
  have hother : ∀ m, m ≠ message → d.after m = d.streams m := by
    intro m hm
    rw [Debt.after, if_neg fun hof' => hm (hof'.1.symm.trans hof.1), List.append_nil]
  refine ⟨fun m => ?_, h.after_le htime, fun m state' hstate' hopen => ?_⟩
  · by_cases hm : m = message
    · subst m
      rw [AList.lookup_insert, hself, List.map_append]
      exact hfits
    · rw [AList.lookup_insert_ne hm, hother m hm]
      exact h.fits m
  · by_cases hm : m = message
    · rw [hm, AList.lookup_insert] at hstate'
      obtain rfl := Option.some.inj hstate'
      exact hm ▸ hlast hopen
    · rw [AList.lookup_insert_ne hm] at hstate'
      rw [hother m hm]
      exact h.lastItem m state' hstate' hopen

/-- The memory is written so that it fits again. -/
theorem Owed.write (h : Owed i t T d s) (mem : Mem β) (hb : Base settings s)
    (hslot : t ∈ s.slots) (hresponses : mem.responses = (s.mem t).responses)
    (hholds : ∀ message state, d.turns.lookup message = some state →
      ∃ state', mem.turns.lookup message = some state' ∧ state'.agent = state.agent)
    (hfits : FitsAt settings.lib mem.turns d.after s.now) :
    (protocol settings).Good i s (s.setMem t mem) ∧
      Inside settings i t T (s.setMem t mem) := by
  have hself : (s.setMem t mem).mem t = mem := by simp [Inner.setMem]
  have hlog : (stream t · (s.setMem t mem).log) = d.after := funext h.streams
  refine ⟨good_setMem hb h.lock (Or.inl h.order) ?_ (Or.inl hslot) ?_, ?_⟩
  · rw [h.turns]
    exact hholds
  · rw [hresponses]
    exact hb.lanes t
  · refine ⟨⟨h.built, h.slots, h.memLock, fitsAt_iff.mpr ?_⟩, h.order⟩
    rw [hself, hlog]
    exact hfits

/-- The item is no item of a turn, and the memory fits. -/
theorem Owed.inside (h : Owed i t T d s) (hwhole : d.item.kind = .wholeMessage)
    (hfits : FitsAt settings.lib d.turns d.streams s.now) : Inside settings i t T s := by
  have hstream : (stream t · s.log) = d.streams := by
    funext message
    have hne : ¬ OfTurn d.item message := fun hof => hof.2 hwhole
    rw [h.streams, Debt.after, if_neg hne, List.append_nil]
  refine ⟨⟨h.built, h.slots, h.memLock, fitsAt_iff.mpr ?_⟩, h.order⟩
  rw [h.turns, hstream]
  exact hfits

/-- The memory fitted before the item was accepted. -/
theorem Inside.fitsAt (item : Item β) (time : ℕ) (h : Inside settings i t T s)
    (hle : s.now ≤ u.now) :
    FitsAt settings.lib (debt s t item time).turns (debt s t item time).streams u.now :=
  (fitsAt_iff.mp h.fits).later hle

/-! ## Chunks -/

theorem seqOf_ok {length seq : ℕ} {error : Error} (h : seqOf length error = .ok seq) :
    seq = length := by
  unfold seqOf at h
  split at h
  · cases h
    rfl
  · cases h

/-- A thread with a turn has a slot. -/
theorem slot_of_turn (hb : Base settings s) {message : Uuid} {state : TurnState β}
    (h : (s.mem t).turns.lookup message = some state) : t ∈ s.slots := by
  by_contra hnot
  rw [hb.slots t hnot] at h
  cases h

/-- The turn is there under its new state, and the others are as they were. -/
theorem holds_insert {turns : Table Uuid (TurnState β)} {message : Uuid}
    {old new : TurnState β} (hold : turns.lookup message = some old)
    (hagent : new.agent = old.agent) {m : Uuid} {state : TurnState β}
    (h : turns.lookup m = some state) :
    ∃ state', (turns.insert message new).lookup m = some state' ∧ state'.agent = state.agent := by
  by_cases hm : m = message
  · subst m
    rw [hold] at h
    obtain rfl := Option.some.inj h
    exact ⟨new, AList.lookup_insert turns, hagent⟩
  · exact ⟨state, by rw [AList.lookup_insert_ne hm]; exact h, rfl⟩

theorem holds_insert_new {turns : Table Uuid (TurnState β)} {message : Uuid}
    {new : TurnState β} (hnone : turns.lookup message = none) {m : Uuid} {state : TurnState β}
    (h : turns.lookup m = some state) :
    ∃ state', (turns.insert message new).lookup m = some state' ∧ state'.agent = state.agent := by
  have hm : m ≠ message := by
    rintro rfl
    rw [hnone] at h
    cases h
  exact ⟨state, by rw [AList.lookup_insert_ne hm]; exact h, rfl⟩

theorem wp_pushChunk {message : Uuid} {entries : List Uuid} {chunk : Chunk β} {id : Uuid}
    {Q : Unit → Inner β D → Prop} {R : Error → Inner β D → Prop} (hX : Lets settings i X)
    (hs : Inside settings i t T s)
    (hrule : chunk.isKeepalive = true → ∀ u, Later settings i s u →
      KeepaliveDue settings.keepaliveInterval u.log t message u.now (u.queue t).items.length)
    (hok : ∀ v, Inside settings i t T v → Q () v)
    (herr : ∀ e u, Later settings i s u → R e u) :
    (actions settings).wp i X Q R (pushChunk settings i t message entries chunk id) s := by
  refine wp_bind (wp_gets fun u₁ h₁ => ?_)
  have hin := hs.later h₁.1
  cases hheld : (u₁.mem t).turns.lookup message with
  | none => exact herr _ u₁ h₁
  | some state =>
      show (actions settings).wp i X Q R (if _ then _ else _) _
      split
      · exact herr _ u₁ h₁
      · rename_i hopen
        have hopen : state.closed = false := Bool.eq_false_iff.mpr hopen
        refine wp_bind (wp_ofExcept (fun seq hseq => ?_) fun e _ => herr e u₁ h₁)
        obtain rfl := seqOf_ok hseq
        refine wp_bind (wp_accept hX hin (slot_of_turn h₁.2 hheld) ?_ ?_ ?_)
        · exact fun u hu hkeepalive => hrule hkeepalive u (hu.after h₁.1)
        · intro v time hle howed w hw
          have howed := howed.later hw.1
          have hnew : ((w.mem t).pushed message entries chunk w.now).turns =
              (u₁.mem t).turns.insert message
                { state with
                  chunks := state.chunks ++ [chunk]
                  entries := state.entries ∪ entries.toFinset
                  lastItemAt := w.now } := by
            show Table.modify message _ (w.mem t).turns = _
            rw [howed.turns]
            exact Table.modify_of_some hheld _
          have hof : OfTurn (chunkItem t id state.agent message entries state.chunks.length chunk)
              message := ⟨rfl, fun h => by cases h⟩
          have hfit := hin.fits.fits message
          rw [hheld] at hfit
          obtain ⟨opening, rest, hitems, hopening, hrest⟩ := hfit.of_open hopen
          have hnow : u₁.now ≤ w.now := le_trans hle howed.time
          have hslot : t ∈ w.slots :=
            slot_of_turn hw.2 ((congrArg (AList.lookup message) howed.turns).trans hheld)
          have hwritten : FitsAt settings.lib ((w.mem t).pushed message entries chunk w.now).turns
              (debt u₁ t (chunkItem t id state.agent message entries state.chunks.length chunk)
                time).after w.now := by
            rw [hnew]
            refine (hin.fitsAt _ _ hnow).write hof howed.time ?_ fun _ => ⟨le_refl _, ?_⟩
            · show Fits settings.lib _ ((stream t message u₁.log).map Prod.fst ++ [_])
              rw [hitems]
              exact Fits.opened hopen hopening (hrest.snoc rfl rfl)
            · exact (hin.fitsAt _ _ hnow).after_le howed.time message
          have hholds : ∀ m st, (u₁.mem t).turns.lookup m = some st → ∃ st',
              ((w.mem t).pushed message entries chunk w.now).turns.lookup m = some st' ∧
                st'.agent = st.agent := by
            intro m st h
            rw [hnew]
            refine holds_insert hheld ?_ h
            rfl
          have hwrite := howed.write ((w.mem t).pushed message entries chunk w.now) hw.2 hslot rfl
            hholds hwritten
          exact ⟨hwrite.1, hok _ hwrite.2⟩
        · exact fun e u hu => herr e u (hu.after h₁.1)

theorem runs_pushChunk {message : Uuid} {entries : List Uuid} {chunk : Chunk β} {id : Uuid}
    (h : chunk.isKeepalive = false) :
    Runs settings i (Inside settings i t T) (pushChunk settings i t message entries chunk id) := by
  intro X s hX hs
  refine wp_pushChunk hX hs (fun hkeepalive => ?_) (fun _ hv => hv) fun _ u hu => hs.later hu.1
  exact absurd (h.symm.trans hkeepalive) Bool.false_ne_true

/-! ## Openings -/

theorem aside_spawnKeepalives {message : Uuid} : Aside s (s.spawnKeepalives t message) :=
  aside_same (fun _ h => h) rfl rfl rfl rfl rfl rfl rfl rfl rfl

/-- The start of a keepalive task changes nothing that is relied on. -/
theorem wp_startKeepalives {message : Uuid} {Q : Option ℕ → Inner β D → Prop}
    {R : ε → Inner β D → Prop} (h : ∀ task u, Relies i s u → Q task u) :
    (actions settings).wp i X Q R (startKeepalives t message : Call β D ε (Option ℕ)) s := by
  refine wp_bind (wp_gets fun u₁ h₁ => ?_)
  show (actions settings).wp i X Q R (if _ then _ else _) _
  split
  · exact h _ u₁ h₁.1
  · intro u₂ h₂
    refine ⟨aside_spawnKeepalives.good_of_log h₂.2 rfl, wp_bind (wp_gets fun u₃ h₃ => ?_)⟩
    exact h _ u₃ ((h₁.1.trans h₂.1).trans ((aside_spawnKeepalives.relies rfl).trans h₃.1))

theorem isKeepalive_command {command : Command β} {agent message : Uuid} {entries : List Uuid}
    {kind : ItemKind} :
    isKeepalive (commandItem t command agent message entries kind) = false := rfl

theorem Owed.setTip (h : Owed i t T d s) (tip : Option Uuid) :
    Owed i t T { d with tip := tip } (s.setTip t tip) := by
  have hself : (s.setTip t tip).mem t = { s.mem t with tip := tip } := by
    simp [Inner.setTip, Inner.setMem]
  exact ⟨h.built, h.slots, h.order, h.memLock, by rw [hself]; exact h.turns, by rw [hself],
    h.time, h.streams⟩

theorem runs_ensureTurn {turn : AiTurnRef} {ctx : WriteContext} (ht : t ∈ T) :
    Runs settings i (Inside settings i t T) (ensureTurn settings i t turn ctx) := by
  intro X s hX hs
  refine wp_bind (wp_gets fun u₁ h₁ => ?_)
  have hin₁ := hs.later h₁.1
  cases hheld : (u₁.mem t).turns.lookup turn.id with
  | some state =>
      show (actions settings).wp i X _ _ (if _ then _ else _) _
      split
      · exact hin₁
      · exact hin₁
  | none =>
      refine wp_bind (wp_newId fun id u₂ h₂ => wp_bind (wp_gets fun u₃ h₃ => ?_))
      have h₁₃ : Relies i u₁ u₃ := h₂.1.trans h₃.1
      have hin₃ := hin₁.later h₁₃
      refine wp_bind (wp_accept hX hin₃ (hin₃.slots t ht) ?_ ?_ fun _ u hu => hin₃.later hu.1)
      · intro u _ hkeepalive
        rw [openingItem, isKeepalive_command] at hkeepalive
        cases hkeepalive
      intro v time hle howed
      -- the tip, the time and the task, while the memory owes the opening
      refine wp_bind (wp_modify fun w₁ k₁ => ⟨good_setTip k₁.2 (howed.later k₁.1).lock, ?_⟩)
      refine wp_bind (wp_gets fun w₂ k₂ => ?_)
      have howed₂ := ((howed.later k₁.1).setTip (some turn.id)).later k₂.1
      refine wp_bind (wp_startKeepalives fun task w₃ k₃ w k => ?_)
      have howed := (howed₂.later k₃).later k.1
      have hnow : u₃.now ≤ w.now := le_trans hle howed.time
      have hturns : (u₃.mem t).turns = (u₁.mem t).turns :=
        (h₁₃.turns t (Or.inl hin₁.order)).1
      have hnone : (u₃.mem t).turns.lookup turn.id = none := by rw [hturns]; exact hheld
      have hempty : stream t turn.id u₃.log = [] := by
        have hfit := hin₃.fits.fits turn.id
        rw [hnone] at hfit
        cases h : stream t turn.id u₃.log with
        | nil => rfl
        | cons x rest =>
            rw [h] at hfit
            cases hfit
      have hnew : ((w.mem t).opened turn.id
          ⟨turn.agent, [], ∅, false, w₂.now, task⟩).turns =
          (u₃.mem t).turns.insert turn.id ⟨turn.agent, [], ∅, false, w₂.now, task⟩ := by
        show (w.mem t).turns.insert _ _ = _
        rw [howed.turns]
        rfl
      have hwritten : FitsAt settings.lib ((w.mem t).opened turn.id
          ⟨turn.agent, [], ∅, false, w₂.now, task⟩).turns
          (debt u₃ t (openingItem t id (u₃.mem t).tip turn ctx) time).after
          w.now := by
        rw [hnew]
        refine (hin₃.fitsAt _ _ hnow).write ⟨rfl, fun h => by cases h⟩ howed.time ?_ fun _ => ?_
        · show Fits settings.lib _ ((stream t turn.id u₃.log).map Prod.fst ++ [_])
          rw [hempty]
          exact Fits.opened rfl rfl rfl
        · refine ⟨le_trans k₃.now k.1.now, fun x hx => ?_⟩
          have hafter : (debt u₃ t (openingItem t id (u₃.mem t).tip turn ctx)
              time).streams turn.id = [] := hempty
          rw [Debt.after, hafter] at hx
          rcases List.mem_append.mp hx with hx | hx
          · cases hx
          · split at hx
            · obtain rfl := List.mem_singleton.mp hx
              exact howed₂.time
            · cases hx
      have hwrite := howed.write ((w.mem t).opened turn.id
        ⟨turn.agent, [], ∅, false, w₂.now, task⟩) k.2 (howed.slots t ht) rfl ?_ hwritten
      · exact hwrite
      · intro m st h
        rw [hnew]
        exact holds_insert_new hnone h

/-! ## Whole messages and closings -/

/-- The work of `add_input_turn` in the memory. -/
theorem runs_whole {turn : InputTurn β} {body : β} {ctx : WriteContext} (ht : t ∈ T) :
    Runs settings i (Inside settings i t T) (do
      let id ← newId settings
      let tip ← Prog.gets fun s => (s.mem t).tip
      accept settings i t (wholeItem t id tip turn body ctx)
      Prog.modify (Inner.setTip · t (some turn.id)) : Call β D Error Unit) := by
  refine Runs.bind (runs_newId Inside.stable) fun id => ?_
  refine Runs.bind (runs_gets Inside.stable) fun tip => ?_
  intro X s hX hs
  refine wp_bind (wp_accept hX hs (hs.slots t ht) ?_ ?_ fun _ u hu => hs.later hu.1)
  · intro u _ hkeepalive
    rw [wholeItem, isKeepalive_command] at hkeepalive
    cases hkeepalive
  · intro v time hle howed w hw
    have howed := howed.later hw.1
    refine ⟨good_setTip hw.2 howed.lock, ?_⟩
    have hfits := hs.fitsAt (wholeItem t id tip turn body ctx) time (le_trans hle howed.time)
    exact (howed.setTip (some turn.id)).inside rfl hfits

/-- What is accepted as the closing of a turn, and its state then. -/
theorem Fits.close {lib : Library β} {held : Option (TurnState β)} {items : List (Item β)}
    {agent : Uuid} {now : ℕ} {closing : Item β} (h : Fits lib held items)
    (hopen : held.any TurnState.closed = false)
    (hcloses : Closes lib ((held.map TurnState.chunks).getD []) closing) :
    Fits lib (some { held.getD (.closedBy agent now) with closed := true, keepalive := .none })
      (items ++ [closing]) := by
  cases h with
  | none => exact Fits.closedBy rfl rfl hcloses
  | opened _ hopening hchunks => exact Fits.closed rfl hopening hchunks hcloses
  | closed hclosed => simp [hclosed] at hopen
  | closedBy hclosed => simp [hclosed] at hopen

/-- The command that closes a turn seals its chunks, if it has a seal. -/
theorem closes_of_closing {lib : Library β} {chunks : List (Chunk β)} {parts : CloseParts}
    {streamSeal : Option StreamSeal} {command : Command β} {agent message : Uuid}
    {condition : Bool} (hparts : parts.streamSeal = streamSeal)
    (hseal : (if condition then (sealOf lib chunks).map some else .ok none) = .ok streamSeal)
    (hcommand : closing lib parts = .ok command) :
    Closes lib chunks (closingItem t command agent message) where
  kind := rfl
  streamSeal := by
    intro body hbody found hfound
    obtain rfl := Payload.command.inj hbody
    rw [closing_streamSeal hcommand, hparts] at hfound
    subst hfound
    split at hseal
    · cases hresult : sealOf lib chunks with
      | error e =>
          rw [hresult] at hseal
          cases hseal
      | ok sealed =>
          rw [hresult] at hseal
          cases hseal
          rfl
    · cases hseal

theorem runs_closeWork {turn : AiTurnRef} {reason : ClosureReason} {kind : ClosureKind}
    {ctx : WriteContext} (ht : t ∈ T) :
    Runs settings i (Under i t T) (closeWork settings i t turn reason kind ctx) := by
  refine runs_withMem ?_
  intro X s hX hs
  refine wp_bind (wp_gets fun u₁ h₁ => ?_)
  have hin₁ := hs.later h₁.1
  show (actions settings).wp i X _ _ (if _ then _ else _) _
  split
  · exact hin₁
  rename_i hopen
  have hopen := Bool.eq_false_iff.mpr hopen
  show (actions settings).wp i X _ _ (if _ then _ else _) _
  split
  · exact hin₁
  refine wp_bind (wp_gets fun u₂ h₂ => ?_)
  refine wp_bind (wp_ofExcept (fun streamSeal hseal => ?_) fun e _ => hin₁.later h₂.1)
  refine wp_bind (wp_newId fun id u₃ h₃ => ?_)
  have h₁₃ : Relies i u₁ u₃ := h₂.1.trans h₃.1
  have hin₃ := hin₁.later h₁₃
  refine wp_bind (wp_ofExcept (fun command hcommand => ?_) fun e _ => hin₃)
  refine wp_bind (wp_accept hX hin₃ (hin₃.slots t ht) ?_ ?_ fun _ u hu => hin₃.later hu.1)
  · intro u _ hkeepalive
    rw [closingItem, isKeepalive_command] at hkeepalive
    cases hkeepalive
  intro v time hle howed w hw
  have howed := howed.later hw.1
  have hnow : u₃.now ≤ w.now := le_trans hle howed.time
  have hturns : (u₃.mem t).turns = (u₁.mem t).turns := (h₁₃.turns t (Or.inl hin₁.order)).1
  have hnew : ((w.mem t).closed turn.id turn.agent w.now).turns =
      (u₃.mem t).turns.insert turn.id
        { ((u₃.mem t).turns.lookup turn.id).getD (.closedBy turn.agent w.now) with
          closed := true, keepalive := none } := by
    have hw' : (w.mem t).turns = (u₃.mem t).turns := howed.turns
    simp only [Mem.closed, hw']
  have hfit : Fits settings.lib ((u₃.mem t).turns.lookup turn.id)
      ((stream t turn.id u₃.log).map Prod.fst) := hin₃.fits.fits turn.id
  have hcloses : Closes settings.lib _ (closingItem t command turn.agent turn.id) :=
    closes_of_closing rfl hseal hcommand
  have hwritten : FitsAt settings.lib ((w.mem t).closed turn.id turn.agent w.now).turns
      (debt u₃ t (closingItem t command turn.agent turn.id) time).after
      w.now := by
    rw [hnew]
    refine (hin₃.fitsAt _ _ hnow).write ⟨rfl, fun h => by cases h⟩ howed.time ?_ fun h => by cases h
    refine hfit.close ?_ ?_
    · rw [hturns]
      exact hopen
    · rw [hturns]
      exact hcloses
  have hwrite := howed.write ((w.mem t).closed turn.id turn.agent w.now) hw.2 (howed.slots t ht)
    rfl ?_ hwritten
  · exact hwrite
  · intro m st h
    rw [hnew]
    cases hheld : (u₃.mem t).turns.lookup turn.id with
    | none => exact holds_insert_new hheld h
    | some state =>
        refine holds_insert hheld ?_ h
        rfl

end RunnerKit.Threads.Ops
