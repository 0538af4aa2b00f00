import RunnerKit.RunnerTransport.ModeCalls

/-!
# The order of the modes given

The values that the feed gives follow the history of the key, in every run in
which the mode does not change between the creation of the watch and the direct
read: the read is put before what the watch has already sent, so a change between
the two is given first and what it replaced is given after it.
-/

namespace RunnerKit.RunnerTransport.Mode

open RunnerKit.Jobs RunnerKit.Lib

/-! ## What the watch has still to send -/

/-- Entries as the watch sends them, up to one that is not JSON. -/
def numbered (w : ModeWire) : ℕ → List Entry → List Item
  | _, [] => []
  | c, e :: es => if e.isJson then ⟨w.item e, c⟩ :: numbered w (c + 1) es else []

/-- What was sent and not yet received, and what is still to be sent. -/
def Sys.ahead (w : ModeWire) (s : Sys) : List Item :=
  s.receiver ++
    match s.watch with
    | .watching _ cursor => numbered w cursor (s.history.drop cursor)
    | _ => []

/-- What was given and what waits to be given. -/
def Sys.told (s : Sys) : List Item := s.given ++ s.feed.pending

/-! ## The condition -/

def isValueOf (event : ModeEvent) : ModeItem → Bool
  | .ok other => decide (other = event)
  | .error _ => false

def isError : ModeItem → Bool
  | .ok _ => false
  | .error _ => true

/-- The entries from the creation of the watch to the latest, without it. -/
def Sys.backlog (s : Sys) : List Entry :=
  match s.watch with
  | .watching start _ => (s.history.drop start).dropLast.takeWhile Entry.isJson
  | _ => []

/-- Besides the value read, its repetitions first, the backlog holds no value. -/
def unchanged (backlog : List ModeItem) : ModeItem → Bool
  | .ok event => (backlog.dropWhile (isValueOf event)).all isError
  | .error _ => true

/-- The condition on a step: the mode did not change between the creation of
the watch and the direct read. -/
def Sys.calm (w : ModeWire) (s : Sys) : Event → Bool
  | .read => unchanged (s.backlog.map w.item) (w.item s.latest)
  | _ => true

def Sys.Calm (w : ModeWire) (s : Sys) (e : Event) : Prop := s.calm w e = true

/-! ## What follows the history -/

/-- The later of two values stands at the same place of the history or behind. -/
def InOrder (a b : Item) : Prop :=
  ∀ u v, a.event = .ok u → b.event = .ok v → a.position ≤ b.position

/-- No value twice in a row. -/
def Differ (a b : Item) : Prop := ∀ v, a.event = .ok v → b.event ≠ .ok v

/-- A value is that of the entry where it stands. -/
def Placed (w : ModeWire) (history : List Entry) (item : Item) : Prop :=
  ∀ v, item.event = .ok v → ∃ entry, history[item.position]? = some entry ∧
    w.item entry = .ok v

/-- What is still to be received can be pushed without going back behind `m`. -/
def Fits : Option ModeEvent → ℕ → List Item → Prop
  | _, _, [] => True
  | last, m, item :: items =>
      match item.event with
      | .ok event =>
          if last = some event then Fits last m items
          else m ≤ item.position ∧ Fits (some event) item.position items
      | .error _ => Fits none m items

/-- The values told stand in order, and what is ahead fits to them. -/
structure Line (w : ModeWire) (history : List Entry) (told : List Item)
    (last : Option ModeEvent) (ahead : List Item) : Prop where
  placed : ∀ item ∈ told ++ ahead, Placed w history item
  order : told.Pairwise InOrder
  differ : told.IsChain Differ
  reached : ∀ item ∈ told.getLast?, ∀ v, item.event = .ok v → last = some v
  fits : ∃ m < history.length, (∀ item ∈ told, ∀ v, item.event = .ok v → item.position ≤ m) ∧
    Fits last m ahead

section Numbered

variable {w : ModeWire}

theorem numbered_append (e : Entry) : ∀ (c : ℕ) (es : List Entry),
    numbered w c (es ++ [e]) = numbered w c es ∨
      numbered w c (es ++ [e]) = numbered w c es ++ [⟨w.item e, c + es.length⟩]
  | c, [] => by
      cases h : e.isJson <;> simp [numbered, h]
  | c, x :: es => by
      cases h : x.isJson with
      | false => simp [numbered, h]
      | true =>
          rcases numbered_append e (c + 1) es with hsame | hmore
          · exact Or.inl (by simp [numbered, h, hsame])
          · refine Or.inr ?_
            simp only [numbered, h, if_true, List.cons_append, hmore, List.length_cons]
            rw [Nat.add_right_comm c 1, ← Nat.add_assoc]

theorem placed_numbered {history : List Entry} : ∀ (c : ℕ) (item : Item),
    item ∈ numbered w c (history.drop c) → Placed w history item := by
  suffices h : ∀ (es : List Entry) (c : ℕ), history.drop c = es →
      ∀ item ∈ numbered w c es, Placed w history item from
    fun c item hin => h _ c rfl item hin
  intro es
  induction es with
  | nil => simp [numbered]
  | cons e es ih =>
      intro c hdrop item hin
      have hget : history[c]? = some e := by
        rw [← List.head?_drop, hdrop]
        rfl
      have hrest : history.drop (c + 1) = es := by
        rw [← List.tail_drop, hdrop]
        rfl
      unfold numbered at hin
      split at hin
      · rcases List.mem_cons.mp hin with rfl | hin
        · exact fun v hv => ⟨e, hget, hv⟩
        · exact ih (c + 1) hrest item hin
      · cases hin

/-- What the watch sends from behind the last value on fits. -/
theorem fits_numbered : ∀ (es : List Entry) (last : Option ModeEvent) (m c : ℕ),
    m ≤ c → Fits last m (numbered w c es)
  | [], _, _, _, _ => by simp [numbered, Fits]
  | e :: es, last, m, c, hle => by
      unfold numbered
      split
      · unfold Fits
        split
        · split
          · exact fits_numbered es last m (c + 1) (by omega)
          · exact ⟨hle, fits_numbered es _ c (c + 1) (by omega)⟩
        · exact fits_numbered es none m (c + 1) (by omega)
      · simp [Fits]

/-- Unreadable entries, and then the one that was read. -/
theorem fits_errors (x : Entry) : ∀ (es : List Entry) (last : Option ModeEvent) (c : ℕ),
    ((es.takeWhile Entry.isJson).map w.item).all isError = true →
      Fits last (c + es.length) (numbered w c (es ++ [x]))
  | [], last, c, _ => fits_numbered [x] last c c (Nat.le_refl c)
  | e :: es, last, c, herrors => by
      simp only [List.cons_append, numbered]
      split
      · rename_i hjson
        simp only [List.takeWhile_cons, hjson, if_true, List.map_cons, List.all_cons,
          Bool.and_eq_true] at herrors
        have hrest := fits_errors x es none (c + 1) herrors.2
        rw [List.length_cons, show c + (es.length + 1) = c + 1 + es.length by omega]
        cases hitem : w.item e with
        | ok event =>
            rw [hitem] at herrors
            cases herrors.1
        | error error => exact hrest
      · simp [Fits]

/-- Repetitions of the value read, then unreadable entries, and then the one that
was read. -/
theorem fits_backlog (x : Entry) (event : ModeEvent) : ∀ (es : List Entry) (c : ℕ),
    unchanged ((es.takeWhile Entry.isJson).map w.item) (.ok event) = true →
      Fits (some event) (c + es.length) (numbered w c (es ++ [x]))
  | [], c, _ => fits_numbered [x] (some event) c c (Nat.le_refl c)
  | e :: es, c, hsame => by
      cases hjson : e.isJson with
      | false => simp [numbered, hjson, Fits]
      | true =>
          simp only [unchanged, List.takeWhile_cons, hjson, if_true, List.map_cons,
            List.dropWhile_cons] at hsame
          have hlength : c + (e :: es).length = c + 1 + es.length := by
            rw [List.length_cons]
            omega
          rw [hlength]
          simp only [List.cons_append, numbered, hjson, if_true]
          cases hitem : w.item e with
          | ok other =>
              rw [hitem] at hsame
              by_cases hother : other = event
              · subst hother
                simp only [isValueOf, decide_true, if_true] at hsame
                simp only [Fits, if_true]
                exact fits_backlog x other es (c + 1) hsame
              · simp [isValueOf, hother, isError] at hsame
          | error error =>
              rw [hitem] at hsame
              simp only [isValueOf, Bool.false_eq_true, if_false, List.all_cons,
                Bool.and_eq_true] at hsame
              simp only [Fits]
              exact fits_errors x es none (c + 1) hsame.2

end Numbered

/-! ## Pushing -/

section Line

variable {w : ModeWire} {history : List Entry} {told ahead : List Item}
  {last : Option ModeEvent} {item : Item}

theorem Line.append (h : Line w history told last ahead) {last' : Option ModeEvent}
    {ahead' : List Item} (hplaced : ∀ it ∈ item :: ahead', Placed w history it)
    (hdiffer : ∀ v, item.event = .ok v → last ≠ some v)
    (hlast : ∀ v, item.event = .ok v → last' = some v)
    (hfits : ∃ m < history.length, (∀ it ∈ told, ∀ v, it.event = .ok v → it.position ≤ m) ∧
      (∀ v, item.event = .ok v → m ≤ item.position ∧ item.position < history.length ∧
        Fits last' item.position ahead') ∧
      (∀ e, item.event = .error e → Fits last' m ahead')) :
    Line w history (told ++ [item]) last' ahead' := by
  obtain ⟨m, hm, hbelow, hvalue, herror⟩ := hfits
  refine ⟨?_, ?_, ?_, ?_, ?_⟩
  · intro it hin
    rw [List.append_assoc] at hin
    rcases List.mem_append.mp hin with hin | hin
    · exact h.placed it (List.mem_append_left _ hin)
    · exact hplaced it hin
  · refine List.pairwise_append.mpr ⟨h.order, List.pairwise_singleton _ _, ?_⟩
    intro a ha b hb u v hu hv
    obtain rfl := List.mem_singleton.mp hb
    exact Nat.le_trans (hbelow a ha u hu) (hvalue v hv).1
  · refine List.isChain_append.mpr ⟨h.differ, List.isChain_singleton _, ?_⟩
    intro a ha b hb v hv heq
    obtain rfl : item = b := by simpa using hb
    exact hdiffer v heq (h.reached a ha v hv)
  · intro it hit v hv
    obtain rfl : item = it := by simpa using hit
    exact hlast v hv
  · cases hevent : item.event with
    | ok event =>
        obtain ⟨hle, hlt, hfits⟩ := hvalue event hevent
        refine ⟨item.position, hlt, ?_, hfits⟩
        intro it hin v hv
        rcases List.mem_append.mp hin with hin | hin
        · exact Nat.le_trans (hbelow it hin v hv) hle
        · obtain rfl := List.mem_singleton.mp hin
          exact Nat.le_refl _
    | error error =>
        refine ⟨m, hm, ?_, herror error hevent⟩
        intro it hin v hv
        rcases List.mem_append.mp hin with hin | hin
        · exact hbelow it hin v hv
        · obtain rfl := List.mem_singleton.mp hin
          rw [hevent] at hv
          cases hv

/-- An error of the feed itself. -/
theorem Line.error (h : Line w history told last ahead) (error : Error) (position : ℕ) :
    Line w history (told ++ [⟨.error error, position⟩]) last ahead := by
  obtain ⟨m, hm, hbelow, hfits⟩ := h.fits
  refine h.append ?_ (fun v hv => by cases hv) (fun v hv => by cases hv)
    ⟨m, hm, hbelow, (fun v hv => by cases hv), fun _ _ => hfits⟩
  intro it hin
  rcases List.mem_cons.mp hin with rfl | hin
  · intro v hv
    cases hv
  · exact h.placed it (List.mem_append_right _ hin)

theorem Placed.lt (h : Placed w history item) {v : ModeEvent} (hv : item.event = .ok v) :
    item.position < history.length := by
  obtain ⟨entry, hget, -⟩ := h v hv
  exact (List.getElem?_eq_some_iff.mp hget).1

/-- The next item ahead is pushed. -/
theorem Line.push (h : Line w history told last (item :: ahead)) :
    Line w history (told ++ pushed last item) (lastAfter item) ahead := by
  obtain ⟨m, hm, hbelow, hfits⟩ := h.fits
  have hplaced : ∀ it ∈ item :: ahead, Placed w history it :=
    fun it hin => h.placed it (List.mem_append_right _ hin)
  unfold Fits at hfits
  split at hfits
  · rename_i event hevent
    split at hfits
    · rename_i hlast
      have hnone : pushed last item = [] := by simp [pushed, hevent, hlast]
      have hafter : lastAfter item = last := by simp [lastAfter, hevent, hlast]
      rw [hnone, hafter, List.append_nil]
      refine ⟨?_, h.order, h.differ, h.reached, ⟨m, hm, hbelow, hfits⟩⟩
      intro it hin
      rcases List.mem_append.mp hin with hin | hin
      · exact h.placed it (List.mem_append_left _ hin)
      · exact hplaced it (List.mem_cons_of_mem _ hin)
    · rename_i hlast
      have hone : pushed last item = [item] := by simp [pushed, hevent, hlast]
      have hafter : lastAfter item = some event := by simp [lastAfter, hevent]
      rw [hone, hafter]
      refine h.append hplaced ?_ ?_ ⟨m, hm, hbelow, ?_, ?_⟩
      · intro v hv heq
        rw [hevent] at hv
        cases hv
        exact hlast heq
      · intro v hv
        rw [hevent] at hv
        cases hv
        rfl
      · exact fun v hv => ⟨hfits.1, (hplaced item (by simp)).lt hv, hfits.2⟩
      · intro e he
        rw [hevent] at he
        cases he
  · rename_i error hevent
    have hone : pushed last item = [item] := by simp [pushed, hevent]
    have hafter : lastAfter item = none := by simp [lastAfter, hevent]
    rw [hone, hafter]
    refine h.append hplaced ?_ ?_ ⟨m, hm, hbelow, ?_, fun _ _ => hfits⟩
    · intro v hv
      rw [hevent] at hv
      cases hv
    · intro v hv
      rw [hevent] at hv
      cases hv
    · intro v hv
      rw [hevent] at hv
      cases hv

/-- All that was received is pushed. -/
theorem Line.drain : ∀ {items given : List Item} {feed : ModeFeed},
    Line w history (given ++ feed.pending) feed.last (items ++ ahead) →
      Line w history (given ++ (feed.drain items).pending) (feed.drain items).last ahead := by
  intro items
  induction items with
  | nil => exact fun h => h
  | cons item items ih =>
      intro given feed h
      have hpush := h.push
      have hfeed : feed.drain (item :: items) = (feed.push item).drain items := rfl
      rw [hfeed]
      apply ih
      rw [push_eq]
      simpa using hpush

theorem fits_append : ∀ {items : List Item} {last : Option ModeEvent} {m : ℕ},
    Fits last m items → m ≤ item.position →
      (∀ it ∈ items, ∀ v, it.event = .ok v → it.position ≤ item.position) →
        Fits last m (items ++ [item])
  | [], last, m, _, hm, _ => by
      simp only [List.nil_append, Fits]
      split
      · split
        · trivial
        · exact ⟨hm, trivial⟩
      · trivial
  | it :: items, last, m, h, hm, hbelow => by
      have hrest : ∀ other ∈ items, ∀ v, other.event = .ok v → other.position ≤ item.position :=
        fun other hin => hbelow other (List.mem_cons_of_mem _ hin)
      cases hevent : it.event with
      | ok event =>
          simp only [List.cons_append, Fits, hevent] at h ⊢
          by_cases hlast : last = some event
          · rw [if_pos hlast] at h ⊢
            exact fits_append h hm hrest
          · rw [if_neg hlast] at h ⊢
            exact ⟨h.1, fits_append h.2 (hbelow it (by simp) event hevent) hrest⟩
      | error error =>
          simp only [List.cons_append, Fits, hevent] at h ⊢
          exact fits_append h hm hrest

theorem Placed.grow (h : Placed w history item) (e : Entry) :
    Placed w (history ++ [e]) item := by
  intro v hv
  obtain ⟨entry, hget, hitem⟩ := h v hv
  have hlt := (List.getElem?_eq_some_iff.mp hget).1
  exact ⟨entry, by rw [List.getElem?_append_left hlt]; exact hget, hitem⟩

/-- A write, with what the watch will send of it. -/
theorem Line.write (h : Line w history told last ahead) (e : Entry) :
    Line w (history ++ [e]) told last ahead ∧
      Line w (history ++ [e]) told last (ahead ++ [⟨w.item e, history.length⟩]) := by
  obtain ⟨m, hm, hbelow, hfits⟩ := h.fits
  have hlength : m < (history ++ [e]).length := by
    rw [List.length_append]
    omega
  have hplaced : ∀ it ∈ told ++ ahead, Placed w (history ++ [e]) it :=
    fun it hin => (h.placed it hin).grow e
  constructor
  · exact ⟨hplaced, h.order, h.differ, h.reached, m, hlength, hbelow, hfits⟩
  · refine ⟨?_, h.order, h.differ, h.reached, m, hlength, hbelow, ?_⟩
    · intro it hin
      rw [← List.append_assoc] at hin
      rcases List.mem_append.mp hin with hin | hin
      · exact hplaced it hin
      · obtain rfl := List.mem_singleton.mp hin
        exact fun v hv => ⟨e, by simp, hv⟩
    · refine fits_append hfits (Nat.le_of_lt hm) fun it hin v hv => ?_
      exact Nat.le_of_lt ((h.placed it (List.mem_append_right _ hin)).lt hv)

/-- What will never be received is forgotten. -/
theorem Line.forget {more : List Item} (h : Line w history told last (ahead ++ more))
    (hnone : ahead = []) : Line w history told last [] := by
  subst hnone
  obtain ⟨m, hm, hbelow, -⟩ := h.fits
  refine ⟨?_, h.order, h.differ, h.reached, m, hm, hbelow, trivial⟩
  intro it hin
  rw [List.append_nil] at hin
  exact h.placed it (List.mem_append_left _ hin)

end Line

/-! ## The invariant -/

structure OrderInv (w : ModeWire) (s : Sys) : Prop where
  line : Line w s.history s.told s.feed.last (s.ahead w)
  cursor : ∀ start cursor, s.watch = .watching start cursor →
    start ≤ cursor ∧ cursor ≤ s.history.length
  unborn : s.watch = .unborn → s.receiver = []
  /-- Before the direct read nothing of the watch is received. -/
  unread : s.feed.started = false → (∀ outcome, s.watch ≠ .over outcome) →
    (∀ item ∈ s.told, isError item.event = true) ∧ s.feed.last = none ∧
      ∀ start cursor, s.watch = .watching start cursor →
        ∃ sent, s.history.drop start = sent ++ s.history.drop cursor ∧
          ∀ es, numbered w start (sent ++ es) = s.receiver ++ numbered w cursor es

section Steps

variable {w : ModeWire} {s s' : Sys}

theorem orderInv_init (w : ModeWire) (past : List Entry) : OrderInv w (Sys.init past) := by
  refine ⟨⟨?_, .nil, .nil, ?_, ⟨0, by simp [Sys.init], ?_, trivial⟩⟩, ?_, ?_, ?_⟩
  · simp [Sys.init, Sys.told, Sys.ahead, ModeFeed.init]
  · simp [Sys.init, Sys.told, ModeFeed.init]
  · simp [Sys.init, Sys.told, ModeFeed.init]
  · simp [Sys.init]
  · simp [Sys.init]
  · simp [Sys.init, Sys.told, ModeFeed.init]

/-- Nothing is told, or one error. -/
structure Quiet (s s' : Sys) : Prop where
  history : s'.history = s.history
  watch : s'.watch = s.watch
  receiver : s'.receiver = s.receiver
  last : s'.feed.last = s.feed.last
  started : s'.feed.started = s.feed.started
  told : s'.told = s.told ∨ ∃ error position, s'.told = s.told ++ [⟨.error error, position⟩]

theorem Quiet.refl (s : Sys) : Quiet s s := ⟨rfl, rfl, rfl, rfl, rfl, Or.inl rfl⟩

theorem OrderInv.quiet (h : OrderInv w s) (hq : Quiet s s') : OrderInv w s' := by
  have hahead : s'.ahead w = s.ahead w := by
    simp only [Sys.ahead, hq.history, hq.watch, hq.receiver]
  constructor
  · rw [hq.history, hq.last, hahead]
    rcases hq.told with htold | ⟨error, position, htold⟩
    · rw [htold]
      exact h.line
    · rw [htold]
      exact h.line.error error position
  · rw [hq.history, hq.watch]
    exact h.cursor
  · rw [hq.watch, hq.receiver]
    exact h.unborn
  · rw [hq.history, hq.watch, hq.receiver, hq.last, hq.started]
    intro hstarted hwatch
    obtain ⟨herrors, hrest⟩ := h.unread hstarted hwatch
    refine ⟨?_, hrest⟩
    rcases hq.told with htold | ⟨error, position, htold⟩
    · rw [htold]
      exact herrors
    · rw [htold]
      intro item hin
      rcases List.mem_append.mp hin with hin | hin
      · exact herrors item hin
      · obtain rfl := List.mem_singleton.mp hin
        rfl

theorem quiet_give_error (s : Sys) (error : Error) (position : ℕ)
    (hpending : s.feed.pending = []) : Quiet s (s.give ⟨.error error, position⟩) := by
  refine ⟨rfl, rfl, rfl, rfl, rfl, Or.inr ⟨error, position, ?_⟩⟩
  simp [Sys.told, Sys.give, hpending]

theorem quiet_loop (s : Sys) : Quiet s s.loop := by
  unfold Sys.loop
  split
  · rename_i item rest hpending
    refine ⟨rfl, rfl, rfl, rfl, rfl, Or.inl ?_⟩
    simp [Sys.told, Sys.give, hpending]
  · rename_i hpending
    split
    · exact quiet_give_error s _ _ hpending
    · split
      · exact ⟨rfl, rfl, rfl, rfl, rfl, Or.inl rfl⟩
      · exact ⟨rfl, rfl, rfl, rfl, rfl, Or.inl rfl⟩

theorem quiet_endWith (s : Sys) (error : Error) : Quiet s (s.endWith error) :=
  ⟨rfl, rfl, rfl, rfl, rfl, Or.inl rfl⟩

theorem quiet_pushBack (s : Sys) (error : Error) : Quiet s (s.pushBack error) :=
  ⟨rfl, rfl, rfl, rfl, rfl, Or.inr ⟨error, s.here, by simp [Sys.told, Sys.pushBack]⟩⟩

theorem OrderInv.write (h : OrderInv w s) (e : Entry) :
    OrderInv w { s with history := s.history ++ [e] } := by
  have hdrop : ∀ {start cursor}, s.watch = .watching start cursor →
      (s.history ++ [e]).drop cursor = s.history.drop cursor ++ [e] :=
    fun hwatch => List.drop_append_of_le_length (h.cursor _ _ hwatch).2
  obtain ⟨hsame, hmore⟩ := h.line.write e
  constructor
  · show Line w (s.history ++ [e]) s.told s.feed.last _
    cases hwatch : s.watch with
    | unborn => simpa [Sys.ahead, hwatch] using hsame
    | «over» outcome => simpa [Sys.ahead, hwatch] using hsame
    | watching start cursor =>
        have hle := (h.cursor _ _ hwatch).2
        simp only [Sys.ahead, hwatch] at hsame hmore ⊢
        rw [hdrop hwatch]
        rcases numbered_append e cursor (s.history.drop cursor) with heq | heq
        · rw [heq]
          exact hsame
        · rw [heq, List.length_drop, Nat.add_sub_cancel' hle, ← List.append_assoc]
          exact hmore
  · intro start cursor hwatch
    obtain ⟨hstart, hle⟩ := h.cursor start cursor hwatch
    refine ⟨hstart, ?_⟩
    show cursor ≤ (s.history ++ [e]).length
    rw [List.length_append]
    omega
  · exact h.unborn
  · intro hstarted hwatch
    obtain ⟨herrors, hlast, hsent⟩ := h.unread hstarted hwatch
    refine ⟨herrors, hlast, fun start cursor hw => ?_⟩
    obtain ⟨sent, hdropped, hnumbered⟩ := hsent start cursor hw
    refine ⟨sent, ?_, hnumbered⟩
    have hle := Nat.le_trans (h.cursor start cursor hw).1 (h.cursor start cursor hw).2
    show (s.history ++ [e]).drop start = sent ++ (s.history ++ [e]).drop cursor
    rw [List.drop_append_of_le_length hle, hdropped, hdrop hw, List.append_assoc]

theorem firstTold_bounds (hlength : 0 < s.history.length) (marker : Bool) :
    s.here ≤ s.firstTold marker ∧ s.firstTold marker ≤ s.history.length := by
  unfold Sys.firstTold Sys.here
  split
  · split <;> omega
  · omega

theorem OrderInv.create (h : OrderInv w s) (hwatch : s.watch = .unborn) (marker : Bool) :
    OrderInv w (s.create marker) := by
  obtain ⟨m, hm, hbelow, -⟩ := h.line.fits
  obtain ⟨hhere, hle⟩ := firstTold_bounds (s := s) (by omega) marker
  have hreceiver := h.unborn hwatch
  have hahead : (s.create marker).ahead w =
      numbered w (s.firstTold marker) (s.history.drop (s.firstTold marker)) := by
    simp [Sys.ahead, Sys.create, hreceiver]
  constructor
  · rw [hahead]
    refine ⟨?_, h.line.order, h.line.differ, h.line.reached, m, hm, hbelow, ?_⟩
    · intro item hin
      rcases List.mem_append.mp hin with hin | hin
      · exact h.line.placed item (List.mem_append_left _ hin)
      · exact placed_numbered _ item hin
    · apply fits_numbered
      unfold Sys.here at hhere
      omega
  · intro start cursor heq
    cases heq
    exact ⟨Nat.le_refl _, hle⟩
  · intro heq
    cases heq
  · intro hstarted _
    obtain ⟨herrors, hlast, -⟩ := h.unread hstarted (by rw [hwatch]; simp)
    refine ⟨herrors, hlast, fun start cursor heq => ?_⟩
    cases heq
    exact ⟨[], rfl, fun es => by simp [Sys.create, hreceiver]⟩

theorem OrderInv.deliver (h : OrderInv w s) {start cursor : ℕ} {entry : Entry}
    (hwatch : s.watch = .watching start cursor) (hget : s.history[cursor]? = some entry)
    (hjson : entry.isJson = true) :
    OrderInv w { s with
      watch := .watching start (cursor + 1)
      receiver := s.receiver ++ [⟨w.item entry, cursor⟩] } := by
  have hlt := (List.getElem?_eq_some_iff.mp hget).1
  have hdrop : s.history.drop cursor = entry :: s.history.drop (cursor + 1) := by
    rw [List.drop_eq_getElem_cons hlt, (List.getElem?_eq_some_iff.mp hget).2]
  have hnumbered : ∀ es, numbered w cursor (entry :: es) =
      ⟨w.item entry, cursor⟩ :: numbered w (cursor + 1) es := by
    intro es
    simp [numbered, hjson]
  constructor
  · have hline := h.line
    simp only [Sys.ahead, hwatch, hdrop, hnumbered] at hline
    simpa [Sys.ahead, Sys.told] using hline
  · intro start' cursor' heq
    cases heq
    obtain ⟨hstart, -⟩ := h.cursor start cursor hwatch
    exact ⟨Nat.le_succ_of_le hstart, hlt⟩
  · intro heq
    cases heq
  · intro hstarted _
    obtain ⟨herrors, hlast, hsent⟩ := h.unread hstarted (by rw [hwatch]; simp)
    refine ⟨herrors, hlast, fun start' cursor' heq => ?_⟩
    cases heq
    obtain ⟨sent, hdropped, hall⟩ := hsent start cursor hwatch
    refine ⟨sent ++ [entry], ?_, fun es => ?_⟩
    · rw [hdropped, hdrop]
      simp
    · have heq := hall (entry :: es)
      rw [hnumbered] at heq
      simpa using heq

/-- The watch is over: what it has sent is pushed. -/
theorem OrderInv.drained (h : OrderInv w s) (outcome : Outcome) :
    OrderInv w (s.drained outcome) := by
  constructor
  · have hdrain : Line w s.history (s.given ++ (s.feed.drain s.receiver).pending)
        (s.feed.drain s.receiver).last [] := by
      obtain ⟨m, hm, hbelow, hfits⟩ := h.line.drain.fits
      refine ⟨?_, h.line.drain.order, h.line.drain.differ, h.line.drain.reached, m, hm,
        hbelow, trivial⟩
      intro item hin
      rw [List.append_nil] at hin
      exact h.line.drain.placed item (List.mem_append_left _ hin)
    simpa [Sys.ahead, Sys.drained, Sys.told] using hdrain
  · intro start cursor heq
    cases heq
  · intro heq
    cases heq
  · intro _ hover
    exact absurd rfl (hover outcome)

theorem OrderInv.call (h : OrderInv w s) (call : Option Await) :
    OrderInv w { s with call := call } :=
  h.quiet ⟨rfl, rfl, rfl, rfl, rfl, Or.inl rfl⟩

theorem OrderInv.loop (h : OrderInv w s) : OrderInv w s.loop := h.quiet (quiet_loop s)

theorem OrderInv.endWith (h : OrderInv w s) (error : Error) : OrderInv w (s.endWith error) :=
  h.quiet (quiet_endWith s error)

theorem OrderInv.watchEnded (h : OrderInv w s) (outcome : Outcome) :
    OrderInv w (s.watchEnded outcome) := by
  have hdrained := h.drained outcome
  cases outcome with
  | done => exact (hdrained.endWith _).loop
  | sinkClosed => exact (hdrained.endWith _).loop
  | fabric error =>
      unfold Sys.watchEnded
      dsimp only
      split
      · exact ((hdrained.quiet (quiet_pushBack _ _)).endWith _).loop
      · exact hdrained.call _

theorem OrderInv.recv (h : OrderInv w s) {item : Item} {rest : List Item}
    (hreceiver : s.receiver = item :: rest)
    (hstarted : s.feed.started = true) :
    OrderInv w { s with receiver := rest, feed := s.feed.push item } := by
  constructor
  · have hline := h.line
    simp only [Sys.ahead, hreceiver, List.cons_append] at hline
    have hpush := hline.push
    simp only [Sys.told, Sys.ahead, push_eq]
    simpa [Sys.told] using hpush
  · exact h.cursor
  · intro hwatch
    rw [h.unborn hwatch] at hreceiver
    cases hreceiver
  · intro hnot
    rw [push_eq] at hnot
    simp [hstarted] at hnot

/-- The direct read, when the mode did not change since the creation of the
watch. -/
theorem OrderInv.initial (h : OrderInv w s) {event : ModeItem}
    (hstarted : s.feed.started = false) (hover : ∀ outcome, s.watch ≠ .over outcome)
    (hevent : ∀ v, event = .ok v → w.item s.latest = .ok v)
    (hcalm : unchanged (s.backlog.map w.item) event = true) :
    OrderInv w { s with feed := { s.feed with started := true }.push ⟨event, s.here⟩ } := by
  obtain ⟨herrors, hlast, hsent⟩ := h.unread hstarted hover
  obtain ⟨m, hm, -, -⟩ := h.line.fits
  have hpos : 0 < s.history.length := by omega
  have hhere : s.here < s.history.length := by
    unfold Sys.here
    omega
  -- what is ahead are the entries since the creation of the watch
  have hahead : ∀ start cursor, s.watch = .watching start cursor →
      s.ahead w = numbered w start (s.history.drop start) := by
    intro start cursor hwatch
    obtain ⟨sent, hdropped, hall⟩ := hsent start cursor hwatch
    rw [hdropped, hall, Sys.ahead, hwatch]
  have hnone : s.watch = .unborn → s.ahead w = [] := by
    intro hwatch
    simp [Sys.ahead, hwatch, h.unborn hwatch]
  have hvalue : ∀ v, event = .ok v → Fits (some v) s.here (s.ahead w) := by
    intro v hv
    cases hwatch : s.watch with
    | unborn =>
        rw [hnone hwatch]
        trivial
    | «over» outcome => exact absurd hwatch (hover outcome)
    | watching start cursor =>
        rw [hahead start cursor hwatch]
        rcases List.eq_nil_or_concat (s.history.drop start) with hnil | ⟨es, x, hes⟩
        · rw [hnil]
          trivial
        · rw [List.concat_eq_append] at hes
          have hlength := congrArg List.length hes
          rw [List.length_drop, List.length_append, List.length_singleton] at hlength
          have hcut : s.here = start + es.length := by
            unfold Sys.here
            omega
          rw [hes, hcut]
          apply fits_backlog
          rw [← hv]
          simpa [Sys.backlog, hwatch, hes] using hcalm
  have herror : Fits none 0 (s.ahead w) := by
    cases hwatch : s.watch with
    | unborn =>
        rw [hnone hwatch]
        trivial
    | «over» outcome => exact absurd hwatch (hover outcome)
    | watching start cursor =>
        rw [hahead start cursor hwatch]
        exact fits_numbered _ _ _ _ (Nat.zero_le _)
  have hplaced : Placed w s.history ⟨event, s.here⟩ := by
    intro v hv
    refine ⟨s.latest, ?_, hevent v hv⟩
    show s.history[s.here]? = _
    unfold Sys.latest Sys.here
    rw [List.getLastD_eq_getLast?, List.getLast?_eq_getElem?]
    rw [List.getElem?_eq_getElem (by omega)]
    rfl
  have hpushed : pushed none ⟨event, s.here⟩ = [⟨event, s.here⟩] := by
    cases event <;> simp [pushed]
  constructor
  · have hline : Line w s.history (s.told ++ [⟨event, s.here⟩]) (lastAfter ⟨event, s.here⟩)
        (s.ahead w) := by
      refine h.line.append ?_ ?_ ?_ ⟨0, hpos, ?_, ?_, ?_⟩
      · intro it hin
        rcases List.mem_cons.mp hin with rfl | hin
        · exact hplaced
        · exact h.line.placed it (List.mem_append_right _ hin)
      · intro v _
        rw [hlast]
        simp
      · intro v hv
        simp [lastAfter, show event = .ok v from hv]
      · intro it hin v hv
        have herr := herrors it hin
        rw [hv] at herr
        cases herr
      · intro v hv
        have hafter : lastAfter ⟨event, s.here⟩ = some v := by
          simp [lastAfter, show event = .ok v from hv]
        rw [hafter]
        exact ⟨Nat.zero_le _, hhere, hvalue v hv⟩
      · intro e he
        have hafter : lastAfter ⟨event, s.here⟩ = none := by
          simp [lastAfter, show event = .error e from he]
        rw [hafter]
        exact herror
    simp only [Sys.told, push_eq, hlast, hpushed]
    simpa [Sys.told, Sys.ahead] using hline
  · exact h.cursor
  · exact h.unborn
  · intro hnot
    rw [push_eq] at hnot
    cases hnot

theorem OrderInv.step (h : OrderInv w s) (hcall : CallInv s) {e : Event}
    (hcalm : s.Calm w e) (hs : step w s e = some s') : OrderInv w s' := by
  cases e with
  | write entry =>
      cases hs
      exact h.write entry
  | created marker =>
      simp only [Mode.step] at hs
      split at hs <;> cases hs
      exact h.create ‹_› marker
  | deliver =>
      simp only [Mode.step] at hs
      split at hs
      · split at hs
        · split at hs <;> cases hs
          exact h.deliver ‹_› ‹_› ‹_›
        · cases hs
      · cases hs
  | next =>
      simp only [Mode.step] at hs
      split at hs <;> cases hs
      unfold Sys.next
      split
      · exact h.quiet (quiet_give_error s _ _ (hcall.kept _ ‹_›).2)
      · exact h.loop
  | pollPending =>
      simp only [Mode.step] at hs
      split at hs <;> cases hs
      exact h.call _
  | watchReady outcome =>
      simp only [Mode.step] at hs
      split at hs <;> cases hs
      · exact h.watchEnded outcome
      · exact h.watchEnded outcome
  | pollOver =>
      simp only [Mode.step] at hs
      split at hs <;> cases hs
      · exact h.quiet ⟨rfl, rfl, rfl, rfl, rfl, Or.inl rfl⟩
      · exact h.quiet ⟨rfl, rfl, rfl, rfl, rfl, Or.inl rfl⟩
  | read =>
      simp only [Mode.step] at hs
      split at hs
      · rename_i hreading
        obtain ⟨hstarted, hover⟩ := hcall.reading hreading
        split at hs <;> cases hs
        exact (h.initial hstarted hover (fun v hv => hv) hcalm).loop
      · cases hs
  | readFailed error =>
      simp only [Mode.step] at hs
      split at hs
      · rename_i hreading
        obtain ⟨hstarted, hover⟩ := hcall.reading hreading
        split at hs <;> cases hs
        · exact (h.initial hstarted hover (fun v hv => by cases hv) rfl).loop
        · exact (h.endWith _).loop
      · cases hs
  | recv =>
      simp only [Mode.step] at hs
      split at hs <;> cases hs
      rename_i hselecting hreceiver
      exact (h.recv hreceiver (hcall.selecting hselecting)).loop
  | closed =>
      simp only [Mode.step] at hs
      split at hs <;> cases hs
      exact (h.endWith _).loop
  | reopened missing =>
      simp only [Mode.step] at hs
      split at hs <;> cases hs
      exact (h.endWith _).loop
  | drop =>
      simp only [Mode.step] at hs
      split at hs <;> cases hs
      exact h.call none

theorem orderInv {past : List Entry} (h : (machine w past).Reach (Sys.Calm w) s) :
    OrderInv w s :=
  Machine.Reach.invariant (P := OrderInv w) (orderInv_init w past)
    (fun hr hp hc hs => hp.step (callInv hr) hc hs) h

end Steps

/-! ## The values given -/

structure FollowsHistory (w : ModeWire) (s : Sys) : Prop where
  placed : ∀ item ∈ s.given, Placed w s.history item
  order : s.given.Pairwise InOrder
  differ : s.given.IsChain Differ

theorem modes_follow {w : ModeWire} {past : List Entry} {s : Sys}
    (h : (machine w past).Reach (Sys.Calm w) s) : FollowsHistory w s := by
  have hline := (orderInv h).line
  refine ⟨fun item hin => ?_, ?_, ?_⟩
  · apply hline.placed item
    exact List.mem_append_left _ (List.mem_append_left _ hin)
  · exact (List.pairwise_append.mp hline.order).1
  · exact (List.isChain_append.mp hline.differ).1

def sampleMode : ModeWire where
  fromValue value :=
    match value with
    | .string "PUSH" => .ok .push
    | .string "CLAIM" => .ok .claim
    | _ => .error ⟨.data, 1, 1⟩
  bucket := "published-language"

/-- The mode is read, the watch repeats it, and then it changes. -/
def changedLater : List Event :=
  [.next, .pollPending, .created true, .read, .next, .deliver, .recv,
    .write (.put (.string "PUSH")), .deliver, .recv]

theorem modes_follow_changedLater :
    ∃ s, (machine sampleMode [.put (.string "CLAIM")]).run changedLater = some s ∧
      s.given.map (fun item => item.event.toOption) =
        [some (.mode .claim), some (.mode .push)] ∧
      FollowsHistory sampleMode s := by
  refine ⟨_, rfl, rfl, ?_⟩
  have hreach : (machine sampleMode [.put (.string "CLAIM")]).Reach
      (fun s e => s.calm sampleMode e = true) _ := Machine.reach_of_checked changedLater rfl
  exact modes_follow hreach

/-- The mode changes between the creation of the watch and the direct read. -/
def changedBetween : List Event :=
  [.next, .pollPending, .created true, .write (.put (.string "PUSH")), .read, .next,
    .deliver, .recv]

/-- The older value is given after the newer one. -/
theorem mode_goes_back : ¬ ∀ (w : ModeWire) (past : List Entry) (s : Sys),
    (machine w past).Reachable s → FollowsHistory w s := by
  intro h
  have hrun : ∃ s, (machine sampleMode [.put (.string "CLAIM")]).run changedBetween = some s ∧
      s.given = [⟨.ok (.mode .push), 2⟩, ⟨.ok (.mode .claim), 1⟩] := ⟨_, rfl, rfl⟩
  obtain ⟨s, hs, hgiven⟩ := hrun
  have horder := (h sampleMode _ s (Machine.reachable_of_run _ hs)).order
  rw [hgiven, List.pairwise_pair] at horder
  exact absurd (horder _ _ rfl rfl) (by decide)

end RunnerKit.RunnerTransport.Mode
