import RunnerKit.Threads.OpsActions

/-!
# The scopes of the guards

A scope of a guard is gone through from what holds when the guard is taken: under the order of a
thread (`Under`), under its memory (`Peek`), under both (`Inside`), or under none (`Out`). What
is said of such a scope is stable: the other calls do not take it away, and a drop may come at
any await. `Runs J p` says that `p` goes from `J` to `J`, whatever it returns; most operations are
put together from such programs. Which threads have slots is carried along.
-/

namespace RunnerKit.Threads.Ops

open Lib Lib.Protocol
open Jobs (Uuid)
open Delivery (Ended QueueInner Queued TaskPlace)
open Response (Messages ModelResponse ResponseDelta)

variable {β D B U E : Type} {settings : Settings β D B U E} {i j : ℕ} {s s' u v : Inner β D}
  {t : ThreadRef} {T : Set ThreadRef} {ε ε' α γ : Type} {X : Inner β D → Inner β D}

abbrev actions (settings : Settings β D B U E) : Actions (Inner β D) :=
  (protocol settings).actions

abbrev Later (settings : Settings β D B U E) (i : ℕ) (s u : Inner β D) : Prop :=
  (protocol settings).Later i s u

/-! ## What holds in a scope -/

/-- Is stable while the others act, and whatever is held may be given back. -/
structure Stable (settings : Settings β D B U E) (i : ℕ) (J : Inner β D → Prop) : Prop where
  later : ∀ {s u}, J s → Relies i s u → J u
  calm : ∀ {s}, J s → Calm settings i s

/-- Under no guard of a memory. -/
structure Out (i : ℕ) (T : Set ThreadRef) (s : Inner β D) : Prop where
  built : s.built = true
  slots : ∀ t ∈ T, t ∈ s.slots
  free : ∀ t, s.memLock t ≠ some i

/-- Under the order of the thread. -/
structure Under (i : ℕ) (t : ThreadRef) (T : Set ThreadRef) (s : Inner β D) : Prop
    extends Out i T s where
  order : s.order t = some i

/-- Under the memory of the thread. -/
structure Peek (settings : Settings β D B U E) (i : ℕ) (t : ThreadRef) (T : Set ThreadRef)
    (s : Inner β D) : Prop where
  built : s.built = true
  slots : ∀ t ∈ T, t ∈ s.slots
  memLock : ∀ t', s.memLock t' = some i ↔ t' = t
  fits : MemFits settings.lib t s

/-- Under the order and the memory of the thread. -/
structure Inside (settings : Settings β D B U E) (i : ℕ) (t : ThreadRef) (T : Set ThreadRef)
    (s : Inner β D) : Prop extends Peek settings i t T s where
  order : s.order t = some i

theorem Calm.later (h : Calm settings i s) (hr : Relies i s u) : Calm settings i u := by
  intro t ht
  have ht' := (hr.memLock t).mp ht
  obtain ⟨hturns, -, hstream⟩ := hr.turns t (Or.inr ht')
  exact (h t ht').congr hturns hstream hr.now

theorem Out.later (h : Out i T s) (hr : Relies i s u) : Out i T u where
  built := hr.built h.built
  slots := fun t ht => hr.slots t (h.slots t ht)
  free := fun t ht => h.free t ((hr.memLock t).mp ht)

theorem Out.stable : Stable settings i (Out (β := β) (D := D) i T) where
  later := Out.later
  calm := fun h t ht => absurd ht (h.free t)

theorem Under.later (h : Under i t T s) (hr : Relies i s u) : Under i t T u :=
  ⟨h.toOut.later hr, (hr.order t).mpr h.order⟩

theorem Under.stable : Stable settings i (Under (β := β) (D := D) i t T) where
  later := Under.later
  calm := fun h => Out.stable.calm h.toOut

theorem Peek.lock (h : Peek settings i t T s) : s.memLock t = some i := (h.memLock t).mpr rfl

theorem Peek.rests (h : Peek settings i t T s) (hr : Rests i s u) : Peek settings i t T u := by
  obtain ⟨hturns, -, hstream⟩ := hr.turns t (Or.inr h.lock)
  exact ⟨hr.built h.built, fun t' ht' => hr.slots t' (h.slots t' ht'),
    fun t' => (hr.memLock t').trans (h.memLock t'), h.fits.congr hturns hstream hr.now⟩

theorem Peek.later (h : Peek settings i t T s) (hr : Relies i s u) : Peek settings i t T u :=
  h.rests hr.toRests

theorem Peek.stable : Stable settings i (Peek settings i t T) where
  later := Peek.later
  calm := by
    intro s h t' ht'
    obtain rfl := (h.memLock t').mp ht'
    exact h.fits

theorem Inside.rests (h : Inside settings i t T s) (hr : Rests i s u) :
    Inside settings i t T u :=
  ⟨h.toPeek.rests hr, (hr.order t).mpr h.order⟩

theorem Inside.later (h : Inside settings i t T s) (hr : Relies i s u) :
    Inside settings i t T u :=
  h.rests hr.toRests

theorem Inside.stable : Stable settings i (Inside settings i t T) where
  later := Inside.later
  calm := fun h => Peek.stable.calm h.toPeek

/-! ## Giving back at an await -/

/-- Whatever is given back, nothing else happens. -/
def Lets (settings : Settings β D B U E) (i : ℕ) (X : Inner β D → Inner β D) : Prop :=
  ∀ u, Base settings u → Calm settings i u → (protocol settings).Good i u (X u)

theorem lets_id : Lets settings i id := fun _ hb _ => Good.same hb

theorem Lets.comp {d : Inner β D → Inner β D} (hX : Lets settings i X)
    (hd : Lets settings i d)
    (hcalm : ∀ u, Calm settings i u → Calm settings i (d u)) : Lets settings i (X ∘ d) := by
  intro u hb hc
  obtain ⟨hbase, hrely⟩ := hd u hb hc
  obtain ⟨hbase', hrely'⟩ := hX (d u) hbase (hcalm u hc)
  exact ⟨hbase', fun j hj => (hrely j hj).trans (hrely' j hj)⟩

theorem Lets.releaseOrder (hX : Lets settings i X) :
    Lets settings i (X ∘ (Inner.releaseOrder · i t)) := by
  refine hX.comp (fun u hb _ => good_releaseOrder hb) fun u hc => ?_
  unfold Inner.releaseOrder
  split
  · intro t' ht'
    exact (hc t' ht').congr rfl (fun _ => rfl) (le_refl _)
  · exact hc

theorem Lets.releaseMem (hX : Lets settings i X) :
    Lets settings i (X ∘ (Inner.releaseMem · i t)) := by
  refine hX.comp (fun u hb hc => good_releaseMem hb hc) fun u hc => ?_
  unfold Inner.releaseMem
  split
  · intro t' ht'
    by_cases h : t' = t
    · subst t'
      simp at ht'
    · have ht'' : u.memLock t' = some i := by simpa [h] using ht'
      exact (hc t' ht'').congr rfl (fun _ => rfl) (le_refl _)
  · exact hc

theorem releaseShared_log {c : ℕ} : (s.releaseShared i c).log = s.log := by
  unfold Inner.releaseShared
  split <;> rfl

theorem Lets.releaseShared (hX : Lets settings i X) {c : ℕ} :
    Lets settings i (X ∘ (Inner.releaseShared · i c)) := by
  refine hX.comp (fun u hb _ => aside_releaseShared.good_of_log hb releaseShared_log) ?_
  exact fun u hc => hc.later (aside_releaseShared.relies (congrArg _ releaseShared_log))

/-! ## Programs that go from a scope to the same -/

def Runs (settings : Settings β D B U E) (i : ℕ) (J : Inner β D → Prop)
    (p : Call β D ε α) : Prop :=
  ∀ {X : Inner β D → Inner β D} {s : Inner β D}, Lets settings i X → J s →
    (actions settings).wp i X (fun _ => J) (fun _ => J) p s

section Rules

variable {J : Inner β D → Prop} {p : Call β D ε α}

theorem runs_ret {a : α} : Runs settings i J (.ret a : Call β D ε α) := fun _ hs => hs

theorem runs_pure {a : α} : Runs settings i J (pure a : Call β D ε α) := fun _ hs => hs

theorem runs_fail {e : ε} : Runs settings i J (.fail e : Call β D ε α) := fun _ hs => hs

theorem Runs.bind {k : α → Call β D ε γ} (hp : Runs settings i J p)
    (hk : ∀ a, Runs settings i J (k a)) : Runs settings i J (p >>= k) :=
  fun hX hs => wp_bind (wp_mono (hp hX hs) (fun a _ ht => hk a hX ht) fun _ _ h => h)

theorem Runs.attempt (hp : Runs settings i J p) :
    Runs settings i J (p.attempt : Call β D ε' (Except ε α)) :=
  fun hX hs => wp_attempt (hp hX hs)

theorem Runs.mapError {g : ε → ε'} (hp : Runs settings i J p) :
    Runs settings i J (p.mapError g) :=
  fun hX hs => wp_mapError (hp hX hs)

theorem runs_ofExcept {x : Except ε α} :
    Runs settings i J (Prog.ofExcept x : Call β D ε α) :=
  fun _ hs => wp_ofExcept (fun _ _ => hs) fun _ _ => hs

theorem runs_gets (hJ : Stable settings i J) {g : Inner β D → α} :
    Runs settings i J (Prog.gets g : Call β D ε α) :=
  fun _ hs => wp_gets fun _ ht => hJ.later hs ht.1

theorem runs_atom (hJ : Stable settings i J) {f : Inner β D → Inner β D}
    {k : Inner β D → Call β D ε α} (hf : ∀ s, Aside s (f s)) (hlog : ∀ s, (f s).log = s.log)
    (hk : ∀ s, Runs settings i J (k s)) : Runs settings i J (.atom f k) :=
  fun hX hs t ht => ⟨(hf t).good_of_log ht.2 (hlog t),
    hk t hX (hJ.later (hJ.later hs ht.1) ((hf t).relies (congrArg _ (hlog t))))⟩

theorem runs_modify (hJ : Stable settings i J) {f : Inner β D → Inner β D}
    (hf : ∀ s, Aside s (f s)) (hlog : ∀ s, (f s).log = s.log) :
    Runs settings i J (Prog.modify f : Call β D ε Unit) :=
  runs_atom hJ hf hlog fun _ => runs_ret

theorem runs_call (hJ : Stable settings i J) {q : Ask} {k : Ask.Reply q → Call β D ε α}
    (hk : ∀ r, Runs settings i J (k r)) : Runs settings i J (.call q id k) := by
  intro X s hX hs t ht
  have hst := hJ.later hs ht.1
  exact ⟨hX t ht.2 (hJ.calm hst), fun r => hk r hX hst⟩

/-- A wait for something that only the state tells. -/
theorem runs_wait (hJ : Stable settings i J) {free : Inner β D → Bool} :
    Runs settings i J (Prog.acquire free id : Call β D ε Unit) := by
  intro X s hX hs
  refine wp_acquire (fun t ht => hX t ht.2 (hJ.calm (hJ.later hs ht.1))) fun t ht _ => ?_
  exact ⟨Good.same ht.2, hJ.later hs ht.1⟩

theorem runs_each {ι : Type} {body : ι → Call β D ε Unit} {xs : List ι}
    (hbody : ∀ x ∈ xs, Runs settings i J (body x)) : Runs settings i J (Prog.each body xs) := by
  induction xs with
  | nil => exact runs_ret
  | cons x rest ih =>
      refine Runs.bind (hbody x (by simp)) fun _ => ih fun y hy => hbody y ?_
      exact List.mem_cons_of_mem _ hy

theorem runs_contextFor (hJ : Stable settings i J) :
    Runs settings i J (contextFor t : Call β D PortError WriteContext) :=
  runs_call hJ fun _ => runs_ofExcept

theorem aside_newId : Aside s { s with ids := s.ids + 1 } :=
  aside_same (fun _ h => h) rfl rfl rfl rfl rfl rfl rfl rfl rfl

theorem wp_newId {Q : Uuid → Inner β D → Prop} {R : ε → Inner β D → Prop}
    (h : ∀ id u, Later settings i s u → Q id u) :
    (actions settings).wp i X Q R (newId settings : Call β D ε Uuid) s := by
  intro u hu
  have hgood : (protocol settings).Good i u { u with ids := u.ids + 1 } :=
    aside_newId.good_of_log hu.2 rfl
  exact ⟨hgood, h _ _ ⟨hu.1.trans (aside_newId.relies rfl), hgood.1⟩⟩

theorem runs_newId (hJ : Stable settings i J) :
    Runs settings i J (newId settings : Call β D ε Uuid) :=
  fun _ hs => wp_newId fun _ _ hu => hJ.later hs hu.1

theorem runs_setShared (hJ : Stable settings i J) {c : ℕ} {f : Inner β D → Shared D} :
    Runs settings i J (Prog.modify fun s => s.setShared c (f s) : Call β D ε Unit) :=
  runs_modify hJ (fun _ => aside_setShared) fun _ => rfl

/-- The scope of a guard of the state of a response. -/
theorem Runs.withShared (hJ : Stable settings i J) (hp : Runs settings i J p) {c : ℕ} :
    Runs settings i J (Ops.withShared i c p) := by
  intro X s hX hs
  refine wp_bind (wp_acquire (fun t ht => hX t ht.2 (hJ.calm (hJ.later hs ht.1))) ?_)
  intro t ht _
  refine ⟨aside_setShared.good_of_log ht.2 rfl, wp_guarded ?_⟩
  have ht' := hJ.later hs ht.1
  refine wp_mono (hp hX.releaseShared (hJ.later ht' (aside_setShared.relies rfl))) ?_ ?_
  all_goals
    intro a v hv u hu
    exact ⟨aside_releaseShared.good_of_log hu.2 releaseShared_log,
      hJ.later (hJ.later hv hu.1) (aside_releaseShared.relies (congrArg _ releaseShared_log))⟩

end Rules

/-! ## Scopes -/

theorem Out.takeOrder (h : Out i T s) : Under i t T (s.takeOrder i t) where
  built := h.built
  slots := h.slots
  free := h.free
  order := by simp [Inner.takeOrder]

theorem Under.releaseOrder (h : Under i t T s) : Out i T (s.releaseOrder i t) := by
  unfold Inner.releaseOrder
  split
  · exact ⟨h.built, h.slots, h.free⟩
  · exact h.toOut

theorem wp_ordered {Q : α → Inner β D → Prop} {R : ε → Inner β D → Prop} {work : Call β D ε α}
    (hX : Lets settings i X) (hs : Out i T s)
    (hwork : ∀ u, Later settings i s u → Under i t T (u.takeOrder i t) →
      (actions settings).wp i (X ∘ (Inner.releaseOrder · i t))
        (fun a v => ∀ w, Later settings i v w → Q a (w.releaseOrder i t))
        (fun e v => ∀ w, Later settings i v w → R e (w.releaseOrder i t)) work
        (u.takeOrder i t)) :
    (actions settings).wp i X Q R (ordered i t work) s := by
  refine wp_bind (wp_acquire ?_ ?_)
  · exact fun u hu => hX u hu.2 (Out.stable.calm (hs.later hu.1))
  intro u hu hfree
  have hout := hs.later hu.1
  refine ⟨good_takeOrder hu.2 hout.built hfree, wp_guarded ?_⟩
  refine wp_mono (hwork u hu hout.takeOrder) ?_ ?_
  all_goals
    intro a v hv w hw
    exact ⟨good_releaseOrder hw.2, hv w hw⟩

theorem runs_ordered {work : Call β D ε α} (h : Runs settings i (Under i t T) work) :
    Runs settings i (Out i T) (ordered i t work) := by
  intro X s hX hs
  refine wp_ordered hX hs fun u _ hunder => ?_
  refine wp_mono (h hX.releaseOrder hunder) ?_ ?_
  all_goals
    intro a v hv w hw
    exact (hv.later hw.1).releaseOrder

theorem Out.takeMem (h : Out i T s) (hb : Base settings s) (hfree : s.memFree t = true) :
    Peek settings i t T (s.takeMem i t) where
  built := h.built
  slots := h.slots
  memLock := by
    intro t'
    by_cases heq : t' = t
    · subst t'
      simp [Inner.takeMem]
    · simpa [Inner.takeMem, heq] using h.free t'
  fits := (hb.fits t (Option.isNone_iff_eq_none.mp hfree)).congr rfl (fun _ => rfl) (le_refl _)

theorem Peek.releaseMem (h : Peek settings i t T s) : Out i T (s.releaseMem i t) := by
  unfold Inner.releaseMem
  rw [if_pos h.lock]
  refine ⟨h.built, h.slots, fun t' ht' => ?_⟩
  by_cases heq : t' = t
  · subst t'
    simp at ht'
  · exact heq ((h.memLock t').mp (by simpa [heq] using ht'))

theorem Inside.releaseMem (h : Inside settings i t T s) : Under i t T (s.releaseMem i t) := by
  refine ⟨h.toPeek.releaseMem, ?_⟩
  unfold Inner.releaseMem
  rw [if_pos h.lock]
  exact h.order

theorem wp_withMem {Q : α → Inner β D → Prop} {R : ε → Inner β D → Prop} {work : Call β D ε α}
    (hX : Lets settings i X) (hs : Out i T s)
    (hwork : ∀ u, Later settings i s u → Peek settings i t T (u.takeMem i t) →
      (actions settings).wp i (X ∘ (Inner.releaseMem · i t))
        (fun a v => Peek settings i t T v ∧
          ∀ w, Later settings i v w → Q a (w.releaseMem i t))
        (fun e v => Peek settings i t T v ∧
          ∀ w, Later settings i v w → R e (w.releaseMem i t)) work
        (u.takeMem i t)) :
    (actions settings).wp i X Q R (withMem i t work) s := by
  refine wp_bind (wp_acquire ?_ ?_)
  · exact fun u hu => hX u hu.2 (Out.stable.calm (hs.later hu.1))
  intro u hu hfree
  have hout := hs.later hu.1
  refine ⟨good_takeMem hu.2 hout.built hfree, wp_guarded ?_⟩
  refine wp_mono (hwork u hu (hout.takeMem hu.2 hfree)) ?_ ?_
  all_goals
    rintro a v ⟨hpeek, hv⟩ w hw
    exact ⟨good_releaseMem hw.2 (Peek.stable.calm (hpeek.later hw.1)), hv w hw⟩

theorem runs_peek {work : Call β D ε α} (h : Runs settings i (Peek settings i t T) work) :
    Runs settings i (Out i T) (withMem i t work) := by
  intro X s hX hs
  refine wp_withMem hX hs fun u _ hpeek => ?_
  refine wp_mono (h hX.releaseMem hpeek) ?_ ?_
  all_goals
    intro a v hv
    exact ⟨hv, fun w hw => (hv.later hw.1).releaseMem⟩

theorem Under.takeMem (h : Under i t T s) (hr : Relies i s u)
    (hpeek : Peek settings i t T (u.takeMem i t)) : Inside settings i t T (u.takeMem i t) :=
  ⟨hpeek, (hr.order t).mpr h.order⟩

theorem runs_withMem {work : Call β D ε α} (h : Runs settings i (Inside settings i t T) work) :
    Runs settings i (Under i t T) (withMem i t work) := by
  intro X s hX hs
  refine wp_withMem hX hs.toOut fun u hu hpeek => ?_
  refine wp_mono (h hX.releaseMem (hs.takeMem hu.1 hpeek)) ?_ ?_
  all_goals
    intro a v hv
    exact ⟨hv.toPeek, fun w hw => (hv.later hw.1).releaseMem⟩

end RunnerKit.Threads.Ops
