import RunnerKit.Lib.Prog

/-!
# Preconditions of calls with awaits

A protocol is an invariant of the shared state and, for each call, what it may
rely on while the others take steps. `wp` is what must hold of the state for a
call to keep the protocol from here on: each of its actions keeps the invariant
and what the others rely on, whatever they have done before it, and dropping
it at an await does so too. Inside a guard's scope a dropped future also runs
the destructors of the guards around it: that is the argument `X`.

`Actions` says more of the actions of a call: that each of them is one of a
relation, which then keeps the protocol by itself. What can be said of the
steps of a whole system is said of that relation.

`World.reachable_inv` is the rule for whole systems: if every call that is
started keeps the protocol, so does every run. `World.Sound.run` is the rule
for what a run does between two of its states.
-/

namespace RunnerKit.Lib

structure Protocol (σ : Type) where
  inv : σ → Prop
  rely : ℕ → σ → σ → Prop
  refl : ∀ i s, rely i s s
  trans : ∀ {i s t u}, rely i s t → rely i t u → rely i s u

namespace Protocol

variable {σ : Type} (P : Protocol σ)

/-- A step that keeps the invariant and all that calls other than `i` rely on. -/
def Good (i : ℕ) (s s' : σ) : Prop := P.inv s' ∧ ∀ j, j ≠ i → P.rely j s s'

/-- The others have come to `t`. -/
def Later (i : ℕ) (s t : σ) : Prop := P.rely i s t ∧ P.inv t

variable {P} {i : ℕ} {s t : σ}

theorem Later.refl (h : P.inv s) : P.Later i s s := ⟨P.refl i s, h⟩

theorem Later.after {u : σ} (h : P.rely i s t) (ht : P.Later i t u) : P.Later i s u :=
  ⟨P.trans h ht.1, ht.2⟩

theorem Good.same (h : P.inv s) : P.Good i s s := ⟨h, fun j _ => P.refl j s⟩

end Protocol

/-- A protocol, and what each action of a call is. -/
structure Actions (σ : Type) extends Protocol σ where
  acts : ℕ → σ → σ → Prop
  idle : ∀ {i s}, inv s → acts i s s
  good : ∀ {i s s'}, inv s → acts i s s' → toProtocol.Good i s s'

/-- Any action that keeps the protocol. -/
@[reducible] def Protocol.actions {σ : Type} (P : Protocol σ) : Actions σ where
  toProtocol := P
  acts := P.Good
  idle := Protocol.Good.same
  good := fun _ h => h

/-! ## Preconditions -/

def Actions.wp {σ κ : Type} {ρ : κ → Type} {ε α : Type} (A : Actions σ) (i : ℕ)
    (X : σ → σ) (Q : α → σ → Prop) (E : ε → σ → Prop) : Prog σ ρ ε α → σ → Prop
  | .ret a, s => Q a s
  | .fail e, s => E e s
  | .atom f k, s => ∀ t, A.Later i s t → A.acts i t (f t) ∧ A.wp i X Q E (k t) (f t)
  | .lock free take dropped k, s => ∀ t, A.Later i s t →
      A.acts i t (X (dropped t)) ∧
        (free t = true → A.acts i t (take t) ∧ A.wp i X Q E k (take t))
  | .call _ dropped k, s => ∀ t, A.Later i s t →
      A.acts i t (X (dropped t)) ∧ ∀ r, A.wp i X Q E (k r) t

namespace Protocol

variable {σ κ : Type} {ρ : κ → Type} {ε ε' α γ : Type}

abbrev wp (P : Protocol σ) (i : ℕ) (X : σ → σ) (Q : α → σ → Prop) (E : ε → σ → Prop)
    (p : Prog σ ρ ε α) (s : σ) : Prop :=
  P.actions.wp i X Q E p s

variable {A : Actions σ} {i : ℕ} {X : σ → σ} {Q Q' : α → σ → Prop} {E E' : ε → σ → Prop}
  {p : Prog σ ρ ε α} {s t : σ}

theorem wp_mono : ∀ {p : Prog σ ρ ε α} {s : σ}, A.wp i X Q E p s →
    (∀ a t, Q a t → Q' a t) → (∀ e t, E e t → E' e t) → A.wp i X Q' E' p s := by
  intro p
  induction p with
  | ret a => exact fun h hq _ => hq a _ h
  | fail e => exact fun h _ he => he e _ h
  | atom f k ih => exact fun h hq he t ht => ⟨(h t ht).1, ih t (h t ht).2 hq he⟩
  | lock free take dropped k ih =>
      intro s h hq he t ht
      refine ⟨(h t ht).1, fun hfree => ?_⟩
      obtain ⟨hgood, hk⟩ := (h t ht).2 hfree
      exact ⟨hgood, ih hk hq he⟩
  | call q dropped k ih =>
      exact fun h hq he t ht => ⟨(h t ht).1, fun r => ih r ((h t ht).2 r) hq he⟩

/-- The steps of the others do not take the precondition away. -/
theorem wp_stable (hq : ∀ a t u, A.rely i t u → Q a t → Q a u)
    (he : ∀ e t u, A.rely i t u → E e t → E e u) (h : A.wp i X Q E p s)
    (hrely : A.rely i s t) : A.wp i X Q E p t := by
  cases p with
  | ret a => exact hq a s t hrely h
  | fail e => exact he e s t hrely h
  | atom f k => exact fun u hu => h u (.after hrely hu)
  | lock free take dropped k => exact fun u hu => h u (.after hrely hu)
  | call q dropped k => exact fun u hu => h u (.after hrely hu)

theorem wp_bind {k : α → Prog σ ρ ε γ} {R : γ → σ → Prop} :
    ∀ {p : Prog σ ρ ε α} {s : σ},
      A.wp i X (fun a t => A.wp i X R E (k a) t) E p s → A.wp i X R E (p.bind k) s := by
  intro p
  induction p with
  | ret a => exact fun h => h
  | fail e => exact fun h => h
  | atom f next ih => exact fun h t ht => ⟨(h t ht).1, ih t (h t ht).2⟩
  | lock free take dropped next ih =>
      intro s h t ht
      refine ⟨(h t ht).1, fun hfree => ?_⟩
      obtain ⟨hgood, hk⟩ := (h t ht).2 hfree
      exact ⟨hgood, ih hk⟩
  | call q dropped next ih =>
      exact fun h t ht => ⟨(h t ht).1, fun r => ih r ((h t ht).2 r)⟩

theorem wp_attempt {R : Except ε α → σ → Prop} {E' : ε' → σ → Prop} :
    ∀ {p : Prog σ ρ ε α} {s : σ},
      A.wp i X (fun a t => R (.ok a) t) (fun e t => R (.error e) t) p s →
        A.wp i X R E' p.attempt s := by
  intro p
  induction p with
  | ret a => exact fun h => h
  | fail e => exact fun h => h
  | atom f next ih => exact fun h t ht => ⟨(h t ht).1, ih t (h t ht).2⟩
  | lock free take dropped next ih =>
      intro s h t ht
      refine ⟨(h t ht).1, fun hfree => ?_⟩
      obtain ⟨hgood, hk⟩ := (h t ht).2 hfree
      exact ⟨hgood, ih hk⟩
  | call q dropped next ih =>
      exact fun h t ht => ⟨(h t ht).1, fun r => ih r ((h t ht).2 r)⟩

theorem wp_mapError {g : ε → ε'} {E' : ε' → σ → Prop}
    (h : A.wp i X Q (fun e t => E' (g e) t) p s) :
    A.wp i X Q E' (p.mapError g) s :=
  wp_bind (wp_attempt h)

/-- In the scope of a guard each drop runs its destructor `d` too; `d` also runs
where the scope is left. -/
theorem wp_guarded {d : σ → σ} : ∀ {p : Prog σ ρ ε α} {s : σ},
    A.wp i (X ∘ d)
        (fun a t => ∀ u, A.Later i t u → A.acts i u (d u) ∧ Q a (d u))
        (fun e t => ∀ u, A.Later i t u → A.acts i u (d u) ∧ E e (d u)) p s →
      A.wp i X Q E (p.guarded d) s := by
  intro p
  induction p with
  | ret a => exact fun h => h
  | fail e => exact fun h => h
  | atom f next ih => exact fun h t ht => ⟨(h t ht).1, ih t (h t ht).2⟩
  | lock free take dropped next ih =>
      intro s h t ht
      refine ⟨(h t ht).1, fun hfree => ?_⟩
      obtain ⟨hgood, hk⟩ := (h t ht).2 hfree
      exact ⟨hgood, ih hk⟩
  | call q dropped next ih =>
      exact fun h t ht => ⟨(h t ht).1, fun r => ih r ((h t ht).2 r)⟩

theorem wp_ofExcept {x : Except ε α} (hok : ∀ a, x = .ok a → Q a s)
    (herr : ∀ e, x = .error e → E e s) :
    A.wp i X Q E (Prog.ofExcept x : Prog σ ρ ε α) s := by
  cases x with
  | ok a => exact hok a rfl
  | error e => exact herr e rfl

theorem wp_gets {g : σ → α} (h : ∀ t, A.Later i s t → Q (g t) t) :
    A.wp i X Q E (Prog.gets g : Prog σ ρ ε α) s :=
  fun t ht => ⟨A.idle ht.2, h t ht⟩

theorem wp_modify {f : σ → σ} {Q : Unit → σ → Prop}
    (h : ∀ t, A.Later i s t → A.acts i t (f t) ∧ Q () (f t)) :
    A.wp i X Q E (Prog.modify f : Prog σ ρ ε Unit) s :=
  h

/-- The awaiting of a lock: only the guards around it are dropped with it. -/
theorem wp_acquire {free : σ → Bool} {take : σ → σ} {Q : Unit → σ → Prop}
    (hdrop : ∀ t, A.Later i s t → A.acts i t (X t))
    (h : ∀ t, A.Later i s t → free t = true → A.acts i t (take t) ∧ Q () (take t)) :
    A.wp i X Q E (Prog.acquire free take : Prog σ ρ ε Unit) s :=
  fun t ht => ⟨hdrop t ht, h t ht⟩

/-- One turn of a loop after the other, each from the invariant of the loop. -/
theorem wp_each {ι : Type} {body : ι → Prog σ ρ ε Unit} {J : List ι → σ → Prop}
    (hbody : ∀ x rest s, J (x :: rest) s → A.wp i X (fun _ => J rest) E (body x) s) :
    ∀ {xs : List ι} {s : σ}, J xs s → A.wp i X (fun _ => J []) E (Prog.each body xs) s := by
  intro xs
  induction xs with
  | nil => exact fun h => h
  | cons x rest ih =>
      intro s h
      exact wp_bind (wp_mono (hbody x rest s h) (fun _ _ hrest => ih hrest) fun _ _ he => he)

/-! ## Whole systems -/

/-- Nothing is asked of the result. -/
abbrev Keeps (P : Protocol σ) (i : ℕ) (p : Prog σ ρ ε Unit) (s : σ) : Prop :=
  P.wp i id (fun _ _ => True) (fun _ _ => True) p s

end Protocol

namespace Actions

variable {σ κ : Type} {ρ : κ → Type} {ε : Type} {A : Actions σ} {i : ℕ} {s t : σ}

abbrev Keeps (A : Actions σ) (i : ℕ) (p : Prog σ ρ ε Unit) (s : σ) : Prop :=
  A.wp i id (fun _ _ => True) (fun _ _ => True) p s

theorem Keeps.stable {p : Prog σ ρ ε Unit} (h : A.Keeps i p s) (hrely : A.rely i s t) :
    A.Keeps i p t :=
  Protocol.wp_stable (fun _ _ _ _ _ => trivial) (fun _ _ _ _ _ => trivial) h hrely

theorem Keeps.next {p p' : Prog σ ρ ε Unit} {s' : σ} (h : A.Keeps i p s)
    (hinv : A.inv s) (hs : p.next s = some (p', s')) :
    A.acts i s s' ∧ A.Keeps i p' s' := by
  cases p with
  | ret a => cases hs
  | fail e => cases hs
  | atom f k =>
      cases hs
      exact h s (.refl hinv)
  | lock free take dropped k =>
      simp only [Prog.next] at hs
      split at hs
      · rename_i hfree
        cases hs
        exact (h s (.refl hinv)).2 hfree
      · cases hs
  | call q dropped k => cases hs

theorem Keeps.answered {p p' : Prog σ ρ ε Unit} {reply : ∀ q, ρ q} (h : A.Keeps i p s)
    (hinv : A.inv s) (hs : p.answered reply = some p') : A.Keeps i p' s := by
  cases p with
  | call q dropped k =>
      cases hs
      exact (h s (.refl hinv)).2 (reply q)
  | _ => cases hs

theorem Keeps.drop {p : Prog σ ρ ε Unit} {s' : σ} (h : A.Keeps i p s)
    (hinv : A.inv s) (hs : p.drop s = some s') : A.acts i s s' := by
  cases p with
  | lock free take dropped k =>
      cases hs
      exact (h s (.refl hinv)).1
  | call q dropped k =>
      cases hs
      exact (h s (.refl hinv)).1
  | _ => cases hs

end Actions

namespace World

variable {σ κ : Type} {ρ : κ → Type} {ε Op Env : Type} {w : World σ ρ ε Op Env}
  {A : Actions σ}

/-- The invariant, and every call keeps the protocol from where it is; one that
is not started yet has seen the others come from `first`. -/
structure Sound (A : Actions σ) (first : σ) (s : Calls σ ρ ε) : Prop where
  inv : A.inv s.shared
  calls : ∀ i, A.Keeps i (s.calls i) s.shared
  fresh : ∀ i, s.started ≤ i → s.calls i = .ret () ∧ A.rely i first s.shared

/-- What the rule for whole systems asks of the programs and the environment. -/
structure Kept (w : World σ ρ ε Op Env) (A : Actions σ) : Prop where
  init : A.inv w.init
  prog : ∀ i op s, A.inv s → A.rely i w.init s → A.Keeps i (w.prog i op) s
  env : ∀ e s s', A.inv s → w.env s e = some s' → A.inv s' ∧ ∀ j, A.rely j s s'

/-- What a step does: an action of a call, or of the environment. -/
inductive Did (w : World σ ρ ε Op Env) (A : Actions σ) (s s' : σ) : Prop where
  | nothing (same : s' = s)
  | acted (i : ℕ) (act : A.acts i s s')
  | env (e : Env) (step : w.env s e = some s')

theorem Sound.step_call {first : σ} {s : Calls σ ρ ε} (h : Sound A first s) {i : ℕ}
    (hi : i < s.started) {p : Prog σ ρ ε Unit} {shared : σ}
    (hact : A.acts i s.shared shared) (hp : A.Keeps i p shared) :
    Sound A first
      { s with shared := shared, calls := Function.update s.calls i p } := by
  obtain ⟨hinv, hothers⟩ := A.good h.inv hact
  refine ⟨hinv, fun j => ?_, fun j hj => ?_⟩
  · by_cases hji : j = i
    · subst hji
      simpa only [Function.update_self] using hp
    · simpa only [Function.update_of_ne hji] using (h.calls j).stable (hothers j hji)
  · have hji : j ≠ i := by
      rintro rfl
      exact absurd hi (Nat.not_lt.mpr hj)
    obtain ⟨hret, hrely⟩ := h.fresh j hj
    exact ⟨by simpa only [Function.update_of_ne hji] using hret,
      A.trans hrely (hothers j hji)⟩

/-- Only a call that was started has anything left to do. -/
theorem Sound.lt_of_ne {first : σ} {s : Calls σ ρ ε} (h : Sound A first s) {i : ℕ}
    (hne : s.calls i ≠ .ret ()) : i < s.started :=
  Nat.lt_of_not_le fun hle => hne (h.fresh i hle).1

theorem Sound.step (hkept : Kept w A) {s s' : Calls σ ρ ε} {e : Event ρ Op Env}
    (h : Sound A w.init s) (hs : w.step s e = some s') :
    Sound A w.init s' ∧ Did w A s.shared s'.shared := by
  cases e with
  | start op =>
      cases hs
      refine ⟨⟨h.inv, fun j => ?_, fun j hj => ?_⟩, .nothing rfl⟩
      · by_cases hj : j = s.started
        · subst hj
          simpa only [Function.update_self] using
            hkept.prog s.started op s.shared h.inv (h.fresh s.started (Nat.le_refl _)).2
        · simpa only [Function.update_of_ne hj] using h.calls j
      · have hlt : s.started < j := hj
        simpa only [Function.update_of_ne (Nat.ne_of_gt hlt)] using h.fresh j (Nat.le_of_lt hlt)
  | run i =>
      obtain ⟨⟨p, shared⟩, hnext, rfl⟩ := Option.map_eq_some_iff.mp hs
      obtain ⟨hact, hp⟩ := (h.calls i).next h.inv hnext
      have hi : i < s.started := h.lt_of_ne fun hret => by simp [hret, Prog.next] at hnext
      exact ⟨h.step_call hi hact hp, .acted i hact⟩
  | reply i answer =>
      obtain ⟨p, hp, rfl⟩ := Option.map_eq_some_iff.mp hs
      have hi : i < s.started := h.lt_of_ne fun hret => by simp [hret, Prog.answered] at hp
      exact ⟨h.step_call hi (A.idle h.inv) ((h.calls i).answered h.inv hp), .nothing rfl⟩
  | drop i =>
      obtain ⟨shared, hdrop, rfl⟩ := Option.map_eq_some_iff.mp hs
      have hi : i < s.started := h.lt_of_ne fun hret => by simp [hret, Prog.drop] at hdrop
      have hact := (h.calls i).drop h.inv hdrop
      exact ⟨h.step_call hi hact trivial, .acted i hact⟩
  | env e =>
      obtain ⟨shared, he, rfl⟩ := Option.map_eq_some_iff.mp hs
      obtain ⟨hinv, hrely⟩ := hkept.env e s.shared shared h.inv he
      refine ⟨⟨hinv, fun i => (h.calls i).stable (hrely i), fun i hi => ?_⟩, .env e he⟩
      exact ⟨(h.fresh i hi).1, A.trans (h.fresh i hi).2 (hrely i)⟩

theorem Sound.init (hkept : Kept w A) : Sound A w.init w.machine.init where
  inv := hkept.init
  calls := fun _ => trivial
  fresh := fun i _ => ⟨rfl, A.refl i w.init⟩

theorem sound_of_reachable (hkept : Kept w A) {s : Calls σ ρ ε}
    (h : w.machine.Reachable s) : Sound A w.init s := by
  refine Machine.Reachable.invariant (P := Sound A w.init) (Sound.init hkept) ?_ h
  exact fun hs hstep => (hs.step hkept hstep).1

/-- What every action does, and all of them one after the other, a run does. -/
theorem Sound.run (hkept : Kept w A) {R : σ → σ → Prop} (hrefl : ∀ s, R s s)
    (htrans : ∀ {s t u}, R s t → R t u → R s u)
    (hact : ∀ {i s s'}, A.inv s → A.acts i s s' → R s s')
    (henv : ∀ {e s s'}, A.inv s → w.env s e = some s' → R s s')
    {es : List (Event ρ Op Env)} : ∀ {s s' : Calls σ ρ ε}, Sound A w.init s →
      w.machine.runFrom s es = some s' → R s.shared s'.shared := by
  induction es with
  | nil =>
      intro s s' _ hrun
      cases hrun
      exact hrefl _
  | cons e es ih =>
      intro s s' h hrun
      obtain ⟨t, ht, hrest⟩ := Option.bind_eq_some_iff.mp hrun
      obtain ⟨hsound, hdid⟩ := h.step hkept ht
      refine htrans ?_ (ih hsound hrest)
      cases hdid with
      | nothing same => exact same ▸ hrefl _
      | acted i act => exact hact h.inv act
      | env e step => exact henv h.inv step

variable {P : Protocol σ}

/-- If every call that is started keeps the protocol, and the environment does,
then the invariant holds in every reachable state. -/
theorem reachable_inv (hinit : P.inv w.init)
    (hprog : ∀ i op s, P.inv s → P.Keeps i (w.prog i op) s)
    (henv : ∀ e s s', P.inv s → w.env s e = some s' → P.inv s' ∧ ∀ j, P.rely j s s')
    {s : Calls σ ρ ε} (h : w.machine.Reachable s) : P.inv s.shared := by
  have hkept : Kept w P.actions := ⟨hinit, fun i op s hinv _ => hprog i op s hinv, henv⟩
  exact (sound_of_reachable hkept h).inv

end World

end RunnerKit.Lib
