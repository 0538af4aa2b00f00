import RunnerKit.Lib.Machine

/-!
# Calls with awaits

A call is a program over a shared state. Between two awaits it does indivisible
actions (`atom`: a section under a lock, an atomic operation), and every action
is a step of its own, so the other calls may come in between. It awaits a lock
(`lock`) or a reply of the outside (`call`). A future that is dropped while it
awaits runs the destructors of what it holds: each await carries them, and
`guarded` adds a guard's destructor to all awaits of the guard's scope.

`World` is a system of such calls: any number of them are started, each step
lets one of them go on, drops it, or is a step of the environment.
-/

namespace RunnerKit.Lib

/-- A program that asks questions `q : κ` and gets replies of type `ρ q`. -/
inductive Prog (σ : Type) {κ : Type} (ρ : κ → Type) (ε α : Type) where
  | ret (a : α)
  | fail (e : ε)
  | atom (f : σ → σ) (k : σ → Prog σ ρ ε α)
  | lock (free : σ → Bool) (take dropped : σ → σ) (k : Prog σ ρ ε α)
  | call (q : κ) (dropped : σ → σ) (k : ρ q → Prog σ ρ ε α)

namespace Prog

variable {σ κ : Type} {ρ : κ → Type} {ε ε' α γ : Type}

def bind : Prog σ ρ ε α → (α → Prog σ ρ ε γ) → Prog σ ρ ε γ
  | .ret a, k => k a
  | .fail e, _ => .fail e
  | .atom f next, k => .atom f fun s => (next s).bind k
  | .lock free take dropped next, k => .lock free take dropped (next.bind k)
  | .call q dropped next, k => .call q dropped fun r => (next r).bind k

instance : Monad (Prog σ ρ ε) where
  pure := .ret
  bind := bind

/-- The result of a program as a value, so that its caller can look at it. -/
def attempt : Prog σ ρ ε α → Prog σ ρ ε' (Except ε α)
  | .ret a => .ret (.ok a)
  | .fail e => .ret (.error e)
  | .atom f next => .atom f fun s => (next s).attempt
  | .lock free take dropped next => .lock free take dropped next.attempt
  | .call q dropped next => .call q dropped fun r => (next r).attempt

def ofExcept : Except ε α → Prog σ ρ ε α
  | .ok a => .ret a
  | .error e => .fail e

def mapError (g : ε → ε') (p : Prog σ ρ ε α) : Prog σ ρ ε' α :=
  p.attempt.bind fun
    | .ok a => .ret a
    | .error e => .fail (g e)

/-- The scope of a guard with the destructor `d`: it runs when the scope is
left, also by an error, and when a future is dropped inside. -/
def guarded (d : σ → σ) : Prog σ ρ ε α → Prog σ ρ ε α
  | .ret a => .atom d fun _ => .ret a
  | .fail e => .atom d fun _ => .fail e
  | .atom f next => .atom f fun s => (next s).guarded d
  | .lock free take dropped next => .lock free take (d ∘ dropped) (next.guarded d)
  | .call q dropped next => .call q (d ∘ dropped) fun r => (next r).guarded d

def gets (g : σ → α) : Prog σ ρ ε α := .atom id fun s => .ret (g s)

def modify (f : σ → σ) : Prog σ ρ ε Unit := .atom f fun _ => .ret ()

def await (q : κ) : Prog σ ρ ε (ρ q) := .call q id .ret

def acquire (free : σ → Bool) (take : σ → σ) : Prog σ ρ ε Unit :=
  .lock free take id (.ret ())

/-- A loop over a list. -/
def each {ι : Type} (body : ι → Prog σ ρ ε Unit) : List ι → Prog σ ρ ε Unit
  | [] => .ret ()
  | x :: xs => (body x).bind fun () => each body xs

/-! ## Steps -/

/-- The call does its next action, or takes the lock it waits for. -/
def next : Prog σ ρ ε α → σ → Option (Prog σ ρ ε α × σ)
  | .atom f k, s => some (k s, f s)
  | .lock free take _ k, s => if free s then some (k, take s) else none
  | _, _ => none

/-- The reply has come. -/
def answered (reply : ∀ q, ρ q) : Prog σ ρ ε α → Option (Prog σ ρ ε α)
  | .call q _ k => some (k (reply q))
  | _ => none

/-- The future is dropped where it waits. -/
def drop : Prog σ ρ ε α → σ → Option σ
  | .lock _ _ dropped _, s => some (dropped s)
  | .call _ dropped _, s => some (dropped s)
  | _, _ => none

end Prog

/-! ## Systems of calls -/

structure World (σ : Type) {κ : Type} (ρ : κ → Type) (ε Op Env : Type) where
  init : σ
  /-- The program of the `i`-th call. -/
  prog : ℕ → Op → Prog σ ρ ε Unit
  env : σ → Env → Option σ

/-- The shared state, the rest of each call, and how many were started. -/
structure Calls (σ : Type) {κ : Type} (ρ : κ → Type) (ε : Type) where
  shared : σ
  calls : ℕ → Prog σ ρ ε Unit
  started : ℕ

/-- `reply` says what the outside answers to any question; the one that the
call asks counts. -/
inductive Event {κ : Type} (ρ : κ → Type) (Op Env : Type) where
  | start (op : Op)
  | run (i : ℕ)
  | reply (i : ℕ) (answer : ∀ q, ρ q)
  | drop (i : ℕ)
  | env (e : Env)

namespace World

variable {σ κ : Type} {ρ : κ → Type} {ε Op Env : Type} (w : World σ ρ ε Op Env)

def step (s : Calls σ ρ ε) : Event ρ Op Env → Option (Calls σ ρ ε)
  | .start op =>
      some { s with
        calls := Function.update s.calls s.started (w.prog s.started op)
        started := s.started + 1 }
  | .run i =>
      ((s.calls i).next s.shared).map fun (p, shared) =>
        { s with shared := shared, calls := Function.update s.calls i p }
  | .reply i answer =>
      ((s.calls i).answered answer).map fun p =>
        { s with calls := Function.update s.calls i p }
  | .drop i =>
      ((s.calls i).drop s.shared).map fun shared =>
        { s with shared := shared, calls := Function.update s.calls i (.ret ()) }
  | .env e => (w.env s.shared e).map fun shared => { s with shared := shared }

def machine : Machine (Calls σ ρ ε) (Event ρ Op Env) where
  init := { shared := w.init, calls := fun _ => .ret (), started := 0 }
  step := w.step

end World

end RunnerKit.Lib
