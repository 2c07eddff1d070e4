import Mathlib

/-!
# Programs of database statements

A `Program` is the sequence of statements a request runs: queries of a shared
store, statements that change it, and operations on the process's own memory.
`run` executes it on a connection while other connections commit between its
statements. Errors end a program without a result.
-/

/-- A computation over a store `σ` and a process memory `μ` that returns an `α`
or fails with an `ε`. -/
inductive Program (σ μ ε α : Type) : Type 1 where
  | done (a : α)
  | fail (e : ε)
  | read {β : Type} (query : σ → β) (next : β → Program σ μ ε α)
  | write {β : Type} (change : σ → σ × β) (next : β → Program σ μ ε α)
  | memory {β : Type} (op : μ → μ × β) (next : β → Program σ μ ε α)

namespace Program

variable {σ μ ε α β γ : Type}

/-- Run `p`, then the program its result selects. -/
def bind : Program σ μ ε α → (α → Program σ μ ε β) → Program σ μ ε β
  | done a, f => f a
  | fail e, _ => fail e
  | read query next, f => read query fun b => (next b).bind f
  | write change next, f => write change fun b => (next b).bind f
  | memory op next, f => memory op fun b => (next b).bind f

instance : Monad (Program σ μ ε) where
  pure := done
  bind := bind

/-- One query of the store. -/
def query (q : σ → α) : Program σ μ ε α := read q done

/-! ### Execution on a connection -/

/-- The connection a program runs on: the writer, or one that refuses every
changing statement with the given error. -/
inductive Access (ε : Type) where
  | writer
  | readOnly (denied : ε)

/-- The surroundings of an execution: the store, the memory, what other
connections commit before each of the next statements, and the stores the
statements so far were run on, newest first. -/
structure Machine (σ μ : Type) where
  store : σ
  memory : μ
  commits : List (σ → σ) := []
  seen : List σ := []

namespace Machine

/-- The moment the next statement runs: the commits due before it have landed. -/
def advance (m : Machine σ μ) : Machine σ μ :=
  let s := m.commits.headD id m.store
  { m with store := s, commits := m.commits.tail, seen := s :: m.seen }

end Machine

/-- Execute a program: its result and the surroundings it leaves. -/
def run (access : Access ε) : Program σ μ ε α → Machine σ μ → Except ε α × Machine σ μ
  | done a, m => (.ok a, m)
  | fail e, m => (.error e, m)
  | read query next, m => (next (query m.advance.store)).run access m.advance
  | write change next, m =>
    match access with
    | .writer =>
      let changed := change m.advance.store
      (next changed.2).run access { m.advance with store := changed.1 }
    | .readOnly denied => (.error denied, m.advance)
  | memory op next, m =>
    let changed := op m.memory
    (next changed.2).run access { m with memory := changed.1 }

end Program
