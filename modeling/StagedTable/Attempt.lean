/-!
# Attempts

Work on a state that may fail. An attempt leaves a state in either case, so that one can say what a
failed attempt has changed.
-/

namespace StagedTable

/-- Work on a state that yields a result or fails, and leaves a state. -/
def Attempt (σ ε α : Type) : Type := σ → Except ε α × σ

namespace Attempt

variable {σ ε α β : Type}

/-- What follows an attempt is done on the state that it leaves, unless it failed. -/
def andThen (act : Attempt σ ε α) (next : α → Attempt σ ε β) : Attempt σ ε β := fun s =>
  match act s with
  | (.ok a, s) => next a s
  | (.error e, s) => (.error e, s)

instance : Monad (Attempt σ ε) where
  pure a := fun s => (.ok a, s)
  bind := andThen

/-- Fails and changes nothing. -/
def fail (e : ε) : Attempt σ ε α := fun s => (.error e, s)

/-- Looks at the state, which may lead to a failure. -/
def look (f : σ → Except ε α) : Attempt σ ε α := fun s => (f s, s)

/-- Yields what a function reads from the state. -/
def read (f : σ → α) : Attempt σ ε α := fun s => (.ok (f s), s)

/-- Changes the state. -/
def update (f : σ → σ) : Attempt σ ε Unit := fun s => (.ok (), f s)

@[simp] theorem pure_apply (a : α) (s : σ) : (pure a : Attempt σ ε α) s = (.ok a, s) := rfl

@[simp] theorem fail_apply (e : ε) (s : σ) : (fail e : Attempt σ ε α) s = (.error e, s) := rfl

@[simp] theorem look_apply (f : σ → Except ε α) (s : σ) : look f s = (f s, s) := rfl

@[simp] theorem read_apply (f : σ → α) (s : σ) :
    (read f : Attempt σ ε α) s = (.ok (f s), s) := rfl

@[simp] theorem update_apply (f : σ → σ) (s : σ) :
    (update f : Attempt σ ε Unit) s = (.ok (), f s) := rfl

theorem bind_apply (act : Attempt σ ε α) (next : α → Attempt σ ε β) (s : σ) :
    (act >>= next) s = match act s with
      | (.ok a, s) => next a s
      | (.error e, s) => (.error e, s) := rfl

/-- What follows a successful attempt is done on the state that it leaves. -/
theorem bind_of_ok {act : Attempt σ ε α} {next : α → Attempt σ ε β} {s t : σ} {a : α}
    (h : act s = (.ok a, t)) : (act >>= next) s = next a t := by
  rw [bind_apply, h]

/-- Nothing follows a failed attempt. -/
theorem bind_of_error {act : Attempt σ ε α} {next : α → Attempt σ ε β} {s t : σ} {e : ε}
    (h : act s = (.error e, t)) : (act >>= next) s = (.error e, t) := by
  rw [bind_apply, h]

end Attempt

end StagedTable
