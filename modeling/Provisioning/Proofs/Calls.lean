import Provisioning.Event

/-!
# Keeping calls

The reader of a state and the renderer of a chart are functions of someone else, in a monad that
nothing is known of. What they are called with can be kept all the same: in front of the monad
comes a list, and the function adds its argument to the list before it does what it does
(`recorded`). Events go to the monad as before.
-/

set_option autoImplicit false

namespace Provisioning

variable {m : Type → Type} {ι α : Type}

instance {σ : Type} [Monad m] [MonadLog m] : MonadLog (StateT σ m) :=
  ⟨fun event => StateT.lift (log event)⟩

/-- A function that keeps every argument, in order. -/
def recorded [Monad m] (f : ι → m α) : ι → StateT (List ι) m α := fun i => do
  modify (· ++ [i])
  StateT.lift (f i)

@[simp] theorem run_recorded [Monad m] [LawfulMonad m] (f : ι → m α) (i : ι) (calls : List ι) :
    (recorded f i).run calls = (fun a => (a, calls ++ [i])) <$> f i := by
  simp [recorded, ← bind_pure_comp]

@[simp] theorem run_log {σ : Type} [Monad m] [LawfulMonad m] [MonadLog m] (event : Event) (s : σ) :
    (log event : StateT σ m Unit).run s = (fun u => (u, s)) <$> log event := by
  simp [log, ← bind_pure_comp]

/-- What a computation answers, and the calls it has made. -/
def called (x : StateT (List ι) Logged α) : α × List ι := (x.run []).outcome.1

@[simp] theorem Logged.outcome_map {β : Type} (f : α → β) (x : Logged α) :
    (f <$> x).outcome.1 = f x.outcome.1 := rfl

theorem Logged.outcome_bind {β : Type} (x : Logged α) (f : α → Logged β) :
    (x >>= f).outcome.1 = ((f x.outcome.1).run x.outcome.2).run.1 := rfl

end Provisioning
