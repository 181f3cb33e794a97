import RitCoin.Lib.Outcome

/-!
# Computations on a state that may fail

What such a computation has done to the state stays done when it fails later. `Triple` relates the state
before it to the states in which it can end; its rules follow the way the computation is put together.
-/

namespace RitCoin.Lib

def Session (σ ε α : Type) : Type := σ → Except ε α × σ

namespace Session
variable {σ ε α β γ : Type}

instance : Monad (Session σ ε) where
  pure a := fun s => (.ok a, s)
  bind x f := fun s =>
    match x s with
    | (.ok a, s) => f a s
    | (.error e, s) => (.error e, s)

/-- A computation that only reads the state. -/
def ask (f : σ → Except ε α) : Session σ ε α := fun s => (f s, s)

def modify (f : σ → σ) : Session σ ε Unit := fun s => (.ok (), f s)

theorem bind_apply (x : Session σ ε α) (f : α → Session σ ε β) (s : σ) :
    (x >>= f) s = match x s with
      | (.ok a, s) => f a s
      | (.error e, s) => (.error e, s) := rfl

/-- From a state with `P`, the computation ends in a state with `Q` of its result, or it fails in a state
with `E`. -/
def Triple (P : σ → Prop) (x : Session σ ε α) (Q : α → σ → Prop) (E : σ → Prop) : Prop :=
  ∀ s, P s →
    match x s with
    | (.ok a, s) => Q a s
    | (.error _, s) => E s

/-- The computation keeps `P` also where it fails. -/
abbrev Keeps (P : σ → Prop) (x : Session σ ε α) : Prop := Triple P x (fun _ => P) P

namespace Triple
variable {P P' E E' : σ → Prop} {Q Q' : α → σ → Prop} {R : β → σ → Prop} {x : Session σ ε α}

theorem pure (a : α) (holds : ∀ s, P s → Q a s) : Triple P (Pure.pure a : Session σ ε α) Q E := holds

theorem bind {f : α → Session σ ε β} (first : Triple P x Q E) (rest : ∀ a, Triple (Q a) (f a) R E) :
    Triple P (x >>= f) R E := by
  intro s before
  have after := first s before
  rw [bind_apply]
  rcases run : x s with ⟨e | a, s'⟩
  · rw [run] at after
    exact after
  · rw [run] at after
    exact rest a s' after

theorem conseq (triple : Triple P x Q E) (pre : ∀ s, P' s → P s) (post : ∀ a s, Q a s → Q' a s)
    (failed : ∀ s, E s → E' s) : Triple P' x Q' E' := by
  intro s before
  have after := triple s (pre s before)
  rcases run : x s with ⟨e | a, s'⟩
  · rw [run] at after
    exact failed s' after
  · rw [run] at after
    exact post a s' after

/-- The state in the end, when it does not matter how the computation ends. -/
theorem after {E : σ → Prop} (triple : Triple P x (fun _ => E) E) {s : σ} (before : P s) : E (x s).2 := by
  have ended := triple s before
  rcases run : x s with ⟨e | a, s'⟩ <;> rwa [run] at ended

theorem of_pre (triple : Triple P x Q E) (pre : ∀ s, P' s → P s) : Triple P' x Q E :=
  fun s before => triple s (pre s before)

theorem ask {f : σ → Except ε α} (holds : ∀ s, P s → (∀ a, f s = .ok a → Q a s) ∧ (∀ e, f s = .error e → E s)) :
    Triple P (Session.ask f) Q E := by
  intro s before
  change match (f s, s) with
    | (.ok a, s) => Q a s
    | (.error _, s) => E s
  cases run : f s with
  | error e => exact (holds s before).2 e run
  | ok a => exact (holds s before).1 a run

theorem look {f : σ → α} : Triple P (Session.ask fun s => (Pure.pure (f s) : Except ε α)) (fun a s => P s ∧ a = f s) E :=
  fun _ before => ⟨before, rfl⟩

theorem modify {f : σ → σ} {Q : Unit → σ → Prop} (holds : ∀ s, P s → Q () (f s)) :
    Triple P (Session.modify f : Session σ ε Unit) Q E := holds

theorem ite {c : Prop} [Decidable c] {y : Session σ ε α} (yes : c → Triple P x Q E) (no : ¬ c → Triple P y Q E) :
    Triple P (if c then x else y) Q E := by
  split_ifs with h
  · exact yes h
  · exact no h

theorem forM {items : List γ} {f : γ → Session σ ε PUnit}
    (round : ∀ item ∈ items, Keeps P (f item)) : Keeps P (items.forM f) := by
  induction items with
  | nil => exact fun _ before => before
  | cons item items ih =>
    exact bind (round item List.mem_cons_self) fun _ =>
      ih fun later member => round later (List.mem_cons_of_mem _ member)

end Triple

end Session

end RitCoin.Lib
