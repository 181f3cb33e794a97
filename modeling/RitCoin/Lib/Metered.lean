import RitCoin.Lib.Outcome

/-!
# Computations that pay

A computation that may fail, together with what it has paid when it ends. A failed computation has
paid too, so bounds on the cost hold however it ends.
-/

namespace RitCoin.Lib

structure Metered (ε α : Type) where
  result : Except ε α
  cost : ℕ
deriving DecidableEq

namespace Metered
variable {ε α β : Type}

instance : Monad (Metered ε) where
  pure a := ⟨.ok a, 0⟩
  bind x f :=
    match x.result with
    | .error e => ⟨.error e, x.cost⟩
    | .ok a => ⟨(f a).result, x.cost + (f a).cost⟩

/-- What costs nothing. -/
instance : MonadLift (Except ε) (Metered ε) where
  monadLift x := ⟨x, 0⟩

def pay (a : α) : Metered ε α := ⟨.ok a, 1⟩

/-- The failure, if there is one and `catches` allows it, is turned into `none`. -/
def attempt (catches : ε → Bool) (x : Metered ε α) : Metered ε (Option α) :=
  match x.result with
  | .ok a => ⟨.ok (some a), x.cost⟩
  | .error e => ⟨if catches e then .ok none else .error e, x.cost⟩

@[simp] theorem result_pure (a : α) : (pure a : Metered ε α).result = .ok a := rfl

@[simp] theorem cost_pure (a : α) : (pure a : Metered ε α).cost = 0 := rfl

@[simp] theorem result_lift (x : Except ε α) : (liftM x : Metered ε α).result = x := rfl

@[simp] theorem cost_lift (x : Except ε α) : (liftM x : Metered ε α).cost = 0 := rfl

@[simp] theorem result_pay (a : α) : (pay a : Metered ε α).result = .ok a := rfl

@[simp] theorem cost_pay (a : α) : (pay a : Metered ε α).cost = 1 := rfl

@[simp] theorem result_bind (x : Metered ε α) (f : α → Metered ε β) :
    (x >>= f).result = x.result >>= fun a => (f a).result := by
  change (match x.result with
    | .error e => (⟨.error e, x.cost⟩ : Metered ε β)
    | .ok a => ⟨(f a).result, x.cost + (f a).cost⟩).result = _
  cases x.result <;> rfl

theorem cost_bind_ok {x : Metered ε α} {a : α} (f : α → Metered ε β) (ok : x.result = .ok a) :
    (x >>= f).cost = x.cost + (f a).cost := by
  change (match x.result with
    | .error e => (⟨.error e, x.cost⟩ : Metered ε β)
    | .ok a => ⟨(f a).result, x.cost + (f a).cost⟩).cost = _
  rw [ok]

theorem cost_bind_error {x : Metered ε α} {e : ε} (f : α → Metered ε β) (failed : x.result = .error e) :
    (x >>= f).cost = x.cost := by
  change (match x.result with
    | .error e => (⟨.error e, x.cost⟩ : Metered ε β)
    | .ok a => ⟨(f a).result, x.cost + (f a).cost⟩).cost = _
  rw [failed]

theorem cost_bind_le {x : Metered ε α} {f : α → Metered ε β} {m n : ℕ} (first : x.cost ≤ m)
    (rest : ∀ a, x.result = .ok a → (f a).cost ≤ n) : (x >>= f).cost ≤ m + n := by
  cases ended : x.result with
  | error e =>
    rw [cost_bind_error f ended]
    exact Nat.le_add_right_of_le first
  | ok a =>
    rw [cost_bind_ok f ended]
    exact Nat.add_le_add first (rest a ended)

theorem cost_lift_bind_le {x : Except ε α} {f : α → Metered ε β} {n : ℕ}
    (rest : ∀ a, x = .ok a → (f a).cost ≤ n) : ((liftM x : Metered ε α) >>= f).cost ≤ n := by
  have bound := cost_bind_le (x := (liftM x : Metered ε α)) (m := 0) (le_of_eq (cost_lift x)) rest
  rwa [Nat.zero_add] at bound

theorem result_attempt (catches : ε → Bool) (x : Metered ε α) :
    (x.attempt catches).result = match x.result with
      | .ok a => .ok (some a)
      | .error e => if catches e then .ok none else .error e := by
  unfold attempt
  cases x.result <;> rfl

end Metered

end RitCoin.Lib
