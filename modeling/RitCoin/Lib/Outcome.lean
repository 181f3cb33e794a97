import Mathlib

/-!
# Computations that may fail

Inversion rules for `Except` and the induction rule for loops over a list that stop at the first
failure.
-/

namespace RitCoin.Lib
variable {c : Prop} {γ : Type*} {items : List γ}

universe u
variable {ε : Type u} {α β : Type u}

theorem bind_eq_ok {x : Except ε α} {f : α → Except ε β} {b : β} :
    x >>= f = .ok b ↔ ∃ a, x = .ok a ∧ f a = .ok b := by
  cases x with
  | error e => simp [bind, Except.bind]
  | ok a => simp [bind, Except.bind]

theorem seq_eq_ok {x : Except ε PUnit.{u + 1}} {y : Except ε β} {b : β} :
    (x >>= fun _ => y) = .ok b ↔ x = .ok ⟨⟩ ∧ y = .ok b := by
  rw [bind_eq_ok]
  exact ⟨fun ⟨_, first, rest⟩ => ⟨first, rest⟩, fun ⟨first, rest⟩ => ⟨⟨⟩, first, rest⟩⟩

theorem bind_eq_error {x : Except ε α} {f : α → Except ε β} {e : ε} :
    x >>= f = .error e ↔ x = .error e ∨ ∃ a, x = .ok a ∧ f a = .error e := by
  cases x with
  | error e => simp [bind, Except.bind]
  | ok a => simp [bind, Except.bind]

theorem ok_bind (a : α) (f : α → Except ε β) : (Except.ok a >>= f) = f a := rfl

theorem error_bind (e : ε) (f : α → Except ε β) : (Except.error e >>= f) = .error e := rfl

theorem exists_eq_ok {x : Except ε α} (isOk : x.isOk = true) : ∃ a, x = .ok a := by
  cases x with
  | error e => cases isOk
  | ok a => exact ⟨a, rfl⟩

theorem pure_eq_ok {a b : α} : (pure a : Except ε α) = .ok b ↔ a = b := by
  simp [pure, Except.pure]

/-- Stop with the failure `e` when the condition holds. -/
def failIf (c : Prop) [Decidable c] (e : ε) : Except ε PUnit :=
  if c then .error e else .ok ⟨⟩

@[simp] theorem failIf_eq_ok [Decidable c] {e : ε} {u : PUnit} : failIf c e = .ok u ↔ ¬ c := by
  by_cases h : c <;> simp [failIf, h]

theorem failIf_of_not [Decidable c] {e : ε} (h : ¬ c) : failIf c e = .ok ⟨⟩ := by
  simp [h]

theorem mapError_eq_ok {ε' : Type u} {f : ε → ε'} {x : Except ε α} {a : α} :
    x.mapError f = .ok a ↔ x = .ok a := by
  cases x <;> simp [Except.mapError]

/-- A loop that succeeds keeps every relation between the items done so far and the accumulator
that each successful round keeps. -/
theorem foldlM_ok_rel {f : β → γ → Except ε β} (R : List γ → β → Prop)
    (round : ∀ done c b b', R done b → f b c = .ok b' → R (done ++ [c]) b') :
    ∀ (items done : List γ) (b b' : β), R done b → items.foldlM f b = .ok b' →
      R (done ++ items) b' := by
  intro items
  induction items with
  | nil =>
    intro done b b' h run
    rw [List.foldlM_nil, pure_eq_ok] at run
    simpa [← run] using h
  | cons c items ih =>
    intro done b b' h run
    rw [List.foldlM_cons, bind_eq_ok] at run
    obtain ⟨b₁, first, rest⟩ := run
    simpa using ih (done ++ [c]) b₁ b' (round done c b b₁ h first) rest

/-- A loop succeeds if every round succeeds on what the rounds before it can leave. -/
theorem foldlM_complete (f : β → γ → Except ε β) (items : List γ) (R : List γ → β → Prop) (b : β) (start : R [] b)
    (round : ∀ done c rest b, items = done ++ c :: rest → R done b → ∃ b', f b c = .ok b' ∧ R (done ++ [c]) b') :
    ∃ b', items.foldlM f b = .ok b' ∧ R items b' := by
  have loop : ∀ (rest done : List γ) (b : β), items = done ++ rest → R done b →
      ∃ b', rest.foldlM f b = .ok b' ∧ R items b' := by
    intro rest
    induction rest with
    | nil => intro done b split h; exact ⟨b, rfl, by simpa [split] using h⟩
    | cons c rest ih =>
      intro done b split h
      obtain ⟨b₁, first, h₁⟩ := round done c rest b split h
      obtain ⟨b', others, h'⟩ := ih (done ++ [c]) b₁ (by simp [split]) h₁
      exact ⟨b', by rw [List.foldlM_cons, first]; exact others, h'⟩
  exact loop items [] b rfl start

theorem foldl_rel {δ : Type*} (f : δ → γ → δ) (items : List γ) (R : List γ → δ → Prop) (b : δ) (start : R [] b)
    (round : ∀ done c rest b, items = done ++ c :: rest → R done b → R (done ++ [c]) (f b c)) :
    R items (items.foldl f b) := by
  have loop : ∀ (rest done : List γ) (b : δ), items = done ++ rest → R done b →
      R items (rest.foldl f b) := by
    intro rest
    induction rest with
    | nil => intro done b split h; simpa [split] using h
    | cons c rest ih =>
      intro done b split h
      exact ih (done ++ [c]) (f b c) (by simp [split]) (round done c rest b split h)
  exact loop items [] b rfl start

theorem forM_eq_ok {f : γ → Except ε PUnit.{u + 1}} {r : PUnit} :
    items.forM f = .ok r ↔ ∀ c ∈ items, f c = .ok ⟨⟩ := by
  induction items with
  | nil => simp [pure, Except.pure]
  | cons c items ih =>
    change (f c >>= fun _ => items.forM f) = .ok r ↔ _
    rw [seq_eq_ok, ih, List.forall_mem_cons]

theorem mapM_eq_ok {f : γ → Except ε β} {results : List β} :
    items.mapM f = .ok results ↔ List.Forall₂ (fun c b => f c = .ok b) items results := by
  induction items generalizing results with
  | nil => simp [pure, Except.pure, eq_comm]
  | cons c items ih =>
    rw [List.mapM_cons, bind_eq_ok]
    constructor
    · rintro ⟨b, first, rest⟩
      obtain ⟨later, done, is⟩ := bind_eq_ok.mp rest
      rw [← pure_eq_ok.mp is]
      exact .cons first (ih.mp done)
    · rintro (_ | ⟨first, rest⟩)
      exact ⟨_, first, bind_eq_ok.mpr ⟨_, ih.mpr rest, rfl⟩⟩

theorem exists_mapM_eq_ok {f : γ → Except ε β} :
    (∃ results, items.mapM f = .ok results) ↔ ∀ c ∈ items, ∃ b, f c = .ok b := by
  induction items with
  | nil => simp [pure, Except.pure]
  | cons c items ih =>
    rw [List.forall_mem_cons, ← ih]
    simp only [mapM_eq_ok, List.forall₂_cons_left_iff]
    constructor
    · rintro ⟨_, b, later, first, rest, rfl⟩
      exact ⟨⟨b, first⟩, later, rest⟩
    · rintro ⟨⟨b, first⟩, later, rest⟩
      exact ⟨_, b, later, first, rest, rfl⟩

theorem mem_of_mapM_eq_ok {f : γ → Except ε β} {results : List β} (done : items.mapM f = .ok results) {b : β} :
    b ∈ results ↔ ∃ c ∈ items, f c = .ok b := by
  rw [mapM_eq_ok] at done
  induction done with
  | nil => simp
  | @cons c b' items results first rest ih =>
    rw [List.mem_cons, ih, List.exists_mem_cons_iff, first, Except.ok.injEq, eq_comm]

def FailsWith (Q : ε → Prop) (x : Except ε α) : Prop := ∀ e, x = .error e → Q e

namespace FailsWith
variable {Q : ε → Prop}

theorem ok (a : α) : FailsWith Q (.ok a) := nofun

theorem error {e : ε} (h : Q e) : FailsWith Q (.error e : Except ε α) := by
  rintro _ ⟨⟩
  exact h

theorem failIf [Decidable c] {e : ε} (h : Q e) : FailsWith Q (Lib.failIf c e) := by
  rw [Lib.failIf]
  split_ifs
  · exact error h
  · exact ok _

theorem bind {x : Except ε α} {f : α → Except ε β} (first : FailsWith Q x)
    (rest : ∀ a, x = .ok a → FailsWith Q (f a)) : FailsWith Q (x >>= f) := by
  cases x with
  | error e => exact error (first e rfl)
  | ok a => exact rest a rfl

theorem mapError {ε' : Type u} {Q' : ε' → Prop} {f : ε → ε'} {x : Except ε α} (h : FailsWith Q x)
    (map : ∀ e, Q e → Q' (f e)) : FailsWith Q' (x.mapError f) := by
  cases x with
  | error e => exact error (map e (h e rfl))
  | ok a => exact ok a

theorem foldlM {f : β → γ → Except ε β} (round : ∀ b c, FailsWith Q (f b c)) (items : List γ) :
    ∀ b, FailsWith Q (items.foldlM f b) := by
  induction items with
  | nil => exact fun b => ok b
  | cons c items ih => exact fun b => bind (round b c) fun b' _ => ih b'

theorem forM {f : γ → Except ε PUnit.{u + 1}} (items : List γ) (round : ∀ c ∈ items, FailsWith Q (f c)) :
    FailsWith Q (items.forM f) := by
  induction items with
  | nil => exact ok _
  | cons c items ih =>
    obtain ⟨first, rest⟩ := List.forall_mem_cons.mp round
    exact bind first fun _ _ => ih rest

end FailsWith

/-- If the computation succeeds, its result satisfies `R`, and if it fails, the failure satisfies `Q`. -/
structure Meets (Q : ε → Prop) (R : α → Prop) (x : Except ε α) : Prop where
  ok : ∀ a, x = .ok a → R a
  fails : FailsWith Q x

namespace Meets
variable {Q : ε → Prop} {R : α → Prop} {S : β → Prop}

theorem pure {a : α} (h : R a) : Meets Q R (pure a : Except ε α) :=
  ⟨fun _ same => Except.ok.inj same ▸ h, .ok a⟩

theorem error {e : ε} (h : Q e) : Meets Q R (.error e : Except ε α) := ⟨nofun, .error h⟩

theorem bind {x : Except ε α} {f : α → Except ε β} (first : Meets Q R x)
    (rest : ∀ a, R a → Meets Q S (f a)) : Meets Q S (x >>= f) where
  ok b run := by
    obtain ⟨a, ended, run⟩ := bind_eq_ok.mp run
    exact (rest a (first.ok a ended)).ok b run
  fails := first.fails.bind fun a ended => (rest a (first.ok a ended)).fails

theorem mono {R' : α → Prop} {x : Except ε α} (meets : Meets Q R x) (weaker : ∀ a, R a → R' a) :
    Meets Q R' x :=
  ⟨fun a ended => weaker a (meets.ok a ended), meets.fails⟩

theorem failIf [Decidable c] {e : ε} (h : Q e) : Meets Q (fun _ => ¬ c) (Lib.failIf c e) :=
  ⟨fun _ ended => failIf_eq_ok.mp ended, .failIf h⟩

theorem foldlM {f : β → γ → Except ε β} {b : β} (R : List γ → β → Prop) (start : R [] b)
    (round : ∀ done c rest b, items = done ++ c :: rest → R done b → Meets Q (R (done ++ [c])) (f b c)) :
    Meets Q (R items) (items.foldlM f b) := by
  have loop : ∀ (rest done : List γ) (b : β), items = done ++ rest → R done b →
      Meets Q (R items) (rest.foldlM f b) := by
    intro rest
    induction rest with
    | nil =>
      intro done b split h
      exact .pure (by simpa [split] using h)
    | cons c rest ih =>
      intro done b split h
      exact (round done c rest b split h).bind fun b' => ih (done ++ [c]) b' (by simp [split])
  exact loop items [] b rfl start

end Meets

end RitCoin.Lib
