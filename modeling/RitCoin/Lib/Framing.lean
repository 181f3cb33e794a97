import RitCoin.Lib.Outcome

/-!
# Messages in a stream

A parser that takes messages off the front of a buffer, and waits when what it has is not enough to decide.
If more symbols never change a decision, what it finds in a stream does not depend on how the stream
arrives, even if it forgets symbols that cannot matter any more.
-/

namespace RitCoin.Lib

section Search
variable {α : Type*} [DecidableEq α] (pattern : List α)

def search : List α → ℕ
  | [] => 0
  | a :: rest => if pattern <+: a :: rest then 0 else search rest + 1

variable {pattern}

theorem not_before_search : ∀ {symbols : List α} {i : ℕ}, i < search pattern symbols →
    ¬ pattern <+: symbols.drop i := by
  intro symbols
  induction symbols with
  | nil => exact fun {i} before => absurd before (Nat.not_lt_zero i)
  | cons a rest ih =>
    intro i before
    rw [search] at before
    split_ifs at before with here
    · exact absurd before (Nat.not_lt_zero i)
    · cases i with
      | zero => exact here
      | succ i => exact ih (Nat.lt_of_succ_lt_succ before)

theorem at_search : ∀ {symbols : List α}, search pattern symbols < symbols.length →
    pattern <+: symbols.drop (search pattern symbols) := by
  intro symbols
  induction symbols with
  | nil => exact fun inside => absurd inside (Nat.lt_irrefl 0)
  | cons a rest ih =>
    intro inside
    rw [search] at inside ⊢
    split_ifs at inside ⊢ with here
    · exact here
    · exact ih (Nat.lt_of_succ_lt_succ inside)

theorem search_of_not_before : ∀ {k : ℕ} {symbols : List α}, k ≤ symbols.length →
    (∀ i < k, ¬ pattern <+: symbols.drop i) →
    search pattern symbols = k + search pattern (symbols.drop k) := by
  intro k
  induction k with
  | zero => exact fun _ _ => (Nat.zero_add _).symm
  | succ k ih =>
    intro symbols bound absent
    cases symbols with
    | nil => simp at bound
    | cons a rest =>
      have step := ih (Nat.le_of_succ_le_succ bound) fun i less =>
        absent (i + 1) (Nat.succ_lt_succ less)
      have first : ¬ pattern <+: a :: rest := absent 0 (Nat.succ_pos k)
      rw [search, if_neg first, step, List.drop_succ_cons]
      omega

theorem search_eq_zero {symbols : List α} (here : pattern <+: symbols) : search pattern symbols = 0 := by
  cases symbols with
  | nil => rfl
  | cons a rest => rw [search, if_pos here]

omit [DecidableEq α] in
theorem occurs_of_append {symbols more : List α} {i : ℕ} (ends : i + pattern.length ≤ symbols.length)
    (occurs : pattern <+: (symbols ++ more).drop i) : pattern <+: symbols.drop i := by
  rw [List.drop_append_of_le_length (by omega)] at occurs
  refine List.prefix_of_prefix_length_le occurs (List.prefix_append _ _) ?_
  rw [List.length_drop]
  omega

theorem search_append {symbols : List α} (inside : search pattern symbols < symbols.length) (more : List α) :
    search pattern (symbols ++ more) = search pattern symbols := by
  have here := at_search inside
  have whole : search pattern symbols + pattern.length ≤ symbols.length := by
    have length := here.length_le
    rw [List.length_drop] at length
    omega
  have absent : ∀ i < search pattern symbols, ¬ pattern <+: (symbols ++ more).drop i :=
    fun i before occurs => not_before_search before (occurs_of_append (by omega) occurs)
  rw [search_of_not_before (by rw [List.length_append]; omega) absent,
    List.drop_append_of_le_length inside.le, search_eq_zero (here.trans (List.prefix_append _ _)),
    Nat.add_zero]

end Search

/-- `step` takes a message, or symbols that are not part of one, off the front of a buffer. -/
structure Framer (α μ : Type*) where
  step : List α → Option (Option μ × List α)
  shrinks : ∀ {symbols m rest}, step symbols = some (m, rest) → rest.length < symbols.length
  decided : ∀ {symbols m rest} (more : List α), step symbols = some (m, rest) →
    step (symbols ++ more) = some (m, rest ++ more)

namespace Framer
variable {α μ : Type*} (F : Framer α μ)

def run (symbols : List α) : List μ × List α :=
  match _taken : F.step symbols with
  | none => ([], symbols)
  | some (m, rest) => (m.toList ++ (run rest).1, (run rest).2)
termination_by symbols.length
decreasing_by all_goals exact F.shrinks _taken

variable {F}

theorem run_wait {symbols : List α} (wait : F.step symbols = none) : F.run symbols = ([], symbols) := by
  rw [run]
  split
  · rfl
  · next taken => rw [wait] at taken; cases taken

theorem run_step {symbols rest : List α} {m : Option μ} (taken : F.step symbols = some (m, rest)) :
    F.run symbols = (m.toList ++ (F.run rest).1, (F.run rest).2) := by
  rw [run]
  split
  · next wait => rw [wait] at taken; cases taken
  · next taken' =>
      rw [taken] at taken'
      cases taken'
      rfl

theorem induction {motive : List α → Prop} (wait : ∀ symbols, F.step symbols = none → motive symbols)
    (step : ∀ symbols m rest, F.step symbols = some (m, rest) → motive rest → motive symbols)
    (symbols : List α) : motive symbols := by
  induction h : symbols.length using Nat.strong_induction_on generalizing symbols with
  | _ n ih =>
    cases decision : F.step symbols with
    | none => exact wait symbols decision
    | some taken =>
      obtain ⟨m, rest⟩ := taken
      exact step symbols m rest decision (ih rest.length (h ▸ F.shrinks decision) rest rfl)

theorem run_append (symbols more : List α) :
    F.run (symbols ++ more) = ((F.run symbols).1 ++ (F.run ((F.run symbols).2 ++ more)).1,
      (F.run ((F.run symbols).2 ++ more)).2) := by
  induction symbols using F.induction with
  | wait symbols wait => rw [run_wait wait, List.nil_append]
  | step symbols m rest taken ih =>
    rw [run_step (F.decided more taken), run_step taken, ih, List.append_assoc]

/-- Buffers that no continuation tells apart. -/
def Same (F : Framer α μ) (symbols symbols' : List α) : Prop :=
  ∀ more, F.step (symbols ++ more) = F.step (symbols' ++ more)

theorem Same.refl (symbols : List α) : F.Same symbols symbols := fun _ => rfl

theorem Same.append {symbols symbols' : List α} (same : F.Same symbols symbols') (more : List α) :
    F.Same (symbols ++ more) (symbols' ++ more) := fun next => by
  rw [List.append_assoc, List.append_assoc]
  exact same (more ++ next)

theorem Same.run {symbols symbols' : List α} (same : F.Same symbols symbols') :
    (F.run symbols).1 = (F.run symbols').1 ∧ F.Same (F.run symbols).2 (F.run symbols').2 := by
  have now := same []
  rw [List.append_nil, List.append_nil] at now
  cases decision : F.step symbols with
  | none =>
    rw [run_wait decision, run_wait (now.symm.trans decision)]
    exact ⟨rfl, same⟩
  | some taken =>
    obtain ⟨m, rest⟩ := taken
    have equal : F.run symbols = F.run symbols' :=
      (run_step decision).trans (run_step (now.symm.trans decision)).symm
    rw [equal]
    exact ⟨rfl, .refl _⟩

/-- What a procedure has found in the stream `symbols` and its buffer, if it forgets nothing that matters. -/
structure Caught (F : Framer α μ) (symbols : List α) (found : List μ) (buffer : List α) : Prop where
  found : found = (F.run symbols).1
  buffer : F.Same (F.run symbols).2 buffer

theorem Caught.start : F.Caught [] (F.run []).1 (F.run []).2 := ⟨rfl, .refl _⟩

theorem Caught.next {symbols buffer chunk buffer' : List α} {found found' : List μ}
    (caught : F.Caught symbols found buffer) (parsed : found' = (F.run (buffer ++ chunk)).1)
    (kept : F.Same (F.run (buffer ++ chunk)).2 buffer') :
    F.Caught (symbols ++ chunk) (found ++ found') buffer' := by
  obtain ⟨messages, rest⟩ := (caught.buffer.append chunk).run
  constructor
  · rw [run_append, caught.found, messages, parsed]
  · rw [run_append]
    exact fun more => (rest more).trans (kept more)

end Framer

end RitCoin.Lib
