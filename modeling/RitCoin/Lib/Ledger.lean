import RitCoin.Lib.Outcome

/-!
# Ledgers of spendable outputs

A transaction spends outputs of earlier transactions and creates outputs of its own. A ledger keeps,
per transaction id, the transaction created last under that id, where it stands, and which
transaction spent each of its outputs. Two views of a ledger are connected here: the history of the
transactions applied so far, and the total value of what is unspent.
-/

namespace RitCoin.Lib

/-- What a ledger needs to know of transactions. -/
structure Form (Id Tx : Type) where
  id : Tx → Id
  spends : Tx → List (Id × Nat)
  values : Tx → List Int

variable {Id Tx Loc : Type} {F : Form Id Tx}

/-- A transaction in the ledger, with the place of the transaction that spent each output. -/
@[ext] structure Coin (F : Form Id Tx) (Loc : Type) where
  tx : Tx
  loc : Loc
  spent : List (Option Loc)
  sized : spent.length = (F.values tx).length

namespace Coin

def new (F : Form Id Tx) (loc : Loc) (tx : Tx) : Coin F Loc :=
  ⟨tx, loc, List.replicate (F.values tx).length none, List.length_replicate⟩

def mark (c : Coin F Loc) (n : Nat) (loc : Loc) : Coin F Loc :=
  { c with spent := c.spent.set n (some loc), sized := by simpa using c.sized }

def FullySpent (c : Coin F Loc) : Prop := none ∉ c.spent

def unspent (c : Coin F Loc) : Int :=
  ((c.spent.zip (F.values c.tx)).map fun output => if output.1.isNone then output.2 else 0).sum

@[simp] theorem mark_tx (c : Coin F Loc) (n : Nat) (loc : Loc) : (c.mark n loc).tx = c.tx := rfl

@[simp] theorem mark_loc (c : Coin F Loc) (n : Nat) (loc : Loc) : (c.mark n loc).loc = c.loc := rfl

@[simp] theorem mark_spent (c : Coin F Loc) (n : Nat) (loc : Loc) :
    (c.mark n loc).spent = c.spent.set n (some loc) := rfl

theorem FullySpent.mark {c : Coin F Loc} (full : c.FullySpent) (n : Nat) (loc : Loc) :
    (c.mark n loc).FullySpent := by
  intro member
  rcases List.mem_or_eq_of_mem_set member with old | new
  · exact full old
  · cases new

end Coin

private theorem sum_unspent_set (spent : List (Option Loc)) (values : List Int) (n : Nat) (loc : Loc)
    (sized : spent.length = values.length) (free : spent[n]? = some none) :
    (((spent.set n (some loc)).zip values).map
      fun output => if output.1.isNone then output.2 else 0).sum =
    ((spent.zip values).map fun output => if output.1.isNone then output.2 else 0).sum
      - values[n]?.getD 0 := by
  induction spent generalizing values n with
  | nil => simp at free
  | cons s spent ih =>
    cases values with
    | nil => simp at sized
    | cons v values =>
      cases n with
      | zero =>
        simp only [List.getElem?_cons_zero, Option.some.injEq] at free
        simp [free]
      | succ n =>
        have rest := ih values n (by simpa using sized) (by simpa using free)
        simp only [List.set_cons_succ, List.zip_cons_cons, List.map_cons, List.sum_cons, rest,
          List.getElem?_cons_succ]
        ring

namespace Coin

theorem unspent_mark (c : Coin F Loc) (n : Nat) (loc : Loc) (free : c.spent[n]? = some none) :
    (c.mark n loc).unspent = c.unspent - (F.values c.tx)[n]?.getD 0 :=
  sum_unspent_set c.spent (F.values c.tx) n loc c.sized free

theorem unspent_new (loc : Loc) (tx : Tx) : (new F loc tx).unspent = (F.values tx).sum := by
  have all : ∀ values : List Int, (((List.replicate values.length (none : Option Loc)).zip values).map
      fun output => if output.1.isNone then output.2 else 0).sum = values.sum := by
    intro values
    induction values with
    | nil => rfl
    | cons v values ih => simpa [List.replicate_succ] using ih
  exact all _

theorem FullySpent.unspent_eq_zero {c : Coin F Loc} (full : c.FullySpent) : c.unspent = 0 := by
  apply List.sum_eq_zero
  intro x member
  obtain ⟨⟨s, v⟩, pair, rfl⟩ := List.mem_map.mp member
  cases s with
  | none => exact absurd (List.of_mem_zip pair).1 full
  | some s => rfl

theorem unspent_nonneg (c : Coin F Loc) (positive : ∀ v ∈ F.values c.tx, 0 ≤ v) :
    0 ≤ c.unspent := by
  apply List.sum_nonneg
  intro x member
  obtain ⟨⟨s, v⟩, pair, rfl⟩ := List.mem_map.mp member
  have := positive v (List.of_mem_zip pair).2
  cases s <;> simp [this]

end Coin

abbrev Coins (F : Form Id Tx) (Loc : Type) := Id → Option (Coin F Loc)

namespace Coins
variable [DecidableEq Id]
variable {id : Id}

def spend (loc : Loc) (coins : Coins F Loc) (o : Id × Nat) : Coins F Loc :=
  Function.update coins o.1 ((coins o.1).map (·.mark o.2 loc))

def spendAll (coins : Coins F Loc) (loc : Loc) (outputs : List (Id × Nat)) : Coins F Loc :=
  outputs.foldl (spend loc) coins

def create (coins : Coins F Loc) (loc : Loc) (tx : Tx) : Coins F Loc :=
  Function.update coins (F.id tx) (some (.new F loc tx))

def apply (coins : Coins F Loc) (loc : Loc) (tx : Tx) : Coins F Loc :=
  (coins.spendAll loc (F.spends tx)).create loc tx

def Unspent (coins : Coins F Loc) (o : Id × Nat) : Prop :=
  ∃ c, coins o.1 = some c ∧ c.spent[o.2]? = some none

/-- The transaction spends each output once, and only unspent ones. -/
structure Applicable (coins : Coins F Loc) (tx : Tx) : Prop where
  nodup : (F.spends tx).Nodup
  unspent : ∀ o ∈ F.spends tx, coins.Unspent o

theorem spend_of_ne (loc : Loc) (coins : Coins F Loc) (o : Id × Nat) (ne : id ≠ o.1) :
    spend loc coins o id = coins id := by
  simp [spend, ne]

theorem spend_self (loc : Loc) (coins : Coins F Loc) (o : Id × Nat) :
    spend loc coins o o.1 = (coins o.1).map (·.mark o.2 loc) := by
  simp [spend]

theorem spendAll_cons (coins : Coins F Loc) (loc : Loc) (o : Id × Nat) (rest : List (Id × Nat)) :
    coins.spendAll loc (o :: rest) = (spend loc coins o).spendAll loc rest := rfl

theorem spendAll_some (loc : Loc) (outputs : List (Id × Nat)) :
    ∀ (coins : Coins F Loc) (id : Id) (c : Coin F Loc), coins id = some c →
      ∃ c', coins.spendAll loc outputs id = some c' ∧ c'.tx = c.tx ∧ c'.loc = c.loc ∧
        ∀ n, c'.spent[n]? =
          if (id, n) ∈ outputs ∧ n < c.spent.length then some (some loc) else c.spent[n]? := by
  induction outputs with
  | nil => intro coins id c h; exact ⟨c, h, rfl, rfl, by simp⟩
  | cons o rest ih =>
    intro coins id c h
    by_cases same : id = o.1
    · subst same
      have first : spend loc coins o o.1 = some (c.mark o.2 loc) := by rw [spend_self, h]; rfl
      obtain ⟨c', found, tx, place, marks⟩ := ih (spend loc coins o) o.1 (c.mark o.2 loc) first
      refine ⟨c', found, tx, place, fun n => ?_⟩
      have pair : (o.1, n) = o ↔ o.2 = n := by
        constructor
        · intro eq; rw [← eq]
        · rintro rfl; rfl
      simp only [marks n, Coin.mark_spent, List.length_set, List.getElem?_set, List.mem_cons, pair]
      grind
    · obtain ⟨c', found, tx, place, marks⟩ := ih (spend loc coins o) id c
        (by rw [spend_of_ne loc coins o same, h])
      refine ⟨c', found, tx, place, fun n => ?_⟩
      have other : (id, n) ≠ o := fun eq => same (by rw [← eq])
      simp only [marks n, List.mem_cons, other, false_or]

theorem spendAll_none (loc : Loc) (outputs : List (Id × Nat)) :
    ∀ (coins : Coins F Loc) (id : Id), coins id = none → coins.spendAll loc outputs id = none := by
  induction outputs with
  | nil => intro coins id h; exact h
  | cons o rest ih =>
    intro coins id h
    apply ih
    by_cases same : id = o.1
    · subst same; rw [spend_self, h]; rfl
    · rw [spend_of_ne loc coins o same, h]

theorem spendAll_of_not_mem (loc : Loc) (outputs : List (Id × Nat)) :
    ∀ (coins : Coins F Loc) (id : Id), (∀ o ∈ outputs, o.1 ≠ id) →
      coins.spendAll loc outputs id = coins id := by
  induction outputs with
  | nil => intro coins id _; rfl
  | cons o rest ih =>
    intro coins id free
    rw [spendAll_cons, ih _ _ (fun o' member => free o' (.tail _ member)),
      spend_of_ne loc coins o (free o (.head _)).symm]

theorem apply_self (coins : Coins F Loc) (loc : Loc) (tx : Tx) :
    coins.apply loc tx (F.id tx) = some (.new F loc tx) := by
  simp [apply, create]

theorem apply_of_ne (coins : Coins F Loc) (loc : Loc) (tx : Tx) (ne : id ≠ F.id tx) :
    coins.apply loc tx id = coins.spendAll loc (F.spends tx) id := by
  simp [apply, create, ne]

section History
variable [LinearOrder Loc]
variable {loc : Loc} {history : List (Loc × Tx)} {tx : Tx} {p q : Loc × Tx} {o : Id × Nat}

/-- The coins are the result of applying the transactions of the history, oldest first, each at a
later place than the ones before it. -/
inductive Applied : List (Loc × Tx) → Coins F Loc → Prop
  | start : Applied [] fun _ => none
  | next {history : List (Loc × Tx)} {coins : Coins F Loc} {loc : Loc} {tx : Tx} :
      Applied history coins → (∀ e ∈ history, e.1 < loc) → coins.Applicable tx →
      Applied (history ++ [(loc, tx)]) (coins.apply loc tx)

/-- What a coin says about the history: it is the last transaction with its id, and an output is
marked exactly by the transaction that spent it since. -/
structure Records (history : List (Loc × Tx)) (id : Id) (c : Coin F Loc) : Prop where
  id_eq : F.id c.tx = id
  created : (c.loc, c.tx) ∈ history
  latest : ∀ e ∈ history, F.id e.2 = id → e.1 ≤ c.loc
  spender : ∀ n q, c.spent[n]? = some (some q) →
    ∃ tx, (q, tx) ∈ history ∧ c.loc < q ∧ (id, n) ∈ F.spends tx
  marked : ∀ e ∈ history, ∀ n, c.loc < e.1 → (id, n) ∈ F.spends e.2 → c.spent[n]? = some (some e.1)

omit [DecidableEq Id] in
theorem Records.new (later : ∀ e ∈ history, e.1 < loc) (tx : Tx) :
    Records (history ++ [(loc, tx)]) (F.id tx) (.new F loc tx) where
  id_eq := rfl
  created := by simp [Coin.new]
  latest e member _ := by
    rcases List.mem_append.mp member with old | new
    · exact (later e old).le
    · rw [List.mem_singleton.mp new]; exact le_rfl
  spender n q h := by simp [Coin.new, List.getElem?_replicate] at h
  marked e member n after _ := by
    rcases List.mem_append.mp member with old | new
    · exact absurd after (later e old).not_gt
    · rw [List.mem_singleton.mp new] at after; exact absurd after (lt_irrefl _)

theorem Records.keep {coins : Coins F Loc} {c c' : Coin F Loc} (records : Records history id c)
    (found : coins id = some c) (later : ∀ e ∈ history, e.1 < loc) (applicable : coins.Applicable tx)
    (ne : id ≠ F.id tx) (same : c'.tx = c.tx) (place : c'.loc = c.loc)
    (marks : ∀ n, c'.spent[n]? = if (id, n) ∈ F.spends tx ∧ n < c.spent.length then some (some loc)
      else c.spent[n]?) :
    Records (history ++ [(loc, tx)]) id c' where
  id_eq := same ▸ records.id_eq
  created := by rw [same, place]; exact List.mem_append_left _ records.created
  latest e member idEq := by
    rcases List.mem_append.mp member with old | new
    · exact place ▸ records.latest e old idEq
    · rw [List.mem_singleton.mp new] at idEq; exact absurd idEq.symm ne
  spender n q h := by
    rw [marks n] at h
    split at h
    · next spent =>
        cases h
        exact ⟨tx, by simp, place ▸ later _ records.created, spent.1⟩
    · obtain ⟨tx', member, after, spends⟩ := records.spender n q h
      exact ⟨tx', List.mem_append_left _ member, place ▸ after, spends⟩
  marked e member n after spends := by
    rw [marks n]
    rcases List.mem_append.mp member with old | new
    · have already := records.marked e old n (place ▸ after) spends
      by_cases now : (id, n) ∈ F.spends tx
      · -- an output marked before is not unspent
        obtain ⟨d, lookup, free⟩ := applicable.unspent _ now
        rw [found] at lookup
        cases lookup
        rw [already] at free
        cases free
      · simp [now, already]
    · rw [List.mem_singleton.mp new] at spends ⊢
      obtain ⟨d, lookup, free⟩ := applicable.unspent _ spends
      rw [found] at lookup
      cases lookup
      simp [spends, (List.getElem?_eq_some_iff.mp free).1]

namespace Applied
variable {history : List (Loc × Tx)} {coins : Coins F Loc}

theorem records (applied : Applied history coins) :
    ∀ id c, coins id = some c → Records history id c := by
  induction applied with
  | start => intro id c h; cases h
  | @next history coins loc tx _ later applicable ih =>
    intro id c' h
    by_cases same : id = F.id tx
    · subst same
      rw [apply_self] at h
      cases h
      exact .new later tx
    · rw [apply_of_ne _ _ _ same] at h
      cases found : coins id with
      | none => rw [spendAll_none loc _ _ _ found] at h; cases h
      | some c =>
        obtain ⟨d, lookup, tx', place, marks⟩ := spendAll_some loc (F.spends tx) coins id c found
        rw [lookup] at h
        cases h
        exact (ih id c found).keep found later applicable same tx' place marks

theorem isSome (applied : Applied history coins) :
    ∀ e ∈ history, (coins (F.id e.2)).isSome := by
  induction applied with
  | start => simp
  | @next history coins loc tx _ later _ ih =>
    intro e member
    by_cases same : F.id e.2 = F.id tx
    · rw [same, apply_self]; rfl
    · rw [apply_of_ne _ _ _ same]
      rcases List.mem_append.mp member with old | new
      · obtain ⟨c, found⟩ := Option.isSome_iff_exists.mp (ih e old)
        obtain ⟨d, lookup, _⟩ := spendAll_some loc (F.spends tx) coins _ c found
        rw [lookup]; rfl
      · rw [List.mem_singleton.mp new] at same; exact absurd rfl same

end Applied

/-- The transaction at `q` spends the output `o` as the transaction at `p` created it. -/
structure Consumes (F : Form Id Tx) (history : List (Loc × Tx)) (p q : Loc × Tx) (o : Id × Nat) :
    Prop where
  creator : p ∈ history
  spender : q ∈ history
  before : p.1 < q.1
  id_eq : F.id p.2 = o.1
  spends : o ∈ F.spends q.2
  last : ∀ e ∈ history, F.id e.2 = o.1 → e.1 < q.1 → e.1 ≤ p.1

omit [DecidableEq Id] in
theorem Consumes.of_append (consumes : Consumes F (history ++ [(loc, tx)]) p q o)
    (later : ∀ e ∈ history, e.1 < loc) (old : q ∈ history) : Consumes F history p q o where
  creator := by
    rcases List.mem_append.mp consumes.creator with h | h
    · exact h
    · rw [List.mem_singleton.mp h] at consumes
      exact absurd consumes.before (later q old).not_gt
  spender := old
  before := consumes.before
  id_eq := consumes.id_eq
  spends := consumes.spends
  last e member := consumes.last e (List.mem_append_left _ member)

omit [DecidableEq Id] in
theorem Consumes.append (consumes : Consumes F history p q o) (later : ∀ e ∈ history, e.1 < loc) :
    Consumes F (history ++ [(loc, tx)]) p q o where
  creator := List.mem_append_left _ consumes.creator
  spender := List.mem_append_left _ consumes.spender
  before := consumes.before
  id_eq := consumes.id_eq
  spends := consumes.spends
  last e member idEq before := by
    rcases List.mem_append.mp member with old | new
    · exact consumes.last e old idEq before
    · rw [List.mem_singleton.mp new] at before
      exact absurd before (later q consumes.spender).not_gt

namespace Applied
variable {history : List (Loc × Tx)} {coins : Coins F Loc}
variable (applied : Applied history coins)
include applied

theorem exists_consumes :
    ∀ q ∈ history, ∀ o ∈ F.spends q.2,
      ∃ p, Consumes F history p q o ∧ o.2 < (F.values p.2).length := by
  induction applied with
  | start => simp
  | @next history coins loc tx applied later applicable ih =>
    intro q member o spends
    rcases List.mem_append.mp member with old | new
    · obtain ⟨p, consumes, bound⟩ := ih q old o spends
      exact ⟨p, consumes.append later, bound⟩
    · rw [List.mem_singleton.mp new] at spends ⊢
      obtain ⟨c, found, free⟩ := applicable.unspent o spends
      have records := applied.records o.1 c found
      refine ⟨(c.loc, c.tx), ⟨List.mem_append_left _ records.created, by simp,
        later _ records.created, records.id_eq, spends, ?_⟩, ?_⟩
      · intro e member idEq before
        rcases List.mem_append.mp member with old | new
        · exact records.latest e old idEq
        · rw [List.mem_singleton.mp new] at before; exact absurd before (lt_irrefl _)
      · rw [← c.sized]; exact (List.getElem?_eq_some_iff.mp free).1

theorem eq_of_loc_eq : ∀ e ∈ history, ∀ e' ∈ history, e.1 = e'.1 → e = e' := by
  induction applied with
  | start => simp
  | next _ later _ ih =>
    intro e member e' member' same
    rcases List.mem_append.mp member with old | new <;> rcases List.mem_append.mp member' with old' | new'
    · exact ih e old e' old' same
    · rw [List.mem_singleton.mp new'] at same
      exact absurd same (later e old).ne
    · rw [List.mem_singleton.mp new] at same
      exact absurd same.symm (later e' old').ne
    · rw [List.mem_singleton.mp new, List.mem_singleton.mp new']

theorem consumed_eq (later : ∀ e ∈ history, e.1 < loc) {c : Coin F Loc}
    (consumes : Consumes F (history ++ [(loc, tx)]) p (loc, tx) o) (found : coins o.1 = some c) :
    p = (c.loc, c.tx) := by
  have records := applied.records o.1 c found
  have member : p ∈ history := by
    rcases List.mem_append.mp consumes.creator with old | new
    · exact old
    · rw [List.mem_singleton.mp new] at consumes
      exact absurd consumes.before (lt_irrefl _)
  apply applied.eq_of_loc_eq p member _ records.created
  apply le_antisymm
  · exact records.latest p member consumes.id_eq
  · exact consumes.last _ (List.mem_append_left _ records.created) records.id_eq (later _ records.created)

theorem not_consumed (later : ∀ e ∈ history, e.1 < loc) (applicable : coins.Applicable tx)
    (first : Consumes F history p q o) (second : Consumes F (history ++ [(loc, tx)]) p (loc, tx) o) : False := by
  obtain ⟨c, found, free⟩ := applicable.unspent o second.spends
  have records := applied.records o.1 c found
  have created : c.loc ≤ p.1 := second.last (c.loc, c.tx) (List.mem_append_left _ records.created)
    records.id_eq (later _ records.created)
  have marked := records.marked q first.spender o.2 (lt_of_le_of_lt created first.before) first.spends
  rw [marked] at free
  cases free

theorem consumes_unique : ∀ p q q' o, Consumes F history p q o → Consumes F history p q' o → q = q' := by
  induction applied with
  | start => intro p q q' o h; cases h.creator
  | @next history coins loc tx applied later applicable ih =>
    intro p q q' o first second
    rcases List.mem_append.mp first.spender with old | new <;>
      rcases List.mem_append.mp second.spender with old' | new'
    · exact ih p q q' o (first.of_append later old) (second.of_append later old')
    · rw [List.mem_singleton.mp new'] at second
      exact (applied.not_consumed later applicable (first.of_append later old) second).elim
    · rw [List.mem_singleton.mp new] at first
      exact (applied.not_consumed later applicable (second.of_append later old') first).elim
    · rw [List.mem_singleton.mp new, List.mem_singleton.mp new']

theorem nodup_spends : ∀ e ∈ history, (F.spends e.2).Nodup := by
  induction applied with
  | start => simp
  | next _ _ applicable ih =>
    intro e member
    rcases List.mem_append.mp member with old | new
    · exact ih e old
    · rw [List.mem_singleton.mp new]
      exact applicable.nodup

end Applied

end History

end Coins

end RitCoin.Lib
