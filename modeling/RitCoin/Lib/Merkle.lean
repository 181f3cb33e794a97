import RitCoin.Lib.Outcome

/-!
# Hash trees

The levels of a tree over a list of leaves. A last odd node is paired with itself, so a list can have
the root of a longer one, but not if neither has a leaf twice.
-/

namespace RitCoin.Lib
universe u
variable {α : Type u}

def pairUp : List α → List (α × α)
  | [] => []
  | [a] => [(a, a)]
  | a :: b :: rest => (a, b) :: pairUp rest

@[simp] theorem length_pairUp (level : List α) : (pairUp level).length = (level.length + 1) / 2 := by
  induction level using pairUp.induct with
  | case1 => simp [pairUp]
  | case2 a => simp [pairUp]
  | case3 a b rest ih =>
    simp only [pairUp, List.length_cons, ih]
    omega

theorem mem_of_mem_pairUp {level : List α} {p : α × α} (member : p ∈ pairUp level) :
    p.1 ∈ level ∧ p.2 ∈ level := by
  induction level using pairUp.induct with
  | case1 => cases member
  | case2 a =>
    rw [pairUp, List.mem_singleton] at member
    simp [member]
  | case3 a b rest ih =>
    rw [pairUp, List.mem_cons] at member
    rcases member with rfl | inRest
    · simp
    · exact (ih inRest).imp (fun h => by simp [h]) fun h => by simp [h]

theorem nodup_pairUp {level : List α} (nodup : level.Nodup) : (pairUp level).Nodup := by
  induction level using pairUp.induct with
  | case1 => exact List.nodup_nil
  | case2 a => exact List.nodup_singleton _
  | case3 a b rest ih =>
    simp only [List.nodup_cons, List.mem_cons, not_or] at nodup
    rw [pairUp, List.nodup_cons]
    exact ⟨fun member => nodup.1.2 (mem_of_mem_pairUp member).1, ih nodup.2.2⟩

theorem eq_of_pairUp_eq : ∀ {level level' : List α}, level.Nodup → level'.Nodup →
    pairUp level = pairUp level' → level = level' := by
  intro level
  induction level using pairUp.induct with
  | case1 =>
    intro level' _ _ same
    have length := congrArg List.length same
    rw [length_pairUp, length_pairUp] at length
    exact (List.length_eq_zero_iff.mp (by simp at length; omega)).symm
  | case2 a =>
    intro level' _ nodup same
    match level' with
    | [] => cases same
    | [b] =>
      cases same
      rfl
    | b :: c :: rest =>
      simp only [pairUp, List.cons.injEq, Prod.mk.injEq] at same
      simp only [List.nodup_cons, List.mem_cons, not_or] at nodup
      exact absurd (same.1.1.symm.trans same.1.2) nodup.1.1
  | case3 a b rest ih =>
    intro level' nodup nodup' same
    simp only [List.nodup_cons, List.mem_cons, not_or] at nodup
    match level' with
    | [] => cases same
    | [c] =>
      simp only [pairUp, List.cons.injEq, Prod.mk.injEq] at same
      exact absurd (same.1.1.trans same.1.2.symm) nodup.1.1
    | c :: d :: rest' =>
      simp only [pairUp, List.cons.injEq, Prod.mk.injEq] at same
      simp only [List.nodup_cons, List.mem_cons, not_or] at nodup'
      obtain ⟨⟨rfl, rfl⟩, same⟩ := same
      rw [ih nodup.2.2 nodup'.2.2 same]

section Tree
variable (pair : α → α → α)
variable {level leaves : List α} {fuel : ℕ}

def levelUp (level : List α) : List α := (pairUp level).map fun p => pair p.1 p.2

/-- The levels from `level` up. Each is about half as long as the one below it. -/
def levels : ℕ → List α → List (List α)
  | 0, level => [level]
  | fuel + 1, level =>
    if level.length ≤ 1 then [level] else level :: levels fuel (levelUp pair level)

def root? (fuel : ℕ) (leaves : List α) : Option α := (levels pair fuel leaves).flatten.getLast?

def hashed (fuel : ℕ) (leaves : List α) : List (α × α) :=
  ((levels pair fuel leaves).filter fun level => 1 < level.length).flatMap pairUp

variable {pair}

theorem length_levelUp (level : List α) : (levelUp pair level).length = (level.length + 1) / 2 := by
  rw [levelUp, List.length_map, length_pairUp]

theorem levels_short (short : level.length ≤ 1) (fuel : ℕ) : levels pair fuel level = [level] := by
  cases fuel with
  | zero => rfl
  | succ fuel => rw [levels, if_pos short]

theorem levels_long (long : 1 < level.length) (fuel : ℕ) :
    levels pair (fuel + 1) level = level :: levels pair fuel (levelUp pair level) := by
  rw [levels, if_neg (Nat.not_le.mpr long)]

theorem mem_levels_self (fuel : ℕ) (level : List α) : level ∈ levels pair fuel level := by
  cases fuel with
  | zero => exact List.mem_singleton_self level
  | succ fuel =>
    rw [levels]
    split_ifs
    · exact List.mem_singleton_self level
    · exact List.mem_cons_self

theorem mem_hashed {p : α × α} (member : level ∈ levels pair fuel leaves) (long : 1 < level.length)
    (hp : p ∈ pairUp level) : p ∈ hashed pair fuel leaves := by
  rw [hashed, List.mem_flatMap]
  exact ⟨level, List.mem_filter.mpr ⟨member, decide_eq_true long⟩, hp⟩

theorem hashed_levelUp (long : 1 < level.length) {p : α × α} (member : p ∈ hashed pair fuel (levelUp pair level)) :
    p ∈ hashed pair (fuel + 1) level := by
  rw [hashed, List.mem_flatMap] at member
  obtain ⟨above, inLevels, hp⟩ := member
  rw [List.mem_filter, decide_eq_true_eq] at inLevels
  refine mem_hashed ?_ inLevels.2 hp
  rw [levels_long long]
  exact List.mem_cons_of_mem _ inLevels.1

@[simp] theorem root?_singleton (fuel : ℕ) (leaf : α) : root? pair fuel [leaf] = some leaf := by
  rw [root?, levels_short (by simp)]
  rfl

theorem root?_long (long : 1 < level.length) (fuel : ℕ) :
    root? pair (fuel + 1) level = root? pair fuel (levelUp pair level) := by
  have above : (levels pair fuel (levelUp pair level)).flatten ≠ [] := by
    intro empty
    have nil := List.flatten_eq_nil_iff.mp empty _ (mem_levels_self fuel (levelUp pair level))
    have length : (levelUp pair level).length = (level.length + 1) / 2 := length_levelUp level
    rw [nil, List.length_nil] at length
    omega
  rw [root?, levels_long long, List.flatten_cons, List.getLast?_append_of_ne_nil _ above, root?]

theorem singleton_mem_levels : ∀ {fuel : ℕ} {level : List α} {root : α}, level.length ≤ fuel + 1 →
    root? pair fuel level = some root → [root] ∈ levels pair fuel level := by
  intro fuel
  induction fuel with
  | zero =>
    intro level root bound isRoot
    match level with
    | [] => cases isRoot
    | [leaf] =>
      rw [root?_singleton, Option.some.injEq] at isRoot
      exact isRoot ▸ mem_levels_self 0 [leaf]
    | a :: b :: rest => simp at bound
  | succ fuel ih =>
    intro level root bound isRoot
    by_cases long : 1 < level.length
    · rw [root?_long long] at isRoot
      rw [levels_long long]
      refine List.mem_cons_of_mem _ (ih ?_ isRoot)
      rw [length_levelUp]
      omega
    · match level with
      | [] => simp [root?, levels] at isRoot
      | [leaf] =>
        rw [root?_singleton, Option.some.injEq] at isRoot
        exact isRoot ▸ mem_levels_self _ [leaf]
      | a :: b :: rest => simp at long

theorem exists_below : ∀ {fuel : ℕ} {level above : List α}, 1 < level.length →
    above ∈ levels pair fuel (levelUp pair level) →
    ∃ below ∈ levels pair (fuel + 1) level, 1 < below.length ∧ above = levelUp pair below := by
  intro fuel
  induction fuel with
  | zero =>
    intro level above long member
    exact ⟨level, mem_levels_self _ _, long, List.mem_singleton.mp member⟩
  | succ fuel ih =>
    intro level above long member
    by_cases longUp : 1 < (levelUp pair level).length
    · rw [levels_long longUp, List.mem_cons] at member
      rcases member with rfl | higher
      · exact ⟨level, mem_levels_self _ _, long, rfl⟩
      · obtain ⟨below, inLevels, longBelow, eq⟩ := ih longUp higher
        refine ⟨below, ?_, longBelow, eq⟩
        rw [levels_long long]
        exact List.mem_cons_of_mem _ inLevels
    · rw [levels_short (Nat.not_lt.mp longUp), List.mem_singleton] at member
      exact ⟨level, mem_levels_self _ _, long, member⟩

section Collisions
variable {S : Set (α × α)}

theorem nodup_levelUp (inj : Set.InjOn (fun p : α × α => pair p.1 p.2) S) {level : List α}
    (nodup : level.Nodup) (inS : ∀ p ∈ pairUp level, p ∈ S) : (levelUp pair level).Nodup :=
  (nodup_pairUp nodup).map_on fun p hp q hq => inj (inS p hp) (inS q hq)

theorem eq_of_map_eq {β : Type*} {f : α → β} {S : Set α} (inj : Set.InjOn f S) :
    ∀ {xs ys : List α}, (∀ x ∈ xs, x ∈ S) → (∀ y ∈ ys, y ∈ S) → xs.map f = ys.map f → xs = ys := by
  intro xs
  induction xs with
  | nil =>
    intro ys _ _ same
    exact (List.map_eq_nil_iff.mp same.symm).symm
  | cons x xs ih =>
    intro ys inS inS' same
    cases ys with
    | nil => cases same
    | cons y ys =>
      rw [List.map_cons, List.map_cons, List.cons.injEq] at same
      rw [List.forall_mem_cons] at inS inS'
      rw [inj inS.1 inS'.1 same.1, ih inS.2 inS'.2 same.2]

section
variable (inj : Set.InjOn (fun p : α × α => pair p.1 p.2) S)
include inj

theorem eq_of_levelUp_eq {level level' : List α} (nodup : level.Nodup) (nodup' : level'.Nodup)
    (inS : ∀ p ∈ pairUp level, p ∈ S) (inS' : ∀ p ∈ pairUp level', p ∈ S)
    (same : levelUp pair level = levelUp pair level') : level = level' :=
  eq_of_pairUp_eq nodup nodup' (eq_of_map_eq inj inS inS' same)

theorem nodup_of_mem_levels :
    ∀ {fuel : ℕ} {leaves level : List α}, leaves.Nodup → (∀ p ∈ hashed pair fuel leaves, p ∈ S) →
      level ∈ levels pair fuel leaves → level.Nodup := by
  intro fuel
  induction fuel with
  | zero =>
    intro leaves level nodup _ member
    exact List.mem_singleton.mp member ▸ nodup
  | succ fuel ih =>
    intro leaves level nodup inS member
    by_cases long : 1 < leaves.length
    · rw [levels_long long, List.mem_cons] at member
      rcases member with rfl | higher
      · exact nodup
      · refine ih ?_ (fun p hp => inS p (hashed_levelUp long hp)) higher
        exact nodup_levelUp inj nodup fun p hp => inS p (mem_hashed (mem_levels_self _ _) long hp)
    · rw [levels_short (Nat.not_lt.mp long), List.mem_singleton] at member
      exact member ▸ nodup

theorem mem_levels_of_levelUp {level : List α} (nodup : level.Nodup) (inS : ∀ p ∈ pairUp level, p ∈ S)
    (nodupLeaves : leaves.Nodup) (long : 1 < leaves.length) (inLeaves : ∀ p ∈ hashed pair (fuel + 1) leaves, p ∈ S)
    (above : levelUp pair level ∈ levels pair fuel (levelUp pair leaves)) :
    level ∈ levels pair (fuel + 1) leaves := by
  obtain ⟨below, inLevels, longBelow, same⟩ := exists_below long above
  have nodupBelow := nodup_of_mem_levels inj nodupLeaves inLeaves inLevels
  have inBelow : ∀ p ∈ pairUp below, p ∈ S := fun p hp => inLeaves p (mem_hashed inLevels longBelow hp)
  rw [eq_of_levelUp_eq inj nodup nodupBelow inS inBelow same]
  exact inLevels

theorem mem_levels_of_root?_eq :
    ∀ {fuel fuel' : ℕ} {leaves leaves' : List α}, leaves ≠ [] → leaves' ≠ [] →
      leaves.length ≤ fuel + 1 → leaves'.length ≤ fuel' + 1 → leaves.Nodup → leaves'.Nodup →
      (∀ p ∈ hashed pair fuel leaves, p ∈ S) → (∀ p ∈ hashed pair fuel' leaves', p ∈ S) →
      root? pair fuel leaves = root? pair fuel' leaves' →
      leaves ∈ levels pair fuel' leaves' ∨ leaves' ∈ levels pair fuel leaves := by
  intro fuel
  induction fuel with
  | zero =>
    intro fuel' leaves leaves' nonempty _ bound bound' _ _ _ _ same
    obtain ⟨leaf, rfl⟩ := List.length_eq_one_iff.mp
      (le_antisymm bound (List.length_pos_iff.mpr nonempty))
    rw [root?_singleton] at same
    exact .inl (singleton_mem_levels bound' same.symm)
  | succ fuel ih =>
    intro fuel' leaves leaves' nonempty nonempty' bound bound' nodup nodup' inS inS' same
    by_cases long : 1 < leaves.length
    · by_cases long' : 1 < leaves'.length
      · obtain ⟨fuel', rfl⟩ := Nat.exists_eq_add_one.mpr (show 0 < fuel' by omega)
        rw [root?_long long, root?_long long'] at same
        have inLevel : ∀ p ∈ pairUp leaves, p ∈ S :=
          fun p hp => inS p (mem_hashed (mem_levels_self _ _) long hp)
        have inLevel' : ∀ p ∈ pairUp leaves', p ∈ S :=
          fun p hp => inS' p (mem_hashed (mem_levels_self _ _) long' hp)
        have upper : levelUp pair leaves ∈ levels pair fuel' (levelUp pair leaves') ∨
            levelUp pair leaves' ∈ levels pair fuel (levelUp pair leaves) := ih
          (List.length_pos_iff.mp (by rw [length_levelUp]; omega))
          (List.length_pos_iff.mp (by rw [length_levelUp]; omega))
          (by rw [length_levelUp]; omega) (by rw [length_levelUp]; omega)
          (nodup_levelUp inj nodup inLevel) (nodup_levelUp inj nodup' inLevel')
          (fun p hp => inS p (hashed_levelUp long hp)) (fun p hp => inS' p (hashed_levelUp long' hp)) same
        rcases upper with above | above
        · exact .inl (mem_levels_of_levelUp inj nodup inLevel nodup' long' inS' above)
        · exact .inr (mem_levels_of_levelUp inj nodup' inLevel' nodup long inS above)
      · obtain ⟨leaf, rfl⟩ := List.length_eq_one_iff.mp
          (le_antisymm (Nat.not_lt.mp long') (List.length_pos_iff.mpr nonempty'))
        rw [root?_singleton] at same
        exact .inr (singleton_mem_levels bound same)
    · obtain ⟨leaf, rfl⟩ := List.length_eq_one_iff.mp
        (le_antisymm (Nat.not_lt.mp long) (List.length_pos_iff.mpr nonempty))
      rw [root?_singleton] at same
      exact .inl (singleton_mem_levels bound' same.symm)

end

theorem eq_or_pair_mem {level : List α} (member : level ∈ levels pair fuel leaves) :
    level = leaves ∨ ∃ p ∈ hashed pair fuel leaves, pair p.1 p.2 ∈ level := by
  cases fuel with
  | zero => exact .inl (List.mem_singleton.mp member)
  | succ fuel =>
    by_cases long : 1 < leaves.length
    · rw [levels_long long, List.mem_cons] at member
      rcases member with same | higher
      · exact .inl same
      · obtain ⟨below, inLevels, longBelow, rfl⟩ := exists_below long higher
        match below with
        | [] => simp at longBelow
        | [a] => simp at longBelow
        | a :: b :: rest =>
          refine .inr ⟨(a, b), mem_hashed inLevels longBelow ?_, ?_⟩
          · simp [pairUp]
          · simp [levelUp, pairUp]
    · rw [levels_short (Nat.not_lt.mp long), List.mem_singleton] at member
      exact .inl member

theorem eq_of_root?_eq (inj : Set.InjOn (fun p : α × α => pair p.1 p.2) S) {fuel' : ℕ} {leaves' : List α}
    (nonempty : leaves ≠ []) (nonempty' : leaves' ≠ []) (bound : leaves.length ≤ fuel + 1)
    (bound' : leaves'.length ≤ fuel' + 1) (nodup : leaves.Nodup) (nodup' : leaves'.Nodup)
    (inS : ∀ p ∈ hashed pair fuel leaves, p ∈ S) (inS' : ∀ p ∈ hashed pair fuel' leaves', p ∈ S)
    (leaf : ∀ p ∈ S, pair p.1 p.2 ∉ leaves) (leaf' : ∀ p ∈ S, pair p.1 p.2 ∉ leaves')
    (same : root? pair fuel leaves = root? pair fuel' leaves') : leaves = leaves' := by
  rcases mem_levels_of_root?_eq inj nonempty nonempty' bound bound' nodup nodup' inS inS' same with
    upper | upper
  · rcases eq_or_pair_mem upper with eq | ⟨p, hp, isLeaf⟩
    · exact eq
    · exact absurd isLeaf (leaf p (inS' p hp))
  · rcases eq_or_pair_mem upper with eq | ⟨p, hp, isLeaf⟩
    · exact eq.symm
    · exact absurd isLeaf (leaf' p (inS p hp))

end Collisions

theorem getElem?_pairUp (level : List α) (k : ℕ) :
    (pairUp level)[k]? = level[2 * k]?.map fun a => (a, level[2 * k + 1]?.getD a) := by
  induction level using pairUp.induct generalizing k with
  | case1 => simp [pairUp]
  | case2 a =>
    cases k with
    | zero => simp [pairUp]
    | succ k => simp [pairUp, Nat.mul_succ]
  | case3 a b rest ih =>
    cases k with
    | zero => simp [pairUp]
    | succ k => simpa [pairUp, Nat.mul_succ] using ih k

def sibling? (level : List α) (i : ℕ) : Option α := level[min (i ^^^ 1) (level.length - 1)]?

theorem exists_sibling {i : ℕ} (inside : i < level.length) : ∃ sibling, sibling? level i = some sibling :=
  ⟨_, List.getElem?_eq_getElem (show min (i ^^^ 1) (level.length - 1) < level.length by omega)⟩

theorem levelUp_over {i : ℕ} {node sibling : α} (isNode : level[i]? = some node)
    (isSibling : sibling? level i = some sibling) :
    (levelUp pair level)[i / 2]? = some (if i % 2 = 1 then pair sibling node else pair node sibling) := by
  obtain ⟨inside, -⟩ := List.getElem?_eq_some_iff.mp isNode
  rw [levelUp, List.getElem?_map, getElem?_pairUp]
  rw [sibling?] at isSibling
  rcases Nat.even_or_odd i with even | odd
  · have half : 2 * (i / 2) = i := Nat.two_mul_div_two_of_even even
    rw [Nat.xor_one_of_even even] at isSibling
    rw [half, isNode, if_neg (by omega)]
    by_cases last : i + 1 < level.length
    · rw [Nat.min_eq_left (by omega)] at isSibling
      simp [isSibling]
    · -- the last odd node is its own sibling
      rw [Nat.min_eq_right (by omega), show level.length - 1 = i by omega, isNode] at isSibling
      rw [List.getElem?_eq_none (Nat.not_lt.mp last)]
      rw [Option.some.injEq] at isSibling
      simp [isSibling]
  · have half : 2 * (i / 2) + 1 = i := Nat.two_mul_div_two_add_one_of_odd odd
    rw [Nat.xor_one_of_odd odd, Nat.min_eq_left (by omega)] at isSibling
    rw [half, isNode, show 2 * (i / 2) = i - 1 by omega, isSibling, if_pos (by omega)]
    rfl

/-- The siblings on the way from leaf `i` to the root. -/
def siblings : List (List α) → ℕ → List α
  | [], _ => []
  | level :: rest, i =>
    if 1 < level.length then (sibling? level i).toList ++ siblings rest (i / 2) else []

variable (pair) in
def climb : α → List α → ℕ → α
  | node, [], _ => node
  | node, sibling :: rest, i =>
    climb (if i % 2 = 1 then pair sibling node else pair node sibling) rest (i / 2)

theorem climb_siblings : ∀ {fuel : ℕ} {leaves : List α} {i : ℕ} {leaf : α}, leaves.length ≤ fuel + 1 →
    leaves[i]? = some leaf →
    root? pair fuel leaves = some (climb pair leaf (siblings (levels pair fuel leaves) i) i) := by
  have single : ∀ {fuel : ℕ} {leaves : List α} {i : ℕ} {leaf : α}, ¬ 1 < leaves.length →
      leaves[i]? = some leaf →
      root? pair fuel leaves = some (climb pair leaf (siblings (levels pair fuel leaves) i) i) := by
    intro fuel leaves i leaf short isLeaf
    obtain ⟨inside, eq⟩ := List.getElem?_eq_some_iff.mp isLeaf
    obtain ⟨only, rfl⟩ := List.length_eq_one_iff.mp (show leaves.length = 1 by omega)
    rw [root?_singleton, levels_short le_rfl, siblings, if_neg short, climb, ← eq]
    simp
  intro fuel
  induction fuel with
  | zero => exact fun bound isLeaf => single (Nat.not_lt.mpr bound) isLeaf
  | succ fuel ih =>
    intro leaves i leaf bound isLeaf
    by_cases long : 1 < leaves.length
    · obtain ⟨sibling, isSibling⟩ := exists_sibling (List.getElem?_eq_some_iff.mp isLeaf).1
      rw [root?_long long, levels_long long, siblings, if_pos long, isSibling,
        Option.toList_some, List.singleton_append, climb]
      refine ih ?_ (levelUp_over isLeaf isSibling)
      rw [length_levelUp]
      omega
    · exact single long isLeaf

end Tree

end RitCoin.Lib
