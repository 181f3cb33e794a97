import RitCoin.Model.Interpreter

namespace RitCoin.Proof
open Lib Model

theorem bytesToNat_cons (byte : UInt8) (bytes : List UInt8) :
    bytesToNat (byte :: bytes) = byte.toNat * 256 ^ bytes.length + bytesToNat bytes := by
  induction bytes using List.reverseRecOn with
  | nil => simp [bytesToNat]
  | append_singleton bytes last ih =>
    simp only [bytesToNat, List.foldl_append, List.foldl_cons, List.foldl_nil, List.length_append,
      List.length_singleton, pow_succ] at ih ⊢
    rw [ih]
    ring

theorem bytesToNat_lt (bytes : List UInt8) : bytesToNat bytes < 256 ^ bytes.length := by
  induction bytes with
  | nil => simp [bytesToNat]
  | cons byte bytes ih =>
    have := byte.toNat_lt
    rw [bytesToNat_cons, List.length_cons, pow_succ]
    nlinarith

theorem two_mul_bytesToNat_lt {top : UInt8} (bytes : List UInt8) (low : top.toNat < 128) :
    2 * bytesToNat (top :: bytes) < 256 ^ (bytes.length + 1) := by
  have := bytesToNat_lt bytes
  rw [bytesToNat_cons, pow_succ]
  nlinarith

theorem two_mul_natAbs_setvch_lt (vch : List UInt8) : 2 * (setvch vch).natAbs < 256 ^ vch.length := by
  rw [setvch, ← List.length_reverse]
  cases vch.reverse with
  | nil => simp [mpiToBn]
  | cons top rest =>
    rw [mpiToBn, List.length_cons]
    split_ifs with positive
    · have low : top.toNat < 128 := positive
      rw [Int.natAbs_natCast]
      exact two_mul_bytesToNat_lt rest low
    · have low : (top &&& 0x7f).toNat < 128 := by
        rw [UInt8.toNat_and]
        exact Nat.lt_of_le_of_lt Nat.and_le_right (by decide)
      rw [Int.natAbs_neg, Int.natAbs_natCast]
      exact two_mul_bytesToNat_lt rest low

theorem length_getvch_le {x : Int} {n : ℕ} (small : 2 * x.natAbs < 256 ^ n) : (getvch x).length ≤ n := by
  rw [getvch, List.length_reverse, List.length_map, List.length_range, mpiSize]
  split_ifs with zero
  · exact Nat.zero_le n
  · have bits : Nat.log2 x.natAbs + 1 < 8 * n := by
      have power : 256 ^ n = 2 ^ (8 * n) := by rw [pow_mul]; rfl
      rw [power] at small
      rw [← Nat.log2_two_mul (Int.natAbs_ne_zero.mpr zero)]
      exact (Nat.log2_lt (by omega)).mpr small
    omega

def Harmless (halt : Halt) : Prop := halt = .fail ∨ halt = .overflow

abbrev Safe {α : Type} (R : α → Prop) (x : Except Halt α) : Prop := Meets Harmless R x

variable {stack : Stack} {vch : Valtype}

theorem safe_need (n : ℕ) (stack : Stack) : Safe (fun _ => n ≤ stack.length) (need n stack) :=
  (Meets.failIf (.inl rfl)).mono fun _ => Nat.not_lt.mp

theorem safe_stacktop {i : ℕ} (inside : 1 ≤ i ∧ i ≤ stack.length) : Safe (· ∈ stack) (stacktop stack i) := by
  obtain ⟨k, rfl⟩ : ∃ k, i = k + 1 := ⟨i - 1, by omega⟩
  rw [stacktop, List.getElem?_eq_getElem inside.2]
  exact Meets.pure (List.getElem_mem inside.2)

theorem safe_popstack (nonempty : 1 ≤ stack.length) :
    Safe (fun after => after.length + 1 = stack.length ∧ after ⊆ stack) (popstack stack) := by
  cases stack with
  | nil => cases nonempty
  | cons vch rest => exact Meets.pure ⟨rfl, List.subset_cons_self vch rest⟩

theorem safe_popstacks : ∀ {n : ℕ} {stack : Stack}, n ≤ stack.length →
    Safe (fun after => after.length + n = stack.length ∧ after ⊆ stack) (popstacks n stack) := by
  intro n
  induction n with
  | zero => exact fun _ => Meets.pure ⟨rfl, List.Subset.refl _⟩
  | succ n ih =>
    intro stack deep
    refine (safe_popstack (by omega)).bind ?_
    rintro rest ⟨length, subset⟩
    refine (ih (by omega)).mono ?_
    rintro after ⟨length', subset'⟩
    exact ⟨by omega, List.Subset.trans subset' subset⟩

theorem safe_swapTop {i j : ℕ} (pos : 1 ≤ i ∧ 1 ≤ j) (low : i ≤ stack.length ∧ j ≤ stack.length) :
    Safe (fun after => after.length = stack.length ∧ after ⊆ stack) (swapTop stack i j) := by
  refine (safe_stacktop ⟨pos.1, low.1⟩).bind fun vch1 member1 => ?_
  refine (safe_stacktop ⟨pos.2, low.2⟩).bind fun vch2 member2 => ?_
  refine Meets.pure ⟨by simp, ?_⟩
  intro vch member
  rcases List.mem_or_eq_of_mem_set member with member | rfl
  · rcases List.mem_or_eq_of_mem_set member with member | rfl
    · exact member
    · exact member2
  · exact member1

theorem safe_eraseTop {first last : ℕ} (order : last ≤ first) (low : first ≤ stack.length) :
    Safe (fun after => after.length + first = stack.length + last ∧ after ⊆ stack)
      (eraseTop stack first last) := by
  rw [eraseTop, if_pos ⟨order, low⟩]
  refine Meets.pure ⟨?_, ?_⟩
  · simp only [List.length_append, List.length_take, List.length_drop]
    omega
  · exact List.append_subset.mpr ⟨List.take_subset last stack, List.drop_subset first stack⟩

theorem safe_insertTop {i : ℕ} (low : i ≤ stack.length) (member : vch ∈ stack) :
    Safe (fun after => after.length = stack.length + 1 ∧ after ⊆ stack) (insertTop stack i vch) := by
  rw [insertTop, if_pos low]
  refine Meets.pure ⟨?_, ?_⟩
  · simp only [List.length_append, List.length_cons, List.length_take, List.length_drop]
    omega
  · exact List.append_subset.mpr ⟨List.take_subset i stack,
      List.cons_subset.mpr ⟨member, List.drop_subset i stack⟩⟩

theorem safe_castToBigNum (vch : Valtype) : Safe (fun bn => 2 * bn.natAbs < 256 ^ 4) (castToBigNum vch) := by
  rw [castToBigNum]
  split_ifs with long
  · exact Meets.error (.inr rfl)
  · have short : vch.length ≤ 4 := Nat.not_lt.mp long
    have first := (two_mul_natAbs_setvch_lt vch).trans_le (Nat.pow_le_pow_right (by decide) short)
    have second := two_mul_natAbs_setvch_lt (getvch (setvch vch))
    exact Meets.pure (second.trans_le (Nat.pow_le_pow_right (by decide) (length_getvch_le first)))

structure Leaves (stack after : Stack) : Prop where
  depth : after.length ≤ stack.length + 3
  small : ∀ vch ∈ after, vch ∈ stack ∨ vch.length ≤ 520

namespace Leaves
variable {after : Stack}

theorem of_subset (depth : after.length ≤ stack.length + 3) (subset : after ⊆ stack) : Leaves stack after :=
  ⟨depth, fun _ member => .inl (subset member)⟩

theorem cons_short (depth : after.length < stack.length + 3) (subset : after ⊆ stack)
    (short : vch.length ≤ 520) : Leaves stack (vch :: after) where
  depth := depth
  small v member := by
    rcases List.mem_cons.mp member with rfl | member
    · exact .inr short
    · exact .inl (subset member)

end Leaves

theorem length_vchBool (fValue : Bool) : (vchBool fValue).length ≤ 1 := by
  cases fValue <;> decide

theorem safe_verifyTop {after : Stack} (fVerify fSuccess : Bool) (depth : after.length < stack.length + 3)
    (subset : after ⊆ stack) (short : vch.length ≤ 520) :
    Safe (Leaves stack) (verifyTop fVerify fSuccess (vch :: after)) := by
  rw [verifyTop]
  split_ifs with verify success
  · exact Meets.pure (.of_subset depth.le subset)
  · exact Meets.error (.inl rfl)
  · exact Meets.pure (.cons_short depth subset short)

theorem natAbs_unary (op : UnaryOp) {bn : Int} (small : 2 * bn.natAbs < 256 ^ 4) :
    2 * (op.eval bn).natAbs < 256 ^ 5 := by
  cases op <;> simp only [UnaryOp.eval] <;> (try split_ifs) <;> omega

theorem natAbs_binary (op : BinaryOp) {bn1 bn2 : Int} (small1 : 2 * bn1.natAbs < 256 ^ 4)
    (small2 : 2 * bn2.natAbs < 256 ^ 4) : 2 * (op.eval bn1 bn2).natAbs < 256 ^ 5 := by
  cases op <;> simp only [BinaryOp.eval] <;> (try split_ifs) <;> omega

theorem length_hash (C : Crypto) (vch : Valtype) (op : HashOp) : (op.eval C vch).length ≤ 32 := by
  cases op <;> simp [HashOp.eval]

theorem short_getvch {x : Int} {n : ℕ} (small : 2 * x.natAbs < 256 ^ n) (few : n ≤ 520) :
    (getvch x).length ≤ 520 :=
  (length_getvch_le small).trans few

section Run
variable (C : Crypto)

theorem safe_pick (fRoll : Bool) : Safe (Leaves stack) (StackOp.run C stack (.OP_PICK fRoll)) := by
  refine (safe_need 2 stack).bind fun _ deep => ?_
  refine (safe_stacktop (by omega)).bind fun vch _ => ?_
  refine (safe_castToBigNum vch).bind fun bn _ => ?_
  refine (safe_popstack (by omega)).bind ?_
  rintro rest ⟨length, subset⟩
  refine (Meets.failIf (.inl rfl)).bind fun _ inside => ?_
  have low : (getint bn).toNat + 1 ≤ rest.length := by omega
  refine (safe_stacktop (by omega)).bind fun vch member => ?_
  cases fRoll with
  | false =>
    refine Meets.pure (.of_subset ?_ (List.cons_subset.mpr ⟨subset member, subset⟩))
    rw [List.length_cons]
    omega
  | true =>
    refine (safe_eraseTop (by omega) low).bind ?_
    rintro erased ⟨length', subset'⟩
    refine Meets.pure (.of_subset ?_ (List.cons_subset.mpr ⟨subset member, List.Subset.trans subset' subset⟩))
    rw [List.length_cons]
    omega

theorem safe_equal (fVerify : Bool) : Safe (Leaves stack) (StackOp.run C stack (.OP_EQUAL fVerify)) := by
  refine (safe_need 2 stack).bind fun _ deep => ?_
  refine (safe_stacktop (by omega)).bind fun vch1 _ => ?_
  refine (safe_stacktop (by omega)).bind fun vch2 _ => ?_
  refine (safe_popstacks (by omega)).bind ?_
  rintro rest ⟨length, subset⟩
  exact safe_verifyTop _ _ (by omega) subset ((length_vchBool _).trans (by decide))

theorem safe_unary (op : UnaryOp) : Safe (Leaves stack) (StackOp.run C stack (.unary op)) := by
  refine (safe_need 1 stack).bind fun _ deep => ?_
  refine (safe_stacktop ⟨le_rfl, deep⟩).bind fun vch _ => ?_
  refine (safe_castToBigNum vch).bind fun bn small => ?_
  refine (safe_popstack deep).bind ?_
  rintro rest ⟨length, subset⟩
  exact Meets.pure (.cons_short (by omega) subset (short_getvch (natAbs_unary op small) (by decide)))

theorem safe_binary (op : BinaryOp) : Safe (Leaves stack) (StackOp.run C stack (.binary op)) := by
  refine (safe_need 2 stack).bind fun _ deep => ?_
  refine (safe_stacktop (by omega)).bind fun vch1 _ => ?_
  refine (safe_castToBigNum vch1).bind fun bn1 small1 => ?_
  refine (safe_stacktop (by omega)).bind fun vch2 _ => ?_
  refine (safe_castToBigNum vch2).bind fun bn2 small2 => ?_
  refine (safe_popstacks (by omega)).bind ?_
  rintro rest ⟨length, subset⟩
  exact safe_verifyTop _ _ (by omega) subset (short_getvch (natAbs_binary op small1 small2) (by decide))

theorem safe_within : Safe (Leaves stack) (StackOp.run C stack .OP_WITHIN) := by
  refine (safe_need 3 stack).bind fun _ deep => ?_
  refine (safe_stacktop (by omega)).bind fun vch1 _ => ?_
  refine (safe_castToBigNum vch1).bind fun bn1 _ => ?_
  refine (safe_stacktop (by omega)).bind fun vch2 _ => ?_
  refine (safe_castToBigNum vch2).bind fun bn2 _ => ?_
  refine (safe_stacktop (by omega)).bind fun vch3 _ => ?_
  refine (safe_castToBigNum vch3).bind fun bn3 _ => ?_
  refine (safe_popstacks (by omega)).bind ?_
  rintro rest ⟨length, subset⟩
  exact Meets.pure (.cons_short (by omega) subset ((length_vchBool _).trans (by decide)))

theorem safe_run (op : StackOp) (deep : stack.length ≤ 1000) (small : ∀ vch ∈ stack, vch.length ≤ 520)
    (number : ∀ n, op = .OP_N n → n.natAbs ≤ 16) : Safe (Leaves stack) (op.run C stack) := by
  have refl := List.Subset.refl stack
  cases op with
  | OP_N n =>
    have := number n rfl
    exact Meets.pure (.cons_short (by omega) refl (short_getvch (n := 1) (by omega) (by decide)))
  | OP_VERIFY =>
    refine (safe_need 1 stack).bind fun _ deep => ?_
    refine (safe_stacktop ⟨le_rfl, deep⟩).bind fun vch _ => ?_
    split_ifs
    · exact (safe_popstack deep).mono fun after h => .of_subset (by omega) h.2
    · exact Meets.error (.inl rfl)
  | OP_2DROP =>
    refine (safe_need 2 stack).bind fun _ deep => ?_
    refine (safe_popstack (by omega)).bind fun rest h => ?_
    exact (safe_popstack (by omega)).mono fun after h' => .of_subset (by omega) (List.Subset.trans h'.2 h.2)
  | OP_2DUP | OP_2OVER =>
    refine (safe_need _ stack).bind fun _ deep => ?_
    refine (safe_stacktop (by omega)).bind fun vch1 member1 => ?_
    refine (safe_stacktop (by omega)).bind fun vch2 member2 => ?_
    exact Meets.pure (.of_subset (by simp) (by simp [member1, member2]))
  | OP_3DUP =>
    refine (safe_need 3 stack).bind fun _ deep => ?_
    refine (safe_stacktop (by omega)).bind fun vch1 member1 => ?_
    refine (safe_stacktop (by omega)).bind fun vch2 member2 => ?_
    refine (safe_stacktop (by omega)).bind fun vch3 member3 => ?_
    exact Meets.pure (.of_subset (by simp) (by simp [member1, member2, member3]))
  | OP_2ROT =>
    refine (safe_need 6 stack).bind fun _ deep => ?_
    refine (safe_stacktop (by omega)).bind fun vch1 member1 => ?_
    refine (safe_stacktop (by omega)).bind fun vch2 member2 => ?_
    refine (safe_eraseTop (by omega) (by omega)).bind fun rest h => ?_
    refine Meets.pure (.of_subset ?_ (by simp [member1, member2, h.2]))
    simp only [List.length_cons]
    omega
  | OP_2SWAP | OP_ROT =>
    refine (safe_need _ stack).bind fun _ deep => ?_
    refine (safe_swapTop (by omega) (by omega)).bind fun rest h => ?_
    exact (safe_swapTop (by omega) (by omega)).mono fun after h' => .of_subset (by omega) (List.Subset.trans h'.2 h.2)
  | OP_IFDUP =>
    refine (safe_need 1 stack).bind fun _ deep => ?_
    refine (safe_stacktop ⟨le_rfl, deep⟩).bind fun vch member => ?_
    split_ifs
    · exact Meets.pure (.of_subset (by simp) (by simp [member]))
    · exact Meets.pure (.of_subset (by omega) refl)
  | OP_DEPTH =>
    exact Meets.pure (.cons_short (by omega) refl (short_getvch (n := 2) (by omega) (by decide)))
  | OP_DROP =>
    refine (safe_need 1 stack).bind fun _ deep => ?_
    exact (safe_popstack deep).mono fun after h => .of_subset (by omega) h.2
  | OP_DUP | OP_OVER =>
    refine (safe_need _ stack).bind fun _ deep => ?_
    refine (safe_stacktop (by omega)).bind fun vch member => ?_
    exact Meets.pure (.of_subset (by simp) (by simp [member]))
  | OP_NIP =>
    refine (safe_need 2 stack).bind fun _ deep => ?_
    exact (safe_eraseTop (by omega) deep).mono fun after h => .of_subset (by omega) h.2
  | OP_PICK fRoll => exact safe_pick C fRoll
  | OP_SWAP =>
    refine (safe_need 2 stack).bind fun _ deep => ?_
    exact (safe_swapTop (by omega) (by omega)).mono fun after h => .of_subset (by omega) h.2
  | OP_TUCK =>
    refine (safe_need 2 stack).bind fun _ deep => ?_
    refine (safe_stacktop (by omega)).bind fun vch member => ?_
    exact (safe_insertTop deep member).mono fun after h => .of_subset (by omega) h.2
  | OP_SIZE =>
    refine (safe_need 1 stack).bind fun _ deep => ?_
    refine (safe_stacktop ⟨le_rfl, deep⟩).bind fun vch member => ?_
    have := small vch member
    exact Meets.pure (.cons_short (by omega) refl (short_getvch (n := 2) (by omega) (by decide)))
  | OP_EQUAL fVerify => exact safe_equal C fVerify
  | unary op => exact safe_unary C op
  | binary op => exact safe_binary C op
  | OP_WITHIN => exact safe_within C
  | hash op =>
    refine (safe_need 1 stack).bind fun _ deep => ?_
    refine (safe_stacktop ⟨le_rfl, deep⟩).bind fun vch _ => ?_
    refine (safe_popstack deep).bind fun rest h => ?_
    exact Meets.pure (.cons_short (by omega) h.2 ((length_hash C vch op).trans (by decide)))

end Run

end RitCoin.Proof
