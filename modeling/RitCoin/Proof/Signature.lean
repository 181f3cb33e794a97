import RitCoin.Model.Signature
import RitCoin.Proof.Authenticity
import RitCoin.Proof.Serialize

namespace RitCoin.Proof
open Lib Model Spec Std

variable {P : Primitives} {node : Node} {block : CBlock}

theorem copySignature_enough {authenticity : List UInt8} : ∀ {left i : ℕ}, i + left ≤ authenticity.length →
    copySignature authenticity left i =
      ((List.range' i left).map .authenticity, .ok ((authenticity.drop i).take left)) := by
  intro left
  induction left with
  | zero => exact fun _ => by simp [copySignature]
  | succ left ih =>
    intro i bound
    have inside : i < authenticity.length := by omega
    rw [copySignature, List.getElem?_eq_getElem inside]
    simp only [ih (show i + 1 + left ≤ authenticity.length by omega)]
    rw [List.range'_succ, List.map_cons, List.drop_eq_getElem_cons inside, List.take_succ_cons]
    rfl

theorem copySignature_short {authenticity : List UInt8} : ∀ {left i : ℕ}, i ≤ authenticity.length →
    authenticity.length < i + left →
    (copySignature authenticity left i).2 = .error (.stop .outOfRange) ∧
      .authenticity authenticity.length ∈ (copySignature authenticity left i).1 := by
  intro left
  induction left with
  | zero => exact fun _ _ => by omega
  | succ left ih =>
    intro i low short
    rw [copySignature]
    cases at_ : authenticity[i]? with
    | none =>
      have stop : authenticity.length = i := Nat.le_antisymm (List.getElem?_eq_none_iff.mp at_) low
      exact ⟨rfl, by simp [stop]⟩
    | some byte =>
      have inside := (List.getElem?_eq_some_iff.mp at_).1
      obtain ⟨outcome, member⟩ := ih (show i + 1 ≤ authenticity.length by omega) (by omega)
      refine ⟨?_, List.mem_cons_of_mem _ member⟩
      simp only [outcome]
      rfl

theorem traceAuthenticity_eq (P : Primitives) (block : CBlock) :
    (block.traceAuthenticity P).2 = block.checkAuthenticity P := by
  rw [CBlock.traceAuthenticity, CBlock.checkAuthenticity]
  by_cases short : block.authenticity.length < 512
  · have beyond : block.authenticity.length < 0 + rsaSigSize := by
      rw [rsaSigSize]
      omega
    obtain ⟨outcome, -⟩ := copySignature_short (Nat.zero_le _) beyond
    generalize copySignature block.authenticity rsaSigSize 0 = copy at outcome
    obtain ⟨accesses, rest⟩ := copy
    simp only at outcome
    rw [outcome, failIf, if_pos short]
    rfl
  · rw [copySignature_enough (by rw [rsaSigSize]; omega), failIf_of_not short]
    rfl

theorem traceAuthenticity_short (short : block.authenticity.length < rsaSigSize) :
    .authenticity block.authenticity.length ∈ (block.traceAuthenticity P).1 := by
  obtain ⟨outcome, member⟩ := copySignature_short (Nat.zero_le _)
    (show block.authenticity.length < 0 + rsaSigSize by omega)
  rw [CBlock.traceAuthenticity]
  generalize copySignature block.authenticity rsaSigSize 0 = copy at outcome member
  obtain ⟨accesses, rest⟩ := copy
  simp only at outcome
  rw [outcome]
  exact member

theorem traceAuthenticity_enough (enough : rsaSigSize ≤ block.authenticity.length) :
    (block.traceAuthenticity P).1 = (List.range' 0 rsaSigSize).map .authenticity ++
      [.rsaPublicDecrypt block.authenticity.length] := by
  rw [CBlock.traceAuthenticity, copySignature_enough (by omega)]

/-- Blocks that are checked are handled within bounds only if the signature has the size of the buffer. -/
theorem authenticity_inBounds_iff (P : Primitives) (node : Node) (block : CBlock) :
    (∀ access ∈ authenticityAccesses P node block, access.InBounds block) ↔
      block.Exempt P node ∨ block.authenticity.length = rsaSigSize := by
  rw [authenticityAccesses]
  split_ifs with exempt
  · simp [exempt]
  · rw [or_iff_right exempt]
    constructor
    · intro safe
      by_cases enough : rsaSigSize ≤ block.authenticity.length
      · rw [traceAuthenticity_enough enough] at safe
        have decrypt : block.authenticity.length ≤ rsaSigSize :=
          safe _ (List.mem_append_right _ (List.mem_singleton_self _))
        exact Nat.le_antisymm decrypt enough
      · exact absurd (safe _ (traceAuthenticity_short (Nat.not_le.mp enough))) (Nat.lt_irrefl _)
    · intro size access member
      rw [traceAuthenticity_enough size.ge, List.mem_append, List.mem_map, List.mem_singleton] at member
      rcases member with ⟨i, inRange, rfl⟩ | rfl
      · rw [List.mem_range'_1] at inRange
        change i < block.authenticity.length
        omega
      · exact size.le

def signedWith (n : ℕ) : CBlock where
  nVersion := 1
  hashPrevBlock := 1
  hashMerkleRoot := 0
  nTime := 0
  nBits := 0
  nNonce := 0
  integrity := []
  authenticity := List.replicate n 0
  vtx := []

theorem signedWith_decodes {n : ℕ} (small : n ≤ 1000) : ∃ rest,
    CBlock.unserialize CDataStream.read toyLayout (CDataStream.ofBytes (signedWith n).serialize) =
      .ok (signedWith n, rest) := by
  have bounded : BlockBounded (signedWith n) := by
    refine ⟨Nat.zero_le _, ?_, Nat.zero_le _, fun _ member => nomatch member⟩
    rw [signedWith, List.length_replicate, MAX_SIZE]
    omega
  have length : (signedWith n).serialize.length < 2 ^ 32 := by
    rw [length_block, CBlock.getSerializeSize]
    simp only [signedWith, bytesSize, vtxSize, List.length_replicate, List.length_nil, List.map_nil,
      List.sum_nil]
    have := getSizeOfCompactSize_le 0
    have := getSizeOfCompactSize_le n
    omega
  obtain ⟨rest, run, _⟩ := decodes_block dataStream_delivers toyLayout bounded _ [] _ le_rfl
    (by rw [List.append_nil]; exact streamHolds_ofBytes _ length)
  exact ⟨rest, run⟩

theorem signedWith_checked (n : ℕ) : authenticityAccesses toy (genesisNode toy) (signedWith n) =
    ((signedWith n).traceAuthenticity toy).1 := by
  have header : ¬ (signedWith 0).Exempt toy (genesisNode toy) := by decide +kernel
  exact if_neg header

/-- Both are decoded from a message and reach the check of a node at genesis. One makes it read behind
the end of the signature, the other makes it decrypt more than the buffer holds. -/
theorem signedWith_outOfBounds :
    (∃ rest, CBlock.unserialize CDataStream.read toyLayout
      (CDataStream.ofBytes (signedWith 0).serialize) = .ok (signedWith 0, rest)) ∧
    .authenticity 0 ∈ authenticityAccesses toy (genesisNode toy) (signedWith 0) ∧
    ¬ (Access.authenticity 0).InBounds (signedWith 0) ∧
    (∃ rest, CBlock.unserialize CDataStream.read toyLayout
      (CDataStream.ofBytes (signedWith 513).serialize) = .ok (signedWith 513, rest)) ∧
    .rsaPublicDecrypt 513 ∈ authenticityAccesses toy (genesisNode toy) (signedWith 513) ∧
    ¬ (Access.rsaPublicDecrypt 513).InBounds (signedWith 513) := by
  have short : (signedWith 0).authenticity.length < rsaSigSize := by decide
  have enough : rsaSigSize ≤ (signedWith 513).authenticity.length := by
    rw [signedWith, List.length_replicate, rsaSigSize]
    omega
  refine ⟨signedWith_decodes (by omega), ?_, Nat.lt_irrefl 0, signedWith_decodes (by omega), ?_, ?_⟩
  · rw [signedWith_checked]
    exact traceAuthenticity_short short
  · rw [signedWith_checked, traceAuthenticity_enough enough, signedWith, List.length_replicate]
    exact List.mem_append_right _ (List.mem_singleton_self _)
  · exact Nat.not_le.mpr (by decide)

end RitCoin.Proof
