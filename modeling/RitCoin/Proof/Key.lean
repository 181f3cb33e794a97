import RitCoin.Model.Key

namespace RitCoin.Proof
open Lib Model Model.Wallet

@[simp] theorem length_secretOfNumber (n : ℕ) : (secretOfNumber n).length = 32 := by
  rw [secretOfNumber, List.length_reverse, length_leBytes]

theorem numberOfSecret_secretOfNumber {n : ℕ} (small : n < 256 ^ 32) :
    numberOfSecret (secretOfNumber n) = n := by
  rw [numberOfSecret, secretOfNumber, List.reverse_reverse, ofLe_leBytes small]

def formOf (fCompressed : Bool) : ConversionForm := if fCompressed then .compressed else .uncompressed

section Keys
variable {Point : Type} (curve : Curve Point)

def keyOf (n : ℕ) (point : Point) (fCompressed : Bool) : Wallet.CKey Point :=
  ⟨⟨some n, some point, formOf fCompressed⟩, true, fCompressed⟩

theorem setSecret_eq_ok_iff {key after : Wallet.CKey Point} {vchSecret : CSecret} {fCompressed : Bool} :
    key.setSecret curve vchSecret fCompressed = .ok after ↔
      vchSecret.length = 32 ∧ ∃ point, curve.multiply (numberOfSecret vchSecret) = some point ∧
        after = keyOf (numberOfSecret vchSecret) point (fCompressed || key.fCompressedPubKey) := by
  rw [Wallet.CKey.setSecret, seq_eq_ok, failIf_eq_ok, ne_eq, not_not]
  refine and_congr_right fun _ => ?_
  cases curve.multiply (numberOfSecret vchSecret) with
  | none => simp [throw, throwThe, MonadExceptOf.throw]
  | some point =>
    rw [pure_eq_ok]
    cases fCompressed <;> cases key.fCompressedPubKey <;>
      simp [keyOf, formOf, Wallet.CKey.setCompressedPubKey, EcKey.new, eq_comm]

theorem getPubKey_keyOf (n : ℕ) (point : Point) (fCompressed : Bool) :
    (keyOf n point fCompressed).getPubKey curve = .ok (curve.encode (formOf fCompressed) point) := rfl

theorem getSecret_eq_ok_iff {key : Wallet.CKey Point} {vchSecret : CSecret} {fCompressed : Bool} :
    key.getSecret = .ok (vchSecret, fCompressed) ↔
      ∃ n, key.pkey.privKey = some n ∧ n < 256 ^ 32 ∧ vchSecret = secretOfNumber n ∧
        fCompressed = key.fCompressedPubKey := by
  rw [Wallet.CKey.getSecret]
  cases key.pkey.privKey with
  | none => simp [throw, throwThe, MonadExceptOf.throw]
  | some n =>
    simp only [seq_eq_ok, failIf_eq_ok, not_le, pure_eq_ok, Prod.mk.injEq, Option.some.injEq,
      exists_eq_left']
    exact and_congr_right fun _ => and_congr eq_comm eq_comm

def SameKey (copy b : Wallet.CKey Point) : Prop :=
  copy.getPubKey curve = b.getPubKey curve ∧
  copy.getSecret.map Prod.fst = b.getSecret.map Prod.fst ∧
  copy.isCompressed = b.isCompressed ∧
  ∀ vchSecret fCompressed, copy.getSecret = .ok (vchSecret, fCompressed) →
    ∃ key, Wallet.CKey.new.setSecret curve vchSecret fCompressed = .ok key ∧
      key.getPubKey curve = b.getPubKey curve

/-- The public key is the one of the secret, written as `fCompressedPubKey` has it. A key without a secret
has nothing to agree with. -/
def MatchesSecret (b : Wallet.CKey Point) : Prop :=
  ∀ n, b.pkey.privKey = some n → n < 256 ^ 32 →
    ∃ point, curve.multiply n = some point ∧
      b.getPubKey curve = .ok (curve.encode (formOf b.fCompressedPubKey) point)

theorem sameKey_iff (b : Wallet.CKey Point) (fCompressed : Bool) :
    SameKey curve ⟨b.pkey, b.fSet, fCompressed⟩ b ↔ fCompressed = b.fCompressedPubKey ∧ MatchesSecret curve b := by
  constructor
  · rintro ⟨-, -, same, exported⟩
    obtain rfl : fCompressed = b.fCompressedPubKey := same
    refine ⟨rfl, fun n secret small => ?_⟩
    obtain ⟨key, imported, pubKey⟩ :=
      exported _ _ (getSecret_eq_ok_iff.mpr ⟨n, secret, small, rfl, rfl⟩)
    obtain ⟨-, point, multiplied, rfl⟩ := (setSecret_eq_ok_iff curve).mp imported
    rw [numberOfSecret_secretOfNumber small] at multiplied
    refine ⟨point, multiplied, ?_⟩
    rw [← pubKey, getPubKey_keyOf, Wallet.CKey.new, Bool.or_false]
  · rintro ⟨rfl, matched⟩
    refine ⟨rfl, rfl, rfl, fun vchSecret fCompressed exported => ?_⟩
    obtain ⟨n, secret, small, rfl, rfl⟩ := getSecret_eq_ok_iff.mp exported
    obtain ⟨point, multiplied, pubKey⟩ := matched n secret small
    refine ⟨keyOf n point b.fCompressedPubKey, ?_, ?_⟩
    · rw [setSecret_eq_ok_iff, numberOfSecret_secretOfNumber small, Wallet.CKey.new, Bool.or_false]
      exact ⟨length_secretOfNumber n, point, multiplied, rfl⟩
    · rw [getPubKey_keyOf, pubKey]

/-- A copy is the key it was made of exactly if the flag that it has anyway, from the memory or from the key
that is assigned to, is the one of the original, and the original has the public key of its secret. -/
theorem copy_sameKey_iff (a b : Wallet.CKey Point) (memory : Bool) :
    (SameKey curve (b.copy memory) b ↔ memory = b.fCompressedPubKey ∧ MatchesSecret curve b) ∧
    (SameKey curve (a.assign b) b ↔ a.fCompressedPubKey = b.fCompressedPubKey ∧ MatchesSecret curve b) :=
  ⟨sameKey_iff curve b memory, sameKey_iff curve b a.fCompressedPubKey⟩

end Keys

def toyCurve : Curve UInt8 where
  multiply n := if n = 0 then none else some (UInt8.ofNat n)
  encode
    | .compressed, point => 2 :: List.replicate 32 point
    | .uncompressed, point => 4 :: List.replicate 64 point
  decode
    | 2 :: byte :: _ => some (byte, .compressed)
    | 4 :: byte :: _ => some (byte, .uncompressed)
    | _ => none

/-- The key with the secret 1 and a compressed public key, assigned to a new key: what the copy exports leads
to the uncompressed public key. -/
theorem assigned_loses_compression :
    MatchesSecret toyCurve (keyOf 1 1 true) ∧
    ((Wallet.CKey.new.assign (keyOf 1 (1 : UInt8) true)).getPubKey toyCurve =
      .ok (toyCurve.encode .compressed 1)) ∧
    ((Wallet.CKey.new.assign (keyOf 1 (1 : UInt8) true)).getSecret = .ok (secretOfNumber 1, false)) ∧
    ((Wallet.CKey.new.setSecret toyCurve (secretOfNumber 1) false).bind fun key => key.getPubKey toyCurve) =
      .ok (toyCurve.encode .uncompressed 1) ∧
    ¬ SameKey toyCurve (Wallet.CKey.new.assign (keyOf 1 1 true)) (keyOf 1 1 true) ∧
    ¬ SameKey toyCurve ((keyOf 1 1 true).copy false) (keyOf 1 1 true) := by
  have matched : MatchesSecret toyCurve (keyOf 1 1 true) := by
    rintro n secret -
    obtain rfl : 1 = n := Option.some.inj secret
    exact ⟨1, rfl, rfl⟩
  refine ⟨matched, rfl, rfl, rfl, ?_, ?_⟩
  · rw [Wallet.CKey.assign, sameKey_iff]
    rintro ⟨same, -⟩
    cases same
  · rw [Wallet.CKey.copy, sameKey_iff]
    rintro ⟨same, -⟩
    cases same

end RitCoin.Proof
