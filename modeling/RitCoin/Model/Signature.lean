import RitCoin.Model.Chain

/-!
# What the authenticity check touches

The check of `ProcessBlock` again, with a record of the places in memory it uses whose bounds depend on
the received block.
-/

namespace RitCoin.Model
open Lib Std

inductive Access
  /-- `pblock->Authenticity[i]` -/
  | authenticity (i : Nat)
  /-- `RSA_public_decrypt(flen, rsaSig, ...)`, which reads `flen` bytes of `rsaSig` -/
  | rsaPublicDecrypt (flen : Nat)
deriving DecidableEq, Repr

def rsaSigSize : Nat := 512

def Access.InBounds (block : CBlock) : Access → Prop
  | .authenticity i => i < block.authenticity.length
  | .rsaPublicDecrypt flen => flen ≤ rsaSigSize

def copySignature (authenticity : List UInt8) : Nat → Nat → List Access × Check (List UInt8)
  | 0, _ => ([], .ok [])
  | left + 1, i =>
    match authenticity[i]? with
    | none => ([.authenticity i], .error (.stop .outOfRange))
    | some byte =>
      let (accesses, rest) := copySignature authenticity left (i + 1)
      (.authenticity i :: accesses, rest.map (byte :: ·))

def CBlock.checkSignature (P : Primitives) (block : CBlock) (rsaSig : List UInt8) : Check Unit :=
  match P.rsaPublicDecrypt block.authenticity.length rsaSig with
  | none =>
    throw (error "ProcessBlock() : There was a failure when decrypting the RSA signature with the public key")
  | some recoveredHash => do
      failIf (recoveredHash ≠ block.integrity)
        (error "ProcessBlock() : Integrity of block failed, hash found when decrypting not the same as hash sent with block")
      failIf (P.sha512 (block.encstring P) ≠ block.integrity)
        (error "ProcessBlock() : The generated hash from this blocks values do not match the sha hash sent with the block")

def CBlock.traceAuthenticity (P : Primitives) (block : CBlock) : List Access × Check Unit :=
  match copySignature block.authenticity rsaSigSize 0 with
  | (accesses, .error failure) => (accesses, .error failure)
  | (accesses, .ok rsaSig) =>
    (accesses ++ [.rsaPublicDecrypt block.authenticity.length], block.checkSignature P rsaSig)

def CBlock.Exempt (P : Primitives) (node : Node) (block : CBlock) : Prop :=
  node.mapBlockIndex.contains (P.getHash block) ∨ P.getHash block = hashGenesisBlock P ∨
    block.hashPrevBlock = hashGenesisBlock P

instance (P : Primitives) (node : Node) (block : CBlock) : Decidable (block.Exempt P node) :=
  inferInstanceAs (Decidable (_ ∨ _ ∨ _))

def authenticityAccesses (P : Primitives) (node : Node) (block : CBlock) : List Access :=
  if block.Exempt P node then [] else (block.traceAuthenticity P).1

end RitCoin.Model
