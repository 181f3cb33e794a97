import RitCoin.Model.Wildcard
import RitCoin.Proof.Money

namespace RitCoin.Proof
open Lib Model Model.Money

def StandsFor (m : UInt8) (piece : List UInt8) : Prop :=
  if m = asterisk then True else if m = questionMark then piece.length = 1 else piece = [m]

instance (m : UInt8) (piece : List UInt8) : Decidable (StandsFor m piece) :=
  inferInstanceAs (Decidable (if m = asterisk then True else if m = questionMark then piece.length = 1 else piece = [m]))

def ObtainedFrom (mask str : List UInt8) : Prop :=
  ∃ pieces, List.Forall₂ StandsFor mask pieces ∧ str = pieces.flatten

theorem obtainedFrom_nil {str : List UInt8} : ObtainedFrom [] str ↔ str = [] := by
  constructor
  · rintro ⟨pieces, each, rfl⟩
    cases each
    rfl
  · rintro rfl
    exact ⟨[], .nil, rfl⟩

theorem obtainedFrom_cons {m : UInt8} {mask str : List UInt8} :
    ObtainedFrom (m :: mask) str ↔
      ∃ piece rest, StandsFor m piece ∧ ObtainedFrom mask rest ∧ str = piece ++ rest := by
  constructor
  · rintro ⟨pieces, each, rfl⟩
    cases each with
    | @cons _ piece _ pieces stands others => exact ⟨piece, pieces.flatten, stands, ⟨pieces, others, rfl⟩, rfl⟩
  · rintro ⟨piece, _, stands, ⟨pieces, others, rfl⟩, rfl⟩
    exact ⟨piece :: pieces, .cons stands others, rfl⟩

theorem obtainedFrom_asterisk {mask : List UInt8} (str : List UInt8) :
    ObtainedFrom (asterisk :: mask) str ↔
      ObtainedFrom mask str ∨ ∃ c rest, str = c :: rest ∧ ObtainedFrom (asterisk :: mask) rest := by
  constructor
  · intro obtained
    obtain ⟨piece, rest, -, others, rfl⟩ := obtainedFrom_cons.mp obtained
    cases piece with
    | nil => exact .inl others
    | cons c piece =>
      exact .inr ⟨c, piece ++ rest, rfl, obtainedFrom_cons.mpr ⟨piece, rest, by simp [StandsFor], others, rfl⟩⟩
  · rintro (others | ⟨c, rest, rfl, obtained⟩)
    · exact obtainedFrom_cons.mpr ⟨[], str, by simp [StandsFor], others, rfl⟩
    · obtain ⟨piece, rest, -, others, rfl⟩ := obtainedFrom_cons.mp obtained
      exact obtainedFrom_cons.mpr ⟨c :: piece, rest, by simp [StandsFor], others, rfl⟩

theorem obtainedFrom_other {m : UInt8} {mask str : List UInt8} (other : m ≠ asterisk) :
    ObtainedFrom (m :: mask) str ↔
      ∃ c rest, str = c :: rest ∧ (m = questionMark ∨ c = m) ∧ ObtainedFrom mask rest := by
  rw [obtainedFrom_cons]
  constructor
  · rintro ⟨piece, rest, stands, others, rfl⟩
    rw [StandsFor, if_neg other] at stands
    split at stands
    · rename_i any
      obtain ⟨c, rfl⟩ := List.length_eq_one_iff.mp stands
      exact ⟨c, rest, rfl, .inl any, others⟩
    · subst stands
      exact ⟨m, rest, rfl, .inr rfl, others⟩
  · rintro ⟨c, rest, rfl, fits, others⟩
    refine ⟨[c], rest, ?_, others, rfl⟩
    rw [StandsFor, if_neg other]
    split
    · rfl
    · rename_i notAny
      rw [fits.resolve_left notAny]

theorem wildcardMatch_iff (psz mask : List UInt8) : wildcardMatch psz mask = true ↔ ObtainedFrom mask psz := by
  fun_induction wildcardMatch psz mask with
  | case1 psz => rw [obtainedFrom_nil, List.isEmpty_iff]
  | case2 m mask star ih =>
    rw [beq_iff_eq] at star
    rw [ih, star, obtainedFrom_asterisk]
    simp
  | case3 m mask star =>
    rw [beq_iff_eq] at star
    rw [obtainedFrom_other star]
    simp
  | case4 c psz m mask star ihShorter ihLonger =>
    rw [beq_iff_eq] at star
    subst star
    rw [Bool.or_eq_true, ihShorter, ihLonger, obtainedFrom_asterisk (c :: psz)]
    simp
  | case5 c psz m mask star any ih =>
    rw [beq_iff_eq] at star any
    rw [ih, obtainedFrom_other star]
    simp [any]
  | case6 c psz m mask star any differs =>
    rw [beq_iff_eq] at star any
    rw [obtainedFrom_other star]
    simp [any, bne_iff_ne.mp differs]
  | case7 c psz m mask star any same ih =>
    rw [beq_iff_eq] at star any
    have equal : c = m := by simpa using same
    rw [ih, obtainedFrom_other star]
    simp [equal]

def dotted : List UInt8 := "127.0.0.1".toList.map Char.toUInt8

/-- A client may connect from the loopback address and from where a mask allows it. -/
theorem clientAllowed_iff (loopback : List UInt8) (isLoopback : loopback = dotted) :
    (∀ str mask : List UInt8, 0 ∉ str → 0 ∉ mask → (wildcardMatchString str mask = true ↔ ObtainedFrom mask str)) ∧
      ∀ (vAllow : List (List UInt8)) (strAddress : List UInt8), 0 ∉ strAddress →
        (∀ strAllow ∈ vAllow, 0 ∉ strAllow) → (clientAllowed loopback vAllow strAddress = true ↔
          strAddress = dotted ∨ ∃ strAllow ∈ vAllow, ObtainedFrom strAllow strAddress) := by
  have terminated : ∀ {str : List UInt8}, 0 ∉ str → cStr str = str := by
    intro str absent
    apply cStr_of_ne_zero
    rintro c mem rfl
    exact absent mem
  have strings : ∀ str mask : List UInt8, 0 ∉ str → 0 ∉ mask →
      (wildcardMatchString str mask = true ↔ ObtainedFrom mask str) := by
    intro str mask strClean maskClean
    rw [wildcardMatchString, terminated strClean, terminated maskClean, wildcardMatch_iff]
  subst isLoopback
  refine ⟨strings, ?_⟩
  intro vAllow strAddress addressClean masksClean
  rw [clientAllowed, Bool.or_eq_true, beq_iff_eq, List.any_eq_true]
  refine or_congr Iff.rfl (exists_congr fun strAllow => and_congr_right fun mem => ?_)
  exact strings strAddress strAllow addressClean (masksClean strAllow mem)

theorem masked_clientAllowed : clientAllowed dotted [[49, 42, 46, 63]] [49, 48, 46, 50] = true :=
  ((clientAllowed_iff dotted rfl).2 [[49, 42, 46, 63]] [49, 48, 46, 50] (by decide) (by decide)).mpr
    (.inr ⟨[49, 42, 46, 63], List.mem_singleton_self _, [[49], [48], [46], [50]], by decide, rfl⟩)

end RitCoin.Proof
