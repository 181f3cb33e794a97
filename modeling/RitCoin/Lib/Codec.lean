import RitCoin.Lib.Outcome
import Std.Data.ExtTreeMap.Lemmas

/-!
# Reading back what was written

A decoder reads a value from a stream. `Decodes` relates it to the bytes of the value: it finds the
value wherever the stream holds the bytes, and leaves the stream behind them. What "holds" means is up
to the stream, which may be limited in how much can be read from it.
-/

namespace RitCoin.Lib

def leBytes : ℕ → ℕ → List UInt8
  | 0, _ => []
  | width + 1, n => UInt8.ofNat n :: leBytes width (n / 256)

def ofLe : List UInt8 → ℕ
  | [] => 0
  | byte :: rest => byte.toNat + 256 * ofLe rest

@[simp] theorem length_leBytes : ∀ width n : ℕ, (leBytes width n).length = width := by
  intro width
  induction width with
  | zero => exact fun _ => rfl
  | succ width ih => exact fun n => by rw [leBytes, List.length_cons, ih]

theorem ofLe_leBytes : ∀ {width n : ℕ}, n < 256 ^ width → ofLe (leBytes width n) = n := by
  intro width
  induction width with
  | zero =>
    intro n small
    rw [pow_zero, Nat.lt_one_iff] at small
    exact small.symm
  | succ width ih =>
    intro n small
    rw [leBytes, ofLe, ih (by rw [pow_succ] at small; omega), UInt8.toNat_ofNat']
    omega

theorem leBytes_ofLe : ∀ bytes : List UInt8, leBytes bytes.length (ofLe bytes) = bytes := by
  intro bytes
  induction bytes with
  | nil => rfl
  | cons byte rest ih =>
    have low : UInt8.ofNat (byte.toNat + 256 * ofLe rest) = byte := by
      apply UInt8.toNat_inj.mp
      have := byte.toNat_lt
      rw [UInt8.toNat_ofNat']
      omega
    have high : (byte.toNat + 256 * ofLe rest) / 256 = ofLe rest := by
      have := byte.toNat_lt
      omega
    rw [List.length_cons, leBytes, ofLe, low, high, ih]

theorem ofLe_lt : ∀ bytes : List UInt8, ofLe bytes < 256 ^ bytes.length := by
  intro bytes
  induction bytes with
  | nil => exact Nat.one_pos
  | cons byte rest ih =>
    have := byte.toNat_lt
    rw [List.length_cons, pow_succ, ofLe]
    omega

section Decoders
universe u
variable {σ ε α β : Type u} {γ : Type*}

def many (elem : StateT σ (Except ε) α) : ℕ → StateT σ (Except ε) (List α)
  | 0 => pure []
  | n + 1 => do
      let a ← elem
      let rest ← many elem n
      pure (a :: rest)

variable (Holds : σ → List γ → ℕ → Prop)

/-- `Holds s symbols k`: the stream is before `symbols`, and `k` of them may be read. -/
def Decodes (decoder : StateT σ (Except ε) α) (symbols : List γ) (a : α) : Prop :=
  ∀ s tail k, symbols.length ≤ k → Holds s (symbols ++ tail) k →
    ∃ s', decoder s = .ok (a, s') ∧ Holds s' tail (k - symbols.length)

namespace Decodes
variable {Holds} {decoder : StateT σ (Except ε) α} {symbols symbols' : List γ} {a : α} {b : β}

theorem pure (a : α) : Decodes Holds (Pure.pure a : StateT σ (Except ε) α) [] a :=
  fun s _ _ _ holds => ⟨s, rfl, holds⟩

theorem bind {f : α → StateT σ (Except ε) β} (first : Decodes Holds decoder symbols a)
    (rest : Decodes Holds (f a) symbols' b) : Decodes Holds (decoder >>= f) (symbols ++ symbols') b := by
  intro s tail k bound holds
  rw [List.length_append] at bound ⊢
  rw [List.append_assoc] at holds
  obtain ⟨s₁, run, holds⟩ := first s _ k (by omega) holds
  obtain ⟨s₂, run', holds⟩ := rest s₁ tail _ (by omega) holds
  refine ⟨s₂, ?_, by rwa [← Nat.sub_sub]⟩
  change (decoder s >>= fun p => f p.1 p.2) = _
  rw [run]
  exact run'

theorem map {f : α → β} (first : Decodes Holds decoder symbols a) :
    Decodes Holds (do let a ← decoder; Pure.pure (f a)) symbols (f a) := by
  have both : Decodes Holds (decoder >>= fun a => Pure.pure (f a)) (symbols ++ []) (f a) :=
    first.bind (pure (f a))
  rwa [List.append_nil] at both

theorem many {elem : StateT σ (Except ε) α} {encode : α → List γ} :
    ∀ {items : List α}, (∀ a ∈ items, Decodes Holds elem (encode a) a) →
      Decodes Holds (Lib.many elem items.length) (items.flatMap encode) items := by
  intro items
  induction items with
  | nil => exact fun _ => pure []
  | cons a items ih =>
    intro each
    rw [List.forall_mem_cons] at each
    rw [List.flatMap_cons]
    exact each.1.bind (ih each.2).map

end Decodes

/-- The decoder finds nothing to accept where the stream holds the symbols. -/
def Refuses (decoder : StateT σ (Except ε) α) (symbols : List γ) : Prop :=
  ∀ s tail k, symbols.length ≤ k → Holds s (symbols ++ tail) k → ∃ e, decoder s = .error e

namespace Refuses
variable {Holds} {decoder : StateT σ (Except ε) α} {symbols symbols' : List γ} {a : α}

theorem bind {f : α → StateT σ (Except ε) β} (refuses : Refuses Holds decoder symbols) :
    Refuses Holds (decoder >>= f) (symbols ++ symbols') := by
  intro s tail k bound holds
  rw [List.length_append] at bound
  rw [List.append_assoc] at holds
  obtain ⟨e, run⟩ := refuses s _ k (by omega) holds
  refine ⟨e, ?_⟩
  change (decoder s >>= fun p => f p.1 p.2) = _
  rw [run]
  rfl

theorem after {f : α → StateT σ (Except ε) β} (first : Decodes Holds decoder symbols a)
    (refuses : Refuses Holds (f a) symbols') : Refuses Holds (decoder >>= f) (symbols ++ symbols') := by
  intro s tail k bound holds
  rw [List.length_append] at bound
  rw [List.append_assoc] at holds
  obtain ⟨s₁, run, holds⟩ := first s _ k (by omega) holds
  obtain ⟨e, run'⟩ := refuses s₁ tail _ (by omega) holds
  refine ⟨e, ?_⟩
  change (decoder s >>= fun p => f p.1 p.2) = _
  rw [run]
  exact run'

end Refuses

end Decoders

section Entries
open Std
variable {K V : Type*} [Ord K] [TransOrd K] [LawfulEqOrd K]

theorem getElem?_foldl_insertIfNew : ∀ (items : List (K × V)) (m : ExtTreeMap K V) (k : K) (v : V),
    items.Pairwise (fun a b => ¬ compare a.1 b.1 = .eq) → (∀ item ∈ items, item.1 ∉ m) →
    ((items.foldl (fun m item => m.insertIfNew item.1 item.2) m)[k]? = some v ↔
      m[k]? = some v ∨ (k, v) ∈ items) := by
  intro items
  induction items with
  | nil => exact fun m k v _ _ => by simp
  | cons item items ih =>
    intro m k v distinct fresh
    rw [List.pairwise_cons] at distinct
    rw [List.forall_mem_cons] at fresh
    have others : ∀ other ∈ items, other.1 ∉ m.insertIfNew item.1 item.2 := by
      intro other member
      rw [ExtTreeMap.mem_insertIfNew, not_or]
      exact ⟨distinct.1 other member, fresh.2 other member⟩
    rw [List.foldl_cons, ih _ k v distinct.2 others, ExtTreeMap.getElem?_insertIfNew, List.mem_cons, ← or_assoc]
    refine or_congr_left ?_
    by_cases key : item.1 = k
    · subst key
      have absent : m[item.1]? = none := ExtTreeMap.getElem?_eq_none fresh.1
      rw [if_pos ⟨ReflOrd.compare_self, fresh.1⟩, absent, Prod.ext_iff]
      simp [eq_comm]
    · have other : ¬ (compare item.1 k = .eq ∧ item.1 ∉ m) := fun same => key (compare_eq_iff_eq.mp same.1)
      rw [if_neg other, Prod.ext_iff]
      simp [Ne.symm key]

theorem foldl_insertIfNew_toList (m : ExtTreeMap K V) :
    m.toList.foldl (fun m item => m.insertIfNew item.1 item.2) ∅ = m := by
  refine ExtTreeMap.ext_getElem? fun k => Option.ext fun v => ?_
  rw [getElem?_foldl_insertIfNew _ _ k v ExtTreeMap.distinct_keys_toList (fun _ _ => ExtTreeMap.not_mem_empty),
    ExtTreeMap.mem_toList_iff_getElem?_eq_some, ExtTreeMap.getElem?_empty]
  simp

end Entries

section Delimits
variable {α β γ : Type*}

/-- Two encodings with something behind them are equal only if the values and what is behind are. -/
structure Delimits (Good : α → Prop) (encode : α → List γ) : Prop where
  split : ∀ {a b : α} {r s : List γ}, Good a → Good b → encode a ++ r = encode b ++ s → a = b ∧ r = s

theorem delimits_leBytes (width : ℕ) : Delimits (· < 256 ^ width) (leBytes width) where
  split smallA smallB same := by
    obtain ⟨bytes, rest⟩ := List.append_inj same (by simp)
    refine ⟨?_, rest⟩
    rw [← ofLe_leBytes smallA, bytes, ofLe_leBytes smallB]

namespace Delimits
variable {Good : α → Prop} {Good' : β → Prop} {encode : α → List γ} {encode' : β → List γ}

theorem append (first : Delimits Good encode) (second : Delimits Good' encode') :
    Delimits (fun p : α × β => Good p.1 ∧ Good' p.2) fun p => encode p.1 ++ encode' p.2 where
  split goodP goodQ same := by
    rw [List.append_assoc, List.append_assoc] at same
    obtain ⟨left, same⟩ := first.split goodP.1 goodQ.1 same
    obtain ⟨right, same⟩ := second.split goodP.2 goodQ.2 same
    exact ⟨Prod.ext left right, same⟩

theorem comp (delimits : Delimits Good encode) {f : β → α} (injective : Function.Injective f) :
    Delimits (fun b => Good (f b)) fun b => encode (f b) where
  split goodA goodB same := by
    obtain ⟨image, same⟩ := delimits.split goodA goodB same
    exact ⟨injective image, same⟩

theorem mono {Good₂ : α → Prop} (delimits : Delimits Good encode) (stronger : ∀ a, Good₂ a → Good a) :
    Delimits Good₂ encode :=
  ⟨fun goodA goodB same => delimits.split (stronger _ goodA) (stronger _ goodB) same⟩

theorem flatMap (delimits : Delimits Good encode) : ∀ {xs ys : List α} {r s : List γ}, (∀ x ∈ xs, Good x) →
    (∀ y ∈ ys, Good y) → xs.length = ys.length →
    xs.flatMap encode ++ r = ys.flatMap encode ++ s → xs = ys ∧ r = s := by
  intro xs
  induction xs with
  | nil =>
    intro ys r s _ _ length same
    obtain rfl : ys = [] := List.eq_nil_of_length_eq_zero length.symm
    exact ⟨rfl, same⟩
  | cons x xs ih =>
    intro ys r s goodX goodY length same
    cases ys with
    | nil => cases length
    | cons y ys =>
      rw [List.forall_mem_cons] at goodX goodY
      rw [List.flatMap_cons, List.flatMap_cons, List.append_assoc, List.append_assoc] at same
      obtain ⟨head, rest⟩ := delimits.split goodX.1 goodY.1 same
      obtain ⟨tail, rest⟩ := ih goodX.2 goodY.2 (Nat.succ.inj length) rest
      exact ⟨by rw [head, tail], rest⟩

theorem vector {GoodSize : ℕ → Prop} {size : ℕ → List γ} (sizes : Delimits GoodSize size)
    (delimits : Delimits Good encode) :
    Delimits (fun xs : List α => GoodSize xs.length ∧ ∀ x ∈ xs, Good x)
      fun xs => size xs.length ++ xs.flatMap encode where
  split goodX goodY same := by
    rw [List.append_assoc, List.append_assoc] at same
    obtain ⟨length, same⟩ := sizes.split goodX.1 goodY.1 same
    exact delimits.flatMap goodX.2 goodY.2 length same

end Delimits

end Delimits

end RitCoin.Lib
