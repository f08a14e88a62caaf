import Mathlib.Algebra.Order.BigOperators.Group.Finset
import Mathlib.Data.Int.CardIntervalMod
import Mathlib.Data.Fintype.EquivFin
import Mathlib.SetTheory.Cardinal.Finite

/-!
# Maps that spread their inputs evenly

The fibre of `y` under `f` is the set of inputs that `f` maps to `y`. A map spreads its inputs over
a set, between `lo` and `hi`, when the size of each fibre over the set is between these two numbers
(`Spreads`); with `hi = lo + 1` it is as even as the number of inputs allows. Taking the remainder
does this (`spreads_mod`), renaming inputs or outputs does not disturb it, and a map applied to each
entry of a vector spreads the vectors between the powers of the two numbers (`Spreads.pi`).
-/

namespace Spread

open Finset

variable {ι α β γ : Type*}

/-- The number of inputs that `f` maps to `y`. -/
noncomputable def fiberCard (f : α → β) (y : β) : Nat := Nat.card {x // f x = y}

def Spreads (f : α → β) (S : Set β) (lo hi : Nat) : Prop :=
  ∀ y ∈ S, lo ≤ fiberCard f y ∧ fiberCard f y ≤ hi

theorem fiberCard_comp_equiv (e : α ≃ γ) (f : γ → β) (y : β) :
    fiberCard (fun x => f (e x)) y = fiberCard f y :=
  Nat.card_congr (e.subtypeEquiv fun _ => Iff.rfl)

/-- Outputs that are renamed without merging two of them. -/
theorem fiberCard_comp_left {f : α → β} {g : β → γ} {S : Set β} (hf : ∀ x, f x ∈ S)
    (hg : Set.InjOn g S) {y : β} (hy : y ∈ S) :
    fiberCard (fun x => g (f x)) (g y) = fiberCard f y := by
  have hiff (x : α) : g (f x) = g y ↔ f x = y := hg.eq_iff (hf x) hy
  exact Nat.card_congr (Equiv.subtypeEquivRight hiff)

theorem fiberCard_pi [Fintype ι] (f : α → β) (s : ι → β) :
    fiberCard (fun w : ι → α => fun i => f (w i)) s = ∏ i, fiberCard f (s i) := by
  have hfun (w : ι → α) : (fun i => f (w i)) = s ↔ ∀ i, f (w i) = s i := funext_iff
  calc Nat.card {w : ι → α // (fun i => f (w i)) = s}
      = Nat.card {w : ι → α // ∀ i, f (w i) = s i} := Nat.card_congr (Equiv.subtypeEquivRight hfun)
    _ = Nat.card (∀ i, {x // f x = s i}) :=
      Nat.card_congr (Equiv.subtypePiEquivPi (p := fun i x => f x = s i))
    _ = ∏ i, fiberCard f (s i) := Nat.card_pi

theorem Spreads.pi [Fintype ι] {f : α → β} {S : Set β} {lo hi : Nat} (h : Spreads f S lo hi) :
    Spreads (fun w : ι → α => fun i => f (w i)) {s | ∀ i, s i ∈ S} (lo ^ Fintype.card ι)
      (hi ^ Fintype.card ι) := by
  intro s hs
  rw [fiberCard_pi]
  constructor
  · exact pow_card_le_prod _ _ _ fun i _ => (h (s i) (hs i)).1
  · exact prod_le_pow_card _ _ _ fun i _ => (h (s i) (hs i)).2

theorem Spreads.comp_equiv {f : γ → β} {S : Set β} {lo hi : Nat} (h : Spreads f S lo hi)
    (e : α ≃ γ) : Spreads (fun x => f (e x)) S lo hi := by
  intro y hy
  rw [fiberCard_comp_equiv]
  exact h y hy

theorem Spreads.comp_left {f : α → β} {g : β → γ} {S : Set β} {lo hi : Nat}
    (h : Spreads f S lo hi) (hf : ∀ x, f x ∈ S) (hg : Set.InjOn g S) :
    Spreads (fun x => g (f x)) (g '' S) lo hi := by
  rintro _ ⟨y, hy, rfl⟩
  rw [fiberCard_comp_left hf hg hy]
  exact h y hy

/-- The numbers below `n` with the remainder `r`. -/
theorem fiberCard_mod {n k r : Nat} (hr : r < k) :
    fiberCard (fun x : Fin n => x.val % k) r = n / k + if r < n % k then 1 else 0 := by
  have hk : 0 < k := by omega
  have hmod : (fun x => x ≡ r [MOD k]) = fun x => x % k = r := by
    funext x
    rw [Nat.ModEq, Nat.mod_eq_of_lt hr]
  have hcount := Nat.count_modEq_card n hk r
  simp only [hmod, Nat.mod_eq_of_lt hr] at hcount
  rw [← hcount, Nat.count_eq_card_filter_range]
  calc Nat.card {x : Fin n // x.val % k = r}
      = Nat.card {x : Nat // x < n ∧ x % k = r} :=
        Nat.card_congr ((Fin.equivSubtype.subtypeEquiv fun _ => Iff.rfl).trans
          (Equiv.subtypeSubtypeEquivSubtypeInter (· < n) fun x => x % k = r))
    _ = #{x ∈ range n | x % k = r} := Nat.subtype_card _ fun x => by rw [mem_filter, mem_range]

theorem spreads_mod (n : Nat) {k : Nat} :
    Spreads (fun x : Fin n => x.val % k) (Set.Iio k) (n / k) (n / k + 1) := by
  intro r hr
  rw [fiberCard_mod hr]
  split_ifs <;> omega

end Spread
