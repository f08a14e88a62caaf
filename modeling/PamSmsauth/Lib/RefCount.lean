import Mathlib.Algebra.BigOperators.Group.Finset.Basic
import Mathlib.Algebra.Order.BigOperators.Group.Finset
import Mathlib.Data.List.Perm.Basic

/-!
# Reference counts

Objects own references to other objects. To put a reference is to lower a count, and when the count
gets to 0 the references that the object owns are put as well (`release`); a put that finds no
reference left is a fault.

Nothing that is put disturbs the balance of an object: its count, less the references still to be
put and those that live objects own (`balance_release`). So when every reference is counted
(`Balanced`), putting those that are held leaves no object and no fault, and putting anything else
does not (`released_iff_perm`).
-/

namespace RefCount

open Finset

variable {α : Type} [DecidableEq α]

/-- The counts of the objects `objs`, and the objects that were put when nothing was left to put. -/
structure Counts (α : Type) where
  objs : Finset α
  count : α → ℤ
  faults : List α
  mem_objs : ∀ a, 0 < count a → a ∈ objs

namespace Counts

def empty : Counts α := ⟨∅, fun _ => 0, [], fun _ h => absurd h (lt_irrefl 0)⟩

/-- The objects that have references. -/
def live (s : Counts α) : Finset α := s.objs.filter fun a => 0 < s.count a

omit [DecidableEq α] in
@[simp] theorem mem_live {s : Counts α} {a : α} : a ∈ s.live ↔ 0 < s.count a := by
  rw [live, mem_filter]
  exact ⟨fun h => h.2, fun h => ⟨s.mem_objs a h, h⟩⟩

/-- A new object, with one reference to it. -/
def alloc (s : Counts α) (a : α) : Counts α where
  objs := insert a s.objs
  count := Function.update s.count a 1
  faults := s.faults
  mem_objs := by
    intro b hb
    by_cases hba : b = a
    · rw [hba]
      exact mem_insert_self a _
    · rw [Function.update_of_ne hba] at hb
      exact mem_insert_of_mem (s.mem_objs b hb)

/-- One reference less. -/
def lower (s : Counts α) (a : α) : Counts α where
  objs := s.objs
  count := Function.update s.count a (s.count a - 1)
  faults := if 0 < s.count a then s.faults else s.faults ++ [a]
  mem_objs := by
    intro b hb
    apply s.mem_objs
    by_cases hba : b = a
    · rw [hba, Function.update_self] at hb
      rw [hba]
      omega
    · rwa [Function.update_of_ne hba] at hb

theorem lower_count (s : Counts α) (a b : α) :
    (s.lower a).count b = s.count b - if b = a then 1 else 0 := by
  show Function.update s.count a (s.count a - 1) b = _
  by_cases hba : b = a
  · rw [hba, Function.update_self, if_pos rfl]
  · rw [Function.update_of_ne hba, if_neg hba, sub_zero]

theorem live_lower_of_one {s : Counts α} {a : α} (h : s.count a = 1) :
    (s.lower a).live = s.live.erase a := by
  ext b
  rw [mem_erase, mem_live, mem_live, lower_count]
  split_ifs with hba
  · rw [hba, h]
    simp
  · simp [hba]

theorem live_lower {s : Counts α} {a : α} (h : s.count a ≠ 1) : (s.lower a).live = s.live := by
  ext b
  rw [mem_live, mem_live, lower_count]
  split_ifs with hba
  · rw [hba]
    omega
  · rw [sub_zero]

end Counts

open Counts

variable (owns : α → List α)

/-- Puts the references of a list, first to last. -/
def release (s : Counts α) : List α → Counts α
  | [] => s
  | a :: l => if s.count a = 1 then release (s.lower a) (owns a ++ l) else release (s.lower a) l
termination_by l => (s.live.card, l.length)
decreasing_by
  · apply Prod.Lex.left
    rw [live_lower_of_one ‹_›]
    exact card_erase_lt_of_mem (mem_live.mpr (by omega))
  · rw [live_lower ‹_›]
    exact Prod.Lex.right _ (Nat.lt_succ_self _)

theorem release_nil (s : Counts α) : release owns s [] = s := by
  rw [release]

theorem release_cons (s : Counts α) (a : α) (l : List α) : release owns s (a :: l) =
    if s.count a = 1 then release owns (s.lower a) (owns a ++ l)
    else release owns (s.lower a) l := by
  rw [release]

theorem release_append (s : Counts α) (l l' : List α) :
    release owns s (l ++ l') = release owns (release owns s l) l' := by
  fun_induction release owns s l with
  | case1 s => rw [List.nil_append]
  | case2 s a l h ih => rw [List.cons_append, release_cons, if_pos h, ← List.append_assoc, ih]
  | case3 s a l h ih => rw [List.cons_append, release_cons, if_neg h, ih]

/-! ## The balance -/

/-- The references to `a` that live objects own. -/
def owned (s : Counts α) (a : α) : ℤ := ∑ b ∈ s.live, ((owns b).count a : ℤ)

theorem owned_nonneg (s : Counts α) (a : α) : 0 ≤ owned owns s a :=
  sum_nonneg fun _ _ => Int.natCast_nonneg _

theorem owned_lower_of_one {s : Counts α} {a : α} (h : s.count a = 1) (x : α) :
    owned owns (s.lower a) x = owned owns s x - ((owns a).count x : ℤ) := by
  have ha : a ∈ s.live := mem_live.mpr (by omega)
  rw [owned, live_lower_of_one h, owned, ← add_sum_erase _ _ ha, add_sub_cancel_left]

theorem owned_lower {s : Counts α} {a : α} (h : s.count a ≠ 1) (x : α) :
    owned owns (s.lower a) x = owned owns s x := by
  rw [owned, live_lower h, owned]

/-- The count of an object less the references to it, those of `l` still to be put. -/
def balance (s : Counts α) (l : List α) (x : α) : ℤ := s.count x - l.count x - owned owns s x

theorem balance_lower_of_one {s : Counts α} {a : α} (h : s.count a = 1) (l : List α) (x : α) :
    balance owns (s.lower a) (owns a ++ l) x = balance owns s (a :: l) x := by
  rw [balance, balance, lower_count, owned_lower_of_one owns h, List.count_append]
  by_cases hx : x = a
  · rw [if_pos hx, hx, List.count_cons_self]
    omega
  · rw [if_neg hx, List.count_cons_of_ne (Ne.symm hx)]
    omega

theorem balance_lower {s : Counts α} {a : α} (h : s.count a ≠ 1) (l : List α) (x : α) :
    balance owns (s.lower a) l x = balance owns s (a :: l) x := by
  rw [balance, balance, lower_count, owned_lower owns h]
  by_cases hx : x = a
  · rw [if_pos hx, hx, List.count_cons_self]
    omega
  · rw [if_neg hx, List.count_cons_of_ne (Ne.symm hx)]
    omega

theorem balance_release (s : Counts α) (l l' : List α) (x : α) :
    balance owns (release owns s l) l' x = balance owns s (l ++ l') x := by
  fun_induction release owns s l with
  | case1 s => rw [List.nil_append]
  | case2 s a l h ih => rw [ih, List.append_assoc, balance_lower_of_one owns h, List.cons_append]
  | case3 s a l h ih => rw [ih, balance_lower owns h, List.cons_append]

/-! ## Faults -/

theorem faults_lower (s : Counts α) (a : α) : s.faults <+: (s.lower a).faults := by
  show s.faults <+: if 0 < s.count a then s.faults else s.faults ++ [a]
  split_ifs
  · exact List.prefix_refl _
  · exact List.prefix_append _ _

theorem faults_release (s : Counts α) (l : List α) : s.faults <+: (release owns s l).faults := by
  fun_induction release owns s l with
  | case1 s => exact List.prefix_refl _
  | case2 s a l h ih => exact (faults_lower s a).trans ih
  | case3 s a l h ih => exact (faults_lower s a).trans ih

theorem pos_of_faults_lower {s : Counts α} {a : α} (h : (s.lower a).faults = s.faults) :
    0 < s.count a := by
  by_contra hpos
  have hfault : (s.lower a).faults = s.faults ++ [a] := if_neg hpos
  rw [hfault] at h
  simp at h

/-- Without a fault no count gets below 0. -/
theorem count_release_nonneg {s : Counts α} {l : List α} (hs : ∀ a, 0 ≤ s.count a)
    (h : (release owns s l).faults = s.faults) (a : α) : 0 ≤ (release owns s l).count a := by
  have hstep {s : Counts α} {a : α} (hs : ∀ b, 0 ≤ s.count b) (hpos : 0 < s.count a) (b : α) :
      0 ≤ (s.lower a).count b := by
    have hb := hs b
    rw [lower_count]
    split_ifs with hba
    · rw [hba]
      omega
    · omega
  -- what the rest of the list adds to the faults is nothing, so neither is what the first put adds
  have hfirst {s : Counts α} {a : α} {l : List α}
      (h : (release owns (s.lower a) l).faults = s.faults) : (s.lower a).faults = s.faults := by
    have hrest := faults_release owns (s.lower a) l
    rw [h] at hrest
    exact hrest.eq_of_length_le (faults_lower s a).length_le
  fun_induction release owns s l with
  | case1 s => exact hs a
  | case2 s b l hone ih =>
    have hlower := hfirst h
    exact ih (hstep hs (pos_of_faults_lower hlower)) (h.trans hlower.symm)
  | case3 s b l hone ih =>
    have hlower := hfirst h
    exact ih (hstep hs (pos_of_faults_lower hlower)) (h.trans hlower.symm)

/-! ## What is held -/

variable {owns}

/-- Every reference is counted, the ones from outside being those of the list. -/
def Balanced (owns : α → List α) (s : Counts α) (held : List α) : Prop :=
  ∀ x, balance owns s held x = 0

variable {s : Counts α} {held l : List α}

theorem Balanced.count_eq (h : Balanced owns s held) (x : α) :
    s.count x = held.count x + owned owns s x := by
  have := h x
  rw [balance] at this
  omega

theorem Balanced.count_nonneg (h : Balanced owns s held) (x : α) : 0 ≤ s.count x := by
  have hx := h.count_eq x
  have howned := owned_nonneg owns s x
  omega

theorem Balanced.perm (h : Balanced owns s held) (hl : l.Perm held) : Balanced owns s l := by
  intro x
  rw [balance, hl.count_eq]
  exact h x

theorem Balanced.release (h : Balanced owns s (l ++ held)) :
    Balanced owns (release owns s l) held :=
  fun x => (balance_release owns s l held x).trans (h x)

/-- Putting references that are held makes no fault. -/
theorem Balanced.faults_release (h : Balanced owns s l) :
    (RefCount.release owns s l).faults = s.faults := by
  have hfirst {s : Counts α} {a : α} {l : List α} (h : Balanced owns s (a :: l)) :
      (s.lower a).faults = s.faults := by
    have ha := h.count_eq a
    have howned := owned_nonneg owns s a
    rw [List.count_cons_self] at ha
    exact if_pos (by omega)
  fun_induction RefCount.release owns s l with
  | case1 s => rfl
  | case2 s a l hone ih =>
    have hrest : Balanced owns (s.lower a) (owns a ++ l) := fun x =>
      (balance_lower_of_one owns hone l x).trans (h x)
    rw [ih hrest, hfirst h]
  | case3 s a l hone ih =>
    have hrest : Balanced owns (s.lower a) l := fun x => (balance_lower owns hone l x).trans (h x)
    rw [ih hrest, hfirst h]

/-- Counts that are 0 where no live object owns a reference are 0 everywhere when no objects own
each other in a circle. -/
theorem count_le_zero_of_owned (hwf : WellFounded fun b a => a ∈ owns b)
    (h : ∀ a, s.count a ≤ owned owns s a) (a : α) : s.count a ≤ 0 := by
  induction a using hwf.induction with
  | _ a ih =>
    have hzero : owned owns s a = 0 := by
      apply sum_eq_zero
      intro b hb
      have hnot : a ∉ owns b := fun hab => absurd (ih b hab) (not_le.mpr (mem_live.mp hb))
      rw [List.count_eq_zero.mpr hnot]
      rfl
    rw [← hzero]
    exact h a

/-! ## References that are handed over -/

theorem Balanced.empty : Balanced owns (.empty : Counts α) [] := by
  intro x
  have hlive : (Counts.empty : Counts α).live = ∅ := rfl
  rw [balance, owned, hlive, sum_empty]
  rfl

/-- A new object takes over the references that it owns. -/
theorem Balanced.alloc {owns' : α → List α} {a : α} (h : Balanced owns s (owns' a ++ held))
    (ha : s.count a = 0) (hrest : ∀ b ≠ a, owns' b = owns b) :
    Balanced owns' (s.alloc a) (a :: held) := by
  have hnot : a ∉ s.live := by rw [mem_live, ha]; exact lt_irrefl 0
  have hcount (x : α) : (s.alloc a).count x = if x = a then 1 else s.count x :=
    Function.update_apply s.count a 1 x
  have hlive : (s.alloc a).live = insert a s.live := by
    ext b
    rw [mem_insert, mem_live, mem_live, hcount]
    split_ifs with hba
    · simp [hba]
    · simp [hba]
  intro x
  have hx := h x
  have hold : ∑ b ∈ s.live, ((owns' b).count x : ℤ) = owned owns s x := by
    apply sum_congr rfl
    intro b hb
    rw [hrest b fun hba => hnot (hba ▸ hb)]
  rw [balance, List.count_append] at hx
  rw [balance, owned, hlive, sum_insert hnot, hold, hcount]
  by_cases hxa : x = a
  · rw [if_pos hxa, hxa, List.count_cons_self]
    rw [hxa, ha] at hx
    omega
  · rw [if_neg hxa, List.count_cons_of_ne (Ne.symm hxa)]
    omega

/-- An object that lives takes over references. -/
theorem Balanced.give {owns' : α → List α} {m : List α} {a : α}
    (h : Balanced owns s (m ++ held)) (ha : 0 < s.count a) (hm : owns' a = owns a ++ m)
    (hrest : ∀ b ≠ a, owns' b = owns b) : Balanced owns' s held := by
  intro x
  have hx := h x
  have hsum (o : α → List α) :=
      add_sum_erase s.live (fun b => ((o b).count x : ℤ)) (mem_live.mpr ha)
  have hold : ∑ b ∈ s.live.erase a, ((owns' b).count x : ℤ) =
      ∑ b ∈ s.live.erase a, ((owns b).count x : ℤ) := by
    apply sum_congr rfl
    intro b hb
    rw [hrest b (ne_of_mem_erase hb)]
  rw [balance, List.count_append, owned, ← hsum] at hx
  rw [balance, owned, ← hsum, hold, hm, List.count_append]
  omega

/-- An object that lives gives references back. -/
theorem Balanced.take {owns' : α → List α} {m : List α} {a : α} (h : Balanced owns s held)
    (ha : 0 < s.count a) (hm : (owns a).Perm (m ++ owns' a)) (hrest : ∀ b ≠ a, owns' b = owns b) :
    Balanced owns' s (m ++ held) := by
  intro x
  have hx := h x
  have hsum (o : α → List α) :=
      add_sum_erase s.live (fun b => ((o b).count x : ℤ)) (mem_live.mpr ha)
  have hold : ∑ b ∈ s.live.erase a, ((owns' b).count x : ℤ) =
      ∑ b ∈ s.live.erase a, ((owns b).count x : ℤ) := by
    apply sum_congr rfl
    intro b hb
    rw [hrest b (ne_of_mem_erase hb)]
  rw [balance, owned, ← hsum, hm.count_eq, List.count_append] at hx
  rw [balance, List.count_append, owned, ← hsum, hold]
  omega

/-! ## Putting a part of it -/

/-- What is not reached has no say. -/
theorem release_congr {owns' : α → List α} (reached : α → Prop)
    (hclosed : ∀ a, reached a → ∀ b ∈ owns a, reached b)
    (howns : ∀ a, reached a → owns' a = owns a) (hl : ∀ a ∈ l, reached a) :
    RefCount.release owns' s l = RefCount.release owns s l := by
  fun_induction RefCount.release owns s l with
  | case1 s => exact release_nil owns' s
  | case2 s a l hone ih =>
    have ha := hl a List.mem_cons_self
    rw [release_cons, if_pos hone, howns a ha]
    apply ih
    intro b hb
    rcases List.mem_append.mp hb with hb | hb
    · exact hclosed a ha b hb
    · exact hl b (List.mem_cons_of_mem a hb)
  | case3 s a l hone ih =>
    rw [release_cons, if_neg hone]
    exact ih fun b hb => hl b (List.mem_cons_of_mem a hb)

theorem count_release_le (s : Counts α) (l : List α) (x : α) :
    (RefCount.release owns s l).count x ≤ s.count x := by
  have hlower (s : Counts α) (a : α) : (s.lower a).count x ≤ s.count x := by
    rw [lower_count]
    split_ifs <;> omega
  fun_induction RefCount.release owns s l with
  | case1 s => exact le_rfl
  | case2 s a l hone ih => exact ih.trans (hlower s a)
  | case3 s a l hone ih => exact ih.trans (hlower s a)

theorem Balanced.faults_release_left (h : Balanced owns s (l ++ held)) :
    (RefCount.release owns s l).faults = s.faults := by
  have hfirst := RefCount.faults_release owns s l
  have hrest := RefCount.faults_release owns (RefCount.release owns s l) held
  rw [← release_append, h.faults_release] at hrest
  exact (hfirst.eq_of_length_le hrest.length_le).symm

/-! ## What has to be put -/

/-- Nothing was put too often, and nothing is left. -/
structure Released (s : Counts α) : Prop where
  faults : s.faults = []
  count : ∀ a, s.count a = 0

theorem perm_of_released (h : Balanced owns s held) (hrel : Released (release owns s l)) :
    l.Perm held := by
  have hlive : (RefCount.release owns s l).live = ∅ := by
    apply eq_empty_of_forall_notMem
    intro a ha
    rw [mem_live, hrel.count a] at ha
    exact absurd ha (lt_irrefl 0)
  rw [List.perm_iff_count]
  intro a
  have hend := balance_release owns s l [] a
  have hstart := h a
  rw [balance, owned, hlive, sum_empty, hrel.count a, List.append_nil, List.count_nil] at hend
  rw [balance] at hend hstart
  omega

/-- Unless there are circles, the references that are held are the ones to put. -/
theorem Balanced.released_iff_perm (hwf : WellFounded fun b a => a ∈ owns b)
    (hfaults : s.faults = []) (h : Balanced owns s held) :
    Released (RefCount.release owns s l) ↔ l.Perm held := by
  constructor
  · exact perm_of_released h
  · intro hperm
    have hl := h.perm hperm
    have hend : Balanced owns (RefCount.release owns s l) [] :=
      Balanced.release (by rwa [List.append_nil])
    refine ⟨hl.faults_release.trans hfaults, fun a => ?_⟩
    have hle := count_le_zero_of_owned hwf (fun b => (hend.count_eq b).le.trans (by simp)) a
    exact le_antisymm hle (hend.count_nonneg a)

/-- Putting more than what is held is a fault. -/
theorem Balanced.faults_ne_nil (hwf : WellFounded fun b a => a ∈ owns b)
    (h : Balanced owns s held) (hle : ∀ a, held.count a ≤ l.count a) (hne : ¬ l.Perm held) :
    (RefCount.release owns s l).faults ≠ [] := by
  intro hfaults
  have hend (a : α) : (RefCount.release owns s l).count a -
      owned owns (RefCount.release owns s l) a = held.count a - l.count a := by
    have hrel := balance_release owns s l [] a
    have hstart := h a
    rw [List.append_nil] at hrel
    rw [balance] at hstart
    rw [balance, balance, List.count_nil] at hrel
    omega
  have hnil : (RefCount.release owns s l).faults = s.faults := by
    have hpre := RefCount.faults_release owns s l
    rw [hfaults] at hpre ⊢
    exact (List.prefix_nil.mp hpre).symm
  have hzero (a : α) : (RefCount.release owns s l).count a = 0 := by
    apply le_antisymm
    · apply count_le_zero_of_owned hwf
      intro b
      have := hend b
      have := hle b
      omega
    · exact count_release_nonneg owns h.count_nonneg hnil a
  exact hne (perm_of_released h ⟨hfaults, hzero⟩)

end RefCount
