import Mathlib.Data.List.Nodup
import Mathlib.Data.List.Basic
import Mathlib.Logic.Function.Basic
import Mathlib.Tactic.SplitIfs

/-!
# Doubly linked lists in a store

The nodes of a list have a `next` and a `prev` each, `none` standing for NULL. `Linked` says that
these, with `head` and `tail`, spell a list of nodes without repetition. A node that is not in it
can be linked behind the tail (`Linked.append`), and a node that is in it can be unlinked wherever
it stands (`Linked.unlink`).
-/

namespace Links

variable {α : Type}

/-- The nodes of `l` are linked to each other, the first one back to `before` and the last one on to
`after`. -/
def Seg (next prev : α → Option α) : Option α → List α → Option α → Prop
  | _, [], _ => True
  | before, x :: l, after =>
    prev x = before ∧ next x = l.head?.or after ∧ Seg next prev (some x) l after

variable {next prev next' prev' : α → Option α} {before after : Option α}

theorem seg_append (s t : List α) : Seg next prev before (s ++ t) after ↔
    Seg next prev before s (t.head?.or after) ∧ Seg next prev (s.getLast?.or before) t after := by
  induction s generalizing before with
  | nil => simp [Seg]
  | cons x s ih =>
    have hlast : (x :: s).getLast?.or before = s.getLast?.or (some x) := by
      rw [List.getLast?_cons]
      cases s.getLast? <;> rfl
    have hhead : (s ++ t).head?.or after = s.head?.or (t.head?.or after) := by
      rw [List.head?_append, Option.or_assoc]
    rw [List.cons_append, Seg, Seg, ih, hhead, hlast, and_assoc, and_assoc]

theorem Seg.congr {l : List α} (h : Seg next prev before l after)
    (hsame : ∀ x ∈ l, next' x = next x ∧ prev' x = prev x) : Seg next' prev' before l after := by
  induction l generalizing before with
  | nil => trivial
  | cons x l ih =>
    obtain ⟨hprev, hnext, hrest⟩ := h
    obtain ⟨hn, hp⟩ := hsame x List.mem_cons_self
    exact ⟨hp.trans hprev, hn.trans hnext, ih hrest fun y hy => hsame y (List.mem_cons_of_mem _ hy)⟩

/-- The list that the pointers spell. -/
structure Linked (next prev : α → Option α) (head tail : Option α) (l : List α) : Prop where
  head : head = l.head?
  tail : tail = l.getLast?
  seg : Seg next prev none l none
  nodup : l.Nodup

variable {head tail : Option α} {l : List α}

theorem Linked.nil : Linked next prev none none [] := ⟨rfl, rfl, trivial, List.nodup_nil⟩

/-- What a walk from `start` meets within `fuel` nodes; `none` when it is not at its end by then. -/
def walk (next : α → Option α) : Nat → Option α → Option (List α)
  | _, none => some []
  | 0, some _ => none
  | fuel + 1, some x => (walk next fuel (next x)).map (x :: ·)

theorem Seg.walk (h : Seg next prev before l none) {fuel : Nat} (hfuel : l.length ≤ fuel) :
    Links.walk next fuel l.head? = some l := by
  induction l generalizing before fuel with
  | nil => cases fuel <;> rfl
  | cons x l ih =>
    obtain ⟨-, hnext, hrest⟩ := h
    cases fuel with
    | zero => simp at hfuel
    | succ fuel =>
      rw [Option.or_none] at hnext
      rw [List.head?_cons, Links.walk, hnext, ih hrest (by simpa using hfuel)]
      rfl

theorem Linked.walk (h : Linked next prev head tail l) {fuel : Nat} (hfuel : l.length ≤ fuel) :
    Links.walk next fuel head = some l := by
  rw [h.head]
  exact h.seg.walk hfuel

theorem Linked.head_eq_none_iff (h : Linked next prev head tail l) : head = none ↔ l = [] := by
  rw [h.head, List.head?_eq_none_iff]

theorem Linked.tail_eq_none_iff (h : Linked next prev head tail l) : tail = none ↔ l = [] := by
  rw [h.tail, List.getLast?_eq_none_iff]

/-- Only the first node has no one before it. -/
theorem Linked.head_eq_some_iff {x : α} (h : Linked next prev head tail l) (hx : x ∈ l) :
    head = some x ↔ prev x = none := by
  obtain ⟨s, t, rfl⟩ := List.append_of_mem hx
  obtain ⟨hhead, -, hseg, hnodup⟩ := h
  rw [seg_append] at hseg
  rw [hhead, hseg.2.1, Option.or_none, List.getLast?_eq_none_iff]
  cases s with
  | nil => simp
  | cons y s =>
    have hne : y ≠ x := by
      rintro rfl
      exact (List.nodup_cons.mp hnodup).1 (by simp)
    simp [hne]

theorem Linked.tail_eq_some_iff {x : α} (h : Linked next prev head tail l) (hx : x ∈ l) :
    tail = some x ↔ next x = none := by
  obtain ⟨s, t, rfl⟩ := List.append_of_mem hx
  obtain ⟨-, htail, hseg, hnodup⟩ := h
  rw [seg_append] at hseg
  rw [htail, hseg.2.2.1, Option.or_none, List.head?_eq_none_iff]
  rcases List.eq_nil_or_concat t with rfl | ⟨t, y, rfl⟩
  · simp
  · have hne : y ≠ x := by
      rintro rfl
      rw [List.nodup_append] at hnodup
      exact (List.nodup_cons.mp hnodup.2.1).1 (by simp)
    have hcons : s ++ x :: t.concat y = (s ++ x :: t) ++ [y] := by simp
    rw [hcons, List.getLast?_concat]
    simp [hne]

variable [DecidableEq α]

/-- `p->field = o`, where `p` may be NULL. -/
def assign (field : α → Option α) (p o : Option α) : α → Option α :=
  match p with
  | none => field
  | some p => Function.update field p o

theorem assign_of_ne {field : α → Option α} {p : Option α} {x : α} (h : p ≠ some x)
    (o : Option α) : assign field p o x = field x := by
  cases p with
  | none => rfl
  | some p =>
    show Function.update field p o x = field x
    rw [Function.update_of_ne fun heq => h (by rw [heq])]

theorem assign_self (field : α → Option α) (x : α) (o : Option α) :
    assign field (some x) o x = o := by
  show Function.update field x o x = o
  rw [Function.update_self]

/-- A new node is linked behind the tail. -/
theorem Linked.append {x : α} (h : Linked next prev head tail l) (hx : x ∉ l) :
    Linked (Function.update (assign next tail (some x)) x none) (Function.update prev x tail)
      (head.or (some x)) (some x) (l ++ [x]) := by
  obtain ⟨hhead, htail, hseg, hnodup⟩ := h
  refine ⟨?_, by simp, ?_, ?_⟩
  · rw [hhead, List.head?_append]
    rfl
  · rw [seg_append]
    refine ⟨?_, ?_, ?_, trivial⟩
    · -- the last node gets its link to the new one
      rcases List.eq_nil_or_concat l with rfl | ⟨s, y, rfl⟩
      · trivial
      · rw [List.concat_eq_append] at *
        rw [seg_append] at hseg ⊢
        have hy : y ∉ s := by
          intro hmem
          exact List.disjoint_of_nodup_append hnodup hmem List.mem_cons_self
        have hlast : tail = some y := by rw [htail]; simp
        subst hlast
        refine ⟨?_, ?_, ?_, trivial⟩
        · refine hseg.1.congr fun z hz => ?_
          have hzx : z ≠ x := fun heq => hx (heq ▸ List.mem_append_left _ hz)
          have hzy : y ≠ z := fun heq => hy (heq ▸ hz)
          refine ⟨?_, Function.update_of_ne hzx _ _⟩
          rw [Function.update_of_ne hzx, assign_of_ne (by simpa using hzy)]
        · have hyx : y ≠ x := fun heq => hx (heq ▸ by simp)
          rw [Function.update_of_ne hyx]
          exact hseg.2.1
        · have hyx : y ≠ x := fun heq => hx (heq ▸ by simp)
          rw [Function.update_of_ne hyx, assign_self]
          rfl
    · rw [Function.update_self, htail, Option.or_none]
    · rw [Function.update_self]
      rfl
  · rw [List.nodup_append]
    refine ⟨hnodup, List.nodup_singleton x, ?_⟩
    rintro a ha b hb rfl
    rw [List.mem_singleton] at hb
    exact hx (hb ▸ ha)

/-- A node is unlinked: its neighbours are linked to each other. -/
theorem Linked.unlink {x : α} {s t : List α} (h : Linked next prev head tail (s ++ x :: t)) :
    Linked (Function.update (assign next (prev x) (next x)) x none)
      (Function.update (assign prev (next x) (prev x)) x none)
      (if head = some x then next x else head) (if tail = some x then prev x else tail)
      (s ++ t) := by
  obtain ⟨hhead, htail, hseg, hnodup⟩ := h
  have hnot : x ∉ s ∧ x ∉ t := by
    rw [List.nodup_append] at hnodup
    refine ⟨fun hs => ?_, fun ht => ?_⟩
    · exact hnodup.2.2 x hs x List.mem_cons_self rfl
    · exact (List.nodup_cons.mp hnodup.2.1).1 ht
  have hdisj : List.Disjoint s t := by
    intro a hs ht
    rw [List.nodup_append] at hnodup
    exact hnodup.2.2 a hs a (List.mem_cons_of_mem _ ht) rfl
  rw [seg_append] at hseg
  obtain ⟨hs, hprev, hnext, ht⟩ := hseg
  rw [Option.or_none] at hprev hnext
  refine ⟨?_, ?_, ?_, ?_⟩
  · rw [hhead, hnext]
    cases s with
    | nil => simp
    | cons y s =>
      have hyx : y ≠ x := fun heq => hnot.1 (heq ▸ List.mem_cons_self)
      simp [hyx]
  · rw [htail, hprev]
    rcases List.eq_nil_or_concat t with rfl | ⟨t, y, rfl⟩
    · simp
    · have hyx : y ≠ x := fun heq => hnot.2 (heq ▸ by simp)
      have hcons : s ++ x :: t.concat y = (s ++ x :: t) ++ [y] := by simp
      have hrest : s ++ t.concat y = (s ++ t) ++ [y] := by simp
      rw [hcons, hrest, List.getLast?_concat, List.getLast?_concat,
        if_neg fun heq => hyx (Option.some.inj heq)]
  · rw [seg_append]
    constructor
    · -- the node before gets its link to the one behind
      rcases List.eq_nil_or_concat s with rfl | ⟨s, y, rfl⟩
      · trivial
      · rw [List.concat_eq_append] at *
        have hpy : prev x = some y := by rw [hprev]; simp
        have hyx : y ≠ x := fun heq => hnot.1 (heq ▸ by simp)
        have hys : y ∉ s := by
          intro hmem
          rw [List.append_assoc, List.nodup_append] at hnodup
          exact hnodup.2.2 y hmem y List.mem_cons_self rfl
        have hprevs : ∀ z ∈ s ++ [y],
            Function.update (assign prev (next x) (prev x)) x none z = prev z := by
          intro z hz
          have hzx : z ≠ x := fun heq => hnot.1 (heq ▸ hz)
          rw [Function.update_of_ne hzx, assign_of_ne]
          rw [hnext]
          intro hhd
          exact hdisj hz (List.mem_of_mem_head? hhd)
        rw [seg_append] at hs ⊢
        refine ⟨?_, ?_, ?_, trivial⟩
        · refine hs.1.congr fun z hz => ⟨?_, hprevs z (List.mem_append_left _ hz)⟩
          have hzx : z ≠ x := fun heq => hnot.1 (heq ▸ List.mem_append_left _ hz)
          have hzy : y ≠ z := fun heq => hys (heq ▸ hz)
          rw [Function.update_of_ne hzx, hpy, assign_of_ne (by simpa using hzy)]
        · rw [hprevs y (by simp)]
          exact hs.2.1
        · rw [Function.update_of_ne hyx, hpy, assign_self, hnext]
          simp
    · cases t with
      | nil => trivial
      | cons y t =>
        have hny : next x = some y := hnext
        have hyx : y ≠ x := fun heq => hnot.2 (heq ▸ List.mem_cons_self)
        have hyt : y ∉ t := by
          rw [List.nodup_append] at hnodup
          exact (List.nodup_cons.mp (List.nodup_cons.mp hnodup.2.1).2).1
        have hnexts : ∀ z ∈ y :: t,
            Function.update (assign next (prev x) (next x)) x none z = next z := by
          intro z hz
          have hzx : z ≠ x := fun heq => hnot.2 (heq ▸ hz)
          rw [Function.update_of_ne hzx, assign_of_ne]
          rw [hprev]
          intro hlast
          exact hdisj (List.mem_of_getLast? hlast) hz
        obtain ⟨-, hynext, ht⟩ := ht
        refine ⟨?_, ?_, ?_⟩
        · rw [Function.update_of_ne hyx, hny, assign_self, hprev]
          simp
        · rw [hnexts y List.mem_cons_self]
          exact hynext
        · refine ht.congr fun z hz => ⟨hnexts z (List.mem_cons_of_mem _ hz), ?_⟩
          have hzx : z ≠ x := fun heq => hnot.2 (heq ▸ List.mem_cons_of_mem _ hz)
          have hzy : y ≠ z := fun heq => hyt (heq ▸ hz)
          rw [Function.update_of_ne hzx, hny, assign_of_ne (by simpa using hzy)]
  · rw [List.nodup_append] at hnodup ⊢
    exact ⟨hnodup.1, (List.nodup_cons.mp hnodup.2.1).2,
      fun a ha b hb => hnodup.2.2 a ha b (List.mem_cons_of_mem _ hb)⟩

end Links
