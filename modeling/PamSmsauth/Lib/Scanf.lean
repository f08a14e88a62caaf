import PamSmsauth.Lib.CText

/-!
# `sscanf` with scan sets

A format is a list of directives: white space, which skips any run of white space, and
`%<width>[set]`, which takes the longest run of at most `width` bytes of the set, fails on an
empty run, and is not assigned when it is suppressed (`%*`). `sscanf` gives the assigned texts in
order; their number is what the C function returns (no format here can reach the end of the input
before its first conversion and still be accepted, so `EOF` is like any other short count).
-/

namespace CText

inductive Directive where
  | space
  | set (width : Nat) (mem : Byte → Bool) (suppress : Bool)

/-- The run that `%<width>[mem]` takes. -/
def scanSet (width : Nat) (mem : Byte → Bool) (s : List Byte) : List Byte :=
  (s.take width).takeWhile mem

def sscanf : List Directive → List Byte → List (List Byte)
  | [], _ => []
  | .space :: ds, s => sscanf ds (s.dropWhile isspace)
  | .set width mem suppress :: ds, s =>
    let run := scanSet width mem s
    if run = [] then []
    else if suppress then sscanf ds (s.drop run.length)
    else run :: sscanf ds (s.drop run.length)

theorem scanSet_sublist (width : Nat) (mem : Byte → Bool) (s : List Byte) :
    (scanSet width mem s).Sublist s :=
  (List.takeWhile_sublist _).trans (List.take_sublist _ _)

theorem mem_of_mem_sscanf {ds : List Directive} {s run : List Byte} (h : run ∈ sscanf ds s) :
    ∀ b ∈ run, b ∈ s := by
  induction ds generalizing s with
  | nil => cases h
  | cons d ds ih =>
    cases d with
    | space =>
      intro b hb
      exact (List.dropWhile_suffix _).subset (ih h b hb)
    | set width mem suppress =>
      simp only [sscanf] at h
      split_ifs at h
      · cases h
      · intro b hb
        exact List.mem_of_mem_drop (ih h b hb)
      · rcases List.mem_cons.mp h with rfl | h
        · intro b hb
          exact (scanSet_sublist _ _ _).subset hb
        · intro b hb
          exact List.mem_of_mem_drop (ih h b hb)

/-- A conversion that is assigned took something. -/
theorem ne_nil_of_mem_sscanf {ds : List Directive} {s run : List Byte} (h : run ∈ sscanf ds s) :
    run ≠ [] := by
  induction ds generalizing s with
  | nil => cases h
  | cons d ds ih =>
    cases d with
    | space => exact ih h
    | set width mem suppress =>
      simp only [sscanf] at h
      split_ifs at h with hnil
      · cases h
      · exact ih h
      · rcases List.mem_cons.mp h with rfl | h
        · exact hnil
        · exact ih h

/-- The width of a conversion bounds what it takes. -/
def Directive.Within (n : Nat) : Directive → Prop
  | .space => True
  | .set width _ _ => width ≤ n

theorem length_of_mem_sscanf {ds : List Directive} {n : Nat} (hds : ∀ d ∈ ds, d.Within n)
    {s run : List Byte} (h : run ∈ sscanf ds s) : run.length ≤ n := by
  induction ds generalizing s with
  | nil => cases h
  | cons d ds ih =>
    have hrest : ∀ d ∈ ds, d.Within n := fun d hd => hds d (List.mem_cons_of_mem _ hd)
    cases d with
    | space => exact ih hrest h
    | set width mem suppress =>
      simp only [sscanf] at h
      split_ifs at h
      · cases h
      · exact ih hrest h
      · rcases List.mem_cons.mp h with rfl | h
        · have hwidth : width ≤ n := hds (.set width mem suppress) (by simp)
          have htake : (scanSet width mem s).length ≤ (s.take width).length :=
            (List.takeWhile_sublist _).length_le
          rw [List.length_take] at htake
          omega
        · exact ih hrest h

/-! ## Delimited fields -/

theorem scanSet_eq_take (width : Nat) (mem : Byte → Bool) (s : List Byte) :
    scanSet width mem s = (s.takeWhile mem).take width :=
  List.take_takeWhile.symm

/-- `%<width>[val]%*1[delim]` when no delimiter is in `val`: the format goes on only after a whole
field that a delimiter follows. -/
theorem sscanf_field {width : Nat} {val delim : Byte → Bool} (hwidth : 0 < width)
    (hdisj : ∀ b, val b = true → delim b = false) (ds : List Directive) (s : List Byte) :
    sscanf (.set width val false :: .set 1 delim true :: ds) s =
      if s.takeWhile val = [] then []
      else if (s.takeWhile val).length ≤ width ∧ (s.dropWhile val).head?.any delim = true then
        s.takeWhile val :: sscanf ds ((s.dropWhile val).drop 1)
      else [(s.takeWhile val).take width] := by
  -- What a delimiter's conversion makes of a text by its first byte.
  have hdelim (t : List Byte) : sscanf (.set 1 delim true :: ds) t =
      if t.head?.any delim = true then sscanf ds (t.drop 1) else [] := by
    cases t with
    | nil => simp [sscanf, scanSet]
    | cons b t => cases h : delim b <;> simp [sscanf, scanSet, h]
  have hsplit (n : Nat) : s.drop n = (s.takeWhile val ++ s.dropWhile val).drop n := by
    rw [List.takeWhile_append_dropWhile]
  rw [sscanf, scanSet_eq_take]
  by_cases hnil : s.takeWhile val = []
  · simp [hnil]
  have hne : (s.takeWhile val).take width ≠ [] := by
    simp only [ne_eq, List.take_eq_nil_iff, hnil, or_false]
    omega
  simp only [hnil, hne, if_false, Bool.false_eq_true]
  by_cases hlen : (s.takeWhile val).length ≤ width
  · rw [List.take_of_length_le hlen, hsplit, List.drop_left, hdelim]
    split_ifs with h1 h2 h2
    · rfl
    · exact absurd ⟨hlen, h1⟩ h2
    · exact absurd h2.2 h1
    · rfl
  · -- The conversion stopped inside the field, before a byte that is no delimiter.
    have hnext : (s.drop width).head?.any delim = false := by
      rw [hsplit, List.drop_append_of_le_length (by omega)]
      obtain ⟨b, t, hb⟩ := List.exists_cons_of_ne_nil (l := (s.takeWhile val).drop width)
        (by simp only [ne_eq, List.drop_eq_nil_iff]; omega)
      have hmem : b ∈ s.takeWhile val := List.mem_of_mem_drop (hb ▸ List.mem_cons_self)
      simp [hb, hdisj b (List.mem_takeWhile_imp hmem)]
    rw [List.length_take_of_le (by omega), hdelim, hnext, if_neg Bool.false_ne_true,
      if_neg fun h => hlen h.1]

/-- A second text is read just when the first one is a whole field that a delimiter follows. -/
theorem sscanf_field_eq_cons_iff {width : Nat} {val delim : Byte → Bool} (hwidth : 0 < width)
    (hdisj : ∀ b, val b = true → delim b = false) {ds : List Directive}
    {s x y : List Byte} {rest : List (List Byte)} :
    sscanf (.set width val false :: .set 1 delim true :: ds) s = x :: y :: rest ↔
      (s.takeWhile val ≠ [] ∧ (s.takeWhile val).length ≤ width ∧
        (s.dropWhile val).head?.any delim = true) ∧
      x = s.takeWhile val ∧ sscanf ds ((s.dropWhile val).drop 1) = y :: rest := by
  rw [sscanf_field hwidth hdisj]
  by_cases hnil : s.takeWhile val = []
  · rw [if_pos hnil]
    exact iff_of_false (fun h => by cases h) fun h => h.1.1 hnil
  by_cases hclosed : (s.takeWhile val).length ≤ width ∧ (s.dropWhile val).head?.any delim = true
  · rw [if_neg hnil, if_pos hclosed, List.cons.injEq]
    exact ⟨fun h => ⟨⟨hnil, hclosed⟩, h.1.symm, h.2⟩, fun h => ⟨h.2.1.symm, h.2.2⟩⟩
  · rw [if_neg hnil, if_neg hclosed]
    exact iff_of_false (fun h => by cases h) fun h => hclosed h.1.2

end CText
