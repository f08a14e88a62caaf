import PamSmsauth.Lib.CText

/-!
# Messages with a header

The header of a mail is a line `Name: value` for each field, each line with CRLF behind it, then an
empty line, then the body. A reader finds the fields and the body that were written if the names
have no colon and neither names nor values have a line end (`read_write`); a line end in a value
would let it write further fields, or begin the body.
-/

namespace Mail

open CText

def crlf : List Byte := [13, 10]

/-- A field: its name and its value. -/
abbrev Field := List Byte × List Byte

def fieldLine (f : Field) : List Byte := f.1 ++ 58 :: 32 :: f.2

def write (fields : List Field) (body : List Byte) : List Byte :=
  fields.flatMap (fun f => fieldLine f ++ crlf) ++ (crlf ++ body)

/-- The text up to the first CRLF, and what is behind it. -/
def line : List Byte → Option (List Byte × List Byte)
  | 13 :: 10 :: rest => some ([], rest)
  | b :: rest => (line rest).map fun l => (b :: l.1, l.2)
  | [] => none

/-- A line as a field; the value is what is behind the colon and one space. -/
def field (l : List Byte) : Option Field :=
  match l.dropWhile (· ≠ 58) with
  | 58 :: 32 :: value => some (l.takeWhile (· ≠ 58), value)
  | _ => none

/-- The fields and the body, read with at most `n` lines. -/
def readFrom : ℕ → List Byte → Option (List Field × List Byte)
  | 0, _ => none
  | n + 1, text => do
    let (l, rest) ← line text
    if l = [] then return ([], rest)
    let f ← field l
    let (fields, body) ← readFrom n rest
    return (f :: fields, body)

def read (text : List Byte) : Option (List Field × List Byte) := readFrom (text.length + 1) text

theorem line_append {l : List Byte} (h : (13 : Byte) ∉ l) (rest : List Byte) :
    line (l ++ crlf ++ rest) = some (l, rest) := by
  induction l with
  | nil => rfl
  | cons b l ih =>
    rw [List.mem_cons, not_or] at h
    obtain ⟨hb, hl⟩ := h
    have htail := ih hl
    simp only [List.cons_append]
    rw [line, htail]
    · rfl
    · rintro rest' rfl -
      exact hb rfl

theorem field_fieldLine {f : Field} (h : (58 : Byte) ∉ f.1) : field (fieldLine f) = some f := by
  have hname : ∀ b ∈ f.1, decide (b ≠ 58) = true := by
    intro b hb
    simp only [ne_eq, decide_not, Bool.not_eq_true', decide_eq_false_iff_not]
    rintro rfl
    exact h hb
  have htake : (fieldLine f).takeWhile (· ≠ 58) = f.1 := by
    rw [fieldLine, List.takeWhile_append_of_pos hname]
    simp
  have hdrop : (fieldLine f).dropWhile (· ≠ 58) = 58 :: 32 :: f.2 := by
    rw [fieldLine, List.dropWhile_append_of_pos hname]
    simp
  simp only [field, htake, hdrop]

/-- A field that a line can hold. -/
structure Field.Plain (f : Field) : Prop where
  name_colon : (58 : Byte) ∉ f.1
  name_cr : (13 : Byte) ∉ f.1
  value_cr : (13 : Byte) ∉ f.2

theorem readFrom_write {fields : List Field} (h : ∀ f ∈ fields, f.Plain) (body : List Byte) {n : ℕ}
    (hn : fields.length < n) : readFrom n (write fields body) = some (fields, body) := by
  induction fields generalizing n with
  | nil =>
    obtain ⟨n, rfl⟩ := Nat.exists_eq_succ_of_ne_zero (Nat.ne_of_gt hn)
    rfl
  | cons f fields ih =>
    obtain ⟨n, rfl⟩ := Nat.exists_eq_succ_of_ne_zero (Nat.ne_of_gt (Nat.zero_lt_of_lt hn))
    have hf := h f (List.mem_cons_self ..)
    have hrest := ih (fun g hg => h g (List.mem_cons_of_mem _ hg)) (Nat.lt_of_succ_lt_succ hn)
    have hcr : (13 : Byte) ∉ fieldLine f := by
      simp [fieldLine, hf.name_cr, hf.value_cr]
    have hne : fieldLine f ≠ [] := by simp [fieldLine]
    have hwrite : write (f :: fields) body = fieldLine f ++ crlf ++ write fields body := by
      simp [write]
    rw [hwrite, readFrom, line_append hcr]
    simp [hne, field_fieldLine hf.name_colon, hrest]

theorem read_write {fields : List Field} (h : ∀ f ∈ fields, f.Plain) (body : List Byte) :
    read (write fields body) = some (fields, body) := by
  refine readFrom_write h body ?_
  have hlen : fields.length ≤ (fields.flatMap fun f => fieldLine f ++ crlf).length := by
    rw [List.length_flatMap]
    refine le_of_eq_of_le (List.length_map _).symm (List.length_le_sum_of_one_le _ fun n hn => ?_)
    obtain ⟨f, -, rfl⟩ := List.mem_map.mp hn
    simp only [fieldLine, List.length_append, List.length_cons]
    omega
  rw [write, List.length_append]
  omega

end Mail
