import PamSmsauth.Lib.CText

/-!
# UTF-8

The state between two bytes is the list of the ranges that the next bytes have to be in; it is empty
between characters, and a text is valid when it ends there. The ranges are those of RFC 3629. ASCII
bytes can only stand between characters, so a text can be cut at them (`valid_append_ascii`) and
they can be replaced by other ASCII (`run_flatMap`).
-/

namespace Utf8

open CText

abbrev State := List (Byte × Byte)

/-- `UTF8-tail` of RFC 3629. -/
def tail : Byte × Byte := (0x80, 0xBF)

/-- What the first byte of a character asks for. -/
def lead (b : Byte) : Option State :=
  if b < 0x80 then some []
  else if b < 0xC2 then none
  else if b < 0xE0 then some [tail]
  else if b = 0xE0 then some [(0xA0, 0xBF), tail]
  else if b = 0xED then some [(0x80, 0x9F), tail]
  else if b < 0xF0 then some [tail, tail]
  else if b = 0xF0 then some [(0x90, 0xBF), tail, tail]
  else if b < 0xF4 then some [tail, tail, tail]
  else if b = 0xF4 then some [(0x80, 0x8F), tail, tail]
  else none

def step : State → Byte → Option State
  | [], b => lead b
  | (lo, hi) :: s, b => if lo ≤ b ∧ b ≤ hi then some s else none

def run (s : State) (text : List Byte) : Option State := text.foldlM step s

def valid (text : List Byte) : Bool := run [] text = some []

@[simp] theorem run_nil (s : State) : run s [] = some s := rfl

theorem run_cons (s : State) (b : Byte) (text : List Byte) :
    run s (b :: text) = (step s b).bind fun s' => run s' text := rfl

theorem run_append (s : State) (text text' : List Byte) :
    run s (text ++ text') = (run s text).bind fun s' => run s' text' := by
  simp [run, List.foldlM_append]

/-! ## ASCII bytes stand between characters -/

/-- Every range that is asked for starts at `0x80` or later. -/
def Owes (s : State) : Prop := ∀ r ∈ s, (0x80 : Byte) ≤ r.1

theorem owes_nil : Owes [] := by
  intro r hr
  cases hr

theorem Owes.cons {r : Byte × Byte} {s : State} (hr : (0x80 : Byte) ≤ r.1) (hs : Owes s) :
    Owes (r :: s) :=
  List.forall_mem_cons.mpr ⟨hr, hs⟩

theorem owes_lead {b : Byte} {s : State} (h : lead b = some s) : Owes s := by
  unfold lead at h
  repeat' split at h
  all_goals cases h
  all_goals repeat' first | exact owes_nil | refine Owes.cons (by decide) ?_

theorem Owes.step {s s' : State} (h : Owes s) {b : Byte} (hb : step s b = some s') : Owes s' := by
  cases s with
  | nil => exact owes_lead hb
  | cons r s =>
    simp only [Utf8.step] at hb
    split_ifs at hb
    cases hb
    exact fun r' hr' => h r' (by simp [hr'])

theorem Owes.run {s s' : State} (h : Owes s) {text : List Byte} (ht : run s text = some s') :
    Owes s' := by
  induction text generalizing s with
  | nil => cases ht; exact h
  | cons b text ih =>
    rw [run_cons] at ht
    obtain ⟨s₁, hs₁, ht⟩ := Option.bind_eq_some_iff.mp ht
    exact ih (h.step hs₁) ht

theorem step_ascii {s : State} (h : Owes s) {b : Byte} (hb : b < 0x80) :
    step s b = if s = [] then some [] else none := by
  cases s with
  | nil => simp [step, lead, hb]
  | cons r s =>
    have hr := h r (by simp)
    rw [step, if_neg, if_neg (by simp)]
    intro hlo
    exact absurd (UInt8.lt_of_lt_of_le hb (UInt8.le_trans hr hlo.1)) (UInt8.lt_irrefl _)

/-- ASCII text is read between characters and nowhere else. -/
theorem run_ascii {s : State} (h : Owes s) {text : List Byte} (hne : text ≠ [])
    (ht : ∀ b ∈ text, b < 0x80) : run s text = if s = [] then some [] else none := by
  induction text generalizing s with
  | nil => exact absurd rfl hne
  | cons b text ih =>
    rw [run_cons, step_ascii h (ht b (by simp))]
    split_ifs with hs
    · cases text with
      | nil => rfl
      | cons b' text =>
        exact ih owes_nil (by simp) fun x hx => ht x (by simp [hx])
    · rfl

/-- Replacing ASCII bytes by ASCII texts changes nothing. -/
theorem run_flatMap {s : State} (h : Owes s) {f : Byte → List Byte}
    (hascii : ∀ b, b < 0x80 → f b ≠ [] ∧ ∀ b' ∈ f b, b' < 0x80)
    (hother : ∀ b, ¬ b < 0x80 → f b = [b]) (text : List Byte) :
    run s (text.flatMap f) = run s text := by
  induction text generalizing s with
  | nil => rfl
  | cons b text ih =>
    rw [List.flatMap_cons, run_append, run_cons]
    have hstep : run s (f b) = step s b := by
      by_cases hb : b < 0x80
      · rw [run_ascii h (hascii b hb).1 (hascii b hb).2, step_ascii h hb]
      · rw [hother b hb, run_cons]
        cases step s b <;> rfl
    rw [hstep]
    cases hs : step s b with
    | none => rfl
    | some s' => exact ih (h.step hs)

/-- An ASCII text splits a text between characters. -/
theorem valid_append_ascii {text mid text' : List Byte} (hne : mid ≠ [])
    (hmid : ∀ b ∈ mid, b < 0x80) :
    valid (text ++ (mid ++ text')) = (valid text && valid text') := by
  simp only [valid, run_append]
  cases h : run [] text with
  | none => simp
  | some s =>
    simp only [Option.bind_some, run_ascii (owes_nil.run h) hne hmid]
    by_cases hs : s = []
    · simp [hs]
    · simp [hs]

end Utf8
