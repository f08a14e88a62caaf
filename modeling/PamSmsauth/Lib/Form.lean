import PamSmsauth.Lib.CText

/-!
# Forms in `application/x-www-form-urlencoded`

A byte that is safe stands for itself, a space is a `+`, and any other byte is `%` with two
hexadecimal digits (`quotePlus`); fields are `name=value`, joined with `&`. Which bytes are safe is
a parameter: a decoder gets every field back if none of the bytes with a meaning of their own is
(`decode_encode`).
-/

namespace Form

open CText

/-- The digit `%X` prints. -/
def hexDigit (n : UInt8) : Byte := if n < 10 then 48 + n else 55 + n

/-- A digit in either case. -/
def hexVal (b : Byte) : Option UInt8 :=
  if 48 ≤ b ∧ b ≤ 57 then some (b - 48)
  else if 65 ≤ b ∧ b ≤ 70 then some (b - 55)
  else if 97 ≤ b ∧ b ≤ 102 then some (b - 87)
  else none

def quoteByte (safe : Byte → Bool) (b : Byte) : List Byte :=
  if safe b then [b]
  else if b = 32 then [43]
  else [37, hexDigit (b / 16), hexDigit (b % 16)]

def quotePlus (safe : Byte → Bool) (s : List Byte) : List Byte := s.flatMap (quoteByte safe)

def encodePair (safe : Byte → Bool) (p : List Byte × List Byte) : List Byte :=
  quotePlus safe p.1 ++ 61 :: quotePlus safe p.2

def encode (safe : Byte → Bool) (pairs : List (List Byte × List Byte)) : List Byte :=
  [38].intercalate (pairs.map (encodePair safe))

def unquotePlus : List Byte → List Byte
  | 37 :: a :: b :: rest =>
    match hexVal a, hexVal b with
    | some x, some y => (16 * x + y) :: unquotePlus rest
    | _, _ => 37 :: unquotePlus (a :: b :: rest)
  | 43 :: rest => 32 :: unquotePlus rest
  | b :: rest => b :: unquotePlus rest
  | [] => []

def decodePair (s : List Byte) : List Byte × List Byte :=
  (unquotePlus (s.takeWhile (· ≠ 61)), unquotePlus ((s.dropWhile (· ≠ 61)).drop 1))

def decode (text : List Byte) : List (List Byte × List Byte) :=
  (text.splitOn 38).map decodePair

/-- The bytes that a decoder looks for are not safe. -/
structure Separates (safe : Byte → Bool) : Prop where
  percent : safe 37 = false
  plus : safe 43 = false
  ampersand : safe 38 = false
  equals : safe 61 = false

/-- The two digits of a byte give it back, and are no separators. -/
theorem hexDigit_spec (b : Byte) :
    (hexVal (hexDigit (b / 16)) = some (b / 16) ∧ hexVal (hexDigit (b % 16)) = some (b % 16) ∧
      16 * (b / 16) + b % 16 = b) ∧
    ∀ d ∈ [hexDigit (b / 16), hexDigit (b % 16)], d ≠ 38 ∧ d ≠ 61 := by
  revert b
  apply byte_cases
  decide +kernel

variable {safe : Byte → Bool} (h : Separates safe)

include h

theorem unquotePlus_quoteByte (b : Byte) (rest : List Byte) :
    unquotePlus (quoteByte safe b ++ rest) = b :: unquotePlus rest := by
  unfold quoteByte
  split_ifs with hsafe hspace
  · have hpercent : b ≠ 37 := by
      rintro rfl
      rw [h.percent] at hsafe
      cases hsafe
    have hplus : b ≠ 43 := by
      rintro rfl
      rw [h.plus] at hsafe
      cases hsafe
    rw [List.singleton_append, unquotePlus]
    · exact fun _ _ _ hb => absurd hb hpercent
    · exact hplus
  · rw [hspace, List.singleton_append, unquotePlus]
  · obtain ⟨⟨hhigh, hlow, heq⟩, -⟩ := hexDigit_spec b
    simp only [List.cons_append, List.nil_append, unquotePlus, hhigh, hlow, heq]

theorem unquotePlus_quotePlus (s : List Byte) : unquotePlus (quotePlus safe s) = s := by
  induction s with
  | nil => rfl
  | cons b s ih =>
    rw [quotePlus, List.flatMap_cons, unquotePlus_quoteByte h]
    exact congrArg (b :: ·) ih

/-- No separator is in a name or a value. -/
theorem not_mem_quotePlus {c : Byte} (hc : c = 38 ∨ c = 61) (s : List Byte) :
    c ∉ quotePlus safe s := by
  intro hmem
  obtain ⟨b, -, hb⟩ := List.mem_flatMap.mp hmem
  unfold quoteByte at hb
  split_ifs at hb with hsafe hspace
  · rw [List.mem_singleton] at hb
    subst hb
    rcases hc with rfl | rfl
    · rw [h.ampersand] at hsafe
      cases hsafe
    · rw [h.equals] at hsafe
      cases hsafe
  · rcases hc with rfl | rfl <;> simp at hb
  · rcases List.mem_cons.mp hb with rfl | hb
    · rcases hc with hc | hc <;> cases hc
    · obtain ⟨hne, hne'⟩ := (hexDigit_spec b).2 c hb
      exact hc.elim hne hne'

theorem decodePair_encodePair (p : List Byte × List Byte) :
    decodePair (encodePair safe p) = p := by
  have hname : ∀ b ∈ quotePlus safe p.1, decide (b ≠ 61) = true := by
    intro b hb
    simp only [ne_eq, decide_not, Bool.not_eq_true', decide_eq_false_iff_not]
    rintro rfl
    exact not_mem_quotePlus h (.inr rfl) p.1 hb
  have htake : (encodePair safe p).takeWhile (· ≠ 61) = quotePlus safe p.1 := by
    rw [encodePair, List.takeWhile_append_of_pos hname]
    simp
  have hdrop : (encodePair safe p).dropWhile (· ≠ 61) = 61 :: quotePlus safe p.2 := by
    rw [encodePair, List.dropWhile_append_of_pos hname]
    simp
  rw [decodePair, htake, hdrop, unquotePlus_quotePlus h, List.drop_one, List.tail_cons,
    unquotePlus_quotePlus h]

theorem decode_encode {pairs : List (List Byte × List Byte)} (hne : pairs ≠ []) :
    decode (encode safe pairs) = pairs := by
  have hfields : ∀ s ∈ pairs.map (encodePair safe), (38 : Byte) ∉ s := by
    intro s hs
    obtain ⟨p, -, rfl⟩ := List.mem_map.mp hs
    simp only [encodePair, List.mem_append, List.mem_cons, not_or]
    exact ⟨not_mem_quotePlus h (.inl rfl) p.1, by decide, not_mem_quotePlus h (.inl rfl) p.2⟩
  rw [decode, encode, List.splitOn_intercalate 38 hfields (by simpa using hne), List.map_map]
  refine (List.map_congr_left fun p _ => ?_).trans (List.map_id pairs)
  exact decodePair_encodePair h p

end Form
