import Mathlib.Algebra.Order.BigOperators.Group.List
import PamSmsauth.Serializer

/-!
# A decoder reads no more than was written

Backslashes and the characters of escapes have a cost in a text, and a character of a string is
worth what the serializer pays for it. However a text is decoded, its strings are worth no more than
the text costs (`decode_worth`). The serializer pays nothing for the escape that a backslash would
need, so that a backslash is worth more than it costs: a text with one in a string does not decode
to that string.
-/

namespace PamSmsauth

open CText Json

/-- What a character of a text costs. -/
def cost (b : Byte) : Nat :=
  if b = 92 then 4 else if b = 70 ∨ b = 102 then 2 else if b = 117 then 1 else 0

def costs (text : List Byte) : Nat := (text.map cost).sum

/-- What a character of a string is worth: what the serializer writes for it, and one more for a
backslash. -/
def worth (b : Byte) : Nat := costs (jsonEscapeChar b) + if b = 92 then 1 else 0

def worths (s : List Byte) : Nat := (s.map worth).sum

@[simp] theorem costs_nil : costs [] = 0 := rfl

@[simp] theorem costs_cons (b : Byte) (text : List Byte) :
    costs (b :: text) = cost b + costs text :=
  List.sum_cons

@[simp] theorem costs_append (text text' : List Byte) :
    costs (text ++ text') = costs text + costs text' := by
  simp [costs]

@[simp] theorem worths_nil : worths [] = 0 := rfl

@[simp] theorem worths_cons (b : Byte) (s : List Byte) : worths (b :: s) = worth b + worths s :=
  List.sum_cons

@[simp] theorem worths_append (s s' : List Byte) : worths (s ++ s') = worths s + worths s' := by
  simp [worths]

theorem costs_le_of_suffix {text text' : List Byte} (h : text <:+ text') :
    costs text ≤ costs text' := by
  obtain ⟨pre, rfl⟩ := h
  rw [costs_append]
  omega

theorem costs_decimal (i : Int) : costs (decimal i) = 0 := by
  obtain ⟨d, ds, hd, hfirst, hrest⟩ := decimal_cons i
  have hdigit : ∀ b : Byte, isdigit b = true → cost b = 0 := fun b hb =>
    isdigit_cases (P := fun b => cost b = 0) (by decide +kernel) hb
  have hds : costs ds = 0 := by
    rw [costs, List.sum_eq_zero]
    intro c hc
    obtain ⟨b, hb, rfl⟩ := List.mem_map.mp hc
    exact hdigit b (hrest b hb)
  have hd0 : cost d = 0 := by
    rcases hfirst with hfirst | rfl
    · exact hdigit d hfirst
    · decide
  rw [hd, costs_cons, hd0, hds]

/-- The serializer pays for everything but the backslashes. -/
theorem worths_eq (s : List Byte) :
    worths s = costs (s.flatMap jsonEscapeChar) + s.count 92 := by
  induction s with
  | nil => rfl
  | cons b s ih =>
    rw [worths_cons, ih, List.flatMap_cons, costs_append, List.count_cons, worth]
    simp only [beq_iff_eq]
    omega

/-! ## Strings -/

theorem worth_char {b : Byte} (h34 : b ≠ 34) (h92 : b ≠ 92) (h32 : ¬ b < 32) :
    worth b = cost b := by
  have hesc := jsonEscapeChar_of_printable h34 h32
  simp [worth, hesc, h92]

theorem worth_small : ∀ n < 128, worth n.toUInt8 ≤ 5 + if n % 16 = 15 then 2 else 0 := by
  decide +kernel

theorem worth_large : ∀ n < 256, 128 ≤ n → worth n.toUInt8 = 0 := by decide +kernel

/-- Four digits that end in `f` have paid for it. -/
theorem cost_hex {b : Byte} {v : Nat} (h : hexVal b = some v) :
    (if v % 16 = 15 then 2 else 0) ≤ cost b := by
  have key : ∀ n < 256, ∀ v ∈ hexVal n.toUInt8,
      (if v % 16 = 15 then 2 else 0) ≤ cost n.toUInt8 := by
    decide +kernel
  exact byte_cases (P := fun b => ∀ v ∈ hexVal b, (if v % 16 = 15 then 2 else 0) ≤ cost b) key b v h

theorem worth_ofNat {m : Nat} (h128 : 128 ≤ m) (h256 : m < 256) : worth (UInt8.ofNat m) = 0 :=
  worth_large m h256 h128

theorem worths_utf8 (n : Nat) : worths (utf8 n) ≤ 5 + if n % 16 = 15 then 2 else 0 := by
  have hchar : (Char.ofNat n).val.toNat = n ∨ (Char.ofNat n).val.toNat = 0 := by
    by_cases hn : n.isValidChar
    · left
      rw [Char.ofNat, dif_pos hn]
      rfl
    · right
      rw [Char.ofNat, dif_neg hn]
      rfl
  unfold utf8
  fun_cases String.utf8EncodeChar with
  | case1 v hv =>
    have hsmall := worth_small v (by omega)
    simp only [worths_cons, worths_nil]
    rcases hchar with hchar | hchar
    · have hv : v = n := hchar
      rw [hv] at hsmall ⊢
      exact hsmall
    · have hv : v = 0 := hchar
      rw [hv] at hsmall ⊢
      exact Nat.le_add_right_of_le hsmall
  | case2 v h1 h2 =>
    simp only [worths_cons, worths_nil]
    rw [worth_ofNat (by omega) (by omega), worth_ofNat (by omega) (by omega)]
    omega
  | case3 v h1 h2 h3 =>
    simp only [worths_cons, worths_nil]
    rw [worth_ofNat (by omega) (by omega), worth_ofNat (by omega) (by omega),
      worth_ofNat (by omega) (by omega)]
    omega
  | case4 v h1 h2 h3 =>
    simp only [worths_cons, worths_nil]
    rw [worth_ofNat (by omega) (by omega), worth_ofNat (by omega) (by omega),
      worth_ofNat (by omega) (by omega), worth_ofNat (by omega) (by omega)]
    omega

theorem hex4_cost {text rest : List Byte} {u : Nat} (h : hex4 text = some (u, rest)) :
    (if u % 16 = 15 then 2 else 0) + costs rest ≤ costs text := by
  unfold hex4 at h
  split at h
  · rename_i a b c d rest'
    simp only [Option.bind_eq_bind, Option.bind_eq_some_iff, Option.pure_def, Option.some.injEq,
      Prod.mk.injEq] at h
    obtain ⟨va, ha, vb, hb, vc, hc, vd, hd, hu, rfl⟩ := h
    have hlast := cost_hex hd
    have hmod : u % 16 = vd % 16 := by omega
    simp only [costs_cons, hmod]
    omega
  · cases h

/-- An escape after its backslash. -/
theorem escape_cost {text s rest : List Byte} (h : escape text = some (s, rest)) :
    worths s + costs rest ≤ 4 + costs text := by
  have hsimple : ∀ c b : Byte, worth b ≤ 4 + cost c →
      worths [b] + costs rest ≤ 4 + costs (c :: rest) := by
    intro c b hle
    simp only [worths_cons, worths_nil, costs_cons]
    omega
  unfold escape at h
  split at h
  case h_9 rest' =>
    have hu : cost 117 = 1 := by decide
    rw [costs_cons, hu]
    simp only [unicode, Option.bind_eq_bind, Option.bind_eq_some_iff] at h
    obtain ⟨⟨u, rest₁⟩, hhex, h⟩ := h
    have hcost := hex4_cost hhex
    split_ifs at h with hbmp
    · obtain ⟨rfl, rfl⟩ := Prod.mk.inj (Option.some.inj h)
      have hworth := worths_utf8 u
      dsimp only
      omega
    · -- the other half costs another backslash
      split at h
      · rename_i rest₂ hrest₂
        obtain ⟨⟨v, rest₃⟩, hhex', h⟩ := Option.bind_eq_some_iff.mp h
        have hcost' := hex4_cost hhex'
        obtain ⟨-, h⟩ := Option.ite_none_right_eq_some.mp h
        obtain ⟨rfl, rfl⟩ := Prod.mk.inj (Option.some.inj h)
        have hworth := worths_utf8 (0x10000 + 0x400 * (u - 0xD800) + (v - 0xDC00))
        have hpair : cost 92 = 4 ∧ cost 117 = 1 := by decide
        have hrest₂ : rest₁ = 92 :: 117 :: rest₂ := hrest₂
        rw [hrest₂] at hcost
        simp only [costs_cons, hpair] at hcost
        dsimp only
        split_ifs at hworth <;> omega
      · cases h
  case h_10 => cases h
  all_goals
    cases h
    exact hsimple _ _ (by decide)

theorem parseStr_cost {n : Nat} {text s rest : List Byte} (h : parseStr n text = some (s, rest)) :
    worths s + costs rest ≤ costs text := by
  induction n generalizing text s rest with
  | zero => cases h
  | succ n ih =>
    cases text with
    | nil => cases h
    | cons b text =>
      simp only [parseStr] at h
      split_ifs at h with h34 h92 h32
      · cases h
        rw [costs_cons, worths_nil]
        omega
      · simp only [Option.bind_eq_bind, Option.bind_eq_some_iff] at h
        obtain ⟨⟨s₁, rest₁⟩, hesc, ⟨s₂, rest₂⟩, hstr, h⟩ := h
        obtain ⟨rfl, rfl⟩ := Prod.mk.inj (Option.some.inj h)
        have h₁ := escape_cost hesc
        have h₂ := ih hstr
        have hb : cost b = 4 := by rw [h92]; rfl
        dsimp only at h₂ ⊢
        rw [costs_cons, worths_append, hb]
        omega
      · simp only [Option.bind_eq_bind, Option.bind_eq_some_iff] at h
        obtain ⟨⟨s₂, rest₂⟩, hstr, h⟩ := h
        obtain ⟨rfl, rfl⟩ := Prod.mk.inj (Option.some.inj h)
        have h₂ := ih hstr
        dsimp only
        rw [costs_cons, worths_cons, worth_char h34 h92 h32]
        omega

/-! ## Values -/

mutual

/-- The worth of the strings of a value, its keys included. -/
def valueWorth : Value → Nat
  | .str s => worths s
  | .arr elems => elemsWorth elems
  | .obj members => membersWorth members
  | _ => 0

def elemsWorth : List Value → Nat
  | [] => 0
  | v :: elems => valueWorth v + elemsWorth elems

def membersWorth : List (List Byte × Value) → Nat
  | [] => 0
  | (key, v) :: members => worths key + valueWorth v + membersWorth members

end

theorem costs_skipWs (text : List Byte) : costs (skipWs text) ≤ costs text :=
  costs_le_of_suffix (List.dropWhile_suffix _)

theorem stripPrefix_cost {word text rest : List Byte} (h : stripPrefix word text = some rest) :
    costs rest ≤ costs text := by
  unfold stripPrefix at h
  split_ifs at h
  cases h
  exact costs_le_of_suffix (List.drop_suffix _ _)

theorem parseNumber_cost {text rest : List Byte} {v : Value}
    (h : parseNumber text = some (v, rest)) : valueWorth v + costs rest ≤ costs text := by
  obtain ⟨hrest, hv⟩ := parseNumber_suffix h
  have hzero : valueWorth v = 0 := by
    rcases hv with ⟨i, rfl⟩ | ⟨t, rfl⟩
    · rfl
    · rfl
  rw [hzero, Nat.zero_add]
  exact costs_le_of_suffix hrest

/-- A parser whose results are worth no more than what it has read. -/
def Pays {α : Type} (worth : α → Nat) (parse : List Byte → Option (α × List Byte)) : Prop :=
  ∀ text a rest, parse text = some (a, rest) → worth a + costs rest ≤ costs text

theorem Pays.map {α β : Type} {w : α → Nat} {w' : β → Nat}
    {parse : List Byte → Option (α × List Byte)} (h : Pays w parse) {f : α → β}
    (hf : ∀ a, w' (f a) ≤ w a) {text : List Byte} {b : β} {rest : List Byte}
    (hb : (parse text).map (fun p => (f p.1, p.2)) = some (b, rest)) :
    w' b + costs rest ≤ costs text := by
  obtain ⟨⟨a, rest'⟩, hparse, heq⟩ := Option.map_eq_some_iff.mp hb
  obtain ⟨rfl, rfl⟩ := Prod.mk.inj heq
  have := h _ _ _ hparse
  have := hf a
  dsimp only
  omega

theorem parseValue_pays {n : Nat} (hmembers : Pays membersWorth (parseMembers n))
    (helems : Pays elemsWorth (parseElems n)) : Pays valueWorth (parseValue (n + 1)) := by
  intro text v rest h
  have hskip := costs_skipWs text
  have hobj : ∀ members, valueWorth (.obj members) ≤ membersWorth members := fun _ => le_refl _
  have harr : ∀ elems, valueWorth (.arr elems) ≤ elemsWorth elems := fun _ => le_refl _
  have hstr : ∀ s, valueWorth (.str s) ≤ worths s := fun _ => le_refl _
  rw [parseValue] at h
  split at h
  · cases h
  · rename_i b rest' htext
    rw [htext, costs_cons] at hskip
    have hskip' := costs_skipWs rest'
    split_ifs at h
    · split at h
      · rename_i rest'' hrest
        obtain ⟨rfl, rfl⟩ := Prod.mk.inj (Option.some.inj h)
        rw [hrest, costs_cons] at hskip'
        show 0 + _ ≤ _
        omega
      · have := hmembers.map hobj h
        omega
    · split at h
      · rename_i rest'' hrest
        obtain ⟨rfl, rfl⟩ := Prod.mk.inj (Option.some.inj h)
        rw [hrest, costs_cons] at hskip'
        show 0 + _ ≤ _
        omega
      · have := helems.map harr h
        omega
    · have hpays : Pays worths (parseStr n) := fun _ _ _ => parseStr_cost
      have := hpays.map hstr h
      omega
    -- the three literals
    iterate 3
      · obtain ⟨rest'', hstrip, heq⟩ := Option.map_eq_some_iff.mp h
        obtain ⟨rfl, rfl⟩ := Prod.mk.inj heq
        have := stripPrefix_cost hstrip
        show 0 + _ ≤ _
        omega
    · have := parseNumber_cost h
      rw [costs_cons] at this
      omega

/-- What is skipped before a character that is read. -/
theorem costs_of_skipWs {text rest : List Byte} {b : Byte} (h : skipWs text = b :: rest) :
    costs rest ≤ costs text := by
  have hskip := costs_skipWs text
  rw [h, costs_cons] at hskip
  omega

theorem parseMembers_pays {n : Nat} (hvalue : Pays valueWorth (parseValue n))
    (hmembers : Pays membersWorth (parseMembers n)) :
    Pays membersWorth (parseMembers (n + 1)) := by
  intro text members rest h
  rw [parseMembers] at h
  split at h
  · rename_i rest₁ hquote
    have h₁ := costs_of_skipWs hquote
    split at h
    · cases h
    · rename_i key rest₂ hkey
      have h₂ := parseStr_cost hkey
      split at h
      · rename_i rest₃ hcolon
        have h₃ := costs_of_skipWs hcolon
        split at h
        · cases h
        · rename_i value rest₄ hval
          have h₄ := hvalue _ _ _ hval
          split at h
          · rename_i rest₅ hcomma
            have h₅ := costs_of_skipWs hcomma
            obtain ⟨⟨members', rest₆⟩, hrest, heq⟩ := Option.map_eq_some_iff.mp h
            obtain ⟨rfl, rfl⟩ := Prod.mk.inj heq
            have h₆ := hmembers _ _ _ hrest
            show worths key + valueWorth value + membersWorth members' + costs rest₆ ≤ _
            omega
          · rename_i rest₅ hbrace
            have h₅ := costs_of_skipWs hbrace
            obtain ⟨rfl, rfl⟩ := Prod.mk.inj (Option.some.inj h)
            show worths key + valueWorth value + 0 + _ ≤ _
            omega
          · cases h
      · cases h
  · cases h

theorem parseElems_pays {n : Nat} (hvalue : Pays valueWorth (parseValue n))
    (helems : Pays elemsWorth (parseElems n)) : Pays elemsWorth (parseElems (n + 1)) := by
  intro text elems rest h
  rw [parseElems] at h
  split at h
  · cases h
  · rename_i value rest₁ hval
    have h₁ := hvalue _ _ _ hval
    split at h
    · rename_i rest₂ hcomma
      have h₂ := costs_of_skipWs hcomma
      obtain ⟨⟨elems', rest₃⟩, hrest, heq⟩ := Option.map_eq_some_iff.mp h
      obtain ⟨rfl, rfl⟩ := Prod.mk.inj heq
      have h₃ := helems _ _ _ hrest
      show valueWorth value + elemsWorth elems' + costs rest₃ ≤ _
      omega
    · rename_i rest₂ hbracket
      have h₂ := costs_of_skipWs hbracket
      obtain ⟨rfl, rfl⟩ := Prod.mk.inj (Option.some.inj h)
      show valueWorth value + 0 + _ ≤ _
      omega
    · cases h

theorem parse_pays (n : Nat) : Pays valueWorth (parseValue n) ∧ Pays membersWorth (parseMembers n) ∧
    Pays elemsWorth (parseElems n) := by
  induction n with
  | zero =>
    refine ⟨?_, ?_, ?_⟩
    · intro text v rest h
      simp [parseValue] at h
    · intro text v rest h
      simp [parseMembers] at h
    · intro text v rest h
      simp [parseElems] at h
  | succ n ih =>
    obtain ⟨hvalue, hmembers, helems⟩ := ih
    exact ⟨parseValue_pays hmembers helems, parseMembers_pays hvalue hmembers,
      parseElems_pays hvalue helems⟩

theorem decode_worth {text : List Byte} {v : Value} (h : decode text = some v) :
    valueWorth v ≤ costs text := by
  unfold decode at h
  split_ifs at h
  split at h
  · rename_i v' rest hparse
    split_ifs at h
    cases h
    have := (parse_pays _).1 _ _ _ hparse
    omega
  · cases h

/-! ## Members -/

def memberWorth (m : List Byte × Value) : Nat := worths m.1 + valueWorth m.2

theorem membersWorth_eq (members : List (List Byte × Value)) :
    membersWorth members = (members.map memberWorth).sum := by
  induction members with
  | nil => rfl
  | cons m members ih =>
    obtain ⟨key, v⟩ := m
    rw [List.map_cons, List.sum_cons, ← ih]
    rfl

/-- Different members of an object are worth no more than the object. -/
theorem memberWorth_sum_le {some all : List (List Byte × Value)} (hnodup : some.Nodup)
    (h : ∀ m ∈ some, m ∈ all) : (some.map memberWorth).sum ≤ membersWorth all := by
  rw [membersWorth_eq]
  obtain ⟨l, hperm, hsub⟩ := List.subperm_of_subset hnodup h
  rw [← (hperm.map memberWorth).sum_eq]
  exact List.Sublist.sum_le_sum (hsub.map memberWorth) fun _ _ => Nat.zero_le _

end PamSmsauth
