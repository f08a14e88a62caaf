import PamSmsauth.Parse
import PamSmsauth.Serializer

/-!
# What the parser makes of printed words, numbers and strings

`Faithful` says what is asked of a value so that its text tells all of it: backslashes are printed
as they are, a NUL ends a string, and of a double there is only its text. `Parses text v` is `Reads`
with white space behind the value, which the call eats before it returns. The parser reads the
values without members from what is printed for them, escapes included.
-/

namespace PamSmsauth

open CText Tokener

variable {lf : List Byte → Option (List Byte)}

/-! ## Values that printing loses nothing of -/

/-- A text that `json_escape_str` prints so that it can be read. -/
def Printable (s : List Byte) : Prop := (0 : Byte) ∉ s ∧ (92 : Byte) ∉ s

/-- The text of a double that is read as this double. -/
structure DoubleText (lf : List Byte → Option (List Byte)) (text : List Byte) : Prop where
  reads : lf text = some text
  cons : ∃ d ds, text = d :: ds ∧ (isdigit d = true ∨ d = 45) ∧
    (∀ b ∈ ds, b ≠ 0 ∧ b ∈ jsonNumberChars) ∧ ∃ b ∈ ds, b = 46 ∨ b = 101

mutual

/-- The value is known from its text. -/
def JsonObject.Faithful (lf : List Byte → Option (List Byte)) : JsonObject → Prop
  | .null => True
  | .boolean _ => True
  | .double text => DoubleText lf text
  | .int i => InInt i
  | .object entries => (entries.map Prod.fst).Nodup ∧ JsonObject.FaithfulEntries lf entries
  | .array elems => JsonObject.FaithfulElems lf elems
  | .string s => Printable s

def JsonObject.FaithfulEntries (lf : List Byte → Option (List Byte)) :
    List (List Byte × JsonObject) → Prop
  | [] => True
  | (key, val) :: entries => Printable key ∧ val.Faithful lf ∧ JsonObject.FaithfulEntries lf entries

def JsonObject.FaithfulElems (lf : List Byte → Option (List Byte)) : List JsonObject → Prop
  | [] => True
  | val :: elems => val.Faithful lf ∧ JsonObject.FaithfulElems lf elems

end

/-! ## What stands behind a value -/

/-- The character behind a value and its white space. -/
def Closes (c : Byte) : Prop := c = 0 ∨ c = 44 ∨ c = 93 ∨ c = 125

instance : DecidablePred Closes := fun c =>
  inferInstanceAs (Decidable (c = 0 ∨ c = 44 ∨ c = 93 ∨ c = 125))

/-- The call that runs comes to its end, with its `current`, before `rest`. -/
def Returns (lf : List Byte → Option (List Byte)) (t : Tokener) (ptr : JsonPtr) (rest : List Byte) :
    Prop :=
  ∃ t₁ t' : Tokener, Steps lf t t₁ ∧ cycle lf t₁ = t'.ret ptr ∧ t'.rest = rest ∧
    t'.callers = t.callers

/-- A call that starts at `text` returns `v`, and eats the white space behind it. -/
structure Parses (lf : List Byte → Option (List Byte)) (text : List Byte) (v : JsonObject) :
    Prop where
  starts : Starts text
  first : text.head? ≠ some 93
  returns : ∀ (ws : List Byte) (c : Byte) (rest pb : List Byte) (callers : List Activation),
    (∀ b ∈ ws, isspace b = true) → Closes c →
      Returns lf ⟨text ++ (ws ++ c :: rest), pb, .init, callers⟩ (.obj v) (c :: rest)

theorem Returns.of_steps {t t' : Tokener} {ptr : JsonPtr} {rest : List Byte}
    (hsteps : Steps lf t t') (hcallers : t'.callers = t.callers) (h : Returns lf t' ptr rest) :
    Returns lf t ptr rest := by
  obtain ⟨t₁, t₂, hrun, hret, hrest, hcallers'⟩ := h
  exact ⟨t₁, t₂, hsteps.trans hrun, hret, hrest, hcallers'.trans hcallers⟩

theorem jsonTokenerParse_of_parses {text : List Byte} {v : JsonObject} (h : Parses lf text v)
    (rest : List Byte) : jsonTokenerParse lf (text ++ 0 :: rest) = .value v := by
  obtain ⟨t, t', hsteps, hret, -, hcallers⟩ := h.returns [] 0 rest [] [] (by simp) (.inl rfl)
  apply jsonTokenerParse_of_steps hsteps
  rw [hret, ret_nil hcallers, JsonPtr.parsed]

theorem cycle_exit {t t' : Tokener} {rest : List Byte} (hr : t.rest = 0 :: rest)
    (h : iter lf t 0 = .next t') : cycle lf t = t'.exit := by
  simp only [cycle, hr, h, if_true]

theorem exit_of_finish {t : Tokener} (h : t.frame.state = .finish ∨ t.frame.savedState = .finish) :
    t.exit = t.ret t.frame.current :=
  if_neg fun hnot => h.elim hnot.1 hnot.2

/-- White space behind a value. -/
theorem steps_space {t : Tokener} {ws rest : List Byte} (hst : t.frame.state = .eatws)
    (hws : ∀ b ∈ ws, isspace b = true) (hr : t.rest = ws ++ rest) :
    Steps lf t (t.read ws rest) := by
  apply steps_read hr
  intro b hb
  have hb := hws b hb
  refine ⟨by (rintro rfl; cases hb), ?_⟩
  intro t' hst' _
  simp [iter, hst', hst, hb]

/-- A call that has its value eats white space and returns it. -/
theorem returns_finish {t : Tokener} {ws rest : List Byte} {c : Byte} (hd : Closes c)
    (hws : ∀ b ∈ ws, isspace b = true) (hr : t.rest = ws ++ c :: rest)
    (hst : t.frame.state = .eatws) (hsv : t.frame.savedState = .finish) :
    Returns lf t t.frame.current (c :: rest) := by
  have hread : Steps lf t (t.read ws (c :: rest)) := steps_space hst hws hr
  have hgoto : iter lf (t.read ws (c :: rest)) c =
      .next ((t.read ws (c :: rest)).goto .finish) := by
    rcases hd with rfl | rfl | rfl | rfl <;> simp [iter, Tokener.read, hst, hsv, isspace]
  by_cases hc : c = 0
  · subst hc
    refine ⟨_, (t.read ws (0 :: rest)).goto .finish, hread, ?_, rfl, rfl⟩
    rw [cycle_exit rfl hgoto, exit_of_finish (.inl rfl)]
    rfl
  · refine ⟨_, (t.read ws (c :: rest)).goto .finish,
      hread.trans (.head (cycle_next rfl hc hgoto) .refl), ?_, rfl, rfl⟩
    exact cycle_out rfl rfl

/-- A value that the character behind it completes: a number or a word. -/
theorem returns_complete {t : Tokener} {ws rest : List Byte} {c : Byte} {v : JsonObject}
    (hd : Closes c) (hws : ∀ b ∈ ws, isspace b = true) (hr : t.rest = ws ++ c :: rest)
    (h : ∀ b, isspace b = true ∨ Closes b → iter lf t b = .next (t.complete v)) :
    Returns lf t (.obj v) (c :: rest) := by
  have hfinish : Returns lf (t.complete v) (.obj v) (c :: rest) :=
    returns_finish (t := t.complete v) hd hws hr rfl rfl
  cases ws with
  | nil =>
    by_cases hc : c = 0
    · subst hc
      refine ⟨t, t.complete v, .refl, ?_, hr, rfl⟩
      rw [cycle_exit hr (h 0 (.inr hd)), exit_of_finish (.inr rfl)]
      rfl
    · exact hfinish.of_steps (.head (cycle_next hr hc (h c (.inr hd))) .refl) rfl
  | cons b ws =>
    have hb := hws b List.mem_cons_self
    have hne : b ≠ 0 := by rintro rfl; cases hb
    exact hfinish.of_steps (.head (cycle_next hr hne (h b (.inl hb))) .refl) rfl

/-! ## Words and numbers -/

variable (lf)

/-- A value that is complete where its text ends: then the frame is as `Done` says. -/
theorem parses_of_complete (Done : Activation → Prop) {text : List Byte} {v : JsonObject}
    (hstarts : Starts text) (hfirst : text.head? ≠ some 93)
    (hsteps : ∀ rest pb callers, ∃ t : Tokener, Steps lf ⟨text ++ rest, pb, .init, callers⟩ t ∧
      t.rest = rest ∧ t.callers = callers ∧ Done t.frame)
    (hiter : ∀ (t : Tokener) (b : Byte), Done t.frame → isspace b = true ∨ Closes b →
      iter lf t b = .next (t.complete v)) : Parses lf text v := by
  refine ⟨hstarts, hfirst, fun ws c rest pb callers hws hd => ?_⟩
  obtain ⟨t, hrun, hr, hcallers, hdone⟩ := hsteps (ws ++ c :: rest) pb callers
  exact (returns_complete hd hws hr fun b hb => hiter t b hdone hb).of_steps hrun hcallers

theorem parses_null : Parses lf (lit "null") .null := by
  refine parses_of_complete lf (fun f => f.state = .null ∧ f.seen = lit "null")
    ⟨110, lit "ull", rfl, by decide⟩ (by decide) (fun rest pb callers => ?_) fun t b hdone _ => ?_
  · have hfirst := @steps_start lf pb callers 110 (lit "ull" ++ rest) (by decide)
      (by decide) (by decide) _ rfl
    exact ⟨_, hfirst.trans (.head (cycle_next rfl (by decide) rfl)
      (.head (cycle_next rfl (by decide) rfl) (.head (cycle_next rfl (by decide) rfl) .refl))),
      rfl, rfl, rfl, rfl⟩
  · have hword : strncasecmp (lit "null") (lit "null") 4 = 0 := by decide
    have hlen : (lit "null").length = 4 := by decide
    simp [iter, hdone, iterNull, hword, hlen]

theorem parses_boolean (b : Bool) :
    Parses lf (if b then lit "true" else lit "false") (.boolean b) := by
  cases b with
  | true =>
    refine parses_of_complete lf (fun f => f.state = .boolean ∧ f.seen = lit "true")
      ⟨116, lit "rue", rfl, by decide⟩ (by decide) (fun rest pb callers => ?_) fun t b hdone _ => ?_
    · have hfirst := @steps_start lf pb callers 116 (lit "rue" ++ rest) (by decide)
        (by decide) (by decide) _ rfl
      exact ⟨_, hfirst.trans (.head (cycle_next rfl (by decide) rfl)
        (.head (cycle_next rfl (by decide) rfl) (.head (cycle_next rfl (by decide) rfl) .refl))),
        rfl, rfl, rfl, rfl⟩
    · have hword : strncasecmp (lit "true") (lit "true") 4 = 0 := by decide
      have hlen : (lit "true").length = 4 := by decide
      simp [iter, hdone, iterBoolean, hword, hlen]
  | false =>
    refine parses_of_complete lf (fun f => f.state = .boolean ∧ f.seen = lit "false")
      ⟨102, lit "alse", rfl, by decide⟩ (by decide) (fun rest pb callers => ?_)
      fun t b hdone _ => ?_
    · have hfirst := @steps_start lf pb callers 102 (lit "alse" ++ rest) (by decide)
        (by decide) (by decide) _ rfl
      exact ⟨_, hfirst.trans (.head (cycle_next rfl (by decide) rfl)
        (.head (cycle_next rfl (by decide) rfl) (.head (cycle_next rfl (by decide) rfl)
          (.head (cycle_next rfl (by decide) rfl) .refl)))), rfl, rfl, rfl, rfl⟩
    · have hword : strncasecmp (lit "false") (lit "false") 5 = 0 := by decide
      have hnot : strncasecmp (lit "true") (lit "false") 5 ≠ 0 := by decide
      have hlen : (lit "false").length = 5 := by decide
      simp [iter, hdone, iterBoolean, hword, hnot, hlen]

/-- One more character of a number. -/
theorem iter_number {t : Tokener} {b : Byte} (hst : t.frame.state = .number) (hne : b ≠ 0)
    (hmem : b ∈ jsonNumberChars) : ∃ t' : Tokener, iter lf t b = .next t' ∧
      t'.rest = t.rest.tail ∧ t'.callers = t.callers ∧ t'.frame.state = .number ∧
      t'.frame.seen = t.frame.seen ++ [b] ∧
      (t'.frame.deemedDouble = true ↔ t.frame.deemedDouble = true ∨ b = 46 ∨ b = 101) := by
  have hnot : ¬ (b = 0 ∨ b ∉ jsonNumberChars) := fun h => h.elim hne (· hmem)
  have hiter : iter lf t b = iterNumber lf t b := by rw [iter, hst]
  rw [hiter, iterNumber, if_neg hnot]
  by_cases hdot : b = 46 ∨ b = 101
  · rw [if_pos hdot]
    exact ⟨_, rfl, rfl, rfl, hst, rfl, iff_of_true rfl (.inr hdot)⟩
  · rw [if_neg hdot]
    exact ⟨_, rfl, rfl, rfl, hst, rfl, (or_iff_left hdot).symm⟩

/-- The characters of a number behind its first one. -/
theorem steps_numeral {t : Tokener} {ds rest : List Byte} (hst : t.frame.state = .number)
    (hr : t.rest = ds ++ rest) (hds : ∀ b ∈ ds, b ≠ 0 ∧ b ∈ jsonNumberChars) :
    ∃ t' : Tokener, Steps lf t t' ∧ t'.rest = rest ∧ t'.callers = t.callers ∧
      t'.frame.state = .number ∧ t'.frame.seen = t.frame.seen ++ ds ∧
      (t'.frame.deemedDouble = true ↔
        t.frame.deemedDouble = true ∨ ∃ b ∈ ds, b = 46 ∨ b = 101) := by
  induction ds generalizing t with
  | nil => exact ⟨t, .refl, hr, rfl, hst, by simp, by simp⟩
  | cons b ds ih =>
    obtain ⟨hne, hmem⟩ := hds b List.mem_cons_self
    obtain ⟨t₁, hiter, hr₁, hc₁, hst₁, hseen₁, hdouble₁⟩ := iter_number lf hst hne hmem
    rw [hr, List.cons_append, List.tail_cons] at hr₁
    obtain ⟨t', hsteps, hr', hc', hst', hseen', hdouble'⟩ :=
      ih hst₁ hr₁ fun b' hb' => hds b' (List.mem_cons_of_mem _ hb')
    refine ⟨t', .head (cycle_next hr hne hiter) hsteps, hr', hc'.trans hc₁, hst', ?_, ?_⟩
    · rw [hseen', hseen₁, List.append_assoc, List.singleton_append]
    · rw [hdouble', hdouble₁, List.exists_mem_cons_iff, or_assoc]

/-- A number that is read as `v` from its text. -/
theorem parses_number {d : Byte} {ds : List Byte} {v : JsonObject}
    (hfirst : isdigit d = true ∨ d = 45) (hds : ∀ b ∈ ds, b ≠ 0 ∧ b ∈ jsonNumberChars)
    (hnumber : ∀ deemedDouble : Bool, (deemedDouble = true ↔ ∃ b ∈ ds, b = 46 ∨ b = 101) →
      (if deemedDouble then (lf (d :: ds)).map .double else (sscanfInt (d :: ds)).map .int) =
        some v) : Parses lf (d :: ds) v := by
  refine parses_of_complete lf (fun f => f.state = .number ∧ f.seen = d :: ds ∧
      (f.deemedDouble = true ↔ ∃ b ∈ ds, b = 46 ∨ b = 101))
    ⟨d, ds, rfl, startsNumber hfirst⟩ (fun h => ?_) (fun rest pb callers => ?_)
    fun t b hdone hb => ?_
  · cases h
    exact absurd hfirst (by decide)
  · obtain ⟨t, hsteps, hr, hcallers, hst, hdouble, hseen⟩ :=
      steps_number lf hfirst (ds ++ rest) pb callers
    obtain ⟨t', hsteps', hr', hc', hst', hseen', hdouble'⟩ := steps_numeral lf hst hr hds
    refine ⟨t', hsteps.trans hsteps', hr', hc'.trans hcallers, hst', ?_, ?_⟩
    · rw [hseen', hseen]
      rfl
    · rw [hdouble', hdouble]
      simp
  · obtain ⟨hst, hseen, hdouble⟩ := hdone
    have hend : b = 0 ∨ b ∉ jsonNumberChars := by
      refine .inr fun hmem => ?_
      have hother : ∀ b ∈ jsonNumberChars, isspace b = false ∧ b ≠ 0 ∧ b ≠ 44 ∧ b ≠ 93 ∧
          b ≠ 125 := by
        decide +kernel
      obtain ⟨hspace, h0, h44, h93, h125⟩ := hother b hmem
      rcases hb with hb | hb | hb | hb | hb
      · rw [hspace] at hb
        cases hb
      · exact absurd hb h0
      · exact absurd hb h44
      · exact absurd hb h93
      · exact absurd hb h125
    have hiter : iter lf t b = iterNumber lf t b := by rw [iter, hst]
    rw [hiter, iterNumber, if_pos hend, hseen, hnumber _ hdouble]

theorem parses_int {i : Int} (h : InInt i) : Parses lf (decimal i) (.int i) := by
  have hscan := sscanfInt_decimal h
  obtain ⟨d, ds, htext, hfirst, hdig⟩ := decimal_cons i
  rw [htext] at hscan ⊢
  have hchars : ∀ b ∈ ds, b ≠ 0 ∧ b ∈ jsonNumberChars ∧ b ≠ 46 ∧ b ≠ 101 := fun b hb =>
    isdigit_cases (P := fun b => b ≠ 0 ∧ b ∈ jsonNumberChars ∧ b ≠ 46 ∧ b ≠ 101)
      (by decide +kernel) (hdig b hb)
  refine parses_number lf hfirst (fun b hb => ⟨(hchars b hb).1, (hchars b hb).2.1⟩) ?_
  intro deemedDouble hdouble
  have hfalse : deemedDouble = false := by
    rw [← Bool.not_eq_true, hdouble]
    rintro ⟨b, hb, h46 | h101⟩
    · exact (hchars b hb).2.2.1 h46
    · exact (hchars b hb).2.2.2 h101
  simp [hfalse, hscan]

theorem parses_double {text : List Byte} (h : DoubleText lf text) :
    Parses lf text (.double text) := by
  obtain ⟨d, ds, rfl, hfirst, hds, hdot⟩ := h.cons
  refine parses_number lf hfirst hds fun deemedDouble hdouble => ?_
  rw [if_pos (hdouble.mpr hdot), h.reads]
  rfl

/-! ## Strings -/

/-- The parser is inside a quoted text, of which it has read `text`. -/
structure Quoting (t : Tokener) (st : TokenerState) (callers : List Activation)
    (current : JsonPtr) (text rest : List Byte) : Prop where
  state : t.frame.state = st
  quote : t.frame.quoteChar = 34
  callers : t.callers = callers
  current : t.frame.current = current
  text : t.pb ++ t.frame.seen = text
  rest : t.rest = rest

section Strings

variable {t : Tokener} {st : TokenerState} {callers : List Activation} {current : JsonPtr}
  {text rest : List Byte}

/-- A character that stands for itself. -/
theorem Quoting.plain {b : Byte} (h : Quoting t st callers current text (b :: rest))
    (hst : st = .string ∨ st = .objectField) (h0 : b ≠ 0) (h34 : b ≠ 34) (h92 : b ≠ 92) :
    ∃ t', Steps lf t t' ∧ Quoting t' st callers current (text ++ [b]) rest := by
  obtain ⟨hstate, hquote, hcallers, hcurrent, htext, hrest⟩ := h
  have hiter : iter lf t b = .next (t.advance b) := by
    rcases hst with rfl | rfl <;> simp [iter, hstate, hquote, h34, h92]
  refine ⟨_, .head (cycle_next hrest h0 hiter) .refl, hstate, hquote, hcallers, hcurrent, ?_, ?_⟩
  · show t.pb ++ (t.frame.seen ++ [b]) = _
    rw [← List.append_assoc, htext]
  · show t.rest.tail = rest
    rw [hrest, List.tail_cons]

/-- The backslash of an escape, and the character behind it. -/
theorem Quoting.escape {x : Byte} {t' : Tokener}
    (h : Quoting t st callers current text (92 :: x :: rest))
    (hst : st = .string ∨ st = .objectField) (h0 : x ≠ 0)
    (hiter : iterStringEscape (((t.eatws st).goto .stringEscape).advance 92) x = .next t') :
    Steps lf t t' := by
  obtain ⟨hstate, hquote, hcallers, hcurrent, htext, hrest⟩ := h
  have hslash : iter lf t 92 = .next (((t.eatws st).goto .stringEscape).advance 92) := by
    rcases hst with rfl | rfl <;> simp [iter, hstate, hquote]
  have hrest' : (((t.eatws st).goto .stringEscape).advance 92).rest = x :: rest := by
    show t.rest.tail = _
    rw [hrest, List.tail_cons]
  exact .head (cycle_next hrest (by decide) hslash) (.head (cycle_next hrest' h0 hiter) .refl)

/-- An escape by a letter. -/
theorem Quoting.pair {b x : Byte} (h : Quoting t st callers current text (92 :: x :: rest))
    (hst : st = .string ∨ st = .objectField)
    (hpair : (b, x) ∈ [(8, 98), (10, 110), (13, 114), (9, 116), (34, 34)]) :
    ∃ t', Steps lf t t' ∧ Quoting t' st callers current (text ++ [b]) rest := by
  have hrun : (t.frame.seen ++ [92]).dropLast = t.frame.seen := List.dropLast_concat
  have htail : t.rest.tail.tail = rest := by rw [h.rest]; rfl
  have htext := h.text
  simp only [List.mem_cons, Prod.mk.injEq, List.not_mem_nil, or_false] at hpair
  rcases hpair with ⟨rfl, rfl⟩ | ⟨rfl, rfl⟩ | ⟨rfl, rfl⟩ | ⟨rfl, rfl⟩ | ⟨rfl, rfl⟩
  -- the quote becomes a character of the next run, the others are appended
  all_goals
    refine ⟨_, h.escape lf hst (by decide) rfl, rfl, h.quote, h.callers, h.current, ?_, htail⟩
  · show (t.pb ++ (t.frame.seen ++ [92]).dropLast ++ [8]) ++ [] = _
    rw [hrun, htext, List.append_nil]
  · show (t.pb ++ (t.frame.seen ++ [92]).dropLast ++ [10]) ++ [] = _
    rw [hrun, htext, List.append_nil]
  · show (t.pb ++ (t.frame.seen ++ [92]).dropLast ++ [13]) ++ [] = _
    rw [hrun, htext, List.append_nil]
  · show (t.pb ++ (t.frame.seen ++ [92]).dropLast ++ [9]) ++ [] = _
    rw [hrun, htext, List.append_nil]
  · show (t.pb ++ (t.frame.seen ++ [92]).dropLast) ++ [34] = _
    rw [hrun, htext]

theorem utfOut_control : ∀ n < 32, utfOut [48, 48, jsonHexChars.getD (n / 16) 0,
    jsonHexChars.getD (n % 16) 0] = [n.toUInt8] := by decide +kernel

theorem jsonHexChars_getD : ∀ n < 16, jsonHexChars.getD n 0 ∈ jsonHexChars := by decide

theorem jsonHexChars_ne_zero : ∀ x ∈ jsonHexChars, x ≠ 0 := by decide +kernel

/-- A digit of an escape, of which more are to come. -/
theorem steps_digit {x : Byte} (hst : t.frame.state = .escapeUnicode) (hx : x ∈ jsonHexChars)
    (hlen : t.frame.seen.length < 3) (hr : t.rest = x :: rest) :
    Steps lf t (t.read [x] rest) := by
  have hmore : (t.advance x).frame.seen.length ≠ 4 := by
    show (t.frame.seen ++ [x]).length ≠ 4
    rw [List.length_append, List.length_singleton]
    omega
  have hiter : iter lf t x = .next (t.advance x) := by
    rw [show iter lf t x = iterEscapeUnicode t x by rw [iter, hst], iterEscapeUnicode,
      if_pos (.inr hx)]
    exact if_neg hmore
  have hread : t.read [x] rest = t.advance x := by
    rw [Tokener.read, advance, hr, List.tail_cons]
  rw [hread]
  exact .head (cycle_next hr (jsonHexChars_ne_zero x hx) hiter) .refl

/-- The last digit of an escape. -/
theorem steps_lastDigit {x : Byte} (hst : t.frame.state = .escapeUnicode) (hx : x ∈ jsonHexChars)
    (hlen : t.frame.seen.length = 3) (hr : t.rest = x :: rest) :
    Steps lf t ⟨rest, t.pb ++ utfOut (t.frame.seen ++ [x]),
      { t.frame with state := t.frame.savedState, seen := [] }, t.callers⟩ := by
  have hfour : (t.advance x).frame.seen.length = 4 := by
    show (t.frame.seen ++ [x]).length = 4
    rw [List.length_append, List.length_singleton, hlen]
  have hiter : iter lf t x = .next ⟨t.rest.tail, t.pb ++ utfOut (t.frame.seen ++ [x]),
      { t.frame with state := t.frame.savedState, seen := [] }, t.callers⟩ := by
    rw [show iter lf t x = iterEscapeUnicode t x by rw [iter, hst], iterEscapeUnicode,
      if_pos (.inr hx)]
    exact if_pos hfour
  rw [hr, List.tail_cons] at hiter
  exact .head (cycle_next hr (jsonHexChars_ne_zero x hx) hiter) .refl

/-- The four digits of an escape. -/
theorem steps_digits {w x y z : Byte} (hst : t.frame.state = .escapeUnicode)
    (hseen : t.frame.seen = []) (hr : t.rest = w :: x :: y :: z :: rest)
    (hdigits : ∀ c ∈ [w, x, y, z], c ∈ jsonHexChars) :
    Steps lf t ⟨rest, t.pb ++ utfOut [w, x, y, z],
      { t.frame with state := t.frame.savedState, seen := [] }, t.callers⟩ := by
  have h₁ := steps_digit lf hst (hdigits w (by simp)) (by rw [hseen]; decide) hr
  have h₂ := steps_digit lf (t := t.read [w] (x :: y :: z :: rest)) hst (hdigits x (by simp))
    (by simp [Tokener.read, hseen]) rfl
  have h₃ := steps_digit lf (t := (t.read [w] (x :: y :: z :: rest)).read [x] (y :: z :: rest)) hst
    (hdigits y (by simp)) (by simp [Tokener.read, hseen]) rfl
  have h₄ := steps_lastDigit lf (t := ((t.read [w] (x :: y :: z :: rest)).read [x]
    (y :: z :: rest)).read [y] (z :: rest)) hst (hdigits z (by simp))
    (by simp [Tokener.read, hseen]) rfl
  have hfour : t.frame.seen ++ [w] ++ [x] ++ [y] ++ [z] = [w, x, y, z] := by rw [hseen]; rfl
  have hrun := h₁.trans (h₂.trans (h₃.trans h₄))
  simp only [Tokener.read, hfour] at hrun
  exact hrun

/-- An escape by the number of a control character. -/
theorem Quoting.control {b : Byte}
    (h : Quoting t st callers current text (lit "\\u00" ++ [jsonHexChars.getD (b.toNat / 16) 0,
      jsonHexChars.getD (b.toNat % 16) 0] ++ rest))
    (hst : st = .string ∨ st = .objectField) (hb : b < 32) :
    ∃ t', Steps lf t t' ∧ Quoting t' st callers current (text ++ [b]) rest := by
  have hlt : b.toNat < 32 := by simpa [UInt8.lt_iff_toNat_lt] using hb
  have hx := jsonHexChars_getD (b.toNat / 16) (by omega)
  have hy := jsonHexChars_getD (b.toNat % 16) (by omega)
  have hout := utfOut_control b.toNat hlt
  rw [show b.toNat.toUInt8 = b from UInt8.ofNat_toNat] at hout
  generalize jsonHexChars.getD (b.toNat / 16) 0 = x at h hx hout
  generalize jsonHexChars.getD (b.toNat % 16) 0 = y at h hy hout
  have h' : Quoting t st callers current text (92 :: 117 :: 48 :: 48 :: x :: y :: rest) := h
  -- the escape begins a new run, which collects the four digits
  obtain ⟨t₁, hopen, hr₁, hpb₁, hst₁, hsv₁, hseen₁, hq₁, hc₁, hcur₁⟩ : ∃ t₁, Steps lf t t₁ ∧
      t₁.rest = 48 :: 48 :: x :: y :: rest ∧ t₁.pb = text ∧ t₁.frame.state = .escapeUnicode ∧
      t₁.frame.savedState = st ∧ t₁.frame.seen = [] ∧ t₁.frame.quoteChar = 34 ∧
      t₁.callers = callers ∧ t₁.frame.current = current := by
    have hrun : (t.frame.seen ++ [92]).dropLast = t.frame.seen := List.dropLast_concat
    refine ⟨_, h'.escape lf hst (by decide) rfl, ?_, ?_, rfl, rfl, rfl, h.quote, h.callers,
      h.current⟩
    · show t.rest.tail.tail = _
      rw [h'.rest]
      rfl
    · show t.pb ++ (t.frame.seen ++ [92]).dropLast = text
      rw [hrun, h.text]
  have hdigits := steps_digits lf hst₁ hseen₁ hr₁ (by
    have hzero : (48 : Byte) ∈ jsonHexChars := by decide
    simp [hzero, hx, hy])
  refine ⟨_, hopen.trans hdigits, hsv₁, hq₁, hc₁, hcur₁, ?_, rfl⟩
  show t₁.pb ++ utfOut [48, 48, x, y] ++ [] = _
  rw [hpb₁, hout, List.append_nil]

/-- What is printed for one character is read as this character. -/
theorem Quoting.char {b : Byte} (h : Quoting t st callers current text (jsonEscapeChar b ++ rest))
    (hst : st = .string ∨ st = .objectField) (h0 : b ≠ 0) (h92 : b ≠ 92) :
    ∃ t', Steps lf t t' ∧ Quoting t' st callers current (text ++ [b]) rest := by
  unfold jsonEscapeChar at h
  split_ifs at h with h8 h10 h13 h9 h34 h32
  · exact h.pair lf hst (by simp [h8])
  · exact h.pair lf hst (by simp [h10])
  · exact h.pair lf hst (by simp [h13])
  · exact h.pair lf hst (by simp [h9])
  · exact h.pair lf hst (by simp [h34])
  · exact h.control lf hst h32
  · exact h.plain lf hst h0 h34 h92

/-- A printed text up to its closing quote. -/
theorem Quoting.chars {s : List Byte}
    (h : Quoting t st callers current text (jsonEscapeStr s ++ rest))
    (hst : st = .string ∨ st = .objectField) (hs : Printable s) :
    ∃ t', Steps lf t t' ∧ Quoting t' st callers current (text ++ s) rest := by
  rw [jsonEscapeStr, cstr_of_nulFree hs.1] at h
  obtain ⟨h0, h92⟩ := hs
  induction s generalizing t text with
  | nil => exact ⟨t, .refl, by rwa [List.append_nil]⟩
  | cons b s ih =>
    rw [List.mem_cons, not_or] at h0 h92
    rw [List.flatMap_cons, List.append_assoc] at h
    obtain ⟨t₁, hrun, h₁⟩ := h.char lf hst (Ne.symm h0.1) (Ne.symm h92.1)
    obtain ⟨t', hrun', h'⟩ := ih h₁ h0.2 h92.2
    rw [List.append_assoc] at h'
    exact ⟨t', hrun.trans hrun', h'⟩

end Strings

theorem parses_string {s : List Byte} (hs : Printable s) :
    Parses lf ([34] ++ jsonEscapeStr s ++ [34]) (.string s) := by
  refine ⟨⟨34, _, rfl, by decide⟩, by simp, fun ws c rest pb callers hws hd => ?_⟩
  have htext : [34] ++ jsonEscapeStr s ++ [34] ++ (ws ++ c :: rest) =
      34 :: (jsonEscapeStr s ++ 34 :: (ws ++ c :: rest)) := by simp
  rw [htext]
  obtain ⟨t₀, hopen, h₀⟩ : ∃ t₀,
      Steps lf ⟨34 :: (jsonEscapeStr s ++ 34 :: (ws ++ c :: rest)), pb, .init, callers⟩ t₀ ∧
        Quoting t₀ .string callers (.obj .null) [] (jsonEscapeStr s ++ 34 :: (ws ++ c :: rest)) :=
    ⟨_, steps_start lf (by decide) (by decide) (by decide) rfl, rfl, rfl, rfl, rfl, rfl, rfl⟩
  obtain ⟨t, hchars, h⟩ := h₀.chars lf (.inl rfl) hs
  rw [List.nil_append] at h
  have hclose : iter lf t 34 =
      .next (((t.memappend t.frame.seen).complete (.string s)).advance 34) := by
    have hvalue : JsonObject.newString (t.pb ++ t.frame.seen) = .string s := by
      rw [h.text, JsonObject.newString, cstr_of_nulFree hs.1]
    simp [iter, h.state, h.quote, hvalue]
  have hrest : (((t.memappend t.frame.seen).complete (.string s)).advance 34).rest =
      ws ++ c :: rest := by
    show t.rest.tail = _
    rw [h.rest, List.tail_cons]
  exact (returns_finish hd hws hrest rfl rfl).of_steps
    (hopen.trans (hchars.trans (.head (cycle_next h.rest (by decide) hclose) .refl))) h.callers

end PamSmsauth
