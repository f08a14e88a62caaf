import Mathlib.Logic.Relation
import PamSmsauth.Proto
import PamSmsauth.Progress

/-!
# What the parser makes of a text

`Reads text v` says that a call that starts at `text` returns `v`, whatever waits for it. Numbers,
strings without escapes and dictionaries that the server printed of such members are read as what
they spell.
-/

namespace PamSmsauth

open CText Tokener

variable {lf : List Byte → Option (List Byte)}

/-! ## Runs of the parser -/

/-- The parser gets from one of its states to another. -/
def Steps (lf : List Byte → Option (List Byte)) : Tokener → Tokener → Prop :=
  Relation.ReflTransGen fun t t' => cycle lf t = .inr t'

theorem Steps.trans {t t' t'' : Tokener} (h : Steps lf t t') (h' : Steps lf t' t'') :
    Steps lf t t'' :=
  Relation.ReflTransGen.trans h h'

theorem Steps.head {t t' t'' : Tokener} (h : cycle lf t = .inr t') (h' : Steps lf t' t'') :
    Steps lf t t'' :=
  Relation.ReflTransGen.head h h'

theorem runTokener_of_steps {n : Nat} {t t' : Tokener} {p : JsonParsed} (h : Steps lf t t')
    (hend : cycle lf t' = .inl p) (hn : (runTokener lf n t).isSome) :
    runTokener lf n t = some p := by
  induction n generalizing t with
  | zero => cases hn
  | succ n ih =>
    rw [runTokener] at hn ⊢
    rcases Relation.ReflTransGen.cases_head h with rfl | ⟨t₁, hc, hrest⟩
    · rw [hend]
    · rw [hc] at hn ⊢
      exact ih hrest hn

theorem jsonTokenerParse_of_steps {source : List Byte} {t : Tokener} {p : JsonParsed}
    (h : Steps lf (.init source) t) (hend : cycle lf t = .inl p) :
    jsonTokenerParse lf source = p := by
  have hsome : (runTokener lf (6 * source.length + 6) (.init source)).isSome := by
    apply runTokener_isSome (ok_init source)
    show 6 * source.length + 1 < 6 * source.length + 6
    omega
  rw [jsonTokenerParse, runTokener_of_steps h hend hsome]
  rfl

theorem cycle_next {t t' : Tokener} {c : Byte} {rest : List Byte} (hr : t.rest = c :: rest)
    (hc : c ≠ 0) (h : iter lf t c = .next t') : cycle lf t = .inr t' := by
  simp only [cycle, hr, h, if_neg hc]

theorem cycle_call {t : Tokener} {c : Byte} {rest : List Byte} (hr : t.rest = c :: rest)
    (h : iter lf t c = .call t) :
    cycle lf t = .inr ⟨t.rest, t.pb, .init, t.frame :: t.callers⟩ := by
  simp only [cycle, hr, h]

theorem cycle_out {t : Tokener} {c : Byte} {rest : List Byte} {ptr : JsonPtr}
    (hr : t.rest = c :: rest) (h : iter lf t c = .out ptr) : cycle lf t = t.ret ptr := by
  simp only [cycle, hr, h]

theorem ret_nil {t : Tokener} (h : t.callers = []) (ptr : JsonPtr) :
    t.ret ptr = .inl ptr.parsed := by
  rw [Tokener.ret, h, Tokener.retTo]

/-- A value is returned to a caller that adds it. -/
theorem ret_obj {t : Tokener} {f f' : Activation} {callers : List Activation} {v : JsonObject}
    (hc : t.callers = f :: callers) (h : f.resume (.obj v) = some f') :
    t.ret (.obj v) = .inr { t with frame := f', callers } := by
  simp only [Tokener.ret, hc, Tokener.retTo, JsonPtr.err, h]

/-- The state after `text` was read where it stands. -/
def Tokener.read (t : Tokener) (text rest : List Byte) : Tokener :=
  { t with rest, frame := { t.frame with seen := t.frame.seen ++ text } }

/-- Characters that the state only counts. -/
theorem steps_read {t : Tokener} {text rest : List Byte} (hr : t.rest = text ++ rest)
    (h : ∀ c ∈ text, c ≠ 0 ∧ ∀ t' : Tokener, t'.frame.state = t.frame.state →
      t'.frame.quoteChar = t.frame.quoteChar → iter lf t' c = .next (t'.advance c)) :
    Steps lf t (t.read text rest) := by
  induction text generalizing t with
  | nil =>
    have ht : t = t.read [] rest := by
      rw [List.nil_append] at hr
      subst hr
      simp [Tokener.read]
    rw [← ht]
    exact .refl
  | cons c text ih =>
    have hadv : (t.advance c).rest = text ++ rest := by simp [advance, hr]
    have hread : t.read (c :: text) rest = (t.advance c).read text rest := by
      simp [Tokener.read, advance]
    rw [hread]
    refine .head (cycle_next hr (h c (by simp)).1 ((h c (by simp)).2 t rfl rfl)) (ih hadv ?_)
    intro c' hc'
    exact h c' (by simp [hc'])

variable (lf)

/-- White space, and the character after it. -/
theorem steps_eatws {t : Tokener} (ws : List Byte) {c : Byte} {rest : List Byte}
    (hst : t.frame.state = .eatws) (hr : t.rest = ws ++ c :: rest)
    (hws : ∀ b ∈ ws, isspace b = true) (hc : c ≠ 0) (hsp : isspace c = false) (hcom : c ≠ 47) :
    Steps lf t ((t.read ws (c :: rest)).goto t.frame.savedState) := by
  have hread : Steps lf t (t.read ws (c :: rest)) := by
    apply steps_read hr
    intro b hb
    have hb := hws b hb
    refine ⟨by (rintro rfl; cases hb), ?_⟩
    intro t' hst' _
    simp [iter, hst', hst, hb]
  refine hread.trans (.head (cycle_next rfl hc ?_) .refl)
  simp [iter, Tokener.read, hst, hsp, hcom]


/-! ## Values -/

/-- What can stand behind a value: the end of the text, a comma or a brace. -/
def Delim (c : Byte) : Prop := c = 0 ∨ c = 44 ∨ c = 125

/-- A value starts here. -/
def Starts (text : List Byte) : Prop :=
  ∃ c rest, text = c :: rest ∧ c ≠ 0 ∧ isspace c = false ∧ c ≠ 47

/-- A call that starts at `text` returns `v`. -/
structure Reads (lf : List Byte → Option (List Byte)) (text : List Byte) (v : JsonObject) :
    Prop where
  starts : Starts text
  returns : ∀ (c : Byte) (rest pb : List Byte) (callers : List Activation), Delim c →
    ∃ t t' : Tokener, Steps lf ⟨text ++ c :: rest, pb, .init, callers⟩ t ∧
      cycle lf t = t'.ret (.obj v) ∧ t'.rest = c :: rest ∧ t'.callers = callers

/-- A call that has its value returns it. -/
theorem steps_finish {t : Tokener} {c : Byte} {rest : List Byte} (hd : Delim c)
    (hr : t.rest = c :: rest) (hst : t.frame.state = .eatws) (hsv : t.frame.savedState = .finish) :
    ∃ t₁ t' : Tokener, Steps lf t t₁ ∧ cycle lf t₁ = t'.ret t.frame.current ∧
      t'.rest = c :: rest ∧ t'.callers = t.callers := by
  have hgoto : iter lf t c = .next (t.goto .finish) := by
    rcases hd with rfl | rfl | rfl <;> simp [iter, hst, hsv, isspace]
  by_cases hc : c = 0
  · refine ⟨t, t.goto .finish, .refl, ?_, hr, rfl⟩
    simp [cycle, hr, hgoto, if_pos hc, Tokener.exit, goto]
  · refine ⟨t.goto .finish, t.goto .finish, .head (cycle_next hr hc hgoto) .refl, ?_, hr, rfl⟩
    have hrest : (t.goto .finish).rest = c :: rest := hr
    exact cycle_out hrest rfl

theorem jsonTokenerParse_of_reads {text : List Byte} {v : JsonObject} (h : Reads lf text v)
    (rest : List Byte) : jsonTokenerParse lf (text ++ 0 :: rest) = .value v := by
  obtain ⟨t, t', hsteps, hret, -, hcallers⟩ := h.returns 0 rest [] [] (.inl rfl)
  apply jsonTokenerParse_of_steps hsteps
  rw [hret, ret_nil hcallers, JsonPtr.parsed]

/-- The first character of a value. -/
theorem steps_start {pb : List Byte} {callers : List Activation} {c : Byte} {rest : List Byte}
    (hc : c ≠ 0) (hsp : isspace c = false) (hcom : c ≠ 47) {t' : Tokener}
    (h : iterStart ((⟨c :: rest, pb, .init, callers⟩ : Tokener).goto .start) c = .next t') :
    Steps lf ⟨c :: rest, pb, .init, callers⟩ t' := by
  have hws := steps_eatws lf (t := ⟨c :: rest, pb, .init, callers⟩) [] rfl rfl
    (by simp) hc hsp hcom
  exact hws.trans (.head (cycle_next rfl hc h) .refl)

/-- The character behind a number completes it. -/
theorem steps_complete {t : Tokener} {c : Byte} {rest : List Byte} {v : JsonObject} (hd : Delim c)
    (hr : t.rest = c :: rest) (h : iter lf t c = .next (t.complete v)) :
    ∃ t₁ t' : Tokener, Steps lf t t₁ ∧ cycle lf t₁ = t'.ret (.obj v) ∧ t'.rest = c :: rest ∧
      t'.callers = t.callers := by
  by_cases hc : c = 0
  · refine ⟨t, t.complete v, .refl, ?_, hr, rfl⟩
    simp [cycle, hr, h, if_pos hc, Tokener.exit, Tokener.complete, Tokener.eatws, setCurrent]
  · obtain ⟨t₁, t', hsteps, hret⟩ := steps_finish lf (t := t.complete v) hd hr rfl rfl
    exact ⟨t₁, t', .head (cycle_next hr hc h) hsteps, hret⟩

theorem sscanfInt_decimal {i : Int} (h : InInt i) : sscanfInt (decimal i) = some i := by
  have hval : atoi (decimal i) = i := atoi_decimal h
  obtain ⟨d, ds, hd, hfirst, hdig⟩ := decimalNat_cons i.natAbs
  rw [decimal, hd] at hval ⊢
  split_ifs at hval ⊢
  · simp [sscanfInt, hval, isspace, hfirst]
  · obtain ⟨hsp, h45, h43⟩ := isdigit_ne hfirst
    simp only [sscanfInt, List.dropWhile_cons, hsp, hval]
    split
    · rename_i heq; exact absurd (List.cons.inj heq).1 h45
    · rename_i heq; exact absurd (List.cons.inj heq).1 h43
    · simp [hfirst]

theorem iter_number_advance {t : Tokener} {b : Byte} (hst : t.frame.state = .number)
    (hb : isdigit b = true) : iter lf t b = .next (t.advance b) := by
  have hchar : b ≠ 0 ∧ b ∈ jsonNumberChars ∧ b ≠ 46 ∧ b ≠ 101 :=
    isdigit_cases (P := fun b => b ≠ 0 ∧ b ∈ jsonNumberChars ∧ b ≠ 46 ∧ b ≠ 101)
      (by decide +kernel) hb
  simp [iter, hst, iterNumber, hchar]

theorem mem_of_number {d : Byte} (hd : isdigit d = true ∨ d = 45) : d ∈ lit "-0123456789" := by
  rcases hd with hd | rfl
  · exact isdigit_cases (P := (· ∈ lit "-0123456789")) (by decide +kernel) hd
  · decide

theorem startsNumber {d : Byte} (hd : isdigit d = true ∨ d = 45) :
    d ≠ 0 ∧ isspace d = false ∧ d ≠ 47 := by
  have hstart : ∀ d ∈ lit "-0123456789", d ≠ 0 ∧ isspace d = false ∧ d ≠ 47 := by
    decide +kernel
  exact hstart d (mem_of_number hd)

/-- The first character of a number. -/
theorem steps_number {d : Byte} (hd : isdigit d = true ∨ d = 45) (rest pb : List Byte)
    (callers : List Activation) : ∃ t : Tokener, Steps lf ⟨d :: rest, pb, .init, callers⟩ t ∧
      t.rest = rest ∧ t.callers = callers ∧ t.frame.state = .number ∧
      t.frame.deemedDouble = false ∧ t.frame.seen = [d] := by
  have hother : ∀ d ∈ lit "-0123456789", d ≠ 123 ∧ d ≠ 91 ∧ ¬ (d = 78 ∨ d = 110) ∧
      ¬ (d = 34 ∨ d = 39) ∧ ¬ (d = 84 ∨ d = 116 ∨ d = 70 ∨ d = 102) := by decide +kernel
  obtain ⟨h1, h2, h3, h4, h5⟩ := hother d (mem_of_number hd)
  have hiter : ∀ t : Tokener, iterStart t d = .next (({ t with
      frame := { t.frame with deemedDouble := false } }.mark.goto .number).advance d) := by
    intro t
    rw [iterStart, if_neg h1, if_neg h2, if_neg h3, if_neg h4, if_neg h5, if_pos hd]
  obtain ⟨h0, hsp, hcom⟩ := startsNumber hd
  exact ⟨_, steps_start lf h0 hsp hcom (hiter _), rfl, rfl, rfl, rfl, rfl⟩

theorem reads_int {i : Int} (h : InInt i) : Reads lf (decimal i) (.int i) := by
  have hscan := sscanfInt_decimal h
  obtain ⟨d, ds, htext, hfirst, hdig⟩ := decimal_cons i
  rw [htext] at hscan ⊢
  refine ⟨⟨d, ds, rfl, startsNumber hfirst⟩, ?_⟩
  intro c rest pb callers hd
  obtain ⟨t, hsteps, hrest, hcallers, hst, hdouble, hseen⟩ :=
    steps_number lf hfirst (ds ++ c :: rest) pb callers
  have hread : Steps lf t (t.read ds (c :: rest)) := by
    apply steps_read hrest
    intro b hb
    refine ⟨isdigit_cases (P := (· ≠ 0)) (by decide +kernel) (hdig b hb), ?_⟩
    intro t' hst' _
    exact iter_number_advance lf (hst'.trans hst) (hdig b hb)
  have hend : iter lf (t.read ds (c :: rest)) c =
      .next ((t.read ds (c :: rest)).complete (.int i)) := by
    have hc : c = 0 ∨ c ∉ jsonNumberChars := by
      rcases hd with rfl | rfl | rfl
      · exact .inl rfl
      · exact .inr (by decide)
      · exact .inr (by decide)
    simp [iter, Tokener.read, hst, iterNumber, if_pos hc, hdouble, hseen, hscan]
  obtain ⟨t₁, t', hfin, hret, hr', hc'⟩ := steps_complete lf hd rfl hend
  exact ⟨t₁, t', (hsteps.trans hread).trans hfin, hret, hr', hc'.trans hcallers⟩

/-- The characters up to the closing quote. -/
theorem steps_quoted {t : Tokener} {s rest : List Byte}
    (hst : t.frame.state = .string ∨ t.frame.state = .objectField) (hq : t.frame.quoteChar = 34)
    (hr : t.rest = s ++ 34 :: rest) (h : Plain s) : Steps lf t (t.read s (34 :: rest)) := by
  apply steps_read hr
  intro b hb
  obtain ⟨hlo, -, h34, h92⟩ := h b hb
  refine ⟨by (rintro rfl; revert hlo; decide), ?_⟩
  intro t' hst' hq'
  have hquote : t'.frame.quoteChar = 34 := hq'.trans hq
  rcases hst with hst | hst
  · simp [iter, hst'.trans hst, hquote, h34, h92]
  · simp [iter, hst'.trans hst, hquote, h34, h92]

theorem reads_string {s : List Byte} (h : Plain s) :
    Reads lf (34 :: s ++ [34]) (.string s) := by
  refine ⟨⟨34, s ++ [34], rfl, by decide⟩, ?_⟩
  intro c rest pb callers hd
  have htext : 34 :: s ++ [34] ++ c :: rest = 34 :: (s ++ 34 :: c :: rest) := by simp
  rw [htext]
  obtain ⟨t, hopen, hr, hpb, hcallers, hst, hq, hseen⟩ : ∃ t : Tokener,
      Steps lf ⟨34 :: (s ++ 34 :: c :: rest), pb, .init, callers⟩ t ∧
        t.rest = s ++ 34 :: c :: rest ∧ t.pb = [] ∧ t.callers = callers ∧
        t.frame.state = .string ∧ t.frame.quoteChar = 34 ∧ t.frame.seen = [] := by
    have hiter : ∀ t : Tokener, iterStart t 34 = .next (t.openQuote 34 .string) := fun _ => rfl
    exact ⟨_, steps_start lf (by decide) (by decide) (by decide) (hiter _), rfl, rfl, rfl, rfl, rfl,
      rfl⟩
  have hquoted := steps_quoted lf (.inl hst) hq hr h
  have hclose : iter lf (t.read s (34 :: c :: rest)) 34 =
      .next ((((t.read s (34 :: c :: rest)).memappend s).complete (.string s)).advance 34) := by
    simp [iter, Tokener.read, hst, hq, hpb, hseen, JsonObject.newString, h.cstr]
  have hclosed := cycle_next rfl (by decide) hclose
  obtain ⟨t₁, t', hfin, hret, hr', hc'⟩ := steps_finish lf
    (t := (((t.read s (34 :: c :: rest)).memappend s).complete (.string s)).advance 34)
    hd rfl rfl rfl
  exact ⟨t₁, t', (hopen.trans hquoted).trans (.head hclosed hfin), hret, hr', hc'.trans hcallers⟩

/-- The closing quote of a key. -/
theorem iter_closeKey {t : Tokener} (hst : t.frame.state = .objectField)
    (hq : t.frame.quoteChar = 34) : ∃ t' : Tokener, iter lf t 34 = .next t' ∧
      t'.rest = t.rest.tail ∧ t'.callers = t.callers ∧ t'.frame.state = .eatws ∧
      t'.frame.savedState = .objectFieldEnd ∧ t'.frame.current = t.frame.current ∧
      t'.frame.objFieldName = cstr (t.pb ++ t.frame.seen) := by
  simp only [iter, hst, hq, if_true]
  exact ⟨_, rfl, rfl, rfl, rfl, rfl, rfl, rfl⟩

/-- The key of a member, from the white space before it to the first character of its value. -/
theorem steps_key {t : Tokener} {ws key text : List Byte}
    (hst : t.frame.state = .eatws) (hsv : t.frame.savedState = .object)
    (hr : t.rest = ws ++ 34 :: (key ++ 34 :: 58 :: 32 :: text))
    (hws : ∀ b ∈ ws, isspace b = true) (hkey : Plain key) (htext : Starts text) :
    ∃ t' : Tokener, Steps lf t t' ∧ t'.rest = text ∧ t'.callers = t.callers ∧
      t'.frame.state = .objectValue ∧ t'.frame.current = t.frame.current ∧
      t'.frame.objFieldName = key := by
  obtain ⟨x, r, rfl, hx⟩ := htext
  -- the opening quote
  obtain ⟨t₁, hopen, hr₁, hpb₁, hc₁, hst₁, hq₁, hseen₁, hcur₁⟩ : ∃ t₁ : Tokener, Steps lf t t₁ ∧
      t₁.rest = key ++ 34 :: 58 :: 32 :: x :: r ∧ t₁.pb = [] ∧ t₁.callers = t.callers ∧
      t₁.frame.state = .objectField ∧ t₁.frame.quoteChar = 34 ∧ t₁.frame.seen = [] ∧
      t₁.frame.current = t.frame.current := by
    have hws := steps_eatws lf ws hst hr hws (by decide) (by decide) (by decide)
    rw [hsv] at hws
    refine ⟨_, hws.trans (.head (cycle_next rfl (by decide) rfl)
      (.head (cycle_next rfl (by decide) rfl) .refl)), ?_⟩
    exact ⟨rfl, rfl, rfl, rfl, rfl, rfl, rfl⟩
  -- the closing quote
  obtain ⟨t₂, hclose, hr₂, hc₂, hst₂, hsv₂, hcur₂, hname₂⟩ : ∃ t₂ : Tokener, Steps lf t₁ t₂ ∧
      t₂.rest = 58 :: 32 :: x :: r ∧ t₂.callers = t₁.callers ∧ t₂.frame.state = .eatws ∧
      t₂.frame.savedState = .objectFieldEnd ∧ t₂.frame.current = t₁.frame.current ∧
      t₂.frame.objFieldName = key := by
    have hquoted := steps_quoted lf (.inr hst₁) hq₁ hr₁ hkey
    obtain ⟨t₂, hiter, hfields⟩ := iter_closeKey lf
      (t := t₁.read key (34 :: 58 :: 32 :: x :: r)) hst₁ hq₁
    rw [Tokener.read, hpb₁, hseen₁, List.nil_append, List.nil_append, hkey.cstr] at hfields
    exact ⟨t₂, hquoted.trans (.head (cycle_next rfl (by decide) hiter) .refl), hfields⟩
  -- the colon
  have hcolon := steps_eatws lf [] hst₂ hr₂ (by simp) (by decide) (by decide)
    (by decide)
  rw [hsv₂] at hcolon
  have hvalue : cycle lf ((t₂.read [] (58 :: 32 :: x :: r)).goto .objectFieldEnd) = .inr
      ((((t₂.read [] (58 :: 32 :: x :: r)).goto .objectFieldEnd).eatws .objectValue).advance 58) :=
    cycle_next rfl (by decide) rfl
  have hspace := steps_eatws lf [32]
    (t := (((t₂.read [] (58 :: 32 :: x :: r)).goto .objectFieldEnd).eatws .objectValue).advance 58)
    rfl rfl (by simp [isspace]) hx.1 hx.2.1 hx.2.2
  refine ⟨_, hopen.trans (hclose.trans (hcolon.trans (.head hvalue hspace))), rfl, ?_, rfl, ?_, ?_⟩
  · exact hc₂.trans hc₁
  · exact hcur₂.trans hcur₁
  · exact hname₂

/-- A member of an object, from the white space before it to the character behind it. -/
theorem steps_member {t : Tokener} {ws key text rest : List Byte} {v : JsonObject} {c : Byte}
    {entries : List (List Byte × JsonObject)} (hst : t.frame.state = .eatws)
    (hsv : t.frame.savedState = .object) (hcur : t.frame.current = .obj (.object entries))
    (hr : t.rest = ws ++ 34 :: (key ++ 34 :: 58 :: 32 :: (text ++ c :: rest)))
    (hws : ∀ b ∈ ws, isspace b = true) (hkey : Plain key) (hd : Delim c) (h : Reads lf text v) :
    ∃ t' : Tokener, Steps lf t t' ∧ t'.rest = c :: rest ∧ t'.callers = t.callers ∧
      t'.frame.state = .eatws ∧ t'.frame.savedState = .objectSep ∧
      t'.frame.current = .obj (.object (JsonObject.addEntry key v entries)) := by
  obtain ⟨x, r, htext, hx⟩ := h.starts
  have hstarts : Starts (text ++ c :: rest) := ⟨x, r ++ c :: rest, by simp [htext], hx⟩
  obtain ⟨t₁, hsteps, hr₁, hc₁, hst₁, hcur₁, hname⟩ :=
    steps_key lf hst hsv hr hws hkey hstarts
  have hcall : cycle lf t₁ = .inr ⟨text ++ c :: rest, t₁.pb, .init, t₁.frame :: t₁.callers⟩ := by
    rw [← hr₁]
    have hcons : t₁.rest = x :: (r ++ c :: rest) := by rw [hr₁, htext]; rfl
    exact cycle_call hcons (by simp [iter, hst₁])
  obtain ⟨t₂, t', hval, hret, hr', hc'⟩ := h.returns c rest t₁.pb (t₁.frame :: t₁.callers) hd
  have hresume : t₁.frame.resume (.obj v) = some { t₁.frame with
      state := .eatws, savedState := .objectSep,
      current := .obj (.object (JsonObject.addEntry key v entries)), objFieldName := [] } := by
    simp only [Activation.resume, hst₁, hcur₁, hcur, hname, JsonPtr.objectAdd,
      JsonObject.objectAdd, hkey.cstr, Option.map_some]
  have hback := hret.trans (ret_obj hc' hresume)
  exact ⟨_, hsteps.trans (.head hcall (hval.trans (.head hback .refl))), hr', hc₁, rfl, rfl, rfl⟩

/-- The opening brace. -/
theorem steps_openObject (rest pb : List Byte) (callers : List Activation) :
    ∃ t : Tokener, Steps lf ⟨123 :: rest, pb, .init, callers⟩ t ∧ t.rest = rest ∧
      t.callers = callers ∧ t.frame.state = .eatws ∧ t.frame.savedState = .object ∧
      t.frame.current = .obj (.object []) :=
  ⟨_, steps_start lf (by decide) (by decide) (by decide) rfl, rfl, rfl, rfl, rfl, rfl⟩

/-- The comma between two members. -/
theorem steps_comma {t : Tokener} {rest : List Byte} (hst : t.frame.state = .eatws)
    (hsv : t.frame.savedState = .objectSep) (hr : t.rest = 44 :: rest) :
    ∃ t' : Tokener, Steps lf t t' ∧ t'.rest = rest ∧ t'.callers = t.callers ∧
      t'.frame.state = .eatws ∧ t'.frame.savedState = .object ∧
      t'.frame.current = t.frame.current := by
  have hws := steps_eatws lf [] hst hr (by simp) (by decide) (by decide) (by decide)
  rw [hsv] at hws
  exact ⟨_, hws.trans (.head (cycle_next rfl (by decide) rfl) .refl), rfl, rfl, rfl, rfl, rfl⟩

/-- The closing brace. -/
theorem steps_closeObject {t : Tokener} {rest : List Byte} (hst : t.frame.state = .eatws)
    (hsv : t.frame.savedState = .objectSep) (hr : t.rest = 125 :: rest) :
    ∃ t' : Tokener, Steps lf t t' ∧ t'.rest = rest ∧ t'.callers = t.callers ∧
      t'.frame.state = .eatws ∧ t'.frame.savedState = .finish ∧
      t'.frame.current = t.frame.current := by
  have hws := steps_eatws lf [] hst hr (by simp) (by decide) (by decide) (by decide)
  rw [hsv] at hws
  exact ⟨_, hws.trans (.head (cycle_next rfl (by decide) rfl) .refl), rfl, rfl, rfl, rfl, rfl⟩

/-- The members of an object and its closing brace. -/
theorem steps_members {members : List (List Byte × List Byte × JsonObject)} (hne : members ≠ [])
    (hplain : ∀ m ∈ members, Plain m.1) (hreads : ∀ m ∈ members, Reads lf m.2.1 m.2.2)
    {t : Tokener} {ws rest : List Byte} {entries : List (List Byte × JsonObject)}
    (hnodup : (entries.map Prod.fst ++ members.map Prod.fst).Nodup)
    (hst : t.frame.state = .eatws) (hsv : t.frame.savedState = .object)
    (hcur : t.frame.current = .obj (.object entries)) (hws : ∀ b ∈ ws, isspace b = true)
    (hr : t.rest = ws ++ (dumpsEntries (members.map fun m => (m.1, m.2.1)) ++ 125 :: rest)) :
    ∃ t' : Tokener, Steps lf t t' ∧ t'.rest = rest ∧ t'.callers = t.callers ∧
      t'.frame.state = .eatws ∧ t'.frame.savedState = .finish ∧
      t'.frame.current = .obj (.object (entries ++ members.map fun m => (m.1, m.2.2))) := by
  induction members generalizing t ws entries with
  | nil => exact absurd rfl hne
  | cons m members ih =>
    obtain ⟨key, text, v⟩ := m
    have hkey : Plain key := hplain (key, text, v) (by simp)
    have hval : Reads lf text v := hreads (key, text, v) (by simp)
    have hadd : JsonObject.addEntry key v entries = entries ++ [(key, v)] := by
      apply JsonObject.addEntry_of_not_mem
      rintro e he rfl
      have hdisj := (List.nodup_append.mp hnodup).2.2
      exact hdisj e.1 (List.mem_map_of_mem he) e.1 (by simp) rfl
    have hprint : dumpsStr key = 34 :: key ++ [34] := dumpsStr_plain hkey
    cases members with
    | nil =>
      have hmember : t.rest = ws ++ 34 :: (key ++ 34 :: 58 :: 32 :: (text ++ 125 :: rest)) := by
        simpa [dumpsEntries, hprint, lit] using hr
      obtain ⟨t₁, h₁, hr₁, hc₁, hst₁, hsv₁, hcur₁⟩ :=
        steps_member lf hst hsv hcur hmember hws hkey (.inr (.inr rfl)) hval
      obtain ⟨t', h', hr', hc', hst', hsv', hcur'⟩ := steps_closeObject lf hst₁ hsv₁ hr₁
      refine ⟨t', h₁.trans h', hr', hc'.trans hc₁, hst', hsv', ?_⟩
      rw [hcur', hcur₁, hadd]
      rfl
    | cons m' members =>
      have hmember : t.rest = ws ++ 34 :: (key ++ 34 :: 58 :: 32 :: (text ++ 44 :: 32 ::
          (dumpsEntries ((m' :: members).map fun m => (m.1, m.2.1)) ++ 125 :: rest))) := by
        simpa [dumpsEntries, hprint, lit] using hr
      obtain ⟨t₁, h₁, hr₁, hc₁, hst₁, hsv₁, hcur₁⟩ :=
        steps_member lf hst hsv hcur hmember hws hkey (.inr (.inl rfl)) hval
      obtain ⟨t₂, h₂, hr₂, hc₂, hst₂, hsv₂, hcur₂⟩ := steps_comma lf hst₁ hsv₁ hr₁
      rw [hcur₁, hadd] at hcur₂
      have hnodup₂ : ((entries ++ [(key, v)]).map Prod.fst ++
          (m' :: members).map Prod.fst).Nodup := by simpa using hnodup
      have hspace : ∀ b ∈ [(32 : Byte)], isspace b = true := by simp [isspace]
      obtain ⟨t', h', hr', hc', hst', hsv', hcur'⟩ := ih (by simp)
        (fun m hm => hplain m (by simp [hm])) (fun m hm => hreads m (by simp [hm]))
        hnodup₂ hst₂ hsv₂ hcur₂ hspace hr₂
      refine ⟨t', h₁.trans (h₂.trans h'), hr', (hc'.trans hc₂).trans hc₁, hst', hsv', ?_⟩
      rw [hcur']
      simp

/-- A dictionary that was printed is read as an object with its members. -/
theorem reads_dumpsDict (members : List (List Byte × List Byte × JsonObject))
    (hne : members ≠ []) (hplain : ∀ m ∈ members, Plain m.1)
    (hreads : ∀ m ∈ members, Reads lf m.2.1 m.2.2) (hnodup : (members.map Prod.fst).Nodup) :
    Reads lf (dumpsDict (members.map fun m => (m.1, m.2.1)))
      (.object (members.map fun m => (m.1, m.2.2))) := by
  refine ⟨⟨123, _, rfl, by decide⟩, ?_⟩
  intro c rest pb callers hd
  obtain ⟨t₁, h₁, hr₁, hc₁, hst₁, hsv₁, hcur₁⟩ := steps_openObject lf
    (dumpsEntries (members.map fun m => (m.1, m.2.1)) ++ [125] ++ c :: rest) pb callers
  have hmembers : t₁.rest =
      [] ++ (dumpsEntries (members.map fun m => (m.1, m.2.1)) ++ 125 :: c :: rest) := by
    simpa using hr₁
  obtain ⟨t₂, h₂, hr₂, hc₂, hst₂, hsv₂, hcur₂⟩ := steps_members lf hne hplain hreads
    (by simpa using hnodup) hst₁ hsv₁ hcur₁ (by simp) hmembers
  obtain ⟨t₃, t', h₃, hret, hr', hc'⟩ := steps_finish lf hd hr₂ hst₂ hsv₂
  rw [hcur₂, List.nil_append] at hret
  exact ⟨t₃, t', h₁.trans (h₂.trans h₃), hret, hr', (hc'.trans hc₂).trans hc₁⟩

/-! ## Responses of the server -/

/-- What the parser makes of a value in a response. -/
def Field.object : Field → JsonObject
  | .int i => .int i
  | .text s => .string s

def packetObject (entries : List (List Byte × Field)) : JsonObject :=
  .object [(jsonPacketName, .object (entries.map fun e => (e.1, e.2.object)))]

/-- The parser gives it back as it was printed. -/
def Field.Readable : Field → Prop
  | .int i => InInt i
  | .text s => Plain s

instance : (f : Field) → Decidable f.Readable
  | .int i => inferInstanceAs (Decidable (InInt i))
  | .text s => inferInstanceAs (Decidable (Plain s))

theorem reads_field {f : Field} (h : f.Readable) : Reads lf f.dumps f.object := by
  cases f with
  | int i => exact reads_int lf h
  | text s => rw [Field.dumps, dumpsStr_plain h]; exact reads_string lf h

theorem parse_response {entries : List (List Byte × Field)} (hne : entries ≠ [])
    (hplain : ∀ e ∈ entries, Plain e.1) (hfield : ∀ e ∈ entries, e.2.Readable)
    (hnodup : (entries.map Prod.fst).Nodup) (rest : List Byte) :
    jsonTokenerParse lf (JsonResponse.printPacket entries ++ 0 :: rest) =
      .value (packetObject entries) := by
  have hpayload := reads_dumpsDict lf
    (entries.map fun e => (e.1, e.2.dumps, e.2.object)) (by simpa using hne)
    (List.forall_mem_map.mpr hplain)
    (List.forall_mem_map.mpr fun e he => reads_field lf (hfield e he))
    (by simpa [Function.comp_def] using hnodup)
  rw [List.map_map, List.map_map] at hpayload
  have hwhole := reads_dumpsDict lf [(jsonPacketName, _, _)] (by simp)
    (by simp; decide) (by simpa using hpayload) (by simp)
  exact jsonTokenerParse_of_reads lf hwhole rest

end PamSmsauth
