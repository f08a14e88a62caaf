import PamSmsauth.Lib.CText

/-!
# The tokens of an SQL text

SQLite's tokenizer as a machine that reads one byte at a time: words (keywords, names and numbers),
quoted texts, line comments and single symbols. A text quoted with `d` ends at a `d` that no second
one follows; two adjacent ones stand for one. A text that ends inside quotes has no tokens. Block
comments, bracketed names and blob literals are left out: what is said about arbitrary texts here is
about their first quoted text, before which none of these occurs.

`double d` writes a value between quotes; what the machine reads from inside quotes was written so
(`lexFrom_inside`).
-/

namespace Sql

open CText

inductive Token where
  | word (text : List Byte)
  | literal (value : List Byte)
  | name (value : List Byte)
  | symbol (b : Byte)
  deriving DecidableEq

/-- A quoted text is a string when the quotes are single ones. -/
def quoted (delim : Byte) (value : List Byte) : Token :=
  if delim = 39 then .literal value else .name value

/-- What the machine is in the middle of. After a `delim` inside a quoted text it is `closed`: the
text has ended unless another `delim` follows. -/
inductive Mode where
  | between
  | word (text : List Byte)
  | inside (delim : Byte) (value : List Byte)
  | closed (delim : Byte) (value : List Byte)
  | dash
  | comment
  deriving DecidableEq

def isWord (b : Byte) : Bool := isalpha b || isdigit b || b = 95 || b = 36 || 128 ≤ b

def isQuote (b : Byte) : Bool := b = 39 || b = 34 || b = 96

def isBlank (b : Byte) : Bool := b = 32 || b = 9 || b = 10 || b = 12 || b = 13

/-- A byte at the beginning of a token. -/
def start (b : Byte) : List Token × Mode :=
  if isWord b then ([], .word [b])
  else if isQuote b then ([], .inside b [])
  else if isBlank b then ([], .between)
  else if b = 45 then ([], .dash)
  else ([.symbol b], .between)

/-- The tokens that a byte completes, and the mode it leaves. -/
def step : Mode → Byte → List Token × Mode
  | .between, b => start b
  | .word text, b =>
    if isWord b then ([], .word (text ++ [b])) else (.word text :: (start b).1, (start b).2)
  | .inside delim value, b =>
    if b = delim then ([], .closed delim value) else ([], .inside delim (value ++ [b]))
  | .closed delim value, b =>
    if b = delim then ([], .inside delim (value ++ [b]))
    else (quoted delim value :: (start b).1, (start b).2)
  | .dash, b => if b = 45 then ([], .comment) else (.symbol 45 :: (start b).1, (start b).2)
  | .comment, b => if b = 10 then ([], .between) else ([], .comment)

def run : Mode → List Byte → List Token × Mode
  | m, [] => ([], m)
  | m, b :: bs => ((step m b).1 ++ (run (step m b).2 bs).1, (run (step m b).2 bs).2)

/-- What the end of the text completes. -/
def finish : Mode → Option (List Token)
  | .between | .comment => some []
  | .word text => some [.word text]
  | .inside _ _ => none
  | .closed delim value => some [quoted delim value]
  | .dash => some [.symbol 45]

/-- The tokens of the text when the machine starts in a given mode. -/
def lexFrom (m : Mode) (bs : List Byte) : Option (List Token) :=
  (finish (run m bs).2).map ((run m bs).1 ++ ·)

def lex (bs : List Byte) : Option (List Token) := lexFrom .between bs

/-! ## Putting texts together -/

theorem run_append (m : Mode) (as bs : List Byte) :
    run m (as ++ bs) =
      ((run m as).1 ++ (run (run m as).2 bs).1, (run (run m as).2 bs).2) := by
  induction as generalizing m with
  | nil => rfl
  | cons a as ih => simp only [List.cons_append, run, ih, List.append_assoc]

theorem run_append_of {m m' m'' : Mode} {as bs : List Byte} {ts ts' : List Token}
    (ha : run m as = (ts, m')) (hb : run m' bs = (ts', m'')) :
    run m (as ++ bs) = (ts ++ ts', m'') := by
  rw [run_append, ha]
  show (ts ++ (run m' bs).1, (run m' bs).2) = _
  rw [hb]

theorem lexFrom_append {m m' : Mode} {as : List Byte} {ts : List Token}
    (ha : run m as = (ts, m')) (bs : List Byte) :
    lexFrom m (as ++ bs) = (lexFrom m' bs).map (ts ++ ·) := by
  simp only [lexFrom, run_append, ha, Option.map_map]
  congr 1
  funext toks
  simp

theorem lexFrom_of_run {m m' : Mode} {bs : List Byte} {ts : List Token} (h : run m bs = (ts, m')) :
    lexFrom m bs = (finish m').map (ts ++ ·) := by
  rw [lexFrom, h]

theorem run_word {w : List Byte} (h : ∀ b ∈ w, isWord b = true) (text : List Byte) :
    run (.word text) w = ([], .word (text ++ w)) := by
  induction w generalizing text with
  | nil => simp [run]
  | cons b w ih =>
    simp [run, step, h b (by simp), ih fun x hx => h x (by simp [hx])]

/-- A word where a token can begin. -/
theorem run_between_word {w : List Byte} (hne : w ≠ []) (h : ∀ b ∈ w, isWord b = true) :
    run .between w = ([], .word w) := by
  obtain ⟨b, bs, rfl⟩ := List.exists_cons_of_ne_nil hne
  have hbs := run_word (fun x hx => h x (List.mem_cons_of_mem _ hx)) [b]
  simp [run, step, start, h b (by simp), hbs]

theorem run_inside {delim : Byte} {w : List Byte} (h : delim ∉ w) (value : List Byte) :
    run (.inside delim value) w = ([], .inside delim (value ++ w)) := by
  induction w generalizing value with
  | nil => simp [run]
  | cons b w ih =>
    obtain ⟨hb, hw⟩ : delim ≠ b ∧ delim ∉ w := by simpa using h
    simp [run, step, Ne.symm hb, ih hw]

/-! ## Quoted texts -/

/-- A value as it is written between quotes. -/
def double (delim : Byte) (value : List Byte) : List Byte :=
  value.flatMap fun b => if b = delim then [b, b] else [b]

@[simp] theorem double_nil (delim : Byte) : double delim [] = [] := rfl

theorem double_cons (delim b : Byte) (value : List Byte) :
    double delim (b :: value) = (if b = delim then [b, b] else [b]) ++ double delim value := by
  simp [double]

theorem count_double (delim : Byte) (value : List Byte) :
    (double delim value).count delim = 2 * value.count delim := by
  induction value with
  | nil => rfl
  | cons b value ih =>
    rw [double_cons, List.count_append, ih, List.count_cons]
    by_cases h : b = delim
    · simp [h]; omega
    · simp [h]

/-- A text that is read from inside quotes starts with a value written between quotes, and this
value is its first token. -/
theorem lexFrom_inside {delim : Byte} {bs : List Byte} {toks : List Token} :
    ∀ {value : List Byte},
      (lexFrom (.inside delim value) bs = some toks → ∃ u rest more,
        bs = double delim u ++ delim :: rest ∧ toks = quoted delim (value ++ u) :: more) ∧
      (lexFrom (.closed delim value) bs = some toks →
        (∃ more, toks = quoted delim value :: more) ∨ ∃ u rest more,
          bs = delim :: (double delim u ++ delim :: rest) ∧
            toks = quoted delim (value ++ delim :: u) :: more) := by
  induction bs with
  | nil =>
    intro value
    constructor
    · intro h
      cases h
    · intro h
      exact .inl ⟨[], (Option.some.inj h).symm⟩
  | cons b bs ih =>
    intro value
    constructor
    · intro h
      by_cases hb : b = delim
      · have hstep : lexFrom (.closed delim value) bs = some toks := by
          simpa [lexFrom, run, step, hb] using h
        subst hb
        rcases ih.2 hstep with ⟨more, hmore⟩ | ⟨u, rest, more, hbs, htoks⟩
        · exact ⟨[], bs, more, by simp, by simpa using hmore⟩
        · exact ⟨b :: u, rest, more, by simp [double_cons, hbs], htoks⟩
      · have hstep : lexFrom (.inside delim (value ++ [b])) bs = some toks := by
          simpa [lexFrom, run, step, hb] using h
        obtain ⟨u, rest, more, hbs, htoks⟩ := ih.1 hstep
        exact ⟨b :: u, rest, more, by simp [double_cons, hb, hbs], by simpa using htoks⟩
    · intro h
      by_cases hb : b = delim
      · have hstep : lexFrom (.inside delim (value ++ [b])) bs = some toks := by
          simpa [lexFrom, run, step, hb] using h
        obtain ⟨u, rest, more, hbs, htoks⟩ := ih.1 hstep
        exact .inr ⟨u, rest, more, by simp [hb, hbs], by simpa [hb] using htoks⟩
      · left
        simp only [lexFrom, run, step, if_neg hb, Option.map_eq_some_iff] at h
        obtain ⟨ts, -, hts⟩ := h
        exact ⟨_, hts.symm⟩

/-- A value that is followed by at most one quote is read back only when it has none itself: it
would have to be written with twice its quotes. -/
theorem not_mem_of_lexFrom_inside {delim : Byte} {value w suffix : List Byte} {toks : List Token}
    (hw : w.Sublist (value ++ delim :: suffix)) (hsuffix : delim ∉ suffix)
    (h : lexFrom (.inside delim []) w = some (quoted delim value :: toks)) : delim ∉ value := by
  obtain ⟨u, rest, more, hbs, htoks⟩ := lexFrom_inside.1 h
  have hu : u = value := by
    have := (List.cons.inj htoks).1
    unfold quoted at this
    split at this
    · simpa using (Token.literal.inj this).symm
    · simpa using (Token.name.inj this).symm
  have hcount := hw.count_le delim
  rw [hbs, hu] at hcount
  simp only [List.count_append, List.count_cons_self, count_double,
    List.count_eq_zero_of_not_mem hsuffix] at hcount
  apply List.count_eq_zero.mp
  omega

theorem symbol_ne_quoted (b delim : Byte) (value : List Byte) :
    Token.symbol b ≠ quoted delim value := by
  unfold quoted
  split <;> simp

theorem eq_of_symbol_mem_start {b x : Byte} (h : .symbol b ∈ (start x).1) : b = x := by
  unfold start at h
  split_ifs at h
  · cases h
  · cases h
  · cases h
  · cases h
  · simpa using h

theorem eq_of_symbol_mem_step {b x : Byte} {m : Mode} (hb : b ≠ 45)
    (h : .symbol b ∈ (step m x).1) : b = x := by
  unfold step at h
  split at h
  · exact eq_of_symbol_mem_start h
  · split at h
    · cases h
    · exact eq_of_symbol_mem_start (by simpa using h)
  · split at h <;> cases h
  · split at h
    · cases h
    · exact eq_of_symbol_mem_start (by simpa [symbol_ne_quoted] using h)
  · split at h
    · cases h
    · exact eq_of_symbol_mem_start (by simpa [hb] using h)
  · split at h <;> cases h

/-- A symbol among the tokens is in the text; a `-` can have come before. -/
theorem mem_of_symbol_mem {b : Byte} (hb : b ≠ 45) {m : Mode} {bs : List Byte}
    {toks : List Token} (h : lexFrom m bs = some toks) (hmem : .symbol b ∈ toks) : b ∈ bs := by
  induction bs generalizing m toks with
  | nil =>
    have hfin : finish m = some toks := by simpa [lexFrom, run] using h
    cases m with
    | inside delim value => cases hfin
    | between | comment | word text | closed delim value | dash =>
      obtain rfl := Option.some.inj hfin
      simp [symbol_ne_quoted, hb] at hmem
  | cons x bs ih =>
    simp only [lexFrom, run, Option.map_eq_some_iff] at h
    obtain ⟨ts, hts, rfl⟩ := h
    have hrest : lexFrom (step m x).2 bs = some ((run (step m x).2 bs).1 ++ ts) := by
      rw [lexFrom, hts]
      rfl
    rcases List.mem_append.mp hmem with hmem | hmem
    · rcases List.mem_append.mp hmem with hmem | hmem
      · rw [eq_of_symbol_mem_step hb hmem]
        exact List.mem_cons_self
      · exact List.mem_cons_of_mem _ (ih hrest (List.mem_append_left ts hmem))
    · exact List.mem_cons_of_mem _ (ih hrest (List.mem_append_right _ hmem))

end Sql
