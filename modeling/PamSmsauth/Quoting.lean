import PamSmsauth.Lib.Sql
import PamSmsauth.Failure

/-!
# User names in the SQL text

What SQLite reads is the text left in the 256-byte buffer. `Stmt.tokens` is the statement meant;
`Stmt.Reads` says that the text has these tokens, the final `;` being optional. An intact statement
reads as meant, whichever of the templates it is (`Stmt.reads_of_intact`), which is what the model
of a table goes by.

For the two templates that quote a user name the exact condition is `Stmt.reads_selectRowid_iff` and
`Stmt.reads_insertData_iff`: no quote in the name, and at most the `;` cut off.
-/

namespace PamSmsauth

open CText Eff Sql

/-- The tokens of an integer as `%d` and `%ld` print it. -/
def intTokens (z : Int) : List Token :=
  (if z < 0 then [.symbol 45] else []) ++ [.word (decimalNat z.natAbs)]

/-- The statement meant, without its final `;`. -/
def Stmt.tokens : Stmt → List Token
  | .selectNextRowid =>
    [.word (lit "SELECT"), .word (lit "max"), .symbol 40, .word (lit "id"), .symbol 41,
      .word (lit "FROM"), .word (lit "pam_status")]
  | .selectRowid user =>
    [.word (lit "SELECT"), .word (lit "id"), .word (lit "FROM"), .word (lit "pam_status"),
      .word (lit "WHERE"), .word (lit "user"), .symbol 61, .literal user.bytes]
  | .selectData col id =>
    [.word (lit "SELECT"), .word col.name, .word (lit "FROM"), .word (lit "pam_status"),
      .word (lit "WHERE"), .word (lit "id"), .symbol 61] ++ intTokens id
  | .insertData id user timestamp =>
    [.word (lit "INSERT"), .word (lit "INTO"), .word (lit "pam_status"), .word (lit "VALUES"),
      .symbol 40] ++ intTokens id ++ [.symbol 44, .literal user.bytes, .symbol 44,
      .word (lit "null"), .symbol 44] ++ intTokens timestamp ++ [.symbol 41]
  | .updateStrData value id =>
    [.word (lit "UPDATE"), .word (lit "pam_status"), .word (lit "SET"), .word (lit "otp"),
      .symbol 61, .literal value.bytes, .word (lit "WHERE"), .word (lit "id"), .symbol 61] ++
      intTokens id
  | .updateIntData value id =>
    [.word (lit "UPDATE"), .word (lit "pam_status"), .word (lit "SET"), .word (lit "timestamp"),
      .symbol 61] ++ intTokens value ++ [.word (lit "WHERE"), .word (lit "id"), .symbol 61] ++
      intTokens id
  | .deleteRow id =>
    [.word (lit "DELETE"), .word (lit "FROM"), .word (lit "pam_status"), .word (lit "WHERE"),
      .word (lit "id"), .symbol 61] ++ intTokens id
  | .purgeTable time =>
    [.word (lit "DELETE"), .word (lit "FROM"), .word (lit "pam_status"), .word (lit "WHERE"),
      .word (lit "timestamp"), .symbol 60] ++ intTokens time

/-- SQLite reads the text left in the buffer as the statement meant. -/
def Stmt.Reads (s : Stmt) : Prop :=
  lex (snprintf sqlStatementMaxsize s.text) = some s.tokens ∨
    lex (snprintf sqlStatementMaxsize s.text) = some (s.tokens ++ [Token.symbol 59])

/-! ## Statements that fit -/

theorem isWord_of_isdigit {b : Byte} (h : isdigit b = true) : isWord b = true := by
  simp [isWord, h]

theorem run_decimal (z : Int) : run .between (decimal z) =
    (if z < 0 then [Token.symbol 45] else [], .word (decimalNat z.natAbs)) := by
  have hnat : ∀ b ∈ decimalNat z.natAbs, isWord b = true := fun b hb =>
    isWord_of_isdigit (decimalNat_isdigit _ b hb)
  have hword := run_between_word (decimalNat_ne_nil z.natAbs) hnat
  unfold decimal
  split
  · obtain ⟨d, ds, hd, hfirst, -⟩ := decimalNat_cons z.natAbs
    have h45 := (isdigit_ne hfirst).2.1
    rw [hd] at hword ⊢
    simp only [run, step] at hword ⊢
    have hstart : start 45 = ([], .dash) := by decide
    simp only [hstart, if_neg h45, Prod.mk.injEq] at hword ⊢
    simp [hword]
  · exact hword

theorem lex_of_run {bs : List Byte} {ts : List Token} (h : run .between bs = (ts, .between)) :
    lex bs = some ts := by
  rw [lex, lexFrom_of_run h]
  simp [finish]

/-- The two templates that quote a user name, up to the opening quote. -/
theorem run_selectRowid : run .between (lit "SELECT id FROM pam_status WHERE user='") =
    ([Token.word (lit "SELECT"), Token.word (lit "id"), Token.word (lit "FROM"),
      Token.word (lit "pam_status"),
      Token.word (lit "WHERE"), Token.word (lit "user"), Token.symbol 61], .inside 39 []) := by
  decide

theorem run_insertData (id : Int) :
    run .between (lit "INSERT INTO pam_status VALUES (" ++ decimal id ++ lit ",'") =
      ([Token.word (lit "INSERT"), Token.word (lit "INTO"), Token.word (lit "pam_status"),
        Token.word (lit "VALUES"), Token.symbol 40] ++ intTokens id ++ [Token.symbol 44],
        .inside 39 []) := by
  have h1 : run .between (lit "INSERT INTO pam_status VALUES (") =
    ([.word (lit "INSERT"), .word (lit "INTO"), .word (lit "pam_status"), .word (lit "VALUES"),
      .symbol 40], .between) := by decide
  have h2 (w : List Byte) : run (.word w) (lit ",'") =
    ([.word w, .symbol 44], .inside 39 []) := rfl
  rw [run_append_of (run_append_of h1 (run_decimal id)) (h2 _)]
  simp [intTokens]

theorem Stmt.lex_text {s : Stmt} (h : (39 : Byte) ∉ s.literal) :
    lex s.text = some (s.tokens ++ [Token.symbol 59]) := by
  have hend (w : List Byte) : run (.word w) (lit ";") = ([.word w, .symbol 59], .between) := rfl
  cases s with
  | selectNextRowid => decide
  | selectRowid user =>
    have h2 : run (.inside 39 []) user.bytes = ([], .inside 39 user.bytes) := run_inside h []
    have h3 : run (.inside 39 user.bytes) (lit "';") =
      ([.literal user.bytes, .symbol 59], .between) := rfl
    rw [Stmt.text, lex_of_run (run_append_of (run_append_of run_selectRowid h2) h3)]
    simp [Stmt.tokens]
  | selectData col id =>
    have h1 : run .between (lit "SELECT " ++ col.name) =
        ([.word (lit "SELECT")], .word col.name) := by
      cases col <;> decide
    have h2 : run (.word col.name) (lit " FROM pam_status WHERE id=") =
      ([.word col.name, .word (lit "FROM"), .word (lit "pam_status"), .word (lit "WHERE"),
        .word (lit "id"), .symbol 61], .between) := rfl
    rw [Stmt.text, lex_of_run (run_append_of (run_append_of (run_append_of h1 h2)
      (run_decimal id)) (hend _))]
    simp [Stmt.tokens, intTokens]
  | insertData id user timestamp =>
    have h3 : run (.inside 39 []) user.bytes = ([], .inside 39 user.bytes) := run_inside h []
    have h4 : run (.inside 39 user.bytes) (lit "',null,") =
      ([.literal user.bytes, .symbol 44, .word (lit "null"), .symbol 44], .between) := rfl
    have h5 (w : List Byte) : run (.word w) (lit ");") =
      ([.word w, .symbol 41, .symbol 59], .between) := rfl
    rw [Stmt.text, lex_of_run (run_append_of (run_append_of (run_append_of (run_append_of
      (run_insertData id) h3) h4) (run_decimal timestamp)) (h5 _))]
    simp [Stmt.tokens, intTokens]
  | updateStrData value id =>
    have h1 : run .between (lit "UPDATE pam_status SET otp='") =
      ([.word (lit "UPDATE"), .word (lit "pam_status"), .word (lit "SET"), .word (lit "otp"),
        .symbol 61], .inside 39 []) := by decide
    have h2 : run (.inside 39 []) value.bytes = ([], .inside 39 value.bytes) := run_inside h []
    have h3 : run (.inside 39 value.bytes) (lit "' WHERE id=") =
      ([.literal value.bytes, .word (lit "WHERE"), .word (lit "id"), .symbol 61], .between) := rfl
    rw [Stmt.text, lex_of_run (run_append_of (run_append_of (run_append_of (run_append_of h1 h2) h3)
      (run_decimal id)) (hend _))]
    simp [Stmt.tokens, intTokens]
  | updateIntData value id =>
    have h1 : run .between (lit "UPDATE pam_status SET timestamp=") =
      ([.word (lit "UPDATE"), .word (lit "pam_status"), .word (lit "SET"),
        .word (lit "timestamp"), .symbol 61], .between) := by decide
    have h2 (w : List Byte) : run (.word w) (lit " WHERE id=") =
      ([.word w, .word (lit "WHERE"), .word (lit "id"), .symbol 61], .between) := rfl
    rw [Stmt.text, lex_of_run (run_append_of (run_append_of (run_append_of (run_append_of h1
      (run_decimal value)) (h2 _)) (run_decimal id)) (hend _))]
    simp [Stmt.tokens, intTokens]
  | deleteRow id =>
    have h1 : run .between (lit "DELETE FROM pam_status WHERE id=") =
      ([.word (lit "DELETE"), .word (lit "FROM"), .word (lit "pam_status"), .word (lit "WHERE"),
        .word (lit "id"), .symbol 61], .between) := by decide
    rw [Stmt.text, lex_of_run (run_append_of (run_append_of h1 (run_decimal id)) (hend _))]
    simp [Stmt.tokens, intTokens]
  | purgeTable time =>
    have h1 : run .between (lit "DELETE FROM pam_status WHERE timestamp<") =
      ([.word (lit "DELETE"), .word (lit "FROM"), .word (lit "pam_status"), .word (lit "WHERE"),
        .word (lit "timestamp"), .symbol 60], .between) := by decide
    rw [Stmt.text, lex_of_run (run_append_of (run_append_of h1 (run_decimal time)) (hend _))]
    simp [Stmt.tokens, intTokens]

/-- An intact statement is read as meant. -/
theorem Stmt.reads_of_intact {s : Stmt} (h : s.Intact) : s.Reads := by
  right
  have hlen := h.2
  rw [snprintf, List.take_of_length_le (by omega)]
  exact lex_text h.1

/-! ## The two statements that quote a user name -/

/-- What is left of a literal and its rest when the text is cut, read from the opening quote on. -/
theorem lexFrom_take_of_lt {name suffix : List Byte} {k : Nat} (h : (39 : Byte) ∉ name)
    (hk : name.length < k) : lexFrom (.inside 39 []) ((name ++ 39 :: suffix).take k) =
      lexFrom (.closed 39 name) (suffix.take (k - name.length - 1)) := by
  obtain ⟨j, rfl⟩ : ∃ j, k = name.length + (j + 1) := ⟨k - name.length - 1, by omega⟩
  have hquote : run (.inside 39 name) [39] = ([], .closed 39 name) := rfl
  have hcut : (name ++ 39 :: suffix).take (name.length + (j + 1)) =
      name ++ ([39] ++ suffix.take j) := by
    rw [List.take_length_add_append]
    rfl
  rw [hcut, lexFrom_append (run_inside h []), List.nil_append, lexFrom_append hquote,
    show name.length + (j + 1) - name.length - 1 = j by omega]
  cases lexFrom (.closed 39 name) (suffix.take j) <;> rfl

theorem lexFrom_take_of_le {name suffix : List Byte} {k : Nat} (h : (39 : Byte) ∉ name)
    (hk : k ≤ name.length) : lexFrom (.inside 39 []) ((name ++ 39 :: suffix).take k) = none := by
  rw [List.take_append_of_le_length hk,
    lexFrom_of_run (run_inside (fun hmem => h (List.mem_of_mem_take hmem)) [])]
  rfl

/-- The text in the buffer, read from the quote that opens the literal. -/
theorem lex_snprintf {pre rest : List Byte} {ts : List Token} (hlen : pre.length ≤ 255)
    (hpre : run .between pre = (ts, .inside 39 [])) :
    lex (snprintf 256 (pre ++ rest)) =
      (lexFrom (.inside 39 []) (rest.take (255 - pre.length))).map (ts ++ ·) := by
  have hcut : snprintf 256 (pre ++ rest) = pre ++ rest.take (255 - pre.length) := by
    rw [snprintf, List.take_append, List.take_of_length_le (by omega)]
  rw [hcut, lex, lexFrom_append hpre]

theorem eq_some_of_map_append {ts toks : List Token} {o : Option (List Token)}
    (h : o.map (ts ++ ·) = some (ts ++ toks)) : o = some toks := by
  obtain ⟨toks', rfl, heq⟩ := Option.map_eq_some_iff.mp h
  rw [List.append_cancel_left heq]

/-- A template with one quoted name: if the part after the literal may be cut down to `keep` bytes,
the statement is read as meant just when the name has no quote and so much of it fits. -/
theorem lex_template_iff {pre name suffix : List Byte} {ts more : List Token} {keep : Nat}
    (hlen : pre.length ≤ 255) (hpre : run .between pre = (ts, .inside 39 []))
    (hsuffix : (39 : Byte) ∉ suffix)
    (hcut : ∀ j, (lexFrom (.closed 39 name) (suffix.take j) = some (Token.literal name :: more) ∨
      lexFrom (.closed 39 name) (suffix.take j) =
        some (Token.literal name :: (more ++ [Token.symbol 59]))) ↔ keep ≤ j) :
    (lex (snprintf 256 (pre ++ (name ++ 39 :: suffix))) = some (ts ++ Token.literal name :: more) ∨
      lex (snprintf 256 (pre ++ (name ++ 39 :: suffix))) =
        some (ts ++ Token.literal name :: more ++ [Token.symbol 59])) ↔
      (39 : Byte) ∉ name ∧ pre.length + name.length + 1 + keep ≤ 255 := by
  rw [lex_snprintf hlen hpre, List.append_assoc, List.cons_append]
  constructor
  · intro h
    have hw : lexFrom (.inside 39 []) ((name ++ 39 :: suffix).take (255 - pre.length)) =
          some (Token.literal name :: more) ∨
        lexFrom (.inside 39 []) ((name ++ 39 :: suffix).take (255 - pre.length)) =
          some (Token.literal name :: (more ++ [Token.symbol 59])) :=
      h.imp eq_some_of_map_append eq_some_of_map_append
    have hname : (39 : Byte) ∉ name := by
      rcases hw with hw | hw <;>
        exact not_mem_of_lexFrom_inside (List.take_sublist _ _) hsuffix hw
    by_cases hlong : 255 - pre.length ≤ name.length
    · rw [lexFrom_take_of_le hname hlong] at hw
      rcases hw with hw | hw <;> cases hw
    · rw [lexFrom_take_of_lt hname (by omega), hcut] at hw
      exact ⟨hname, by omega⟩
  · rintro ⟨hname, hfit⟩
    rw [lexFrom_take_of_lt hname (by omega)]
    have hkeep := (hcut (255 - pre.length - name.length - 1)).mpr (by omega)
    exact hkeep.imp (fun h => by rw [h]; rfl) (fun h => by rw [h]; rfl)

theorem Stmt.reads_selectRowid_iff (user : CString) : (Stmt.selectRowid user).Reads ↔
    (39 : Byte) ∉ user.bytes ∧ (Stmt.selectRowid user).text.length ≤ sqlStatementMaxsize := by
  have hlen : (lit "SELECT id FROM pam_status WHERE user='").length = 38 := by decide
  have hend : (lit ";").length = 1 := by decide
  have htext : (Stmt.selectRowid user).text =
      lit "SELECT id FROM pam_status WHERE user='" ++ (user.bytes ++ 39 :: lit ";") := by
    rw [Stmt.text, List.append_assoc]
    rfl
  -- The final `;` may be cut off.
  have hcut (j : Nat) : (lexFrom (.closed 39 user.bytes) ((lit ";").take j) =
        some [Token.literal user.bytes] ∨
      lexFrom (.closed 39 user.bytes) ((lit ";").take j) =
        some [Token.literal user.bytes, Token.symbol 59]) ↔ 0 ≤ j := by
    apply iff_of_true _ (Nat.zero_le j)
    rcases Nat.eq_zero_or_pos j with rfl | hj
    · exact .inl rfl
    · right
      rw [List.take_of_length_le (by omega)]
      rfl
  have hiff := lex_template_iff (by omega) run_selectRowid (by decide) hcut
  rw [← htext] at hiff
  rw [Stmt.Reads, sqlStatementMaxsize]
  refine hiff.trans (and_congr_right fun _ => ?_)
  rw [htext, List.length_append, List.length_append, List.length_cons, hlen, hend]
  omega

theorem mem_decimal {z : Int} {b : Byte} (h : b ∈ decimal z) : isdigit b = true ∨ b = 45 := by
  obtain ⟨d, ds, hd, hfirst, hrest⟩ := decimal_cons z
  rw [hd] at h
  rcases List.mem_cons.mp h with rfl | h
  · exact hfirst
  · exact .inl (hrest b h)

/-- What follows the literal of an `INSERT`, cut after `j` bytes. -/
theorem lexFrom_closed_insertData (name : List Byte) (timestamp : Int) (j : Nat) :
    (lexFrom (.closed 39 name) ((lit ",null," ++ decimal timestamp ++ lit ");").take j) =
        some (Token.literal name :: ([Token.symbol 44, Token.word (lit "null"), Token.symbol 44] ++
          intTokens timestamp ++ [Token.symbol 41])) ∨
      lexFrom (.closed 39 name) ((lit ",null," ++ decimal timestamp ++ lit ");").take j) =
        some (Token.literal name :: ([Token.symbol 44, Token.word (lit "null"), Token.symbol 44] ++
          intTokens timestamp ++ [Token.symbol 41] ++ [Token.symbol 59]))) ↔
      7 + (decimal timestamp).length ≤ j := by
  have hnull : (lit ",null," ++ decimal timestamp).length = 6 + (decimal timestamp).length := by
    rw [List.length_append, show (lit ",null,").length = 6 by decide]
  have hhead : run (.closed 39 name) (lit ",null,") =
      ([Token.literal name, Token.symbol 44, Token.word (lit "null"), Token.symbol 44], .between) :=
    rfl
  have hrun : run (.closed 39 name) (lit ",null," ++ decimal timestamp) =
      ([Token.literal name, Token.symbol 44, Token.word (lit "null"), Token.symbol 44] ++
        (if timestamp < 0 then [Token.symbol 45] else []), .word (decimalNat timestamp.natAbs)) :=
    run_append_of hhead (run_decimal timestamp)
  constructor
  · intro h
    -- The closing parenthesis was read, so the cut comes after it.
    have hmem : (41 : Byte) ∈ (lit ",null," ++ decimal timestamp ++ lit ");").take j := by
      rcases h with h | h <;> exact mem_of_symbol_mem (by decide) h (by simp)
    by_contra hshort
    rw [List.take_append_of_le_length (by omega)] at hmem
    rcases List.mem_append.mp (List.mem_of_mem_take hmem) with h41 | h41
    · exact absurd h41 (by decide)
    · exact absurd (mem_decimal h41) (by decide)
  · intro hj
    rw [List.take_append, List.take_of_length_le (by omega), lexFrom_append hrun]
    rcases Nat.lt_or_ge (7 + (decimal timestamp).length) j with hlt | hge
    · right
      have hword (w : List Byte) : run (.word w) (lit ");") =
        ([Token.word w, Token.symbol 41, Token.symbol 59], .between) := rfl
      rw [List.take_of_length_le (by rw [show (lit ");").length = 2 by decide]; omega),
        lexFrom_of_run (hword _)]
      simp [finish, intTokens]
    · left
      have hword (w : List Byte) : run (.word w) ((lit ");").take 1) =
        ([Token.word w, Token.symbol 41], .between) := rfl
      rw [show j - (lit ",null," ++ decimal timestamp).length = 1 by omega,
        lexFrom_of_run (hword _)]
      simp [finish, intTokens]

theorem Stmt.reads_insertData_iff {id : Int} (user : CString) (timestamp : Int) (h0 : 0 ≤ id)
    (hid : InInt id) : (Stmt.insertData id user timestamp).Reads ↔
      (39 : Byte) ∉ user.bytes ∧
        (Stmt.insertData id user timestamp).text.length ≤ sqlStatementMaxsize := by
  have e1 : (lit "INSERT INTO pam_status VALUES (").length = 31 := by decide
  have e2 : (lit ",'").length = 2 := by decide
  have e3 : (lit ",null,").length = 6 := by decide
  have e4 : (lit ");").length = 2 := by decide
  have hidlen := length_decimal_le_of_nonneg h0 hid
  have hlen : (lit "INSERT INTO pam_status VALUES (" ++ decimal id ++ lit ",'").length ≤ 255 := by
    simp only [List.length_append]
    omega
  have hsuffix : (39 : Byte) ∉ lit ",null," ++ decimal timestamp ++ lit ");" := by
    intro h
    rcases List.mem_append.mp h with h | h
    · rcases List.mem_append.mp h with h | h
      · exact absurd h (by decide)
      · exact absurd (mem_decimal h) (by decide)
    · exact absurd h (by decide)
  have hiff := lex_template_iff hlen (run_insertData id) hsuffix
    (lexFrom_closed_insertData user.bytes timestamp)
  have htext : (Stmt.insertData id user timestamp).text =
      lit "INSERT INTO pam_status VALUES (" ++ decimal id ++ lit ",'" ++
        (user.bytes ++ 39 :: (lit ",null," ++ decimal timestamp ++ lit ");")) := by
    rw [Stmt.text, show lit "',null," = 39 :: lit ",null," by decide]
    simp only [List.append_assoc, List.cons_append]
  have htokens : (Stmt.insertData id user timestamp).tokens =
      [Token.word (lit "INSERT"), Token.word (lit "INTO"), Token.word (lit "pam_status"),
        Token.word (lit "VALUES"), Token.symbol 40] ++ intTokens id ++ [Token.symbol 44] ++
        Token.literal user.bytes :: ([Token.symbol 44, Token.word (lit "null"), Token.symbol 44] ++
          intTokens timestamp ++ [Token.symbol 41]) := by
    simp [Stmt.tokens]
  rw [← htext, ← htokens] at hiff
  rw [Stmt.Reads, sqlStatementMaxsize]
  refine hiff.trans (and_congr_right fun _ => ?_)
  simp only [htext, List.length_append, List.length_cons]
  omega

/-! ## A user name and what is done with it -/

/-- The id that `sqlite_get_rowid` returns. -/
def Call.rowid (c : Call) (site : Site) (T : Table) (user : CString) : Int :=
  ((sqliteGetRowid site user).run c.handler T).1

/-- Both statements that a login builds from the name are read as meant, and the lookup reports only
ids of the user's own rows (0 is no row and -2 an error). -/
def NameSurvives (user : CString) (id : Int) (timestamp : TimeT) : Prop :=
  (Stmt.selectRowid user).Reads ∧ (Stmt.insertData id user timestamp.1).Reads ∧
    ∀ (c : Call) (site : Site) (T : Table), c.rowid site T user ≠ 0 → c.rowid site T user ≠ -2 →
      ∃ r ∈ T.rows, r.user = user ∧ r.id = c.rowid site T user

theorem Call.mem_of_rowid {c : Call} {site : Site} {T : Table} {user : CString}
    (hu : (Stmt.selectRowid user).Intact) (h0 : c.rowid site T user ≠ 0)
    (h2 : c.rowid site T user ≠ -2) :
    ∃ r ∈ T.rows, r.user = user ∧ r.id = c.rowid site T user := by
  rw [rowid, sqliteGetRowid_run_any site hu] at h0 h2 ⊢
  have hok : c.outcome (.exec site (.selectRowid user)) = .ok := by
    by_contra hne
    exact h2 (if_neg hne)
  rw [if_pos hok] at h0 ⊢
  obtain ⟨r, hr⟩ : ∃ r, T.lookup user = some r := by
    apply Option.ne_none_iff_exists'.mp
    intro hnone
    exact h0 (by rw [Table.rowid, hnone]; rfl)
  obtain ⟨hmem, huser⟩ := Table.lookup_mem hr
  exact ⟨r, hmem, huser, (T.rowid_of_lookup hr).symm⟩

theorem name_survives_iff (user : CString) (id : Int) (timestamp : TimeT) (h0 : 0 ≤ id)
    (hid : InInt id) : NameSurvives user id timestamp ↔
      (39 : Byte) ∉ user.bytes ∧
        (Stmt.insertData id user timestamp.1).text.length ≤ Stmt.sqlStatementMaxsize := by
  constructor
  · intro h
    exact (Stmt.reads_insertData_iff user timestamp.1 h0 hid).mp h.2.1
  · rintro ⟨hname, hfit⟩
    have hintact : (Stmt.selectRowid user).Intact :=
      ⟨hname, Nat.lt_of_lt_of_le (Stmt.length_selectRowid_lt id timestamp.1 user) hfit⟩
    exact ⟨Stmt.reads_of_intact hintact,
      (Stmt.reads_insertData_iff user timestamp.1 h0 hid).mpr ⟨hname, hfit⟩,
      fun c site T => Call.mem_of_rowid hintact⟩

theorem name_survives_iff_ann : NameSurvives (.ofLit "ann") 1 ⟨400, by decide⟩ ↔
    (39 : Byte) ∉ (CString.ofLit "ann").bytes ∧
      (Stmt.insertData 1 (.ofLit "ann") 400).text.length ≤ Stmt.sqlStatementMaxsize :=
  name_survives_iff _ _ _ (by decide) (by decide)

/-- The name `o'neil` ends its literal after the `o`, and the text ends inside another one. -/
theorem name_not_survives : ¬ ∀ (user : CString) (id : Int) (timestamp : TimeT), 0 ≤ id → InInt id →
    NameSurvives user id timestamp := by
  intro h
  have hselect := (h (.ofLit "o'neil") 1 ⟨400, by decide⟩ (by decide) (by decide)).1
  exact ((Stmt.reads_selectRowid_iff _).mp hselect).1 (by decide)

end PamSmsauth
