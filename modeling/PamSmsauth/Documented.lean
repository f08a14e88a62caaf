import PamSmsauth.Exempt
import PamSmsauth.Numerals

/-!
# The documented arguments

`DocArg` is the language of the README: seven parameters, their values and the bounds on them. An
argument of it takes effect when the member it is about holds the complete value afterwards
(`DocArg.Effect`). That is not so for all of them: the types `alfa` and `alfanum` are refused, since
the code spells them differently, and the scan cuts values after 31 characters and drops what looks
like a separator (`DocArg.Plain`, `plain_iff`). On the other hand the tests for the names are prefix
tests, so that misspelled arguments are accepted.

Hence a list is treated as documented when all of its arguments are plain, or when it has to be
refused and one of its arguments is (`accepts_documented_iff`).
-/

namespace PamSmsauth

open CText

inductive DocArg where
  | debug
  | relaxed
  | otplen (d : Numeral)
  | otptype (type : OtpType)
  | expir (d : Numeral)
  | except (name : List Byte)
  | sockpath (path : List Byte)

/-- The README's names of the types. -/
def docTypeName : OtpType → List Byte
  | .num => lit "num"
  | .alpha => lit "alfa"
  | .alphanum => lit "alfanum"

namespace DocArg

def text : DocArg → List Byte
  | debug => lit "debug"
  | relaxed => lit "relaxed"
  | otplen d => lit "otplen=" ++ d.digits
  | otptype type => lit "otptype=" ++ docTypeName type
  | expir d => lit "expir=" ++ d.digits
  | except name => lit "except=" ++ name
  | sockpath path => lit "sockpath=" ++ path

def opt : DocArg → Opt
  | debug => .debug
  | relaxed => .relaxed
  | otplen _ => .otplen
  | otptype _ => .otptype
  | expir _ => .expir
  | except _ => .except
  | sockpath _ => .sockpath

/-- The value is within the documented bounds. -/
def Valid : DocArg → Prop
  | debug | relaxed | otptype _ => True
  | otplen d => 4 ≤ d.val ∧ d.val ≤ 24
  | expir d => 1 ≤ d.val ∧ d.val ≤ 60
  | except name => name ≠ [] ∧ name.length ≤ 24 ∧ ∀ b ∈ name, isalpha b = true
  | sockpath path => path ≠ [] ∧ path.length ≤ 256

/-- The argument has been taken with its complete value. -/
def Effect (arg : PamSmsauthArg) (flags : Flags) : DocArg → Prop
  | debug => arg.flags &&& pamSmsauthDebug ≠ 0 ∧ flags &&& pamSmsauthDebug ≠ 0
  | relaxed => arg.flags &&& pamSmsauthRelaxed ≠ 0 ∧ flags &&& pamSmsauthRelaxed ≠ 0
  | otplen d => arg.otpLen = d.val ∧ flags &&& pamSmsauthOtplen ≠ 0
  | otptype type => arg.otpType = type ∧ flags &&& pamSmsauthOtptype ≠ 0
  | expir d => arg.timeExpir = d.val ∧ flags &&& pamSmsauthTimeexpir ≠ 0
  | except name => exceptUserStr arg = name ∧ flags &&& pamSmsauthExcept ≠ 0
  | sockpath path => cstr arg.sockPath = path ∧ flags &&& pamSmsauthSockpath ≠ 0

/-- The arguments that the code takes as they are meant. -/
def Plain : DocArg → Prop
  | debug | relaxed => True
  | otplen d | expir d => d.digits.length ≤ 31
  | otptype type => type = .num
  | except name => name.length ≤ 23
  | sockpath path => path.length ≤ 31 ∧ (∀ b ∈ path, b ≠ 32 ∧ b ≠ 10) ∧ path.head? ≠ some 61

end DocArg

/-- The argument is one of the documented ones, spelled exactly and within its bounds. -/
def Documented (a : CString) : Prop := ∃ x : DocArg, x.Valid ∧ a.bytes = x.text

/-- The list is accepted just when all its arguments are documented, and then each takes effect at
its turn. -/
def AcceptsDocumented (argv : List CString) : Prop :=
  ((parse argv).result = .ok ↔ ∀ a ∈ argv, Documented a) ∧
    ((parse argv).result = .ok → ∀ (pre post : List CString) (a : CString) (x : DocArg),
      argv = pre ++ a :: post → x.Valid → a.bytes = x.text →
      x.Effect (parse (pre ++ [a])).arg (parse (pre ++ [a])).flags)

/-! ## Scanned values -/

theorem scannedName_eq_self_iff {val : List Byte} (hne : val ≠ []) : scannedName val = val ↔
    val.length ≤ 31 ∧ (∀ b ∈ val, b ≠ 32 ∧ b ≠ 10) ∧ val.head? ≠ some 61 := by
  obtain ⟨x, xs, rfl⟩ := List.exists_cons_of_ne_nil hne
  by_cases hsep : x = 32 ∨ x = 61
  · -- The scan drops a leading separator, so it leaves less than the whole.
    have hskip : 1 ≤ (scanSet 30 (fun b => b = 32 || b = 61) (x :: xs)).length := by
      rw [scanSet_eq_take, List.takeWhile_cons_of_pos (by simpa using hsep), List.take_succ_cons,
        List.length_cons]
      omega
    constructor
    · intro h
      have hlen : (scannedName (x :: xs)).length ≤
          (x :: xs).length - (scanSet 30 (fun b => b = 32 || b = 61) (x :: xs)).length := by
        rw [← List.length_drop]
        exact (scanSet_sublist _ _ _).length_le
      rw [h, List.length_cons] at hlen
      omega
    · rintro ⟨-, hval, hhead⟩
      rcases hsep with rfl | rfl
      · exact absurd rfl (hval 32 List.mem_cons_self).1
      · exact absurd rfl hhead
  · have hskip : scanSet 30 (fun b => b = 32 || b = 61) (x :: xs) = [] := by
      rw [scanSet_eq_take, List.takeWhile_cons_of_neg (by simpa using hsep)]
      rfl
    rw [scannedName, hskip, List.length_nil, List.drop_zero, scanSet_eq_take]
    constructor
    · intro h
      have hall : ∀ b ∈ x :: xs, b ≠ 32 ∧ b ≠ 10 := by
        intro b hb
        rw [← h] at hb
        simpa using List.mem_takeWhile_imp (List.mem_of_mem_take hb)
      refine ⟨?_, hall, ?_⟩
      · have hlen := congrArg List.length h
        rw [List.length_take] at hlen
        have := (List.takeWhile_sublist (fun b : Byte => b ≠ 32 && b ≠ 10) (l := x :: xs)).length_le
        omega
      · rw [List.head?_cons]
        exact fun hx => hsep (.inr (Option.some.inj hx))
    · rintro ⟨hlen, hall, -⟩
      rw [List.takeWhile_eq_self_iff.mpr (by simpa using hall), List.take_of_length_le hlen]

theorem length_scannedName_le (val : List Byte) : (scannedName val).length ≤ 31 := by
  rw [scannedName, scanSet_eq_take]
  exact List.length_take_le _ _

theorem turn_snd {a : CString} {o : Opt} (h : accepts a = true) (ho : optOf a = some o)
    (s : PamSmsauthArg × Flags) : (turn s a).2 &&& o.bit ≠ 0 := by
  rw [Opt.and_bit_ne_zero_iff, turn_flags h]
  exact .inr ⟨o, ho, Opt.getLsbD_bit_index_iff.mpr rfl⟩

/-! ## One documented argument -/

namespace Numeral

variable {d : Numeral} {o : Opt} {lo hi : Nat}

/-- A numeral in range is accepted at its own value just when it is not cut. -/
theorem accepts_at_value_iff (hlo : 1 ≤ lo) (hhi : hi < 2 ^ 31)
    (hchecks : o.checks (d.arg o) =
      ((parseArgs (d.arg o)).bind (numberIn lo hi)).isSome)
    (hval : lo ≤ d.val ∧ d.val ≤ hi) :
    accepts (d.arg o) = true ∧ (atoi ((parseArgs (d.arg o)).getD [])).toNat = d.val ↔
      d.digits.length ≤ 31 := by
  have hacc : accepts (d.arg o) = true ↔
      d.cut < 2 ^ 63 ∧ lo ≤ d.cut % 2 ^ 32 ∧ d.cut % 2 ^ 32 ≤ hi := by
    rw [accepts_arg, hchecks, d.parseArgs_arg, Option.bind_some, d.numberIn_take hlo hhi]
  have hexact := d.exact_iff hlo hhi
  unfold Exact at hexact
  rw [d.parseArgs_arg, Option.getD_some, d.atoi_take]
  constructor
  · rintro ⟨h1, h2⟩
    have hcut := (range_atoi_iff (n := d.cut) hlo hhi).2
      ((range_atoi_iff hlo hhi).1.mpr (hacc.mp h1)).1
    have := hexact.mpr ⟨iff_of_true (hacc.mp h1) hval, fun _ => by rw [← hcut, h2]⟩
    omega
  · intro hlen
    obtain ⟨h1, h2⟩ := hexact.mp (.inl ⟨hval.1, hval.2, hlen⟩)
    have hrange := h1.mpr hval
    have hcut := (range_atoi_iff (n := d.cut) hlo hhi).2
      ((range_atoi_iff hlo hhi).1.mpr hrange).1
    exact ⟨hacc.mpr hrange, by rw [hcut, h2 hrange]⟩

end Numeral

theorem docTypeName_injective {t t' : OtpType} (h : docTypeName t = docTypeName t') : t = t' := by
  revert h
  cases t <;> cases t' <;> decide

namespace DocArg

variable {a : CString}

theorem optOf_text {x : DocArg} (ha : a.bytes = x.text) : optOf a = some x.opt := by
  cases x with
  | debug => unfold optOf isOpt; rw [ha]; rfl
  | relaxed => unfold optOf isOpt; rw [ha]; rfl
  | otplen d => exact optOf_of_name (o := .otplen) ha
  | otptype type => exact optOf_of_name (o := .otptype) ha
  | expir d => exact optOf_of_name (o := .expir) ha
  | except name => exact optOf_of_name (o := .except) ha
  | sockpath path => exact optOf_of_name (o := .sockpath) ha

theorem text_injective {x y : DocArg} (h : a.bytes = x.text) (h' : a.bytes = y.text) : x = y := by
  have hopt : x.opt = y.opt := Option.some.inj ((optOf_text h).symm.trans (optOf_text h'))
  have htext : x.text = y.text := h.symm.trans h'
  have hnumeral (d e : Numeral) (hd : d.digits = e.digits) : d = e := by
    cases d
    cases e
    simpa using hd
  cases x <;> cases y <;> simp only [opt, reduceCtorEq] at hopt
  · rfl
  · rfl
  · rw [hnumeral _ _ (List.append_cancel_left htext)]
  · rw [docTypeName_injective (List.append_cancel_left htext)]
  · rw [hnumeral _ _ (List.append_cancel_left htext)]
  · rw [List.append_cancel_left htext]
  · rw [List.append_cancel_left htext]

section Plain

variable {s : PamSmsauthArg × Flags}

theorem plain_iff_numeral {d : Numeral} {lo hi : Nat} {o : Opt} {n : Nat} (hlo : 1 ≤ lo)
    (hhi : hi < 2 ^ 31)
    (hchecks : o.checks (d.arg o) = ((parseArgs (d.arg o)).bind (numberIn lo hi)).isSome)
    (hval : lo ≤ d.val ∧ d.val ≤ hi)
    (hturn : accepts (d.arg o) = true → n = (atoi ((parseArgs (d.arg o)).getD [])).toNat) :
    (accepts (d.arg o) = true ∧ n = d.val ∧ (turn s (d.arg o)).2 &&& o.bit ≠ 0) ↔
      d.digits.length ≤ 31 := by
  rw [← Numeral.accepts_at_value_iff hlo hhi hchecks hval]
  constructor
  · rintro ⟨hacc, hn, -⟩
    exact ⟨hacc, by rw [← hturn hacc, hn]⟩
  · rintro ⟨hacc, hn⟩
    exact ⟨hacc, by rw [hturn hacc, hn], turn_snd hacc (optOf_of_name rfl) s⟩

theorem plain_iff_otptype {type : OtpType} (ha : a.bytes = (otptype type).text) :
    accepts a = true ∧ (otptype type).Effect (turn s a).1 (turn s a).2 ↔
      (otptype type).Plain := by
  have hopt := optOf_text ha
  cases type with
  | num =>
    obtain rfl : a = .ofLit "otptype=num" := CString.ext ha
    have hacc : accepts (.ofLit "otptype=num") = true := by decide
    have htype := otpType_member.get_turn hacc s
    rw [if_pos (by decide),
      show setOtpType ((parseArgs (.ofLit "otptype=num")).getD []) = some .num by decide] at htype
    exact iff_of_true ⟨hacc, Option.some.inj htype, turn_snd hacc hopt s⟩ rfl
  | alpha =>
    obtain rfl : a = .ofLit "otptype=alfa" := CString.ext ha
    exact iff_of_false (fun h => absurd h.1 (by decide)) (by simp [Plain])
  | alphanum =>
    obtain rfl : a = .ofLit "otptype=alfanum" := CString.ext ha
    exact iff_of_false (fun h => absurd h.1 (by decide)) (by simp [Plain])

theorem plain_iff_except {name : List Byte} (hx : (except name).Valid)
    (ha : a.bytes = (except name).text) (hinv : ArgInv s.1) :
    accepts a = true ∧ (except name).Effect (turn s a).1 (turn s a).2 ↔ (except name).Plain := by
  obtain ⟨hne, hlen, halpha⟩ := hx
  have hopt := optOf_text ha
  have hletter : ∀ b : Byte, isalpha b = true → b ≠ 32 ∧ b ≠ 10 ∧ b ≠ 61 := by
    intro b hb
    refine ⟨?_, ?_, ?_⟩ <;> (rintro rfl; exact absurd hb (by decide))
  have hscan : scannedName name = name := by
    refine (scannedName_eq_self_iff hne).mpr ⟨by omega, fun b hb => ?_, fun hhead => ?_⟩
    · obtain ⟨h1, h2, -⟩ := hletter b (halpha b hb)
      exact ⟨h1, h2⟩
    · exact (hletter 61 (halpha 61 (List.mem_of_mem_head? hhead))).2.2 rfl
  have hparse : parseArgs a = some name := by
    have h : parseArgs a = if scannedName name = [] then none else some (scannedName name) :=
      parseArgs_of_name (o := .except) ha
    rw [h, hscan, if_neg hne]
  have hacc : accepts a = true := by
    rw [accepts, hopt, Option.any_some]
    show (parseArgs a).isSome = true
    rw [hparse]
    rfl
  have hinv' : ArgInv (turn s a).1 := parseArg_inv hinv (parseArg_of_accepts hacc s.1 s.2)
  have hname : (0 : Byte) ∉ name := fun h => a.nulFree (by rw [ha]; exact List.mem_append_right _ h)
  have huser : (turn s a).1.exceptUser = strncpy (scannedName name) exceptUsernameMaxsize := by
    rw [exceptUser_member.get_turn hacc, hopt, if_pos (by simp [opt]), hparse, hscan]
    rfl
  have hstr : exceptUserStr (turn s a).1 = keptName name (turn s a).1.timeExpir :=
    exceptUserStr_of_strncpy hinv'
      (show _ = strncpy (scannedName (⟨name, hname⟩ : CString).bytes) _ from huser)
  have hkept : keptName name (turn s a).1.timeExpir = name ↔ name.length ≤ 23 := by
    rw [keptName, hscan, exceptUsernameMaxsize]
    split
    · exact iff_of_true rfl (by omega)
    · refine iff_of_false (fun h => ?_) (by omega)
      have := congrArg List.length h
      rw [List.length_append, List.length_take, List.length_singleton] at this
      omega
  show _ ∧ exceptUserStr (turn s a).1 = name ∧ _ ↔ _
  rw [hstr, hkept]
  exact ⟨fun h => h.2.1, fun h => ⟨hacc, h, turn_snd hacc hopt s⟩⟩

theorem plain_iff_sockpath {path : List Byte} (hx : (sockpath path).Valid)
    (ha : a.bytes = (sockpath path).text) :
    accepts a = true ∧ (sockpath path).Effect (turn s a).1 (turn s a).2 ↔
      (sockpath path).Plain := by
  have hopt := optOf_text ha
  have hparse : parseArgs a = if scannedName path = [] then none else some (scannedName path) :=
    parseArgs_of_name (o := .sockpath) ha
  have hpath : (0 : Byte) ∉ path := fun h => a.nulFree (by rw [ha]; exact List.mem_append_right _ h)
  have hnul : (0 : Byte) ∉ scannedName path := fun h =>
    hpath (List.mem_of_mem_drop ((scanSet_sublist _ _ _).subset h))
  have hplain : scannedName path = path ↔ (sockpath path).Plain := scannedName_eq_self_iff hx.1
  have hacc : accepts a = true ↔ scannedName path ≠ [] := by
    rw [accepts, hopt, Option.any_some]
    show (parseArgs a).isSome = true ↔ _
    rw [hparse]
    split
    · rename_i h
      simp [h]
    · rename_i h
      simp [h]
  have heffect (h : accepts a = true) : cstr (turn s a).1.sockPath = scannedName path := by
    have hlen := length_scannedName_le path
    obtain ⟨pad, hpad⟩ := strncpy_eq_append_nul (n := sockPathMaxsize) hnul
      (by rw [sockPathMaxsize]; omega)
    rw [sockPath_member.get_turn h, hopt, if_pos (by simp [opt]), hparse, if_neg (hacc.mp h),
      Option.getD_some, hpad, cstr_append_nul hnul]
  rw [← hplain]
  constructor
  · rintro ⟨h, hcstr, -⟩
    rw [← heffect h]
    exact hcstr
  · intro h
    have hok := hacc.mpr (by rw [h]; exact hx.1)
    exact ⟨hok, by rw [heffect hok, h], turn_snd hok hopt s⟩

/-- A documented argument is accepted and takes effect just when it is plain. -/
theorem plain_iff {x : DocArg} (hx : x.Valid) (ha : a.bytes = x.text) (hinv : ArgInv s.1) :
    accepts a = true ∧ x.Effect (turn s a).1 (turn s a).2 ↔ x.Plain := by
  have hopt := optOf_text ha
  cases x with
  | debug =>
    have hacc : accepts a = true := by rw [accepts, hopt]; rfl
    refine iff_of_true ⟨hacc, ?_⟩ trivial
    rw [turn_eq hopt s rfl]
    exact ⟨Opt.or_bit_and_bit_ne_zero s.1.flags .debug, Opt.or_bit_and_bit_ne_zero s.2 .debug⟩
  | relaxed =>
    have hacc : accepts a = true := by rw [accepts, hopt]; rfl
    refine iff_of_true ⟨hacc, ?_⟩ trivial
    rw [turn_eq hopt s rfl]
    exact ⟨Opt.or_bit_and_bit_ne_zero s.1.flags .relaxed,
      Opt.or_bit_and_bit_ne_zero s.2 .relaxed⟩
  | otplen d =>
    obtain rfl : a = d.arg .otplen := CString.ext ha
    refine plain_iff_numeral (by decide) (by decide) rfl hx fun hacc => ?_
    rw [otpLen_member.get_turn hacc, hopt]
    rfl
  | otptype type => exact plain_iff_otptype ha
  | expir d =>
    obtain rfl : a = d.arg .expir := CString.ext ha
    refine plain_iff_numeral (by decide) (by decide) rfl hx fun hacc => ?_
    rw [timeExpir_member.get_turn hacc, hopt]
    rfl
  | except name => exact plain_iff_except hx ha hinv
  | sockpath path => exact plain_iff_sockpath hx ha

end Plain

end DocArg

/-! ## A list of arguments -/

theorem parse_snoc {pre : List CString} {a : CString} (hpre : ∀ b ∈ pre, accepts b = true)
    (ha : accepts a = true) :
    ((parse (pre ++ [a])).arg, (parse (pre ++ [a])).flags) =
      turn ((parse pre).arg, (parse pre).flags) a := by
  have hall : ∀ b ∈ pre ++ [a], accepts b = true := by
    intro b hb
    rcases List.mem_append.mp hb with hb | hb
    · exact hpre b hb
    · rw [List.mem_singleton.mp hb]
      exact ha
  rw [(parse_eq_foldl _).1, (parse_eq_foldl pre).1, List.takeWhile_eq_self_iff.mpr hall,
    List.takeWhile_eq_self_iff.mpr hpre, List.foldl_append]
  rfl

/-- What an accepted documented argument leaves at its turn. -/
theorem effect_iff {argv pre post : List CString} {a : CString} {x : DocArg}
    (hok : (parse argv).result = .ok) (hsplit : argv = pre ++ a :: post) (hx : x.Valid)
    (ha : a.bytes = x.text) :
    x.Effect (parse (pre ++ [a])).arg (parse (pre ++ [a])).flags ↔ x.Plain := by
  have hall := (parse_eq_foldl argv).2.mp hok
  rw [hsplit] at hall
  have hacc : accepts a = true := hall a (by simp)
  have hpre : ∀ b ∈ pre, accepts b = true := fun b hb => hall b (List.mem_append_left _ hb)
  obtain ⟨harg, hflags⟩ := Prod.mk.inj (parse_snoc hpre hacc)
  have hplain := DocArg.plain_iff (s := ((parse pre).arg, (parse pre).flags)) hx ha (parse_inv pre)
  rw [harg, hflags, ← hplain]
  exact (and_iff_right hacc).symm

theorem accepts_documented_iff (argv : List CString) : AcceptsDocumented argv ↔
    (∀ a ∈ argv, ∃ x : DocArg, x.Valid ∧ x.Plain ∧ a.bytes = x.text) ∨
      (∃ a ∈ argv, ¬ Documented a) ∧ ∃ a ∈ argv, accepts a = false := by
  have hresult := (parse_eq_foldl argv).2
  constructor
  · rintro ⟨hiff, heffect⟩
    by_cases hdoc : ∀ a ∈ argv, Documented a
    · left
      have hok := hiff.mpr hdoc
      intro a ha
      obtain ⟨x, hx, hax⟩ := hdoc a ha
      obtain ⟨pre, post, hsplit⟩ := List.append_of_mem ha
      exact ⟨x, hx, (effect_iff hok hsplit hx hax).mp (heffect hok pre post a x hsplit hx hax), hax⟩
    · right
      have hnot : ¬ ∀ a ∈ argv, accepts a = true := fun hall => hdoc (hiff.mp (hresult.mpr hall))
      push Not at hdoc hnot
      obtain ⟨a, ha, hacc⟩ := hnot
      exact ⟨hdoc, a, ha, by simpa using hacc⟩
  · rintro (hplain | ⟨⟨a, ha, hdoc⟩, b, hb, hacc⟩)
    · have hall : ∀ a ∈ argv, accepts a = true := by
        intro a ha
        obtain ⟨x, hx, hp, hax⟩ := hplain a ha
        exact ((DocArg.plain_iff (s := (pamArgInit, 0)) hx hax pamArgInit_inv).mpr hp).1
      have hok := hresult.mpr hall
      refine ⟨iff_of_true hok fun a ha => ?_, fun _ pre post a x hsplit hx hax => ?_⟩
      · obtain ⟨x, hx, -, hax⟩ := hplain a ha
        exact ⟨x, hx, hax⟩
      · obtain ⟨y, -, hp, hay⟩ := hplain a (by rw [hsplit]; simp)
        obtain rfl := DocArg.text_injective hax hay
        exact (effect_iff hok hsplit hx hax).mpr hp
    · have hno : (parse argv).result ≠ .ok := by
        intro hok
        rw [hresult.mp hok b hb] at hacc
        cases hacc
      exact ⟨iff_of_false hno fun h => hdoc (h a ha), fun hok => absurd hok hno⟩

/-- The README's own `otptype=alfa` is refused. -/
theorem documented_refused : ¬ ∀ argv, AcceptsDocumented argv := by
  intro h
  have hdoc : ∀ a ∈ [CString.ofLit "otptype=alfa"], Documented a := by
    intro a ha
    rw [List.mem_singleton.mp ha]
    exact ⟨.otptype .alpha, trivial, rfl⟩
  exact absurd ((h [.ofLit "otptype=alfa"]).1.mpr hdoc) (by decide)

end PamSmsauth
