import PamSmsauth.Run
import PamSmsauth.Blocks
import PamSmsauth.Settings

/-!
# The exempt user

`except=N` keeps a piece of `N`: `sscanf` skips leading blanks and `=` signs and stops after 31
characters, `strncpy` cuts the value to 24 bytes, and a value of 24 bytes or more leaves no NUL, so
that the name goes on with the expiry time in the next member of the struct (`keptName`,
`exceptUserStr_of_strncpy`). The comparison then stops at the end of the kept name: everybody whose
name begins with it is exempt (`exceptMatch_of_last`).
-/

namespace PamSmsauth

open CText Eff

/-! ## What is kept of the name -/

/-- The name that `except=name` leaves in the argument struct, `timeExpir` being the expiry time
that is set in the end. -/
def keptName (name : List Byte) (timeExpir : Nat) : List Byte :=
  if (scannedName name).length < exceptUsernameMaxsize then scannedName name
  else (scannedName name).take exceptUsernameMaxsize ++ [timeExpir.toUInt8]

theorem parseArgs_except {a name : CString} (ha : a.bytes = lit "except=" ++ name.bytes) :
    parseArgs a = if scannedName name.bytes = [] then none else some (scannedName name.bytes) :=
  parseArgs_of_name (o := .except) ha

theorem scannedName_nulFree (name : CString) : (0 : Byte) ∉ scannedName name.bytes :=
  fun h => name.nulFree (List.mem_of_mem_drop ((scanSet_sublist _ _ _).subset h))

/-- The string that a reader of the struct finds in `except_user`. -/
theorem exceptUserStr_of_strncpy {arg : PamSmsauthArg} (hinv : ArgInv arg) {name : CString}
    (h : arg.exceptUser = strncpy (scannedName name.bytes) exceptUsernameMaxsize) :
    exceptUserStr arg = keptName name.bytes arg.timeExpir := by
  have hnul := scannedName_nulFree name
  unfold exceptUserStr keptName
  rw [h]
  split
  · rename_i hlt
    obtain ⟨pad, hpad⟩ := strncpy_eq_append_nul hnul hlt
    rw [hpad, List.append_assoc, List.cons_append]
    exact cstr_append_nul hnul _
  · rename_i hge
    have hzero : exceptUsernameMaxsize - (scannedName name.bytes).length = 0 := by omega
    obtain ⟨-, -, h1, h2, -⟩ := hinv
    have hle : le64 arg.timeExpir = arg.timeExpir.toUInt8 :: 0 :: List.replicate 6 0 := by
      interval_cases arg.timeExpir <;> decide
    have hne : (0 : Byte) ∉ (scannedName name.bytes).take exceptUsernameMaxsize ++
        [arg.timeExpir.toUInt8] := by
      rw [List.mem_append, List.mem_singleton]
      rintro (hmem | heq)
      · exact hnul (List.mem_of_mem_take hmem)
      · revert heq
        interval_cases arg.timeExpir <;> decide
    rw [strncpy, cstr_of_nulFree hnul, hzero, List.replicate_zero, List.append_nil, hle]
    simpa using cstr_append_nul hne (List.replicate 6 0)

/-! ## The last `except` argument -/

/-- `except=name` is the last `except` argument of the list. -/
def LastExcept (argv : List CString) (name : CString) : Prop :=
  ∃ pre a post, argv = pre ++ a :: post ∧ a.bytes = lit "except=" ++ name.bytes ∧
    ∀ b ∈ post, isOpt "except" b = false

theorem LastExcept.lastOf {argv : List CString} {name : CString} (h : LastExcept argv name) :
    ∃ a, lastOf .except argv = some a ∧ a.bytes = lit "except=" ++ name.bytes := by
  obtain ⟨pre, a, post, rfl, ha, hpost⟩ := h
  have hnone : post.filter (fun b => optOf b = some .except) = [] := by
    rw [List.filter_eq_nil_iff]
    intro b hb hopt
    have hisOpt := isOpt_of_optOf (of_decide_eq_true hopt)
    rw [show Opt.except.name = "except" from rfl, hpost b hb] at hisOpt
    cases hisOpt
  refine ⟨a, ?_, ha⟩
  rw [PamSmsauth.lastOf, List.filter_append,
    List.filter_cons_of_pos (by simp [optOf_of_name (o := .except) ha]), hnone,
    List.getLast?_append]
  rfl

/-- The argument struct and the flags at the end of an accepted list. -/
theorem parse_of_last {argv : List CString} {name : CString} (hok : (parse argv).result = .ok)
    (hlast : LastExcept argv name) :
    (parse argv).arg.exceptUser = strncpy (scannedName name.bytes) exceptUsernameMaxsize ∧
      (parse argv).flags &&& pamSmsauthExcept ≠ 0 := by
  obtain ⟨a, hlastOf, ha⟩ := hlast.lastOf
  obtain ⟨hmem, hopt⟩ := mem_of_lastOf hlastOf
  have hall := (parse_eq_foldl argv).2.mp hok
  have hwins := lastWins_parse argv
  rw [List.takeWhile_eq_self_iff.mpr hall] at hwins
  have hval : scanned .except argv = some (scannedName name.bytes) := by
    have hsome := parseArgs_isSome (hall a hmem) hopt (by simp)
    rw [scanned, hlastOf, Option.bind_some]
    rw [parseArgs_except ha] at hsome ⊢
    by_cases hempty : scannedName name.bytes = []
    · rw [if_pos hempty] at hsome
      cases hsome
    · exact if_neg hempty
  refine ⟨?_, (hwins.and_bit_ne_zero_iff .except).mpr ⟨a, hmem, hopt⟩⟩
  rw [hwins.exceptUser, hval]
  rfl

theorem exceptMatch_of_last {argv : List CString} {name user : CString}
    (hok : (parse argv).result = .ok) (hlast : LastExcept argv name) :
    exceptMatch (parse argv).arg (parse argv).flags user = true ↔
      keptName name.bytes (parse argv).arg.timeExpir <+: user.bytes := by
  obtain ⟨hname, hflag⟩ := parse_of_last hok hlast
  have hstr := exceptUserStr_of_strncpy (parse_inv argv) hname
  have hnul : cstr (keptName name.bytes (parse argv).arg.timeExpir) =
      keptName name.bytes (parse argv).arg.timeExpir := by
    rw [← hstr]; exact cstr_of_nulFree (nul_not_mem_cstr _)
  rw [exceptMatch, hstr, Bool.and_eq_true, decide_eq_true_eq, decide_eq_true_eq,
    strncmp_eq_zero_iff, hnul, user.cstr_bytes, List.take_length, List.prefix_iff_eq_take]
  exact ⟨fun h => h.2.symm, fun h => ⟨hflag, h.symm⟩⟩

/-! ## The exit -/

theorem Call.run_exceptUser_iff {c : Call} {T : Table} {user : CString} (hu : c.user = some user) :
    (c.run T).1 = .exceptUser ↔ exceptMatch c.arg c.ctrl user = true := by
  simp only [run, prog, pamSmAuthenticate, Prog.perform_bind, Prog.run_ask, hu]
  change _ ↔ exceptMatch (parse c.argv).arg (parse c.argv).flags user = true
  constructor
  · intro h
    by_contra hex
    rw [if_neg hex] at h
    have hexit := (loginUser_gives (parse c.argv).arg (parse c.argv).flags user
      (c.handler .time T).1.1).run c.handler (c.handler .time T).2
    rw [h] at hexit
    cases hexit
  · intro hex
    rw [if_pos hex]
    rfl

/-- When the exemption is exact: the named user is exempt as long as what is kept of the name is
still a beginning of it, another user is not as long as his name does not begin with that. -/
theorem except_exact_iff {c : Call} {T : Table} {user name : CString} (hu : c.user = some user)
    (hok : (parse c.argv).result = .ok) (hlast : LastExcept c.argv name) :
    ((c.run T).1 = .exceptUser ↔ user = name) ↔
      (user = name → keptName name.bytes (parse c.argv).arg.timeExpir <+: name.bytes) ∧
      (user ≠ name → ¬ keptName name.bytes (parse c.argv).arg.timeExpir <+: user.bytes) := by
  have hexit := (Call.run_exceptUser_iff (T := T) hu).trans (exceptMatch_of_last hok hlast)
  rw [hexit]
  by_cases h : user = name
  · simp [h]
  · simp [h]

theorem except_exact_iff_root :
    let c := Call.smooth [.ofLit "except=root"] (.ofLit "root") ⟨100, by decide⟩ 7 (.ofLit "")
    ((c.run .empty).1 = .exceptUser ↔ CString.ofLit "root" = CString.ofLit "root") ↔
      (CString.ofLit "root" = CString.ofLit "root" →
        keptName (lit "root") (parse c.argv).arg.timeExpir <+: lit "root") ∧
      (CString.ofLit "root" ≠ CString.ofLit "root" →
        ¬ keptName (lit "root") (parse c.argv).arg.timeExpir <+: lit "root") := by
  intro c
  exact @except_exact_iff c .empty _ (.ofLit "root") rfl (by decide)
    ⟨[], _, [], rfl, by decide, by simp⟩

/-- With `except=root`, the user `rootkit` is exempt. -/
theorem except_exact_fails :
    let c := Call.smooth [.ofLit "except=root"] (.ofLit "rootkit") ⟨100, by decide⟩ 7 (.ofLit "")
    (parse c.argv).result = .ok ∧ LastExcept c.argv (.ofLit "root") ∧
      ¬ ((c.run .empty).1 = .exceptUser ↔ CString.ofLit "rootkit" = CString.ofLit "root") := by
  intro c
  exact ⟨by decide, ⟨[], _, [], rfl, by decide, by simp⟩, by decide⟩

end PamSmsauth
