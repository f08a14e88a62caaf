import PamSmsauth.WellFormed

/-!
# The end of the text (`json/json_tokener.c`)

The parser is told no length. It knows the end of a text by the NUL, and what it reads of a longer
buffer is what it reads of a shorter one until that one is used up (`cycle_extend`). A comment, a
string, an escape and a word take the NUL for one of their characters. Their call then returns all
the same, with a value or with a marker that `is_error` does not know, and the caller goes on behind
the NUL; in no other way does the parser get there (`jsonTokenerParse_terminator`).
-/

namespace PamSmsauth

open CText Tokener

variable {lf : List Byte → Option (List Byte)}

/-! ## Longer buffers -/

def Tokener.extend (t : Tokener) (more : List Byte) : Tokener := { t with rest := t.rest ++ more }

def Action.extend (more : List Byte) : Action → Action
  | .next t => .next (t.extend more)
  | .call t => .call (t.extend more)
  | .out v => .out v
  | .error e => .error e

/-- A pass through the `switch` does not look behind its character. -/
theorem iter_extend {t : Tokener} (h : t.rest ≠ []) (c : Byte) (more : List Byte) :
    iter lf (t.extend more) c = (iter lf t c).extend more := by
  obtain ⟨rest, pb, frame, callers⟩ := t
  obtain ⟨b, rest, rfl⟩ := List.exists_cons_of_ne_nil h
  unfold iter
  dsimp only [Tokener.extend]
  cases hst : frame.state <;> dsimp only
  case start => unfold iterStart; split_ifs <;> rfl
  case stringEscape => unfold iterStringEscape; dsimp only; split_ifs <;> rfl
  case escapeUnicode =>
    simp only [iterEscapeUnicode, apply_ite (Action.extend more)]
    rfl
  case null => unfold iterNull; split_ifs <;> rfl
  case boolean => unfold iterBoolean; split_ifs <;> rfl
  case number =>
    unfold iterNumber
    dsimp only
    split_ifs <;> first | rfl | (split <;> rfl)
  case comment | commentEol | commentEnd => split_ifs <;> rfl
  all_goals first | rfl | (simp only [apply_ite (Action.extend more)]; rfl)

theorem retTo_extend (t : Tokener) (ptr : JsonPtr) (callers : List Activation) (more : List Byte) :
    (t.extend more).retTo ptr callers = (t.retTo ptr callers).map id fun t' => t'.extend more := by
  induction callers generalizing ptr with
  | nil => rfl
  | cons f callers ih =>
    rw [Tokener.retTo, Tokener.retTo]
    split
    · split
      · exact ih _
      · rfl
    · split <;> rfl

theorem leave_extend (t : Tokener) (ptr : Option JsonPtr) (more : List Byte) :
    (t.extend more).leave ptr = (t.leave ptr).map id fun t' => t'.extend more := by
  cases ptr with
  | none => rfl
  | some ptr => exact retTo_extend t ptr t.callers more

theorem exit_extend (t : Tokener) (more : List Byte) :
    (t.extend more).exit = t.exit.map id fun t' => t'.extend more := by
  unfold Tokener.exit
  split_ifs with hend hend' hend'
  · exact leave_extend t _ more
  · exact absurd hend hend'
  · exact absurd hend' hend
  · exact retTo_extend t _ t.callers more

theorem cycle_extend {t : Tokener} (h : t.rest ≠ []) (more : List Byte) :
    cycle lf (t.extend more) = (cycle lf t).map id fun t' => t'.extend more := by
  obtain ⟨c, rest, hr⟩ := List.exists_cons_of_ne_nil h
  have hr' : (t.extend more).rest = c :: (rest ++ more) := by rw [Tokener.extend, hr]; rfl
  simp only [cycle, hr, hr', iter_extend h]
  cases iter lf t c with
  | next t' =>
    dsimp only [Action.extend]
    split_ifs
    · exact exit_extend t' more
    · rfl
  | call t' => rfl
  | out ptr => exact retTo_extend t ptr t.callers more
  | error e => exact leave_extend t _ more

theorem rest_ne_nil_of_cycle {t t' : Tokener} (h : cycle lf t = .inr t') : t.rest ≠ [] := by
  intro hr
  rw [cycle, hr] at h
  cases h

theorem Steps.extend {t t' : Tokener} (h : Steps lf t t') (more : List Byte) :
    Steps lf (t.extend more) (t'.extend more) := by
  induction h with
  | refl => exact .refl
  | tail _ hc ih =>
    refine ih.tail ?_
    rw [cycle_extend (rest_ne_nil_of_cycle hc), hc]
    rfl

theorem steps_of_runTokener {n : Nat} {t : Tokener} {p : JsonParsed}
    (h : runTokener lf n t = some p) : ∃ t', Steps lf t t' ∧ cycle lf t' = .inl p := by
  induction n generalizing t with
  | zero => cases h
  | succ n ih =>
    rw [runTokener] at h
    cases hc : cycle lf t with
    | inl p' =>
      rw [hc] at h
      cases h
      exact ⟨t, .refl, hc⟩
    | inr t' =>
      rw [hc] at h
      obtain ⟨e, hsteps, hend⟩ := ih h
      exact ⟨e, .head hc hsteps, hend⟩

variable (lf) in
theorem steps_jsonTokenerParse (source : List Byte) :
    ∃ t, Steps lf (.init source) t ∧ cycle lf t = .inl (jsonTokenerParse lf source) := by
  have hsome : (runTokener lf (6 * source.length + 6) (.init source)).isSome := by
    apply runTokener_isSome (ok_init source)
    show 6 * source.length + 1 < 6 * source.length + 6
    omega
  obtain ⟨p, hrun⟩ := Option.isSome_iff_exists.mp hsome
  obtain ⟨t, hsteps, hend⟩ := steps_of_runTokener hrun
  refine ⟨t, hsteps, ?_⟩
  rw [hend, jsonTokenerParse, hrun]
  rfl

/-- What the parser says of a buffer that it does not leave, it says of a longer one. -/
theorem jsonTokenerParse_extend {source : List Byte} (h : jsonTokenerParse lf source ≠ .overrun)
    (more : List Byte) : jsonTokenerParse lf (source ++ more) = jsonTokenerParse lf source := by
  obtain ⟨t, hsteps, hend⟩ := steps_jsonTokenerParse lf source
  have hr : t.rest ≠ [] := by
    intro hr
    rw [cycle, hr] at hend
    exact h (Sum.inl.inj hend).symm
  apply jsonTokenerParse_of_steps (hsteps.extend more)
  rw [cycle_extend hr, hend]
  rfl

/-! ## The quote of a string -/

def TokenerState.quoted (s : TokenerState) : Bool := s = .string ∨ s = .objectField

/-- No string and no key is closed by a NUL. -/
def Activation.Calm (f : Activation) : Prop :=
  f.state.quoted ∨ f.savedState.quoted → f.quoteChar ≠ 0

theorem Activation.Calm.step {f f' : Activation} (h : f.Calm) (hquote : f'.quoteChar = f.quoteChar)
    (hquoted : f'.state.quoted ∨ f'.savedState.quoted → f.state.quoted ∨ f.savedState.quoted) :
    f'.Calm := fun hf => by
  rw [hquote]
  exact h (hquoted hf)

/-- Neither of the states is one of a string or a key. -/
theorem calm_of_unquoted {f : Activation} (hstate : f.state.quoted = false)
    (hsaved : f.savedState.quoted = false) : f.Calm := by
  rintro (hq | hq)
  · rw [hstate] at hq
    cases hq
  · rw [hsaved] at hq
    cases hq

/-- Only the saved state may be one. -/
theorem Activation.Calm.keep {f f' : Activation} (h : f.Calm) (hquote : f'.quoteChar = f.quoteChar)
    (hstate : f'.state.quoted = false) (hsaved : f'.savedState = f.savedState) : f'.Calm := by
  refine h.step hquote ?_
  rw [hstate, hsaved]
  rintro (⟨⟨⟩⟩ | hq)
  exact .inr hq

/-- The saved state is taken up again. -/
theorem Activation.Calm.back {f f' : Activation} (h : f.Calm) (hquote : f'.quoteChar = f.quoteChar)
    (hstate : f'.state = f.savedState) (hsaved : f'.savedState = f.savedState) : f'.Calm := by
  refine h.step hquote ?_
  rw [hstate, hsaved, or_self]
  exact .inr

theorem calm_openQuote {t : Tokener} {c : Byte} {s : TokenerState} (hc : c = 34 ∨ c = 39) :
    (t.openQuote c s).frame.Calm := by
  intro _
  show c ≠ 0
  rcases hc with rfl | rfl <;> decide

theorem Activation.Resumed.calm {f : Activation} (h : f.Resumed) : f.Calm := by
  intro hquoted
  rw [h.state] at hquoted
  rcases h.saved with hs | hs <;> rw [hs] at hquoted <;> rcases hquoted with ⟨⟨⟩⟩ | ⟨⟨⟩⟩

def Action.Calm : Action → Prop
  | .next t => t.frame.Calm
  | _ => True

theorem iter_calm {t : Tokener} (h : t.frame.Calm) (c : Byte) : (iter lf t c).Calm := by
  unfold iter
  cases hst : t.frame.state <;> dsimp only
  case eatws =>
    split_ifs
    · exact h.step rfl id
    · exact h.keep rfl rfl rfl
    · exact h.back rfl rfl rfl
  case commentStart => split_ifs <;> first | exact h.keep rfl rfl rfl | trivial
  case comment | commentEol | commentEnd =>
    split_ifs <;> first | exact h.keep rfl rfl rfl | exact h.step rfl id
  case start =>
    unfold iterStart
    split_ifs with h1 h2 h3 hquote
    · exact calm_of_unquoted rfl rfl
    · exact calm_of_unquoted rfl rfl
    · exact h.keep rfl rfl rfl
    · exact calm_openQuote hquote
    · exact h.keep rfl rfl rfl
    · exact h.keep rfl rfl rfl
    · trivial
  case null =>
    unfold iterNull
    split_ifs <;> first | exact calm_of_unquoted rfl rfl | exact h.step rfl id | trivial
  case boolean =>
    unfold iterBoolean
    split_ifs <;> first | exact calm_of_unquoted rfl rfl | exact h.step rfl id | trivial
  case number =>
    simp only [iterNumber]
    split
    · split <;> first | exact calm_of_unquoted rfl rfl | trivial
    · split <;> exact h.step rfl id
  case string | objectField =>
    have hquoted : t.frame.state.quoted = true := by rw [hst]; rfl
    split_ifs
    · exact calm_of_unquoted rfl rfl
    · exact h.step rfl fun _ => .inl hquoted
    · exact h.step rfl id
  case stringEscape =>
    unfold iterStringEscape
    dsimp only
    split_ifs <;> first | exact h.back rfl rfl rfl | exact h.keep rfl rfl rfl | trivial
  case escapeUnicode =>
    simp only [iterEscapeUnicode]
    split_ifs
    · exact h.back rfl rfl rfl
    · exact h.step rfl id
    · trivial
  case objectFieldStart =>
    split_ifs with h1 hquote
    · exact calm_of_unquoted rfl rfl
    · exact calm_openQuote hquote
    · trivial
  case object => exact h.keep rfl rfl rfl
  case finish | objectValue => trivial
  all_goals split_ifs <;> first | exact calm_of_unquoted rfl rfl | trivial

/-! ## The states at the end of a text -/

/-- The running call takes the NUL for one of its characters: in a comment, in a string or a key,
among the digits of an escape, or in a word that has begun. -/
def Activation.Open (f : Activation) : Prop :=
  let begins word := strncasecmp (lit word) f.seen f.seen.length = 0
  match f.state with
  | .comment | .commentEol | .commentEnd | .string | .objectField | .escapeUnicode => True
  | .null => begins "null" ∧ f.seen.length ≠ 4
  | .boolean => begins "true" ∧ f.seen.length ≠ 4 ∨
      ¬ begins "true" ∧ begins "false" ∧ f.seen.length ≠ 5
  | _ => False

/-- What such a call returns then. -/
def Activation.last (f : Activation) : Option JsonPtr :=
  if f.savedState = .finish then some f.current else f.out JsonTokenerError.parseEof.num

/-- The NUL was taken. -/
structure Takes (t t' : Tokener) : Prop where
  rest : t'.rest = t.rest.tail
  callers : t'.callers = t.callers
  current : t'.frame.current = t.frame.current
  saved : t'.frame.savedState = t.frame.savedState
  state : t'.frame.state = .finish → t.frame.savedState = .finish

def Action.Stops (t : Tokener) : Action → Prop
  | .next t' => ¬ t.frame.Open ∧ t'.rest = t.rest ∨ t.frame.Open ∧ Takes t t'
  | _ => ¬ t.frame.Open

theorem iter_stops {t : Tokener} (h : t.frame.Calm) : (iter lf t 0).Stops t := by
  have hnot (hopen : t.frame.Open ↔ False) {t' : Tokener} (hr : t'.rest = t.rest) :
      (Action.next t').Stops t := .inl ⟨hopen.mp, hr⟩
  unfold iter
  cases hst : t.frame.state <;> dsimp only
  case comment | commentEol | commentEnd =>
    have hopen : t.frame.Open := by rw [Activation.Open, hst]; trivial
    refine .inr ⟨hopen, rfl, rfl, rfl, rfl, fun hfin => ?_⟩
    first | cases hfin | cases hst.symm.trans hfin
  case string | objectField =>
    have hopen : t.frame.Open := by rw [Activation.Open, hst]; trivial
    have hquote : ¬ 0 = t.frame.quoteChar := fun hq => h (.inl (by rw [hst]; rfl)) hq.symm
    rw [if_neg hquote]
    exact .inr ⟨hopen, rfl, rfl, rfl, rfl, fun hfin => by cases hst.symm.trans hfin⟩
  case escapeUnicode =>
    have hopen : t.frame.Open := by rw [Activation.Open, hst]; trivial
    simp only [iterEscapeUnicode, true_or, if_true]
    split_ifs
    · exact .inr ⟨hopen, rfl, rfl, rfl, rfl, id⟩
    · exact .inr ⟨hopen, rfl, rfl, rfl, rfl, fun hfin => by cases hst.symm.trans hfin⟩
  case null =>
    have hopen : t.frame.Open ↔ strncasecmp (lit "null") t.frame.seen t.frame.seen.length = 0 ∧
        t.frame.seen.length ≠ 4 := by rw [Activation.Open, hst]
    unfold iterNull
    split_ifs with hword hlen
    · exact fun ho => hword (hopen.mp ho).1
    · exact hnot (iff_of_false (fun ho => (hopen.mp ho).2 hlen) id) rfl
    · exact .inr ⟨hopen.mpr ⟨not_not.mp hword, hlen⟩, rfl, rfl, rfl, rfl,
        fun hfin => by cases hst.symm.trans hfin⟩
  case boolean =>
    have hopen : t.frame.Open ↔
        strncasecmp (lit "true") t.frame.seen t.frame.seen.length = 0 ∧ t.frame.seen.length ≠ 4 ∨
        ¬ strncasecmp (lit "true") t.frame.seen t.frame.seen.length = 0 ∧
          strncasecmp (lit "false") t.frame.seen t.frame.seen.length = 0 ∧
            t.frame.seen.length ≠ 5 := by rw [Activation.Open, hst]
    unfold iterBoolean
    split_ifs with htrue hlen hfalse hlen
    · exact hnot (by rw [hopen]; tauto) rfl
    · exact .inr ⟨hopen.mpr (.inl ⟨htrue, hlen⟩), rfl, rfl, rfl, rfl,
        fun hfin => by cases hst.symm.trans hfin⟩
    · exact hnot (by rw [hopen]; tauto) rfl
    · exact .inr ⟨hopen.mpr (.inr ⟨htrue, hfalse, hlen⟩), rfl, rfl, rfl, rfl,
        fun hfin => by cases hst.symm.trans hfin⟩
    · exact fun ho => by rw [hopen] at ho; tauto
  all_goals
    have hopen : t.frame.Open ↔ False := by rw [Activation.Open, hst]
  case number =>
    simp only [iterNumber, true_or, if_true]
    split
    · exact hnot hopen rfl
    · exact hopen.mp
  case eatws => exact hnot hopen rfl
  case object => exact hnot hopen rfl
  all_goals exact hopen.mp

/-- The call that waits goes on with what the running call returns, once it has taken the NUL: no
marker is followed by either of them. -/
def Tokener.HandsOver (t : Tokener) : Prop :=
  ∃ f callers ptr f', t.callers = f :: callers ∧ t.frame.last = some ptr ∧ f.resume ptr = some f'

theorem Takes.exit {t t' : Tokener} (h : Takes t t') : t'.exit = t'.leave t.frame.last := by
  have hout (err : UInt32) : t'.frame.out err = t.frame.out err := by
    rw [Activation.out, Activation.out, h.current]
  unfold Tokener.exit Activation.last
  by_cases hsaved : t.frame.savedState = .finish
  · rw [if_pos hsaved, if_neg (fun hnot => hnot.2 (h.saved.trans hsaved)), h.current]
    rfl
  · have hstate : t'.frame.state ≠ .finish := fun hfin => hsaved (h.state hfin)
    rw [if_neg hsaved, if_pos ⟨hstate, by rwa [h.saved]⟩, hout]

theorem Activation.last_wellFormed {f : Activation} (hf : f.current.WellFormed lf) {ptr : JsonPtr}
    (h : f.last = some ptr) : ptr.WellFormed lf := by
  unfold Activation.last at h
  split_ifs at h
  · cases h
    exact hf
  · exact Activation.out_returnable h

/-- The caller goes on when nothing is followed. -/
theorem leave_last {t t₁ : Tokener} (h : t.Sound lf) (hcallers : t₁.callers = t.callers) :
    t.HandsOver ↔ ∃ t', t₁.leave t.frame.last = .inr t' := by
  have herr {ptr : JsonPtr} (hlast : t.frame.last = some ptr) : ptr.err = none :=
    err_of_wellFormed (Activation.last_wellFormed h.1 hlast)
  constructor
  · rintro ⟨f, callers, ptr, f', hcs, hlast, hresume⟩
    refine ⟨{ t₁ with frame := f', callers }, ?_⟩
    simp only [hlast, Tokener.leave, Tokener.ret, hcallers, hcs, Tokener.retTo, herr hlast, hresume]
  · rintro ⟨t', hleave⟩
    cases hlast : t.frame.last with
    | none =>
      rw [hlast] at hleave
      cases hleave
    | some ptr =>
      rw [hlast, Tokener.leave, Tokener.ret, hcallers] at hleave
      cases hcs : t.callers with
      | nil =>
        rw [hcs] at hleave
        cases hleave
      | cons f callers =>
        simp only [hcs, Tokener.retTo, herr hlast] at hleave
        split at hleave
        · next f' hresume => exact ⟨f, callers, ptr, f', hcs, hlast, hresume⟩
        · cases hleave

/-- A caller or a new call, which has the NUL before it. -/
def Tokener.AtEnd (t : Tokener) : Prop := t.rest = [0] ∧ t.frame.state = .eatws

theorem Returned.atEnd {t t' : Tokener} (h : Returned t t') (hr : t.rest = [0]) : t'.AtEnd :=
  ⟨h.rest.trans hr, h.resumed.state⟩

/-- A cycle before the NUL leaves the parser before it, unless the NUL is taken. -/
theorem cycle_nul {t t' : Tokener} (hok : t.Ok) (hcalm : t.frame.Calm) (hsound : t.Sound lf)
    (hr : t.rest = [0]) (h : cycle lf t = .inr t') :
    t'.AtEnd ∨ t'.rest = [] ∧ t.frame.Open ∧ t.HandsOver := by
  have hfits : (iter lf t 0).Fits t := iter_fits hok.saved 0
  have hstops : (iter lf t 0).Stops t := iter_stops hcalm
  simp only [cycle, hr] at h
  cases hi : iter lf t 0 with
  | next t₁ =>
    rw [hi] at h hfits hstops
    simp only [if_true] at h
    have hcallers : t₁.callers = t.callers := hfits.callers
    have hret : Returned t₁ t' := .of_exit (by rw [hcallers]; exact hok.callers) h
    rcases hstops with ⟨-, hsame⟩ | ⟨hopen, htakes⟩
    · exact .inl (hret.atEnd (hsame.trans hr))
    · rw [htakes.exit] at h
      refine .inr ⟨?_, hopen, (leave_last hsound hcallers).mpr ⟨t', h⟩⟩
      rw [hret.rest, htakes.rest, hr]
      rfl
  | call t₁ =>
    rw [hi] at h hfits
    obtain ⟨rfl, -⟩ := hfits
    cases h
    exact .inl ⟨hr, rfl⟩
  | out ptr =>
    rw [hi] at h
    exact .inl (Returned.of_ret hok.callers h |>.atEnd hr)
  | error e =>
    rw [hi] at h
    exact .inl (Returned.of_leave hok.callers h |>.atEnd hr)

/-- At the end of the text a call for a member is in the middle of something that takes the NUL. -/
def EndsOpen (lf : List Byte → Option (List Byte)) (source : List Byte) : Prop :=
  ∃ t, Steps lf (.init source) t ∧ t.rest = [] ∧ t.frame.Open ∧ t.HandsOver

theorem cycle_calm {t t' : Tokener} (hok : t.Ok) (hcalm : t.frame.Calm) (h : cycle lf t = .inr t') :
    t'.frame.Calm := by
  unfold cycle at h
  split at h
  · cases h
  · next c rest hr =>
    have hfits : (iter lf t c).Fits t := iter_fits hok.saved c
    have hiter : (iter lf t c).Calm := iter_calm hcalm c
    cases hi : iter lf t c with
    | next t₁ =>
      rw [hi] at h hfits hiter
      dsimp only at h
      split_ifs at h
      · exact (Returned.of_exit (by rw [hfits.callers]; exact hok.callers) h).resumed.calm
      · cases h
        exact hiter
    | call t₁ =>
      rw [hi] at h
      cases h
      rintro (⟨⟨⟩⟩ | ⟨⟨⟩⟩)
    | out ptr =>
      rw [hi] at h
      exact (Returned.of_ret hok.callers h).resumed.calm
    | error e =>
      rw [hi] at h
      exact (Returned.of_leave hok.callers h).resumed.calm

theorem steps_calm {source : List Byte} {t : Tokener} (h : Steps lf (.init source) t) :
    t.Ok ∧ t.frame.Calm ∧ t.Sound lf := by
  induction h with
  | refl => exact ⟨ok_init source, by rintro (⟨⟨⟩⟩ | ⟨⟨⟩⟩), trivial, by simp [Tokener.init]⟩
  | tail _ hc ih =>
    obtain ⟨hok, hcalm, hsound⟩ := ih
    have hkept := cycle_sound hsound
    rw [hc] at hkept
    exact ⟨(cycle_weight hok hc).1, cycle_calm hok hcalm hc, hkept⟩

/-! ## Behind the NUL -/

/-- Where a run on a text and its NUL can be. -/
theorem steps_nul {source : List Byte} {t : Tokener} (h : Steps lf (.init (source ++ [0])) t) :
    (∃ t₀, Steps lf (.init source) t₀ ∧ t = t₀.extend [0]) ∨ t.AtEnd ∨
      t.rest = [] ∧ EndsOpen lf source := by
  induction h with
  | refl => exact .inl ⟨.init source, .refl, rfl⟩
  | @tail t t' hsteps' hc ih =>
    rcases ih with ⟨t₀, hsteps, rfl⟩ | hend | ⟨hr, -⟩
    · by_cases hr : t₀.rest = []
      · obtain ⟨hok, hcalm, hsound⟩ := steps_calm hsteps'
        have hr' : (t₀.extend [0]).rest = [0] := by rw [Tokener.extend, hr]; rfl
        rcases cycle_nul hok hcalm hsound hr' hc with hend | ⟨hpast, hopen, hover⟩
        · exact .inr (.inl hend)
        · exact .inr (.inr ⟨hpast, t₀, hsteps, hr, hopen, hover⟩)
      · rw [cycle_extend hr] at hc
        cases hc₀ : cycle lf t₀ with
        | inl p =>
          rw [hc₀] at hc
          cases hc
        | inr t₁ =>
          rw [hc₀] at hc
          cases hc
          exact .inl ⟨t₁, hsteps.tail hc₀, rfl⟩
    · obtain ⟨hok, hcalm, hsound⟩ := steps_calm hsteps'
      rcases cycle_nul hok hcalm hsound hend.1 hc with hend' | ⟨-, hopen, -⟩
      · exact .inr (.inl hend')
      · rw [Activation.Open, hend.2] at hopen
        exact hopen.elim
    · exact absurd hr (rest_ne_nil_of_cycle hc)

theorem retTo_ne_overrun (t : Tokener) (ptr : JsonPtr) (callers : List Activation) :
    t.retTo ptr callers ≠ .inl .overrun := by
  induction callers generalizing ptr with
  | nil => cases ptr <;> rintro ⟨⟩
  | cons f callers ih =>
    rw [Tokener.retTo]
    split
    · split
      · exact ih _
      · rintro ⟨⟩
    · split <;> rintro ⟨⟩

theorem leave_ne_overrun (t : Tokener) (ptr : Option JsonPtr) : t.leave ptr ≠ .inl .overrun := by
  cases ptr with
  | none => rintro ⟨⟩
  | some ptr => exact retTo_ne_overrun t ptr t.callers

theorem exit_ne_overrun (t : Tokener) : t.exit ≠ .inl .overrun := by
  unfold Tokener.exit
  split_ifs
  · exact leave_ne_overrun t _
  · exact retTo_ne_overrun t _ t.callers

theorem rest_of_overrun {t : Tokener} (h : cycle lf t = .inl .overrun) : t.rest = [] := by
  cases hr : t.rest with
  | nil => rfl
  | cons c rest =>
    simp only [cycle, hr] at h
    cases hi : iter lf t c with
    | next t' =>
      rw [hi] at h
      dsimp only at h
      split_ifs at h
      exact absurd h (exit_ne_overrun _)
    | call t' =>
      rw [hi] at h
      cases h
    | out ptr =>
      rw [hi] at h
      exact absurd h (retTo_ne_overrun t ptr t.callers)
    | error e =>
      rw [hi] at h
      exact absurd h (leave_ne_overrun t _)

/-- The NUL is taken, and the caller is there with nothing left. -/
theorem EndsOpen.overrun {source : List Byte} (h : EndsOpen lf source) :
    jsonTokenerParse lf (source ++ [0]) = .overrun := by
  obtain ⟨t, hsteps, hr, hopen, hover⟩ := h
  obtain ⟨hok, hcalm, hsound⟩ := steps_calm hsteps
  have hr' : (t.extend [0]).rest = [0] := by rw [Tokener.extend, hr]; rfl
  have hstops : (iter lf (t.extend [0]) 0).Stops (t.extend [0]) := iter_stops hcalm
  cases hi : iter lf (t.extend [0]) 0 with
  | next t₁ =>
    rw [hi] at hstops
    rcases hstops with ⟨hnot, -⟩ | ⟨-, htakes⟩
    · exact absurd hopen hnot
    · have hnil : t₁.rest = [] := by rw [htakes.rest, hr']; rfl
      have hok₁ : ∀ f ∈ t₁.callers, f.state = .array ∨ f.state = .objectValue := by
        rw [htakes.callers]
        exact hok.callers
      obtain ⟨t', hleave⟩ := (leave_last (t := t.extend [0]) hsound htakes.callers).mp hover
      have hcycle : cycle lf (t.extend [0]) = .inr t' := by
        rw [cycle_exit hr' hi, htakes.exit, hleave]
      have hnil' : t'.rest = [] := (Returned.of_leave hok₁ hleave).rest.trans hnil
      apply jsonTokenerParse_of_steps ((hsteps.extend [0]).tail hcycle)
      simp only [cycle, hnil']
  | call t₁ | out ptr | error e =>
    rw [hi] at hstops
    exact absurd hopen hstops

/-- The parser reads behind the NUL when a call for a member takes it, and only then. What is behind
the NUL counts for nothing otherwise. -/
theorem jsonTokenerParse_terminator (lf : List Byte → Option (List Byte)) (source : List Byte) :
    (jsonTokenerParse lf (source ++ [0]) = .overrun ↔ EndsOpen lf source) ∧
      (¬ EndsOpen lf source → ∀ rest, jsonTokenerParse lf (source ++ 0 :: rest) =
        jsonTokenerParse lf (source ++ [0])) := by
  have hiff : jsonTokenerParse lf (source ++ [0]) = .overrun ↔ EndsOpen lf source := by
    refine ⟨fun h => ?_, EndsOpen.overrun⟩
    obtain ⟨t, hsteps, hend⟩ := steps_jsonTokenerParse lf (source ++ [0])
    rw [h] at hend
    have hr : t.rest = [] := rest_of_overrun hend
    rcases steps_nul hsteps with ⟨t₀, -, rfl⟩ | ⟨hrest, -⟩ | ⟨-, hopen⟩
    · cases List.append_eq_nil_iff.mp hr |>.2
    · cases hr.symm.trans hrest
    · exact hopen
  refine ⟨hiff, fun h rest => ?_⟩
  have hsplit : source ++ 0 :: rest = (source ++ [0]) ++ rest := by simp
  rw [hsplit]
  exact jsonTokenerParse_extend (hiff.not.mpr h) rest

/-- At the top there is no caller to go on, and a number takes no NUL. -/
example : jsonTokenerParse some (lit "[\"abc" ++ [0]) = .overrun ∧
    jsonTokenerParse some (lit "null/*" ++ [0]) = .value .null ∧
    jsonTokenerParse some (lit "[1" ++ [0]) = .error (errorPtr JsonTokenerError.parseEof.num) :=
  ⟨by rfl, by rfl, by rfl⟩

end PamSmsauth
