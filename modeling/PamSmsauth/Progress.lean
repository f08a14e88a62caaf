import PamSmsauth.Tokener

/-!
# The parser ends

A cycle of the parser consumes its character or lowers the rank of the running call
(`cycle_weight`), so that six cycles for each byte are enough on every text (`runTokener_isSome`).
`iter_fits` says what a pass through the `switch` can do; the rest follows from it.
-/

namespace PamSmsauth

open CText Tokener

variable {lf : List Byte → Option (List Byte)}

/-- How many cycles a state can go on for at one byte. -/
def TokenerState.rank : TokenerState → Nat
  | .array | .objectValue => 4
  | .null | .boolean | .number => 2
  | .object => 1
  | _ => 0

def Activation.rank (f : Activation) : Nat :=
  if f.state = .eatws then f.savedState.rank + 1 else f.state.rank

/-- A call that begins costs its caller two cycles, which are those of its return. -/
def Tokener.weight (t : Tokener) : Nat :=
  6 * t.rest.length + 2 * t.callers.length + t.frame.rank

/-- White space is not waited for twice, and callers wait for a value. -/
structure Tokener.Ok (t : Tokener) : Prop where
  saved : t.frame.savedState ≠ .eatws
  callers : ∀ f ∈ t.callers, f.state = .array ∨ f.state = .objectValue

/-- A pass through the `switch` consumes its character, or lowers the rank. -/
structure Progress (t t' : Tokener) : Prop where
  saved : t'.frame.savedState ≠ .eatws
  callers : t'.callers = t.callers
  moves : t'.rest = t.rest.tail ∨ t'.rest = t.rest ∧ t'.frame.rank < t.frame.rank

theorem Activation.rank_le (f : Activation) : f.rank ≤ 5 := by
  have hrank : ∀ s : TokenerState, s.rank ≤ 4 := by intro s; cases s <;> decide
  unfold Activation.rank
  split
  · exact Nat.succ_le_succ (hrank _)
  · exact Nat.le_succ_of_le (hrank _)

theorem Progress.moved {t t' : Tokener} (hs : t'.frame.savedState ≠ .eatws)
    (hc : t'.callers = t.callers) (hr : t'.rest = t.rest.tail) : Progress t t' :=
  ⟨hs, hc, .inl hr⟩

/-- A literal or a number ends at the character after it. -/
theorem Progress.complete {t : Tokener} (h : t.frame.rank = 2) (v : JsonObject) :
    Progress t (t.complete v) := by
  refine ⟨by rintro ⟨⟩, rfl, .inr ⟨rfl, ?_⟩⟩
  rw [h]
  show 1 < 2
  decide

/-- White space ends. -/
theorem Progress.goto {t : Tokener} (hs : t.frame.savedState ≠ .eatws)
    (h : t.frame.state = .eatws) : Progress t (t.goto t.frame.savedState) := by
  have hrank : t.frame.rank = t.frame.savedState.rank + 1 := by rw [Activation.rank, if_pos h]
  have hgoto : (t.goto t.frame.savedState).frame.rank = t.frame.savedState.rank := if_neg hs
  exact ⟨hs, rfl, .inr ⟨rfl, by omega⟩⟩

/-- What a pass through the `switch` can do. -/
def Action.Fits (t : Tokener) : Action → Prop
  | .next t' => Progress t t'
  | .call t' => t' = t ∧ (t.frame.state = .array ∨ t.frame.state = .objectValue)
  | .out _ => t.frame.state = .finish
  | .error _ => True

section

variable {t : Tokener} (hs : t.frame.savedState ≠ .eatws) (c : Byte)

include hs

theorem iterStart_fits : (iterStart t c).Fits t := by
  unfold iterStart
  split_ifs
  · exact .moved (by rintro ⟨⟩) rfl rfl
  · exact .moved (by rintro ⟨⟩) rfl rfl
  · exact .moved hs rfl rfl
  · exact .moved hs rfl rfl
  · exact .moved hs rfl rfl
  · exact .moved hs rfl rfl
  · trivial

theorem iterStringEscape_fits : (iterStringEscape t c).Fits t := by
  unfold iterStringEscape
  split_ifs <;> first | exact .moved hs rfl rfl | trivial

theorem iterEscapeUnicode_fits : (iterEscapeUnicode t c).Fits t := by
  simp only [iterEscapeUnicode]
  split_ifs <;> first | exact .moved hs rfl rfl | trivial

variable (hrank : t.frame.rank = 2)

include hrank

theorem iterNull_fits : (iterNull t c).Fits t := by
  unfold iterNull
  split_ifs
  · trivial
  · exact .complete hrank _
  · exact .moved hs rfl rfl

theorem iterBoolean_fits : (iterBoolean t c).Fits t := by
  unfold iterBoolean
  split_ifs
  · exact .complete hrank _
  · exact .moved hs rfl rfl
  · exact .complete hrank _
  · exact .moved hs rfl rfl
  · trivial

theorem iterNumber_fits : (iterNumber lf t c).Fits t := by
  simp only [iterNumber]
  split
  · split
    · exact .complete hrank _
    · trivial
  · split
    · exact .moved hs rfl rfl
    · exact .moved hs rfl rfl

end

theorem iter_fits {t : Tokener} (hs : t.frame.savedState ≠ .eatws) (c : Byte) :
    (iter lf t c).Fits t := by
  unfold iter
  cases hst : t.frame.state <;> simp only []
  case eatws =>
    split_ifs
    · exact .moved hs rfl rfl
    · exact .moved hs rfl rfl
    · exact .goto hs hst
  case start => exact iterStart_fits hs c
  case finish => exact hst
  case null => exact iterNull_fits hs c (by simp [Activation.rank, hst, TokenerState.rank])
  case boolean => exact iterBoolean_fits hs c (by simp [Activation.rank, hst, TokenerState.rank])
  case number => exact iterNumber_fits hs c (by simp [Activation.rank, hst, TokenerState.rank])
  case stringEscape => exact iterStringEscape_fits hs c
  case escapeUnicode => exact iterEscapeUnicode_fits hs c
  case commentStart | comment | commentEol | commentEnd =>
    split_ifs <;> first | exact .moved hs rfl rfl | trivial
  case string | objectField =>
    split_ifs
    · exact .moved (by rintro ⟨⟩) rfl rfl
    · exact .moved (by rintro ⟨⟩) rfl rfl
    · exact .moved hs rfl rfl
  case array =>
    split_ifs
    · exact .moved (by rintro ⟨⟩) rfl rfl
    · exact ⟨rfl, .inl hst⟩
  case arraySep | objectSep =>
    split_ifs <;> first | exact .moved (by rintro ⟨⟩) rfl rfl | trivial
  case object =>
    have hobject : t.frame.rank = 1 := by simp [Activation.rank, hst, TokenerState.rank]
    refine ⟨hs, rfl, .inr ⟨rfl, ?_⟩⟩
    show 0 < t.frame.rank
    omega
  case objectFieldStart =>
    split_ifs
    · exact .moved (by rintro ⟨⟩) rfl rfl
    · exact .moved hs rfl rfl
    · trivial
  case objectFieldEnd =>
    split_ifs
    · exact .moved (by rintro ⟨⟩) rfl rfl
    · trivial
  case objectValue => exact ⟨rfl, .inr hst⟩

/-! ## Returns -/

/-- A call that goes on after one that it made: in white space, before what separates members. -/
structure Activation.Resumed (f : Activation) : Prop where
  state : f.state = .eatws
  saved : f.savedState = .arraySep ∨ f.savedState = .objectSep

theorem Activation.Resumed.rank {f : Activation} (h : f.Resumed) : f.rank = 1 := by
  rw [Activation.rank, if_pos h.state]
  rcases h.saved with hs | hs <;> rw [hs] <;> rfl

theorem Activation.resumed_of_resume {f f' : Activation} {obj : JsonPtr}
    (hf : f.state = .array ∨ f.state = .objectValue) (h : f.resume obj = some f') : f'.Resumed := by
  unfold Activation.resume at h
  rcases hf with hf | hf <;> rw [hf] at h
  · cases h
    exact ⟨rfl, .inl rfl⟩
  · obtain ⟨current, -, rfl⟩ := Option.map_eq_some_iff.mp h
    exact ⟨rfl, .inr rfl⟩

/-- Where a run goes on after a return: in one of the callers. -/
structure Returned (t t' : Tokener) : Prop where
  resumed : t'.frame.Resumed
  rest : t'.rest = t.rest
  callers : ∃ fs f, fs ++ f :: t'.callers = t.callers

variable {t t' : Tokener}

theorem resumed_of_retTo {ptr : JsonPtr} {callers : List Activation}
    (hc : ∀ f ∈ callers, f.state = .array ∨ f.state = .objectValue)
    (h : t.retTo ptr callers = .inr t') :
    t'.frame.Resumed ∧ t'.rest = t.rest ∧ ∃ fs f, fs ++ f :: t'.callers = callers := by
  induction callers generalizing ptr with
  | nil => cases h
  | cons f callers ih =>
    rw [Tokener.retTo] at h
    obtain ⟨hf, hc⟩ := List.forall_mem_cons.mp hc
    split at h
    · split at h
      · obtain ⟨hresumed, hrest, fs, f', heq⟩ := ih hc h
        exact ⟨hresumed, hrest, f :: fs, f', by rw [← heq]; rfl⟩
      · cases h
    · split at h
      · next frame hresume =>
        cases h
        exact ⟨Activation.resumed_of_resume hf hresume, rfl, [], f, rfl⟩
      · cases h

theorem Returned.of_ret {ptr : JsonPtr}
    (hc : ∀ f ∈ t.callers, f.state = .array ∨ f.state = .objectValue)
    (h : t.ret ptr = .inr t') : Returned t t' := by
  obtain ⟨hresumed, hrest, hcallers⟩ := resumed_of_retTo hc h
  exact ⟨hresumed, hrest, hcallers⟩

theorem Returned.of_leave {ptr : Option JsonPtr}
    (hc : ∀ f ∈ t.callers, f.state = .array ∨ f.state = .objectValue)
    (h : t.leave ptr = .inr t') : Returned t t' := by
  cases ptr with
  | none => cases h
  | some ptr => exact .of_ret hc h

theorem Returned.of_exit (hc : ∀ f ∈ t.callers, f.state = .array ∨ f.state = .objectValue)
    (h : t.exit = .inr t') : Returned t t' := by
  unfold Tokener.exit at h
  split_ifs at h
  · exact .of_leave hc h
  · exact .of_ret hc h

/-- The caller has the cycles that its call has left over. -/
theorem Returned.progress (hc : ∀ f ∈ t.callers, f.state = .array ∨ f.state = .objectValue)
    (h : Returned t t') : t'.Ok ∧ t'.weight < 6 * t.rest.length + 2 * t.callers.length := by
  obtain ⟨hresumed, hrest, fs, f, hcallers⟩ := h
  rw [← hcallers] at hc
  refine ⟨⟨?_, fun g hg => hc g (by simp [hg])⟩, ?_⟩
  · rcases hresumed.saved with hs | hs <;> rw [hs] <;> rintro ⟨⟩
  · rw [Tokener.weight, hrest, hresumed.rank, ← hcallers, List.length_append, List.length_cons]
    omega

/-! ## Cycles -/

theorem cycle_weight (hok : t.Ok) (h : cycle lf t = .inr t') : t'.Ok ∧ t'.weight < t.weight := by
  unfold cycle at h
  cases hr : t.rest with
  | nil => rw [hr] at h; cases h
  | cons c rest =>
    have hlen : t.rest.length = rest.length + 1 := by simp [hr]
    have hback {t₁ : Tokener} (hcallers : t₁.callers = t.callers)
        (hrest : t₁.rest.length ≤ t.rest.length) (hret : Returned t₁ t') :
        t'.Ok ∧ t'.weight < t.weight := by
      obtain ⟨hok', hw⟩ := hret.progress (by rw [hcallers]; exact hok.callers)
      refine ⟨hok', ?_⟩
      rw [hcallers] at hw
      have hweight : t.weight = 6 * t.rest.length + 2 * t.callers.length + t.frame.rank := rfl
      omega
    rw [hr] at h
    simp only at h
    have hfits : (iter lf t c).Fits t := iter_fits hok.saved c
    cases hi : iter lf t c with
    | next t₁ =>
      rw [hi] at h hfits
      have hp : Progress t t₁ := hfits
      have hcallers : ∀ f ∈ t₁.callers, f.state = .array ∨ f.state = .objectValue := by
        rw [hp.callers]; exact hok.callers
      simp only at h
      split_ifs at h
      · refine hback hp.callers ?_ (.of_exit hcallers h)
        rcases hp.moves with hr' | ⟨hr', -⟩ <;> rw [hr']
        rw [List.length_tail]
        omega
      · cases h
        refine ⟨⟨hp.saved, hcallers⟩, ?_⟩
        have := t'.frame.rank_le
        rw [Tokener.weight, Tokener.weight, hp.callers]
        rcases hp.moves with hr' | ⟨hr', hrank⟩
        · rw [hr', List.length_tail]; omega
        · rw [hr']; omega
    | call t₁ =>
      rw [hi] at h hfits
      obtain ⟨rfl, hst⟩ := hfits
      cases h
      refine ⟨⟨by rintro ⟨⟩, List.forall_mem_cons.mpr ⟨hst, hok.callers⟩⟩, ?_⟩
      have hrank : t₁.frame.rank = 4 := by
        rcases hst with hst | hst <;> simp [Activation.rank, hst, TokenerState.rank]
      show 6 * t₁.rest.length + 2 * (t₁.callers.length + 1) + 1 < t₁.weight
      rw [Tokener.weight, hrank]
      omega
    | out ptr =>
      rw [hi] at h
      exact hback rfl le_rfl (.of_ret hok.callers h)
    | error e =>
      rw [hi] at h
      exact hback rfl le_rfl (.of_leave hok.callers h)

theorem runTokener_isSome {n : Nat} {t : Tokener} (hok : t.Ok) (hn : t.weight < n) :
    (runTokener lf n t).isSome := by
  induction n generalizing t with
  | zero => omega
  | succ n ih =>
    unfold runTokener
    cases hc : cycle lf t with
    | inl p => rfl
    | inr t' =>
      obtain ⟨hok', hw⟩ := cycle_weight hok hc
      exact ih hok' (by omega)

theorem Tokener.ok_init (source : List Byte) : (Tokener.init source).Ok :=
  ⟨by rintro ⟨⟩, by simp [Tokener.init]⟩

end PamSmsauth
