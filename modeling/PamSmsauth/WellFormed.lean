import PamSmsauth.RoundTrip

/-!
# The values that the parser returns

Whatever the text, what `json_tokener_parse` returns is well formed at every depth: its strings and
keys end where their NUL is, the keys of an object are different, its numbers are C integers or what
was read with `%lf`, and a member that is no value is a marker that `is_error` does not know again
(`jsonTokenerParse_wellFormed`). This is kept by every pass through the `switch`, for the objects of
all calls that wait for another.

Printed, a value without a marker is read again if it has no backslash (`jsonTokenerParse_again`).
-/

namespace PamSmsauth

open CText Tokener

variable {lf : List Byte → Option (List Byte)}

mutual

def JsonObject.WellFormed (lf : List Byte → Option (List Byte)) : JsonObject → Prop
  | .null => True
  | .boolean _ => True
  | .double text => ∃ s, lf s = some text
  | .int i => InInt i
  | .object entries =>
    (entries.map Prod.fst).Nodup ∧ JsonObject.WellFormedEntries lf entries
  | .array elems => JsonObject.WellFormedElems lf elems
  | .string s => (0 : Byte) ∉ s

def JsonObject.WellFormedEntries (lf : List Byte → Option (List Byte)) :
    List (List Byte × JsonObject) → Prop
  | [] => True
  | (key, val) :: entries =>
    (0 : Byte) ∉ key ∧ val.WellFormed lf ∧ JsonObject.WellFormedEntries lf entries

def JsonObject.WellFormedElems (lf : List Byte → Option (List Byte)) : List JsonObject → Prop
  | [] => True
  | val :: elems => val.WellFormed lf ∧ JsonObject.WellFormedElems lf elems

end

mutual

/-- Where a member is no value, it is the marker that a call has returned from `out`. -/
def JsonPtr.WellFormed (lf : List Byte → Option (List Byte)) : JsonPtr → Prop
  | .obj v => v.WellFormed lf
  | .marker ptr => ∃ e : JsonTokenerError, ptr = errorPtr e.num
  | .marredObject entries =>
    (entries.map Prod.fst).Nodup ∧ (∃ e ∈ entries, e.2.clean = false) ∧
      JsonPtr.WellFormedEntries lf entries
  | .marredArray elems => (∃ ptr ∈ elems, ptr.clean = false) ∧ JsonPtr.WellFormedElems lf elems

def JsonPtr.WellFormedEntries (lf : List Byte → Option (List Byte)) :
    List (List Byte × JsonPtr) → Prop
  | [] => True
  | (key, val) :: entries =>
    (0 : Byte) ∉ key ∧ val.WellFormed lf ∧ JsonPtr.WellFormedEntries lf entries

def JsonPtr.WellFormedElems (lf : List Byte → Option (List Byte)) : List JsonPtr → Prop
  | [] => True
  | val :: elems => val.WellFormed lf ∧ JsonPtr.WellFormedElems lf elems

end

/-- What is returned is well formed, or one of the two markers of an error. -/
def JsonParsed.WellFormed (lf : List Byte → Option (List Byte)) : JsonParsed → Prop
  | .value v => v.WellFormed lf
  | .marred ptr => ptr.WellFormed lf
  | .error ptr => ∃ e : JsonTokenerError, ptr = errorPtr e.num ∨ ptr = e.constPtr
  | .overrun | .followed => True

namespace JsonObject

theorem wellFormedEntries_iff (entries : List (List Byte × JsonObject)) :
    WellFormedEntries lf entries ↔ ∀ e ∈ entries, (0 : Byte) ∉ e.1 ∧ e.2.WellFormed lf := by
  induction entries with
  | nil => simp [WellFormedEntries]
  | cons e entries ih =>
    rw [List.forall_mem_cons, ← ih, and_assoc]
    rfl

theorem wellFormedElems_iff (elems : List JsonObject) :
    WellFormedElems lf elems ↔ ∀ v ∈ elems, v.WellFormed lf := by
  induction elems with
  | nil => simp [WellFormedElems]
  | cons v elems ih =>
    rw [List.forall_mem_cons, ← ih]
    rfl

section AddEntry

variable {α : Type} {key : List Byte} {val : α} {entries : List (List Byte × α)}

/-- An entry that is put over another one leaves the keys different. -/
theorem nodup_addEntry (h : (entries.map Prod.fst).Nodup) :
    ((addEntry key val entries).map Prod.fst).Nodup := by
  rw [addEntry, List.map_append, List.nodup_append]
  refine ⟨h.sublist (List.filter_sublist.map _), List.nodup_singleton _, ?_⟩
  rintro k hk _ hk' rfl
  rw [List.mem_singleton.mp hk'] at hk
  simp at hk

theorem forall_addEntry {P : List Byte × α → Prop} (h : ∀ e ∈ entries, P e) (hnew : P (key, val)) :
    ∀ e ∈ addEntry key val entries, P e := by
  intro e he
  rcases List.mem_append.mp he with he | he
  · exact h e (List.mem_filter.mp he).1
  · rw [List.mem_singleton.mp he]
    exact hnew

end AddEntry

theorem WellFormed.objectAdd {this val : JsonObject} {key : List Byte} (h : this.WellFormed lf)
    (hval : val.WellFormed lf) : (this.objectAdd key val).WellFormed lf := by
  cases this with
  | object entries =>
    obtain ⟨hnodup, hentries⟩ := h
    refine ⟨nodup_addEntry hnodup, ?_⟩
    rw [wellFormedEntries_iff] at hentries ⊢
    exact forall_addEntry hentries ⟨nul_not_mem_cstr key, hval⟩
  | _ => exact h

theorem WellFormed.arrayAdd {this val : JsonObject} (h : this.WellFormed lf)
    (hval : val.WellFormed lf) : (this.arrayAdd val).WellFormed lf := by
  cases this with
  | array elems =>
    show WellFormedElems lf (elems ++ [val])
    rw [wellFormedElems_iff]
    intro v hv
    rcases List.mem_append.mp hv with hv | hv
    · exact (wellFormedElems_iff elems).mp h v hv
    · rw [List.mem_singleton.mp hv]
      exact hval
  | _ => exact h

end JsonObject

namespace JsonPtr

theorem wellFormedEntries_iff (entries : List (List Byte × JsonPtr)) :
    WellFormedEntries lf entries ↔ ∀ e ∈ entries, (0 : Byte) ∉ e.1 ∧ e.2.WellFormed lf := by
  induction entries with
  | nil => simp [WellFormedEntries]
  | cons e entries ih =>
    rw [List.forall_mem_cons, ← ih, and_assoc]
    rfl

theorem wellFormedElems_iff (elems : List JsonPtr) :
    WellFormedElems lf elems ↔ ∀ ptr ∈ elems, ptr.WellFormed lf := by
  induction elems with
  | nil => simp [WellFormedElems]
  | cons ptr elems ih =>
    rw [List.forall_mem_cons, ← ih]
    rfl

section Add

variable {this val : JsonPtr} (h : this.WellFormed lf) (hval : val.WellFormed lf)

include h hval

/-- An array is marred by its first marker, and stays so. -/
theorem WellFormed.arrayAdd : (this.arrayAdd val).WellFormed lf := by
  unfold JsonPtr.arrayAdd
  split
  · exact JsonObject.WellFormed.arrayAdd h hval
  · next elems hother =>
    have helems := (JsonObject.wellFormedElems_iff elems).mp h
    refine ⟨⟨val, by simp, ?_⟩, (wellFormedElems_iff _).mpr ?_⟩
    · cases val with
      | obj w => exact absurd rfl (hother w)
      | _ => rfl
    · intro ptr hptr
      rcases List.mem_append.mp hptr with hptr | hptr
      · obtain ⟨v, hv, rfl⟩ := List.mem_map.mp hptr
        exact helems v hv
      · rw [List.mem_singleton.mp hptr]
        exact hval
  · next elems =>
    obtain ⟨⟨ptr, hptr, hmarred⟩, helems⟩ := h
    refine ⟨⟨ptr, List.mem_append_left _ hptr, hmarred⟩, (wellFormedElems_iff _).mpr ?_⟩
    intro ptr hptr
    rcases List.mem_append.mp hptr with hptr | hptr
    · exact (wellFormedElems_iff elems).mp helems ptr hptr
    · rw [List.mem_singleton.mp hptr]
      exact hval
  · exact h

/-- What is marred in an object is not put by an entry that is added, so that it stays marred. -/
theorem WellFormed.objectAdd {key : List Byte} {this' : JsonPtr}
    (hadd : this.objectAdd key val = some this') : this'.WellFormed lf := by
  unfold JsonPtr.objectAdd at hadd
  split at hadd
  · cases hadd
    exact JsonObject.WellFormed.objectAdd h hval
  · next entries hother =>
    cases hadd
    obtain ⟨hnodup, hentries⟩ := h
    rw [JsonObject.wellFormedEntries_iff] at hentries
    refine ⟨JsonObject.nodup_addEntry ?_, ⟨(cstr key, val), ?_, ?_⟩, ?_⟩
    · rw [List.map_map]
      exact hnodup
    · exact List.mem_append_right _ (List.mem_singleton_self _)
    · cases val with
      | obj w => exact absurd rfl (hother w)
      | _ => rfl
    · rw [wellFormedEntries_iff]
      exact JsonObject.forall_addEntry (List.forall_mem_map.mpr hentries)
        ⟨nul_not_mem_cstr key, hval⟩
  · next entries =>
    split_ifs at hadd with hclean
    cases hadd
    obtain ⟨hnodup, ⟨e, he, hmarred⟩, hentries⟩ := h
    rw [wellFormedEntries_iff] at hentries
    refine ⟨JsonObject.nodup_addEntry hnodup, ⟨e, ?_, hmarred⟩, ?_⟩
    · have hkey : e.1 ≠ cstr key := by
        intro hkey
        rw [hclean e he hkey] at hmarred
        cases hmarred
      exact List.mem_append_left _ (List.mem_filter.mpr ⟨he, by simpa using hkey⟩)
    · rw [wellFormedEntries_iff]
      exact JsonObject.forall_addEntry hentries ⟨nul_not_mem_cstr key, hval⟩
  · cases hadd
    exact h

end Add

end JsonPtr

/-! ## Passes through the loop -/

/-- What the calls have is well formed. -/
def Tokener.Sound (lf : List Byte → Option (List Byte)) (t : Tokener) : Prop :=
  t.frame.current.WellFormed lf ∧ ∀ f ∈ t.callers, f.current.WellFormed lf

def Action.Sound (lf : List Byte → Option (List Byte)) : Action → Prop
  | .next t => t.Sound lf
  | .call t => t.Sound lf
  | .out ptr => ptr.WellFormed lf
  | .error _ => True

theorem sscanfInt_inInt {s : List Byte} {i : Int} (h : sscanfInt s = some i) : InInt i := by
  simp only [sscanfInt] at h
  split_ifs at h
  cases h
  exact atoi_inInt s

section

variable {t : Tokener} (h : t.Sound lf) (c : Byte)

include h

theorem iterStart_sound : (iterStart t c).Sound lf := by
  unfold iterStart
  split_ifs
  · exact ⟨⟨List.nodup_nil, trivial⟩, h.2⟩
  · exact ⟨trivial, h.2⟩
  · exact h
  · exact h
  · exact h
  · exact h
  · trivial

theorem iterStringEscape_sound : (iterStringEscape t c).Sound lf := by
  unfold iterStringEscape
  split_ifs <;> first | exact h | trivial

theorem iterEscapeUnicode_sound : (iterEscapeUnicode t c).Sound lf := by
  simp only [iterEscapeUnicode]
  split_ifs <;> first | exact h | trivial

theorem iterNull_sound : (iterNull t c).Sound lf := by
  unfold iterNull
  split_ifs
  · trivial
  · exact ⟨trivial, h.2⟩
  · exact h

theorem iterBoolean_sound : (iterBoolean t c).Sound lf := by
  unfold iterBoolean
  split_ifs
  · exact ⟨trivial, h.2⟩
  · exact h
  · exact ⟨trivial, h.2⟩
  · exact h
  · trivial

theorem iterNumber_sound : (iterNumber lf t c).Sound lf := by
  simp only [iterNumber]
  split
  · split
    · next v hv =>
      refine ⟨?_, h.2⟩
      show v.WellFormed lf
      split_ifs at hv
      · obtain ⟨text, htext, rfl⟩ := Option.map_eq_some_iff.mp hv
        exact ⟨_, htext⟩
      · obtain ⟨i, hi, rfl⟩ := Option.map_eq_some_iff.mp hv
        exact sscanfInt_inInt hi
    · trivial
  · split
    · exact h
    · exact h

theorem iter_sound : (iter lf t c).Sound lf := by
  unfold iter
  cases hst : t.frame.state <;> simp only []
  case start => exact iterStart_sound h c
  case finish => exact h.1
  case null => exact iterNull_sound h c
  case boolean => exact iterBoolean_sound h c
  case number => exact iterNumber_sound h c
  case stringEscape => exact iterStringEscape_sound h c
  case escapeUnicode => exact iterEscapeUnicode_sound h c
  case string =>
    split_ifs
    · exact ⟨nul_not_mem_cstr _, h.2⟩
    · exact h
    · exact h
  case object => exact h
  case objectValue => exact h
  all_goals split_ifs <;> first | exact h | trivial

end

/-! ## Returns -/

/-- What a call can return. -/
def JsonPtr.Returnable (lf : List Byte → Option (List Byte)) (ptr : JsonPtr) : Prop :=
  ptr.WellFormed lf ∨ ∃ e : JsonTokenerError, ptr = .marker e.constPtr

/-- `is_error` knows the constants, and the error in them. -/
theorem err_constPtr (e : JsonTokenerError) : (JsonPtr.marker e.constPtr).err = some e.num := by
  cases e <;> decide

theorem err_of_wellFormed {ptr : JsonPtr} (h : ptr.WellFormed lf) : ptr.err = none := by
  cases ptr with
  | marker ptr =>
    obtain ⟨e, rfl⟩ := h
    rw [JsonPtr.err, (isError_marker e).1]
    rfl
  | _ => rfl

theorem wellFormed_parsed {ptr : JsonPtr} (h : ptr.Returnable lf) : ptr.parsed.WellFormed lf := by
  rcases h with h | ⟨e, rfl⟩
  · cases ptr with
    | marker ptr =>
      obtain ⟨e, rfl⟩ := h
      exact ⟨e, .inl rfl⟩
    | _ => exact h
  · exact ⟨e, .inr rfl⟩

theorem Activation.out_returnable {f : Activation} {e : JsonTokenerError} {ptr : JsonPtr}
    (h : f.out e.num = some ptr) : ptr.WellFormed lf := by
  unfold Activation.out at h
  split_ifs at h
  cases h
  exact ⟨e, rfl⟩

theorem Activation.fail_returnable {f : Activation} {e : JsonTokenerError} {ptr : JsonPtr}
    (h : f.fail e = some ptr) : ptr.Returnable lf := by
  unfold Activation.fail at h
  split at h
  · cases h
    exact .inr ⟨e, rfl⟩
  · cases h
    exact .inr ⟨e, rfl⟩
  · split_ifs at h
    cases h
    exact .inr ⟨e, rfl⟩
  · exact .inl (Activation.out_returnable h)

theorem Activation.resume_wellFormed {f f' : Activation} {obj : JsonPtr}
    (hf : f.current.WellFormed lf) (hobj : obj.WellFormed lf) (h : f.resume obj = some f') :
    f'.current.WellFormed lf := by
  unfold Activation.resume at h
  split at h
  · cases h
    exact hf.arrayAdd hobj
  · obtain ⟨current, hadd, rfl⟩ := Option.map_eq_some_iff.mp h
    exact hf.objectAdd hobj hadd
  · cases h
    exact hf

/-- How a pass goes on, or what it ends with. -/
def CycleSound (lf : List Byte → Option (List Byte)) : JsonParsed ⊕ Tokener → Prop
  | .inl parsed => parsed.WellFormed lf
  | .inr t => t.Sound lf

theorem retTo_sound {t : Tokener} {ptr : JsonPtr} {callers : List Activation}
    (hcallers : ∀ f ∈ callers, f.current.WellFormed lf) (hptr : ptr.Returnable lf) :
    CycleSound lf (t.retTo ptr callers) := by
  induction callers generalizing ptr with
  | nil => exact wellFormed_parsed hptr
  | cons f callers ih =>
    obtain ⟨hf, hcallers⟩ := List.forall_mem_cons.mp hcallers
    rw [Tokener.retTo]
    rcases hptr with hptr | ⟨e, rfl⟩
    · rw [err_of_wellFormed hptr]
      dsimp only
      split
      · next hresume => exact ⟨Activation.resume_wellFormed hf hptr hresume, hcallers⟩
      · trivial
    · rw [err_constPtr]
      dsimp only
      split
      · next hout => exact ih hcallers (.inl (Activation.out_returnable hout))
      · trivial

theorem Tokener.Sound.leave {t : Tokener} (h : t.Sound lf) {ptr : Option JsonPtr}
    (hptr : ∀ p, ptr = some p → p.Returnable lf) : CycleSound lf (t.leave ptr) := by
  cases ptr with
  | none => trivial
  | some ptr => exact retTo_sound h.2 (hptr ptr rfl)

theorem Tokener.Sound.exit {t : Tokener} (h : t.Sound lf) : CycleSound lf t.exit := by
  unfold Tokener.exit
  split_ifs
  · exact h.leave fun _ hout => .inl (Activation.out_returnable hout)
  · exact retTo_sound h.2 (.inl h.1)

/-- A pass through the loop goes on, or ends with what is well formed. -/
theorem cycle_sound {t : Tokener} (h : t.Sound lf) : CycleSound lf (cycle lf t) := by
  unfold cycle
  cases hrest : t.rest with
  | nil => trivial
  | cons c rest =>
    have hiter := iter_sound h c
    dsimp only
    generalize iter lf t c = action at hiter ⊢
    cases action with
    | next t₁ =>
      dsimp only
      split_ifs with hc
      · exact hiter.exit
      · exact hiter
    | call t₁ => exact ⟨trivial, List.forall_mem_cons.mpr hiter⟩
    | out ptr => exact retTo_sound h.2 (.inl hiter)
    | error e => exact h.leave fun _ hfail => Activation.fail_returnable hfail

theorem runTokener_wellFormed {n : Nat} {t : Tokener} {parsed : JsonParsed} (h : t.Sound lf)
    (hrun : runTokener lf n t = some parsed) : parsed.WellFormed lf := by
  induction n generalizing t with
  | zero => cases hrun
  | succ n ih =>
    have hsound := cycle_sound h
    rw [runTokener] at hrun
    cases hcycle : cycle lf t with
    | inl parsed' =>
      rw [hcycle] at hrun hsound
      cases hrun
      exact hsound
    | inr t' =>
      rw [hcycle] at hrun hsound
      exact ih hsound hrun

theorem parsed_wellFormed (lf : List Byte → Option (List Byte)) (source : List Byte) :
    (jsonTokenerParse lf source).WellFormed lf := by
  unfold jsonTokenerParse
  cases hrun : runTokener lf (6 * source.length + 6) (.init source) with
  | none => trivial
  | some parsed =>
    have hinit : (Tokener.init source).Sound lf := ⟨trivial, by simp [Tokener.init]⟩
    exact runTokener_wellFormed hinit hrun

/-- What is parsed from any text is well formed, and what it has got at any depth is. -/
theorem jsonTokenerParse_wellFormed (lf : List Byte → Option (List Byte)) (source : List Byte) :
    (jsonTokenerParse lf source).WellFormed lf := parsed_wellFormed lf source

/-- A key that is there twice is there once in the value, and a member without a value is accepted.
-/
example : jsonTokenerParse some (lit "\x7b'a':[],'a':\x7b\x7d\x7d" ++ [0]) =
      .value (.object [(lit "a", .object [])]) ∧
    jsonTokenerParse some (lit "\x7b'a': \x7d" ++ [0]) =
      .marred (.marredObject [(lit "a", .marker 0xffffffff)]) := ⟨by rfl, by rfl⟩

/-! ## Printing what was parsed -/

mutual

/-- What a value that was parsed needs to be parsed again: no backslashes, and a text of its doubles
that `%lf` reads. -/
def JsonObject.Reprintable (lf : List Byte → Option (List Byte)) : JsonObject → Prop
  | .double text => DoubleText lf text
  | .object entries => JsonObject.ReprintableEntries lf entries
  | .array elems => JsonObject.ReprintableElems lf elems
  | .string s => (92 : Byte) ∉ s
  | _ => True

def JsonObject.ReprintableEntries (lf : List Byte → Option (List Byte)) :
    List (List Byte × JsonObject) → Prop
  | [] => True
  | (key, val) :: entries =>
    (92 : Byte) ∉ key ∧ val.Reprintable lf ∧ JsonObject.ReprintableEntries lf entries

def JsonObject.ReprintableElems (lf : List Byte → Option (List Byte)) : List JsonObject → Prop
  | [] => True
  | val :: elems => val.Reprintable lf ∧ JsonObject.ReprintableElems lf elems

end

mutual

theorem faithful_of_wellFormed : ∀ v : JsonObject, v.WellFormed lf →
    v.Reprintable lf → v.Faithful lf
  | .null, _, _ => trivial
  | .boolean _, _, _ => trivial
  | .double _, _, hre => hre
  | .int _, h, _ => h
  | .object entries, h, hre => ⟨h.1, faithful_entries entries h.2 hre⟩
  | .array elems, h, hre => faithful_elems elems h hre
  | .string _, h, hre => ⟨h, hre⟩

theorem faithful_entries : ∀ entries : List (List Byte × JsonObject),
    JsonObject.WellFormedEntries lf entries → JsonObject.ReprintableEntries lf entries →
      JsonObject.FaithfulEntries lf entries
  | [], _, _ => trivial
  | (_, val) :: entries, h, hre =>
    ⟨⟨h.1, hre.1⟩, faithful_of_wellFormed val h.2.1 hre.2.1, faithful_entries entries h.2.2 hre.2.2⟩

theorem faithful_elems : ∀ elems : List JsonObject,
    JsonObject.WellFormedElems lf elems → JsonObject.ReprintableElems lf elems →
      JsonObject.FaithfulElems lf elems
  | [], _, _ => trivial
  | val :: elems, h, hre =>
    ⟨faithful_of_wellFormed val h.1 hre.1, faithful_elems elems h.2 hre.2⟩

end

/-- A value that was parsed from any text, with no marker in it, is printed so that it is parsed
again. -/
theorem jsonTokenerParse_again {source : List Byte} {v : JsonObject}
    (h : jsonTokenerParse lf source = .value v) (hre : v.Reprintable lf) (rest : List Byte) :
    jsonTokenerParse lf (v.toJsonString ++ 0 :: rest) = .value v := by
  have hwell : (jsonTokenerParse lf source).WellFormed lf := parsed_wellFormed lf source
  rw [h] at hwell
  exact jsonTokenerParse_of_parses
    (parses_toJsonString lf v (faithful_of_wellFormed v hwell hre)) rest

/-- What is lost is how the text was written. -/
theorem jsonTokenerParse_again_comma :
    jsonTokenerParse some (lit "['a',]" ++ [0]) = .value (.array [.string (lit "a")]) ∧
      jsonTokenerParse some (lit "[ \"a\" ]" ++ [0]) = .value (.array [.string (lit "a")]) := by
  have hparse : jsonTokenerParse some (lit "['a',]" ++ [0]) =
      .value (.array [.string (lit "a")]) := by rfl
  exact ⟨hparse, jsonTokenerParse_again hparse ⟨(by decide : (92 : Byte) ∉ lit "a"), trivial⟩ []⟩

end PamSmsauth
