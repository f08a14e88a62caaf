import PamSmsauth.Literals

/-!
# What the parser makes of a printed value

`json_tokener_parse` gives back what `json_object_to_json_string` has printed
(`jsonTokenerParse_toJsonString`), at any depth and with all white space that the printer uses. In
an array or an object the parser calls itself for each value, which returns at the comma or the
bracket behind it.
-/

namespace PamSmsauth

open CText Tokener

variable (lf : List Byte → Option (List Byte))

/-- The call eats white space, and then goes on in the state `saved`. -/
structure Waits (t : Tokener) (saved : TokenerState) (callers : List Activation)
    (current : JsonObject) (rest : List Byte) : Prop where
  state : t.frame.state = .eatws
  saved : t.frame.savedState = saved
  callers : t.callers = callers
  current : t.frame.current = .obj current
  rest : t.rest = rest

/-! ## Arrays and objects -/

section Containers

variable {t : Tokener} {saved : TokenerState} {callers : List Activation} {current : JsonObject}
  {rest ws text key : List Byte} {c : Byte} {v : JsonObject}

/-- The white space is eaten. -/
theorem Waits.wake (ws : List Byte) (h : Waits t saved callers current (ws ++ c :: rest))
    (hws : ∀ b ∈ ws, isspace b = true) (hc : c ≠ 0) (hsp : isspace c = false) (hcom : c ≠ 47) :
    ∃ t', Steps lf t t' ∧ t'.frame.state = saved ∧ t'.callers = callers ∧
      t'.frame.current = .obj current ∧ t'.frame.objFieldName = t.frame.objFieldName ∧
      t'.rest = c :: rest := by
  obtain ⟨hst, hsv, hcallers, hcurrent, hr⟩ := h
  exact ⟨_, steps_eatws lf ws hst hr hws hc hsp hcom, hsv, hcallers, hcurrent, rfl, rfl⟩

/-- A character that stands between two parts of an array or an object. -/
theorem Waits.char (ws : List Byte) (next : TokenerState)
    (h : Waits t saved callers current (ws ++ c :: rest)) (hws : ∀ b ∈ ws, isspace b = true)
    (hc : c ∈ [44, 58, 93, 125])
    (hiter : ∀ t : Tokener, t.frame.state = saved → iter lf t c =
      .next ((t.eatws next).advance c)) :
    ∃ t', Steps lf t t' ∧ Waits t' next callers current rest := by
  have hplain : ∀ c ∈ [(44 : Byte), 58, 93, 125], c ≠ 0 ∧ isspace c = false ∧ c ≠ 47 := by
    decide +kernel
  obtain ⟨h0, hsp, hcom⟩ := hplain c hc
  obtain ⟨t₁, hrun, hst, hcallers, hcurrent, -, hr⟩ := h.wake lf ws hws h0 hsp hcom
  refine ⟨_, hrun.trans (.head (cycle_next hr h0 (hiter t₁ hst)) .refl), rfl, rfl, hcallers,
    hcurrent, ?_⟩
  show t₁.rest.tail = rest
  rw [hr, List.tail_cons]

/-- A value, for which the parser calls itself; then it goes on in the state `next`. -/
theorem Waits.value (ws : List Byte) (h : Waits t saved callers current (ws ++ (text ++ rest)))
    (hws : ∀ b ∈ ws, isspace b = true) {ws' rest' : List Byte} (hrest : rest = ws' ++ c :: rest')
    (hws' : ∀ b ∈ ws', isspace b = true) (hd : Closes c) (hval : Parses lf text v)
    (hcall : ∀ (t : Tokener) (b : Byte), t.frame.state = saved → b ≠ 93 → iter lf t b = .call t)
    {next : TokenerState} {current' : JsonObject}
    (hresume : ∀ f : Activation, f.state = saved → f.current = .obj current →
      f.objFieldName = t.frame.objFieldName → ∃ f', f.resume (.obj v) = some f' ∧
        f'.state = .eatws ∧ f'.savedState = next ∧ f'.current = .obj current') :
    ∃ t', Steps lf t t' ∧ Waits t' next callers current' (c :: rest') := by
  obtain ⟨x, r, htext, h0, hsp, hcom⟩ := hval.starts
  have h93 : x ≠ 93 := fun heq => hval.first (by rw [htext, heq]; rfl)
  subst htext hrest
  rw [List.cons_append] at h
  obtain ⟨t₁, hwake, hst, hcallers, hcurrent, hname, hr⟩ := h.wake lf ws hws h0 hsp hcom
  have hcalled : cycle lf t₁ = .inr ⟨(x :: r) ++ (ws' ++ c :: rest'), t₁.pb, .init,
      t₁.frame :: callers⟩ := by
    rw [cycle_call hr (hcall t₁ x hst h93), hr, hcallers]
    rfl
  obtain ⟨t₂, t', hrun, hret, hr', hc'⟩ :=
    hval.returns ws' c rest' t₁.pb (t₁.frame :: callers) hws' hd
  obtain ⟨f', hf', hst', hsaved', hcurrent'⟩ := hresume t₁.frame hst hcurrent hname
  have hback : cycle lf t₂ = .inr { t' with frame := f', callers := callers } :=
    hret.trans (ret_obj hc' hf')
  exact ⟨_, hwake.trans (.head hcalled (hrun.trans (.head hback .refl))), hst', hsaved', rfl,
    hcurrent', hr'⟩

theorem isspace_nil : ∀ b ∈ ([] : List Byte), isspace b = true := by simp

theorem isspace_space : ∀ b ∈ [(32 : Byte)], isspace b = true := by decide +kernel

/-- The key of a member, with its colon. -/
theorem Waits.memberKey (h : Waits t .object callers current
      (32 :: 34 :: (jsonEscapeStr key ++ 34 :: 58 :: rest))) (hkey : Printable key) :
    ∃ t', Steps lf t t' ∧ Waits t' .objectValue callers current rest ∧
      t'.frame.objFieldName = key := by
  obtain ⟨t₁, hwake, hst₁, hc₁, hcur₁, -, hr₁⟩ :=
    Waits.wake lf [32] h isspace_space (by decide) (by decide) (by decide)
  -- the opening quote
  have hstart : iter lf t₁ 34 = .next (t₁.mark.goto .objectFieldStart) := by simp [iter, hst₁]
  obtain ⟨t₂, hopen, h₂⟩ : ∃ t₂, Steps lf t₁ t₂ ∧
      Quoting t₂ .objectField callers (.obj current) []
        (jsonEscapeStr key ++ 34 :: 58 :: rest) := by
    have hrest : (t₁.mark.goto .objectFieldStart).rest =
        34 :: (jsonEscapeStr key ++ 34 :: 58 :: rest) := hr₁
    refine ⟨_, .head (cycle_next hr₁ (by decide) hstart)
      (.head (cycle_next hrest (by decide) rfl) .refl), rfl, rfl, hc₁, hcur₁, rfl, ?_⟩
    show t₁.rest.tail = _
    rw [hr₁, List.tail_cons]
  -- the characters and the closing quote
  obtain ⟨t₃, hchars, h₃⟩ := h₂.chars lf (.inr rfl) hkey
  rw [List.nil_append] at h₃
  have hclose : ∃ t₄, iter lf t₃ 34 = .next t₄ ∧
      Waits t₄ .objectFieldEnd callers current (58 :: rest) ∧ t₄.frame.objFieldName = key := by
    have htail : t₃.rest.tail = 58 :: rest := by rw [h₃.rest, List.tail_cons]
    have hname : cstr (t₃.pb ++ t₃.frame.seen) = key := by
      rw [h₃.text, cstr_of_nulFree hkey.1]
    rw [iter, h₃.state]
    refine ⟨_, if_pos h₃.quote.symm, ⟨rfl, rfl, h₃.callers, h₃.current, htail⟩, hname⟩
  obtain ⟨t₄, hiter, h₄, hname⟩ := hclose
  -- the colon
  obtain ⟨t₅, hwake₅, hst₅, hc₅, hcur₅, hname₅, hr₅⟩ :=
    Waits.wake lf [] h₄ isspace_nil (by decide) (by decide) (by decide)
  have hcolon : iter lf t₅ 58 = .next ((t₅.eatws .objectValue).advance 58) := by simp [iter, hst₅]
  refine ⟨_, hwake.trans (hopen.trans (hchars.trans (.head (cycle_next h₃.rest (by decide) hiter)
    (hwake₅.trans (.head (cycle_next hr₅ (by decide) hcolon) .refl))))),
    ⟨rfl, rfl, hc₅, hcur₅, ?_⟩, hname₅.trans hname⟩
  show t₅.rest.tail = rest
  rw [hr₅, List.tail_cons]

/-- A member of an object, up to the character behind its value. -/
theorem Waits.member {entries : List (List Byte × JsonObject)} {ws' rest' : List Byte}
    (h : Waits t .object callers (.object entries)
      (32 :: 34 :: (jsonEscapeStr key ++ 34 :: 58 :: 32 :: (text ++ rest))))
    (hkey : Printable key) (hval : Parses lf text v) (hnew : ∀ e ∈ entries, e.1 ≠ key)
    (hrest : rest = ws' ++ c :: rest') (hws' : ∀ b ∈ ws', isspace b = true) (hd : Closes c) :
    ∃ t', Steps lf t t' ∧
      Waits t' .objectSep callers (.object (entries ++ [(key, v)])) (c :: rest') := by
  obtain ⟨t₁, hrun₁, h₁, hname₁⟩ := h.memberKey lf hkey
  have hresume : ∀ f : Activation, f.state = .objectValue → f.current = .obj (.object entries) →
      f.objFieldName = t₁.frame.objFieldName → ∃ f', f.resume (.obj v) = some f' ∧
        f'.state = .eatws ∧ f'.savedState = .objectSep ∧
        f'.current = .obj (.object (entries ++ [(key, v)])) := by
    intro f hst hcur hname
    refine ⟨{ f with
      state := .eatws, savedState := .objectSep,
      current := .obj (.object (entries ++ [(key, v)])), objFieldName := [] }, ?_, rfl, rfl, rfl⟩
    simp only [Activation.resume, hst, hcur, hname, hname₁, JsonPtr.objectAdd,
      JsonObject.objectAdd, cstr_of_nulFree hkey.1, JsonObject.addEntry_of_not_mem hnew,
      Option.map_some]
  obtain ⟨t', hrun, h'⟩ := Waits.value lf [32] h₁ isspace_space hrest hws' hd hval
    (fun t b hst _ => by simp [iter, hst]) hresume
  exact ⟨t', hrun₁.trans hrun, h'⟩

/-- An element of an array, up to the character behind it. -/
theorem Waits.element {elems : List JsonObject} {ws' rest' : List Byte}
    (h : Waits t .array callers (.array elems) (32 :: (text ++ rest))) (hval : Parses lf text v)
    (hrest : rest = ws' ++ c :: rest') (hws' : ∀ b ∈ ws', isspace b = true) (hd : Closes c) :
    ∃ t', Steps lf t t' ∧ Waits t' .arraySep callers (.array (elems ++ [v])) (c :: rest') := by
  have hresume : ∀ f : Activation, f.state = .array → f.current = .obj (.array elems) →
      f.objFieldName = t.frame.objFieldName → ∃ f', f.resume (.obj v) = some f' ∧
        f'.state = .eatws ∧ f'.savedState = .arraySep ∧
        f'.current = .obj (.array (elems ++ [v])) := by
    intro f hst hcur _
    refine ⟨{ f with
      state := .eatws, savedState := .arraySep, current := .obj (.array (elems ++ [v])) }, ?_,
      rfl, rfl, rfl⟩
    simp only [Activation.resume, hst, hcur, JsonPtr.arrayAdd, JsonObject.arrayAdd]
  exact Waits.value lf [32] h isspace_space hrest hws' hd hval
    (fun t b hst h93 => by simp [iter, hst, h93]) hresume

theorem entriesToJsonString_succ (i : Nat) (entries : List (List Byte × JsonObject)) :
    JsonObject.entriesToJsonString (i + 1) entries = JsonObject.entriesToJsonString 1 entries := by
  induction entries generalizing i with
  | nil => rfl
  | cons e entries ih =>
    obtain ⟨key, val⟩ := e
    rw [JsonObject.entriesToJsonString, JsonObject.entriesToJsonString, ih (i + 1), ih 1]
    rfl

theorem elemsToJsonString_succ (i : Nat) (elems : List JsonObject) :
    JsonObject.elemsToJsonString (i + 1) elems = JsonObject.elemsToJsonString 1 elems := by
  induction elems generalizing i with
  | nil => rfl
  | cons val elems ih =>
    rw [JsonObject.elemsToJsonString, JsonObject.elemsToJsonString, ih (i + 1), ih 1]
    rfl

/-- The members of an object, and its closing brace. -/
theorem Waits.entries {entries done : List (List Byte × JsonObject)} (hne : entries ≠ [])
    (h : Waits t .object callers (.object done)
      (JsonObject.entriesToJsonString 0 entries ++ 32 :: 125 :: rest))
    (hparses : ∀ e ∈ entries, Printable e.1 ∧ Parses lf e.2.toJsonString e.2)
    (hnodup : ((done ++ entries).map Prod.fst).Nodup) :
    ∃ t', Steps lf t t' ∧ Waits t' .finish callers (.object (done ++ entries)) rest := by
  induction entries generalizing t done with
  | nil => exact absurd rfl hne
  | cons e entries ih =>
    obtain ⟨key, val⟩ := e
    obtain ⟨hkey, hval⟩ := hparses (key, val) List.mem_cons_self
    have hnew : ∀ e ∈ done, e.1 ≠ key := by
      rintro e he rfl
      rw [List.map_append, List.map_cons, List.nodup_append] at hnodup
      exact hnodup.2.2 e.1 (List.mem_map_of_mem he) e.1 List.mem_cons_self rfl
    have htext : JsonObject.entriesToJsonString 0 ((key, val) :: entries) ++ 32 :: 125 :: rest =
        32 :: 34 :: (jsonEscapeStr key ++ 34 :: 58 :: 32 :: (val.toJsonString ++
          (JsonObject.entriesToJsonString 1 entries ++ 32 :: 125 :: rest))) := by
      simp [JsonObject.entriesToJsonString]
    rw [htext] at h
    cases entries with
    | nil =>
      obtain ⟨t₁, hrun₁, h₁⟩ := h.member lf hkey hval hnew
        (show _ = [32] ++ 125 :: rest from rfl) isspace_space (by decide)
      obtain ⟨t', hrun', h'⟩ := Waits.char lf [] .finish h₁ isspace_nil (by decide)
        fun t hst => by simp [iter, hst]
      exact ⟨t', hrun₁.trans hrun', h'⟩
    | cons e' entries =>
      have hcomma : JsonObject.entriesToJsonString 1 (e' :: entries) ++ 32 :: 125 :: rest =
          [] ++ 44 :: (JsonObject.entriesToJsonString 0 (e' :: entries) ++ 32 :: 125 :: rest) := by
        obtain ⟨key', val'⟩ := e'
        rw [JsonObject.entriesToJsonString, JsonObject.entriesToJsonString,
          entriesToJsonString_succ 1]
        rfl
      obtain ⟨t₁, hrun₁, h₁⟩ := h.member lf hkey hval hnew hcomma isspace_nil (by decide)
      obtain ⟨t₂, hrun₂, h₂⟩ := Waits.char lf [] .object h₁ isspace_nil (by decide)
        fun t hst => by simp [iter, hst]
      have hshift : done ++ (key, val) :: e' :: entries =
          done ++ [(key, val)] ++ e' :: entries := by
        simp
      rw [hshift] at hnodup ⊢
      obtain ⟨t', hrun', h'⟩ := ih (by simp) h₂
        (fun e he => hparses e (List.mem_cons_of_mem _ he)) hnodup
      exact ⟨t', hrun₁.trans (hrun₂.trans hrun'), h'⟩

/-- The elements of an array, and its closing bracket. -/
theorem Waits.elems {elems done : List JsonObject} (hne : elems ≠ [])
    (h : Waits t .array callers (.array done)
      (JsonObject.elemsToJsonString 0 elems ++ 32 :: 93 :: rest))
    (hparses : ∀ v ∈ elems, Parses lf v.toJsonString v) :
    ∃ t', Steps lf t t' ∧ Waits t' .finish callers (.array (done ++ elems)) rest := by
  induction elems generalizing t done with
  | nil => exact absurd rfl hne
  | cons val elems ih =>
    have hval := hparses val List.mem_cons_self
    have htext : JsonObject.elemsToJsonString 0 (val :: elems) ++ 32 :: 93 :: rest =
        32 :: (val.toJsonString ++ (JsonObject.elemsToJsonString 1 elems ++ 32 :: 93 :: rest)) := by
      simp [JsonObject.elemsToJsonString]
    rw [htext] at h
    cases elems with
    | nil =>
      obtain ⟨t₁, hrun₁, h₁⟩ := h.element lf hval (show _ = [32] ++ 93 :: rest from rfl)
        isspace_space (by decide)
      obtain ⟨t', hrun', h'⟩ := Waits.char lf [] .finish h₁ isspace_nil (by decide)
        fun t hst => by simp [iter, hst]
      exact ⟨t', hrun₁.trans hrun', h'⟩
    | cons val' elems =>
      have hcomma : JsonObject.elemsToJsonString 1 (val' :: elems) ++ 32 :: 93 :: rest =
          [] ++ 44 :: (JsonObject.elemsToJsonString 0 (val' :: elems) ++ 32 :: 93 :: rest) := by
        rw [JsonObject.elemsToJsonString, JsonObject.elemsToJsonString, elemsToJsonString_succ 1]
        rfl
      obtain ⟨t₁, hrun₁, h₁⟩ := h.element lf hval hcomma isspace_nil (by decide)
      obtain ⟨t₂, hrun₂, h₂⟩ := Waits.char lf [] .array h₁ isspace_nil (by decide)
        fun t hst => by simp [iter, hst]
      have hshift : done ++ val :: val' :: elems = done ++ [val] ++ val' :: elems := by simp
      rw [hshift]
      obtain ⟨t', hrun', h'⟩ := ih (by simp) h₂ fun v hv => hparses v (List.mem_cons_of_mem _ hv)
      exact ⟨t', hrun₁.trans (hrun₂.trans hrun'), h'⟩

end Containers

/-- A container is parsed once its members are, and its closing bracket. -/
theorem parses_of_waits {open_ : Byte} {body : List Byte} {saved : TokenerState}
    {empty v : JsonObject} (hopen : open_ = 91 ∨ open_ = 123)
    (hstart : ∀ t : Tokener,
      iterStart t open_ = .next (((t.setCurrent empty).eatws saved).advance open_))
    (hbody : ∀ (t : Tokener) (callers : List Activation) (rest : List Byte),
      Waits t saved callers empty (body ++ rest) →
        ∃ t', Steps lf t t' ∧ Waits t' .finish callers v rest) : Parses lf (open_ :: body) v := by
  have hplain : open_ ≠ 0 ∧ isspace open_ = false ∧ open_ ≠ 47 ∧ open_ ≠ 93 := by
    rcases hopen with rfl | rfl <;> decide
  obtain ⟨h0, hsp, hcom, h93⟩ := hplain
  refine ⟨⟨open_, body, rfl, h0, hsp, hcom⟩, by simpa using h93, ?_⟩
  intro ws c rest pb callers hws hd
  have htext : open_ :: body ++ (ws ++ c :: rest) = open_ :: (body ++ (ws ++ c :: rest)) := rfl
  rw [htext]
  obtain ⟨t₁, hopened, h₁⟩ : ∃ t₁,
      Steps lf ⟨open_ :: (body ++ (ws ++ c :: rest)), pb, .init, callers⟩ t₁ ∧
        Waits t₁ saved callers empty (body ++ (ws ++ c :: rest)) :=
    ⟨_, steps_start lf h0 hsp hcom (hstart _), rfl, rfl, rfl, rfl, rfl⟩
  obtain ⟨t', hrun, h⟩ := hbody t₁ callers (ws ++ c :: rest) h₁
  have hfinish : Returns lf t' t'.frame.current (c :: rest) :=
    returns_finish hd hws h.rest h.state h.saved
  rw [h.current] at hfinish
  exact hfinish.of_steps (hopened.trans hrun) h.callers

theorem parses_array {elems : List JsonObject} (h : ∀ v ∈ elems, Parses lf v.toJsonString v) :
    Parses lf (91 :: (JsonObject.elemsToJsonString 0 elems ++ [32, 93])) (.array elems) := by
  refine parses_of_waits lf (.inl rfl) (fun _ => rfl) fun t callers rest hwaits => ?_
  rw [List.append_assoc] at hwaits
  by_cases hne : elems = []
  · subst hne
    exact Waits.char lf [32] .finish hwaits isspace_space (by decide)
      fun t hst => by simp [iter, hst]
  · have hall := hwaits.elems lf hne h
    rwa [List.nil_append] at hall

theorem parses_object {entries : List (List Byte × JsonObject)}
    (h : ∀ e ∈ entries, Printable e.1 ∧ Parses lf e.2.toJsonString e.2)
    (hnodup : (entries.map Prod.fst).Nodup) :
    Parses lf (123 :: (JsonObject.entriesToJsonString 0 entries ++ [32, 125]))
      (.object entries) := by
  refine parses_of_waits lf (.inr rfl) (fun _ => rfl) fun t callers rest hwaits => ?_
  rw [List.append_assoc] at hwaits
  by_cases hne : entries = []
  · subst hne
    have hempty : Waits t .object callers .newObject ([32] ++ 125 :: rest) := hwaits
    obtain ⟨t₁, hwake, hst₁, hc₁, hcur₁, -, hr₁⟩ :=
      hempty.wake lf [32] isspace_space (by decide) (by decide) (by decide)
    -- the closing brace is met where a key could begin
    have hstart : iter lf t₁ 125 = .next (t₁.mark.goto .objectFieldStart) := by simp [iter, hst₁]
    have hrest : (t₁.mark.goto .objectFieldStart).rest = 125 :: rest := hr₁
    refine ⟨_, hwake.trans (.head (cycle_next hr₁ (by decide) hstart)
      (.head (cycle_next hrest (by decide) rfl) .refl)), rfl, rfl, hc₁, hcur₁, ?_⟩
    show t₁.rest.tail = rest
    rw [hr₁, List.tail_cons]
  · have hall := hwaits.entries lf hne h hnodup
    rwa [List.nil_append] at hall

/-! ## All values -/

mutual

/-- The parser gives back what was printed. -/
theorem parses_toJsonString : ∀ v : JsonObject, v.Faithful lf → Parses lf v.toJsonString v
  | .null, _ => parses_null lf
  | .boolean b, _ => parses_boolean lf b
  | .double _, h => parses_double lf h
  | .int _, h => parses_int lf h
  | .string _, h => parses_string lf h
  | .array elems, h => parses_array lf (parses_elems elems h)
  | .object entries, h => parses_object lf (parses_entries entries h.2) h.1

theorem parses_entries : ∀ entries : List (List Byte × JsonObject),
    JsonObject.FaithfulEntries lf entries →
      ∀ e ∈ entries, Printable e.1 ∧ Parses lf e.2.toJsonString e.2
  | [], _ => by simp
  | (key, val) :: entries, h =>
    List.forall_mem_cons.mpr
      ⟨⟨h.1, parses_toJsonString val h.2.1⟩, parses_entries entries h.2.2⟩

theorem parses_elems : ∀ elems : List JsonObject, JsonObject.FaithfulElems lf elems →
    ∀ v ∈ elems, Parses lf v.toJsonString v
  | [], _ => by simp
  | val :: elems, h =>
    List.forall_mem_cons.mpr ⟨parses_toJsonString val h.1, parses_elems elems h.2⟩

end

/-- What `json_object_to_json_string` prints for a value, `json_tokener_parse` reads as this value,
whatever stands behind the NUL. -/
theorem jsonTokenerParse_toJsonString {v : JsonObject} (h : v.Faithful lf) (rest : List Byte) :
    jsonTokenerParse lf (v.toJsonString ++ 0 :: rest) = .value v :=
  jsonTokenerParse_of_parses (parses_toJsonString lf v h) rest

/-- With white space and escapes at several depths. -/
theorem jsonTokenerParse_toJsonString_nested :
    let v := JsonObject.object [(lit "a \"key\"", .array [.null, .int (-5),
      .double (lit "1.500000"),
      .string (lit "two\nlines")]), (lit "b", .object [(lit "c", .boolean true)])]
    v.Faithful some ∧ jsonTokenerParse some (v.toJsonString ++ [0]) = .value v := by
  have hdouble : DoubleText some (lit "1.500000") :=
    ⟨rfl, 49, lit ".500000", rfl, .inl (by decide), by decide +kernel, 46, by decide, .inl rfl⟩
  have hprintable : ∀ s ∈ [lit "a \"key\"", lit "two\nlines", lit "b", lit "c"], Printable s := by
    simp only [Printable]
    decide
  have h : JsonObject.Faithful some (.object [(lit "a \"key\"", .array [.null, .int (-5),
      .double (lit "1.500000"), .string (lit "two\nlines")]),
      (lit "b", .object [(lit "c", .boolean true)])]) := by
    refine ⟨by decide, hprintable _ (by simp), ⟨trivial, (by decide : InInt (-5)), hdouble,
      hprintable _ (by simp), trivial⟩, hprintable _ (by simp), ?_, trivial⟩
    exact ⟨by decide, hprintable _ (by simp), trivial, trivial⟩
  exact ⟨h, jsonTokenerParse_toJsonString some h []⟩

end PamSmsauth
