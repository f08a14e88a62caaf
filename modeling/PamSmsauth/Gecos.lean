import PamSmsauth.User

/-!
# What the GECOS record says and what is stored

The fields of a record are the runs of value bytes between its delimiters, however long
(`gecosField`). `userSetInfo_ok_iff` says in these terms which records `user_set_info` accepts and
what it stores of them: each of the first three fields must fit its width and be followed by a
delimiter, and nothing of the kind is asked of the fourth.

So a documented record is stored as it is (`gecos_round_trip`), while an accepted one may lose the
end of its provider or of its number (`gecos_lossless_iff`).
-/

namespace PamSmsauth

open CText

def userNameMaxsize : Nat := 32
def userProviderMaxsize : Nat := 32

/-- The text from the `n`-th field on. -/
def gecosFrom : Nat → List Byte → List Byte
  | 0, s => s
  | n + 1, s => ((gecosFrom n s).dropWhile isUserVal).drop 1

/-- The `n`-th field, the first one being field 0. -/
def gecosField (n : Nat) (s : List Byte) : List Byte := (gecosFrom n s).takeWhile isUserVal

/-- A delimiter follows the `n`-th field. -/
def gecosClosed (n : Nat) (s : List Byte) : Bool :=
  ((gecosFrom n s).dropWhile isUserVal).head?.any isUserDelim

theorem isUserDelim_of_isUserVal {b : Byte} (h : isUserVal b = true) : isUserDelim b = false := by
  simp only [isUserVal, Bool.and_eq_true, ne_eq, decide_eq_true_eq] at h
  simp [isUserDelim, h]

/-! ## Which records are accepted -/

/-- What `user_set_info` asks of the text after the bracket. -/
structure Acceptable (s : List Byte) : Prop where
  name_length : (gecosField 0 s).length ≤ 31
  name_closed : gecosClosed 0 s = true
  name_first : isalpha ((gecosField 0 s).headD 0) = true
  area_length : (gecosField 1 s).length ≤ 9
  area_closed : gecosClosed 1 s = true
  area_first : isdigit ((gecosField 1 s).headD 0) = true
  number_length : (gecosField 2 s).length ≤ 23
  number_closed : gecosClosed 2 s = true
  number_first : isdigit ((gecosField 2 s).headD 0) = true
  provider_first : isalpha ((gecosField 3 s).headD 0) = true
  provider_bracket : (93 : Byte) ∉ (gecosField 3 s).take 31

/-- What `user_set_info` stores of it. -/
def storedInfo (s : List Byte) : UserInfo where
  name := gecosField 0 s
  celNumber := snprintf userCelnumberMaxsize (gecosField 1 s ++ gecosField 2 s)
  provider := (gecosField 3 s).take 31

/-- Nothing after the last conversion says whether a delimiter was there. -/
theorem sscanf_provider_iff {t d : List Byte} :
    sscanf [.set 31 isUserVal false, .set 1 isUserDelim true] t = [d] ↔
      t.takeWhile isUserVal ≠ [] ∧ d = (t.takeWhile isUserVal).take 31 := by
  rw [sscanf_field (by decide) fun _ => isUserDelim_of_isUserVal]
  split_ifs with hnil hclosed
  · exact iff_of_false (fun h => by cases h) fun h => h.1 hnil
  · rw [List.take_of_length_le hclosed.1, sscanf, List.cons.injEq, eq_self, and_true,
      and_iff_right hnil, eq_comm]
  · rw [List.cons.injEq, eq_self, and_true, and_iff_right hnil, eq_comm]

theorem sscanf_gecosFormat_iff {s a b c d : List Byte} : sscanf gecosFormat s = [a, b, c, d] ↔
    (gecosField 0 s ≠ [] ∧ (gecosField 0 s).length ≤ 31 ∧ gecosClosed 0 s = true) ∧
    (gecosField 1 s ≠ [] ∧ (gecosField 1 s).length ≤ 9 ∧ gecosClosed 1 s = true) ∧
    (gecosField 2 s ≠ [] ∧ (gecosField 2 s).length ≤ 23 ∧ gecosClosed 2 s = true) ∧
    gecosField 3 s ≠ [] ∧ a = gecosField 0 s ∧ b = gecosField 1 s ∧ c = gecosField 2 s ∧
    d = (gecosField 3 s).take 31 := by
  have hdisj : ∀ b, isUserVal b = true → isUserDelim b = false := fun _ => isUserDelim_of_isUserVal
  rw [gecosFormat, sscanf_field_eq_cons_iff (by decide) hdisj,
    sscanf_field_eq_cons_iff (by decide) hdisj, sscanf_field_eq_cons_iff (by decide) hdisj,
    sscanf_provider_iff]
  constructor
  · rintro ⟨h0, ha, h1, hb, h2, hc, h3, hd⟩
    exact ⟨h0, h1, h2, h3, ha, hb, hc, hd⟩
  · rintro ⟨h0, h1, h2, h3, ha, hb, hc, hd⟩
    exact ⟨h0, ha, h1, hb, h2, hc, h3, hd⟩

theorem ne_nil_of_headD {p : Byte → Bool} {f : List Byte} (h0 : p 0 = false)
    (h : p (f.headD 0) = true) : f ≠ [] := by
  rintro rfl
  rw [List.headD_nil, h0] at h
  cases h

theorem userSetInfo_of_acceptable {gecos : CString} {s : List Byte}
    (hs : afterBracket gecos.bytes = some s) (h : Acceptable s) :
    userSetInfo gecos = .ok (storedInfo s) := by
  have halpha : isalpha 0 = false := by decide
  have hdigit : isdigit 0 = false := by decide
  have hscan : sscanf gecosFormat s =
      [gecosField 0 s, gecosField 1 s, gecosField 2 s, (gecosField 3 s).take 31] :=
    sscanf_gecosFormat_iff.mpr
      ⟨⟨ne_nil_of_headD halpha h.name_first, h.name_length, h.name_closed⟩,
        ⟨ne_nil_of_headD hdigit h.area_first, h.area_length, h.area_closed⟩,
        ⟨ne_nil_of_headD hdigit h.number_first, h.number_length, h.number_closed⟩,
        ne_nil_of_headD halpha h.provider_first, rfl, rfl, rfl, rfl⟩
  have hhead : ((gecosField 3 s).take 31).headD 0 = (gecosField 3 s).headD 0 := by
    cases gecosField 3 s <;> rfl
  simp only [userSetInfo, hs, hscan, h.name_first, h.area_first, h.number_first, hhead,
    h.provider_first, h.provider_bracket, Bool.not_true, Bool.false_eq_true, if_false, storedInfo]

theorem acceptable_of_userSetInfo {gecos : CString} {user : UserInfo}
    (h : userSetInfo gecos = .ok user) :
    ∃ s, afterBracket gecos.bytes = some s ∧ Acceptable s ∧ user = storedInfo s := by
  unfold userSetInfo at h
  split at h
  · cases h
  · rename_i s hs
    split at h
    · rename_i name area number provider hscan
      obtain ⟨⟨-, hname, hnamec⟩, ⟨-, harea, hareac⟩, ⟨-, hnumber, hnumberc⟩, -, rfl, rfl, rfl,
        rfl⟩ := sscanf_gecosFormat_iff.mp hscan
      have hhead : ((gecosField 3 s).take 31).headD 0 = (gecosField 3 s).headD 0 := by
        cases gecosField 3 s <;> rfl
      split_ifs at h with h1 h2 h3 h4 h5
      rw [hhead] at h4
      cases h
      exact ⟨s, hs, ⟨hname, hnamec, by simpa using h1, harea, hareac, by simpa using h2, hnumber,
        hnumberc, by simpa using h3, by simpa using h4, h5⟩, rfl⟩
    · cases h

theorem userSetInfo_ok_iff {gecos : CString} {user : UserInfo} : userSetInfo gecos = .ok user ↔
    ∃ s, afterBracket gecos.bytes = some s ∧ Acceptable s ∧ user = storedInfo s := by
  constructor
  · exact acceptable_of_userSetInfo
  · rintro ⟨s, hs, h, rfl⟩
    exact userSetInfo_of_acceptable hs h

/-! ## Records as they are documented -/

/-- Four fields, each followed by a delimiter. -/
structure GecosRecord where
  name : List Byte
  area : List Byte
  number : List Byte
  provider : List Byte
  delim₁ : Byte
  delim₂ : Byte
  delim₃ : Byte
  delim₄ : Byte
  vals : ∀ f ∈ [name, area, number, provider], ∀ b ∈ f, isUserVal b = true
  delims : ∀ d ∈ [delim₁, delim₂, delim₃, delim₄], isUserDelim d = true

namespace GecosRecord

variable (r : GecosRecord) (S : List Byte)

def text : List Byte :=
  r.name ++ r.delim₁ :: (r.area ++ r.delim₂ :: (r.number ++ r.delim₃ ::
    (r.provider ++ [r.delim₄])))

theorem span_field {f : List Byte} {d : Byte} (hf : ∀ b ∈ f, isUserVal b = true)
    (hd : isUserDelim d = true) (S : List Byte) :
    (f ++ d :: S).takeWhile isUserVal = f ∧ (f ++ d :: S).dropWhile isUserVal = d :: S := by
  have hval : ¬ isUserVal d = true := fun h => by
    rw [isUserDelim_of_isUserVal h] at hd
    cases hd
  rw [List.takeWhile_append_of_pos hf, List.dropWhile_append_of_pos hf,
    List.takeWhile_cons_of_neg hval, List.dropWhile_cons_of_neg hval, List.append_nil]
  exact ⟨rfl, rfl⟩

theorem fields : (gecosField 0 (r.text ++ S) = r.name ∧ gecosClosed 0 (r.text ++ S) = true) ∧
    (gecosField 1 (r.text ++ S) = r.area ∧ gecosClosed 1 (r.text ++ S) = true) ∧
    (gecosField 2 (r.text ++ S) = r.number ∧ gecosClosed 2 (r.text ++ S) = true) ∧
    gecosField 3 (r.text ++ S) = r.provider ∧ gecosClosed 3 (r.text ++ S) = true := by
  have hv := r.vals
  have hd := r.delims
  simp only [List.mem_cons, List.not_mem_nil, or_false, forall_eq_or_imp, forall_eq] at hv hd
  have htext : r.text ++ S = r.name ++ r.delim₁ :: (r.area ++ r.delim₂ :: (r.number ++
      r.delim₃ :: (r.provider ++ r.delim₄ :: S))) := by
    simp [text]
  obtain ⟨ht0, hd0⟩ := span_field hv.1 hd.1 (r.area ++ r.delim₂ :: (r.number ++ r.delim₃ ::
    (r.provider ++ r.delim₄ :: S)))
  obtain ⟨ht1, hd1⟩ := span_field hv.2.1 hd.2.1 (r.number ++ r.delim₃ ::
    (r.provider ++ r.delim₄ :: S))
  obtain ⟨ht2, hd2⟩ := span_field hv.2.2.1 hd.2.2.1 (r.provider ++ r.delim₄ :: S)
  obtain ⟨ht3, hd3⟩ := span_field hv.2.2.2 hd.2.2.2 S
  have hfrom1 : gecosFrom 1 (r.text ++ S) =
      r.area ++ r.delim₂ :: (r.number ++ r.delim₃ :: (r.provider ++ r.delim₄ :: S)) := by
    rw [gecosFrom, gecosFrom, htext, hd0]
    rfl
  have hfrom2 : gecosFrom 2 (r.text ++ S) =
      r.number ++ r.delim₃ :: (r.provider ++ r.delim₄ :: S) := by
    rw [gecosFrom, hfrom1, hd1]
    rfl
  have hfrom3 : gecosFrom 3 (r.text ++ S) = r.provider ++ r.delim₄ :: S := by
    rw [gecosFrom, hfrom2, hd2]
    rfl
  refine ⟨⟨?_, ?_⟩, ⟨?_, ?_⟩, ⟨?_, ?_⟩, ?_, ?_⟩
  · rw [gecosField, gecosFrom, htext, ht0]
  · rw [gecosClosed, gecosFrom, htext, hd0]
    exact hd.1
  · rw [gecosField, hfrom1, ht1]
  · rw [gecosClosed, hfrom1, hd1]
    exact hd.2.1
  · rw [gecosField, hfrom2, ht2]
  · rw [gecosClosed, hfrom2, hd2]
    exact hd.2.2.1
  · rw [gecosField, hfrom3, ht3]
  · rw [gecosClosed, hfrom3, hd3]
    exact hd.2.2.2

/-- The bounds of the documentation: each field fits its array, and area code and number theirs
together. -/
structure Documented : Prop where
  name_length : r.name.length ≤ 31
  name_first : r.name.head?.any isalpha = true
  area_length : r.area.length ≤ 9
  area_first : r.area.head?.any isdigit = true
  number_length : r.number.length ≤ 23
  number_first : r.number.head?.any isdigit = true
  provider_length : r.provider.length ≤ 31
  provider_first : r.provider.head?.any isalpha = true
  provider_bracket : (93 : Byte) ∉ r.provider
  cel_length : (r.area ++ r.number).length ≤ 23

theorem headD_of_head? {p : Byte → Bool} {f : List Byte} (h : f.head?.any p = true) :
    p (f.headD 0) = true := by
  cases f with
  | nil => cases h
  | cons b f => exact h

variable {r} {S}

theorem Documented.acceptable (h : r.Documented) (S : List Byte) : Acceptable (r.text ++ S) := by
  obtain ⟨⟨h0, hc0⟩, ⟨h1, hc1⟩, ⟨h2, hc2⟩, h3, -⟩ := r.fields S
  constructor
  · rw [h0]; exact h.name_length
  · exact hc0
  · rw [h0]; exact headD_of_head? h.name_first
  · rw [h1]; exact h.area_length
  · exact hc1
  · rw [h1]; exact headD_of_head? h.area_first
  · rw [h2]; exact h.number_length
  · exact hc2
  · rw [h2]; exact headD_of_head? h.number_first
  · rw [h3]; exact headD_of_head? h.provider_first
  · rw [h3]; exact fun hmem => h.provider_bracket (List.mem_of_mem_take hmem)

theorem Documented.storedInfo (h : r.Documented) (S : List Byte) :
    storedInfo (r.text ++ S) = ⟨r.name, r.area ++ r.number, r.provider⟩ := by
  obtain ⟨⟨h0, -⟩, ⟨h1, -⟩, ⟨h2, -⟩, h3, -⟩ := r.fields S
  have hcel : snprintf userCelnumberMaxsize (r.area ++ r.number) = r.area ++ r.number :=
    List.take_of_length_le h.cel_length
  rw [PamSmsauth.storedInfo, h0, h1, h2, h3, hcel, List.take_of_length_le h.provider_length]

end GecosRecord

theorem afterBracket_append {P s : List Byte} (hP : (91 : Byte) ∉ P) :
    afterBracket (P ++ 91 :: s) = some s := by
  have hne : ∀ b ∈ P, (fun b : Byte => decide (b ≠ 91)) b = true := by
    intro b hb
    simp only [decide_eq_true_eq]
    rintro rfl
    exact hP hb
  rw [afterBracket, List.dropWhile_append_of_pos hne, List.dropWhile_cons_of_neg (by simp)]

theorem gecos_round_trip (gecos : CString) (P S : List Byte) (r : GecosRecord)
    (hP : (91 : Byte) ∉ P) (hr : r.Documented) (hgecos : gecos.bytes = P ++ 91 :: (r.text ++ S)) :
    userSetInfo gecos = .ok ⟨r.name, r.area ++ r.number, r.provider⟩ ∧
      (∃ pad, strncpy r.name userNameMaxsize = r.name ++ 0 :: pad) ∧
      (r.area ++ r.number).length < userCelnumberMaxsize ∧
      ∃ pad, strncpy r.provider userProviderMaxsize = r.provider ++ 0 :: pad := by
  have hafter : afterBracket gecos.bytes = some (r.text ++ S) := by
    rw [hgecos]
    exact afterBracket_append hP
  have hname : (0 : Byte) ∉ r.name := fun h => gecos.nulFree (by simp [hgecos, GecosRecord.text, h])
  have hprovider : (0 : Byte) ∉ r.provider := fun h =>
    gecos.nulFree (by simp [hgecos, GecosRecord.text, h])
  refine ⟨?_, strncpy_eq_append_nul hname (Nat.lt_succ_of_le hr.name_length),
    Nat.lt_succ_of_le hr.cel_length,
    strncpy_eq_append_nul hprovider (Nat.lt_succ_of_le hr.provider_length)⟩
  rw [userSetInfo_of_acceptable hafter (hr.acceptable S), hr.storedInfo S]

/-- The record of the README's example. -/
def pipoRecord : GecosRecord where
  name := lit "pipo"
  area := lit "261"
  number := lit "5010203"
  provider := lit "cti"
  delim₁ := 59
  delim₂ := 59
  delim₃ := 59
  delim₄ := 59
  vals := by decide +kernel
  delims := by decide +kernel

theorem pipoRecord_documented : pipoRecord.Documented where
  name_length := by decide
  name_first := by decide
  area_length := by decide
  area_first := by decide
  number_length := by decide
  number_first := by decide
  provider_length := by decide
  provider_first := by decide
  provider_bracket := by decide
  cel_length := by decide

theorem gecos_round_trip_pipo :
    userSetInfo (.ofLit "[pipo;261;5010203;cti;],,,") =
        .ok ⟨lit "pipo", lit "261" ++ lit "5010203", lit "cti"⟩ ∧
      (∃ pad, strncpy (lit "pipo") userNameMaxsize = lit "pipo" ++ 0 :: pad) ∧
      (lit "261" ++ lit "5010203").length < userCelnumberMaxsize ∧
      ∃ pad, strncpy (lit "cti") userProviderMaxsize = lit "cti" ++ 0 :: pad :=
  gecos_round_trip (.ofLit "[pipo;261;5010203;cti;],,,") [] (lit "],,,") pipoRecord (by decide)
    pipoRecord_documented (by decide)

/-! ## What an accepted record loses -/

/-- The text after the bracket begins with four fields, each followed by a delimiter, and these are
stored whole. -/
def StoredWhole (gecos : CString) (user : UserInfo) : Prop :=
  ∃ (r : GecosRecord) (S : List Byte), afterBracket gecos.bytes = some (r.text ++ S) ∧
    user.name = r.name ∧ user.celNumber = r.area ++ r.number ∧ user.provider = r.provider

/-- The fourth field fits its array and is followed by a delimiter, and the second and third one fit
theirs together. -/
def Storable (s : List Byte) : Prop :=
  (gecosField 3 s).length ≤ 31 ∧ gecosClosed 3 s = true ∧
    (gecosField 1 s ++ gecosField 2 s).length ≤ 23

theorem gecosFrom_of_closed {n : Nat} {s : List Byte} (h : gecosClosed n s = true) :
    ∃ d, isUserDelim d = true ∧ gecosFrom n s = gecosField n s ++ d :: gecosFrom (n + 1) s := by
  unfold gecosClosed at h
  obtain ⟨d, t, hd⟩ : ∃ d t, (gecosFrom n s).dropWhile isUserVal = d :: t := by
    apply List.exists_cons_of_ne_nil
    intro hnil
    rw [hnil] at h
    cases h
  rw [hd] at h
  refine ⟨d, h, ?_⟩
  rw [gecosFrom, hd, List.drop_one, List.tail_cons, ← hd]
  exact List.takeWhile_append_dropWhile.symm

theorem storedWhole_iff {gecos : CString} {s : List Byte}
    (hs : afterBracket gecos.bytes = some s) (h : Acceptable s) :
    StoredWhole gecos (storedInfo s) ↔ Storable s := by
  constructor
  · rintro ⟨r, S, hafter, -, hcel, hprovider⟩
    obtain rfl : s = r.text ++ S := Option.some.inj (hs.symm.trans hafter)
    obtain ⟨-, ⟨h1, -⟩, ⟨h2, -⟩, h3, hc3⟩ := r.fields S
    simp only [storedInfo, h1, h2, h3, snprintf, List.take_eq_self_iff] at hcel hprovider
    exact ⟨by rw [h3]; exact hprovider, hc3, by rw [h1, h2]; exact hcel⟩
  · rintro ⟨hlen, hc3, hcel⟩
    obtain ⟨d₁, hd₁, h0⟩ := gecosFrom_of_closed h.name_closed
    obtain ⟨d₂, hd₂, h1⟩ := gecosFrom_of_closed h.area_closed
    obtain ⟨d₃, hd₃, h2⟩ := gecosFrom_of_closed h.number_closed
    obtain ⟨d₄, hd₄, h3⟩ := gecosFrom_of_closed hc3
    let r : GecosRecord :=
      { name := gecosField 0 s, area := gecosField 1 s, number := gecosField 2 s,
        provider := gecosField 3 s, delim₁ := d₁, delim₂ := d₂, delim₃ := d₃, delim₄ := d₄,
        vals := by
          intro f hf b hb
          simp only [List.mem_cons, List.not_mem_nil, or_false] at hf
          rcases hf with rfl | rfl | rfl | rfl <;> exact List.mem_takeWhile_imp hb
        delims := by simp [hd₁, hd₂, hd₃, hd₄] }
    refine ⟨r, gecosFrom 4 s, ?_, rfl, ?_, List.take_of_length_le hlen⟩
    · rw [hs]
      congr 1
      calc s = gecosFrom 0 s := rfl
        _ = r.text ++ gecosFrom 4 s := by rw [h0, h1, h2, h3]; simp [r, GecosRecord.text]
    · exact List.take_of_length_le hcel

theorem gecos_lossless_iff (gecos : CString) :
    (∀ user, userSetInfo gecos = .ok user → StoredWhole gecos user) ↔
      ∀ s, afterBracket gecos.bytes = some s → Acceptable s → Storable s := by
  constructor
  · intro h s hs hacc
    exact (storedWhole_iff hs hacc).mp (h _ (userSetInfo_of_acceptable hs hacc))
  · intro h user huser
    obtain ⟨s, hs, hacc, rfl⟩ := acceptable_of_userSetInfo huser
    exact (storedWhole_iff hs hacc).mpr (h s hs hacc)

/-- The README's example without its last delimiter, which the documentation says not to forget. -/
theorem acceptable_pipo : Acceptable (lit "pipo;261;5010203;cti") where
  name_length := by decide
  name_closed := by decide
  name_first := by decide
  area_length := by decide
  area_closed := by decide
  area_first := by decide
  number_length := by decide
  number_closed := by decide
  number_first := by decide
  provider_first := by decide
  provider_bracket := by decide

theorem gecos_lossy : ¬ ∀ gecos user, userSetInfo gecos = .ok user → StoredWhole gecos user := by
  intro h
  have hs : afterBracket (CString.ofLit "[pipo;261;5010203;cti").bytes =
      some (lit "pipo;261;5010203;cti") := by decide
  obtain ⟨-, hclosed, -⟩ := (storedWhole_iff hs acceptable_pipo).mp
    (h _ _ (userSetInfo_of_acceptable hs acceptable_pipo))
  exact absurd hclosed (by decide)

end PamSmsauth
