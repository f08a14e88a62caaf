import PamSmsauth.Lib.Scanf

/-!
# The user record in the GECOS field (`user.c`, `user.h`)

`userSetInfo` reads `[name;area;number;provider;` from the text after the first `[`. The buffers
are one byte longer than the widths of the format; `cel_number` receives area code and number
through one `snprintf`.
-/

namespace PamSmsauth

open CText

def userCelnumberMaxsize : Nat := 24

/-- `user_t` after a successful `user_set_info`. -/
structure UserInfo where
  name : List Byte
  celNumber : List Byte
  provider : List Byte
  deriving DecidableEq

inductive UserResult where
  | none | infoOk | infoErr | emptyparamsErr | gecosformatErr | nameErr | areacodeErr
  | celnumberErr | providerErr
  deriving DecidableEq, Repr

/-- `P_VAL` and `P_DELIM` of `user.c`. -/
def isUserVal (b : Byte) : Bool := b ≠ 35 && b ≠ 32 && b ≠ 59
def isUserDelim (b : Byte) : Bool := b = 32 || b = 59

/-- `%31[^# ;]%*1[ ;]%9[^# ;]%*1[ ;]%23[^# ;]%*1[ ;]%31[^# ;]%*1[ ;]`. -/
def gecosFormat : List Directive :=
  [.set 31 isUserVal false, .set 1 isUserDelim true, .set 9 isUserVal false,
    .set 1 isUserDelim true, .set 23 isUserVal false, .set 1 isUserDelim true,
    .set 31 isUserVal false, .set 1 isUserDelim true]

/-- `strchr(gecos, '[') + 1`. -/
def afterBracket (gecos : List Byte) : Option (List Byte) :=
  match gecos.dropWhile (· ≠ 91) with
  | [] => .none
  | _ :: rest => some rest

def userSetInfo (gecos : CString) : Except UserResult UserInfo :=
  match afterBracket gecos.bytes with
  | .none => .error .gecosformatErr
  | some rest =>
    match sscanf gecosFormat rest with
    | [userName, areaCode, celNumber, provider] =>
      if !isalpha (userName.headD 0) then .error .nameErr
      else if !isdigit (areaCode.headD 0) then .error .areacodeErr
      else if !isdigit (celNumber.headD 0) then .error .celnumberErr
      else if !isalpha (provider.headD 0) then .error .providerErr
      else if (93 : Byte) ∈ provider then .error .providerErr
      else .ok {
        name := userName
        celNumber := snprintf userCelnumberMaxsize (areaCode ++ celNumber)
        provider := provider }
    | _ => .error .infoErr

theorem afterBracket_suffix {gecos rest : List Byte} (h : afterBracket gecos = some rest) :
    rest <:+ gecos := by
  unfold afterBracket at h
  split at h
  · cases h
  · rename_i b rest' hdrop
    cases h
    have hsuffix : b :: rest <:+ gecos := hdrop ▸ List.dropWhile_suffix _
    exact (List.suffix_cons b rest).trans hsuffix

/-- What the module sends of a user record. -/
structure UserInfo.Sendable (user : UserInfo) : Prop where
  provider_nul : (0 : Byte) ∉ user.provider
  cel_nul : (0 : Byte) ∉ user.celNumber
  provider_length : user.provider.length ≤ 31
  cel_length : user.celNumber.length ≤ 23

theorem userSetInfo_sendable {gecos : CString} {user : UserInfo}
    (h : userSetInfo gecos = .ok user) : user.Sendable := by
  unfold userSetInfo at h
  split at h
  · cases h
  · rename_i rest hrest
    split at h
    · rename_i name area cel provider hscan
      split_ifs at h
      cases h
      have hnul : (0 : Byte) ∉ rest := fun h0 =>
        gecos.nulFree ((afterBracket_suffix hrest).subset h0)
      have hfields : ∀ run ∈ [name, area, cel, provider], (0 : Byte) ∉ run ∧ run.length ≤ 31 := by
        intro run hrun
        rw [← hscan] at hrun
        refine ⟨fun h0 => hnul (mem_of_mem_sscanf hrun 0 h0), length_of_mem_sscanf ?_ hrun⟩
        simp [gecosFormat, Directive.Within]
      obtain ⟨hprovider, hplen⟩ := hfields provider (by simp)
      refine ⟨hprovider, ?_, hplen, ?_⟩
      · intro h0
        rcases List.mem_append.mp (List.mem_of_mem_take h0) with h0 | h0
        · exact (hfields area (by simp)).1 h0
        · exact (hfields cel (by simp)).1 h0
      · exact (List.length_take_le _ _).trans (by decide)
    · cases h

end PamSmsauth
