import Rehearsal.Proofs.Auth.Footprint
import Rehearsal.Proofs.Text.Base64
import Rehearsal.Proofs.Url.Reference

/-! What the header of basic authentication tells about the credentials. A server reads it as a name
and a password that the first colon separates. A password may hold colons; a name that holds one is
accepted too, and is cut short when it is read: then two different pairs of credentials can have one
header. -/

namespace Rehearsal

theorem required_eq {value given : Value} {field auth : String}
    (h : required value field auth = .ok given) : given = value := by
  cases value with
  | null => cases h
  | _ =>
    simp only [required] at h
    split at h
    · cases h
    · exact (Except.ok.inj h).symm

namespace HttpStrategy

/-- The name and the password that a header value of basic authentication stands for. -/
def readBasic? (header : String) : Option (String × String) := do
  let letters ← "Basic ".toList.isPrefixOf? header.toList
  let bytes ← Base64.decode (String.ofList letters)
  let credentials ← (Utf8.decode bytes).toOption
  let (username, password) ← Url.cut ':' credentials.toList
  return (String.ofList username, String.ofList password)

theorem readBasic?_basicHeader (username password : String) :
    readBasic? (basicHeader username password) =
      (Url.cut ':' (username.toList ++ ':' :: password.toList)).map fun parts =>
        (String.ofList parts.1, String.ofList parts.2) := by
  have hscheme : ∀ letters : String,
      "Basic ".toList.isPrefixOf? ("Basic " ++ letters).toList = some letters.toList := by
    intro letters
    rw [List.isPrefixOf?_eq_some_iff_append_eq, String.toList_append]
  have hjoined : (username ++ ":" ++ password).toList =
      username.toList ++ ':' :: password.toList := by
    simp
  rw [readBasic?, basicHeader, hscheme]
  simp only [Option.bind_eq_bind, Option.bind_some, String.ofList_toList, Base64.decode_encode,
    Utf8.decode_encode, Except.toOption, hjoined]
  cases Url.cut ':' (username.toList ++ ':' :: password.toList) <;> rfl

/-- Credentials are read back from their header as long as the name holds no colon, and only
then. -/
theorem readBasic?_eq_iff {username password : String} :
    readBasic? (basicHeader username password) = some (username, password) ↔
      ':' ∉ username.toList := by
  rw [readBasic?_basicHeader]
  constructor
  · intro hread
    obtain ⟨parts, hcut, hparts⟩ := Option.map_eq_some_iff.mp hread
    obtain ⟨rfl, rfl⟩ := Prod.mk.inj hparts
    rw [String.toList_ofList]
    exact Url.not_mem_of_cut hcut
  · intro hcolon
    rw [Url.cut_append hcolon]
    simp

theorem ofBasic_eq {auth : BasicAuth} {strategy : HttpStrategy}
    (h : ofBasic auth = .ok strategy) : strategy = .basic auth.username auth.password := by
  obtain ⟨username, husername, h⟩ := bind_eq_ok.mp h
  obtain ⟨password, hpassword, h⟩ := bind_eq_ok.mp h
  rw [← required_eq husername, ← required_eq hpassword]
  exact (Except.ok.inj h).symm

theorem ofBasic_authorization {auth : BasicAuth} {strategy : HttpStrategy}
    (h : ofBasic auth = .ok strategy) (request : Request) (service : TokenService) :
    ∃ sent, strategy.authorize request service = (.ok sent, service) ∧
      sent.headers.under "Authorization" = [("Authorization",
        .text (basicHeader auth.username.display auth.password.display))] := by
  obtain rfl := ofBasic_eq h
  have hset : ((basic auth.username auth.password).written .null).last? "Authorization" =
      some ("Authorization", .text (basicHeader auth.username.display auth.password.display)) := by
    rw [written, Headers.last?_singleton, if_pos (Text.sameIgnoringCase_iff.mpr rfl)]
  exact ⟨_, rfl, headers_set request hset⟩

/-- Every name without a colon, with every password that is accepted with it, can be read back from
the one authorization header of a request. With a colon in the name other credentials are read. So
no two pairs of credentials whose names hold no colon have one header. -/
theorem credentials_read_back {auth : BasicAuth} {strategy : HttpStrategy}
    (haccepted : ofBasic auth = .ok strategy) :
    ∃ header,
      (∀ request service, ∃ sent, strategy.authorize request service = (.ok sent, service) ∧
        sent.headers.under "Authorization" = [("Authorization", .text header)]) ∧
      (readBasic? header = some (auth.username.display, auth.password.display) ↔
        ':' ∉ auth.username.display.toList) ∧
      ∀ other theirs, ofBasic other = .ok theirs →
        ':' ∉ auth.username.display.toList → ':' ∉ other.username.display.toList →
        ∀ request service sent, theirs.authorize request service = (.ok sent, service) →
          sent.headers.under "Authorization" = [("Authorization", .text header)] →
          other.username.display = auth.username.display ∧
            other.password.display = auth.password.display := by
  refine ⟨_, ofBasic_authorization haccepted, readBasic?_eq_iff, ?_⟩
  intro other theirs htheirs hcolon hcolon' request service sent hsent hsame
  obtain ⟨_, hsent', hheader⟩ := ofBasic_authorization htheirs request service
  obtain rfl := Except.ok.inj (congrArg Prod.fst (hsent'.symm.trans hsent))
  have hvalue : basicHeader other.username.display other.password.display =
      basicHeader auth.username.display auth.password.display := by
    simpa using hheader.symm.trans hsame
  have hread : readBasic? (basicHeader other.username.display other.password.display) =
      some (other.username.display, other.password.display) := readBasic?_eq_iff.mpr hcolon'
  rw [hvalue, readBasic?_eq_iff.mpr hcolon] at hread
  obtain ⟨husername, hpassword⟩ := Prod.mk.inj (Option.some.inj hread)
  exact ⟨husername.symm, hpassword.symm⟩

/-- A password with a colon, and letters of more than one byte. -/
theorem credentials_read_back_accented :
    let auth : BasicAuth := ⟨.text "zoë", .text "pass:wörd"⟩
    ∃ strategy header, ofBasic auth = .ok strategy ∧
      (∀ request service, ∃ sent, strategy.authorize request service = (.ok sent, service) ∧
        sent.headers.under "Authorization" = [("Authorization", .text header)]) ∧
      readBasic? header = some ("zoë", "pass:wörd") := by
  intro auth
  have haccepted : ofBasic auth = .ok (.basic auth.username auth.password) := by
    have husername : Text.isBlankText "zoë" = false := by decide +kernel
    have hpassword : Text.isBlankText "pass:wörd" = false := by decide +kernel
    simp [ofBasic, required, auth, Value.display, husername, hpassword, ok_bind, pure, Except.pure]
  obtain ⟨header, hsent, hread, -⟩ := credentials_read_back haccepted
  exact ⟨_, header, haccepted, hsent, hread.mpr (by decide)⟩

/-- A name with a colon is accepted, and its header is that of another name. -/
theorem credentials_share_header :
    ∃ one other, ofBasic ⟨.text "a:b", .text "c"⟩ = .ok one ∧
      ofBasic ⟨.text "a", .text "b:c"⟩ = .ok other ∧
      (∀ request service, one.authorize request service = other.authorize request service) ∧
      readBasic? (basicHeader "a:b" "c") = some ("a", "b:c") := by
  have hsame : basicHeader "a:b" "c" = basicHeader "a" "b:c" := rfl
  refine ⟨_, _, rfl, rfl, fun request service => ?_, ?_⟩
  · simp only [authorize, applyTo, Value.display, hsame]
  · rw [hsame]
    exact readBasic?_eq_iff.mpr (by decide)

end HttpStrategy

end Rehearsal
