import PageSpeed.Lib.Checks
import PageSpeed.WebBotAuth.SignatureBase

/-!
The profile that `kernel/webbotauth/header_parser.cc` holds the two signature headers to.
-/

namespace PageSpeed.WebBotAuth

open Checks

def kWebBotAuthTag : GoogleString := ascii "web-bot-auth"

def kMaxCoveredComponents : ℕ := 16

def kMaxFieldComponentNameLen : ℕ := 64

structure SignatureRequest where
  label : GoogleString
  covered : List GoogleString
  keyid : GoogleString
  alg : GoogleString
  tag : GoogleString
  created : Int64
  expires : Int64
  hasCreated : Bool
  hasExpires : Bool
  signatureBytes : GoogleString
  signatureParamsValue : GoogleString

inductive ParseFailure where
  | noWebBotAuthSignature (reason : String)
  | malformed (reason : String)

def reject (bad : Bool) (reason : String) : Except ParseFailure Unit := refuse bad (.malformed reason)

def isLowercaseFieldNameChar (c : UInt8) : Bool :=
  (97 ≤ c ∧ c ≤ 122) || isDigit c || (ascii "!#$%&'*+-.^_`|~").contains c

def isSupportedComponent (c : GoogleString) : Bool :=
  c = ascii "@method" || c = ascii "@authority" || c = ascii "@path" ||
    (!c.isEmpty && c.length ≤ kMaxFieldComponentNameLen && c.all isLowercaseFieldNameChar)

def hasWebBotAuthTag (inner : SfvInnerList) : Bool :=
  match inner.params.reverse.find? fun p => p.name = ascii "tag" with
  | some ⟨_, .string v⟩ => v = kWebBotAuthTag
  | _ => false

def coverComponents : List GoogleString → List GoogleString → Except ParseFailure (List GoogleString)
  | [], covered => .ok covered
  | c :: components, covered =>
    if ¬isSupportedComponent c then .error (.malformed "unsupported-component")
    else if c ∈ covered then .error (.malformed "duplicate-covered-component")
    else coverComponents components (covered ++ [c])

structure SignatureParams where
  keyid : GoogleString := []
  alg : GoogleString := []
  tag : GoogleString := []
  created : Int64 := 0
  expires : Int64 := 0
  hasCreated : Bool := false
  hasExpires : Bool := false
  haveKeyid : Bool := false
  haveAlg : Bool := false

def SignatureParams.set (r : SignatureParams) (p : SfvParam) : Except ParseFailure SignatureParams :=
  if p.name = ascii "keyid" then
    match p.value with
    | .string v => .ok { r with keyid := v, haveKeyid := true }
    | _ => .error (.malformed "keyid-not-string")
  else if p.name = ascii "alg" then
    match p.value with
    | .string v => .ok { r with alg := v, haveAlg := true }
    | _ => .error (.malformed "alg-not-string")
  else if p.name = ascii "created" then
    match p.value with
    | .integer v => .ok { r with created := v, hasCreated := true }
    | _ => .error (.malformed "created-not-integer")
  else if p.name = ascii "expires" then
    match p.value with
    | .integer v => .ok { r with expires := v, hasExpires := true }
    | _ => .error (.malformed "expires-not-integer")
  else if p.name = ascii "tag" then
    match p.value with
    | .string v => .ok { r with tag := v }
    | _ => .ok r
  else .ok r

def selectedRequest (text : Int64Text) (selected : SfvDictMember) (signature : GoogleString) :
    Except ParseFailure SignatureRequest := do
  let list := selected.inner
  reject selected.label.isEmpty "empty-label"
  reject list.components.isEmpty "empty-covered-components"
  reject (kMaxCoveredComponents < list.components.length) "too-many-covered-components"
  reject list.anyComponentParams "unsupported-component-params"
  let covered ← coverComponents list.components []
  reject (ascii "@authority" ∉ covered) "authority-not-covered"
  let p ← list.params.foldlM SignatureParams.set {}
  reject (!p.haveKeyid || p.keyid.isEmpty) "missing-keyid"
  reject (!p.haveAlg || p.alg ≠ ascii "ed25519") "alg-not-ed25519"
  let signatureBytes ← orRefuse (parseSignatureBytes signature selected.label) (.malformed "malformed-signature")
  reject (signatureBytes.length ≠ 64) "signature-not-64-bytes"
  return {
    label := selected.label, covered, keyid := p.keyid, alg := p.alg, tag := p.tag,
    created := p.created, expires := p.expires, hasCreated := p.hasCreated, hasExpires := p.hasExpires,
    signatureBytes, signatureParamsValue := serializeSignatureParams text list }

def parseSignatureHeaders (text : Int64Text) (signatureInput signature : GoogleString) :
    Except ParseFailure SignatureRequest := do
  let members ← orRefuse (parseSignatureInputDict signatureInput) (.malformed "malformed-signature-input")
  reject members.isEmpty "malformed-signature-input"
  match members.find? fun m => hasWebBotAuthTag m.inner with
  | none => .error (.noWebBotAuthSignature "no-web-bot-auth-tag")
  | some selected => selectedRequest text selected signature

theorem authority_covered_of_selected {text : Int64Text} {selected : SfvDictMember} {signature : GoogleString}
    {sig : SignatureRequest} (h : selectedRequest text selected signature = .ok sig) :
    ascii "@authority" ∈ sig.covered := by
  obtain ⟨_, _, h⟩ := of_bind_eq_ok h
  obtain ⟨_, _, h⟩ := of_bind_eq_ok h
  obtain ⟨_, _, h⟩ := of_bind_eq_ok h
  obtain ⟨_, _, h⟩ := of_bind_eq_ok h
  obtain ⟨covered, _, h⟩ := of_bind_eq_ok h
  obtain ⟨_, hauthority, h⟩ := of_bind_eq_ok h
  obtain ⟨_, _, h⟩ := of_bind_eq_ok h
  obtain ⟨_, _, h⟩ := of_bind_eq_ok h
  obtain ⟨_, _, h⟩ := of_bind_eq_ok h
  obtain ⟨_, _, h⟩ := of_bind_eq_ok h
  obtain ⟨_, _, h⟩ := of_bind_eq_ok h
  injection h with hsig
  rw [← hsig]
  have hmem := not_of_refuse hauthority
  simp only [decide_eq_false_iff_not, not_not] at hmem
  exact hmem

theorem authority_covered {text : Int64Text} {signatureInput signature : GoogleString} {sig : SignatureRequest}
    (h : parseSignatureHeaders text signatureInput signature = .ok sig) : ascii "@authority" ∈ sig.covered := by
  obtain ⟨members, _, h⟩ := of_bind_eq_ok h
  obtain ⟨_, _, h⟩ := of_bind_eq_ok h
  split at h
  · cases h
  · exact authority_covered_of_selected h

end PageSpeed.WebBotAuth
