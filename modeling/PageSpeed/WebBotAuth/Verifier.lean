import PageSpeed.WebBotAuth.HeaderParser
import PageSpeed.WebBotAuth.KeyDirectory

/-!
The verifier of `kernel/webbotauth/verifier.cc`, and what a signature that it accepts twice
says about the two requests.
-/

namespace PageSpeed.WebBotAuth

open Checks

structure RequestView extends BaseRequestView where
  signatureInput : GoogleString
  signature : GoogleString
  directoryHost : GoogleString

inductive Verdict where
  | human
  | signedAgent
  | verifiedBot
  | unknown
  deriving DecidableEq

structure VerifyResult where
  verdict : Verdict := .unknown
  keyid : GoogleString := []
  botName : GoogleString := []
  reason : String
  deriving DecidableEq

abbrev VerifiedBotRegistry := GoogleString → Option GoogleString

def classifyVerified (keyid : GoogleString) (registry : VerifiedBotRegistry) : Verdict × GoogleString :=
  match registry keyid with
  | some botName => (.verifiedBot, botName)
  | none => (.signedAgent, [])

def kMaxClockSkewSec : Int64 := 300

def kMaxSignatureAgeSec : Int64 := 3600

def timestampsFresh (sig : SignatureRequest) (now : Int64) : Bool :=
  (sig.hasCreated || sig.hasExpires) &&
    !(sig.hasCreated && now + kMaxClockSkewSec < sig.created) &&
    !(sig.hasCreated && !sig.hasExpires && kMaxSignatureAgeSec < now - sig.created) &&
    !(sig.hasExpires && sig.expires + kMaxClockSkewSec < now)

def carriesSignatureAgent (req : BaseRequestView) : Bool :=
  req.fields.any fun field => stringCaseEqual field.name (ascii "signature-agent")

def parsedSignature (text : Int64Text) (req : RequestView) : Except VerifyResult SignatureRequest :=
  match parseSignatureHeaders text req.signatureInput req.signature with
  | .ok sig => .ok sig
  | .error (.noWebBotAuthSignature _) => .error { verdict := .human, reason := "no-web-bot-auth-signature" }
  | .error (.malformed reason) => .error { reason }

def lookedUpKey (provider : KeyDirectoryProvider) (host keyid : GoogleString) (now : Int64) :
    Except VerifyResult GoogleString :=
  match provider host keyid now with
  | .found key => .ok key
  | .notFound => .error { keyid, reason := "key-not-found" }
  | .error => .error { keyid, reason := "key-lookup-error" }

section

variable (text : Int64Text) (ed25519Verify : GoogleString → GoogleString → GoogleString → Int32)

def verifiedSignature (req : RequestView) (provider : Option KeyDirectoryProvider) (now : Int64) :
    Except VerifyResult SignatureRequest := do
  refuse (req.signatureInput.isEmpty && req.signature.isEmpty) { verdict := .human, reason := "no-signature" }
  refuse (req.signatureInput.isEmpty || req.signature.isEmpty) { reason := "partial-signature-headers" }
  let sig ← parsedSignature text req
  refuse (carriesSignatureAgent req.toBaseRequestView && !sig.covered.contains (ascii "signature-agent"))
    { keyid := sig.keyid, reason := "signature-agent-not-covered" }
  refuse (!timestampsFresh sig now) { keyid := sig.keyid, reason := "stale-or-future-signature" }
  let provider ← orRefuse provider { reason := "no-provider" }
  let key ← lookedUpKey provider req.directoryHost sig.keyid now
  refuse (key.length ≠ 32) { keyid := sig.keyid, reason := "bad-key-length" }
  let base ← orRefuse (buildSignatureBase req.toBaseRequestView sig.covered sig.signatureParamsValue)
    { keyid := sig.keyid, reason := "missing-covered-field" }
  refuse (sig.signatureBytes.length ≠ 64) { keyid := sig.keyid, reason := "signature-not-64-bytes" }
  refuse (ed25519Verify sig.signatureBytes base key ≠ 1) { keyid := sig.keyid, reason := "signature-verify-failed" }
  return sig

def verifyAndClassify (req : RequestView) (provider : Option KeyDirectoryProvider) (registry : VerifiedBotRegistry)
    (now : Int64) : VerifyResult :=
  match verifiedSignature text ed25519Verify req provider now with
  | .error result => result
  | .ok sig =>
    { verdict := (classifyVerified sig.keyid registry).1
      keyid := sig.keyid
      botName := (classifyVerified sig.keyid registry).2
      reason := "verified" }

end

def VerifyResult.isVerified (r : VerifyResult) : Bool := r.verdict = .signedAgent || r.verdict = .verifiedBot

theorem fails_parsedSignature (text : Int64Text) (req : RequestView) :
    Fails (fun r => r.isVerified = false) (parsedSignature text req) := by
  unfold parsedSignature
  split
  · exact fails_ok _
  · exact fails_error rfl
  · exact fails_error rfl

theorem fails_lookedUpKey (provider : KeyDirectoryProvider) (host keyid : GoogleString) (now : Int64) :
    Fails (fun r => r.isVerified = false) (lookedUpKey provider host keyid now) := by
  unfold lookedUpKey
  split
  · exact fails_ok _
  · exact fails_error rfl
  · exact fails_error rfl

theorem parsed_of_parsedSignature {text : Int64Text} {req : RequestView} {sig : SignatureRequest}
    (h : parsedSignature text req = .ok sig) :
    parseSignatureHeaders text req.signatureInput req.signature = .ok sig := by
  unfold parsedSignature at h
  split at h
  · rename_i hparsed
    injection h with h
    rw [hparsed, h]
  · cases h
  · cases h

theorem found_of_lookedUpKey {provider : KeyDirectoryProvider} {host keyid : GoogleString} {now : Int64}
    {key : GoogleString} (h : lookedUpKey provider host keyid now = .ok key) :
    provider host keyid now = .found key := by
  unfold lookedUpKey at h
  split at h
  · injection h with h
    rwa [← h]
  · cases h
  · cases h

theorem not_verified_of_error (text : Int64Text) (ed25519Verify : GoogleString → GoogleString → GoogleString → Int32)
    (req : RequestView) (provider : Option KeyDirectoryProvider) (now : Int64) :
    Fails (fun r => r.isVerified = false) (verifiedSignature text ed25519Verify req provider now) := by
  let verified : VerifyResult → Prop := fun r => r.isVerified = false
  have hrefuse : ∀ (bad : Bool) (r : VerifyResult), verified r → Fails verified (refuse bad r) :=
    fun _ _ => fails_refuse
  apply Fails.bind (hrefuse _ _ rfl)
  intro _
  apply Fails.bind (hrefuse _ _ rfl)
  intro _
  apply Fails.bind (fails_parsedSignature text req)
  intro sig
  apply Fails.bind (hrefuse _ _ rfl)
  intro _
  apply Fails.bind (hrefuse _ _ rfl)
  intro _
  apply Fails.bind (fails_orRefuse (P := verified) rfl)
  intro lookup
  apply Fails.bind (fails_lookedUpKey lookup req.directoryHost sig.keyid now)
  intro key
  apply Fails.bind (hrefuse _ _ rfl)
  intro _
  apply Fails.bind (fails_orRefuse (P := verified) rfl)
  intro base
  apply Fails.bind (hrefuse _ _ rfl)
  intro _
  apply Fails.bind (hrefuse _ _ rfl)
  intro _
  exact fails_ok sig

structure Accepted (text : Int64Text) (ed25519Verify : GoogleString → GoogleString → GoogleString → Int32)
    (req : RequestView) (provider : Option KeyDirectoryProvider) (now : Int64) (sig : SignatureRequest) : Prop where
  parsed : parseSignatureHeaders text req.signatureInput req.signature = .ok sig
  agentCovered : carriesSignatureAgent req.toBaseRequestView = true → ascii "signature-agent" ∈ sig.covered
  fresh : timestampsFresh sig now = true
  signed : ∃ lookup key base, provider = some lookup ∧ lookup req.directoryHost sig.keyid now = .found key ∧
    buildSignatureBase req.toBaseRequestView sig.covered sig.signatureParamsValue = some base ∧
    ed25519Verify sig.signatureBytes base key = 1

theorem accepted_of_verified {text : Int64Text} {ed25519Verify : GoogleString → GoogleString → GoogleString → Int32}
    {req : RequestView} {provider : Option KeyDirectoryProvider} {registry : VerifiedBotRegistry} {now : Int64}
    (h : (verifyAndClassify text ed25519Verify req provider registry now).isVerified = true) :
    ∃ sig, Accepted text ed25519Verify req provider now sig := by
  unfold verifyAndClassify at h
  split at h
  · rename_i result hresult
    rw [not_verified_of_error text ed25519Verify req provider now result hresult] at h
    cases h
  · rename_i sig hsig
    obtain ⟨_, _, hsig⟩ := of_bind_eq_ok hsig
    obtain ⟨_, _, hsig⟩ := of_bind_eq_ok hsig
    obtain ⟨sig', hparsed, hsig⟩ := of_bind_eq_ok hsig
    obtain ⟨_, hagent, hsig⟩ := of_bind_eq_ok hsig
    obtain ⟨_, hfresh, hsig⟩ := of_bind_eq_ok hsig
    obtain ⟨lookup, hlookup, hsig⟩ := of_bind_eq_ok hsig
    obtain ⟨key, hkey, hsig⟩ := of_bind_eq_ok hsig
    obtain ⟨_, _, hsig⟩ := of_bind_eq_ok hsig
    obtain ⟨base, hbase, hsig⟩ := of_bind_eq_ok hsig
    obtain ⟨_, _, hsig⟩ := of_bind_eq_ok hsig
    obtain ⟨_, hverify, hsig⟩ := of_bind_eq_ok hsig
    injection hsig with hsig
    rw [hsig] at hparsed hagent hfresh hkey hbase hverify
    have hagent := not_of_refuse hagent
    have hfresh := not_of_refuse hfresh
    have hverify := not_of_refuse hverify
    simp only [Bool.not_eq_false', Bool.and_eq_false_iff] at hagent hfresh
    simp only [decide_eq_false_iff_not, not_not] at hverify
    have hcovered : carriesSignatureAgent req.toBaseRequestView = true → ascii "signature-agent" ∈ sig.covered := by
      intro hcarries
      rw [hcarries] at hagent
      simpa using hagent
    exact ⟨sig, parsed_of_parsedSignature hparsed, hcovered, hfresh, lookup, key, base, some_of_orRefuse hlookup,
      found_of_lookedUpKey hkey, some_of_orRefuse hbase, hverify⟩

/-- A signature binds the request: two requests that it is accepted on agree on the authority
and on every covered component. -/
theorem verified_requests_agree (text : Int64Text)
    (ed25519Verify : GoogleString → GoogleString → GoogleString → Int32)
    (hone : ∀ signature key message message', ed25519Verify signature message key = 1 →
      ed25519Verify signature message' key = 1 → message = message')
    (req req' : RequestView) (hinput : req'.signatureInput = req.signatureInput)
    (hsignature : req'.signature = req.signature) (hfree : NewlineFree req.toBaseRequestView)
    (hfree' : NewlineFree req'.toBaseRequestView) (provider provider' : Option KeyDirectoryProvider)
    (registry registry' : VerifiedBotRegistry) (now now' : Int64)
    (hkey : ∀ sig, parseSignatureHeaders text req.signatureInput req.signature = .ok sig →
      ∀ lookup ∈ provider, ∀ lookup' ∈ provider', ∀ key key',
        lookup req.directoryHost sig.keyid now = .found key →
        lookup' req'.directoryHost sig.keyid now' = .found key' → key = key')
    (h : (verifyAndClassify text ed25519Verify req provider registry now).isVerified = true)
    (h' : (verifyAndClassify text ed25519Verify req' provider' registry' now').isVerified = true) :
    ∃ sig, parseSignatureHeaders text req.signatureInput req.signature = .ok sig ∧
      req.authority = req'.authority ∧
      (∀ comp ∈ sig.covered, ∃ value, canonicalValue req.toBaseRequestView comp = some value ∧
        canonicalValue req'.toBaseRequestView comp = some value) ∧
      ascii "@authority" ∈ sig.covered ∧
      (carriesSignatureAgent req.toBaseRequestView = true ∨ carriesSignatureAgent req'.toBaseRequestView = true →
        ascii "signature-agent" ∈ sig.covered) := by
  obtain ⟨sig, hsig⟩ := accepted_of_verified h
  obtain ⟨sig', hsig'⟩ := accepted_of_verified h'
  have hparsed := hsig'.parsed
  rw [hinput, hsignature, hsig.parsed] at hparsed
  injection hparsed with heq
  rw [← heq] at hsig'
  obtain ⟨lookup, key, base, hlookup, hfound, hbase, hverify⟩ := hsig.signed
  obtain ⟨lookup', key', base', hlookup', hfound', hbase', hverify'⟩ := hsig'.signed
  have hsame := hkey sig hsig.parsed lookup hlookup lookup' hlookup' key key' hfound hfound'
  rw [← hsame] at hverify'
  rw [← hone _ _ _ _ hverify hverify'] at hbase'
  have hagree := buildSignatureBase_injective hfree hfree' hbase hbase'
  have hauthority := authority_covered hsig.parsed
  obtain ⟨value, hvalue, hvalue'⟩ := hagree _ hauthority
  refine ⟨sig, hsig.parsed, ?_, hagree, hauthority, ?_⟩
  · exact Option.some.inj (hvalue.trans hvalue'.symm)
  · rintro (hcarries | hcarries)
    · exact hsig.agentCovered hcarries
    · exact hsig'.agentCovered hcarries

def agentParams : String :=
  "(\"@authority\" \"signature-agent\");created=1700000000;keyid=\"k\";alg=\"ed25519\";tag=\"web-bot-auth\""

def agentBase : GoogleString :=
  ascii "\"@authority\": example.com\n\"signature-agent\": \"https://bot.example\"\n\"@signature-params\": " ++
    ascii agentParams

def agentSignature : GoogleString :=
  ascii "UNvTi4IMNbL/MaNMIzgUN+sVDh0JCDTTb6fSkzJ/OtU32E7z8lUaQJYhxIAJsbyxJ2ZrJrOcc+PCwN03FDiLAw=="

def agentKey : GoogleString := ascii "11qYAYKxCrfVS/7TyWQHOg7hcvPapiMlrwIaaPcHURo="

def agentVerify (signature message key : GoogleString) : Int32 :=
  if some signature = base64Decode agentSignature ∧ message = agentBase ∧ some key = base64Decode agentKey then 1
  else 0

def agentRequest (method path agent : String) : RequestView where
  method := ascii method
  authority := ascii "example.com"
  path := ascii path
  fields := [⟨ascii "Signature-Agent", ascii agent⟩]
  signatureInput := ascii "sig1=" ++ ascii agentParams
  signature := ascii "sig1=:" ++ agentSignature ++ ascii ":"
  directoryHost := ascii "bot.example"

def agentProvider : KeyDirectoryProvider := fun _ keyid _ =>
  if keyid = ascii "k" then ((base64Decode agentKey).map KeyLookupResult.found).getD .error else .notFound

def agentGet : RequestView := agentRequest "GET" "/" "\"https://bot.example\""

def agentPost : RequestView := agentRequest "POST" "/login" " \"https://bot.example\""

theorem verified_requests_agree_agent :
    ∃ sig, parseSignatureHeaders Decimal.text agentGet.signatureInput agentGet.signature = .ok sig ∧
      agentGet.authority = agentPost.authority ∧
      (∀ comp ∈ sig.covered, ∃ value, canonicalValue agentGet.toBaseRequestView comp = some value ∧
        canonicalValue agentPost.toBaseRequestView comp = some value) ∧
      ascii "@authority" ∈ sig.covered ∧
      (carriesSignatureAgent agentGet.toBaseRequestView = true ∨
        carriesSignatureAgent agentPost.toBaseRequestView = true → ascii "signature-agent" ∈ sig.covered) := by
  have hone : ∀ signature key message message', agentVerify signature message key = 1 →
      agentVerify signature message' key = 1 → message = message' := by
    intro signature key message message' h h'
    unfold agentVerify at h h'
    split_ifs at h h' with hm hm'
    · rw [hm.2.1, hm'.2.1]
    all_goals contradiction
  have hget : NewlineFree agentGet.toBaseRequestView := by constructor <;> decide
  have hpost : NewlineFree agentPost.toBaseRequestView := by constructor <;> decide
  apply verified_requests_agree Decimal.text agentVerify hone agentGet agentPost rfl rfl hget hpost
    (some agentProvider) (some agentProvider) (fun _ => none) (fun _ => none) 1700000100 1700000200
  · intro sig _ lookup hlookup lookup' hlookup' key key' hkey hkey'
    cases hlookup
    cases hlookup'
    rw [agentProvider] at hkey hkey'
    rw [hkey] at hkey'
    injection hkey'
  all_goals
    unfold agentVerify agentBase agentSignature agentProvider agentKey
    simp only [agentGet, agentPost, agentRequest, agentParams, agentSignature, ascii_eq_textBytes]
    decide +kernel

end PageSpeed.WebBotAuth
