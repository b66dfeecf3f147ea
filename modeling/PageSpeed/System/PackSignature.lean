import PageSpeed.Base.Ascii
import PageSpeed.Lib.BinarySearch
import PageSpeed.Lib.Unambiguous

/-!
The sidecar and the trust keys of `kernel/packs/signature_format.cc`, and
`pagespeed/system/rule_pack_signature.cc`. The decoding of base64 and Ed25519
are other libraries'.
-/

namespace PageSpeed.RulePack

def kMaxSidecarBytes : ℕ := 1024

def kEd25519PublicKeyBytes : ℕ := 32

def kEd25519SignatureBytes : ℕ := 64

def isKeyIdChar (c : UInt8) : Bool := 97 ≤ c ∧ c ≤ 122 ∨ 48 ≤ c ∧ c ≤ 57 ∨ c = 45

def isValidKeyId (keyId : GoogleString) : Bool :=
  if keyId = [] ∨ 64 < keyId.length then false else keyId.all isKeyIdChar

structure PackSidecar where
  keyId : GoogleString
  signature : GoogleString

structure TrustKey where
  keyId : GoogleString
  publicKey : GoogleString
  valid : isValidKeyId keyId = true
  size : publicKey.length = kEd25519PublicKeyBytes
  deriving DecidableEq

@[ext]
structure PackTrust where
  requireSigned : Bool
  keys : List TrustKey
  sorted : keys.Pairwise fun k k' => k.keyId < k'.keyId
  deriving DecidableEq

inductive SignatureStatus where
  | kVerified | kUnsigned | kUnreadable | kPublisherMismatch | kUnknownKey | kBadSignature
  deriving DecidableEq

structure SidecarState where
  present : Bool := false
  readOk : Bool := false
  text : GoogleString := []
  deriving DecidableEq

def hexDigit (n : UInt8) : UInt8 := if n < 10 then 48 + n else 87 + n

def hexByte (b : UInt8) : GoogleString := [hexDigit (b >>> 4), hexDigit (b &&& 0xF)]

def bytesToHexString (bytes : GoogleString) : GoogleString := bytes.flatMap hexByte

structure SignatureLibraries where
  base64Unescape : GoogleString → Option GoogleString
  ed25519Verify (message signature publicKey : GoogleString) : Bool

def isBase64Char (c : UInt8) : Bool := isAlnum c || c == 43 || c == 47

def decodeExact (lib : SignatureLibraries) (text : GoogleString) (chars pad decodedBytes : ℕ) : Option GoogleString :=
  if text.length ≠ chars + pad then none
  else if (text.take chars).all isBase64Char = false then none
  else if (text.drop chars).all (· == 61) = false then none
  else (lib.base64Unescape text).filter (·.length == decodedBytes)

def kTag : GoogleString := ascii "ed25519 "

def parsePackSidecar (lib : SignatureLibraries) (text : GoogleString) : Option PackSidecar :=
  if kMaxSidecarBytes < text.length then none
  else
    let text := if text.getLast? = some 10 then text.dropLast else text
    if text.take kTag.length ≠ kTag then none
    else
      let text := text.drop kTag.length
      if 32 ∉ text then none
      else
        let keyId := text.takeWhile (· ≠ 32)
        if isValidKeyId keyId = false then none
        else
          (decodeExact lib (text.drop (keyId.length + 1)) 86 2 kEd25519SignatureBytes).map fun signature =>
            ⟨keyId, signature⟩

namespace PackTrust

variable (trust : PackTrust)

def find (keyId : GoogleString) : Option TrustKey :=
  (trust.keys.drop (BinarySearch.lowerBound (fun k => k.keyId < keyId) trust.keys)).head?.filter (·.keyId == keyId)

def keyText (k : TrustKey) : GoogleString := k.keyId ++ [61] ++ (bytesToHexString k.publicKey ++ [59])

def fingerprint : GoogleString := ascii (if trust.requireSigned then "1|" else "0|") ++ trust.keys.flatMap keyText

end PackTrust

def verifyEd25519 (lib : SignatureLibraries) (message signature publicKey : GoogleString) : Bool :=
  if signature.length ≠ kEd25519SignatureBytes ∨ publicKey.length ≠ kEd25519PublicKeyBytes then false
  else lib.ed25519Verify message signature publicKey

def checkPackSignature (lib : SignatureLibraries) (packBytes publisher : GoogleString) (sidecar : SidecarState)
    (trust : PackTrust) : SignatureStatus × GoogleString :=
  if sidecar.present = false then (.kUnsigned, [])
  else if sidecar.readOk = false then (.kUnreadable, [])
  else
    match parsePackSidecar lib sidecar.text with
    | none => (.kUnreadable, [])
    | some parsed =>
      if parsed.keyId ≠ publisher then (.kPublisherMismatch, [])
      else
        match trust.find parsed.keyId with
        | none => (.kUnknownKey, [])
        | some key =>
          if verifyEd25519 lib packBytes parsed.signature key.publicKey then (.kVerified, parsed.keyId)
          else (.kBadSignature, [])

theorem toNat_hexDigit {n : UInt8} (h : n.toNat < 16) :
    (hexDigit n).toNat = if n.toNat < 10 then 48 + n.toNat else 87 + n.toNat := by
  unfold hexDigit
  by_cases hten : n.toNat < 10
  · rw [if_pos hten, if_pos (UInt8.lt_iff_toNat_lt.mpr hten), UInt8.toNat_add]
    exact Nat.mod_eq_of_lt (by simp; omega)
  · rw [if_neg hten, if_neg fun hlt => hten (UInt8.lt_iff_toNat_lt.mp hlt), UInt8.toNat_add]
    exact Nat.mod_eq_of_lt (by simp; omega)

theorem hexDigit_inj {m n : UInt8} (hm : m.toNat < 16) (hn : n.toNat < 16) (h : hexDigit m = hexDigit n) : m = n := by
  have heq := congrArg UInt8.toNat h
  rw [toNat_hexDigit hm, toNat_hexDigit hn] at heq
  apply UInt8.toNat_inj.mp
  split_ifs at heq <;> omega

theorem toNat_high (b : UInt8) : (b >>> 4).toNat = b.toNat / 16 := by
  rw [UInt8.toNat_shiftRight, Nat.shiftRight_eq_div_pow]
  rfl

theorem toNat_low (b : UInt8) : (b &&& 0xF).toNat = b.toNat % 16 := by
  rw [UInt8.toNat_and]
  exact Nat.and_two_pow_sub_one_eq_mod b.toNat 4

theorem hexByte_injective : Function.Injective hexByte := by
  intro b c h
  have hb := b.toNat_lt
  have hc := c.toNat_lt
  obtain ⟨hhigh, hlow⟩ := List.cons.inj h
  have hhigh := congrArg UInt8.toNat (hexDigit_inj (by rw [toNat_high]; omega) (by rw [toNat_high]; omega) hhigh)
  have hlow := congrArg UInt8.toNat
    (hexDigit_inj (by rw [toNat_low]; omega) (by rw [toNat_low]; omega) (List.cons.inj hlow).1)
  rw [toNat_high, toNat_high] at hhigh
  rw [toNat_low, toNat_low] at hlow
  apply UInt8.toNat_inj.mp
  omega

theorem bytesToHexString_injective : Function.Injective bytesToHexString := by
  intro s
  induction s with
  | nil =>
    intro t h
    cases t with
    | nil => rfl
    | cons c t => exact absurd h nofun
  | cons b s ih =>
    intro t h
    cases t with
    | nil => exact absurd h nofun
    | cons c t =>
      obtain ⟨hbyte, hrest⟩ := List.append_inj h rfl
      rw [hexByte_injective hbyte, ih hrest]

theorem lt_of_mem_hex {bytes : GoogleString} {c : UInt8} (h : c ∈ bytesToHexString bytes) :
    (48 ≤ c.toNat ∧ c.toNat < 58) ∨ (97 ≤ c.toNat ∧ c.toNat < 103) := by
  obtain ⟨b, _, hc⟩ := List.mem_flatMap.mp h
  have hb := b.toNat_lt
  have hdigit : ∃ n : UInt8, n.toNat < 16 ∧ c = hexDigit n := by
    obtain rfl | hc := List.mem_cons.mp hc
    · exact ⟨_, by rw [toNat_high]; omega, rfl⟩
    · obtain rfl := List.mem_singleton.mp hc
      exact ⟨_, by rw [toNat_low]; omega, rfl⟩
  obtain ⟨n, hn, rfl⟩ := hdigit
  rw [toNat_hexDigit hn]
  split_ifs <;> omega

theorem equals_not_mem_keyId {keyId : GoogleString} (h : isValidKeyId keyId = true) : 61 ∉ keyId := by
  intro hmem
  unfold isValidKeyId at h
  split_ifs at h with hsize
  exact absurd (List.all_eq_true.mp h 61 hmem) (by decide)

theorem keyText_reads : Reads PackTrust.keyText (fun _ => True) fun _ => True := by
  have hid := Reads.until_letter (61 : UInt8)
  have hkey := (Reads.until_letter (59 : UInt8)).comap bytesToHexString_injective
  have hpair := hid.seq hkey fun _ _ _ _ => trivial
  have hinj : Function.Injective fun k : TrustKey => (k.keyId, k.publicKey) := by
    intro k k' h
    cases k
    cases k'
    simpa using h
  intro k k' s t _ _ _ _ heq
  refine hpair.comap hinj k k' s t ?_ ?_ trivial trivial heq
  · exact ⟨equals_not_mem_keyId k.valid, fun hmem => absurd (lt_of_mem_hex hmem) (by decide)⟩
  · exact ⟨equals_not_mem_keyId k'.valid, fun hmem => absurd (lt_of_mem_hex hmem) (by decide)⟩

theorem fingerprint_injective : Function.Injective PackTrust.fingerprint := by
  intro trust trust' h
  have htag : ∀ required : Bool, (ascii (if required then "1|" else "0|")).length = 2 := by decide
  obtain ⟨hrequired, hkeys⟩ := List.append_inj h ((htag _).trans (htag _).symm)
  have hne : ∀ (k : TrustKey) (s t : GoogleString), True → t = [] → PackTrust.keyText k ++ s ≠ t := by
    rintro k s t - rfl
    simp [PackTrust.keyText]
  have hread := keyText_reads.many hne (fun _ _ => trivial) fun _ _ _ => trivial
  apply PackTrust.ext
  · revert hrequired
    cases trust.requireSigned <;> cases trust'.requireSigned <;> decide
  · refine (hread trust.keys trust'.keys [] [] (fun _ _ => trivial) (fun _ _ => trivial) rfl rfl ?_).1
    rw [List.append_nil, List.append_nil]
    exact hkeys

end PageSpeed.RulePack
