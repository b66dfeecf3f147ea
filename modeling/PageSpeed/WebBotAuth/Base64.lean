import PageSpeed.Base.Ascii

/-!
The base64 decoders of `kernel/webbotauth/base64.cc`.
-/

namespace PageSpeed.WebBotAuth

def decodeChar (c : UInt8) (urlSafe : Bool) : Option UInt32 :=
  if 65 ≤ c ∧ c ≤ 90 then some (c.toUInt32 - 65)
  else if 97 ≤ c ∧ c ≤ 122 then some (c.toUInt32 - 97 + 26)
  else if 48 ≤ c ∧ c ≤ 57 then some (c.toUInt32 - 48 + 52)
  else if c = (if urlSafe then 45 else 43) then some 62
  else if c = (if urlSafe then 95 else 47) then some 63
  else none

structure Base64State where
  buffer : UInt32 := 0
  bits : ℕ := 0
  sextets : ℕ := 0
  out : GoogleString := []

def Base64State.push (s : Base64State) (v : UInt32) : Base64State :=
  let buffer := (s.buffer <<< 6) ||| v
  let bits := s.bits + 6
  if 8 ≤ bits then
    ⟨buffer, bits - 8, s.sextets + 1, s.out ++ [((buffer >>> UInt32.ofNat (bits - 8)) &&& 0xFF).toUInt8]⟩
  else ⟨buffer, bits, s.sextets + 1, s.out⟩

def decodeLoop (urlSafe : Bool) : GoogleString → Base64State → Option Base64State
  | [], s => some s
  | c :: rest, s =>
    if c = 61 then if rest.all (· = 61) then some s else none
    else (decodeChar c urlSafe).bind fun v => decodeLoop urlSafe rest (s.push v)

def decodeImpl (bytes : GoogleString) (urlSafe : Bool) : Option GoogleString :=
  (decodeLoop urlSafe bytes {}).bind fun s => if s.sextets % 4 = 1 then none else some s.out

def base64Decode (bytes : GoogleString) : Option GoogleString := decodeImpl bytes false

def base64UrlDecode (bytes : GoogleString) : Option GoogleString := decodeImpl bytes true

example : base64Decode (ascii "d2ViLWJvdA==") = some (ascii "web-bot") := by decide

end PageSpeed.WebBotAuth
