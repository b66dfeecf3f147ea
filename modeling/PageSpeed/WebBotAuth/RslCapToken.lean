import PageSpeed.Base.StringUtil
import PageSpeed.Lib.JsonObject
import PageSpeed.Lib.Reader
import PageSpeed.WebBotAuth.Base64

/-!
`kernel/webbotauth/rsl_cap_token.cc`: the fields of an RSL-CAP token, which a scan for their quoted names
finds. Positions of the source are the rest of the text here.
-/

namespace PageSpeed.WebBotAuth

open Json (isWs)

namespace RslCap

def skipWs (s : GoogleString) : GoogleString := s.dropWhile isWs

def unescape (e : UInt8) : Option UInt8 :=
  if e = 34 then some 34
  else if e = 92 then some 92
  else if e = 47 then some 47
  else if e = 110 then some 10
  else if e = 114 then some 13
  else if e = 116 then some 9
  else if e = 98 then some 8
  else if e = 102 then some 12
  else none

def parseJsonChars : GoogleString → Option (GoogleString × GoogleString)
  | [] => none
  | [92] => none
  | 92 :: e :: s => (unescape e).bind fun b => (parseJsonChars s).map fun (out, rest) => (b :: out, rest)
  | c :: s => if c = 34 then some ([], s) else (parseJsonChars s).map fun (out, rest) => (c :: out, rest)

def parseJsonString : GoogleString → Option (GoogleString × GoogleString)
  | [] => none
  | c :: s => if c = 34 then parseJsonChars s else none

def needle (key : GoogleString) : GoogleString := 34 :: key ++ [34]

def afterColon (s : GoogleString) : Option GoogleString :=
  match skipWs s with
  | [] => none
  | c :: rest => if c = 58 then some rest else none

def valueHere (key s : GoogleString) : Option GoogleString :=
  if (needle key).isPrefixOf s then afterColon (s.drop (needle key).length) else none

def findKeyValueStart (key : GoogleString) : GoogleString → Option GoogleString
  | [] => none
  | c :: s => valueHere key (c :: s) <|> findKeyValueStart key s

inductive Extracted (α : Type)
  | absent
  | malformed
  | found (value : α)

def extract {α : Type} (read : GoogleString → Option α) (obj key : GoogleString) : Extracted α :=
  match findKeyValueStart key obj with
  | none => .absent
  | some s =>
    match read (skipWs s) with
    | none => .malformed
    | some value => .found value

def readString (s : GoogleString) : Option GoogleString := (parseJsonString s).map Prod.fst

def readInt64 (s : GoogleString) : Option Int64 :=
  let sign := if s.head? = some 45 ∨ s.head? = some 43 then s.take 1 else []
  let digits := (s.drop sign.length).takeWhile Decimal.isDigit
  if digits = [] then none else Decimal.text.stringToInt64 (sign ++ digits)

def elementTurn (out : List GoogleString) (s : GoogleString) :
    Option (List GoogleString ⊕ List GoogleString × GoogleString) :=
  if s = [] then none
  else do
    let (elem, s) ← parseJsonString (skipWs s)
    match skipWs s with
    | [] => none
    | c :: s => if c = 44 then some (.inr (out ++ [elem], s)) else if c = 93 then some (.inl (out ++ [elem])) else none

def readStringArray : GoogleString → Option (List GoogleString)
  | [] => none
  | c :: s =>
    if c = 91 then
      if (skipWs s).head? = some 93 then some [] else Reader.loop elementTurn [] (skipWs s)
    else none

def extractString : GoogleString → GoogleString → Extracted GoogleString := extract readString

def extractInt64 : GoogleString → GoogleString → Extracted Int64 := extract readInt64

def extractStringArray : GoogleString → GoogleString → Extracted (List GoogleString) := extract readStringArray

def Extracted.required {α : Type} : Extracted α → Option α
  | found value => some value
  | _ => none

def Extracted.optional {α : Type} (default : α) : Extracted α → Option α
  | absent => some default
  | malformed => none
  | found value => some value

end RslCap

structure RslCapToken where
  typ : GoogleString
  alg : GoogleString
  kid : GoogleString
  iss : GoogleString
  sub : GoogleString
  exp : Int64
  iat : Int64
  lic : List GoogleString
  scope : List GoogleString
  signingInput : GoogleString
  signatureBytes : GoogleString
deriving DecidableEq

open RslCap in
def parseRslCapToken (compact : GoogleString) : Option RslCapToken :=
  match splitStringPieceToVector compact (ascii ".") false with
  | [headerB64, payloadB64, sigB64] => do
    let headerJson ← base64UrlDecode headerB64
    let payloadJson ← base64UrlDecode payloadB64
    let sigBytes ← base64UrlDecode sigB64
    let typ ← (extractString headerJson (ascii "typ")).required
    let alg ← (extractString headerJson (ascii "alg")).required
    let kid ← (extractString headerJson (ascii "kid")).required
    if typ ≠ ascii "RSL-CAP" ∨ alg ≠ ascii "EdDSA" then none
    else
      let iss ← (extractString payloadJson (ascii "iss")).optional []
      let sub ← (extractString payloadJson (ascii "sub")).optional []
      let exp ← (extractInt64 payloadJson (ascii "exp")).required
      let iat ← (extractInt64 payloadJson (ascii "iat")).optional 0
      let lic ← (extractStringArray payloadJson (ascii "lic")).optional []
      let scope ← (extractStringArray payloadJson (ascii "scope")).optional []
      return ⟨typ, alg, kid, iss, sub, exp, iat, lic, scope, headerB64 ++ ascii "." ++ payloadB64, sigBytes⟩
  | _ => none

end PageSpeed.WebBotAuth
