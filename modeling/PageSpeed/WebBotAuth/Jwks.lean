import PageSpeed.WebBotAuth.JsonScanner

/-!
The two readings of a key document in `kernel/webbotauth/jwks.cc`: the key of one id, and all
keys. Both come down to the entries that can be read from the front of the document.
-/

namespace PageSpeed.WebBotAuth

structure Jwk where
  kty : GoogleString := []
  crv : GoogleString := []
  kid : GoogleString := []
  x : GoogleString := []
  deriving DecidableEq

def Jwk.set (jwk : Jwk) (key val : GoogleString) : Jwk :=
  if key = ascii "kty" then { jwk with kty := val }
  else if key = ascii "crv" then { jwk with crv := val }
  else if key = ascii "kid" then { jwk with kid := val }
  else if key = ascii "x" then { jwk with x := val }
  else jwk

def parseMemberValue (jwk : Jwk) (key s : GoogleString) : Option (Jwk × GoogleString) :=
  if peek (JsonScanner.skipWs s) = 34 then (JsonScanner.parseString s).map fun (val, s) => (jwk.set key val, s)
  else (JsonScanner.skipValue (JsonScanner.skipWs s)).map fun s => (jwk, s)

/-- One turn of the loop of `ParseJwkObject`. -/
def parseJwkTurn (jwk : Jwk) (s : GoogleString) : Option ((Jwk × GoogleString) ⊕ Jwk × GoogleString) := do
  let (key, s) ← JsonScanner.parseString s
  let s ← JsonScanner.consume 58 s
  let (jwk, s) ← parseMemberValue jwk key s
  match JsonScanner.consume 44 s with
  | some s => return .inr (jwk, s)
  | none => (JsonScanner.consume 125 s).map fun s => .inl (jwk, s)

theorem length_parseMemberValue {jwk jwk' : Jwk} {key s rest : GoogleString}
    (h : parseMemberValue jwk key s = some (jwk', rest)) : rest.length ≤ s.length := by
  unfold parseMemberValue at h
  split_ifs at h
  · obtain ⟨val, hval, _⟩ := Reader.map_eq_some h
    exact Nat.le_of_lt (JsonScanner.progress_parseString s val rest hval)
  · obtain ⟨t, ht, heq⟩ := Option.map_eq_some_iff.mp h
    cases heq
    have hle := JsonScanner.length_skipWs s
    have hskip := JsonScanner.length_skipValue ht
    omega

theorem length_parseJwkTurn {jwk : Jwk} {s : GoogleString} {result : (Jwk × GoogleString) ⊕ Jwk × GoogleString}
    (h : parseJwkTurn jwk s = some result) : (Sum.elim Prod.snd Prod.snd result).length < s.length := by
  obtain ⟨⟨key, t⟩, ht, h⟩ := Option.bind_eq_some_iff.mp h
  obtain ⟨u, hu, h⟩ := Option.bind_eq_some_iff.mp h
  obtain ⟨⟨next, v⟩, hv, h⟩ := Option.bind_eq_some_iff.mp h
  have ht := JsonScanner.progress_parseString s key t ht
  have hu := JsonScanner.length_of_consume hu
  have hv := length_parseMemberValue hv
  cases hcomma : JsonScanner.consume 44 v with
  | some w =>
    simp only [hcomma] at h
    cases h
    have hw := JsonScanner.length_of_consume hcomma
    dsimp only [Sum.elim_inr]
    omega
  | none =>
    simp only [hcomma] at h
    obtain ⟨w, hw, rfl⟩ := Option.map_eq_some_iff.mp h
    have hw := JsonScanner.length_of_consume hw
    dsimp only [Sum.elim_inl]
    omega

theorem progress_parseJwkTurn : Reader.LoopProgress parseJwkTurn := fun _ _ _ _ h => length_parseJwkTurn h

def parseJwkObject (s : GoogleString) : Option (Jwk × GoogleString) := do
  let s ← JsonScanner.consume 123 s
  match JsonScanner.consume 125 s with
  | some s => return ({}, s)
  | none => Reader.loop parseJwkTurn {} (JsonScanner.skipWs s)

theorem progress_parseJwkObject : Reader.Progress parseJwkObject := by
  intro s jwk rest h
  obtain ⟨t, ht, h⟩ := Option.bind_eq_some_iff.mp h
  have hlt := JsonScanner.length_of_consume ht
  cases hempty : JsonScanner.consume 125 t with
  | some u =>
    simp only [hempty] at h
    cases h
    have hlt' := JsonScanner.length_of_consume hempty
    omega
  | none =>
    simp only [hempty] at h
    have hrest : rest.length < (JsonScanner.skipWs t).length := by
      apply Reader.of_loop (Q := fun _ s (result : Jwk × GoogleString) => result.2.length < s.length) _ _ h
      · intro jwk s result hturn
        exact length_parseJwkTurn hturn
      · intro jwk s jwk' rest result hturn hlt
        exact Nat.lt_trans hlt (progress_parseJwkTurn jwk s jwk' rest hturn)
    have hle := JsonScanner.length_skipWs t
    omega

def decodedKey (x : GoogleString) : Option GoogleString :=
  if x.isEmpty then none else (base64UrlDecode x).filter fun raw => raw.length = 32

def jwkMatches (jwk : Jwk) (kid : GoogleString) (allowKidless : Bool) : Option GoogleString :=
  if jwk.kty ≠ ascii "OKP" then none
  else if jwk.crv ≠ ascii "Ed25519" then none
  else if jwk.kid.isEmpty then if !allowKidless then none else decodedKey jwk.x
  else if jwk.kid ≠ kid then none
  else decodedKey jwk.x

def jwkToKidKey (jwk : Jwk) : Option (GoogleString × GoogleString) :=
  if jwk.kty ≠ ascii "OKP" then none
  else if jwk.crv ≠ ascii "Ed25519" then none
  else if jwk.kid.isEmpty then none
  else (decodedKey jwk.x).map fun raw => (jwk.kid, raw)

def findKeysTurn (_ : Unit) (s : GoogleString) : Option (GoogleString ⊕ Unit × GoogleString) := do
  let (key, s) ← JsonScanner.parseString s
  let s ← JsonScanner.consume 58 s
  if key = ascii "keys" then return .inl s
  else do
    let s ← JsonScanner.skipValue s
    (JsonScanner.consume 44 s).map fun s => .inr ((), s)

def findKeys (s : GoogleString) : Option GoogleString :=
  match JsonScanner.consume 125 s with
  | some _ => none
  | none => Reader.loop findKeysTurn () (JsonScanner.skipWs s)

/-- One turn of the walk of `ExtractEd25519Key` over the keys. -/
def extractKeyTurn (kid : GoogleString) (_ : Unit) (s : GoogleString) :
    Option (Option GoogleString ⊕ Unit × GoogleString) :=
  match parseJwkObject s with
  | none => some (.inl none)
  | some (jwk, s) =>
    match jwkMatches jwk kid false with
    | some raw => some (.inl (some raw))
    | none =>
      match JsonScanner.consume 44 s with
      | some s => some (.inr ((), s))
      | none => some (.inl none)

def extractEd25519Key (jwksDocument kid : GoogleString) : Option GoogleString := do
  let s ← JsonScanner.consume 123 jwksDocument
  match findKeys s with
  | some s => do
    let s ← JsonScanner.consume 91 s
    match JsonScanner.consume 93 s with
    | some _ => none
    | none => (Reader.loop (extractKeyTurn kid) () (JsonScanner.skipWs s)).bind id
  | none => do
    let (jwk, _) ← parseJwkObject jwksDocument
    jwkMatches jwk kid true

/-- One turn of the walk of `ExtractAllEd25519Keys`, which keeps what it has found. -/
def extractAllTurn (out : List (GoogleString × GoogleString)) (s : GoogleString) :
    Option (List (GoogleString × GoogleString) ⊕ List (GoogleString × GoogleString) × GoogleString) :=
  match parseJwkObject s with
  | none => some (.inl out)
  | some (jwk, s) =>
    let out := out ++ (jwkToKidKey jwk).toList
    match JsonScanner.consume 44 s with
    | some s => some (.inr (out, s))
    | none => some (.inl out)

def extractAllEd25519Keys (jwksDocument : GoogleString) : List (GoogleString × GoogleString) :=
  match JsonScanner.consume 123 jwksDocument with
  | none => []
  | some s =>
    match findKeys s with
    | some s =>
      match JsonScanner.consume 91 s with
      | none => []
      | some s =>
        match JsonScanner.consume 93 s with
        | some _ => []
        | none => (Reader.loop extractAllTurn [] (JsonScanner.skipWs s)).getD []
    | none =>
      match parseJwkObject jwksDocument with
      | none => []
      | some (jwk, _) => (jwkToKidKey jwk).toList

def arrayEntriesFuel : ℕ → GoogleString → List Jwk
  | 0, _ => []
  | fuel + 1, s =>
    match parseJwkObject s with
    | none => []
    | some (jwk, s) =>
      match JsonScanner.consume 44 s with
      | some s => jwk :: arrayEntriesFuel fuel s
      | none => [jwk]

def arrayEntries (s : GoogleString) : List Jwk := arrayEntriesFuel (s.length + 1) s

def documentEntries (jwksDocument : GoogleString) : List Jwk :=
  match JsonScanner.consume 123 jwksDocument with
  | none => []
  | some s =>
    match findKeys s with
    | some s =>
      match JsonScanner.consume 91 s with
      | none => []
      | some s =>
        match JsonScanner.consume 93 s with
        | some _ => []
        | none => arrayEntries (JsonScanner.skipWs s)
    | none => (parseJwkObject jwksDocument).toList.map Prod.fst

def isKidlessSingle (jwksDocument : GoogleString) : Bool :=
  match JsonScanner.consume 123 jwksDocument with
  | none => false
  | some s =>
    (findKeys s).isNone &&
      match parseJwkObject jwksDocument with
      | some (jwk, _) => jwk.kid.isEmpty
      | none => false

def kidKeys (jwksDocument : GoogleString) : List (GoogleString × GoogleString) :=
  (documentEntries jwksDocument).filterMap jwkToKidKey

theorem arrayEntriesFuel_eq (n m : ℕ) (s : GoogleString) (hn : s.length < n) (hm : s.length < m) :
    arrayEntriesFuel n s = arrayEntriesFuel m s := by
  induction n generalizing m s with
  | zero => omega
  | succ n ih =>
    cases m with
    | zero => omega
    | succ m =>
      rw [arrayEntriesFuel, arrayEntriesFuel]
      cases hobject : parseJwkObject s with
      | none => rfl
      | some result =>
        have hlt := progress_parseJwkObject s result.1 result.2 hobject
        dsimp only
        cases hcomma : JsonScanner.consume 44 result.2 with
        | none => rfl
        | some rest =>
          have hlt' := JsonScanner.length_of_consume hcomma
          dsimp only
          rw [ih m rest (by omega) (by omega)]

theorem arrayEntries_eq (s : GoogleString) :
    arrayEntries s =
      match parseJwkObject s with
      | none => []
      | some (jwk, s) =>
        match JsonScanner.consume 44 s with
        | some s => jwk :: arrayEntries s
        | none => [jwk] := by
  rw [arrayEntries, arrayEntriesFuel]
  cases hobject : parseJwkObject s with
  | none => rfl
  | some result =>
    have hlt := progress_parseJwkObject s result.1 result.2 hobject
    dsimp only
    cases hcomma : JsonScanner.consume 44 result.2 with
    | none => rfl
    | some rest =>
      have hlt' := JsonScanner.length_of_consume hcomma
      dsimp only [arrayEntries]
      rw [arrayEntriesFuel_eq s.length (rest.length + 1) rest (by omega) (by omega)]

theorem progress_extractAllTurn : Reader.LoopProgress extractAllTurn := by
  intro out s out' rest h
  unfold extractAllTurn at h
  split at h
  · cases h
  · rename_i jwk t hobject
    have hlt := progress_parseJwkObject s jwk t hobject
    dsimp only at h
    split at h
    · rename_i u hcomma
      have hlt' := JsonScanner.length_of_consume hcomma
      cases h
      omega
    · cases h

theorem progress_extractKeyTurn (kid : GoogleString) : Reader.LoopProgress (extractKeyTurn kid) := by
  intro _ s _ rest h
  unfold extractKeyTurn at h
  split at h
  · cases h
  · rename_i jwk t hobject
    have hlt := progress_parseJwkObject s jwk t hobject
    split at h
    · cases h
    · split at h
      · rename_i u hcomma
        have hlt' := JsonScanner.length_of_consume hcomma
        cases h
        omega
      · cases h

theorem filterMap_cons_toList (jwk : Jwk) (js : List Jwk) :
    (jwk :: js).filterMap jwkToKidKey = (jwkToKidKey jwk).toList ++ js.filterMap jwkToKidKey := by
  rw [List.filterMap_cons]
  cases jwkToKidKey jwk <;> rfl

theorem loop_extractAllTurn (out : List (GoogleString × GoogleString)) (s : GoogleString) :
    Reader.loop extractAllTurn out s = some (out ++ (arrayEntries s).filterMap jwkToKidKey) := by
  induction hlen : s.length using Nat.strongRecOn generalizing out s with
  | ind n ih =>
    rw [Reader.loop_eq progress_extractAllTurn, extractAllTurn, arrayEntries_eq]
    cases hobject : parseJwkObject s with
    | none => simp
    | some result =>
      have hlt := progress_parseJwkObject s result.1 result.2 hobject
      dsimp only
      cases hcomma : JsonScanner.consume 44 result.2 with
      | none =>
        dsimp only
        rw [filterMap_cons_toList, List.filterMap_nil, List.append_nil]
        rfl
      | some rest =>
        have hlt' := JsonScanner.length_of_consume hcomma
        dsimp only [Option.bind_some]
        rw [ih rest.length (by omega) _ rest rfl, filterMap_cons_toList, List.append_assoc]

theorem extractAllEd25519Keys_eq (jwksDocument : GoogleString) :
    extractAllEd25519Keys jwksDocument = kidKeys jwksDocument := by
  rw [extractAllEd25519Keys, kidKeys, documentEntries]
  cases JsonScanner.consume 123 jwksDocument with
  | none => rfl
  | some s =>
    dsimp only
    cases findKeys s with
    | none =>
      dsimp only
      cases parseJwkObject jwksDocument with
      | none => rfl
      | some result =>
        simp only [Option.toList_some, List.map_cons, List.map_nil, List.filterMap_cons, List.filterMap_nil]
        cases jwkToKidKey result.1 <;> rfl
    | some t =>
      dsimp only
      cases JsonScanner.consume 91 t with
      | none => rfl
      | some u =>
        dsimp only
        cases JsonScanner.consume 93 u with
        | some v => rfl
        | none =>
          dsimp only
          rw [loop_extractAllTurn, Option.getD_some, List.nil_append]

theorem jwkMatches_eq (jwk : Jwk) (kid : GoogleString) :
    jwkMatches jwk kid false = (jwkToKidKey jwk).toList.lookup kid := by
  unfold jwkMatches jwkToKidKey
  split_ifs with hkty hcrv hkidless _ hkid
  · rfl
  · rfl
  · rfl
  · contradiction
  · cases decodedKey jwk.x with
    | none => rfl
    | some raw =>
      simp only [Option.map_some, Option.toList_some, List.lookup_cons, List.lookup_nil]
      rw [beq_false_of_ne (Ne.symm hkid)]
  · rw [not_not] at hkid
    cases decodedKey jwk.x with
    | none => rfl
    | some raw =>
      simp only [Option.map_some, Option.toList_some, List.lookup_cons, hkid, beq_self_eq_true]

theorem lookup_filterMap_cons (jwk : Jwk) (js : List Jwk) (kid : GoogleString) :
    ((jwk :: js).filterMap jwkToKidKey).lookup kid =
      (jwkMatches jwk kid false).or ((js.filterMap jwkToKidKey).lookup kid) := by
  rw [filterMap_cons_toList, List.lookup_append, jwkMatches_eq]

theorem loop_extractKeyTurn (kid : GoogleString) (s : GoogleString) :
    Reader.loop (extractKeyTurn kid) () s = some (((arrayEntries s).filterMap jwkToKidKey).lookup kid) := by
  induction hlen : s.length using Nat.strongRecOn generalizing s with
  | ind n ih =>
    rw [Reader.loop_eq (progress_extractKeyTurn kid), extractKeyTurn, arrayEntries_eq]
    cases hobject : parseJwkObject s with
    | none => rfl
    | some result =>
      have hlt := progress_parseJwkObject s result.1 result.2 hobject
      dsimp only
      cases hmatches : jwkMatches result.1 kid false with
      | some raw =>
        cases hcomma : JsonScanner.consume 44 result.2 with
        | none =>
          dsimp only
          rw [lookup_filterMap_cons, hmatches]
          rfl
        | some rest =>
          dsimp only
          rw [lookup_filterMap_cons, hmatches]
          rfl
      | none =>
        cases hcomma : JsonScanner.consume 44 result.2 with
        | none =>
          dsimp only
          rw [lookup_filterMap_cons, hmatches]
          rfl
        | some rest =>
          have hlt' := JsonScanner.length_of_consume hcomma
          dsimp only [Option.bind_some]
          rw [ih rest.length (by omega) rest rfl, lookup_filterMap_cons, hmatches, Option.none_or]

theorem jwkMatches_of_kid {jwk : Jwk} (h : jwk.kid.isEmpty = false) (kid : GoogleString) (allowKidless : Bool) :
    jwkMatches jwk kid allowKidless = jwkMatches jwk kid false := by
  unfold jwkMatches
  rw [h]
  rfl

theorem extractEd25519Key_eq {jwksDocument : GoogleString} (h : isKidlessSingle jwksDocument = false)
    (kid : GoogleString) : extractEd25519Key jwksDocument kid = (kidKeys jwksDocument).lookup kid := by
  rw [extractEd25519Key, kidKeys, documentEntries]
  rw [isKidlessSingle] at h
  cases hopen : JsonScanner.consume 123 jwksDocument with
  | none => rfl
  | some s =>
    rw [hopen] at h
    dsimp only [Option.bind_eq_bind, Option.bind_some] at h ⊢
    cases hkeys : findKeys s with
    | none =>
      rw [hkeys] at h
      dsimp only
      cases hobject : parseJwkObject jwksDocument with
      | none => rfl
      | some result =>
        rw [hobject] at h
        rw [Option.toList_some, List.map_cons, List.map_nil, lookup_filterMap_cons]
        dsimp only [Option.bind_some]
        rw [jwkMatches_of_kid (by simpa using h), List.filterMap_nil, List.lookup_nil, Option.or_none]
    | some t =>
      dsimp only
      cases JsonScanner.consume 91 t with
      | none => rfl
      | some u =>
        dsimp only [Option.bind_some]
        cases JsonScanner.consume 93 u with
        | some v => rfl
        | none =>
          dsimp only
          rw [loop_extractKeyTurn, Option.bind_some, id_eq]

end PageSpeed.WebBotAuth
