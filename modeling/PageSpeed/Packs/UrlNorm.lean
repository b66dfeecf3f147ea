import Mathlib.Data.List.DropRight
import PageSpeed.Base.Ascii
import PageSpeed.Base.StringUtil

/-!
`NormUrl` of `kernel/packs/url_norm.cc`.
-/

namespace PageSpeed.Packs

/-- `absl::SimpleAtoi` for an unsigned of 32 bits. -/
def simpleAtoi (s : GoogleString) : Option ℕ :=
  let (negative, digits) := Decimal.signed (Decimal.trim s)
  if negative ∨ digits = [] ∨ ¬digits.all Decimal.isDigit ∨ 2 ^ 32 ≤ Decimal.value digits then none
  else some (Decimal.value digits)

def dropFragment (url : GoogleString) : GoogleString := url.takeWhile (· ≠ 35)

def fixBackslashes (url : GoogleString) : GoogleString :=
  (url.takeWhile (· ≠ 63)).map (fun c => if c = 92 then 47 else c) ++ url.dropWhile (· ≠ 63)

def cutHttp (url : GoogleString) : Option (GoogleString × GoogleString) :=
  if stringCaseStartsWith url (ascii "https://") then some (ascii "https", url.drop 8)
  else if stringCaseStartsWith url (ascii "http://") then some (ascii "http", url.drop 7)
  else none

def authorityOf (url : GoogleString) : GoogleString := url.takeWhile fun c => c ≠ 47 ∧ c ≠ 63

def restOf (url : GoogleString) : GoogleString := url.dropWhile fun c => c ≠ 47 ∧ c ≠ 63

def hostAndPort (authority : GoogleString) : Option (GoogleString × GoogleString) :=
  if authority.head? = some 91 then
    match authority.dropWhile (· ≠ 93) with
    | [] => none
    | close :: after =>
      let host := authority.takeWhile (· ≠ 93) ++ [close]
      match after with
      | [] => some (host, [])
      | c :: port => if c ≠ 58 then none else some (host, port)
  else if 58 ∈ authority then some ((authority.rdropWhile (· ≠ 58)).dropLast, authority.rtakeWhile (· ≠ 58))
  else some (authority, [])

def isDefaultPort (scheme : GoogleString) (p : ℕ) : Bool :=
  scheme = ascii "http" ∧ p = 80 ∨ scheme = ascii "https" ∧ p = 443

def portOut (scheme port : GoogleString) : Option GoogleString :=
  if port = [] then some []
  else
    match simpleAtoi port with
    | none => none
    | some p => if p > 65535 then none else if isDefaultPort scheme p then some [] else some (58 :: Decimal.digits 10 p)

def pathAndQuery (rest : GoogleString) : GoogleString × GoogleString :=
  let path := rest.takeWhile (· ≠ 63)
  let query := rest.dropWhile (· ≠ 63)
  (if path.getLast? = some 47 then path.dropLast else path, if query.length = 1 then [] else query)

def normUrl (urlIn : GoogleString) : Option GoogleString := do
  let (scheme, url) ← cutHttp (fixBackslashes (dropFragment (Decimal.trim urlIn)))
  let authority := authorityOf url
  if authority = [] ∨ 64 ∈ authority then none
  else if authority.any fun c => c ≤ 0x20 ∨ c = 0x7f then none
  else
    let (host, port) ← hostAndPort authority
    if host = [] then none
    else
      let portOut ← portOut scheme port
      let (path, query) := pathAndQuery (restOf url)
      some (scheme ++ ascii "://" ++ host.map lowerChar ++ portOut ++ path ++ query)

def IsHostByte (c : UInt8) : Prop :=
  0x20 < c ∧ c ≠ 0x7f ∧ c ≠ 35 ∧ c ≠ 47 ∧ c ≠ 63 ∧ c ≠ 64 ∧ c ≠ 92 ∧ lowerChar c = c

structure Norm where
  scheme : GoogleString
  host : GoogleString
  port : GoogleString
  path : GoogleString
  query : GoogleString
  scheme_served : scheme = ascii "http" ∨ scheme = ascii "https"
  host_ne : host ≠ []
  host_bytes : ∀ c ∈ host, IsHostByte c
  host_closed : host.head? = some 91 → ∃ inner, host = inner ++ [93] ∧ 93 ∉ inner
  port_canonical : port = [] ∨ ∃ p, p ≤ 65535 ∧ isDefaultPort scheme p = false ∧ port = 58 :: Decimal.digits 10 p
  path_rooted : path = [] ∨ ∃ rest, path = 47 :: rest
  path_free : 35 ∉ path ∧ 63 ∉ path ∧ 92 ∉ path
  query_given : query = [] ∨ ∃ q, query = 63 :: q ∧ q ≠ [] ∧ 35 ∉ q

namespace Norm

def write (n : Norm) : GoogleString := n.scheme ++ ascii "://" ++ n.host ++ n.port ++ n.path ++ n.query

def trimPath (path : GoogleString) : GoogleString := if path.getLast? = some 47 then path.dropLast else path

def trimSlash (n : Norm) : Norm :=
  { n with
    path := trimPath n.path
    path_rooted := by
      rw [trimPath]
      split_ifs
      · obtain h | ⟨rest, h⟩ := n.path_rooted
        · exact .inl (by rw [h]; rfl)
        · cases rest with
          | nil => exact .inl (by rw [h]; rfl)
          | cons c rest => exact .inr ⟨(c :: rest).dropLast, by rw [h, List.dropLast_cons_of_ne_nil (List.cons_ne_nil _ _)]⟩
      · exact n.path_rooted
    path_free := by
      have hmem : ∀ c ∈ trimPath n.path, c ∈ n.path := by
        intro c hc
        rw [trimPath] at hc
        split_ifs at hc
        · exact List.dropLast_subset _ hc
        · exact hc
      exact ⟨fun h => n.path_free.1 (hmem _ h), fun h => n.path_free.2.1 (hmem _ h), fun h => n.path_free.2.2 (hmem _ h)⟩ }

theorem scheme_bytes (n : Norm) : 35 ∉ n.scheme ++ ascii "://" ∧ 63 ∉ n.scheme ++ ascii "://" ∧
    92 ∉ n.scheme ++ ascii "://" := by
  obtain h | h := n.scheme_served
  · rw [h]
    decide
  · rw [h]
    decide

theorem port_bytes (n : Norm) : ∀ c ∈ n.port, c = 58 ∨ 48 ≤ c ∧ c ≤ 57 := by
  intro c hc
  obtain h | ⟨p, -, -, h⟩ := n.port_canonical
  · rw [h] at hc
    cases hc
  · rw [h] at hc
    obtain rfl | hc := List.mem_cons.mp hc
    · exact .inl rfl
    · have hdigit := List.all_eq_true.mp (Decimal.digits_all 10 p) c hc
      rw [Decimal.isDigit, Bool.and_eq_true, decide_eq_true_eq, decide_eq_true_eq] at hdigit
      exact .inr hdigit

theorem authority_bytes (n : Norm) :
    ∀ c ∈ n.host ++ n.port, 0x20 < c ∧ c ≠ 0x7f ∧ c ≠ 35 ∧ c ≠ 47 ∧ c ≠ 63 ∧ c ≠ 64 ∧ c ≠ 92 := by
  intro c hc
  obtain hc | hc := List.mem_append.mp hc
  · obtain ⟨h₁, h₂, h₃, h₄, h₅, h₆, h₇, -⟩ := n.host_bytes c hc
    exact ⟨h₁, h₂, h₃, h₄, h₅, h₆, h₇⟩
  · obtain rfl | ⟨hle, hge⟩ := n.port_bytes c hc
    · decide
    · grind

theorem write_eq (n : Norm) :
    n.write = (n.scheme ++ ascii "://") ++ ((n.host ++ n.port) ++ (n.path ++ n.query)) := by
  simp only [write, List.append_assoc]

theorem dropFragment_write (n : Norm) : dropFragment n.write = n.write := by
  rw [dropFragment, List.takeWhile_eq_self_iff]
  intro c hc
  rw [decide_eq_true_eq]
  rintro rfl
  rw [write_eq] at hc
  obtain hc | hc := List.mem_append.mp hc
  · exact n.scheme_bytes.1 hc
  obtain hc | hc := List.mem_append.mp hc
  · exact (n.authority_bytes _ hc).2.2.1 rfl
  obtain hc | hc := List.mem_append.mp hc
  · exact n.path_free.1 hc
  · obtain h | ⟨q, h, -, hq⟩ := n.query_given
    · rw [h] at hc
      cases hc
    · rw [h] at hc
      obtain hc | hc := List.mem_cons.mp hc
      · exact absurd hc (by decide)
      · exact hq hc

theorem front_bytes (n : Norm) : ∀ c ∈ (n.scheme ++ ascii "://") ++ ((n.host ++ n.port) ++ n.path), c ≠ 63 ∧ c ≠ 92 := by
  intro c hc
  obtain hc | hc := List.mem_append.mp hc
  · constructor
    · rintro rfl
      exact n.scheme_bytes.2.1 hc
    · rintro rfl
      exact n.scheme_bytes.2.2 hc
  obtain hc | hc := List.mem_append.mp hc
  · obtain ⟨-, -, -, -, h, -, h'⟩ := n.authority_bytes c hc
    exact ⟨h, h'⟩
  · constructor
    · rintro rfl
      exact n.path_free.2.1 hc
    · rintro rfl
      exact n.path_free.2.2 hc

theorem query_cut (n : Norm) {front : GoogleString} (h : 63 ∉ front) :
    (front ++ n.query).takeWhile (· ≠ 63) = front ∧ (front ++ n.query).dropWhile (· ≠ 63) = n.query := by
  have hfront : ∀ c ∈ front, decide (c ≠ 63) = true := by
    intro c hc
    rw [decide_eq_true_eq]
    rintro rfl
    exact h hc
  rw [List.takeWhile_append_of_pos hfront, List.dropWhile_append_of_pos hfront]
  obtain h | ⟨q, h, -⟩ := n.query_given
  · simp [h]
  · simp [h]

theorem write_front (n : Norm) :
    n.write = ((n.scheme ++ ascii "://") ++ ((n.host ++ n.port) ++ n.path)) ++ n.query := by
  simp only [write, List.append_assoc]

theorem fixBackslashes_write (n : Norm) : fixBackslashes n.write = n.write := by
  obtain ⟨htake, hdrop⟩ := n.query_cut (fun h => (n.front_bytes _ h).1 rfl)
  have hmap : ((n.scheme ++ ascii "://") ++ ((n.host ++ n.port) ++ n.path)).map (fun c => if c = 92 then 47 else c) =
      (n.scheme ++ ascii "://") ++ ((n.host ++ n.port) ++ n.path) := by
    conv_rhs => rw [← List.map_id ((n.scheme ++ ascii "://") ++ ((n.host ++ n.port) ++ n.path))]
    exact List.map_congr_left fun c hc => if_neg (n.front_bytes c hc).2
  rw [write_front, fixBackslashes, htake, hdrop, hmap]

theorem cutHttp_write (n : Norm) : cutHttp n.write = some (n.scheme, (n.host ++ n.port) ++ (n.path ++ n.query)) := by
  obtain ⟨c, host, hhost⟩ := List.exists_cons_of_ne_nil n.host_ne
  have hrest : (n.host ++ n.port) ++ (n.path ++ n.query) = c :: (host ++ n.port ++ (n.path ++ n.query)) := by
    rw [hhost]
    rfl
  rw [write_eq, hrest, cutHttp]
  obtain h | h := n.scheme_served
  · rw [h]
    have hhttps : stringCaseStartsWith ((ascii "http" ++ ascii "://") ++ c :: (host ++ n.port ++ (n.path ++ n.query)))
        (ascii "https://") = false := by
      simp [stringCaseStartsWith, stringCaseEqual, ascii, upperChar]
    rw [hhttps, if_neg Bool.false_ne_true, if_pos (by simp [stringCaseStartsWith, stringCaseEqual, ascii])]
    rfl
  · rw [h, if_pos (by simp [stringCaseStartsWith, stringCaseEqual, ascii])]
    rfl

theorem rest_head (n : Norm) : n.path ++ n.query = [] ∨ ∃ c rest, n.path ++ n.query = c :: rest ∧ (c = 47 ∨ c = 63) := by
  obtain h | ⟨path, h⟩ := n.path_rooted
  · obtain h' | ⟨q, h', -⟩ := n.query_given
    · exact .inl (by rw [h, h']; rfl)
    · exact .inr ⟨63, q, by rw [h, h']; rfl, .inr rfl⟩
  · exact .inr ⟨47, path ++ n.query, by rw [h]; rfl, .inl rfl⟩

theorem authority_cut (n : Norm) : authorityOf ((n.host ++ n.port) ++ (n.path ++ n.query)) = n.host ++ n.port ∧
    restOf ((n.host ++ n.port) ++ (n.path ++ n.query)) = n.path ++ n.query := by
  have hbytes : ∀ c ∈ n.host ++ n.port, decide (c ≠ 47 ∧ c ≠ 63) = true := by
    intro c hc
    obtain ⟨-, -, -, h, h', -⟩ := n.authority_bytes c hc
    exact decide_eq_true ⟨h, h'⟩
  rw [authorityOf, restOf, List.takeWhile_append_of_pos hbytes, List.dropWhile_append_of_pos hbytes]
  obtain h | ⟨c, rest, h, hc⟩ := n.rest_head
  · rw [h]
    exact ⟨List.append_nil _, rfl⟩
  · rw [h]
    obtain rfl | rfl := hc
    · simp
    · simp

theorem pathAndQuery_write (n : Norm) : pathAndQuery (n.path ++ n.query) = (trimPath n.path, n.query) := by
  obtain ⟨htake, hdrop⟩ := n.query_cut n.path_free.2.1
  have hquery : (if n.query.length = 1 then [] else n.query) = n.query := by
    refine if_neg ?_
    obtain h | ⟨q, h, hq, -⟩ := n.query_given
    · simp [h]
    · simp [h, hq]
  rw [pathAndQuery, htake, hdrop]
  simp only [hquery]
  rfl

theorem simpleAtoi_digits {p : ℕ} (h : p ≤ 65535) : simpleAtoi (Decimal.digits 10 p) = some p := by
  have hall := Decimal.digits_all 10 p
  have hspace : ∀ c ∈ Decimal.digits 10 p, Decimal.isSpace c = false :=
    fun c hc => Decimal.not_space_of_digit (List.all_eq_true.mp hall c hc)
  have hne := Decimal.digits_ne_nil 9 p
  have hvalue := Decimal.value_digits 10 p (by omega)
  rw [simpleAtoi, Decimal.trim_eq_self hspace, Decimal.signed_of_digits hall]
  simp only [hvalue]
  rw [if_neg (by simp [hne, hall]; omega)]

theorem portOut_write (n : Norm) : portOut n.scheme (n.port.drop 1) = some n.port := by
  obtain h | ⟨p, hp, hdefault, h⟩ := n.port_canonical
  · rw [h]
    rfl
  · have hne := Decimal.digits_ne_nil 9 p
    rw [h, List.drop_succ_cons, List.drop_zero, portOut, if_neg hne, simpleAtoi_digits hp]
    simp only [hdefault, Bool.false_eq_true, if_false]
    rw [if_neg (by omega)]

theorem digits_free (p : ℕ) : 58 ∉ Decimal.digits 10 p := by
  intro h
  exact absurd (List.all_eq_true.mp (Decimal.digits_all 10 p) 58 h) (by decide)

theorem hostAndPort_write (n : Norm) (hclear : 58 ∈ n.host → n.host.head? = some 91 ∨ n.port ≠ []) :
    hostAndPort (n.host ++ n.port) = some (n.host, n.port.drop 1) := by
  obtain ⟨c, host, hhost⟩ := List.exists_cons_of_ne_nil n.host_ne
  have hhead : (n.host ++ n.port).head? = n.host.head? := by
    rw [hhost]
    rfl
  rw [hostAndPort, hhead]
  split_ifs with hbracket hcolon
  · obtain ⟨inner, heq, hinner⟩ := n.host_closed hbracket
    have hne : ∀ c ∈ inner, decide (c ≠ 93) = true := by
      intro c hc
      rw [decide_eq_true_eq]
      rintro rfl
      exact hinner hc
    have hdrop : (n.host ++ n.port).dropWhile (· ≠ 93) = 93 :: n.port := by
      rw [heq, List.append_assoc, List.dropWhile_append_of_pos hne]
      rfl
    have htake : (n.host ++ n.port).takeWhile (· ≠ 93) = inner := by
      rw [heq, List.append_assoc, List.takeWhile_append_of_pos hne]
      simp
    rw [hdrop, htake]
    obtain h | ⟨p, -, -, h⟩ := n.port_canonical
    · rw [h]
      exact congrArg some (Prod.ext heq.symm rfl)
    · rw [h]
      exact congrArg some (Prod.ext heq.symm rfl)
  · obtain h | ⟨p, -, -, h⟩ := n.port_canonical
    · rw [h, List.append_nil] at hcolon
      exact absurd h ((hclear hcolon).resolve_left hbracket)
    · have hdigits : ∀ c ∈ (Decimal.digits 10 p).reverse, decide (c ≠ 58) = true := by
        intro c hc
        rw [decide_eq_true_eq]
        rintro rfl
        exact digits_free p (List.mem_reverse.mp hc)
      have hsplit : n.host ++ n.port = (n.host ++ [58]) ++ Decimal.digits 10 p := by
        rw [h, List.append_assoc, List.singleton_append]
      have hdrop : ((n.host ++ [58]) ++ Decimal.digits 10 p).rdropWhile (· ≠ 58) = n.host ++ [58] := by
        rw [List.rdropWhile, List.reverse_append, List.dropWhile_append_of_pos hdigits, ← List.rdropWhile]
        exact List.rdropWhile_concat_neg _ _ _ (by simp)
      have htake : ((n.host ++ [58]) ++ Decimal.digits 10 p).rtakeWhile (· ≠ 58) = Decimal.digits 10 p := by
        rw [List.rtakeWhile, List.reverse_append, List.takeWhile_append_of_pos hdigits, List.reverse_append]
        simp
      rw [hsplit, hdrop, htake, h, List.dropLast_concat]
      rfl
  · obtain h | ⟨p, -, -, h⟩ := n.port_canonical
    · rw [h, List.append_nil]
      rfl
    · exact absurd (by simp [h]) hcolon

theorem trim_write (n : Norm) (hlast : ∀ c ∈ n.write.getLast?, Decimal.isSpace c = false) :
    Decimal.trim n.write = n.write := by
  have hhead : ∃ rest, n.write = 104 :: rest := by
    rw [write_eq]
    obtain h | h := n.scheme_served
    · rw [h]
      exact ⟨_, rfl⟩
    · rw [h]
      exact ⟨_, rfl⟩
  obtain ⟨rest, hrest⟩ := hhead
  have hfront : n.write.dropWhile Decimal.isSpace = n.write := by
    rw [hrest, List.dropWhile_cons_of_neg (by decide)]
  have hback : n.write.reverse.dropWhile Decimal.isSpace = n.write.reverse := by
    cases hreverse : n.write.reverse with
    | nil => rfl
    | cons c back =>
      have hc : c ∈ n.write.getLast? := by
        rw [← List.head?_reverse, hreverse]
        rfl
      exact List.dropWhile_cons_of_neg (by rw [hlast c hc]; exact Bool.false_ne_true)
  rw [Decimal.trim, hfront, hback, List.reverse_reverse]

theorem normUrl_write (n : Norm) (hclear : 58 ∈ n.host → n.host.head? = some 91 ∨ n.port ≠ [])
    (hlast : ∀ c ∈ n.write.getLast?, Decimal.isSpace c = false) : normUrl n.write = some n.trimSlash.write := by
  obtain ⟨hauthority, hrest⟩ := n.authority_cut
  have hlower : n.host.map lowerChar = n.host := by
    conv_rhs => rw [← List.map_id n.host]
    exact List.map_congr_left fun c hc => (n.host_bytes c hc).2.2.2.2.2.2.2
  have hne : n.host ++ n.port ≠ [] := List.append_ne_nil_of_left_ne_nil n.host_ne _
  have hat : 64 ∉ n.host ++ n.port := fun h => (n.authority_bytes 64 h).2.2.2.2.2.1 rfl
  have hany : (n.host ++ n.port).any (fun c => c ≤ 0x20 ∨ c = 0x7f) = false := by
    rw [List.any_eq_false]
    intro c hc
    obtain ⟨h, h', -⟩ := n.authority_bytes c hc
    simp [h, h']
  rw [normUrl, n.trim_write hlast, dropFragment_write, fixBackslashes_write, cutHttp_write]
  simp only [Option.bind_eq_bind, Option.bind_some, hauthority, hrest, n.hostAndPort_write hclear, portOut_write,
    pathAndQuery_write, hlower, hany]
  rw [if_neg (by simp [hne, hat]), if_neg Bool.false_ne_true, if_neg n.host_ne]
  rfl

end Norm

theorem cutHttp_spec {text scheme url : GoogleString} (h : cutHttp text = some (scheme, url)) (hhash : 35 ∉ text)
    (hslash : 92 ∉ text.takeWhile (· ≠ 63)) :
    (scheme = ascii "http" ∨ scheme = ascii "https") ∧ 35 ∉ url ∧ 92 ∉ url.takeWhile (· ≠ 63) := by
  have hcut : ∀ {start : GoogleString} {k : ℕ}, stringCaseStartsWith text start = true → start.length = k →
      63 ∉ start.map upperChar → 35 ∉ text.drop k ∧ 92 ∉ (text.drop k).takeWhile (· ≠ 63) := by
    intro start k hstart hk hfree
    obtain ⟨-, hequal⟩ := Bool.and_eq_true_iff.mp hstart
    have hequal : start.map upperChar = (text.take k).map upperChar := by rw [← hk]; exact eq_of_beq hequal
    have hfront : ∀ c ∈ text.take k, decide (c ≠ 63) = true := by
      intro c hc
      rw [decide_eq_true_eq]
      rintro rfl
      rw [hequal] at hfree
      exact hfree (List.mem_map.mpr ⟨63, hc, rfl⟩)
    refine ⟨fun h => hhash (List.mem_of_mem_drop h), fun h => hslash ?_⟩
    rw [← List.take_append_drop k text, List.takeWhile_append_of_pos hfront]
    exact List.mem_append_right _ h
  rw [cutHttp] at h
  split_ifs at h with hhttps hhttp
  · obtain ⟨rfl, rfl⟩ := Prod.mk.inj (Option.some.inj h)
    exact ⟨.inr rfl, hcut hhttps rfl (by decide)⟩
  · obtain ⟨rfl, rfl⟩ := Prod.mk.inj (Option.some.inj h)
    exact ⟨.inl rfl, hcut hhttp rfl (by decide)⟩

theorem dropWhile_stop {p : UInt8 → Bool} {s rest : GoogleString} {c : UInt8} (h : s.dropWhile p = c :: rest) :
    p c = false := by
  have hhead := List.head?_dropWhile_not p s
  rwa [h] at hhead

theorem fixBackslashes_spec (url : GoogleString) :
    35 ∉ fixBackslashes (dropFragment url) ∧ 92 ∉ (fixBackslashes (dropFragment url)).takeWhile (· ≠ 63) := by
  have hhash : 35 ∉ dropFragment url := fun h => by simpa using List.mem_takeWhile_imp h
  have hmap : ∀ c ∈ ((dropFragment url).takeWhile (· ≠ 63)).map (fun c => if c = 92 then 47 else c),
      decide (c ≠ 63) = true ∧ c ≠ 35 ∧ c ≠ 92 := by
    intro c hc
    obtain ⟨b, hb, rfl⟩ := List.mem_map.mp hc
    have hquery := List.mem_takeWhile_imp (p := fun c : UInt8 => c ≠ 63) hb
    have hb' : b ≠ 35 := by
      rintro rfl
      exact hhash (List.takeWhile_subset _ hb)
    split_ifs with h
    · decide
    · exact ⟨hquery, hb', h⟩
  have hstop : ((dropFragment url).dropWhile (· ≠ 63)).takeWhile (· ≠ 63) = [] := by
    rw [List.takeWhile_eq_nil_iff]
    intro hpos hc
    exact List.dropWhile_get_zero_not (· ≠ 63) (dropFragment url) hpos hc
  rw [fixBackslashes]
  constructor
  · intro h
    obtain h | h := List.mem_append.mp h
    · exact (hmap 35 h).2.1 rfl
    · exact hhash (List.dropWhile_subset _ h)
  · rw [List.takeWhile_append_of_pos fun c hc => (hmap c hc).1, hstop, List.append_nil]
    exact fun h => (hmap 92 h).2.2 rfl

theorem hostAndPort_spec {authority host port : GoogleString} (h : hostAndPort authority = some (host, port)) :
    (∀ c ∈ host, c ∈ authority) ∧ (host.head? = some 91 → ∃ inner, host = inner ++ [93] ∧ 93 ∉ inner) := by
  rw [hostAndPort] at h
  split_ifs at h with hbracket hcolon
  · split at h
    · cases h
    · rename_i close after hclose
      have hc : close = 93 := by simpa using dropWhile_stop hclose
      subst hc
      have hhost : host = authority.takeWhile (· ≠ 93) ++ [93] := by
        dsimp only at h
        split at h
        · exact (Prod.mk.inj (Option.some.inj h)).1.symm
        · split_ifs at h
          exact (Prod.mk.inj (Option.some.inj h)).1.symm
      have hfree : 93 ∉ authority.takeWhile (· ≠ 93) := fun h => by simpa using List.mem_takeWhile_imp h
      rw [hhost]
      refine ⟨fun c hc => ?_, fun _ => ⟨_, rfl, hfree⟩⟩
      rw [← List.takeWhile_append_dropWhile (p := (· ≠ 93)) (l := authority), hclose]
      obtain hc | hc := List.mem_append.mp hc
      · exact List.mem_append_left _ hc
      · rw [List.mem_singleton.mp hc]
        exact List.mem_append_right _ List.mem_cons_self
  · obtain ⟨rfl, -⟩ := Prod.mk.inj (Option.some.inj h)
    have hprefix : (authority.rdropWhile (· ≠ 58)).dropLast <+: authority :=
      (List.dropLast_prefix _).trans (List.rdropWhile_prefix _ _)
    refine ⟨fun c hc => hprefix.subset hc, fun hhead => absurd ?_ hbracket⟩
    obtain ⟨rest, hrest⟩ := List.head?_eq_some_iff.mp hhead
    obtain ⟨back, hback⟩ := hprefix
    rw [← hback, hrest]
    rfl
  · obtain ⟨rfl, -⟩ := Prod.mk.inj (Option.some.inj h)
    exact ⟨fun c hc => hc, fun hhead => absurd hhead hbracket⟩

theorem lowerChar_eq_iff {c d : UInt8} (h : d < 65 ∨ 90 < d ∧ d < 97) : lowerChar c = d ↔ c = d := by
  unfold lowerChar
  grind

theorem mem_map_lowerChar {s : GoogleString} {d : UInt8} (h : d < 65 ∨ 90 < d ∧ d < 97) :
    d ∈ s.map lowerChar ↔ d ∈ s := by
  simp only [List.mem_map, lowerChar_eq_iff h, exists_eq_right]

theorem portOut_spec {scheme port out : GoogleString} (h : portOut scheme port = some out) :
    out = [] ∨ ∃ p, p ≤ 65535 ∧ isDefaultPort scheme p = false ∧ out = 58 :: Decimal.digits 10 p := by
  rw [portOut] at h
  split_ifs at h
  · exact .inl (Option.some.inj h).symm
  · split at h
    · cases h
    · rename_i p _
      split_ifs at h with hp hdefault
      · exact .inl (Option.some.inj h).symm
      · exact .inr ⟨p, by omega, Bool.not_eq_true _ ▸ hdefault, (Option.some.inj h).symm⟩

theorem isHostByte_lowerChar {c : UInt8} (hlow : 0x20 < c) (hdel : c ≠ 0x7f) (hhash : c ≠ 35) (hslash : c ≠ 47)
    (hquery : c ≠ 63) (hat : c ≠ 64) (hback : c ≠ 92) : IsHostByte (lowerChar c) := by
  unfold IsHostByte lowerChar
  grind

/-- A host that ends in a port as `NormUrl` writes it. -/
def endsInPort (scheme host : GoogleString) : Bool :=
  (host.rdropWhile (· ≠ 58)).dropLast ≠ [] ∧
    portOut scheme (host.rtakeWhile (· ≠ 58)) = some (58 :: host.rtakeWhile (· ≠ 58))

def strayColon (url : GoogleString) : Bool :=
  match cutHttp (fixBackslashes (dropFragment (Decimal.trim url))) with
  | none => false
  | some (scheme, url) =>
    match hostAndPort (authorityOf url) with
    | none => false
    | some (host, port) =>
      58 ∈ host ∧ host.head? ≠ some 91 ∧ portOut scheme port = some [] ∧ endsInPort scheme (host.map lowerChar) = false

/-- What the last colon of a host cuts off is the port when the norm is read again. -/
theorem Norm.exists_port (n : Norm) (hbracket : n.host.head? ≠ some 91) (hport : n.port = [])
    (hends : endsInPort n.scheme n.host = true) : ∃ m : Norm, n.write = m.write ∧ m.port ≠ [] := by
  obtain ⟨hne, hout⟩ := of_decide_eq_true hends
  have hlast : n.host.rdropWhile (· ≠ 58) = (n.host.rdropWhile (· ≠ 58)).dropLast ++ [58] := by
    have hdrop : n.host.rdropWhile (· ≠ 58) ≠ [] := fun h => hne (by rw [h]; rfl)
    conv_lhs => rw [← List.dropLast_append_getLast hdrop]
    rw [show (n.host.rdropWhile (· ≠ 58)).getLast hdrop = 58 by simpa using List.rdropWhile_last_not _ _ hdrop]
  have hhost : n.host = (n.host.rdropWhile (· ≠ 58)).dropLast ++ 58 :: n.host.rtakeWhile (· ≠ 58) := by
    conv_lhs => rw [← List.rdropWhile_append_rtakeWhile (p := (· ≠ 58)) (l := n.host), hlast]
    rw [List.append_assoc]
    rfl
  generalize (n.host.rdropWhile (· ≠ 58)).dropLast = host at hne hhost
  generalize n.host.rtakeWhile (· ≠ 58) = port at hout hhost
  let m : Norm :=
    { n with
      host := host
      port := 58 :: port
      host_ne := hne
      host_bytes := fun c hc => n.host_bytes c (by rw [hhost]; exact List.mem_append_left _ hc)
      host_closed := fun hhead => absurd (by rw [hhost, List.head?_append_of_ne_nil _ hne, hhead]) hbracket
      port_canonical := portOut_spec hout }
  have hwrite : n.write = m.write := by
    rw [write, write, hhost, hport, List.append_nil, ← List.append_assoc]
  exact ⟨m, hwrite, List.cons_ne_nil _ _⟩

theorem normUrl_norm {url n : GoogleString} (h : normUrl url = some n) :
    ∃ norm : Norm, n = norm.write ∧
      (strayColon url = false → 58 ∈ norm.host → norm.host.head? = some 91 ∨ norm.port ≠ []) := by
  obtain ⟨hhash, hback⟩ := fixBackslashes_spec (Decimal.trim url)
  obtain ⟨⟨scheme, text⟩, hcut, h⟩ := Option.bind_eq_some_iff.mp h
  obtain ⟨hscheme, hhash, hback⟩ := cutHttp_spec hcut hhash hback
  dsimp only at h
  split_ifs at h with hauthority hbytes
  obtain ⟨⟨host, port⟩, hhost, h⟩ := Option.bind_eq_some_iff.mp h
  dsimp only at h
  split_ifs at h with hne
  obtain ⟨out, hout, h⟩ := Option.bind_eq_some_iff.mp h
  obtain ⟨hmem, hclosed⟩ := hostAndPort_spec hhost
  have hsplit : text = authorityOf text ++ restOf text := List.takeWhile_append_dropWhile.symm
  have hauthorityBytes : ∀ c ∈ authorityOf text, c ≠ 47 ∧ c ≠ 63 :=
    fun c hc => of_decide_eq_true (List.mem_takeWhile_imp (p := fun c : UInt8 => c ≠ 47 ∧ c ≠ 63) hc)
  have hfront : text.takeWhile (· ≠ 63) = authorityOf text ++ (restOf text).takeWhile (· ≠ 63) := by
    conv_lhs => rw [hsplit]
    exact List.takeWhile_append_of_pos fun c hc => decide_eq_true (hauthorityBytes c hc).2
  have hbyte : ∀ c ∈ authorityOf text, IsHostByte (lowerChar c) := by
    intro c hc
    rw [not_or] at hauthority
    have hlow := (List.any_eq_false.mp (Bool.not_eq_true _ ▸ hbytes)) c hc
    rw [decide_eq_true_eq, not_or, UInt8.not_le] at hlow
    refine isHostByte_lowerChar hlow.1 hlow.2 ?_ (hauthorityBytes c hc).1 (hauthorityBytes c hc).2 ?_ ?_
    · rintro rfl
      exact hhash (hsplit ▸ List.mem_append_left _ hc)
    · rintro rfl
      exact hauthority.2 hc
    · rintro rfl
      exact hback (hfront ▸ List.mem_append_left _ hc)
  have hpath : (restOf text).takeWhile (· ≠ 63) = [] ∨ ∃ rest, (restOf text).takeWhile (· ≠ 63) = 47 :: rest := by
    cases hrest : restOf text with
    | nil => exact .inl rfl
    | cons c rest =>
      have hc : c = 47 ∨ c = 63 := by
        have hstop := of_decide_eq_false (dropWhile_stop hrest)
        rwa [not_and_or, not_not, not_not] at hstop
      obtain rfl | rfl := hc
      · exact .inr ⟨rest.takeWhile (· ≠ 63), by simp⟩
      · exact .inl (by simp)
  have hquery : (pathAndQuery (restOf text)).2 = [] ∨
      ∃ q, (pathAndQuery (restOf text)).2 = 63 :: q ∧ q ≠ [] ∧ 35 ∉ q := by
    have hsnd : (pathAndQuery (restOf text)).2 = if ((restOf text).dropWhile (· ≠ 63)).length = 1 then [] else
        (restOf text).dropWhile (· ≠ 63) := rfl
    rw [hsnd]
    cases hrest : (restOf text).dropWhile (· ≠ 63) with
    | nil => exact .inl rfl
    | cons c q =>
      have hc : c = 63 := by simpa using dropWhile_stop hrest
      subst hc
      by_cases hempty : q = []
      · exact .inl (by rw [hempty]; rfl)
      · refine .inr ⟨q, if_neg (by simp [hempty]), hempty, fun h => hhash ?_⟩
        rw [hsplit]
        refine List.mem_append_right _ (List.dropWhile_subset (fun c : UInt8 => decide (c ≠ 63)) ?_)
        rw [hrest]
        exact List.mem_cons_of_mem _ h
  have hpathFree : 35 ∉ (restOf text).takeWhile (· ≠ 63) ∧ 63 ∉ (restOf text).takeWhile (· ≠ 63) ∧
      92 ∉ (restOf text).takeWhile (· ≠ 63) := by
    refine ⟨fun h => hhash ?_, fun h => by simpa using List.mem_takeWhile_imp h, fun h => hback ?_⟩
    · rw [hsplit]
      exact List.mem_append_right _ (List.takeWhile_subset _ h)
    · rw [hfront]
      exact List.mem_append_right _ h
  have hhead : (host.map lowerChar).head? = some 91 ↔ host.head? = some 91 := by
    cases host with
    | nil => exact Iff.rfl
    | cons c host => simp [lowerChar_eq_iff (by decide : (91 : UInt8) < 65 ∨ 90 < (91 : UInt8) ∧ (91 : UInt8) < 97)]
  have hlowerClosed : (host.map lowerChar).head? = some 91 → ∃ inner, host.map lowerChar = inner ++ [93] ∧ 93 ∉ inner := by
    intro hbracket
    obtain ⟨inner, heq, hfree⟩ := hclosed (hhead.mp hbracket)
    refine ⟨inner.map lowerChar, by rw [heq, List.map_append]; rfl, ?_⟩
    rwa [mem_map_lowerChar (by decide)]
  let norm : Norm :=
    { scheme := scheme
      host := host.map lowerChar
      port := out
      path := (restOf text).takeWhile (· ≠ 63)
      query := (pathAndQuery (restOf text)).2
      scheme_served := hscheme
      host_ne := by rwa [ne_eq, List.map_eq_nil_iff]
      host_bytes := fun c hc => by
        obtain ⟨b, hb, rfl⟩ := List.mem_map.mp hc
        exact hbyte b (hmem b hb)
      host_closed := hlowerClosed
      port_canonical := portOut_spec hout
      path_rooted := hpath
      path_free := hpathFree
      query_given := hquery }
  have hnorm : n = norm.trimSlash.write := (Option.some.inj h).symm
  by_cases hends : endsInPort scheme (host.map lowerChar) = true ∧ norm.host.head? ≠ some 91 ∧ out = []
  · obtain ⟨hends, hbracket, hnone⟩ := hends
    obtain ⟨m, hwrite, hport⟩ := norm.trimSlash.exists_port hbracket hnone hends
    exact ⟨m, hnorm.trans hwrite, fun _ _ => .inr hport⟩
  · refine ⟨norm.trimSlash, hnorm, fun hstray hcolon => ?_⟩
    by_contra hclear
    obtain ⟨hbracket, hport⟩ := not_or.mp hclear
    have hnone : out = [] := not_not.mp hport
    have hfalse : endsInPort scheme (host.map lowerChar) = false :=
      Bool.eq_false_iff.mpr fun htrue => hends ⟨htrue, hbracket, hnone⟩
    rw [strayColon, hcut] at hstray
    simp only [hhost, hout, hnone, hfalse] at hstray
    exact of_decide_eq_false hstray ⟨(mem_map_lowerChar (by decide)).mp hcolon, fun h => hbracket (hhead.mpr h), trivial, trivial⟩

def endsInSlash (url : GoogleString) : Bool := (url.takeWhile (· ≠ 63)).getLast? = some 47

def dropSlash (url : GoogleString) : GoogleString :=
  if endsInSlash url then (url.takeWhile (· ≠ 63)).dropLast ++ url.dropWhile (· ≠ 63) else url

theorem endsInSlash_write (n : Norm) : endsInSlash n.write = true ↔ n.path.getLast? = some 47 := by
  obtain ⟨htake, -⟩ := n.query_cut (fun h => (n.front_bytes _ h).1 rfl)
  rw [endsInSlash, n.write_front, htake, decide_eq_true_eq]
  by_cases hpath : n.path = []
  · obtain ⟨front, c, hhost⟩ : ∃ front c, n.host ++ n.port = front ++ [c] :=
      (List.eq_nil_or_concat' _).resolve_left (List.append_ne_nil_of_left_ne_nil n.host_ne _)
    have hc := (n.authority_bytes c (by rw [hhost]; exact List.mem_append_right _ List.mem_cons_self)).2.2.2.1
    rw [hpath, List.append_nil, hhost, ← List.append_assoc, List.getLast?_concat]
    simp [hc]
  · rw [← List.append_assoc, List.getLast?_append_of_ne_nil _ hpath]

theorem dropSlash_write (n : Norm) : dropSlash n.write = n.trimSlash.write := by
  obtain ⟨htake, hdrop⟩ := n.query_cut (fun h => (n.front_bytes _ h).1 rfl)
  have hends := endsInSlash_write n
  rw [n.trimSlash.write_front]
  change _ = ((n.scheme ++ ascii "://") ++ ((n.host ++ n.port) ++ Norm.trimPath n.path)) ++ n.query
  rw [dropSlash, Norm.trimPath]
  by_cases hpath : n.path.getLast? = some 47
  · have hne : n.path ≠ [] := by
      rintro h
      rw [h] at hpath
      cases hpath
    rw [if_pos (hends.mpr hpath), if_pos hpath, n.write_front, htake, hdrop, ← List.append_assoc,
      List.dropLast_append_of_ne_nil hne, List.append_assoc (n.scheme ++ ascii "://")]
  · rw [if_neg (fun h => hpath (hends.mp h)), if_neg hpath, n.write_front]

theorem normUrl_normUrl {url n : GoogleString} (h : normUrl url = some n) (hstray : strayColon url = false)
    (hlast : ∀ c ∈ n.getLast?, Decimal.isSpace c = false) :
    normUrl n = some (dropSlash n) ∧ (endsInSlash n = false → normUrl n = some n) := by
  obtain ⟨norm, rfl, hclear⟩ := normUrl_norm h
  have hagain := norm.normUrl_write (hclear hstray) hlast
  rw [← dropSlash_write] at hagain
  refine ⟨hagain, fun hends => ?_⟩
  rwa [dropSlash, if_neg (by rw [hends]; exact Bool.false_ne_true)] at hagain

theorem normUrl_normUrl_de : normUrl (ascii "https://www.example.com:8443/De?q=A") =
    some (ascii "https://www.example.com:8443/De?q=A") := by
  have hnorm : normUrl (ascii " HTTPS://Www.Example.COM:08443\\De/?q=A#top") =
      some (ascii "https://www.example.com:8443/De?q=A") := by decide
  exact (normUrl_normUrl hnorm (by decide) (by decide +kernel)).2 (by decide)

/-- Of two slashes at the end of the path one is ignored, and of the one that is left. -/
theorem normUrl_two_slashes : normUrl (ascii "https://example.com/a//") = some (ascii "https://example.com/a/") ∧
    normUrl (ascii "https://example.com/a/") ≠ some (ascii "https://example.com/a/") := by
  constructor
  · decide
  · decide

end PageSpeed.Packs
