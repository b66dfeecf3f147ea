import PageSpeed.WebBotAuth.RslCapToken
import Mathlib.Data.List.Pairwise

/-!
The fields of an RSL-CAP token are members of the signed objects, where the scan for a quoted name comes to
the member's key before any other that reads like it.
-/

namespace PageSpeed.WebBotAuth.RslCap

open Json (Lexeme Lexed Fronts Spelled Member IsObject IsValue Kind isWs isPlainByte)

theorem parseJsonChars_quote (s : GoogleString) : parseJsonChars (34 :: s) = some ([], s) := by
  rw [parseJsonChars, if_pos rfl] <;> nofun

theorem parseJsonChars_plain {bytes : GoogleString} (h : bytes.all isPlainByte = true) (s : GoogleString) :
    parseJsonChars (bytes ++ s) = (parseJsonChars s).map fun (out, rest) => (bytes ++ out, rest) := by
  induction bytes with
  | nil => simp
  | cons b bytes ih =>
    rw [List.all_cons, Bool.and_eq_true, isPlainByte, decide_eq_true_eq] at h
    obtain ⟨⟨hquote, hback⟩, hbytes⟩ := h
    rw [List.cons_append, parseJsonChars, if_neg hquote, ih hbytes, Option.map_map]
    · rfl
    · rintro rfl
      exact absurd rfl hback
    · rintro e t rfl
      exact absurd rfl hback

theorem unescape_of_escapes {letter : UInt8} {unit : ℕ} (h : (letter, unit) ∈ Json.escapes) :
    ∃ b : UInt8, b < 0x80 ∧ unescape letter = some b ∧ unit = b.toNat := by
  have hall : ∀ e ∈ Json.escapes, UInt8.ofNat e.2 < 0x80 ∧ unescape e.1 = some (UInt8.ofNat e.2) ∧
      e.2 = (UInt8.ofNat e.2).toNat := by decide
  exact ⟨_, hall _ h⟩

variable {b : UInt8} {units : List ℕ} {t out rest word chars : GoogleString} {more after value lexemes : List Lexeme}

theorem utf16_ascii (hb : b < 0x80) : Json.utf16 (Char.ofNat b.toNat) = [b.toNat] := by
  have hlt : b.toNat < 0x80 := hb
  rw [Json.utf16, Utf8.toNat_ofNat (by omega), if_pos (by omega)]

theorem text_of_parseJsonChars (h : Spelled units chars)
    {s : GoogleString} (hparse : parseJsonChars (chars ++ 34 :: s) = some (out, rest)) :
    rest = s ∧ ∃ text : List Char, out = Utf8.encode text ∧ units = text.flatMap Json.utf16 := by
  induction h generalizing out with
  | nil =>
    rw [List.nil_append, parseJsonChars_quote] at hparse
    cases hparse
    exact ⟨rfl, [], rfl, rfl⟩
  | @char units more bytes t hchar _ ih =>
    rw [List.append_assoc] at hparse
    cases hchar with
    | @char c hlow hquote hback =>
      rw [parseJsonChars_plain (Json.encodeChar_plain hquote hback)] at hparse
      obtain ⟨⟨next, tail⟩, hnext, heq⟩ := Option.map_eq_some_iff.mp hparse
      cases heq
      obtain ⟨hrest, text, rfl, rfl⟩ := ih hnext
      exact ⟨hrest, c :: text, (Utf8.encode_cons c text).symm, List.flatMap_cons.symm⟩
    | @escape letter unit hmem =>
      obtain ⟨b, hb, hread, rfl⟩ := unescape_of_escapes hmem
      rw [List.cons_append, List.cons_append, parseJsonChars, hread, Option.bind_some] at hparse
      obtain ⟨⟨next, tail⟩, hnext, heq⟩ := Option.map_eq_some_iff.mp hparse
      cases heq
      obtain ⟨hrest, text, rfl, rfl⟩ := ih hnext
      refine ⟨hrest, Char.ofNat b.toNat :: text, ?_, ?_⟩
      · rw [Utf8.encode_cons, Utf8.ascii_ofNat hb]
        rfl
      · rw [List.flatMap_cons, utf16_ascii hb]
    | @hex digits hlength hdigits =>
      rw [List.cons_append, List.cons_append, parseJsonChars] at hparse
      cases hparse

def isFieldName (f : GoogleString) : Bool :=
  !f.isEmpty && f.all (fun b => 97 ≤ b ∧ b ≤ 122) &&
    [ascii "true", ascii "false", ascii "null"].all fun word => !word.isPrefixOf f

theorem plain_of_isFieldName {f : GoogleString} (h : isFieldName f = true) : f.all isPlainByte = true := by
  simp only [isFieldName, Bool.and_eq_true] at h
  refine List.all_eq_true.mpr fun b hb => ?_
  have hletter := List.all_eq_true.mp h.1.2 b hb
  unfold isPlainByte
  grind

theorem valueHere_needle (f s : GoogleString) : valueHere f (34 :: (f ++ 34 :: s)) = afterColon s := by
  have hsplit : 34 :: (f ++ 34 :: s) = needle f ++ s := by simp [needle]
  rw [valueHere, hsplit, if_pos (List.isPrefixOf_iff_prefix.mpr (List.prefix_append _ _)), List.drop_left]

theorem valueHere_none {f : GoogleString} (h : ∀ s, t ≠ 34 :: (f ++ 34 :: s)) : valueHere f t = none := by
  rw [valueHere, if_neg]
  intro hpre
  obtain ⟨s, rfl⟩ := List.isPrefixOf_iff_prefix.mp hpre
  exact h s (by simp [needle])

theorem find_skip {f : GoogleString} (h : 34 ∉ word) (s : GoogleString) :
    findKeyValueStart f (word ++ s) = findKeyValueStart f s := by
  induction word with
  | nil => rfl
  | cons b word ih =>
    rw [List.mem_cons, not_or] at h
    rw [List.cons_append, findKeyValueStart, valueHere_none, ih h.2]
    · rfl
    · intro t heq
      exact h.1 (List.cons.inj heq).1.symm

theorem suffix_append_iff {f w : GoogleString} (hw : 34 ∉ w) : 34 :: f <:+ w ++ t ↔ 34 :: f <:+ t := by
  refine ⟨fun hsuf => ?_, fun hsuf => hsuf.trans (List.suffix_append w t)⟩
  induction w with
  | nil => exact hsuf
  | cons b w ih =>
    rw [List.mem_cons, not_or] at hw
    obtain heq | hsuf := List.suffix_cons_iff.mp hsuf
    · exact absurd (List.cons.inj heq).1 hw.1
    · exact ih hw.2 hsuf

theorem find_quote {f : GoogleString} (hf : f.all isPlainByte = true) (h : Spelled units chars) {s : GoogleString}
    (hrest : findKeyValueStart f (chars ++ 34 :: s) =
      ((if 34 :: f <:+ chars then afterColon s else none) <|> findKeyValueStart f (34 :: s))) :
    findKeyValueStart f (34 :: (chars ++ 34 :: s)) =
      ((if 34 :: f <:+ 34 :: chars then afterColon s else none) <|> findKeyValueStart f (34 :: s)) := by
  rw [findKeyValueStart, hrest]
  by_cases heq : chars = f
  · have hnot : ¬34 :: f <:+ f := fun hsuf => absurd hsuf.length_le (by simp)
    rw [heq, valueHere_needle, if_neg hnot, if_pos List.suffix_rfl]
    rfl
  · have hnone : valueHere f (34 :: (chars ++ 34 :: s)) = none := valueHere_none fun t ht =>
      heq (Json.spelled_before_quote h hf (List.cons.inj ht).2).1
    have hsuf : 34 :: f <:+ 34 :: chars ↔ 34 :: f <:+ chars := by
      rw [List.suffix_cons_iff]
      refine or_iff_right fun hcons => heq (List.cons.inj hcons).2.symm
    rw [hnone]
    simp only [hsuf]
    rfl

theorem find_chars {f : GoogleString} (hf : f.all isPlainByte = true) (h : Spelled units chars) (s : GoogleString) :
    findKeyValueStart f (chars ++ 34 :: s) =
      ((if 34 :: f <:+ chars then afterColon s else none) <|> findKeyValueStart f (34 :: s)) := by
  induction h with
  | nil => simp
  | @char units more bytes t hchar hmore ih =>
    rw [List.append_assoc]
    obtain hall | rfl | ⟨rest, rfl, hfree⟩ := Json.char_bytes hchar
    · rw [find_skip (Json.not_mem_quote hall), ih]
      simp only [suffix_append_iff (Json.not_mem_quote hall)]
    · have hsplit : ([92, 34] : GoogleString) ++ t = [92] ++ 34 :: t := rfl
      have hback : 34 ∉ ([92] : GoogleString) := by decide
      rw [hsplit, List.cons_append, List.singleton_append, ← List.singleton_append (x := 92), find_skip hback,
        find_quote hf hmore ih]
      simp only [suffix_append_iff hback]
    · have hback : 34 ∉ 92 :: rest := by
        rw [List.mem_cons, not_or]
        exact ⟨by decide, hfree⟩
      rw [find_skip hback, ih]
      simp only [suffix_append_iff hback]

theorem find_string {f : GoogleString} (hf : f.all isPlainByte = true) (h : Spelled units chars) (s : GoogleString) :
    findKeyValueStart f (34 :: (chars ++ 34 :: s)) =
      ((if 34 :: f <:+ 34 :: chars then afterColon s else none) <|> findKeyValueStart f (34 :: s)) :=
  find_quote hf h (find_chars hf h s)

theorem word_of_letter (h : Json.IsLiteral word) (hword : word = b :: rest)
    (hb : 97 ≤ b ∧ b ≤ 122) : word ∈ [ascii "true", ascii "false", ascii "null"] := by
  obtain ⟨minus, int, fraction, exponent, heq, hminus, hint, -, -⟩ | rfl | rfl | rfl := h
  · exfalso
    obtain ⟨d, digits, hdigits⟩ := List.exists_cons_of_ne_nil hint.1.1
    have hd := hint.1.2 d (by rw [hdigits]; exact List.mem_cons_self)
    obtain rfl | rfl := hminus
    · rw [hword, hdigits] at heq
      obtain ⟨rfl, -⟩ := List.cons.inj heq
      unfold Json.isDigit at hd
      grind
    · rw [hword] at heq
      obtain ⟨rfl, -⟩ := List.cons.inj heq
      exact absurd hb (by decide)
  · decide
  · decide
  · decide

theorem find_closing {f : GoogleString} (hf : isFieldName f = true) {s : GoogleString}
    (h : Lexed lexemes s) : findKeyValueStart f (34 :: s) = findKeyValueStart f s := by
  rw [findKeyValueStart, valueHere_none]
  · rfl
  intro t ht
  obtain ⟨-, heq⟩ := List.cons.inj ht
  simp only [isFieldName, Bool.and_eq_true] at hf
  obtain ⟨⟨hne, hletters⟩, hwords⟩ := hf
  obtain ⟨b, f, rfl⟩ : ∃ b rest, f = b :: rest := List.exists_cons_of_ne_nil (by simpa using hne)
  have hb : 97 ≤ b ∧ b ≤ 122 := of_decide_eq_true (List.all_eq_true.mp hletters b List.mem_cons_self)
  have hquote : 34 ∉ b :: f := fun hmem => absurd (List.all_eq_true.mp hletters 34 hmem) (by decide)
  rw [List.cons_append] at heq
  cases h with
  | nil => cases heq
  | ws hws _ =>
    obtain ⟨rfl, -⟩ := List.cons.inj heq
    unfold isWs at hws
    grind
  | mark hmark _ =>
    obtain ⟨rfl, -⟩ := List.cons.inj heq
    unfold Json.isMark at hmark
    grind
  | @literal word _ s hword _ =>
    obtain ⟨c, rest, rfl, -⟩ := Json.literal_cons hword
    rw [List.cons_append] at heq
    obtain ⟨rfl, htail⟩ := List.cons.inj heq
    have hmem := word_of_letter hword rfl hb
    have hpre : ¬c :: rest <+: c :: f := by
      have hnot := List.all_eq_true.mp hwords _ hmem
      rwa [Bool.not_eq_true', ← Bool.not_eq_true, List.isPrefixOf_iff_prefix] at hnot
    obtain ⟨mid, hmid, -⟩ | ⟨mid, hmid, hs⟩ := List.append_eq_append_iff.mp htail
    · exact hpre ⟨mid, by rw [hmid]; rfl⟩
    · cases mid with
      | nil => exact hpre ⟨[], by rw [hmid, List.append_nil, List.append_nil]⟩
      | cons d mid =>
        obtain ⟨rfl, -⟩ := List.cons.inj hs
        have hbyte := Json.literal_bytes hword 34 (by rw [hmid]; simp)
        exact absurd hbyte (by decide)
  | string _ _ =>
    obtain ⟨rfl, -⟩ := List.cons.inj heq
    exact hquote List.mem_cons_self

/-- What is after the first key that reads like `f`. -/
def keyRest (f : GoogleString) : List Lexeme → Option (List Lexeme)
  | .string chars :: .mark b :: lexemes =>
    if b = 58 ∧ 34 :: f <:+ 34 :: chars then some lexemes else keyRest f lexemes
  | _ :: lexemes => keyRest f lexemes
  | [] => none

@[simp] theorem keyRest_mark (f : GoogleString) (b : UInt8) (lexemes : List Lexeme) :
    keyRest f (.mark b :: lexemes) = keyRest f lexemes := by rw [keyRest]; nofun

@[simp] theorem keyRest_literal (f word : GoogleString) (lexemes : List Lexeme) :
    keyRest f (.literal word :: lexemes) = keyRest f lexemes := by rw [keyRest]; nofun

structure Finds (f : GoogleString) (lexemes : List Lexeme) (s : GoogleString) : Prop where
  absent : keyRest f lexemes = none → findKeyValueStart f s = none
  found : ∀ rest, keyRest f lexemes = some rest → ∃ t, findKeyValueStart f s = some t ∧ Lexed rest t

theorem Finds.congr {f : GoogleString} {lexemes' : List Lexeme} {s s' : GoogleString} (h : Finds f lexemes s)
    (hkey : keyRest f lexemes' = keyRest f lexemes) (hfind : findKeyValueStart f s' = findKeyValueStart f s) :
    Finds f lexemes' s' := by
  refine ⟨fun hnone => ?_, fun rest hrest => ?_⟩
  · rw [hfind]
    exact h.absent (hkey ▸ hnone)
  · rw [hfind]
    exact h.found rest (hkey ▸ hrest)

theorem finds_lexed {f : GoogleString} (hf : isFieldName f = true) {s : GoogleString}
    (h : Lexed lexemes s) : Finds f lexemes s := by
  have hbyte : ∀ {b : UInt8} (t : GoogleString), b ≠ 34 → findKeyValueStart f (b :: t) = findKeyValueStart f t := by
    intro b t hb
    have hfree : 34 ∉ [b] := by simpa using Ne.symm hb
    exact find_skip hfree t
  induction h with
  | nil => exact ⟨fun _ => rfl, nofun⟩
  | @ws b lexemes s hb _ ih =>
    refine ih.congr rfl (hbyte s ?_)
    rintro rfl
    exact absurd hb (by decide)
  | @mark b lexemes s hb _ ih =>
    refine ih.congr (keyRest_mark f b lexemes) (hbyte s ?_)
    rintro rfl
    exact absurd hb (by decide)
  | @literal word lexemes s hword _ ih =>
    refine ih.congr (keyRest_literal f word lexemes) (find_skip (fun hmem => ?_) s)
    exact absurd (Json.literal_bytes hword 34 hmem) (by decide)
  | @string units chars lexemes s hchars hrest ih =>
    have hfind : findKeyValueStart f (34 :: (chars ++ 34 :: s)) =
        ((if 34 :: f <:+ 34 :: chars then afterColon s else none) <|> findKeyValueStart f s) := by
      rw [find_string (plain_of_isFieldName hf) hchars, find_closing hf hrest]
    have hother : ∀ {c : UInt8} {t : GoogleString}, c ≠ 58 → skipWs s = c :: t → afterColon s = none := by
      intro c t hc hskip
      rw [afterColon, hskip]
      exact if_neg hc
    have hfront := hrest.front
    change Fronts lexemes (skipWs s) at hfront
    generalize hskip : skipWs s = front at hfront
    cases hfront with
    | nil =>
      refine ih.congr rfl ?_
      rw [hfind, afterColon, hskip, ite_self]
      rfl
    | @mark b rest t hb hlexed =>
      by_cases hkey : b = 58 ∧ 34 :: f <:+ 34 :: chars
      · obtain ⟨rfl, hsuf⟩ := hkey
        have hafter : afterColon s = some t := by
          rw [afterColon, hskip]
          exact if_pos rfl
        rw [if_pos hsuf, hafter] at hfind
        refine ⟨fun hnone => ?_, fun after hafter => ?_⟩
        · rw [keyRest, if_pos ⟨rfl, hsuf⟩] at hnone
          cases hnone
        · rw [keyRest, if_pos ⟨rfl, hsuf⟩] at hafter
          cases hafter
          exact ⟨t, hfind, hlexed⟩
      · refine ih.congr ?_ ?_
        · rw [keyRest, if_neg hkey, keyRest_mark]
        · rw [hfind]
          by_cases hb : b = 58
          · rw [if_neg fun hsuf => hkey ⟨hb, hsuf⟩]
            rfl
          · rw [hother hb hskip, ite_self]
            rfl
    | @literal word rest t hword _ =>
      obtain ⟨c, tail, rfl, hc⟩ := Json.literal_cons hword
      refine ih.congr (by rw [keyRest]; nofun) ?_
      rw [hfind, hother (by rintro rfl; exact absurd hc (by decide)) hskip, ite_self]
      rfl
    | string _ _ =>
      refine ih.congr (by rw [keyRest]; nofun) ?_
      rw [hfind, hother (by decide) hskip, ite_self]
      rfl

def Names (f : GoogleString) (m : Member) : Prop := Spelled (f.map UInt8.toNat) m.key

def ReadsAs (f key : GoogleString) : Prop := 34 :: f <:+ 34 :: key

def Unshadowed (f : GoogleString) (members : List Member) : Prop :=
  ∀ m ∈ members.takeWhile (·.key ≠ f), ¬Names f m ∧ ¬ReadsAs f m.key ∧ ∀ key ∈ Json.keys m.value, ¬ReadsAs f key

theorem keyRest_string (f chars : GoogleString) (h : lexemes.head? ≠ some (.mark 58)) :
    keyRest f (.string chars :: lexemes) = keyRest f lexemes := by
  cases lexemes with
  | nil => rfl
  | cons lexeme lexemes =>
    cases lexeme with
    | mark b =>
      have hb : ¬(b = 58 ∧ 34 :: f <:+ 34 :: chars) := by
        rintro ⟨rfl, -⟩
        exact h rfl
      rw [keyRest, if_neg hb, keyRest_mark]
    | literal word => rw [keyRest]; nofun
    | string other => rw [keyRest]; nofun

theorem keyRest_append {f : GoogleString} (h : ∀ key ∈ Json.keys value, ¬ReadsAs f key)
    (hmore : more.head? ≠ some (.mark 58)) : keyRest f (value ++ more) = keyRest f more := by
  induction value using Json.keys.induct with
  | case1 chars lexemes ih =>
    rw [Json.keys, if_pos rfl] at h
    have hkey : ¬((58 : UInt8) = 58 ∧ 34 :: f <:+ 34 :: chars) := fun hkey => h chars List.mem_cons_self hkey.2
    rw [List.cons_append, List.cons_append, keyRest, if_neg hkey, ih fun key hkey => h key (List.mem_cons_of_mem _ hkey)]
  | case2 chars b lexemes hb ih =>
    rw [Json.keys, if_neg hb] at h
    rw [List.cons_append, List.cons_append, keyRest, if_neg fun hkey => hb hkey.1, ih h]
  | case3 lexeme lexemes hother ih =>
    rw [Json.keys] at h
    · rw [List.cons_append]
      cases lexeme with
      | mark b => rw [keyRest_mark, ih h]
      | literal word => rw [keyRest_literal, ih h]
      | string chars =>
        rw [keyRest_string, ih h]
        cases lexemes with
        | nil => exact hmore
        | cons next lexemes =>
          rintro heq
          cases heq
          exact hother chars 58 lexemes rfl rfl
    · exact hother
  | case4 => rfl

theorem membersTail_head (members : List Member) : (Json.membersTail members).head? ≠ some (.mark 58) := by
  cases members with
  | nil => exact fun h => absurd (Lexeme.mark.inj (Option.some.inj h)) (by decide)
  | cons m members => exact fun h => absurd (Lexeme.mark.inj (Option.some.inj h)) (by decide)

theorem membersTail_cons (m : Member) (members : List Member) :
    Json.membersTail (m :: members) = .mark 44 :: .string m.key :: .mark 58 :: (m.value ++ Json.membersTail members) := by
  simp [Json.membersTail, Member.lexemes]

theorem keyRest_object (f : GoogleString) (members : List Member) :
    keyRest f (Json.objectLexemes members) = keyRest f (Json.membersTail members) := by
  cases members with
  | nil => rfl
  | cons m members =>
    rw [membersTail_cons]
    rfl

theorem keyRest_members {f : GoogleString} {members : List Member} (h : Unshadowed f members) :
    (∃ m ∈ members, m.key = f ∧ ∃ after, keyRest f (Json.membersTail members) = some (m.value ++ Json.membersTail after)) ∨
      (∀ m ∈ members, ¬Names f m) ∧ keyRest f (Json.membersTail members) = none := by
  induction members with
  | nil => exact .inr ⟨nofun, rfl⟩
  | cons m members ih =>
    by_cases hkey : m.key = f
    · left
      refine ⟨m, List.mem_cons_self, hkey, members, ?_⟩
      have hreads : 34 :: f <:+ 34 :: m.key := hkey ▸ List.suffix_rfl
      rw [membersTail_cons, keyRest_mark, keyRest, if_pos ⟨rfl, hreads⟩]
    · rw [Unshadowed, List.takeWhile_cons_of_pos (by simpa using hkey), List.forall_mem_cons] at h
      obtain ⟨⟨hname, hreads, hvalue⟩, hrest⟩ := h
      have htail : keyRest f (Json.membersTail (m :: members)) = keyRest f (Json.membersTail members) := by
        rw [membersTail_cons, keyRest_mark, keyRest, if_neg fun h => hreads h.2,
          keyRest_append hvalue (membersTail_head members)]
      rw [htail]
      obtain ⟨m', hm', hkey', hafter⟩ | ⟨hnone, hrest⟩ := ih hrest
      · exact .inl ⟨m', List.mem_cons_of_mem m hm', hkey', hafter⟩
      · exact .inr ⟨List.forall_mem_cons.mpr ⟨hname, hnone⟩, hrest⟩

theorem extract_member {α : Type} {read : GoogleString → Option α} {f s : GoogleString} (hf : isFieldName f = true)
    {members : List Member} (hobject : IsObject members s) (h : Unshadowed f members) :
    (extract read s f = .absent → ∀ m ∈ members, ¬Names f m) ∧
      ∀ a, extract read s f = .found a → ∃ m ∈ members, m.key = f ∧ IsValue (m.value.map Lexeme.kind) ∧
        ∃ after t, Lexed (m.value ++ Json.membersTail after) t ∧ read (skipWs t) = some a := by
  have hfinds := finds_lexed hf hobject.lexed
  obtain ⟨m, hm, hkey, after, hrest⟩ | ⟨hnone, hrest⟩ := keyRest_members h
  · obtain ⟨t, hfind, hlexed⟩ := hfinds.found _ ((keyRest_object f members).trans hrest)
    refine ⟨fun habsent => ?_, fun a ha => ⟨m, hm, hkey, hobject.values m hm, after, t, hlexed, ?_⟩⟩
    · rw [extract, hfind] at habsent
      dsimp only at habsent
      split at habsent <;> cases habsent
    · rw [extract, hfind] at ha
      dsimp only at ha
      split at ha
      · cases ha
      · next hread =>
        cases ha
        exact hread
  · have hfind := hfinds.absent ((keyRest_object f members).trans hrest)
    refine ⟨fun _ => hnone, fun a ha => ?_⟩
    rw [extract, hfind] at ha
    cases ha

def TextIs (chars out : GoogleString) : Prop :=
  ∃ text : List Char, out = Utf8.encode text ∧ Spelled (text.flatMap Json.utf16) chars

def StringIs (out : GoogleString) (value : List Lexeme) : Prop := ∃ chars, value = [.string chars] ∧ TextIs chars out

def IntegerIs (out : Int64) (value : List Lexeme) : Prop :=
  ∀ minus int, value = [.literal (minus ++ int)] → minus = [] ∨ minus = [45] → Json.IsInt int →
    out.toInt = if minus = [45] then -(Decimal.value int : ℤ) else Decimal.value int

def elementsTail : List GoogleString → List Lexeme
  | [] => [.mark 93]
  | [chars] => [.string chars, .mark 93]
  | chars :: others => .string chars :: .mark 44 :: elementsTail others

def ArrayIs (out : List GoogleString) (value : List Lexeme) : Prop :=
  ∃ strings, value = .mark 91 :: elementsTail strings ∧ List.Forall₂ TextIs strings out

theorem lexed_of_parseJsonString (h : Lexed lexemes t) (hparse : parseJsonString (skipWs t) = some (out, rest)) :
    ∃ chars more, lexemes = .string chars :: more ∧ TextIs chars out ∧ Lexed more rest := by
  have hfront := h.front
  change Fronts lexemes (skipWs t) at hfront
  generalize skipWs t = front at hfront hparse
  cases hfront with
  | nil => cases hparse
  | @mark b more s hb _ =>
    have hquote : b ≠ 34 := by
      rintro rfl
      exact absurd hb (by decide)
    rw [parseJsonString, if_neg hquote] at hparse
    cases hparse
  | @literal word more s hword _ =>
    obtain ⟨c, tail, rfl, hc⟩ := Json.literal_cons hword
    have hquote : c ≠ 34 := by
      rintro rfl
      exact absurd hc (by decide)
    rw [List.cons_append, parseJsonString, if_neg hquote] at hparse
    cases hparse
  | @string units chars more s hchars hrest =>
    rw [parseJsonString, if_pos rfl] at hparse
    obtain ⟨rfl, text, rfl, rfl⟩ := text_of_parseJsonChars hchars hparse
    exact ⟨chars, more, rfl, ⟨text, rfl, hchars⟩, hrest⟩

theorem value_of_string (h : IsValue (value.map Lexeme.kind))
    (heq : value ++ more = .string chars :: after) : value = [.string chars] ∧ more = after := by
  cases value with
  | nil => exact absurd rfl h.ne_nil
  | cons lexeme value =>
    obtain ⟨rfl, hrest⟩ := List.cons.inj heq
    have hnil := List.map_eq_nil_iff.mp (Json.IsValue.of_string h)
    rw [hnil] at hrest ⊢
    exact ⟨rfl, hrest⟩

theorem stringIs_of_readString (h : IsValue (value.map Lexeme.kind))
    (hlexed : Lexed (value ++ more) t) (hread : readString (skipWs t) = some out) : StringIs out value := by
  obtain ⟨⟨out, rest⟩, hparse, rfl⟩ := Option.map_eq_some_iff.mp hread
  obtain ⟨chars, after, heq, htext, -⟩ := lexed_of_parseJsonString hlexed hparse
  exact ⟨chars, (value_of_string h heq).1, htext⟩

theorem not_digit_after (h : Lexed lexemes t)
    (hhead : ∀ word, lexemes.head? ≠ some (.literal word)) (c : UInt8) (hc : c ∈ t.head?) : Decimal.isDigit c = false := by
  cases h with
  | nil => cases hc
  | ws hb _ =>
    cases hc
    unfold isWs at hb
    unfold Decimal.isDigit
    grind
  | mark hb _ =>
    cases hc
    unfold Json.isMark at hb
    unfold Decimal.isDigit
    grind
  | literal _ _ => exact absurd rfl (hhead _)
  | string _ _ =>
    cases hc
    rfl

theorem toInt_of_parse {negative : Bool} {digits : GoogleString} (hdigits : digits.all Decimal.isDigit = true)
    {v : Int64} (h : Decimal.parse ((if negative then [45] else []) ++ digits) = some v) :
    v.toInt = if negative then -(Decimal.value digits : ℤ) else Decimal.value digits := by
  have hspace : ∀ c ∈ digits, Decimal.isSpace c = false := fun c hc =>
    Decimal.not_space_of_digit (List.all_eq_true.mp hdigits c hc)
  have hsigned : Decimal.signed (Decimal.trim ((if negative then [45] else []) ++ digits)) = (negative, digits) := by
    cases negative with
    | true =>
      rw [if_pos rfl, List.singleton_append, Decimal.trim_eq_self (List.forall_mem_cons.mpr ⟨rfl, hspace⟩)]
      rfl
    | false =>
      rw [if_neg Bool.false_ne_true, List.nil_append, Decimal.trim_eq_self hspace]
      exact Decimal.signed_of_digits hdigits
  rw [Decimal.parse, hsigned] at h
  dsimp only at h
  generalize (if negative = true then -(Decimal.value digits : ℤ) else Decimal.value digits) = n at h
  split_ifs at h with hbounds
  cases h
  exact Int64.toInt_ofInt_of_le hbounds.2.2.1 hbounds.2.2.2

theorem isDigit_of_json (h : Json.isDigit b = true) : Decimal.isDigit b = true := by
  unfold Json.isDigit at h
  unfold Decimal.isDigit
  grind

theorem integerIs_of_readInt64 {v : Int64}
    (hmore : ∀ word, more.head? ≠ some (.literal word)) (hlexed : Lexed (value ++ more) t)
    (hread : readInt64 (skipWs t) = some v) : IntegerIs v value := by
  rintro minus int rfl hminus hint
  have hfront := hlexed.front
  change Fronts _ (skipWs t) at hfront
  generalize skipWs t = front at hfront hread
  cases hfront with
  | @literal _ _ s hword hrest =>
    have hdigits : int.all Decimal.isDigit = true :=
      List.all_eq_true.mpr fun b hb => isDigit_of_json (hint.1.2 b hb)
    have htake : (int ++ s).takeWhile Decimal.isDigit = int := by
      rw [List.takeWhile_append_of_pos (List.all_eq_true.mp hdigits)]
      have hstop := not_digit_after hrest hmore
      cases s with
      | nil => simp
      | cons c s => rw [List.takeWhile_cons_of_neg (by rw [hstop c rfl]; exact Bool.false_ne_true), List.append_nil]
    rw [readInt64] at hread
    obtain rfl | rfl := hminus
    · obtain ⟨d, digits, rfl⟩ := List.exists_cons_of_ne_nil hint.1.1
      have hd : Decimal.isDigit d = true := isDigit_of_json (hint.1.2 d List.mem_cons_self)
      have hsign : ¬(List.head? (d :: digits ++ s) = some 45 ∨ List.head? (d :: digits ++ s) = some 43) := by
        rintro (h | h)
        · rw [Option.some.inj h] at hd
          exact absurd hd (by decide)
        · rw [Option.some.inj h] at hd
          exact absurd hd (by decide)
      simp only [List.nil_append, if_neg hsign, List.length_nil, List.drop_zero, htake, reduceCtorEq, if_false] at hread
      rw [if_neg (by decide), @toInt_of_parse false _ hdigits _ hread, if_neg Bool.false_ne_true]
    · have hsign : ([45] ++ int ++ s).head? = some 45 ∨ ([45] ++ int ++ s).head? = some 43 := .inl rfl
      have htext : ([45] ++ int ++ s).take 1 = [45] := rfl
      have hdrop : ([45] ++ int ++ s).drop ([45] : GoogleString).length = int ++ s := rfl
      simp only [if_pos hsign, htext, hdrop, htake] at hread
      split_ifs at hread
      rw [if_pos rfl, @toInt_of_parse true _ hdigits _ hread, if_pos rfl]

def ReadsElements (out : List GoogleString) (s : GoogleString) (result : List GoogleString) : Prop :=
  ∀ lexemes, Lexed lexemes s → ∃ strings more read, strings ≠ [] ∧ lexemes = elementsTail strings ++ more ∧
    result = out ++ read ∧ List.Forall₂ TextIs strings read

theorem lexed_mark {s : GoogleString} {c : UInt8} (h : Lexed lexemes t)
    (hskip : skipWs t = c :: s) (hc : c = 44 ∨ c = 93 ∨ c = 91) : ∃ more, lexemes = .mark c :: more ∧ Lexed more s := by
  have hfront := h.front
  change Fronts lexemes (skipWs t) at hfront
  generalize hgen : skipWs t = front at hfront
  rw [hskip] at hgen
  cases hfront with
  | nil => cases hgen
  | mark _ hrest =>
    cases hgen
    exact ⟨_, rfl, hrest⟩
  | literal hword _ =>
    obtain ⟨d, tail, rfl, hd⟩ := Json.literal_cons hword
    obtain ⟨rfl, -⟩ := List.cons.inj hgen
    obtain rfl | rfl | rfl := hc <;> exact absurd hd (by decide)
  | string _ _ =>
    obtain ⟨rfl, -⟩ := List.cons.inj hgen
    exact absurd hc (by decide)

theorem elementTurn_eq {out : List GoogleString} {s : GoogleString} {outcome : List GoogleString ⊕ List GoogleString × GoogleString}
    (h : elementTurn out s = some outcome) : ∃ elem t c rest, parseJsonString (skipWs s) = some (elem, t) ∧
      skipWs t = c :: rest ∧
      (c = 44 ∧ outcome = .inr (out ++ [elem], rest) ∨ c = 93 ∧ outcome = .inl (out ++ [elem])) := by
  rw [elementTurn] at h
  split_ifs at h
  obtain ⟨⟨elem, t⟩, hparse, h⟩ := Option.bind_eq_some_iff.mp h
  dsimp only at h
  cases hskip : skipWs t with
  | nil =>
    rw [hskip] at h
    cases h
  | cons c rest =>
    rw [hskip] at h
    dsimp only at h
    refine ⟨elem, t, c, rest, hparse, hskip, ?_⟩
    split_ifs at h with hcomma hbracket
    · cases h
      exact .inl ⟨hcomma, rfl⟩
    · cases h
      exact .inr ⟨hbracket, rfl⟩

theorem readsElements_of_loop {out result : List GoogleString} {s : GoogleString}
    (h : Reader.loop elementTurn out s = some result) : ReadsElements out s result := by
  refine Reader.of_loop (fun out s result hturn => ?_) (fun out s out' rest result hturn hrest => ?_) h
  · intro lexemes hlexed
    obtain ⟨elem, t, c, tail, hparse, hskip, ⟨-, heq⟩ | ⟨rfl, heq⟩⟩ := elementTurn_eq hturn
    · cases heq
    · cases heq
      obtain ⟨chars, more, rfl, htext, hmore⟩ := lexed_of_parseJsonString hlexed hparse
      obtain ⟨more, rfl, -⟩ := lexed_mark hmore hskip (.inr (.inl rfl))
      exact ⟨[chars], more, [elem], List.cons_ne_nil _ _, rfl, rfl, .cons htext .nil⟩
  · intro lexemes hlexed
    obtain ⟨elem, t, c, tail, hparse, hskip, ⟨rfl, heq⟩ | ⟨-, heq⟩⟩ := elementTurn_eq hturn
    · cases heq
      obtain ⟨chars, more, rfl, htext, hmore⟩ := lexed_of_parseJsonString hlexed hparse
      obtain ⟨more, rfl, hnext⟩ := lexed_mark hmore hskip (.inl rfl)
      obtain ⟨strings, more, read, hne, rfl, rfl, htexts⟩ := hrest more hnext
      refine ⟨chars :: strings, more, elem :: read, List.cons_ne_nil _ _, ?_, by simp, .cons htext htexts⟩
      obtain ⟨next, others, rfl⟩ := List.exists_cons_of_ne_nil hne
      rfl
    · cases heq

theorem intercalate_cons_head (sep : List Kind) (kind : Kind) (kinds : List Kind) (items : List (List Kind)) :
    ∃ tail, sep.intercalate ((kind :: kinds) :: items) = kind :: tail := by
  cases items with
  | nil => exact ⟨kinds, List.intercalate_singleton⟩
  | cons next items => exact ⟨_, List.intercalate_cons_cons⟩

theorem eq_mark_of_kind {lexeme : Lexeme} (h : lexeme.kind = .mark b) : lexeme = .mark b := by
  cases lexeme with
  | mark c => rw [Kind.mark.inj h]
  | literal _ => cases h
  | string _ => cases h

theorem array_of_elements {items : List (List Kind)} (hitems : ∀ item ∈ items, IsValue item) {strings : List GoogleString}
    (hne : strings ≠ []) (hkinds : value.map Lexeme.kind = [Kind.mark 44].intercalate items ++ [.mark 93])
    (heq : value ++ more = elementsTail strings ++ after) : value = elementsTail strings := by
  induction strings generalizing items value with
  | nil => exact absurd rfl hne
  | cons chars strings ih =>
    have hhead : elementsTail (chars :: strings) = .string chars ::
        if strings = [] then [.mark 93] else .mark 44 :: elementsTail strings := by
      cases strings <;> rfl
    rw [hhead] at heq ⊢
    cases items with
    | nil =>
      obtain ⟨lexeme, rest, rfl, hkind, -⟩ := List.map_eq_cons_iff.mp hkinds
      rw [eq_mark_of_kind hkind] at heq
      cases heq
    | cons item items =>
      obtain ⟨hitem, hothers⟩ := List.forall_mem_cons.mp hitems
      cases items with
      | nil =>
        rw [List.intercalate_singleton] at hkinds
        obtain ⟨first, last, rfl, rfl, hlast⟩ := List.map_eq_append_iff.mp hkinds
        obtain ⟨lexeme, rest, rfl, hkind, hrest⟩ := List.map_eq_cons_iff.mp hlast
        obtain rfl := List.map_eq_nil_iff.mp hrest
        obtain rfl := eq_mark_of_kind hkind
        rw [List.append_assoc] at heq
        obtain ⟨rfl, htail⟩ := value_of_string hitem heq
        split_ifs at htail ⊢
        · rfl
        · cases htail
      | cons next items =>
        rw [List.intercalate_cons_cons, List.append_assoc, List.append_assoc, List.singleton_append] at hkinds
        obtain ⟨first, last, rfl, rfl, hlast⟩ := List.map_eq_append_iff.mp hkinds
        obtain ⟨lexeme, rest, rfl, hkind, hrest⟩ := List.map_eq_cons_iff.mp hlast
        obtain rfl := eq_mark_of_kind hkind
        rw [List.append_assoc] at heq
        obtain ⟨rfl, htail⟩ := value_of_string hitem heq
        split_ifs at htail ⊢ with hstrings
        · cases htail
        · have htail := (List.cons.inj htail).2
          rw [ih hothers hstrings hrest htail]
          rfl

theorem array_of_bracket {items : List (List Kind)} (hitems : ∀ item ∈ items, IsValue item)
    (hkinds : value.map Lexeme.kind = [Kind.mark 44].intercalate items ++ [.mark 93])
    (heq : value ++ more = .mark 93 :: after) : value = elementsTail [] := by
  cases items with
  | nil =>
    obtain ⟨lexeme, rest, rfl, hkind, hrest⟩ := List.map_eq_cons_iff.mp hkinds
    rw [List.map_eq_nil_iff.mp hrest, eq_mark_of_kind hkind]
    rfl
  | cons item items =>
    have hitem := hitems item List.mem_cons_self
    obtain ⟨kind, kinds, rfl⟩ := List.exists_cons_of_ne_nil hitem.ne_nil
    obtain ⟨tail, htail⟩ := intercalate_cons_head [.mark 44] kind kinds items
    rw [htail, List.cons_append] at hkinds
    obtain ⟨lexeme, rest, rfl, hkind, hrest⟩ := List.map_eq_cons_iff.mp hkinds
    obtain ⟨rfl, -⟩ := List.cons.inj heq
    rw [← hkind] at hitem
    obtain h | h := Json.IsValue.not_mark hitem
    · exact absurd h (by decide)
    · exact absurd h (by decide)

theorem arrayIs_of_readStringArray {out : List GoogleString}
    (h : IsValue (value.map Lexeme.kind)) (hlexed : Lexed (value ++ more) t)
    (hread : readStringArray (skipWs t) = some out) : ArrayIs out value := by
  have hne : value ≠ [] := fun hnil => h.ne_nil (by rw [hnil]; rfl)
  cases hskip : skipWs t with
  | nil =>
    rw [hskip] at hread
    cases hread
  | cons c s =>
    rw [hskip, readStringArray] at hread
    split_ifs at hread with hc hempty
    all_goals
      obtain ⟨lexemes, heq, hrest⟩ := lexed_mark hlexed hskip (.inr (.inr hc))
      rw [hc] at heq
      obtain ⟨lexeme, inner, rfl⟩ := List.exists_cons_of_ne_nil hne
      obtain ⟨rfl, hinner⟩ := List.cons.inj heq
      obtain ⟨items, hitems, hkinds⟩ := Json.IsValue.of_bracket h
    · cases hread
      obtain ⟨d, tail, hd⟩ : ∃ d tail, skipWs s = d :: tail := by
        cases hs : skipWs s with
        | nil =>
          rw [hs] at hempty
          cases hempty
        | cons d tail => exact ⟨d, tail, rfl⟩
      rw [hd] at hempty
      obtain rfl : d = 93 := Option.some.inj hempty
      obtain ⟨after, rfl, -⟩ := lexed_mark hrest hd (.inr (.inl rfl))
      exact ⟨[], by rw [array_of_bracket hitems hkinds hinner], .nil⟩
    · obtain ⟨strings, after, read, hne, rfl, rfl, htexts⟩ := readsElements_of_loop hread lexemes hrest.front.lexed
      exact ⟨strings, by rw [array_of_elements hitems hne hkinds hinner], htexts⟩

structure IsDistinctObject (members : List Member) (s : GoogleString) : Prop where
  object : IsObject members s
  distinct : members.Pairwise fun m m' => ¬∃ units, Spelled units m.key ∧ Spelled units m'.key

def Carries (members : List Member) (f : GoogleString) (P : List Lexeme → Prop) : Prop :=
  (∃ m ∈ members, Names f m) ∧ ∀ m ∈ members, Names f m → P m.value

def Lacks (members : List Member) (f : GoogleString) : Prop := ∀ m ∈ members, ¬Names f m

structure ClaimsAre (header payload : List Member) (token : RslCapToken) : Prop where
  typ : Carries header (ascii "typ") (StringIs token.typ)
  alg : Carries header (ascii "alg") (StringIs token.alg)
  kid : Carries header (ascii "kid") (StringIs token.kid)
  iss : Carries payload (ascii "iss") (StringIs token.iss) ∨ Lacks payload (ascii "iss") ∧ token.iss = []
  sub : Carries payload (ascii "sub") (StringIs token.sub) ∨ Lacks payload (ascii "sub") ∧ token.sub = []
  exp : Carries payload (ascii "exp") (IntegerIs token.exp)
  iat : Carries payload (ascii "iat") (IntegerIs token.iat) ∨ Lacks payload (ascii "iat") ∧ token.iat = 0
  lic : Carries payload (ascii "lic") (ArrayIs token.lic) ∨ Lacks payload (ascii "lic") ∧ token.lic = []
  scope : Carries payload (ascii "scope") (ArrayIs token.scope) ∨ Lacks payload (ascii "scope") ∧ token.scope = []

def Decodes (compact headerJson payloadJson : GoogleString) : Prop :=
  ∃ headerB64 payloadB64 sigB64, splitStringPieceToVector compact (ascii ".") false = [headerB64, payloadB64, sigB64] ∧
    base64UrlDecode headerB64 = some headerJson ∧ base64UrlDecode payloadB64 = some payloadJson

def headerNames : List GoogleString := [ascii "typ", ascii "alg", ascii "kid"]

def payloadNames : List GoogleString :=
  [ascii "iss", ascii "sub", ascii "exp", ascii "iat", ascii "lic", ascii "scope"]

theorem fieldNames : headerNames.all isFieldName = true ∧ payloadNames.all isFieldName = true := by
  decide

theorem spelled_letters {f : GoogleString} (h : f.all (fun b => 97 ≤ b ∧ b ≤ 122) = true) :
    Spelled (f.map UInt8.toNat) f := by
  induction f with
  | nil => exact .nil
  | cons b f ih =>
    rw [List.all_cons, Bool.and_eq_true, decide_eq_true_eq] at h
    obtain ⟨⟨hlow, hhigh⟩, hf⟩ := h
    have hlow' : 97 ≤ b.toNat := hlow
    have hhigh' : b.toNat ≤ 122 := hhigh
    have hascii : b < 0x80 := UInt8.lt_iff_toNat_lt.mpr (Nat.lt_of_le_of_lt hhigh' (by decide))
    have hcode : (Char.ofNat b.toNat).toNat = b.toNat := Utf8.toNat_ofNat (by omega)
    have hchar := @Json.IsChar.char (Char.ofNat b.toNat) (by omega) (by omega) (by omega)
    rw [utf16_ascii hascii, Utf8.ascii_ofNat hascii] at hchar
    exact .char hchar (ih hf)

section

variable {α : Type} {read : GoogleString → Option α} {P : α → List Lexeme → Prop}
  (hread : ∀ {value after t a}, IsValue (value.map Lexeme.kind) → Lexed (value ++ Json.membersTail after) t →
    read (skipWs t) = some a → P a value)
  {members : List Member} {s f : GoogleString} (hobject : IsDistinctObject members s) (hf : isFieldName f = true)
  (hshadow : Unshadowed f members)

include hread hobject hf hshadow

theorem carries_of_found {a : α} (h : extract read s f = .found a) : Carries members f (P a) := by
  obtain ⟨m, hm, hkey, hvalue, after, t, hlexed, ht⟩ := (extract_member hf hobject.object hshadow).2 a h
  have hletters : f.all (fun b => 97 ≤ b ∧ b ≤ 122) = true := by
    simp only [isFieldName, Bool.and_eq_true] at hf
    exact hf.1.2
  have hname : Names f m := by
    rw [Names, hkey]
    exact spelled_letters hletters
  refine ⟨⟨m, hm, hname⟩, fun m' hm' hname' => ?_⟩
  obtain rfl : m' = m := by
    by_contra hne
    have hsymm : Std.Symm fun m m' : Member => ¬∃ units, Spelled units m.key ∧ Spelled units m'.key :=
      ⟨fun m m' h hboth => h (hboth.imp fun _ => And.symm)⟩
    exact hobject.distinct.forall hm' hm hne ⟨_, hname', hname⟩
  exact hread hvalue hlexed ht

theorem carries_of_required {a : α} (h : (extract read s f).required = some a) : Carries members f (P a) := by
  cases hextract : extract read s f with
  | absent =>
    rw [hextract] at h
    cases h
  | malformed =>
    rw [hextract] at h
    cases h
  | found b =>
    rw [hextract] at h
    cases h
    exact carries_of_found hread hobject hf hshadow hextract

theorem carries_of_optional {a default : α} (h : (extract read s f).optional default = some a) :
    Carries members f (P a) ∨ Lacks members f ∧ a = default := by
  cases hextract : extract read s f with
  | absent =>
    rw [hextract] at h
    cases h
    exact .inr ⟨(extract_member hf hobject.object hshadow).1 hextract, rfl⟩
  | malformed =>
    rw [hextract] at h
    cases h
  | found b =>
    rw [hextract] at h
    cases h
    exact .inl (carries_of_found hread hobject hf hshadow hextract)

end

theorem membersTail_literal (members : List Member) (word : GoogleString) :
    (Json.membersTail members).head? ≠ some (.literal word) := by
  cases members <;> nofun

/-- Where the scan comes to the keys of the members first, a token that is not malformed holds what they say. -/
theorem claims_are_signed {compact headerJson payloadJson : GoogleString} {header payload : List Member}
    (hdecodes : Decodes compact headerJson payloadJson) (hheader : IsDistinctObject header headerJson)
    (hpayload : IsDistinctObject payload payloadJson) (hplain : ∀ f ∈ headerNames, Unshadowed f header)
    (hplain' : ∀ f ∈ payloadNames, Unshadowed f payload) {token : RslCapToken}
    (h : parseRslCapToken compact = some token) : ClaimsAre header payload token := by
  obtain ⟨headerB64, payloadB64, sigB64, hsplit, hheaderB64, hpayloadB64⟩ := hdecodes
  have hname : ∀ f ∈ headerNames, isFieldName f = true := List.all_eq_true.mp fieldNames.1
  have hname' : ∀ f ∈ payloadNames, isFieldName f = true := List.all_eq_true.mp fieldNames.2
  have htext : ∀ {f : GoogleString} {text}, f ∈ headerNames → (extractString headerJson f).required = some text →
      Carries header f (StringIs text) := fun hf hextract =>
    carries_of_required stringIs_of_readString hheader (hname _ hf) (hplain _ hf) hextract
  have htext' : ∀ {f : GoogleString} {text}, f ∈ payloadNames → (extractString payloadJson f).optional [] = some text →
      Carries payload f (StringIs text) ∨ Lacks payload f ∧ text = [] := fun hf hextract =>
    carries_of_optional stringIs_of_readString hpayload (hname' _ hf) (hplain' _ hf) hextract
  have harray : ∀ {f : GoogleString} {texts}, f ∈ payloadNames →
      (extractStringArray payloadJson f).optional [] = some texts →
      Carries payload f (ArrayIs texts) ∨ Lacks payload f ∧ texts = [] := fun hf hextract =>
    carries_of_optional arrayIs_of_readStringArray hpayload (hname' _ hf) (hplain' _ hf) hextract
  have hint : ∀ {value : List Lexeme} {after : List Member} {t : GoogleString} {v : Int64},
      IsValue (value.map Lexeme.kind) → Lexed (value ++ Json.membersTail after) t → readInt64 (skipWs t) = some v →
      IntegerIs v value := fun _ hlexed hread => integerIs_of_readInt64 (membersTail_literal _) hlexed hread
  have hexpName : ascii "exp" ∈ payloadNames := .tail _ (.tail _ (.head _))
  have hiatName : ascii "iat" ∈ payloadNames := .tail _ (.tail _ (.tail _ (.head _)))
  rw [parseRslCapToken, hsplit] at h
  obtain ⟨headerText, hheaderText, h⟩ := Option.bind_eq_some_iff.mp h
  obtain ⟨payloadText, hpayloadText, h⟩ := Option.bind_eq_some_iff.mp h
  obtain rfl : headerText = headerJson := Option.some.inj (hheaderText.symm.trans hheaderB64)
  obtain rfl : payloadText = payloadJson := Option.some.inj (hpayloadText.symm.trans hpayloadB64)
  obtain ⟨sigBytes, -, h⟩ := Option.bind_eq_some_iff.mp h
  obtain ⟨typ, htyp, h⟩ := Option.bind_eq_some_iff.mp h
  obtain ⟨alg, halg, h⟩ := Option.bind_eq_some_iff.mp h
  obtain ⟨kid, hkid, h⟩ := Option.bind_eq_some_iff.mp h
  split_ifs at h
  obtain ⟨iss, hiss, h⟩ := Option.bind_eq_some_iff.mp h
  obtain ⟨sub, hsub, h⟩ := Option.bind_eq_some_iff.mp h
  obtain ⟨exp, hexp, h⟩ := Option.bind_eq_some_iff.mp h
  obtain ⟨iat, hiat, h⟩ := Option.bind_eq_some_iff.mp h
  obtain ⟨lic, hlic, h⟩ := Option.bind_eq_some_iff.mp h
  obtain ⟨scope, hscope, h⟩ := Option.bind_eq_some_iff.mp h
  cases h
  exact {
    typ := htext (.head _) htyp
    alg := htext (.tail _ (.head _)) halg
    kid := htext (.tail _ (.tail _ (.head _))) hkid
    iss := htext' (.head _) hiss
    sub := htext' (.tail _ (.head _)) hsub
    exp := carries_of_required hint hpayload (hname' _ hexpName) (hplain' _ hexpName) hexp
    iat := carries_of_optional hint hpayload (hname' _ hiatName) (hplain' _ hiatName) hiat
    lic := harray (.tail _ (.tail _ (.tail _ (.tail _ (.head _))))) hlic
    scope := harray (.tail _ (.tail _ (.tail _ (.tail _ (.tail _ (.head _)))))) hscope }

def simpleLexeme : Lexeme → Bool
  | .mark b => Json.isMark b
  | .literal word => !word.isEmpty && word.all Json.isDigit && (word.head? ≠ some 48)
  | .string chars => chars.all fun b => 0x20 ≤ b ∧ b < 0x80 ∧ b ≠ 34 ∧ b ≠ 92

def lexemeBytes : Lexeme → GoogleString
  | .mark b => [b]
  | .literal word => word
  | .string chars => 34 :: chars ++ [34]

theorem spelled_simple (h : simpleLexeme (.string chars) = true) : Spelled (chars.map UInt8.toNat) chars := by
  induction chars with
  | nil => exact .nil
  | cons b chars ih =>
    rw [simpleLexeme, List.all_cons, Bool.and_eq_true, decide_eq_true_eq] at h
    obtain ⟨⟨hlow, hascii, hquote, hback⟩, hchars⟩ := h
    have hlow' : 0x20 ≤ b.toNat := hlow
    have hlt : b.toNat < 0x80 := hascii
    have hcode : (Char.ofNat b.toNat).toNat = b.toNat := Utf8.toNat_ofNat (by omega)
    have hchar := @Json.IsChar.char (Char.ofNat b.toNat) (by rw [hcode]; exact hlow')
      (by rw [hcode]; exact fun h => hquote (UInt8.toNat_inj.mp h))
      (by rw [hcode]; exact fun h => hback (UInt8.toNat_inj.mp h))
    rw [utf16_ascii hascii, Utf8.ascii_ofNat hascii] at hchar
    exact .char hchar (ih hchars)

theorem isLiteral_simple (h : simpleLexeme (.literal word) = true) : Json.IsLiteral word := by
  simp only [simpleLexeme, Bool.and_eq_true, Bool.not_eq_true', List.isEmpty_eq_false_iff, decide_eq_true_eq] at h
  obtain ⟨⟨hne, hdigits⟩, hzero⟩ := h
  exact .inl ⟨[], word, [], [], by simp, .inl rfl, ⟨⟨hne, List.all_eq_true.mp hdigits⟩, fun h => absurd h hzero⟩, .inl rfl,
    .inl rfl⟩

theorem lexed_simple (h : lexemes.all simpleLexeme = true) : Lexed lexemes (lexemes.flatMap lexemeBytes) := by
  induction lexemes with
  | nil => exact .nil
  | cons lexeme lexemes ih =>
    rw [List.all_cons, Bool.and_eq_true] at h
    rw [List.flatMap_cons]
    cases lexeme with
    | mark b => exact .mark h.1 (ih h.2)
    | literal word => exact .literal (isLiteral_simple h.1) (ih h.2)
    | string chars =>
      have hstring := Lexed.string (spelled_simple h.1) (ih h.2)
      simpa [lexemeBytes] using hstring

theorem units_of_simple (hsimple : simpleLexeme (.string chars) = true)
    (h : Spelled units chars) : units = chars.map UInt8.toNat := by
  induction h with
  | nil => rfl
  | @char units more bytes s hchar _ ih =>
    rw [simpleLexeme, List.all_append, Bool.and_eq_true] at hsimple
    rw [ih hsimple.2, List.map_append]
    refine congrArg (· ++ _) ?_
    cases hchar with
    | @char c hlow hquote hback =>
      by_cases hascii : Utf8.IsAscii c
      · have hlt : c.toNat < 0x80 := hascii
        have hcode : c.toNat.toUInt8.toNat = c.toNat := UInt8.toNat_ofNat_of_lt' (Nat.lt_trans hlt (by decide))
        rw [Utf8.ascii_encodeChar hascii, List.map_singleton, hcode, Json.utf16, if_pos (by omega)]
      · obtain ⟨b, hb⟩ := List.exists_mem_of_length_pos (Utf8.encodeChar_length_pos c)
        have hhigh := (Utf8.high_encodeChar hascii).2 b hb
        have hlow := of_decide_eq_true (List.all_eq_true.mp hsimple.1 b hb)
        exact absurd hlow.2.1 (UInt8.not_lt.mpr hhigh)
    | escape _ =>
      simp at hsimple
    | hex _ _ =>
      simp at hsimple

theorem isDistinctObject_simple {members : List Member} (hsimple : (Json.objectLexemes members).all simpleLexeme = true)
    (hkeys : members.all (fun m => simpleLexeme (.string m.key)) = true) (hdistinct : (members.map Member.key).Nodup)
    (hvalues : ∀ m ∈ members, IsValue (m.value.map Lexeme.kind)) :
    IsDistinctObject members ((Json.objectLexemes members).flatMap lexemeBytes) := by
  refine ⟨⟨lexed_simple hsimple, hvalues⟩, ?_⟩
  have hpairwise := List.pairwise_map.mp hdistinct
  refine hpairwise.imp_of_mem fun {m m'} hm hm' hne => ?_
  rintro ⟨units, hu, hu'⟩
  have hall := List.all_eq_true.mp hkeys
  have heq := (units_of_simple (hall m hm) hu).symm.trans (units_of_simple (hall m' hm') hu')
  exact hne (List.map_injective_iff.mpr (fun a b => UInt8.toNat_inj.mp) heq)

def stringMember (key value : String) : Member := ⟨ascii key, [.string (ascii value)]⟩

def numberMember (key value : String) : Member := ⟨ascii key, [.literal (ascii value)]⟩

def nestedMember (key inner value : String) : Member :=
  ⟨ascii key, [.mark 123, .string (ascii inner), .mark 58, .literal (ascii value), .mark 125]⟩

def sampleHeader : List Member := [stringMember "typ" "RSL-CAP", stringMember "alg" "EdDSA", stringMember "kid" "k"]

theorem sampleHeader_object :
    IsDistinctObject sampleHeader ((Json.objectLexemes sampleHeader).flatMap lexemeBytes) := by
  refine isDistinctObject_simple (by decide) (by decide) (by decide) ?_
  simp only [sampleHeader, List.forall_mem_cons]
  exact ⟨.string, .string, .string, nofun⟩

/-- `{"a":{"exp":9},"exp":1}`. -/
def nestedFirst : List Member := [nestedMember "a" "exp" "9", numberMember "exp" "1"]

theorem nestedFirst_object :
    IsDistinctObject nestedFirst ((Json.objectLexemes nestedFirst).flatMap lexemeBytes) := by
  refine isDistinctObject_simple (by decide) (by decide) (by decide) ?_
  simp only [nestedFirst, List.forall_mem_cons]
  exact ⟨.object [[.literal]] (by simp [IsValue.literal]), .literal, nofun⟩

/-- The expiry of a nested object is taken for that of the token. -/
theorem nested_expiry_is_read :
    ¬∀ (compact headerJson payloadJson : GoogleString) (header payload : List Member) (token : RslCapToken),
      Decodes compact headerJson payloadJson → IsDistinctObject header headerJson →
        IsDistinctObject payload payloadJson → parseRslCapToken compact = some token →
          ClaimsAre header payload token := by
  intro h
  have hparse : parseRslCapToken (ascii
      "eyJ0eXAiOiJSU0wtQ0FQIiwiYWxnIjoiRWREU0EiLCJraWQiOiJrIn0.eyJhIjp7ImV4cCI6OX0sImV4cCI6MX0.cw") =
      some ⟨ascii "RSL-CAP", ascii "EdDSA", ascii "k", [], [], 9, 0, [], [],
        ascii "eyJ0eXAiOiJSU0wtQ0FQIiwiYWxnIjoiRWREU0EiLCJraWQiOiJrIn0.eyJhIjp7ImV4cCI6OX0sImV4cCI6MX0",
        ascii "s"⟩ := by
    simp only [ascii_eq_textBytes]
    decide +kernel
  have hclaims := h _ _ _ sampleHeader nestedFirst _ ⟨ascii "eyJ0eXAiOiJSU0wtQ0FQIiwiYWxnIjoiRWREU0EiLCJraWQiOiJrIn0",
    ascii "eyJhIjp7ImV4cCI6OX0sImV4cCI6MX0", ascii "cw", by decide +kernel, by decide +kernel, by decide +kernel⟩
    sampleHeader_object nestedFirst_object hparse
  have hexp := hclaims.exp.2 (numberMember "exp" "1") (.tail _ (.head _)) (spelled_letters (by decide))
    [] (ascii "1") rfl (.inl rfl) ⟨⟨by decide, List.all_eq_true.mp rfl⟩, fun h => absurd h (by decide)⟩
  exact absurd hexp (by decide)

/-- `{"exp":1,"a":{"exp":9},"lic":["x"]}`. -/
def nestedLast : List Member :=
  [numberMember "exp" "1", nestedMember "a" "exp" "9", ⟨ascii "lic", [.mark 91, .string (ascii "x"), .mark 93]⟩]

theorem nestedLast_object : IsDistinctObject nestedLast ((Json.objectLexemes nestedLast).flatMap lexemeBytes) := by
  refine isDistinctObject_simple (by decide) (by decide) (by decide) ?_
  simp only [nestedLast, List.forall_mem_cons]
  exact ⟨.literal, .object [[.literal]] (by simp [IsValue.literal]), .array [[.string]] (by simp [IsValue.string]), nofun⟩

theorem unshadowed_of_ends {f : GoogleString} {members : List Member}
    (h : (members.takeWhile (·.key ≠ f)).all (fun m => simpleLexeme (.string m.key) &&
      (m.key :: Json.keys m.value).all fun key => !(34 :: f).isSuffixOf (34 :: key)) = true) : Unshadowed f members := by
  intro m hm
  have hm' := List.all_eq_true.mp h m hm
  rw [Bool.and_eq_true] at hm'
  have hreads : ∀ key ∈ m.key :: Json.keys m.value, ¬ReadsAs f key := fun key hkey hsuf => by
    have hnot := List.all_eq_true.mp hm'.2 key hkey
    rw [List.isSuffixOf_iff_suffix.mpr hsuf] at hnot
    cases hnot
  refine ⟨fun hname => ?_, hreads _ List.mem_cons_self, fun key hkey => hreads key (List.mem_cons_of_mem _ hkey)⟩
  have heq := List.map_injective_iff.mpr (fun a b => UInt8.toNat_inj.mp) (units_of_simple hm'.1 hname)
  have hself : ReadsAs f m.key := heq ▸ List.suffix_rfl
  exact hreads _ List.mem_cons_self hself

theorem claims_are_signed_nested : ∃ token, parseRslCapToken (ascii
    "eyJ0eXAiOiJSU0wtQ0FQIiwiYWxnIjoiRWREU0EiLCJraWQiOiJrIn0.eyJleHAiOjEsImEiOnsiZXhwIjo5fSwibGljIjpbIngiXX0.cw") =
      some token ∧ token.exp = 1 ∧ token.lic = [ascii "x"] ∧ ClaimsAre sampleHeader nestedLast token := by
  have hparse : parseRslCapToken (ascii
      "eyJ0eXAiOiJSU0wtQ0FQIiwiYWxnIjoiRWREU0EiLCJraWQiOiJrIn0.eyJleHAiOjEsImEiOnsiZXhwIjo5fSwibGljIjpbIngiXX0.cw") =
      some ⟨ascii "RSL-CAP", ascii "EdDSA", ascii "k", [], [], 1, 0, [ascii "x"], [],
        ascii "eyJ0eXAiOiJSU0wtQ0FQIiwiYWxnIjoiRWREU0EiLCJraWQiOiJrIn0.eyJleHAiOjEsImEiOnsiZXhwIjo5fSwibGljIjpbIngiXX0",
        ascii "s"⟩ := by
    simp only [ascii_eq_textBytes]
    decide +kernel
  refine ⟨_, hparse, rfl, rfl, claims_are_signed ⟨ascii "eyJ0eXAiOiJSU0wtQ0FQIiwiYWxnIjoiRWREU0EiLCJraWQiOiJrIn0",
    ascii "eyJleHAiOjEsImEiOnsiZXhwIjo5fSwibGljIjpbIngiXX0", ascii "cw", by decide +kernel, by decide +kernel,
    by decide +kernel⟩ sampleHeader_object nestedLast_object ?_ ?_ hparse⟩
  · simp only [headerNames, List.forall_mem_cons]
    exact ⟨unshadowed_of_ends (by decide), unshadowed_of_ends (by decide),
      unshadowed_of_ends (by decide), nofun⟩
  · simp only [payloadNames, List.forall_mem_cons]
    exact ⟨unshadowed_of_ends (by decide), unshadowed_of_ends (by decide),
      unshadowed_of_ends (by decide), unshadowed_of_ends (by decide),
      unshadowed_of_ends (by decide), unshadowed_of_ends (by decide), nofun⟩

end PageSpeed.WebBotAuth.RslCap
