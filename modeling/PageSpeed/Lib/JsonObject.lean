import PageSpeed.Lib.Json

/-!
JSON objects as they are written: the lexemes of a text, with its strings as spelled, the members of an
object and the keys among its lexemes.
-/

namespace PageSpeed.Json

inductive Spelled : List ℕ → Bytes → Prop
  | nil : Spelled [] []
  | char {units more : List ℕ} {bytes s : Bytes} : IsChar units bytes → Spelled more s →
    Spelled (units ++ more) (bytes ++ s)

inductive Lexeme
  | mark (b : UInt8)
  | literal (word : Bytes)
  | string (chars : Bytes)

def Lexeme.kind : Lexeme → Kind
  | mark b => .mark b
  | literal _ => .literal
  | string _ => .string

inductive Lexed : List Lexeme → Bytes → Prop
  | nil : Lexed [] []
  | ws {b : UInt8} {lexemes : List Lexeme} {s : Bytes} : isWs b = true → Lexed lexemes s → Lexed lexemes (b :: s)
  | mark {b : UInt8} {lexemes : List Lexeme} {s : Bytes} : isMark b = true → Lexed lexemes s →
    Lexed (.mark b :: lexemes) (b :: s)
  | literal {word : Bytes} {lexemes : List Lexeme} {s : Bytes} : IsLiteral word → Lexed lexemes s →
    Lexed (.literal word :: lexemes) (word ++ s)
  | string {units : List ℕ} {chars : Bytes} {lexemes : List Lexeme} {s : Bytes} : Spelled units chars →
    Lexed lexemes s → Lexed (.string chars :: lexemes) (34 :: (chars ++ 34 :: s))

structure Member where
  key : Bytes
  value : List Lexeme

def Member.lexemes (m : Member) : List Lexeme := .string m.key :: .mark 58 :: m.value

def membersTail (members : List Member) : List Lexeme := members.flatMap (fun m => .mark 44 :: m.lexemes) ++ [.mark 125]

def objectLexemes : List Member → List Lexeme
  | [] => [.mark 123, .mark 125]
  | m :: members => .mark 123 :: (m.lexemes ++ membersTail members)

structure IsObject (members : List Member) (s : Bytes) : Prop where
  lexed : Lexed (objectLexemes members) s
  values : ∀ m ∈ members, IsValue (m.value.map Lexeme.kind)

def keys : List Lexeme → List Bytes
  | .string chars :: .mark b :: lexemes => if b = 58 then chars :: keys lexemes else keys lexemes
  | _ :: lexemes => keys lexemes
  | [] => []

inductive Fronts : List Lexeme → Bytes → Prop
  | nil : Fronts [] []
  | mark {b : UInt8} {lexemes : List Lexeme} {s : Bytes} : isMark b = true → Lexed lexemes s →
    Fronts (.mark b :: lexemes) (b :: s)
  | literal {word : Bytes} {lexemes : List Lexeme} {s : Bytes} : IsLiteral word → Lexed lexemes s →
    Fronts (.literal word :: lexemes) (word ++ s)
  | string {units : List ℕ} {chars : Bytes} {lexemes : List Lexeme} {s : Bytes} : Spelled units chars →
    Lexed lexemes s → Fronts (.string chars :: lexemes) (34 :: (chars ++ 34 :: s))

theorem literal_cons {word : Bytes} (h : IsLiteral word) : ∃ b rest, word = b :: rest ∧ isWordByte b = true := by
  have hne : word ≠ [] := by
    obtain ⟨minus, int, fraction, exponent, rfl, -, hint, -, -⟩ | rfl | rfl | rfl := h
    · have hint := hint.1.1
      simp [hint]
    · nofun
    · nofun
    · nofun
  obtain ⟨b, rest, rfl⟩ := List.exists_cons_of_ne_nil hne
  exact ⟨b, rest, rfl, literal_bytes h b List.mem_cons_self⟩

variable {b : UInt8} {s : Bytes} {kinds : List Kind} {units : List ℕ}

theorem not_ws_of_wordByte (h : isWordByte b = true) : isWs b = false := by
  unfold isWordByte isDigit at h
  unfold isWs
  grind

theorem not_ws_of_mark (h : isMark b = true) : isWs b = false := by
  unfold isMark at h
  unfold isWs
  grind

theorem dropWs_cons (h : isWs b = false) (s : Bytes) : (b :: s).dropWhile isWs = b :: s :=
  List.dropWhile_cons_of_neg (by rw [h]; exact Bool.false_ne_true)

theorem Lexed.front {lexemes : List Lexeme} (h : Lexed lexemes s) : Fronts lexemes (s.dropWhile isWs) := by
  induction h with
  | nil => exact .nil
  | ws hb _ ih => rwa [List.dropWhile_cons_of_pos hb]
  | mark hb hrest _ =>
    rw [dropWs_cons (not_ws_of_mark hb)]
    exact .mark hb hrest
  | @literal word lexemes s hword hrest _ =>
    obtain ⟨b, rest, rfl, hb⟩ := literal_cons hword
    rw [List.cons_append, dropWs_cons (not_ws_of_wordByte hb)]
    exact .literal hword hrest
  | string hchars hrest _ =>
    rw [dropWs_cons (by decide)]
    exact .string hchars hrest

theorem Fronts.lexed {lexemes : List Lexeme} (h : Fronts lexemes s) : Lexed lexemes s := by
  cases h with
  | nil => exact .nil
  | mark hb hrest => exact .mark hb hrest
  | literal hword hrest => exact .literal hword hrest
  | string hchars hrest => exact .string hchars hrest

theorem IsValue.of_string (h : IsValue (.string :: kinds)) : kinds = [] := by
  cases h
  rfl

theorem IsValue.ne_nil (h : IsValue kinds) : kinds ≠ [] := by cases h <;> nofun

theorem IsValue.of_bracket (h : IsValue (.mark 91 :: kinds)) :
    ∃ items, (∀ item ∈ items, IsValue item) ∧ kinds = [Kind.mark 44].intercalate items ++ [.mark 93] := by
  cases h with
  | array items hitems => exact ⟨items, hitems, rfl⟩

theorem IsValue.not_mark (h : IsValue (.mark b :: kinds)) : b = 91 ∨ b = 123 := by
  cases h with
  | array items hitems => exact .inl rfl
  | object members hmembers => exact .inr rfl

def isPlainByte (b : UInt8) : Bool := b ≠ 34 ∧ b ≠ 92

theorem encodeChar_plain {c : Char} (hquote : c.toNat ≠ 34) (hback : c.toNat ≠ 92) :
    (String.utf8EncodeChar c).all isPlainByte = true := by
  refine List.all_eq_true.mpr fun b hb => ?_
  by_cases hascii : Utf8.IsAscii c
  · have hlt : c.toNat < 128 := hascii
    rw [Utf8.ascii_encodeChar hascii, List.mem_singleton] at hb
    have htoNat : b.toNat = c.toNat := by
      rw [hb]
      exact UInt8.toNat_ofNat_of_lt' (Nat.lt_trans hlt (by decide))
    refine decide_eq_true ⟨?_, ?_⟩
    · rintro rfl
      exact hquote htoNat.symm
    · rintro rfl
      exact hback htoNat.symm
  · have hhigh := (Utf8.high_encodeChar hascii).2 b hb
    unfold isPlainByte
    grind

theorem not_mem_quote (h : s.all isPlainByte = true) : 34 ∉ s := fun hmem =>
  absurd (List.all_eq_true.mp h 34 hmem) (by decide)

theorem char_bytes {bytes : Bytes} (h : IsChar units bytes) :
    bytes.all isPlainByte = true ∨ bytes = [92, 34] ∨ ∃ rest, bytes = 92 :: rest ∧ 34 ∉ rest := by
  cases h with
  | char hlow hquote hback => exact .inl (encodeChar_plain hquote hback)
  | @escape letter unit hmem =>
    by_cases hletter : letter = 34
    · exact .inr (.inl (by rw [hletter]))
    · exact .inr (.inr ⟨[letter], rfl, by simpa using Ne.symm hletter⟩)
  | @hex digits hlength hdigits =>
    refine .inr (.inr ⟨117 :: digits, rfl, ?_⟩)
    rw [List.mem_cons, not_or]
    exact ⟨by decide, fun hmem => absurd (hdigits 34 hmem) (by decide)⟩

theorem spelled_plain {chars : Bytes} (h : Spelled units chars) :
    chars.dropWhile isPlainByte = [] ∨ ∃ rest, chars.dropWhile isPlainByte = 92 :: rest := by
  induction h with
  | nil => exact .inl rfl
  | @char units more bytes s hchar _ ih =>
    obtain hall | rfl | ⟨rest, rfl, -⟩ := char_bytes hchar
    · rwa [List.dropWhile_append_of_pos (List.all_eq_true.mp hall)]
    · exact .inr ⟨_, rfl⟩
    · exact .inr ⟨_, rfl⟩

theorem spelled_before_quote {chars f : Bytes} (h : Spelled units chars) (hf : f.all isPlainByte = true)
    {t : Bytes} (heq : chars ++ 34 :: s = f ++ 34 :: t) : chars = f ∧ s = t := by
  have hquote : ¬isPlainByte 34 = true := by decide
  have htake : (f ++ 34 :: t).takeWhile isPlainByte = f := by
    rw [List.takeWhile_append_of_pos (List.all_eq_true.mp hf), List.takeWhile_cons_of_neg hquote, List.append_nil]
  have hdrop : (f ++ 34 :: t).dropWhile isPlainByte = 34 :: t := by
    rw [List.dropWhile_append_of_pos (List.all_eq_true.mp hf), List.dropWhile_cons_of_neg hquote]
  have hsplit := List.takeWhile_append_dropWhile (p := isPlainByte) (l := chars)
  have hplain : ∀ b ∈ chars.takeWhile isPlainByte, isPlainByte b = true :=
    List.all_eq_true.mp List.all_takeWhile
  rw [← heq, ← hsplit, List.append_assoc, List.dropWhile_append_of_pos hplain] at hdrop
  obtain hnil | ⟨rest, hrest⟩ := spelled_plain h
  · rw [hnil, List.append_nil] at hsplit
    rw [← heq, ← hsplit, List.takeWhile_append_of_pos hplain, List.takeWhile_cons_of_neg hquote, List.append_nil,
      hsplit] at htake
    refine ⟨htake, ?_⟩
    rw [htake] at heq
    exact (List.cons.inj (List.append_cancel_left heq)).2
  · rw [hrest, List.cons_append, List.dropWhile_cons_of_neg (by decide)] at hdrop
    exact absurd (List.cons.inj hdrop).1 (by decide)

end PageSpeed.Json
