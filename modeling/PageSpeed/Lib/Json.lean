import PageSpeed.Lib.Utf8

/-!
JSON texts (RFC 8259) that may have holes among the characters of their strings: their tokens, the
places a reader is at, and what replacing holes and spelling characters otherwise does to them. A
string is its UTF-16 code units.
-/

namespace PageSpeed.Json

abbrev Bytes := List UInt8

variable {H K : Type}

def plain {α : Type} (s : List α) : List (α ⊕ H) := s.map .inl

def subst {α : Type} (f : H → List (α ⊕ K)) (s : List (α ⊕ H)) : List (α ⊕ K) :=
  s.flatMap (Sum.elim (fun a => [.inl a]) f)

section
variable {α : Type} (f : H → List (α ⊕ K))

@[simp] theorem subst_nil : subst f [] = [] := rfl

@[simp] theorem subst_inl (a : α) (s : List (α ⊕ H)) : subst f (.inl a :: s) = .inl a :: subst f s := rfl

@[simp] theorem subst_inr (h : H) (s : List (α ⊕ H)) : subst f (.inr h :: s) = f h ++ subst f s := rfl

@[simp] theorem subst_append (s t : List (α ⊕ H)) : subst f (s ++ t) = subst f s ++ subst f t := List.flatMap_append

@[simp] theorem plain_nil : plain (H := H) ([] : List α) = [] := rfl

@[simp] theorem plain_cons (a : α) (s : List α) : plain (H := H) (a :: s) = .inl a :: plain s := rfl

@[simp] theorem plain_append (s t : List α) : plain (H := H) (s ++ t) = plain s ++ plain t := List.map_append

@[simp] theorem subst_plain (s : List α) : subst f (plain s) = plain s := by
  induction s with
  | nil => rfl
  | cons a s ih => rw [plain_cons, subst_inl, ih, plain_cons]

end

def erase {α : Type} (s : List (α ⊕ H)) : List (α ⊕ Empty) := subst (fun _ => []) s

def isWs (b : UInt8) : Bool := b = 32 ∨ b = 9 ∨ b = 10 ∨ b = 13

def isMark (b : UInt8) : Bool := b = 123 ∨ b = 125 ∨ b = 91 ∨ b = 93 ∨ b = 58 ∨ b = 44

def isDigit (b : UInt8) : Bool := 48 ≤ b ∧ b ≤ 57

def isHexDigit (b : UInt8) : Bool := isDigit b ∨ 65 ≤ b ∧ b ≤ 70 ∨ 97 ≤ b ∧ b ≤ 102

def hexDigit (b : UInt8) : ℕ := if isDigit b then b.toNat - 48 else b.toNat % 32 + 9

def hexValue (digits : Bytes) : ℕ := digits.foldl (fun n d => n * 16 + hexDigit d) 0

def IsDigits (s : Bytes) : Prop := s ≠ [] ∧ ∀ b ∈ s, isDigit b = true

def IsInt (s : Bytes) : Prop := IsDigits s ∧ (s.head? = some 48 → s = [48])

def IsFraction (s : Bytes) : Prop := s = [] ∨ ∃ digits, s = 46 :: digits ∧ IsDigits digits

def IsExponent (s : Bytes) : Prop :=
  s = [] ∨ ∃ e sign digits, s = e :: (sign ++ digits) ∧ (e = 101 ∨ e = 69) ∧
    (sign = [] ∨ sign = [43] ∨ sign = [45]) ∧ IsDigits digits

def IsNumber (s : Bytes) : Prop :=
  ∃ minus int fraction exponent, s = minus ++ int ++ fraction ++ exponent ∧ (minus = [] ∨ minus = [45]) ∧ IsInt int ∧
    IsFraction fraction ∧ IsExponent exponent

/-- A number, or `true`, `false` or `null`. -/
def IsLiteral (s : Bytes) : Prop :=
  IsNumber s ∨ s = [116, 114, 117, 101] ∨ s = [102, 97, 108, 115, 101] ∨ s = [110, 117, 108, 108]

def isWordByte (b : UInt8) : Bool := isDigit b ∨ 65 ≤ b ∧ b ≤ 90 ∨ 97 ≤ b ∧ b ≤ 122 ∨ b = 43 ∨ b = 45 ∨ b = 46

theorem literal_bytes {word : Bytes} (h : IsLiteral word) : ∀ b ∈ word, isWordByte b = true := by
  have hdigits : ∀ {s : Bytes}, IsDigits s → ∀ b ∈ s, isWordByte b = true := fun h b hb => by
    rw [isWordByte, h.2 b hb]
    simp
  obtain ⟨minus, int, fraction, exponent, rfl, hminus, hint, hfraction, hexponent⟩ | rfl | rfl | rfl := h
  · intro b hb
    simp only [List.mem_append] at hb
    obtain ((hb | hb) | hb) | hb := hb
    · obtain rfl | rfl := hminus
      · cases hb
      · rw [List.mem_singleton.mp hb]
        decide
    · exact hdigits hint.1 b hb
    · obtain rfl | ⟨digits, rfl, h⟩ := hfraction
      · cases hb
      · obtain rfl | hb := List.mem_cons.mp hb
        · decide
        · exact hdigits h b hb
    · obtain rfl | ⟨e, sign, digits, rfl, he, hsign, h⟩ := hexponent
      · cases hb
      · obtain rfl | hb := List.mem_cons.mp hb
        · obtain rfl | rfl := he
          · decide
          · decide
        · obtain hb | hb := List.mem_append.mp hb
          · obtain rfl | rfl | rfl := hsign
            · cases hb
            · rw [List.mem_singleton.mp hb]
              decide
            · rw [List.mem_singleton.mp hb]
              decide
          · exact hdigits h b hb
  · exact List.all_eq_true.mp rfl
  · exact List.all_eq_true.mp rfl
  · exact List.all_eq_true.mp rfl

def escapes : List (UInt8 × ℕ) :=
  [(34, 34), (92, 92), (47, 47), (98, 8), (102, 12), (110, 10), (114, 13), (116, 9)]

def utf16 (c : Char) : List ℕ :=
  if c.toNat < 0x10000 then [c.toNat]
  else [0xD800 + (c.toNat - 0x10000) / 0x400, 0xDC00 + (c.toNat - 0x10000) % 0x400]

inductive IsChar : List ℕ → Bytes → Prop
  | char {c : Char} : 0x20 ≤ c.toNat → c.toNat ≠ 34 → c.toNat ≠ 92 → IsChar (utf16 c) (String.utf8EncodeChar c)
  | escape {letter : UInt8} {unit : ℕ} : (letter, unit) ∈ escapes → IsChar [unit] [92, letter]
  | hex {digits : Bytes} : digits.length = 4 → (∀ d ∈ digits, isHexDigit d = true) →
    IsChar [hexValue digits] (92 :: 117 :: digits)

inductive IsChars : List (ℕ ⊕ H) → List (UInt8 ⊕ H) → Prop
  | nil : IsChars [] []
  | hole {units : List (ℕ ⊕ H)} {s : List (UInt8 ⊕ H)} (h : H) : IsChars units s →
    IsChars (.inr h :: units) (.inr h :: s)
  | char {units : List ℕ} {bytes : Bytes} {more : List (ℕ ⊕ H)} {s : List (UInt8 ⊕ H)} : IsChar units bytes →
    IsChars more s → IsChars (plain units ++ more) (plain bytes ++ s)

inductive Token (H : Type)
  | mark (b : UInt8)
  | literal (s : Bytes)
  | string (units : List (ℕ ⊕ H))

inductive Kind
  | mark (b : UInt8)
  | literal
  | string

def Token.kind : Token H → Kind
  | mark b => .mark b
  | literal _ => .literal
  | string _ => .string

def Token.fill (f : H → List (ℕ ⊕ K)) : Token H → Token K
  | mark b => .mark b
  | literal s => .literal s
  | string units => .string (subst f units)

@[simp] theorem Token.kind_fill (f : H → List (ℕ ⊕ K)) (t : Token H) : (t.fill f).kind = t.kind := by
  cases t <;> rfl

inductive Lexes : List (Token H) → List (UInt8 ⊕ H) → Prop
  | nil : Lexes [] []
  | ws {b : UInt8} {tokens : List (Token H)} {s : List (UInt8 ⊕ H)} : isWs b = true → Lexes tokens s →
    Lexes tokens (.inl b :: s)
  | mark {b : UInt8} {tokens : List (Token H)} {s : List (UInt8 ⊕ H)} : isMark b = true → Lexes tokens s →
    Lexes (.mark b :: tokens) (.inl b :: s)
  | literal {word : Bytes} {tokens : List (Token H)} {s : List (UInt8 ⊕ H)} : IsLiteral word → Lexes tokens s →
    Lexes (.literal word :: tokens) (plain word ++ s)
  | string {units : List (ℕ ⊕ H)} {chars : List (UInt8 ⊕ H)} {tokens : List (Token H)} {s : List (UInt8 ⊕ H)} :
    IsChars units chars → Lexes tokens s → Lexes (.string units :: tokens) (.inl 34 :: (chars ++ .inl 34 :: s))

inductive IsValue : List Kind → Prop
  | literal : IsValue [.literal]
  | string : IsValue [.string]
  | array (items : List (List Kind)) : (∀ item ∈ items, IsValue item) →
    IsValue (.mark 91 :: ([Kind.mark 44].intercalate items ++ [.mark 93]))
  | object (members : List (List Kind)) : (∀ member ∈ members, IsValue member) →
    IsValue (.mark 123 ::
      ([Kind.mark 44].intercalate (members.map fun member => .string :: .mark 58 :: member) ++ [.mark 125]))

def IsText (tokens : List (Token H)) (s : List (UInt8 ⊕ H)) : Prop :=
  Lexes tokens s ∧ IsValue (tokens.map Token.kind)

theorem IsChars.append {units more : List (ℕ ⊕ H)} {s t : List (UInt8 ⊕ H)} (hs : IsChars units s)
    (ht : IsChars more t) : IsChars (units ++ more) (s ++ t) := by
  induction hs with
  | nil => exact ht
  | hole h _ ih => exact .hole h ih
  | char hc _ ih =>
    rw [List.append_assoc, List.append_assoc]
    exact .char hc ih

theorem IsChars.subst {units : List (ℕ ⊕ H)} {s : List (UInt8 ⊕ H)} (h : IsChars units s) {f : H → List (ℕ ⊕ K)}
    {g : H → List (UInt8 ⊕ K)} (hfill : ∀ h, IsChars (f h) (g h)) : IsChars (Json.subst f units) (Json.subst g s) := by
  induction h with
  | nil => exact .nil
  | hole h _ ih =>
    rw [subst_inr, subst_inr]
    exact (hfill h).append ih
  | char hc _ ih =>
    rw [subst_append, subst_append, subst_plain, subst_plain]
    exact .char hc ih

theorem Lexes.subst {tokens : List (Token H)} {s : List (UInt8 ⊕ H)} (h : Lexes tokens s) {f : H → List (ℕ ⊕ K)}
    {g : H → List (UInt8 ⊕ K)} (hfill : ∀ h, IsChars (f h) (g h)) :
    Lexes (tokens.map (Token.fill f)) (Json.subst g s) := by
  induction h with
  | nil => exact .nil
  | ws hb _ ih => exact .ws hb ih
  | mark hb _ ih => exact .mark hb ih
  | literal hword _ ih =>
    rw [subst_append, subst_plain]
    exact .literal hword ih
  | string hchars _ ih =>
    rw [subst_inl, subst_append, subst_inl]
    exact .string (hchars.subst hfill) ih

theorem IsText.subst {tokens : List (Token H)} {s : List (UInt8 ⊕ H)} (h : IsText tokens s) {f : H → List (ℕ ⊕ K)}
    {g : H → List (UInt8 ⊕ K)} (hfill : ∀ h, IsChars (f h) (g h)) :
    IsText (tokens.map (Token.fill f)) (Json.subst g s) := by
  refine ⟨h.1.subst hfill, ?_⟩
  rw [List.map_map]
  have hkind : Token.kind ∘ Token.fill f = Token.kind := funext fun t => Token.kind_fill f t
  rw [hkind]
  exact h.2

def isFree (b : UInt8) : Bool :=
  33 ≤ b ∧ b < 128 ∧ ¬(isDigit b ∨ 65 ≤ b ∧ b ≤ 90 ∨ 97 ≤ b ∧ b ≤ 122) ∧ ¬isMark b ∧
    b ∉ ([34, 92, 43, 45, 46, 47] : Bytes)

structure Spelling where
  spell : UInt8 → Bytes
  same : ∀ b, spell b = [b] ∨ isFree b = true ∧ IsChar [b.toNat] (spell b)

namespace Spelling

variable (r : Spelling)

def text (s : List (UInt8 ⊕ H)) : List (UInt8 ⊕ H) := s.flatMap (Sum.elim (fun b => plain (r.spell b)) fun h => [.inr h])

theorem text_append (s t : List (UInt8 ⊕ H)) : r.text (s ++ t) = r.text s ++ r.text t := List.flatMap_append

theorem text_inl (b : UInt8) (s : List (UInt8 ⊕ H)) : r.text (.inl b :: s) = plain (r.spell b) ++ r.text s := rfl

theorem spell_of_not_free {b : UInt8} (h : isFree b = false) : r.spell b = [b] := by
  obtain hb | ⟨hb, -⟩ := r.same b
  · exact hb
  · rw [h] at hb
    cases hb

theorem text_fixed {b : UInt8} (h : isFree b = false) (s : List (UInt8 ⊕ H)) : r.text (.inl b :: s) = .inl b :: r.text s := by
  rw [text_inl, r.spell_of_not_free h]
  rfl

theorem text_plain {word : Bytes} (h : ∀ b ∈ word, isFree b = false) (s : List (UInt8 ⊕ H)) :
    r.text (plain word ++ s) = plain word ++ r.text s := by
  induction word with
  | nil => rfl
  | cons b word ih =>
    obtain ⟨hb, hword⟩ := List.forall_mem_cons.mp h
    rw [plain_cons, List.cons_append, r.text_fixed hb, ih hword, List.cons_append]

theorem literal_not_free {word : Bytes} (h : IsLiteral word) : ∀ b ∈ word, isFree b = false := by
  intro b hb
  have hbyte := literal_bytes h b hb
  unfold isWordByte at hbyte
  unfold isFree
  grind

theorem hexDigit_not_free {b : UInt8} (h : isHexDigit b = true) : isFree b = false := by
  unfold isHexDigit at h
  unfold isFree
  grind

theorem escapes_not_free {letter : UInt8} {unit : ℕ} (h : (letter, unit) ∈ escapes) : isFree letter = false := by
  have hall : ∀ e ∈ escapes, isFree e.1 = false := by decide
  exact hall _ h

theorem char_text {units : List ℕ} {bytes : Bytes} (h : IsChar units bytes) :
    ∃ other, IsChar units other ∧ ∀ s : List (UInt8 ⊕ H), r.text (plain bytes ++ s) = plain other ++ r.text s := by
  cases h with
  | @char c hlow hquote hback =>
    by_cases hascii : Utf8.IsAscii c
    · have hlt : c.toNat < 128 := hascii
      have htoNat : c.toNat.toUInt8.toNat = c.toNat := UInt8.toNat_ofNat_of_lt' (Nat.lt_trans hlt (by decide))
      have hunits : utf16 c = [c.toNat] := if_pos (by omega)
      rw [Utf8.ascii_encodeChar hascii, hunits]
      obtain hb | ⟨-, hb⟩ := r.same c.toNat.toUInt8
      · refine ⟨[c.toNat.toUInt8], ?_, fun s => ?_⟩
        · rw [← Utf8.ascii_encodeChar hascii, ← hunits]
          exact .char hlow hquote hback
        · rw [plain_cons, List.cons_append, text_inl, hb]
          rfl
      · rw [htoNat] at hb
        exact ⟨_, hb, fun s => rfl⟩
    · refine ⟨_, .char hlow hquote hback, fun s => r.text_plain (fun b hb => ?_) s⟩
      have hhigh := (Utf8.high_encodeChar hascii).2 b hb
      have hlt : ¬b < 128 := UInt8.not_lt.mpr hhigh
      simp [isFree, hlt]
  | @escape letter unit hmem =>
    refine ⟨_, .escape hmem, fun s => r.text_plain ?_ s⟩
    exact List.forall_mem_cons.mpr ⟨by decide, List.forall_mem_cons.mpr ⟨escapes_not_free hmem, nofun⟩⟩
  | @hex digits hlength hdigits =>
    refine ⟨_, .hex hlength hdigits, fun s => r.text_plain ?_ s⟩
    refine List.forall_mem_cons.mpr ⟨by decide, List.forall_mem_cons.mpr ⟨by decide, fun b hb => ?_⟩⟩
    exact hexDigit_not_free (hdigits b hb)

theorem chars_text {units : List (ℕ ⊕ H)} {chars : List (UInt8 ⊕ H)} (h : IsChars units chars) :
    IsChars units (r.text chars) := by
  induction h with
  | nil => exact .nil
  | hole h _ ih => exact .hole h ih
  | char hc _ ih =>
    obtain ⟨other, hother, htext⟩ := r.char_text (H := H) hc
    rw [htext]
    exact .char hother ih

theorem lexes {tokens : List (Token H)} {s : List (UInt8 ⊕ H)} (h : Lexes tokens s) : Lexes tokens (r.text s) := by
  induction h with
  | nil => exact .nil
  | @ws b _ _ hb _ ih =>
    have hfree : isFree b = false := by
      unfold isWs at hb
      unfold isFree
      grind
    rw [r.text_fixed hfree]
    exact .ws hb ih
  | @mark b _ _ hb _ ih =>
    rw [r.text_fixed (by simp [isFree, hb])]
    exact .mark hb ih
  | literal hword _ ih =>
    rw [r.text_plain (literal_not_free hword)]
    exact .literal hword ih
  | string hchars _ ih =>
    rw [r.text_fixed (by decide), text_append, r.text_fixed (by decide)]
    exact .string (r.chars_text hchars) ih

end Spelling

end PageSpeed.Json
