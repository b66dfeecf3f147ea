import PageSpeed.Base.StringUtil
import PageSpeed.WebBotAuth.Sfv

/-!
The signature base of `kernel/webbotauth/signature_base.cc`. Where no value holds a newline,
two requests with one base for the same covered components agree on each of them.
-/

namespace PageSpeed.WebBotAuth

structure HeaderField where
  name : GoogleString
  value : GoogleString

structure BaseRequestView where
  method : GoogleString
  authority : GoogleString
  path : GoogleString
  fields : List HeaderField

def serializeString (s : GoogleString) : GoogleString :=
  34 :: s.flatMap (fun c => if c = 34 ∨ c = 92 then [92, c] else [c]) ++ [34]

def serializeParam (text : Int64Text) (p : SfvParam) : GoogleString :=
  match p.value with
  | .integer v => 59 :: p.name ++ 61 :: text.integer64ToString v
  | .string v => 59 :: p.name ++ 61 :: serializeString v
  | .token v => 59 :: p.name ++ 61 :: v
  | .boolean => 59 :: p.name

def serializeSignatureParams (text : Int64Text) (list : SfvInnerList) : GoogleString :=
  40 :: [32].intercalate (list.components.map serializeString) ++
    41 :: list.params.flatMap (serializeParam text)

def derivedValue (req : BaseRequestView) (comp : GoogleString) : Option GoogleString :=
  if comp = ascii "@method" then some req.method
  else if comp = ascii "@authority" then some req.authority
  else if comp = ascii "@path" then some req.path
  else none

def appendFields (comp : GoogleString) : List HeaderField → GoogleString → Bool → GoogleString × Bool
  | [], base, found => (base, found)
  | field :: fields, base, found =>
    if stringCaseEqual field.name comp then
      appendFields comp fields ((if found then base ++ ascii ", " else base) ++ trimOws field.value) true
    else appendFields comp fields base found

def componentHead (comp : GoogleString) : GoogleString := 34 :: comp ++ ascii "\": "

def appendComponents (req : BaseRequestView) : List GoogleString → GoogleString → Option GoogleString
  | [], base => some base
  | comp :: covered, base =>
    if comp.head? = some 64 then
      (derivedValue req comp).bind fun value =>
        appendComponents req covered (base ++ componentHead comp ++ value ++ [10])
    else
      let (base, found) := appendFields comp req.fields (base ++ componentHead comp) false
      if found then appendComponents req covered (base ++ [10]) else none

def buildSignatureBase (req : BaseRequestView) (covered : List GoogleString) (paramsSerialization : GoogleString) :
    Option GoogleString :=
  (appendComponents req covered []).map fun base => base ++ ascii "\"@signature-params\": " ++ paramsSerialization

def fieldLines (comp : GoogleString) (fields : List HeaderField) : List GoogleString :=
  (fields.filter fun field => stringCaseEqual field.name comp).map fun field => trimOws field.value

def canonicalValue (req : BaseRequestView) (comp : GoogleString) : Option GoogleString :=
  if comp.head? = some 64 then derivedValue req comp
  else if fieldLines comp req.fields = [] then none
  else some ((ascii ", ").intercalate (fieldLines comp req.fields))

structure NewlineFree (req : BaseRequestView) : Prop where
  method : 10 ∉ req.method
  authority : 10 ∉ req.authority
  path : 10 ∉ req.path
  fields : ∀ field ∈ req.fields, 10 ∉ field.value

variable {base comp : GoogleString} {req : BaseRequestView} {covered : List GoogleString}

theorem fieldLines_cons_pos {field : HeaderField} (fields : List HeaderField)
    (h : stringCaseEqual field.name comp = true) :
    fieldLines comp (field :: fields) = trimOws field.value :: fieldLines comp fields := by
  rw [fieldLines, List.filter_cons, if_pos h, List.map_cons, fieldLines]

theorem fieldLines_cons_neg {field : HeaderField} (fields : List HeaderField)
    (h : ¬stringCaseEqual field.name comp = true) : fieldLines comp (field :: fields) = fieldLines comp fields := by
  rw [fieldLines, List.filter_cons, if_neg h, fieldLines]

theorem intercalate_cons (sep line : GoogleString) (lines : List GoogleString) :
    sep.intercalate (line :: lines) = line ++ lines.flatMap (sep ++ ·) := by
  induction lines generalizing line with
  | nil => rw [List.intercalate_singleton, List.flatMap_nil, List.append_nil]
  | cons next lines ih => rw [List.intercalate_cons_cons, ih, List.flatMap_cons, List.append_assoc, List.append_assoc]

theorem appendFields_found (comp : GoogleString) (fields : List HeaderField) (base : GoogleString) :
    appendFields comp fields base true = (base ++ (fieldLines comp fields).flatMap (ascii ", " ++ ·), true) := by
  induction fields generalizing base with
  | nil => rw [appendFields, fieldLines, List.filter_nil, List.map_nil, List.flatMap_nil, List.append_nil]
  | cons field fields ih =>
    rw [appendFields]
    by_cases h : stringCaseEqual field.name comp
    · rw [if_pos h, if_pos rfl, ih, fieldLines_cons_pos fields h, List.flatMap_cons]
      simp only [List.append_assoc]
    · rw [if_neg h, ih, fieldLines_cons_neg fields h]

theorem appendFields_eq (comp : GoogleString) (fields : List HeaderField) (base : GoogleString) :
    appendFields comp fields base false =
      (base ++ (ascii ", ").intercalate (fieldLines comp fields), decide (fieldLines comp fields ≠ [])) := by
  induction fields with
  | nil =>
    rw [appendFields, fieldLines, List.filter_nil, List.map_nil, List.intercalate_nil, List.append_nil]
    rfl
  | cons field fields ih =>
    rw [appendFields]
    by_cases h : stringCaseEqual field.name comp
    · rw [if_pos h, appendFields_found, fieldLines_cons_pos fields h, intercalate_cons]
      simp
    · rw [if_neg h, ih, fieldLines_cons_neg fields h]

theorem appendComponents_cons (req : BaseRequestView) (comp : GoogleString) (covered : List GoogleString)
    (base : GoogleString) :
    appendComponents req (comp :: covered) base =
      (canonicalValue req comp).bind fun value =>
        appendComponents req covered (base ++ componentHead comp ++ value ++ [10]) := by
  rw [appendComponents, canonicalValue]
  by_cases h : comp.head? = some 64
  · rw [if_pos h, if_pos h]
  · rw [if_neg h, if_neg h, appendFields_eq]
    by_cases hlines : fieldLines comp req.fields = []
    · rw [if_pos hlines]
      simp only [hlines]
      rfl
    · rw [if_neg hlines]
      simp only [ne_eq, hlines, not_false_eq_true, decide_true, if_true]
      rfl

theorem derivedValue_free (h : NewlineFree req) {value : GoogleString}
    (hvalue : derivedValue req comp = some value) : 10 ∉ value := by
  unfold derivedValue at hvalue
  split_ifs at hvalue
  · exact Option.some.inj hvalue ▸ h.method
  · exact Option.some.inj hvalue ▸ h.authority
  · exact Option.some.inj hvalue ▸ h.path

theorem fieldLines_free (h : NewlineFree req) {line : GoogleString}
    (hline : line ∈ fieldLines comp req.fields) : 10 ∉ line := by
  obtain ⟨field, hfield, rfl⟩ := List.mem_map.mp hline
  intro hmem
  exact h.fields field (List.mem_filter.mp hfield).1 (mem_of_mem_trimOws hmem)

theorem canonicalValue_free (h : NewlineFree req) {value : GoogleString}
    (hvalue : canonicalValue req comp = some value) : 10 ∉ value := by
  unfold canonicalValue at hvalue
  split_ifs at hvalue with hderived hlines
  · exact derivedValue_free h hvalue
  · rw [← Option.some.inj hvalue]
    have hfree : ∀ line ∈ fieldLines comp req.fields, 10 ∉ line := fun _ => fieldLines_free h
    cases hcons : fieldLines comp req.fields with
    | nil => exact absurd hcons hlines
    | cons line lines =>
      rw [hcons] at hfree
      rw [intercalate_cons]
      intro hmem
      obtain hmem | hmem := List.mem_append.mp hmem
      · exact hfree line List.mem_cons_self hmem
      · obtain ⟨next, hnext, hmem⟩ := List.mem_flatMap.mp hmem
        obtain hmem | hmem := List.mem_append.mp hmem
        · revert hmem
          decide
        · exact hfree next (List.mem_cons_of_mem line hnext) hmem

theorem exists_append_of_appendComponents
    {out : GoogleString} (h : appendComponents req covered base = some out) : ∃ tail, out = base ++ tail := by
  induction covered generalizing base with
  | nil => exact ⟨[], by rw [← Option.some.inj h, List.append_nil]⟩
  | cons comp covered ih =>
    rw [appendComponents_cons] at h
    obtain ⟨value, _, h⟩ := Option.bind_eq_some_iff.mp h
    obtain ⟨tail, htail⟩ := ih h
    exact ⟨componentHead comp ++ value ++ [10] ++ tail, by rw [htail]; simp only [List.append_assoc]⟩

theorem line_injective {sep : UInt8} {line line' tail tail' : GoogleString} (hline : sep ∉ line)
    (hline' : sep ∉ line') (h : line ++ sep :: tail = line' ++ sep :: tail') : line = line' := by
  induction line generalizing line' with
  | nil =>
    cases line' with
    | nil => rfl
    | cons c line' =>
      injection h with hc _
      exact absurd (hc ▸ List.mem_cons_self) hline'
  | cons c line ih =>
    cases line' with
    | nil =>
      injection h with hc _
      exact absurd (hc ▸ List.mem_cons_self) hline
    | cons d line' =>
      injection h with hc hrest
      rw [hc, ih (List.not_mem_of_not_mem_cons hline) (List.not_mem_of_not_mem_cons hline') hrest]

theorem appendComponents_injective {req' : BaseRequestView} (hfree : NewlineFree req)
    (hfree' : NewlineFree req') {out : GoogleString}
    (h : appendComponents req covered base = some out) (h' : appendComponents req' covered base = some out) :
    ∀ comp ∈ covered, ∃ value, canonicalValue req comp = some value ∧ canonicalValue req' comp = some value := by
  induction covered generalizing base with
  | nil => nofun
  | cons comp covered ih =>
    rw [appendComponents_cons] at h h'
    obtain ⟨value, hvalue, h⟩ := Option.bind_eq_some_iff.mp h
    obtain ⟨value', hvalue', h'⟩ := Option.bind_eq_some_iff.mp h'
    obtain ⟨tail, htail⟩ := exists_append_of_appendComponents h
    obtain ⟨tail', htail'⟩ := exists_append_of_appendComponents h'
    have hlines : value ++ 10 :: tail = value' ++ 10 :: tail' := by
      rw [htail] at htail'
      simp only [List.append_assoc, List.append_cancel_left_eq, List.singleton_append] at htail'
      exact htail'
    have hvalues := line_injective (canonicalValue_free hfree hvalue) (canonicalValue_free hfree' hvalue') hlines
    rw [← hvalues] at h' hvalue'
    intro c hc
    obtain rfl | hc := List.mem_cons.mp hc
    · exact ⟨value, hvalue, hvalue'⟩
    · exact ih h h' c hc

theorem buildSignatureBase_injective {req' : BaseRequestView} (hfree : NewlineFree req)
    (hfree' : NewlineFree req') {params : GoogleString} (h : buildSignatureBase req covered params = some base)
    (h' : buildSignatureBase req' covered params = some base) :
    ∀ comp ∈ covered, ∃ value, canonicalValue req comp = some value ∧ canonicalValue req' comp = some value := by
  obtain ⟨lines, hlines, hbase⟩ := Option.map_eq_some_iff.mp h
  obtain ⟨lines', hlines', hbase'⟩ := Option.map_eq_some_iff.mp h'
  have heq : lines = lines' := by
    rw [← hbase'] at hbase
    exact List.append_cancel_right (List.append_cancel_right hbase)
  rw [← heq] at hlines'
  exact appendComponents_injective hfree hfree' hlines hlines'

end PageSpeed.WebBotAuth
