import OpcConfig.JsonText

/-! # Compact texts

The texts of the grammar without blanks, in which only those characters are
escaped that must be, with the short escapes where there are any. A double has a
numeral that is read back as this double, or `null` where it has none.
-/

namespace OpcConfig.Grammar

set_option autoImplicit false

open CString

def lowerHex (d : Nat) : UInt8 := (Nat.digitChar d).toNat.toUInt8

/-- A slash could be escaped, too, but need not be. -/
def compactChar (c : Char) : Bytes :=
  match escapes.find? fun e => e.2.toNat = c.toNat ∧ e.2 ≠ 47 with
  | some e => [92, e.1]
  | none =>
    if c.toNat < 0x20 then [92, 117, 48, 48, lowerHex (c.toNat / 16), lowerHex (c.toNat % 16)]
    else String.utf8EncodeChar c

/-- The text of a string, of which the bytes are those of the characters. -/
inductive CompactString : Bytes → Bytes → Prop
  | mk (text : List Char) :
      CompactString (34 :: (text.flatMap compactChar ++ [34])) (text.flatMap String.utf8EncodeChar)

mutual

inductive Compact : Bytes → Json → Prop
  | literalNull : Compact (ascii "null") .null
  | literalTrue : Compact (ascii "true") (.boolean true)
  | literalFalse : Compact (ascii "false") (.boolean false)
  | integer (n : JsonInteger) : Compact (Printf.decimal n.val) (.integer n)
  | double {t : Bytes} {d : Binary64} (h : Number t (.double d)) : Compact t (.double d)
  | notFinite {d : Binary64} (h : d.finite = false) : Compact (ascii "null") (.double d)
  | string {t s : Bytes} (h : CompactString t s) : Compact t (.string s)
  | emptyArray : Compact (ascii "[]") (.array [])
  | array {t u : Bytes} {j : Json} {js : List Json} (h : Compact t j) (hs : CompactElements u js) :
      Compact (91 :: (t ++ u)) (.array (j :: js))
  | emptyObject : Compact (ascii "\x7b\x7d") (.object [])
  | object {t u : Bytes} {field : Bytes × Json} {fields : List (Bytes × Json)}
      (h : CompactField t field) (hs : CompactFields u fields) :
      Compact (123 :: (t ++ u)) (.object (field :: fields))

inductive CompactElements : Bytes → List Json → Prop
  | nil : CompactElements [93] []
  | cons {t u : Bytes} {j : Json} {js : List Json} (h : Compact t j) (hs : CompactElements u js) :
      CompactElements (44 :: (t ++ u)) (j :: js)

inductive CompactField : Bytes → Bytes × Json → Prop
  | mk {k t : Bytes} {key : Bytes} {value : Json} (hk : CompactString k key) (h : Compact t value) :
      CompactField (k ++ 58 :: t) (key, value)

inductive CompactFields : Bytes → List (Bytes × Json) → Prop
  | nil : CompactFields [125] []
  | cons {t u : Bytes} {field : Bytes × Json} {fields : List (Bytes × Json)}
      (h : CompactField t field) (hs : CompactFields u fields) :
      CompactFields (44 :: (t ++ u)) (field :: fields)

end

end OpcConfig.Grammar

namespace OpcConfig.JsonText

open CString Grammar Nlohmann
open Serializer (text elementsText fieldsText stringText floatText escape dumped)

/-! ## What is printed -/

theorem escape_ascii : ∀ n < 0x80, escape (UInt8.ofNat n) = compactChar (Char.ofNat n) := by
  decide +kernel

theorem compactChar_of_le {c : Char} (h : 0x80 ≤ c.toNat) :
    compactChar c = String.utf8EncodeChar c := by
  have hNone : (escapes.find? fun e => e.2.toNat = c.toNat ∧ e.2 ≠ 47) = none := by
    have hAscii : (escapes.all fun e => decide (e.2.toNat < 0x80)) = true := by decide
    rw [List.find?_eq_none]
    intro e he
    have hLess := of_decide_eq_true (List.all_eq_true.mp hAscii e he)
    simp only [decide_eq_true_eq]
    omega
  rw [compactChar, hNone]
  exact if_neg (by omega)

/-- The bytes of a character are escaped as the character is. -/
theorem flatMap_escape_encode (c : Char) :
    (String.utf8EncodeChar c).flatMap escape = compactChar c := by
  rcases Nat.lt_or_ge c.toNat 0x80 with hAscii | hAbove
  · have hOne : String.utf8EncodeChar c = [UInt8.ofNat c.toNat] := if_pos (Nat.le_of_lt_succ hAscii)
    rw [hOne, List.flatMap_singleton, escape_ascii c.toNat hAscii, Char.ofNat_toNat]
  · have hMany : ∀ b, String.utf8EncodeChar c ≠ [b] := by
      intro b hOne
      have hNot : ¬ c.val.toNat ≤ 0x7F := Nat.not_le.mpr hAbove
      rw [String.utf8EncodeChar, if_neg hNot] at hOne
      split at hOne
      · cases hOne
      · split at hOne <;> cases hOne
    rw [compactChar_of_le hAbove]
    rcases sequence_cases (Utf8.sequence_encode c) with ⟨b, hOne, _⟩ | hBytes
    · exact absurd hOne (hMany b)
    · exact flatMap_escape_of_le hBytes

theorem stringText_compact {s : Bytes} (h : ValidUtf8 s) : CompactString (stringText s) s := by
  obtain ⟨characters, rfl⟩ := (valid_iff_encodes s).mp h
  have hText : (characters.flatMap String.utf8EncodeChar).flatMap escape =
      characters.flatMap compactChar := by
    rw [List.flatMap_assoc]
    exact List.flatMap_congr fun c _ => flatMap_escape_encode c
  rw [stringText, hText]
  exact .mk characters

mutual

theorem text_compact (j : Json) {j' : Json} (h : dump j = .ok j') : Compact (text j) j := by
  match j with
  | .null => exact .literalNull
  | .boolean true => exact .literalTrue
  | .boolean false => exact .literalFalse
  | .integer n => exact .integer n
  | .double d =>
    rw [text]
    cases hFinite : d.finite with
    | true => exact .double (float_text hFinite)
    | false =>
      rw [floatText, if_neg (by simp [hFinite])]
      exact .notFinite hFinite
  | .string s =>
    rw [dump] at h
    split at h
    · rename_i hValid
      exact .string (stringText_compact hValid)
    · cases h
  | .array [] => exact .emptyArray
  | .array (j :: js) =>
    obtain ⟨js', hElements, _⟩ := dump_array_cases h
    obtain ⟨t, u, hText, hValue, hTail⟩ := elements_compact j js hElements
    have hArray := Compact.array hValue hTail
    rw [text, hText]
    exact hArray
  | .object [] => exact .emptyObject
  | .object (field :: fields) =>
    obtain ⟨fields', hFields, _⟩ := dump_object_cases h
    obtain ⟨t, u, hText, hField, hTail⟩ := fields_compact field fields hFields
    have hObject := Compact.object hField hTail
    rw [text, hText]
    exact hObject

theorem elements_compact (j : Json) (js : List Json) {js' : List Json}
    (h : dumpElements (j :: js) = .ok js') : ∃ t u, elementsText (j :: js) ++ ascii "]" = t ++ u ∧
      Compact t j ∧ CompactElements u js := by
  obtain ⟨e, es, hElement, hRest, rfl⟩ := dumpElements_cases h
  match js with
  | [] =>
    refine ⟨text j, _, ?_, text_compact j hElement, .nil⟩
    rw [elementsText]
    rfl
  | next :: js =>
    obtain ⟨t, u, hText, hValue, hTail⟩ := elements_compact next js hRest
    refine ⟨text j, _, ?_, text_compact j hElement, .cons hValue hTail⟩
    rw [elementsText, List.append_assoc, List.append_assoc, hText]
    rfl

theorem fields_compact (field : Bytes × Json) (fields : List (Bytes × Json))
    {fields' : List (Bytes × Json)} (h : dumpFields (field :: fields) = .ok fields') :
    ∃ t u, fieldsText (field :: fields) ++ ascii "\x7d" = t ++ u ∧ CompactField t field ∧
      CompactFields u fields := by
  obtain ⟨key, value⟩ := field
  obtain ⟨v, rest, hKey, hValue, hRest, rfl⟩ := dumpFields_cases h
  have hField := CompactField.mk (stringText_compact hKey) (text_compact value hValue)
  match fields with
  | [] =>
    refine ⟨_, _, ?_, hField, .nil⟩
    rw [fieldsText]
    rfl
  | next :: fields =>
    obtain ⟨t, u, hText, hNext, hTail⟩ := fields_compact next fields hRest
    refine ⟨_, _, ?_, hField, .cons hNext hTail⟩
    rw [fieldsText]
    simp only [List.append_assoc]
    rw [hText]
    rfl

end

/-! ## What has a compact text -/

theorem CompactString.valid {t s : Bytes} (h : CompactString t s) : ValidUtf8 s := by
  cases h with
  | mk characters => exact (valid_iff_encodes _).mpr ⟨characters, rfl⟩

mutual

theorem compact_dump {t : Bytes} {j : Json} (h : Compact t j) : ∃ j', dump j = .ok j' := by
  match h with
  | .literalNull | .literalTrue | .literalFalse => exact ⟨_, rfl⟩
  | .integer _ => exact ⟨_, rfl⟩
  | .double _ => exact ⟨_, rfl⟩
  | .notFinite _ => exact ⟨_, rfl⟩
  | .string hString => exact ⟨_, dump_string (CompactString.valid hString)⟩
  | .emptyArray | .emptyObject => exact ⟨_, rfl⟩
  | .array hElement hElements =>
    obtain ⟨e, he⟩ := compact_dump hElement
    obtain ⟨es, hes⟩ := compact_dumpElements hElements
    exact ⟨_, dump_array (dumpElements_cons he hes)⟩
  | .object hField hFields =>
    obtain ⟨fields', hAll⟩ := compact_dumpField hField (compact_dumpFields hFields)
    exact ⟨_, dump_object hAll⟩

theorem compact_dumpElements {t : Bytes} {js : List Json} (h : CompactElements t js) :
    ∃ js', dumpElements js = .ok js' := by
  match h with
  | .nil => exact ⟨_, rfl⟩
  | .cons hElement hElements =>
    obtain ⟨e, he⟩ := compact_dump hElement
    obtain ⟨es, hes⟩ := compact_dumpElements hElements
    exact ⟨_, dumpElements_cons he hes⟩

theorem compact_dumpField {t : Bytes} {field : Bytes × Json} (h : CompactField t field)
    {fields : List (Bytes × Json)} (hRest : ∃ fields', dumpFields fields = .ok fields') :
    ∃ fields', dumpFields (field :: fields) = .ok fields' := by
  match h with
  | .mk hKey hValue =>
    obtain ⟨v, hv⟩ := compact_dump hValue
    obtain ⟨rest, hRest⟩ := hRest
    exact ⟨_, dumpFields_cons (CompactString.valid hKey) hv hRest⟩

theorem compact_dumpFields {t : Bytes} {fields : List (Bytes × Json)} (h : CompactFields t fields) :
    ∃ fields', dumpFields fields = .ok fields' := by
  match h with
  | .nil => exact ⟨_, rfl⟩
  | .cons hField hFields => exact compact_dumpField hField (compact_dumpFields hFields)

end

/-- The serializer leaves none of its buffers: it writes a compact text of the
value, or throws where the value has none. -/
theorem dumped_text (j : Json) :
    (∃ t, dumped j = .ok t ∧ Compact t j) ∨
      dumped j = .error .invalidUtf8 ∧ ∀ t, ¬ Compact t j := by
  cases hDump : dump j with
  | ok j' => exact Or.inl ⟨text j, Serializer.dumped_of_ok hDump, text_compact j hDump⟩
  | error e =>
    refine Or.inr ⟨Serializer.dumped_of_error hDump, fun t h => ?_⟩
    obtain ⟨j', hOk⟩ := compact_dump h
    rw [hDump] at hOk
    cases hOk

end OpcConfig.JsonText
