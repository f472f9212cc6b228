import OpcConfig.ParserSound
import OpcConfig.Serializer

/-! # Printing and parsing

What `dump` prints is a text of the grammar for the value printed, so `parse`
reads the value back. What `parse` gives can be printed.
-/

namespace OpcConfig.JsonText

set_option autoImplicit false

open CString Grammar Nlohmann
open Serializer (text elementsText fieldsText stringText floatText escape escaped unicodeEscape dumped)

/-! ## Objects in the order of their keys -/

def SortedKeys (fields : List (Bytes × Json)) : Prop := (fields.map Prod.fst).Pairwise (· < ·)

theorem lt_of_not_lt {a b : Bytes} (h : ¬ a < b) (hNe : ¬ a = b) : b < a := by
  by_contra hLess
  exact hNe (Std.Trichotomous.trichotomous a b h hLess)

theorem mem_insertSorted {key : Bytes} {value : Json} {fields : List (Bytes × Json)}
    {field : Bytes × Json} (h : field ∈ insertSorted key value fields) :
    field = (key, value) ∨ field ∈ fields := by
  induction fields with
  | nil => exact Or.inl (List.mem_singleton.mp h)
  | cons first fields ih =>
    rw [insertSorted] at h
    split_ifs at h
    · exact (List.mem_cons.mp h).imp_right id
    · exact (List.mem_cons.mp h).imp_right (List.mem_cons_of_mem _)
    · rcases List.mem_cons.mp h with rfl | h
      · exact Or.inr List.mem_cons_self
      · exact (ih h).imp_right (List.mem_cons_of_mem _)

theorem sorted_insertSorted (key : Bytes) (value : Json) {fields : List (Bytes × Json)}
    (h : SortedKeys fields) : SortedKeys (insertSorted key value fields) := by
  induction fields with
  | nil => simp [SortedKeys, insertSorted]
  | cons first fields ih =>
    obtain ⟨hFirst, hRest⟩ := List.pairwise_cons.mp h
    rw [insertSorted]
    split_ifs with hLess hEq
    · refine List.pairwise_cons.mpr ⟨?_, h⟩
      intro key' hKey'
      rcases List.mem_cons.mp hKey' with rfl | hKey'
      · exact hLess
      · exact List.lt_trans hLess (hFirst key' hKey')
    · exact List.pairwise_cons.mpr ⟨hEq ▸ hFirst, hRest⟩
    · refine List.pairwise_cons.mpr ⟨?_, ih hRest⟩
      intro key' hKey'
      obtain ⟨field, hField, rfl⟩ := List.mem_map.mp hKey'
      rcases mem_insertSorted hField with rfl | hField
      · exact lt_of_not_lt hLess hEq
      · exact hFirst field.1 (List.mem_map_of_mem hField)

theorem sorted_insertAll (members : List (Bytes × Json)) {fields : List (Bytes × Json)}
    (h : SortedKeys fields) : SortedKeys (insertAll fields members) := by
  induction members generalizing fields with
  | nil => exact h
  | cons member members ih => exact ih (sorted_insertSorted member.1 member.2 h)

theorem mem_insertAll {members fields : List (Bytes × Json)} {field : Bytes × Json}
    (h : field ∈ insertAll fields members) : field ∈ members ∨ field ∈ fields := by
  induction members generalizing fields with
  | nil => exact Or.inr h
  | cons member members ih =>
    rcases ih h with hMember | hField
    · exact Or.inl (List.mem_cons_of_mem _ hMember)
    · rcases mem_insertSorted hField with rfl | hField
      · exact Or.inl List.mem_cons_self
      · exact Or.inr hField

theorem insertSorted_last {key : Bytes} (value : Json) {fields : List (Bytes × Json)}
    (h : ∀ field ∈ fields, field.1 < key) : insertSorted key value fields = fields ++ [(key, value)] := by
  induction fields with
  | nil => rfl
  | cons first fields ih =>
    obtain ⟨hFirst, hRest⟩ := List.forall_mem_cons.mp h
    rw [insertSorted, if_neg (List.lt_asymm hFirst), if_neg fun hEq => List.lt_irrefl _ (hEq ▸ hFirst),
      ih hRest]
    rfl

theorem insertAll_of_sorted {fields members : List (Bytes × Json)} (h : SortedKeys (fields ++ members)) :
    insertAll fields members = fields ++ members := by
  induction members generalizing fields with
  | nil => exact (List.append_nil fields).symm
  | cons member members ih =>
    have hSplit : SortedKeys ((fields ++ [member]) ++ members) := by rwa [List.append_assoc]
    have hBelow : ∀ field ∈ fields, field.1 < member.1 := by
      rw [SortedKeys, List.map_append, List.map_cons] at h
      intro field hField
      exact (List.pairwise_append.mp h).2.2 _ (List.mem_map_of_mem hField) _ List.mem_cons_self
    change insertAll (insertSorted member.1 member.2 fields) members = _
    rw [insertSorted_last member.2 hBelow, ih hSplit, List.append_assoc]
    rfl

mutual

/-- The fields of every object are in the order of their keys, as a `std::map`
has them. -/
def Ordered : Json → Prop
  | .object fields => SortedKeys fields ∧ OrderedFields fields
  | .array elements => OrderedElements elements
  | _ => True

def OrderedElements : List Json → Prop
  | [] => True
  | element :: elements => Ordered element ∧ OrderedElements elements

def OrderedFields : List (Bytes × Json) → Prop
  | [] => True
  | field :: fields => Ordered field.2 ∧ OrderedFields fields

end

theorem orderedFields_iff {fields : List (Bytes × Json)} :
    OrderedFields fields ↔ ∀ field ∈ fields, Ordered field.2 := by
  induction fields with
  | nil => simp [OrderedFields]
  | cons field fields ih => simp [OrderedFields, ih]

/-! ## Values of texts -/

theorem sequence_piece {t m : Bytes} (h : Piece t m) : Utf8.Sequence m := by
  cases h with
  | plain hSequence _ => exact hSequence
  | @escape c b hEscape =>
    have hAscii : ∀ e ∈ escapes, e.2.toNat ≤ 0x7F := by simp [escapes]
    exact ⟨[(0x00, 0x7F)], by decide, .cons ⟨Nat.zero_le _, hAscii _ hEscape⟩ .nil⟩
  | @unicode _ c _ => exact Utf8.sequence_encode c
  | @surrogates _ _ _ _ c _ _ _ _ _ => exact Utf8.sequence_encode c

theorem valid_iff_encodes (s : Bytes) : ValidUtf8 s ↔ Utf8.Encodes s := by
  rw [ValidUtf8, dumpEscaped_eq_run]
  exact Utf8.run_eq_start_iff next_eq_some_iff path_start s

theorem valid_stringText {t m : Bytes} (h : StringText t m) : ValidUtf8 m := by
  rw [valid_iff_encodes]
  cases h with
  | mk hChars =>
    induction hChars with
    | nil => exact Utf8.encodes_nil
    | cons hPiece _ ih => exact .cons (sequence_piece hPiece) ih

theorem dumpFields_self {fields : List (Bytes × Json)}
    (h : ∀ field ∈ fields, ValidUtf8 field.1 ∧ dump field.2 = .ok field.2) :
    dumpFields fields = .ok fields := by
  induction fields with
  | nil => rfl
  | cons field fields ih =>
    obtain ⟨⟨hKey, hValue⟩, hRest⟩ := List.forall_mem_cons.mp h
    exact dumpFields_cons hKey hValue (ih hRest)

mutual

/-- A value that has been parsed is printed as it is. -/
theorem dump_value {t : Bytes} {j : Json} (h : Value t j) : dump j = .ok j ∧ Ordered j := by
  match h with
  | .literalNull => exact ⟨rfl, trivial⟩
  | .literalTrue => exact ⟨rfl, trivial⟩
  | .literalFalse => exact ⟨rfl, trivial⟩
  | .number (.integer _ _) => exact ⟨rfl, trivial⟩
  | .number (.double _ _ hFinite) =>
    refine ⟨?_, trivial⟩
    rw [dump, dumpFloat, if_pos hFinite]
  | .string hString => exact ⟨dump_string (valid_stringText hString), trivial⟩
  | .emptyArray _ => exact ⟨rfl, trivial⟩
  | .array _ hValue hElements =>
    obtain ⟨hDump, hOrdered⟩ := dump_value hValue
    obtain ⟨hDumps, hOrdereds⟩ := dump_elements hElements
    exact ⟨dump_array (dumpElements_cons hDump hDumps), hOrdered, hOrdereds⟩
  | .emptyObject _ => exact ⟨rfl, List.Pairwise.nil, trivial⟩
  | @Value.object _ _ _ member members _ hMember hMembers =>
    have hAll : ∀ field ∈ member :: members,
        (ValidUtf8 field.1 ∧ dump field.2 = .ok field.2) ∧ Ordered field.2 :=
      List.forall_mem_cons.mpr ⟨dump_member hMember, dump_members hMembers⟩
    have hFields : ∀ field ∈ insertAll [] (member :: members),
        (ValidUtf8 field.1 ∧ dump field.2 = .ok field.2) ∧ Ordered field.2 := fun field hField =>
      hAll field ((mem_insertAll hField).resolve_right List.not_mem_nil)
    exact ⟨dump_object (dumpFields_self fun field hField => (hFields field hField).1),
      sorted_insertAll _ List.Pairwise.nil, orderedFields_iff.mpr fun field hField => (hFields field hField).2⟩

theorem dump_elements {t : Bytes} {js : List Json} (h : Elements t js) :
    dumpElements js = .ok js ∧ OrderedElements js := by
  match h with
  | .nil _ => exact ⟨rfl, trivial⟩
  | .cons _ _ hValue hElements =>
    obtain ⟨hDump, hOrdered⟩ := dump_value hValue
    obtain ⟨hDumps, hOrdereds⟩ := dump_elements hElements
    exact ⟨dumpElements_cons hDump hDumps, hOrdered, hOrdereds⟩

theorem dump_member {t : Bytes} {member : Bytes × Json} (h : Member t member) :
    (ValidUtf8 member.1 ∧ dump member.2 = .ok member.2) ∧ Ordered member.2 := by
  match h with
  | .mk hk _ _ hValue =>
    obtain ⟨hDump, hOrdered⟩ := dump_value hValue
    exact ⟨⟨valid_stringText hk, hDump⟩, hOrdered⟩

theorem dump_members {t : Bytes} {members : List (Bytes × Json)} (h : Members t members) :
    ∀ member ∈ members, (ValidUtf8 member.1 ∧ dump member.2 = .ok member.2) ∧ Ordered member.2 := by
  match h with
  | .nil _ => simp
  | .cons _ _ hMember hMembers => exact List.forall_mem_cons.mpr ⟨dump_member hMember, dump_members hMembers⟩

end

/-! ## Texts of strings and numbers -/

theorem hex_hexDigit {d : Nat} (h : d < 16) : Hex (Serializer.hexDigit d) d := by
  have hAll : ∀ d < 16, (d < 10 → (Serializer.hexDigit d).toNat = 48 + d) ∧
      (10 ≤ d → (Serializer.hexDigit d).toNat = 87 + d) := by decide
  rcases Nat.lt_or_ge d 10 with hDigit | hLetter
  · exact Or.inl ⟨hDigit, (hAll d h).1 hDigit⟩
  · exact Or.inr ⟨hLetter, h, Or.inr ((hAll d h).2 hLetter)⟩

theorem unicodeEscape_piece {b : UInt8} (h : b.toNat ≤ 0x1F) : Piece (unicodeEscape b.toNat) [b] := by
  have hValid : b.toNat.isValidChar := Or.inl (by omega)
  have hChar : (Char.ofNat b.toNat).toNat = b.toNat := Utf8.val_ofNat hValid
  have hUnit := CodeUnit.mk (hex_hexDigit (Nat.mod_lt (b.toNat / 4096) (by decide : 16 > 0)))
    (hex_hexDigit (Nat.mod_lt (b.toNat / 256) (by decide : 16 > 0)))
    (hex_hexDigit (Nat.mod_lt (b.toNat / 16) (by decide : 16 > 0)))
    (hex_hexDigit (Nat.mod_lt b.toNat (by decide : 16 > 0)))
  have hValue : b.toNat / 4096 % 16 * 4096 + b.toNat / 256 % 16 * 256 + b.toNat / 16 % 16 * 16 +
      b.toNat % 16 = (Char.ofNat b.toNat).toNat := by
    rw [hChar]
    omega
  rw [hValue] at hUnit
  have hPiece := Piece.unicode hUnit
  rwa [Utf8.encode_one (by omega)] at hPiece

/-- An ASCII character is printed as a piece of a string that denotes it. -/
theorem escape_piece {b : UInt8} (h : b.toNat ≤ 0x7F) : Piece (escape b) [b] := by
  have hByte : ∀ {n : Nat}, b.toNat = n → b = UInt8.ofNat n := fun hn => by rw [← hn, UInt8.ofNat_toNat]
  rw [escape, escaped]
  split_ifs with h8 h9 hA hC hD h22 h5C h1F
  · exact hByte h8 ▸ .escape (c := 98) (by decide)
  · exact hByte h9 ▸ .escape (c := 116) (by decide)
  · exact hByte hA ▸ .escape (c := 110) (by decide)
  · exact hByte hC ▸ .escape (c := 102) (by decide)
  · exact hByte hD ▸ .escape (c := 114) (by decide)
  · exact hByte h22 ▸ .escape (c := 34) (by decide)
  · exact hByte h5C ▸ .escape (c := 92) (by decide)
  · exact unicodeEscape_piece h1F
  · refine .plain ⟨[(0x00, 0x7F)], by decide, .cons ⟨Nat.zero_le _, h⟩ .nil⟩ ?_
    intro c hc
    cases List.mem_singleton.mp hc
    refine ⟨by omega, ?_, ?_⟩
    · rintro rfl
      exact h22 rfl
    · rintro rfl
      exact h5C rfl

theorem flatMap_escape_of_le {t : Bytes} (h : ∀ b ∈ t, 0x80 ≤ b.toNat) : t.flatMap escape = t := by
  induction t with
  | nil => rfl
  | cons b t ih =>
    obtain ⟨hb, ht⟩ := List.forall_mem_cons.mp h
    rw [List.flatMap_cons, Serializer.escape_of_le hb, ih ht]
    rfl

theorem sequence_cases {part : Bytes} (h : Utf8.Sequence part) :
    (∃ b, part = [b] ∧ b.toNat ≤ 0x7F) ∨ ∀ b ∈ part, 0x80 ≤ b.toNat := by
  obtain ⟨row, hRow, hMatches⟩ := h
  cases hMatches with
  | nil => exact absurd hRow (by decide)
  | @cons range b ranges rest hWithin hMatches =>
    rcases Nat.lt_or_ge 0x7F b.toNat with hAbove | hAscii
    · refine Or.inr (List.forall_mem_cons.mpr ⟨hAbove, ?_⟩)
      exact Lexer.le_of_matches (Lexer.rows_tail _ hRow) hMatches
    · have hOnly := Lexer.rows_ascii _ hRow range rfl (hWithin.1.trans hAscii)
      obtain ⟨_, rfl⟩ := List.cons.inj hOnly
      cases hMatches
      exact Or.inl ⟨b, rfl, hAscii⟩

theorem sequence_chars {part : Bytes} (h : Utf8.Sequence part) : Piece (part.flatMap escape) part := by
  rcases sequence_cases h with ⟨b, rfl, hAscii⟩ | hAbove
  · rw [List.flatMap_singleton]
    exact escape_piece hAscii
  · rw [flatMap_escape_of_le hAbove]
    exact .plain h fun b hb => Lexer.plain_of_le (hAbove b hb)

theorem encodes_chars {s : Bytes} (h : Utf8.Encodes s) : Chars (s.flatMap escape) s := by
  obtain ⟨characters, rfl⟩ := h
  induction characters with
  | nil => exact .nil
  | cons c characters ih =>
    rw [List.flatMap_cons, List.flatMap_append]
    exact .cons (sequence_chars (Utf8.sequence_encode c)) ih

theorem stringText_text {s : Bytes} (h : ValidUtf8 s) : StringText (stringText s) s :=
  .mk (encodes_chars ((valid_iff_encodes s).mp h))

theorem integral_numeral (n : Nat) : Integral (Printf.numeral n) := by
  rcases Nat.eq_zero_or_pos n with rfl | hPos
  · exact Or.inl (by decide)
  · exact Or.inr ⟨Strtod.digits_numeral n, Printf.numeral_ne_nil n, Strtod.head_numeral hPos⟩

theorem integer_text (n : JsonInteger) : Number (Printf.decimal n.val) (.integer n) := by
  have hDigits := Strtod.ofDigits_numeral n.val.natAbs
  have hMinus : ascii "-" = [45] := rfl
  rw [Printf.decimal]
  split
  · refine .integer ⟨Or.inr hMinus, integral_numeral _, Or.inl rfl, Or.inl rfl⟩ ?_
    rw [integerValue, hMinus, if_neg (List.cons_ne_nil _ _), hDigits]
    omega
  · have hText : NumberText [] (Printf.numeral n.val.natAbs) [] [] :=
      ⟨Or.inl rfl, integral_numeral _, Or.inl rfl, Or.inl rfl⟩
    refine .integer hText ?_
    rw [integerValue, if_pos rfl, hDigits]
    omega

theorem numberText_of_shape {x : Strtod.Numeral} (h : Dtoa.Shape x) :
    NumberText (Strtod.Numeral.minus x.negative) x.int (Strtod.Numeral.fracText x.frac)
      (Strtod.Numeral.expText x.exp) := by
  refine ⟨?_, ?_, ?_, ?_⟩
  · rw [Strtod.Numeral.minus]
    split
    · exact Or.inr rfl
    · exact Or.inl rfl
  · exact h.leading.imp_right fun hHead => ⟨h.int, h.int_ne_nil, hHead⟩
  · rw [Strtod.Numeral.fracText]
    split
    · exact Or.inl rfl
    · rename_i hNe
      exact Or.inr ⟨x.frac, rfl, h.frac, hNe⟩
  · cases hExp : x.exp with
    | none => exact Or.inl rfl
    | some e =>
      obtain ⟨negative, digits⟩ := e
      refine Or.inr ⟨101, _, rfl, Or.inl rfl, [if negative then 45 else 43], digits, rfl, ?_,
        h.exp _ hExp, h.exp_ne_nil _ hExp⟩
      cases negative <;> decide

theorem float_text {d : Binary64} (h : d.finite = true) : Number (floatText d) (.double d) := by
  obtain ⟨x, hChars, hShape, hFloat, _, hValue⟩ := Dtoa.toChars_spec h
  have hText : floatText d = x.text := by
    rw [floatText, if_pos h, hChars]
    rfl
  have hParts : Strtod.Numeral.fracText x.frac ++ Strtod.Numeral.expText x.exp ≠ [] := by
    intro hNil
    obtain ⟨hFrac, hExp⟩ := List.append_eq_nil_iff.mp hNil
    rcases hFloat with hFloat | hFloat
    · rw [Strtod.Numeral.fracText, if_neg hFloat] at hFrac
      cases hFrac
    · obtain ⟨e, he⟩ := Option.ne_none_iff_exists'.mp hFloat
      rw [he] at hExp
      cases hExp
  have hFinite : (Strtod.strtod x.text).finite = true := by rwa [hValue]
  have hNumber := Number.double (numberText_of_shape hShape) (Or.inl hParts) hFinite
  rw [hText]
  rwa [← Strtod.Numeral.text, hValue] at hNumber

/-! ## Texts of values -/

theorem dump_array_cases {js : List Json} {j' : Json} (h : dump (.array js) = .ok j') :
    ∃ js', dumpElements js = .ok js' ∧ j' = .array js' := by
  rw [dump] at h
  cases hElements : dumpElements js with
  | error e =>
    rw [hElements] at h
    cases h
  | ok js' =>
    rw [hElements] at h
    cases h
    exact ⟨js', rfl, rfl⟩

theorem dump_object_cases {fields : List (Bytes × Json)} {j' : Json} (h : dump (.object fields) = .ok j') :
    ∃ fields', dumpFields fields = .ok fields' ∧ j' = .object fields' := by
  rw [dump] at h
  cases hFields : dumpFields fields with
  | error e =>
    rw [hFields] at h
    cases h
  | ok fields' =>
    rw [hFields] at h
    cases h
    exact ⟨fields', rfl, rfl⟩

theorem dumpElements_cases {j : Json} {js js' : List Json} (h : dumpElements (j :: js) = .ok js') :
    ∃ e es, dump j = .ok e ∧ dumpElements js = .ok es ∧ js' = e :: es := by
  rw [dumpElements] at h
  cases hElement : dump j with
  | error e =>
    rw [hElement] at h
    cases h
  | ok e =>
    cases hElements : dumpElements js with
    | error e' =>
      rw [hElement, hElements] at h
      cases h
    | ok es =>
      rw [hElement, hElements] at h
      cases h
      exact ⟨e, es, rfl, rfl, rfl⟩

theorem dumpFields_cases {key : Bytes} {value : Json} {fields fields' : List (Bytes × Json)}
    (h : dumpFields ((key, value) :: fields) = .ok fields') :
    ∃ v rest, ValidUtf8 key ∧ dump value = .ok v ∧ dumpFields fields = .ok rest ∧
      fields' = (key, v) :: rest := by
  rw [dumpFields] at h
  split at h
  · rename_i hKey
    cases hValue : dump value with
    | error e =>
      rw [hValue] at h
      cases h
    | ok v =>
      cases hFields : dumpFields fields with
      | error e =>
        rw [hValue, hFields] at h
        cases h
      | ok rest =>
        rw [hValue, hFields] at h
        cases h
        exact ⟨v, rest, hKey, rfl, rfl, rfl⟩
  · cases h

theorem dumpFields_keys {fields fields' : List (Bytes × Json)} (h : dumpFields fields = .ok fields') :
    fields'.map Prod.fst = fields.map Prod.fst := by
  induction fields generalizing fields' with
  | nil =>
    cases h
    rfl
  | cons field fields ih =>
    obtain ⟨v, rest, _, _, hRest, rfl⟩ := dumpFields_cases h
    rw [List.map_cons, List.map_cons, ih hRest]

theorem blanks_nil : Blanks [] := Parser.blanks_nil

mutual

/-- The text of a value is one of the grammar. -/
theorem text_value (j : Json) {j' : Json} (h : dump j = .ok j') (hOrdered : Ordered j) :
    Value (text j) j' := by
  match j with
  | .null =>
    cases h
    exact .literalNull
  | .boolean true =>
    cases h
    exact .literalTrue
  | .boolean false =>
    cases h
    exact .literalFalse
  | .integer n =>
    cases h
    exact .number (integer_text n)
  | .double d =>
    obtain rfl := Except.ok.inj h
    rw [text, dumpFloat]
    split
    · rename_i hFinite
      exact .number (float_text hFinite)
    · rename_i hInfinite
      rw [floatText, if_neg hInfinite]
      exact .literalNull
  | .string s =>
    rw [dump] at h
    split at h
    · rename_i hValid
      cases h
      exact .string (stringText_text hValid)
    · cases h
  | .array [] =>
    cases h
    exact .emptyArray blanks_nil
  | .array (j :: js) =>
    obtain ⟨_, hElements, rfl⟩ := dump_array_cases h
    obtain ⟨t, u, e, es, rfl, hText, hValue, hTail⟩ := elements_text (j :: js) nofun hElements hOrdered
    have hArray := Value.array blanks_nil hValue hTail
    rw [List.nil_append, ← hText] at hArray
    exact hArray
  | .object [] =>
    cases h
    exact .emptyObject blanks_nil
  | .object ((key, value) :: fields) =>
    obtain ⟨_, hFields, rfl⟩ := dump_object_cases h
    have hKeys := dumpFields_keys hFields
    obtain ⟨t, u, member, rest, rfl, hText, hMember, hTail⟩ :=
      fields_text ((key, value) :: fields) nofun hFields hOrdered.2
    have hObject := Value.object blanks_nil hMember hTail
    have hSorted : SortedKeys ([] ++ member :: rest) := by
      rw [SortedKeys, List.nil_append, hKeys]
      exact hOrdered.1
    rw [List.nil_append, ← hText, insertAll_of_sorted hSorted] at hObject
    exact hObject

theorem elements_text (js : List Json) {js' : List Json} (hNe : js ≠ []) (h : dumpElements js = .ok js')
    (hOrdered : OrderedElements js) : ∃ t u e es, js' = e :: es ∧
      elementsText js ++ ascii "]" = t ++ u ∧ Value t e ∧ Elements u es := by
  match js with
  | [] => exact absurd rfl hNe
  | [j] =>
    obtain ⟨e, es, hElement, hRest, rfl⟩ := dumpElements_cases h
    cases hRest
    exact ⟨text j, _, e, [], rfl, rfl, text_value j hElement hOrdered.1, .nil blanks_nil⟩
  | j :: next :: js =>
    obtain ⟨e, es, hElement, hRest, rfl⟩ := dumpElements_cases h
    obtain ⟨t, u, e', es', rfl, hText, hValue, hTail⟩ :=
      elements_text (next :: js) nofun hRest hOrdered.2
    refine ⟨text j, _, e, _, rfl, ?_, text_value j hElement hOrdered.1,
      .cons blanks_nil blanks_nil hValue hTail⟩
    rw [elementsText, List.append_assoc, List.append_assoc, hText]
    rfl

theorem fields_text (fields : List (Bytes × Json)) {fields' : List (Bytes × Json)} (hNe : fields ≠ [])
    (h : dumpFields fields = .ok fields') (hOrdered : OrderedFields fields) :
    ∃ t u member members, fields' = member :: members ∧
      fieldsText fields ++ ascii "\x7d" = t ++ u ∧ Member t member ∧ Members u members := by
  match fields with
  | [] => exact absurd rfl hNe
  | [(key, value)] =>
    obtain ⟨v, rest, hKey, hValue, hRest, rfl⟩ := dumpFields_cases h
    cases hRest
    have hMember := Member.mk (stringText_text hKey) blanks_nil blanks_nil
      (text_value value hValue hOrdered.1)
    refine ⟨_, _, _, [], rfl, ?_, hMember, .nil blanks_nil⟩
    rw [fieldsText]
    rfl
  | (key, value) :: next :: fields =>
    obtain ⟨v, rest, hKey, hValue, hRest, rfl⟩ := dumpFields_cases h
    obtain ⟨t, u, member, members, rfl, hText, hMember', hTail⟩ :=
      fields_text (next :: fields) nofun hRest hOrdered.2
    have hMember := Member.mk (stringText_text hKey) blanks_nil blanks_nil
      (text_value value hValue hOrdered.1)
    refine ⟨_, _, _, _, rfl, ?_, hMember, .cons blanks_nil blanks_nil hMember' hTail⟩
    rw [fieldsText]
    simp only [List.append_assoc]
    rw [hText, List.nil_append]
    rfl

end

/-! ## Round trips -/

mutual

/-- The value printed has the text of the value that is printed. -/
theorem text_dump (j : Json) {j' : Json} (h : dump j = .ok j') : text j' = text j := by
  match j with
  | .null => cases h; rfl
  | .boolean b => cases h; rfl
  | .integer n => cases h; rfl
  | .double d =>
    obtain rfl := Except.ok.inj h
    rw [dumpFloat]
    split
    · rfl
    · rename_i hInfinite
      rw [text, text, floatText, if_neg hInfinite]
  | .string s =>
    rw [dump] at h
    split at h <;> cases h
    rfl
  | .array js =>
    obtain ⟨js', hElements, rfl⟩ := dump_array_cases h
    rw [text, text, text_dumpElements js hElements]
  | .object fields =>
    obtain ⟨fields', hFields, rfl⟩ := dump_object_cases h
    rw [text, text, text_dumpFields fields hFields]

theorem text_dumpElements (js : List Json) {js' : List Json} (h : dumpElements js = .ok js') :
    elementsText js' = elementsText js := by
  match js with
  | [] => cases h; rfl
  | [j] =>
    obtain ⟨e, es, hElement, hRest, rfl⟩ := dumpElements_cases h
    cases hRest
    exact text_dump j hElement
  | j :: next :: js =>
    obtain ⟨e, es, hElement, hRest, rfl⟩ := dumpElements_cases h
    have hText := text_dumpElements (next :: js) hRest
    obtain ⟨e', es', _, _, rfl⟩ := dumpElements_cases hRest
    rw [elementsText, elementsText, text_dump j hElement, hText]

theorem text_dumpFields (fields : List (Bytes × Json)) {fields' : List (Bytes × Json)}
    (h : dumpFields fields = .ok fields') : fieldsText fields' = fieldsText fields := by
  match fields with
  | [] => cases h; rfl
  | [(key, value)] =>
    obtain ⟨v, rest, _, hValue, hRest, rfl⟩ := dumpFields_cases h
    cases hRest
    rw [fieldsText, fieldsText, text_dump value hValue]
  | (key, value) :: next :: fields =>
    obtain ⟨v, rest, _, hValue, hRest, rfl⟩ := dumpFields_cases h
    have hText := text_dumpFields (next :: fields) hRest
    obtain ⟨_, _, _, _, _, rfl⟩ := dumpFields_cases hRest
    rw [fieldsText, fieldsText, text_dump value hValue, hText]

end

theorem parse_text {j j' : Json} (hOrdered : Ordered j) (h : dump j = .ok j') :
    Parser.parse (text j) = .ok j' := by
  have hText : Text ([] ++ ([] ++ (text j ++ ([] ++ [])))) j' :=
    .mk (Or.inl rfl) blanks_nil (text_value j h hOrdered) blanks_nil (Or.inl rfl)
  simp only [List.nil_append, List.append_nil] at hText
  exact Parser.parse_complete hText

theorem value_of_parse {t : Bytes} {j : Json} (h : Parser.parse t = .ok j) : ∃ u, Value u j := by
  cases Parser.parse_sound h with
  | mk _ _ hValue _ _ => exact ⟨_, hValue⟩

/-- `dump` on an ordered value throws, or it prints a text that `parse` reads as
the value printed. -/
theorem dumped_parses (j : Json) (hOrdered : Ordered j) :
    (∃ j' t, dump j = .ok j' ∧ dumped j = .ok t ∧ Parser.parse t = .ok j') ∨
      (∃ e, dump j = .error e) ∧ dumped j = .error .invalidUtf8 := by
  cases hDump : dump j with
  | ok j' =>
    exact Or.inl ⟨j', text j, rfl, Serializer.dumped_of_ok hDump, parse_text hOrdered hDump⟩
  | error e => exact Or.inr ⟨⟨e, rfl⟩, Serializer.dumped_of_error hDump⟩

theorem dumped_parses_object :
    let j := Json.object [(ascii "a", .null), (ascii "b", .array [.boolean true])]
    (∃ j' t, dump j = .ok j' ∧ dumped j = .ok t ∧ Parser.parse t = .ok j') ∨
      (∃ e, dump j = .error e) ∧ dumped j = .error .invalidUtf8 := by
  have hKeys : ascii "a" < ascii "b" := by decide
  apply dumped_parses
  simp [Ordered, OrderedFields, OrderedElements, SortedKeys, hKeys]

/-- What has been parsed is printed as a text for it. -/
theorem parsed_dumps (t : Bytes) (j : Json) (h : Parser.parse t = .ok j) :
    ∃ t', dumped j = .ok t' ∧ Parser.parse t' = .ok j := by
  obtain ⟨u, hValue⟩ := value_of_parse h
  obtain ⟨hDump, hOrdered⟩ := dump_value hValue
  exact ⟨text j, Serializer.dumped_of_ok hDump, parse_text hOrdered hDump⟩

theorem parsed_dumps_array : ∃ t', dumped (.array [.null]) = .ok t' ∧
    Parser.parse t' = .ok (.array [.null]) := by
  have hArray : Value (91 :: ([] ++ (ascii "null" ++ ([] ++ [93])))) (.array [.null]) :=
    .array blanks_nil .literalNull (.nil blanks_nil)
  have hText : Text ([] ++ ([] ++ (91 :: ([] ++ (ascii "null" ++ ([] ++ [93]))) ++ ([] ++ []))))
      (.array [.null]) := .mk (Or.inl rfl) blanks_nil hArray blanks_nil (Or.inl rfl)
  exact parsed_dumps _ _ (Parser.parse_complete hText)

end OpcConfig.JsonText
