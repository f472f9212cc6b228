import OpcConfig.Lexer

/-! # The strings that the lexer reads

`scan_string` reads the strings of the grammar and no others, and keeps what
they denote.
-/

namespace OpcConfig.Lexer

set_option autoImplicit false

open Grammar Utf8

/-! ## Code points -/

theorem hexValue_eq_some_iff {b : UInt8} {d : Nat} : hexValue b = some d ↔ Hex b d := by
  rw [hexValue, Hex]
  split_ifs <;> simp only [Option.some.injEq, false_iff] <;> omega

theorem getCodepoint_eq_some_iff {rest rest' : Bytes} {n : Nat} :
    getCodepoint rest = some (n, rest') ↔ ∃ t, CodeUnit t n ∧ rest = t ++ rest' := by
  constructor
  · intro h
    match rest with
    | a :: b :: c :: d :: rest =>
      rw [getCodepoint] at h
      split at h
      · rename_i w x y z ha hb hc hd
        simp only [Nat.shiftLeft_eq, Option.some.injEq, Prod.mk.injEq] at h
        obtain ⟨rfl, rfl⟩ := h
        exact ⟨[a, b, c, d], .mk (hexValue_eq_some_iff.mp ha) (hexValue_eq_some_iff.mp hb)
          (hexValue_eq_some_iff.mp hc) (hexValue_eq_some_iff.mp hd), rfl⟩
      · cases h
  · rintro ⟨t, hUnit, rfl⟩
    cases hUnit with
    | mk ha hb hc hd =>
      rw [List.cons_append, List.cons_append, List.cons_append, List.cons_append, getCodepoint,
        hexValue_eq_some_iff.mpr ha, hexValue_eq_some_iff.mpr hb, hexValue_eq_some_iff.mpr hc,
        hexValue_eq_some_iff.mpr hd]
      simp only [Nat.shiftLeft_eq]
      rfl

theorem codeUnit_lt {t : Bytes} {n : Nat} (h : CodeUnit t n) : n < 0x10000 := by
  cases h with
  | mk ha hb hc hd =>
    simp only [Hex] at ha hb hc hd
    omega

theorem continuation (n : Nat) : 0x80 ||| n &&& 0x3F = n % 0x40 + 0x80 := by
  have hAnd : n &&& 0x3F = n % 64 := Nat.and_two_pow_sub_one_eq_mod n 6
  have hOr : 0x80 + n % 64 = 0x80 ||| n % 64 :=
    Nat.shiftLeft_add_eq_or_of_lt (i := 6) (Nat.mod_lt _ (by decide)) 2
  rw [hAnd, ← hOr, Nat.add_comm]

theorem lead_two {n : Nat} (h : n < 64) : 0xC0 ||| n = n + 0xC0 := by
  have hOr : 0xC0 + n = 0xC0 ||| n := Nat.shiftLeft_add_eq_or_of_lt (i := 6) h 3
  rw [← hOr, Nat.add_comm]

theorem lead_three {n : Nat} (h : n < 16) : 0xE0 ||| n = n + 0xE0 := by
  have hOr : 0xE0 + n = 0xE0 ||| n := Nat.shiftLeft_add_eq_or_of_lt (i := 4) h 14
  rw [← hOr, Nat.add_comm]

theorem lead_four {n : Nat} (h : n < 8) : 0xF0 ||| n = n + 0xF0 := by
  have hOr : 0xF0 + n = 0xF0 ||| n := Nat.shiftLeft_add_eq_or_of_lt (i := 3) h 30
  rw [← hOr, Nat.add_comm]

/-- The translation into bytes is UTF-8. -/
theorem codepointBytes_toNat (c : Char) : codepointBytes c.toNat = String.utf8EncodeChar c := by
  have hValid : c.toNat.isValidChar := c.valid
  have hVal : c.val.toNat = c.toNat := rfl
  rw [Nat.isValidChar] at hValid
  rw [codepointBytes, String.utf8EncodeChar]
  simp only [hVal, continuation, Nat.shiftRight_eq_div_pow, Nat.reducePow]
  have hBelow : c.toNat < 0x80 ↔ c.toNat ≤ 0x7F := Nat.lt_succ_iff
  simp only [hBelow]
  by_cases hOne : c.toNat ≤ 0x7F
  · rw [if_pos hOne, if_pos hOne]
  · rw [if_neg hOne, if_neg hOne]
    by_cases hTwo : c.toNat ≤ 0x7FF
    · rw [if_pos hTwo, if_pos hTwo, lead_two (by omega),
        Nat.mod_eq_of_lt (by omega : c.toNat / 64 < 0x20)]
    · rw [if_neg hTwo, if_neg hTwo]
      by_cases hThree : c.toNat ≤ 0xFFFF
      · rw [if_pos hThree, if_pos hThree, lead_three (by omega),
          Nat.mod_eq_of_lt (by omega : c.toNat / 4096 < 0x10)]
      · rw [if_neg hThree, if_neg hThree, lead_four (by omega),
          Nat.mod_eq_of_lt (by omega : c.toNat / 262144 < 0x08)]

theorem codepointBytes_of_valid {n : Nat} (h : n.isValidChar) :
    ∃ c : Char, c.toNat = n ∧ codepointBytes n = String.utf8EncodeChar c := by
  have hChar : (Char.ofNat n).toNat = n := val_ofNat h
  refine ⟨Char.ofNat n, hChar, ?_⟩
  rw [← codepointBytes_toNat, hChar]

/-! ## Bytes of one code point -/

theorem followingRanges_eq_some_iff {b : UInt8} (h : 0x80 ≤ b.toNat) (ranges : List Range) :
    followingRanges b = some ranges ↔ ∃ range, Within range b ∧ range :: ranges ∈ rows := by
  constructor
  · intro hRanges
    rw [followingRanges] at hRanges
    split_ifs at hRanges with hC2 hE0 hE1 hED hF0 hF1 hF4 <;> cases hRanges
    · exact ⟨(0xC2, 0xDF), hC2, by decide⟩
    · exact ⟨(0xE0, 0xE0), ⟨hE0.ge, hE0.le⟩, by decide⟩
    · rcases hE1 with hE1 | hEE
      · exact ⟨(0xE1, 0xEC), hE1, by decide⟩
      · exact ⟨(0xEE, 0xEF), by rw [Within]; omega, by decide⟩
    · exact ⟨(0xED, 0xED), ⟨hED.ge, hED.le⟩, by decide⟩
    · exact ⟨(0xF0, 0xF0), ⟨hF0.ge, hF0.le⟩, by decide⟩
    · exact ⟨(0xF1, 0xF3), hF1, by decide⟩
    · exact ⟨(0xF4, 0xF4), ⟨hF4.ge, hF4.le⟩, by decide⟩
  · rintro ⟨range, hWithin, hRow⟩
    simp only [rows, List.mem_cons, List.cons.injEq, List.not_mem_nil, or_false, tail] at hRow
    rw [followingRanges]
    rcases hRow with ⟨rfl, rfl⟩ | ⟨rfl, rfl⟩ | ⟨rfl, rfl⟩ | ⟨rfl, rfl⟩ | ⟨rfl, rfl⟩ | ⟨rfl, rfl⟩ |
      ⟨rfl, rfl⟩ | ⟨rfl, rfl⟩ | ⟨rfl, rfl⟩ <;> simp only [Within] at hWithin <;> split_ifs <;>
      first | rfl | omega

theorem nextByteInRange_eq_some_iff {ranges : List Range} {rest text rest' : Bytes} :
    nextByteInRange ranges rest = some (text, rest') ↔ Matches ranges text ∧ rest = text ++ rest' := by
  induction ranges generalizing rest text with
  | nil =>
    rw [nextByteInRange, matches_nil]
    constructor
    · intro h
      cases h
      exact ⟨rfl, rfl⟩
    · rintro ⟨rfl, rfl⟩
      rfl
  | cons range ranges ih =>
    cases rest with
    | nil =>
      rw [nextByteInRange]
      constructor
      · intro h
        cases h
      · rintro ⟨hMatches, hText⟩
        rw [(List.nil_eq_append_iff.mp hText).1] at hMatches
        cases hMatches
    | cons current rest =>
      rw [nextByteInRange, matches_cons]
      constructor
      · intro h
        split at h
        · rename_i hWithin
          obtain ⟨⟨text', rest''⟩, hNext, hEq⟩ := Option.map_eq_some_iff.mp h
          cases hEq
          obtain ⟨hMatches, rfl⟩ := ih.mp hNext
          exact ⟨⟨current, text', rfl, hWithin, hMatches⟩, rfl⟩
        · cases h
      · rintro ⟨⟨b, text', rfl, hWithin, hMatches⟩, hRest⟩
        rw [List.cons_append] at hRest
        obtain ⟨rfl, rfl⟩ := List.cons.inj hRest
        have hIn : range.1 ≤ current.toNat ∧ current.toNat ≤ range.2 := hWithin
        rw [if_pos hIn, ih.mpr ⟨hMatches, rfl⟩]
        rfl

theorem rows_tail : ∀ row ∈ rows, ∀ range ∈ row.tail, 0x80 ≤ range.1 := by decide

theorem rows_ascii : ∀ row ∈ rows, ∀ range ∈ row.head?, range.1 ≤ 0x7F → row = [(0x00, 0x7F)] := by
  decide

theorem le_of_matches {ranges : List Range} {text : Bytes} {n : Nat}
    (hRanges : ∀ range ∈ ranges, n ≤ range.1) (h : Matches ranges text) : ∀ b ∈ text, n ≤ b.toNat := by
  induction h with
  | nil => simp
  | cons hWithin _ ih =>
    intro b hb
    rcases List.mem_cons.mp hb with rfl | hb
    · exact (hRanges _ List.mem_cons_self).trans hWithin.1
    · exact ih (fun range hRange => hRanges range (List.mem_cons_of_mem _ hRange)) b hb

theorem plain_of_le {b : UInt8} (h : 0x80 ≤ b.toNat) : 0x20 ≤ b.toNat ∧ b ≠ 34 ∧ b ≠ 92 := by
  refine ⟨by omega, ?_, ?_⟩
  · rintro rfl
    exact absurd h (by decide)
  · rintro rfl
    exact absurd h (by decide)

/-! ## Characters -/

theorem scanUnicode_sound {rest m rest' : Bytes} (h : scanUnicode rest = .ok (m, rest')) :
    ∃ t, Piece (92 :: 117 :: t) m ∧ rest = t ++ rest' := by
  rw [scanUnicode] at h
  split at h
  · cases h
  · rename_i codepoint1 rest₁ hGet
    obtain ⟨t, hUnit, rfl⟩ := getCodepoint_eq_some_iff.mp hGet
    have hBound := codeUnit_lt hUnit
    split at h
    · rename_i hHigh
      rw [scanSurrogate.eq_def] at h
      split at h
      · rename_i rest₂
        split at h
        · cases h
        · rename_i codepoint2 rest₃ hGet'
          obtain ⟨u, hUnit', rfl⟩ := getCodepoint_eq_some_iff.mp hGet'
          split at h
          · rename_i hLow
            have hValid : (codepoint1 <<< 10 + codepoint2 - 0x35FDC00).isValidChar := by
              rw [Nat.shiftLeft_eq, Nat.isValidChar]
              omega
            obtain ⟨c, hc, hBytes⟩ := codepointBytes_of_valid hValid
            injection h with hPair
            obtain ⟨hm, rfl⟩ := Prod.mk.inj hPair
            rw [← hm, hBytes]
            rw [Nat.shiftLeft_eq] at hc
            obtain ⟨high, rfl⟩ := Nat.exists_eq_add_of_le hHigh.1
            obtain ⟨low, rfl⟩ := Nat.exists_eq_add_of_le hLow.1
            refine ⟨t ++ 92 :: 117 :: u, .surrogates hUnit hUnit' (by omega) (by omega) (by omega), ?_⟩
            rw [List.append_assoc, List.cons_append, List.cons_append]
          · cases h
      · cases h
    · split at h
      · cases h
      · rename_i hHigh hLow
        have hValid : codepoint1.isValidChar := by
          rw [Nat.isValidChar]
          omega
        obtain ⟨c, rfl, hBytes⟩ := codepointBytes_of_valid hValid
        injection h with hPair
        obtain ⟨hm, rfl⟩ := Prod.mk.inj hPair
        rw [← hm, hBytes]
        exact ⟨t, .unicode hUnit, rfl⟩

theorem scanEscape_sound {rest m rest' : Bytes} (h : scanEscape rest = .ok (m, rest')) :
    ∃ t, Piece (92 :: t) m ∧ rest = t ++ rest' := by
  cases rest with
  | nil => cases h
  | cons current rest =>
    have hEscape : ∀ {b : UInt8}, (current, b) ∈ escapes →
        (.ok ([b], rest) : Except String (Bytes × Bytes)) = .ok (m, rest') →
        ∃ t, Piece (92 :: t) m ∧ current :: rest = t ++ rest' := by
      intro b hb hOk
      cases hOk
      exact ⟨[current], .escape hb, rfl⟩
    rw [scanEscape] at h
    split_ifs at h <;> first
      | exact hEscape (by simp_all [escapes]) h
      | skip
    rename_i h117
    obtain ⟨t, hPiece, rfl⟩ := scanUnicode_sound h
    exact ⟨117 :: t, hPiece, by rw [h117]; rfl⟩

/-- A character that the lexer reads is one of the grammar. -/
theorem scanCharacter_sound {rest m rest' : Bytes} (h : scanCharacter rest = .add m rest') :
    ∃ t, Piece t m ∧ rest = t ++ rest' := by
  cases rest with
  | nil => cases h
  | cons current rest =>
    rw [scanCharacter] at h
    split_ifs at h with hQuote hBackslash hControl hAscii
    · split at h
      · rename_i hEscape
        cases h
        obtain ⟨t, hPiece, rfl⟩ := scanEscape_sound hEscape
        exact ⟨92 :: t, hPiece, by rw [hBackslash]; rfl⟩
      · cases h
    · cases h
      refine ⟨[current], .plain ⟨[(0x00, 0x7F)], by decide, .cons ⟨Nat.zero_le _, hAscii⟩ .nil⟩ ?_, rfl⟩
      intro b hb
      cases List.mem_singleton.mp hb
      exact ⟨by omega, hQuote, hBackslash⟩
    · split at h
      · cases h
      · rename_i ranges hRanges
        split at h
        · cases h
        · rename_i text rest₁ hNext
          cases h
          obtain ⟨range, hWithin, hRow⟩ := (followingRanges_eq_some_iff (by omega) ranges).mp hRanges
          obtain ⟨hMatches, rfl⟩ := nextByteInRange_eq_some_iff.mp hNext
          refine ⟨current :: text, .plain ⟨_, hRow, .cons hWithin hMatches⟩ ?_, rfl⟩
          intro b hb
          rcases List.mem_cons.mp hb with rfl | hb
          · exact plain_of_le (by omega)
          · exact plain_of_le (le_of_matches (rows_tail _ hRow) hMatches b hb)

theorem scanEscape_escape {c b : UInt8} (h : (c, b) ∈ escapes) (rest : Bytes) :
    scanEscape (c :: rest) = .ok ([b], rest) := by
  simp only [escapes, List.mem_cons, Prod.mk.injEq, List.not_mem_nil, or_false] at h
  rcases h with ⟨rfl, rfl⟩ | ⟨rfl, rfl⟩ | ⟨rfl, rfl⟩ | ⟨rfl, rfl⟩ | ⟨rfl, rfl⟩ | ⟨rfl, rfl⟩ |
    ⟨rfl, rfl⟩ | ⟨rfl, rfl⟩ <;> rfl

theorem getCodepoint_append {t : Bytes} {n : Nat} (h : CodeUnit t n) (rest : Bytes) :
    getCodepoint (t ++ rest) = some (n, rest) := getCodepoint_eq_some_iff.mpr ⟨t, h, rfl⟩

theorem scanEscape_unicode {t : Bytes} {n : Nat} (h : CodeUnit t n) (rest : Bytes) :
    scanEscape (117 :: (t ++ rest)) =
      if 0xD800 ≤ n ∧ n ≤ 0xDBFF then scanSurrogate n rest
      else if 0xDC00 ≤ n ∧ n ≤ 0xDFFF then .error lowSurrogate
      else .ok (codepointBytes n, rest) := by
  change scanUnicode (t ++ rest) = _
  rw [scanUnicode, getCodepoint_append h]

theorem scanSurrogate_eq {u : Bytes} {n low : Nat} (h : CodeUnit u (0xDC00 + low)) (hLow : low < 0x400)
    (rest : Bytes) : scanSurrogate n (92 :: 117 :: (u ++ rest)) =
      .ok (codepointBytes (n * 2 ^ 10 + (0xDC00 + low) - 0x35FDC00), rest) := by
  rw [scanSurrogate, getCodepoint_append h]
  dsimp only
  rw [if_pos (by omega), Nat.shiftLeft_eq]

theorem scanCharacter_escape {t m rest : Bytes} (h : scanEscape t = .ok (m, rest)) :
    scanCharacter (92 :: t) = .add m rest := by
  rw [scanCharacter, if_neg (by decide), if_pos rfl, h]

theorem scanCharacter_plain {t : Bytes} (h : Sequence t)
    (hPlain : ∀ b ∈ t, 0x20 ≤ b.toNat ∧ b ≠ 34 ∧ b ≠ 92) (rest : Bytes) :
    scanCharacter (t ++ rest) = .add t rest := by
  obtain ⟨row, hRow, hMatches⟩ := h
  cases hMatches with
  | nil => exact absurd hRow (by decide)
  | @cons range b ranges text hWithin hMatches =>
    obtain ⟨hControl, hQuote, hBackslash⟩ := hPlain b List.mem_cons_self
    rw [List.cons_append, scanCharacter, if_neg hQuote, if_neg hBackslash, if_neg (by omega)]
    split
    · rename_i hAscii
      have hOnly := rows_ascii _ hRow range rfl (hWithin.1.trans hAscii)
      obtain ⟨_, rfl⟩ := List.cons.inj hOnly
      cases hMatches
      rfl
    · rename_i hAscii
      rw [(followingRanges_eq_some_iff (by omega) ranges).mpr ⟨range, hWithin, hRow⟩]
      dsimp only
      rw [nextByteInRange_eq_some_iff.mpr ⟨hMatches, rfl⟩]

/-- A character of the grammar is read. -/
theorem scanCharacter_complete {t m : Bytes} (h : Piece t m) (rest : Bytes) :
    scanCharacter (t ++ rest) = .add m rest := by
  cases h with
  | plain hSequence hPlain => exact scanCharacter_plain hSequence hPlain rest
  | escape hEscape => exact scanCharacter_escape (scanEscape_escape hEscape rest)
  | @unicode t c hUnit =>
    have hValid : c.toNat.isValidChar := c.valid
    rw [Nat.isValidChar] at hValid
    apply scanCharacter_escape
    rw [List.append_eq, List.cons_append, scanEscape_unicode hUnit, if_neg (by omega), if_neg (by omega),
      codepointBytes_toNat]
  | @surrogates t u high low c hUnit hUnit' hHigh hLow hc =>
    have hValue : (0xD800 + high) * 2 ^ 10 + (0xDC00 + low) - 0x35FDC00 = c.toNat := by omega
    apply scanCharacter_escape
    rw [List.append_eq, List.cons_append, List.append_assoc, scanEscape_unicode hUnit,
      if_pos (by omega), List.cons_append, List.cons_append, scanSurrogate_eq hUnit' hLow, hValue,
      codepointBytes_toNat]

/-! ## Strings -/

theorem scanString_close (tokenBuffer rest : Bytes) :
    scanString tokenBuffer (34 :: rest) = .ok (tokenBuffer, rest) := by
  rw [scanString]
  split
  · rename_i hClose
    cases hClose
    rfl
  · rename_i hAdd
    cases hAdd
  · rename_i hInvalid
    cases hInvalid

theorem scanString_add {rest text rest' : Bytes} (h : scanCharacter rest = .add text rest')
    (tokenBuffer : Bytes) : scanString tokenBuffer rest = scanString (tokenBuffer ++ text) rest' := by
  rw [scanString]
  split
  · rename_i hClose
    rw [h] at hClose
    cases hClose
  · rename_i hAdd
    rw [h] at hAdd
    cases hAdd
    rfl
  · rename_i hInvalid
    rw [h] at hInvalid
    cases hInvalid

theorem scanString_complete {t m : Bytes} (h : Chars t m) (tokenBuffer rest : Bytes) :
    scanString tokenBuffer (t ++ 34 :: rest) = .ok (tokenBuffer ++ m, rest) := by
  induction h generalizing tokenBuffer with
  | nil => rw [List.nil_append, scanString_close, List.append_nil]
  | cons hPiece _ ih =>
    rw [List.append_assoc, scanString_add (scanCharacter_complete hPiece _), ih, List.append_assoc]

theorem scanCharacter_close {rest rest' : Bytes} (h : scanCharacter rest = .close rest') :
    rest = 34 :: rest' := by
  cases rest with
  | nil => cases h
  | cons current rest =>
    rw [scanCharacter] at h
    split_ifs at h with hQuote
    · cases h
      rw [hQuote]
    · split at h <;> cases h
    · split at h
      · cases h
      · split at h <;> cases h

theorem scanString_sound {tokenBuffer rest tokenBuffer' rest' : Bytes}
    (h : scanString tokenBuffer rest = .ok (tokenBuffer', rest')) :
    ∃ t m, Chars t m ∧ rest = t ++ 34 :: rest' ∧ tokenBuffer' = tokenBuffer ++ m := by
  induction tokenBuffer, rest using scanString.induct with
  | case1 tokenBuffer rest rest₁ hClose =>
    rw [scanCharacter_close hClose] at h ⊢
    rw [scanString_close] at h
    cases h
    exact ⟨[], [], .nil, rfl, (List.append_nil _).symm⟩
  | case2 tokenBuffer rest text rest₁ hAdd ih =>
    rw [scanString_add hAdd] at h
    obtain ⟨t, m, hChars, rfl, rfl⟩ := ih h
    obtain ⟨u, hPiece, rfl⟩ := scanCharacter_sound hAdd
    exact ⟨u ++ t, text ++ m, .cons hPiece hChars, (List.append_assoc _ _ _).symm, List.append_assoc _ _ _⟩
  | case3 tokenBuffer rest message hInvalid =>
    rw [scanString] at h
    split at h
    · rename_i hClose
      rw [hInvalid] at hClose
      cases hClose
    · rename_i hAdd
      rw [hInvalid] at hAdd
      cases hAdd
    · cases h

end OpcConfig.Lexer
