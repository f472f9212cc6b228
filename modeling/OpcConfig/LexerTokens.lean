import OpcConfig.LexerNumbers
import OpcConfig.LexerStrings

/-! # The tokens that the lexer reads

Blanks and the text of a token are read as the token, and whatever is read as a
token is such a text.
-/

namespace OpcConfig.Lexer

set_option autoImplicit false

open CString Grammar

inductive TokenText : Bytes → Token → Prop
  | literalTrue : TokenText (ascii "true") .literalTrue
  | literalFalse : TokenText (ascii "false") .literalFalse
  | literalNull : TokenText (ascii "null") .literalNull
  | valueString {t m : Bytes} (h : StringText t m) : TokenText t (.valueString m)
  | valueUnsigned {t : Bytes} {n : JsonInteger} (h : Number t (.integer n)) : TokenText t (.valueUnsigned n)
  | valueInteger {t : Bytes} {n : JsonInteger} (h : Number t (.integer n)) : TokenText t (.valueInteger n)
  | valueFloat {t : Bytes} {d : Binary64} (h : Number t (.double d)) : TokenText t (.valueFloat d)
  | beginArray : TokenText [91] .beginArray
  | beginObject : TokenText [123] .beginObject
  | endArray : TokenText [93] .endArray
  | endObject : TokenText [125] .endObject
  | nameSeparator : TokenText [58] .nameSeparator
  | valueSeparator : TokenText [44] .valueSeparator

/-- A token behind which the parser reads on. -/
def Token.Reads (token : Token) : Prop := token.type ≠ .parseError ∧ token.type ≠ .endOfInput

/-! ## Lengths -/

theorem scanNumber_length (current : UInt8) (rest : Bytes) :
    (scanNumber current rest).2.length ≤ rest.length := by
  rw [scanNumber]
  split
  · exact Nat.le_refl _
  · rename_i hScan
    obtain ⟨t, _, rfl, _⟩ := scanDigits_sound hScan
    rw [List.length_append]
    exact Nat.le_add_left _ _

theorem scanLiteral_length (literalText : Bytes) (token : Token) (rest : Bytes) :
    (scanLiteral literalText token rest).2.length ≤ rest.length := by
  rw [scanLiteral]
  split
  · rw [List.length_drop]
    exact Nat.sub_le _ _
  · exact Nat.le_refl _

theorem scanToken_length (current : UInt8) (rest : Bytes) :
    (scanToken current rest).2.length ≤ rest.length := by
  rw [scanToken]
  split
  · exact Nat.le_refl _
  · split_ifs
    · exact scanLiteral_length _ _ rest
    · exact scanLiteral_length _ _ rest
    · exact scanLiteral_length _ _ rest
    · split
      · rename_i hScan
        obtain ⟨t, m, _, rfl, _⟩ := scanString_sound hScan
        simp only [List.length_append, List.length_cons]
        omega
      · exact Nat.le_refl _
    · exact scanNumber_length current rest
    · exact Nat.le_refl _
    · exact Nat.le_refl _

/-! ## Tokens behind blanks -/

/-- A lexer that has `rest` before it. -/
structure At (l : State) (rest : Bytes) : Prop where
  rest : l.rest = rest
  started : l.charsReadTotal ≠ 0

theorem dropWhile_blanks {b rest : Bytes} (hb : Blanks b) (hRest : ∀ c, rest.head? = some c → blank c = false) :
    (b ++ rest).dropWhile blank = rest := by
  rw [List.dropWhile_append_of_pos hb]
  cases rest with
  | nil => rfl
  | cons c rest => simp [hRest c rfl]

theorem token_cons {l : State} {b rest : Bytes} {current : UInt8} (hb : Blanks b)
    (hCurrent : blank current = false) (h : l.rest = b ++ current :: rest) :
    ∃ l', l.skipWhitespace.token = ((scanToken current rest).1, l') ∧ At l' (scanToken current rest).2 := by
  have hDrop : l.skipWhitespace.rest = current :: rest := by
    rw [State.skipWhitespace, h]
    apply dropWhile_blanks hb
    intro c hc
    cases hc
    exact hCurrent
  have hLength := scanToken_length current rest
  rw [State.token, hDrop]
  refine ⟨⟨(scanToken current rest).2, _⟩, rfl, rfl, ?_⟩
  change _ + (rest.length + 1 - (scanToken current rest).2.length) ≠ 0
  omega

theorem token_nil {l : State} (h : Blanks l.rest) :
    ∃ l', l.skipWhitespace.token = (.endOfInput, l') ∧ At l' [] := by
  have hDrop : l.skipWhitespace.rest = [] := by
    have hBlanks : (l.rest ++ []).dropWhile blank = [] := dropWhile_blanks h (by simp)
    rwa [List.append_nil] at hBlanks
  rw [State.token, hDrop]
  exact ⟨_, rfl, rfl, Nat.succ_ne_zero _⟩

theorem token_length (l : State) : l.token.2.rest.length ≤ l.rest.length ∧
    (l.token.1.Reads → l.token.2.rest.length < l.rest.length) := by
  rw [State.token]
  split
  · rename_i hRest
    rw [hRest]
    exact ⟨Nat.le_refl _, fun hReads => absurd rfl hReads.2⟩
  · rename_i current rest hRest
    have hLength := scanToken_length current rest
    rw [hRest]
    exact ⟨hLength.trans (Nat.le_succ _), fun _ => Nat.lt_succ_of_le hLength⟩

theorem skipWhitespace_length (l : State) : l.skipWhitespace.rest.length ≤ l.rest.length :=
  (List.dropWhile_suffix _).length_le

/-- A token that the parser reads on behind is not empty. -/
theorem scan_length (l : State) : l.scan.2.rest.length ≤ l.rest.length ∧
    (l.scan.1.Reads → l.scan.2.rest.length < l.rest.length) := by
  have hToken := fun l : State => token_length l.skipWhitespace
  have hSkip := skipWhitespace_length
  have hBom : ∀ l', l.skipBom = some l' → l'.rest.length ≤ l.rest.length := by
    intro l' h
    rw [State.skipBom] at h
    split at h
    · rename_i hRest
      split at h
      · cases h
        rw [hRest]
        simp only [List.length_cons]
        omega
      · cases h
    · cases h
      exact Nat.le_refl _
  rw [State.scan]
  split
  · exact ⟨Nat.le_refl _, fun hReads => absurd rfl hReads.1⟩
  · rename_i l' hScan
    have hLess : l'.rest.length ≤ l.rest.length := by
      split at hScan
      · exact hBom l' hScan
      · cases hScan
        exact Nat.le_refl _
    obtain ⟨hLe, hLt⟩ := hToken l'
    exact ⟨hLe.trans ((hSkip l').trans hLess), fun hReads => (hLt hReads).trans_le ((hSkip l').trans hLess)⟩

/-! ## What is read -/

theorem token_string {l : State} {b t m rest : Bytes} (hb : Blanks b) (h : StringText t m)
    (hl : l.rest = b ++ (t ++ rest)) :
    ∃ l', l.skipWhitespace.token = (.valueString m, l') ∧ At l' rest := by
  cases h with
  | @mk t m hChars =>
    rw [List.cons_append, List.append_assoc] at hl
    have hString : scanString [] (t ++ 34 :: rest) = .ok (m, rest) :=
      scanString_complete hChars [] rest
    have hScan : scanToken 34 (t ++ ([34] ++ rest)) = (.valueString m, rest) := by
      simp [scanToken, structural, hString]
    have hToken := token_cons hb rfl hl
    rwa [hScan] at hToken

theorem number_first : ∀ n < 256, UInt8.ofNat n = 45 ∨ Strtod.isDigit (UInt8.ofNat n) = true →
    blank (UInt8.ofNat n) = false ∧ (structural (UInt8.ofNat n)).isNone = true ∧
      UInt8.ofNat n ≠ 116 ∧ UInt8.ofNat n ≠ 102 ∧ UInt8.ofNat n ≠ 110 ∧ UInt8.ofNat n ≠ 34 := by
  decide +kernel

theorem scanToken_number {current : UInt8} (h : current = 45 ∨ Strtod.isDigit current = true)
    (rest : Bytes) : blank current = false ∧ scanToken current rest = scanNumber current rest := by
  have hFirst := number_first current.toNat current.toNat_lt
  rw [UInt8.ofNat_toNat] at hFirst
  obtain ⟨hBlank, hNone, hTrue, hFalse, hNull, hQuote⟩ := hFirst h
  refine ⟨hBlank, ?_⟩
  rw [scanToken, Option.isNone_iff_eq_none.mp hNone]
  dsimp only
  rw [if_neg hTrue, if_neg hFalse, if_neg hNull, if_neg hQuote, if_pos h]

theorem token_number {l : State} {b t rest : Bytes} {j : Json} (hb : Blanks b) (h : Number t j)
    (hRest : Stops rest) (hl : l.rest = b ++ (t ++ rest)) :
    ∃ token l', l.skipWhitespace.token = (token, l') ∧ At l' rest ∧ token.number = some j := by
  obtain ⟨current, u, rfl, hCurrent, token, hScan, hNumber⟩ := scanNumber_complete h hRest
  obtain ⟨hBlank, hToken⟩ := scanToken_number hCurrent (u ++ rest)
  rw [List.cons_append] at hl
  obtain ⟨l', hl', hAt⟩ := token_cons hb hBlank hl
  rw [hToken, hScan] at hl' hAt
  exact ⟨token, l', hl', hAt, hNumber⟩

/-! ## What has been read -/

theorem structural_sound {current : UInt8} {token : Token} (h : structural current = some token) :
    TokenText [current] token := by
  rw [structural] at h
  split_ifs at h with h91 h93 h123 h125 h58 h44 <;> cases h
  · exact h91 ▸ .beginArray
  · exact h93 ▸ .endArray
  · exact h123 ▸ .beginObject
  · exact h125 ▸ .endObject
  · exact h58 ▸ .nameSeparator
  · exact h44 ▸ .valueSeparator

theorem scanLiteral_sound {literalText rest rest' : Bytes} {token token' : Token}
    (h : scanLiteral literalText token rest = (token', rest')) (hReads : token'.Reads) :
    token' = token ∧ rest = literalText ++ rest' := by
  rw [scanLiteral] at h
  split at h
  · rename_i hText
    cases h
    exact ⟨rfl, (List.prefix_iff_eq_append.mp hText).symm⟩
  · cases h
    exact absurd rfl hReads.1

theorem number_of_finite {t : Bytes} {token : Token} {j : Json} (h : Number t j)
    (hNumber : token.number = some j) : TokenText t token := by
  cases token <;> try cases hNumber
  · exact .valueUnsigned h
  · exact .valueInteger h
  · rename_i d
    rw [Token.number] at hNumber
    split at hNumber
    · cases hNumber
      exact .valueFloat h
    · cases hNumber

/-- A float that the parser does not throw out. -/
def Token.Finite (token : Token) : Prop := ∀ d, token = .valueFloat d → d.finite = true

theorem convert_number (type : NumberType) (tokenBuffer : Bytes)
    (hFinite : (convert type tokenBuffer).Finite) : ∃ j, (convert type tokenBuffer).number = some j := by
  revert hFinite
  rw [convert.eq_def]
  split
  · split <;> simp [Token.number, Token.Finite]
  · split <;> simp [Token.number, Token.Finite]
  · simp [Token.number, Token.Finite]

theorem scanNumber_text_sound {current : UInt8} {rest rest' : Bytes} {token : Token}
    (hCurrent : current = 45 ∨ Strtod.isDigit current = true)
    (h : scanNumber current rest = (token, rest')) (hReads : token.Reads) (hFinite : token.Finite) :
    ∃ t, TokenText t token ∧ current :: rest = t ++ rest' := by
  have hNumber : ∃ j, token.number = some j := by
    rw [scanNumber] at h
    split at h
    · cases h
      exact absurd rfl hReads.1
    · rename_i type' tokenBuffer rest₁ hScan
      cases h
      exact convert_number type' tokenBuffer hFinite
  obtain ⟨j, hNumber⟩ := hNumber
  obtain ⟨t, hText, hSplit⟩ := scanNumber_sound hCurrent h hNumber
  exact ⟨t, number_of_finite hText hNumber, hSplit⟩

theorem scanToken_sound {current : UInt8} {rest rest' : Bytes} {token : Token}
    (h : scanToken current rest = (token, rest')) (hReads : token.Reads) (hFinite : token.Finite) :
    ∃ t, TokenText t token ∧ current :: rest = t ++ rest' := by
  rw [scanToken] at h
  split at h
  · rename_i hStructural
    cases h
    exact ⟨[current], structural_sound hStructural, rfl⟩
  · split_ifs at h with hTrue hFalse hNull hQuote hNumber hNul
    · obtain ⟨rfl, rfl⟩ := scanLiteral_sound h hReads
      exact ⟨ascii "true", .literalTrue, by rw [hTrue]; rfl⟩
    · obtain ⟨rfl, rfl⟩ := scanLiteral_sound h hReads
      exact ⟨ascii "false", .literalFalse, by rw [hFalse]; rfl⟩
    · obtain ⟨rfl, rfl⟩ := scanLiteral_sound h hReads
      exact ⟨ascii "null", .literalNull, by rw [hNull]; rfl⟩
    · split at h
      · rename_i hScan
        cases h
        obtain ⟨t, m, hChars, rfl, hm⟩ := scanString_sound hScan
        rw [List.nil_append] at hm
        subst hm
        refine ⟨34 :: (t ++ [34]), .valueString (.mk hChars), ?_⟩
        rw [hQuote, List.cons_append, List.append_assoc, List.singleton_append]
      · cases h
        exact absurd rfl hReads.1
    · exact scanNumber_text_sound hNumber h hReads hFinite
    · cases h
      exact absurd rfl hReads.2
    · cases h
      exact absurd rfl hReads.1

theorem takeWhile_blanks (l : Bytes) : Blanks (l.takeWhile blank) := fun _ hb =>
  List.mem_takeWhile_imp hb

theorem token_sound {l l' : State} {token : Token} (h : l.skipWhitespace.token = (token, l'))
    (hReads : token.Reads) (hFinite : token.Finite) :
    ∃ b t, Blanks b ∧ TokenText t token ∧ l.rest = b ++ (t ++ l'.rest) := by
  have hSplit := List.takeWhile_append_dropWhile (p := blank) (l := l.rest)
  rw [State.token] at h
  split at h
  · cases h
    exact absurd rfl hReads.2
  · rename_i current rest hRest
    obtain ⟨hToken, hl'⟩ := Prod.mk.inj h
    have hScan : scanToken current rest = (token, l'.rest) :=
      Prod.ext hToken (congrArg State.rest hl')
    obtain ⟨t, hText, hConsumed⟩ := scanToken_sound hScan hReads hFinite
    refine ⟨l.rest.takeWhile blank, t, takeWhile_blanks _, hText, ?_⟩
    rw [← hConsumed, ← hRest]
    exact hSplit.symm

theorem scanLiteral_end {literalText rest : Bytes} {token : Token} (h : token ≠ .endOfInput) :
    (scanLiteral literalText token rest).1 ≠ .endOfInput := by
  rw [scanLiteral]
  split
  · exact h
  · exact Token.noConfusion

theorem scanNumber_end (current : UInt8) (rest : Bytes) :
    (scanNumber current rest).1 ≠ .endOfInput := by
  rw [scanNumber]
  split
  · exact Token.noConfusion
  · rename_i type _ _ _
    cases type
    all_goals
      rw [convert.eq_def]
      dsimp only
      try split
      all_goals exact Token.noConfusion

theorem scanToken_end {current : UInt8} {rest : Bytes} (h : (scanToken current rest).1 = .endOfInput) :
    current = 0 := by
  rw [scanToken] at h
  split at h
  · rename_i hStructural
    subst h
    cases structural_sound hStructural
  · split_ifs at h with hTrue hFalse hNull hQuote hNumber hNul
    · exact absurd h (scanLiteral_end Token.noConfusion)
    · exact absurd h (scanLiteral_end Token.noConfusion)
    · exact absurd h (scanLiteral_end Token.noConfusion)
    · split at h <;> cases h
    · exact absurd h (scanNumber_end current rest)
    · exact hNul
    · cases h

theorem token_end {l l' : State} (h : l.skipWhitespace.token = (.endOfInput, l')) :
    ∃ b rest, Blanks b ∧ l.rest = b ++ rest ∧ (rest = [] ∨ rest.head? = some 0) := by
  have hSplit := List.takeWhile_append_dropWhile (p := blank) (l := l.rest)
  refine ⟨l.rest.takeWhile blank, l.rest.dropWhile blank, takeWhile_blanks _, hSplit.symm, ?_⟩
  rw [State.token] at h
  split at h
  · rename_i hRest
    exact Or.inl hRest
  · rename_i current rest hRest
    have hNul := scanToken_end (congrArg Prod.fst h)
    have hHead : l.rest.dropWhile blank = current :: rest := hRest
    exact Or.inr (by rw [hHead, hNul]; rfl)

end OpcConfig.Lexer
