import OpcConfig.Grammar

/-! # `lexer`: the tokens of a JSON text

`rest` is the input that is not read yet; a byte that is read and given back is
still in it. After an error nothing more is read, so the rest is then left as it
was.
-/

namespace OpcConfig.Lexer

set_option autoImplicit false

open CString

inductive TokenType
  | uninitialized
  | literalTrue
  | literalFalse
  | literalNull
  | valueString
  | valueUnsigned
  | valueInteger
  | valueFloat
  | beginArray
  | beginObject
  | endArray
  | endObject
  | nameSeparator
  | valueSeparator
  | parseError
  | endOfInput
  | literalOrValue
  deriving DecidableEq

def tokenTypeName : TokenType → String
  | .uninitialized => "<uninitialized>"
  | .literalTrue => "true literal"
  | .literalFalse => "false literal"
  | .literalNull => "null literal"
  | .valueString => "string literal"
  | .valueUnsigned | .valueInteger | .valueFloat => "number literal"
  | .beginArray => "'['"
  | .beginObject => "'\x7b'"
  | .endArray => "']'"
  | .endObject => "'\x7d'"
  | .nameSeparator => "':'"
  | .valueSeparator => "','"
  | .parseError => "<parse error>"
  | .endOfInput => "end of input"
  | .literalOrValue => "'[', '\x7b', or a literal"

/-- A token with the value that the lexer keeps for it, or with its error message. -/
inductive Token
  | literalTrue
  | literalFalse
  | literalNull
  | valueString (s : Bytes)
  | valueUnsigned (n : JsonInteger)
  | valueInteger (n : JsonInteger)
  | valueFloat (d : Binary64)
  | beginArray
  | beginObject
  | endArray
  | endObject
  | nameSeparator
  | valueSeparator
  | parseError (message : String)
  | endOfInput

def Token.type : Token → TokenType
  | .literalTrue => .literalTrue
  | .literalFalse => .literalFalse
  | .literalNull => .literalNull
  | .valueString _ => .valueString
  | .valueUnsigned _ => .valueUnsigned
  | .valueInteger _ => .valueInteger
  | .valueFloat _ => .valueFloat
  | .beginArray => .beginArray
  | .beginObject => .beginObject
  | .endArray => .endArray
  | .endObject => .endObject
  | .nameSeparator => .nameSeparator
  | .valueSeparator => .valueSeparator
  | .parseError _ => .parseError
  | .endOfInput => .endOfInput

/-! ## Strings -/

def hexValue (current : UInt8) : Option Nat :=
  let n := current.toNat
  if 48 ≤ n ∧ n ≤ 57 then some (n - 0x30)
  else if 65 ≤ n ∧ n ≤ 70 then some (n - 0x37)
  else if 97 ≤ n ∧ n ≤ 102 then some (n - 0x57)
  else none

def getCodepoint : Bytes → Option (Nat × Bytes)
  | a :: b :: c :: d :: rest =>
    match hexValue a, hexValue b, hexValue c, hexValue d with
    | some w, some x, some y, some z => some (w <<< 12 + x <<< 8 + y <<< 4 + z, rest)
    | _, _, _, _ => none
  | _ => none

/-- The code point as bytes. -/
def codepointBytes (codepoint : Nat) : Bytes :=
  if codepoint < 0x80 then [UInt8.ofNat codepoint]
  else if codepoint ≤ 0x7FF then
    [UInt8.ofNat (0xC0 ||| codepoint >>> 6), UInt8.ofNat (0x80 ||| codepoint &&& 0x3F)]
  else if codepoint ≤ 0xFFFF then
    [UInt8.ofNat (0xE0 ||| codepoint >>> 12), UInt8.ofNat (0x80 ||| codepoint >>> 6 &&& 0x3F),
      UInt8.ofNat (0x80 ||| codepoint &&& 0x3F)]
  else
    [UInt8.ofNat (0xF0 ||| codepoint >>> 18), UInt8.ofNat (0x80 ||| codepoint >>> 12 &&& 0x3F),
      UInt8.ofNat (0x80 ||| codepoint >>> 6 &&& 0x3F), UInt8.ofNat (0x80 ||| codepoint &&& 0x3F)]

/-- The bytes that must follow `current`. -/
def followingRanges (current : UInt8) : Option (List Utf8.Range) :=
  let n := current.toNat
  if 0xC2 ≤ n ∧ n ≤ 0xDF then some [(0x80, 0xBF)]
  else if n = 0xE0 then some [(0xA0, 0xBF), (0x80, 0xBF)]
  else if (0xE1 ≤ n ∧ n ≤ 0xEC) ∨ n = 0xEE ∨ n = 0xEF then some [(0x80, 0xBF), (0x80, 0xBF)]
  else if n = 0xED then some [(0x80, 0x9F), (0x80, 0xBF)]
  else if n = 0xF0 then some [(0x90, 0xBF), (0x80, 0xBF), (0x80, 0xBF)]
  else if 0xF1 ≤ n ∧ n ≤ 0xF3 then some [(0x80, 0xBF), (0x80, 0xBF), (0x80, 0xBF)]
  else if n = 0xF4 then some [(0x80, 0x8F), (0x80, 0xBF), (0x80, 0xBF)]
  else none

def nextByteInRange : List Utf8.Range → Bytes → Option (Bytes × Bytes)
  | [], rest => some ([], rest)
  | _ :: _, [] => none
  | range :: ranges, current :: rest =>
    if range.1 ≤ current.toNat ∧ current.toNat ≤ range.2 then
      (nextByteInRange ranges rest).map fun (text, rest) => (current :: text, rest)
    else none

def controlNames : List String :=
  ["NUL", "SOH", "STX", "ETX", "EOT", "ENQ", "ACK", "BEL", "BS", "HT", "LF", "VT", "FF", "CR", "SO", "SI",
    "DLE", "DC1", "DC2", "DC3", "DC4", "NAK", "SYN", "ETB", "CAN", "EM", "SUB", "ESC", "FS", "GS", "RS", "US"]

def controlCharacter (n : Nat) : String :=
  let hex := "00" ++ (if n < 16 then "0" else "1") ++ String.singleton (Nat.digitChar (n % 16)).toUpper
  let short :=
    if n = 8 then " or \\b" else if n = 9 then " or \\t" else if n = 10 then " or \\n"
    else if n = 12 then " or \\f" else if n = 13 then " or \\r" else ""
  "invalid string: control character U+" ++ hex ++ " (" ++ controlNames.getD n "" ++
    ") must be escaped to \\u" ++ hex ++ short

def fourHexDigits : String := "invalid string: '\\u' must be followed by 4 hex digits"

def highSurrogate : String :=
  "invalid string: surrogate U+D800..U+DBFF must be followed by U+DC00..U+DFFF"

def lowSurrogate : String :=
  "invalid string: surrogate U+DC00..U+DFFF must follow U+D800..U+DBFF"

def illFormed : String := "invalid string: ill-formed UTF-8 byte"

/-- What `\u` and its digits add, and the rest behind them. -/
def scanSurrogate (codepoint1 : Nat) : Bytes → Except String (Bytes × Bytes)
  | 92 :: 117 :: rest =>
    match getCodepoint rest with
    | none => .error fourHexDigits
    | some (codepoint2, rest) =>
      if 0xDC00 ≤ codepoint2 ∧ codepoint2 ≤ 0xDFFF then
        .ok (codepointBytes (codepoint1 <<< 10 + codepoint2 - 0x35FDC00), rest)
      else .error highSurrogate
  | _ => .error highSurrogate

def scanUnicode (rest : Bytes) : Except String (Bytes × Bytes) :=
  match getCodepoint rest with
  | none => .error fourHexDigits
  | some (codepoint1, rest) =>
    if 0xD800 ≤ codepoint1 ∧ codepoint1 ≤ 0xDBFF then scanSurrogate codepoint1 rest
    else if 0xDC00 ≤ codepoint1 ∧ codepoint1 ≤ 0xDFFF then .error lowSurrogate
    else .ok (codepointBytes codepoint1, rest)

def scanEscape : Bytes → Except String (Bytes × Bytes)
  | [] => .error "invalid string: forbidden character after backslash"
  | current :: rest =>
    if current = 34 then .ok ([34], rest)
    else if current = 92 then .ok ([92], rest)
    else if current = 47 then .ok ([47], rest)
    else if current = 98 then .ok ([8], rest)
    else if current = 102 then .ok ([12], rest)
    else if current = 110 then .ok ([10], rest)
    else if current = 114 then .ok ([13], rest)
    else if current = 116 then .ok ([9], rest)
    else if current = 117 then scanUnicode rest
    else .error "invalid string: forbidden character after backslash"

/-- What the next character of a string is. -/
inductive Character
  | close (rest : Bytes)
  | add (text rest : Bytes)
  | invalid (message : String)

def scanCharacter : Bytes → Character
  | [] => .invalid "invalid string: missing closing quote"
  | current :: rest =>
    if current = 34 then .close rest
    else if current = 92 then
      match scanEscape rest with
      | .ok (text, rest) => .add text rest
      | .error message => .invalid message
    else if current.toNat ≤ 0x1F then .invalid (controlCharacter current.toNat)
    else if current.toNat ≤ 0x7F then .add [current] rest
    else
      match followingRanges current with
      | none => .invalid illFormed
      | some ranges =>
        match nextByteInRange ranges rest with
        | none => .invalid illFormed
        | some (text, rest) => .add (current :: text) rest

theorem getCodepoint_length {rest rest' : Bytes} {n : Nat} (h : getCodepoint rest = some (n, rest')) :
    rest'.length < rest.length := by
  match rest with
  | a :: b :: c :: d :: rest =>
    rw [getCodepoint] at h
    split at h
    · cases h
      simp only [List.length_cons]
      omega
    · cases h

theorem nextByteInRange_length {ranges : List Utf8.Range} {rest text rest' : Bytes}
    (h : nextByteInRange ranges rest = some (text, rest')) : rest'.length ≤ rest.length := by
  induction ranges generalizing rest text with
  | nil =>
    cases h
    exact Nat.le_refl _
  | cons range ranges ih =>
    cases rest with
    | nil => cases h
    | cons current rest =>
      rw [nextByteInRange] at h
      split at h
      · obtain ⟨⟨text', rest''⟩, hNext, hEq⟩ := Option.map_eq_some_iff.mp h
        cases hEq
        exact (ih hNext).trans (Nat.le_succ _)
      · cases h

theorem scanSurrogate_length {codepoint1 : Nat} {rest text rest' : Bytes}
    (h : scanSurrogate codepoint1 rest = .ok (text, rest')) : rest'.length < rest.length := by
  rw [scanSurrogate.eq_def] at h
  split at h
  · split at h
    · cases h
    · rename_i hGet
      split at h
      · injection h with hPair
        obtain ⟨_, rfl⟩ := Prod.mk.inj hPair
        have hLess := getCodepoint_length hGet
        simp only [List.length_cons]
        omega
      · cases h
  · cases h

theorem scanUnicode_length {rest text rest' : Bytes} (h : scanUnicode rest = .ok (text, rest')) :
    rest'.length < rest.length := by
  rw [scanUnicode] at h
  split at h
  · cases h
  · rename_i hGet
    have hLess := getCodepoint_length hGet
    split at h
    · exact (scanSurrogate_length h).trans hLess
    · split at h
      · cases h
      · cases h
        exact hLess

theorem scanEscape_length {rest text rest' : Bytes} (h : scanEscape rest = .ok (text, rest')) :
    rest'.length < rest.length := by
  cases rest with
  | nil => cases h
  | cons current rest =>
    have hOne : rest.length < (current :: rest).length := Nat.lt_succ_self _
    rw [scanEscape] at h
    split_ifs at h <;> first
      | exact (scanUnicode_length h).trans hOne
      | (cases h; exact hOne)

theorem scanCharacter_length {rest text rest' : Bytes} (h : scanCharacter rest = .add text rest') :
    rest'.length < rest.length := by
  cases rest with
  | nil => cases h
  | cons current rest =>
    rw [scanCharacter] at h
    split_ifs at h
    · split at h
      · rename_i hEscape
        cases h
        exact (scanEscape_length hEscape).trans (Nat.lt_succ_self _)
      · cases h
    · cases h
      exact Nat.lt_succ_self _
    · split at h
      · cases h
      · split at h
        · cases h
        · rename_i hNext
          cases h
          exact Nat.lt_succ_of_le (nextByteInRange_length hNext)

/-- The string up to its closing quote, behind what `token_buffer` holds. -/
def scanString (tokenBuffer rest : Bytes) : Except String (Bytes × Bytes) :=
  match _h : scanCharacter rest with
  | .close rest' => .ok (tokenBuffer, rest')
  | .add text rest' => scanString (tokenBuffer ++ text) rest'
  | .invalid message => .error message
termination_by rest.length
decreasing_by exact scanCharacter_length _h

/-! ## Numbers -/

inductive NumberState
  | minus
  | zero
  | any1
  | decimal1
  | decimal2
  | exponent
  | sign
  | any2

inductive NumberType
  | unsigned
  | integer
  | float

/-- The state that the character leads to; with any other one the number is done
or in error. -/
def NumberState.next (state : NumberState) (current : UInt8) : Option NumberState :=
  let digit := Strtod.isDigit current
  let e := decide (current = 101 ∨ current = 69)
  match state with
  | minus => if current = 48 then some zero else if digit then some any1 else none
  | zero => if current = 46 then some decimal1 else if e then some exponent else none
  | any1 =>
    if digit then some any1 else if current = 46 then some decimal1
    else if e then some exponent else none
  | decimal1 => if digit then some decimal2 else none
  | decimal2 => if digit then some decimal2 else if e then some exponent else none
  | exponent =>
    if current = 43 ∨ current = 45 then some sign else if digit then some any2 else none
  | sign => if digit then some any2 else none
  | any2 => if digit then some any2 else none

def NumberState.message : NumberState → Option String
  | minus => some "invalid number; expected digit after '-'"
  | decimal1 => some "invalid number; expected digit after '.'"
  | exponent => some "invalid number; expected '+', '-', or digit after exponent"
  | sign => some "invalid number; expected digit after exponent sign"
  | _ => none

/-- The type of the number once the state is reached. -/
def NumberState.type (numberType : NumberType) : NumberState → NumberType
  | minus => .integer
  | decimal1 | exponent => .float
  | _ => numberType

def numberDone (state : NumberState) (numberType : NumberType) (tokenBuffer rest : Bytes) :
    Except String (NumberType × Bytes × Bytes) :=
  match state.message with
  | some message => .error message
  | none => .ok (numberType, tokenBuffer, rest)

/-- The number behind what `token_buffer` holds, and the rest behind the number. -/
def scanDigits (state : NumberState) (numberType : NumberType) (tokenBuffer : Bytes) :
    Bytes → Except String (NumberType × Bytes × Bytes)
  | [] => numberDone state numberType tokenBuffer []
  | current :: rest =>
    match state.next current with
    | none => numberDone state numberType tokenBuffer (current :: rest)
    | some state' => scanDigits state' (state'.type numberType) (tokenBuffer ++ [current]) rest

def integer? (z : Int) : Option JsonInteger :=
  if h : -2 ^ 63 ≤ z ∧ z < 2 ^ 64 then some ⟨z, h.1, h.2⟩ else none

def convert (numberType : NumberType) (tokenBuffer : Bytes) : Token :=
  match numberType with
  | .unsigned =>
    match (Strtod.strtoull tokenBuffer).bind (fun n => integer? n) with
    | some n => .valueUnsigned n
    | none => .valueFloat (Strtod.strtod tokenBuffer)
  | .integer =>
    match (Strtod.strtoll tokenBuffer).bind integer? with
    | some n => .valueInteger n
    | none => .valueFloat (Strtod.strtod tokenBuffer)
  | .float => .valueFloat (Strtod.strtod tokenBuffer)

def startState (current : UInt8) : NumberState :=
  if current = 45 then .minus else if current = 48 then .zero else .any1

def scanNumber (current : UInt8) (rest : Bytes) : Token × Bytes :=
  match scanDigits (startState current) ((startState current).type .unsigned) [current] rest with
  | .error message => (.parseError message, rest)
  | .ok (numberType, tokenBuffer, rest) => (convert numberType tokenBuffer, rest)

/-! ## Tokens -/

def invalidLiteral : Token := .parseError "invalid literal"

/-- The rest of a literal's text is to follow. -/
def scanLiteral (literalText : Bytes) (token : Token) (rest : Bytes) : Token × Bytes :=
  if literalText <+: rest then (token, rest.drop literalText.length) else (invalidLiteral, rest)

def structural (current : UInt8) : Option Token :=
  if current = 91 then some .beginArray
  else if current = 93 then some .endArray
  else if current = 123 then some .beginObject
  else if current = 125 then some .endObject
  else if current = 58 then some .nameSeparator
  else if current = 44 then some .valueSeparator
  else none

/-- The token that begins with `current`. -/
def scanToken (current : UInt8) (rest : Bytes) : Token × Bytes :=
  match structural current with
  | some token => (token, rest)
  | none =>
    if current = 116 then scanLiteral (ascii "rue") .literalTrue rest
    else if current = 102 then scanLiteral (ascii "alse") .literalFalse rest
    else if current = 110 then scanLiteral (ascii "ull") .literalNull rest
    else if current = 34 then
      match scanString [] rest with
      | .ok (tokenBuffer, rest') => (.valueString tokenBuffer, rest')
      | .error message => (.parseError message, rest)
    else if current = 45 ∨ Strtod.isDigit current then scanNumber current rest
    else if current = 0 then (.endOfInput, rest)
    else (invalidLiteral, rest)

structure State where
  rest : Bytes
  charsReadTotal : Nat

/-- The byte order mark of a text that begins with one. -/
def State.skipBom (l : State) : Option State :=
  match l.rest with
  | 0xEF :: rest =>
    match rest with
    | 0xBB :: 0xBF :: rest => some ⟨rest, l.charsReadTotal + 3⟩
    | _ => none
  | _ => some l

def State.skipWhitespace (l : State) : State :=
  ⟨l.rest.dropWhile Grammar.blank, l.charsReadTotal + (l.rest.takeWhile Grammar.blank).length⟩

def State.token (l : State) : Token × State :=
  match l.rest with
  | [] => (.endOfInput, ⟨[], l.charsReadTotal + 1⟩)
  | current :: rest =>
    let scanned := scanToken current rest
    (scanned.1, ⟨scanned.2, l.charsReadTotal + (l.rest.length - scanned.2.length)⟩)

def State.scan (l : State) : Token × State :=
  match if l.charsReadTotal = 0 then l.skipBom else some l with
  | none => (.parseError "invalid BOM; must be 0xEF 0xBB 0xBF if given", l)
  | some l => l.skipWhitespace.token

example : ((⟨ascii " -12.5e1]", 1⟩ : State).scan.2).rest = ascii "]" := by decide +kernel

end OpcConfig.Lexer
