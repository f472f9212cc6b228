import OpcConfig.Json
import OpcConfig.Library.Strtod
import OpcConfig.Library.Utf8

/-! # The grammar of JSON texts

Each part of a text stands beside what it denotes. Of the fields of an object
with one key the last one counts, and a number without point and exponent is an
integer as long as 64 bits hold it.
-/

namespace OpcConfig.Grammar

set_option autoImplicit false

open CString Strtod

/-! ## Blanks and strings -/

def blank (b : UInt8) : Bool := b == 32 || b == 9 || b == 10 || b == 13

def Blanks (t : Bytes) : Prop := ∀ b ∈ t, blank b = true

def Hex (b : UInt8) (d : Nat) : Prop :=
  (d < 10 ∧ b.toNat = 48 + d) ∨ (10 ≤ d ∧ d < 16 ∧ (b.toNat = 55 + d ∨ b.toNat = 87 + d))

/-- Four hexadecimal digits. -/
inductive CodeUnit : Bytes → Nat → Prop
  | mk {a b c d : UInt8} {w x y z : Nat} (ha : Hex a w) (hb : Hex b x) (hc : Hex c y) (hd : Hex d z) :
      CodeUnit [a, b, c, d] (w * 4096 + x * 256 + y * 16 + z)

/-- What stands behind a backslash, and the byte that it denotes. -/
def escapes : List (UInt8 × UInt8) :=
  [(34, 34), (92, 92), (47, 47), (98, 8), (102, 12), (110, 10), (114, 13), (116, 9)]

inductive Piece : Bytes → Bytes → Prop
  | plain {t : Bytes} (h : Utf8.Sequence t) (hPlain : ∀ b ∈ t, 0x20 ≤ b.toNat ∧ b ≠ 34 ∧ b ≠ 92) :
      Piece t t
  | escape {c b : UInt8} (h : (c, b) ∈ escapes) : Piece [92, c] [b]
  | unicode {t : Bytes} {c : Char} (h : CodeUnit t c.toNat) :
      Piece (92 :: 117 :: t) (String.utf8EncodeChar c)
  | surrogates {t u : Bytes} {high low : Nat} {c : Char} (ht : CodeUnit t (0xD800 + high))
      (hu : CodeUnit u (0xDC00 + low)) (hHigh : high < 0x400) (hLow : low < 0x400)
      (hc : c.toNat = 0x10000 + high * 0x400 + low) :
      Piece (92 :: 117 :: (t ++ 92 :: 117 :: u)) (String.utf8EncodeChar c)

inductive Chars : Bytes → Bytes → Prop
  | nil : Chars [] []
  | cons {t m ts ms : Bytes} (h : Piece t m) (hs : Chars ts ms) : Chars (t ++ ts) (m ++ ms)

inductive StringText : Bytes → Bytes → Prop
  | mk {t m : Bytes} (h : Chars t m) : StringText (34 :: (t ++ [34])) m

/-! ## Numbers -/

def Integral (t : Bytes) : Prop := t = [48] ∨ (Digits t ∧ t ≠ [] ∧ t.head? ≠ some 48)

def Fraction (t : Bytes) : Prop := t = [] ∨ ∃ digits, t = 46 :: digits ∧ Digits digits ∧ digits ≠ []

/-- The digits of an exponent, with or without a sign. -/
def Signed (t : Bytes) : Prop :=
  ∃ sign digits, t = sign ++ digits ∧ sign ∈ [[], [43], [45]] ∧ Digits digits ∧ digits ≠ []

def Exponent (t : Bytes) : Prop :=
  t = [] ∨ ∃ e digits, t = e :: digits ∧ (e = 101 ∨ e = 69) ∧ Signed digits

structure NumberText (minus int frac exp : Bytes) : Prop where
  minus : minus = [] ∨ minus = [45]
  int : Integral int
  frac : Fraction frac
  exp : Exponent exp

def integerValue (minus int : Bytes) : Int := if minus = [] then ofDigits int else -ofDigits int

inductive Number : Bytes → Json → Prop
  | integer {minus int : Bytes} {n : JsonInteger} (h : NumberText minus int [] [])
      (hn : n.val = integerValue minus int) : Number (minus ++ int) (.integer n)
  | double {minus int frac exp : Bytes} (h : NumberText minus int frac exp)
      (hDouble : frac ++ exp ≠ [] ∨ integerValue minus int < -2 ^ 63 ∨ 2 ^ 64 ≤ integerValue minus int)
      (hFinite : (strtod (minus ++ (int ++ (frac ++ exp)))).finite = true) :
      Number (minus ++ (int ++ (frac ++ exp))) (.double (strtod (minus ++ (int ++ (frac ++ exp)))))

/-! ## Values -/

/-- Sets a field, in the order of the keys. -/
def insertSorted (key : Bytes) (value : Json) : List (Bytes × Json) → List (Bytes × Json)
  | [] => [(key, value)]
  | (key', value') :: fields =>
    if key < key' then (key, value) :: (key', value') :: fields
    else if key = key' then (key, value) :: fields
    else (key', value') :: insertSorted key value fields

def insertAll (fields members : List (Bytes × Json)) : List (Bytes × Json) :=
  members.foldl (fun fields member => insertSorted member.1 member.2 fields) fields

mutual

inductive Value : Bytes → Json → Prop
  | literalNull : Value (ascii "null") .null
  | literalTrue : Value (ascii "true") (.boolean true)
  | literalFalse : Value (ascii "false") (.boolean false)
  | number {t : Bytes} {j : Json} (h : Number t j) : Value t j
  | string {t m : Bytes} (h : StringText t m) : Value t (.string m)
  | emptyArray {b : Bytes} (hb : Blanks b) : Value (91 :: (b ++ [93])) (.array [])
  | array {b t u : Bytes} {j : Json} {js : List Json} (hb : Blanks b) (h : Value t j)
      (hs : Elements u js) : Value (91 :: (b ++ (t ++ u))) (.array (j :: js))
  | emptyObject {b : Bytes} (hb : Blanks b) : Value (123 :: (b ++ [125])) (.object [])
  | object {b t u : Bytes} {member : Bytes × Json} {members : List (Bytes × Json)} (hb : Blanks b)
      (h : Member t member) (hs : Members u members) :
      Value (123 :: (b ++ (t ++ u))) (.object (insertAll [] (member :: members)))

/-- What follows the first element of an array. -/
inductive Elements : Bytes → List Json → Prop
  | nil {b : Bytes} (hb : Blanks b) : Elements (b ++ [93]) []
  | cons {b b' t u : Bytes} {j : Json} {js : List Json} (hb : Blanks b) (hb' : Blanks b')
      (h : Value t j) (hs : Elements u js) : Elements (b ++ 44 :: (b' ++ (t ++ u))) (j :: js)

inductive Member : Bytes → Bytes × Json → Prop
  | mk {k b b' t : Bytes} {key : Bytes} {value : Json} (hk : StringText k key) (hb : Blanks b)
      (hb' : Blanks b') (h : Value t value) : Member (k ++ (b ++ 58 :: (b' ++ t))) (key, value)

/-- What follows the first field of an object. -/
inductive Members : Bytes → List (Bytes × Json) → Prop
  | nil {b : Bytes} (hb : Blanks b) : Members (b ++ [125]) []
  | cons {b b' t u : Bytes} {member : Bytes × Json} {members : List (Bytes × Json)} (hb : Blanks b)
      (hb' : Blanks b') (h : Member t member) (hs : Members u members) :
      Members (b ++ 44 :: (b' ++ (t ++ u))) (member :: members)

end

/-- A whole text: a byte order mark may stand before it, and it ends with the
input or at a NUL. -/
inductive Text : Bytes → Json → Prop
  | mk {mark b t b' rest : Bytes} {j : Json} (hMark : mark = [] ∨ mark = [0xEF, 0xBB, 0xBF])
      (hb : Blanks b) (h : Value t j) (hb' : Blanks b') (hRest : rest = [] ∨ rest.head? = some 0) :
      Text (mark ++ (b ++ (t ++ (b' ++ rest)))) j

end OpcConfig.Grammar
