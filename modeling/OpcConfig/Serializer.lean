import Mathlib.Tactic.IntervalCases
import OpcConfig.DumpFloat
import OpcConfig.DumpInteger
import OpcConfig.Utf8Dump

/-! # `serializer`: the text that `dump` prints

Strings pass through `string_buffer` and numbers through `number_buffer`. What
comes out is the text of the value, and nothing is written outside the buffers.
-/

namespace OpcConfig.Serializer

set_option autoImplicit false

open CString Nlohmann

/-- An exception, or what the code must not come to: a store outside a buffer, a
failed assertion or an endless loop. -/
inductive Fault
  | invalidUtf8
  | undefined
  deriving DecidableEq

/-! ## Strings -/

/-- The code point after one more byte. -/
def decodeCodepoint (state codep : Nat) (byte : UInt8) : Nat :=
  if state ≠ utf8Accept then (byte.toNat &&& 0x3F ||| codep <<< 6) % 2 ^ 32
  else (0xFF >>> utf8d.getD byte.toNat 0) &&& byte.toNat

def hexDigit (n : Nat) : UInt8 := UInt8.ofNat (if n < 10 then 48 + n else 87 + n)

/-- `\u%04x` -/
def unicodeEscape (n : Nat) : Bytes :=
  [92, 117, hexDigit (n / 4096 % 16), hexDigit (n / 256 % 16), hexDigit (n / 16 % 16), hexDigit (n % 16)]

/-- What is put into the buffer for a code point that ends with `byte`. -/
def escaped (codepoint : Nat) (byte : UInt8) : Bytes :=
  if codepoint = 0x08 then ascii "\\b"
  else if codepoint = 0x09 then ascii "\\t"
  else if codepoint = 0x0A then ascii "\\n"
  else if codepoint = 0x0C then ascii "\\f"
  else if codepoint = 0x0D then ascii "\\r"
  else if codepoint = 0x22 then ascii "\\\""
  else if codepoint = 0x5C then ascii "\\\\"
  else if codepoint ≤ 0x1F then unicodeEscape codepoint
  else [byte]

/-- A store behind the bytes that are in the buffer; `snprintf` ends with a NUL. -/
def append (text buffer : Bytes) : Except Fault Bytes :=
  if buffer.length + (if text.length = 6 then 7 else text.length) ≤ 512 then .ok (buffer ++ text)
  else .error .undefined

/-- The characters that `dump_escaped` puts out behind those that are out. -/
def dumpEscaped (state codepoint : Nat) (buffer out : Bytes) : Bytes → Except Fault Bytes
  | [] => if state = utf8Accept then .ok (out ++ buffer) else .error .invalidUtf8
  | byte :: rest => do
    let codepoint := decodeCodepoint state codepoint byte
    let state := decode state byte
    if state = utf8Accept then
      let buffer ← append (escaped codepoint byte) buffer
      if 512 - buffer.length < 13 then dumpEscaped state codepoint [] (out ++ buffer) rest
      else dumpEscaped state codepoint buffer out rest
    else if state = utf8Reject then .error .invalidUtf8
    else
      let buffer ← append [byte] buffer
      dumpEscaped state codepoint buffer out rest

/-! ## Values -/

structure Output where
  written : Bytes
  numberBuffer : Bytes

def Output.write (text : Bytes) (o : Output) : Output := { o with written := o.written ++ text }

def Output.dumpString (s : Bytes) (o : Output) : Except Fault Output :=
  (dumpEscaped utf8Accept 0 [] o.written s).map fun written => { o with written := written }

def Output.dumpInteger (n : JsonInteger) (o : Output) : Except Fault Output :=
  match Serializer.dumpInteger n o.numberBuffer with
  | none => .error .undefined
  | some (text, buffer) => .ok ⟨o.written ++ text, buffer⟩

def Output.dumpFloat (d : Binary64) (o : Output) : Except Fault Output :=
  if d.finite then
    match Dtoa.toChars d with
    | none => .error .undefined
    | some text =>
      if text.length ≤ o.numberBuffer.length then
        .ok ⟨o.written ++ text, text ++ o.numberBuffer.drop text.length⟩
      else .error .undefined
  else .ok (o.write (ascii "null"))

mutual

def dump : Json → Output → Except Fault Output
  | .object [], o => .ok (o.write (ascii "\x7b\x7d"))
  | .object (field :: fields), o => do
    return (← dumpFields (field :: fields) (o.write (ascii "\x7b"))).write (ascii "\x7d")
  | .array [], o => .ok (o.write (ascii "[]"))
  | .array (element :: elements), o => do
    return (← dumpElements (element :: elements) (o.write (ascii "["))).write (ascii "]")
  | .string s, o => do return (← (o.write (ascii "\"")).dumpString s).write (ascii "\"")
  | .boolean b, o => .ok (o.write (if b then ascii "true" else ascii "false"))
  | .integer n, o => o.dumpInteger n
  | .double d, o => o.dumpFloat d
  | .null, o => .ok (o.write (ascii "null"))

def dumpElements : List Json → Output → Except Fault Output
  | [], o => .ok o
  | [element], o => dump element o
  | element :: next :: elements, o => do
    dumpElements (next :: elements) ((← dump element o).write (ascii ","))

def dumpFields : List (Bytes × Json) → Output → Except Fault Output
  | [], o => .ok o
  | [(key, value)], o => do
    dump value ((← (o.write (ascii "\"")).dumpString key).write (ascii "\":"))
  | (key, value) :: next :: fields, o => do
    let o ← dump value ((← (o.write (ascii "\"")).dumpString key).write (ascii "\":"))
    dumpFields (next :: fields) (o.write (ascii ","))

end

/-- `dump` with its default arguments. -/
def dumped (value : Json) : Except Fault Bytes :=
  (dump value ⟨[], List.replicate 64 0⟩).map Output.written

example : dumped (.array [.double ⟨0x3FF8000000000000⟩, .string (ascii "\n")]) =
    .ok (ascii "[1.5,\"\\n\"]") := by decide +kernel

/-! ## The text of a string -/

def escape (byte : UInt8) : Bytes := escaped byte.toNat byte

theorem escaped_of_le {codepoint : Nat} (h : 0x80 ≤ codepoint) (byte : UInt8) :
    escaped codepoint byte = [byte] := by
  rw [escaped, if_neg (by omega), if_neg (by omega), if_neg (by omega), if_neg (by omega),
    if_neg (by omega), if_neg (by omega), if_neg (by omega), if_neg (by omega)]

theorem length_escaped (codepoint : Nat) (byte : UInt8) : (escaped codepoint byte).length ≤ 6 := by
  rw [escaped]
  split_ifs <;> simp [ascii, unicodeEscape]

/-- Between two code points: how far the buffer may be filled, and the bounds of
the code point so far. -/
def fill : Nat → Nat
  | 0 => 499
  | 2 => 502
  | 3 => 501
  | _ => 500

def lowest : Nat → Nat
  | 2 => 2
  | 3 | 5 | 7 | 8 => 1
  | _ => 0

def limit : Nat → Nat
  | 2 => 2 ^ 15
  | 3 => 2 ^ 9
  | 5 => 16
  | 7 => 4
  | 8 => 8
  | _ => 1

structure Between (state codepoint length : Nat) : Prop where
  states : state < 9
  fill : length ≤ fill state
  codepoint : state ≠ utf8Accept → lowest state ≤ codepoint ∧ codepoint < limit state

theorem limit_le (state : Nat) : limit state ≤ 2 ^ 15 := by
  rw [limit.eq_def]
  split <;> decide

theorem decodeCodepoint_eq {state codep : Nat} (hState : state ≠ utf8Accept) (h : codep < 2 ^ 15)
    (byte : UInt8) : decodeCodepoint state codep byte = codep * 64 + byte.toNat % 64 := by
  have hAnd : byte.toNat &&& 0x3F = byte.toNat % 64 := Nat.and_two_pow_sub_one_eq_mod byte.toNat 6
  have hOr : codep <<< 6 + byte.toNat % 64 = codep <<< 6 ||| byte.toNat % 64 :=
    Nat.shiftLeft_add_eq_or_of_lt (Nat.mod_lt _ (by decide)) codep
  rw [decodeCodepoint, if_pos hState, hAnd, Nat.or_comm, ← hOr, Nat.shiftLeft_eq]
  omega

/-- The first byte of a code point. -/
theorem decodeCodepoint_first : ∀ n < 256, decode utf8Accept (UInt8.ofNat n) ≠ utf8Reject →
    if decode utf8Accept (UInt8.ofNat n) = utf8Accept then
      decodeCodepoint utf8Accept 0 (UInt8.ofNat n) = n
    else lowest (decode utf8Accept (UInt8.ofNat n)) ≤ decodeCodepoint utf8Accept 0 (UInt8.ofNat n) ∧
      decodeCodepoint utf8Accept 0 (UInt8.ofNat n) < limit (decode utf8Accept (UInt8.ofNat n)) := by
  decide +kernel

theorem fill_step : ∀ state < 9, ∀ e ∈ edges state, e.2 ≠ utf8Accept →
    e.2 < 9 ∧ fill state + 1 ≤ fill e.2 := by decide

/-- A later byte of a code point. -/
theorem codepoint_step {state codep : Nat} {byte : UInt8} {e : Utf8.Range × Nat}
    (hState : state < 9) (hNe : state ≠ utf8Accept) (hLow : lowest state ≤ codep)
    (hHigh : codep < limit state) (hEdge : e ∈ edges state) (hByte : Utf8.Within e.1 byte) :
    if e.2 = utf8Accept then 0x80 ≤ codep * 64 + byte.toNat % 64
    else lowest e.2 ≤ codep * 64 + byte.toNat % 64 ∧ codep * 64 + byte.toNat % 64 < limit e.2 := by
  rw [utf8Accept] at *
  rw [Utf8.Within] at hByte
  interval_cases state <;> simp_all [edges, lowest, limit, Utf8.tail] <;> omega

theorem append_eq {text buffer : Bytes} (hText : text.length ≤ 6) (h : buffer.length ≤ 505) :
    append text buffer = .ok (buffer ++ text) := by
  rw [append, if_pos]
  split <;> omega

/-- Only ASCII bytes have a text of their own. -/
theorem edges_above : ∀ state < 9, ∀ e ∈ edges state,
    state ≠ utf8Accept ∨ e.2 ≠ utf8Accept → 0x80 ≤ e.1.1 := by decide

section

variable {state codep length : Nat} {byte : UInt8}

theorem exists_edge (hDecode : decode state byte ≠ utf8Reject) :
    ∃ range, (range, decode state byte) ∈ edges state ∧ Utf8.Within range byte := by
  apply (next_eq_some_iff state byte _).mp
  rw [next, if_neg hDecode]

theorem decodeCodepoint_start (hDecode : decode utf8Accept byte ≠ utf8Reject) (codep : Nat) :
    if decode utf8Accept byte = utf8Accept then decodeCodepoint utf8Accept codep byte = byte.toNat
    else lowest (decode utf8Accept byte) ≤ decodeCodepoint utf8Accept codep byte ∧
      decodeCodepoint utf8Accept codep byte < limit (decode utf8Accept byte) := by
  have hAll := decodeCodepoint_first byte.toNat byte.toNat_lt
  rw [UInt8.ofNat_toNat] at hAll
  exact hAll hDecode

theorem escape_of_le (h : 0x80 ≤ byte.toNat) : escape byte = [byte] := escaped_of_le h byte

/-- The last byte of a code point. -/
theorem Between.accept (h : Between state codep length) (hDecode : decode state byte = utf8Accept) :
    escaped (decodeCodepoint state codep byte) byte = escape byte := by
  have hNe : decode state byte ≠ utf8Reject := by
    rw [hDecode]
    decide
  rcases eq_or_ne state utf8Accept with rfl | hState
  · have hFirst := decodeCodepoint_start hNe codep
    rw [if_pos hDecode] at hFirst
    rw [hFirst, escape]
  · obtain ⟨hLow, hHigh⟩ := h.codepoint hState
    obtain ⟨range, hEdge, hByte⟩ := exists_edge hNe
    have hStep := codepoint_step h.states hState hLow hHigh hEdge hByte
    have hAbove := edges_above state h.states _ hEdge (Or.inl hState)
    rw [if_pos hDecode] at hStep
    rw [decodeCodepoint_eq hState (hHigh.trans_le (limit_le state)), escaped_of_le hStep,
      escape_of_le (hAbove.trans hByte.1)]

/-- A byte after which the code point is not complete. -/
theorem Between.more (h : Between state codep length) (hDecode : decode state byte ≠ utf8Accept)
    (hNe : decode state byte ≠ utf8Reject) : escape byte = [byte] ∧
      Between (decode state byte) (decodeCodepoint state codep byte) (length + 1) := by
  obtain ⟨range, hEdge, hByte⟩ := exists_edge hNe
  have hAbove := edges_above state h.states _ hEdge (Or.inr hDecode)
  obtain ⟨hStates, hFill⟩ := fill_step state h.states _ hEdge hDecode
  refine ⟨escape_of_le (hAbove.trans hByte.1), hStates, (Nat.succ_le_succ h.fill).trans hFill, ?_⟩
  intro _
  rcases eq_or_ne state utf8Accept with rfl | hState
  · have hFirst := decodeCodepoint_start hNe codep
    rwa [if_neg hDecode] at hFirst
  · obtain ⟨hLow, hHigh⟩ := h.codepoint hState
    have hStep := codepoint_step h.states hState hLow hHigh hEdge hByte
    rw [if_neg hDecode] at hStep
    rwa [decodeCodepoint_eq hState (hHigh.trans_le (limit_le state))]

theorem Between.start (codep : Nat) (h : length ≤ 499) : Between utf8Accept codep length :=
  ⟨by decide, h, fun hNe => absurd rfl hNe⟩

end

theorem fill_le (state : Nat) : fill state ≤ 502 := by
  rw [fill.eq_def]
  split <;> decide

/-- `dump_escaped` puts out the text of the string, or throws where the string
encodes no text; its buffer never runs over. -/
theorem dumpEscaped_spec {state codep : Nat} {buffer : Bytes}
    (h : Between state codep buffer.length) (out s : Bytes) :
    dumpEscaped state codep buffer out s =
      if Nlohmann.dumpEscaped state s = true then .ok (out ++ (buffer ++ s.flatMap escape))
      else .error .invalidUtf8 := by
  induction s generalizing state codep buffer out with
  | nil =>
    rw [dumpEscaped, Nlohmann.dumpEscaped, List.flatMap_nil, List.append_nil]
    simp
  | cons byte s ih =>
    have hFill := h.fill.trans (fill_le state)
    have hShort := length_escaped (decodeCodepoint state codep byte) byte
    rw [dumpEscaped, Nlohmann.dumpEscaped, List.flatMap_cons]
    split
    · rename_i hAccept
      have hNotReject : ¬ utf8Accept = utf8Reject := by decide
      rw [append_eq hShort (by omega), h.accept hAccept, hAccept, if_neg hNotReject]
      change (if 512 - (buffer ++ escape byte).length < 13 then _ else _) = _
      split
      · rw [ih (Between.start _ (Nat.zero_le _)), List.nil_append, List.append_assoc, List.append_assoc]
      · rename_i hRoom
        rw [ih (Between.start _ (by omega)), List.append_assoc]
    · rename_i hAccept
      split
      · rfl
      · rename_i hReject
        obtain ⟨hEscape, hNext⟩ := h.more hAccept hReject
        rw [append_eq (by simp) (by omega)]
        change dumpEscaped _ _ (buffer ++ [byte]) out s = _
        rw [ih (by rwa [List.length_append, List.length_singleton]), hEscape, List.append_assoc]

/-! ## The text of a value -/

def stringText (s : Bytes) : Bytes := ascii "\"" ++ (s.flatMap escape ++ ascii "\"")

def floatText (d : Binary64) : Bytes :=
  if d.finite then (Dtoa.toChars d).getD [] else ascii "null"

mutual

def text : Json → Bytes
  | .object fields => ascii "\x7b" ++ (fieldsText fields ++ ascii "\x7d")
  | .array elements => ascii "[" ++ (elementsText elements ++ ascii "]")
  | .string s => stringText s
  | .boolean b => if b then ascii "true" else ascii "false"
  | .integer n => Printf.decimal n.val
  | .double d => floatText d
  | .null => ascii "null"

def elementsText : List Json → Bytes
  | [] => []
  | [element] => text element
  | element :: next :: elements => text element ++ (ascii "," ++ elementsText (next :: elements))

def fieldsText : List (Bytes × Json) → Bytes
  | [] => []
  | [(key, value)] => stringText key ++ (ascii ":" ++ text value)
  | (key, value) :: next :: fields =>
    stringText key ++ (ascii ":" ++ (text value ++ (ascii "," ++ fieldsText (next :: fields))))

end

/-- What a part of the printing may come to: its text is put out, or it has
thrown; `printed` says which by what the abstract printing gives. -/
def Prints {α : Type} (printed : Except NlohmannError α) (text : Bytes) (o : Output)
    (result : Except Fault Output) : Prop :=
  match printed with
  | .ok _ => ∃ buffer, result = .ok ⟨o.written ++ text, buffer⟩ ∧ buffer.length = 64
  | .error _ => result = .error .invalidUtf8

theorem toChars_text {d : Binary64} (h : d.finite = true) :
    Dtoa.toChars d = some (floatText d) ∧ (floatText d).length ≤ 25 := by
  obtain ⟨x, hText, _, _, hLength, _⟩ := Dtoa.toChars_spec h
  rw [floatText, if_pos h, hText]
  exact ⟨rfl, hLength⟩

theorem dumpString_of_valid {s : Bytes} (h : ValidUtf8 s) (o : Output) :
    o.dumpString s = .ok { o with written := o.written ++ s.flatMap escape } := by
  have hSpec := dumpEscaped_spec
    (Between.start 0 (Nat.zero_le _) : Between utf8Accept 0 ([] : Bytes).length) o.written s
  have hTrue : Nlohmann.dumpEscaped utf8Accept s = true := h
  rw [Output.dumpString, hSpec, if_pos hTrue]
  rfl

theorem dumpString_of_not_valid {s : Bytes} (h : ¬ ValidUtf8 s) (o : Output) :
    o.dumpString s = .error .invalidUtf8 := by
  have hSpec := dumpEscaped_spec
    (Between.start 0 (Nat.zero_le _) : Between utf8Accept 0 ([] : Bytes).length) o.written s
  have hFalse : ¬ Nlohmann.dumpEscaped utf8Accept s = true := h
  rw [Output.dumpString, hSpec, if_neg hFalse]
  rfl

section

variable {α β γ : Type} {printed : Except NlohmannError α} {rest : Except NlohmannError β}
  {t u : Bytes} {o : Output} {result : Except Fault Output}

theorem Prints.enclose (before after : Bytes) (h : Prints printed t (o.write before) result)
    (f : α → β) : Prints (printed.bind fun a => .ok (f a)) (before ++ (t ++ after)) o
      (result.bind fun o' => .ok (o'.write after)) := by
  cases printed with
  | error e =>
    rw [Prints] at h
    rw [h]
    rfl
  | ok a =>
    obtain ⟨buffer, hResult, hBuffer⟩ := h
    rw [hResult]
    refine ⟨buffer, ?_, hBuffer⟩
    simp [Except.bind, Output.write, List.append_assoc]

theorem Prints.seq (h : Prints printed t o result) {next : Output → Except Fault Output}
    (hNext : ∀ o' : Output, o'.numberBuffer.length = 64 → Prints rest u o' (next o')) (f : α → β → γ) :
    Prints (printed.bind fun a => rest.bind fun b => .ok (f a b)) (t ++ u) o (result.bind next) := by
  cases printed with
  | error e =>
    rw [Prints] at h
    rw [h]
    rfl
  | ok a =>
    obtain ⟨buffer, hResult, hBuffer⟩ := h
    rw [hResult]
    have hRest := hNext ⟨o.written ++ t, buffer⟩ hBuffer
    cases rest with
    | error e =>
      rw [Prints] at hRest
      exact hRest
    | ok b =>
      obtain ⟨buffer', hResult', hBuffer'⟩ := hRest
      refine ⟨buffer', ?_, hBuffer'⟩
      change next ⟨o.written ++ t, buffer⟩ = _
      rw [hResult', List.append_assoc]

theorem Prints.map (h : Prints printed t o result) (f : α → β) :
    Prints (printed.bind fun a => .ok (f a)) t o result := by
  cases printed with
  | error e => exact h
  | ok a => exact h

theorem Prints.prepend (before : Bytes) (h : Prints printed t (o.write before) result) :
    Prints printed (before ++ t) o result := by
  cases printed with
  | error e => exact h
  | ok a =>
    obtain ⟨buffer, hResult, hBuffer⟩ := h
    refine ⟨buffer, ?_, hBuffer⟩
    rw [hResult, Output.write, List.append_assoc]

end

section

variable {o : Output} (hBuffer : o.numberBuffer.length = 64)

include hBuffer

theorem string_prints (s : Bytes) : Prints (Nlohmann.dump (.string s)) (stringText s) o
    (dump (.string s) o) := by
  rw [Nlohmann.dump, dump]
  split
  · rename_i hValid
    rw [dumpString_of_valid hValid]
    refine ⟨_, ?_, hBuffer⟩
    simp [stringText, Output.write, List.append_assoc]
  · rename_i hInvalid
    rw [dumpString_of_not_valid hInvalid]
    rfl

theorem dumpInteger_prints (n : JsonInteger) :
    Prints (Nlohmann.dump (.integer n)) (Printf.decimal n.val) o (o.dumpInteger n) := by
  obtain ⟨buffer, hDump, hLength⟩ := dumpInteger_eq n hBuffer
  rw [Output.dumpInteger, hDump]
  exact ⟨buffer, rfl, hLength⟩

theorem dumpFloat_prints (d : Binary64) :
    Prints (Nlohmann.dump (.double d)) (floatText d) o (o.dumpFloat d) := by
  rw [Output.dumpFloat]
  split
  · rename_i hFinite
    obtain ⟨hChars, hLength⟩ := toChars_text hFinite
    rw [hChars]
    dsimp only
    rw [if_pos (by omega)]
    refine ⟨_, rfl, ?_⟩
    rw [List.length_append, List.length_drop]
    omega
  · rename_i hInfinite
    rw [floatText, if_neg hInfinite]
    exact ⟨_, rfl, hBuffer⟩

theorem written_prints (j : Json) (t : Bytes) : Prints (.ok j) t o (.ok (o.write t)) :=
  ⟨_, rfl, hBuffer⟩

end

/-- A key of an object, with its colon, and what comes behind. -/
theorem key_written {key : Bytes} (h : ValidUtf8 key) (o : Output)
    (next : Output → Except Fault Output) :
    ((o.write (ascii "\"")).dumpString key >>= fun o' => next (o'.write (ascii "\":"))) =
      next (o.write (stringText key ++ ascii ":")) := by
  have hText : ascii "\":" = ascii "\"" ++ ascii ":" := by decide
  rw [dumpString_of_valid h]
  change next _ = _
  rw [Output.write, Output.write, Output.write, stringText, hText]
  simp only [List.append_assoc]

mutual

/-- `dump` puts out the text of the value, and throws where it has no text. -/
theorem dump_prints (j : Json) {o : Output} (hBuffer : o.numberBuffer.length = 64) :
    Prints (Nlohmann.dump j) (text j) o (dump j o) := by
  match j with
  | .object [] => exact written_prints hBuffer _ _
  | .object (field :: fields) =>
    have hFields := dumpFields_prints (field :: fields) (o := o.write (ascii "\x7b")) hBuffer
    exact hFields.enclose (ascii "\x7b") (ascii "\x7d") Json.object
  | .array [] => exact written_prints hBuffer _ _
  | .array (element :: elements) =>
    have hElements := dumpElements_prints (element :: elements) (o := o.write (ascii "[")) hBuffer
    exact hElements.enclose (ascii "[") (ascii "]") Json.array
  | .string s => exact string_prints hBuffer s
  | .boolean b => exact written_prints hBuffer _ _
  | .integer n => exact dumpInteger_prints hBuffer n
  | .double d => exact dumpFloat_prints hBuffer d
  | .null => exact written_prints hBuffer _ _

theorem dumpElements_prints (elements : List Json) {o : Output}
    (hBuffer : o.numberBuffer.length = 64) :
    Prints (Nlohmann.dumpElements elements) (elementsText elements) o (dumpElements elements o) := by
  match elements with
  | [] => exact ⟨_, by rw [elementsText, List.append_nil]; rfl, hBuffer⟩
  | [element] => exact (dump_prints element hBuffer).map fun e => [e]
  | element :: next :: elements =>
    have hElement := dump_prints element hBuffer
    have hRest : ∀ o' : Output, o'.numberBuffer.length = 64 →
        Prints (Nlohmann.dumpElements (next :: elements))
          (ascii "," ++ elementsText (next :: elements)) o'
          (dumpElements (next :: elements) (o'.write (ascii ","))) := fun o' hBuffer' =>
      (dumpElements_prints (next :: elements) (o := o'.write (ascii ",")) hBuffer').prepend (ascii ",")
    exact hElement.seq hRest List.cons

theorem dumpFields_prints (fields : List (Bytes × Json)) {o : Output}
    (hBuffer : o.numberBuffer.length = 64) :
    Prints (Nlohmann.dumpFields fields) (fieldsText fields) o (dumpFields fields o) := by
  match fields with
  | [] => exact ⟨_, by rw [fieldsText, List.append_nil]; rfl, hBuffer⟩
  | [(key, value)] =>
    rw [Nlohmann.dumpFields, dumpFields, fieldsText, ← List.append_assoc]
    split
    · rename_i hValid
      have hValue := dump_prints value (o := o.write (stringText key ++ ascii ":")) hBuffer
      rw [key_written hValid]
      exact (hValue.prepend _).map fun v => [(key, v)]
    · rename_i hInvalid
      rw [dumpString_of_not_valid hInvalid]
      rfl
  | (key, value) :: next :: fields =>
    rw [Nlohmann.dumpFields, dumpFields, fieldsText, ← List.append_assoc]
    split
    · rename_i hValid
      have hValue := dump_prints value (o := o.write (stringText key ++ ascii ":")) hBuffer
      have hRest : ∀ o' : Output, o'.numberBuffer.length = 64 →
          Prints (Nlohmann.dumpFields (next :: fields)) (ascii "," ++ fieldsText (next :: fields)) o'
            (dumpFields (next :: fields) (o'.write (ascii ","))) := fun o' hBuffer' =>
        (dumpFields_prints (next :: fields) (o := o'.write (ascii ",")) hBuffer').prepend (ascii ",")
      have hSeq := (hValue.prepend _).seq hRest fun v rest => (key, v) :: rest
      have hKey := key_written hValid o fun o' =>
        (dump value o').bind fun o'' => dumpFields (next :: fields) (o''.write (ascii ","))
      rw [← hKey, List.append_assoc] at hSeq
      exact hSeq
    · rename_i hInvalid
      rw [dumpString_of_not_valid hInvalid]
      rfl

end

theorem dumped_of_ok {j j' : Json} (h : Nlohmann.dump j = .ok j') : dumped j = .ok (text j) := by
  have hPrints := dump_prints j (o := ⟨[], List.replicate 64 0⟩) List.length_replicate
  rw [h] at hPrints
  obtain ⟨buffer, hResult, _⟩ := hPrints
  rw [dumped, hResult]
  rfl

theorem dumped_of_error {j : Json} {e : NlohmannError} (h : Nlohmann.dump j = .error e) :
    dumped j = .error .invalidUtf8 := by
  have hPrints := dump_prints j (o := ⟨[], List.replicate 64 0⟩) List.length_replicate
  rw [h] at hPrints
  rw [dumped, hPrints]
  rfl

end OpcConfig.Serializer
