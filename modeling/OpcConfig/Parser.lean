import OpcConfig.LexerTokens

/-! # `parser`: from the tokens to a value

A value under construction is put into its parent when it ends; its parent is
not read before. Messages stand without the position and the text last read.
-/

namespace OpcConfig.Parser

set_option autoImplicit false

open CString Lexer Grammar

/-! ## `json_sax_dom_parser` -/

/-- An array or object under construction; `objectElement` is the key whose
element the next value goes to. -/
inductive Frame
  | array (elements : List Json)
  | object (fields : List (Bytes × Json)) (objectElement : Option Bytes)

def Frame.isArray : Frame → Bool
  | .array _ => true
  | .object _ _ => false

structure Dom where
  root : Json
  refStack : List Frame

/-- `none` is a failed assertion. -/
def Dom.handleValue (v : Json) (dom : Dom) : Option Dom :=
  match dom.refStack with
  | [] => some ⟨v, []⟩
  | .array elements :: refStack => some ⟨dom.root, .array (elements ++ [v]) :: refStack⟩
  | .object fields (some key) :: refStack =>
    some ⟨dom.root, .object (insertSorted key v fields) (some key) :: refStack⟩
  | .object _ none :: _ => none

def Dom.startObject (dom : Dom) : Option Dom :=
  (dom.handleValue (.object [])).map fun _ => ⟨dom.root, .object [] none :: dom.refStack⟩

/-- `operator[]` of the map: an element that is there stays. -/
def touchSorted (key : Bytes) (fields : List (Bytes × Json)) : List (Bytes × Json) :=
  if (fields.lookup key).isSome then fields else insertSorted key .null fields

def Dom.key (key : Bytes) (dom : Dom) : Option Dom :=
  match dom.refStack with
  | .object fields _ :: refStack => some ⟨dom.root, .object (touchSorted key fields) (some key) :: refStack⟩
  | _ => none

def Dom.endObject (dom : Dom) : Option Dom :=
  match dom.refStack with
  | .object fields _ :: refStack => Dom.handleValue (.object fields) ⟨dom.root, refStack⟩
  | _ => none

def Dom.startArray (dom : Dom) : Option Dom :=
  (dom.handleValue (.array [])).map fun _ => ⟨dom.root, .array [] :: dom.refStack⟩

def Dom.endArray (dom : Dom) : Option Dom :=
  match dom.refStack with
  | .array elements :: refStack => Dom.handleValue (.array elements) ⟨dom.root, refStack⟩
  | _ => none

/-! ## The loop -/

inductive Exception
  | parseError (message : String)
  | outOfRange

inductive Failure
  | exception (e : Exception)
  | undefined

def exceptionMessage (lastToken : Token) (expected : TokenType) (context : String) : String :=
  let unexpected :=
    match lastToken with
    | .parseError message => message
    | token => "unexpected " ++ tokenTypeName token.type
  "syntax error while parsing " ++ context ++ " - " ++ unexpected ++
    if expected = .uninitialized then "" else "; expected " ++ tokenTypeName expected

def emptyInput : String :=
  "attempting to parse an empty input; check that your input string or stream contains the expected JSON"

structure State where
  lexer : Lexer.State
  lastToken : Token
  dom : Dom
  states : List Bool
  skipToStateEvaluation : Bool

def State.getToken (s : State) : State :=
  { s with lexer := s.lexer.scan.2, lastToken := s.lexer.scan.1 }

def State.parseError (s : State) (expected : TokenType) (context : String) : Failure :=
  .exception (.parseError (exceptionMessage s.lastToken expected context))

/-- A value is there, or the next one is to be parsed. -/
inductive Parsed
  | breaks (s : State)
  | continues (s : State)

inductive Evaluated
  | continues (s : State)
  | returns (s : State)

/-- A key and the separator behind it. -/
def State.key (s : State) : Except Failure State :=
  match s.lastToken with
  | .valueString key =>
    match s.dom.key key with
    | none => .error .undefined
    | some dom =>
      let s := { s with dom := dom }.getToken
      if s.lastToken.type = .nameSeparator then .ok s
      else .error (s.parseError .nameSeparator "object separator")
  | _ => .error (s.parseError .valueString "object key")

def State.withDom (s : State) : Option Dom → Except Failure Parsed
  | none => .error .undefined
  | some dom => .ok (.breaks { s with dom := dom })

def State.beginObject (s : State) : Except Failure Parsed :=
  match s.dom.startObject with
  | none => .error .undefined
  | some dom =>
    let s := { s with dom := dom }.getToken
    if s.lastToken.type = .endObject then s.withDom s.dom.endObject
    else
      match s.key with
      | .error f => .error f
      | .ok s => .ok (.continues { s with states := false :: s.states }.getToken)

def State.beginArray (s : State) : Except Failure Parsed :=
  match s.dom.startArray with
  | none => .error .undefined
  | some dom =>
    let s := { s with dom := dom }.getToken
    if s.lastToken.type = .endArray then s.withDom s.dom.endArray
    else .ok (.continues { s with states := true :: s.states })

def State.value (s : State) : Except Failure Parsed :=
  match s.lastToken with
  | .beginObject => s.beginObject
  | .beginArray => s.beginArray
  | .valueFloat d =>
    if d.finite then s.withDom (s.dom.handleValue (.double d)) else .error (.exception .outOfRange)
  | .literalFalse => s.withDom (s.dom.handleValue (.boolean false))
  | .literalNull => s.withDom (s.dom.handleValue .null)
  | .literalTrue => s.withDom (s.dom.handleValue (.boolean true))
  | .valueInteger n => s.withDom (s.dom.handleValue (.integer n))
  | .valueString m => s.withDom (s.dom.handleValue (.string m))
  | .valueUnsigned n => s.withDom (s.dom.handleValue (.integer n))
  | .parseError _ => .error (s.parseError .uninitialized "value")
  | .endOfInput =>
    if s.lexer.charsReadTotal = 1 then .error (.exception (.parseError emptyInput))
    else .error (s.parseError .literalOrValue "value")
  | _ => .error (s.parseError .literalOrValue "value")

/-- The end of an array or object, behind which the state is evaluated again. -/
def State.close (s : State) (states : List Bool) : Option Dom → Except Failure Evaluated
  | none => .error .undefined
  | some dom => .ok (.continues { s with dom := dom, states := states, skipToStateEvaluation := true })

def State.evaluate (s : State) : Except Failure Evaluated :=
  match s.states with
  | [] => .ok (.returns s)
  | true :: states =>
    let s := s.getToken
    if s.lastToken.type = .valueSeparator then .ok (.continues s.getToken)
    else if s.lastToken.type = .endArray then s.close states s.dom.endArray
    else .error (s.parseError .endArray "array")
  | false :: states =>
    let s := s.getToken
    if s.lastToken.type = .valueSeparator then
      match s.getToken.key with
      | .error f => .error f
      | .ok s => .ok (.continues s.getToken)
    else if s.lastToken.type = .endObject then s.close states s.dom.endObject
    else .error (s.parseError .endObject "object")

theorem evaluate_array {s : State} {states : List Bool} (hStates : s.states = true :: states) : s.evaluate =
    if s.getToken.lastToken.type = .valueSeparator then .ok (.continues s.getToken.getToken)
    else if s.getToken.lastToken.type = .endArray then s.getToken.close states s.getToken.dom.endArray
    else .error (s.getToken.parseError .endArray "array") := by
  rw [State.evaluate, hStates]

theorem evaluate_object {s : State} {states : List Bool} (hStates : s.states = false :: states) : s.evaluate =
    if s.getToken.lastToken.type = .valueSeparator then
      match s.getToken.getToken.key with
      | .error f => .error f
      | .ok s => .ok (.continues s.getToken)
    else if s.getToken.lastToken.type = .endObject then
      s.getToken.close states s.getToken.dom.endObject
    else .error (s.getToken.parseError .endObject "object") := by
  rw [State.evaluate, hStates]

def State.step (s : State) : Except Failure Evaluated :=
  if s.skipToStateEvaluation then { s with skipToStateEvaluation := false }.evaluate
  else
    match s.value with
    | .error f => .error f
    | .ok (.breaks s) => s.evaluate
    | .ok (.continues s) => .ok (.continues s)

/-! ## Every turn of the loop reads on -/

instance (token : Token) : Decidable token.Reads := inferInstanceAs (Decidable (_ ∧ _))

def State.size (s : State) : Nat :=
  s.lexer.rest.length + if s.skipToStateEvaluation = true ∨ s.lastToken.Reads then 1 else 0

section

variable {s s' : State}

theorem getToken_size (hSkip : s.skipToStateEvaluation = false) :
    s.getToken.size ≤ s.lexer.rest.length := by
  obtain ⟨hLe, hLt⟩ := scan_length s.lexer
  rw [State.size, State.getToken]
  dsimp only
  split
  · rename_i hReads
    exact hLt (hReads.resolve_left (by rw [hSkip]; exact Bool.false_ne_true))
  · exact hLe

theorem getToken_length (s : State) : s.getToken.lexer.rest.length ≤ s.lexer.rest.length :=
  (scan_length s.lexer).1

theorem getToken_lt (h : s.getToken.lastToken.Reads) :
    s.getToken.lexer.rest.length < s.lexer.rest.length := (scan_length s.lexer).2 h

theorem reads_of_type {token : Token} {type : TokenType} (h : token.type = type)
    (hError : type ≠ .parseError) (hEnd : type ≠ .endOfInput) : token.Reads :=
  ⟨h ▸ hError, h ▸ hEnd⟩

theorem key_length (h : s.key = .ok s') : s'.lexer.rest.length < s.lexer.rest.length ∧
    s'.skipToStateEvaluation = s.skipToStateEvaluation := by
  rw [State.key] at h
  split at h
  · split at h
    · cases h
    · dsimp only at h
      split at h
      · rename_i hType
        cases h
        exact ⟨getToken_lt (reads_of_type hType (by decide) (by decide)), rfl⟩
      · cases h
  · cases h

theorem withDom_breaks {dom : Option Dom} (h : s.withDom dom = .ok (.breaks s')) :
    ∃ dom', dom = some dom' ∧ s' = { s with dom := dom' } := by
  cases dom with
  | none => cases h
  | some dom =>
    cases h
    exact ⟨dom, rfl, rfl⟩

theorem withDom_ne_continues {dom : Option Dom} (h : s.withDom dom = .ok (.continues s')) : False := by
  cases dom <;> cases h

theorem beginObject_continues (hSkip : s.skipToStateEvaluation = false)
    (h : s.beginObject = .ok (.continues s')) : s'.size < s.lexer.rest.length := by
  rw [State.beginObject] at h
  split at h
  · cases h
  · rename_i dom _
    dsimp only at h
    split at h
    · exact absurd h withDom_ne_continues
    · split at h
      · cases h
      · rename_i s₁ hKey
        cases h
        obtain ⟨hLength, hSkip'⟩ := key_length hKey
        have hFirst := getToken_length { s with dom := dom }
        have hLast := getToken_size (s := { s₁ with states := false :: s₁.states }) (hSkip'.trans hSkip)
        exact hLast.trans_lt (hLength.trans_le hFirst)

theorem beginArray_continues (hSkip : s.skipToStateEvaluation = false)
    (h : s.beginArray = .ok (.continues s')) : s'.size ≤ s.lexer.rest.length := by
  rw [State.beginArray] at h
  split at h
  · cases h
  · rename_i dom _
    dsimp only at h
    split at h
    · exact absurd h withDom_ne_continues
    · cases h
      exact getToken_size (s := { s with dom := dom }) hSkip

/-- The input that is left gets no longer, and the loop is at the same place. -/
def Behind (s s' : State) : Prop :=
  s'.lexer.rest.length ≤ s.lexer.rest.length ∧ s'.skipToStateEvaluation = s.skipToStateEvaluation

theorem withDom_behind {dom : Option Dom} (h : s.withDom dom = .ok (.breaks s')) : Behind s s' := by
  obtain ⟨dom', _, rfl⟩ := withDom_breaks h
  exact ⟨Nat.le_refl _, rfl⟩

theorem container_behind {dom : Dom} {closed : Option Dom}
    (h : ({ s with dom := dom }.getToken).withDom closed = .ok (.breaks s')) : Behind s s' := by
  obtain ⟨hLength, hSkip⟩ := withDom_behind h
  exact ⟨hLength.trans (getToken_length { s with dom := dom }), hSkip⟩

theorem beginObject_breaks (h : s.beginObject = .ok (.breaks s')) : Behind s s' := by
  rw [State.beginObject] at h
  split at h
  · cases h
  · dsimp only at h
    split at h
    · exact container_behind h
    · split at h <;> cases h

theorem beginArray_breaks (h : s.beginArray = .ok (.breaks s')) : Behind s s' := by
  rw [State.beginArray] at h
  split at h
  · cases h
  · dsimp only at h
    split at h
    · exact container_behind h
    · cases h

/-- Only at a token to read on behind there is a value. -/
theorem value_reads {parsed : Parsed} (h : s.value = .ok parsed) : s.lastToken.Reads := by
  rw [State.value] at h
  split at h
  case h_12 => cases h
  all_goals
    rename_i hToken
    rw [hToken]
  case h_10 => cases h
  case h_11 => split at h <;> cases h
  all_goals exact ⟨TokenType.noConfusion, TokenType.noConfusion⟩

theorem value_breaks (h : s.value = .ok (.breaks s')) : Behind s s' := by
  rw [State.value] at h
  split at h
  case h_1 => exact beginObject_breaks h
  case h_2 => exact beginArray_breaks h
  case h_3 =>
    split at h
    · exact withDom_behind h
    · cases h
  case h_10 => cases h
  case h_11 => split at h <;> cases h
  case h_12 => cases h
  all_goals exact withDom_behind h

theorem value_continues (hSkip : s.skipToStateEvaluation = false)
    (h : s.value = .ok (.continues s')) : s'.size ≤ s.lexer.rest.length := by
  rw [State.value] at h
  split at h
  case h_1 => exact (beginObject_continues hSkip h).le
  case h_2 => exact beginArray_continues hSkip h
  case h_3 =>
    split at h
    · exact absurd h withDom_ne_continues
    · cases h
  case h_10 => cases h
  case h_11 => split at h <;> cases h
  case h_12 => cases h
  all_goals exact absurd h withDom_ne_continues

theorem close_continues {states : List Bool} {dom : Option Dom}
    (h : s.close states dom = .ok (.continues s')) : s'.size ≤ s.lexer.rest.length + 1 := by
  cases dom with
  | none => cases h
  | some dom =>
    cases h
    rw [State.size, if_pos (Or.inl rfl)]

theorem evaluate_continues (hSkip : s.skipToStateEvaluation = false)
    (h : s.evaluate = .ok (.continues s')) : s'.size ≤ s.lexer.rest.length := by
  have hClose : ∀ {states : List Bool} {dom : Option Dom} {type : TokenType},
      s.getToken.lastToken.type = type → type ≠ .parseError → type ≠ .endOfInput →
      s.getToken.close states dom = .ok (.continues s') → s'.size ≤ s.lexer.rest.length := by
    intro states dom type hType hError hEnd hClose
    have hLess := getToken_lt (reads_of_type hType hError hEnd)
    exact (close_continues hClose).trans hLess
  rw [State.evaluate] at h
  split at h
  · cases h
  · dsimp only at h
    split at h
    · rename_i hType
      cases h
      have hLess := getToken_lt (reads_of_type hType (by decide) (by decide))
      exact (getToken_size (s := s.getToken) hSkip).trans hLess.le
    · split at h
      · rename_i hType
        exact hClose hType (by decide) (by decide) h
      · cases h
  · dsimp only at h
    split at h
    · rename_i hType
      have hLess := getToken_lt (reads_of_type hType (by decide) (by decide))
      split at h
      · cases h
      · rename_i hKey
        cases h
        obtain ⟨hLength, hSkip'⟩ := key_length hKey
        have hNext := getToken_length s.getToken
        exact (getToken_size (hSkip'.trans hSkip)).trans (hLength.le.trans (hNext.trans hLess.le))
    · split at h
      · rename_i hType
        exact hClose hType (by decide) (by decide) h
      · cases h

theorem step_size (h : s.step = .ok (.continues s')) : s'.size < s.size := by
  rw [State.step] at h
  rw [State.size.eq_1 s]
  split at h
  · rename_i hSkip
    rw [if_pos (Or.inl hSkip)]
    exact Nat.lt_succ_of_le
      (evaluate_continues (s := { s with skipToStateEvaluation := false }) rfl h)
  · rename_i hSkip
    rw [Bool.not_eq_true] at hSkip
    split at h
    · cases h
    · rename_i s₁ hValue
      obtain ⟨hLength, hSkip'⟩ := value_breaks hValue
      rw [if_pos (Or.inr (value_reads hValue))]
      exact Nat.lt_succ_of_le ((evaluate_continues (hSkip'.trans hSkip) h).trans hLength)
    · rename_i s₁ hValue
      cases h
      rw [if_pos (Or.inr (value_reads hValue))]
      exact Nat.lt_succ_of_le (value_continues hSkip hValue)

end

/-! ## Parsing -/

/-- `sax_parse_internal`. -/
def State.run (s : State) : Except Failure State :=
  match _h : s.step with
  | .error f => .error f
  | .ok (.returns s) => .ok s
  | .ok (.continues s) => s.run
termination_by s.size
decreasing_by exact step_size _h

/-- The parser when it has been made, with the first token. -/
def State.start (input : Bytes) : State :=
  let scanned := (⟨input, 0⟩ : Lexer.State).scan
  ⟨scanned.2, scanned.1, ⟨.null, []⟩, [], false⟩

def parse (input : Bytes) : Except Failure Json :=
  match (State.start input).run with
  | .error f => .error f
  | .ok s =>
    let s := s.getToken
    if s.lastToken.type = .endOfInput then .ok s.dom.root else .error (s.parseError .endOfInput "value")

example : ((parse (ascii " [1, \"\\u00e9\", null]")).map Json.isString).isOk = true := by decide +kernel

end OpcConfig.Parser
