import OpcConfig.Parser

/-! # Every text of the grammar is parsed

A value of the grammar takes the loop from the token it begins with to the
evaluation of the state behind it, with the value in its place.
-/

namespace OpcConfig.Parser

set_option autoImplicit false

open CString Lexer Grammar

/-! ## Turns of the loop -/

section

variable {s s' : State}

theorem run_continues (h : s.step = .ok (.continues s')) : s.run = s'.run := by
  rw [State.run]
  split
  · rename_i hError
    rw [h] at hError
    cases hError
  · rename_i hReturns
    rw [h] at hReturns
    cases hReturns
  · rename_i hContinues
    rw [h] at hContinues
    cases hContinues
    rfl

theorem run_returns (h : s.step = .ok (.returns s')) : s.run = .ok s' := by
  rw [State.run]
  split
  · rename_i hError
    rw [h] at hError
    cases hError
  · rename_i hReturns
    rw [h] at hReturns
    cases hReturns
    rfl
  · rename_i hContinues
    rw [h] at hContinues
    cases hContinues

theorem run_congr (h : s.step = s'.step) : s.run = s'.run := by
  cases hStep : s'.step with
  | error f =>
    rw [State.run, State.run]
    split <;> split <;> simp_all
  | ok evaluated =>
    cases evaluated with
    | continues t => rw [run_continues hStep, run_continues (h.trans hStep)]
    | returns t => rw [run_returns hStep, run_returns (h.trans hStep)]

/-- Before the first token of a value, with `text` not read yet. -/
structure Enters (s : State) (text : Bytes) (dom : Dom) (states : List Bool) : Prop where
  token : ∃ l : Lexer.State, l.rest = text ∧ l.skipWhitespace.token = (s.lastToken, s.lexer)
  dom : s.dom = dom
  states : s.states = states
  skip : s.skipToStateEvaluation = false

/-- Behind a value, with `rest` not read yet. -/
structure Leaves (s : State) (rest : Bytes) (dom : Dom) (states : List Bool) : Prop where
  lexer : At s.lexer rest
  dom : s.dom = dom
  states : s.states = states
  skip : s.skipToStateEvaluation = true

theorem scan_of_at {l : Lexer.State} {rest : Bytes} (h : At l rest) : l.scan = l.skipWhitespace.token := by
  rw [Lexer.State.scan, if_neg h.started]

theorem run_breaks (h : s.value = .ok (.breaks s')) (hSkip : s.skipToStateEvaluation = false) :
    s.run = ({ s' with skipToStateEvaluation := true } : State).run := by
  have hSkip' := (value_breaks h).2.trans hSkip
  apply run_congr
  rw [State.step, State.step, hSkip, h]
  dsimp only
  rw [if_neg Bool.false_ne_true, if_pos rfl, ← hSkip']

/-- A value that is one token. -/
theorem scalar_complete {dom dom' : Dom} {states : List Bool} {rest : Bytes} {v : Json}
    (hLexer : At s.lexer rest) (hDom : s.dom = dom) (hStates : s.states = states)
    (hSkip : s.skipToStateEvaluation = false)
    (hValue : s.value = s.withDom (s.dom.handleValue v)) (hHandle : dom.handleValue v = some dom') :
    ∃ s', Leaves s' rest dom' states ∧ s.run = s'.run := by
  rw [hDom, hHandle] at hValue
  exact ⟨{ s with dom := dom', skipToStateEvaluation := true }, ⟨hLexer, rfl, hStates, rfl⟩,
    run_breaks hValue hSkip⟩

theorem step_of_skip (hSkip : s.skipToStateEvaluation = true) :
    s.step = ({ s with skipToStateEvaluation := false } : State).evaluate := by
  rw [State.step, if_pos hSkip]

/-- The next token is the one behind the blanks. -/
theorem getToken_at {b rest : Bytes} {current : UInt8} (hLexer : At s.lexer (b ++ current :: rest))
    (hb : Blanks b) (hCurrent : blank current = false) :
    s.getToken.lastToken = (scanToken current rest).1 ∧
      At s.getToken.lexer (scanToken current rest).2 := by
  obtain ⟨l', hToken, hAt⟩ := token_cons hb hCurrent hLexer.rest
  rw [State.getToken, scan_of_at hLexer, hToken]
  exact ⟨rfl, hAt⟩

theorem getToken_enters {text : Bytes} {dom : Dom} {states : List Bool} (hLexer : At s.lexer text)
    (hDom : s.dom = dom) (hStates : s.states = states) (hSkip : s.skipToStateEvaluation = false) :
    Enters s.getToken text dom states := by
  refine ⟨⟨s.lexer, hLexer.rest, ?_⟩, hDom, hStates, hSkip⟩
  rw [← scan_of_at hLexer]
  rfl

end

/-! ## First bytes -/

theorem number_first_byte {t : Bytes} {j : Json} (h : Number t j) :
    ∃ c u, t = c :: u ∧ (c = 45 ∨ Strtod.isDigit c = true) := by
  cases h with
  | integer hText _ =>
    have hCons := cons_number hText
    rwa [List.append_nil, List.append_nil] at hCons
  | double hText _ _ => exact cons_number hText

theorem number_byte : ∀ n < 256, UInt8.ofNat n = 45 ∨ Strtod.isDigit (UInt8.ofNat n) = true →
    UInt8.ofNat n ≠ 93 ∧ UInt8.ofNat n ≠ 0xEF := by decide +kernel

/-- The first byte of a value is no blank, no bracket that closes and no byte
order mark. -/
theorem value_first {t : Bytes} {j : Json} (h : Value t j) :
    ∃ c u, t = c :: u ∧ blank c = false ∧ c ≠ 93 ∧ c ≠ 0xEF := by
  cases h with
  | literalNull => exact ⟨110, _, rfl, by decide⟩
  | literalTrue => exact ⟨116, _, rfl, by decide⟩
  | literalFalse => exact ⟨102, _, rfl, by decide⟩
  | number hNumber =>
    obtain ⟨c, u, rfl, hc⟩ := number_first_byte hNumber
    have hByte := number_byte c.toNat c.toNat_lt
    rw [UInt8.ofNat_toNat] at hByte
    exact ⟨c, u, rfl, (scanToken_number hc []).1, hByte hc⟩
  | string hString =>
    cases hString with
    | mk hChars => exact ⟨34, _, rfl, by decide⟩
  | emptyArray hb => exact ⟨91, _, rfl, by decide⟩
  | array hb hValue hElements => exact ⟨91, _, rfl, by decide⟩
  | emptyObject hb => exact ⟨123, _, rfl, by decide⟩
  | object hb hMember hMembers => exact ⟨123, _, rfl, by decide⟩

theorem scanToken_endArray {c : UInt8} {rest : Bytes} (h : (scanToken c rest).1.type = .endArray) :
    c = 93 := by
  have hToken : (scanToken c rest).1 = .endArray := by
    cases hToken : (scanToken c rest).1 <;> rw [hToken] at h <;> first | rfl | cases h
  obtain ⟨t, hText, hSplit⟩ := scanToken_sound (Prod.ext hToken rfl)
    ⟨TokenType.noConfusion, TokenType.noConfusion⟩ (fun _ h => Token.noConfusion h)
  cases hText
  exact (List.cons.inj hSplit).1

theorem stops_blank {c : UInt8} (h : blank c = true) :
    Strtod.isDigit c = false ∧ c ≠ 46 ∧ c ≠ 101 ∧ c ≠ 69 := by
  have hAll : ∀ n < 256, blank (UInt8.ofNat n) = true → Strtod.isDigit (UInt8.ofNat n) = false ∧
      UInt8.ofNat n ≠ 46 ∧ UInt8.ofNat n ≠ 101 ∧ UInt8.ofNat n ≠ 69 := by decide +kernel
  have hByte := hAll c.toNat c.toNat_lt
  rw [UInt8.ofNat_toNat] at hByte
  exact hByte h

theorem stops_cons {b rest : Bytes} {c : UInt8} (hb : Blanks b) (hc : c = 44 ∨ c = 93 ∨ c = 125) :
    Stops (b ++ c :: rest) := by
  intro d hd
  cases b with
  | nil =>
    cases hd
    rcases hc with rfl | rfl | rfl <;> decide
  | cons e b =>
    cases hd
    exact stops_blank (hb _ List.mem_cons_self)

theorem elements_stops {u : Bytes} {js : List Json} (h : Elements u js) (rest : Bytes) :
    Stops (u ++ rest) := by
  cases h with
  | nil hb =>
    rw [List.append_assoc]
    exact stops_cons hb (Or.inr (Or.inl rfl))
  | cons hb hb' hValue hElements =>
    rw [List.append_assoc]
    exact stops_cons hb (Or.inl rfl)

theorem members_stops {u : Bytes} {members : List (Bytes × Json)} (h : Members u members)
    (rest : Bytes) : Stops (u ++ rest) := by
  cases h with
  | nil hb =>
    rw [List.append_assoc]
    exact stops_cons hb (Or.inr (Or.inr rfl))
  | cons hb hb' hMember hMembers =>
    rw [List.append_assoc]
    exact stops_cons hb (Or.inl rfl)

/-! ## The frames -/

theorem handleValue_isSome (dom : Dom) (v w : Json) :
    (dom.handleValue v).isSome = (dom.handleValue w).isSome := by
  rw [Dom.handleValue, Dom.handleValue]
  split <;> rfl

theorem exists_handleValue {dom dom' : Dom} {v : Json} (h : dom.handleValue v = some dom') (w : Json) :
    ∃ dom'', dom.handleValue w = some dom'' := by
  rw [← Option.isSome_iff_exists, handleValue_isSome dom w v, h]
  rfl

theorem startArray_eq {dom dom' : Dom} {v : Json} (h : dom.handleValue v = some dom') :
    dom.startArray = some ⟨dom.root, .array [] :: dom.refStack⟩ := by
  obtain ⟨_, hStart⟩ := exists_handleValue h (.array [])
  rw [Dom.startArray, hStart]
  rfl

theorem startObject_eq {dom dom' : Dom} {v : Json} (h : dom.handleValue v = some dom') :
    dom.startObject = some ⟨dom.root, .object [] none :: dom.refStack⟩ := by
  obtain ⟨_, hStart⟩ := exists_handleValue h (.object [])
  rw [Dom.startObject, hStart]
  rfl

theorem insertSorted_insertSorted (key : Bytes) (v w : Json) (fields : List (Bytes × Json)) :
    insertSorted key v (insertSorted key w fields) = insertSorted key v fields := by
  induction fields with
  | nil => simp [insertSorted]
  | cons field fields ih =>
    obtain ⟨key', value'⟩ := field
    rw [insertSorted, insertSorted]
    split
    · simp [insertSorted]
    · rename_i hLess
      split
      · simp [insertSorted]
      · rename_i hNe
        rw [insertSorted, if_neg hLess, if_neg hNe, ih]

theorem insertSorted_touchSorted (key : Bytes) (v : Json) (fields : List (Bytes × Json)) :
    insertSorted key v (touchSorted key fields) = insertSorted key v fields := by
  rw [touchSorted]
  split
  · rfl
  · exact insertSorted_insertSorted key v .null fields

/-! ## Closing and keys -/

section

variable {s : State} {rest : Bytes} {dom' : Dom} {root : Json} {refStack : List Frame}
  {states : List Bool}

theorem close_array {b : Bytes} {elements : List Json} (hb : Blanks b)
    (h : Leaves s (b ++ 93 :: rest) ⟨root, .array elements :: refStack⟩ (true :: states))
    (hHandle : Dom.handleValue (.array elements) ⟨root, refStack⟩ = some dom') :
    ∃ s', Leaves s' rest dom' states ∧ s.run = s'.run := by
  obtain ⟨hLexer, hDom, hStates, hSkip⟩ := h
  let s₀ : State := { s with skipToStateEvaluation := false }
  obtain ⟨hToken, hNext⟩ := getToken_at (s := s₀) hLexer hb rfl
  have hType : s₀.getToken.lastToken.type = .endArray := congrArg Token.type hToken
  have hEnd : s₀.getToken.dom.endArray = some dom' := by
    change s.dom.endArray = some dom'
    rw [hDom]
    exact hHandle
  refine ⟨{ s₀.getToken with dom := dom', states := states, skipToStateEvaluation := true },
    ⟨hNext, rfl, rfl, rfl⟩, run_continues ?_⟩
  rw [step_of_skip hSkip, evaluate_array (s := s₀) hStates, if_neg (by rw [hType]; decide),
    if_pos hType, hEnd]
  rfl

theorem close_object {b : Bytes} {fields : List (Bytes × Json)} {element : Option Bytes} (hb : Blanks b)
    (h : Leaves s (b ++ 125 :: rest) ⟨root, .object fields element :: refStack⟩ (false :: states))
    (hHandle : Dom.handleValue (.object fields) ⟨root, refStack⟩ = some dom') :
    ∃ s', Leaves s' rest dom' states ∧ s.run = s'.run := by
  obtain ⟨hLexer, hDom, hStates, hSkip⟩ := h
  let s₀ : State := { s with skipToStateEvaluation := false }
  obtain ⟨hToken, hNext⟩ := getToken_at (s := s₀) hLexer hb rfl
  have hType : s₀.getToken.lastToken.type = .endObject := congrArg Token.type hToken
  have hEnd : s₀.getToken.dom.endObject = some dom' := by
    change s.dom.endObject = some dom'
    rw [hDom]
    exact hHandle
  refine ⟨{ s₀.getToken with dom := dom', states := states, skipToStateEvaluation := true },
    ⟨hNext, rfl, rfl, rfl⟩, run_continues ?_⟩
  rw [step_of_skip hSkip, evaluate_object (s := s₀) hStates, if_neg (by rw [hType]; decide),
    if_pos hType, hEnd]
  rfl

theorem comma_array {b text : Bytes} {dom : Dom} (hb : Blanks b)
    (h : Leaves s (b ++ 44 :: text) dom (true :: states)) :
    ∃ s', Enters s' text dom (true :: states) ∧ s.run = s'.run := by
  obtain ⟨hLexer, hDom, hStates, hSkip⟩ := h
  let s₀ : State := { s with skipToStateEvaluation := false }
  obtain ⟨hToken, hNext⟩ := getToken_at (s := s₀) hLexer hb rfl
  have hType : s₀.getToken.lastToken.type = .valueSeparator := congrArg Token.type hToken
  refine ⟨s₀.getToken.getToken, getToken_enters hNext hDom hStates rfl, run_continues ?_⟩
  rw [step_of_skip hSkip, evaluate_array (s := s₀) hStates, if_pos hType]

/-- The text of a key and the blanks and separator behind it. -/
theorem key_complete {b text key : Bytes} {fields : List (Bytes × Json)} {element : Option Bytes}
    (hb : Blanks b) (hToken : s.lastToken = .valueString key) (hLexer : At s.lexer (b ++ 58 :: text))
    (hDom : s.dom = ⟨root, .object fields element :: refStack⟩) :
    ∃ s', s.key = .ok s' ∧ At s'.lexer text ∧
      s'.dom = ⟨root, .object (touchSorted key fields) (some key) :: refStack⟩ ∧
      s'.states = s.states ∧ s'.skipToStateEvaluation = s.skipToStateEvaluation := by
  obtain ⟨lexer, lastToken, dom, states, skip⟩ := s
  obtain rfl : lastToken = .valueString key := hToken
  obtain rfl : dom = ⟨root, .object fields element :: refStack⟩ := hDom
  let s₁ : State := ⟨lexer, .valueString key,
    ⟨root, .object (touchSorted key fields) (some key) :: refStack⟩, states, skip⟩
  obtain ⟨hSeparator, hNext⟩ := getToken_at (s := s₁) hLexer hb rfl
  have hType : s₁.getToken.lastToken.type = .nameSeparator := congrArg Token.type hSeparator
  refine ⟨s₁.getToken, ?_, hNext, rfl, rfl, rfl⟩
  change (if s₁.getToken.lastToken.type = .nameSeparator then _ else _) = _
  rw [if_pos hType]

theorem step_of_continues {s' : State} (hSkip : s.skipToStateEvaluation = false)
    (h : s.value = .ok (.continues s')) : s.step = .ok (.continues s') := by
  rw [State.step, hSkip, h]
  rfl

theorem Enters.first {b text : Bytes} {c : UInt8} {dom : Dom} (h : Enters s (b ++ c :: text) dom states)
    (hb : Blanks b) (hc : blank c = false) :
    s.lastToken = (scanToken c text).1 ∧ At s.lexer (scanToken c text).2 := by
  obtain ⟨l, hl, hToken⟩ := h.token
  obtain ⟨l', hToken', hAt⟩ := token_cons hb hc hl
  obtain ⟨hFirst, rfl⟩ := Prod.mk.inj (hToken.symm.trans hToken')
  exact ⟨hFirst, hAt⟩

theorem Enters.states_eq {text : Bytes} {dom : Dom} (h : Enters s text dom states)
    (states' : List Bool) : Enters { s with states := states' } text dom states' :=
  ⟨h.token, h.dom, rfl, h.skip⟩

/-- A key, its separator and the blanks around. -/
theorem Enters.key {b k b' text key : Bytes} {fields : List (Bytes × Json)} {element : Option Bytes}
    (h : Enters s (b ++ (k ++ (b' ++ 58 :: text))) ⟨root, .object fields element :: refStack⟩ states)
    (hb : Blanks b) (hk : StringText k key) (hb' : Blanks b') :
    s.lastToken = .valueString key ∧ ∃ s', s.key = .ok s' ∧ At s'.lexer text ∧
      s'.dom = ⟨root, .object (touchSorted key fields) (some key) :: refStack⟩ ∧
      s'.states = states ∧ s'.skipToStateEvaluation = false := by
  obtain ⟨l, hl, hToken⟩ := h.token
  obtain ⟨l', hToken', hAt⟩ := token_string hb hk hl
  obtain ⟨hKey, rfl⟩ := Prod.mk.inj (hToken.symm.trans hToken')
  have hComplete := key_complete hb' hKey hAt h.dom
  rw [h.states, h.skip] at hComplete
  exact ⟨hKey, hComplete⟩

theorem comma_object {b b₁ k b₂ text key : Bytes} {fields : List (Bytes × Json)}
    {element : Option Bytes} (hb : Blanks b) (hb₁ : Blanks b₁) (hk : StringText k key) (hb₂ : Blanks b₂)
    (h : Leaves s (b ++ 44 :: (b₁ ++ (k ++ (b₂ ++ 58 :: text)))) ⟨root, .object fields element :: refStack⟩
      (false :: states)) :
    ∃ s', Enters s' text ⟨root, .object (touchSorted key fields) (some key) :: refStack⟩
      (false :: states) ∧ s.run = s'.run := by
  obtain ⟨hLexer, hDom, hStates, hSkip⟩ := h
  let s₀ : State := { s with skipToStateEvaluation := false }
  obtain ⟨hToken, hNext⟩ := getToken_at (s := s₀) hLexer hb rfl
  have hType : s₀.getToken.lastToken.type = .valueSeparator := congrArg Token.type hToken
  have hEnters := getToken_enters (s := s₀.getToken) hNext hDom hStates rfl
  obtain ⟨_, s₁, hKey, hAt, hDom₁, hStates₁, hSkip₁⟩ := hEnters.key hb₁ hk hb₂
  refine ⟨s₁.getToken, getToken_enters hAt hDom₁ hStates₁ hSkip₁, run_continues ?_⟩
  rw [step_of_skip hSkip, evaluate_object (s := s₀) hStates, if_pos hType, hKey]

/-- The bracket of an array whose first value follows. -/
theorem open_array {b b' t text : Bytes} {dom : Dom} {j v : Json} (hb : Blanks b) (hb' : Blanks b')
    (h : Value t j) (hEnters : Enters s (b ++ 91 :: (b' ++ (t ++ text))) dom states)
    (hHandle : dom.handleValue v = some dom') :
    ∃ s', Enters s' (b' ++ (t ++ text)) ⟨dom.root, .array [] :: dom.refStack⟩ (true :: states) ∧
      s.run = s'.run := by
  obtain ⟨c, u, rfl, hBlank, hEnd, _⟩ := value_first h
  obtain ⟨hToken, hLexer⟩ := hEnters.first hb rfl
  have hDom := hEnters.dom
  subst hDom
  let s₁ : State := { s with dom := ⟨s.dom.root, .array [] :: s.dom.refStack⟩ }
  have hFirst : Enters s₁.getToken _ _ states := getToken_enters (s := s₁) hLexer rfl hEnters.states hEnters.skip
  have hType : s₁.getToken.lastToken.type ≠ .endArray := by
    rw [(hFirst.first hb' hBlank).1]
    exact fun h => hEnd (scanToken_endArray h)
  refine ⟨{ s₁.getToken with states := true :: s₁.getToken.states }, ?_, ?_⟩
  · have hStates : s₁.getToken.states = states := hEnters.states
    rw [hStates]
    exact hFirst.states_eq (true :: states)
  · apply run_continues
    apply step_of_continues hEnters.skip
    have hValue : s.value = s.beginArray := by
      rw [State.value, hToken]
      rfl
    rw [hValue, State.beginArray, startArray_eq hHandle]
    change (if s₁.getToken.lastToken.type = .endArray then _ else _) = _
    rw [if_neg hType]

/-- The brace of an object whose first field follows. -/
theorem open_object {b b₁ k b₂ text key : Bytes} {dom : Dom} {v : Json} (hb : Blanks b)
    (hb₁ : Blanks b₁) (hk : StringText k key) (hb₂ : Blanks b₂)
    (hEnters : Enters s (b ++ 123 :: (b₁ ++ (k ++ (b₂ ++ 58 :: text)))) dom states)
    (hHandle : dom.handleValue v = some dom') :
    ∃ s', Enters s' text ⟨dom.root, .object (touchSorted key []) (some key) :: dom.refStack⟩
      (false :: states) ∧ s.run = s'.run := by
  obtain ⟨hToken, hLexer⟩ := hEnters.first hb rfl
  have hDom := hEnters.dom
  subst hDom
  let s₁ : State := { s with dom := ⟨s.dom.root, .object [] none :: s.dom.refStack⟩ }
  have hFirst : Enters s₁.getToken _ _ states :=
    getToken_enters (s := s₁) hLexer rfl hEnters.states hEnters.skip
  obtain ⟨hString, s₂, hKey, hAt, hDom₂, hStates₂, hSkip₂⟩ := hFirst.key hb₁ hk hb₂
  have hType : s₁.getToken.lastToken.type ≠ .endObject := by
    rw [hString]
    exact TokenType.noConfusion
  refine ⟨({ s₂ with states := false :: s₂.states } : State).getToken,
    getToken_enters (s := { s₂ with states := false :: s₂.states }) hAt hDom₂ (by rw [hStates₂]) hSkip₂,
    run_continues (step_of_continues hEnters.skip ?_)⟩
  have hValue : s.value = s.beginObject := by
    rw [State.value, hToken]
    rfl
  rw [hValue, State.beginObject, startObject_eq hHandle]
  change (if s₁.getToken.lastToken.type = .endObject then _ else _) = _
  rw [if_neg hType, hKey]

theorem empty_array {b b' : Bytes} {dom : Dom} (hb : Blanks b) (hb' : Blanks b')
    (hEnters : Enters s (b ++ 91 :: (b' ++ 93 :: rest)) dom states)
    (hHandle : dom.handleValue (.array []) = some dom') :
    ∃ s', Leaves s' rest dom' states ∧ s.run = s'.run := by
  obtain ⟨hToken, hLexer⟩ := hEnters.first hb rfl
  have hDom := hEnters.dom
  subst hDom
  let s₁ : State := { s with dom := ⟨s.dom.root, .array [] :: s.dom.refStack⟩ }
  obtain ⟨hEnd, hNext⟩ := getToken_at (s := s₁) hLexer hb' rfl
  have hType : s₁.getToken.lastToken.type = .endArray := congrArg Token.type hEnd
  have hClose : s₁.getToken.dom.endArray = some dom' := hHandle
  refine ⟨{ s₁.getToken with dom := dom', skipToStateEvaluation := true },
    ⟨hNext, rfl, hEnters.states, rfl⟩,
    run_breaks (?_ : s.value = .ok (.breaks { s₁.getToken with dom := dom' })) hEnters.skip⟩
  have hValue : s.value = s.beginArray := by
    rw [State.value, hToken]
    rfl
  rw [hValue, State.beginArray, startArray_eq hHandle]
  change (if s₁.getToken.lastToken.type = .endArray then _ else _) = _
  rw [if_pos hType, hClose]
  rfl

theorem empty_object {b b' : Bytes} {dom : Dom} (hb : Blanks b) (hb' : Blanks b')
    (hEnters : Enters s (b ++ 123 :: (b' ++ 125 :: rest)) dom states)
    (hHandle : dom.handleValue (.object []) = some dom') :
    ∃ s', Leaves s' rest dom' states ∧ s.run = s'.run := by
  obtain ⟨hToken, hLexer⟩ := hEnters.first hb rfl
  have hDom := hEnters.dom
  subst hDom
  let s₁ : State := { s with dom := ⟨s.dom.root, .object [] none :: s.dom.refStack⟩ }
  obtain ⟨hEnd, hNext⟩ := getToken_at (s := s₁) hLexer hb' rfl
  have hType : s₁.getToken.lastToken.type = .endObject := congrArg Token.type hEnd
  have hClose : s₁.getToken.dom.endObject = some dom' := hHandle
  refine ⟨{ s₁.getToken with dom := dom', skipToStateEvaluation := true },
    ⟨hNext, rfl, hEnters.states, rfl⟩,
    run_breaks (?_ : s.value = .ok (.breaks { s₁.getToken with dom := dom' })) hEnters.skip⟩
  have hValue : s.value = s.beginObject := by
    rw [State.value, hToken]
    rfl
  rw [hValue, State.beginObject, startObject_eq hHandle]
  change (if s₁.getToken.lastToken.type = .endObject then _ else _) = _
  rw [if_pos hType, hClose]
  rfl

/-! ## Scalars -/

theorem literal_complete (literalText : Bytes) (token : Token) {b : Bytes} {c : UInt8} {v : Json}
    {dom : Dom} (hb : Blanks b) (hc : blank c = false)
    (hScan : ∀ rest, scanToken c rest = scanLiteral literalText token rest)
    (hValue : ∀ s : State, s.lastToken = token → s.value = s.withDom (s.dom.handleValue v))
    (hEnters : Enters s (b ++ (c :: (literalText ++ rest))) dom states)
    (hHandle : dom.handleValue v = some dom') : ∃ s', Leaves s' rest dom' states ∧ s.run = s'.run := by
  obtain ⟨hToken, hLexer⟩ := hEnters.first hb hc
  have hText : scanLiteral literalText token (literalText ++ rest) = (token, rest) := by
    rw [scanLiteral, if_pos (List.prefix_append _ _), List.drop_left]
  rw [hScan, hText] at hToken hLexer
  exact scalar_complete hLexer hEnters.dom hEnters.states hEnters.skip (hValue s hToken) hHandle

theorem value_of_number {v : Json} (h : s.lastToken.number = some v) :
    s.value = s.withDom (s.dom.handleValue v) := by
  rw [State.value]
  cases hToken : s.lastToken <;> rw [hToken] at h <;> try cases h
  · rfl
  · rfl
  · rw [Token.number] at h
    split at h
    · rename_i hFinite
      cases h
      exact if_pos hFinite
    · cases h

theorem number_complete {b t : Bytes} {v : Json} {dom : Dom} (hb : Blanks b) (h : Number t v)
    (hRest : Stops rest) (hEnters : Enters s (b ++ (t ++ rest)) dom states)
    (hHandle : dom.handleValue v = some dom') : ∃ s', Leaves s' rest dom' states ∧ s.run = s'.run := by
  obtain ⟨l, hl, hToken⟩ := hEnters.token
  obtain ⟨token, l', hToken', hAt, hNumber⟩ := token_number hb h hRest hl
  obtain ⟨rfl, rfl⟩ := Prod.mk.inj (hToken.symm.trans hToken')
  exact scalar_complete hAt hEnters.dom hEnters.states hEnters.skip (value_of_number hNumber) hHandle

theorem string_complete {b t m : Bytes} {dom : Dom} (hb : Blanks b) (h : StringText t m)
    (hEnters : Enters s (b ++ (t ++ rest)) dom states)
    (hHandle : dom.handleValue (.string m) = some dom') :
    ∃ s', Leaves s' rest dom' states ∧ s.run = s'.run := by
  obtain ⟨l, hl, hToken⟩ := hEnters.token
  obtain ⟨l', hToken', hAt⟩ := token_string hb h hl
  obtain ⟨hString, rfl⟩ := Prod.mk.inj (hToken.symm.trans hToken')
  have hValue : s.value = s.withDom (s.dom.handleValue (.string m)) := by
    rw [State.value, hString]
  exact scalar_complete hAt hEnters.dom hEnters.states hEnters.skip hValue hHandle

end

/-! ## Values -/

mutual

theorem value_complete {t : Bytes} {j : Json} (h : Value t j) {s : State} {b rest : Bytes}
    {dom dom' : Dom} {states : List Bool} (hb : Blanks b) (hRest : Stops rest)
    (hEnters : Enters s (b ++ (t ++ rest)) dom states) (hHandle : dom.handleValue j = some dom') :
    ∃ s', Leaves s' rest dom' states ∧ s.run = s'.run := by
  match h with
  | .literalNull =>
    exact literal_complete (ascii "ull") .literalNull hb rfl (fun _ => rfl)
      (fun s hToken => by rw [State.value, hToken]) hEnters hHandle
  | .literalTrue =>
    exact literal_complete (ascii "rue") .literalTrue hb rfl (fun _ => rfl)
      (fun s hToken => by rw [State.value, hToken]) hEnters hHandle
  | .literalFalse =>
    exact literal_complete (ascii "alse") .literalFalse hb rfl (fun _ => rfl)
      (fun s hToken => by rw [State.value, hToken]) hEnters hHandle
  | .number hNumber => exact number_complete hb hNumber hRest hEnters hHandle
  | .string hString => exact string_complete hb hString hEnters hHandle
  | .emptyArray hb' =>
    rw [List.cons_append, List.append_assoc] at hEnters
    exact empty_array hb hb' hEnters hHandle
  | @Value.array b' t u j js hb' hValue hElements =>
    rw [List.cons_append, List.append_assoc, List.append_assoc] at hEnters
    obtain ⟨s₁, hEnters₁, hRun₁⟩ := open_array hb hb' hValue hEnters hHandle
    obtain ⟨s₂, hLeaves₂, hRun₂⟩ :=
      value_complete hValue hb' (elements_stops hElements rest) hEnters₁ rfl
    obtain ⟨s₃, hLeaves₃, hRun₃⟩ := elements_complete hElements hLeaves₂ hHandle
    exact ⟨s₃, hLeaves₃, hRun₁.trans (hRun₂.trans hRun₃)⟩
  | .emptyObject hb' =>
    rw [List.cons_append, List.append_assoc] at hEnters
    exact empty_object hb hb' hEnters hHandle
  | @Value.object b' _ u _ members hb' (@Member.mk k b₁ b₂ t key v hk hb₁ hb₂ hValue) hMembers =>
    simp only [List.cons_append, List.append_assoc] at hEnters
    obtain ⟨s₁, hEnters₁, hRun₁⟩ := open_object hb hb' hk hb₁ hEnters hHandle
    obtain ⟨s₂, hLeaves₂, hRun₂⟩ :=
      value_complete hValue hb₂ (members_stops hMembers rest) hEnters₁ rfl
    rw [insertSorted_touchSorted] at hLeaves₂
    obtain ⟨s₃, hLeaves₃, hRun₃⟩ := members_complete hMembers hLeaves₂ hHandle
    exact ⟨s₃, hLeaves₃, hRun₁.trans (hRun₂.trans hRun₃)⟩

theorem elements_complete {u : Bytes} {js : List Json} (h : Elements u js) {s : State} {rest : Bytes}
    {root : Json} {elements : List Json} {refStack : List Frame} {dom' : Dom} {states : List Bool}
    (hLeaves : Leaves s (u ++ rest) ⟨root, .array elements :: refStack⟩ (true :: states))
    (hHandle : Dom.handleValue (.array (elements ++ js)) ⟨root, refStack⟩ = some dom') :
    ∃ s', Leaves s' rest dom' states ∧ s.run = s'.run := by
  match h with
  | .nil hb =>
    rw [List.append_assoc] at hLeaves
    rw [List.append_nil] at hHandle
    exact close_array hb hLeaves hHandle
  | @Elements.cons b b' t u j js hb hb' hValue hElements =>
    rw [List.append_assoc, List.cons_append, List.append_assoc, List.append_assoc] at hLeaves
    rw [List.append_cons] at hHandle
    obtain ⟨s₁, hEnters₁, hRun₁⟩ := comma_array hb hLeaves
    obtain ⟨s₂, hLeaves₂, hRun₂⟩ :=
      value_complete hValue hb' (elements_stops hElements rest) hEnters₁ rfl
    obtain ⟨s₃, hLeaves₃, hRun₃⟩ := elements_complete hElements hLeaves₂ hHandle
    exact ⟨s₃, hLeaves₃, hRun₁.trans (hRun₂.trans hRun₃)⟩

theorem members_complete {u : Bytes} {members : List (Bytes × Json)} (h : Members u members)
    {s : State} {rest : Bytes} {root : Json} {fields : List (Bytes × Json)} {element : Option Bytes}
    {refStack : List Frame} {dom' : Dom} {states : List Bool}
    (hLeaves : Leaves s (u ++ rest) ⟨root, .object fields element :: refStack⟩ (false :: states))
    (hHandle : Dom.handleValue (.object (insertAll fields members)) ⟨root, refStack⟩ = some dom') :
    ∃ s', Leaves s' rest dom' states ∧ s.run = s'.run := by
  match h with
  | .nil hb =>
    rw [List.append_assoc] at hLeaves
    exact close_object hb hLeaves hHandle
  | @Members.cons b b' _ u _ members hb hb' (@Member.mk k b₁ b₂ t key v hk hb₁ hb₂ hValue) hMembers =>
    simp only [List.cons_append, List.append_assoc] at hLeaves
    obtain ⟨s₁, hEnters₁, hRun₁⟩ := comma_object hb hb' hk hb₁ hLeaves
    obtain ⟨s₂, hLeaves₂, hRun₂⟩ :=
      value_complete hValue hb₂ (members_stops hMembers rest) hEnters₁ rfl
    rw [insertSorted_touchSorted] at hLeaves₂
    obtain ⟨s₃, hLeaves₃, hRun₃⟩ := members_complete hMembers hLeaves₂ hHandle
    exact ⟨s₃, hLeaves₃, hRun₁.trans (hRun₂.trans hRun₃)⟩

end

/-! ## Whole texts -/

theorem blanks_nil : Blanks [] := by simp [Blanks]

/-- The first token, behind a byte order mark or none. -/
theorem start_enters {mark text : Bytes} (hMark : mark = [] ∨ mark = [0xEF, 0xBB, 0xBF])
    (hText : text.head? ≠ some 0xEF) : Enters (State.start (mark ++ text)) text ⟨.null, []⟩ [] := by
  rcases hMark with rfl | rfl
  · refine ⟨⟨⟨text, 0⟩, rfl, ?_⟩, rfl, rfl, rfl⟩
    have hBom : (⟨text, 0⟩ : Lexer.State).skipBom = some ⟨text, 0⟩ := by
      rw [Lexer.State.skipBom]
      split
      · rename_i hRest
        obtain rfl : text = _ := hRest
        exact absurd rfl hText
      · rfl
    rw [State.start, List.nil_append, Lexer.State.scan, if_pos rfl, hBom]
  · exact ⟨⟨⟨text, 3⟩, rfl, rfl⟩, rfl, rfl, rfl⟩

theorem head_blank {b : Bytes} {c : UInt8} {u : Bytes} (hb : Blanks b) (hc : c ≠ 0xEF) :
    (b ++ c :: u).head? ≠ some 0xEF := by
  cases b with
  | nil => exact fun h => hc (Option.some.inj h)
  | cons d b =>
    have hd := hb d List.mem_cons_self
    intro h
    rw [Option.some.inj h] at hd
    exact absurd hd (by decide)

theorem stops_end {b rest : Bytes} (hb : Blanks b) (hRest : rest = [] ∨ rest.head? = some 0) :
    Stops (b ++ rest) := by
  intro c hc
  cases b with
  | nil =>
    rw [List.nil_append] at hc
    rcases hRest with rfl | hRest
    · cases hc
    · rw [hRest] at hc
      cases hc
      decide
  | cons d b =>
    cases hc
    exact stops_blank (hb _ List.mem_cons_self)

theorem end_of_input {s : State} {b rest : Bytes} (hLexer : At s.lexer (b ++ rest)) (hb : Blanks b)
    (hRest : rest = [] ∨ rest.head? = some 0) : s.getToken.lastToken = .endOfInput := by
  rcases hRest with rfl | hRest
  · rw [List.append_nil] at hLexer
    obtain ⟨l', hToken, _⟩ := token_nil (l := s.lexer) (by rwa [hLexer.rest])
    rw [State.getToken, scan_of_at hLexer, hToken]
  · obtain ⟨rest', rfl⟩ := List.head?_eq_some_iff.mp hRest
    exact (getToken_at hLexer hb rfl).1

theorem parse_complete {t : Bytes} {j : Json} (h : Text t j) : parse t = .ok j := by
  cases h with
  | @mk mark b t b' rest j hMark hb hValue hb' hRest =>
    obtain ⟨c, u, rfl, _, _, hFirst⟩ := value_first hValue
    have hHead : (b ++ (c :: u ++ (b' ++ rest))).head? ≠ some 0xEF := head_blank hb hFirst
    have hEnters := start_enters hMark hHead
    obtain ⟨s, hLeaves, hRun⟩ := value_complete hValue hb (stops_end hb' hRest) hEnters rfl
    have hReturns : s.run = .ok { s with skipToStateEvaluation := false } := by
      apply run_returns
      rw [step_of_skip hLeaves.skip, State.evaluate]
      dsimp only
      rw [hLeaves.states]
    have hEnd := end_of_input (s := { s with skipToStateEvaluation := false }) hLeaves.lexer hb' hRest
    rw [parse, hRun, hReturns]
    dsimp only
    rw [hEnd]
    change Except.ok s.dom.root = _
    rw [hLeaves.dom]

end OpcConfig.Parser
