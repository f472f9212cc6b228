import OpcConfig.ParserComplete

/-! # What is parsed is a text of the grammar

Read backwards, every turn of the loop puts the text it has read before the text
that the frames still need. No assertion fails on the way.
-/

namespace OpcConfig.Parser

set_option autoImplicit false

open CString Lexer Grammar

/-! ## The frames -/

/-- The next value has a place. -/
def Frame.Open : Frame → Prop
  | .array _ => True
  | .object _ objectElement => objectElement ≠ none

/-- The stacks of the parser and of the values agree. -/
structure Framed (dom : Dom) (states : List Bool) : Prop where
  states : states = dom.refStack.map Frame.isArray
  open_frames : ∀ frame ∈ dom.refStack, frame.Open

theorem Framed.handleValue {dom : Dom} {states : List Bool} (h : Framed dom states) (v : Json) :
    ∃ dom', dom.handleValue v = some dom' ∧ Framed dom' states := by
  obtain ⟨root, refStack⟩ := dom
  obtain ⟨rfl, hOpen⟩ := h
  cases refStack with
  | nil => exact ⟨⟨v, []⟩, rfl, rfl, hOpen⟩
  | cons frame refStack =>
    obtain ⟨hFrame, hRest⟩ := List.forall_mem_cons.mp hOpen
    cases frame with
    | array elements =>
      exact ⟨⟨root, .array (elements ++ [v]) :: refStack⟩, rfl, rfl,
        List.forall_mem_cons.mpr ⟨trivial, hRest⟩⟩
    | object fields element =>
      obtain ⟨key, rfl⟩ := Option.ne_none_iff_exists'.mp hFrame
      exact ⟨⟨root, .object (insertSorted key v fields) (some key) :: refStack⟩, rfl, rfl,
        List.forall_mem_cons.mpr ⟨hFrame, hRest⟩⟩

theorem Framed.tail {root : Json} {frame : Frame} {refStack : List Frame} {b : Bool} {states : List Bool}
    (h : Framed ⟨root, frame :: refStack⟩ (b :: states)) :
    b = frame.isArray ∧ Framed ⟨root, refStack⟩ states := by
  obtain ⟨hStates, hOpen⟩ := h
  obtain ⟨hb, hTail⟩ := List.cons.inj hStates
  exact ⟨hb, hTail, (List.forall_mem_cons.mp hOpen).2⟩

theorem Framed.push {dom : Dom} {states : List Bool} (h : Framed dom states) (frame : Frame)
    (hFrame : frame.Open) :
    Framed ⟨dom.root, frame :: dom.refStack⟩ (frame.isArray :: states) :=
  ⟨by rw [h.states]; rfl, List.forall_mem_cons.mpr ⟨hFrame, h.open_frames⟩⟩

theorem Framed.array {dom : Dom} {states : List Bool} (h : Framed dom (true :: states)) :
    ∃ root elements refStack, dom = ⟨root, .array elements :: refStack⟩ ∧
      Framed ⟨root, refStack⟩ states := by
  obtain ⟨root, refStack⟩ := dom
  cases refStack with
  | nil => cases h.states
  | cons frame refStack =>
    obtain ⟨hFrame, hTail⟩ := h.tail
    cases frame with
    | array elements => exact ⟨root, elements, refStack, rfl, hTail⟩
    | object fields element => cases hFrame

theorem Framed.object {dom : Dom} {states : List Bool} (h : Framed dom (false :: states)) :
    ∃ root fields element refStack, dom = ⟨root, .object fields element :: refStack⟩ ∧
      Framed ⟨root, refStack⟩ states := by
  obtain ⟨root, refStack⟩ := dom
  cases refStack with
  | nil => cases h.states
  | cons frame refStack =>
    obtain ⟨hFrame, hTail⟩ := h.tail
    cases frame with
    | array elements => cases hFrame
    | object fields element => exact ⟨root, fields, element, refStack, rfl, hTail⟩

/-! ## No assertion fails -/

/-- Not undefined, and the frames are kept. -/
def ParsedWell : Except Failure Parsed → Prop
  | .error f => f ≠ .undefined
  | .ok (.breaks s) => Framed s.dom s.states
  | .ok (.continues s) => Framed s.dom s.states

def EvaluatedWell : Except Failure Evaluated → Prop
  | .error f => f ≠ .undefined
  | .ok (.returns s) => Framed s.dom s.states ∧ s.states = []
  | .ok (.continues s) => Framed s.dom s.states

section

variable {s : State}

theorem parseError_ne (s : State) (expected : TokenType) (context : String) :
    s.parseError expected context ≠ .undefined := Failure.noConfusion

theorem withDom_well {dom : Option Dom} (h : ∃ dom', dom = some dom' ∧ Framed dom' s.states) :
    ParsedWell (s.withDom dom) := by
  obtain ⟨dom', rfl, hFramed⟩ := h
  exact hFramed

theorem close_well {states : List Bool} {dom : Option Dom}
    (h : ∃ dom', dom = some dom' ∧ Framed dom' states) : EvaluatedWell (s.close states dom) := by
  obtain ⟨dom', rfl, hFramed⟩ := h
  exact hFramed

/-- The frame of an object may be without a key before. -/
theorem key_well {root : Json} {fields : List (Bytes × Json)} {element : Option Bytes}
    {refStack : List Frame} {states : List Bool}
    (hDom : s.dom = ⟨root, .object fields element :: refStack⟩) (h : Framed ⟨root, refStack⟩ states) :
    s.key ≠ .error .undefined ∧
      ∀ s', s.key = .ok s' → Framed s'.dom (false :: states) ∧ s'.states = s.states := by
  rw [State.key]
  split
  · rename_i key _
    have hKey : s.dom.key key = some ⟨root, .object (touchSorted key fields) (some key) :: refStack⟩ := by
      rw [hDom]
      rfl
    rw [hKey]
    dsimp only
    split
    · refine ⟨fun hError => (by cases hError), fun s' hs' => ?_⟩
      cases hs'
      exact ⟨h.push (.object _ _) (Option.some_ne_none key), rfl⟩
    · exact ⟨fun hError => (by cases hError), fun s' hs' => (by cases hs')⟩
  · exact ⟨fun hError => (by cases hError), fun s' hs' => (by cases hs')⟩

theorem Framed.starts {dom : Dom} {states : List Bool} (h : Framed dom states) :
    dom.startArray = some ⟨dom.root, .array [] :: dom.refStack⟩ ∧
      dom.startObject = some ⟨dom.root, .object [] none :: dom.refStack⟩ := by
  obtain ⟨_, hHandle, _⟩ := h.handleValue .null
  exact ⟨startArray_eq hHandle, startObject_eq hHandle⟩

theorem beginArray_well (h : Framed s.dom s.states) : ParsedWell s.beginArray := by
  rw [State.beginArray, h.starts.1]
  dsimp only
  split
  · exact withDom_well (h.handleValue (.array []))
  · exact h.push (.array []) trivial

theorem beginObject_well (h : Framed s.dom s.states) : ParsedWell s.beginObject := by
  rw [State.beginObject, h.starts.2]
  dsimp only
  split
  · exact withDom_well (h.handleValue (.object []))
  · obtain ⟨hDefined, hKey⟩ := key_well
      (s := ({ s with dom := ⟨s.dom.root, .object [] none :: s.dom.refStack⟩ } : State).getToken) rfl h
    split
    · rename_i f hError
      exact fun hf => hDefined (hf ▸ hError)
    · rename_i s' hOk
      obtain ⟨hFramed, hStates⟩ := hKey s' hOk
      change Framed s'.dom (false :: s'.states)
      rw [hStates]
      exact hFramed

theorem value_well (h : Framed s.dom s.states) : ParsedWell s.value := by
  rw [State.value]
  split
  case h_1 => exact beginObject_well h
  case h_2 => exact beginArray_well h
  case h_3 =>
    split
    · exact withDom_well (h.handleValue _)
    · exact Failure.noConfusion
  case h_10 => exact parseError_ne s _ _
  case h_11 =>
    split
    · exact Failure.noConfusion
    · exact parseError_ne s _ _
  case h_12 => exact parseError_ne s _ _
  all_goals exact withDom_well (h.handleValue _)

theorem evaluate_well (h : Framed s.dom s.states) : EvaluatedWell s.evaluate := by
  rw [State.evaluate]
  split
  · rename_i hStates
    exact ⟨h, hStates⟩
  · rename_i states hStates
    dsimp only
    split
    · exact h
    · split
      · rw [hStates] at h
        obtain ⟨root, elements, refStack, hDom, hTail⟩ := h.array
        apply close_well
        change ∃ dom', s.dom.endArray = some dom' ∧ _
        rw [hDom]
        exact hTail.handleValue (.array elements)
      · exact parseError_ne _ _ _
  · rename_i states hStates
    rw [hStates] at h
    obtain ⟨root, fields, element, refStack, hDom, hTail⟩ := h.object
    dsimp only
    split
    · obtain ⟨hDefined, hKey⟩ := key_well (s := s.getToken.getToken) hDom hTail
      split
      · rename_i f hError
        exact fun hf => hDefined (hf ▸ hError)
      · rename_i s' hOk
        obtain ⟨hFramed, hStates'⟩ := hKey s' hOk
        change Framed s'.dom s'.states
        rw [hStates', ← hStates] at *
        exact hFramed
    · split
      · apply close_well
        change ∃ dom', s.dom.endObject = some dom' ∧ _
        rw [hDom]
        exact hTail.handleValue (.object fields)
      · exact parseError_ne _ _ _

theorem step_well (h : Framed s.dom s.states) : EvaluatedWell s.step := by
  rw [State.step]
  split
  · exact evaluate_well (s := { s with skipToStateEvaluation := false }) h
  · have hValue := value_well h
    split
    · rename_i hError
      rw [hError] at hValue
      exact hValue
    · rename_i s' hBreaks
      rw [hBreaks] at hValue
      exact evaluate_well hValue
    · rename_i s' hContinues
      rw [hContinues] at hValue
      exact hValue

theorem run_error {f : Failure} (h : s.step = .error f) : s.run = .error f := by
  rw [State.run]
  split <;> simp_all

theorem run_well (h : Framed s.dom s.states) : s.run ≠ .error .undefined := by
  induction s using State.run.induct with
  | case1 s f hStep =>
    have hWell := step_well h
    rw [hStep] at hWell
    rw [run_error hStep]
    intro hError
    cases hError
    exact hWell rfl
  | case2 s s' hStep =>
    rw [run_returns hStep]
    exact fun hError => by cases hError
  | case3 s s' hStep ih =>
    have hWell := step_well h
    rw [hStep] at hWell
    rw [run_continues hStep]
    exact ih hWell

end

theorem framed_start (input : Bytes) : Framed (State.start input).dom (State.start input).states :=
  ⟨rfl, by simp [State.start]⟩

/-- No assertion of the parser fails on any input. -/
theorem parse_ne_undefined (input : Bytes) : parse input ≠ .error .undefined := by
  rw [parse]
  split
  · rename_i f hError
    intro h
    cases h
    exact run_well (framed_start input) hError
  · dsimp only
    intro h
    split at h <;> cases h

/-! ## What has been read -/

/-- Behind a value, the text that ends the frames and the root that comes of it. -/
inductive Completes : Dom → List Bool → Bytes → Json → Prop
  | root {j : Json} : Completes ⟨j, []⟩ [] [] j
  | array {root j : Json} {elements js : List Json} {refStack : List Frame} {states : List Bool}
      {dom' : Dom} {u rest : Bytes} (h : Elements u js)
      (hHandle : Dom.handleValue (.array (elements ++ js)) ⟨root, refStack⟩ = some dom')
      (hRest : Completes dom' states rest j) :
      Completes ⟨root, .array elements :: refStack⟩ (true :: states) (u ++ rest) j
  | object {root j : Json} {fields members : List (Bytes × Json)} {element : Option Bytes}
      {refStack : List Frame} {states : List Bool} {dom' : Dom} {u rest : Bytes} (h : Members u members)
      (hHandle : Dom.handleValue (.object (insertAll fields members)) ⟨root, refStack⟩ = some dom')
      (hRest : Completes dom' states rest j) :
      Completes ⟨root, .object fields element :: refStack⟩ (false :: states) (u ++ rest) j

/-- From behind a value to the end. -/
def Finishes (s s' : State) : Prop :=
  ∃ u, s.lexer.rest = u ++ s'.lexer.rest ∧ Completes s.dom s.states u s'.dom.root ∧
    s'.lexer.charsReadTotal ≠ 0

/-- From the blanks before a value to the end. -/
def Values (text : Bytes) (dom : Dom) (states : List Bool) (s' : State) : Prop :=
  ∃ b t v dom' u, Blanks b ∧ Value t v ∧ text = b ++ (t ++ (u ++ s'.lexer.rest)) ∧
    dom.handleValue v = some dom' ∧ Completes dom' states u s'.dom.root ∧ s'.lexer.charsReadTotal ≠ 0

theorem token_started (l : Lexer.State) : l.token.2.charsReadTotal ≠ 0 := by
  rw [Lexer.State.token]
  split
  · exact Nat.succ_ne_zero _
  · rename_i current rest hRest
    have hLength := scanToken_length current rest
    rw [hRest]
    simp only [List.length_cons]
    omega

theorem at_self {l : Lexer.State} (h : l.charsReadTotal ≠ 0) : At l l.rest := ⟨rfl, h⟩

/-- The byte of a token that is always the same one. -/
def structuralByte : TokenType → Option UInt8
  | .beginArray => some 91
  | .beginObject => some 123
  | .endArray => some 93
  | .endObject => some 125
  | .nameSeparator => some 58
  | .valueSeparator => some 44
  | _ => none

theorem tokenText_structural {t : Bytes} {token : Token} {c : UInt8} (h : TokenText t token)
    (hc : structuralByte token.type = some c) : t = [c] := by
  cases h <;> cases hc <;> rfl

theorem structural_reads {token : Token} {c : UInt8} (hc : structuralByte token.type = some c) :
    token.Reads ∧ token.Finite := by
  cases token <;> cases hc <;>
    exact ⟨⟨TokenType.noConfusion, TokenType.noConfusion⟩, fun _ h => Token.noConfusion h⟩

section

variable {s s' : State}

theorem getToken_token (h : s.lexer.charsReadTotal ≠ 0) :
    s.lexer.skipWhitespace.token = (s.getToken.lastToken, s.getToken.lexer) ∧
      s.getToken.lexer.charsReadTotal ≠ 0 := by
  rw [State.getToken, scan_of_at (at_self h)]
  exact ⟨rfl, token_started _⟩

theorem structural_text {l l' : Lexer.State} {token : Token} {c : UInt8}
    (h : l.skipWhitespace.token = (token, l')) (hc : structuralByte token.type = some c) :
    ∃ b, Blanks b ∧ l.rest = b ++ c :: l'.rest := by
  obtain ⟨hReads, hFinite⟩ := structural_reads hc
  obtain ⟨b, t, hb, hText, hRest⟩ := token_sound h hReads hFinite
  rw [tokenText_structural hText hc] at hRest
  exact ⟨b, hb, hRest⟩

theorem getToken_structural (h : s.lexer.charsReadTotal ≠ 0) {type : TokenType} {c : UInt8}
    (hType : s.getToken.lastToken.type = type) (hc : structuralByte type = some c) :
    ∃ b, Blanks b ∧ s.lexer.rest = b ++ c :: s.getToken.lexer.rest :=
  structural_text (getToken_token h).1 (hType ▸ hc)

theorem key_sound {l : Lexer.State} (hToken : l.skipWhitespace.token = (s.lastToken, s.lexer))
    (h : s.key = .ok s') : ∃ b k key b', Blanks b ∧ StringText k key ∧ Blanks b' ∧
      l.rest = b ++ (k ++ (b' ++ 58 :: s'.lexer.rest)) ∧ s.dom.key key = some s'.dom ∧
      s'.states = s.states ∧ s'.lexer.charsReadTotal ≠ 0 := by
  have hStarted : s.lexer.charsReadTotal ≠ 0 := by
    have hLexer := token_started l.skipWhitespace
    rwa [hToken] at hLexer
  rw [State.key] at h
  split at h
  · rename_i key hString
    split at h
    · cases h
    · rename_i dom hKey
      dsimp only at h
      split at h
      · rename_i hType
        cases h
        obtain ⟨b', hb', hRest'⟩ := getToken_structural (s := { s with dom := dom }) hStarted hType rfl
        rw [hString] at hToken
        obtain ⟨b, t, hb, hText, hRest⟩ := token_sound hToken
          ⟨TokenType.noConfusion, TokenType.noConfusion⟩ (fun _ h => Token.noConfusion h)
        cases hText with
        | valueString hk =>
          refine ⟨b, t, key, b', hb, hk, hb', ?_, hKey, rfl, ?_⟩
          · rw [hRest]
            exact congrArg (fun r => b ++ (t ++ r)) hRest'
          · exact (getToken_token (s := { s with dom := dom }) hStarted).2
      · cases h
  · cases h

end

/-! ## The frames, read backwards -/

section

variable {dom dom' : Dom} {states : List Bool} {v j : Json} {b b' t u : Bytes}

/-- A value that went into an array, with what ends the array. -/
theorem Completes.array_cases (hHandle : dom.handleValue v = some dom')
    (h : Completes dom' (true :: states) u j) :
    ∃ root elements refStack js dom'' u' rest, dom = ⟨root, .array elements :: refStack⟩ ∧
      u = u' ++ rest ∧ Elements u' js ∧
      Dom.handleValue (.array (elements ++ v :: js)) ⟨root, refStack⟩ = some dom'' ∧
      Completes dom'' states rest j := by
  cases h with
  | @array root _ _ js refStack _ dom'' u' rest hElements hEnd hRest =>
    rw [Dom.handleValue.eq_def] at hHandle
    obtain ⟨root, refStack⟩ := dom
    dsimp only at hHandle
    split at hHandle
    · cases hHandle
    · rename_i elements _
      cases hHandle
      rw [← List.append_cons] at hEnd
      exact ⟨root, elements, _, js, dom'', u', rest, rfl, rfl, hElements, hEnd, hRest⟩
    · cases hHandle
    · cases hHandle

/-- A value that went into an object behind its key. -/
theorem Completes.object_cases {root : Json} {fields : List (Bytes × Json)} {key : Bytes}
    {refStack : List Frame}
    (hHandle : Dom.handleValue v ⟨root, .object (touchSorted key fields) (some key) :: refStack⟩ = some dom')
    (h : Completes dom' (false :: states) u j) :
    ∃ members dom'' u' rest, u = u' ++ rest ∧ Members u' members ∧
      Dom.handleValue (.object (insertAll fields ((key, v) :: members))) ⟨root, refStack⟩ = some dom'' ∧
      Completes dom'' states rest j := by
  cases hHandle
  cases h with
  | @object _ _ _ members _ _ _ dom'' u' rest hMembers hEnd hRest =>
    rw [insertSorted_touchSorted] at hEnd
    exact ⟨members, dom'', u', rest, rfl, hMembers, hEnd, hRest⟩

theorem Completes.comma_array (hb : Blanks b) (hb' : Blanks b') (hValue : Value t v)
    (hHandle : dom.handleValue v = some dom') (h : Completes dom' (true :: states) u j) :
    Completes dom (true :: states) (b ++ 44 :: (b' ++ (t ++ u))) j := by
  obtain ⟨root, elements, refStack, js, dom'', u', rest, rfl, rfl, hElements, hEnd, hRest⟩ :=
    array_cases hHandle h
  have hCompletes := Completes.array (.cons hb hb' hValue hElements) hEnd hRest
  simpa only [List.append_assoc, List.cons_append] using hCompletes

theorem Completes.close_array (hb : Blanks b) (hClose : dom.endArray = some dom')
    (h : Completes dom' states u j) : Completes dom (true :: states) (b ++ 93 :: u) j := by
  obtain ⟨root, refStack⟩ := dom
  rw [Dom.endArray.eq_def] at hClose
  dsimp only at hClose
  split at hClose
  · rename_i elements refStack
    rw [← List.append_nil elements] at hClose
    have hCompletes := Completes.array (.nil hb) hClose h
    simpa only [List.append_assoc, List.singleton_append, List.append_nil] using hCompletes
  · cases hClose

theorem Completes.comma_object {b₁ k b₂ key : Bytes} {dom₁ : Dom} (hb : Blanks b) (hb₁ : Blanks b₁)
    (hk : StringText k key) (hb₂ : Blanks b₂) (hb' : Blanks b') (hValue : Value t v)
    (hKey : dom.key key = some dom₁) (hHandle : dom₁.handleValue v = some dom')
    (h : Completes dom' (false :: states) u j) :
    Completes dom (false :: states) (b ++ 44 :: (b₁ ++ (k ++ (b₂ ++ 58 :: (b' ++ (t ++ u)))))) j := by
  obtain ⟨root, refStack⟩ := dom
  rw [Dom.key.eq_def] at hKey
  dsimp only at hKey
  split at hKey
  · rename_i fields element refStack
    cases hKey
    obtain ⟨members, dom'', u', rest, rfl, hMembers, hEnd, hRest⟩ := object_cases hHandle h
    have hCompletes : Completes ⟨root, .object fields element :: refStack⟩ _ _ j :=
      .object (.cons hb hb₁ (.mk hk hb₂ hb' hValue) hMembers) hEnd hRest
    simpa only [List.append_assoc, List.cons_append] using hCompletes
  · cases hKey

theorem Completes.close_object (hb : Blanks b) (hClose : dom.endObject = some dom')
    (h : Completes dom' states u j) : Completes dom (false :: states) (b ++ 125 :: u) j := by
  obtain ⟨root, refStack⟩ := dom
  rw [Dom.endObject.eq_def] at hClose
  dsimp only at hClose
  split at hClose
  · rename_i fields element refStack
    have hCompletes : Completes ⟨root, .object fields element :: refStack⟩ _ _ j :=
      .object (.nil hb) hClose h
    simpa only [List.append_assoc, List.singleton_append] using hCompletes
  · cases hClose

end

/-! ## Turns of the loop, read backwards -/

/-- What is said of a run that ends in `s'`. -/
def Sound (s s' : State) : Prop :=
  (s.skipToStateEvaluation = true → s.lexer.charsReadTotal ≠ 0 → Finishes s s') ∧
    (s.skipToStateEvaluation = false → ∀ l : Lexer.State,
      l.skipWhitespace.token = (s.lastToken, s.lexer) → Values l.rest s.dom s.states s')

section

variable {s s₁ s' : State}

theorem close_sound {states : List Bool} {dom : Option Dom} {b text : Bytes} {c : UInt8}
    (hStarted : s.lexer.charsReadTotal ≠ 0) (hText : text = b ++ c :: s.lexer.rest)
    (h : s.close states dom = .ok (.continues s₁)) (hSound : Sound s₁ s') :
    ∃ dom' u, dom = some dom' ∧ Completes dom' states u s'.dom.root ∧
      text = (b ++ c :: u) ++ s'.lexer.rest ∧ s'.lexer.charsReadTotal ≠ 0 := by
  cases dom with
  | none => cases h
  | some dom =>
    cases h
    obtain ⟨u, hRest, hCompletes, hEnd⟩ := hSound.1 rfl hStarted
    refine ⟨dom, u, rfl, hCompletes, ?_, hEnd⟩
    rw [hText, hRest, List.append_assoc, List.cons_append]

theorem evaluate_sound (hStarted : s.lexer.charsReadTotal ≠ 0)
    (hSkip : s.skipToStateEvaluation = false) (h : s.evaluate = .ok (.continues s₁))
    (hSound : Sound s₁ s') : Finishes s s' := by
  obtain ⟨hToken, hStarted₁⟩ := getToken_token hStarted
  rw [Finishes]
  cases hStates : s.states with
  | nil =>
    rw [State.evaluate, hStates] at h
    cases h
  | cons state states =>
    cases state with
    | true =>
      rw [evaluate_array hStates] at h
      split at h
      · rename_i hType
        cases h
        obtain ⟨b, hb, hRest⟩ := getToken_structural hStarted hType rfl
        obtain ⟨b', t, v, dom', u, hb', hValue, hText, hHandle, hCompletes, hEnd⟩ :=
          hSound.2 hSkip _ (getToken_token hStarted₁).1
        change Completes dom' s.states u _ at hCompletes
        rw [hStates] at hCompletes
        refine ⟨_, ?_, hCompletes.comma_array hb hb' hValue hHandle, hEnd⟩
        rw [hRest, hText]
        simp only [List.append_assoc, List.cons_append]
      · split at h
        · rename_i hType
          obtain ⟨b, hb, hRest⟩ := getToken_structural hStarted hType rfl
          obtain ⟨dom', u, hClose, hCompletes, hText, hEnd⟩ := close_sound hStarted₁ hRest h hSound
          exact ⟨_, hText, hCompletes.close_array hb hClose, hEnd⟩
        · cases h
    | false =>
      rw [evaluate_object hStates] at h
      split at h
      · rename_i hType
        obtain ⟨b, hb, hRest⟩ := getToken_structural hStarted hType rfl
        split at h
        · cases h
        · rename_i s₂ hKeyOk
          cases h
          have hSkip₂ := (key_length hKeyOk).2.trans hSkip
          obtain ⟨b₁, k, key, b₂, hb₁, hk, hb₂, hText₁, hKey, hStates₂, hStarted₂⟩ :=
            key_sound (getToken_token hStarted₁).1 hKeyOk
          obtain ⟨b', t, v, dom', u, hb', hValue, hText, hHandle, hCompletes, hEnd⟩ :=
            hSound.2 hSkip₂ _ (getToken_token hStarted₂).1
          change Completes dom' s₂.states u _ at hCompletes
          rw [hStates₂] at hCompletes
          change Completes dom' s.states u _ at hCompletes
          rw [hStates] at hCompletes
          refine ⟨_, ?_, hCompletes.comma_object hb hb₁ hk hb₂ hb' hValue hKey hHandle, hEnd⟩
          rw [hRest, hText₁, hText]
          simp only [List.append_assoc, List.cons_append]
      · split at h
        · rename_i hType
          obtain ⟨b, hb, hRest⟩ := getToken_structural hStarted hType rfl
          obtain ⟨dom', u, hClose, hCompletes, hText, hEnd⟩ := close_sound hStarted₁ hRest h hSound
          exact ⟨_, hText, hCompletes.close_object hb hClose, hEnd⟩
        · cases h

theorem startArray_cases {dom dom₁ : Dom} (h : dom.startArray = some dom₁) :
    dom₁ = ⟨dom.root, .array [] :: dom.refStack⟩ := by
  obtain ⟨_, _, hEq⟩ := Option.map_eq_some_iff.mp h
  exact hEq.symm

theorem startObject_cases {dom dom₁ : Dom} (h : dom.startObject = some dom₁) :
    dom₁ = ⟨dom.root, .object [] none :: dom.refStack⟩ := by
  obtain ⟨_, _, hEq⟩ := Option.map_eq_some_iff.mp h
  exact hEq.symm

theorem Values.open_array {b text : Bytes} {dom dom₁ : Dom} {states : List Bool} (hb : Blanks b)
    (hStart : dom.startArray = some dom₁) (h : Values text dom₁ (true :: states) s') :
    Values (b ++ 91 :: text) dom states s' := by
  rw [startArray_cases hStart] at h
  obtain ⟨b', t, v, dom', u, hb', hValue, rfl, hHandle, hCompletes, hEnd⟩ := h
  obtain ⟨root, elements, refStack, js, dom'', u', rest, hDom, rfl, hElements, hClose, hRest⟩ :=
    Completes.array_cases hHandle hCompletes
  cases hDom
  refine ⟨b, _, _, dom'', rest, hb, .array hb' hValue hElements, ?_, hClose, hRest, hEnd⟩
  simp only [List.append_assoc, List.cons_append]

theorem Values.open_object {b b₁ k b₂ key text : Bytes} {dom dom₁ dom₂ : Dom} {states : List Bool}
    (hb : Blanks b) (hb₁ : Blanks b₁) (hk : StringText k key) (hb₂ : Blanks b₂)
    (hStart : dom.startObject = some dom₁) (hKey : dom₁.key key = some dom₂)
    (h : Values text dom₂ (false :: states) s') :
    Values (b ++ 123 :: (b₁ ++ (k ++ (b₂ ++ 58 :: text)))) dom states s' := by
  rw [startObject_cases hStart] at hKey
  cases hKey
  obtain ⟨b', t, v, dom', u, hb', hValue, rfl, hHandle, hCompletes, hEnd⟩ := h
  obtain ⟨members, dom'', u', rest, rfl, hMembers, hClose, hRest⟩ :=
    Completes.object_cases hHandle hCompletes
  refine ⟨b, _, _, dom'', rest, hb, .object hb₁ (.mk hk hb₂ hb' hValue) hMembers, ?_, hClose, hRest, hEnd⟩
  simp only [List.append_assoc, List.cons_append]

/-- One whole value has been read. -/
def ReadValue (text : Bytes) (s s₁ : State) : Prop :=
  ∃ b t v, Blanks b ∧ Value t v ∧ text = b ++ (t ++ s₁.lexer.rest) ∧
    s.dom.handleValue v = some s₁.dom ∧ s₁.states = s.states ∧ s₁.lexer.charsReadTotal ≠ 0

theorem ReadValue.started {text : Bytes} (h : ReadValue text s s₁) : s₁.lexer.charsReadTotal ≠ 0 := by
  obtain ⟨_, _, _, _, _, _, _, _, hStarted⟩ := h
  exact hStarted

section

variable {l : Lexer.State} (hToken : l.skipWhitespace.token = (s.lastToken, s.lexer))

include hToken

theorem started_of_token : s.lexer.charsReadTotal ≠ 0 := by
  have hLexer := token_started l.skipWhitespace
  rwa [hToken] at hLexer

theorem scalar_sound {v : Json} (hReads : s.lastToken.Reads) (hFinite : s.lastToken.Finite)
    (hValue : ∀ t, TokenText t s.lastToken → Value t v)
    (h : s.withDom (s.dom.handleValue v) = .ok (.breaks s₁)) : ReadValue l.rest s s₁ := by
  obtain ⟨dom', hHandle, rfl⟩ := withDom_breaks h
  obtain ⟨b, t, hb, hText, hRest⟩ := token_sound hToken hReads hFinite
  exact ⟨b, t, v, hb, hValue t hText, hRest, hHandle, rfl, started_of_token hToken⟩

theorem beginArray_sound (hType : s.lastToken.type = .beginArray)
    (h : s.beginArray = .ok (.breaks s₁)) : ReadValue l.rest s s₁ := by
  obtain ⟨b, hb, hRest⟩ := structural_text (c := 91) hToken (by rw [hType]; rfl)
  rw [State.beginArray] at h
  split at h
  · cases h
  · rename_i dom hStart
    dsimp only at h
    split at h
    · rename_i hEnd
      obtain ⟨dom', hClose, rfl⟩ := withDom_breaks h
      have hStarted := started_of_token hToken
      obtain ⟨b', hb', hRest'⟩ := getToken_structural (s := { s with dom := dom }) hStarted hEnd rfl
      rw [startArray_cases hStart] at hClose
      refine ⟨b, _, _, hb, .emptyArray hb', ?_, hClose, rfl,
        (getToken_token (s := { s with dom := dom }) hStarted).2⟩
      rw [hRest]
      change s.lexer.rest = _ at hRest'
      rw [hRest', List.cons_append, List.append_assoc]
      rfl
    · cases h

theorem beginObject_sound (hType : s.lastToken.type = .beginObject)
    (h : s.beginObject = .ok (.breaks s₁)) : ReadValue l.rest s s₁ := by
  obtain ⟨b, hb, hRest⟩ := structural_text (c := 123) hToken (by rw [hType]; rfl)
  rw [State.beginObject] at h
  split at h
  · cases h
  · rename_i dom hStart
    dsimp only at h
    split at h
    · rename_i hEnd
      obtain ⟨dom', hClose, rfl⟩ := withDom_breaks h
      have hStarted := started_of_token hToken
      obtain ⟨b', hb', hRest'⟩ := getToken_structural (s := { s with dom := dom }) hStarted hEnd rfl
      rw [startObject_cases hStart] at hClose
      refine ⟨b, _, _, hb, .emptyObject hb', ?_, hClose, rfl,
        (getToken_token (s := { s with dom := dom }) hStarted).2⟩
      rw [hRest]
      change s.lexer.rest = _ at hRest'
      rw [hRest', List.cons_append, List.append_assoc]
      rfl
    · split at h <;> cases h

theorem value_sound (h : s.value = .ok (.breaks s₁)) : ReadValue l.rest s s₁ := by
  have hReads := value_reads h
  rw [State.value] at h
  split at h
  case h_1 hLast => exact beginObject_sound hToken (congrArg Token.type hLast) h
  case h_2 hLast => exact beginArray_sound hToken (congrArg Token.type hLast) h
  case h_3 d hLast =>
    split at h
    · rename_i hFinite
      refine scalar_sound hToken hReads ?_ ?_ h
      · rw [hLast]
        rintro _ ⟨⟩
        exact hFinite
      · rw [hLast]
        rintro t ⟨⟩
        exact .number ‹_›
    · cases h
  case h_10 => cases h
  case h_11 => split at h <;> cases h
  case h_12 => cases h
  all_goals
    rename_i hLast
    refine scalar_sound hToken hReads (by rw [hLast]; exact fun _ h => Token.noConfusion h) ?_ h
    rw [hLast]
    rintro t ⟨⟩
  · exact .literalFalse
  · exact .literalNull
  · exact .literalTrue
  · exact .number ‹_›
  · exact .string ‹_›
  · exact .number ‹_›

theorem beginArray_opens (hType : s.lastToken.type = .beginArray) (hSkip : s.skipToStateEvaluation = false)
    (h : s.beginArray = .ok (.continues s₁)) (hSound : Sound s₁ s') :
    Values l.rest s.dom s.states s' := by
  obtain ⟨b, hb, hRest⟩ := structural_text (c := 91) hToken (by rw [hType]; rfl)
  rw [State.beginArray] at h
  split at h
  · cases h
  · rename_i dom hStart
    dsimp only at h
    split at h
    · exact absurd h withDom_ne_continues
    · cases h
      rw [hRest]
      apply Values.open_array hb hStart
      have hToken₁ := (getToken_token (s := { s with dom := dom }) (started_of_token hToken)).1
      exact hSound.2 hSkip s.lexer hToken₁

theorem beginObject_opens (hType : s.lastToken.type = .beginObject)
    (hSkip : s.skipToStateEvaluation = false) (h : s.beginObject = .ok (.continues s₁))
    (hSound : Sound s₁ s') : Values l.rest s.dom s.states s' := by
  obtain ⟨b, hb, hRest⟩ := structural_text (c := 123) hToken (by rw [hType]; rfl)
  rw [State.beginObject] at h
  split at h
  · cases h
  · rename_i dom hStart
    dsimp only at h
    split at h
    · exact absurd h withDom_ne_continues
    · split at h
      · cases h
      · rename_i s₂ hKeyOk
        cases h
        have hToken₁ := (getToken_token (s := { s with dom := dom }) (started_of_token hToken)).1
        obtain ⟨b₁, k, key, b₂, hb₁, hk, hb₂, hText, hKey, hStates₂, hStarted₂⟩ := key_sound hToken₁ hKeyOk
        have hSkip₂ := (key_length hKeyOk).2.trans hSkip
        have hValues := hSound.2 hSkip₂ s₂.lexer
          (getToken_token (s := { s₂ with states := false :: s₂.states }) hStarted₂).1
        change Values _ s₂.dom (false :: s₂.states) s' at hValues
        rw [hStates₂] at hValues
        change s.lexer.rest = _ at hText
        rw [hRest, hText]
        exact hValues.open_object hb hb₁ hk hb₂ hStart hKey

theorem value_opens (hSkip : s.skipToStateEvaluation = false) (h : s.value = .ok (.continues s₁))
    (hSound : Sound s₁ s') : Values l.rest s.dom s.states s' := by
  rw [State.value] at h
  split at h
  case h_1 hLast => exact beginObject_opens hToken (congrArg Token.type hLast) hSkip h hSound
  case h_2 hLast => exact beginArray_opens hToken (congrArg Token.type hLast) hSkip h hSound
  case h_3 =>
    split at h
    · exact absurd h withDom_ne_continues
    · cases h
  case h_10 => cases h
  case h_11 => split at h <;> cases h
  case h_12 => cases h
  all_goals exact absurd h withDom_ne_continues

end

theorem evaluate_returns (hFramed : Framed s.dom s.states) (hStarted : s.lexer.charsReadTotal ≠ 0)
    (h : s.evaluate = .ok (.returns s')) : Finishes s s' := by
  have hWell := evaluate_well hFramed
  rw [h] at hWell
  rw [State.evaluate] at h
  split at h
  · rename_i hStates
    cases h
    refine ⟨[], rfl, ?_, hStarted⟩
    obtain ⟨hDom, _⟩ := hFramed
    rw [hStates] at hDom
    have hRoot : s.dom = ⟨s.dom.root, []⟩ := by
      rw [← List.map_eq_nil_iff.mp hDom.symm]
    rw [hStates, hRoot]
    exact .root
  · dsimp only at h
    split at h
    · cases h
    · split at h
      · rename_i dom _ _
        cases hClose : s.getToken.dom.endArray <;> rw [hClose] at h <;> cases h
      · cases h
  · dsimp only at h
    split at h
    · split at h <;> cases h
    · split at h
      · cases hClose : s.getToken.dom.endObject <;> rw [hClose] at h <;> cases h
      · cases h

theorem Finishes.values {text : Bytes} (hRead : ReadValue text s s₁) (h : Finishes s₁ s') :
    Values text s.dom s.states s' := by
  obtain ⟨b, t, v, hb, hValue, hText, hHandle, hStates, _⟩ := hRead
  obtain ⟨u, hRest, hCompletes, hEnd⟩ := h
  rw [hStates] at hCompletes
  exact ⟨b, t, v, s₁.dom, u, hb, hValue, by rw [hText, hRest], hHandle, hCompletes, hEnd⟩

/-- One turn of the loop, whatever the next ones do. -/
theorem step_sound (hFramed : Framed s.dom s.states)
    (h : (∃ s₁, s.step = .ok (.continues s₁) ∧ Sound s₁ s') ∨ s.step = .ok (.returns s')) :
    Sound s s' := by
  have hEvaluate : ∀ t : State, Framed t.dom t.states → t.lexer.charsReadTotal ≠ 0 →
      t.skipToStateEvaluation = false →
      (∃ s₁, t.evaluate = .ok (.continues s₁) ∧ Sound s₁ s') ∨ t.evaluate = .ok (.returns s') →
      Finishes t s' := by
    rintro t hFramed hStarted hSkip (⟨s₁, hContinues, hSound⟩ | hReturns)
    · exact evaluate_sound hStarted hSkip hContinues hSound
    · exact evaluate_returns hFramed hStarted hReturns
  constructor
  · intro hSkip hStarted
    rw [step_of_skip hSkip] at h
    exact hEvaluate { s with skipToStateEvaluation := false } hFramed hStarted rfl h
  · intro hSkip l hToken
    have hWell := value_well hFramed
    rw [State.step, hSkip, if_neg Bool.false_ne_true] at h
    cases hValue : s.value with
    | error f =>
      rw [hValue] at h
      rcases h with ⟨s₁, hContinues, _⟩ | hReturns
      · cases hContinues
      · cases hReturns
    | ok parsed =>
      rw [hValue] at h hWell
      cases parsed with
      | breaks s₁ =>
        have hRead := value_sound hToken hValue
        have hSkip₁ := (value_breaks hValue).2.trans hSkip
        exact (hEvaluate s₁ hWell hRead.started hSkip₁ h).values hRead
      | continues s₁ =>
        rcases h with ⟨s₂, hContinues, hSound⟩ | hReturns
        · cases hContinues
          exact value_opens hToken hSkip hValue hSound
        · cases hReturns

theorem run_sound (hFramed : Framed s.dom s.states) (h : s.run = .ok s') : Sound s s' := by
  induction s using State.run.induct with
  | case1 s f hStep =>
    rw [run_error hStep] at h
    cases h
  | case2 s t hStep =>
    rw [run_returns hStep] at h
    cases h
    exact step_sound hFramed (Or.inr hStep)
  | case3 s t hStep ih =>
    rw [run_continues hStep] at h
    have hWell := step_well hFramed
    rw [hStep] at hWell
    exact step_sound hFramed (Or.inl ⟨t, hStep, ih hWell h⟩)

end

/-- The first token is read behind the byte order mark, or the parser throws. -/
theorem start_token (input : Bytes) : (State.start input).lastToken.type = .parseError ∨
    ∃ (mark : Bytes) (l : Lexer.State), (mark = [] ∨ mark = [0xEF, 0xBB, 0xBF]) ∧ input = mark ++ l.rest ∧
      l.skipWhitespace.token = ((State.start input).lastToken, (State.start input).lexer) := by
  rw [State.start, Lexer.State.scan, if_pos rfl]
  cases hBom : (⟨input, 0⟩ : Lexer.State).skipBom with
  | none => exact Or.inl rfl
  | some l =>
    refine Or.inr ?_
    rw [Lexer.State.skipBom.eq_def] at hBom
    dsimp only at hBom
    split at hBom
    · split at hBom
      · rename_i rest
        cases hBom
        exact ⟨[0xEF, 0xBB, 0xBF], ⟨rest, 3⟩, Or.inr rfl, rfl, rfl⟩
      · cases hBom
    · cases hBom
      exact ⟨[], ⟨input, 0⟩, Or.inl rfl, rfl, rfl⟩

theorem run_reads {s s' : State} (hSkip : s.skipToStateEvaluation = false) (h : s.run = .ok s') :
    s.lastToken.Reads := by
  cases hValue : s.value with
  | ok parsed => exact value_reads hValue
  | error f =>
    have hStep : s.step = .error f := by
      rw [State.step, hSkip, hValue]
      rfl
    rw [run_error hStep] at h
    cases h

theorem type_endOfInput {token : Token} (h : token.type = .endOfInput) : token = .endOfInput := by
  cases token <;> first | rfl | cases h

theorem parse_sound {t : Bytes} {j : Json} (h : parse t = .ok j) : Text t j := by
  rw [parse] at h
  split at h
  · cases h
  · rename_i s hRun
    dsimp only at h
    split at h
    · rename_i hType
      cases h
      rcases start_token t with hError | ⟨mark, l, hMark, rfl, hToken⟩
      · exact absurd hError (run_reads rfl hRun).1
      · have hSound := (run_sound (framed_start _) hRun).2 rfl l hToken
        obtain ⟨b, u, v, dom', rest, hb, hValue, hText, hHandle, hCompletes, hStarted⟩ := hSound
        have hDom : dom' = ⟨v, []⟩ := (Option.some.inj hHandle).symm
        have hStates : (State.start (mark ++ l.rest)).states = [] := rfl
        rw [hDom, hStates] at hCompletes
        obtain ⟨hNext, _⟩ := getToken_token hStarted
        rw [type_endOfInput hType] at hNext
        obtain ⟨b', rest', hb', hRest, hEnd⟩ := token_end hNext
        generalize hRoot : s.dom.root = root at hCompletes
        cases hCompletes
        rw [hText, hRest, List.nil_append]
        change Text _ s.dom.root
        rw [hRoot]
        exact .mk hMark hb hValue hb' hEnd
    · cases h

theorem parse_iff (t : Bytes) (j : Json) : parse t = .ok j ↔ Text t j :=
  ⟨parse_sound, parse_complete⟩

end OpcConfig.Parser
