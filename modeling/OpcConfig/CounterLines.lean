import OpcConfig.CounterTalk
import OpcConfig.CounterTurn
import OpcConfig.JsonText

/-! # The lines that the counting client prints

For any servers, whatever they answer, and also in a run that ends in a fault,
what `main` writes to `std::cout` can be cut into its lines, and every line can
be parsed. The log lines that the library writes to the same stream are left out.
-/

namespace OpcConfig.CounterClient

set_option autoImplicit false

open CString Loop Nlohmann JsonText
open Serializer (text elementsText fieldsText stringText floatText escape dumped)

/-! ## Lines -/

def Visible (t : Bytes) : Prop := ∀ b ∈ t, 0x20 ≤ b.toNat

instance (t : Bytes) : Decidable (Visible t) := List.decidableBAll _ t

theorem visible_append {t u : Bytes} (ht : Visible t) (hu : Visible u) : Visible (t ++ u) := fun b hb =>
  (List.mem_append.mp hb).elim (ht b) (hu b)

theorem visible_escape (b : UInt8) : Visible (escape b) := by
  have hAll : ∀ n < 256, (escape (UInt8.ofNat n)).all (fun c => 0x20 ≤ c.toNat) = true := by
    decide +kernel
  have hByte := List.all_eq_true.mp (hAll b.toNat b.toNat_lt)
  rw [UInt8.ofNat_toNat] at hByte
  exact fun c hc => of_decide_eq_true (hByte c hc)

theorem visible_stringText (s : Bytes) : Visible (stringText s) := by
  have hQuote : Visible (ascii "\"") := by decide
  have hEscaped : Visible (s.flatMap escape) := by
    intro b hb
    obtain ⟨c, _, hb⟩ := List.mem_flatMap.mp hb
    exact visible_escape c b hb
  exact visible_append hQuote (visible_append hEscaped hQuote)

theorem visible_digits {digits : Bytes} (h : Strtod.Digits digits) : Visible digits := fun b hb => by
  have hDigit := Strtod.isDigit_iff.mp (h b hb)
  omega

theorem visible_decimal (z : Int) : Visible (Printf.decimal z) := by
  have hMinus : Visible (ascii "-") := by decide
  have hDigits := visible_digits (Strtod.digits_numeral z.natAbs)
  rw [Printf.decimal]
  split
  · exact visible_append hMinus hDigits
  · exact hDigits

theorem visible_numeral {x : Strtod.Numeral} (h : x.Decimal) : Visible x.text := by
  have hMinus : Visible (Strtod.Numeral.minus x.negative) := by
    cases x.negative <;> decide
  have hFrac : Visible (Strtod.Numeral.fracText x.frac) := by
    rw [Strtod.Numeral.fracText]
    split
    · simp [Visible]
    · exact List.forall_mem_cons.mpr ⟨by decide, visible_digits h.frac⟩
  have hExp : Visible (Strtod.Numeral.expText x.exp) := by
    cases hE : x.exp with
    | none => simp [Visible, Strtod.Numeral.expText]
    | some e =>
      obtain ⟨negative, digits⟩ := e
      have hDigits := visible_digits (h.exp _ hE)
      cases negative
      · exact List.forall_mem_cons.mpr ⟨by decide, List.forall_mem_cons.mpr ⟨by decide, hDigits⟩⟩
      · exact List.forall_mem_cons.mpr ⟨by decide, List.forall_mem_cons.mpr ⟨by decide, hDigits⟩⟩
  exact visible_append hMinus (visible_append (visible_digits h.int) (visible_append hFrac hExp))

theorem visible_floatText (d : Binary64) : Visible (floatText d) := by
  rw [floatText]
  split
  · rename_i hFinite
    obtain ⟨x, hText, hShape, _⟩ := Dtoa.toChars_spec hFinite
    rw [hText]
    exact visible_numeral hShape.toDecimal
  · decide

mutual

theorem visible_text (j : Json) : Visible (text j) := by
  have hBraces : Visible (ascii "\x7b") ∧ Visible (ascii "\x7d") := by decide
  have hBrackets : Visible (ascii "[") ∧ Visible (ascii "]") := by decide
  match j with
  | .null => decide
  | .boolean true => decide
  | .boolean false => decide
  | .integer n => exact visible_decimal n.val
  | .double d => exact visible_floatText d
  | .string s => exact visible_stringText s
  | .array js => exact visible_append hBrackets.1 (visible_append (visible_elementsText js) hBrackets.2)
  | .object fields => exact visible_append hBraces.1 (visible_append (visible_fieldsText fields) hBraces.2)

theorem visible_elementsText (js : List Json) : Visible (elementsText js) := by
  have hComma : Visible (ascii ",") := by decide
  match js with
  | [] => simp [Visible, elementsText]
  | [j] => exact visible_text j
  | j :: next :: js =>
    exact visible_append (visible_text j) (visible_append hComma (visible_elementsText (next :: js)))

theorem visible_fieldsText (fields : List (Bytes × Json)) : Visible (fieldsText fields) := by
  have hComma : Visible (ascii ",") := by decide
  have hColon : Visible (ascii ":") := by decide
  match fields with
  | [] => simp [Visible, fieldsText]
  | [(key, value)] =>
    exact visible_append (visible_stringText key) (visible_append hColon (visible_text value))
  | (key, value) :: next :: fields =>
    exact visible_append (visible_stringText key) (visible_append hColon
      (visible_append (visible_text value) (visible_append hComma (visible_fieldsText (next :: fields)))))

end

/-- `std::cout << s << std::endl` for each of the values, without the log lines
of the library between them. -/
def output (printed : List Json) : Bytes := printed.flatMap fun v => text v ++ ascii "\n"

theorem output_append (printed printed' : List Json) :
    output (printed ++ printed') = output printed ++ output printed' := List.flatMap_append

theorem newline_notMem {t : Bytes} (h : Visible t) : 0x0A ∉ t := fun hMem => by
  have := h _ hMem
  simp at this

theorem lines_output (printed : List Json) :
    (output printed).splitOn 0x0A = printed.map text ++ [[]] := by
  induction printed with
  | nil => rfl
  | cons v printed ih =>
    have hOutput : output (v :: printed) = text v ++ 0x0A :: output printed := by
      rw [output, List.flatMap_cons, List.append_assoc]
      rfl
    rw [hOutput, List.splitOn_append_cons_self_of_not_mem (newline_notMem (visible_text v)), ih]
    rfl

/-! ## The arrays -/

theorem ordered_value (value : Variant) : ∀ field ∈ valueField value, Ordered field.2 := by
  rw [valueField]
  split <;> simp [Ordered, Json.ofInt32]

theorem sorted_element (name : Bytes) (value : Variant) :
    SortedKeys ((ascii "name", .string name) :: valueField value) := by
  have hKeys : ascii "name" < ascii "value" := by decide
  rw [valueField]
  split <;> simp [SortedKeys, hKeys]

theorem ordered_element (name : Bytes) (value : Variant) : Ordered (element name value) := by
  rw [element, Ordered, OrderedFields, orderedFields_iff]
  exact ⟨sorted_element name value, trivial, ordered_value value⟩

theorem orderedElements_iff {l : List Json} : OrderedElements l ↔ ∀ j ∈ l, Ordered j := by
  induction l with
  | nil => simp [OrderedElements]
  | cons j l ih => simp [OrderedElements, ih]

theorem ordered_gathered {l : List Json} (h : ∀ j ∈ l, Ordered j) : Ordered (gathered l) := by
  cases l with
  | nil => trivial
  | cons j l => exact orderedElements_iff.mpr h

variable {σ : Type}

/-- As many elements as have been counted, each in the order of its keys. -/
def Gathered (x : Gathering σ) : Prop :=
  ∃ l, x.dataValue = gathered l ∧ x.count = l.length ∧ ∀ j ∈ l, Ordered j

theorem Gathered.ordered {x : Gathering σ} (h : Gathered x) : Ordered x.dataValue := by
  obtain ⟨l, hData, _, hOrdered⟩ := h
  exact hData ▸ ordered_gathered hOrdered

theorem gathered_start (c : Counter σ) : Gathered (startResult c) :=
  ⟨[], rfl, rfl, fun _ hj => absurd hj List.not_mem_nil⟩

theorem gathered_gather (srv : Server σ) (mem : CounterSite → Bytes) (site : CounterSite)
    (ref : ReferenceDescription) (l : List Json) (x : Gathering σ) (value : Variant)
    (hCount : x.count = l.length) (hOrdered : ∀ j ∈ l, Ordered j) :
    Gathered (gather srv mem site ref l x value) := by
  refine ⟨l ++ [element (nameRead mem site ref) value], rfl, ?_, ?_⟩
  · simp [gather, laid, readStep, hCount]
  · intro j hj
    rcases List.mem_append.mp hj with hj | hj
    · exact hOrdered j hj
    · exact List.mem_singleton.mp hj ▸ ordered_element _ _

theorem referenceStep_gathered (srv : Server σ) (mem : CounterSite → Bytes) (site : CounterSite)
    (ref : ReferenceDescription) {x : Gathering σ} (h : Gathered x) :
    Ends Gathered (fun _ => True) (referenceStep srv mem site ref x) := by
  obtain ⟨l, hData, hCount, hOrdered⟩ := h
  have hTurn := referenceStep_turn srv mem site ref l x hData hCount
  generalize referenceStep srv mem site ref x = outcome at hTurn
  cases hTurn with
  | skipped _ => exact ⟨l, hData, hCount, hOrdered⟩
  | unread _ _ => exact ⟨l, hData, hCount, hOrdered⟩
  | counted _ _ _ _ => exact gathered_gather srv mem site ref l x _ hCount hOrdered
  | copied _ _ _ _ => exact gathered_gather srv mem site ref l x _ hCount hOrdered
  | overflow _ _ _ => trivial
  | missing _ _ _ _ => trivial

/-! ## Runs -/

/-- The text of each value is read as that value. -/
def Readable (printed : List Json) : Prop :=
  ∀ v ∈ printed, Parser.parse (text v) = .ok v

theorem readable_snoc {printed : List Json} (h : Readable printed) {j v : Json} (hOrdered : Ordered j)
    (hDump : dump j = .ok v) : Readable (printed ++ [v]) := by
  intro v' hv'
  rcases List.mem_append.mp hv' with hv' | hv'
  · exact h v' hv'
  · rw [List.mem_singleton.mp hv', text_dump j hDump]
    exact parse_text hOrdered hDump

theorem resultStep_readable (srv : Server σ) (mem : CounterSite → Bytes) (t i : Nat)
    (result : BrowseResult) {c : Counter σ} (h : Readable c.printed) :
    Ends (fun c' => Readable c'.printed) (fun e => Readable e.2.printed)
      (resultStep srv mem t i result c) := by
  have hLoop : Ends Gathered (fun _ => True)
      (referenceLoop srv mem t i result.references (startResult c)) := by
    rw [referenceLoop]
    exact forEach_preserves (fun j ref x _ hx => referenceStep_gathered srv mem _ ref hx)
      (gathered_start c)
  rw [resultStep]
  generalize referenceLoop srv mem t i result.references (startResult c) = outcome at hLoop
  cases outcome with
  | error e => exact h
  | ok x =>
    have hOrdered : Ordered x.dataValue := Gathered.ordered hLoop
    dsimp only
    cases hDump : dump x.dataValue with
    | error e => exact h
    | ok v => exact readable_snoc h hOrdered hDump

/-- The bytes of `output` are what `dump` gives for the arrays, one after the other. -/
theorem resultStep_writes (srv : Server σ) (mem : CounterSite → Bytes) (t i : Nat)
    (result : BrowseResult) (c c' : Counter σ) (h : resultStep srv mem t i result c = .ok c') :
    ∃ x s, referenceLoop srv mem t i result.references (startResult c) = .ok x ∧
      dumped x.dataValue = .ok s ∧ output c'.printed = output c.printed ++ (s ++ ascii "\n") := by
  rw [resultStep] at h
  cases hLoop : referenceLoop srv mem t i result.references (startResult c) with
  | error e =>
    rw [hLoop] at h
    cases h
  | ok x =>
    rw [hLoop] at h
    dsimp only at h
    cases hDump : dump x.dataValue with
    | error e =>
      rw [hDump] at h
      cases h
    | ok v =>
      rw [hDump] at h
      cases h
      refine ⟨x, text x.dataValue, rfl, Serializer.dumped_of_ok hDump, ?_⟩
      have hLine : output [v] = text x.dataValue ++ ascii "\n" := by
        rw [← text_dump x.dataValue hDump]
        exact List.append_nil _
      exact (output_append _ _).trans (congrArg _ hLine)

theorem createFirst_printed (srv : Server σ) (vars : Json) (c : Counter σ) :
    Ends (fun c' => c'.printed = c.printed) (fun e => e.2.printed = c.printed)
      (createFirst srv vars c) := by
  rw [createFirst]
  cases Nlohmann.stringAt vars 0 (ascii "name") with
  | error e => rfl
  | ok varName => rfl

theorem pass_readable (srv : Server σ) (mem : CounterSite → Bytes) (t : Nat) {c : Counter σ}
    (h : Readable c.printed) :
    Ends (fun c' => Readable c'.printed) (fun e => Readable e.2.printed) (pass srv mem t c) := by
  rw [pass]
  exact forEach_preserves (I := fun c' : Counter σ => Readable c'.printed)
    (fun i result c' _ h' => resultStep_readable srv mem t i result h') h

theorem iteration_readable (srv : Server σ) (mem : CounterSite → Bytes) (vars : Json) (t : Nat)
    {c : Counter σ} (h : Readable c.printed) :
    Ends (fun c' => Readable c'.printed) (fun e => Readable e.2.printed)
      (iteration srv mem vars t c) := by
  rw [iteration]
  dsimp only
  split
  · exact h
  · split
    · exact h
    · split
      · apply ((createFirst_printed srv vars _).imp (fun _ hc => hc) (fun e he => he ▸ h)).bind
        intro c' hPrinted
        exact pass_readable srv mem t (hPrinted ▸ h)
      · exact pass_readable srv mem t h

theorem mainLoop_readable (srv : Nat → Server σ) (mem : CounterSite → Bytes) (vars : Json) (n : Nat)
    (retval : StatusCode) (s : σ) :
    Ends (fun c => Readable c.printed) (fun e => Readable e.2.printed)
      (mainLoop srv mem vars n (start retval s)) := by
  have hStart : Readable (start retval s).printed := fun _ hv => absurd hv List.not_mem_nil
  exact repeated_ends (I := fun _ (c : Counter σ) => Readable c.printed)
    (fun t c h => iteration_readable (srv t) mem vars t h) hStart n

theorem parse_lines {printed : List Json} (h : Readable printed) :
    ((output printed).splitOn 0x0A).dropLast.map Parser.parse = printed.map .ok := by
  rw [lines_output, List.dropLast_concat, List.map_map]
  exact List.map_congr_left h

/-- What the client has printed when its run ends, in a fault or not. -/
def report (srv : Nat → Server σ) (mem : CounterSite → Bytes) (vars : Json) (n : Nat)
    (retval : StatusCode) (s : σ) : List Json :=
  match mainLoop srv mem vars n (start retval s) with
  | .ok c => c.printed
  | .error (_, c) => c.printed

theorem report_readable (srv : Nat → Server σ) (mem : CounterSite → Bytes) (vars : Json) (n : Nat)
    (retval : StatusCode) (s : σ) : Readable (report srv mem vars n retval s) := by
  have h := mainLoop_readable srv mem vars n retval s
  rw [report]
  generalize mainLoop srv mem vars n (start retval s) = outcome at h
  cases outcome with
  | ok c => exact h
  | error e => exact h

/-- A reader who cuts what `main` writes to `std::cout` at the newlines and parses
each line has what was printed, in its order. -/
theorem lines_parse (srv : Nat → Server σ) (mem : CounterSite → Bytes) (vars : Json) (n : Nat)
    (retval : StatusCode) (s : σ) :
    ((output (report srv mem vars n retval s)).splitOn 0x0A).dropLast.map Parser.parse =
      (report srv mem vars n retval s).map .ok :=
  parse_lines (report_readable srv mem vars n retval s)

end OpcConfig.CounterClient
