import OpcConfig.CounterLines

/-! # From the two files to the loop, `old/client_main.cpp`

`main` parses the settings and the variables before its loop. A file that cannot
be opened is an empty input. The servers may behave differently to clients with
different settings.
-/

namespace OpcConfig.CounterClient

set_option autoImplicit false

open CString Nlohmann Grammar

/-- What `UA_Client_connectUsername` is given. -/
structure Settings where
  address : Bytes
  login : Bytes
  password : Bytes

inductive StartException
  | parse (f : Parser.Failure)
  | json (e : NlohmannError)

/-- `value[key]`, copied. -/
def keyAt (value : Json) (key : Bytes) : Except NlohmannError Json :=
  (value.index key).mapError fun _ => .typeError

def startup (fs fv : Bytes) : Except StartException (Settings × Json) := do
  let dataSettings ← (Parser.parse fs).mapError .parse
  let dataVariables ← (Parser.parse fv).mapError .parse
  let settings ← (keyAt dataSettings (ascii "settings")).mapError .json
  let vars ← (keyAt dataVariables (ascii "variables")).mapError .json
  let address ← (stringAt settings 0 (ascii "address")).mapError .json
  let login ← (stringAt settings 0 (ascii "login")).mapError .json
  let password ← (stringAt settings 0 (ascii "password")).mapError .json
  return ({ address := cstr address, login := cstr login, password := cstr password }, vars)

variable {σ : Type}

def main (srv : Settings → Nat → Server σ) (mem : CounterSite → Bytes) (fs fv : Bytes) (n : Nat)
    (retval : StatusCode) (s : σ) :
    Except StartException (Except (CounterFault × Counter σ) (Counter σ)) := do
  let started ← startup fs fv
  return mainLoop (srv started.1) mem started.2 n (start retval s)

/-! ## The files -/

/-- A text for an object with an array of settings, of which the first counts. -/
def Configured (fs : Bytes) (settings : Settings) : Prop :=
  ∃ top first rest address login password, Text fs (.object top) ∧
    Json.field top (ascii "settings") = some (.array (.object first :: rest)) ∧
    Json.field first (ascii "address") = some (.string address) ∧
    Json.field first (ascii "login") = some (.string login) ∧
    Json.field first (ascii "password") = some (.string password) ∧
    settings = { address := cstr address, login := cstr login, password := cstr password }

/-- A text for null or for an object, which may be without variables. -/
def Provided (fv : Bytes) (vars : Json) : Prop :=
  Text fv .null ∧ vars = .null ∨
    ∃ top, Text fv (.object top) ∧ vars = (Json.field top (ascii "variables")).getD .null

theorem keyAt_eq_ok {value v : Json} {key : Bytes} : keyAt value key = .ok v ↔
    value = .null ∧ v = .null ∨
      ∃ fields, value = .object fields ∧ v = (Json.field fields key).getD .null := by
  cases value with
  | null => simp [keyAt, Json.index, Except.mapError, eq_comm]
  | object fields => simp [keyAt, Json.index, Except.mapError, eq_comm]
  | _ => simp [keyAt, Json.index, Except.mapError]

theorem stringAt_eq_ok {value : Json} {key s : Bytes} : stringAt value 0 key = .ok s ↔
    ∃ first rest, value = .array (.object first :: rest) ∧
      Json.field first key = some (.string s) := by
  rw [stringAt]
  cases value with
  | null => simp [elements, Json.index]
  | array js =>
    cases js with
    | nil => simp [elements, Json.index]
    | cons j js =>
      cases j with
      | null => simp [elements, Json.index]
      | object first =>
        cases hField : Json.field first key with
        | none => simp [elements, Json.index, hField]
        | some v => cases v <;> simp [elements, Json.index, hField]
      | _ => simp [elements, Json.index]
  | _ => simp [elements]

theorem configured_of_parse {fs address login password : Bytes} {dataSettings settings : Json}
    (hParse : Parser.parse fs = .ok dataSettings)
    (hSettings : keyAt dataSettings (ascii "settings") = .ok settings)
    (hAddress : stringAt settings 0 (ascii "address") = .ok address)
    (hLogin : stringAt settings 0 (ascii "login") = .ok login)
    (hPassword : stringAt settings 0 (ascii "password") = .ok password) :
    Configured fs { address := cstr address, login := cstr login, password := cstr password } := by
  obtain ⟨first, rest, rfl, hFirst⟩ := stringAt_eq_ok.mp hAddress
  obtain ⟨_, _, hSame, hSecond⟩ := stringAt_eq_ok.mp hLogin
  cases hSame
  obtain ⟨_, _, hSame, hThird⟩ := stringAt_eq_ok.mp hPassword
  cases hSame
  rcases keyAt_eq_ok.mp hSettings with ⟨_, hNull⟩ | ⟨top, rfl, hField⟩
  · cases hNull
  · have hTop : Json.field top (ascii "settings") = some (.array (.object first :: rest)) := by
      cases h : Json.field top (ascii "settings") with
      | none => rw [h] at hField; cases hField
      | some v => rw [h] at hField; exact congrArg some hField.symm
    exact ⟨top, first, rest, address, login, password, Parser.parse_sound hParse, hTop, hFirst,
      hSecond, hThird, rfl⟩

theorem startup_sound {fs fv : Bytes} {settings : Settings} {vars : Json}
    (h : startup fs fv = .ok (settings, vars)) : Configured fs settings ∧ Provided fv vars := by
  obtain ⟨dataSettings, hParse, h⟩ := Loop.bind_eq_ok h
  obtain ⟨dataVariables, hParse', h⟩ := Loop.bind_eq_ok h
  obtain ⟨settings', hSettings, h⟩ := Loop.bind_eq_ok h
  obtain ⟨vars', hVars, h⟩ := Loop.bind_eq_ok h
  obtain ⟨address, hAddress, h⟩ := Loop.bind_eq_ok h
  obtain ⟨login, hLogin, h⟩ := Loop.bind_eq_ok h
  obtain ⟨password, hPassword, h⟩ := Loop.bind_eq_ok h
  cases h
  refine ⟨configured_of_parse (Loop.mapError_eq_ok hParse) (Loop.mapError_eq_ok hSettings)
    (Loop.mapError_eq_ok hAddress) (Loop.mapError_eq_ok hLogin) (Loop.mapError_eq_ok hPassword), ?_⟩
  have hText := Parser.parse_sound (Loop.mapError_eq_ok hParse')
  rcases keyAt_eq_ok.mp (Loop.mapError_eq_ok hVars) with ⟨rfl, hNull⟩ | ⟨top, rfl, hField⟩
  · exact Or.inl ⟨hText, hNull⟩
  · exact Or.inr ⟨top, hText, hField⟩

theorem Provided.keyAt {fv : Bytes} {vars : Json} (h : Provided fv vars) :
    ∃ dataVariables, Parser.parse fv = .ok dataVariables ∧
      keyAt dataVariables (ascii "variables") = .ok vars := by
  rcases h with ⟨hText, hNull⟩ | ⟨top, hText, hField⟩
  · exact ⟨.null, Parser.parse_complete hText, keyAt_eq_ok.mpr (Or.inl ⟨rfl, hNull⟩)⟩
  · exact ⟨.object top, Parser.parse_complete hText, keyAt_eq_ok.mpr (Or.inr ⟨top, rfl, hField⟩)⟩

theorem startup_complete {fs fv : Bytes} {settings : Settings} {vars : Json}
    (hSettings : Configured fs settings) (hVars : Provided fv vars) :
    startup fs fv = .ok (settings, vars) := by
  obtain ⟨top, first, rest, address, login, password, hText, hTop, hAddress, hLogin, hPassword, rfl⟩ :=
    hSettings
  obtain ⟨dataVariables, hParse, hKey⟩ := hVars.keyAt
  have hArray : keyAt (.object top) (ascii "settings") = .ok (.array (.object first :: rest)) :=
    keyAt_eq_ok.mpr (Or.inr ⟨top, rfl, by rw [hTop]; rfl⟩)
  have hString {key s : Bytes} (h : Json.field first key = some (.string s)) :
      stringAt (.array (.object first :: rest)) 0 key = .ok s :=
    stringAt_eq_ok.mpr ⟨first, rest, rfl, h⟩
  rw [startup, Parser.parse_complete hText, hParse]
  dsimp only [Except.mapError, bind, Except.bind]
  rw [hArray, hKey]
  dsimp only
  rw [hString hAddress, hString hLogin, hString hPassword]
  rfl

/-- The loop is reached exactly with two texts of the grammar that have the
fields which `main` asks for, each in its place. -/
theorem main_enters_iff (srv : Settings → Nat → Server σ) (mem : CounterSite → Bytes) (fs fv : Bytes)
    (n : Nat) (retval : StatusCode) (s : σ)
    (run : Except (CounterFault × Counter σ) (Counter σ)) :
    main srv mem fs fv n retval s = .ok run ↔
      ∃ settings vars, Configured fs settings ∧ Provided fv vars ∧
        run = mainLoop (srv settings) mem vars n (start retval s) := by
  constructor
  · intro h
    obtain ⟨⟨settings, vars⟩, hStartup, h⟩ := Loop.bind_eq_ok h
    cases h
    obtain ⟨hSettings, hVars⟩ := startup_sound hStartup
    exact ⟨settings, vars, hSettings, hVars, rfl⟩
  · rintro ⟨settings, vars, hSettings, hVars, rfl⟩
    rw [main, startup_complete hSettings hVars]
    rfl

-- The settings of `configs/client_test.json` are an object, not an array of objects.
example : (startup
    (ascii "\x7b\"settings\":\x7b\"address\":\"opc.tcp://192.168.1.163\",\"port\":\"62640\"\x7d\x7d")
    (ascii "\x7b\"variables\":[]\x7d")).isOk = false := by decide +kernel

end OpcConfig.CounterClient
