import OpcConfig.Library.Loop
import OpcConfig.Json

/-! # The security settings of `new_client.cpp`

`InitSecureClient` turns two strings of the settings file into a client
configuration. What open62541's default encryption leaves in the configuration
is a parameter; an endpoint that is ruled out for another reason than its mode
and its policy is taken to be missing from the list of offered ones.
-/

namespace OpcConfig

set_option autoImplicit false

open CString Loop

inductive MessageSecurityMode
  | invalid | none | sign | signAndEncrypt
  deriving DecidableEq

inductive ApplicationType
  | server | client | clientAndServer | discoveryServer
  deriving DecidableEq

structure ApplicationDescription where
  applicationUri : Bytes
  applicationType : ApplicationType
  deriving DecidableEq

structure ClientConfig where
  securityMode : MessageSecurityMode
  securityPolicyUri : Bytes
  clientDescription : ApplicationDescription
  deriving DecidableEq

/-- The zeroed configuration of `UA_Client_new`. -/
def ClientConfig.new : ClientConfig :=
  { securityMode := .invalid, securityPolicyUri := []
    clientDescription := { applicationUri := [], applicationType := .server } }

structure EndpointDescription where
  securityMode : MessageSecurityMode
  securityPolicyUri : Bytes
  deriving DecidableEq

/-- The endpoints open62541 connects to: a mode that is not set and a policy
that is empty stand for any. -/
def ClientConfig.Allows (cc : ClientConfig) (endpoint : EndpointDescription) : Prop :=
  (cc.securityMode = .invalid ∨ endpoint.securityMode = cc.securityMode) ∧
    (cc.securityPolicyUri = [] ∨ endpoint.securityPolicyUri = cc.securityPolicyUri)

instance (cc : ClientConfig) (endpoint : EndpointDescription) : Decidable (cc.Allows endpoint) :=
  inferInstanceAs (Decidable (_ ∧ _))

structure Connection where
  config : ClientConfig
  url : Bytes
  login : Bytes
  password : Bytes
  deriving DecidableEq

inductive MainException
  | json (e : JsonException)
  | badAlloc
  deriving DecidableEq

namespace SecureClient

abbrev DefaultEncryption := ClientConfig → Bytes → Bytes → ClientConfig

def basePolicy : Bytes := ascii "http://opcfoundation.org/UA/SecurityPolicy#"

def setSecurityMode (secMode : Bytes) (cc : ClientConfig) : ClientConfig :=
  if secMode = ascii "None" then { cc with securityMode := .none }
  else if secMode = ascii "Sign" then { cc with securityMode := .sign }
  else if secMode = ascii "SignAndEncrypt" then { cc with securityMode := .signAndEncrypt }
  else cc

/-- `none` is the exception of `new char[uSize]` where the certificate cannot be
read and its size is -1. The key is empty where it cannot be read. -/
def initSecureClient (setDefaultEncryption : DefaultEncryption) (files : String → Option Bytes)
    (secMode secPolicy : Bytes) : Option ClientConfig := do
  let cert ← files "../uaexpert.der"
  let key := (files "../uaexpert_key.pem").getD []
  let cc := setDefaultEncryption ClientConfig.new cert key
  let cc := { cc with securityPolicyUri := [] }
  let cc := setSecurityMode secMode cc
  let cc := { cc with securityPolicyUri := cstr (basePolicy ++ secPolicy) }
  return { cc with
    clientDescription :=
      { applicationUri := ascii "urn:DESKTOP-P1QNPM6:UnifiedAutomation:UaExpert"
        applicationType := .client } }

def setting (settings : Json) (key : String) : Except JsonException Bytes := do
  (← settings.index (ascii key)).asString

/-- What `main` hands to `UA_Client_connectUsername`. -/
def connection (setDefaultEncryption : DefaultEncryption) (files : String → Option Bytes)
    (settings : Json) : Except MainException Connection := do
  let messageSecurity ← (setting settings "messageSecurity").mapError .json
  let securityPolicy ← (setting settings "securityPolicy").mapError .json
  match initSecureClient setDefaultEncryption files messageSecurity securityPolicy with
  | none => throw .badAlloc
  | some config =>
    let address ← (setting settings "address").mapError .json
    let port ← (setting settings "port").mapError .json
    let endpoint ← (setting settings "endpoint").mapError .json
    let login ← (setting settings "login").mapError .json
    let password ← (setting settings "password").mapError .json
    return { config, url := cstr (address ++ ascii ":" ++ port ++ endpoint), login := cstr login,
             password := cstr password }

/-! ## What the settings ask for -/

def namedMode (messageSecurity : Bytes) : Option MessageSecurityMode :=
  if messageSecurity = ascii "None" then some .none
  else if messageSecurity = ascii "Sign" then some .sign
  else if messageSecurity = ascii "SignAndEncrypt" then some .signAndEncrypt
  else none

/-- Over every allowed endpoint go the mode and the policy of the settings. -/
def FailsClosed (messageSecurity securityPolicy : Bytes) (cc : ClientConfig)
    (endpoints : List EndpointDescription) : Prop :=
  ∀ endpoint ∈ endpoints, cc.Allows endpoint → ∃ mode, namedMode messageSecurity = some mode ∧
    endpoint.securityMode = mode ∧ endpoint.securityPolicyUri = basePolicy ++ securityPolicy

theorem namedMode_ne_invalid (messageSecurity : Bytes) :
    namedMode messageSecurity ≠ some .invalid := by
  rw [namedMode]
  repeat' split
  all_goals exact fun h => by cases h

theorem setSecurityMode_securityMode (secMode : Bytes) (cc : ClientConfig) :
    (setSecurityMode secMode cc).securityMode = (namedMode secMode).getD cc.securityMode := by
  rw [setSecurityMode, namedMode]
  repeat' split
  all_goals rfl

section

variable {setDefaultEncryption : DefaultEncryption} {files : String → Option Bytes}
  {secMode secPolicy : Bytes} {cc : ClientConfig}

theorem initSecureClient_policy
    (h : initSecureClient setDefaultEncryption files secMode secPolicy = some cc) :
    cc.securityPolicyUri = basePolicy ++ cstr secPolicy := by
  obtain ⟨cert, _, hConfig⟩ := Option.bind_eq_some_iff.mp h
  rw [← Option.some.inj hConfig]
  exact cstr_append (by decide) secPolicy

theorem initSecureClient_mode (hDefault : ∀ cert key,
      (setDefaultEncryption ClientConfig.new cert key).securityMode = .invalid)
    (h : initSecureClient setDefaultEncryption files secMode secPolicy = some cc) :
    cc.securityMode = (namedMode secMode).getD .invalid := by
  obtain ⟨cert, _, hConfig⟩ := Option.bind_eq_some_iff.mp h
  rw [← Option.some.inj hConfig]
  change (setSecurityMode secMode _).securityMode = _
  rw [setSecurityMode_securityMode]
  change (namedMode secMode).getD
    (setDefaultEncryption ClientConfig.new cert _).securityMode = _
  rw [hDefault]

theorem allows_iff (hDefault : ∀ cert key,
      (setDefaultEncryption ClientConfig.new cert key).securityMode = .invalid)
    (h : initSecureClient setDefaultEncryption files secMode secPolicy = some cc)
    (endpoint : EndpointDescription) :
    cc.Allows endpoint ↔ endpoint.securityPolicyUri = basePolicy ++ cstr secPolicy ∧
      ∀ mode, namedMode secMode = some mode → endpoint.securityMode = mode := by
  have hPolicy : cc.securityPolicyUri ≠ [] := by
    rw [initSecureClient_policy h]
    exact List.append_ne_nil_of_left_ne_nil (by decide) _
  have hMode := initSecureClient_mode hDefault h
  rw [ClientConfig.Allows, or_iff_right hPolicy, initSecureClient_policy h, and_comm]
  apply and_congr_right'
  cases hNamed : namedMode secMode with
  | none =>
    rw [hNamed] at hMode
    simp [hMode]
  | some mode =>
    rw [hNamed] at hMode
    have hSet : cc.securityMode ≠ .invalid := by
      rw [hMode]
      rintro rfl
      exact namedMode_ne_invalid secMode hNamed
    rw [or_iff_right hSet, hMode]
    simp

end

theorem policy_eq_iff (securityPolicy : Bytes) :
    basePolicy ++ cstr securityPolicy = basePolicy ++ securityPolicy ↔ (0 : UInt8) ∉ securityPolicy := by
  rw [List.append_cancel_left_eq]
  exact ⟨fun h => h ▸ zero_not_mem_cstr securityPolicy, cstr_eq_self⟩

/-- The client lets nothing else through exactly when every offered endpoint
with the policy up to its first NUL and with the mode, or with any mode if the
settings name none, is what the settings ask for. -/
theorem fails_closed_iff (setDefaultEncryption : DefaultEncryption) (hDefault : ∀ cert key,
      (setDefaultEncryption ClientConfig.new cert key).securityMode = .invalid)
    (files : String → Option Bytes) (messageSecurity securityPolicy : Bytes) (cc : ClientConfig)
    (h : initSecureClient setDefaultEncryption files messageSecurity securityPolicy = some cc)
    (endpoints : List EndpointDescription) :
    FailsClosed messageSecurity securityPolicy cc endpoints ↔
      ∀ endpoint ∈ endpoints, endpoint.securityPolicyUri = basePolicy ++ cstr securityPolicy →
        namedMode messageSecurity ≠ none ∧
        ((0 : UInt8) ∈ securityPolicy → namedMode messageSecurity ≠ some endpoint.securityMode) := by
  apply forall₂_congr
  intro endpoint _
  rw [allows_iff hDefault h]
  constructor
  · intro hClosed hPolicy
    constructor
    · intro hNone
      obtain ⟨mode, hMode, _⟩ := hClosed ⟨hPolicy, fun mode hMode => by rw [hNone] at hMode; cases hMode⟩
      rw [hNone] at hMode
      cases hMode
    · intro hNul hNamed
      obtain ⟨_, _, _, hUri⟩ := hClosed ⟨hPolicy, fun mode hMode => by
        rw [hNamed] at hMode
        exact Option.some.inj hMode⟩
      exact (policy_eq_iff securityPolicy).mp (hPolicy.symm.trans hUri) hNul
  · rintro hOffered ⟨hPolicy, hMode⟩
    obtain ⟨hNamed, hNul⟩ := hOffered hPolicy
    cases hMessage : namedMode messageSecurity with
    | none => exact absurd hMessage hNamed
    | some mode =>
      have hSame := hMode mode hMessage
      refine ⟨mode, rfl, hSame, hPolicy.trans ((policy_eq_iff securityPolicy).mpr fun hMem => ?_)⟩
      rw [hSame] at hNul
      exact hNul hMem hMessage

def plainEncryption : DefaultEncryption := fun cc _ _ => cc

def endpointOf (mode : MessageSecurityMode) : EndpointDescription :=
  ⟨mode, basePolicy ++ ascii "Basic256Sha256"⟩

def clientOf (mode : MessageSecurityMode) : ClientConfig :=
  ⟨mode, basePolicy ++ ascii "Basic256Sha256",
    ⟨ascii "urn:DESKTOP-P1QNPM6:UnifiedAutomation:UaExpert", .client⟩⟩

theorem fails_closed_iff_sign :
    FailsClosed (ascii "Sign") (ascii "Basic256Sha256") (clientOf .sign) [endpointOf .sign] ↔
      ∀ endpoint ∈ [endpointOf .sign],
        endpoint.securityPolicyUri = basePolicy ++ cstr (ascii "Basic256Sha256") →
          namedMode (ascii "Sign") ≠ none ∧ ((0 : UInt8) ∈ ascii "Basic256Sha256" →
            namedMode (ascii "Sign") ≠ some endpoint.securityMode) :=
  fails_closed_iff plainEncryption (fun _ _ => rfl) (fun _ => some []) _ _ (clientOf .sign) rfl _

/-- With the mode spelt `signAndEncrypt` an endpoint that only signs is accepted. -/
theorem fails_closed_fails :
    initSecureClient plainEncryption (fun _ => some []) (ascii "signAndEncrypt")
      (ascii "Basic256Sha256") = some (clientOf .invalid) ∧
    ¬ FailsClosed (ascii "signAndEncrypt") (ascii "Basic256Sha256") (clientOf .invalid)
      [endpointOf .sign] := by
  refine ⟨rfl, fun hClosed => ?_⟩
  obtain ⟨mode, hNamed, _⟩ := hClosed (endpointOf .sign) List.mem_cons_self ⟨Or.inl rfl, Or.inr rfl⟩
  cases hNamed

/-- The strings `main` reads are those that `InitSecureClient` gets. -/
theorem connection_config {setDefaultEncryption : DefaultEncryption} {files : String → Option Bytes}
    {settings : Json} {c : Connection} (h : connection setDefaultEncryption files settings = .ok c) :
    ∃ messageSecurity securityPolicy, setting settings "messageSecurity" = .ok messageSecurity ∧
      setting settings "securityPolicy" = .ok securityPolicy ∧
      initSecureClient setDefaultEncryption files messageSecurity securityPolicy = some c.config := by
  obtain ⟨messageSecurity, hMode, h⟩ := bind_eq_ok h
  obtain ⟨securityPolicy, hPolicy, h⟩ := bind_eq_ok h
  refine ⟨messageSecurity, securityPolicy, mapError_eq_ok hMode, mapError_eq_ok hPolicy, ?_⟩
  cases hClient : initSecureClient setDefaultEncryption files messageSecurity securityPolicy with
  | none =>
    rw [hClient] at h
    cases h
  | some config =>
    rw [hClient] at h
    obtain ⟨address, _, h⟩ := bind_eq_ok h
    obtain ⟨port, _, h⟩ := bind_eq_ok h
    obtain ⟨endpoint, _, h⟩ := bind_eq_ok h
    obtain ⟨login, _, h⟩ := bind_eq_ok h
    obtain ⟨password, _, h⟩ := bind_eq_ok h
    rw [← Except.ok.inj h]

end SecureClient

end OpcConfig
