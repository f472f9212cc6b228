import OpcConfig.SyncUpdate

/-! # The report printed at the end of a pass

What `VariantToJson` sets is set in a copy, so the report never gets beyond
null for a name.
-/

namespace OpcConfig.SyncClient

set_option autoImplicit false

open CString Loop

def Reported (varOut : Json) (name : Bytes) (value : Variant) : Prop :=
  ∃ fields element j, varOut = .object fields ∧ Json.field fields name = some (.object element) ∧
    Json.field element (ascii "value") = some j ∧ value.holds j = true

theorem Blank.not_reported {varOut : Json} (h : Blank varOut) (name : Bytes) (value : Variant) :
    ¬ Reported varOut name value := by
  rintro ⟨fields, element, j, rfl, hField, _⟩
  rcases h with h | ⟨fields', h, hNull⟩
  · cases h
  · cases h
    cases hNull name _ hField

section

variable {σ : Type} {srv : Server σ} {mem : Memory} {vars : List Json} {t : Nat} {c : Client σ}

theorem entryStep_printed (response : BrowseResponse) (i : Nat) (refs : List ReferenceDescription)
    (k : Nat) (entry : Json) : Ends (fun c' => c'.printed = c.printed) (fun _ => True)
      (entryStep srv mem t response i refs k entry c) := by
  rw [entryStep]
  split
  · trivial
  · split
    · split
      · trivial
      · rfl
    · rfl

theorem pass_printed : Ends (fun c' => c'.printed = c.printed ++ [c'.varOut]) (fun _ => True)
    (pass srv mem vars t c) := by
  rw [pass]
  apply Ends.bind (p := fun c' : Client σ => c'.printed = c.printed)
  · apply forEach_preserves (I := fun c' : Client σ => c'.printed = c.printed)
    · intro i result c' _ hc
      apply forEach_preserves (I := fun c' : Client σ => c'.printed = c.printed)
      · intro k entry c'' _ hc
        have hStep : Ends (fun c' => c'.printed = c''.printed) (fun _ => True)
            (entryStep srv mem t (getResponse srv c.server).1 i result.references k entry c'') :=
          entryStep_printed _ _ _ _ _
        exact hStep.imp (fun _ h => h.trans hc) (fun _ h => h)
      · exact hc
    · rfl
  · intro c' hc
    change c'.printed ++ [c'.varOut] = _
    rw [hc]

end

/-- Of a pass that ends well, in any run, the printed report agrees with the
server only if the browse of the pass lists no readable variable. -/
theorem reported_iff (P : Policy) (mem : Memory) (vars : List Json) (s : AddressSpace) (n : Nat)
    (c c' : Client AddressSpace) (hRun : mainLoop P.server mem vars n (start s) = .ok c)
    (hPass : iteration (P.server n) mem vars n c = .ok c') :
    ∃ varOut, c'.printed = c.printed ++ [varOut] ∧
      ((∀ ref ∈ (getResponse (P.server n) c.server).1.references,
          c.server.readableVariable ref.nodeId = true →
            Reported varOut ref.displayName (c'.server.value ref.nodeId)) ↔
        ∀ ref ∈ (getResponse (P.server n) c.server).1.references,
          c.server.readableVariable ref.nodeId = false) := by
  have hLog := mainLoop_ends P.server mem vars n s
  rw [hRun] at hLog
  have hLog' := iteration_ends hLog n
  rw [hPass] at hLog'
  have hPrinted : Ends (fun c' => c'.printed = c.printed ++ [c'.varOut]) (fun _ => True)
      (iteration (P.server n) mem vars n c) := pass_printed
  rw [hPass] at hPrinted
  refine ⟨c'.varOut, hPrinted, ?_⟩
  constructor
  · intro hReported ref hRef
    rw [← Bool.not_eq_true]
    intro hReadable
    exact hLog'.blank.not_reported _ _ (hReported ref hRef hReadable)
  · intro hNone ref hRef hReadable
    rw [hNone ref hRef] at hReadable
    cases hReadable

theorem reported_iff_one : ∃ c c',
    mainLoop (plainPolicy false).server zeroMemory [entryOf "a" 1] 0 (start intNode) = .ok c ∧
    iteration ((plainPolicy false).server 0) zeroMemory [entryOf "a" 1] 0 c = .ok c' ∧
    ∃ varOut, c'.printed = c.printed ++ [varOut] ∧
      ((∀ ref ∈ (getResponse ((plainPolicy false).server 0) c.server).1.references,
          c.server.readableVariable ref.nodeId = true →
            Reported varOut ref.displayName (c'.server.value ref.nodeId)) ↔
        ∀ ref ∈ (getResponse ((plainPolicy false).server 0) c.server).1.references,
          c.server.readableVariable ref.nodeId = false) := by
  refine ⟨start intNode, _, rfl, rfl, ?_⟩
  apply reported_iff (plainPolicy false) zeroMemory [entryOf "a" 1] intNode 0
  · rfl
  · rfl

theorem reported_fails : ∃ c',
    iteration ((plainPolicy false).server 0) zeroMemory [entryOf "b" 1] 0 (start intNode) = .ok c' ∧
    intNode.readableVariable node7 = true ∧
    ∀ varOut ∈ c'.printed, ¬ Reported varOut (ascii "a") (c'.server.value node7) := by
  refine ⟨_, rfl, rfl, ?_⟩
  intro varOut hPrinted
  rw [List.mem_singleton.mp hPrinted]
  rintro ⟨fields, element, j, hFields, hField, _⟩
  cases hFields
  have hNull : some Json.null = some (.object element) := hField
  cases hNull

end OpcConfig.SyncClient
