import OpcConfig.SyncLater
import OpcConfig.SyncUpdate

/-! # The order of the entries and of the references

With pairwise different names it makes no difference which nodes a pass assigns
to. What is left to differ are the places of the local variables, and whether an
entry gives a variable a value before another entry reports it.
-/

namespace OpcConfig.SyncClient

set_option autoImplicit false

open CString LastWrite

structure Policy.SameAnswers (P P' : Policy) : Prop where
  accepts : P.accepts = P'.accepts
  freshDisplayName : P.freshDisplayName = P'.freshDisplayName
  freshReadable : P.freshReadable = P'.freshReadable

theorem Policy.SameAnswers.after_eq {P P' : Policy} (h : Policy.SameAnswers P P') :
    after P = after P' := by
  obtain ⟨accepts, freshDisplayName, freshReadable, arrange, hArrange⟩ := P
  obtain ⟨accepts', freshDisplayName', freshReadable', arrange', hArrange'⟩ := P'
  obtain ⟨rfl, rfl, rfl⟩ := h
  rfl

section

variable {P P' : Policy} {mem mem' : Memory} {conv : Bytes → Bytes} {entries entries' : List Entry}

theorem foundBy_congr (hPolicies : Policy.SameAnswers P P') (hMem : ReadsAs mem conv)
    (hMem' : ReadsAs mem' conv) (hEntries : entries.Perm entries') (s : AddressSpace) (t : Nat) :
    foundBy P mem entries s t = foundBy P' mem' entries' s t := by
  have hMissing : missing mem s 0 (listed P 0 s) entries =
      missing mem' s 0 (listed P' 0 s) entries' := by
    rw [Bool.eq_iff_iff, missing_listed hMem, missing_listed hMem']
    simp only [hEntries.mem_iff]
  rw [foundBy, foundBy, hMissing, hPolicies.after_eq]

theorem lastWrite_none_congr (hPolicies : Policy.SameAnswers P P') (hMem : ReadsAs mem conv)
    (hMem' : ReadsAs mem' conv) (hEntries : entries.Perm entries')
    (hValues : ∀ e ∈ entries, e.value.Supported) (s : AddressSpace) (t : Nat) (id : NodeId) :
    lastWrite P mem entries s t id = none ↔ lastWrite P' mem' entries' s t id = none := by
  have hValues' : ∀ e ∈ entries', e.value.Supported := fun e he => hValues e (hEntries.mem_iff.mpr he)
  rw [lastWrite_eq_none_iff hMem hValues, lastWrite_eq_none_iff hMem' hValues',
    foundBy_congr hPolicies hMem hMem' hEntries]
  simp only [Takes, hPolicies.accepts, hEntries.mem_iff]

/-- Two runs end in the same space exactly when the last writes send the same. -/
theorem passes_eq_iff (hPolicies : Policy.SameAnswers P P') (hMem : ReadsAs mem conv)
    (hMem' : ReadsAs mem' conv) (hEntries : entries.Perm entries')
    (hValues : ∀ e ∈ entries, e.value.Supported) (s : AddressSpace) (n : Nat) :
    passes P mem entries s (n + 1) = passes P' mem' entries' s (n + 1) ↔
      ∀ id, lastWrite P mem entries s n id = lastWrite P' mem' entries' s n id := by
  have hValues' : ∀ e ∈ entries', e.value.Supported := fun e he => hValues e (hEntries.mem_iff.mpr he)
  rw [passes_succ hMem hValues, passes_succ hMem' hValues',
    foundBy_congr hPolicies hMem hMem' hEntries]
  constructor
  · intro hSame id
    have hNone := lastWrite_none_congr hPolicies hMem hMem' hEntries hValues s n id
    have hValue := congrArg (fun s => s.value id) hSame
    dsimp only [withValues] at hValue
    cases hLast : lastWrite P mem entries s n id with
    | none => exact (hNone.mp hLast).symm
    | some v =>
      cases hLast' : lastWrite P' mem' entries' s n id with
      | none =>
        rw [hNone.mpr hLast'] at hLast
        cases hLast
      | some w =>
        rw [hLast, hLast'] at hValue
        exact congrArg some hValue
  · intro hLast
    simp only [hLast]

theorem lastWrite_congr_of_keeps (hPolicies : Policy.SameAnswers P P') (hMem : ReadsAs mem conv)
    (hMem' : ReadsAs mem' conv) (hKeeps : mem.Keeps) (hKeeps' : mem'.Keeps)
    (hEntries : entries.Perm entries') (hNames : (entries.map fun e => cstr e.name).Nodup)
    (hValues : ∀ e ∈ entries, e.value.Supported) (s : AddressSpace) (t : Nat) (id : NodeId) :
    lastWrite P mem entries s t id = lastWrite P' mem' entries' s t id := by
  have hValues' : ∀ e ∈ entries', e.value.Supported := fun e he => hValues e (hEntries.mem_iff.mpr he)
  have hAccepted (s : AddressSpace) : P.accepted s.nodes = P'.accepted s.nodes := by
    funext id v
    rw [Policy.accepted, Policy.accepted, hPolicies.accepts]
  rw [lastWrite, lastWrite, foundBy_congr hPolicies hMem hMem' hEntries, hAccepted]
  apply last_congr
  · exact agreeing_pass_kept hMem hKeeps hValues hNames _ id
  · intro v
    rw [mem_pass_kept hMem hKeeps hValues, mem_pass_kept hMem' hKeeps' hValues']
    simp only [hEntries.mem_iff]

end

/-- Any order of the entries and of the references in each browse response leads
to the same server after the same number of passes exactly when in neither an
entry reports a value that lacks its element, and the last write to each variable
finds the same in the place of its local variable. It does where that is kept. -/
theorem order_iff (P P' : Policy) (hPolicies : Policy.SameAnswers P P') (mem mem' : Memory)
    (hMem : Faithful mem) (hMem' : Faithful mem') (entries entries' : List Entry)
    (hEntries : entries.Perm entries') (hNames : (entries.map Entry.name).Nodup)
    (hNul : ∀ e ∈ entries, (0 : UInt8) ∉ e.name) (hValues : ∀ e ∈ entries, e.value.Supported)
    (s : AddressSpace) (n : Nat) :
    ((∃ s', Reaches P mem entries n s s' ∧ Reaches P' mem' entries' n s s') ↔
      n = 0 ∨ ¬ Exposed P cstr s entries ∧ ¬ Exposed P' cstr s entries' ∧
        ∀ id, lastWrite P mem entries s (n - 1) id = lastWrite P' mem' entries' s (n - 1) id) ∧
    (mem.Keeps → mem'.Keeps →
      ∀ id, lastWrite P mem entries s (n - 1) id = lastWrite P' mem' entries' s (n - 1) id) := by
  have hValues' : ∀ e ∈ entries', e.value.Supported := fun e he => hValues e (hEntries.mem_iff.mpr he)
  refine ⟨?_, fun hKeeps hKeeps' id => lastWrite_congr_of_keeps hPolicies hMem.readsAs hMem'.readsAs
    hKeeps hKeeps' hEntries (cstr_names hNul hNames) hValues s (n - 1) id⟩
  cases n with
  | zero =>
    have hNone (P : Policy) (mem : Memory) (entries : List Entry) : Reaches P mem entries 0 s s :=
      reaches_iff.mpr ⟨rfl, fun t ht => absurd ht (Nat.not_lt_zero t)⟩
    exact iff_of_true ⟨s, hNone P mem entries, hNone P' mem' entries'⟩ (Or.inl rfl)
  | succ n =>
    have hSame := passes_eq_iff hPolicies hMem.readsAs hMem'.readsAs hEntries hValues s n
    rw [Nat.add_sub_cancel, ← hSame]
    constructor
    · rintro ⟨s', hReaches, hReaches'⟩
      obtain ⟨rfl, hExposed⟩ := (reaches_succ_iff hMem.readsAs hValues).mp hReaches
      obtain ⟨hEq, hExposed'⟩ := (reaches_succ_iff hMem'.readsAs hValues').mp hReaches'
      exact Or.inr ⟨hExposed, hExposed', hEq⟩
    · rintro (hZero | ⟨hExposed, hExposed', hEq⟩)
      · exact absurd hZero (Nat.succ_ne_zero n)
      · exact ⟨_, (reaches_succ_iff hMem.readsAs hValues).mpr ⟨rfl, hExposed⟩,
          (reaches_succ_iff hMem'.readsAs hValues').mpr ⟨hEq, hExposed'⟩⟩

theorem no_int32s : ∀ element ∈ ([] : List Scalar), element.type = .int32 := List.forall_mem_nil _

/-- Two variables, of which the second has an array without elements. -/
def hollowBeside : AddressSpace where
  nodes id :=
    if id = node7 then some ⟨.variable, ⟨1, ascii "a"⟩, ascii "a", UaType.int32.typeId, true⟩
    else if id = ⟨1, .numeric 8⟩ then
      some ⟨.variable, ⟨1, ascii "e"⟩, ascii "e", UaType.int32.typeId, true⟩
    else none
  value id := if id = node7 then .scalar (.int32 0) else .array ⟨.int32, [], no_int32s⟩
  objects := [node7, ⟨1, .numeric 8⟩]

theorem order_iff_two :
    ((∃ s', Reaches (plainPolicy false) zeroMemory [integerEntry "a" 1, integerEntry "b" 2] 3
        intNode s' ∧
      Reaches (plainPolicy false) zeroMemory [integerEntry "b" 2, integerEntry "a" 1] 3
        intNode s') ↔
      3 = 0 ∨ ¬ Exposed (plainPolicy false) cstr intNode [integerEntry "a" 1, integerEntry "b" 2] ∧
        ¬ Exposed (plainPolicy false) cstr intNode [integerEntry "b" 2, integerEntry "a" 1] ∧
        ∀ id, lastWrite (plainPolicy false) zeroMemory [integerEntry "a" 1, integerEntry "b" 2]
            intNode (3 - 1) id =
          lastWrite (plainPolicy false) zeroMemory [integerEntry "b" 2, integerEntry "a" 1]
            intNode (3 - 1) id) ∧
    (zeroMemory.Keeps → zeroMemory.Keeps →
      ∀ id, lastWrite (plainPolicy false) zeroMemory [integerEntry "a" 1, integerEntry "b" 2]
          intNode (3 - 1) id =
        lastWrite (plainPolicy false) zeroMemory [integerEntry "b" 2, integerEntry "a" 1]
          intNode (3 - 1) id) := by
  apply order_iff _ _ ⟨rfl, rfl, rfl⟩ _ _ zeroMemory_faithful zeroMemory_faithful
  · exact List.Perm.swap _ _ _
  · decide
  · simp only [List.forall_mem_cons]
    decide
  · simp only [List.forall_mem_cons]
    decide

/-- The entry `e` gives its variable a value before the entry `a` reports it, but
not the other way round; and a place that is used again changes what is written. -/
theorem order_fails : Faithful zeroMemory ∧ Faithful reusedMemory ∧
    (¬ ∃ s', Reaches (plainPolicy false) zeroMemory [integerEntry "e" 1, integerEntry "a" 2] 1
        hollowBeside s' ∧
      Reaches (plainPolicy false) zeroMemory [integerEntry "a" 2, integerEntry "e" 1] 1
        hollowBeside s') ∧
    ¬ ∃ s', Reaches (plainPolicy false) zeroMemory [integerEntry "a" 1] 1 intNode s' ∧
      Reaches (plainPolicy false) reusedMemory [integerEntry "a" 1] 1 intNode s' := by
  refine ⟨zeroMemory_faithful, zeroMemory_faithful, ?_, ?_⟩
  · rintro ⟨s', -, hReaches⟩
    have hSupported : ∀ e ∈ [integerEntry "a" 2, integerEntry "e" 1], e.value.Supported := by
      simp only [List.forall_mem_cons]
      decide
    apply ((reaches_succ_iff zeroMemory_faithful.readsAs hSupported).mp hReaches).2
    refine ⟨⟨1, .numeric 8⟩, List.mem_cons_of_mem _ List.mem_cons_self, _, rfl, rfl, rfl, rfl, 0, _, rfl,
      by decide, ?_⟩
    rintro ⟨e, he, _⟩
    cases he
  · rintro ⟨s', hReaches, hReaches'⟩
    have hSame := (reaches_one_iff.mp hReaches).1.symm.trans (reaches_one_iff.mp hReaches').1
    have hValue := congrArg (fun s => s.value node7) hSame
    exact absurd hValue (by decide)

end OpcConfig.SyncClient
