import Mathlib.Data.List.Induction
import OpcConfig.SyncLater
import OpcConfig.SyncUpdate

/-! # Passes after the first

No later pass changes anything exactly when each of them finds what the first one
has left: it is not left itself, it creates nothing, and what it writes is there
already. Where display names are read in one fixed way and the places of the local
variables are kept, the only node that may change is the one that the first pass
has created.
-/

namespace OpcConfig.SyncClient

set_option autoImplicit false

open CString LastWrite

/-- The pass `t` comes to its end, creates nothing, and sends to each node what the
first pass has left there. -/
structure SameAgain (P : Policy) (mem : Memory) (entries : List Entry) (s : AddressSpace) (t : Nat) :
    Prop where
  whole : ∀ k e j ref, entries[k]? = some e →
    (listed P t (foundBy P mem entries s t))[j]? = some ref →
    (foundBy P mem entries s t).readableVariable ref.nodeId = true →
    ¬ Hits mem ⟨t, 0, k, j⟩ ref e.name →
    ((foundBy P mem entries s t).value ref.nodeId).lacks UaType.reported = true →
    lastWrite P mem entries s 0 ref.nodeId = none →
    last (P.accepted (foundBy P mem entries s t).nodes) ref.nodeId
      (passAssignments mem (foundBy P mem entries s t) t (listed P t (foundBy P mem entries s t))
          (entries.take k) ++
        turnAssignments mem (foundBy P mem entries s t) e t k
          ((listed P t (foundBy P mem entries s t)).take j)) ≠ none
  found : (foundBy P mem entries s t).nodes name123 = none →
    missing mem (foundBy P mem entries s t) t (listed P t (foundBy P mem entries s t)) entries = false
  values : ∀ id v, lastWrite P mem entries s t id = some v →
    (lastWrite P mem entries s 0 id).getD ((foundBy P mem entries s t).value id) = v

section

variable {P : Policy} {mem : Memory} {conv : Bytes → Bytes} {s s' : AddressSpace}
  {entries : List Entry}

theorem passed_eq_self_iff (t : Nat) : passed P mem entries t s = s ↔
    (∀ id v, last (P.accepted s.nodes) id (passAssignments mem s t (listed P t s) entries) = some v →
      s.value id = v) ∧
    (s.nodes name123 = none → missing mem s t (listed P t s) entries = false) := by
  have hValues : assigned P s (passAssignments mem s t (listed P t s) entries) = s ↔
      ∀ id v, last (P.accepted s.nodes) id (passAssignments mem s t (listed P t s) entries) = some v →
        s.value id = v := by
    constructor
    · intro hSame id v hLast
      have hValue := congrArg (fun s => s.value id) hSame
      simp only [assigned, puts_apply, hLast, Option.getD_some] at hValue
      exact hValue.symm
    · intro h
      have hPuts : puts (P.accepted s.nodes) (passAssignments mem s t (listed P t s) entries) s.value =
          s.value := by
        funext id
        rw [puts_apply]
        cases hLast : last (P.accepted s.nodes) id (passAssignments mem s t (listed P t s) entries) with
        | none => rfl
        | some v => exact (h id v hLast).symm
      rw [assigned, hPuts]
  rw [← hValues]
  rcases Classical.em (Creates s (missing mem s t (listed P t s) entries)) with hYes | hNo
  · apply iff_of_false
    · intro hSame
      have hNode := congrArg (fun s => s.nodes name123) hSame
      rw [passed, after_of_creates hYes, nodes_add_self, hYes.2] at hNode
      cases hNode
    · rintro ⟨_, hMissing⟩
      rw [hMissing hYes.2] at hYes
      cases hYes.1
  · rw [passed, after_of_not_creates hNo]
    refine (and_iff_left fun hFree => ?_).symm
    rw [← Bool.not_eq_true]
    exact fun hMissing => hNo ⟨hMissing, hFree⟩

theorem foundBy_first {t : Nat} (ht : 1 ≤ t) : foundBy P mem entries s 1 = foundBy P mem entries s t := by
  obtain ⟨n, rfl⟩ := Nat.exists_eq_add_of_le' ht
  rw [foundBy_succ, foundBy_succ]

/-- What the first pass leaves stays, exactly if the pass finds the same again. -/
theorem sameAgain_iff (hValues : ∀ e ∈ entries, e.value.Supported) {t : Nat} (ht : 1 ≤ t) :
    ¬ Broken P mem entries t (passed P mem entries 0 s) ∧
        passed P mem entries t (passed P mem entries 0 s) = passed P mem entries 0 s ↔
      SameAgain P mem entries s t := by
  rw [passed_eq_self_iff, broken_iff hValues, passed_first, foundBy_first ht]
  have hLacks (id : NodeId) : ((lastWrite P mem entries s 0 id).getD
      ((foundBy P mem entries s t).value id)).lacks UaType.reported = true ↔
        ((foundBy P mem entries s t).value id).lacks UaType.reported = true ∧
          lastWrite P mem entries s 0 id = none := by
    cases hLast : lastWrite P mem entries s 0 id with
    | none => simp
    | some v =>
      obtain ⟨w, rfl⟩ := lastWrite_scalar hValues hLast
      simp
  constructor
  · rintro ⟨hWhole, hSame, hFound⟩
    refine ⟨?_, hFound, hSame⟩
    intro k e j ref hEntry hRef hReadable hMiss hOwn hFirst hNone
    exact hWhole ⟨k, e, j, ref, hEntry, hRef, hReadable, hMiss, (hLacks _).mpr ⟨hOwn, hFirst⟩, hNone⟩
  · rintro ⟨hWhole, hFound, hSame⟩
    refine ⟨?_, hSame, hFound⟩
    rintro ⟨k, e, j, ref, hEntry, hRef, hReadable, hMiss, hOwn, hNone⟩
    obtain ⟨hOwn, hFirst⟩ := (hLacks _).mp hOwn
    exact hWhole k e j ref hEntry hRef hReadable hMiss hOwn hFirst hNone

/-! ## Names read in one way, and places that are kept -/

theorem last_turn_congr (hMem : ReadsAs mem conv) (hKeeps : mem.Keeps) {e : Entry}
    (hValue : e.value.Supported) {id : NodeId}
    (hShows : s.Shows conv id (cstr e.name) ↔ s'.Shows conv id (cstr e.name))
    (accepted : NodeId → Variant → Bool) (t t' k : Nat) :
    last accepted id (turnAssignments mem s e t k (listed P t s)) =
      last accepted id (turnAssignments mem s' e t' k (listed P t' s')) := by
  apply last_congr
  · intro v w hv hw _ _
    have hv := ((mem_turn_kept hMem hKeeps hValue).mp hv).2
    have hw := ((mem_turn_kept hMem hKeeps hValue).mp hw).2
    exact hv.trans hw.symm
  · intro v
    rw [mem_turn_kept hMem hKeeps hValue, mem_turn_kept hMem hKeeps hValue]
    exact and_congr_left' hShows

theorem last_pass_congr (hMem : ReadsAs mem conv) (hKeeps : mem.Keeps)
    (hValues : ∀ e ∈ entries, e.value.Supported) {id : NodeId}
    (hShows : ∀ name, s.Shows conv id name ↔ s'.Shows conv id name)
    (accepted : NodeId → Variant → Bool) (t t' : Nat) :
    last accepted id (passAssignments mem s t (listed P t s) entries) =
      last accepted id (passAssignments mem s' t' (listed P t' s') entries) := by
  induction entries using List.reverseRecOn with
  | nil => rfl
  | append_singleton done e ih =>
    have hDone : ∀ e ∈ done, e.value.Supported :=
      fun e he => hValues e (List.mem_append_left _ he)
    have hLast : e.value.Supported := hValues e (List.mem_append_right _ (List.mem_singleton.mpr rfl))
    rw [passAssignments_snoc, passAssignments_snoc, last_append, last_append, ih hDone,
      last_turn_congr hMem hKeeps hLast (hShows _) accepted t t']

theorem shows_add_self (name : Bytes) : (P.add creation s).Shows conv name123 name ↔
    P.freshReadable creation = true ∧ conv (P.freshDisplayName creation) = name := by
  have hObjects : name123 ∈ (P.add creation s).objects :=
    List.mem_append_right _ (List.mem_singleton.mpr rfl)
  rw [AddressSpace.Shows, nodes_add_self]
  constructor
  · rintro ⟨_, node, hNode, _, hReadable, hName⟩
    cases hNode
    exact ⟨hReadable, hName⟩
  · rintro ⟨hReadable, hName⟩
    exact ⟨hObjects, _, rfl, rfl, hReadable, hName⟩

/-- The variable that a pass created is found and written by the next. -/
def Overwritten (P : Policy) (conv : Bytes → Bytes) (entries : List Entry) : Prop :=
  P.freshReadable creation = true ∧ ∃ e ∈ entries, conv (P.freshDisplayName creation) = cstr e.name ∧
    P.accepts NodeId.baseDataType e.value.writtenType = true

/-- After a creation, only the created node may get another value. -/
theorem lastWrite_created (hMem : ReadsAs mem conv) (hValues : ∀ e ∈ entries, e.value.Supported)
    (h : Creates s (missing mem s 0 (listed P 0 s) entries)) (t : Nat) :
    lastWrite P mem entries s (t + 1) name123 = none ↔ ¬ Overwritten P conv entries := by
  rw [lastWrite_eq_none_iff hMem hValues, foundBy_succ, after_of_creates h]
  change (∀ name node, (P.add creation s).Shows conv name123 name →
    (P.add creation s).nodes name123 = some node → _) ↔ _
  constructor
  · rintro hNone ⟨hReadable, e, he, hName, hAccepts⟩
    exact hNone _ _ ((shows_add_self _).mpr ⟨hReadable, hName⟩) nodes_add_self ⟨e, he, rfl, hAccepts⟩
  · rintro hNot name node hShows hNode ⟨e, he, hName, hAccepts⟩
    obtain ⟨hReadable, hFresh⟩ := (shows_add_self _).mp hShows
    rw [nodes_add_self] at hNode
    cases hNode
    exact hNot ⟨hReadable, e, he, hFresh.trans hName.symm, hAccepts⟩

theorem lastWrite_kept (hMem : ReadsAs mem conv) (hKeeps : mem.Keeps)
    (hValues : ∀ e ∈ entries, e.value.Supported) {id : NodeId}
    (h : ¬ (Creates s (missing mem s 0 (listed P 0 s) entries) ∧ id = name123)) (t : Nat) :
    lastWrite P mem entries s t id = lastWrite P mem entries s 0 id := by
  have hFound : (∀ name, (foundBy P mem entries s t).Shows conv id name ↔ s.Shows conv id name) ∧
      (foundBy P mem entries s t).nodes id = s.nodes id := by
    cases t with
    | zero => exact ⟨fun _ => Iff.rfl, rfl⟩
    | succ t =>
      rw [foundBy_succ]
      rcases Classical.em (Creates s (missing mem s 0 (listed P 0 s) entries)) with hYes | hNo
      · have hNe : id ≠ name123 := fun hId => h ⟨hYes, hId⟩
        rw [after_of_creates hYes]
        exact ⟨shows_add_of_ne hNe, nodes_add_of_ne hNe⟩
      · rw [after_of_not_creates hNo]
        exact ⟨fun _ => Iff.rfl, rfl⟩
  rw [lastWrite, lastWrite, last_pass_congr hMem hKeeps hValues hFound.1 _ t 0]
  apply last_congr_accepted
  intro v
  rw [Policy.accepted, Policy.accepted, hFound.2]
  rfl

end

end OpcConfig.SyncClient
