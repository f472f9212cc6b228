import OpcConfig.Library.Sweep
import OpcConfig.CounterTurn
import OpcConfig.SyncUpdate

/-! # The counters after any number of passes

One pass adds one to the Int32 values in the Objects folder, each from the value
it found. It ends without a fault exactly when there is room for that.
-/

namespace OpcConfig

set_option autoImplicit false

/-! ## Values -/

/-- The value that a pass leaves for a value it finds. -/
def Variant.bump (v : Variant) : Variant :=
  match v.first with
  | some (.int32 n) => .scalar (.int32 (n + 1))
  | _ => v

/-- `p` increments find an element to read and stay below 2 ^ 31. -/
structure Variant.Room (p : Nat) (v : Variant) : Prop where
  element : v.type = some .int32 ∨ v.type = some .double → v.first ≠ none
  below : ∀ n, v.first = some (.int32 n) → n.toInt + p < 2 ^ 31

namespace Variant

theorem bump_of_first {v : Variant} {n : Int32} (h : v.first = some (.int32 n)) :
    v.bump = .scalar (.int32 (n + 1)) := by
  rw [bump, h]

theorem bump_of_type {v : Variant} (h : v.type ≠ some .int32) : v.bump = v := by
  rw [bump]
  split
  · rename_i n hFirst
    exact absurd (first_type hFirst) h
  · rfl

theorem type_bump (v : Variant) : v.bump.type = v.type := by
  rw [bump]
  split
  · rename_i n hFirst
    exact (first_type hFirst).symm
  · rfl

theorem toInt_succ {n : Int32} (h : n.toInt + 1 < 2 ^ 31) : (n + 1).toInt = n.toInt + 1 := by
  rw [Int32.toInt_add, Int32.toInt_one]
  have hLower := n.le_toInt
  exact Int.bmod_eq_of_le (by omega) (by omega)

theorem room_of_ne_max {v : Variant} {n : Int32} (hFirst : v.first = some (.int32 n))
    (hNe : n ≠ Int32.maxValue) : v.Room 1 := by
  refine ⟨fun _ => hFirst ▸ Option.some_ne_none _, fun m hm => ?_⟩
  rw [hFirst] at hm
  cases hm
  have hNeInt : n.toInt ≠ 2 ^ 31 - 1 := fun h => hNe (Int32.toInt_inj.mp h)
  have hBelow := n.toInt_lt
  omega

theorem room_of_type {p : Nat} {v : Variant} (hType : v.type ≠ some .int32)
    (hDouble : v.type = some .double → v.first ≠ none) : v.Room p where
  element h := hDouble (h.resolve_left hType)
  below _ hFirst := absurd (first_type hFirst) hType

theorem iterate_scalar {n : Int32} {k : Nat} (hBelow : n.toInt + k < 2 ^ 31) :
    ∃ w, bump^[k] (.scalar (.int32 n)) = .scalar (.int32 w) ∧ w.toInt = n.toInt + k := by
  induction k with
  | zero => exact ⟨n, rfl, (Int.add_zero _).symm⟩
  | succ k ih =>
    obtain ⟨w, hScalar, hValue⟩ := ih (by omega)
    refine ⟨w + 1, ?_, ?_⟩
    · rw [Function.iterate_succ_apply', hScalar]
      rfl
    · rw [toInt_succ (by omega)]
      omega

theorem first_iterate {v : Variant} {n : Int32} (h : v.first = some (.int32 n)) {k : Nat}
    (hBelow : n.toInt + k < 2 ^ 31) :
    ∃ w, (bump^[k] v).first = some (.int32 w) ∧ w.toInt = n.toInt + k := by
  cases k with
  | zero => exact ⟨n, h, (Int.add_zero _).symm⟩
  | succ k =>
    have hNext : (n + 1).toInt = n.toInt + 1 := toInt_succ (by omega)
    obtain ⟨w, hScalar, hValue⟩ := iterate_scalar (n := n + 1) (k := k) (by omega)
    refine ⟨w, ?_, by omega⟩
    rw [Function.iterate_succ_apply, bump_of_first h, hScalar]
    rfl

/-- The steps of `p` passes find room one by one exactly when there is room for all. -/
theorem room_iterate_iff {p : Nat} {v : Variant} :
    (∀ k < p, (bump^[k] v).Room 1) ↔ p = 0 ∨ v.Room p := by
  by_cases hType : v.type = some .int32
  · constructor
    · intro h
      induction p with
      | zero => exact Or.inl rfl
      | succ p ih =>
        have hFirst : v.Room 1 := h 0 (Nat.succ_pos p)
        refine Or.inr ⟨hFirst.element, fun n hn => ?_⟩
        have hBefore : n.toInt + p < 2 ^ 31 := by
          rcases ih (fun k hk => h k (Nat.lt_succ_of_lt hk)) with rfl | hRoom
          · have := n.toInt_lt
            omega
          · exact hRoom.below n hn
        obtain ⟨w, hw, hValue⟩ := first_iterate hn hBefore
        have hLast := (h p (Nat.lt_succ_self p)).below w hw
        omega
    · rintro h k hk
      have hRoom : v.Room p := h.resolve_left (Nat.ne_zero_of_lt hk)
      rcases CounterClient.first_of_int32 hType with hNone | ⟨n, hn⟩
      · exact absurd hNone (hRoom.element (Or.inl hType))
      · have hBelow := hRoom.below n hn
        obtain ⟨w, hw, hValue⟩ := first_iterate hn (k := k) (by omega)
        refine ⟨fun _ => hw ▸ Option.some_ne_none _, fun m hm => ?_⟩
        rw [hw] at hm
        cases hm
        omega
  · have hSame : ∀ k, bump^[k] v = v := Function.iterate_fixed (bump_of_type hType)
    simp only [hSame]
    constructor
    · intro h
      rcases Nat.eq_zero_or_pos p with hZero | hPos
      · exact Or.inl hZero
      · exact Or.inr (room_of_type hType fun hDouble => (h 0 hPos).element (Or.inr hDouble))
    · rintro h k hk
      have hRoom : v.Room p := h.resolve_left (Nat.ne_zero_of_lt hk)
      exact room_of_type hType fun hDouble => hRoom.element (Or.inr hDouble)

end Variant

/-! ## Spaces -/

def AddressSpace.Lists (s : AddressSpace) (id : NodeId) : Prop :=
  id ∈ s.objects ∧ s.isVariable id = true

def AddressSpace.variableIds (s : AddressSpace) : List NodeId := s.objects.filter s.isVariable

theorem AddressSpace.mem_variableIds {s : AddressSpace} {id : NodeId} :
    id ∈ s.variableIds ↔ s.Lists id := List.mem_filter

namespace CounterClient

open Loop Sweep

/-- No request about a listed variable fails, and each is referenced once. -/
structure Served (P : Policy) (s : AddressSpace) : Prop where
  once : s.variableIds.Nodup
  readable : ∀ id, s.Lists id → s.isReadable id = true
  writable : ∀ id, s.Lists id → (s.value id).type = some .int32 →
    ∀ n, P.accepted s.nodes id (.scalar (.int32 n)) = true

/-- The listed variables of Int32 scalars have gone up by `p` and no other node's
value has changed. -/
structure Counted (p : Nat) (s s' : AddressSpace) : Prop where
  counters : ∀ id, s.Lists id → ∀ v, s.value id = .scalar (.int32 v) →
    ∃ w, s'.value id = .scalar (.int32 w) ∧ w.toInt = v.toInt + p
  others : ∀ id, ¬ (s.Lists id ∧ (s.value id).type = some .int32) → s'.value id = s.value id

def bumped (s : AddressSpace) (ids : List NodeId) : AddressSpace :=
  { s with value := sweep Variant.bump ids s.value }

def advance (s : AddressSpace) : AddressSpace := bumped s s.variableIds

def variableRefs (refs : List ReferenceDescription) : List NodeId :=
  (refs.filter fun ref => ref.nodeClass == .variable).map ReferenceDescription.nodeId

theorem variableRefs_snoc_of_variable {ref : ReferenceDescription} (h : ref.nodeClass = .variable)
    (refs : List ReferenceDescription) :
    variableRefs (refs ++ [ref]) = variableRefs refs ++ [ref.nodeId] := by
  simp [variableRefs, h]

theorem variableRefs_snoc_of_ne {ref : ReferenceDescription} (h : ref.nodeClass ≠ .variable)
    (refs : List ReferenceDescription) : variableRefs (refs ++ [ref]) = variableRefs refs := by
  simp [variableRefs, h]

theorem variableRefs_references (s : AddressSpace) : variableRefs s.references = s.variableIds := by
  rw [variableRefs, AddressSpace.references, AddressSpace.variableIds]
  induction s.objects with
  | nil => rfl
  | cons id ids ih =>
    rw [List.filterMap_cons, List.filter_cons, AddressSpace.describe, AddressSpace.isVariable]
    cases hNode : s.nodes id with
    | none => simpa using ih
    | some node =>
      by_cases hClass : node.nodeClass = .variable <;> simp [hClass, ih]

variable {P : Policy} {s : AddressSpace} {mem : CounterSite → Bytes} {t i : Nat}

theorem variableRefs_arrange (P : Policy) (s : AddressSpace) (t : Nat) :
    (variableRefs (P.arrange t s.references)).Perm s.variableIds := by
  rw [← variableRefs_references]
  exact ((P.arrange_perm t s.references).filter _).map _

/-- The state of the inner loop that has gone through `done`, in the space `s`
it was entered with. -/
structure CountInv (s : AddressSpace) (done : List ReferenceDescription)
    (x : Gathering AddressSpace) : Prop where
  space : x.server = bumped s (variableRefs done)
  array : ∃ l, x.dataValue = gathered l ∧ x.count = l.length
  room : ∀ id ∈ variableRefs done, (s.value id).Room 1

/-- The fault of an exception, or of a listed variable without room for one step. -/
def Stuck (s : AddressSpace) (fault : CounterFault) : Prop :=
  (∃ e, fault = .json e) ∨ ∃ id, s.Lists id ∧ ¬ (s.value id).Room 1

theorem read_of_lists {x : Gathering AddressSpace} {ids : List NodeId}
    (hSpace : x.server = bumped s ids) {ref : ReferenceDescription} (hReadable : s.isReadable ref.nodeId = true)
    (hNew : ref.nodeId ∉ ids) :
    (readStep (P.server t) ref x).1.value = some (s.value ref.nodeId) := by
  have hSame : x.server.value ref.nodeId = s.value ref.nodeId := by
    rw [hSpace]
    exact sweep_of_not_mem _ hNew _
  have hReadable' : x.server.isReadable ref.nodeId = true := by
    rw [hSpace]
    exact hReadable
  change (x.server.read ref.nodeId).value = _
  rw [AddressSpace.read, if_pos hReadable', hSame]
  rfl

theorem space_increment {x : Gathering AddressSpace} {ids : List NodeId}
    (hSpace : x.server = bumped s ids) {ref : ReferenceDescription} {n : Int32} (hFirst : (s.value ref.nodeId).first = some (.int32 n))
    (hAccepted : P.accepted s.nodes ref.nodeId (.scalar (.int32 (n + 1))) = true)
    (hNew : ref.nodeId ∉ ids) :
    (increment (P.server t) ref n x).server = bumped s (ids ++ [ref.nodeId]) := by
  change ((P.server t).write ref.nodeId (.scalar (.int32 (n + 1))) x.server).2 = _
  have hAccepted' : P.accepted x.server.nodes ref.nodeId (.scalar (.int32 (n + 1))) = true := by
    rw [hSpace]
    exact hAccepted
  rw [Policy.server]
  dsimp only
  rw [if_pos hAccepted', hSpace]
  rw [bumped, bumped, sweep_snoc _ hNew, Variant.bump_of_first hFirst]

/-- A variable that comes up in the loop is listed and has not come up before. -/
theorem next_of_split {refs done rest : List ReferenceDescription} {ref : ReferenceDescription}
    (hOnce : s.variableIds.Nodup) (hPerm : (variableRefs refs).Perm s.variableIds)
    (hRefs : refs = done ++ ref :: rest) (hClass : ref.nodeClass = .variable) :
    s.Lists ref.nodeId ∧ ref.nodeId ∉ variableRefs done := by
  have hSplit : variableRefs refs = variableRefs done ++ ref.nodeId :: variableRefs rest := by
    rw [hRefs, variableRefs, List.filter_append, List.map_append, List.filter_cons_of_pos]
    · rfl
    · simpa using hClass
  constructor
  · apply AddressSpace.mem_variableIds.mp (hPerm.mem_iff.mp _)
    rw [hSplit]
    exact List.mem_append_right _ List.mem_cons_self
  · have hOnceRefs := hPerm.nodup_iff.mpr hOnce
    rw [hSplit] at hOnceRefs
    intro hMem
    exact (List.nodup_append.mp hOnceRefs).2.2 _ hMem _ List.mem_cons_self rfl

theorem CountInv.snoc {done : List ReferenceDescription} {x x' : Gathering AddressSpace}
    (h : CountInv s done x) {ref : ReferenceDescription} (hClass : ref.nodeClass = .variable)
    (hSpace : x'.server = bumped s (variableRefs done ++ [ref.nodeId]))
    (hArray : ∃ l, x'.dataValue = gathered l ∧ x'.count = l.length)
    (hRoom : (s.value ref.nodeId).Room 1) : CountInv s (done ++ [ref]) x' := by
  have hDone := variableRefs_snoc_of_variable hClass done
  refine ⟨hDone ▸ hSpace, hArray, ?_⟩
  rw [hDone]
  exact List.forall_mem_append.mpr ⟨h.room, List.forall_mem_singleton.mpr hRoom⟩

theorem gather_array {l : List Json} {x : Gathering AddressSpace} (hCount : x.count = l.length)
    (srv : Server AddressSpace) (site : CounterSite) (ref : ReferenceDescription) (value : Variant) :
    ∃ l', (gather srv mem site ref l x value).dataValue = gathered l' ∧
      (gather srv mem site ref l x value).count = l'.length := by
  refine ⟨_, rfl, ?_⟩
  change x.count + 1 = _
  rw [List.length_append, hCount, List.length_singleton]

theorem CountInv.turn {refs done rest : List ReferenceDescription} {ref : ReferenceDescription}
    {x : Gathering AddressSpace} (h : CountInv s done x) (hServed : Served P s)
    (hPerm : (variableRefs refs).Perm s.variableIds) (hRefs : refs = done ++ ref :: rest)
    (site : CounterSite) :
    Ends (CountInv s (done ++ [ref])) (fun e => Stuck s e.1)
      (referenceStep (P.server t) mem site ref x) := by
  obtain ⟨l, hData, hCount⟩ := h.array
  have hNext := next_of_split hServed.once hPerm hRefs
  have hRead : ref.nodeClass = .variable →
      (readStep (P.server t) ref x).1.value = some (s.value ref.nodeId) := by
    intro hClass
    obtain ⟨hLists, hNew⟩ := hNext hClass
    exact read_of_lists h.space (hServed.readable _ hLists) hNew
  have hTurn := referenceStep_turn (P.server t) mem site ref l x hData hCount
  generalize referenceStep (P.server t) mem site ref x = outcome at hTurn
  cases hTurn with
  | skipped hClass =>
    have hDone := variableRefs_snoc_of_ne hClass done
    exact ⟨hDone ▸ h.space, h.array, hDone ▸ h.room⟩
  | unread hClass hValue =>
    rw [hRead hClass] at hValue
    cases hValue
  | counted hClass hValue hFirst hRoom =>
    rw [hRead hClass] at hValue
    cases hValue
    obtain ⟨hLists, hNew⟩ := hNext hClass
    have hAccepted := hServed.writable _ hLists (Variant.first_type hFirst)
    exact h.snoc hClass (space_increment h.space hFirst (hAccepted _) hNew)
      (gather_array hCount _ site ref _) (Variant.room_of_ne_max hFirst hRoom)
  | copied hClass hValue hType hDouble =>
    rw [hRead hClass] at hValue
    cases hValue
    apply h.snoc hClass _ (gather_array hCount _ site ref _) (Variant.room_of_type hType hDouble)
    rw [bumped, sweep_snoc_of_fixed _ (Variant.bump_of_type hType)]
    exact h.space
  | overflow hClass hValue hFirst =>
    rw [hRead hClass] at hValue
    cases hValue
    refine Or.inr ⟨ref.nodeId, (hNext hClass).1, fun hRoom => ?_⟩
    exact absurd (hRoom.below _ hFirst) (by decide)
  | missing hClass hValue hType hFirst =>
    rw [hRead hClass] at hValue
    cases hValue
    exact Or.inr ⟨ref.nodeId, (hNext hClass).1, fun hRoom => hRoom.element hType hFirst⟩

/-! ## A pass -/

theorem bumped_arrange (P : Policy) (s : AddressSpace) (t : Nat) :
    bumped s (variableRefs (P.arrange t s.references)) = advance s := by
  have hMem : ∀ id, id ∈ variableRefs (P.arrange t s.references) ↔ id ∈ s.variableIds :=
    fun _ => (variableRefs_arrange P s t).mem_iff
  rw [advance, bumped, bumped, sweep_congr _ hMem]

theorem resultStep_space (hServed : Served P s) (mem : CounterSite → Bytes) (t i : Nat)
    {c : Counter AddressSpace} (hServer : c.server = s) :
    Ends (fun c' => c'.one = c.one ∧ c'.server = advance s ∧ ∀ id, s.Lists id → (s.value id).Room 1)
      (fun e => Stuck s e.1)
      (resultStep (P.server t) mem t i ⟨P.arrange t s.references, []⟩ c) := by
  have hLoop : Ends (CountInv s (P.arrange t s.references)) (fun e => Stuck s e.1)
      (referenceLoop (P.server t) mem t i (P.arrange t s.references) (startResult c)) := by
    apply forEach_ends (I := CountInv s)
    · intro done ref rest x hRefs h
      exact h.turn hServed (variableRefs_arrange P s t) hRefs _
    · refine ⟨?_, ⟨[], rfl, rfl⟩, fun _ hMem => absurd hMem List.not_mem_nil⟩
      rw [variableRefs, List.filter_nil, List.map_nil, bumped, sweep_nil]
      exact hServer
  rw [resultStep]
  dsimp only
  cases hEnd : referenceLoop (P.server t) mem t i (P.arrange t s.references) (startResult c) with
  | error e =>
    rw [hEnd] at hLoop
    exact hLoop
  | ok x =>
    rw [hEnd] at hLoop
    dsimp only
    cases Nlohmann.dump x.dataValue with
    | error e => exact Or.inl ⟨e, rfl⟩
    | ok printed =>
      refine ⟨rfl, hLoop.space.trans (bumped_arrange P s t), fun id hLists => hLoop.room id ?_⟩
      exact (variableRefs_arrange P s t).mem_iff.mpr (AddressSpace.mem_variableIds.mpr hLists)

theorem iteration_eq (P : Policy) (mem : CounterSite → Bytes) (vars : Json) (t : Nat)
    {c : Counter AddressSpace} (hOne : c.one = false) :
    iteration (P.server t) mem vars t c =
      resultStep (P.server t) mem t 0 ⟨P.arrange t c.server.references, []⟩
        { c with retval := StatusCode.good } := by
  have hPass : iteration (P.server t) mem vars t c =
      pass (P.server t) mem t { c with retval := StatusCode.good } := by
    have hConnect : (P.server t).connect c.server = (StatusCode.good, c.server) := rfl
    have hOpen : StatusCode.good ≠ StatusCode.badConnectionClosed := by decide
    rw [iteration, hConnect]
    dsimp only
    rw [if_neg hOpen, if_neg (not_not.mpr rfl), hOne]
    rfl
  rw [hPass]
  change resultStep (P.server t) mem t 0 ⟨P.arrange t c.server.references, []⟩
    { c with retval := StatusCode.good } >>= forEach _ [] 1 = _
  cases resultStep (P.server t) mem t 0 ⟨P.arrange t c.server.references, []⟩
    { c with retval := StatusCode.good } <;> rfl

/-! ## Runs -/

theorem iterate_advance (s : AddressSpace) (k : Nat) :
    advance^[k] s = { s with value := (sweep Variant.bump s.variableIds)^[k] s.value } := by
  induction k with
  | zero => rfl
  | succ k ih =>
    rw [Function.iterate_succ_apply', ih, Function.iterate_succ_apply']
    rfl

theorem value_iterate_advance (s : AddressSpace) (k : Nat) (id : NodeId) :
    (advance^[k] s).value id =
      if id ∈ s.variableIds then Variant.bump^[k] (s.value id) else s.value id := by
  rw [iterate_advance]
  exact iterate_sweep _ _ _ _ _

theorem lists_iterate_advance (s : AddressSpace) (k : Nat) (id : NodeId) :
    (advance^[k] s).Lists id ↔ s.Lists id := by
  rw [iterate_advance]
  exact Iff.rfl

theorem Served.advance (h : Served P s) : Served P (advance s) where
  once := h.once
  readable := h.readable
  writable id hLists hType := by
    apply h.writable id hLists
    have hValue : (CounterClient.advance s).value id = (s.value id).bump :=
      sweep_of_mem _ (AddressSpace.mem_variableIds.mpr hLists) _
    rwa [hValue, Variant.type_bump] at hType

theorem Served.iterate (h : Served P s) (k : Nat) : Served P (CounterClient.advance^[k] s) := by
  induction k with
  | zero => exact h
  | succ k ih =>
    rw [Function.iterate_succ_apply']
    exact ih.advance

/-- The client after `p` passes that began with the space `s`. -/
structure RunInv (s : AddressSpace) (p : Nat) (c : Counter AddressSpace) : Prop where
  one : c.one = false
  space : c.server = CounterClient.advance^[p] s
  room : ∀ id, s.Lists id → ∀ k < p, (Variant.bump^[k] (s.value id)).Room 1

def StuckBefore (s : AddressSpace) (p : Nat) (fault : CounterFault) : Prop :=
  (∃ e, fault = .json e) ∨ ∃ id, s.Lists id ∧ ∃ k < p, ¬ (Variant.bump^[k] (s.value id)).Room 1

theorem value_of_lists {id : NodeId} (h : s.Lists id) (k : Nat) :
    (CounterClient.advance^[k] s).value id = Variant.bump^[k] (s.value id) := by
  rw [value_iterate_advance, if_pos (AddressSpace.mem_variableIds.mpr h)]

theorem RunInv.pass (hServed : Served P s) (mem : CounterSite → Bytes) (vars : Json) {p : Nat}
    {c : Counter AddressSpace} (h : RunInv s p c) :
    Ends (RunInv s (p + 1)) (fun e => StuckBefore s (p + 1) e.1)
      (iteration (P.server p) mem vars p c) := by
  have hStep := resultStep_space (hServed.iterate p) mem p 0
    (c := { c with retval := StatusCode.good }) h.space
  rw [← h.space] at hStep
  rw [iteration_eq P mem vars p h.one]
  apply hStep.imp
  · rintro c' ⟨hOne, hServer, hRoom⟩
    refine ⟨hOne.trans h.one, ?_, fun id hLists k hk => ?_⟩
    · rw [hServer, h.space, Function.iterate_succ_apply']
    · rcases Nat.lt_succ_iff_lt_or_eq.mp hk with hLess | rfl
      · exact h.room id hLists k hLess
      · rw [h.space] at hRoom
        rw [← value_of_lists hLists]
        exact hRoom id ((lists_iterate_advance s k id).mpr hLists)
  · rintro e (hJson | ⟨id, hLists, hNone⟩)
    · exact Or.inl hJson
    · rw [h.space] at hLists hNone
      have hLists := (lists_iterate_advance s p id).mp hLists
      rw [value_of_lists hLists] at hNone
      exact Or.inr ⟨id, hLists, p, Nat.lt_succ_self p, hNone⟩

theorem mainLoop_space (hServed : Served P s) (mem : CounterSite → Bytes) (vars : Json)
    {c : Counter AddressSpace} (hOne : c.one = false) (hServer : c.server = s) (p : Nat) :
    Ends (RunInv s p) (fun e => StuckBefore s p e.1) (mainLoop P.server mem vars p c) := by
  rw [mainLoop]
  induction p with
  | zero => exact ⟨hOne, hServer, fun _ _ k hk => absurd hk (Nat.not_lt_zero k)⟩
  | succ p ih =>
    rw [repeated_succ]
    have hBefore : Ends (RunInv s p) (fun e => StuckBefore s (p + 1) e.1)
        (repeated (fun t c => iteration (P.server t) mem vars t c) p c) := by
      apply ih.imp (fun _ h => h)
      rintro e (hJson | ⟨id, hLists, k, hk, hNone⟩)
      · exact Or.inl hJson
      · exact Or.inr ⟨id, hLists, k, Nat.lt_succ_of_lt hk, hNone⟩
    exact hBefore.bind fun c' h => h.pass hServed mem vars

theorem RunInv.counted {p : Nat} {c : Counter AddressSpace} (h : RunInv s p c) :
    Counted p s c.server := by
  rw [h.space]
  constructor
  · intro id hLists v hValue
    rw [value_of_lists hLists, hValue]
    apply Variant.iterate_scalar
    rcases Variant.room_iterate_iff.mp (h.room id hLists) with rfl | hRoom
    · have := v.toInt_lt
      omega
    · exact hRoom.below v (by rw [hValue, Variant.first])
  · intro id hOther
    rw [value_iterate_advance]
    split
    · rename_i hMem
      have hType : (s.value id).type ≠ some .int32 :=
        fun h => hOther ⟨AddressSpace.mem_variableIds.mp hMem, h⟩
      exact Function.iterate_fixed (Variant.bump_of_type hType) p
    · rfl

/-- When no exception ends them early, `p` passes count every listed Int32 scalar
up by `p` exactly if none of the listed variables runs out of room. -/
theorem counted_iff (P : Policy) (s : AddressSpace) (hServed : Served P s)
    (mem : CounterSite → Bytes) (vars : Json) (c : Counter AddressSpace) (hServer : c.server = s)
    (hOne : c.one = false) (p : Nat)
    (hCompleted : ∀ e c', mainLoop P.server mem vars p c ≠ .error (.json e, c')) :
    (∃ c', mainLoop P.server mem vars p c = .ok c' ∧ Counted p s c'.server) ↔
      p = 0 ∨ ∀ id, s.Lists id → (s.value id).Room p := by
  have hRun := mainLoop_space hServed mem vars hOne hServer p
  constructor
  · rintro ⟨c', hOk, _⟩
    rw [hOk] at hRun
    rcases Nat.eq_zero_or_pos p with hZero | hPos
    · exact Or.inl hZero
    · refine Or.inr fun id hLists => ?_
      exact (Variant.room_iterate_iff.mp (hRun.room id hLists)).resolve_left hPos.ne'
  · intro hRoom
    cases hEnd : mainLoop P.server mem vars p c with
    | ok c' =>
      rw [hEnd] at hRun
      exact ⟨c', rfl, hRun.counted⟩
    | error e =>
      obtain ⟨fault, c'⟩ := e
      rw [hEnd] at hRun
      rcases hRun with ⟨e, rfl⟩ | ⟨id, hLists, k, hk, hNone⟩
      · exact absurd hEnd (hCompleted e c')
      · have hSteps := Variant.room_iterate_iff.mpr (hRoom.imp_right fun h => h id hLists)
        exact absurd (hSteps k hk) hNone

def counterSpace (n : Int32) : AddressSpace :=
  SyncClient.oneNode "a" UaType.int32.typeId (.scalar (.int32 n))

theorem counterSpace_served (n : Int32) : Served (SyncClient.plainPolicy false) (counterSpace n) where
  once := List.nodup_singleton _
  readable id h := by
    rw [List.mem_singleton.mp h.1]
    rfl
  writable id h _ n := by
    rw [List.mem_singleton.mp h.1]
    rfl

theorem counted_iff_two :
    (∃ c', mainLoop (SyncClient.plainPolicy false).server (fun _ => []) .null 2
        (counter (counterSpace 5)) = .ok c' ∧ Counted 2 (counterSpace 5) c'.server) ↔
      2 = 0 ∨ ∀ id, (counterSpace 5).Lists id → ((counterSpace 5).value id).Room 2 := by
  apply counted_iff _ _ (counterSpace_served 5) _ _ _ rfl rfl
  have hOk : (mainLoop (SyncClient.plainPolicy false).server (fun _ => []) .null 2
      (counter (counterSpace 5))).toBool = true := by decide +kernel
  intro e c' hEnd
  rw [hEnd] at hOk
  cases hOk

/-- The largest Int32 has no successor, and the first pass asks for it. -/
theorem counted_fails :
    Served (SyncClient.plainPolicy false) (counterSpace Int32.maxValue) ∧
    (∃ c', mainLoop (SyncClient.plainPolicy false).server (fun _ => []) .null 1
      (counter (counterSpace Int32.maxValue)) = .error (.overflow, c')) ∧
    ¬ ∃ c', mainLoop (SyncClient.plainPolicy false).server (fun _ => []) .null 1
        (counter (counterSpace Int32.maxValue)) = .ok c' ∧
      Counted 1 (counterSpace Int32.maxValue) c'.server := by
  have hFault : mainLoop (SyncClient.plainPolicy false).server (fun _ => []) .null 1
      (counter (counterSpace Int32.maxValue)) = .error (.overflow, _) := rfl
  refine ⟨counterSpace_served _, ⟨_, hFault⟩, ?_⟩
  rintro ⟨c', hEnd, _⟩
  rw [hFault] at hEnd
  cases hEnd

end CounterClient

end OpcConfig
