import OpcConfig.Library.Increments
import OpcConfig.CounterRuns
import OpcConfig.SharedSafety

/-! # Numbers that several clients count up

For one node, the calls of a run are the moves of parties that count up a number
and of others that put one there.
-/

namespace OpcConfig

set_option autoImplicit false

open CString Parties

/-- The Int32 that the clients find in a value. -/
def Variant.number (v : Variant) : Option Int :=
  match v.first with
  | some (.int32 n) => some n.toInt
  | _ => none

theorem Variant.number_of_first {v : Variant} {n : Int32} (h : v.first = some (.int32 n)) :
    v.number = some n.toInt := by
  rw [number, h]

theorem Variant.number_succ {n : Int32} (h : n ≠ Int32.maxValue) :
    (Variant.scalar (.int32 (n + 1))).number = some (n.toInt + 1) := by
  have hNeInt : n.toInt ≠ 2 ^ 31 - 1 := fun hMax => h (Int32.toInt_inj.mp hMax)
  have hBelow := n.toInt_lt
  rw [number_of_first rfl, toInt_succ (by omega)]

/-- The number that a node has, if there is the node. -/
def AddressSpace.number (s : AddressSpace) (id : NodeId) : Option Int :=
  match s.nodes id with
  | none => none
  | some _ => (s.value id).number

theorem AddressSpace.number_of_node {s : AddressSpace} {id : NodeId} (h : s.nodes id ≠ none) :
    s.number id = (s.value id).number := by
  obtain ⟨node, hNode⟩ := Option.ne_none_iff_exists'.mp h
  rw [number, hNode]

theorem AddressSpace.number_of_none {s : AddressSpace} {id : NodeId} (h : s.nodes id = none) :
    s.number id = none := by
  rw [number, h]

theorem AddressSpace.number_of_read {s : AddressSpace} {id : NodeId} {v : Variant}
    (h : (s.read id).value = some v) : s.number id = v.number := by
  rw [value_of_read h]
  apply number_of_node
  intro hNone
  have hUnreadable : s.isReadable id = false := by simp [AddressSpace.isReadable, hNone]
  rw [AddressSpace.read, hUnreadable] at h
  cases h

variable {ι : Type} [DecidableEq ι]

/-- What a call is to the number of the node `id`: a counting client fetches the
number and stores its successor, other clients put one there. -/
def move (programs : ι → Program) (id : NodeId) (e : ι × Request × Reply) :
    Option (Increments.Move ι) :=
  match e with
  | (i, .read nodeId, .read response) =>
    if nodeId = id ∧ (programs i).isCounter = true ∧ response.value.isSome = true then some (.fetch i)
    else none
  | (i, .write nodeId v, .status code) =>
    if nodeId = id ∧ code = StatusCode.good then
      some (if (programs i).isCounter then .store i else .put v.number)
    else none
  | _ => none

def moves (programs : ι → Program) (id : NodeId) (history : History ι) : List (Increments.Move ι) :=
  history.filterMap (move programs id)

variable {P : Policy} {programs : ι → Program} {s s' : AddressSpace} {history : History ι}
  {id : NodeId}

omit [DecidableEq ι] in
theorem moves_snoc_none {e : ι × Request × Reply} (h : move programs id e = none)
    (history : History ι) : moves programs id (history ++ [e]) = moves programs id history := by
  simp [moves, h]

omit [DecidableEq ι] in
theorem moves_snoc_some {e : ι × Request × Reply} {m : Increments.Move ι}
    (h : move programs id e = some m) (history : History ι) :
    moves programs id (history ++ [e]) = moves programs id history ++ [m] := by
  simp [moves, h]

/-- The number is where the moves have taken it, and a client that has just read
it holds what it read. -/
structure Refines (programs : ι → Program) (s : AddressSpace) (id : NodeId) (history : History ι)
    (s' : AddressSpace) : Prop where
  value : (Increments.run (s.number id) (moves programs id history)).value = s'.number id
  held : ∀ i v, (programs i).isCounter = true → JustRead (view i history) id v →
    (Increments.run (s.number id) (moves programs id history)).held i = v.number

/-- A call that is no move, and after which no counting client has read the node. -/
theorem Refines.skip {s₁ s₂ : AddressSpace} (h : Refines programs s id history s₁) {i : ι}
    {q : Request} {a : Reply} (hMove : move programs id (i, q, a) = none)
    (hValue : s₂.number id = s₁.number id)
    (hRead : (programs i).isCounter = true → ∀ v, ¬ JustRead (view i history ++ [(q, a)]) id v) :
    Refines programs s id (history ++ [(i, q, a)]) s₂ where
  value := by rw [moves_snoc_none hMove, h.value, hValue]
  held j v hCounter hJust := by
    rw [moves_snoc_none hMove]
    by_cases hj : i = j
    · subst hj
      rw [view_snoc_self] at hJust
      exact absurd hJust (hRead hCounter v)
    · rw [view_snoc_of_ne hj] at hJust
      exact h.held j v hCounter hJust

theorem not_justRead {before : List Exchange} {q : Request} {a : Reply} (hq : q ≠ .read id) (v : Variant) :
    ¬ JustRead (before ++ [(q, a)]) id v :=
  fun h => hq (justRead_snoc.mp h).1

theorem Refines.read {s₁ : AddressSpace} (h : Refines programs s id history s₁) (i : ι)
    (nodeId : NodeId) :
    Refines programs s id (history ++ [(i, .read nodeId, .read (s₁.read nodeId))]) s₁ := by
  by_cases hFetch : nodeId = id ∧ (programs i).isCounter = true ∧ (s₁.read nodeId).value.isSome = true
  · have hMove : move programs id (i, .read nodeId, .read (s₁.read nodeId)) = some (.fetch i) :=
      if_pos hFetch
    obtain ⟨rfl, _, _⟩ := hFetch
    constructor
    · rw [moves_snoc_some hMove, Increments.run_snoc]
      exact h.value
    · intro j v hCounter hJust
      rw [moves_snoc_some hMove, Increments.run_snoc]
      by_cases hj : i = j
      · subst hj
        rw [view_snoc_self, justRead_snoc] at hJust
        obtain ⟨_, response, hResponse, hValue⟩ := hJust
        cases hResponse
        simp only [Increments.step, Function.update_self]
        rw [h.value, AddressSpace.number_of_read hValue]
      · rw [view_snoc_of_ne hj] at hJust
        simp only [Increments.step, Function.update_of_ne (Ne.symm hj)]
        exact h.held j v hCounter hJust
  · have hMove : move programs id (i, .read nodeId, .read (s₁.read nodeId)) = none := if_neg hFetch
    apply h.skip hMove rfl
    intro hCounter v hJust
    obtain ⟨hq, response, hResponse, hValue⟩ := justRead_snoc.mp hJust
    cases hq
    cases hResponse
    exact hFetch ⟨rfl, hCounter, by rw [hValue, Option.isSome_some]⟩

theorem Refines.written {s₁ : AddressSpace} (h : Refines programs s id history s₁) {i : ι}
    {nodeId : NodeId} {v : Variant} (hAccepted : P.accepted s₁.nodes nodeId v = true)
    (hAllowed : (programs i).Allowed (view i history) (.write nodeId v)) :
    Refines programs s id (history ++ [(i, .write nodeId v, .status StatusCode.good)])
      { s₁ with value := Function.update s₁.value nodeId v } := by
  by_cases hId : nodeId = id
  · subst hId
    have hMove : move programs nodeId (i, .write nodeId v, .status StatusCode.good) =
        some (if (programs i).isCounter then .store i else .put v.number) := if_pos ⟨rfl, rfl⟩
    refine ⟨?_, fun j w hCounter hJust => ?_⟩
    · have hThere : s₁.nodes nodeId ≠ none := by
        intro hNone
        rw [Policy.accepted, hNone] at hAccepted
        cases hAccepted
      have hNow : AddressSpace.number { s₁ with value := Function.update s₁.value nodeId v } nodeId =
          v.number := by
        have hStill : AddressSpace.nodes { s₁ with value := Function.update s₁.value nodeId v } nodeId ≠
            none := hThere
        rw [AddressSpace.number_of_node hStill]
        dsimp only
        rw [Function.update_self]
      rw [moves_snoc_some hMove, Increments.run_snoc, hNow]
      cases hProgram : programs i with
      | counter mem vars =>
        rw [hProgram] at hAllowed
        obtain ⟨_, value, n, hJust, hFirst, hRoom, rfl⟩ := hAllowed
        have hHeld := h.held i value (by rw [hProgram]; rfl) hJust
        rw [Variant.number_of_first hFirst] at hHeld
        simp [Program.isCounter, Increments.step, hHeld, Variant.number_succ hRoom]
      | sync mem vars => rfl
      | browser => rfl
    · have hSame : (Increments.run (s.number nodeId) (moves programs nodeId
          (history ++ [(i, .write nodeId v, .status StatusCode.good)]))).held =
          (Increments.run (s.number nodeId) (moves programs nodeId history)).held := by
        rw [moves_snoc_some hMove, Increments.run_snoc]
        split <;> rfl
      rw [hSame]
      by_cases hj : i = j
      · subst hj
        rw [view_snoc_self] at hJust
        exact absurd hJust (not_justRead (fun hq => by cases hq) w)
      · rw [view_snoc_of_ne hj] at hJust
        exact h.held j w hCounter hJust
  · have hMove : move programs id (i, .write nodeId v, .status StatusCode.good) = none :=
      if_neg fun hBoth => hId hBoth.1
    have hSame : AddressSpace.number { s₁ with value := Function.update s₁.value nodeId v } id =
        s₁.number id := by
      rw [AddressSpace.number, AddressSpace.number]
      dsimp only
      rw [Function.update_of_ne (Ne.symm hId)]
    apply h.skip hMove hSame
    exact fun _ => not_justRead fun hq => by cases hq

/-- The clients count up the number of a node as the parties of the abstract
counter do, whatever else goes on. -/
theorem SharedRuns.refines (id : NodeId) (h : SharedRuns P programs s history s') :
    Refines programs s id history s' := by
  apply h.invariant
  · refine ⟨rfl, fun i v _ hJust => ?_⟩
    obtain ⟨earlier, response, hSplit, _⟩ := hJust
    exact absurd hSplit.symm (List.append_ne_nil_of_right_ne_nil earlier (List.cons_ne_nil _ _))
  · intro history s₁ i q a s₂ hRuns hRefines hGrants hAllowed
    cases hGrants with
    | connect code => exact hRefines.skip rfl rfl fun _ => not_justRead fun hq => by cases hq
    | browse t nodeId => exact hRefines.skip rfl rfl fun _ => not_justRead fun hq => by cases hq
    | read nodeId => exact hRefines.read i nodeId
    | written hAccepted => exact hRefines.written hAccepted hAllowed
    | refused hRefused =>
      have hCode : StatusCode.badTypeMismatch ≠ StatusCode.good := by decide
      exact hRefines.skip (if_neg fun hBoth => hCode hBoth.2) rfl
        fun _ => not_justRead fun hq => by cases hq
    | @added request nodeId s₁ hId hFresh =>
      -- a new node has no number, as it had none before
      have hSame : (P.add { request with requestedNewNodeId := nodeId } s₁).number id =
          s₁.number id := by
        by_cases hId' : id = nodeId
        · subst hId'
          rw [AddressSpace.number_of_none hFresh, AddressSpace.number, Policy.add]
          simp [hAllowed.creation.1, Variant.number, Variant.first]
        · rw [AddressSpace.number, P.add_nodes_of_ne hId', P.add_value_of_ne hId']
          rfl
      exact hRefines.skip rfl hSame fun _ => not_justRead fun hq => by cases hq
    | taken hTaken => exact hRefines.skip rfl rfl fun _ => not_justRead fun hq => by cases hq

/-! ## What becomes of a number -/

/-- A synchronisation client has sent the value to the node, for one of its entries. -/
def Sent (programs : ι → Program) (history : History ι) (id : NodeId) (v : Variant) : Prop :=
  ∃ i mem vars, programs i = .sync mem vars ∧ (i, .write id v, .status StatusCode.good) ∈ history ∧
    ∃ site entry, vars[site.entry]? = some entry ∧
      createVariant (mem.slot site) entry (mem.newValue site) = .ok v

theorem SharedRuns.sent (h : SharedRuns P programs s history s') {i : ι} {v : Variant}
    (hCounter : (programs i).isCounter = false)
    (hWrite : (i, .write id v, .status StatusCode.good) ∈ history) : Sent programs history id v := by
  have hLawful := h.lawful i
  obtain ⟨before, after, hSplit⟩ := List.append_of_mem (mem_view.mpr hWrite)
  have hAllowed := hLawful before (.write id v) (.status StatusCode.good) after hSplit
  cases hProgram : programs i with
  | counter mem vars =>
    rw [hProgram] at hCounter
    cases hCounter
  | sync mem vars =>
    rw [hProgram] at hAllowed
    obtain ⟨_, _, _, site, _, _, _, _, entry, _, hEntry, _, _, hVariant⟩ := hAllowed
    exact ⟨i, mem, vars, hProgram, hWrite, site, entry, hEntry, hVariant⟩
  | browser =>
    rw [hProgram] at hAllowed
    cases hAllowed

omit [DecidableEq ι] in
theorem of_put_mem {n : Option Int} (h : .put n ∈ moves programs id history) :
    ∃ i v, (programs i).isCounter = false ∧ (i, .write id v, .status StatusCode.good) ∈ history ∧
      v.number = n := by
  obtain ⟨⟨i, q, a⟩, hMem, hMove⟩ := List.mem_filterMap.mp h
  rw [move.eq_def] at hMove
  split at hMove
  · split at hMove
    · cases hMove
    · cases hMove
  · rename_i j nodeId v code hEvent
    cases hEvent
    split at hMove
    · rename_i hGranted
      obtain ⟨rfl, rfl⟩ := hGranted
      cases hCounter : (programs i).isCounter with
      | true =>
        rw [hCounter] at hMove
        cases hMove
      | false =>
        rw [hCounter] at hMove
        cases hMove
        exact ⟨i, v, hCounter, hMem, rfl⟩
    · cases hMove
  · cases hMove

/-- The number of a node, also of one that was created in the run, was there at the
beginning or has been sent by a synchronisation client, plus at most one for each
increment so far. -/
theorem number_explained (h : SharedRuns P programs s history s') (id : NodeId) {w : Int}
    (hNumber : s'.number id = some w) :
    ∃ origin k, k ≤ Increments.stores (moves programs id history) ∧ w = origin + (k : Int) ∧
      (s.number id = some origin ∨ ∃ v, Sent programs history id v ∧ v.number = some origin) := by
  have hValue := (h.refines id).value
  rw [hNumber] at hValue
  obtain ⟨origin, k, hOrigin, hk, hw⟩ := (Increments.run_explained _ _).1 w hValue
  refine ⟨origin, k, hk, hw, hOrigin.imp_right fun hPut => ?_⟩
  obtain ⟨i, v, hCounter, hWrite, hv⟩ := of_put_mem hPut
  exact ⟨v, h.sent hCounter hWrite, hv⟩

/-- Where only counting clients write, the node has the number of the abstract
counter. -/
theorem SharedRuns.counts (hNode : s.nodes id ≠ none) {v₀ : Int}
    (hStart : (s.value id).number = some v₀)
    (hCounters : ∀ i v, (programs i).isCounter = false →
      (i, .write id v, .status StatusCode.good) ∉ history)
    (h : SharedRuns P programs s history s') :
    ∃ w held, (s'.value id).number = some w ∧ Increments.Kept v₀ (moves programs id history) w held := by
  have hPut : ∀ n, .put n ∉ moves programs id history := by
    intro n hMem
    obtain ⟨i, v, hCounter, hWrite, _⟩ := of_put_mem hMem
    exact hCounters i v hCounter hWrite
  obtain ⟨w, held, hRun, hKept⟩ := Increments.run_kept v₀ hPut
  have hStill : s'.nodes id ≠ none := by
    obtain ⟨node, hSome⟩ := Option.ne_none_iff_exists'.mp hNode
    rw [h.known.nodes id node hSome]
    exact Option.some_ne_none node
  have hValue := (h.refines id).value
  rw [AddressSpace.number_of_node hNode, AddressSpace.number_of_node hStill, hStart, hRun] at hValue
  exact ⟨w, held, hValue.symm, hKept⟩

/-- Counting clients among themselves: each increment is worth one at most, all of
them together at least one, and none is lost exactly if between the read and the
write of each increment there was no other one. -/
theorem counted_exactly (hNode : s.nodes id ≠ none) {v₀ : Int}
    (hStart : (s.value id).number = some v₀)
    (hCounters : ∀ i v, (programs i).isCounter = false →
      (i, .write id v, .status StatusCode.good) ∉ history)
    (h : SharedRuns P programs s history s') :
    ∃ w, (s'.value id).number = some w ∧
      (0 < Increments.stores (moves programs id history) → v₀ < w) ∧
      w ≤ v₀ + Increments.stores (moves programs id history) ∧
      (w = v₀ + Increments.stores (moves programs id history) ↔
        Increments.Isolated (moves programs id history)) := by
  obtain ⟨w, held, hNumber, hKept⟩ := h.counts hNode hStart hCounters
  exact ⟨w, hNumber, hKept.above.2, hKept.below, hKept.exactly⟩

section

open SyncClient CounterClient

theorem number_explained_overtaken : ∃ origin k,
    k ≤ Increments.stores (moves twoCounters node7 overtaken) ∧ (6 : Int) = origin + (k : Int) ∧
      ((counterSpace 5).number node7 = some origin ∨
        ∃ v, Sent twoCounters overtaken node7 v ∧ v.number = some origin) :=
  number_explained overtaken_runs node7 rfl

/-- Two increments and a number that has gone up by one. -/
theorem counted_exactly_overtaken : ∃ s', SharedRuns (plainPolicy true) twoCounters (counterSpace 5)
    overtaken s' ∧ Increments.stores (moves twoCounters node7 overtaken) = 2 ∧
      (s'.value node7).number = some 6 ∧
      ¬ Increments.Isolated (moves twoCounters node7 overtaken) := by
  have hStores : Increments.stores (moves twoCounters node7 overtaken) = 2 := by decide +kernel
  have hNode : (counterSpace 5).nodes node7 ≠ none := by decide
  have hFive : ((counterSpace 5).value node7).number = some 5 := rfl
  obtain ⟨w, hNumber, _, _, hExactly⟩ := counted_exactly hNode hFive
    (fun i v hSync => by cases hSync) overtaken_runs
  have hSix : w = 6 := (Option.some.inj hNumber).symm
  refine ⟨_, overtaken_runs, hStores, rfl, fun hIsolated => ?_⟩
  have hw := hExactly.mpr hIsolated
  rw [hStores, hSix] at hw
  cases hw

end

end OpcConfig
