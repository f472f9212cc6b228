import OpcConfig.SyncUpdate

/-! # Entries that find no variable

`CreateVariable` asks for the same node whatever its entry, and the node has no
value.
-/

namespace OpcConfig.SyncClient

set_option autoImplicit false

open CString

/-- The node is a new variable in the Objects folder with the entry's name and value. -/
def NewFor (s s' : AddressSpace) (e : Entry) (id : NodeId) : Prop :=
  s.nodes id = none ∧ id ∈ s'.objects ∧ ∃ node, s'.nodes id = some node ∧
    node.nodeClass = .variable ∧ node.browseName.name = e.name ∧
      (s'.value id).holds e.value = true

structure Created (entries : List Entry) (s s' : AddressSpace) : Prop where
  each : ∀ e ∈ entries, ∃! id, NewFor s s' e id
  only : ∀ id node, s.nodes id = none → s'.nodes id = some node → ∃ e ∈ entries, NewFor s s' e id

theorem after_new {P : Policy} {s : AddressSpace} {l : List (NodeId × Variant)} {b : Bool} {id : NodeId}
    {node : Node} (hNew : s.nodes id = none) (hNode : (after P s l b).nodes id = some node) :
    (after P s l b).value id = .empty := by
  rcases Classical.em (Creates s b) with hCreates | hNot
  · rw [after_of_creates hCreates] at hNode ⊢
    rcases Classical.em (id = name123) with rfl | hNe
    · exact value_add_self
    · rw [nodes_add_of_ne hNe] at hNode
      exact absurd (hNew.symm.trans hNode) (Option.some_ne_none node).symm
  · rw [after_of_not_creates hNot] at hNode
    exact absurd (hNew.symm.trans hNode) (Option.some_ne_none node).symm

/-- A pass creates what its entries ask for only if there are no entries. -/
theorem created_iff (P : Policy) (mem : Memory) (entries : List Entry) (s : AddressSpace) :
    (∃ s', Reaches P mem entries 1 s s' ∧ Created entries s s') ↔ entries = [] := by
  constructor
  · rintro ⟨s', hReaches, hCreated⟩
    rw [List.eq_nil_iff_forall_not_mem]
    intro e he
    obtain ⟨id, ⟨hNew, _, node, hNode, _, _, hHolds⟩, _⟩ := hCreated.each e he
    rw [(reaches_one_iff.mp hReaches).1, passed] at hNode hHolds
    rw [after_new hNew hNode, not_empty_holds] at hHolds
    cases hHolds
  · rintro rfl
    have hWhole : ¬ Broken P mem [] 0 s := by
      rintro ⟨k, e, hEntry, _⟩
      cases hEntry
    refine ⟨s, reaches_one_iff.mpr ⟨rfl, hWhole⟩, ?_, ?_⟩
    · intro e he
      cases he
    · intro id node hNew hNode
      exact absurd (hNew.symm.trans hNode) (Option.some_ne_none node).symm

def emptySpace : AddressSpace := { nodes := fun _ => none, value := fun _ => .empty, objects := [] }

/-- In the empty space the entry `a` creates `name123`, without a value. -/
theorem created_fails : (integerEntry "a" 1).value.Supported ∧ (integerEntry "a" 1).value.Exact ∧
    ¬ ∃ s', Reaches (plainPolicy true) zeroMemory [integerEntry "a" 1] 1 emptySpace s' ∧
      Created [integerEntry "a" 1] emptySpace s' := by
  refine ⟨rfl, by decide, ?_⟩
  rintro ⟨s', hReaches, hCreated⟩
  rw [(reaches_one_iff.mp hReaches).1] at hCreated
  obtain ⟨e, he, _, _, node, hNode, _, hName, _⟩ := hCreated.only name123 _ rfl rfl
  rw [List.mem_singleton.mp he] at hName
  cases hNode
  exact absurd hName (by decide)

end OpcConfig.SyncClient
