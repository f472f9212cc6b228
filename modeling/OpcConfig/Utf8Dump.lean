import Mathlib.Data.List.GetD
import OpcConfig.Library.Utf8
import OpcConfig.Nlohmann

/-! # The strings that `dump` prints

The table `utf8d` is a machine that goes back to its accepting state along the
rows of UTF-8, so `dump` throws on the bytes that encode no text.
-/

namespace OpcConfig.Nlohmann

set_option autoImplicit false

open Utf8

/-- The transitions that the table has between states other than rejection. -/
def edges : Nat → List (Range × Nat)
  | 0 => [((0x00, 0x7F), 0), ((0xC2, 0xDF), 2), ((0xE0, 0xE0), 4), ((0xE1, 0xEC), 3),
      ((0xED, 0xED), 5), ((0xEE, 0xEF), 3), ((0xF0, 0xF0), 6), ((0xF1, 0xF3), 7), ((0xF4, 0xF4), 8)]
  | 2 => [(tail, 0)]
  | 3 => [(tail, 2)]
  | 4 => [((0xA0, 0xBF), 2)]
  | 5 => [((0x80, 0x9F), 2)]
  | 6 => [((0x90, 0xBF), 3)]
  | 7 => [(tail, 3)]
  | 8 => [((0x80, 0x8F), 3)]
  | _ => []

def next (state : Nat) (byte : UInt8) : Option Nat :=
  if decode state byte = utf8Reject then none else some (decode state byte)

theorem edges_decode : ∀ state < 9, ∀ n < 256, ∀ e ∈ edges state, Within e.1 (UInt8.ofNat n) →
    decode state (UInt8.ofNat n) = e.2 ∧ e.2 ≠ utf8Reject := by decide +kernel

theorem decode_edges : ∀ state < 9, ∀ n < 256, decode state (UInt8.ofNat n) ≠ utf8Reject →
    ∃ e ∈ edges state, e.2 = decode state (UInt8.ofNat n) ∧ Within e.1 (UInt8.ofNat n) := by
  decide +kernel

theorem decode_of_le {state : Nat} (h : 9 ≤ state) (byte : UInt8) :
    decode state byte = utf8Reject := by
  have hLength : utf8d.length = 400 := by decide +kernel
  exact List.getD_eq_default _ _ (by omega)

theorem edges_of_le {state : Nat} (h : 9 ≤ state) : edges state = [] := by
  match state with
  | n + 9 => rfl

theorem next_eq_some_iff (state : Nat) (byte : UInt8) (state' : Nat) :
    next state byte = some state' ↔ ∃ range, (range, state') ∈ edges state ∧ Within range byte := by
  have hByte : UInt8.ofNat byte.toNat = byte := UInt8.ofNat_toNat
  have hLess := byte.toNat_lt
  rcases Nat.lt_or_ge state 9 with hState | hState
  · constructor
    · intro h
      rw [next] at h
      split at h
      · cases h
      · rename_i hNe
        cases h
        obtain ⟨⟨range, _⟩, hEdge, rfl, hWithin⟩ :=
          decode_edges state hState byte.toNat hLess (by rwa [hByte])
        rw [hByte] at hEdge hWithin
        exact ⟨range, hEdge, hWithin⟩
    · rintro ⟨range, hEdge, hWithin⟩
      rw [← hByte] at hWithin
      obtain ⟨hDecode, hNe⟩ := edges_decode state hState byte.toNat hLess _ hEdge hWithin
      rw [hByte] at hDecode
      rw [next, hDecode, if_neg hNe]
  · rw [next, if_pos (decode_of_le hState byte), edges_of_le hState]
    simp

/-! ## The ways back -/

theorem path_iff {state : Nat} {row : List Range} : Path edges 0 state row ↔
    (∃ range, (range, 0) ∈ edges state ∧ row = [range]) ∨
      ∃ range state' row', (range, state') ∈ edges state ∧ state' ≠ 0 ∧ Path edges 0 state' row' ∧
        row = range :: row' := by
  constructor
  · intro h
    cases h with
    | last hEdge => exact Or.inl ⟨_, hEdge, rfl⟩
    | cons hEdge hNe hPath => exact Or.inr ⟨_, _, _, hEdge, hNe, hPath, rfl⟩
  · rintro (⟨range, hEdge, rfl⟩ | ⟨range, state', row', hEdge, hNe, hPath, rfl⟩)
    · exact .last hEdge
    · exact .cons hEdge hNe hPath

theorem path_two {row : List Range} : Path edges 0 2 row ↔ row = [tail] := by
  rw [path_iff]
  simp [edges]

theorem path_three {row : List Range} : Path edges 0 3 row ↔ row = [tail, tail] := by
  rw [path_iff]
  simp [edges, path_two]

theorem path_four {row : List Range} : Path edges 0 4 row ↔ row = [(0xA0, 0xBF), tail] := by
  rw [path_iff]
  simp [edges, path_two]

theorem path_five {row : List Range} : Path edges 0 5 row ↔ row = [(0x80, 0x9F), tail] := by
  rw [path_iff]
  simp [edges, path_two]

theorem path_six {row : List Range} : Path edges 0 6 row ↔ row = [(0x90, 0xBF), tail, tail] := by
  rw [path_iff]
  simp [edges, path_three]

theorem path_seven {row : List Range} : Path edges 0 7 row ↔ row = [tail, tail, tail] := by
  rw [path_iff]
  simp [edges, path_three]

theorem path_eight {row : List Range} : Path edges 0 8 row ↔ row = [(0x80, 0x8F), tail, tail] := by
  rw [path_iff]
  simp [edges, path_three]

theorem path_start (row : List Range) : Path edges 0 0 row ↔ row ∈ rows := by
  rw [path_iff]
  constructor
  · rintro (⟨range, hEdge, rfl⟩ | ⟨range, state', row', hEdge, hNe, hPath, rfl⟩)
    · simp [edges] at hEdge
      simp [rows, hEdge]
    · simp [edges] at hEdge
      rcases hEdge with ⟨rfl, rfl⟩ | ⟨rfl, rfl⟩ | ⟨rfl, rfl⟩ | ⟨rfl, rfl⟩ | ⟨rfl, rfl⟩ | ⟨rfl, rfl⟩ |
        ⟨rfl, rfl⟩ | ⟨rfl, rfl⟩ | ⟨rfl, rfl⟩ <;>
        simp_all [path_two, path_three, path_four, path_five, path_six, path_seven, path_eight, rows]
  · intro h
    simp only [rows, List.mem_cons, List.not_mem_nil, or_false] at h
    rcases h with rfl | rfl | rfl | rfl | rfl | rfl | rfl | rfl | rfl <;>
      simp [edges, path_two, path_three, path_four, path_five, path_six, path_seven, path_eight]

/-! ## Strings -/

theorem dumpEscaped_eq_run (state : Nat) (s : Bytes) :
    dumpEscaped state s = true ↔ run next state s = some utf8Accept := by
  induction s generalizing state with
  | nil => simp [dumpEscaped, run]
  | cons byte s ih =>
    rw [dumpEscaped, run, next]
    split
    · simp
    · exact ih _

/-- `dump` prints a string exactly if its bytes encode a text. -/
theorem validUtf8_iff (s : Bytes) :
    ValidUtf8 s ↔ ∃ text : List Char, text.flatMap String.utf8EncodeChar = s := by
  rw [ValidUtf8, dumpEscaped_eq_run]
  exact run_eq_start_iff next_eq_some_iff path_start s

end OpcConfig.Nlohmann
