import Mathlib.Data.List.TakeWhile

/-! # Byte strings and the C strings laid over them

A block of memory is the list of its bytes from its first one on; every byte
past the list reads as NUL. A `char *` into the block stands for the bytes up
to the first NUL. Any memory in which some NUL follows is covered: nothing
behind that NUL is ever read.
-/

namespace CString

set_option autoImplicit false

def ascii (text : String) : List UInt8 := text.toList.map (fun c => c.toNat.toUInt8)

def cstr (block : List UInt8) : List UInt8 := block.takeWhile (· != 0)

/-- What `memccpy(_, source, stop, count)` copies: at most `count` bytes, the
first byte equal to `stop` being the last one copied. -/
def copied (stop : UInt8) : Nat → List UInt8 → List UInt8
  | 0, _ => []
  | _ + 1, [] => []
  | count + 1, byte :: source =>
    if byte = stop then [byte] else byte :: copied stop count source

def memccpy (target source : List UInt8) (stop : UInt8) (count : Nat) : List UInt8 :=
  copied stop count source ++ target.drop (copied stop count source).length

@[simp] theorem cstr_nil : cstr [] = [] := rfl

theorem cstr_cons (byte : UInt8) (rest : List UInt8) :
    cstr (byte :: rest) = if byte = 0 then [] else byte :: cstr rest := by
  by_cases h : byte = 0 <;> simp [cstr, h]

theorem cstr_append {bytes : List UInt8} (h : (0 : UInt8) ∉ bytes) (rest : List UInt8) :
    cstr (bytes ++ rest) = bytes ++ cstr rest := by
  apply List.takeWhile_append_of_pos
  intro byte hByte
  have hNe : byte ≠ 0 := fun h0 => h (h0 ▸ hByte)
  simpa using hNe

theorem cstr_eq_self {bytes : List UInt8} (h : (0 : UInt8) ∉ bytes) : cstr bytes = bytes := by
  have hAppend := cstr_append h []
  rwa [List.append_nil, cstr_nil, List.append_nil] at hAppend

theorem zero_not_mem_cstr (bytes : List UInt8) : (0 : UInt8) ∉ cstr bytes := by
  intro h
  have hNe := List.mem_takeWhile_imp h
  simp at hNe

theorem cstr_eq_nil_iff (bytes : List UInt8) :
    cstr bytes = [] ↔ bytes.head? = none ∨ bytes.head? = some 0 := by
  cases bytes with
  | nil => simp
  | cons byte rest =>
    rw [cstr_cons]
    split <;> simp_all

theorem copied_of_not_mem {stop : UInt8} {source : List UInt8} (h : stop ∉ source) :
    copied stop source.length source = source := by
  induction source with
  | nil => rfl
  | cons byte source ih =>
    simp only [List.mem_cons, not_or] at h
    rw [List.length_cons, copied, if_neg (Ne.symm h.1), ih h.2]

theorem cstr_copied_append {source : List UInt8} (h : (0 : UInt8) ∈ source) (rest : List UInt8) :
    cstr (copied 0 source.length source ++ rest) = cstr source := by
  induction source with
  | nil => simp at h
  | cons byte source ih =>
    rw [List.length_cons, copied, cstr_cons]
    split
    · rename_i h0
      rw [h0, List.singleton_append, cstr_cons, if_pos rfl]
    · rename_i h0
      have hMem : (0 : UInt8) ∈ source := by
        rcases List.mem_cons.mp h with hEq | hMem
        · exact absurd hEq.symm h0
        · exact hMem
      rw [List.cons_append, cstr_cons, if_neg h0, ih hMem]

/-- The string read back from a block into which `source` was copied whole:
a NUL inside `source` ends it, otherwise it runs on into the block's old bytes. -/
theorem cstr_memccpy (target source : List UInt8) :
    cstr (memccpy target source 0 source.length) =
      if (0 : UInt8) ∈ source then cstr source
      else source ++ cstr (target.drop source.length) := by
  rw [memccpy]
  split
  · rename_i h
    exact cstr_copied_append h _
  · rename_i h
    rw [copied_of_not_mem h, cstr_append h]

theorem cstr_memccpy_zeros (source : List UInt8) :
    cstr (memccpy [] source 0 source.length) = cstr source := by
  rw [cstr_memccpy]
  split
  · rfl
  · rename_i h
    rw [cstr_eq_self h, List.drop_nil, cstr_nil, List.append_nil]

end CString
