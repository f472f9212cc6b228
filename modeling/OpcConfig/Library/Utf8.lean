import Mathlib.Data.List.Forall2

/-! # UTF-8, as a table of ranges and as a machine

The byte sequences that encode one character are given by nine rows of ranges. A
machine whose paths back to its start are these rows reads the encodings of
texts and nothing else.
-/

namespace Utf8

set_option autoImplicit false

/-! ## The table -/

abbrev Range := Nat × Nat

def Within (range : Range) (b : UInt8) : Prop := range.1 ≤ b.toNat ∧ b.toNat ≤ range.2

instance (range : Range) (b : UInt8) : Decidable (Within range b) :=
  inferInstanceAs (Decidable (_ ∧ _))

def tail : Range := (0x80, 0xBF)

def rows : List (List Range) :=
  [[(0x00, 0x7F)],
    [(0xC2, 0xDF), tail],
    [(0xE0, 0xE0), (0xA0, 0xBF), tail],
    [(0xE1, 0xEC), tail, tail],
    [(0xED, 0xED), (0x80, 0x9F), tail],
    [(0xEE, 0xEF), tail, tail],
    [(0xF0, 0xF0), (0x90, 0xBF), tail, tail],
    [(0xF1, 0xF3), tail, tail, tail],
    [(0xF4, 0xF4), (0x80, 0x8F), tail, tail]]

def Matches (row : List Range) (l : List UInt8) : Prop := List.Forall₂ Within row l

def Sequence (l : List UInt8) : Prop := ∃ row ∈ rows, Matches row l

theorem matches_cons {range : Range} {row : List Range} {l : List UInt8} :
    Matches (range :: row) l ↔ ∃ b rest, l = b :: rest ∧ Within range b ∧ Matches row rest := by
  constructor
  · intro h
    cases h with
    | cons hb hRest => exact ⟨_, _, rfl, hb, hRest⟩
  · rintro ⟨b, rest, rfl, hb, hRest⟩
    exact .cons hb hRest

theorem matches_nil {l : List UInt8} : Matches [] l ↔ l = [] := List.forall₂_nil_left_iff

/-! ## Characters -/

theorem val_ofNat {v : Nat} (h : v.isValidChar) : (Char.ofNat v).val.toNat = v := by
  rw [Char.ofNat, dif_pos h]
  rfl

theorem ofNat_eq {n : Nat} {b : UInt8} (h : n = b.toNat) : UInt8.ofNat n = b := by
  rw [h, UInt8.ofNat_toNat]

theorem encode_one {a : UInt8} (ha : a.toNat ≤ 0x7F) :
    String.utf8EncodeChar (Char.ofNat a.toNat) = [a] := by
  have hValid : a.toNat.isValidChar := Or.inl (by omega)
  rw [String.utf8EncodeChar]
  simp only [val_ofNat hValid]
  rw [if_pos ha, UInt8.ofNat_toNat]

theorem encode_two {a b : UInt8} (ha : Within (0xC2, 0xDF) a) (hb : Within tail b) :
    String.utf8EncodeChar (Char.ofNat ((a.toNat - 0xC0) * 64 + (b.toNat - 0x80))) = [a, b] := by
  simp only [Within, tail] at ha hb
  have hValid : ((a.toNat - 0xC0) * 64 + (b.toNat - 0x80)).isValidChar := Or.inl (by omega)
  rw [String.utf8EncodeChar]
  simp only [val_ofNat hValid]
  rw [if_neg (by omega), if_pos (by omega), ofNat_eq (b := a) (by omega), ofNat_eq (b := b) (by omega)]

theorem encode_three {a b c : UInt8} (ha : Within (0xE0, 0xEF) a) (hb : Within tail b)
    (hc : Within tail c) (hLong : a.toNat = 0xE0 → 0xA0 ≤ b.toNat)
    (hSurrogate : a.toNat = 0xED → b.toNat ≤ 0x9F) :
    String.utf8EncodeChar (Char.ofNat
      ((a.toNat - 0xE0) * 4096 + (b.toNat - 0x80) * 64 + (c.toNat - 0x80))) = [a, b, c] := by
  simp only [Within, tail] at ha hb hc
  have hValid : ((a.toNat - 0xE0) * 4096 + (b.toNat - 0x80) * 64 + (c.toNat - 0x80)).isValidChar := by
    rw [Nat.isValidChar]
    omega
  rw [String.utf8EncodeChar]
  simp only [val_ofNat hValid]
  rw [if_neg (by omega), if_neg (by omega), if_pos (by omega), ofNat_eq (b := a) (by omega),
    ofNat_eq (b := b) (by omega), ofNat_eq (b := c) (by omega)]

theorem encode_four {a b c d : UInt8} (ha : Within (0xF0, 0xF4) a) (hb : Within tail b)
    (hc : Within tail c) (hd : Within tail d) (hLong : a.toNat = 0xF0 → 0x90 ≤ b.toNat)
    (hLast : a.toNat = 0xF4 → b.toNat ≤ 0x8F) :
    String.utf8EncodeChar (Char.ofNat ((a.toNat - 0xF0) * 262144 + (b.toNat - 0x80) * 4096 +
      (c.toNat - 0x80) * 64 + (d.toNat - 0x80))) = [a, b, c, d] := by
  simp only [Within, tail] at ha hb hc hd
  have hValid : ((a.toNat - 0xF0) * 262144 + (b.toNat - 0x80) * 4096 + (c.toNat - 0x80) * 64 +
      (d.toNat - 0x80)).isValidChar := by
    rw [Nat.isValidChar]
    omega
  rw [String.utf8EncodeChar]
  simp only [val_ofNat hValid]
  rw [if_neg (by omega), if_neg (by omega), if_neg (by omega), ofNat_eq (b := a) (by omega),
    ofNat_eq (b := b) (by omega), ofNat_eq (b := c) (by omega), ofNat_eq (b := d) (by omega)]

/-- The rows hold the encodings of single characters. -/
theorem Sequence.exists_char {l : List UInt8} (h : Sequence l) :
    ∃ c : Char, String.utf8EncodeChar c = l := by
  obtain ⟨row, hRow, hMatches⟩ := h
  simp only [rows, List.mem_cons, List.not_mem_nil, or_false] at hRow
  rcases hRow with rfl | rfl | rfl | rfl | rfl | rfl | rfl | rfl | rfl <;>
    simp only [matches_cons, matches_nil] at hMatches
  · obtain ⟨a, _, rfl, ha, rfl⟩ := hMatches
    exact ⟨_, encode_one ha.2⟩
  · obtain ⟨a, _, rfl, ha, b, _, rfl, hb, rfl⟩ := hMatches
    exact ⟨_, encode_two ha hb⟩
  · obtain ⟨a, _, rfl, ha, b, _, rfl, hb, c, _, rfl, hc, rfl⟩ := hMatches
    simp only [Within] at ha hb
    exact ⟨_, encode_three ⟨by omega, by omega⟩ ⟨by simp only [tail]; omega, hb.2⟩ hc
      (fun _ => hb.1) (fun hED => by omega)⟩
  · obtain ⟨a, _, rfl, ha, b, _, rfl, hb, c, _, rfl, hc, rfl⟩ := hMatches
    simp only [Within] at ha
    exact ⟨_, encode_three ⟨by omega, by omega⟩ hb hc (fun hE0 => by omega) (fun hED => by omega)⟩
  · obtain ⟨a, _, rfl, ha, b, _, rfl, hb, c, _, rfl, hc, rfl⟩ := hMatches
    simp only [Within] at ha hb
    exact ⟨_, encode_three ⟨by omega, by omega⟩ ⟨hb.1, by simp only [tail]; omega⟩ hc
      (fun hE0 => by omega) (fun _ => hb.2)⟩
  · obtain ⟨a, _, rfl, ha, b, _, rfl, hb, c, _, rfl, hc, rfl⟩ := hMatches
    simp only [Within] at ha
    exact ⟨_, encode_three ⟨by omega, by omega⟩ hb hc (fun hE0 => by omega) (fun hED => by omega)⟩
  · obtain ⟨a, _, rfl, ha, b, _, rfl, hb, c, _, rfl, hc, d, _, rfl, hd, rfl⟩ := hMatches
    simp only [Within] at ha hb
    exact ⟨_, encode_four ⟨by omega, by omega⟩ ⟨by simp only [tail]; omega, hb.2⟩ hc hd
      (fun _ => hb.1) (fun hF4 => by omega)⟩
  · obtain ⟨a, _, rfl, ha, b, _, rfl, hb, c, _, rfl, hc, d, _, rfl, hd, rfl⟩ := hMatches
    simp only [Within] at ha
    exact ⟨_, encode_four ⟨by omega, by omega⟩ hb hc hd (fun hF0 => by omega) (fun hF4 => by omega)⟩
  · obtain ⟨a, _, rfl, ha, b, _, rfl, hb, c, _, rfl, hc, d, _, rfl, hd, rfl⟩ := hMatches
    simp only [Within] at ha hb
    exact ⟨_, encode_four ⟨by omega, by omega⟩ ⟨hb.1, by simp only [tail]; omega⟩ hc hd
      (fun hF0 => by omega) (fun _ => hb.2)⟩

theorem within_ofNat {low high n : Nat} (hLow : low ≤ n) (hHigh : n ≤ high) (hByte : high < 256) :
    Within (low, high) (UInt8.ofNat n) := by
  rw [Within, UInt8.toNat_ofNat', Nat.mod_eq_of_lt (by omega)]
  exact ⟨hLow, hHigh⟩

theorem tail_ofNat (n : Nat) : Within tail (UInt8.ofNat (n % 0x40 + 0x80)) := by
  have hn : n % 0x40 < 0x40 := Nat.mod_lt _ (by decide)
  exact within_ofNat (by omega) (by omega) (by decide)

theorem sequence_of_row {row : List Range} {l : List UInt8} (hRow : row ∈ rows) (h : Matches row l) :
    Sequence l := ⟨row, hRow, h⟩

theorem sequence_three {v : Nat} (hLow : 0x7ff < v) (hHigh : v ≤ 0xffff) (hValid : v.isValidChar) :
    Sequence [UInt8.ofNat (v / 4096 % 0x10 + 0xe0), UInt8.ofNat (v / 64 % 0x40 + 0x80),
      UInt8.ofNat (v % 0x40 + 0x80)] := by
  rw [Nat.isValidChar] at hValid
  have hTop : v / 4096 % 0x10 = v / 4096 := Nat.mod_eq_of_lt (by omega)
  rw [hTop]
  rcases Nat.lt_or_ge v 0x1000 with h | h
  · have hRow : [(0xE0, 0xE0), (0xA0, 0xBF), tail] ∈ rows := by decide
    refine sequence_of_row hRow (.cons ?_ (.cons ?_ (.cons (tail_ofNat v) .nil)))
    · exact within_ofNat (by omega) (by omega) (by decide)
    · exact within_ofNat (by omega) (by omega) (by decide)
  · rcases Nat.lt_or_ge v 0xD000 with h' | h'
    · have hRow : [(0xE1, 0xEC), tail, tail] ∈ rows := by decide
      refine sequence_of_row hRow (.cons ?_ (.cons (tail_ofNat _) (.cons (tail_ofNat v) .nil)))
      exact within_ofNat (by omega) (by omega) (by decide)
    · rcases Nat.lt_or_ge v 0xE000 with h'' | h''
      · have hRow : [(0xED, 0xED), (0x80, 0x9F), tail] ∈ rows := by decide
        refine sequence_of_row hRow (.cons ?_ (.cons ?_ (.cons (tail_ofNat v) .nil)))
        · exact within_ofNat (by omega) (by omega) (by decide)
        · exact within_ofNat (by omega) (by omega) (by decide)
      · have hRow : [(0xEE, 0xEF), tail, tail] ∈ rows := by decide
        refine sequence_of_row hRow (.cons ?_ (.cons (tail_ofNat _) (.cons (tail_ofNat v) .nil)))
        exact within_ofNat (by omega) (by omega) (by decide)

theorem sequence_four {v : Nat} (hLow : 0xffff < v) (hHigh : v < 0x110000) :
    Sequence [UInt8.ofNat (v / 262144 % 0x08 + 0xf0), UInt8.ofNat (v / 4096 % 0x40 + 0x80),
      UInt8.ofNat (v / 64 % 0x40 + 0x80), UInt8.ofNat (v % 0x40 + 0x80)] := by
  have hTop : v / 262144 % 0x08 = v / 262144 := Nat.mod_eq_of_lt (by omega)
  rw [hTop]
  rcases Nat.lt_or_ge v 0x40000 with h | h
  · have hRow : [(0xF0, 0xF0), (0x90, 0xBF), tail, tail] ∈ rows := by decide
    refine sequence_of_row hRow
      (.cons ?_ (.cons ?_ (.cons (tail_ofNat _) (.cons (tail_ofNat v) .nil))))
    · exact within_ofNat (by omega) (by omega) (by decide)
    · exact within_ofNat (by omega) (by omega) (by decide)
  · rcases Nat.lt_or_ge v 0x100000 with h' | h'
    · have hRow : [(0xF1, 0xF3), tail, tail, tail] ∈ rows := by decide
      refine sequence_of_row hRow
        (.cons ?_ (.cons (tail_ofNat _) (.cons (tail_ofNat _) (.cons (tail_ofNat v) .nil))))
      exact within_ofNat (by omega) (by omega) (by decide)
    · have hRow : [(0xF4, 0xF4), (0x80, 0x8F), tail, tail] ∈ rows := by decide
      refine sequence_of_row hRow
        (.cons ?_ (.cons ?_ (.cons (tail_ofNat _) (.cons (tail_ofNat v) .nil))))
      · exact within_ofNat (by omega) (by omega) (by decide)
      · exact within_ofNat (by omega) (by omega) (by decide)

/-- The encoding of a character is in one of the rows. -/
theorem sequence_encode (c : Char) : Sequence (String.utf8EncodeChar c) := by
  have hValid : c.val.toNat.isValidChar := c.valid
  rw [String.utf8EncodeChar]
  split
  · rename_i hOne
    have hRow : [(0x00, 0x7F)] ∈ rows := by decide
    exact sequence_of_row hRow (.cons (within_ofNat (Nat.zero_le _) hOne (by decide)) .nil)
  · split
    · have hRow : [(0xC2, 0xDF), tail] ∈ rows := by decide
      refine sequence_of_row hRow (.cons ?_ (.cons (tail_ofNat _) .nil))
      exact within_ofNat (by omega) (by omega) (by decide)
    · split
      · exact sequence_three (by omega) (by omega) hValid
      · rw [Nat.isValidChar] at hValid
        exact sequence_four (by omega) (by omega)

theorem Sequence.ne_nil {l : List UInt8} (h : Sequence l) : l ≠ [] := by
  obtain ⟨c, rfl⟩ := h.exists_char
  exact String.utf8EncodeChar_ne_nil

/-! ## Texts -/

/-- The bytes are the encoding of a text. -/
def Encodes (l : List UInt8) : Prop := ∃ text : List Char, text.flatMap String.utf8EncodeChar = l

theorem encodes_nil : Encodes [] := ⟨[], rfl⟩

theorem Encodes.cons {part rest : List UInt8} (hPart : Sequence part) (h : Encodes rest) :
    Encodes (part ++ rest) := by
  obtain ⟨c, rfl⟩ := hPart.exists_char
  obtain ⟨text, rfl⟩ := h
  exact ⟨c :: text, rfl⟩

theorem Encodes.cases {l : List UInt8} (h : Encodes l) :
    l = [] ∨ ∃ part rest, l = part ++ rest ∧ Sequence part ∧ Encodes rest := by
  obtain ⟨text, rfl⟩ := h
  cases text with
  | nil => exact Or.inl rfl
  | cons c text => exact Or.inr ⟨_, _, rfl, sequence_encode c, text, rfl⟩

/-! ## Machines -/

section

variable {S : Type} (edges : S → List (Range × S)) (next : S → UInt8 → Option S) (start : S)

/-- The ways back to the start, by the ranges on them. -/
inductive Path : S → List Range → Prop
  | last {s : S} {range : Range} (h : (range, start) ∈ edges s) : Path s [range]
  | cons {s s' : S} {range : Range} {row : List Range} (h : (range, s') ∈ edges s) (hs : s' ≠ start)
      (hPath : Path s' row) : Path s (range :: row)

def run : S → List UInt8 → Option S
  | s, [] => some s
  | s, b :: l =>
    match next s b with
    | none => none
    | some s' => run s' l

variable {edges next start}

theorem Path.run_append (hNext : ∀ s b s', next s b = some s' ↔
      ∃ range, (range, s') ∈ edges s ∧ Within range b) {s : S} {row : List Range}
    (hPath : Path edges start s row) {part : List UInt8} (h : Matches row part) (rest : List UInt8) :
    run next s (part ++ rest) = run next start rest := by
  induction hPath generalizing part with
  | last hEdge =>
    obtain ⟨b, _, rfl, hb, hRest⟩ := matches_cons.mp h
    rw [matches_nil.mp hRest, List.cons_append, List.nil_append, run, (hNext _ b _).mpr ⟨_, hEdge, hb⟩]
  | cons hEdge _ _ ih =>
    obtain ⟨b, l, rfl, hb, hRest⟩ := matches_cons.mp h
    rw [List.cons_append, run, (hNext _ b _).mpr ⟨_, hEdge, hb⟩]
    exact ih hRest

/-- A run that ends at the start has gone back to it along one of the paths. -/
theorem exists_path (hNext : ∀ s b s', next s b = some s' ↔
      ∃ range, (range, s') ∈ edges s ∧ Within range b) {s : S} {b : UInt8} {l : List UInt8}
    (h : run next s (b :: l) = some start) : ∃ row part rest, Path edges start s row ∧
      Matches row part ∧ b :: l = part ++ rest ∧ run next start rest = some start := by
  induction l generalizing s b with
  | nil =>
    rw [run] at h
    cases hStep : next s b with
    | none =>
      rw [hStep] at h
      cases h
    | some s' =>
      rw [hStep] at h
      cases h
      obtain ⟨range, hEdge, hb⟩ := (hNext s b start).mp hStep
      exact ⟨[range], [b], [], .last hEdge, .cons hb .nil, rfl, rfl⟩
  | cons b' l ih =>
    rw [run] at h
    cases hStep : next s b with
    | none =>
      rw [hStep] at h
      cases h
    | some s' =>
      rw [hStep] at h
      obtain ⟨range, hEdge, hb⟩ := (hNext s b s').mp hStep
      rcases Classical.em (s' = start) with rfl | hs
      · exact ⟨[range], [b], b' :: l, .last hEdge, .cons hb .nil, rfl, h⟩
      · obtain ⟨row, part, rest, hPath, hMatches, hSplit, hRest⟩ := ih h
        exact ⟨range :: row, b :: part, rest, .cons hEdge hs hPath, .cons hb hMatches,
          by rw [hSplit, List.cons_append], hRest⟩

/-- A machine whose ways back to the start are the rows of the table reads the
encodings of texts. -/
theorem run_eq_start_iff (hNext : ∀ s b s', next s b = some s' ↔
      ∃ range, (range, s') ∈ edges s ∧ Within range b)
    (hPaths : ∀ row, Path edges start start row ↔ row ∈ rows) (l : List UInt8) :
    run next start l = some start ↔ Encodes l := by
  induction hLength : l.length using Nat.strongRecOn generalizing l with
  | ind n ih =>
    constructor
    · intro h
      cases l with
      | nil => exact encodes_nil
      | cons b l =>
        obtain ⟨row, part, rest, hPath, hMatches, hSplit, hRest⟩ := exists_path hNext h
        have hPart : Sequence part := ⟨row, (hPaths row).mp hPath, hMatches⟩
        have hShorter : rest.length < n := by
          have hPos := List.length_pos_iff.mpr hPart.ne_nil
          rw [hSplit, List.length_append] at hLength
          omega
        rw [hSplit]
        exact .cons hPart ((ih _ hShorter rest rfl).mp hRest)
    · intro h
      rcases h.cases with rfl | ⟨part, rest, rfl, ⟨row, hRow, hMatches⟩, hRest⟩
      · rfl
      · rw [((hPaths row).mpr hRow).run_append hNext hMatches]
        have hPart : Sequence part := ⟨row, hRow, hMatches⟩
        have hShorter : rest.length < n := by
          have hPos := List.length_pos_iff.mpr hPart.ne_nil
          rw [List.length_append] at hLength
          omega
        exact (ih _ hShorter rest rfl).mpr hRest

end

end Utf8
