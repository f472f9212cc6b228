/-! # Loops whose body may throw

The state at the moment of the throw is the error, so an outcome always has a
state. `Ends p q` is the postcondition of a computation: `p` of the state it
returns, `q` of the state it throws.
-/

namespace Loop

set_option autoImplicit false

variable {α β γ ε : Type}

def Ends (p : β → Prop) (q : ε → Prop) : Except ε β → Prop
  | .ok b => p b
  | .error e => q e

theorem Ends.bind {p : β → Prop} {p' : γ → Prop} {q : ε → Prop} {r : Except ε β}
    {f : β → Except ε γ} (h : Ends p q r) (hf : ∀ b, p b → Ends p' q (f b)) :
    Ends p' q (r >>= f) := by
  cases r with
  | ok b => exact hf b h
  | error e => exact h

theorem Ends.imp {p p' : β → Prop} {q q' : ε → Prop} {r : Except ε β} (h : Ends p q r)
    (hp : ∀ b, p b → p' b) (hq : ∀ e, q e → q' e) : Ends p' q' r := by
  cases r with
  | ok b => exact hp b h
  | error e => exact hq e h

def outcome : Except β β → β
  | .ok b => b
  | .error b => b

theorem Ends.outcome {p : β → Prop} {r : Except β β} (h : Ends p p r) : p (outcome r) := by
  cases r with
  | ok b => exact h
  | error b => exact h

theorem Ends.eq_ok {p : β → Prop} {r : Except ε β} (h : Ends p (fun _ => False) r) :
    ∃ b, r = .ok b ∧ p b := by
  cases r with
  | ok b => exact ⟨b, rfl, h⟩
  | error e => exact False.elim h

theorem bind_eq_ok {r : Except ε β} {f : β → Except ε γ} {c : γ} (h : r >>= f = .ok c) :
    ∃ b, r = .ok b ∧ f b = .ok c := by
  cases r with
  | ok b => exact ⟨b, rfl, h⟩
  | error e => cases h

theorem mapError_eq_ok {δ : Type} {g : ε → δ} {r : Except ε β} {b : β}
    (h : r.mapError g = .ok b) : r = .ok b := by
  cases r with
  | ok b' => exact congrArg Except.ok (Except.ok.inj h)
  | error e => cases h

def forEach (body : Nat → α → β → Except ε β) : List α → Nat → β → Except ε β
  | [], _, b => .ok b
  | a :: l, i, b => body i a b >>= forEach body l (i + 1)

theorem forEach_cons (body : Nat → α → β → Except ε β) (a : α) (l : List α) (i : Nat) (b : β) :
    forEach body (a :: l) i b = body i a b >>= forEach body l (i + 1) := rfl

theorem forEach_append (body : Nat → α → β → Except ε β) (l l' : List α) (i : Nat) (b : β) :
    forEach body (l ++ l') i b = forEach body l i b >>= forEach body l' (i + l.length) := by
  induction l generalizing i b with
  | nil => rfl
  | cons a l ih =>
    rw [List.cons_append, forEach_cons, forEach_cons, bind_assoc]
    congr 1
    funext b'
    rw [ih, List.length_cons, Nat.add_right_comm, Nat.add_assoc]

theorem forEach_map {δ : Type} (f : δ → α) (body : Nat → α → β → Except ε β) (l : List δ) (i : Nat)
    (b : β) : forEach body (l.map f) i b = forEach (fun i d b => body i (f d) b) l i b := by
  induction l generalizing i b with
  | nil => rfl
  | cons d l ih =>
    rw [List.map_cons, forEach_cons, forEach_cons]
    congr 1
    funext b'
    exact ih (i + 1) b'

/-- The invariant is about the elements already visited. -/
theorem forEach_ends {body : Nat → α → β → Except ε β} {I : List α → β → Prop} {q : ε → Prop}
    {start : Nat} {l : List α} (hStep : ∀ done a rest b, l = done ++ a :: rest → I done b →
      Ends (I (done ++ [a])) q (body (start + done.length) a b)) {b : β} (h : I [] b) :
    Ends (I l) q (forEach body l start b) := by
  have general : ∀ rest done b, l = done ++ rest → I done b →
      Ends (I l) q (forEach body rest (start + done.length) b) := by
    intro rest
    induction rest with
    | nil =>
      intro done b hl h
      rw [List.append_nil] at hl
      exact hl ▸ h
    | cons a rest ih =>
      intro done b hl h
      apply (hStep done a rest b hl h).bind
      intro b' h'
      have hRest := ih (done ++ [a]) b' (by rw [hl, List.append_assoc]; rfl) h'
      rwa [List.length_append, List.length_singleton, ← Nat.add_assoc] at hRest
  exact general l [] b rfl h

theorem forEach_preserves {body : Nat → α → β → Except ε β} {I : β → Prop} {q : ε → Prop}
    {l : List α} (hStep : ∀ i a b, l[i]? = some a → I b → Ends I q (body i a b)) {b : β} (h : I b) :
    Ends I q (forEach body l 0 b) := by
  apply forEach_ends (I := fun _ => I) (fun done a rest b hl h => ?_) h
  apply hStep _ _ _ _ h
  rw [hl, Nat.zero_add, List.getElem?_append_right (Nat.le_refl _), Nat.sub_self]
  rfl

def repeated (body : Nat → β → Except ε β) : Nat → β → Except ε β
  | 0, b => .ok b
  | n + 1, b => repeated body n b >>= body n

theorem repeated_succ (body : Nat → β → Except ε β) (n : Nat) (b : β) :
    repeated body (n + 1) b = repeated body n b >>= body n := rfl

theorem repeated_ends {body : Nat → β → Except ε β} {I : Nat → β → Prop} {q : ε → Prop}
    (hStep : ∀ t b, I t b → Ends (I (t + 1)) q (body t b)) {b : β} (h : I 0 b) (n : Nat) :
    Ends (I n) q (repeated body n b) := by
  induction n with
  | zero => exact h
  | succ n ih => exact ih.bind (fun b' h' => hStep n b' h')

/-! ## Loops on the image of a state -/

section

variable {β' γ' ε' : Type} {k : ε → ε'} {g : β → β'} {g' : γ → γ'}

def both (k : ε → ε') (g : β → β') : Except ε β → Except ε' β'
  | .ok b => .ok (g b)
  | .error e => .error (k e)

theorem both_bind {r : Except ε β} {f : β → Except ε γ} {f' : β' → Except ε' γ'}
    (h : ∀ b, f' (g b) = both k g' (f b)) : both k g r >>= f' = both k g' (r >>= f) := by
  cases r with
  | ok b => exact h b
  | error e => rfl

theorem forEach_both {body : Nat → α → β → Except ε β} {body' : Nat → α → β' → Except ε' β'}
    (h : ∀ i a b, body' i a (g b) = both k g (body i a b)) (l : List α) (i : Nat) (b : β) :
    forEach body' l i (g b) = both k g (forEach body l i b) := by
  induction l generalizing i b with
  | nil => rfl
  | cons a l ih =>
    rw [forEach_cons, forEach_cons, h]
    exact both_bind fun b' => ih (i + 1) b'

theorem repeated_both {body : Nat → β → Except ε β} {body' : Nat → β' → Except ε' β'}
    (h : ∀ t b, body' t (g b) = both k g (body t b)) (n : Nat) (b : β) :
    repeated body' n (g b) = both k g (repeated body n b) := by
  induction n with
  | zero => rfl
  | succ n ih =>
    rw [repeated_succ, repeated_succ, ih]
    exact both_bind (h n)

end

/-! ## Loops side by side -/

section

variable {β' γ' ε' : Type} {R : β → β' → Prop} {R' : γ → γ' → Prop} {Q : ε → ε' → Prop}

/-- Both return, and what they return is related, or both throw. -/
def Alike (R : β → β' → Prop) (Q : ε → ε' → Prop) : Except ε β → Except ε' β' → Prop
  | .ok b, .ok b' => R b b'
  | .error e, .error e' => Q e e'
  | _, _ => False

theorem Alike.bind {r : Except ε β} {r' : Except ε' β'} {f : β → Except ε γ} {f' : β' → Except ε' γ'}
    (h : Alike R Q r r') (hf : ∀ b b', R b b' → Alike R' Q (f b) (f' b')) :
    Alike R' Q (r >>= f) (r' >>= f') := by
  cases r with
  | ok b =>
    cases r' with
    | ok b' => exact hf b b' h
    | error e' => exact False.elim h
  | error e =>
    cases r' with
    | ok b' => exact False.elim h
    | error e' => exact h

theorem Alike.outcome {R : β → β' → Prop} {r : Except β β} {r' : Except β' β'} (h : Alike R R r r') :
    R (outcome r) (outcome r') := by
  cases r with
  | ok b =>
    cases r' with
    | ok b' => exact h
    | error e' => exact False.elim h
  | error e =>
    cases r' with
    | ok b' => exact False.elim h
    | error e' => exact h

theorem forEach_alike {body : Nat → α → β → Except ε β} {body' : Nat → α → β' → Except ε' β'}
    {l : List α} {i : Nat} (hStep : ∀ j a b b', l[j]? = some a → R b b' →
      Alike R Q (body (i + j) a b) (body' (i + j) a b')) {b : β} {b' : β'} (h : R b b') :
    Alike R Q (forEach body l i b) (forEach body' l i b') := by
  induction l generalizing i b b' with
  | nil => exact h
  | cons a l ih =>
    have hHead : Alike R Q (body i a b) (body' i a b') := hStep 0 a b b' rfl h
    apply hHead.bind
    intro c c' hc
    apply ih _ hc
    intro j d b b' hd hb
    have hTail := hStep (j + 1) d b b' hd hb
    rwa [Nat.add_comm j, ← Nat.add_assoc] at hTail

end

/-! ## What a loop puts out -/

section

variable {σ : Type} (step : α → σ → List β × σ)

/-- The items that the steps put out one after the other, and the last state. -/
def transcript : List α → σ → List β × σ
  | [], s => ([], s)
  | a :: l, s =>
    let first := step a s
    let rest := transcript l first.2
    (first.1 ++ rest.1, rest.2)

theorem transcript_cons (a : α) (l : List α) (s : σ) : transcript step (a :: l) s =
    ((step a s).1 ++ (transcript step l (step a s).2).1, (transcript step l (step a s).2).2) := rfl

theorem transcript_append (l l' : List α) (s : σ) : transcript step (l ++ l') s =
    ((transcript step l s).1 ++ (transcript step l' (transcript step l s).2).1,
      (transcript step l' (transcript step l s).2).2) := by
  induction l generalizing s with
  | nil => rfl
  | cons a l ih => rw [List.cons_append, transcript_cons, transcript_cons, ih, List.append_assoc]

theorem transcript_snoc (l : List α) (a : α) (s : σ) : transcript step (l ++ [a]) s =
    ((transcript step l s).1 ++ (step a (transcript step l s).2).1,
      (step a (transcript step l s).2).2) := by
  rw [transcript_append, transcript_cons]
  dsimp only [transcript]
  rw [List.append_nil]

theorem mem_transcript_of_prefix {l l' : List α} {s : σ} {b : β} (h : b ∈ (transcript step l s).1) :
    b ∈ (transcript step (l ++ l') s).1 := by
  rw [transcript_append]
  exact List.mem_append_left _ h

end

end Loop
