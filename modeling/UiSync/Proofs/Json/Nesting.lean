import UiSync.Proofs.Json.Tokens

/-!
# Brackets and quotes

How deep a byte of a text is nested can be told without reading any values: `Nesting.step` only
looks at brackets, quotes and backslashes.  A text in one pair of brackets is a complete run of this
machine, and after it nothing but blanks goes through (`Nesting.run_after`), so such a text is not
complete before its last byte.

What the readers of tokens take leaves the depth as it is (`LevelTo`).  A string has to be
followed byte by byte (`yields_readBytes`), as what looks like a quote may be escaped; of everything
else no byte is a bracket or a quote.
-/

namespace UiSync.Json

variable {α β : Type}

/-! ## The machine -/

def opens (b : UInt8) : Bool := b == 0x5B || b == 0x7B

def closes (b : UInt8) : Bool := b == 0x5D || b == 0x7D

/-- where a byte stands, `depth` being the number of brackets around the innermost one -/
inductive Nesting where
  | before
  | inside (depth : Nat)
  | quoted (depth : Nat)
  | escaped (depth : Nat)
  | after

namespace Nesting

/-- behind the bracket that ends the innermost one -/
def up : Nat → Nesting
  | 0 => after
  | depth + 1 => inside depth

def step : Nesting → UInt8 → Option Nesting
  | before, b =>
    if isBlankByte b then some before else if opens b then some (inside 0) else none
  | inside d, b =>
    if b = 0x22 then some (quoted d)
    else if opens b then some (inside (d + 1))
    else if closes b then some (up d)
    else some (inside d)
  | quoted d, b =>
    if b = 0x22 then some (inside d) else if b = 0x5C then some (escaped d) else some (quoted d)
  | escaped d, _ => some (quoted d)
  | after, b => if isBlankByte b then some after else none

def run (n : Nesting) (s : Bytes) : Option Nesting := s.foldlM step n

theorem run_cons (n : Nesting) (b : UInt8) (s : Bytes) :
    run n (b :: s) = (step n b).bind (run · s) := List.foldlM_cons

theorem run_append (n : Nesting) (s t : Bytes) : run n (s ++ t) = (run n s).bind (run · t) :=
  List.foldlM_append

theorem run_append_of {n m : Nesting} {s : Bytes} (h : run n s = some m) (t : Bytes) :
    run n (s ++ t) = run m t := by
  rw [run_append, h]
  rfl

/-- behind the last bracket only blanks go through -/
theorem run_after {s : Bytes} {n : Nesting} (h : run after s = some n) :
    ∀ b ∈ s, isBlankByte b = true := by
  induction s with
  | nil => simp
  | cons b s ih =>
    rw [run_cons, step] at h
    split at h
    · next hb =>
      intro c hc
      rcases List.mem_cons.1 hc with rfl | hc
      · exact hb
      · exact ih h c hc
    · cases h

theorem run_after_blanks {s : Bytes} (h : skipBlanks s = []) : run after s = some after := by
  induction s with
  | nil => rfl
  | cons b s ih =>
    unfold skipBlanks at h ih
    rw [List.dropWhile_cons] at h
    split at h
    · next hb =>
      rw [run_cons, step, if_pos hb]
      exact ih h
    · cases h

end Nesting

open Nesting (run)

/-! ## Single bytes -/

def isPlain (b : UInt8) : Bool := b != 0x22 && !opens b && !closes b

section Bytes

variable {b : UInt8}

theorem step_plain (h : isPlain b = true) (d : Nat) :
    Nesting.step (.inside d) b = some (.inside d) := by
  simp only [isPlain, Bool.and_eq_true, bne_iff_ne, Bool.not_eq_true'] at h
  simp [Nesting.step, h]

theorem step_opens (h : opens b = true) (d : Nat) :
    Nesting.step (.inside d) b = some (.inside (d + 1)) := by
  have hquote : b ≠ 0x22 := by
    rintro rfl
    cases h
  simp [Nesting.step, hquote, h]

theorem step_before_opens (h : opens b = true) :
    Nesting.step .before b = some (.inside 0) := by
  simp only [opens, Bool.or_eq_true, beq_iff_eq] at h
  rcases h with rfl | rfl <;> rfl

theorem step_closes (h : closes b = true) (d : Nat) :
    Nesting.step (.inside d) b = some (.up d) := by
  simp only [closes, Bool.or_eq_true, beq_iff_eq] at h
  rcases h with rfl | rfl <;> rfl

end Bytes

/-! ## Stretches of a text -/

/-- at every depth, what stands before `rest` in `s` takes the machine from `n` to `m` -/
def Spans (n m : Nat → Nesting) (s rest : Bytes) : Prop :=
  ∃ c, s = c ++ rest ∧ ∀ d, run (n d) c = some (m d)

abbrev LevelTo : Bytes → Bytes → Prop := Spans .inside .inside

/-- what stands before `rest` in `s` is the remainder of an array or object -/
abbrev ClosesTo : Bytes → Bytes → Prop := Spans .inside .up

namespace Spans

variable {n n' m u : Nat → Nesting} {s t rest : Bytes} {b : UInt8}

theorem refl (n : Nat → Nesting) (s : Bytes) : Spans n n s s := ⟨[], rfl, fun _ => rfl⟩

theorem trans (h : Spans n m s t) (h' : Spans m u t rest) : Spans n u s rest := by
  obtain ⟨c, rfl, hc⟩ := h
  obtain ⟨e, rfl, he⟩ := h'
  refine ⟨c ++ e, (List.append_assoc ..).symm, fun d => ?_⟩
  rw [Nesting.run_append_of (hc d), he d]

theorem cons (hb : ∀ d, Nesting.step (n d) b = some (n' d)) (h : Spans n' m s rest) :
    Spans n m (b :: s) rest := by
  obtain ⟨c, rfl, hc⟩ := h
  refine ⟨b :: c, rfl, fun d => ?_⟩
  rw [Nesting.run_cons, hb d]
  exact hc d

theorem plain (hb : isPlain b = true) (h : Spans .inside m s rest) :
    Spans .inside m (b :: s) rest := h.cons fun d => step_plain hb d

theorem opening (hb : opens b = true) (h : ClosesTo s rest) : LevelTo (b :: s) rest := by
  obtain ⟨c, rfl, hc⟩ := h
  exact cons (step_opens hb) ⟨c, rfl, fun d => hc (d + 1)⟩

theorem closing (hb : closes b = true) (s : Bytes) : ClosesTo (b :: s) s :=
  cons (step_closes hb) (refl _ s)

/-- a bracket and the remainder of its array or object are a whole text -/
theorem whole (hb : opens b = true) (h : ClosesTo s rest) :
    Spans (fun _ => .before) (fun _ => .after) (b :: s) rest := by
  obtain ⟨c, rfl, hc⟩ := h
  exact cons (fun _ => step_before_opens hb) ⟨c, rfl, fun _ => hc 0⟩

/-- the same at a greater depth -/
theorem deeper (h : LevelTo s rest) (k : Nat) :
    Spans (fun d => .inside (d + k)) (fun d => .inside (d + k)) s rest := by
  obtain ⟨c, rfl, hc⟩ := h
  exact ⟨c, rfl, fun d => hc (d + k)⟩

theorem dropWhile {p : UInt8 → Bool} (hp : ∀ b, p b = true → isPlain b = true) (s : Bytes) :
    LevelTo s (s.dropWhile p) := by
  induction s with
  | nil => exact refl _ _
  | cons b s ih =>
    rw [List.dropWhile_cons]
    split
    · next hb => exact ih.plain (hp b hb)
    · exact refl _ _

end Spans

theorem isPlain_of_isBlankByte (b : UInt8) (h : isBlankByte b = true) : isPlain b = true := by
  simp only [isBlankByte, Bool.or_eq_true, beq_iff_eq] at h
  rcases h with ((rfl | rfl) | rfl) | rfl <;> rfl

theorem isPlain_of_isDigitByte (b : UInt8) (h : isDigitByte b = true) : isPlain b = true := by
  have hne : ∀ c, isDigitByte c = false → b ≠ c := fun c hc => ne_of_isDigitByte h hc
  simp [isPlain, opens, closes, hne 0x22 rfl, hne 0x5B rfl, hne 0x5D rfl, hne 0x7B rfl,
    hne 0x7D rfl]

theorem levelTo_skipBlanks (s : Bytes) : LevelTo s (skipBlanks s) :=
  Spans.dropWhile isPlain_of_isBlankByte s

theorem before_skipBlanks (s : Bytes) :
    Spans (fun _ => .before) (fun _ => .before) s (skipBlanks s) := by
  induction s with
  | nil => exact .refl _ _
  | cons b s ih =>
    unfold skipBlanks at ih ⊢
    rw [List.dropWhile_cons]
    split
    · next hb => exact ih.cons fun _ => by rw [Nesting.step, if_pos hb]
    · exact .refl _ _

theorem levelTo_afterDigits (s : Bytes) : LevelTo s (afterDigits s) :=
  Spans.dropWhile isPlain_of_isDigitByte s

/-! ## Results of readings -/

def Yields (r : Except Fault α) (p : α → Prop) : Prop := ∀ a, r = .ok a → p a

namespace Yields

variable {r : Except Fault α} {p q : α → Prop} {a : α}

theorem error {f : Fault} : Yields (.error f) p := nofun

theorem ok (h : p a) : Yields (.ok a) p := by
  rintro _ ⟨⟩
  exact h

theorem mono (h : Yields r p) (hpq : ∀ a, p a → q a) : Yields r q := fun a ha => hpq a (h a ha)

theorem bind {g : α → Except Fault β} {p' : β → Prop} (h : Yields r p)
    (hg : ∀ a, p a → Yields (g a) p') : Yields (r >>= g) p' := by
  cases r with
  | error f => exact error
  | ok a => exact hg a (h a rfl)

theorem map {g : α → β} {p' : β → Prop} (h : Yields r p) (hg : ∀ a, p a → p' (g a)) :
    Yields (r.map g) p' := by
  cases r with
  | error f => exact error
  | ok a => exact ok (hg a (h a rfl))

end Yields

/-! ## Words -/

theorem yields_readWord {word : Bytes} (hw : word.all isPlain = true) (s : Bytes) :
    Yields (readWord word s) (LevelTo s) := by
  induction word generalizing s with
  | nil => exact .ok (.refl _ s)
  | cons w word ih =>
    rw [List.all_cons, Bool.and_eq_true] at hw
    cases s with
    | nil => exact .error
    | cons b s =>
      unfold readWord
      split
      · next hb => exact (ih hw.2 s).mono fun _ h => h.plain (by rw [hb]; exact hw.1)
      · exact .error

/-! ## Strings -/

def IsHex (b : UInt8) : Prop := (hexValue? b).isSome = true

theorem IsHex.step_quoted {b : UInt8} (h : IsHex b) (d : Nat) :
    Nesting.step (.quoted d) b = some (.quoted d) := by
  have hquote : b ≠ 0x22 := by
    rintro rfl
    cases h
  have hslash : b ≠ 0x5C := by
    rintro rfl
    cases h
  simp [Nesting.step, hquote, hslash]

theorem isHex_of_hexNumber? {digits : Bytes} (h : (hexNumber? digits).isSome = true) :
    ∀ b ∈ digits, IsHex b := by
  unfold hexNumber? at h
  generalize (0 : Nat) = n at h
  induction digits generalizing n with
  | nil => simp
  | cons x digits ih =>
    rw [List.foldlM_cons] at h
    cases hx : hexValue? x with
    | none => simp [hx] at h
    | some v =>
      simp only [hx, Option.map_some, Option.bind_eq_bind, Option.bind_some] at h
      intro b hb
      rcases List.mem_cons.1 hb with rfl | hb
      · simp [IsHex, hx]
      · exact ih _ h b hb

namespace Mode

def nesting : Mode → Nat → Nesting
  | plain | hex .. | pairSlash _ => .quoted
  | escape | pairLetter _ => .escaped

/-- the digits read so far turn out to be digits when the escape is complete -/
def Digits (mode : Mode) : Prop := ∀ high digits, mode = hex high digits → ∀ b ∈ digits, IsHex b

variable {mode next : Mode} {b : UInt8} {bytes : Bytes}

theorem complete_ne_close (high : Option Nat) (n : Nat) : complete high n ≠ .close := by
  unfold complete
  cases high <;> dsimp only <;> repeat' split
  all_goals exact Outcome.noConfusion

theorem nesting_of_complete {high : Option Nat} {n : Nat} (h : complete high n = .emit bytes next) :
    next.nesting = .quoted := by
  unfold complete at h
  cases high with
  | some high =>
    dsimp only at h
    split at h
    · obtain ⟨-, rfl⟩ := Outcome.emit.inj h
      rfl
    · exact Outcome.noConfusion h
  | none =>
    dsimp only at h
    split at h
    · exact Outcome.noConfusion h
    · split at h
      all_goals
        obtain ⟨-, rfl⟩ := Outcome.emit.inj h
        rfl

theorem step_close (h : mode.step b = .close) : mode = plain ∧ b = 0x22 := by
  cases mode with
  | plain =>
    simp only [step] at h
    split_ifs at h with hb
    exact ⟨rfl, hb⟩
  | escape =>
    simp only [step] at h
    split_ifs at h
    split at h <;> cases h
  | hex high digits =>
    simp only [step] at h
    split_ifs at h
    split at h
    · exact absurd h (complete_ne_close _ _)
    · cases h
  | pairSlash high | pairLetter high =>
    simp only [step] at h
    split_ifs at h

/-- an escape goes on with one digit more, or its digits make a number -/
theorem step_hex {high : Option Nat} {digits : Bytes}
    (h : (hex high digits).step b = .emit bytes next) :
    next = hex high (digits ++ [b]) ∨
      (hexNumber? (digits ++ [b])).isSome = true ∧ next.nesting = .quoted := by
  simp only [step] at h
  split_ifs at h
  · exact .inl (Outcome.emit.inj h).2.symm
  · cases hn : hexNumber? (digits ++ [b]) with
    | none => simp [hn] at h
    | some n =>
      rw [hn] at h
      exact .inr ⟨rfl, nesting_of_complete h⟩

theorem digits_of_step (h : mode.step b = .emit bytes next) (hnext : next.Digits) :
    mode.Digits ∧ ∀ d, (mode.nesting d).step b = some (next.nesting d) := by
  cases mode with
  | plain =>
    refine ⟨fun _ _ he => Mode.noConfusion he, fun d => ?_⟩
    simp only [step] at h
    split_ifs at h with hquote hslash <;> cases h
    · simp [nesting, Nesting.step, hslash]
    · simp [nesting, Nesting.step, hquote, hslash]
  | escape =>
    refine ⟨fun _ _ he => Mode.noConfusion he, fun d => ?_⟩
    simp only [step] at h
    split_ifs at h
    · cases h
      rfl
    · cases hc : escapedByte? b with
      | none => simp [hc] at h
      | some c =>
        rw [hc] at h
        cases h
        rfl
  | hex high digits =>
    -- only a complete escape tells that its digits were digits
    obtain ⟨hall, hquoted⟩ : (∀ x ∈ digits ++ [b], IsHex x) ∧ next.nesting = .quoted := by
      rcases step_hex h with rfl | ⟨hnumber, hquoted⟩
      · exact ⟨hnext high _ rfl, rfl⟩
      · exact ⟨isHex_of_hexNumber? hnumber, hquoted⟩
    refine ⟨fun _ _ he x hx => ?_, fun d => ?_⟩
    · cases he
      exact hall x (List.mem_append_left _ hx)
    · rw [hquoted]
      exact (hall b (by simp)).step_quoted d
  | pairSlash high | pairLetter high =>
    refine ⟨fun _ _ he => Mode.noConfusion he, fun d => ?_⟩
    simp only [step] at h
    split_ifs at h with hb
    cases h
    simp [nesting, Nesting.step, hb]

end Mode

/-- a string is read up to a quote that is not escaped -/
theorem yields_readBytes (mode : Mode) (read s : Bytes) : Yields (readBytes mode read s) fun x =>
    mode.Digits ∧ Spans mode.nesting .inside s x.2 := by
  induction s generalizing mode read with
  | nil => exact .error
  | cons b s ih =>
    unfold readBytes
    split
    · next bytes next hstep =>
      refine (ih next _).mono fun x hx => ?_
      obtain ⟨hmode, hb⟩ := Mode.digits_of_step hstep hx.1
      exact ⟨hmode, hx.2.cons hb⟩
    · next hstep =>
      obtain ⟨rfl, rfl⟩ := Mode.step_close hstep
      exact .ok ⟨nofun, .cons (fun _ => rfl) (.refl _ s)⟩
    · exact .error

theorem yields_readString (s : Bytes) :
    Yields (readString s) fun x => LevelTo (0x22 :: s) x.2 := by
  have hbytes := yields_readBytes .plain [] s
  unfold readString
  split
  · exact .error
  · next bytes rest hread =>
    split
    · exact .ok (.cons (fun _ => rfl) (hbytes _ hread).2)
    · exact .error

namespace SkipMode

def nesting : SkipMode → Nat → Nesting
  | plain | hex _ => .quoted
  | escape => .escaped

end SkipMode

/-- a string is skipped up to a quote that is not escaped -/
theorem yields_skipString (mode : SkipMode) (s : Bytes) : Yields (skipString mode s) fun rest =>
    (∀ digits, mode = .hex digits → ∀ b ∈ digits, IsHex b) ∧
      Spans mode.nesting .inside s rest := by
  induction s generalizing mode with
  | nil => cases mode <;> exact .error
  | cons b s ih =>
    cases mode with
    | plain =>
      unfold skipString
      split_ifs with hquote hslash
      · rw [hquote]
        exact .ok ⟨nofun, .cons (fun _ => rfl) (.refl _ s)⟩
      · rw [hslash]
        exact (ih .escape).mono fun _ h => ⟨nofun, h.2.cons fun _ => rfl⟩
      · exact .error
      · refine (ih .plain).mono fun _ h => ⟨nofun, h.2.cons fun d => ?_⟩
        simp [SkipMode.nesting, Nesting.step, hquote, hslash]
    | escape =>
      unfold skipString
      split_ifs
      · exact (ih (.hex [])).mono fun _ h => ⟨nofun, h.2.cons fun _ => rfl⟩
      · exact (ih .plain).mono fun _ h => ⟨nofun, h.2.cons fun _ => rfl⟩
      · exact .error
    | hex digits =>
      have hstep (hb : ∀ x ∈ digits ++ [b], IsHex x) {rest : Bytes}
          (h : Spans .quoted .inside s rest) :
          (∀ digits', SkipMode.hex digits = .hex digits' → ∀ x ∈ digits', IsHex x) ∧
            Spans .quoted .inside (b :: s) rest := by
        refine ⟨fun digits' he x hx => ?_, h.cons (hb b (by simp)).step_quoted⟩
        cases he
        exact hb x (List.mem_append_left _ hx)
      unfold skipString
      split_ifs with hlen hnumber
      · exact (ih (.hex (digits ++ [b]))).mono fun _ h => hstep (h.1 _ rfl) h.2
      · exact (ih .plain).mono fun _ h => hstep (isHex_of_hexNumber? hnumber) h.2
      · exact .error

end UiSync.Json
