import UiSync.Json.Record
import UiSync.Proofs.Json.Nesting

/-!
# What readers take

Every reader takes a stretch of the text that leaves the depth as it is (`Measured`): a number, a
scalar, the elements of an array up to its bracket, a value of any depth.  Skipping keeps a stack of
its own, and what it takes closes as many brackets as there are on the stack (`yields_skipNested`).
A record takes the whole of an array or object (`RecordShape.yields_read`).
-/

namespace UiSync.Json

variable {α β : Type}

/-! ## Numbers -/

variable {negative : Bool} {significand dropped : Nat} {exponent : Int}

theorem yields_readFloat (s : Bytes) :
    Yields (readFloat negative significand exponent s) fun x => LevelTo s x.2 := by
  -- unfolded at its arguments the double would be computed, so the function is unfolded by itself
  obtain ⟨f, hf⟩ : ∃ f, f = readFloat := ⟨_, rfl⟩
  rw [← hf]
  delta readFloat at hf
  subst hf
  beta_reduce
  generalize (Double.ofInt? significand).bind (scale? · exponent) = x
  cases x with
  | none => exact .error
  | some x => exact .ok (.refl _ s)

theorem levelTo_readExponentDigits (n : Nat) (s : Bytes) :
    LevelTo s (readExponentDigits n s).2 := by
  induction s generalizing n with
  | nil => exact .refl _ _
  | cons b s ih =>
    unfold readExponentDigits
    split_ifs with hb
    · exact (ih _).plain (isPlain_of_isDigitByte b hb)
    · exact (Spans.refl _ s).plain (isPlain_of_isDigitByte b hb)
    · exact .refl _ _

theorem yields_readExponent (s : Bytes) :
    Yields (readExponent negative significand exponent s) fun x => LevelTo s x.2 := by
  unfold readExponent
  split
  next down s₁ hsign =>
  have hs : LevelTo s s₁ := by
    split at hsign
    · cases hsign
      exact .plain rfl (.refl _ _)
    · cases hsign
      exact .plain rfl (.refl _ _)
    · cases hsign
      exact .refl _ _
  split
  · exact .error
  · next b s₂ =>
    split
    · next hb =>
      have hdigits := (levelTo_readExponentDigits (digitValue b) s₂).plain
        (isPlain_of_isDigitByte b hb)
      split
      · next n s₃ hread =>
        rw [hread] at hdigits
        exact (yields_readFloat _).mono fun x hx => hs.trans (hdigits.trans hx)
      · next s₃ hread =>
        rw [hread] at hdigits
        split
        · exact .error
        · exact .ok (hs.trans (hdigits.trans (levelTo_afterDigits s₃)))
    · exact .error

theorem yields_readScaled (s : Bytes) :
    Yields (readScaled negative significand exponent s) fun x => LevelTo s x.2 := by
  unfold readScaled
  split
  · next b rest =>
    split
    · next hb =>
      have hplain : isPlain b = true := by rcases hb with rfl | rfl <;> rfl
      exact (yields_readExponent _).mono fun x hx => hx.plain hplain
    · exact yields_readFloat _
  · exact yields_readFloat _

theorem yields_readFraction (s : Bytes) :
    Yields (readFraction negative significand dropped s) fun x => LevelTo s x.2 := by
  unfold readFraction
  split
  · exact .error
  · exact (yields_readScaled _).mono fun x hx => (levelTo_afterDigits s).trans hx

theorem yields_wholeNumber (s : Bytes) :
    Yields (wholeNumber negative significand dropped s) fun x => LevelTo s x.2 := by
  unfold wholeNumber
  dsimp only
  split
  · exact .ok (.refl _ s)
  · exact yields_readFloat _

theorem yields_readAfterInteger (s : Bytes) :
    Yields (readAfterInteger negative significand dropped s) fun x => LevelTo s x.2 := by
  unfold readAfterInteger
  split
  · exact yields_wholeNumber _
  · next b rest =>
    split_ifs with hpoint hletter
    · exact (yields_readFraction _).mono fun x hx => hx.plain (by rw [hpoint]; rfl)
    · have hplain : isPlain b = true := by rcases hletter with rfl | rfl <;> rfl
      exact (yields_readExponent _).mono fun x hx => hx.plain hplain
    · exact yields_wholeNumber _

theorem yields_readNumber (s : Bytes) :
    Yields (readNumber negative s) fun x => LevelTo s x.2 := by
  unfold readNumber
  split
  · exact .error
  · next b s =>
    split_ifs with hzero hlead hb
    · exact (yields_readAfterInteger _).mono fun x hx => hx.plain (by rw [hzero]; rfl)
    · exact .error
    · have hdigits := (levelTo_afterDigits s).plain (isPlain_of_isDigitByte b hb)
      exact (yields_readAfterInteger _).mono fun x hx => hdigits.trans hx
    · exact .error

theorem yields_skipExponent (s : Bytes) : Yields (skipExponent s) (LevelTo s) := by
  unfold skipExponent
  dsimp only
  split
  · exact .error
  · next b s₁ hsign =>
    have hs : LevelTo s (b :: s₁) := by
      split at hsign
      · subst hsign
        exact .plain rfl (.refl _ _)
      · subst hsign
        exact .plain rfl (.refl _ _)
      · subst hsign
        exact .refl _ _
    split
    · next hb =>
      have hplain := isPlain_of_isDigitByte b hb
      exact .ok (hs.trans ((levelTo_afterDigits s₁).plain hplain))
    · exact .error

theorem yields_skipAfterInteger (s : Bytes) : Yields (skipAfterInteger s) (LevelTo s) := by
  unfold skipAfterInteger
  split
  · exact .ok (.refl _ _)
  · next b rest =>
    split
    · next hpoint =>
      have hplain : isPlain b = true := by rw [hpoint]; rfl
      have hdigits := (levelTo_afterDigits rest).plain hplain
      split
      · exact .error
      · split
        · next hend => exact .ok (hend ▸ hdigits)
        · next c after hrest =>
          rw [hrest] at hdigits
          split
          · next hletter =>
            have hplain : isPlain c = true := by rcases hletter with rfl | rfl <;> rfl
            exact (yields_skipExponent after).mono fun x hx => hdigits.trans (hx.plain hplain)
          · exact .ok hdigits
    · split
      · next hletter =>
        have hplain : isPlain b = true := by rcases hletter with rfl | rfl <;> rfl
        exact (yields_skipExponent rest).mono fun x hx => hx.plain hplain
      · exact .ok (.refl _ _)

theorem yields_skipNumber (s : Bytes) : Yields (skipNumber s) (LevelTo s) := by
  unfold skipNumber
  split
  · exact .error
  · next b s =>
    split
    · next hzero =>
      split
      · exact (yields_skipAfterInteger s).mono fun x hx => hx.plain (by rw [hzero]; rfl)
      · exact .error
    · split
      · next hb =>
        have hdigits := (levelTo_afterDigits s).plain (isPlain_of_isDigitByte b hb)
        exact (yields_skipAfterInteger _).mono fun x hx => hdigits.trans hx
      · exact .error

/-! ## Scalars -/

/-- what reading a scalar takes: the bracket of an array or object is left where it is -/
structure Scalar.Taken (s : Bytes) (x : Scalar × Bytes) : Prop where
  level : LevelTo s x.2
  bracket : x.1 = .array ∨ x.1 = .object →
    ∃ b rest, opens b = true ∧ skipBlanks s = b :: rest ∧ x.2 = b :: rest

theorem yields_readScalar (s : Bytes) : Yields (readScalar s) (Scalar.Taken s) := by
  have hblanks := levelTo_skipBlanks s
  unfold readScalar
  split
  · exact .error
  · next b rest hs =>
    rw [hs] at hblanks
    have hword {word : Bytes} {x : Scalar} (hx : ¬(x = .array ∨ x = .object))
        (hb : isPlain b = true) (hw : word.all isPlain = true) :
        Yields (readWord word rest >>= fun rest => .ok (x, rest)) (Scalar.Taken s) :=
      (yields_readWord hw rest).bind fun _ h =>
        .ok ⟨hblanks.trans (h.plain hb), fun h => absurd h hx⟩
    have hnumber {negative : Bool} {t : Bytes} (ht : LevelTo s t) :
        Yields (readNumber negative t >>= fun x => .ok (Scalar.number x.1, x.2))
          (Scalar.Taken s) :=
      (yields_readNumber t).bind fun _ h => .ok ⟨ht.trans h, by simp⟩
    split_ifs with hn ht hf hminus hdigit hquote harray hobject
    · exact hword (by simp) (by rw [hn]; rfl) rfl
    · exact hword (by simp) (by rw [ht]; rfl) rfl
    · exact hword (by simp) (by rw [hf]; rfl) rfl
    · exact hnumber (hblanks.trans (.plain (by rw [hminus]; rfl) (.refl _ rest)))
    · exact hnumber hblanks
    · rw [hquote] at hblanks
      exact (yields_readString rest).bind fun _ h => .ok ⟨hblanks.trans h, by simp⟩
    · exact .ok ⟨hblanks, fun _ => ⟨b, rest, by rw [harray]; rfl, hs, rfl⟩⟩
    · exact .ok ⟨hblanks, fun _ => ⟨b, rest, by rw [hobject]; rfl, hs, rfl⟩⟩
    · exact .error

def Measured (read : Bytes → Reading α) : Prop := ∀ s, Yields (read s) fun x => LevelTo s x.2

theorem measured_readAs (view : Scalar → Except Reason α) : Measured (readAs view) := by
  intro s
  refine (yields_readScalar s).bind fun x hx => ?_
  dsimp only
  split
  · exact .ok hx.level
  · exact .error

/-! ## Elements and members -/

theorem yields_closeArray {r : Reading α} {s : Bytes} (h : Yields r fun x => LevelTo s x.2) :
    Yields (closeArray r) fun x => ClosesTo s x.2 := by
  unfold closeArray
  split
  · exact .error
  · next a t =>
    have ht := (h _ rfl).trans (levelTo_skipBlanks t)
    split
    · exact .error
    · next rest hb =>
      rw [hb] at ht
      exact .ok (ht.trans (.closing rfl rest))
    · split <;> exact .error
    · exact .error

theorem yields_closeObject {r : Reading α} {s : Bytes} (h : Yields r fun x => LevelTo s x.2) :
    Yields (closeObject r) fun x => ClosesTo s x.2 := by
  unfold closeObject
  split
  · exact .error
  · next a t =>
    have ht := (h _ rfl).trans (levelTo_skipBlanks t)
    split
    · exact .error
    · next rest hb =>
      rw [hb] at ht
      exact .ok (ht.trans (.closing rfl rest))
    · exact .error
    · exact .error

theorem yields_nextElement (first : Bool) (s : Bytes) :
    Yields (nextElement first s) fun x => LevelTo s x.2 := by
  have hs := levelTo_skipBlanks s
  unfold nextElement
  split
  · exact .error
  · next rest hb => exact .ok (hb ▸ hs)
  · next b rest _ hb =>
    rw [hb] at hs
    split
    · exact .ok hs
    · split
      · next hcomma =>
        have hrest := (hs.trans (.plain (by rw [hcomma]; rfl) (.refl _ rest))).trans
          (levelTo_skipBlanks rest)
        split
        · exact .error
        · exact .error
        · exact .ok hrest
      · exact .error

/-- the quote of a key is already read -/
theorem yields_nextMember (first : Bool) (s : Bytes) : Yields (nextMember first s) fun x =>
    LevelTo s (if x.1 then 0x22 :: x.2 else x.2) := by
  have hs := levelTo_skipBlanks s
  unfold nextMember
  split
  · exact .error
  · next rest hb => exact .ok (hb ▸ hs)
  · next b rest _ hb =>
    rw [hb] at hs
    split
    · split
      · next hquote => exact .ok (hquote ▸ hs)
      · exact .error
    · split
      · next hcomma =>
        have hrest := (hs.trans (.plain (by rw [hcomma]; rfl) (.refl _ rest))).trans
          (levelTo_skipBlanks rest)
        split
        · exact .error
        · next hkey => exact .ok (hkey ▸ hrest)
        · exact .error
        · exact .error
      · exact .error

theorem yields_readColon (s : Bytes) : Yields (readColon s) (LevelTo s) := by
  have hs := levelTo_skipBlanks s
  unfold readColon
  split
  · exact .error
  · next rest hb =>
    rw [hb] at hs
    exact .ok (hs.trans (.plain rfl (.refl _ rest)))
  · exact .error

theorem Measured.afterColon {read : Bytes → Reading α} (h : Measured read) :
    Measured fun s => (readColon s).bind read := fun s =>
  (yields_readColon s).bind fun t ht => (h t).mono fun _ hx => ht.trans hx

theorem Measured.map {read : Bytes → Reading α} (h : Measured read) (f : α → β) :
    Measured fun s => (read s).bind fun x => .ok (f x.1, x.2) := fun s =>
  (h s).bind fun _ hx => .ok hx

theorem yields_readElements {item : Bytes → Reading α} (hitem : Measured item) (fuel : Nat)
    (first : Bool) (read : List α) (s : Bytes) :
    Yields (readElements item fuel first read s) fun x => LevelTo s x.2 := by
  induction fuel generalizing first read s with
  | zero => exact .error
  | succ fuel ih =>
    refine (yields_nextElement first s).bind fun x hx => ?_
    dsimp only
    split
    · refine (hitem x.2).bind fun y hy => ?_
      exact (ih _ _ y.2).mono fun _ h => (hx.trans hy).trans h
    · exact .ok hx

theorem yields_readArray {item : Bytes → Reading α} (hitem : Measured item) (s : Bytes) :
    Yields (readArray item s) fun x => ClosesTo s x.2 :=
  yields_closeArray (yields_readElements hitem _ _ _ s)

theorem yields_readMembers {σ : Type} {member : σ → String → Bytes → Reading σ}
    (hmember : ∀ state key, Measured (member state key)) (fuel : Nat) (first : Bool) (state : σ)
    (s : Bytes) : Yields (readMembers member fuel first state s) fun x => LevelTo s x.2 := by
  induction fuel generalizing first state s with
  | zero => exact .error
  | succ fuel ih =>
    refine (yields_nextMember first s).bind fun x hx => ?_
    dsimp only
    split
    · next hmore =>
      rw [hmore, if_pos rfl] at hx
      refine (yields_readString x.2).bind fun y hy => ?_
      refine (hmember state y.1 y.2).bind fun z hz => ?_
      exact (ih _ _ z.2).mono fun _ h => ((hx.trans hy).trans hz).trans h
    · next hmore =>
      rw [if_neg hmore] at hx
      exact .ok hx

theorem yields_readObject {σ : Type} {member : σ → String → Bytes → Reading σ}
    (hmember : ∀ state key, Measured (member state key)) (start : σ) (s : Bytes) :
    Yields (readObject member start s) fun x => ClosesTo s x.2 :=
  yields_closeObject (yields_readMembers hmember _ _ start s)

/-! ## Values -/

/-- an array or object is taken from the bracket on that was left where it is -/
theorem Scalar.Taken.level_of_closes {s rest : Bytes} {x : Scalar × Bytes} (h : Scalar.Taken s x)
    (hx : x.1 = .array ∨ x.1 = .object) (hr : ClosesTo x.2.tail rest) : LevelTo s rest := by
  obtain ⟨b, t, hb, -, ht⟩ := h.bracket hx
  have hlevel := h.level
  rw [ht] at hr hlevel
  exact hlevel.trans (.opening hb hr)

theorem measured_readList {item : Nat → Bytes → Reading α} (hitem : ∀ room, Measured (item room))
    (room : Nat) : Measured (readList room item) := by
  intro s
  refine (yields_readScalar s).bind fun x hx => ?_
  obtain ⟨scalar, t⟩ := x
  dsimp only
  split
  · exact .error
  · exact (yields_readArray (hitem _) t.tail).mono fun _ h => hx.level_of_closes (.inl rfl) h
  · exact .error

theorem measured_readEntry {value : Bytes → Reading Value} (hvalue : Measured value)
    (members : List (String × Value)) (key : String) : Measured (readEntry value members key) :=
  (hvalue.map fun v => Entries.insert key v members).afterColon

theorem measured_readMapEntry {value : Bytes → Reading Value} (hvalue : Measured value)
    (d : Dict String Value) (key : String) : Measured (readMapEntry value d key) :=
  (hvalue.map fun v => d.insert key v).afterColon

theorem measured_readValue (room : Nat) : Measured (readValue room) := by
  intro s
  unfold readValue
  refine (yields_readScalar s).bind fun x hx => ?_
  obtain ⟨scalar, t⟩ := x
  -- only arrays and objects hold values, and these are read with less room
  cases scalar
  case array =>
    cases room with
    | zero => exact .error
    | succ room =>
      exact (yields_readArray (measured_readValue room) t.tail).bind fun _ h =>
        .ok (hx.level_of_closes (.inl rfl) h)
  case object =>
    cases room with
    | zero => exact .error
    | succ room =>
      have hmember := measured_readEntry (measured_readValue room)
      exact (yields_readObject hmember [] t.tail).bind fun _ h =>
        .ok (hx.level_of_closes (.inr rfl) h)
  all_goals exact .ok hx.level

theorem measured_readMap (room : Nat) : Measured (readMap room) := by
  intro s
  refine (yields_readScalar s).bind fun x hx => ?_
  obtain ⟨scalar, t⟩ := x
  dsimp only
  split
  · exact .error
  · next room =>
    have hmember := measured_readMapEntry (measured_readValue room)
    exact (yields_readObject hmember ∅ t.tail).mono fun _ h => hx.level_of_closes (.inr rfl) h
  · exact .error

/-! ## Skipping -/

/-- before `rest` in `s`, `k` brackets are closed that are open at the start -/
def Sinks (k : Nat) : Bytes → Bytes → Prop := Spans (fun d => .inside (d + k)) .inside

namespace Sinks

variable {k : Nat} {s t rest : Bytes} {b : UInt8}

theorem refl (s : Bytes) : Sinks 0 s s := Spans.refl _ s

theorem level (hs : LevelTo s t) (h : Sinks k t rest) : Sinks k s rest := (hs.deeper k).trans h

theorem opening (hb : opens b = true) (h : Sinks (k + 1) s rest) : Sinks k (b :: s) rest :=
  h.cons fun d => step_opens hb (d + k)

theorem closing (hb : closes b = true) (h : Sinks k s rest) : Sinks (k + 1) (b :: s) rest :=
  h.cons fun d => step_closes hb (d + (k + 1))

end Sinks

theorem Bracket.closes_closing (bracket : Bracket) : closes bracket.closing = true := by
  cases bracket <;> rfl

theorem yields_skipToken (s : Bytes) : Yields (skipToken s) fun x =>
    (x.1 = none → LevelTo s x.2) ∧ (x.1 ≠ none → ∃ b, opens b = true ∧ s = b :: x.2) := by
  unfold skipToken
  split
  · exact .error
  · next b rest =>
    have hscalar {r : Except Fault Bytes} (hr : Yields r (LevelTo (b :: rest))) :
        Yields (r >>= fun t => .ok ((none : Option Bracket), t)) fun x =>
          (x.1 = none → LevelTo (b :: rest) x.2) ∧
            (x.1 ≠ none → ∃ b', opens b' = true ∧ b :: rest = b' :: x.2) :=
      hr.bind fun _ h => .ok ⟨fun _ => h, fun hx => absurd rfl hx⟩
    have hword {word : Bytes} (hb : isPlain b = true) (hw : word.all isPlain = true) :
        Yields (readWord word rest) (LevelTo (b :: rest)) :=
      (yields_readWord hw rest).mono fun _ h => h.plain hb
    split_ifs with hn ht hf hminus hdigit hquote harray hobject
    · exact hscalar (hword (by rw [hn]; rfl) rfl)
    · exact hscalar (hword (by rw [ht]; rfl) rfl)
    · exact hscalar (hword (by rw [hf]; rfl) rfl)
    · exact hscalar ((yields_skipNumber rest).mono fun _ h => h.plain (by rw [hminus]; rfl))
    · exact hscalar (yields_skipNumber (b :: rest))
    · refine hscalar ((yields_skipString .plain rest).mono fun t h => ?_)
      rw [hquote]
      exact h.2.cons fun _ => rfl
    · exact .ok ⟨nofun, fun _ => ⟨b, by rw [harray]; rfl, rfl⟩⟩
    · exact .ok ⟨nofun, fun _ => ⟨b, by rw [hobject]; rfl, rfl⟩⟩
    · exact .error

theorem yields_skipKey (s : Bytes) : Yields (skipKey s) (LevelTo s) := by
  unfold skipKey
  split
  · exact .error
  · next b rest =>
    split
    · next hquote =>
      refine (yields_skipString .plain rest).bind fun t ht => ?_
      have hkey : LevelTo (b :: rest) t := by
        rw [hquote]
        exact ht.2.cons fun _ => rfl
      exact (yields_readColon t).mono fun _ h => hkey.trans h
    · exact .error

/-- skipping ends behind the brackets that are open -/
theorem yields_skipNested (fuel : Nat) (awaiting : Awaiting) (stack : List Bracket) (s : Bytes) :
    Yields (skipNested fuel awaiting stack s) (Sinks stack.length s) := by
  induction fuel generalizing awaiting stack s with
  | zero => cases awaiting <;> exact .error
  | succ fuel ih =>
    have hs := levelTo_skipBlanks s
    cases awaiting with
    | value =>
      unfold skipNested
      refine (yields_skipToken (skipBlanks s)).bind fun x hx => ?_
      obtain ⟨bracket, t⟩ := x
      cases bracket with
      | none => exact (ih .separator stack t).mono fun _ h => .level (hs.trans (hx.1 rfl)) h
      | some bracket =>
        obtain ⟨b, hb, ht⟩ := hx.2 nofun
        rw [ht] at hs
        exact (ih .opened (bracket :: stack) t).mono fun _ h => .level hs (.opening hb h)
    | key =>
      unfold skipNested
      refine (yields_skipKey (skipBlanks s)).bind fun t ht => ?_
      exact (ih .value stack t).mono fun _ h => .level (hs.trans ht) h
    | opened =>
      cases stack with
      | nil => exact .ok (.refl s)
      | cons bracket stack =>
        unfold skipNested
        split
        · exact .error
        · next b rest hb =>
          rw [hb] at hs
          split
          · next hclose =>
            have hcloses : closes b = true := hclose ▸ bracket.closes_closing
            exact (ih .separator stack rest).mono fun _ h => .level hs (.closing hcloses h)
          · exact (ih _ (bracket :: stack) (b :: rest)).mono fun _ h => .level hs h
    | separator =>
      cases stack with
      | nil => exact .ok (.refl s)
      | cons bracket stack =>
        unfold skipNested
        split
        · exact .error
        · next b rest hb =>
          rw [hb] at hs
          split
          · next hcomma =>
            have hrest := hs.trans (.plain (by rw [hcomma]; rfl) (.refl _ rest))
            exact (ih _ (bracket :: stack) rest).mono fun _ h => .level hrest h
          · split
            · next hclose =>
              have hcloses : closes b = true := hclose ▸ bracket.closes_closing
              exact (ih .separator stack rest).mono fun _ h => .level hs (.closing hcloses h)
            · exact .error

theorem yields_skipValue (s : Bytes) : Yields (skipValue s) (LevelTo s) :=
  yields_skipNested _ .value [] s

/-! ## Records -/

section Records

variable {δ : Type}

def FieldReader.Measured (f : FieldReader δ) : Prop := ∀ room d, Json.Measured (f.read room d)

theorem FieldReader.Measured.required {name : String} {isSet : δ → Bool}
    {read : Nat → Bytes → Reading α} {set : δ → α → δ} (hread : ∀ room, Json.Measured (read room)) :
    (FieldReader.required name isSet read set).Measured :=
  fun room _ s => (hread room s).map fun _ h => h

theorem FieldReader.Measured.withDefault {f : FieldReader δ} {default? : Option (δ → δ)}
    (hf : f.Measured) : FieldReader.Measured { f with default? := default? } := hf

/-- from `s` to `rest` there is one array or object, after blanks -/
structure TakesWhole (s rest : Bytes) : Prop where
  level : LevelTo s rest
  whole : Spans (fun _ => .before) (fun _ => .after) s rest

theorem Scalar.Taken.takesWhole {s rest : Bytes} {x : Scalar × Bytes} (h : Scalar.Taken s x)
    (hx : x.1 = .array ∨ x.1 = .object) (hr : ClosesTo x.2.tail rest) : TakesWhole s rest := by
  refine ⟨h.level_of_closes hx hr, ?_⟩
  obtain ⟨b, t, hb, hblanks, ht⟩ := h.bracket hx
  have hs := before_skipBlanks s
  rw [hblanks] at hs
  rw [ht] at hr
  exact hs.trans (.whole hb hr)

namespace RecordShape

variable {shape : RecordShape δ α}

theorem yields_readInOrder {fields : List (FieldReader δ)} (hfields : ∀ f ∈ fields, f.Measured)
    (title : String) (room i : Nat) (first : Bool) (d : δ) (s : Bytes) :
    Yields (readInOrder title room fields i first d s) fun x => LevelTo s x.2 := by
  induction fields generalizing i first d s with
  | nil => exact .ok (.refl _ s)
  | cons f fields ih =>
    have hrest := ih fun f hf => hfields f (List.mem_cons_of_mem _ hf)
    refine (yields_nextElement first s).bind fun x hx => ?_
    dsimp only
    split
    · refine (hfields f (List.mem_cons_self ..) room d x.2).bind fun y hy => ?_
      exact (hrest _ _ _ y.2).mono fun _ h => (hx.trans hy).trans h
    · split
      · exact (hrest _ _ _ x.2).mono fun _ h => hx.trans h
      · exact .error

theorem measured_readMember (hshape : ∀ f ∈ shape.fields, f.Measured) (room : Nat) (d : δ)
    (key : String) : Measured (shape.readMember room d key) := by
  intro s
  unfold readMember
  split
  · refine (yields_readColon s).bind fun t ht => ?_
    exact (yields_skipValue t).bind fun _ h => .ok (ht.trans h)
  · next f hf =>
    split
    · exact .error
    · exact Measured.afterColon (hshape f (List.mem_of_find?_eq_some hf) room d) s

theorem yields_conclude (draft : δ × Bytes) :
    Yields (shape.conclude draft) fun x => x.2 = draft.2 := by
  unfold conclude
  split
  · exact .ok rfl
  · exact .error

/-- a record takes a whole array or object -/
theorem yields_read (hshape : ∀ f ∈ shape.fields, f.Measured) (room : Nat) (s : Bytes) :
    Yields (shape.read room s) fun x => TakesWhole s x.2 := by
  have hconclude {r : Reading δ} {t : Bytes} (hr : Yields r fun x => LevelTo t x.2) :
      Yields (r.bind shape.conclude) fun x => LevelTo t x.2 :=
    hr.bind fun x hx => (yields_conclude x).mono fun _ h => h ▸ hx
  refine (yields_readScalar s).bind fun x hx => ?_
  obtain ⟨scalar, t⟩ := x
  dsimp only
  split
  · exact .error
  · exact .error
  · next room =>
    have hfields := yields_readInOrder hshape shape.arrayTitle room 0 true shape.blank t.tail
    exact (yields_closeArray (hconclude hfields)).mono fun _ h => hx.takesWhole (.inl rfl) h
  · next room =>
    have hmember := measured_readMember hshape room
    have hmembers := yields_readMembers hmember t.length true shape.blank t.tail
    exact (yields_closeObject (hconclude hmembers)).mono fun _ h => hx.takesWhole (.inr rfl) h
  · exact .error

theorem measured_read (hshape : ∀ f ∈ shape.fields, f.Measured) (room : Nat) :
    Measured (shape.read room) := fun s => (yields_read hshape room s).mono fun _ h => h.level

/-- a text that holds a record is complete, whatever blanks are around the record -/
theorem run_of_readWhole (hshape : ∀ f ∈ shape.fields, f.Measured) {room : Nat} {text : Bytes}
    {a : α} (h : readWhole (shape.read room) text = .ok a) :
    Nesting.run .before text = some .after := by
  have hread := yields_read hshape room text
  unfold readWhole at h
  cases hr : shape.read room text with
  | error f =>
    rw [hr] at h
    cases h
  | ok x =>
    obtain ⟨c, htext, hc⟩ := (hread x hr).whole
    rw [hr] at h
    dsimp only [bind, Except.bind] at h
    split at h
    · next hblanks => rw [htext, Nesting.run_append_of (hc 0), Nesting.run_after_blanks hblanks]
    · cases h

end RecordShape

end Records

end UiSync.Json
