import Mathlib
import UiSync.Caption

/-!
# Captions lose and invent nothing

The rules for captions of ASCII identifiers, said without the algorithm: which segment of an
identifier counts (`Segment`), where a text of mixed case is cut (`Boundary`, `CutAtBoundaries`),
and what the words of a caption are (`Captions`).

The loop invariant is that `splitWords` cuts a text at its boundaries and nowhere else
(`cutAtBoundaries_splitWords`).  Whether a word starts at a character depends on its neighbours only,
so a further character at the front is a word of its own (`CutAtBoundaries.cut`) or belongs to the
first one (`CutAtBoundaries.join`).
-/

namespace UiSync.Caption

open Text

/-! ## The rules -/

/-- what counts of an identifier: what stands after its last dot, or all of it when that dot is
first or last or missing -/
inductive Segment : List Char → List Char → Prop
  | after {path seg : List Char} : path ≠ [] → seg ≠ [] → '.' ∉ seg →
      Segment (path ++ '.' :: seg) seg
  | dotFirst {rest : List Char} : '.' ∉ rest → Segment ('.' :: rest) ('.' :: rest)
  | dotLast {path : List Char} : Segment (path ++ ['.']) (path ++ ['.'])
  | undotted {id : List Char} : '.' ∉ id → Segment id id

/-- the characters of identifiers written in capitals -/
def IsShoutedChar (c : Char) : Prop := c.isUpper ∨ c.isDigit ∨ c = '_'

/-- a new word starts at `c`, which stands between `prev` and `rest` -/
inductive Boundary : Char → Char → List Char → Prop
  | capital {prev c : Char} {rest : List Char} : c.isUpper → ¬ prev.isUpper → Boundary prev c rest
  /-- `c` is the last of a run of capitals -/
  | lastCapital {prev c next : Char} {rest : List Char} : c.isUpper → prev.isUpper →
      next.isLower → Boundary prev c (next :: rest)
  | digits {prev c : Char} {rest : List Char} : (c.isDigit ↔ ¬ prev.isDigit) → Boundary prev c rest

structure CutAtBoundaries (text : List Char) (parts : List (List Char)) : Prop where
  nonempty : ∀ part ∈ parts, part ≠ []
  whole : parts.flatten = text
  cuts : ∀ front prev c rest, text = front ++ prev :: c :: rest →
    ((∃ k, (parts.take k).flatten = front ++ [prev]) ↔ Boundary prev c rest)

def lowerTail : List Char → List Char
  | [] => []
  | c :: rest => c :: rest.map Char.toLower

/-- `caption` consists of `words`, and these come from `seg` -/
structure Captions (seg caption : List Char) (words : List (List Char)) : Prop where
  joined : caption = [' '].intercalate words
  nonempty : ∀ word ∈ words, word ≠ []
  unspaced : ∀ word ∈ words, ' ' ∉ word
  noUnderscore : '_' ∉ caption
  letters : (caption.filter (· != ' ')).map Char.toLower = (seg.filter (· != '_')).map Char.toLower
  capitalized : ∀ word ∈ words, ∀ c ∈ word.head?, ¬ c.isLower
  mixed : (∃ c ∈ seg, ¬ IsShoutedChar c) → ∃ parts,
    CutAtBoundaries (seg.filter (· != '_')) parts ∧ words = parts.map (·.modifyHead Char.toUpper)
  shouted : (∀ c ∈ seg, IsShoutedChar c) →
    words = ((seg.splitOn '_').filter (!·.isEmpty)).map lowerTail

/-! ## The segment -/

theorem takeWhile_append_dot (l rest : List Char) (h : '.' ∉ l) :
    (l ++ '.' :: rest).takeWhile (· != '.') = l := by
  rw [List.takeWhile_append_of_pos fun c hc => by
    simpa using fun he : c = '.' => h (he ▸ hc), List.takeWhile_cons_of_neg (by simp),
    List.append_nil]

theorem lastSegment_append_dot (path seg : List Char) (h : '.' ∉ seg) :
    lastSegment (path ++ '.' :: seg) =
      if path = [] ∨ seg = [] then path ++ '.' :: seg else seg := by
  have htail : ((path ++ '.' :: seg).reverse.takeWhile (· != '.')).reverse = seg := by
    have hr : (path ++ '.' :: seg).reverse = seg.reverse ++ '.' :: path.reverse := by simp
    rw [hr, takeWhile_append_dot _ _ (by simpa using h), List.reverse_reverse]
  have hlength : (seg.length + 1 == (path ++ '.' :: seg).length) = decide (path = []) := by
    cases path with
    | nil => simp
    | cons c path =>
      simp only [List.cons_append, List.length_cons, List.length_append]
      simp
      omega
  simp only [lastSegment, htail, hlength, Bool.or_eq_true, List.isEmpty_iff, decide_eq_true_eq,
    or_comm]

theorem lastSegment_of_undotted {id : List Char} (h : '.' ∉ id) : lastSegment id = id := by
  have htail : (id.reverse.takeWhile (· != '.')).reverse = id := by
    rw [List.takeWhile_eq_self_iff.2 fun c hc => by
      simpa using fun he : c = '.' => h (he ▸ List.mem_reverse.1 hc), List.reverse_reverse]
  simp only [lastSegment, htail, ite_self]

theorem segment_iff {id seg : List Char} : Segment id seg ↔ seg = lastSegment id := by
  constructor
  · intro h
    cases h with
    | after hpath hseg hdot => rw [lastSegment_append_dot _ _ hdot, if_neg (by simp [hpath, hseg])]
    | @dotFirst rest hdot =>
      exact (lastSegment_append_dot [] rest hdot).trans (if_pos (.inl rfl)) |>.symm
    | @dotLast path =>
      exact (lastSegment_append_dot path [] List.not_mem_nil).trans (if_pos (.inr rfl)) |>.symm
    | undotted hdot => exact (lastSegment_of_undotted hdot).symm
  · rintro rfl
    by_cases hid : '.' ∈ id
    · -- the text is split at its last dot
      obtain ⟨after, before, hr, hdot⟩ := List.eq_append_cons_of_mem (List.mem_reverse.2 hid)
      obtain ⟨path, seg, rfl, hdot⟩ : ∃ path seg, id = path ++ '.' :: seg ∧ '.' ∉ seg :=
        ⟨before.reverse, after.reverse, by simpa using congrArg List.reverse hr,
          by simpa using hdot⟩
      rw [lastSegment_append_dot _ _ hdot]
      split
      · rename_i h
        rcases h with rfl | rfl
        · exact .dotFirst hdot
        · exact .dotLast
      · rename_i h
        exact .after (fun hp => h (.inl hp)) (fun hs => h (.inr hs)) hdot
    · rw [lastSegment_of_undotted hid]
      exact .undotted hid

theorem Segment.mem {id seg : List Char} (h : Segment id seg) {c : Char} (hc : c ∈ seg) :
    c ∈ id := by
  cases h with
  | after => exact List.mem_append_right _ (List.mem_cons_of_mem _ hc)
  | dotFirst => exact hc
  | dotLast => exact hc
  | undotted => exact hc

/-! ## Texts of mixed case -/

theorem boundary_iff {prev c : Char} {rest : List Char} (hprev : prev.toNat < 128)
    (hc : c.toNat < 128) (hrest : ∀ d ∈ rest, d.toNat < 128) :
    Boundary prev c rest ↔ startsWord prev c rest.head? = true := by
  have hnext : rest.head?.any isLowercase = true ↔ ∃ d ∈ rest.head?, d.isLower = true := by
    cases rest with
    | nil => simp
    | cons d rest => simp [isLowercase_of_ascii (hrest d List.mem_cons_self)]
  simp only [startsWord, isUppercase_of_ascii hprev, isUppercase_of_ascii hc, Bool.or_eq_true,
    Bool.and_eq_true, Bool.not_eq_true', hnext, bne_iff_ne, ne_eq]
  constructor
  · intro h
    cases h with
    | capital hu hp => exact .inl (.inl ⟨hu, by simpa using hp⟩)
    | lastCapital hu hp hn => exact .inl (.inr ⟨⟨hu, hp⟩, _, rfl, hn⟩)
    | digits hd => exact .inr (by cases hp : prev.isDigit <;> simp_all)
  · rintro ((⟨hu, hp⟩ | ⟨⟨hu, hp⟩, d, hd, hn⟩) | hd)
    · exact .capital hu (by simp [hp])
    · obtain ⟨rest, rfl⟩ : ∃ tail, rest = d :: tail := List.head?_eq_some_iff.1 hd
      exact .lastCapital hu hp hn
    · exact .digits (by cases hp : prev.isDigit <;> simp_all)

/-- a first part of its own puts one cut before the others -/
theorem exists_take_cons (part : List Char) (parts : List (List Char)) (front : List Char)
    (prev : Char) :
    (∃ k, ((part :: parts).take k).flatten = front ++ [prev]) ↔
      ∃ k, part ++ (parts.take k).flatten = front ++ [prev] := by
  constructor
  · rintro ⟨k, hk⟩
    cases k with
    | zero => simp at hk
    | succ k => exact ⟨k, hk⟩
  · rintro ⟨k, hk⟩
    exact ⟨k + 1, hk⟩

namespace CutAtBoundaries

variable {c d : Char} {rest word : List Char} {words : List (List Char)}

/-- before a boundary a word ends -/
theorem cut (h : CutAtBoundaries (d :: rest) words) (hb : Boundary c d rest) :
    CutAtBoundaries (c :: d :: rest) ([c] :: words) := by
  refine ⟨?_, ?_, fun front prev e rest' ht => ?_⟩
  · rintro part (_ | ⟨_, hpart⟩)
    · exact List.cons_ne_nil _ _
    · exact h.nonempty part hpart
  · show c :: words.flatten = _
    rw [h.whole]
  · rw [exists_take_cons]
    cases front with
    | nil =>
      obtain ⟨rfl, rfl, rfl⟩ : c = prev ∧ d = e ∧ rest = rest' := by simpa using ht
      exact iff_of_true ⟨0, rfl⟩ hb
    | cons c' front =>
      obtain ⟨rfl, htext⟩ : c = c' ∧ d :: rest = front ++ prev :: e :: rest' := by simpa using ht
      rw [← h.cuts front prev e rest' htext]
      simp

/-- before any other character it goes on -/
theorem join (h : CutAtBoundaries (d :: rest) (word :: words)) (hb : ¬ Boundary c d rest) :
    CutAtBoundaries (c :: d :: rest) ((c :: word) :: words) := by
  refine ⟨?_, ?_, fun front prev e rest' ht => ?_⟩
  · rintro part (_ | ⟨_, hpart⟩)
    · exact List.cons_ne_nil _ _
    · exact h.nonempty part (List.mem_cons_of_mem _ hpart)
  · show c :: (word :: words).flatten = _
    rw [h.whole]
  · rw [exists_take_cons]
    cases front with
    | nil =>
      obtain ⟨rfl, rfl, rfl⟩ : c = prev ∧ d = e ∧ rest = rest' := by simpa using ht
      refine iff_of_false ?_ hb
      rintro ⟨k, hk⟩
      exact h.nonempty word List.mem_cons_self (List.append_eq_nil_iff.1 (List.cons.inj hk).2).1
    | cons c' front =>
      obtain ⟨rfl, htext⟩ : c = c' ∧ d :: rest = front ++ prev :: e :: rest' := by simpa using ht
      rw [← h.cuts front prev e rest' htext, exists_take_cons]
      simp

end CutAtBoundaries

theorem cutAtBoundaries_splitWords {text : List Char} (h : ∀ c ∈ text, c.toNat < 128) :
    CutAtBoundaries text (splitWords text) := by
  fun_induction splitWords text with
  | case1 => exact ⟨by simp, rfl, fun _ _ _ _ ht => by simp at ht⟩
  | case2 c =>
    refine ⟨by simp, rfl, fun front prev d rest ht => ?_⟩
    have hlength := congrArg List.length ht
    simp at hlength
    omega
  | case3 c d rest hnil ih =>
    have hwhole := (ih fun e he => h e (List.mem_cons_of_mem _ he)).whole
    rw [hnil] at hwhole
    cases hwhole
  | case4 c d rest word words hwords hstarts ih =>
    have hcut := ih fun e he => h e (List.mem_cons_of_mem _ he)
    rw [← boundary_iff (h c (by simp)) (h d (by simp)) fun x hx => h x (by simp [hx])] at hstarts
    rw [hwords] at hcut
    exact hcut.cut hstarts
  | case5 c d rest word words hwords hstarts ih =>
    have hcut := ih fun e he => h e (List.mem_cons_of_mem _ he)
    rw [← boundary_iff (h c (by simp)) (h d (by simp)) fun x hx => h x (by simp [hx])] at hstarts
    rw [hwords] at hcut
    exact hcut.join hstarts

/-! ## Identifiers in capitals -/

theorem isShouted_iff {seg : List Char} : isShouted seg = true ↔ ∀ c ∈ seg, IsShoutedChar c := by
  simp [isShouted, IsShoutedChar, or_assoc]

theorem cutAtUnderscores_eq (seg : List Char) : cutAtUnderscores seg = seg.splitOn '_' := by
  induction seg with
  | nil => rfl
  | cons c rest ih =>
    rw [cutAtUnderscores, ih, List.splitOn, List.splitOn, List.splitOnP_cons_eq_if_modifyHead]
    cases hparts : rest.splitOnP (· == '_') with
    | nil => exact absurd hparts (List.splitOnP_ne_nil _ _)
    | cons part parts => simp

theorem flatten_splitOn (seg : List Char) :
    (seg.splitOn '_').flatten = seg.filter (· != '_') := by
  induction seg with
  | nil => rfl
  | cons c rest ih =>
    rw [List.splitOn] at ih ⊢
    rw [List.splitOnP_cons_eq_if_modifyHead, List.filter_cons, ← ih]
    by_cases hc : c = '_'
    · simp [hc]
    · cases hparts : rest.splitOnP (· == '_') with
      | nil => exact absurd hparts (List.splitOnP_ne_nil _ _)
      | cons part parts => simp [hc]

theorem underscoreParts_eq (seg : List Char) :
    underscoreParts seg = (seg.splitOn '_').filter (!·.isEmpty) := by
  rw [underscoreParts, cutAtUnderscores_eq]

theorem flatten_underscoreParts (seg : List Char) :
    (underscoreParts seg).flatten = seg.filter (· != '_') := by
  rw [← flatten_splitOn, underscoreParts_eq]
  induction seg.splitOn '_' with
  | nil => rfl
  | cons part parts ih => cases part <;> simp [ih]

/-! ## Letter case -/

theorem capitalize_of_ascii {word : List Char} (h : ∀ c ∈ word, c.toNat < 128) :
    capitalize word = word.modifyHead Char.toUpper := by
  cases word with
  | nil => rfl
  | cons c rest =>
    show uppercase c ++ rest = c.toUpper :: rest
    rw [uppercase_of_ascii (h c List.mem_cons_self)]
    rfl

theorem map_toLower_modifyHead (word : List Char) :
    (word.modifyHead Char.toUpper).map Char.toLower = word.map Char.toLower := by
  cases word with
  | nil => rfl
  | cons c rest =>
    show c.toUpper.toLower :: _ = c.toLower :: _
    rw [Char.toLower_toUpper_eq_toLower]

theorem isUpper_iff_toNat {c : Char} : c.isUpper ↔ 65 ≤ c.toNat ∧ c.toNat ≤ 90 := by
  simp [Char.isUpper, UInt32.le_iff_toNat_le, ← Char.toNat_val]

theorem isLower_iff_toNat {c : Char} : c.isLower ↔ 97 ≤ c.toNat ∧ c.toNat ≤ 122 := by
  simp [Char.isLower, UInt32.le_iff_toNat_le, ← Char.toNat_val]

theorem toNat_toLower_lt {c : Char} (h : c.toNat < 128) : c.toLower.toNat < 128 := by
  by_cases hu : c.isUpper
  · have hle : c.toNat ≤ 90 := (isUpper_iff_toNat.1 hu).2
    rw [Char.toLower_eq_of_isUpper hu, Char.toNat_ofNat, if_pos (.inl (by omega))]
    omega
  · rwa [Char.toLower_eq_of_not_isUpper hu]

/-- what is no letter has no other case -/
theorem eq_of_toUpper_eq {c d : Char} (h : c.toUpper = d) (hd : d.isAlpha = false) : c = d := by
  have hc : ¬ c.isLower := fun hlower => by
    rw [← h, Char.isAlpha_toUpper_eq_isAlpha, Char.isAlpha, hlower, Bool.or_true] at hd
    cases hd
  rwa [Char.toUpper_eq_of_not_isLower hc] at h

theorem eq_of_toLower_eq {c d : Char} (h : c.toLower = d) (hd : d.isAlpha = false) : c = d := by
  have hc : ¬ c.isUpper := fun hupper => by
    rw [← h, Char.isAlpha_toLower_eq_isAlpha, Char.isAlpha, hupper, Bool.true_or] at hd
    cases hd
  rwa [Char.toLower_eq_of_not_isUpper hc] at h

theorem mem_of_mem_modifyHead {word : List Char} {d : Char} (hd : d.isAlpha = false)
    (h : d ∈ word.modifyHead Char.toUpper) : d ∈ word := by
  cases word with
  | nil => exact h
  | cons c rest =>
    rcases List.mem_cons.1 h with he | he
    · rw [← eq_of_toUpper_eq he.symm hd]
      exact List.mem_cons_self
    · exact List.mem_cons_of_mem _ he

theorem not_isLower_of_isShoutedChar {c : Char} (h : IsShoutedChar c) : ¬ c.isLower := by
  rcases h with hu | hd | rfl
  · exact Char.not_isLower_of_isUpper hu
  · rw [Char.isDigit_iff_toNat] at hd
    rw [isLower_iff_toNat]
    have hnine : '9'.toNat = 57 := rfl
    omega
  · decide

theorem modifyHead_toLower {word : List Char} (h : ∀ c ∈ word, IsShoutedChar c) :
    (word.map Char.toLower).modifyHead Char.toUpper = lowerTail word := by
  cases word with
  | nil => rfl
  | cons c rest =>
    have hc := not_isLower_of_isShoutedChar (h c List.mem_cons_self)
    show c.toLower.toUpper :: _ = c :: _
    rw [Char.toUpper_toLower_eq_toUpper, Char.toUpper_eq_of_not_isLower hc]

/-! ## Words -/

/-- the words before they are capitalised hold the segment without its underscores, up to case -/
structure Holds (seg : List Char) (parts : List (List Char)) : Prop where
  nonempty : ∀ part ∈ parts, part ≠ []
  letters : parts.flatten.map Char.toLower = (seg.filter (· != '_')).map Char.toLower
  chars : ∀ part ∈ parts, ∀ c ∈ part, ∃ d ∈ seg, d ≠ '_' ∧ (c = d ∨ c = d.toLower)

theorem mem_seg {seg : List Char} {parts : List (List Char)}
    (hwhole : parts.flatten = seg.filter (· != '_')) {part : List Char} (hpart : part ∈ parts)
    {c : Char} (hc : c ∈ part) : c ∈ seg ∧ c ≠ '_' := by
  have hmem : c ∈ parts.flatten := List.mem_flatten.2 ⟨part, hpart, hc⟩
  rw [hwhole, List.mem_filter] at hmem
  exact ⟨hmem.1, by simpa using hmem.2⟩

theorem cut_words {seg : List Char} (h : ∀ c ∈ seg, c.toNat < 128) (hs : isShouted seg = false) :
    CutAtBoundaries (seg.filter (· != '_')) (words seg) := by
  rw [words, hs]
  exact cutAtBoundaries_splitWords fun c hc => h c (List.mem_filter.1 hc).1

theorem holds_words {seg : List Char} (h : ∀ c ∈ seg, c.toNat < 128) : Holds seg (words seg) := by
  cases hs : isShouted seg with
  | true =>
    have hparts : words seg = (underscoreParts seg).map (·.map Char.toLower) := by
      rw [words, hs]
      rfl
    have hwhole := flatten_underscoreParts seg
    rw [hparts]
    refine ⟨fun word hword => ?_, ?_, fun word hword c hc => ?_⟩
    · obtain ⟨part, hpart, rfl⟩ := List.mem_map.1 hword
      rw [underscoreParts_eq] at hpart
      simpa using (List.mem_filter.1 hpart).2
    · rw [← List.map_flatten, List.map_map, hwhole]
      exact List.map_congr_left fun c _ => Char.toLower_toLower_eq_toLower c
    · obtain ⟨part, hpart, rfl⟩ := List.mem_map.1 hword
      obtain ⟨d, hd, rfl⟩ := List.mem_map.1 hc
      exact ⟨d, (mem_seg hwhole hpart hd).1, (mem_seg hwhole hpart hd).2, .inr rfl⟩
  | false =>
    obtain ⟨hnonempty, hwhole, -⟩ := cut_words h hs
    refine ⟨hnonempty, congrArg _ hwhole, fun word hword c hc => ?_⟩
    exact ⟨c, (mem_seg hwhole hword hc).1, (mem_seg hwhole hword hc).2, .inl rfl⟩

namespace Holds

variable {seg : List Char} {parts : List (List Char)}

theorem ascii (hp : Holds seg parts) (h : ∀ c ∈ seg, c.toNat < 128) :
    ∀ part ∈ parts, ∀ c ∈ part, c.toNat < 128 := by
  intro part hpart c hc
  obtain ⟨d, hd, -, rfl | rfl⟩ := hp.chars part hpart c hc
  · exact h c hd
  · exact toNat_toLower_lt (h d hd)

theorem map_capitalize (hp : Holds seg parts) (h : ∀ c ∈ seg, c.toNat < 128) :
    parts.map capitalize = parts.map (·.modifyHead Char.toUpper) :=
  List.map_congr_left fun part hpart => capitalize_of_ascii (hp.ascii h part hpart)

/-- what is no letter and is not in the segment, or is an underscore, is in no word -/
theorem notMem (hp : Holds seg parts) {d : Char} (hd : d.isAlpha = false)
    (hseg : d ∈ seg → d = '_') :
    ∀ word ∈ parts.map (·.modifyHead Char.toUpper), d ∉ word := by
  intro word hword hmem
  obtain ⟨part, hpart, rfl⟩ := List.mem_map.1 hword
  obtain ⟨e, he, hne, rfl | hlower⟩ := hp.chars part hpart d (mem_of_mem_modifyHead hd hmem)
  · exact hne (hseg he)
  · obtain rfl := eq_of_toLower_eq hlower.symm hd
    exact hne (hseg he)

theorem letters_capitalized (hp : Holds seg parts) :
    (parts.map (·.modifyHead Char.toUpper)).flatten.map Char.toLower =
      (seg.filter (· != '_')).map Char.toLower := by
  rw [← hp.letters, List.map_flatten, List.map_flatten, List.map_map]
  exact congrArg _ (List.map_congr_left fun part _ => map_toLower_modifyHead part)

end Holds

/-- the spaces of a caption are those between its words -/
theorem filter_intercalate {words : List (List Char)} (h : ∀ word ∈ words, ' ' ∉ word) :
    ([' '].intercalate words).filter (· != ' ') = words.flatten := by
  have hword : ∀ word ∈ words, word.filter (· != ' ') = word := fun word hmem =>
    List.filter_eq_self.2 fun c hc => by
      simpa using fun he : c = ' ' => h word hmem (he ▸ hc)
  induction words with
  | nil => rfl
  | cons word words ih =>
    have ih := ih (fun w hw => h w (List.mem_cons_of_mem _ hw))
      fun w hw => hword w (List.mem_cons_of_mem _ hw)
    cases words with
    | nil => simpa [List.intercalate] using hword word List.mem_cons_self
    | cons next words =>
      have hfirst := hword word List.mem_cons_self
      rw [List.intercalate, List.intersperse_cons_cons, List.flatten_cons, List.flatten_cons,
        List.filter_append, List.filter_append, hfirst]
      rw [List.intercalate] at ih
      rw [ih]
      rfl

/-- the caption that is made of a segment -/
theorem captions_words {seg : List Char} (h : ∀ c ∈ seg, c.toNat < 128) (hspace : ' ' ∉ seg) :
    Captions seg ([' '].intercalate ((words seg).map capitalize))
      ((words seg).map (·.modifyHead Char.toUpper)) := by
  have hholds := holds_words h
  have hunspaced := hholds.notMem (d := ' ') rfl fun hd => absurd hd hspace
  have hflat := filter_intercalate hunspaced
  rw [hholds.map_capitalize h]
  refine
    { joined := rfl
      nonempty := fun word hword => ?_
      unspaced := hunspaced
      noUnderscore := fun hmem => ?_
      letters := hflat ▸ hholds.letters_capitalized
      capitalized := fun word hword c hc => ?_
      mixed := fun ⟨c, hc, hshout⟩ => ⟨words seg, cut_words h ?_, rfl⟩
      shouted := fun hshout => ?_ }
  · obtain ⟨part, hpart, rfl⟩ := List.mem_map.1 hword
    simpa using hholds.nonempty part hpart
  · -- an underscore is no space, so it would be in one of the words
    have hwords : '_' ∈ ((words seg).map (·.modifyHead Char.toUpper)).flatten := by
      rw [← hflat]
      exact List.mem_filter.2 ⟨hmem, rfl⟩
    obtain ⟨word, hword, hc⟩ := List.mem_flatten.1 hwords
    exact hholds.notMem rfl (fun _ => rfl) word hword hc
  · obtain ⟨part, -, rfl⟩ := List.mem_map.1 hword
    cases part with
    | nil => cases hc
    | cons d rest =>
      cases hc
      simp
  · exact Bool.eq_false_iff.2 fun hall => hshout (isShouted_iff.1 hall c hc)
  · rw [words, if_pos (isShouted_iff.2 hshout), underscoreParts_eq, List.map_map]
    refine List.map_congr_left fun part hpart => modifyHead_toLower fun c hc => hshout c ?_
    exact (mem_seg (flatten_underscoreParts seg) (underscoreParts_eq seg ▸ hpart) hc).1

/-- The caption of an ASCII identifier without spaces is made of the one segment of it that
counts. -/
theorem captions (id : String) (hascii : ∀ c ∈ id.toList, c.toNat < 128)
    (hspace : ' ' ∉ id.toList) : ∃ seg words,
      (∀ other, Segment id.toList other ↔ other = seg) ∧
        Captions seg (ofPropertyId id).toList words := by
  have hsegment : Segment id.toList (lastSegment id.toList) := segment_iff.2 rfl
  have hcaptions := captions_words (fun c hc => hascii c (hsegment.mem hc))
    fun hc => hspace (hsegment.mem hc)
  rw [ofPropertyId, String.toList_ofList]
  exact ⟨_, _, fun other => segment_iff, hcaptions⟩

theorem captions_htmlName : (∀ c ∈ "address.HTMLName_2b".toList, c.toNat < 128) ∧
    ' ' ∉ "address.HTMLName_2b".toList ∧ ∃ seg words,
      (∀ other, Segment "address.HTMLName_2b".toList other ↔ other = seg) ∧
        Captions seg (ofPropertyId "address.HTMLName_2b").toList words :=
  ⟨by simp, by simp, captions "address.HTMLName_2b" (by simp) (by simp)⟩

example : ofPropertyId "address.HTMLName_2b" = "HTML Name 2 B" := by decide +kernel

end UiSync.Caption
