import DocumentStore.Json.Parser
import DocumentStore.Json.Printer
import Mathlib.Data.List.TakeWhile

/-!
# Strings and integers in JSON text

A string that is written is read again, whatever text follows its closing quote:
no escape can be taken for another one, or for the closing quote.  The digits of
an integer are told from what follows as long as that is no further digit.  So
two texts that begin with strings, or with integers, and are the same begin with
the same one.
-/

namespace DocumentStore
namespace Json

/-! ### Strings -/

/-- The piece of a string literal as which a character is read again. -/
def pieceOf (c : Char) : Parser.Piece :=
  if c.toNat < 0x20 ∧ c ∉ ['\x08', '\t', '\n', '\x0c', '\r'] then .unit c.toNat else .char c

/-- A character is escaped by a letter, escaped by its code, or stands for itself. -/
theorem escape?_cases (c : Char) :
    (∃ letter, escape? c = some ['\\', letter] ∧ letter ≠ 'u' ∧
      Parser.escaped? letter = some c ∧ pieceOf c = .char c) ∨
    (escape? c = some ('\\' :: 'u' :: Text.hexPadded 4 c.toNat) ∧ c.toNat < 0x20 ∧
      pieceOf c = .unit c.toNat) ∨
    (escape? c = none ∧ c ≠ '"' ∧ c ≠ '\\' ∧ ¬ c.toNat < 0x20 ∧ pieceOf c = .char c) := by
  by_cases hletter : c ∈ ['"', '\\', '\x08', '\t', '\n', '\x0c', '\r']
  · simp only [List.mem_cons, List.not_mem_nil, or_false] at hletter
    rcases hletter with rfl | rfl | rfl | rfl | rfl | rfl | rfl <;>
      exact .inl ⟨_, rfl, by decide, rfl, by decide⟩
  · simp only [List.mem_cons, List.not_mem_nil, or_false, not_or] at hletter
    obtain ⟨hquote, hbackslash, hb, ht, hn, hf, hr⟩ := hletter
    by_cases hcontrol : c.toNat < 0x20
    · exact .inr (.inl ⟨by simp [escape?, *], hcontrol, by simp [pieceOf, *]⟩)
    · exact .inr (.inr ⟨by simp [escape?, *], hquote, hbackslash, hcontrol, by simp [pieceOf, *]⟩)

theorem codeUnit?_hexPadded :
    ∀ n < 0x20, Parser.codeUnit? (Text.hexPadded 4 n) = some n := by
  decide

/-- A written character is read as one piece. -/
theorem pieces?_renderChar
    (c : Char)
    (rest : List Char) :
    Parser.pieces? (renderChar c ++ rest) =
      (Parser.pieces? rest).map fun r => (pieceOf c :: r.1, r.2) := by
  rcases escape?_cases c with
    ⟨letter, hescape, hu, hescaped, hpiece⟩ | ⟨hescape, hcontrol, hpiece⟩ |
      ⟨hescape, hquote, hbackslash, hcontrol, hpiece⟩
  · have hnot : ∀ (a b c d : Char) (more : List Char),
        letter = 'u' → rest = a :: b :: c :: d :: more → False :=
      fun _ _ _ _ _ h => absurd h hu
    rw [renderChar, hescape, hpiece]
    change Parser.pieces? ('\\' :: letter :: rest) = _
    rw [Parser.pieces?.eq_3 _ _ hnot, hescaped]
    cases Parser.pieces? rest <;> rfl
  · have hcode := codeUnit?_hexPadded c.toNat hcontrol
    rw [renderChar, hescape, hpiece]
    change Parser.pieces? ('\\' :: 'u' :: (Text.hexPadded 4 c.toNat ++ rest)) = _
    simp only [Text.hexPadded, List.nil_append, List.cons_append] at hcode ⊢
    rw [Parser.pieces?.eq_2, hcode]
    cases Parser.pieces? rest <;> rfl
  · rw [renderChar, hescape, hpiece]
    change Parser.pieces? (c :: rest) = _
    rw [Parser.pieces?.eq_4 _ _ hquote (fun _ _ _ _ _ h => absurd h hbackslash)
      (fun _ _ h => absurd h hbackslash), if_neg hcontrol]

/-- Written characters are read up to the closing quote. -/
theorem pieces?_flatMap_renderChar
    (cs rest : List Char) :
    Parser.pieces? (cs.flatMap renderChar ++ '"' :: rest) = some (cs.map pieceOf, rest) := by
  induction cs with
  | nil =>
      exact Parser.pieces?.eq_1 rest
  | cons c cs ih =>
      rw [List.flatMap_cons, List.append_assoc, pieces?_renderChar, ih]
      rfl

/-- A code unit that is no half of a pair spells its character, whatever follows. -/
theorem spell?_unit
    {n : Nat}
    (hhigh : Parser.isHighSurrogate n = false)
    (hlow : Parser.isLowSurrogate n = false)
    (rest : List Parser.Piece) :
    Parser.spell? (.unit n :: rest) = (Parser.spell? rest).map (Char.ofNat n :: ·) := by
  have hother : ∀ {tail : List Parser.Piece},
      (∀ low more, tail = .unit low :: more → False) →
      Parser.spell? (.unit n :: tail) = (Parser.spell? tail).map (Char.ofNat n :: ·) := by
    intro tail htail
    rw [Parser.spell?.eq_4 _ _ htail]
    simp [hhigh, hlow]
  match rest with
  | [] =>
      exact hother fun _ _ h => by cases h
  | .char c :: rest =>
      exact hother fun _ _ h => by cases h
  | .unit low :: rest =>
      rw [Parser.spell?.eq_3]
      simp [hhigh, hlow]

/-- The pieces of written characters spell them. -/
theorem spell?_map_pieceOf (cs : List Char) :
    Parser.spell? (cs.map pieceOf) = some cs := by
  induction cs with
  | nil =>
      rfl
  | cons c cs ih =>
      rw [List.map_cons]
      by_cases hcontrol : c.toNat < 0x20 ∧ c ∉ ['\x08', '\t', '\n', '\x0c', '\r']
      · have hpiece : pieceOf c = .unit c.toNat := if_pos hcontrol
        have hhigh : Parser.isHighSurrogate c.toNat = false := by
          refine Bool.and_eq_false_iff.2 (.inl (decide_eq_false ?_))
          omega
        have hlow : Parser.isLowSurrogate c.toNat = false := by
          refine Bool.and_eq_false_iff.2 (.inl (decide_eq_false ?_))
          omega
        rw [hpiece, spell?_unit hhigh hlow, ih, Char.ofNat_toNat]
        rfl
      · have hpiece : pieceOf c = .char c := if_neg hcontrol
        rw [hpiece, Parser.spell?.eq_2, ih]
        rfl

theorem string?_renderString
    (s : String)
    (rest : List Char) :
    Parser.string? (s.toList.flatMap renderChar ++ '"' :: rest) = some (some s, rest) := by
  rw [Parser.string?, pieces?_flatMap_renderChar, Option.map_some, spell?_map_pieceOf,
    Option.map_some, String.ofList_toList]

/-- A written string is its opening quote, its characters and its closing quote. -/
theorem renderString_append
    (s : String)
    (rest : List Char) :
    renderString s ++ rest = '"' :: (s.toList.flatMap renderChar ++ '"' :: rest) := by
  simp [renderString]

theorem renderString_inj
    {s t : String}
    {rest more : List Char}
    (h : renderString s ++ rest = renderString t ++ more) :
    s = t ∧ rest = more := by
  rw [renderString_append, renderString_append] at h
  have hread := congrArg Parser.string? (List.cons.inj h).2
  rw [string?_renderString, string?_renderString] at hread
  cases hread
  exact ⟨rfl, rfl⟩

/-! ### Integers -/

/-- A text that does not go on with a digit. -/
def EndsDigits (rest : List Char) : Prop :=
  ∀ c more, rest = c :: more → c.isDigit = false

theorem endsDigits_nil : EndsDigits [] := by
  intro c more h
  cases h

theorem endsDigits_cons
    {c : Char}
    (h : c.isDigit = false)
    (more : List Char) :
    EndsDigits (c :: more) := by
  rintro _ _ ⟨⟩
  exact h

theorem isDigit_of_mem_renderNat
    {n : Nat}
    {c : Char}
    (h : c ∈ renderNat n) :
    c.isDigit = true :=
  Nat.isDigit_of_mem_toDigits (by decide) (by decide) h

/-- The digits of a number are told from what follows. -/
theorem takeWhile_renderNat
    (n : Nat)
    {rest : List Char}
    (h : EndsDigits rest) :
    (renderNat n ++ rest).takeWhile Char.isDigit = renderNat n := by
  have hrest : rest.takeWhile Char.isDigit = [] := by
    cases rest with
    | nil =>
        rfl
    | cons c more =>
        rw [List.takeWhile_cons_of_neg]
        simp [h c more rfl]
  rw [List.takeWhile_append_of_pos fun _ => isDigit_of_mem_renderNat, hrest, List.append_nil]

theorem renderNat_inj
    {m n : Nat}
    (h : renderNat m = renderNat n) :
    m = n := by
  unfold renderNat at h
  rw [← Nat.ofDigitChars_ten_toDigits (n := m), h, Nat.ofDigitChars_ten_toDigits]

theorem renderNat_append_inj
    {m n : Nat}
    {rest more : List Char}
    (hrest : EndsDigits rest)
    (hmore : EndsDigits more)
    (h : renderNat m ++ rest = renderNat n ++ more) :
    m = n ∧ rest = more := by
  have hdigits : renderNat m = renderNat n := by
    rw [← takeWhile_renderNat m hrest, h, takeWhile_renderNat n hmore]
  rw [hdigits] at h
  exact ⟨renderNat_inj hdigits, List.append_cancel_left h⟩

theorem renderNat_eq_cons (n : Nat) :
    ∃ c digits, renderNat n = c :: digits ∧ c.isDigit = true := by
  cases hdigits : renderNat n with
  | nil =>
      exact absurd hdigits Nat.toDigits_ne_nil
  | cons c digits =>
      exact ⟨c, digits, rfl, isDigit_of_mem_renderNat (hdigits ▸ List.mem_cons_self)⟩

/-- Texts that begin with integers begin with the same one. -/
theorem renderInt_append_inj
    {i j : Int}
    {rest more : List Char}
    (hrest : EndsDigits rest)
    (hmore : EndsDigits more)
    (h : renderInt i ++ rest = renderInt j ++ more) :
    i = j ∧ rest = more := by
  have hsign : ∀ (n : Nat) (more : List Char) (later : List Char),
      renderNat n ++ more ≠ '-' :: later := by
    intro n more later heq
    obtain ⟨c, digits, hcons, hdigit⟩ := renderNat_eq_cons n
    rw [hcons] at heq
    obtain ⟨rfl, -⟩ := List.cons.inj heq
    exact absurd hdigit (by decide)
  unfold renderInt at h
  split_ifs at h with hi hj hj
  · obtain ⟨habs, hsame⟩ := renderNat_append_inj hrest hmore (List.cons.inj h).2
    exact ⟨by omega, hsame⟩
  · exact absurd h.symm (hsign _ _ _)
  · exact absurd h (hsign _ _ _)
  · obtain ⟨habs, hsame⟩ := renderNat_append_inj hrest hmore h
    exact ⟨by omega, hsame⟩

end Json
end DocumentStore
