import DocumentStore.Proofs.Access.Condition.Numerals

/-!
# Lexemes of conditions

A lexeme is a stretch of text that spells a token: a mark, a word, a number or a
string in quotes.  A run of digits and points is a lexeme even when it is no
number, as `1.2.3` is; it spells nothing.  The first character of a lexeme tells
of which sort it is.  What is read at a place of the text is the longest lexeme that
begins there, and when nothing can be read, no lexeme begins there or the longest one
spells nothing.  What lexemes spell is said without the functions that read them.
-/

namespace DocumentStore
namespace Condition

/-! ### Spelling -/

/-- The characters of a mark. -/
def Mark.spelling : Mark → List Char
  | openParen => ['(']
  | closeParen => [')']
  | openBracket => ['[']
  | closeBracket => [']']
  | comma => [',']
  | dot => ['.']
  | andAnd => ['&', '&']
  | orOr => ['|', '|']
  | bang => ['!']
  | eqEq => ['=', '=']
  | notEq => ['!', '=']
  | lt => ['<']
  | le => ['<', '=']
  | gt => ['>']
  | ge => ['>', '=']
  | plus => ['+']
  | minus => ['-']

/-- Characters that enclose a string. -/
def IsQuote (c : Char) : Prop :=
  c = '"' ∨ c = '\''

/-- A character that stands after a backslash, and what it means there. -/
inductive Escape : Char → Char → Prop
  | newline :
      Escape 'n' '\n'
  | tab :
      Escape 't' '\t'
  | itself {c : Char}
      (hnewline : c ≠ 'n')
      (htab : c ≠ 't') :
      Escape c c

/--
What may stand between two quotes, and the string that it means.  After a backslash
any character may stand, the quote and the backslash too.
-/
inductive Quoted (quote : Char) : List Char → List Char → Prop
  | nil :
      Quoted quote [] []
  | escaped {c d : Char} {body value : List Char}
      (hescape : Escape c d)
      (h : Quoted quote body value) :
      Quoted quote ('\\' :: c :: body) (d :: value)
  | plain {c : Char} {body value : List Char}
      (hquote : c ≠ quote)
      (hbackslash : c ≠ '\\')
      (h : Quoted quote body value) :
      Quoted quote (c :: body) (c :: value)

/-- A lexeme, and the token that it spells; a run of digits and points may spell none. -/
inductive Lexeme : List Char → Option Token → Prop
  | mark {cs : List Char} {m : Mark}
      (h : cs = m.spelling) :
      Lexeme cs (some (.mark m))
  | word {c : Char} {cs : List Char}
      (hstart : c.isAlpha = true ∨ c = '_')
      (h : ∀ d ∈ cs, d.isAlphanum = true ∨ d = '_') :
      Lexeme (c :: cs) (some (.word (String.ofList (c :: cs))))
  | number {c : Char} {cs : List Char} {n : Option Json.Number}
      (hstart : c.isDigit = true)
      (h : ∀ d ∈ cs, d.isDigit = true ∨ d = '.')
      (hspells : Spells (c :: cs) n) :
      Lexeme (c :: cs) (n.map .number)
  | text {quote : Char} {body value : List Char}
      (hquote : IsQuote quote)
      (h : Quoted quote body value) :
      Lexeme (quote :: (body ++ [quote])) (some (.text (String.ofList value)))

/-- No lexeme that begins a text is longer than the given beginning of it. -/
def Longest (cs text : List Char) : Prop :=
  cs <+: text ∧ ∀ other t, other <+: text → Lexeme other t → other.length ≤ cs.length

/-- Why no token can be read at the start of a text. -/
inductive Stuck : List Char → Fault → Prop
  | character {c : Char} {rest : List Char}
      (hblank : Text.isBlank c = false)
      (hquote : ¬ IsQuote c)
      (h : ∀ cs t, cs <+: c :: rest → ¬ Lexeme cs t) :
      Stuck (c :: rest) (.unexpectedCharacter c)
  | string {c : Char} {rest : List Char}
      (hquote : IsQuote c)
      (h : ∀ cs t, cs <+: c :: rest → ¬ Lexeme cs t) :
      Stuck (c :: rest) .unterminatedString
  | number {cs text : List Char}
      (hlongest : Longest cs text)
      (h : Lexeme cs none) :
      Stuck text (.invalidNumber (String.ofList cs))

/-! ### The sorts of lexemes -/

theorem Mark.lead_of_spelling
    {m : Mark}
    {c : Char}
    {cs : List Char}
    (h : c :: cs = m.spelling) :
    isWordStart c = false ∧ c.isDigit = false ∧ ¬ IsQuote c ∧ cs.length ≤ 1 := by
  unfold IsQuote
  cases m <;> cases h <;> decide

theorem isWordStart_iff
    {c : Char} :
    isWordStart c = true ↔ c.isAlpha = true ∨ c = '_' := by
  rw [isWordStart, Bool.or_eq_true, decide_eq_true_eq]

theorem isWordChar_iff
    {c : Char} :
    isWordChar c = true ↔ c.isAlphanum = true ∨ c = '_' := by
  rw [isWordChar, Bool.or_eq_true, decide_eq_true_eq]

theorem isNumberChar_iff
    {c : Char} :
    isNumberChar c = true ↔ c.isDigit = true ∨ c = '.' := by
  rw [isNumberChar, Bool.or_eq_true, decide_eq_true_eq]

/-- Letters and the underscore are characters of ASCII behind the digits. -/
theorem toNat_of_isWordStart
    {c : Char}
    (h : isWordStart c = true) :
    0x41 ≤ c.toNat ∧ c.toNat ≤ 0x7A := by
  rcases isWordStart_iff.1 h with h | rfl
  · have hletter : (decide ('A'.val ≤ c.val ∧ c.val ≤ 'Z'.val) ||
        (decide ('a'.val ≤ c.val) && decide (c.val ≤ 'z'.val))) = true := h
    rw [Bool.or_eq_true, Bool.and_eq_true, decide_eq_true_eq, decide_eq_true_eq,
      decide_eq_true_eq] at hletter
    rcases hletter with ⟨hlow, hhigh⟩ | ⟨hlow, hhigh⟩
    · exact ⟨UInt32.le_iff_toNat_le.1 hlow,
        Nat.le_trans (UInt32.le_iff_toNat_le.1 hhigh) (by decide)⟩
    · exact ⟨Nat.le_trans (by decide) (UInt32.le_iff_toNat_le.1 hlow),
        UInt32.le_iff_toNat_le.1 hhigh⟩
  · decide

theorem isWordStart_of_isDigit
    {c : Char}
    (h : c.isDigit = true) :
    isWordStart c = false := by
  cases hword : isWordStart c with
  | false =>
      rfl
  | true =>
      have hdigit := toNat_of_isDigit h
      have hstart := toNat_of_isWordStart hword
      omega

theorem IsQuote.lead
    {c : Char}
    (h : IsQuote c) :
    isWordStart c = false ∧ c.isDigit = false ∧ Text.isBlank c = false ∧ c ≠ '\\' := by
  rcases h with rfl | rfl <;> decide

namespace Lexeme

variable {c : Char} {cs : List Char} {t : Option Token}

theorem ne_nil
    (h : Lexeme cs t) :
    cs ≠ [] := by
  cases h with
  | mark h =>
      rintro rfl
      rename_i m
      cases m <;> cases h
  | word => nofun
  | number => nofun
  | text => nofun

/-- What begins like a word is one. -/
theorem of_isWordStart
    (h : Lexeme (c :: cs) t)
    (hc : isWordStart c = true) :
    (∀ d ∈ cs, isWordChar d = true) ∧ t = some (.word (String.ofList (c :: cs))) := by
  cases h with
  | mark h =>
      rw [(Mark.lead_of_spelling h).1] at hc
      cases hc
  | word _ h =>
      exact ⟨fun d hd => isWordChar_iff.2 (h d hd), rfl⟩
  | number hstart _ _ =>
      rw [isWordStart_of_isDigit hstart] at hc
      cases hc
  | text hquote h =>
      rw [hquote.lead.1] at hc
      cases hc

/-- What begins with a digit is a run of digits and points. -/
theorem of_isDigit
    (h : Lexeme (c :: cs) t)
    (hc : c.isDigit = true) :
    (∀ d ∈ cs, isNumberChar d = true) ∧ t = (numberOf? (c :: cs)).map .number := by
  cases h with
  | mark h =>
      rw [(Mark.lead_of_spelling h).2.1] at hc
      cases hc
  | word hstart h =>
      have hword := isWordStart_iff.2 hstart
      rw [isWordStart_of_isDigit hc] at hword
      cases hword
  | number _ h hspells =>
      exact ⟨fun d hd => isNumberChar_iff.2 (h d hd), by rw [hspells.numberOf?_eq]⟩
  | text hquote h =>
      rw [hquote.lead.2.1] at hc
      cases hc

/-- What begins with a quote is a string. -/
theorem of_isQuote
    (h : Lexeme (c :: cs) t)
    (hc : IsQuote c) :
    ∃ body value, cs = body ++ [c] ∧ Quoted c body value ∧
      t = some (.text (String.ofList value)) := by
  cases h with
  | mark h =>
      exact absurd hc (Mark.lead_of_spelling h).2.2.1
  | word hstart h =>
      have hword := isWordStart_iff.2 hstart
      rw [hc.lead.1] at hword
      cases hword
  | number hstart _ _ =>
      rw [hc.lead.2.1] at hstart
      cases hstart
  | text _ h =>
      exact ⟨_, _, rfl, h, rfl⟩

/-- Everything else is a mark. -/
theorem of_other
    (h : Lexeme (c :: cs) t)
    (hword : isWordStart c = false)
    (hdigit : c.isDigit = false)
    (hquote : ¬ IsQuote c) :
    ∃ m : Mark, c :: cs = m.spelling ∧ t = some (.mark m) := by
  cases h with
  | mark h =>
      exact ⟨_, h, rfl⟩
  | word hstart h =>
      rw [isWordStart_iff.2 hstart] at hword
      cases hword
  | number hstart _ _ =>
      rw [hdigit] at hstart
      cases hstart
  | text hquote' h =>
      exact absurd hquote' hquote

end Lexeme

/-! ### Marks -/

theorem spelling_of_doubleMark?
    {c d : Char}
    {m : Mark}
    (h : doubleMark? c d = some m) :
    m.spelling = [c, d] := by
  unfold doubleMark? at h
  split at h <;> cases h <;> rfl

theorem spelling_of_singleMark?
    {c : Char}
    {m : Mark}
    (h : singleMark? c = some m) :
    m.spelling = [c] := by
  unfold singleMark? at h
  split at h <;> cases h <;> rfl

theorem spelling_of_mark?
    {c : Char}
    {rest : List Char}
    {m : Mark}
    {more : Nat}
    (h : mark? c rest = some (m, more)) :
    m.spelling = c :: rest.take more ∧ (rest.take more).length = more := by
  unfold mark? at h
  split at h
  · next m' hdouble =>
      cases h
      cases rest with
      | nil => cases hdouble
      | cons d rest =>
          rw [List.head?_cons, Option.bind_some] at hdouble
          exact ⟨spelling_of_doubleMark? hdouble, rfl⟩
  · obtain ⟨m', hsingle, hm⟩ := Option.map_eq_some_iff.1 h
    cases hm
    exact ⟨spelling_of_singleMark? hsingle, rfl⟩

/-- Where the characters of a mark stand, at least as many are read as a mark. -/
theorem mark?_of_spelling
    {c : Char}
    {cs rest : List Char}
    {m : Mark}
    (h : c :: cs = m.spelling)
    (hrest : cs <+: rest) :
    ∃ m' more, mark? c rest = some (m', more) ∧ cs.length ≤ more := by
  obtain ⟨after, rfl⟩ := hrest
  have hsingle : ∀ m' : Mark, singleMark? c = some m' →
      ∃ m'' more, mark? c after = some (m'', more) ∧ 0 ≤ more := by
    intro m' hm'
    unfold mark?
    rw [hm']
    split
    · exact ⟨_, _, rfl, Nat.zero_le _⟩
    · exact ⟨_, _, rfl, Nat.zero_le _⟩
  cases m <;> cases h <;>
    first
    | exact ⟨_, _, rfl, Nat.le_refl _⟩
    | exact hsingle _ rfl

/-! ### Strings -/

theorem Escape.unescape_eq
    {c d : Char}
    (h : Escape c d) :
    unescape c = d := by
  cases h with
  | newline => rfl
  | tab => rfl
  | itself hnewline htab => rw [unescape, if_neg hnewline, if_neg htab]

theorem escape_unescape (c : Char) :
    Escape c (unescape c) := by
  unfold unescape
  split_ifs with hnewline htab
  · rw [hnewline]
    exact .newline
  · rw [htab]
    exact .tab
  · exact .itself hnewline htab

section Strings

variable {quote c : Char} {cs value : List Char}

theorem stringBody?_quote (rest : List Char) :
    stringBody? quote (quote :: rest) = some ([], 1) := by
  rw [stringBody?.eq_def]
  exact if_pos rfl

/-- After a backslash one character is taken, whatever it is. -/
theorem stringBody?_escaped
    (h : '\\' ≠ quote)
    (e : Char)
    (rest : List Char) :
    stringBody? quote ('\\' :: e :: rest) =
      (stringBody? quote rest).map fun r => (unescape e :: r.1, r.2 + 2) := by
  rw [stringBody?.eq_def]
  dsimp only
  rw [if_neg h, if_pos rfl]

/-- Every other character stands for itself. -/
theorem stringBody?_plain
    (hquote : c ≠ quote)
    (hbackslash : c ≠ '\\')
    (rest : List Char) :
    stringBody? quote (c :: rest) =
      (stringBody? quote rest).map fun r => (c :: r.1, r.2 + 1) := by
  rw [stringBody?.eq_def]
  dsimp only
  rw [if_neg hquote, if_neg hbackslash]

/-- What is read as a string stands in front of the closing quote. -/
theorem quoted_of_stringBody?
    {more : Nat}
    (h : stringBody? quote cs = some (value, more)) :
    ∃ body, cs.take more = body ++ [quote] ∧ (cs.take more).length = more ∧
      Quoted quote body value := by
  induction cs using stringBody?.induct quote generalizing value more with
  | case1 =>
      cases h
  | case2 rest =>
      rw [stringBody?_quote] at h
      cases h
      exact ⟨[], rfl, rfl, .nil⟩
  | case3 hquote =>
      rw [stringBody?.eq_def] at h
      dsimp only at h
      rw [if_neg hquote, if_pos rfl] at h
      cases h
  | case4 e rest hquote ih =>
      rw [stringBody?_escaped hquote] at h
      obtain ⟨⟨value', more'⟩, hread, hr⟩ := Option.map_eq_some_iff.1 h
      cases hr
      obtain ⟨body, htake, hlength, hbody⟩ := ih hread
      refine ⟨'\\' :: e :: body, ?_, ?_, .escaped (escape_unescape e) hbody⟩
      · rw [List.take_succ_cons, List.take_succ_cons, htake]
        rfl
      · rw [List.take_succ_cons, List.take_succ_cons, List.length_cons, List.length_cons, hlength]
  | case5 c rest hquote hbackslash ih =>
      rw [stringBody?_plain hquote hbackslash] at h
      obtain ⟨⟨value', more'⟩, hread, hr⟩ := Option.map_eq_some_iff.1 h
      cases hr
      obtain ⟨body, htake, hlength, hbody⟩ := ih hread
      refine ⟨c :: body, ?_, ?_, .plain hquote hbackslash hbody⟩
      · rw [List.take_succ_cons, htake]
        rfl
      · rw [List.take_succ_cons, List.length_cons, hlength]

/-- What stands in front of a closing quote is read as the string that it means. -/
theorem stringBody?_of_quoted
    {body : List Char}
    (hquote : '\\' ≠ quote)
    (h : Quoted quote body value)
    (after : List Char) :
    stringBody? quote (body ++ quote :: after) = some (value, body.length + 1) := by
  induction h with
  | nil =>
      exact stringBody?_quote after
  | escaped hescape h ih =>
      rw [List.cons_append, List.cons_append, stringBody?_escaped hquote, ih,
        hescape.unescape_eq]
      rfl
  | plain hc hbackslash h ih =>
      rw [List.cons_append, stringBody?_plain hc hbackslash, ih]
      rfl

end Strings

/-! ### Reading a lexeme -/

/-- Of a class of characters no longer beginning has only such than the run of them. -/
theorem length_le_of_forall
    {p : Char → Bool}
    {cs rest : List Char}
    (hrest : cs <+: rest)
    (h : ∀ c ∈ cs, p c = true) :
    cs.length ≤ (rest.takeWhile p).length := by
  obtain ⟨after, rfl⟩ := hrest
  rw [List.takeWhile_append_of_pos h, List.length_append]
  exact Nat.le_add_right _ _

/-- A lexeme at the start of a text begins with the first character. -/
theorem exists_cons_of_prefix
    {c : Char}
    {cs rest : List Char}
    {t : Option Token}
    (hcs : cs <+: c :: rest)
    (h : Lexeme cs t) :
    ∃ ds, cs = c :: ds ∧ ds <+: rest := by
  cases cs with
  | nil =>
      exact absurd rfl h.ne_nil
  | cons d ds =>
      obtain ⟨rfl, hds⟩ := List.cons_prefix_cons.1 hcs
      exact ⟨ds, rfl, hds⟩

/-- What has been read at the start of a text. -/
def ReadAs
    (c : Char)
    (rest : List Char) :
    Except Fault (Token × Nat) → Prop
  | .ok (t, more) =>
      (rest.take more).length = more ∧ Lexeme (c :: rest.take more) (some t) ∧
        Longest (c :: rest.take more) (c :: rest)
  | .error fault => Stuck (c :: rest) fault

/-- To be longest, the beginning of a text has to be compared with lexemes of its lead only. -/
theorem longest_cons
    {c : Char}
    {cs rest : List Char}
    (hcs : cs <+: rest)
    (h : ∀ ds t, ds <+: rest → Lexeme (c :: ds) t → ds.length ≤ cs.length) :
    Longest (c :: cs) (c :: rest) := by
  refine ⟨List.cons_prefix_cons.2 ⟨rfl, hcs⟩, fun other t hother ht => ?_⟩
  obtain ⟨ds, rfl, hds⟩ := exists_cons_of_prefix hother ht
  exact Nat.succ_le_succ (h ds t hds ht)

section Reading

variable {c : Char} {rest : List Char}

/-- A mark that is read is the longest one. -/
theorem readAs_mark
    {m : Mark}
    {more : Nat}
    (h : mark? c rest = some (m, more)) :
    ReadAs c rest (.ok (.mark m, more)) := by
  obtain ⟨hspelling, hlength⟩ := spelling_of_mark? h
  obtain ⟨hword, hdigit, hquote, -⟩ := Mark.lead_of_spelling hspelling.symm
  refine ⟨hlength, .mark hspelling.symm, longest_cons (List.take_prefix _ _) ?_⟩
  intro ds t hds ht
  obtain ⟨m', hm', -⟩ := ht.of_other hword hdigit hquote
  obtain ⟨m'', more', hread, hle⟩ := mark?_of_spelling hm' hds
  rw [h] at hread
  cases hread
  rwa [hlength]

/-- A string that is read ends with the first quote that is not escaped. -/
theorem readAs_string
    {value : List Char}
    {more : Nat}
    (hquote : IsQuote c)
    (h : stringBody? c rest = some (value, more)) :
    ReadAs c rest (.ok (.text (String.ofList value), more)) := by
  obtain ⟨body, htake, hlength, hbody⟩ := quoted_of_stringBody? h
  refine ⟨hlength, htake ▸ .text hquote hbody, longest_cons (List.take_prefix _ _) ?_⟩
  rintro ds t ⟨after, rfl⟩ ht
  obtain ⟨body', value', rfl, hbody', -⟩ := ht.of_isQuote hquote
  have hread := stringBody?_of_quoted hquote.lead.2.2.2.symm hbody' after
  rw [List.append_assoc, List.singleton_append] at h
  rw [h] at hread
  cases hread
  rw [hlength, List.length_append, List.length_singleton]

theorem stuck_string
    (hquote : IsQuote c)
    (h : stringBody? c rest = none) :
    Stuck (c :: rest) .unterminatedString := by
  refine .string hquote fun cs t hcs ht => ?_
  obtain ⟨ds, rfl, after, rfl⟩ := exists_cons_of_prefix hcs ht
  obtain ⟨body, value, rfl, hbody, -⟩ := ht.of_isQuote hquote
  have hread := stringBody?_of_quoted hquote.lead.2.2.2.symm hbody after
  rw [List.append_assoc, List.singleton_append, hread] at h
  cases h

theorem longest_number (hdigit : c.isDigit = true) :
    Longest (c :: rest.takeWhile isNumberChar) (c :: rest) :=
  longest_cons (List.takeWhile_prefix _) fun _ _ hds ht =>
    length_le_of_forall hds (ht.of_isDigit hdigit).1

/-- A run of digits and points is a lexeme, whatever it spells. -/
theorem lexeme_run
    (rest : List Char)
    (hdigit : c.isDigit = true) :
    Lexeme (c :: rest.takeWhile isNumberChar)
      ((numberOf? (c :: rest.takeWhile isNumberChar)).map .number) := by
  have hrun : ∀ d ∈ rest.takeWhile isNumberChar, d.isDigit = true ∨ d = '.' := fun d hd =>
    isNumberChar_iff.1 (List.mem_takeWhile_imp hd)
  exact .number hdigit hrun (spells_numberOf? (List.forall_mem_cons.2 ⟨.inl hdigit, hrun⟩))

theorem longest_word (hword : isWordStart c = true) :
    Longest (c :: rest.takeWhile isWordChar) (c :: rest) :=
  longest_cons (List.takeWhile_prefix _) fun _ _ hds ht =>
    length_le_of_forall hds (ht.of_isWordStart hword).1

theorem take_length_takeWhile (p : Char → Bool) :
    rest.take (rest.takeWhile p).length = rest.takeWhile p :=
  (List.prefix_iff_eq_take.1 (List.takeWhile_prefix p)).symm

theorem stuck_character
    (hblank : Text.isBlank c = false)
    (hquote : ¬ IsQuote c)
    (hdigit : c.isDigit = false)
    (hword : isWordStart c = false)
    (h : mark? c rest = none) :
    Stuck (c :: rest) (.unexpectedCharacter c) := by
  refine .character hblank hquote fun cs t hcs ht => ?_
  obtain ⟨ds, rfl, hds⟩ := exists_cons_of_prefix hcs ht
  obtain ⟨m, hm, -⟩ := ht.of_other hword hdigit hquote
  obtain ⟨m', more, hread, -⟩ := mark?_of_spelling hm hds
  rw [h] at hread
  cases hread

/-- The longest lexeme is read; and if none is read, none begins the text, or no number is meant. -/
theorem readAs_lexeme
    (rest : List Char)
    (hblank : Text.isBlank c = false) :
    ReadAs c rest (lexeme c rest) := by
  unfold lexeme
  split
  · next m more hmark =>
      exact readAs_mark hmark
  · next hmark =>
      split
      · next hquote =>
          split
          · next value more hbody =>
              exact readAs_string hquote hbody
          · next hbody =>
              exact stuck_string hquote hbody
      · next hquote =>
          split
          · next hdigit =>
              have hrun := lexeme_run rest hdigit
              dsimp only
              split
              · next n hnumber =>
                  rw [hnumber] at hrun
                  rw [List.length_cons, Nat.add_sub_cancel, ReadAs, take_length_takeWhile]
                  exact ⟨rfl, hrun, longest_number hdigit⟩
              · next hnumber =>
                  rw [hnumber] at hrun
                  exact .number (longest_number hdigit) hrun
          · next hdigit =>
              split
              · next hword =>
                  rw [ReadAs, take_length_takeWhile]
                  exact ⟨rfl, .word (isWordStart_iff.1 hword)
                    fun d hd => isWordChar_iff.1 (List.mem_takeWhile_imp hd), longest_word hword⟩
              · next hword =>
                  exact stuck_character hblank hquote (by simpa using hdigit)
                    (by simpa using hword) hmark

end Reading

/-! ### One reading only -/

/-- Marks are known by their characters. -/
theorem Mark.spelling_inj
    {m n : Mark}
    (h : m.spelling = n.spelling) :
    m = n := by
  have hread : ∀ m : Mark, ∃ c cs, m.spelling = c :: cs ∧ mark? c cs = some (m, cs.length) := by
    intro m
    cases m <;> exact ⟨_, _, rfl, rfl⟩
  obtain ⟨c, cs, hm, hreadm⟩ := hread m
  obtain ⟨d, ds, hn, hreadn⟩ := hread n
  rw [hm, hn] at h
  cases h
  rw [hreadm] at hreadn
  cases hreadn
  rfl

theorem Quoted.value_eq
    {quote : Char}
    {body value value' : List Char}
    (hquote : IsQuote quote)
    (h : Quoted quote body value)
    (h' : Quoted quote body value') :
    value = value' := by
  have hread := stringBody?_of_quoted hquote.lead.2.2.2.symm h []
  rw [stringBody?_of_quoted hquote.lead.2.2.2.symm h' []] at hread
  cases hread
  rfl

/-- A lexeme spells one token, or none. -/
theorem Lexeme.token_eq
    {cs : List Char}
    {t t' : Option Token}
    (h : Lexeme cs t)
    (h' : Lexeme cs t') :
    t = t' := by
  obtain ⟨c, ds, rfl⟩ := List.exists_cons_of_ne_nil h.ne_nil
  by_cases hword : isWordStart c = true
  · rw [(h.of_isWordStart hword).2, (h'.of_isWordStart hword).2]
  · by_cases hdigit : c.isDigit = true
    · rw [(h.of_isDigit hdigit).2, (h'.of_isDigit hdigit).2]
    · by_cases hquote : IsQuote c
      · obtain ⟨body, value, rfl, hbody, rfl⟩ := h.of_isQuote hquote
        obtain ⟨body', value', hsame, hbody', rfl⟩ := h'.of_isQuote hquote
        cases List.append_cancel_right hsame
        rw [hbody.value_eq hquote hbody']
      · obtain ⟨m, hm, rfl⟩ := h.of_other (by simpa using hword) (by simpa using hdigit) hquote
        obtain ⟨m', hm', rfl⟩ := h'.of_other (by simpa using hword) (by simpa using hdigit) hquote
        rw [Mark.spelling_inj (hm.symm.trans hm')]

theorem Longest.eq
    {cs ds text : List Char}
    {t t' : Option Token}
    (hcs : Longest cs text)
    (hds : Longest ds text)
    (h : Lexeme cs t)
    (h' : Lexeme ds t') :
    cs = ds := by
  have hle := hcs.2 ds t' hds.1 h'
  exact (List.prefix_of_prefix_length_le hcs.1 hds.1 (hds.2 cs t hcs.1 h)).eq_of_length
    (Nat.le_antisymm (hds.2 cs t hcs.1 h) hle)

theorem isBlank_of_visible
    {c : Char}
    (h : 0x20 < c.toNat ∧ c.toNat < 0x7F) :
    Text.isBlank c = false := by
  have hnot : c.toNat ∉ Text.blankCodes := by
    intro hmem
    simp only [Text.blankCodes, List.mem_cons, List.not_mem_nil, or_false] at hmem
    omega
  simpa [Text.isBlank] using hnot

/-- Lexemes do not begin with blanks. -/
theorem Lexeme.isBlank_lead
    {c : Char}
    {cs : List Char}
    {t : Option Token}
    (h : Lexeme (c :: cs) t) :
    Text.isBlank c = false := by
  by_cases hword : isWordStart c = true
  · have hbounds := toNat_of_isWordStart hword
    exact isBlank_of_visible ⟨by omega, by omega⟩
  · by_cases hdigit : c.isDigit = true
    · have hbounds := toNat_of_isDigit hdigit
      exact isBlank_of_visible ⟨by omega, by omega⟩
    · by_cases hquote : IsQuote c
      · exact hquote.lead.2.2.1
      · obtain ⟨m, hm, -⟩ := h.of_other (by simpa using hword) (by simpa using hdigit) hquote
        cases m <;> cases hm <;> decide

/-- Where the longest lexeme spells a token, something can be read. -/
theorem Stuck.not_lexeme
    {text cs : List Char}
    {fault : Fault}
    {t : Token}
    (h : Stuck text fault)
    (hlongest : Longest cs text) :
    ¬ Lexeme cs (some t) := by
  intro hcs
  rcases h with ⟨-, -, hnone⟩ | ⟨-, hnone⟩ | ⟨hlongest', h'⟩
  · exact hnone _ _ hlongest.1 hcs
  · exact hnone _ _ hlongest.1 hcs
  · rw [hlongest.eq hlongest' hcs h'] at hcs
    cases hcs.token_eq h'

/-- There is one reason only why nothing can be read. -/
theorem Stuck.fault_eq
    {text : List Char}
    {fault fault' : Fault}
    (h : Stuck text fault)
    (h' : Stuck text fault') :
    fault = fault' := by
  cases h with
  | character hblank hquote hnone =>
      cases h' with
      | character => rfl
      | string hquote' => exact absurd hquote' hquote
      | number hlongest hcs => exact absurd hcs (hnone _ _ hlongest.1)
  | string hquote hnone =>
      cases h' with
      | character _ hquote' => exact absurd hquote hquote'
      | string => rfl
      | number hlongest hcs => exact absurd hcs (hnone _ _ hlongest.1)
  | number hlongest hcs =>
      cases h' with
      | character _ _ hnone => exact absurd hcs (hnone _ _ hlongest.1)
      | string _ hnone => exact absurd hcs (hnone _ _ hlongest.1)
      | number hlongest' hcs' => rw [hlongest.eq hlongest' hcs hcs']

theorem Stuck.isBlank_lead
    {c : Char}
    {rest : List Char}
    {fault : Fault}
    (h : Stuck (c :: rest) fault) :
    Text.isBlank c = false := by
  cases h with
  | character hblank => exact hblank
  | string hquote => exact hquote.lead.2.2.1
  | number hlongest hcs =>
      obtain ⟨ds, rfl, -⟩ := exists_cons_of_prefix hlongest.1 hcs
      exact hcs.isBlank_lead

theorem lexeme_eq_ok
    {c : Char}
    {cs after : List Char}
    {t : Token}
    (h : Lexeme (c :: cs) (some t))
    (hlongest : Longest (c :: cs) (c :: (cs ++ after))) :
    lexeme c (cs ++ after) = .ok (t, cs.length) := by
  have hread := readAs_lexeme (cs ++ after) h.isBlank_lead
  cases hlexeme : lexeme c (cs ++ after) with
  | error fault =>
      rw [hlexeme] at hread
      exact absurd h (Stuck.not_lexeme hread hlongest)
  | ok r =>
      rw [hlexeme] at hread
      obtain ⟨hlength, h', hlongest'⟩ := hread
      have hsame := hlongest.eq hlongest' h h'
      rw [hsame] at h
      cases h.token_eq h'
      rw [(List.cons.inj hsame).2, hlength]

theorem lexeme_eq_error
    {c : Char}
    {rest : List Char}
    {fault : Fault}
    (h : Stuck (c :: rest) fault) :
    lexeme c rest = .error fault := by
  have hread := readAs_lexeme rest h.isBlank_lead
  cases hlexeme : lexeme c rest with
  | error fault' =>
      rw [hlexeme] at hread
      rw [h.fault_eq hread]
  | ok r =>
      rw [hlexeme] at hread
      exact absurd hread.2.1 (h.not_lexeme hread.2.2)

end Condition
end DocumentStore
