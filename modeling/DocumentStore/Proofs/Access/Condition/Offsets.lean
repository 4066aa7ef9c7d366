import DocumentStore.Proofs.Access.Condition.Lexing
import DocumentStore.Proofs.Access.Condition.Soundness

/-!
# Offsets of faults

The reading functions blame one of the tokens that they were given, or the end of
the text.  A token stands at the offset of its lexeme, and a fault of the lexemes
themselves is at the place that their cut has come to.  So the offset of every fault
is a place between two characters of the text, or one of its ends.
-/

namespace DocumentStore
namespace Condition

namespace Grammar

/-- The offset of one of the tokens that are left, or the end of the text. -/
def IsPlace
    (s : Parser.Source)
    (tokens : List PlacedToken)
    (offset : Nat) :
    Prop :=
  offset = s.length ∨ ∃ t ∈ tokens, t.offset = offset

section Places

variable {s : Parser.Source} {tokens rest : List PlacedToken} {offset : Nat} {fault : Fault}

theorem IsPlace.head (t : PlacedToken) :
    IsPlace s (t :: rest) t.offset :=
  .inr ⟨t, List.mem_cons_self, rfl⟩

theorem IsPlace.cons
    (t : PlacedToken)
    (h : IsPlace s rest offset) :
    IsPlace s (t :: rest) offset :=
  h.imp id fun ⟨u, hu, hoffset⟩ => ⟨u, List.mem_cons_of_mem t hu, hoffset⟩

theorem IsPlace.of_takes
    {α : Type}
    {phrase : List Token → α → Prop}
    {value : α}
    (htakes : Takes phrase tokens value rest)
    (h : IsPlace s rest offset) :
    IsPlace s tokens offset := by
  obtain ⟨taken, rfl, -⟩ := htakes
  exact h.imp id fun ⟨u, hu, hoffset⟩ => ⟨u, List.mem_append_right taken hu, hoffset⟩

theorem isPlace_of_fail
    {α : Type}
    {fault' : Fault}
    (h : (s.fail tokens fault' : Parser.Result α) = .error (.fault offset fault)) :
    IsPlace s tokens offset := by
  cases tokens with
  | nil =>
      cases h
      exact .inl rfl
  | cons t rest =>
      cases h
      exact .head t

end Places

namespace Chain

variable
  {mark : Mark}
  {join : Condition → Condition → Condition}
  {part whole : Nat → List PlacedToken → Parser.Result Condition}
  {tail : Nat → Condition → List PlacedToken → Parser.Result Condition}
  {Part : List Token → Condition → Prop}
  {s : Parser.Source}
  {fuel : Nat}
  {tokens : List PlacedToken}
  {offset : Nat}
  {fault : Fault}

/-- The faults of a chain are at places, if those of its parts and of going on are. -/
theorem isPlace_whole
    (hchain : Chain mark join part whole tail)
    (htakes : ∀ {tokens e rest}, part fuel tokens = .ok (e, rest) → Takes Part tokens e rest)
    (hpart : ∀ {tokens}, part fuel tokens = .error (.fault offset fault) →
      IsPlace s tokens offset)
    (htail : ∀ {left tokens}, tail fuel left tokens = .error (.fault offset fault) →
      IsPlace s tokens offset)
    (h : whole (fuel + 1) tokens = .error (.fault offset fault)) :
    IsPlace s tokens offset := by
  rw [hchain.whole_succ] at h
  split at h
  · next e hleft =>
      cases h
      exact hpart hleft
  · next left rest hleft =>
      exact (htail h).of_takes (htakes hleft)

/-- The faults in going on with a chain are at places. -/
theorem isPlace_tail
    (hchain : Chain mark join part whole tail)
    (htakes : ∀ {tokens e rest}, part fuel tokens = .ok (e, rest) → Takes Part tokens e rest)
    (hpart : ∀ {tokens}, part fuel tokens = .error (.fault offset fault) →
      IsPlace s tokens offset)
    (htail : ∀ {left tokens}, tail fuel left tokens = .error (.fault offset fault) →
      IsPlace s tokens offset)
    {left : Condition}
    (h : tail (fuel + 1) left tokens = .error (.fault offset fault)) :
    IsPlace s tokens offset := by
  by_cases hmark : ∃ offset rest, tokens = ⟨.mark mark, offset⟩ :: rest
  · obtain ⟨offset, rest, rfl⟩ := hmark
    rw [hchain.tail_mark] at h
    split at h
    · next e hright =>
        cases h
        exact (hpart hright).cons _
    · next right last hright =>
        exact ((htail h).of_takes (htakes hright)).cons _
  · rw [hchain.tail_other _ _ _ fun offset rest hcons => hmark ⟨offset, rest, hcons⟩] at h
    cases h

end Chain

variable {s : Parser.Source} {fuel : Nat} {fault : Fault}

/-- The faults that the reading functions tell with some fuel are at places. -/
structure Placed (s : Parser.Source) (fuel : Nat) : Prop where
  disjunction {tokens offset fault}
    (h : Parser.disjunction s fuel tokens = .error (.fault offset fault)) :
    IsPlace s tokens offset
  disjunctionTail {left tokens offset fault}
    (h : Parser.disjunctionTail s fuel left tokens = .error (.fault offset fault)) :
    IsPlace s tokens offset
  conjunction {tokens offset fault}
    (h : Parser.conjunction s fuel tokens = .error (.fault offset fault)) :
    IsPlace s tokens offset
  conjunctionTail {left tokens offset fault}
    (h : Parser.conjunctionTail s fuel left tokens = .error (.fault offset fault)) :
    IsPlace s tokens offset
  negation {tokens offset fault}
    (h : Parser.negation s fuel tokens = .error (.fault offset fault)) :
    IsPlace s tokens offset
  comparison {tokens offset fault}
    (h : Parser.comparison s fuel tokens = .error (.fault offset fault)) :
    IsPlace s tokens offset
  sum {tokens offset fault}
    (h : Parser.sum s fuel tokens = .error (.fault offset fault)) :
    IsPlace s tokens offset
  sumTail {left tokens offset fault}
    (h : Parser.sumTail s fuel left tokens = .error (.fault offset fault)) :
    IsPlace s tokens offset
  primary {tokens offset fault}
    (h : Parser.primary s fuel tokens = .error (.fault offset fault)) :
    IsPlace s tokens offset
  items {close what tokens offset fault}
    (h : Parser.items s close what fuel tokens = .error (.fault offset fault)) :
    IsPlace s tokens offset

theorem Placed.zero : Placed s 0 where
  disjunction h := isPlace_of_fail h
  disjunctionTail h := isPlace_of_fail h
  conjunction h := isPlace_of_fail h
  conjunctionTail h := isPlace_of_fail h
  negation h := isPlace_of_fail h
  comparison h := isPlace_of_fail h
  sum h := isPlace_of_fail h
  sumTail h := isPlace_of_fail h
  primary h := isPlace_of_fail h
  items h := isPlace_of_fail h

section Step

variable {tokens : List PlacedToken} {offset : Nat}

theorem Placed.negation_succ
    (hs : Placed s fuel)
    (h : Parser.negation s (fuel + 1) tokens = .error (.fault offset fault)) :
    IsPlace s tokens offset := by
  rw [Parser.negation.eq_def] at h
  dsimp only at h
  split at h
  · next offset' rest =>
      split at h
      · next e hinner =>
          cases h
          exact (hs.negation hinner).cons _
      · cases h
  · exact hs.comparison h

theorem Placed.comparison_succ
    (hs : Placed s fuel)
    (h : Parser.comparison s (fuel + 1) tokens = .error (.fault offset fault)) :
    IsPlace s tokens offset := by
  have htakes := @(sound s fuel).sum
  rw [Parser.comparison] at h
  split at h
  · next e hleft =>
      cases h
      exact hs.sum hleft
  · cases h
  · next left t rest hleft =>
      have hright : ∀ {e}, Parser.sum s fuel rest = .error e → e = .fault offset fault →
          IsPlace s tokens offset := by
        rintro e he rfl
        exact ((hs.sum he).cons t).of_takes (htakes hleft)
      split at h
      · split at h
        · next e he =>
            exact hright he (Except.error.inj h)
        · cases h
      · split at h
        · cases h
        · split at h
          · next e he =>
              exact hright he (Except.error.inj h)
          · cases h

/-- A field name that is missing is missed at a place. -/
theorem isPlace_fields
    (h : Parser.fields s tokens = .error (.fault offset fault)) :
    IsPlace s tokens offset := by
  fun_induction Parser.fields s tokens with
  | case1 offset' name offset'' rest e hrest ih =>
      cases h
      exact ((ih hrest).cons _).cons _
  | case2 =>
      cases h
  | case3 offset' rest _ =>
      exact (isPlace_of_fail h).cons _
  | case4 =>
      cases h

/-- What is wrong with a variable is at its word or at a place after it. -/
theorem isPlace_variableAfter
    {t : PlacedToken}
    {word : String}
    (h : Parser.variableAfter s t.offset word tokens = .error (.fault offset fault)) :
    IsPlace s (t :: tokens) offset := by
  unfold Parser.variableAfter at h
  split at h
  · split at h
    · next e hfields =>
        cases h
        exact (isPlace_fields hfields).cons t
    · cases h
  · cases h
    exact .head t

theorem callOf_ne_fault
    {word : String}
    {args : List Condition}
    {rest : List PlacedToken} :
    (Parser.callOf word args).map (fun call => (call, rest)) ≠ .error (.fault offset fault) := by
  unfold Parser.callOf
  split
  · nofun
  · split <;> nofun

theorem Placed.primary_succ
    (hs : Placed s fuel)
    (h : Parser.primary s (fuel + 1) tokens = .error (.fault offset fault)) :
    IsPlace s tokens offset := by
  rw [Parser.primary.eq_def] at h
  dsimp only at h
  split at h
  · exact isPlace_of_fail h
  · cases h
  · cases h
  · cases h
  · cases h
    exact .head _
  · next offset' rest =>
      split at h
      · next e hinner =>
          cases h
          exact (hs.disjunction hinner).cons _
      · cases h
      · next inner last _ hinner =>
          exact ((isPlace_of_fail h).of_takes ((sound s fuel).disjunction hinner)).cons _
  · cases h
  · next offset' rest _ =>
      split at h
      · next e hitems =>
          cases h
          exact (hs.items hitems).cons _
      · cases h
  · next word offset' rest =>
      split at h
      · cases h
      · split at h
        · exact absurd h callOf_ne_fault
        · next offset'' last _ =>
            split at h
            · next e hitems =>
                cases h
                exact ((hs.items hitems).cons _).cons _
            · exact absurd h callOf_ne_fault
        · exact isPlace_variableAfter (t := ⟨.word word, offset'⟩) h
  · cases h
    exact .head _

theorem Placed.items_succ
    {close : Mark}
    {what : String}
    (hs : Placed s fuel)
    (h : Parser.items s close what (fuel + 1) tokens = .error (.fault offset fault)) :
    IsPlace s tokens offset := by
  have htakes := @(sound s fuel).disjunction
  rw [Parser.items] at h
  split at h
  · next e hitem =>
      cases h
      exact hs.disjunction hitem
  · next item hitem =>
      exact (isPlace_of_fail h).of_takes (htakes hitem)
  · next item t rest hitem =>
      split at h
      · cases h
      · split at h
        · split at h
          · next e hmore =>
              cases h
              exact ((hs.items hmore).cons t).of_takes (htakes hitem)
          · cases h
        · exact (isPlace_of_fail h).of_takes (htakes hitem)

end Step

/-- With any fuel the faults that the reading functions tell are at places. -/
theorem placed
    (s : Parser.Source)
    (fuel : Nat) :
    Placed s fuel := by
  induction fuel with
  | zero =>
      exact .zero
  | succ fuel ih =>
      have hsound := sound s fuel
      exact
        { disjunction :=
            (chain_disjunction s).isPlace_whole hsound.conjunction ih.conjunction
              ih.disjunctionTail
          disjunctionTail :=
            (chain_disjunction s).isPlace_tail hsound.conjunction ih.conjunction
              ih.disjunctionTail
          conjunction :=
            (chain_conjunction s).isPlace_whole hsound.negation ih.negation ih.conjunctionTail
          conjunctionTail :=
            (chain_conjunction s).isPlace_tail hsound.negation ih.negation ih.conjunctionTail
          negation := ih.negation_succ
          comparison := ih.comparison_succ
          sum := (chain_sum s).isPlace_whole hsound.primary ih.primary ih.sumTail
          sumTail := (chain_sum s).isPlace_tail hsound.primary ih.primary ih.sumTail
          primary := ih.primary_succ
          items := ih.items_succ }

end Grammar

/-- A beginning of a text ends at a place between two of its characters, or at its end. -/
theorem isValid_of_toList_eq_append
    {source : String}
    {before after : List Char}
    (h : source.toList = before ++ after) :
    (String.ofList before).utf8ByteSize ≤ source.utf8ByteSize ∧
      (⟨(String.ofList before).utf8ByteSize⟩ : String.Pos.Raw).IsValid source := by
  have hsource : source = String.ofList before ++ String.ofList after := by
    rw [← String.ofList_append, ← h, String.ofList_toList]
  refine ⟨?_, String.Pos.Raw.isValid_iff_exists_append.2 ⟨_, _, hsource, rfl⟩⟩
  rw [hsource, String.utf8ByteSize_append]
  exact Nat.le_add_right _ _

/-- A fault stands behind some beginning of the text. -/
theorem exists_before_of_parse
    {source : String}
    {bound : List String}
    {offset : Nat}
    {fault : Fault}
    (h : parse source bound = .error (.fault offset fault)) :
    ∃ before after, source.toList = before ++ after ∧
      offset = (String.ofList before).utf8ByteSize := by
  unfold parse at h
  split at h
  · next offset' fault' htokens =>
      cases h
      obtain ⟨before, after, -, htext, hoffset, -⟩ := tokenize_eq_error_iff.1 htokens
      exact ⟨before, after, htext, hoffset⟩
  · next tokens htokens =>
      have hcut := tokenize_eq_ok_iff.1 htokens
      have hplace : Grammar.IsPlace ⟨bound, source.utf8ByteSize⟩ tokens offset := by
        dsimp only at h
        split at h
        · next e hread =>
            cases h
            exact (Grammar.placed _ _).disjunction hread
        · cases h
        · next condition t rest hread =>
            cases h
            exact (Grammar.IsPlace.head t).of_takes ((Grammar.sound _ _).disjunction hread)
      rcases hplace with rfl | ⟨t, ht, rfl⟩
      · exact ⟨source.toList, [], (List.append_nil _).symm, by rw [String.ofList_toList]⟩
      · obtain ⟨front, cs, back, htext, hoffset, -⟩ := hcut.exists_lexeme ht
        rw [List.append_nil] at htext
        exact ⟨front, cs ++ back, htext, hoffset⟩

/--
The tokens of a text are those of the one cut of it into blanks and longest
lexemes, each at the number of bytes before its lexeme.  When there are no tokens,
the cut comes to a place where nothing can be read; the offset of the fault is the
number of bytes before it, and what is before it has the tokens that were found
there.  The offsets of tokens strictly increase.  Every fault of a condition is at
an offset within the text, at which a character begins or the text ends.
-/
theorem tokens_are_the_longest_lexemes :
    (∀ source tokens, tokenize source = .ok tokens ↔ Cut source.toList [] tokens) ∧
    (∀ source offset fault, tokenize source = .error (offset, fault) ↔
      ∃ before after tokens, source.toList = before ++ after ∧
        offset = (String.ofList before).utf8ByteSize ∧
        Cut before after tokens ∧ Stuck after fault) ∧
    (∀ before after tokens, Cut before after tokens →
      tokenize (String.ofList before) = .ok tokens ∧
      (tokens.Pairwise fun t u => t.offset < u.offset) ∧
      ∀ t ∈ tokens, ∃ front cs back, before ++ after = front ++ (cs ++ back) ∧
        t.offset = (String.ofList front).utf8ByteSize ∧
        Longest cs (cs ++ back) ∧ Lexeme cs (some t.token)) ∧
    (∀ source bound offset fault, parse source bound = .error (.fault offset fault) →
      offset ≤ source.utf8ByteSize ∧ (⟨offset⟩ : String.Pos.Raw).IsValid source) := by
  refine ⟨fun _ _ => tokenize_eq_ok_iff, fun _ _ _ => tokenize_eq_error_iff, ?_, ?_⟩
  · exact fun _ _ _ h => ⟨h.tokenize_before, h.ascending.2, fun _ => h.exists_lexeme⟩
  · intro source bound offset fault h
    obtain ⟨before, after, htext, rfl⟩ := exists_before_of_parse h
    exact isValid_of_toList_eq_append htext

/-- One half. -/
def half : Binary64 := ⟨false, 0x3FE0000000000000, by decide⟩

/--
The malformed number after a character of two bytes is blamed at its ninth byte.  A
string with escapes, an integer and a decimal are cut off at their bytes, and mean
what they spell.
-/
theorem malformed_number_is_placed :
    parse "\"é\" == 1.2.3" [] = .error (.fault 8 (.invalidNumber "1.2.3")) ∧
    (⟨8⟩ : String.Pos.Raw).IsValid "\"é\" == 1.2.3" ∧
    Cut "'é\\n\\'' < 12+0.5".toList []
      [⟨.text "é\n'", 0⟩, ⟨.mark .lt, 9⟩, ⟨.number (.integer 12), 11⟩, ⟨.mark .plus, 13⟩,
        ⟨.number (.float half), 14⟩] := by
  have hfault : tokenize "\"é\" == 1.2.3" = .error (8, .invalidNumber "1.2.3") := by
    decide +kernel
  have hparse : parse "\"é\" == 1.2.3" [] = .error (.fault 8 (.invalidNumber "1.2.3")) := by
    rw [parse, hfault]
  have htokens : tokenize "'é\\n\\'' < 12+0.5" = .ok
      [⟨.text "é\n'", 0⟩, ⟨.mark .lt, 9⟩, ⟨.number (.integer 12), 11⟩, ⟨.mark .plus, 13⟩,
        ⟨.number (.float half), 14⟩] := by
    decide +kernel
  exact ⟨hparse, (tokens_are_the_longest_lexemes.2.2.2 _ _ _ _ hparse).2,
    (tokens_are_the_longest_lexemes.1 _ _).1 htokens⟩

end Condition
end DocumentStore
