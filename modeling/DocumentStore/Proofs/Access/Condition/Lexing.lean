import DocumentStore.Proofs.Access.Condition.Lexemes

/-!
# Cutting conditions into lexemes

A text is cut from the left: at each place a blank is passed over, or the longest
lexeme that begins there is cut off.  Its token is placed at the number of bytes
that come before it.  The tokens of a text are those of a cut that reaches its end,
and a text without tokens has a cut that reaches a place where nothing can be read.
There is one cut only, so both ways it is the one that the text has.
-/

namespace DocumentStore
namespace Condition

/-! ### Bytes -/

theorem byteLength_eq_utf8ByteSize (cs : List Char) :
    byteLength cs = (String.ofList cs).utf8ByteSize := by
  induction cs with
  | nil =>
      rfl
  | cons c cs ih =>
      rw [byteLength, ih, String.ofList_cons, String.utf8ByteSize_append,
        String.utf8ByteSize_singleton]

theorem byteLength_append (cs ds : List Char) :
    byteLength (cs ++ ds) = byteLength cs + byteLength ds := by
  induction cs with
  | nil =>
      exact (Nat.zero_add _).symm
  | cons c cs ih =>
      rw [List.cons_append, byteLength, byteLength, ih, Nat.add_assoc]

theorem byteLength_singleton (c : Char) :
    byteLength [c] = c.utf8Size :=
  rfl

/-! ### Cuts -/

/--
A cut of a text up to some place of it: what is before the place, what is after
it, and the tokens of the lexemes before it.
-/
inductive Cut : List Char → List Char → List PlacedToken → Prop
  | start (text : List Char) :
      Cut [] text []
  | blank {before after : List Char} {c : Char} {tokens : List PlacedToken}
      (h : Cut before (c :: after) tokens)
      (hblank : Text.isBlank c = true) :
      Cut (before ++ [c]) after tokens
  | lexeme {before cs after : List Char} {t : Token} {tokens : List PlacedToken}
      (h : Cut before (cs ++ after) tokens)
      (hlongest : Longest cs (cs ++ after))
      (hcs : Lexeme cs (some t)) :
      Cut (before ++ cs) after (tokens ++ [⟨t, (String.ofList before).utf8ByteSize⟩])

/-- What tokens, or a fault, say about a cut that has come to some place. -/
def GoesOn
    (before text : List Char)
    (sofar : List PlacedToken) :
    Except (Nat × Fault) (List PlacedToken) → Prop
  | .ok tokens => Cut (before ++ text) [] (sofar ++ tokens)
  | .error (offset, fault) =>
      ∃ middle after tokens, text = middle ++ after ∧
        offset = (String.ofList (before ++ middle)).utf8ByteSize ∧
        Cut (before ++ middle) after (sofar ++ tokens) ∧ Stuck after fault

section GoesOn

variable {before cs text : List Char} {sofar found : List PlacedToken}
  {result : Except (Nat × Fault) (List PlacedToken)}

theorem GoesOn.of_append (h : GoesOn (before ++ cs) text sofar result) :
    GoesOn before (cs ++ text) sofar result := by
  cases result with
  | ok tokens =>
      rw [GoesOn, List.append_assoc] at h
      exact h
  | error e =>
      obtain ⟨middle, after, tokens, rfl, hoffset, hcut, hstuck⟩ := h
      rw [List.append_assoc] at hoffset hcut
      exact ⟨cs ++ middle, after, tokens, (List.append_assoc ..).symm, hoffset, hcut, hstuck⟩

theorem GoesOn.map_append (h : GoesOn before text (sofar ++ found) result) :
    GoesOn before text sofar (result.map (found ++ ·)) := by
  cases result with
  | ok tokens =>
      rw [GoesOn, List.append_assoc] at h
      exact h
  | error e =>
      obtain ⟨middle, after, tokens, rfl, hoffset, hcut, hstuck⟩ := h
      rw [List.append_assoc] at hcut
      exact ⟨middle, after, found ++ tokens, rfl, hoffset, hcut, hstuck⟩

end GoesOn

/-! ### Steps of the reading -/

section Steps

variable {offset : Nat} {c : Char} {rest : List Char}

theorem tokensFrom_blank (h : Text.isBlank c = true) :
    tokensFrom offset (c :: rest) = tokensFrom (offset + c.utf8Size) rest := by
  rw [tokensFrom, if_pos h]

theorem tokensFrom_error
    {fault : Fault}
    (hblank : Text.isBlank c = false)
    (h : lexeme c rest = .error fault) :
    tokensFrom offset (c :: rest) = .error (offset, fault) := by
  rw [tokensFrom, if_neg (by simp [hblank]), h]

/-- A token is placed where it is met. -/
theorem tokensFrom_ok
    {t : Token}
    {more : Nat}
    (hblank : Text.isBlank c = false)
    (h : lexeme c rest = .ok (t, more)) :
    tokensFrom offset (c :: rest) =
      (tokensFrom (offset + byteLength (c :: rest.take more)) (rest.drop more)).map
        ([⟨t, offset⟩] ++ ·) := by
  rw [tokensFrom, if_neg (by simp [hblank]), h]
  dsimp only
  cases tokensFrom (offset + byteLength (c :: rest.take more)) (rest.drop more) <;> rfl

end Steps

/-- The tokens from a place on, or the fault, are those of the cut that goes on from there. -/
theorem goesOn_tokensFrom
    {before text : List Char}
    {sofar : List PlacedToken}
    (h : Cut before text sofar) :
    GoesOn before text sofar (tokensFrom (byteLength before) text) := by
  -- the induction is on the length of the text, as a lexeme may take several characters
  induction hn : text.length using Nat.strongRecOn generalizing before text sofar with
  | ind n ih =>
      subst hn
      cases text with
      | nil =>
          rw [tokensFrom, GoesOn, List.append_nil, List.append_nil]
          exact h
      | cons c rest =>
          cases hblank : Text.isBlank c with
          | true =>
              have hrest := ih rest.length (Nat.lt_succ_self _) (h.blank hblank) rfl
              rw [tokensFrom_blank hblank, ← byteLength_singleton c, ← byteLength_append]
              exact hrest.of_append
          | false =>
              have hread := readAs_lexeme rest hblank
              cases hlexeme : lexeme c rest with
              | error fault =>
                  rw [hlexeme] at hread
                  rw [tokensFrom_error hblank hlexeme]
                  refine ⟨[], c :: rest, [], rfl, ?_, ?_, hread⟩
                  · rw [List.append_nil, byteLength_eq_utf8ByteSize]
                  · rwa [List.append_nil, List.append_nil]
              | ok r =>
                  obtain ⟨t, more⟩ := r
                  rw [hlexeme] at hread
                  obtain ⟨-, hcs, hlongest⟩ := hread
                  have htext : c :: rest = (c :: rest.take more) ++ rest.drop more := by
                    rw [List.cons_append, List.take_append_drop]
                  rw [htext] at h hlongest
                  have hrest := ih (rest.drop more).length
                    (by rw [List.length_drop, List.length_cons]; omega)
                    (h.lexeme hlongest hcs) rfl
                  rw [tokensFrom_ok hblank hlexeme, ← byteLength_append, htext,
                    byteLength_eq_utf8ByteSize before]
                  exact hrest.of_append.map_append

/-! ### There is one cut only -/

/-- What is read of a text is what a cut has found and what is read behind it. -/
theorem tokensFrom_eq_of_cut
    {before after : List Char}
    {tokens : List PlacedToken}
    (h : Cut before after tokens) :
    tokensFrom 0 (before ++ after) = (tokensFrom (byteLength before) after).map (tokens ++ ·) := by
  have hmap : ∀ (result : Except (Nat × Fault) (List PlacedToken)) (found more : List PlacedToken),
      (result.map (more ++ ·)).map (found ++ ·) = result.map ((found ++ more) ++ ·) := by
    intro result found more
    cases result with
    | ok tokens => exact congrArg Except.ok (List.append_assoc ..).symm
    | error e => rfl
  induction h with
  | start text =>
      change tokensFrom 0 text = (tokensFrom 0 text).map (fun tokens => tokens)
      cases tokensFrom 0 text <;> rfl
  | blank h hblank ih =>
      rw [tokensFrom_blank hblank] at ih
      rw [List.append_assoc, List.singleton_append, ih, byteLength_append, byteLength_singleton]
  | @lexeme before cs after t tokens h hlongest hcs ih =>
      obtain ⟨c, ds, rfl⟩ := List.exists_cons_of_ne_nil hcs.ne_nil
      have hread := lexeme_eq_ok hcs hlongest
      rw [List.cons_append, tokensFrom_ok hcs.isBlank_lead hread, hmap, List.take_left,
        List.drop_left, ← byteLength_append, byteLength_eq_utf8ByteSize before] at ih
      rw [List.append_assoc, List.cons_append]
      exact ih

theorem Stuck.exists_cons
    {text : List Char}
    {fault : Fault}
    (h : Stuck text fault) :
    ∃ c rest, text = c :: rest := by
  cases h with
  | character => exact ⟨_, _, rfl⟩
  | string => exact ⟨_, _, rfl⟩
  | number hlongest hcs =>
      obtain ⟨c, ds, rfl⟩ := List.exists_cons_of_ne_nil hcs.ne_nil
      obtain ⟨⟨more, rfl⟩, -⟩ := hlongest
      exact ⟨c, ds ++ more, rfl⟩

/-- A text has given tokens if and only if a cut with these tokens comes to its end. -/
theorem tokenize_eq_ok_iff
    {source : String}
    {tokens : List PlacedToken} :
    tokenize source = .ok tokens ↔ Cut source.toList [] tokens := by
  constructor
  · intro h
    have hcut := goesOn_tokensFrom (.start source.toList)
    change GoesOn [] source.toList [] (tokenize source) at hcut
    rw [h] at hcut
    exact hcut
  · intro h
    have hread := tokensFrom_eq_of_cut h
    rw [List.append_nil, tokensFrom] at hread
    rw [tokenize, hread]
    exact congrArg Except.ok (List.append_nil tokens)

/--
A text has a fault at an offset if and only if a cut comes to a place with that many
bytes before it, and nothing can be read there for the reason that the fault tells.
-/
theorem tokenize_eq_error_iff
    {source : String}
    {offset : Nat}
    {fault : Fault} :
    tokenize source = .error (offset, fault) ↔
      ∃ before after tokens, source.toList = before ++ after ∧
        offset = (String.ofList before).utf8ByteSize ∧
        Cut before after tokens ∧ Stuck after fault := by
  constructor
  · intro h
    have hcut := goesOn_tokensFrom (.start source.toList)
    change GoesOn [] source.toList [] (tokenize source) at hcut
    rw [h] at hcut
    exact hcut
  · rintro ⟨before, after, tokens, htext, rfl, hcut, hstuck⟩
    obtain ⟨c, rest, rfl⟩ := hstuck.exists_cons
    have hread := tokensFrom_eq_of_cut hcut
    rw [tokensFrom_error hstuck.isBlank_lead (lexeme_eq_error hstuck), ← htext,
      byteLength_eq_utf8ByteSize] at hread
    exact hread

/-! ### Places -/

theorem Longest.of_append
    {cs text more : List Char}
    (h : Longest cs (text ++ more))
    (hcs : cs <+: text) :
    Longest cs text :=
  ⟨hcs, fun other t hother ht => h.2 other t (hother.trans (List.prefix_append _ _)) ht⟩

/-- A cut does not depend on what stands far behind its place. -/
theorem Cut.of_append
    {before after more : List Char}
    {tokens : List PlacedToken}
    (h : Cut before (after ++ more) tokens) :
    Cut before after tokens := by
  generalize hrest : after ++ more = rest at h
  induction h generalizing after with
  | start text =>
      exact .start after
  | blank h hblank ih =>
      subst hrest
      exact .blank (ih rfl) hblank
  | lexeme h hlongest hcs ih =>
      subst hrest
      rw [← List.append_assoc] at ih hlongest
      exact .lexeme (ih rfl) (hlongest.of_append (List.prefix_append _ _)) hcs

/-- What comes before a place that a cut has come to has the tokens found there. -/
theorem Cut.tokenize_before
    {before after : List Char}
    {tokens : List PlacedToken}
    (h : Cut before after tokens) :
    tokenize (String.ofList before) = .ok tokens := by
  rw [tokenize_eq_ok_iff, String.toList_ofList]
  have hcut : Cut before ([] ++ after) tokens := h
  exact hcut.of_append

/-- The tokens of a cut stand before its place, each further than the one before it. -/
theorem Cut.ascending
    {before after : List Char}
    {tokens : List PlacedToken}
    (h : Cut before after tokens) :
    (∀ t ∈ tokens, t.offset < (String.ofList before).utf8ByteSize) ∧
      tokens.Pairwise fun t u => t.offset < u.offset := by
  induction h with
  | start text =>
      exact ⟨nofun, .nil⟩
  | @blank before after c tokens h hblank ih =>
      refine ⟨fun t ht => Nat.lt_of_lt_of_le (ih.1 t ht) ?_, ih.2⟩
      rw [← byteLength_eq_utf8ByteSize, ← byteLength_eq_utf8ByteSize, byteLength_append]
      exact Nat.le_add_right _ _
  | @lexeme before cs after t tokens h hlongest hcs ih =>
      have hlt : (String.ofList before).utf8ByteSize <
          (String.ofList (before ++ cs)).utf8ByteSize := by
        obtain ⟨c, ds, rfl⟩ := List.exists_cons_of_ne_nil hcs.ne_nil
        have hpos := c.utf8Size_pos
        rw [← byteLength_eq_utf8ByteSize, ← byteLength_eq_utf8ByteSize, byteLength_append,
          byteLength]
        omega
      constructor
      · intro u hu
        rcases List.mem_append.1 hu with hu | hu
        · exact (ih.1 u hu).trans hlt
        · rw [List.mem_singleton.1 hu]
          exact hlt
      · refine List.pairwise_append.2 ⟨ih.2, List.pairwise_singleton _ _, fun u hu v hv => ?_⟩
        rw [List.mem_singleton.1 hv]
        exact ih.1 u hu

/-- Every token of a cut is spelled by the longest lexeme at its offset. -/
theorem Cut.exists_lexeme
    {before after : List Char}
    {tokens : List PlacedToken}
    (h : Cut before after tokens)
    {t : PlacedToken}
    (ht : t ∈ tokens) :
    ∃ front cs back, before ++ after = front ++ (cs ++ back) ∧
      t.offset = (String.ofList front).utf8ByteSize ∧
      Longest cs (cs ++ back) ∧ Lexeme cs (some t.token) := by
  induction h with
  | start text =>
      cases ht
  | @blank before after c tokens h hblank ih =>
      rw [List.append_assoc]
      exact ih ht
  | @lexeme before cs after u tokens h hlongest hcs ih =>
      rw [List.append_assoc]
      rcases List.mem_append.1 ht with ht | ht
      · exact ih ht
      · rw [List.mem_singleton.1 ht]
        exact ⟨before, cs, after, rfl, rfl, hlongest, hcs⟩

end Condition
end DocumentStore
