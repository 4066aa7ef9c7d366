import DocumentStore.Proofs.Access.Condition.Grammar

/-!
# What is read is derived

Whatever fuel a reading function has, if it returns a condition, then the tokens
it has taken are derived by the grammar as that condition.  The functions that
go on with a left part need a derivation of that part.
-/

namespace DocumentStore
namespace Condition
namespace Grammar

universe u

/-- The tokens taken by a reading function make up a phrase. -/
def Takes
    {α : Type u}
    (phrase : List Token → α → Prop)
    (tokens : List PlacedToken)
    (value : α)
    (rest : List PlacedToken) :
    Prop :=
  ∃ taken, tokens = taken ++ rest ∧ phrase (taken.map PlacedToken.token) value

namespace Takes

variable {α : Type u} {phrase : List Token → α → Prop} {tokens more rest : List PlacedToken}
  {value : α}

theorem nil
    (h : phrase [] value) :
    Takes phrase rest value rest :=
  ⟨[], rfl, h⟩

theorem cons
    {t : PlacedToken}
    (h : Takes (fun ts value => phrase (t.token :: ts) value) tokens value rest) :
    Takes phrase (t :: tokens) value rest := by
  obtain ⟨taken, rfl, hphrase⟩ := h
  exact ⟨t :: taken, rfl, hphrase⟩

theorem imp
    {β : Type u} {whole : List Token → β → Prop} {result : β}
    (h : Takes phrase tokens value rest)
    (himp : ∀ ts, phrase ts value → whole ts result) :
    Takes whole tokens result rest := by
  obtain ⟨taken, rfl, hphrase⟩ := h
  exact ⟨taken, rfl, himp _ hphrase⟩

theorem append
    {β : Type u} {whole : List Token → β → Prop} {result : β}
    (h : Takes phrase tokens value more)
    (hmore : ∀ ts, phrase ts value →
      Takes (fun us result => whole (ts ++ us) result) more result rest) :
    Takes whole tokens result rest := by
  obtain ⟨taken, rfl, hphrase⟩ := h
  obtain ⟨later, rfl, hwhole⟩ := hmore _ hphrase
  exact ⟨taken ++ later, (List.append_assoc ..).symm, by rwa [List.map_append]⟩

end Takes

/-! ### Chains -/

/--
Two functions read chains, parts with a mark between neighbours.  One begins
with a part; the other goes on with a left part as long as the mark is next, and
joins to it the part behind the mark.
-/
structure Chain
    (mark : Mark)
    (join : Condition → Condition → Condition)
    (part whole : Nat → List PlacedToken → Parser.Result Condition)
    (tail : Nat → Condition → List PlacedToken → Parser.Result Condition) :
    Prop where
  whole_succ (fuel : Nat) (tokens : List PlacedToken) :
    whole (fuel + 1) tokens =
      match part fuel tokens with
      | .error e => .error e
      | .ok (left, rest) => tail fuel left rest
  tail_mark (fuel : Nat) (left : Condition) (offset : Nat) (rest : List PlacedToken) :
    tail (fuel + 1) left (⟨.mark mark, offset⟩ :: rest) =
      match part fuel rest with
      | .error e => .error e
      | .ok (right, rest) => tail fuel (join left right) rest
  tail_other (fuel : Nat) (left : Condition) (tokens : List PlacedToken)
    (h : ∀ offset rest, tokens ≠ ⟨.mark mark, offset⟩ :: rest) :
    tail (fuel + 1) left tokens = .ok (left, tokens)

/-- Disjunctions are chains of conjunctions. -/
theorem chain_disjunction (s : Parser.Source) :
    Chain .orOr .or (Parser.conjunction s) (Parser.disjunction s) (Parser.disjunctionTail s) where
  whole_succ _ _ := rfl
  tail_mark _ _ _ _ := rfl
  tail_other _ _ _ h := by
    rw [Parser.disjunctionTail.eq_def]
    dsimp only
    split
    · exact absurd rfl (h _ _)
    · rfl

/-- Conjunctions are chains of negations. -/
theorem chain_conjunction (s : Parser.Source) :
    Chain .andAnd .and (Parser.negation s) (Parser.conjunction s) (Parser.conjunctionTail s) where
  whole_succ _ _ := rfl
  tail_mark _ _ _ _ := rfl
  tail_other _ _ _ h := by
    rw [Parser.conjunctionTail.eq_def]
    dsimp only
    split
    · exact absurd rfl (h _ _)
    · rfl

/-- Sums are chains of primaries. -/
theorem chain_sum (s : Parser.Source) :
    Chain .plus .add (Parser.primary s) (Parser.sum s) (Parser.sumTail s) where
  whole_succ _ _ := rfl
  tail_mark _ _ _ _ := rfl
  tail_other _ _ _ h := by
    rw [Parser.sumTail.eq_def]
    dsimp only
    split
    · exact absurd rfl (h _ _)
    · rfl

namespace Chain

variable
  {mark : Mark}
  {join : Condition → Condition → Condition}
  {part whole : Nat → List PlacedToken → Parser.Result Condition}
  {tail : Nat → Condition → List PlacedToken → Parser.Result Condition}
  {Part Whole : List Token → Condition → Prop}
  {fuel : Nat}
  {tokens rest : List PlacedToken}
  {e : Condition}

/-- What is read as a chain makes up one, if this is so of its parts and of going on with one. -/
theorem takes_whole
    (hchain : Chain mark join part whole tail)
    (hpart : ∀ {tokens e rest}, part fuel tokens = .ok (e, rest) → Takes Part tokens e rest)
    (htail : ∀ {before left tokens e rest}, Whole before left →
      tail fuel left tokens = .ok (e, rest) →
        Takes (fun ts e => Whole (before ++ ts) e) tokens e rest)
    (hsingle : ∀ {ts e}, Part ts e → Whole ts e)
    (h : whole (fuel + 1) tokens = .ok (e, rest)) :
    Takes Whole tokens e rest := by
  rw [hchain.whole_succ] at h
  split at h
  · cases h
  · next left more hleft =>
      exact (hpart hleft).append fun ts hphrase => htail (hsingle hphrase) h

/-- What is read in going on with a chain makes up a longer one with it. -/
theorem takes_tail
    (hchain : Chain mark join part whole tail)
    (hpart : ∀ {tokens e rest}, part fuel tokens = .ok (e, rest) → Takes Part tokens e rest)
    (htail : ∀ {before left tokens e rest}, Whole before left →
      tail fuel left tokens = .ok (e, rest) →
        Takes (fun ts e => Whole (before ++ ts) e) tokens e rest)
    (hjoin : ∀ {ts us left right}, Whole ts left → Part us right →
      Whole (ts ++ .mark mark :: us) (join left right))
    {before : List Token}
    {left : Condition}
    (hleft : Whole before left)
    (h : tail (fuel + 1) left tokens = .ok (e, rest)) :
    Takes (fun ts e => Whole (before ++ ts) e) tokens e rest := by
  by_cases hmark : ∃ offset more, tokens = ⟨.mark mark, offset⟩ :: more
  · obtain ⟨offset, more, rfl⟩ := hmark
    rw [hchain.tail_mark] at h
    split at h
    · cases h
    · next right last hright =>
        refine .cons ((hpart hright).append fun us hphrase => ?_)
        refine (htail (hjoin hleft hphrase) h).imp fun ts hwhole => ?_
        rwa [List.append_assoc, List.cons_append] at hwhole
  · rw [hchain.tail_other _ _ _ fun offset more hcons => hmark ⟨offset, more, hcons⟩] at h
    cases h
    exact .nil (by rwa [List.append_nil])

end Chain

variable {s : Parser.Source} {fuel : Nat}

/-! ### One step of each reading function -/

/-- What the reading functions return with some fuel is derived. -/
structure Sound (s : Parser.Source) (fuel : Nat) : Prop where
  disjunction {tokens e rest}
    (h : Parser.disjunction s fuel tokens = .ok (e, rest)) :
    Takes (Disjunction s.bound) tokens e rest
  disjunctionTail {before left tokens e rest}
    (hleft : Disjunction s.bound before left)
    (h : Parser.disjunctionTail s fuel left tokens = .ok (e, rest)) :
    Takes (fun ts e => Disjunction s.bound (before ++ ts) e) tokens e rest
  conjunction {tokens e rest}
    (h : Parser.conjunction s fuel tokens = .ok (e, rest)) :
    Takes (Conjunction s.bound) tokens e rest
  conjunctionTail {before left tokens e rest}
    (hleft : Conjunction s.bound before left)
    (h : Parser.conjunctionTail s fuel left tokens = .ok (e, rest)) :
    Takes (fun ts e => Conjunction s.bound (before ++ ts) e) tokens e rest
  negation {tokens e rest}
    (h : Parser.negation s fuel tokens = .ok (e, rest)) :
    Takes (Negation s.bound) tokens e rest
  comparison {tokens e rest}
    (h : Parser.comparison s fuel tokens = .ok (e, rest)) :
    Takes (Comparison s.bound) tokens e rest
  sum {tokens e rest}
    (h : Parser.sum s fuel tokens = .ok (e, rest)) :
    Takes (Sum s.bound) tokens e rest
  sumTail {before left tokens e rest}
    (hleft : Sum s.bound before left)
    (h : Parser.sumTail s fuel left tokens = .ok (e, rest)) :
    Takes (fun ts e => Sum s.bound (before ++ ts) e) tokens e rest
  primary {tokens e rest}
    (h : Parser.primary s fuel tokens = .ok (e, rest)) :
    Takes (Primary s.bound) tokens e rest
  items {close what tokens items rest}
    (h : Parser.items s close what fuel tokens = .ok (items, rest)) :
    Takes (fun ts items => ∃ us, ts = us ++ [.mark close] ∧ Listing s.bound us items) tokens
      items rest

theorem Sound.zero : Sound s 0 where
  disjunction h := by cases h
  disjunctionTail _ h := by cases h
  conjunction h := by cases h
  conjunctionTail _ h := by cases h
  negation h := by cases h
  comparison h := by cases h
  sum h := by cases h
  sumTail _ h := by cases h
  primary h := by cases h
  items h := by cases h

section Step

variable {tokens rest : List PlacedToken} {e : Condition}

theorem Sound.negation_succ
    (hs : Sound s fuel)
    (h : Parser.negation s (fuel + 1) tokens = .ok (e, rest)) :
    Takes (Negation s.bound) tokens e rest := by
  rw [Parser.negation.eq_def] at h
  dsimp only at h
  split at h
  · next offset more =>
      split at h
      · cases h
      · next inner last hinner =>
          cases h
          exact .cons ((hs.negation hinner).imp fun ts hphrase => .not hphrase)
  · exact (hs.comparison h).imp fun ts hphrase => .single hphrase

theorem Sound.comparison_succ
    (hs : Sound s fuel)
    (h : Parser.comparison s (fuel + 1) tokens = .ok (e, rest)) :
    Takes (Comparison s.bound) tokens e rest := by
  rw [Parser.comparison] at h
  split at h
  · cases h
  · next left hleft =>
      cases h
      exact (hs.sum hleft).imp fun ts hphrase => .single hphrase
  · next left t more hleft =>
      split at h
      · next hin =>
          split at h
          · cases h
          · next right last hright =>
              cases h
              refine (hs.sum hleft).append fun ts hphrase => .cons ?_
              refine (hs.sum hright).imp fun us hphrase' => ?_
              rw [hin]
              exact .isIn hphrase hphrase'
      · split at h
        · cases h
          exact (hs.sum hleft).imp fun ts hphrase => .single hphrase
        · next op hop =>
            split at h
            · cases h
            · next right last hright =>
                cases h
                refine (hs.sum hleft).append fun ts hphrase => .cons ?_
                refine (hs.sum hright).imp fun us hphrase' => ?_
                rw [compareOp?_eq_some_iff.1 hop]
                exact .compare op hphrase hphrase'

/-- The field names of a variable are each after a dot. -/
theorem takes_fields
    {tokens rest : List PlacedToken}
    {names : List String}
    (h : Parser.fields s tokens = .ok (names, rest)) :
    Takes (fun ts names => ts = dotted names) tokens names rest := by
  fun_induction Parser.fields s tokens generalizing names rest with
  | case1 offset name offset' more e hmore ih =>
      cases h
  | case2 offset name offset' more names' last hmore ih =>
      cases h
      refine .cons (.cons ((ih hmore).imp fun ts hnames => ?_))
      rw [hnames]
      rfl
  | case3 =>
      cases h
  | case4 =>
      cases h
      exact .nil rfl

/-- A variable has a known root. -/
theorem takes_variableAfter
    {offset : Nat}
    {word : String}
    (hword : Parser.literalWord? word = none)
    (h : Parser.variableAfter s offset word tokens = .ok (e, rest)) :
    Takes (fun ts => Primary s.bound (.word word :: ts)) tokens e rest := by
  unfold Parser.variableAfter at h
  split at h
  · next hroot =>
      split at h
      · cases h
      · next names more hfields =>
          cases h
          refine (takes_fields hfields).imp fun ts hnames => ?_
          rw [hnames]
          exact .variable names (literalWord?_eq_none_iff.1 hword) (by simpa using hroot)
  · cases h

theorem exists_of_callOf
    {word : String}
    {args : List Condition}
    {more : List PlacedToken}
    (h : (Parser.callOf word args).map (fun call => (call, more)) = .ok (e, rest)) :
    ∃ builtin, Builtin.resolve? word = some builtin ∧ args.length = builtin.arity ∧
      e = .call builtin args ∧ more = rest := by
  unfold Parser.callOf at h
  split at h
  · cases h
  · next builtin hname =>
      split at h
      · next harity =>
          cases h
          exact ⟨builtin, hname, harity.symm, rfl, rfl⟩
      · cases h

theorem Sound.primary_succ
    (hs : Sound s fuel)
    (h : Parser.primary s (fuel + 1) tokens = .ok (e, rest)) :
    Takes (Primary s.bound) tokens e rest := by
  rw [Parser.primary.eq_def] at h
  dsimp only at h
  split at h
  · cases h
  · next value offset more =>
      cases h
      exact .cons (.nil (.text value))
  · next n offset more =>
      cases h
      exact .cons (.nil (.number n))
  · next offset n offset' more =>
      cases h
      exact .cons (.cons (.nil (.negative n)))
  · cases h
  · next offset more =>
      split at h
      · cases h
      · next inner offset' last hinner =>
          cases h
          exact .cons ((hs.disjunction hinner).append fun ts hphrase =>
            .cons (.nil (.parens hphrase)))
      · cases h
  · next offset offset' more =>
      cases h
      exact .cons (.cons (.nil (.list .none)))
  · next offset more _ =>
      split at h
      · cases h
      · next items last hitems =>
          cases h
          refine .cons ((hs.items hitems).imp ?_)
          rintro _ ⟨us, rfl, hphrase⟩
          exact .list (.some hphrase)
  · next word offset more =>
      split at h
      · next value hvalue =>
          cases h
          exact .cons (.nil (.constant (literalWord?_eq_some_iff.1 hvalue)))
      · next hword =>
          split at h
          · next offset' offset'' last =>
              obtain ⟨builtin, hname, harity, rfl, rfl⟩ := exists_of_callOf h
              exact .cons (.cons (.cons (.nil (.call hname harity .none))))
          · next offset' last _ =>
              split at h
              · cases h
              · next args last hitems =>
                  obtain ⟨builtin, hname, harity, rfl, rfl⟩ := exists_of_callOf h
                  refine .cons (.cons ((hs.items hitems).imp ?_))
                  rintro _ ⟨us, rfl, hphrase⟩
                  exact .call hname harity (.some hphrase)
          · exact .cons (takes_variableAfter hword h)
  · cases h

theorem Sound.items_succ
    {close : Mark}
    {what : String}
    {items : List Condition}
    (hs : Sound s fuel)
    (h : Parser.items s close what (fuel + 1) tokens = .ok (items, rest)) :
    Takes (fun ts items => ∃ us, ts = us ++ [.mark close] ∧ Listing s.bound us items) tokens
      items rest := by
  rw [Parser.items] at h
  split at h
  · cases h
  · cases h
  · next item t more hitem =>
      split at h
      · next hclose =>
          cases h
          refine (hs.disjunction hitem).append fun ts hphrase => .cons (.nil ?_)
          exact ⟨ts, by rw [hclose], .one hphrase⟩
      · split at h
        · next hcomma =>
            split at h
            · cases h
            · next later last hlater =>
                cases h
                refine (hs.disjunction hitem).append fun ts hphrase => .cons ?_
                refine (hs.items hlater).imp ?_
                rintro _ ⟨us, rfl, hmore⟩
                rw [hcomma]
                exact ⟨ts ++ .mark .comma :: us, by simp, .more hphrase hmore⟩
        · cases h

end Step

/-- With any fuel what the reading functions return is derived. -/
theorem sound
    (s : Parser.Source)
    (fuel : Nat) :
    Sound s fuel := by
  induction fuel with
  | zero =>
      exact .zero
  | succ fuel ih =>
      exact
        { disjunction :=
            (chain_disjunction s).takes_whole ih.conjunction ih.disjunctionTail .single
          disjunctionTail :=
            (chain_disjunction s).takes_tail ih.conjunction ih.disjunctionTail .or
          conjunction :=
            (chain_conjunction s).takes_whole ih.negation ih.conjunctionTail .single
          conjunctionTail :=
            (chain_conjunction s).takes_tail ih.negation ih.conjunctionTail .and
          negation := ih.negation_succ
          comparison := ih.comparison_succ
          sum := (chain_sum s).takes_whole ih.primary ih.sumTail .single
          sumTail := (chain_sum s).takes_tail ih.primary ih.sumTail .add
          primary := ih.primary_succ
          items := ih.items_succ }

/-- All the tokens of a text that is read as a condition derive this condition. -/
theorem derived_of_parse
    {source : String}
    {bound : List String}
    {e : Condition}
    (h : parse source bound = .ok e) :
    ∃ tokens, tokenize source = .ok tokens ∧
      Disjunction bound (tokens.map PlacedToken.token) e := by
  unfold parse at h
  split at h
  · cases h
  · next tokens htokens =>
      dsimp only at h
      split at h
      · cases h
      · next condition hread =>
          cases h
          obtain ⟨taken, rfl, hphrase⟩ := (sound _ _).disjunction hread
          refine ⟨_, htokens, ?_⟩
          rwa [List.append_nil]
      · cases h

end Grammar
end Condition
end DocumentStore
