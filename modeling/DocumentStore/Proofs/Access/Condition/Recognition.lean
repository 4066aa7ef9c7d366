import DocumentStore.Proofs.Access.Condition.Fuel
import Mathlib.Order.Filter.AtTopBot.Basic

/-!
# A derived text is read

A reading function takes as many tokens as it can.  So it takes the tokens of a
derived phrase, and no more, if the next token does not go on with the phrase;
each kind of phrase has its own tokens that do.  For phrases whose rules begin
with themselves more is shown: after the tokens of the phrase the function goes
on as if the phrase were its left part.  Together with the soundness of the
reading functions and the sufficiency of their fuel, the parser recognises
exactly the grammar.
-/

namespace DocumentStore
namespace Condition
namespace Grammar

open Filter

variable {s : Parser.Source}

/-! ### Where phrases stop -/

/--
How tightly a token goes on with the phrase before it: a primary, a sum, a
comparison or negation, a conjunction, a disjunction, or none.
-/
def grip : Token → Nat
  | .mark .openParen | .mark .dot => 5
  | .mark .plus => 4
  | .mark .andAnd => 2
  | .mark .orOr => 1
  | t => if t = .word "in" ∨ (Parser.compareOp? t).isSome then 3 else 0

/-- The next token, if there is one, goes on less tightly than a level. -/
def Stops
    (level : Nat)
    (rest : List PlacedToken) :
    Prop :=
  ∀ t ∈ rest.head?, grip t.token < level

variable {level level' : Nat} {rest : List PlacedToken}

theorem stops_nil : Stops (level + 1) [] := by
  rintro t ⟨⟩

theorem stops_cons
    {t : PlacedToken}
    (h : grip t.token < level) :
    Stops level (t :: rest) := by
  rintro _ ⟨⟩
  exact h

theorem Stops.mono
    (h : Stops level rest)
    (hle : level ≤ level') :
    Stops level' rest :=
  fun t ht => Nat.lt_of_lt_of_le (h t ht) hle

theorem Stops.not_cons
    {t : PlacedToken}
    {more : List PlacedToken}
    (h : Stops level (t :: more))
    (hgrip : level ≤ grip t.token) :
    False :=
  absurd (h t rfl) (Nat.not_lt.2 hgrip)

/-! ### Reading with enough fuel -/

theorem eventually_of_succ
    {p : Nat → Prop}
    (h : ∀ᶠ fuel in atTop, p (fuel + 1)) :
    ∀ᶠ fuel in atTop, p fuel := by
  rw [← map_add_atTop_eq_nat 1, eventually_map]
  exact h

/-- With enough fuel the tokens of a phrase are read, and no more, wherever the phrase stops. -/
def Reads
    (read : Nat → List PlacedToken → Parser.Result Condition)
    (level : Nat)
    (ts : List Token)
    (e : Condition) :
    Prop :=
  ∀ taken rest, taken.map PlacedToken.token = ts → Stops level rest →
    ∀ᶠ fuel in atTop, read fuel (taken ++ rest) = .ok (e, rest)

/--
With enough fuel reading the tokens of a phrase is going on with the phrase as
the left part, wherever its parts stop.
-/
def Continues
    (read : Nat → List PlacedToken → Parser.Result Condition)
    (tail : Nat → Condition → List PlacedToken → Parser.Result Condition)
    (level : Nat)
    (ts : List Token)
    (e : Condition) :
    Prop :=
  ∀ taken rest result, taken.map PlacedToken.token = ts → Stops level rest →
    (∀ᶠ fuel in atTop, tail fuel e rest = result) →
      ∀ᶠ fuel in atTop, read fuel (taken ++ rest) = result

/-! ### Chains -/

namespace Chain

variable
  {mark : Mark}
  {join : Condition → Condition → Condition}
  {part whole : Nat → List PlacedToken → Parser.Result Condition}
  {tail : Nat → Condition → List PlacedToken → Parser.Result Condition}
  {ts us : List Token}
  {e left right : Condition}

/-- A chain that is gone on with is read where its mark is not next. -/
theorem reads
    (hchain : Chain mark join part whole tail)
    (hgrip : level ≤ grip (.mark mark))
    (h : Continues whole tail (level + 1) ts e) :
    Reads whole level ts e := by
  intro taken rest htaken hstops
  refine h taken rest _ htaken (hstops.mono (Nat.le_succ _)) (eventually_of_succ ?_)
  refine .of_forall fun fuel => hchain.tail_other _ _ _ ?_
  rintro offset more rfl
  exact hstops.not_cons hgrip

theorem continues_single
    (hchain : Chain mark join part whole tail)
    (h : Reads part level ts e) :
    Continues whole tail level ts e := by
  intro taken rest result htaken hstops htail
  refine eventually_of_succ ?_
  filter_upwards [h taken rest htaken hstops, htail] with fuel hread htail
  rw [hchain.whole_succ, hread]
  exact htail

/-- A chain with one more part behind the mark is a chain to go on with. -/
theorem continues_join
    (hchain : Chain mark join part whole tail)
    (hgrip : grip (.mark mark) < level)
    (hleft : Continues whole tail level ts left)
    (hright : Reads part level us right) :
    Continues whole tail level (ts ++ .mark mark :: us) (join left right) := by
  intro taken rest result htaken hstops htail
  obtain ⟨first, later, rfl, hfirst, hlater⟩ := List.map_eq_append_iff.1 htaken
  obtain ⟨⟨_, offset⟩, second, rfl, rfl, hsecond⟩ := List.map_eq_cons_iff.1 hlater
  rw [List.append_assoc, List.cons_append]
  refine hleft first _ result hfirst (stops_cons hgrip) (eventually_of_succ ?_)
  filter_upwards [hright second rest hsecond hstops, htail] with fuel hread htail
  rw [hchain.tail_mark, hread]
  exact htail

end Chain

section Rules

variable {ts us : List Token} {e left right : Condition}

theorem reads_disjunction
    (h : Continues (Parser.disjunction s) (Parser.disjunctionTail s) 2 ts e) :
    Reads (Parser.disjunction s) 1 ts e :=
  (chain_disjunction s).reads (by decide) h

theorem reads_conjunction
    (h : Continues (Parser.conjunction s) (Parser.conjunctionTail s) 3 ts e) :
    Reads (Parser.conjunction s) 2 ts e :=
  (chain_conjunction s).reads (by decide) h

theorem reads_sum
    (h : Continues (Parser.sum s) (Parser.sumTail s) 5 ts e) :
    Reads (Parser.sum s) 4 ts e :=
  (chain_sum s).reads (by decide) h

/-! ### Negations and comparisons -/

theorem reads_single_negation
    (hfirst : ∃ t later, ts = t :: later ∧ beginsPrimary t = true)
    (h : Reads (Parser.comparison s) 3 ts e) :
    Reads (Parser.negation s) 3 ts e := by
  intro taken rest htaken hstops
  refine eventually_of_succ ?_
  filter_upwards [h taken rest htaken hstops] with fuel hread
  rw [Parser.negation.eq_def]
  dsimp only
  split
  · next offset more hbang =>
      obtain ⟨t, later, rfl, ht⟩ := hfirst
      obtain ⟨_, _, rfl, rfl, -⟩ := List.map_eq_cons_iff.1 htaken
      cases hbang
      cases ht
  · exact hread

theorem reads_not
    (h : Reads (Parser.negation s) 3 ts e) :
    Reads (Parser.negation s) 3 (.mark .bang :: ts) (.not e) := by
  intro taken rest htaken hstops
  obtain ⟨⟨_, offset⟩, later, rfl, rfl, hlater⟩ := List.map_eq_cons_iff.1 htaken
  refine eventually_of_succ ?_
  filter_upwards [h later rest hlater hstops] with fuel hread
  rw [List.cons_append, Parser.negation, hread]

theorem grip_signOf (op : CompareOp) :
    grip (.mark (signOf op)) = 3 := by
  cases op <;> rfl

theorem reads_single_comparison
    (h : Reads (Parser.sum s) 4 ts e) :
    Reads (Parser.comparison s) 3 ts e := by
  intro taken rest htaken hstops
  refine eventually_of_succ ?_
  filter_upwards [h taken rest htaken (hstops.mono (by decide))] with fuel hread
  rw [Parser.comparison, hread]
  cases rest with
  | nil =>
      rfl
  | cons t more =>
      have hin : t.token ≠ .word "in" := fun hin => hstops.not_cons (by rw [hin]; decide)
      have hsign : Parser.compareOp? t.token = none := by
        refine Option.eq_none_iff_forall_ne_some.2 fun op hop => hstops.not_cons ?_
        rw [compareOp?_eq_some_iff.1 hop, grip_signOf]
      dsimp only
      rw [if_neg hin, hsign]

theorem reads_compare
    (op : CompareOp)
    (hleft : Reads (Parser.sum s) 4 ts left)
    (hright : Reads (Parser.sum s) 4 us right) :
    Reads (Parser.comparison s) 3 (ts ++ .mark (signOf op) :: us) (.compare op left right) := by
  intro taken rest htaken hstops
  obtain ⟨first, later, rfl, hfirst, hlater⟩ := List.map_eq_append_iff.1 htaken
  obtain ⟨t, second, rfl, ht, hsecond⟩ := List.map_eq_cons_iff.1 hlater
  have hnext : Stops 4 (t :: (second ++ rest)) :=
    stops_cons (by rw [ht, grip_signOf]; decide)
  have hin : t.token ≠ .word "in" := by
    rw [ht]
    exact Token.noConfusion
  refine eventually_of_succ ?_
  filter_upwards [hleft first _ hfirst hnext,
    hright second rest hsecond (hstops.mono (by decide))] with fuel hread hread'
  rw [List.append_assoc, List.cons_append, Parser.comparison, hread]
  dsimp only
  rw [if_neg hin, compareOp?_eq_some_iff.2 ht]
  dsimp only
  rw [hread']

theorem reads_isIn
    (hleft : Reads (Parser.sum s) 4 ts left)
    (hright : Reads (Parser.sum s) 4 us right) :
    Reads (Parser.comparison s) 3 (ts ++ .word "in" :: us) (.isIn left right) := by
  intro taken rest htaken hstops
  obtain ⟨first, later, rfl, hfirst, hlater⟩ := List.map_eq_append_iff.1 htaken
  obtain ⟨t, second, rfl, ht, hsecond⟩ := List.map_eq_cons_iff.1 hlater
  have hnext : Stops 4 (t :: (second ++ rest)) :=
    stops_cons (by rw [ht]; decide)
  refine eventually_of_succ ?_
  filter_upwards [hleft first _ hfirst hnext,
    hright second rest hsecond (hstops.mono (by decide))] with fuel hread hread'
  rw [List.append_assoc, List.cons_append, Parser.comparison, hread]
  dsimp only
  rw [if_pos ht, hread']

/-! ### Primaries -/

theorem reads_of_read_one
    {t : Token}
    (h : ∀ fuel offset rest, Stops 5 rest →
      Parser.primary s (fuel + 1) (⟨t, offset⟩ :: rest) = .ok (e, rest)) :
    Reads (Parser.primary s) 5 [t] e := by
  intro taken rest htaken hstops
  obtain ⟨⟨_, offset⟩, later, rfl, rfl, hlater⟩ := List.map_eq_cons_iff.1 htaken
  obtain rfl : later = [] := List.map_eq_nil_iff.1 hlater
  exact eventually_of_succ (.of_forall fun fuel => h fuel offset rest hstops)

theorem reads_negative (n : Json.Number) :
    Reads (Parser.primary s) 5 [.mark .minus, .number n]
      (.literal (.number (Parser.negate n))) := by
  intro taken rest htaken hstops
  obtain ⟨⟨_, offset⟩, later, rfl, rfl, hlater⟩ := List.map_eq_cons_iff.1 htaken
  obtain ⟨⟨_, offset'⟩, last, rfl, rfl, hlast⟩ := List.map_eq_cons_iff.1 hlater
  obtain rfl : last = [] := List.map_eq_nil_iff.1 hlast
  exact eventually_of_succ (.of_forall fun fuel => rfl)

theorem reads_constant
    {word : String} {value : Json}
    (h : (word, value) ∈ literalWords) :
    Reads (Parser.primary s) 5 [.word word] (.literal value) := by
  refine reads_of_read_one fun fuel offset rest _ => ?_
  rw [Parser.primary.eq_def]
  dsimp only
  rw [literalWord?_eq_some_iff.2 h]

theorem reads_parens
    (h : Reads (Parser.disjunction s) 1 ts e) :
    Reads (Parser.primary s) 5 (.mark .openParen :: (ts ++ [.mark .closeParen])) e := by
  intro taken rest htaken hstops
  obtain ⟨⟨_, offset⟩, later, rfl, rfl, hlater⟩ := List.map_eq_cons_iff.1 htaken
  obtain ⟨inner, last, rfl, hinner, hlast⟩ := List.map_eq_append_iff.1 hlater
  obtain ⟨⟨_, offset'⟩, none, rfl, rfl, hnone⟩ := List.map_eq_cons_iff.1 hlast
  obtain rfl : none = [] := List.map_eq_nil_iff.1 hnone
  have hnext : Stops 1 (⟨.mark .closeParen, offset'⟩ :: rest) :=
    stops_cons (show 0 < 1 by decide)
  refine eventually_of_succ ?_
  filter_upwards [h inner _ hinner hnext] with fuel hread
  rw [List.cons_append, List.append_assoc, Parser.primary, List.singleton_append, hread]

/-- With enough fuel the items of a listing are read up to a closing mark. -/
def ReadsListing
    (s : Parser.Source)
    (ts : List Token)
    (items : List Condition) :
    Prop :=
  ∀ close what taken offset rest, close = .closeBracket ∨ close = .closeParen →
    taken.map PlacedToken.token = ts →
      ∀ᶠ fuel in atTop,
        Parser.items s close what fuel (taken ++ ⟨.mark close, offset⟩ :: rest) =
          .ok (items, rest)

theorem grip_close
    {close : Mark}
    (h : close = .closeBracket ∨ close = .closeParen) :
    grip (.mark close) = 0 ∧ close ≠ .comma := by
  rcases h with rfl | rfl <;> decide

theorem readsListing_one
    (h : Reads (Parser.disjunction s) 1 ts e) :
    ReadsListing s ts [e] := by
  intro close what taken offset rest hclose htaken
  obtain ⟨hgrip, -⟩ := grip_close hclose
  have hnext : Stops 1 (⟨.mark close, offset⟩ :: rest) :=
    stops_cons (Nat.lt_of_le_of_lt (Nat.le_of_eq hgrip) Nat.one_pos)
  refine eventually_of_succ ?_
  filter_upwards [h taken _ htaken hnext] with fuel hread
  rw [Parser.items, hread]
  dsimp only
  rw [if_pos rfl]

theorem readsListing_more
    {items : List Condition}
    (h : Reads (Parser.disjunction s) 1 ts e)
    (hmore : ReadsListing s us items) :
    ReadsListing s (ts ++ .mark .comma :: us) (e :: items) := by
  intro close what taken offset rest hclose htaken
  obtain ⟨-, hcomma⟩ := grip_close hclose
  obtain ⟨first, later, rfl, hfirst, hlater⟩ := List.map_eq_append_iff.1 htaken
  obtain ⟨⟨_, offset'⟩, second, rfl, rfl, hsecond⟩ := List.map_eq_cons_iff.1 hlater
  have hnext : Stops 1 (⟨.mark .comma, offset'⟩ :: (second ++ ⟨.mark close, offset⟩ :: rest)) :=
    stops_cons (show 0 < 1 by decide)
  refine eventually_of_succ ?_
  filter_upwards [h first _ hfirst hnext,
    hmore close what second offset rest hclose hsecond] with fuel hread hread'
  rw [List.append_assoc, List.cons_append, Parser.items, hread]
  dsimp only
  rw [if_neg fun hsame => hcomma (Token.mark.inj hsame).symm, if_pos rfl, hread']

theorem reads_list_nil :
    Reads (Parser.primary s) 5 [.mark .openBracket, .mark .closeBracket] (.list []) := by
  intro taken rest htaken hstops
  obtain ⟨⟨_, offset⟩, later, rfl, rfl, hlater⟩ := List.map_eq_cons_iff.1 htaken
  obtain ⟨⟨_, offset'⟩, last, rfl, rfl, hlast⟩ := List.map_eq_cons_iff.1 hlater
  obtain rfl : last = [] := List.map_eq_nil_iff.1 hlast
  exact eventually_of_succ (.of_forall fun fuel => rfl)

theorem reads_list
    {items : List Condition}
    (hfirst : ∃ t later, ts = t :: later ∧ beginsNegation t = true)
    (h : ReadsListing s ts items) :
    Reads (Parser.primary s) 5 (.mark .openBracket :: (ts ++ [.mark .closeBracket]))
      (.list items) := by
  intro taken rest htaken hstops
  obtain ⟨⟨_, offset⟩, later, rfl, rfl, hlater⟩ := List.map_eq_cons_iff.1 htaken
  obtain ⟨inner, last, rfl, hinner, hlast⟩ := List.map_eq_append_iff.1 hlater
  obtain ⟨⟨_, offset'⟩, none, rfl, rfl, hnone⟩ := List.map_eq_cons_iff.1 hlast
  obtain rfl : none = [] := List.map_eq_nil_iff.1 hnone
  refine eventually_of_succ ?_
  filter_upwards [h .closeBracket "',' or ']'" inner offset' rest (.inl rfl) hinner] with fuel hread
  rw [List.cons_append, List.append_assoc, List.singleton_append, Parser.primary, hread]
  -- the bracket is not closed at once
  intro _ _ hclosed
  obtain ⟨t, more, rfl, ht⟩ := hfirst
  obtain ⟨_, _, rfl, rfl, -⟩ := List.map_eq_cons_iff.1 hinner
  cases hclosed
  cases ht

theorem callOf_eq_ok
    {word : String} {builtin : Builtin} {args : List Condition}
    (hname : Builtin.resolve? word = some builtin)
    (harity : args.length = builtin.arity) :
    Parser.callOf word args = .ok (.call builtin args) := by
  rw [Parser.callOf, hname]
  exact if_pos harity.symm

theorem reads_call_nil
    {word : String} {builtin : Builtin}
    (hname : Builtin.resolve? word = some builtin)
    (harity : ([] : List Condition).length = builtin.arity) :
    Reads (Parser.primary s) 5 [.word word, .mark .openParen, .mark .closeParen]
      (.call builtin []) := by
  intro taken rest htaken hstops
  obtain ⟨⟨_, offset⟩, later, rfl, rfl, hlater⟩ := List.map_eq_cons_iff.1 htaken
  obtain ⟨⟨_, offset'⟩, more, rfl, rfl, hmore⟩ := List.map_eq_cons_iff.1 hlater
  obtain ⟨⟨_, offset''⟩, last, rfl, rfl, hlast⟩ := List.map_eq_cons_iff.1 hmore
  obtain rfl : last = [] := List.map_eq_nil_iff.1 hlast
  refine eventually_of_succ (.of_forall fun fuel => ?_)
  rw [Parser.primary.eq_def]
  dsimp only [List.cons_append, List.nil_append]
  rw [literalWord?_of_resolve? hname]
  dsimp only
  rw [callOf_eq_ok hname harity]
  rfl

theorem reads_call
    {word : String} {builtin : Builtin} {args : List Condition}
    (hname : Builtin.resolve? word = some builtin)
    (harity : args.length = builtin.arity)
    (hfirst : ∃ t later, ts = t :: later ∧ beginsNegation t = true)
    (h : ReadsListing s ts args) :
    Reads (Parser.primary s) 5 (.word word :: .mark .openParen :: (ts ++ [.mark .closeParen]))
      (.call builtin args) := by
  intro taken rest htaken hstops
  obtain ⟨⟨_, offset⟩, later, rfl, rfl, hlater⟩ := List.map_eq_cons_iff.1 htaken
  obtain ⟨⟨_, offset'⟩, more, rfl, rfl, hmore⟩ := List.map_eq_cons_iff.1 hlater
  obtain ⟨inner, last, rfl, hinner, hlast⟩ := List.map_eq_append_iff.1 hmore
  obtain ⟨⟨_, offset''⟩, none, rfl, rfl, hnone⟩ := List.map_eq_cons_iff.1 hlast
  obtain rfl : none = [] := List.map_eq_nil_iff.1 hnone
  refine eventually_of_succ ?_
  filter_upwards [h .closeParen "',' or ')'" inner offset'' rest (.inr rfl) hinner] with fuel hread
  rw [List.cons_append, List.cons_append, List.append_assoc, List.singleton_append,
    Parser.primary.eq_def]
  dsimp only
  rw [literalWord?_of_resolve? hname]
  dsimp only
  split
  · next hclosed =>
      -- the parenthesis is not closed at once
      obtain ⟨t, more, rfl, ht⟩ := hfirst
      obtain ⟨_, _, rfl, rfl, -⟩ := List.map_eq_cons_iff.1 hinner
      cases hclosed
      cases ht
  · next hmore =>
      cases hmore
      rw [hread]
      dsimp only
      rw [callOf_eq_ok hname harity]
      rfl
  · next hnot =>
      exact absurd rfl (hnot _ _)

/-- The field names of a variable are read up to a token that is no dot. -/
theorem fields_append
    {names : List String}
    {taken rest : List PlacedToken}
    (htaken : taken.map PlacedToken.token = dotted names)
    (hstops : Stops 5 rest) :
    Parser.fields s (taken ++ rest) = .ok (names, rest) := by
  induction names generalizing taken with
  | nil =>
      obtain rfl : taken = [] := List.map_eq_nil_iff.1 htaken
      rw [List.nil_append, Parser.fields.eq_def]
      split
      · exact (hstops.not_cons (Nat.le_refl _)).elim
      · exact (hstops.not_cons (Nat.le_refl _)).elim
      · rfl
  | cons name names ih =>
      obtain ⟨⟨_, offset⟩, later, rfl, rfl, hlater⟩ := List.map_eq_cons_iff.1 htaken
      obtain ⟨⟨_, offset'⟩, more, rfl, rfl, hmore⟩ := List.map_eq_cons_iff.1 hlater
      rw [List.cons_append, List.cons_append, Parser.fields, ih hmore]

theorem reads_variable
    {root : String}
    (names : List String)
    (hword : root ∉ literalWords.map Prod.fst)
    (hroot : root ∈ roots ∨ root ∈ s.bound) :
    Reads (Parser.primary s) 5 (.word root :: dotted names) (.var root names) := by
  intro taken rest htaken hstops
  obtain ⟨⟨_, offset⟩, later, rfl, rfl, hlater⟩ := List.map_eq_cons_iff.1 htaken
  have hknown : (roots.contains root || s.bound.contains root) = true := by simpa using hroot
  have hread : Parser.variableAfter s offset root (later ++ rest) =
      .ok (.var root names, rest) := by
    rw [Parser.variableAfter, if_pos hknown, fields_append hlater hstops]
  -- no parenthesis follows
  have hnext : ∀ t more, later ++ rest = t :: more → t.token ≠ .mark .openParen := by
    intro t more hcons ht
    cases names with
    | nil =>
        obtain rfl : later = [] := List.map_eq_nil_iff.1 hlater
        rw [List.nil_append] at hcons
        subst hcons
        exact hstops.not_cons (by rw [ht]; decide)
    | cons name names =>
        obtain ⟨_, _, rfl, hdot, -⟩ := List.map_eq_cons_iff.1 hlater
        cases hcons
        rw [hdot] at ht
        cases ht
  refine eventually_of_succ (.of_forall fun fuel => ?_)
  rw [List.cons_append, Parser.primary.eq_def]
  dsimp only
  rw [literalWord?_eq_none_iff.2 hword]
  dsimp only
  split
  · next hcons =>
      exact absurd rfl (hnext _ _ hcons)
  · next hcons =>
      exact absurd rfl (hnext _ _ hcons)
  · exact hread

end Rules

/-! ### Every derived phrase is read -/

mutual

/-- A derived disjunction is gone on with. -/
theorem Disjunction.continues
    {ts : List Token} {e : Condition} :
    Disjunction s.bound ts e →
      Continues (Parser.disjunction s) (Parser.disjunctionTail s) 2 ts e
  | .single h => (chain_disjunction s).continues_single (reads_conjunction h.continues)
  | .or hleft hright =>
      (chain_disjunction s).continues_join (by decide) hleft.continues
        (reads_conjunction hright.continues)

theorem Conjunction.continues
    {ts : List Token} {e : Condition} :
    Conjunction s.bound ts e →
      Continues (Parser.conjunction s) (Parser.conjunctionTail s) 3 ts e
  | .single h => (chain_conjunction s).continues_single h.reads
  | .and hleft hright =>
      (chain_conjunction s).continues_join (by decide) hleft.continues hright.reads

theorem Negation.reads
    {ts : List Token} {e : Condition} :
    Negation s.bound ts e → Reads (Parser.negation s) 3 ts e
  | .single h => reads_single_negation h.exists_cons h.reads
  | .not h => reads_not h.reads

/-- A derived comparison is read. -/
theorem Comparison.reads
    {ts : List Token} {e : Condition} :
    Comparison s.bound ts e → Reads (Parser.comparison s) 3 ts e
  | .single h => reads_single_comparison (reads_sum h.continues)
  | .compare op hleft hright =>
      reads_compare op (reads_sum hleft.continues) (reads_sum hright.continues)
  | .isIn hleft hright =>
      reads_isIn (reads_sum hleft.continues) (reads_sum hright.continues)

theorem Sum.continues
    {ts : List Token} {e : Condition} :
    Sum s.bound ts e → Continues (Parser.sum s) (Parser.sumTail s) 5 ts e
  | .single h => (chain_sum s).continues_single h.reads
  | .add hleft hright => (chain_sum s).continues_join (by decide) hleft.continues hright.reads

/-- A derived primary is read. -/
theorem Primary.reads
    {ts : List Token} {e : Condition} :
    Primary s.bound ts e → Reads (Parser.primary s) 5 ts e
  | .text _ => reads_of_read_one fun _ _ _ _ => rfl
  | .number _ => reads_of_read_one fun _ _ _ _ => rfl
  | .negativeInteger i => reads_negative (.integer i)
  | .negativeFloat x => reads_negative (.float x)
  | .constant h => reads_constant h
  | .list .none => reads_list_nil
  | .list (.some h) => reads_list h.exists_cons h.reads
  | .parens h => reads_parens (reads_disjunction h.continues)
  | .call hname harity .none => reads_call_nil hname harity
  | .call hname harity (.some h) => reads_call hname harity h.exists_cons h.reads
  | .variable names hword hroot => reads_variable names hword hroot

theorem Listing.reads
    {ts : List Token} {items : List Condition} :
    Listing s.bound ts items → ReadsListing s ts items
  | .one h => readsListing_one (reads_disjunction h.continues)
  | .more h hmore =>
      readsListing_more (reads_disjunction h.continues) hmore.reads

end

/-- A list of tokens has one tree at most. -/
theorem Disjunction.unique
    {bound : List String} {ts : List Token} {e e' : Condition}
    (h : Disjunction bound ts e)
    (h' : Disjunction bound ts e') :
    e = e' := by
  let s : Parser.Source := ⟨bound, 0⟩
  let taken : List PlacedToken := ts.map fun t => ⟨t, 0⟩
  have htaken : taken.map PlacedToken.token = ts :=
    List.map_map.trans (List.map_id ts)
  have hread : Reads (Parser.disjunction s) 1 ts e := reads_disjunction h.continues
  have hread' : Reads (Parser.disjunction s) 1 ts e' := reads_disjunction h'.continues
  obtain ⟨fuel, hok, hok'⟩ :=
    ((hread taken [] htaken stops_nil).and (hread' taken [] htaken stops_nil)).exists
  rw [hok] at hok'
  cases hok'
  rfl

/-- The tokens of a derived text are read to the end with the fuel for their number. -/
theorem disjunction_of_derived
    {tokens : List PlacedToken} {e : Condition}
    (h : Disjunction s.bound (tokens.map PlacedToken.token) e) :
    Parser.disjunction s (8 * tokens.length + 8) tokens = .ok (e, []) := by
  have hread : Reads (Parser.disjunction s) 1 _ e := reads_disjunction h.continues
  have hread := hread tokens [] rfl stops_nil
  rw [List.append_nil] at hread
  obtain ⟨fuel, hok, hle⟩ := (hread.and (eventually_ge_atTop (8 * tokens.length + 8))).exists
  rw [← disjunction_eq_of_le hle]
  exact hok

end Grammar

/--
The parser recognises exactly the grammar.  It returns a condition for a text if
and only if the text can be cut into tokens and the list of all of them is
derived as this condition.  No list of tokens has two trees.  Reading comes to
its end: the fuel is enough, for with more of it the same is returned.
-/
theorem parse_recognises
    (source : String)
    (bound : List String) :
    (∀ e, parse source bound = .ok e ↔
      ∃ tokens, tokenize source = .ok tokens ∧
        Grammar.Disjunction bound (tokens.map PlacedToken.token) e) ∧
    (∀ ts e e', Grammar.Disjunction bound ts e → Grammar.Disjunction bound ts e' → e = e') ∧
    ∀ tokens, tokenize source = .ok tokens →
      ∀ fuel, 8 * tokens.length + 8 ≤ fuel →
        Parser.disjunction ⟨bound, source.utf8ByteSize⟩ fuel tokens =
          Parser.disjunction ⟨bound, source.utf8ByteSize⟩ (8 * tokens.length + 8) tokens := by
  refine ⟨fun e => ⟨Grammar.derived_of_parse, ?_⟩, fun ts e e' => Grammar.Disjunction.unique,
    fun tokens _ fuel => Grammar.disjunction_eq_of_le⟩
  rintro ⟨tokens, htokens, hphrase⟩
  unfold parse
  rw [htokens]
  dsimp only
  have hread := Grammar.disjunction_of_derived (s := ⟨bound, source.utf8ByteSize⟩) hphrase
  rw [hread]

/-- A call with a result above -2, or a variable that is not -7. -/
def signedBounds : Condition :=
  .or
    (.compare .gt (.call .size [.var "a" ["b"]]) (.literal (.number (.integer (-2)))))
    (.not (.isIn (.var "x" []) (.list [.literal (.number (.integer (-7)))])))

/-- A minus before a number belongs to the number, in a comparison and in a list. -/
theorem signedBounds_recognised :
    parse "size(a.b) > -2 || !x in [-7]" ["a", "x"] = .ok signedBounds ∧
      ∃ tokens, tokenize "size(a.b) > -2 || !x in [-7]" = .ok tokens ∧
        Grammar.Disjunction ["a", "x"] (tokens.map PlacedToken.token) signedBounds := by
  have htokens : tokenize "size(a.b) > -2 || !x in [-7]" = .ok
      [⟨.word "size", 0⟩, ⟨.mark .openParen, 4⟩, ⟨.word "a", 5⟩, ⟨.mark .dot, 6⟩, ⟨.word "b", 7⟩,
        ⟨.mark .closeParen, 8⟩, ⟨.mark .gt, 10⟩, ⟨.mark .minus, 12⟩, ⟨.number (.integer 2), 13⟩,
        ⟨.mark .orOr, 15⟩, ⟨.mark .bang, 18⟩, ⟨.word "x", 19⟩, ⟨.word "in", 21⟩,
        ⟨.mark .openBracket, 24⟩, ⟨.mark .minus, 25⟩, ⟨.number (.integer 7), 26⟩,
        ⟨.mark .closeBracket, 27⟩] := by
    decide +kernel
  have hparse : parse "size(a.b) > -2 || !x in [-7]" ["a", "x"] = .ok signedBounds := by
    rw [parse, htokens]
    rfl
  exact ⟨hparse, ((parse_recognises _ _).1 _).1 hparse⟩

end Condition
end DocumentStore
