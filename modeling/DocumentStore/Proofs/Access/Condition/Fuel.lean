import DocumentStore.Proofs.Access.Condition.Soundness

/-!
# Reading comes to its end

The fuel of the reading functions is a bound on how deep they call each other.
Eight for each token and a few more are enough: then one more makes no
difference, so the fuel never runs out.  Between two tokens the functions call
each other in a fixed order, which the constants below follow.
-/

namespace DocumentStore
namespace Condition
namespace Grammar

variable {s : Parser.Source} {fuel : Nat}

/-- What is left is shorter by what was taken, which has a first token. -/
theorem Takes.length_lt
    {α : Type}
    {phrase : List Token → α → Prop} {tokens rest : List PlacedToken} {value : α}
    {begins : Token → Bool}
    (h : Takes phrase tokens value rest)
    (hphrase : ∀ ts, phrase ts value → ∃ t later, ts = t :: later ∧ begins t = true) :
    rest.length < tokens.length := by
  obtain ⟨taken, rfl, htaken⟩ := h
  obtain ⟨t, later, hcons, -⟩ := hphrase _ htaken
  have hlength := congrArg List.length hcons
  rw [List.length_map, List.length_cons] at hlength
  rw [List.length_append]
  omega

namespace Chain

variable
  {mark : Mark}
  {join : Condition → Condition → Condition}
  {part whole : Nat → List PlacedToken → Parser.Result Condition}
  {tail : Nat → Condition → List PlacedToken → Parser.Result Condition}
  {fuel enough : Nat}
  {tokens : List PlacedToken}

/-- Reading a chain needs one more than reading a part. -/
theorem settled_whole
    (hchain : Chain mark join part whole tail)
    (hpart : ∀ {tokens}, 8 * tokens.length + enough ≤ fuel →
      part (fuel + 1) tokens = part fuel tokens)
    (htail : ∀ {left tokens}, 8 * tokens.length + 1 ≤ fuel →
      tail (fuel + 1) left tokens = tail fuel left tokens)
    (hshorter : ∀ {tokens e rest}, part fuel tokens = .ok (e, rest) → rest.length < tokens.length)
    (h : 8 * tokens.length + (enough + 1) ≤ fuel + 1) :
    whole (fuel + 1 + 1) tokens = whole (fuel + 1) tokens := by
  rw [hchain.whole_succ, hchain.whole_succ, hpart (by omega)]
  cases hleft : part fuel tokens with
  | error e =>
      rfl
  | ok read =>
      have hlength := hshorter hleft
      exact htail (by omega)

/-- The mark before the next part allows for all that going on with a chain needs. -/
theorem settled_tail
    (hchain : Chain mark join part whole tail)
    (henough : enough ≤ 8)
    (hpart : ∀ {tokens}, 8 * tokens.length + enough ≤ fuel →
      part (fuel + 1) tokens = part fuel tokens)
    (htail : ∀ {left tokens}, 8 * tokens.length + 1 ≤ fuel →
      tail (fuel + 1) left tokens = tail fuel left tokens)
    (hshorter : ∀ {tokens e rest}, part fuel tokens = .ok (e, rest) → rest.length < tokens.length)
    {left : Condition}
    (h : 8 * tokens.length + 1 ≤ fuel + 1) :
    tail (fuel + 1 + 1) left tokens = tail (fuel + 1) left tokens := by
  by_cases hmark : ∃ offset rest, tokens = ⟨.mark mark, offset⟩ :: rest
  · obtain ⟨offset, rest, rfl⟩ := hmark
    rw [List.length_cons] at h
    rw [hchain.tail_mark, hchain.tail_mark, hpart (by omega)]
    cases hright : part fuel rest with
    | error e =>
        rfl
    | ok read =>
        have hlength := hshorter hright
        exact htail (by omega)
  · have hother : ∀ offset rest, tokens ≠ ⟨.mark mark, offset⟩ :: rest :=
      fun offset rest hcons => hmark ⟨offset, rest, hcons⟩
    rw [hchain.tail_other _ _ _ hother, hchain.tail_other _ _ _ hother]

end Chain

/-- With so much fuel the reading functions return what they return with one more. -/
structure Settled (s : Parser.Source) (fuel : Nat) : Prop where
  disjunction {tokens}
    (h : 8 * tokens.length + 6 ≤ fuel) :
    Parser.disjunction s (fuel + 1) tokens = Parser.disjunction s fuel tokens
  disjunctionTail {left tokens}
    (h : 8 * tokens.length + 1 ≤ fuel) :
    Parser.disjunctionTail s (fuel + 1) left tokens = Parser.disjunctionTail s fuel left tokens
  conjunction {tokens}
    (h : 8 * tokens.length + 5 ≤ fuel) :
    Parser.conjunction s (fuel + 1) tokens = Parser.conjunction s fuel tokens
  conjunctionTail {left tokens}
    (h : 8 * tokens.length + 1 ≤ fuel) :
    Parser.conjunctionTail s (fuel + 1) left tokens = Parser.conjunctionTail s fuel left tokens
  negation {tokens}
    (h : 8 * tokens.length + 4 ≤ fuel) :
    Parser.negation s (fuel + 1) tokens = Parser.negation s fuel tokens
  comparison {tokens}
    (h : 8 * tokens.length + 3 ≤ fuel) :
    Parser.comparison s (fuel + 1) tokens = Parser.comparison s fuel tokens
  sum {tokens}
    (h : 8 * tokens.length + 2 ≤ fuel) :
    Parser.sum s (fuel + 1) tokens = Parser.sum s fuel tokens
  sumTail {left tokens}
    (h : 8 * tokens.length + 1 ≤ fuel) :
    Parser.sumTail s (fuel + 1) left tokens = Parser.sumTail s fuel left tokens
  primary {tokens}
    (h : 8 * tokens.length + 1 ≤ fuel) :
    Parser.primary s (fuel + 1) tokens = Parser.primary s fuel tokens
  items {close what tokens}
    (h : 8 * tokens.length + 7 ≤ fuel) :
    Parser.items s close what (fuel + 1) tokens = Parser.items s close what fuel tokens

theorem Settled.zero : Settled s 0 where
  disjunction h := by omega
  disjunctionTail h := by omega
  conjunction h := by omega
  conjunctionTail h := by omega
  negation h := by omega
  comparison h := by omega
  sum h := by omega
  sumTail h := by omega
  primary h := by omega
  items h := by omega

/-! ### One step of each reading function -/

section Step

variable {tokens : List PlacedToken}

theorem Settled.negation_succ
    (hs : Settled s fuel)
    (h : 8 * tokens.length + 4 ≤ fuel + 1) :
    Parser.negation s (fuel + 1 + 1) tokens = Parser.negation s (fuel + 1) tokens := by
  rw [Parser.negation.eq_def, Parser.negation.eq_def s (fuel + 1)]
  dsimp only
  split
  · next offset rest =>
      rw [List.length_cons] at h
      rw [hs.negation (by omega)]
  · exact hs.comparison (by omega)

theorem Settled.comparison_succ
    (hs : Settled s fuel)
    (h : 8 * tokens.length + 3 ≤ fuel + 1) :
    Parser.comparison s (fuel + 1 + 1) tokens = Parser.comparison s (fuel + 1) tokens := by
  rw [Parser.comparison, Parser.comparison, hs.sum (by omega)]
  split
  · rfl
  · rfl
  · next left t rest hleft =>
      have hshorter := ((sound s fuel).sum hleft).length_lt fun _ => Sum.exists_cons
      rw [List.length_cons] at hshorter
      rw [hs.sum (by omega)]

theorem Settled.primary_succ
    (hs : Settled s fuel)
    (h : 8 * tokens.length + 1 ≤ fuel + 1) :
    Parser.primary s (fuel + 1 + 1) tokens = Parser.primary s (fuel + 1) tokens := by
  rw [Parser.primary.eq_def, Parser.primary.eq_def s (fuel + 1)]
  dsimp only
  split
  · rfl
  · rfl
  · rfl
  · rfl
  · rfl
  · next offset rest =>
      rw [List.length_cons] at h
      rw [hs.disjunction (by omega)]
  · rfl
  · next offset rest _ =>
      rw [List.length_cons] at h
      rw [hs.items (by omega)]
  · next word offset rest =>
      rw [List.length_cons] at h
      split
      · rfl
      · split
        · rfl
        · next offset' rest _ =>
            rw [List.length_cons] at h
            rw [hs.items (by omega)]
        · rfl
  · rfl

theorem Settled.items_succ
    {close : Mark}
    {what : String}
    (hs : Settled s fuel)
    (h : 8 * tokens.length + 7 ≤ fuel + 1) :
    Parser.items s close what (fuel + 1 + 1) tokens =
      Parser.items s close what (fuel + 1) tokens := by
  rw [Parser.items, Parser.items, hs.disjunction (by omega)]
  split
  · rfl
  · rfl
  · next item t rest hitem =>
      have hshorter := ((sound s fuel).disjunction hitem).length_lt fun _ =>
        Disjunction.exists_cons
      rw [List.length_cons] at hshorter
      rw [hs.items (by omega)]

end Step

/-- With enough fuel one more makes no difference. -/
theorem settled
    (s : Parser.Source)
    (fuel : Nat) :
    Settled s fuel := by
  induction fuel with
  | zero =>
      exact .zero
  | succ fuel ih =>
      have hsound := sound s fuel
      have hconjunction : ∀ {tokens e rest},
          Parser.conjunction s fuel tokens = .ok (e, rest) → rest.length < tokens.length :=
        fun h => (hsound.conjunction h).length_lt fun _ => Conjunction.exists_cons
      have hnegation : ∀ {tokens e rest},
          Parser.negation s fuel tokens = .ok (e, rest) → rest.length < tokens.length :=
        fun h => (hsound.negation h).length_lt fun _ => Negation.exists_cons
      have hprimary : ∀ {tokens e rest},
          Parser.primary s fuel tokens = .ok (e, rest) → rest.length < tokens.length :=
        fun h => (hsound.primary h).length_lt fun _ => Primary.exists_cons
      exact
        { disjunction :=
            (chain_disjunction s).settled_whole ih.conjunction ih.disjunctionTail hconjunction
          disjunctionTail :=
            (chain_disjunction s).settled_tail (by decide) ih.conjunction ih.disjunctionTail
              hconjunction
          conjunction :=
            (chain_conjunction s).settled_whole ih.negation ih.conjunctionTail hnegation
          conjunctionTail :=
            (chain_conjunction s).settled_tail (by decide) ih.negation ih.conjunctionTail
              hnegation
          negation := ih.negation_succ
          comparison := ih.comparison_succ
          sum := (chain_sum s).settled_whole ih.primary ih.sumTail hprimary
          sumTail := (chain_sum s).settled_tail (by decide) ih.primary ih.sumTail hprimary
          primary := ih.primary_succ
          items := ih.items_succ }

/-- With the fuel for the number of tokens, or with more, the same is read. -/
theorem disjunction_eq_of_le
    {tokens : List PlacedToken}
    (h : 8 * tokens.length + 8 ≤ fuel) :
    Parser.disjunction s fuel tokens = Parser.disjunction s (8 * tokens.length + 8) tokens := by
  induction h with
  | refl =>
      rfl
  | @step fuel hle ih =>
      have hle : 8 * tokens.length + 8 ≤ fuel := hle
      rw [(settled s fuel).disjunction (by omega), ih]

end Grammar
end Condition
end DocumentStore
