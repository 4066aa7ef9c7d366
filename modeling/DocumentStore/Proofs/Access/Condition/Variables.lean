import DocumentStore.Proofs.Access.Condition.Soundness

/-!
# The variables of conditions

A condition that was read in a rule mentions variables only that start with one
of the names known in every rule or with a variable of the rule's pattern.  The
grammar has this in its rule for variables, and every other rule passes it on
from the parts to the whole.
-/

namespace DocumentStore
namespace Condition

mutual

/-- The words with which the variables of a condition start, from left to right. -/
def variableRoots : Condition → List String
  | literal _ => []
  | list items => variableRootsAll items
  | var root _ => [root]
  | not inner => variableRoots inner
  | and left right => variableRoots left ++ variableRoots right
  | or left right => variableRoots left ++ variableRoots right
  | compare _ left right => variableRoots left ++ variableRoots right
  | isIn needle haystack => variableRoots needle ++ variableRoots haystack
  | add left right => variableRoots left ++ variableRoots right
  | call _ args => variableRootsAll args

/-- The words with which the variables of some conditions start. -/
def variableRootsAll : List Condition → List String
  | [] => []
  | item :: rest => variableRoots item ++ variableRootsAll rest

end

/-- Every one of some words is known in every rule or is a variable of the pattern. -/
def Known (bound names : List String) : Prop :=
  ∀ name ∈ names, name ∈ roots ∨ name ∈ bound

theorem Known.append
    {bound names more : List String}
    (h : Known bound names)
    (hmore : Known bound more) :
    Known bound (names ++ more) := by
  intro name hname
  rcases List.mem_append.1 hname with hname | hname
  · exact h name hname
  · exact hmore name hname

theorem known_nil (bound : List String) :
    Known bound [] := by
  intro name hname
  cases hname

theorem known_singleton
    {bound : List String}
    {name : String}
    (h : name ∈ roots ∨ name ∈ bound) :
    Known bound [name] := by
  intro other hother
  rwa [List.mem_singleton.1 hother]

namespace Grammar

variable {bound : List String}

mutual

theorem Disjunction.known
    {ts : List Token} {e : Condition} :
    Disjunction bound ts e → Known bound e.variableRoots
  | .single h => h.known
  | .or hleft hright => hleft.known.append hright.known

theorem Conjunction.known
    {ts : List Token} {e : Condition} :
    Conjunction bound ts e → Known bound e.variableRoots
  | .single h => h.known
  | .and hleft hright => hleft.known.append hright.known

theorem Negation.known
    {ts : List Token} {e : Condition} :
    Negation bound ts e → Known bound e.variableRoots
  | .single h => h.known
  | .not h => h.known

theorem Comparison.known
    {ts : List Token} {e : Condition} :
    Comparison bound ts e → Known bound e.variableRoots
  | .single h => h.known
  | .compare _ hleft hright => hleft.known.append hright.known
  | .isIn hleft hright => hleft.known.append hright.known

theorem Sum.known
    {ts : List Token} {e : Condition} :
    Sum bound ts e → Known bound e.variableRoots
  | .single h => h.known
  | .add hleft hright => hleft.known.append hright.known

/-- The variables of a primary are known; only here one is mentioned. -/
theorem Primary.known
    {ts : List Token} {e : Condition} :
    Primary bound ts e → Known bound e.variableRoots
  | .text _ => known_nil bound
  | .number _ => known_nil bound
  | .negativeInteger _ => known_nil bound
  | .negativeFloat _ => known_nil bound
  | .constant _ => known_nil bound
  | .list h => h.known
  | .parens h => h.known
  | .call _ _ h => h.known
  | .variable _ _ hroot => known_singleton hroot

theorem Items.known
    {ts : List Token} {items : List Condition} :
    Items bound ts items → Known bound (variableRootsAll items)
  | .none => known_nil bound
  | .some h => h.known

theorem Listing.known
    {ts : List Token} {items : List Condition} :
    Listing bound ts items → Known bound (variableRootsAll items)
  | .one h => h.known.append (known_nil bound)
  | .more h hmore => h.known.append hmore.known

end

end Grammar

theorem known_of_parse
    {source : String}
    {bound : List String}
    {e : Condition}
    (h : parse source bound = .ok e) :
    Known bound e.variableRoots := by
  obtain ⟨_, -, hphrase⟩ := Grammar.derived_of_parse h
  exact hphrase.known

end Condition
end DocumentStore
