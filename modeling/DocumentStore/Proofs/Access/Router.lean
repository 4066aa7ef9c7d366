import DocumentStore.Access.Router

/-!
# What a router finds

A router stands for the rules that it holds under each pattern.  Entering a
rule changes them under its own pattern only.  The rules found for a path are
those under the first of the patterns that fit it, when patterns are compared
segment by segment and a literal goes before a variable; each variable of that
pattern stands for the segment at its position.
-/

namespace DocumentStore

universe u

namespace Segment

/-- Whether a segment of a pattern fits a segment of a path. -/
def fits : Segment → String → Bool
  | literal text, segment => text = segment
  | capture _, _ => true

/-- A literal comes first. -/
def rank : Segment → Nat
  | literal _ => 0
  | capture _ => 1

end Segment

namespace Pattern

/-- A pattern fits the segments of a path: there are as many, and each fits. -/
def fits : Pattern → List String → Bool
  | [], [] => true
  | s :: rest, segment :: segments => s.fits segment && fits rest segments
  | _, _ => false

/-- Patterns are compared by the ranks of their segments from the left. -/
def ranks (p : Pattern) : List Nat :=
  p.map Segment.rank

/-- The variables of a pattern with the segments at their positions. -/
def bind
    (p : Pattern)
    (segments : List String) :
    Bindings :=
  (p.zip segments).filterMap fun (s, segment) => s.name?.map (·, segment)

end Pattern

namespace Router

variable {α : Type u}

/-- The rules under a pattern. -/
def rulesAt : Pattern → Router α → List α
  | [], node _ _ rules => rules
  | .literal label :: rest, node literals _ _ =>
      match literals.lookup label with
      | some child => rulesAt rest child
      | none => []
  | .capture name :: rest, node _ capture _ =>
      match capture with
      | some (existing, child) => if existing = name then rulesAt rest child else []
      | none => []

@[simp] theorem rulesAt_empty (p : Pattern) :
    rulesAt p (empty : Router α) = [] := by
  cases p with
  | nil =>
      rfl
  | cons s rest =>
      cases s <;> rfl

theorem lookup_cons_eq_ite
    {β : Type u}
    (label other : String)
    (value : β)
    (rest : List (String × β)) :
    ((label, value) :: rest).lookup other =
      if other = label then some value else rest.lookup other := by
  rw [List.lookup_cons]
  by_cases h : other = label
  · subst h
    simp
  · have hne : (other == label) = false := beq_false_of_ne h
    rw [hne, if_neg h]

/-- Looking up a literal after one was set. -/
theorem lookup_setLiteral
    (label other : String)
    (child : Router α)
    (literals : List (String × Router α)) :
    (setLiteral label child literals).lookup other =
      if other = label then some child else literals.lookup other := by
  induction literals with
  | nil =>
      rw [setLiteral, lookup_cons_eq_ite]
  | cons head rest ih =>
      obtain ⟨l, c⟩ := head
      rw [setLiteral]
      by_cases hl : l = label
      · subst hl
        rw [if_pos rfl, lookup_cons_eq_ite, lookup_cons_eq_ite]
        split <;> rfl
      · rw [if_neg hl, lookup_cons_eq_ite, lookup_cons_eq_ite, ih]
        by_cases h : other = l
        · subst h
          rw [if_pos rfl, if_neg hl, if_pos rfl]
        · rw [if_neg h, if_neg h]

/-- The rules under a literal pattern, given the child of the literal. -/
theorem rulesAt_literal
    (label : String)
    (rest : Pattern)
    (literals : List (String × Router α))
    (capture : Option (String × Router α))
    (rules : List α) :
    rulesAt (.literal label :: rest) (node literals capture rules) =
      rulesAt rest ((literals.lookup label).getD empty) := by
  rw [rulesAt]
  cases literals.lookup label with
  | none =>
      exact (rulesAt_empty rest).symm
  | some child =>
      rfl

/-- The rules under a variable pattern, given the child of the variable or else the empty tree. -/
theorem rulesAt_capture
    {name : String}
    {child : Router α}
    {literals : List (String × Router α)}
    {capture : Option (String × Router α)}
    {rules : List α}
    (h : capture.getD (name, empty) = (name, child))
    (other : String)
    (rest : Pattern) :
    rulesAt (.capture other :: rest) (node literals capture rules) =
      if name = other then rulesAt rest child else [] := by
  cases capture with
  | none =>
      cases h
      rw [rulesAt_empty, ite_self]
      rfl
  | some edge =>
      obtain rfl : edge = (name, child) := h
      rfl

/--
What entering a rule does to a tree: nodes are rebuilt along the pattern, with
empty trees where it leaves the tree, and the rule is put among those at its end.
A variable on the way keeps the name that it has.
-/
inductive Enters
    (place : α → List α → List α)
    (rule : α) :
    Pattern → Router α → Router α → Prop
  | here
      (literals : List (String × Router α))
      (capture : Option (String × Router α))
      (rules : List α) :
      Enters place rule []
        (node literals capture rules)
        (node literals capture (place rule rules))
  | literal
      {label : String}
      {rest : Pattern}
      {child : Router α}
      (literals : List (String × Router α))
      (capture : Option (String × Router α))
      (rules : List α)
      (below : Enters place rule rest ((literals.lookup label).getD empty) child) :
      Enters place rule (.literal label :: rest)
        (node literals capture rules)
        (node (setLiteral label child literals) capture rules)
  | capture
      {name : String}
      {rest : Pattern}
      {old child : Router α}
      (literals : List (String × Router α))
      (capture : Option (String × Router α))
      (rules : List α)
      (hedge : capture.getD (name, empty) = (name, old))
      (below : Enters place rule rest old child) :
      Enters place rule (.capture name :: rest)
        (node literals capture rules)
        (node literals (some (name, child)) rules)

/-- Where a rule could be entered, it was entered segment by segment. -/
theorem enters_of_insert
    {place : α → List α → List α}
    {rule : α}
    {p : Pattern}
    {t t' : Router α}
    (h : insert place rule p t = .ok t') :
    Enters place rule p t t' := by
  induction p generalizing t t' with
  | nil =>
      obtain ⟨literals, capture, rules⟩ := t
      cases h
      exact .here literals capture rules
  | cons s p ih =>
      obtain ⟨literals, capture, rules⟩ := t
      cases s with
      | literal label =>
          rw [insert] at h
          split at h
          · cases h
          · next child hchild =>
              cases h
              exact .literal literals capture rules (ih hchild)
      | capture name =>
          rw [insert] at h
          rcases hedge : capture.getD (name, empty) with ⟨existing, old⟩
          rw [hedge] at h
          dsimp only at h
          split at h
          · next hname =>
              subst hname
              split at h
              · cases h
              · next child hchild =>
                  cases h
                  exact .capture literals capture rules hedge (ih hchild)
          · cases h

/-- Entering a rule puts it among the rules under its pattern and leaves the others alone. -/
theorem rulesAt_insert
    {place : α → List α → List α}
    {rule : α}
    {p : Pattern}
    {t t' : Router α}
    (h : insert place rule p t = .ok t')
    (q : Pattern) :
    rulesAt q t' = if q = p then place rule (rulesAt q t) else rulesAt q t := by
  replace h := enters_of_insert h
  induction h generalizing q with
  | here literals capture rules =>
      cases q with
      | nil =>
          rfl
      | cons s q =>
          rw [if_neg (by simp)]
          cases s <;> rfl
  | @literal label p child literals capture rules below ih =>
      rcases q with _ | ⟨other | other, q⟩
      · rfl
      · rw [rulesAt_literal, rulesAt_literal, lookup_setLiteral]
        by_cases hother : other = label
        · subst hother
          simpa using ih q
        · simp [hother]
      · rw [if_neg (by simp)]
        rfl
  | @capture name p old child literals capture rules hedge below ih =>
      rcases q with _ | ⟨other | other, q⟩
      · rfl
      · rw [if_neg (by simp)]
        rfl
      · rw [rulesAt_capture hedge, rulesAt_capture rfl]
        by_cases hother : name = other
        · subst hother
          simpa using ih q
        · simp [hother, Ne.symm hother]

/-- A path with a head goes the literal way, and the variable way if that leads nowhere. -/
theorem route?_cons
    (head : String)
    (rest : List String)
    (literals : List (String × Router α))
    (capture : Option (String × Router α))
    (rules : List α) :
    route? (head :: rest) (node literals capture rules) =
      (((literals.lookup head).bind (route? rest)).or
        (capture.bind fun edge =>
          (route? rest edge.2).map fun hit => ((edge.1, head) :: hit.1, hit.2))) := by
  rw [route?.eq_def]
  dsimp only
  cases literals.lookup head with
  | none =>
      cases capture with
      | none =>
          rfl
      | some edge =>
          simp only [Option.bind_none, Option.none_or, Option.bind_some]
          cases route? rest edge.2 <;> rfl
  | some child =>
      simp only [Option.bind_some]
      cases route? rest child with
      | some hit =>
          rfl
      | none =>
          cases capture with
          | none =>
              rfl
          | some edge =>
              simp only [Option.none_or, Option.bind_some]
              cases route? rest edge.2 <;> rfl

/-- A pattern is the first in a router of those that fit the segments of a path. -/
structure First
    (t : Router α)
    (segments : List String)
    (p : Pattern) :
    Prop where
  fits : p.fits segments = true
  holds : rulesAt p t ≠ []
  before : ∀ q, q.fits segments = true → rulesAt q t ≠ [] → q = p ∨ p.ranks < q.ranks

theorem exists_of_fits_cons
    {q : Pattern}
    {head : String}
    {rest : List String}
    (h : q.fits (head :: rest) = true) :
    ∃ s q', q = s :: q' ∧ s.fits head = true ∧ Pattern.fits q' rest = true := by
  cases q with
  | nil =>
      cases h
  | cons s q' =>
      obtain ⟨hhead, hrest⟩ := Bool.and_eq_true_iff.1 h
      exact ⟨s, q', rfl, hhead, hrest⟩

section Node

variable
  {literals : List (String × Router α)}
  {capture : Option (String × Router α)}
  {rules : List α}
  {head : String}
  {rest : List String}

/-- What is first on the literal way is first. -/
theorem First.onLiteralWay
    {p : Pattern}
    (h : First ((literals.lookup head).getD empty) rest p) :
    First (node literals capture rules) (head :: rest) (.literal head :: p) := by
  refine ⟨?_, ?_, ?_⟩
  · simp [Pattern.fits, Segment.fits, h.fits]
  · rw [rulesAt_literal]
    exact h.holds
  · intro q hfits hholds
    obtain ⟨s, q, rfl, hhead, hrest⟩ := exists_of_fits_cons hfits
    cases s with
    | literal text =>
        obtain rfl : text = head := by simpa [Segment.fits] using hhead
        rw [rulesAt_literal] at hholds
        rcases h.before q hrest hholds with rfl | hlt
        · exact .inl rfl
        · exact .inr (List.Lex.cons hlt)
    | capture name =>
        exact .inr (List.Lex.rel Nat.zero_lt_one)

/-- Where nothing lies on the literal way, what is first on the variable way is first. -/
theorem First.onVariableWay
    {name : String}
    {child : Router α}
    {p : Pattern}
    (hmissed : ∀ q, Pattern.fits q rest = true →
      rulesAt q ((literals.lookup head).getD empty) = [])
    (h : First child rest p) :
    First (node literals (some (name, child)) rules) (head :: rest) (.capture name :: p) := by
  refine ⟨?_, ?_, ?_⟩
  · simp [Pattern.fits, Segment.fits, h.fits]
  · simpa [rulesAt] using h.holds
  · intro q hfits hholds
    obtain ⟨s, q, rfl, hhead, hrest⟩ := exists_of_fits_cons hfits
    cases s with
    | literal text =>
        obtain rfl : text = head := by simpa [Segment.fits] using hhead
        rw [rulesAt_literal] at hholds
        exact absurd (hmissed q hrest) hholds
    | capture other =>
        rw [rulesAt_capture rfl] at hholds
        split at hholds
        · next hname =>
            subst hname
            rcases h.before q hrest hholds with rfl | hlt
            · exact .inl rfl
            · exact .inr (List.Lex.cons hlt)
        · exact absurd rfl hholds

/-- A path that leads nowhere on either way leads nowhere. -/
theorem rulesAt_node_eq_nil
    (hliteral : ∀ q, Pattern.fits q rest = true →
      rulesAt q ((literals.lookup head).getD empty) = [])
    (hcapture : ∀ name child, capture = some (name, child) →
      ∀ q, Pattern.fits q rest = true → rulesAt q child = [])
    (q : Pattern)
    (hfits : q.fits (head :: rest) = true) :
    rulesAt q (node literals capture rules) = [] := by
  obtain ⟨s, q, rfl, hhead, hrest⟩ := exists_of_fits_cons hfits
  cases s with
  | literal text =>
      obtain rfl : text = head := by simpa [Segment.fits] using hhead
      rw [rulesAt_literal]
      exact hliteral q hrest
  | capture other =>
      cases capture with
      | none =>
          rfl
      | some edge =>
          obtain ⟨name, child⟩ := edge
          rw [rulesAt]
          split
          · exact hcapture name child rfl q hrest
          · rfl

end Node

/-- The ways in which a path is routed. -/
inductive Routed
    (t : Router α)
    (segments : List String) :
    Option (Bindings × List α) → Prop
  | missed
      (h : ∀ p, Pattern.fits p segments = true → rulesAt p t = []) :
      Routed t segments none
  | found
      {p : Pattern}
      (hfirst : First t segments p) :
      Routed t segments (some (p.bind segments, rulesAt p t))

/-- The variable way of a node leads on, and binds the variable. -/
theorem Routed.onVariableWay
    {literals : List (String × Router α)}
    {rules : List α}
    {name head : String}
    {child : Router α}
    {rest : List String}
    {way : Option (Bindings × List α)}
    (hmissed : ∀ q, Pattern.fits q rest = true →
      rulesAt q ((literals.lookup head).getD empty) = [])
    (h : Routed child rest way) :
    Routed (node literals (some (name, child)) rules) (head :: rest)
      (way.map fun hit => ((name, head) :: hit.1, hit.2)) := by
  cases h with
  | missed hnone =>
      refine .missed (rulesAt_node_eq_nil hmissed ?_)
      rintro name' child' ⟨⟩
      exact hnone
  | @found p hfirst =>
      have hfound : Routed (node literals (some (name, child)) rules) (head :: rest) _ :=
        .found (hfirst.onVariableWay hmissed)
      simp only [rulesAt, if_true] at hfound
      exact hfound

/-- What the literal way of a node leads to, the node leads to. -/
theorem Routed.onLiteralWay
    {literals : List (String × Router α)}
    {capture : Option (String × Router α)}
    {rules : List α}
    {head : String}
    {rest : List String}
    {hit : Bindings × List α}
    (h : Routed ((literals.lookup head).getD empty) rest (some hit)) :
    Routed (node literals capture rules) (head :: rest) (some hit) := by
  cases h with
  | @found p hfirst =>
      have hfound : Routed (node literals capture rules) (head :: rest) _ :=
        .found hfirst.onLiteralWay
      rw [rulesAt_literal] at hfound
      exact hfound

/-- A path leads to the rules under the first pattern that fits it, if one does. -/
theorem routed_route?
    (segments : List String)
    (t : Router α) :
    Routed t segments (route? segments t) := by
  induction segments generalizing t with
  | nil =>
      obtain ⟨literals, capture, rules⟩ := t
      -- only the empty pattern fits
      have honly : ∀ q : Pattern, q.fits [] = true → q = [] := by
        intro q hq
        cases q with
        | nil =>
            rfl
        | cons s q =>
            cases hq
      rw [route?]
      cases rules with
      | nil =>
          refine .missed fun q hq => ?_
          rw [honly q hq]
          rfl
      | cons rule rules =>
          have hfirst : First (node literals capture (rule :: rules)) [] [] :=
            ⟨rfl, List.cons_ne_nil rule rules, fun q hq _ => .inl (honly q hq)⟩
          exact .found hfirst
  | cons head rest ih =>
      obtain ⟨literals, capture, rules⟩ := t
      have hliteral : Routed ((literals.lookup head).getD empty) rest
          ((literals.lookup head).bind (route? rest)) := by
        cases literals.lookup head with
        | none =>
            exact .missed fun q _ => rulesAt_empty q
        | some child =>
            exact ih child
      rw [route?_cons]
      generalize (literals.lookup head).bind (route? rest) = way at hliteral ⊢
      cases way with
      | some hit =>
          exact hliteral.onLiteralWay
      | none =>
          rcases hliteral with hmissed | _
          cases capture with
          | none =>
              refine .missed (rulesAt_node_eq_nil hmissed ?_)
              rintro name child ⟨⟩
          | some edge =>
              exact (ih edge.2).onVariableWay hmissed

end Router
end DocumentStore
