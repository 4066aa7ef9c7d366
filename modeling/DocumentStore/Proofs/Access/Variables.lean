import DocumentStore.Proofs.Access.Router
import Mathlib.Data.List.Basic

/-!
# The variables of a router

Behind every chain of segments a router has one variable at most.  Entering a
pattern gives it the variables of that pattern, each behind the segments before
it, and fails just when one of them has another name there.  So the patterns
that can be entered one after the other are those of which no two agree up to a
variable and then call it differently, in whatever order they come.
-/

namespace DocumentStore

universe u

namespace Pattern

/-- A pattern has a variable right behind some segments. -/
def HasVariable
    (p q : Pattern)
    (name : String) :
    Prop :=
  q ++ [.capture name] <+: p

/-- Two patterns agree on some segments, and then have variables with different names. -/
def Clashes (p p' : Pattern) : Prop :=
  ∃ k name other,
    p.take k = p'.take k ∧
      p[k]? = some (.capture name) ∧ p'[k]? = some (.capture other) ∧ name ≠ other

theorem hasVariable_iff
    {p q : Pattern}
    {name : String} :
    p.HasVariable q name ↔ p.take q.length = q ∧ p[q.length]? = some (.capture name) := by
  constructor
  · rintro ⟨rest, rfl⟩
    simp
  · rintro ⟨htake, hget⟩
    obtain ⟨hlt, hget⟩ := List.getElem?_eq_some_iff.1 hget
    refine ⟨p.drop (q.length + 1), ?_⟩
    have hwhole := List.take_append_drop q.length p
    rw [htake, List.drop_eq_getElem_cons hlt, hget] at hwhole
    rw [List.append_assoc, List.singleton_append]
    exact hwhole

/-- Patterns clash when they have variables with different names behind the same segments. -/
theorem clashes_iff
    {p p' : Pattern} :
    p.Clashes p' ↔
      ∃ q name other, p.HasVariable q name ∧ p'.HasVariable q other ∧ name ≠ other := by
  simp only [hasVariable_iff]
  constructor
  · rintro ⟨k, name, other, htake, hname, hother, hne⟩
    have hlength : ∀ {r : Pattern} {s : Segment}, r[k]? = some s → (r.take k).length = k := by
      intro r s h
      obtain ⟨hlt, -⟩ := List.getElem?_eq_some_iff.1 h
      exact List.length_take_of_le (Nat.le_of_lt hlt)
    refine ⟨p.take k, name, other, ?_, ?_, hne⟩
    · rw [hlength hname]
      exact ⟨rfl, hname⟩
    · rw [htake, hlength hother]
      exact ⟨rfl, hother⟩
  · rintro ⟨q, name, other, ⟨htake, hname⟩, ⟨htake', hother⟩, hne⟩
    exact ⟨q.length, name, other, htake.trans htake'.symm, hname, hother, hne⟩

theorem not_clashes_self (p : Pattern) :
    ¬ p.Clashes p := by
  rintro ⟨k, name, other, -, hname, hother, hne⟩
  rw [hname] at hother
  cases hother
  exact hne rfl

theorem Clashes.symm
    {p p' : Pattern}
    (h : p.Clashes p') :
    p'.Clashes p := by
  obtain ⟨k, name, other, htake, hname, hother, hne⟩ := h
  exact ⟨k, other, name, htake.symm, hother, hname, hne.symm⟩

@[simp] theorem not_hasVariable_nil
    (q : Pattern)
    (name : String) :
    ¬ HasVariable [] q name := by
  simp [HasVariable]

@[simp] theorem hasVariable_cons_nil
    (s : Segment)
    (p : Pattern)
    (name : String) :
    HasVariable (s :: p) [] name ↔ s = .capture name := by
  simp [HasVariable, eq_comm]

@[simp] theorem hasVariable_cons_cons
    (s s' : Segment)
    (p q : Pattern)
    (name : String) :
    HasVariable (s :: p) (s' :: q) name ↔ s' = s ∧ HasVariable p q name := by
  simp [HasVariable, List.cons_prefix_cons]

end Pattern

namespace Router

variable {α : Type u}

/-- The name of the variable that a tree has right behind some segments, if it has one. -/
def nameAt? : Pattern → Router α → Option String
  | [], node _ capture _ => capture.map Prod.fst
  | .literal label :: rest, node literals _ _ =>
      match literals.lookup label with
      | some child => nameAt? rest child
      | none => none
  | .capture name :: rest, node _ capture _ =>
      match capture with
      | some (existing, child) => if existing = name then nameAt? rest child else none
      | none => none

@[simp] theorem nameAt?_empty (q : Pattern) :
    nameAt? q (empty : Router α) = none := by
  cases q with
  | nil =>
      rfl
  | cons s rest =>
      cases s <;> rfl

/-- The variable behind a literal, given the child of the literal. -/
theorem nameAt?_literal
    (label : String)
    (rest : Pattern)
    (literals : List (String × Router α))
    (capture : Option (String × Router α))
    (rules : List α) :
    nameAt? (.literal label :: rest) (node literals capture rules) =
      nameAt? rest ((literals.lookup label).getD empty) := by
  rw [nameAt?]
  cases literals.lookup label with
  | none =>
      exact (nameAt?_empty rest).symm
  | some child =>
      rfl

/-- The variable behind another one, given the child of that one or else the empty tree. -/
theorem nameAt?_capture
    {name : String}
    {child : Router α}
    {literals : List (String × Router α)}
    {capture : Option (String × Router α)}
    {rules : List α}
    (h : capture.getD (name, empty) = (name, child))
    (other : String)
    (rest : Pattern) :
    nameAt? (.capture other :: rest) (node literals capture rules) =
      if name = other then nameAt? rest child else none := by
  cases capture with
  | none =>
      cases h
      rw [nameAt?_empty, ite_self]
      rfl
  | some edge =>
      obtain rfl : edge = (name, child) := h
      rfl

/-- A tree has a variable, if any, with the name that a pattern gives it. -/
def Agrees
    (t : Router α)
    (p : Pattern) :
    Prop :=
  ∀ q name existing, p.HasVariable q name → nameAt? q t = some existing → existing = name

/-- A tree agrees with a pattern that begins with a literal as its child does with the rest. -/
theorem agrees_literal_iff
    {label : String}
    {p : Pattern}
    {literals : List (String × Router α)}
    {capture : Option (String × Router α)}
    {rules : List α} :
    (node literals capture rules).Agrees (.literal label :: p) ↔
      ((literals.lookup label).getD empty).Agrees p := by
  constructor
  · intro h q name existing hvariable hname
    refine h (.literal label :: q) name existing ?_ ?_
    · exact (Pattern.hasVariable_cons_cons _ _ _ _ _).2 ⟨rfl, hvariable⟩
    · rwa [nameAt?_literal]
  · intro h q name existing hvariable hname
    cases q with
    | nil => simp at hvariable
    | cons s q =>
        obtain ⟨rfl, hbehind⟩ := (Pattern.hasVariable_cons_cons _ _ _ _ _).1 hvariable
        rw [nameAt?_literal] at hname
        exact h q name existing hbehind hname

/--
A tree agrees with a pattern that begins with a variable if its own there, if
it has one, has that name, and its child agrees with the rest.
-/
theorem agrees_capture_iff
    {name existing : String}
    {p : Pattern}
    {literals : List (String × Router α)}
    {capture : Option (String × Router α)}
    {child : Router α}
    {rules : List α}
    (hedge : capture.getD (name, empty) = (existing, child)) :
    (node literals capture rules).Agrees (.capture name :: p) ↔
      existing = name ∧ child.Agrees p := by
  constructor
  · intro h
    obtain rfl : existing = name := by
      cases capture with
      | none =>
          cases hedge
          rfl
      | some edge =>
          obtain rfl : edge = (existing, child) := hedge
          exact h [] name existing (by simp) rfl
    refine ⟨rfl, fun q other found hvariable hname => ?_⟩
    refine h (.capture existing :: q) other found ?_ ?_
    · exact (Pattern.hasVariable_cons_cons _ _ _ _ _).2 ⟨rfl, hvariable⟩
    · rwa [nameAt?_capture hedge, if_pos rfl]
  · rintro ⟨rfl, h⟩ q other found hvariable hname
    cases q with
    | nil =>
        rw [Pattern.hasVariable_cons_nil] at hvariable
        cases hvariable
        cases capture with
        | none => cases hname
        | some edge =>
            obtain rfl : edge = (existing, child) := hedge
            exact (Option.some.inj hname).symm
    | cons s q =>
        obtain ⟨rfl, hbehind⟩ := (Pattern.hasVariable_cons_cons _ _ _ _ _).1 hvariable
        rw [nameAt?_capture hedge, if_pos rfl] at hname
        exact h q other found hbehind hname

/-- A rule can be entered under the patterns that the tree agrees with. -/
theorem exists_insert_iff
    {place : α → List α → List α}
    {rule : α}
    {p : Pattern}
    {t : Router α} :
    (∃ t', insert place rule p t = .ok t') ↔ t.Agrees p := by
  induction p generalizing t with
  | nil =>
      obtain ⟨literals, capture, rules⟩ := t
      refine iff_of_true ⟨_, rfl⟩ fun q name existing hvariable => ?_
      exact absurd hvariable (Pattern.not_hasVariable_nil q name)
  | cons s p ih =>
      obtain ⟨literals, capture, rules⟩ := t
      cases s with
      | literal label =>
          rw [agrees_literal_iff, ← ih, insert]
          cases insert place rule p ((literals.lookup label).getD empty) <;> simp
      | capture name =>
          rcases hedge : capture.getD (name, empty) with ⟨existing, child⟩
          rw [agrees_capture_iff hedge, ← ih, insert, hedge]
          dsimp only
          by_cases hname : existing = name
          · rw [if_pos hname]
            cases insert place rule p child <;> simp [hname]
          · rw [if_neg hname]
            simp [hname]

/-- Entering a rule adds the variables of its pattern, and no others. -/
theorem nameAt?_insert
    {place : α → List α → List α}
    {rule : α}
    {p : Pattern}
    {t t' : Router α}
    (h : insert place rule p t = .ok t')
    (q : Pattern)
    (name : String) :
    nameAt? q t' = some name ↔ nameAt? q t = some name ∨ p.HasVariable q name := by
  replace h := enters_of_insert h
  induction h generalizing q with
  | here literals capture rules =>
      have hsame : nameAt? q (node literals capture (place rule rules)) =
          nameAt? q (node literals capture rules) := by
        cases q with
        | nil => rfl
        | cons s q => cases s <;> rfl
      simp [hsame]
  | @literal label p child literals capture rules below ih =>
      rcases q with _ | ⟨other | other, q⟩
      · simp [nameAt?]
      · rw [nameAt?_literal, nameAt?_literal, lookup_setLiteral]
        by_cases hother : other = label
        · subst hother
          simpa using ih q
        · simp [hother]
      · simp [nameAt?]
  | @capture label p old child literals capture rules hedge below ih =>
      rcases q with _ | ⟨other | other, q⟩
      · cases capture with
        | none => simp [nameAt?]
        | some edge =>
            obtain rfl : edge = (label, old) := hedge
            simp [nameAt?]
      · simp [nameAt?]
      · rw [nameAt?_capture hedge, nameAt?_capture rfl]
        by_cases hother : label = other
        · subst hother
          simpa using ih q
        · simp [hother, Ne.symm hother]

/-- A tree has just the variables of some patterns. -/
def HasVariablesOf
    (t : Router α)
    (ps : List Pattern) :
    Prop :=
  ∀ q name, nameAt? q t = some name ↔ ∃ p ∈ ps, p.HasVariable q name

theorem hasVariablesOf_empty :
    (empty : Router α).HasVariablesOf [] := by
  intro q name
  simp

/-- A tree goes on to have just the variables of the patterns that were entered. -/
theorem HasVariablesOf.insert
    {place : α → List α → List α}
    {rule : α}
    {p : Pattern}
    {t t' : Router α}
    {ps : List Pattern}
    (h : t.HasVariablesOf ps)
    (hinsert : t.insert place rule p = .ok t') :
    t'.HasVariablesOf (p :: ps) := by
  intro q name
  rw [nameAt?_insert hinsert, h q name, List.exists_mem_cons_iff, or_comm]

/-- A tree with the variables of some patterns agrees with those that clash with none of them. -/
theorem HasVariablesOf.agrees_iff
    {t : Router α}
    {ps : List Pattern}
    (h : t.HasVariablesOf ps)
    (p : Pattern) :
    t.Agrees p ↔ ∀ p' ∈ ps, ¬ p'.Clashes p := by
  constructor
  · intro hagrees p' hp' hclash
    obtain ⟨q, existing, name, hexisting, hname, hne⟩ := Pattern.clashes_iff.1 hclash
    exact hne (hagrees q name existing hname ((h q existing).2 ⟨p', hp', hexisting⟩))
  · intro hnone q name existing hname hexisting
    obtain ⟨p', hp', hvariable⟩ := (h q existing).1 hexisting
    refine Decidable.byContradiction fun hne => ?_
    exact hnone p' hp' (Pattern.clashes_iff.2 ⟨q, existing, name, hvariable, hname, hne⟩)

end Router
end DocumentStore
