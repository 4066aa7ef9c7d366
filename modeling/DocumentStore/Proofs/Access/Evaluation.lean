import DocumentStore.Access.Condition.Eval

/-!
# Two evaluations side by side

A condition is evaluated in two circumstances.  If variables and calls are read in
related ways, and going on keeps readings related, then the condition is read in
related ways.  The induction over conditions is made here once, for any relation;
what the relation says of two readings is left to its uses.
-/

namespace DocumentStore

/-- A relation that readings from nothing have with themselves, and that going on keeps. -/
structure Reading.Kept (R : Reading → Reading → Prop) : Prop where
  fixed : ∀ value, R (.fixed value) (.fixed value)
  andThen :
    ∀ {r other : Reading} {next next' : Json → Reading},
      R r other → (∀ v, R (next v) (next' v)) → R (r.andThen next) (other.andThen next')

namespace Condition

/-- The reading of a call, given that of its arguments. -/
def callWith
    (ctx : AccessContext)
    (builtin : Builtin)
    (args : Reading) :
    Reading :=
  let r :=
    args.andThen fun
      | .array values => ⟨builtin.call? ctx values, builtin.asked ctx values, true⟩
      | _ => .fixed none
  { r with reusable := r.reusable && !builtin.readsStore }

theorem eval_call
    (ctx : AccessContext)
    (bindings : Bindings)
    (builtin : Builtin)
    (args : List Condition) :
    (call builtin args).eval ctx bindings = callWith ctx builtin (evalAll ctx bindings args) :=
  rfl

/-- Circumstances in which variables and calls are read in related ways. -/
structure SideBySide
    (R : Reading → Reading → Prop)
    (bindings : Bindings)
    (ctx other : AccessContext) :
    Prop where
  kept : Reading.Kept R
  var : ∀ root names, R (valueOf ctx bindings root names) (valueOf other bindings root names)
  call : ∀ builtin {r r' : Reading}, R r r' → R (callWith ctx builtin r) (callWith other builtin r')

section

variable
  {R : Reading → Reading → Prop}
  {bindings : Bindings}
  {ctx other : AccessContext}
  (h : SideBySide R bindings ctx other)

include h

theorem SideBySide.truth (v : Json) :
    R (Condition.truth v) (Condition.truth v) := by
  cases v <;> exact h.kept.fixed _

mutual

/-- A condition is read in related ways. -/
theorem SideBySide.eval (c : Condition) :
    R (c.eval ctx bindings) (c.eval other bindings) := by
  cases c with
  | literal value =>
      exact h.kept.fixed _
  | list items =>
      rw [Condition.eval, Condition.eval]
      exact h.kept.andThen (SideBySide.evalAll items) fun _ => h.kept.fixed _
  | var root names =>
      rw [Condition.eval, Condition.eval]
      exact h.var root names
  | not inner =>
      rw [Condition.eval, Condition.eval]
      refine h.kept.andThen (SideBySide.eval inner) fun v => ?_
      split <;> exact h.kept.fixed _
  | and left right =>
      rw [Condition.eval, Condition.eval]
      refine h.kept.andThen (SideBySide.eval left) fun v => ?_
      split
      · exact h.kept.andThen (SideBySide.eval right) h.truth
      · exact h.kept.fixed _
      · exact h.kept.fixed _
  | or left right =>
      rw [Condition.eval, Condition.eval]
      refine h.kept.andThen (SideBySide.eval left) fun v => ?_
      split
      · exact h.kept.fixed _
      · exact h.kept.andThen (SideBySide.eval right) h.truth
      · exact h.kept.fixed _
  | compare op left right =>
      rw [Condition.eval, Condition.eval]
      refine h.kept.andThen (SideBySide.eval left) fun a => ?_
      exact h.kept.andThen (SideBySide.eval right) fun b => h.kept.fixed _
  | isIn needle haystack =>
      rw [Condition.eval, Condition.eval]
      refine h.kept.andThen (SideBySide.eval needle) fun a => ?_
      exact h.kept.andThen (SideBySide.eval haystack) fun b => h.kept.fixed _
  | add left right =>
      rw [Condition.eval, Condition.eval]
      refine h.kept.andThen (SideBySide.eval left) fun a => ?_
      exact h.kept.andThen (SideBySide.eval right) fun b => h.kept.fixed _
  | call builtin args =>
      rw [eval_call, eval_call]
      exact h.call builtin (SideBySide.evalAll args)

/-- The same for conditions read one after the other. -/
theorem SideBySide.evalAll (items : List Condition) :
    R (Condition.evalAll ctx bindings items) (Condition.evalAll other bindings items) := by
  cases items with
  | nil =>
      exact h.kept.fixed _
  | cons item rest =>
      rw [Condition.evalAll, Condition.evalAll]
      refine h.kept.andThen (SideBySide.eval item) fun value => ?_
      refine h.kept.andThen (SideBySide.evalAll rest) fun v => ?_
      split <;> exact h.kept.fixed _

end

end

end Condition
end DocumentStore
