import DocumentStore.Access.Guard
import DocumentStore.Proofs.Access.Evaluation

/-!
# What reusable readings depend on

A reading that is marked as reusable was taken from the caller, the tenant and
the path alone.  In any other circumstances with the same caller and tenant,
evaluation goes the same way and ends in the same reading, whatever the
document, the payload and the other documents there are.  Such a reading has
asked about no path.

The property goes up from readings to the rules that are tried one after the
other, and to the ruling on a path.
-/

namespace DocumentStore

/-- Circumstances with the same caller and the same tenant. -/
structure AccessContext.Alike (ctx other : AccessContext) : Prop where
  caller : other.caller = ctx.caller
  tenant : other.tenant = ctx.tenant

namespace Reading

/-- If a reading is reusable, then it asked about nothing and is found again. -/
def Recurs (r other : Reading) : Prop :=
  r.reusable = true → r.asked = [] ∧ other = r

theorem Recurs.fixed (value : Option Json) :
    Recurs (.fixed value) (.fixed value) :=
  fun _ => ⟨rfl, rfl⟩

theorem Recurs.of_not_reusable
    {r other : Reading}
    (h : r.reusable = false) :
    Recurs r other := by
  intro hreusable
  rw [h] at hreusable
  cases hreusable

/-- Going on in ways that recur, from a reading that recurs, ends in one that recurs. -/
theorem Recurs.andThen
    {r other : Reading}
    {next next' : Json → Reading}
    (h : Recurs r other)
    (hnext : ∀ v, Recurs (next v) (next' v)) :
    Recurs (r.andThen next) (other.andThen next') := by
  intro hreusable
  cases hvalue : r.value with
  | none =>
      simp only [Reading.andThen, hvalue] at hreusable ⊢
      obtain ⟨hasked, rfl⟩ := h hreusable
      exact ⟨hasked, by rw [hvalue]⟩
  | some v =>
      simp only [Reading.andThen, hvalue, Bool.and_eq_true] at hreusable ⊢
      obtain ⟨hasked, rfl⟩ := h hreusable.1
      obtain ⟨hasked', hsame⟩ := hnext v hreusable.2
      simp only [hvalue, hsame, hasked, hasked', List.append_nil, and_self]

end Reading

namespace Builtin

variable {ctx other : AccessContext}

theorem asked_of_not_readsStore
    {b : Builtin}
    (h : b.readsStore = false)
    (ctx : AccessContext)
    (values : List Json) :
    b.asked ctx values = [] := by
  cases b with
  | «exists» => cases h
  | _ => rfl

/-- A function that does not read the store depends on the caller alone. -/
theorem call?_of_alike
    {b : Builtin}
    (h : b.readsStore = false)
    (halike : ctx.Alike other)
    (values : List Json) :
    b.call? other values = b.call? ctx values := by
  unfold call?
  rw [halike.caller]
  split
  · rfl
  · rfl
  · rfl
  · rfl
  · cases h
  · rfl
  · rfl

end Builtin

namespace Condition

variable {ctx other : AccessContext}

/-- A variable that is read as reusable has the same value for the same caller and tenant. -/
theorem valueOf_recurs
    (halike : ctx.Alike other)
    (bindings : Bindings)
    (root : String)
    (names : List String) :
    (valueOf ctx bindings root names).Recurs (valueOf other bindings root names) := by
  unfold valueOf
  rw [halike.caller, halike.tenant]
  by_cases hauth : root = "auth"
  · rw [if_pos hauth, if_pos hauth]
    cases ctx.caller with
    | none => exact .fixed _
    | some claims => exact .fixed _
  rw [if_neg hauth, if_neg hauth]
  by_cases hresource : root = "resource"
  · rw [if_pos hresource]
    cases ctx.resource with
    | none => exact .of_not_reusable rfl
    | some doc => exact .of_not_reusable rfl
  rw [if_neg hresource, if_neg hresource]
  by_cases hrequest : root = "request"
  · rw [if_pos hrequest, if_pos hrequest]
    by_cases htenant : names = ["tenant"]
    · rw [if_pos htenant, if_pos htenant]
      exact .fixed _
    · rw [if_neg htenant]
      exact .of_not_reusable rfl
  rw [if_neg hrequest, if_neg hrequest]
  cases bindings.lookup root with
  | none => exact .fixed _
  | some value => exact .fixed _

/-- A call that does not read the store recurs if its arguments do. -/
theorem callWith_recurs
    (halike : ctx.Alike other)
    (builtin : Builtin)
    {r r' : Reading}
    (h : r.Recurs r') :
    (callWith ctx builtin r).Recurs (callWith other builtin r') := by
  unfold callWith
  cases hreads : builtin.readsStore with
  | true => exact .of_not_reusable (Bool.and_false _)
  | false =>
      simp only [Bool.not_false, Bool.and_true]
      refine h.andThen fun v => ?_
      split
      · next values =>
          rw [Builtin.call?_of_alike hreads halike, Builtin.asked_of_not_readsStore hreads,
            Builtin.asked_of_not_readsStore hreads]
          exact .fixed _
      · exact .fixed _

/-- A condition that is read as reusable is read the same for the same caller and tenant. -/
theorem eval_recurs
    (halike : ctx.Alike other)
    (bindings : Bindings)
    (c : Condition) :
    (c.eval ctx bindings).Recurs (c.eval other bindings) := by
  have hsides : SideBySide Reading.Recurs bindings ctx other :=
    { kept := ⟨.fixed, .andThen⟩
      var := valueOf_recurs halike bindings
      call := callWith_recurs halike }
  exact hsides.eval c

end Condition

variable {ctx other : AccessContext}

/-- Rules that are tried with a reusable ruling end in it for the same caller and tenant. -/
theorem tryRules_of_alike
    (halike : ctx.Alike other)
    (bindings : Bindings)
    (kind : AccessKind)
    (governed : Bool)
    (rules : List Rule)
    (h : (tryRules ctx bindings kind governed rules).reusable = true) :
    (tryRules ctx bindings kind governed rules).asked = [] ∧
      tryRules other bindings kind governed rules = tryRules ctx bindings kind governed rules := by
  induction rules generalizing governed with
  | nil =>
      exact ⟨rfl, rfl⟩
  | cons rule rest ih =>
      have hrecurs := Condition.eval_recurs halike bindings rule.condition
      by_cases hgoverns : rule.governs kind = true
      · cases hholds : holds (rule.condition.eval ctx bindings).value with
        | true =>
            simp only [tryRules, hgoverns, hholds, if_true] at h ⊢
            obtain ⟨hasked, hsame⟩ := hrecurs h
            simp only [hsame, hholds, hasked, if_true, and_self]
        | false =>
            simp only [tryRules, hgoverns, hholds, if_true, Bool.false_eq_true, if_false,
              Bool.and_eq_true] at h ⊢
            obtain ⟨hasked, hsame⟩ := hrecurs h.1
            obtain ⟨hasked', hsame'⟩ := ih true h.2
            simp only [hsame, hholds, hasked, hasked', hsame', Bool.false_eq_true, if_false,
              List.append_nil, and_self]
      · simp only [tryRules, if_neg hgoverns] at h ⊢
        exact ih governed h

/-- A reusable ruling on a path is the ruling for the same caller and tenant, and asks nothing. -/
theorem RuleSet.decide_of_alike
    (set : RuleSet)
    (kind : AccessKind)
    (segments : List String)
    (halike : ctx.Alike other)
    (h : (set.decide kind segments ctx).reusable = true) :
    (set.decide kind segments ctx).asked = [] ∧
      set.decide kind segments other = set.decide kind segments ctx := by
  unfold decide at h ⊢
  cases hroute : set.router.route? segments with
  | none =>
      exact ⟨rfl, rfl⟩
  | some found =>
      simp only [hroute] at h
      exact tryRules_of_alike halike found.1 kind false found.2 h

end DocumentStore
