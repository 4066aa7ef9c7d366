import DocumentStore.Proofs.Access.Guard

/-!
# What a ruling asks of the store

The other documents of a tenant enter a ruling by the questions of its conditions
only, and the ruling notes the paths that it asked about.  So where all these
questions have the same answers, evaluation goes the same way and ends in the same
ruling, whatever other documents have come or gone.  The property goes up from
readings to rules and rulings.
-/

namespace DocumentStore

/-- The same circumstances with other answers to what may be asked. -/
def AccessContext.answering
    (ctx : AccessContext)
    (known : String → Bool) :
    AccessContext :=
  { ctx with lookup := some known }

namespace Reading

variable {known known' : String → Bool}

/-- Where the questions of a reading have the same answers, it is found again. -/
def Settled
    (known known' : String → Bool)
    (r other : Reading) :
    Prop :=
  (∀ path ∈ r.asked, known' path = known path) → other = r

theorem Settled.refl (r : Reading) :
    Settled known known' r r :=
  fun _ => rfl

/-- Going on in ways that are settled, from a reading that is settled, ends in one that is settled. -/
theorem Settled.andThen
    {r other : Reading}
    {next next' : Json → Reading}
    (h : Settled known known' r other)
    (hnext : ∀ v, Settled known known' (next v) (next' v)) :
    Settled known known' (r.andThen next) (other.andThen next') := by
  intro hsame
  cases hvalue : r.value with
  | none =>
      simp only [Reading.andThen, hvalue] at hsame ⊢
      obtain rfl := h hsame
      rw [hvalue]
  | some v =>
      simp only [Reading.andThen, hvalue, List.mem_append] at hsame ⊢
      obtain rfl := h fun path hpath => hsame path (.inl hpath)
      have hrest := hnext v fun path hpath => hsame path (.inr hpath)
      simp only [hvalue, hrest]

end Reading

/-- A call is settled by the answers to what it asks. -/
theorem Builtin.call?_answering
    {known known' : String → Bool}
    (b : Builtin)
    (ctx : AccessContext)
    (values : List Json)
    (hsame : ∀ path ∈ b.asked (ctx.answering known) values, known' path = known path) :
    b.call? (ctx.answering known') values = b.call? (ctx.answering known) values := by
  unfold call?
  split
  · rfl
  · rfl
  · rfl
  · rfl
  · next path =>
      have hpath : known' path = known path := hsame path (List.mem_singleton_self path)
      simp only [AccessContext.answering, Option.any_some, hpath]
  · rfl
  · rfl

namespace Condition

variable {known known' : String → Bool}

/-- A call is settled if its arguments are. -/
theorem callWith_settled
    (ctx : AccessContext)
    (builtin : Builtin)
    {r r' : Reading}
    (h : r.Settled known known' r') :
    (callWith (ctx.answering known) builtin r).Settled known known'
      (callWith (ctx.answering known') builtin r') := by
  intro hsame
  refine congrArg (fun r : Reading => { r with reusable := r.reusable && !builtin.readsStore })
    (h.andThen (fun v => ?_) hsame)
  split
  · intro hasked
    rw [Builtin.call?_answering builtin ctx _ hasked]
    rfl
  · exact .refl _

/-- The reading of a condition is settled by the answers to what it asks. -/
theorem eval_settled
    (ctx : AccessContext)
    (bindings : Bindings)
    (c : Condition) :
    (c.eval (ctx.answering known) bindings).Settled known known'
      (c.eval (ctx.answering known') bindings) := by
  have hsides : SideBySide (Reading.Settled known known') bindings (ctx.answering known)
      (ctx.answering known') :=
    { kept := ⟨fun _ => .refl _, .andThen⟩
      var := fun _ _ => .refl _
      call := callWith_settled ctx }
  exact hsides.eval c

end Condition

variable {known known' : String → Bool}

/-- Rules that are tried end in the same ruling if what they ask has the same answers. -/
theorem tryRules_answering
    (ctx : AccessContext)
    (bindings : Bindings)
    (kind : AccessKind)
    (governed : Bool)
    (rules : List Rule)
    (hsame : ∀ path ∈ (tryRules (ctx.answering known) bindings kind governed rules).asked,
      known' path = known path) :
    tryRules (ctx.answering known') bindings kind governed rules =
      tryRules (ctx.answering known) bindings kind governed rules := by
  induction rules generalizing governed with
  | nil =>
      rfl
  | cons rule rest ih =>
      have hsettled := @Condition.eval_settled known known' ctx bindings rule.condition
      by_cases hgoverns : rule.governs kind = true
      · cases hholds : holds (rule.condition.eval (ctx.answering known) bindings).value with
        | true =>
            simp only [tryRules, hgoverns, hholds, if_true] at hsame ⊢
            rw [hsettled hsame, hholds, if_pos rfl]
        | false =>
            simp only [tryRules, hgoverns, hholds, if_true, Bool.false_eq_true, if_false,
              List.mem_append] at hsame ⊢
            rw [hsettled fun path hpath => hsame path (.inl hpath), hholds,
              ih true fun path hpath => hsame path (.inr hpath)]
            rfl
      · simp only [tryRules, if_neg hgoverns] at hsame ⊢
        exact ih governed hsame

/-- A ruling is the same where all that it asks has the same answers. -/
theorem Guard.ruleAnew_answering
    (rules : RuleSet)
    (kind : AccessKind)
    (path : String)
    (ctx : AccessContext)
    (hsame : ∀ other ∈ (ruleAnew rules kind path (ctx.answering known)).asked,
      known' other = known other) :
    ruleAnew rules kind path (ctx.answering known') =
      ruleAnew rules kind path (ctx.answering known) := by
  unfold ruleAnew RuleSet.decide at hsame ⊢
  cases hsegments : segments? path with
  | none =>
      rfl
  | some segments =>
      simp only [hsegments] at hsame
      dsimp only
      cases hroute : rules.router.route? segments with
      | none =>
          rfl
      | some found =>
          simp only [hroute] at hsame
          exact tryRules_answering ctx found.1 kind false found.2 hsame

end DocumentStore
