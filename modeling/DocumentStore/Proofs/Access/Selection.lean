import DocumentStore.Access.Guard
import DocumentStore.Proofs.Access.Router
import Mathlib.Data.List.Lex
import Mathlib.Data.List.MinMax
import Mathlib.Data.List.Sort

/-!
# Which rule decides

A rule set is declared as a list of rules with patterns.  Of the patterns that
fit a path, the first counts when patterns are compared segment by segment
from the left and a literal goes before a variable.  The rules declared with
just this pattern are tried by priority and, within one priority, in the order
of their declarations; the first that governs the kind of access and whose
condition holds allows the access.

A compiled rule set decides just so.  It keeps the rules in a tree, in which
the patterns share their nodes, and in order under each pattern; what the tree
holds under a pattern is told after every rule that is entered.
-/

namespace DocumentStore

/-- A rule with the pattern and the position at which it was declared. -/
structure Declaration where
  pattern : Pattern
  rule : Rule
  position : Nat

/-- The declarations of some definitions, the first of which has a position. -/
def RuleDefinition.declarations
    (position : Nat)
    (definitions : List RuleDefinition) :
    Except RuleError (List Declaration) :=
  (definitions.zipIdx position).mapM fun (definition, position) =>
    (definition.compile position).map fun (pattern, rule) => ⟨pattern, rule, position⟩

/-- Whether the condition of a rule holds. -/
def Rule.allows
    (ctx : AccessContext)
    (bindings : Bindings)
    (r : Rule) :
    Bool :=
  holds (r.condition.eval ctx bindings).value

namespace Declaration

/-! ### The meaning of declarations -/

/-- The first of the declared patterns that fit the segments of a path. -/
def firstFitting?
    (declared : List Declaration)
    (segments : List String) :
    Option Pattern :=
  ((declared.map pattern).filter fun p => p.fits segments).argmin Pattern.ranks

/-- Rules go by priority and, within one priority, by position. -/
def Precedes (a b : Declaration) : Prop :=
  a.rule.priority.toInt < b.rule.priority.toInt ∨
    a.rule.priority.toInt = b.rule.priority.toInt ∧ a.position ≤ b.position

instance (a b : Declaration) : Decidable (a.Precedes b) :=
  inferInstanceAs (Decidable (_ ∨ _ ∧ _))

/-- The rules declared with a pattern, in the order in which they are tried. -/
def rulesWith
    (declared : List Declaration)
    (p : Pattern) :
    List Rule :=
  ((declared.filter fun d => d.pattern = p).insertionSort Precedes).map rule

/-- The decision of rules that govern a kind of access: the first whose condition holds allows. -/
def decisionOf
    (ctx : AccessContext)
    (bindings : Bindings)
    (kind : AccessKind)
    (rules : List Rule) :
    Decision :=
  match rules.find? (Rule.allows ctx bindings) with
  | some rule => .allow rule.name
  | none => .deny (if rules.isEmpty then .noneGoverns kind else .noneAllows kind)

/-- The rules up to the first whose condition holds, that one included. -/
def evaluated
    (ctx : AccessContext)
    (bindings : Bindings)
    (rules : List Rule) :
    List Rule :=
  rules.takeWhile (fun r => !r.allows ctx bindings) ++
    (rules.find? (Rule.allows ctx bindings)).toList

/-- The decision that declarations mean. -/
def decision
    (declared : List Declaration)
    (kind : AccessKind)
    (segments : List String)
    (ctx : AccessContext) :
    Decision :=
  match firstFitting? declared segments with
  | none => .deny .noMatch
  | some p =>
      decisionOf ctx (p.bind segments) kind
        ((rulesWith declared p).filter fun r => r.governs kind)

/-- The paths that are asked about for the decision that declarations mean. -/
def asked
    (declared : List Declaration)
    (kind : AccessKind)
    (segments : List String)
    (ctx : AccessContext) :
    List String :=
  match firstFitting? declared segments with
  | none => []
  | some p =>
      (evaluated ctx (p.bind segments)
        ((rulesWith declared p).filter fun r => r.governs kind)).flatMap fun r =>
          (r.condition.eval ctx (p.bind segments)).asked

/-! ### Trying rules -/

section Trying

variable {ctx : AccessContext} {bindings : Bindings} {kind : AccessKind} {rule : Rule}

theorem tryRules_cons_of_not_governs
    (hgoverns : ¬ rule.governs kind = true)
    (governed : Bool)
    (rest : List Rule) :
    tryRules ctx bindings kind governed (rule :: rest) =
      tryRules ctx bindings kind governed rest := by
  rw [tryRules, if_neg hgoverns]

/-- A rule that governs the access and whose condition holds ends the trying. -/
theorem tryRules_cons_of_allows
    (hgoverns : rule.governs kind = true)
    (hallows : rule.allows ctx bindings = true)
    (governed : Bool)
    (rest : List Rule) :
    tryRules ctx bindings kind governed (rule :: rest) =
      let r := rule.condition.eval ctx bindings
      ⟨.allow rule.name, r.asked, r.reusable⟩ := by
  have hholds : holds (rule.condition.eval ctx bindings).value = true := hallows
  rw [tryRules, if_pos hgoverns]
  dsimp only
  rw [if_pos hholds]

/-- After a rule that governs the access and whose condition fails, the others are tried. -/
theorem tryRules_cons_of_not_allows
    (hgoverns : rule.governs kind = true)
    (hallows : ¬ rule.allows ctx bindings = true)
    (governed : Bool)
    (rest : List Rule) :
    tryRules ctx bindings kind governed (rule :: rest) =
      let r := rule.condition.eval ctx bindings
      let s := tryRules ctx bindings kind true rest
      ⟨s.decision, r.asked ++ s.asked, r.reusable && s.reusable⟩ := by
  have hfails : ¬ holds (rule.condition.eval ctx bindings).value = true := hallows
  rw [tryRules, if_pos hgoverns]
  dsimp only
  rw [if_neg hfails]

end Trying

/-- Trying rules decides as the first of those that govern the access and whose condition holds. -/
theorem decision_tryRules
    (ctx : AccessContext)
    (bindings : Bindings)
    (kind : AccessKind)
    (governed : Bool)
    (rules : List Rule) :
    (tryRules ctx bindings kind governed rules).decision =
      match (rules.filter fun r => r.governs kind).find? (Rule.allows ctx bindings) with
      | some rule => .allow rule.name
      | none =>
          .deny (if !governed && (rules.filter fun r => r.governs kind).isEmpty then
            .noneGoverns kind else .noneAllows kind) := by
  induction rules generalizing governed with
  | nil =>
      cases governed <;> rfl
  | cons rule rest ih =>
      by_cases hgoverns : rule.governs kind = true
      · by_cases hallows : rule.allows ctx bindings = true
        · rw [tryRules_cons_of_allows hgoverns hallows]
          simp [hgoverns, hallows]
        · rw [tryRules_cons_of_not_allows hgoverns hallows]
          simp [ih, hgoverns, hallows]
      · rw [tryRules_cons_of_not_governs hgoverns, ih]
        simp [hgoverns]

/-- Trying rules asks what the conditions of the rules up to the first that allows ask. -/
theorem asked_tryRules
    (ctx : AccessContext)
    (bindings : Bindings)
    (kind : AccessKind)
    (governed : Bool)
    (rules : List Rule) :
    (tryRules ctx bindings kind governed rules).asked =
      (evaluated ctx bindings (rules.filter fun r => r.governs kind)).flatMap fun r =>
        (r.condition.eval ctx bindings).asked := by
  induction rules generalizing governed with
  | nil =>
      rfl
  | cons rule rest ih =>
      by_cases hgoverns : rule.governs kind = true
      · by_cases hallows : rule.allows ctx bindings = true
        · rw [tryRules_cons_of_allows hgoverns hallows]
          simp [evaluated, hgoverns, hallows]
        · rw [tryRules_cons_of_not_allows hgoverns hallows]
          simp [ih, evaluated, hgoverns, hallows]
      · rw [tryRules_cons_of_not_governs hgoverns, ih]
        simp [hgoverns]

/-! ### Rules under one pattern -/

/-- Whether the rule of a declaration has a smaller priority. -/
abbrev Sooner (a b : Declaration) : Prop :=
  a.rule.priority.toInt < b.rule.priority.toInt

instance : IsTrans Declaration Precedes where
  trans a b c hab hbc := by
    unfold Precedes at *
    omega

instance : Std.Total Precedes where
  total a b := by
    unfold Precedes
    omega

theorem position_eq_of_precedes
    {a b : Declaration}
    (hab : a.Precedes b)
    (hba : b.Precedes a) :
    a.position = b.position := by
  unfold Precedes at *
  omega

/-- Entering a rule is an ordered insertion of its declaration. -/
theorem place_map_rule
    (d : Declaration)
    (ds : List Declaration) :
    Rule.place d.rule (ds.map rule) = (ds.orderedInsert Sooner d).map rule := by
  induction ds with
  | nil =>
      rfl
  | cons head rest ih =>
      rw [List.map_cons, Rule.place, List.orderedInsert]
      by_cases hsooner : d.Sooner head
      · rw [if_pos hsooner, if_pos hsooner]
        rfl
      · rw [if_neg hsooner, if_neg hsooner, ih]
        rfl

/-- The declarations as they stand after being entered one after the other. -/
def entered (ds : List Declaration) : List Declaration :=
  ds.foldl (fun sofar d => sofar.orderedInsert Sooner d) []

/-- Entering rules one after the other enters their declarations. -/
theorem foldl_place
    (ds sofar : List Declaration) :
    ds.foldl (fun rules d => Rule.place d.rule rules) (sofar.map rule) =
      (ds.foldl (fun sofar d => sofar.orderedInsert Sooner d) sofar).map rule := by
  induction ds generalizing sofar with
  | nil =>
      rfl
  | cons d rest ih =>
      rw [List.foldl_cons, List.foldl_cons, place_map_rule, ih]

/-- A declaration with a later position than all others goes behind those it does not precede. -/
theorem pairwise_orderedInsert
    {d : Declaration}
    {ds : List Declaration}
    (h : ds.Pairwise Precedes)
    (hlater : ∀ e ∈ ds, e.position < d.position) :
    (ds.orderedInsert Sooner d).Pairwise Precedes := by
  induction ds with
  | nil =>
      simp
  | cons head rest ih =>
      obtain ⟨hhead, hrest⟩ := List.pairwise_cons.1 h
      rw [List.orderedInsert]
      by_cases hsooner : d.Sooner head
      · rw [if_pos hsooner]
        refine List.pairwise_cons.2 ⟨?_, h⟩
        intro e he
        rcases List.mem_cons.1 he with rfl | he
        · exact .inl hsooner
        · have hprecedes := hhead e he
          unfold Precedes at hprecedes
          unfold Sooner at hsooner
          exact .inl (by omega)
      · rw [if_neg hsooner]
        refine List.pairwise_cons.2 ⟨?_, ih hrest fun e he => hlater e (List.mem_cons_of_mem _ he)⟩
        intro e he
        rcases (List.mem_orderedInsert _).1 he with rfl | he
        · have hposition := hlater head List.mem_cons_self
          unfold Sooner at hsooner
          unfold Precedes
          omega
        · exact hhead e he

/-- Declarations that were entered by ascending positions are in order. -/
theorem pairwise_entered
    {ds : List Declaration}
    (h : ds.Pairwise fun a b => a.position < b.position) :
    (entered ds).Pairwise Precedes ∧ (entered ds).Perm ds := by
  induction ds using List.reverseRecOn with
  | nil =>
      exact ⟨.nil, .refl _⟩
  | append_singleton ds d ih =>
      obtain ⟨hds, -, hlater⟩ := List.pairwise_append.1 h
      obtain ⟨hpairwise, hperm⟩ := ih hds
      have hentered : entered (ds ++ [d]) = (entered ds).orderedInsert Sooner d := by
        simp [entered]
      rw [hentered]
      constructor
      · refine pairwise_orderedInsert hpairwise ?_
        intro e he
        exact hlater e (hperm.mem_iff.1 he) d List.mem_cons_self
      · calc (entered ds).orderedInsert Sooner d
          _ |>.Perm (d :: entered ds) := List.perm_orderedInsert Sooner d _
          _ |>.Perm (d :: ds) := hperm.cons d
          _ |>.Perm (ds ++ [d]) := (List.perm_append_singleton d ds).symm

/-- Declarations that were entered by ascending positions are sorted. -/
theorem entered_eq_insertionSort
    {ds : List Declaration}
    (h : ds.Pairwise fun a b => a.position < b.position) :
    entered ds = ds.insertionSort Precedes := by
  obtain ⟨hpairwise, hperm⟩ := pairwise_entered h
  -- no two declarations have the same position
  have hnodup : (ds.map position).Nodup :=
    (List.pairwise_map.2 h).imp fun hlt => Nat.ne_of_lt hlt
  have hsorted := List.perm_insertionSort Precedes ds
  refine (hperm.trans hsorted.symm).eq_of_pairwise ?_ hpairwise
    (List.pairwise_insertionSort Precedes ds)
  intro a b ha hb hab hba
  exact List.inj_on_of_nodup_map hnodup (hperm.mem_iff.1 ha) (hsorted.mem_iff.1 hb)
    (position_eq_of_precedes hab hba)

/-- A pattern holds the rules that were declared with it, in the order in which they are tried. -/
theorem foldl_place_eq_rulesWith
    {declared : List Declaration}
    (h : declared.Pairwise fun a b => a.position < b.position)
    (p : Pattern) :
    (declared.filter fun d => d.pattern = p).foldl (fun rules d => Rule.place d.rule rules) [] =
      rulesWith declared p := by
  have hsublist := h.sublist (List.filter_sublist (p := fun d => d.pattern = p))
  rw [rulesWith, ← entered_eq_insertionSort hsublist]
  exact foldl_place _ []

theorem rulesWith_ne_nil_iff
    {declared : List Declaration}
    {p : Pattern} :
    rulesWith declared p ≠ [] ↔ p ∈ declared.map pattern := by
  rw [rulesWith, ne_eq, List.map_eq_nil_iff, ← List.length_eq_zero_iff,
    List.length_insertionSort, List.length_eq_zero_iff, List.filter_eq_nil_iff]
  simp

end Declaration

/-! ### Compiled rule sets -/

/-- Definitions that can be compiled are declared one after the other. -/
theorem RuleDefinition.declarations_cons
    {d : RuleDefinition}
    {pattern : Pattern}
    {rule : Rule}
    {position : Nat}
    {rest : List RuleDefinition}
    {declared : List Declaration}
    (hcompile : d.compile position = .ok (pattern, rule))
    (hrest : declarations (position + 1) rest = .ok declared) :
    declarations position (d :: rest) = .ok (⟨pattern, rule, position⟩ :: declared) := by
  unfold declarations at hrest ⊢
  rw [List.zipIdx_cons, List.mapM_cons, hrest]
  simp only [hcompile]
  rfl

/--
Extending a rule set puts every declared rule in its place under its pattern,
one after the other.
-/
theorem RuleSet.rulesAt_of_extend
    {set set' : RuleSet}
    {position : Nat}
    {definitions : List RuleDefinition}
    (h : set.extend position definitions = .ok set') :
    ∃ declared,
      RuleDefinition.declarations position definitions = .ok declared ∧
      declared.map Declaration.position = List.range' position definitions.length ∧
      ∀ p, set'.router.rulesAt p =
        (declared.filter fun d => d.pattern = p).foldl
          (fun rules d => Rule.place d.rule rules) (set.router.rulesAt p) := by
  induction definitions generalizing set position with
  | nil =>
      cases h
      exact ⟨[], rfl, rfl, fun p => rfl⟩
  | cons d rest ih =>
      rw [extend] at h
      split at h
      · cases h
      · next pattern rule hcompile =>
          split at h
          · cases h
          · next router hinsert =>
              obtain ⟨declared, hdeclared, hpositions, hrules⟩ := ih h
              refine ⟨⟨pattern, rule, position⟩ :: declared,
                RuleDefinition.declarations_cons hcompile hdeclared, ?_, ?_⟩
              · rw [List.map_cons, hpositions, List.length_cons, List.range'_succ]
              · intro p
                rw [hrules p, Router.rulesAt_insert hinsert p, List.filter_cons]
                by_cases hp : p = pattern
                · subst hp
                  simp
                · have hne : pattern ≠ p := fun h => hp h.symm
                  simp [hp, hne]

/-- A compiled rule set holds under each pattern the rules that were declared with it, in order. -/
theorem RuleSet.rulesAt_of_compile
    {definitions : List RuleDefinition}
    {set : RuleSet}
    (h : compile definitions = .ok set) :
    ∃ declared,
      RuleDefinition.declarations 0 definitions = .ok declared ∧
      ∀ p, set.router.rulesAt p = Declaration.rulesWith declared p := by
  obtain ⟨declared, hdeclared, hpositions, hrules⟩ := rulesAt_of_extend h
  refine ⟨declared, hdeclared, fun p => ?_⟩
  have hascending : declared.Pairwise fun a b => a.position < b.position := by
    rw [← List.pairwise_map (f := Declaration.position) (R := (· < ·)), hpositions]
    exact List.pairwise_lt_range'
  have hempty : RuleSet.empty.router.rulesAt p = [] := Router.rulesAt_empty p
  rw [hrules p, hempty, Declaration.foldl_place_eq_rulesWith hascending]

/-- Where no rule lies under a pattern that fits a path, no declared pattern fits it. -/
theorem Declaration.firstFitting?_eq_none
    {declared : List Declaration}
    {segments : List String}
    (h : ∀ p, Pattern.fits p segments = true → rulesWith declared p = []) :
    firstFitting? declared segments = none := by
  rw [firstFitting?, List.argmin_eq_none, List.filter_eq_nil_iff]
  intro p hmem hfits
  exact rulesWith_ne_nil_iff.2 hmem (h p hfits)

/-- The first in a router of the patterns that fit a path is the first declared one. -/
theorem Declaration.firstFitting?_eq_some
    {declared : List Declaration}
    {t : Router Rule}
    {segments : List String}
    {p : Pattern}
    (hrules : ∀ q, t.rulesAt q = rulesWith declared q)
    (h : t.First segments p) :
    firstFitting? declared segments = some p := by
  have hmem : ∀ q, q ∈ (declared.map pattern).filter (fun q => q.fits segments) ↔
      t.rulesAt q ≠ [] ∧ Pattern.fits q segments = true := by
    intro q
    rw [List.mem_filter, hrules q, rulesWith_ne_nil_iff]
  have hp := (hmem p).2 ⟨h.holds, h.fits⟩
  unfold firstFitting?
  cases hfirst : ((declared.map pattern).filter fun q => q.fits segments).argmin Pattern.ranks with
  | none =>
      rw [List.argmin_eq_none.1 hfirst] at hp
      cases hp
  | some q =>
      obtain ⟨hholds, hfits⟩ := (hmem q).1 (List.argmin_mem hfirst)
      rcases h.before q hfits hholds with rfl | hlt
      · rfl
      · exact absurd hlt (List.not_lt_of_mem_argmin hp hfirst)

/--
A compiled rule set decides as its declarations mean, and asks about the
paths that are asked about for that decision.
-/
theorem RuleSet.decide_eq_of_compile
    {definitions : List RuleDefinition}
    {set : RuleSet}
    (h : compile definitions = .ok set) :
    ∃ declared,
      RuleDefinition.declarations 0 definitions = .ok declared ∧
      ∀ kind segments ctx,
        (set.decide kind segments ctx).decision = Declaration.decision declared kind segments ctx ∧
        (set.decide kind segments ctx).asked = Declaration.asked declared kind segments ctx := by
  obtain ⟨declared, hdeclared, hrules⟩ := rulesAt_of_compile h
  refine ⟨declared, hdeclared, fun kind segments ctx => ?_⟩
  have hrouted := Router.routed_route? segments set.router
  unfold RuleSet.decide Declaration.decision Declaration.asked
  generalize set.router.route? segments = hit at hrouted ⊢
  cases hrouted with
  | missed hmissed =>
      have hnone : Declaration.firstFitting? declared segments = none :=
        Declaration.firstFitting?_eq_none fun p hfits => (hrules p).symm.trans (hmissed p hfits)
      rw [hnone]
      exact ⟨rfl, rfl⟩
  | @found p hfirst =>
      rw [Declaration.firstFitting?_eq_some hrules hfirst]
      dsimp only
      rw [Declaration.decision_tryRules, Declaration.asked_tryRules, hrules p]
      exact ⟨rfl, rfl⟩

/--
A guard without kept decisions, over a compiled rule set, rules on every valid
path as the declarations mean: the first of the declared patterns that fit the
path counts, and of the rules declared with it, by priority and position, the
first that governs the access and whose condition holds.  Only the conditions
of governing rules up to that one are evaluated.
-/
theorem Guard.evaluate_eq_of_compile
    {definitions : List RuleDefinition}
    {set : RuleSet}
    (h : RuleSet.compile definitions = .ok set) :
    ∃ declared,
      RuleDefinition.declarations 0 definitions = .ok declared ∧
      ∀ instant kind path segments ctx, Guard.segments? path = some segments →
        let ruling := ((⟨set, none⟩ : Guard).evaluate instant kind path ctx).1
        ruling.decision = Declaration.decision declared kind segments ctx ∧
          ruling.asked = Declaration.asked declared kind segments ctx := by
  obtain ⟨declared, hdeclared, hdecide⟩ := RuleSet.decide_eq_of_compile h
  refine ⟨declared, hdeclared, fun instant kind path segments ctx hpath => ?_⟩
  unfold Guard.evaluate
  rw [hpath]
  exact hdecide kind segments ctx

/-- Rules for parts of documents; for `docs/d/notes` a literal way leads nowhere. -/
def notesRules : List RuleDefinition :=
  [⟨some "draft", "docs/d/draft", ["read"], "true", 0⟩,
   ⟨some "any", "{root}/d/notes", ["read"], "true", 0⟩,
   ⟨some "last", "docs/{id}/notes", ["get"], "exists('third')", 9⟩,
   ⟨some "slow", "docs/{id}/notes", ["get"], "id == 'd'", 5⟩,
   ⟨some "fast", "/docs/{id}/notes", ["get"], "exists('first')", 2⟩,
   ⟨some "other", "docs/{id}/notes", ["delete"], "exists('second')", 2⟩]

/--
The notes of a document are judged by the rules declared for just their
pattern: the faster one fails, the slower one allows, and nothing but the
faster one asks about a path.
-/
theorem notes_are_judged_as_declared :
    ∃ set, RuleSet.compile notesRules = .ok set ∧
      Guard.segments? "docs/d/notes" = some ["docs", "d", "notes"] ∧
      let ruling := ((⟨set, none⟩ : Guard).evaluate 0 .get "docs/d/notes"
        ⟨none, none, none, some "T1", some fun _ => false⟩).1
      ruling.decision = .allow "slow" ∧ ruling.asked = ["first"] := by
  have hpath : Guard.segments? "docs/d/notes" = some ["docs", "d", "notes"] := by decide +kernel
  cases hcompile : RuleSet.compile notesRules with
  | error e =>
      have hok : (RuleSet.compile notesRules).isOk = true := by decide +kernel
      rw [hcompile] at hok
      cases hok
  | ok set =>
      obtain ⟨declared, hdeclared, hrulings⟩ := Guard.evaluate_eq_of_compile hcompile
      obtain ⟨hdecision, hasked⟩ := hrulings 0 .get "docs/d/notes" _
        ⟨none, none, none, some "T1", some fun _ => false⟩ hpath
      have hmeaning :
          (RuleDefinition.declarations 0 notesRules).map (fun declared =>
            (Declaration.decision declared .get ["docs", "d", "notes"]
              ⟨none, none, none, some "T1", some fun _ => false⟩,
            Declaration.asked declared .get ["docs", "d", "notes"]
              ⟨none, none, none, some "T1", some fun _ => false⟩)) =
          .ok (.allow "slow", ["first"]) := by
        decide +kernel
      rw [hdeclared] at hmeaning
      obtain ⟨hslow, hfirst⟩ := Prod.mk.inj (Except.ok.inj hmeaning)
      exact ⟨set, rfl, hpath, hdecision.trans hslow, hasked.trans hfirst⟩

end DocumentStore
