import DocumentStore.Access.RuleSet
import DocumentStore.Proofs.Access.Condition.Variables
import DocumentStore.Proofs.Access.Pattern
import DocumentStore.Proofs.Access.Variables

/-!
# Which rule sets are accepted

Definitions are compiled one after the other, and each pattern is entered in
the tree of those before it.  That the tree accepts it is a matter of the
patterns alone: it must not clash with one of them.  So a list of definitions
is accepted if each is sound by itself and no two of their patterns clash, and
their order does not matter.

In an accepted rule set a rule lies under its own pattern.  Where a path is
routed to it, all variables of the pattern stand for segments of the path, and
its condition mentions no others.
-/

namespace DocumentStore

namespace AccessKind

/-- The names that a rule may give to operations. -/
def known : List String :=
  ["get", "list", "create", "update", "delete", "read", "write"]

theorem mem_known_of_expand?
    {operation : String}
    {expanded : List AccessKind}
    (h : expand? operation = some expanded) :
    operation ∈ known ∧ expanded ≠ [] := by
  unfold expand? at h
  split at h <;> cases h <;> decide

theorem exists_expand?
    {operation : String}
    (h : operation ∈ known) :
    ∃ expanded, expand? operation = some expanded := by
  have hall : ∀ o ∈ known, (expand? o).isSome := by decide
  exact Option.isSome_iff_exists.1 (hall operation h)

end AccessKind

namespace RuleDefinition

/-- Operations stand for kinds of access if all of them are known. -/
theorem exists_kinds_iff
    {rule : String}
    {sofar : List AccessKind}
    {operations : List String} :
    (∃ kinds, RuleDefinition.kinds rule sofar operations = .ok kinds) ↔
      ∀ operation ∈ operations, operation ∈ AccessKind.known := by
  induction operations generalizing sofar with
  | nil => simp [kinds]
  | cons operation rest ih =>
      rw [kinds, List.forall_mem_cons]
      cases hexpand : AccessKind.expand? operation with
      | none =>
          refine iff_of_false (by simp) ?_
          rintro ⟨hknown, -⟩
          obtain ⟨expanded, hsome⟩ := AccessKind.exists_expand? hknown
          rw [hexpand] at hsome
          cases hsome
      | some expanded =>
          rw [ih]
          exact (and_iff_right (AccessKind.mem_known_of_expand? hexpand).1).symm

theorem subset_of_kinds
    {rule : String}
    {sofar found : List AccessKind}
    {operations : List String}
    (h : kinds rule sofar operations = .ok found) :
    sofar ⊆ found := by
  induction operations generalizing sofar with
  | nil =>
      cases h
      exact List.Subset.refl _
  | cons operation rest ih =>
      rw [kinds] at h
      split at h
      · cases h
      · exact List.Subset.trans (List.subset_append_left _ _) (ih h)

/-- Operations stand for no kind of access only when there are none. -/
theorem kinds_eq_nil_iff
    {rule : String}
    {found : List AccessKind}
    {operations : List String}
    (h : kinds rule [] operations = .ok found) :
    found = [] ↔ operations = [] := by
  cases operations with
  | nil =>
      cases h
      simp
  | cons operation rest =>
      rw [kinds] at h
      split at h
      · cases h
      · next expanded hexpand =>
          have hsubset := subset_of_kinds h
          have hne := (AccessKind.mem_known_of_expand? hexpand).2
          refine iff_of_false ?_ (List.cons_ne_nil _ _)
          rintro rfl
          apply hne
          simpa using List.eq_nil_of_subset_nil hsubset

/--
A definition is sound by itself: its path spells a pattern, it has operations
and all of them are known, and its condition is read with the variables of the
pattern.
-/
structure Sound
    (d : RuleDefinition)
    (p : Pattern) :
    Prop where
  spelled : p.SpelledBy d.path
  operations_ne_nil : d.operations ≠ []
  known : ∀ operation ∈ d.operations, operation ∈ AccessKind.known
  readable : ∃ condition, Condition.parse d.condition p.captureNames = .ok condition

/-- A rule is made of a definition with its pattern and its condition. -/
theorem of_compile
    {d : RuleDefinition}
    {position : Nat}
    {p : Pattern}
    {rule : Rule}
    (h : d.compile position = .ok (p, rule)) :
    d.Sound p ∧ Condition.parse d.condition p.captureNames = .ok rule.condition := by
  unfold compile at h
  dsimp only at h
  split at h
  · cases h
  · next hpattern =>
      split at h
      · cases h
      · cases h
      · next kinds hne hkinds =>
          split at h
          · cases h
          · next condition hcondition =>
              cases h
              have hspelled := Pattern.parse_eq_ok_iff.1 hpattern
              refine ⟨⟨hspelled, ?_, ?_, condition, hcondition⟩, hcondition⟩
              · exact fun hnil => hne ((kinds_eq_nil_iff hkinds).2 hnil)
              · exact exists_kinds_iff.1 ⟨kinds, hkinds⟩

/-- A definition that is sound by itself can be compiled at every position. -/
theorem Sound.exists_compile
    {d : RuleDefinition}
    {p : Pattern}
    (h : d.Sound p)
    (position : Nat) :
    ∃ rule, d.compile position = .ok (p, rule) := by
  obtain ⟨hspelled, hne, hknown, condition, hcondition⟩ := h
  unfold compile
  dsimp only
  rw [Pattern.parse_eq_ok_iff.2 hspelled]
  dsimp only
  obtain ⟨found, hfound⟩ := exists_kinds_iff.2 hknown
  rw [hfound]
  cases found with
  | nil =>
      exact absurd ((kinds_eq_nil_iff hfound).1 rfl) hne
  | cons kind found =>
      dsimp only
      rw [hcondition]
      exact ⟨_, rfl⟩

/--
Definitions are consistent: each is sound by itself, and no two of their
patterns agree on some segments and then have variables with different names.
-/
structure Consistent (definitions : List RuleDefinition) : Prop where
  sound : ∀ d ∈ definitions, ∃ p, d.Sound p
  apart :
    ∀ d ∈ definitions, ∀ d' ∈ definitions, ∀ p p' : Pattern,
      p.SpelledBy d.path → p'.SpelledBy d'.path → ¬ p.Clashes p'

theorem consistent_nil :
    Consistent [] := by
  constructor
  · intro d hd
    cases hd
  · intro d hd
    cases hd

/-- With one more definition, that one must be sound and clash with none of the others. -/
theorem consistent_cons_iff
    {d : RuleDefinition}
    {rest : List RuleDefinition} :
    Consistent (d :: rest) ↔
      ∃ p, d.Sound p ∧ (∀ d' ∈ rest, ∀ p' : Pattern, p'.SpelledBy d'.path → ¬ p.Clashes p') ∧
        Consistent rest := by
  constructor
  · rintro ⟨hsound, hapart⟩
    obtain ⟨⟨p, hp⟩, hrest⟩ := List.forall_mem_cons.1 hsound
    refine ⟨p, hp, fun d' hd' p' hp' => ?_, hrest, fun d' hd' d'' hd'' => ?_⟩
    · exact hapart d List.mem_cons_self d' (List.mem_cons_of_mem _ hd') p p' hp.spelled hp'
    · exact hapart d' (List.mem_cons_of_mem _ hd') d'' (List.mem_cons_of_mem _ hd'')
  · rintro ⟨p, hp, hfirst, hsound, hapart⟩
    refine ⟨List.forall_mem_cons.2 ⟨⟨p, hp⟩, hsound⟩, ?_⟩
    intro d' hmem' d'' hmem'' p' p'' hp' hp''
    rcases List.mem_cons.1 hmem' with rfl | hd'
    · obtain rfl := hp'.unique hp.spelled
      rcases List.mem_cons.1 hmem'' with rfl | hd''
      · obtain rfl := hp''.unique hp.spelled
        exact Pattern.not_clashes_self _
      · exact hfirst d'' hd'' p'' hp''
    · rcases List.mem_cons.1 hmem'' with rfl | hd''
      · obtain rfl := hp''.unique hp.spelled
        exact fun hclash => hfirst d' hd' p' hp' hclash.symm
      · exact hapart d' hd' d'' hd'' p' p'' hp' hp''

theorem Consistent.perm
    {definitions listed : List RuleDefinition}
    (h : Consistent definitions)
    (hperm : listed.Perm definitions) :
    Consistent listed where
  sound d hd := h.sound d (hperm.mem_iff.1 hd)
  apart d hd d' hd' := h.apart d (hperm.mem_iff.1 hd) d' (hperm.mem_iff.1 hd')

end RuleDefinition

namespace RuleSet

/-- The first definition is compiled and entered, and the others after it. -/
theorem extend_cons_eq_ok_iff
    {set set' : RuleSet}
    {position : Nat}
    {d : RuleDefinition}
    {rest : List RuleDefinition} :
    set.extend position (d :: rest) = .ok set' ↔
      ∃ p rule router, d.compile position = .ok (p, rule) ∧
        set.router.insert Rule.place rule p = .ok router ∧
          extend ⟨set.rules ++ [rule], router⟩ (position + 1) rest = .ok set' := by
  constructor
  · intro h
    rw [extend] at h
    split at h
    · cases h
    · next p rule hcompile =>
        split at h
        · cases h
        · next router hinsert =>
            exact ⟨p, rule, router, hcompile, hinsert, h⟩
  · rintro ⟨p, rule, router, hcompile, hinsert, hrest⟩
    rw [extend, hcompile]
    dsimp only
    rw [hinsert]
    exact hrest

/--
A rule set with the variables of some patterns is extended by the definitions
that are consistent and whose patterns clash with none of these.
-/
theorem exists_extend_iff
    {set : RuleSet}
    {ps : List Pattern}
    {position : Nat}
    {definitions : List RuleDefinition}
    (h : set.router.HasVariablesOf ps) :
    (∃ set', set.extend position definitions = .ok set') ↔
      RuleDefinition.Consistent definitions ∧
        ∀ p ∈ ps, ∀ d ∈ definitions, ∀ p' : Pattern, p'.SpelledBy d.path → ¬ p.Clashes p' := by
  induction definitions generalizing set ps position with
  | nil =>
      refine iff_of_true ⟨set, rfl⟩ ⟨RuleDefinition.consistent_nil, fun p _ d hd => ?_⟩
      cases hd
  | cons d rest ih =>
      rw [RuleDefinition.consistent_cons_iff]
      constructor
      · rintro ⟨set', hextend⟩
        obtain ⟨p, rule, router, hcompile, hinsert, hrest⟩ := extend_cons_eq_ok_iff.1 hextend
        obtain ⟨hsound, -⟩ := RuleDefinition.of_compile hcompile
        obtain ⟨hconsistent, hlater⟩ := (ih (h.insert hinsert)).1 ⟨set', hrest⟩
        obtain ⟨hfirst, hlater⟩ := List.forall_mem_cons.1 hlater
        have hagrees := (h.agrees_iff p).1 (Router.exists_insert_iff.1 ⟨router, hinsert⟩)
        refine ⟨⟨p, hsound, hfirst, hconsistent⟩, fun q hq => ?_⟩
        refine List.forall_mem_cons.2 ⟨fun p' hp' => ?_, hlater q hq⟩
        obtain rfl := hp'.unique hsound.spelled
        exact hagrees q hq
      · rintro ⟨⟨p, hsound, hfirst, hconsistent⟩, hapart⟩
        obtain ⟨rule, hcompile⟩ := hsound.exists_compile position
        have hagrees := (h.agrees_iff p).2 fun q hq =>
          hapart q hq d List.mem_cons_self p hsound.spelled
        obtain ⟨router, hinsert⟩ : ∃ router, set.router.insert Rule.place rule p = .ok router :=
          Router.exists_insert_iff.2 hagrees
        have hlater : ∀ q ∈ p :: ps, ∀ d' ∈ rest, ∀ p' : Pattern,
            p'.SpelledBy d'.path → ¬ q.Clashes p' :=
          List.forall_mem_cons.2 ⟨hfirst, fun q hq d' hd' =>
            hapart q hq d' (List.mem_cons_of_mem _ hd')⟩
        let next : RuleSet := ⟨set.rules ++ [rule], router⟩
        have hnext : next.router.HasVariablesOf (p :: ps) := h.insert hinsert
        obtain ⟨set', hrest⟩ := (ih hnext).2 ⟨hconsistent, hlater⟩
        exact ⟨set', extend_cons_eq_ok_iff.2 ⟨p, rule, router, hcompile, hinsert, hrest⟩⟩

theorem exists_compile_iff
    {definitions : List RuleDefinition} :
    (∃ set, compile definitions = .ok set) ↔ RuleDefinition.Consistent definitions := by
  have hempty : RuleSet.empty.router.HasVariablesOf [] := Router.hasVariablesOf_empty
  unfold compile
  rw [exists_extend_iff hempty]
  exact and_iff_left fun p hp => nomatch hp

end RuleSet

/-! ### The variables of a rule that is tried -/

/-- Every variable of a pattern that fits a path stands for a segment of it. -/
theorem Pattern.exists_lookup_bind
    {p : Pattern}
    {segments : List String}
    (hfits : p.fits segments = true)
    {name : String}
    (hname : name ∈ p.captureNames) :
    ∃ value ∈ segments, (p.bind segments).lookup name = some value := by
  induction p generalizing segments with
  | nil => cases hname
  | cons s p ih =>
      cases segments with
      | nil => cases hfits
      | cons segment segments =>
          obtain ⟨-, hrest⟩ := Bool.and_eq_true_iff.1 hfits
          rw [captureNames_cons, List.mem_append] at hname
          cases s with
          | literal text =>
              have hlater : name ∈ captureNames p := hname.resolve_left (List.not_mem_nil)
              obtain ⟨value, hvalue, hlookup⟩ := ih hrest hlater
              exact ⟨value, List.mem_cons_of_mem _ hvalue, hlookup⟩
          | capture other =>
              have hbind : bind (.capture other :: p) (segment :: segments) =
                  (other, segment) :: bind p segments := rfl
              rw [hbind, Router.lookup_cons_eq_ite]
              by_cases hother : name = other
              · exact ⟨segment, List.mem_cons_self, if_pos hother⟩
              · rw [if_neg hother]
                have hlater : name ∈ captureNames p := by
                  refine hname.resolve_left fun hmem => hother ?_
                  exact List.mem_singleton.1 hmem
                obtain ⟨value, hvalue, hlookup⟩ := ih hrest hlater
                exact ⟨value, List.mem_cons_of_mem _ hvalue, hlookup⟩

theorem Rule.mem_place
    {rule r : Rule}
    {rules : List Rule} :
    r ∈ Rule.place rule rules ↔ r = rule ∨ r ∈ rules := by
  induction rules with
  | nil => simp [place]
  | cons head rest ih =>
      rw [place]
      split
      · exact List.mem_cons
      · rw [List.mem_cons, ih, List.mem_cons, or_left_comm]

/-- The conditions of the rules in a tree mention only variables of the patterns they lie under. -/
def Router.Closed (t : Router Rule) : Prop :=
  ∀ p, ∀ rule ∈ t.rulesAt p, Condition.Known (Pattern.captureNames p) rule.condition.variableRoots

theorem Router.Closed.insert
    {t t' : Router Rule}
    {d : RuleDefinition}
    {position : Nat}
    {p : Pattern}
    {rule : Rule}
    (h : t.Closed)
    (hcompile : d.compile position = .ok (p, rule))
    (hinsert : t.insert Rule.place rule p = .ok t') :
    t'.Closed := by
  intro q r hr
  rw [rulesAt_insert hinsert] at hr
  split at hr
  · next hq =>
      subst hq
      rcases Rule.mem_place.1 hr with rfl | hr
      · exact Condition.known_of_parse (RuleDefinition.of_compile hcompile).2
      · exact h q r hr
  · exact h q r hr

theorem RuleSet.closed_of_extend
    {set set' : RuleSet}
    {position : Nat}
    {definitions : List RuleDefinition}
    (hclosed : set.router.Closed)
    (h : set.extend position definitions = .ok set') :
    set'.router.Closed := by
  induction definitions generalizing set position with
  | nil =>
      cases h
      exact hclosed
  | cons d rest ih =>
      obtain ⟨p, rule, router, hcompile, hinsert, hrest⟩ := extend_cons_eq_ok_iff.1 h
      have hnext : router.Closed := hclosed.insert hcompile hinsert
      exact ih hnext hrest

/-- The variables that a routed rule mentions are known, or stand for segments of the path. -/
theorem Router.Closed.exists_lookup
    {t : Router Rule}
    {segments : List String}
    {bindings : Bindings}
    {rules : List Rule}
    (h : t.Closed)
    (hroute : t.route? segments = some (bindings, rules))
    {rule : Rule}
    (hrule : rule ∈ rules)
    {root : String}
    (hroot : root ∈ rule.condition.variableRoots) :
    root ∈ Condition.roots ∨ ∃ value ∈ segments, bindings.lookup root = some value := by
  have hrouted := routed_route? segments t
  rw [hroute] at hrouted
  cases hrouted with
  | @found p hfirst =>
      rcases h p rule hrule root hroot with hknown | hname
      · exact .inl hknown
      · exact .inr (Pattern.exists_lookup_bind hfirst.fits hname)

/--
Loading accepts exactly the consistent rule sets.  Definitions are compiled if
and only if each of them is sound by itself and no two of their patterns agree
on some segments and then have variables with different names.  Their order
does not matter.  In a compiled rule set, every variable that the condition of
a rule mentions is one of those known in every rule or is bound, to a segment
of the path, wherever the rule is found.
-/
theorem RuleSet.compile_accepts_consistent (definitions : List RuleDefinition) :
    ((∃ set, compile definitions = .ok set) ↔ RuleDefinition.Consistent definitions) ∧
    (∀ listed, listed.Perm definitions →
      ((∃ set, compile listed = .ok set) ↔ ∃ set, compile definitions = .ok set)) ∧
    ∀ set, compile definitions = .ok set →
      ∀ segments bindings rules, set.router.route? segments = some (bindings, rules) →
        ∀ rule ∈ rules, ∀ root ∈ rule.condition.variableRoots,
          root ∈ Condition.roots ∨ ∃ value ∈ segments, bindings.lookup root = some value := by
  refine ⟨exists_compile_iff, ?_, ?_⟩
  · intro listed hperm
    rw [exists_compile_iff, exists_compile_iff]
    exact ⟨fun h => h.perm hperm.symm, fun h => h.perm hperm⟩
  · intro set hset segments bindings rules hroute rule hrule root hroot
    have hempty : RuleSet.empty.router.Closed := by
      intro p r hr
      rw [RuleSet.empty, Router.rulesAt_empty] at hr
      cases hr
    exact (closed_of_extend hempty hset).exists_lookup hroute hrule hroot

/-- Rules for two kinds of parts of a tenant, with one name for the tenant. -/
def tenantRules : List RuleDefinition :=
  [⟨none, "tenants/{tenantId}/orders/{id}", ["read"], "auth.tenant == tenantId", 0⟩,
   ⟨none, "/tenants/{tenantId}/users/{uid}", ["get", "write"], "uid == auth.uid", 0⟩]

/--
These rules are accepted in either order, and where an order is judged the
variable for the tenant is bound.
-/
theorem tenantRules_are_accepted :
    RuleDefinition.Consistent tenantRules ∧
    (∃ set, RuleSet.compile tenantRules.reverse = .ok set) ∧
    ∃ set bindings rules,
      RuleSet.compile tenantRules = .ok set ∧
      set.router.route? ["tenants", "T1", "orders", "O1"] = some (bindings, rules) ∧
      rules.map (fun rule => rule.condition.variableRoots) = [["auth", "tenantId"]] ∧
      ∃ value ∈ ["tenants", "T1", "orders", "O1"], bindings.lookup "tenantId" = some value := by
  obtain ⟨hiff, horder, hbound⟩ := RuleSet.compile_accepts_consistent tenantRules
  cases hcompile : RuleSet.compile tenantRules with
  | error e =>
      have hok : (RuleSet.compile tenantRules).isOk = true := by decide +kernel
      rw [hcompile] at hok
      cases hok
  | ok set =>
      have hmentioned :
          (RuleSet.compile tenantRules).map (fun set =>
            (set.router.route? ["tenants", "T1", "orders", "O1"]).map fun hit =>
              hit.2.map fun rule => rule.condition.variableRoots) =
          .ok (some [["auth", "tenantId"]]) := by
        decide +kernel
      rw [hcompile] at hmentioned
      obtain ⟨⟨bindings, rules⟩, hroute, hroots⟩ :=
        Option.map_eq_some_iff.1 (Except.ok.inj hmentioned)
      refine ⟨hiff.1 ⟨set, hcompile⟩, ?_, set, bindings, rules, rfl, hroute, hroots, ?_⟩
      · exact (horder _ tenantRules.reverse_perm).2 ⟨set, hcompile⟩
      · obtain ⟨rule, hrule, hmentions⟩ := List.mem_map.1 (hroots ▸ List.mem_singleton_self _)
        have htenant : "tenantId" ∈ rule.condition.variableRoots := by
          rw [hmentions]
          decide
        refine (hbound set hcompile _ bindings rules hroute rule hrule _ htenant).resolve_left ?_
        decide

-- with another name for the tenant the second rule is refused
example :
    (RuleSet.compile
      [⟨none, "tenants/{tenantId}/orders/{id}", ["get"], "true", 0⟩,
       ⟨none, "tenants/{tid}/users/{id}", ["get"], "true", 0⟩]).map (fun _ => ()) =
      .error (.conflictingVariable "tenants/{tid}/users/{id}" "tenantId" "tid") := by
  decide +kernel

end DocumentStore
