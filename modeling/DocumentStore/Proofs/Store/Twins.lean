import DocumentStore.Proofs.Store.Simulation

/-!
# Writes do not look at the indexes

Two stores that differ in their catalogs only answer every write alike, and
differ in their catalogs only afterwards.  The catalogs may be tied to each
other and to the stored documents by any relation that is kept when both
follow a change.
-/

namespace DocumentStore
namespace Store

/-- A relation of two catalogs over the stored documents. -/
abbrev CatalogRelation := Documents → Catalog → Catalog → Prop

/-- A relation that is kept when a write is carried out and both catalogs follow its change. -/
def CatalogRelation.Kept (related : CatalogRelation) : Prop :=
  ∀ {docs docs' : Documents} {c c' : Catalog} {tenant : String} {write : Write}
    {now : Timestamp} {change : Change},
    related docs c c' → docs.apply tenant write now = .ok (some change, docs') →
      related docs' (c.follow change) (c'.follow change)

/-- Stores that differ in their catalogs only, and these are related. -/
def Twins
    (related : CatalogRelation)
    (s t : Store) :
    Prop :=
  ∃ catalog, t = { s with catalog } ∧ related s.documents s.catalog catalog

/-- The same result twice, with twins after it. -/
abbrev Agree
    (related : CatalogRelation)
    {α : Type}
    (a b : α × Store) :
    Prop :=
  AgreeIn (Twins related) a b

/-- A reply is looked up without the catalog. -/
theorem lookupReply_with_catalog
    (s : Store)
    (catalog : Catalog)
    (tenant key : String)
    (instant : Nat) :
    ({ s with catalog } : Store).lookupReply tenant key instant =
      ((s.lookupReply tenant key instant).1,
        { (s.lookupReply tenant key instant).2 with catalog }) :=
  rfl

section

variable {related : CatalogRelation} {s t : Store}

theorem Twins.lookupReply
    (h : Twins related s t)
    (tenant key : String)
    (instant : Nat) :
    Agree related (s.lookupReply tenant key instant) (t.lookupReply tenant key instant) := by
  obtain ⟨catalog, rfl, hrelated⟩ := h
  exact ⟨_, _, _, rfl, lookupReply_with_catalog s catalog tenant key instant, catalog, rfl,
    hrelated⟩

theorem Twins.record
    (h : Twins related s t)
    (tenant key : String)
    (reply : Reply)
    (instant : Nat) :
    Twins related (s.record tenant key reply instant) (t.record tenant key reply instant) := by
  obtain ⟨catalog, rfl, hrelated⟩ := h
  exact ⟨catalog, rfl, hrelated⟩

theorem Twins.tick
    (h : Twins related s t)
    (clock : Option Timestamp) :
    Twins related { s with clock } { t with clock } := by
  obtain ⟨catalog, rfl, hrelated⟩ := h
  exact ⟨catalog, rfl, hrelated⟩

theorem Twins.clock_eq (h : Twins related s t) :
    t.clock = s.clock := by
  obtain ⟨catalog, rfl, -⟩ := h
  rfl

theorem Twins.documents_eq (h : Twins related s t) :
    t.documents = s.documents := by
  obtain ⟨catalog, rfl, -⟩ := h
  rfl

variable (hkept : related.Kept)

include hkept

/-- Carrying out a write: both fail alike or both succeed alike. -/
theorem Twins.perform
    (h : Twins related s t)
    (tenant : String)
    (write : Write)
    (origin : Origin)
    (now : Timestamp) :
    (∃ e, s.perform tenant write origin now = .error e ∧
        t.perform tenant write origin now = .error e) ∨
      ∃ result s' t', s.perform tenant write origin now = .ok (result, s') ∧
        t.perform tenant write origin now = .ok (result, t') ∧ Twins related s' t' := by
  obtain ⟨catalog, rfl, hrelated⟩ := h
  unfold Store.perform
  cases happly : s.documents.apply tenant write now with
  | error e =>
      exact .inl ⟨e, rfl, rfl⟩
  | ok outcome =>
      obtain ⟨change, documents⟩ := outcome
      cases change with
      | none =>
          exact .inr ⟨_, _, _, rfl, rfl, catalog, rfl, hrelated⟩
      | some change =>
          exact .inr ⟨_, _, _, rfl, rfl, catalog.follow change, rfl, hkept hrelated happly⟩

/-- Twins carry out the writes of a tenant alike. -/
theorem carriesAlike_twins
    (tenant : String)
    (moment : Moment)
    (count : Nat) :
    CarriesAlike tenant moment count fun _ => Twins related where
  version? := by
    intro _ s t h path
    rw [h.documents_eq]
  time := by
    intro _ s t _ h
    rw [h.clock_eq]
  tick := fun _ h => h.tick _
  skip := fun _ h => h
  record := fun h key reply => h.record tenant key reply moment.instant
  perform := fun h write origin now => h.perform hkept tenant write origin now

omit hkept in
theorem findsAlike_twins
    (tenant : String)
    (moment : Moment) :
    FindsAlike tenant moment (Twins related) :=
  fun _ _ h key => h.lookupReply tenant key moment.instant

/-- A single write. -/
theorem Twins.write
    (h : Twins related s t)
    (moment : Moment)
    (tenant actor : String)
    (write : Write)
    (key : Option String) :
    Agree related (s.write moment tenant actor write key)
      (t.write moment tenant actor write key) :=
  agreeIn_of_atSome ((carriesAlike_twins hkept tenant moment 1).write Nat.one_pos
    (findsAlike_twins tenant moment) (fun _ _ hst => hst) h actor write key)

/-- A document created at a path named in a request. -/
theorem Twins.create
    (h : Twins related s t)
    (moment : Moment)
    (tenant actor raw : String)
    (data : Json)
    (key : Option String) :
    Agree related (s.create moment tenant actor raw data key)
      (t.create moment tenant actor raw data key) :=
  agreeIn_of_atSome ((carriesAlike_twins hkept tenant moment 1).create Nat.one_pos
    (findsAlike_twins tenant moment) (fun _ _ hst => hst) h actor raw data key)

/-- A document updated at a path named in a request. -/
theorem Twins.update
    (h : Twins related s t)
    (moment : Moment)
    (tenant actor raw : String)
    (data : Json)
    (ifVersion : Option UInt64)
    (merge : Bool)
    (key : Option String) :
    Agree related (s.update moment tenant actor raw data ifVersion merge key)
      (t.update moment tenant actor raw data ifVersion merge key) :=
  agreeIn_of_atSome ((carriesAlike_twins hkept tenant moment 1).update Nat.one_pos
    (findsAlike_twins tenant moment) (fun _ _ hst => hst) h actor raw data ifVersion merge key)

/-- A document deleted at a path named in a request. -/
theorem Twins.delete
    (h : Twins related s t)
    (moment : Moment)
    (tenant actor raw : String)
    (ifVersion : Option UInt64)
    (key : Option String) :
    Agree related (s.delete moment tenant actor raw ifVersion key)
      (t.delete moment tenant actor raw ifVersion key) :=
  agreeIn_of_atSome ((carriesAlike_twins hkept tenant moment 1).delete Nat.one_pos
    (findsAlike_twins tenant moment) (fun _ _ hst => hst) h actor raw ifVersion key)

/-- A commit. -/
theorem Twins.commit
    (h : Twins related s t)
    (moment : Moment)
    (tx : Transaction)
    (actor : String) :
    Agree related (s.commit moment tx actor) (t.commit moment tx actor) :=
  agreeIn_of_atSome ((carriesAlike_twins hkept tx.tenant moment _).commit (Nat.le_refl _)
    (findsAlike_twins tx.tenant moment) (fun _ _ hst => hst) h actor)

end

end Store
end DocumentStore
