import DocumentStore.Proofs.Cache.Part
import DocumentStore.Proofs.Index.Catalog
import DocumentStore.Proofs.Store.Keys
import DocumentStore.Proofs.Store.Simulation

/-!
# The share of a tenant in a store

A store may serve one tenant of several; another store, its own, serves it
alone.  The own store has the documents of the tenant and no others, the same
indexes are declared in it, and it finds the same replies under the keys of the
tenant as long as the shared store displaced no live reply.

While the readings of the wall clock increase strictly, the writes of the tenant
are carried out alike in both stores, and those of other tenants leave the share
of this one as it is.
-/

namespace DocumentStore

/-! ### Documents -/

namespace Documents

/-- The documents of a tenant among those of all. -/
structure Share
    (tenant : String)
    (docs own : Documents) :
    Prop where
  same : ∀ path, own.get? ⟨tenant, path⟩ = docs.get? ⟨tenant, path⟩
  only : ∀ key doc, own.get? key = some doc → key.tenant = tenant

namespace Share

variable {tenant : String} {docs own : Documents}

/-- The documents of a tenant in the order of all documents. -/
theorem entries_eq (h : Share tenant docs own) :
    own.entries = docs.entries.filter fun e => e.1.tenant = tenant := by
  have hasymm : ∀ a b : DocumentKey × Document,
      compare a.1 b.1 = .lt → ¬ compare b.1 a.1 = .lt :=
    fun _ _ hlt hgt => Std.OrientedCmp.not_lt_of_lt hlt hgt
  refine eq_of_pairwise_of_mem_iff hasymm own.ascending (docs.ascending.filter _) ?_
  rintro ⟨⟨named, path⟩, doc⟩
  rw [List.mem_filter, decide_eq_true_eq, ← OrderedMap.get?_eq_some_iff,
    ← OrderedMap.get?_eq_some_iff]
  constructor
  · intro hown
    obtain rfl : named = tenant := h.only _ doc hown
    exact ⟨h.same path ▸ hown, rfl⟩
  · rintro ⟨hdocs, rfl⟩
    rw [h.same path]
    exact hdocs

theorem insert
    (h : Share tenant docs own)
    (path : DocumentPath)
    (doc : Document) :
    Share tenant (docs.insert ⟨tenant, path⟩ doc) (own.insert ⟨tenant, path⟩ doc) where
  same other := by
    rw [OrderedMap.get?_insert, OrderedMap.get?_insert, h.same]
  only key found hfound := by
    rw [OrderedMap.get?_insert] at hfound
    split at hfound
    · next heq =>
        rw [heq]
    · exact h.only key found hfound

theorem erase
    (h : Share tenant docs own)
    (path : DocumentPath) :
    Share tenant (docs.erase ⟨tenant, path⟩) (own.erase ⟨tenant, path⟩) where
  same other := by
    rw [OrderedMap.get?_erase, OrderedMap.get?_erase, h.same]
  only key found hfound := by
    rw [OrderedMap.get?_erase] at hfound
    split at hfound
    · cases hfound
    · exact h.only key found hfound

/-- A write of the tenant fails alike or makes the same change. -/
theorem apply
    (h : Share tenant docs own)
    (write : Write)
    (now : Timestamp) :
    (∃ e, docs.apply tenant write now = .error e ∧ own.apply tenant write now = .error e) ∨
      ∃ change docs' own', docs.apply tenant write now = .ok (change, docs') ∧
        own.apply tenant write now = .ok (change, own') ∧ Share tenant docs' own' := by
  unfold Documents.apply
  simp only [h.same]
  cases hcheck : write.check tenant ((docs.get? ⟨tenant, write.path⟩).map Document.version) with
  | error e =>
      exact .inl ⟨e, rfl, rfl⟩
  | ok next =>
      right
      cases hcurrent : docs.get? ⟨tenant, write.path⟩ with
      | none =>
          cases write with
          | create path data =>
              exact ⟨_, _, _, rfl, rfl, h.insert path _⟩
          | update path data ifVersion merge =>
              exact ⟨_, _, _, rfl, rfl, h⟩
          | delete path ifVersion =>
              exact ⟨_, _, _, rfl, rfl, h⟩
      | some before =>
          cases write with
          | create path data =>
              exact ⟨_, _, _, rfl, rfl, h.insert path _⟩
          | update path data ifVersion merge =>
              exact ⟨_, _, _, rfl, rfl, h.insert path _⟩
          | delete path ifVersion =>
              exact ⟨_, _, _, rfl, rfl, h.erase path⟩

/-- A write of another tenant leaves the documents of this one alone. -/
theorem of_applied_other
    {docs' : Documents}
    {other : String}
    {write : Write}
    {now : Timestamp}
    {change : Option Change}
    (h : Share tenant docs own)
    (happlied : Applied docs other now write change docs')
    (hother : other ≠ tenant) :
    Share tenant docs' own where
  same path := by
    rw [h.same, get?_of_applied_of_ne happlied]
    rintro ⟨⟩
    exact hother rfl
  only := h.only

end Share
end Documents

/-! ### Declared indexes -/

namespace Catalog

/-- The definitions of all indexes by name. -/
def declared (c : Catalog) : OrderedMap String IndexDefinition :=
  c.indexes.mapValues Index.definition

theorem definitions_eq (c : Catalog) :
    c.definitions = c.declared.values := by
  simp [definitions, declared, OrderedMap.values, OrderedMap.mapValues]

@[simp] theorem declared_follow
    (c : Catalog)
    (change : Change) :
    (c.follow change).declared = c.declared := by
  simp [declared, follow, OrderedMap.mapValues]

theorem get?_declared
    (c : Catalog)
    (name : String) :
    c.declared.get? name = (c.indexes.get? name).map Index.definition :=
  OrderedMap.get?_mapValues ..

/-- The definitions after one was declared, if it can be and its name is free. -/
def declaring
    (declared : OrderedMap String IndexDefinition)
    (tenantField : String)
    (definition : IndexDefinition) :
    OrderedMap String IndexDefinition :=
  match definition.normalized tenantField with
  | .error _ => declared
  | .ok normal =>
      match declared.get? normal.name with
      | some _ => declared
      | none => declared.insert normal.name normal

/-- The definitions after one was removed, if it is there. -/
def removing
    (declared : OrderedMap String IndexDefinition)
    (name : String) :
    OrderedMap String IndexDefinition :=
  match declared.get? name with
  | some _ => declared.erase name
  | none => declared

end Catalog

namespace Store

/-- Declaring an index changes the catalog only. -/
theorem exists_catalog_of_createIndex
    (s : Store)
    (definition : IndexDefinition) :
    ∃ catalog, (s.createIndex definition).2 = { s with catalog } ∧
      catalog.tenantField = s.catalog.tenantField ∧
      catalog.declared =
        Catalog.declaring s.catalog.declared s.catalog.tenantField definition := by
  unfold Store.createIndex Catalog.declaring
  rw [Catalog.create_eq]
  cases definition.normalized s.catalog.tenantField with
  | error fault =>
      exact ⟨s.catalog, rfl, rfl, rfl⟩
  | ok normal =>
      dsimp only
      rw [Catalog.get?_declared]
      cases s.catalog.indexes.get? normal.name with
      | some index =>
          exact ⟨s.catalog, rfl, rfl, rfl⟩
      | none =>
          refine ⟨_, rfl, rfl, ?_⟩
          rw [Catalog.declared, OrderedMap.mapValues_insert, Index.definition_ofDocuments]
          rfl

theorem exists_catalog_of_dropIndex
    (s : Store)
    (name : String) :
    ∃ catalog, (s.dropIndex name).2 = { s with catalog } ∧
      catalog.tenantField = s.catalog.tenantField ∧
      catalog.declared = Catalog.removing s.catalog.declared name := by
  unfold Store.dropIndex Catalog.drop Catalog.removing
  rw [Catalog.get?_declared]
  cases s.catalog.indexes.get? name with
  | none =>
      exact ⟨s.catalog, rfl, rfl, rfl⟩
  | some index =>
      exact ⟨_, rfl, rfl, OrderedMap.mapValues_erase ..⟩

/-! ### Readings of the wall clock -/

/-- A clock is behind some readings. -/
def Behind
    (clock : Option Timestamp)
    (readings : List Timestamp) :
    Prop :=
  ∀ last ∈ clock, ∀ reading ∈ readings, last.micros < reading.micros

theorem Behind.of_subset
    {clock : Option Timestamp}
    {readings readings' : List Timestamp}
    (h : Behind clock readings)
    (hsubset : ∀ reading ∈ readings', reading ∈ readings) :
    Behind clock readings' :=
  fun last hlast reading hreading => h last hlast reading (hsubset reading hreading)

theorem timeAfter_of_behind
    {clock : Option Timestamp}
    {reading : Timestamp}
    {rest : List Timestamp}
    (h : Behind clock (reading :: rest)) :
    timeAfter clock reading = reading := by
  unfold timeAfter
  cases clock with
  | none =>
      rfl
  | some last =>
      have hlt := h last rfl reading List.mem_cons_self
      dsimp only
      rw [if_neg (by omega)]

/-- Readings increase strictly, and the first of them are those of a number of writes. -/
structure Upcoming
    (moment : Moment)
    (count : Nat)
    (readings : List Timestamp) :
    Prop where
  increasing : readings.Pairwise fun earlier later => earlier.micros < later.micros
  wall : ∀ n, n < count → readings[n]? = some (moment.wall n)

theorem Upcoming.drop_eq
    {moment : Moment}
    {count n : Nat}
    {readings : List Timestamp}
    (h : Upcoming moment count readings)
    (hn : n < count) :
    readings.drop n = moment.wall n :: readings.drop (n + 1) := by
  obtain ⟨hlength, hwall⟩ := List.getElem?_eq_some_iff.1 (h.wall n hn)
  rw [List.drop_eq_getElem_cons hlength, hwall]

/-- Once a reading was taken, the clock is behind the next ones. -/
theorem Upcoming.behind
    {moment : Moment}
    {count n : Nat}
    {readings : List Timestamp}
    (h : Upcoming moment count readings)
    (hn : n < count) :
    Behind (some (moment.wall n)) (readings.drop (n + 1)) := by
  have hincreasing := h.increasing.sublist (List.drop_sublist n readings)
  rw [h.drop_eq hn] at hincreasing
  rintro _ ⟨⟩ reading hreading
  exact (List.pairwise_cons.1 hincreasing).1 reading hreading

/-! ### The share of a tenant -/

/-- The entries of the replies to a tenant. -/
def ofTenant
    (tenant : String)
    (key : String × String) :
    Bool :=
  key.1 = tenant

/-- A store holds what another one holds for a tenant. -/
structure Share
    (tenant : String)
    (instant : Nat)
    (readings : List Timestamp)
    (s own : Store) :
    Prop where
  limit : own.transactionLimit = s.transactionLimit
  documents : s.documents.Share tenant own.documents
  declared : own.catalog.declared = s.catalog.declared
  tenantField : own.catalog.tenantField = s.catalog.tenantField
  clock : Behind s.clock readings
  clock_own : Behind own.clock readings
  replies : s.replies.stats.evictions = 0 →
    s.replies.Part (ofTenant tenant) instant own.replies

namespace Share

variable
  {tenant : String}
  {instant : Nat}
  {readings : List Timestamp}
  {s own : Store}

theorem new
    (tenant : String)
    (instant : Nat)
    (readings : List Timestamp)
    (limit capacity lifetime : Nat)
    (tenantField : String) :
    Share tenant instant readings (Store.new limit capacity lifetime tenantField)
      (Store.new limit capacity lifetime tenantField) where
  limit := rfl
  documents := ⟨fun _ => rfl, fun _ _ h => by cases h⟩
  declared := rfl
  tenantField := rfl
  clock := fun _ h => by cases h
  clock_own := fun _ h => by cases h
  replies := fun _ => .new ..

/-- Time goes on, and fewer readings are to come. -/
theorem later
    {instant' : Nat}
    {readings' : List Timestamp}
    (h : Share tenant instant readings s own)
    (hle : instant ≤ instant')
    (hsubset : ∀ reading ∈ readings', reading ∈ readings) :
    Share tenant instant' readings' s own where
  limit := h.limit
  documents := h.documents
  declared := h.declared
  tenantField := h.tenantField
  clock := h.clock.of_subset hsubset
  clock_own := h.clock_own.of_subset hsubset
  replies hkept := (h.replies hkept).later hle

theorem find?_eq
    (h : Share tenant instant readings s own)
    (path : DocumentPath) :
    own.find? tenant path = s.find? tenant path :=
  h.documents.same path

theorem version?_eq
    (h : Share tenant instant readings s own)
    (path : DocumentPath) :
    own.documents.version? tenant path = s.documents.version? tenant path := by
  unfold Documents.version?
  rw [h.documents.same path]

/-- The replies may change if the own ones stay a part of all, unless some were displaced. -/
theorem with_replies
    (h : Share tenant instant readings s own)
    {replies replies' : Cache (String × String) Reply}
    (hreplies : replies.stats.evictions = 0 →
      replies.Part (ofTenant tenant) instant replies') :
    Share tenant instant readings { s with replies } { own with replies := replies' } where
  limit := h.limit
  documents := h.documents
  declared := h.declared
  tenantField := h.tenantField
  clock := h.clock
  clock_own := h.clock_own
  replies := hreplies

theorem sweep (h : Share tenant instant readings s own) :
    Share tenant instant readings (s.sweep instant).2 (own.sweep instant).2 :=
  h.with_replies fun hkept => (h.replies hkept).sweep

/-- The catalogs may change if the same indexes are declared in both afterwards. -/
theorem with_catalogs
    (h : Share tenant instant readings s own)
    {catalog catalog' : Catalog}
    (hdeclared : catalog'.declared = catalog.declared)
    (hfield : catalog'.tenantField = catalog.tenantField) :
    Share tenant instant readings { s with catalog } { own with catalog := catalog' } where
  limit := h.limit
  documents := h.documents
  declared := hdeclared
  tenantField := hfield
  clock := h.clock
  clock_own := h.clock_own
  replies := h.replies

theorem createIndex
    (h : Share tenant instant readings s own)
    (definition : IndexDefinition) :
    Share tenant instant readings (s.createIndex definition).2
      (own.createIndex definition).2 := by
  obtain ⟨catalog, hs, hfield, hdeclared⟩ := s.exists_catalog_of_createIndex definition
  obtain ⟨catalog', hown, hfield', hdeclared'⟩ := own.exists_catalog_of_createIndex definition
  rw [hs, hown]
  refine h.with_catalogs ?_ ?_
  · rw [hdeclared, hdeclared', h.declared, h.tenantField]
  · rw [hfield, hfield', h.tenantField]

theorem dropIndex
    (h : Share tenant instant readings s own)
    (name : String) :
    Share tenant instant readings (s.dropIndex name).2 (own.dropIndex name).2 := by
  obtain ⟨catalog, hs, hfield, hdeclared⟩ := s.exists_catalog_of_dropIndex name
  obtain ⟨catalog', hown, hfield', hdeclared'⟩ := own.exists_catalog_of_dropIndex name
  rw [hs, hown]
  refine h.with_catalogs ?_ ?_
  · rw [hdeclared, hdeclared', h.declared]
  · rw [hfield, hfield', h.tenantField]

/-! ### Requests of the tenant -/

/-- A key of the tenant finds the same reply, and nothing is displaced by looking for it. -/
theorem lookupReply
    (h : Share tenant instant readings s own)
    (hkept : s.replies.stats.evictions = 0)
    (key : String) :
    AgreeIn (fun t t' => Share tenant instant readings t t' ∧ t.replies.stats.evictions = 0)
      (s.lookupReply tenant key instant) (own.lookupReply tenant key instant) := by
  have hpart := h.replies hkept
  have hkey : ofTenant tenant (tenant, key) = true := by simp [ofTenant]
  exact ⟨_, _, _, rfl, Prod.ext (hpart.get_fst hkey) rfl,
    h.with_replies fun _ => hpart.get hkey,
    (s.replies.evictions_get (tenant, key) instant).trans hkept⟩

/-- If no reply was displaced after one was recorded, none was before. -/
theorem evictions_eq_of_record
    {key : String × String}
    {reply : Reply}
    (h : (s.replies.insert key reply instant).2.stats.evictions = 0) :
    s.replies.stats.evictions = 0 ∧
      (s.replies.insert key reply instant).2.stats.evictions = s.replies.stats.evictions := by
  have hle := s.replies.evictions_le_insert key reply instant
  omega

theorem record
    (h : Share tenant instant readings s own)
    (key : String)
    (reply : Reply) :
    Share tenant instant readings (s.record tenant key reply instant)
      (own.record tenant key reply instant) := by
  refine h.with_replies fun hkept => ?_
  obtain ⟨hbefore, hsame⟩ := evictions_eq_of_record hkept
  exact (h.replies hbefore).insert (by simp [ofTenant]) hsame

/-- The clocks may change if both stay behind the readings to come. -/
theorem with_clocks
    {readings' : List Timestamp}
    {clock clock' : Option Timestamp}
    (h : Share tenant instant readings s own)
    (hclock : Behind clock readings')
    (hclock' : Behind clock' readings') :
    Share tenant instant readings' { s with clock } { own with clock := clock' } where
  limit := h.limit
  documents := h.documents
  declared := h.declared
  tenantField := h.tenantField
  clock := hclock
  clock_own := hclock'
  replies := h.replies

/-- A write fails in both alike or succeeds in both with the same result. -/
theorem perform
    (h : Share tenant instant readings s own)
    (write : Write)
    (origin : Origin)
    (now : Timestamp) :
    (∃ e, s.perform tenant write origin now = .error e ∧
        own.perform tenant write origin now = .error e) ∨
      ∃ result s' own', s.perform tenant write origin now = .ok (result, s') ∧
        own.perform tenant write origin now = .ok (result, own') ∧
          Share tenant instant readings s' own' := by
  unfold Store.perform
  rcases h.documents.apply write now with ⟨e, hs, hown⟩ | ⟨change, docs, docs', hs, hown, hshare⟩
  · rw [hs, hown]
    exact .inl ⟨e, rfl, rfl⟩
  · rw [hs, hown]
    right
    cases change with
    | none =>
        exact ⟨_, _, _, rfl, rfl, h⟩
    | some change =>
        refine ⟨_, _, _, rfl, rfl, ?_⟩
        exact
          { limit := h.limit
            documents := hshare
            declared := by
              simp only [publish, Catalog.declared_follow]
              exact h.declared
            tenantField := h.tenantField
            clock := h.clock
            clock_own := h.clock_own
            replies := h.replies }

end Share

/-- The own store serves the tenant as the shared one does, before the write at a position. -/
def Serving
    (tenant : String)
    (moment : Moment)
    (count : Nat)
    (readings : List Timestamp) :
    Simulation :=
  fun n s own => n ≤ count ∧ Share tenant moment.instant (readings.drop n) s own

section

variable
  {tenant : String}
  {moment : Moment}
  {count n : Nat}
  {readings : List Timestamp}
  {s own : Store}

theorem Serving.timeAfter_eq
    (h : Serving tenant moment count readings n s own)
    (hup : Upcoming moment count readings)
    (hn : n < count) :
    timeAfter s.clock (moment.wall n) = moment.wall n ∧
      timeAfter own.clock (moment.wall n) = moment.wall n := by
  have hclock := h.2.clock
  have hclock_own := h.2.clock_own
  rw [hup.drop_eq hn] at hclock hclock_own
  exact ⟨timeAfter_of_behind hclock, timeAfter_of_behind hclock_own⟩

theorem Serving.skip
    (h : Serving tenant moment count readings n s own)
    (hn : n < count) :
    Serving tenant moment count readings (n + 1) s own := by
  refine ⟨hn, h.2.later (Nat.le_refl _) fun reading hreading => ?_⟩
  rw [← List.drop_drop] at hreading
  exact List.mem_of_mem_drop hreading

/-- After a request the own store still serves the tenant, with fewer readings to come. -/
theorem Share.of_serving
    {own_readings later : List Timestamp}
    (h : ∃ n, Serving tenant moment count (own_readings ++ later) n s own)
    (hcount : own_readings.length = count) :
    Share tenant moment.instant later s own := by
  obtain ⟨n, hn, hshare⟩ := h
  refine hshare.later (Nat.le_refl _) fun reading hreading => ?_
  rw [List.drop_append_of_le_length (by omega)]
  exact List.mem_append_right _ hreading

/-- The writes of the tenant are carried out alike. -/
theorem carriesAlike_serving (hup : Upcoming moment count readings) :
    CarriesAlike tenant moment count (Serving tenant moment count readings) where
  version? h path := h.2.version?_eq path
  time := by
    intro n s own hn h
    obtain ⟨hs, hown⟩ := h.timeAfter_eq hup hn
    rw [hs, hown]
  tick := by
    intro n s own hn h
    rw [(h.timeAfter_eq hup hn).1]
    exact ⟨hn, h.2.with_clocks (hup.behind hn) (hup.behind hn)⟩
  skip hn h := h.skip hn
  record h key reply := ⟨h.1, h.2.record key reply⟩
  perform := by
    intro n s own h write origin now
    rcases h.2.perform write origin now with hfails | ⟨result, s', own', hs, hown, hshare⟩
    · exact .inl hfails
    · exact .inr ⟨result, s', own', hs, hown, h.1, hshare⟩

/-- The same replies are found under the keys of the tenant, if none was displaced. -/
theorem findsAlike_share
    (tenant : String)
    (moment : Moment)
    (readings : List Timestamp) :
    FindsAlike tenant moment fun s own =>
      Share tenant moment.instant readings s own ∧ s.replies.stats.evictions = 0 :=
  fun _ _ h key => h.1.lookupReply h.2 key

end

/-! ### Requests of other tenants -/

section

variable
  {tenant other : String}
  {instant : Nat}
  {readings : List Timestamp}
  {s own : Store}

/-- A lookup for another tenant leaves the share of this one. -/
theorem Share.lookupReply_other
    (h : Share tenant instant readings s own)
    (hother : other ≠ tenant)
    (key : String) :
    Share tenant instant readings (s.lookupReply other key instant).2 own := by
  refine h.with_replies fun hkept => ?_
  have hsame := s.replies.evictions_get (other, key) instant
  exact (h.replies (hsame.symm.trans hkept)).get_other (by simp [ofTenant, hother])

theorem Share.record_other
    (h : Share tenant instant readings s own)
    (hother : other ≠ tenant)
    (key : String)
    (reply : Reply) :
    Share tenant instant readings (s.record other key reply instant) own := by
  refine h.with_replies fun hkept => ?_
  obtain ⟨hbefore, hsame⟩ := evictions_eq_of_record hkept
  exact (h.replies hbefore).insert_other (by simp [ofTenant, hother]) hsame

/-- A write of another tenant leaves the share of this one. -/
theorem Share.perform_other
    {s' : Store}
    {write : Write}
    {origin : Origin}
    {now : Timestamp}
    {result : WriteResult}
    (h : Share tenant instant readings s own)
    (hother : other ≠ tenant)
    (hperform : s.perform other write origin now = .ok (result, s')) :
    Share tenant instant readings s' own := by
  cases performed_of_perform hperform with
  | absent hkind hnone =>
      exact h
  | changed happlied =>
      exact
        { limit := h.limit
          documents := h.documents.of_applied_other happlied hother
          declared := by
            simp only [publish, Catalog.declared_follow]
            exact h.declared
          tenantField := h.tenantField
          clock := h.clock
          clock_own := h.clock_own
          replies := h.replies }

/-- The requests of other tenants leave the share of this one. -/
theorem keeps_serving
    {moment : Moment}
    {count : Nat}
    (hup : Upcoming moment count readings)
    (hother : other ≠ tenant) :
    Keeps other moment count fun n s => Serving tenant moment count readings n s own where
  tick := by
    intro n s hn h
    rw [(h.timeAfter_eq hup hn).1]
    exact ⟨hn, h.2.with_clocks (hup.behind hn) (h.skip hn).2.clock_own⟩
  skip hn h := h.skip hn
  lookup h key := ⟨h.1, h.2.lookupReply_other hother key⟩
  record h key reply := ⟨h.1, h.2.record_other hother key reply⟩
  perform h write origin now hperform := ⟨h.1, h.2.perform_other hother hperform⟩

/-- Requests displace replies but do not bring them back. -/
theorem keeps_evictions
    (tenant : String)
    (moment : Moment)
    (count bound : Nat) :
    Keeps tenant moment count fun _ s => bound ≤ s.replies.stats.evictions where
  tick _ h := h
  skip _ h := h
  lookup := by
    intro _ s h key
    exact Nat.le_trans h (Nat.le_of_eq (s.replies.evictions_get ..).symm)
  record := by
    intro _ s h key reply
    exact Nat.le_trans h (s.replies.evictions_le_insert ..)
  perform := by
    intro _ s s' result h write origin now hperform
    rwa [(performed_of_perform hperform).replies_eq]

end

end Store
end DocumentStore
