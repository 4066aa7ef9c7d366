import DocumentStore.Proofs.Store.Calls

/-!
# The history of one document

The entries of the log at one place tell how the document there came to be
what it is: each creation starts from no document and gives version 1, each
update goes on from a document and adds 1 to its version, and each deletion
leaves no document.  Hence a version comes back only after a deletion and a
new creation.
-/

namespace DocumentStore

/-- The place of the document that an entry is about. -/
def LogEntry.place (e : LogEntry) : DocumentKey :=
  ⟨e.tenant, e.path⟩

/-- What some entries made of the document at a place. -/
inductive Leads
    (key : DocumentKey) :
    Option Document → List LogEntry → Option Document → Prop
  | nil
      (doc : Option Document) :
      Leads key doc [] doc
  /-- The entry is about another place. -/
  | other
      {e : LogEntry}
      {rest : List LogEntry}
      {doc doc' : Option Document}
      (hplace : e.place ≠ key)
      (h : Leads key doc rest doc') :
      Leads key doc (e :: rest) doc'
  | created
      {e : LogEntry}
      {rest : List LogEntry}
      {doc : Document}
      {doc' : Option Document}
      (hplace : e.place = key)
      (hkind : e.kind = .create)
      (hversion : doc.version = 1)
      (h : Leads key (some doc) rest doc') :
      Leads key none (e :: rest) doc'
  | updated
      {e : LogEntry}
      {rest : List LogEntry}
      {before after : Document}
      {doc' : Option Document}
      (hplace : e.place = key)
      (hkind : e.kind = .update)
      (hversion : after.version = before.version + 1)
      (h : Leads key (some after) rest doc') :
      Leads key (some before) (e :: rest) doc'
  | deleted
      {e : LogEntry}
      {rest : List LogEntry}
      {before : Document}
      {doc' : Option Document}
      (hplace : e.place = key)
      (hkind : e.kind = .delete)
      (h : Leads key none rest doc') :
      Leads key (some before) (e :: rest) doc'

/-- No entry is about a place. -/
def Untouched
    (key : DocumentKey)
    (entries : List LogEntry) :
    Prop :=
  ∀ e ∈ entries, e.place ≠ key

/-- An entry tells that the document at a place was deleted. -/
def Deleted
    (key : DocumentKey)
    (entries : List LogEntry) :
    Prop :=
  ∃ e ∈ entries, e.place = key ∧ e.kind = .delete

/-- An entry tells that a document was created at a place. -/
def Created
    (key : DocumentKey)
    (entries : List LogEntry) :
    Prop :=
  ∃ e ∈ entries, e.place = key ∧ e.kind = .create

/-- The document at a place was deleted, and one was created there later. -/
def Recreated
    (key : DocumentKey)
    (entries : List LogEntry) :
    Prop :=
  ∃ first rest, entries = first ++ rest ∧ Deleted key first ∧ Created key rest

theorem Recreated.cons
    {key : DocumentKey}
    {entries : List LogEntry}
    (h : Recreated key entries)
    (e : LogEntry) :
    Recreated key (e :: entries) := by
  obtain ⟨first, rest, rfl, ⟨deletion, hmem, hdeletion⟩, hcreated⟩ := h
  exact ⟨e :: first, rest, rfl, ⟨deletion, List.mem_cons_of_mem _ hmem, hdeletion⟩, hcreated⟩

theorem Recreated.deleted
    {key : DocumentKey}
    {entries : List LogEntry}
    (h : Recreated key entries) :
    Deleted key entries := by
  obtain ⟨first, rest, rfl, ⟨deletion, hmem, hdeletion⟩, -⟩ := h
  exact ⟨deletion, List.mem_append_left _ hmem, hdeletion⟩

namespace Leads

variable {key : DocumentKey} {doc doc' doc'' : Option Document} {entries entries' : List LogEntry}

/-- Some entries and then others. -/
theorem trans
    (h : Leads key doc entries doc')
    (h' : Leads key doc' entries' doc'') :
    Leads key doc (entries ++ entries') doc'' := by
  induction h with
  | nil =>
      exact h'
  | other hplace _ ih =>
      exact .other hplace (ih h')
  | created hplace hkind hversion _ ih =>
      exact .created hplace hkind hversion (ih h')
  | updated hplace hkind hversion _ ih =>
      exact .updated hplace hkind hversion (ih h')
  | deleted hplace hkind _ ih =>
      exact .deleted hplace hkind (ih h')

/-- Entries about other places leave the document alone. -/
theorem eq_of_untouched
    (h : Leads key doc entries doc')
    (huntouched : Untouched key entries) :
    doc' = doc := by
  induction h with
  | nil =>
      rfl
  | other _ _ ih =>
      exact ih fun e he => huntouched e (List.mem_cons_of_mem _ he)
  | created hplace _ _ _ _ =>
      exact absurd hplace (huntouched _ List.mem_cons_self)
  | updated hplace _ _ _ _ =>
      exact absurd hplace (huntouched _ List.mem_cons_self)
  | deleted hplace _ _ _ =>
      exact absurd hplace (huntouched _ List.mem_cons_self)

/-- Where there was no document, there is none or one was created. -/
theorem eq_none_or_created
    (h : Leads key doc entries doc')
    (hdoc : doc = none) :
    doc' = none ∨ Created key entries := by
  induction h with
  | nil =>
      exact .inl hdoc
  | other _ _ ih =>
      rcases ih hdoc with hnone | ⟨e, hmem, hcreation⟩
      · exact .inl hnone
      · exact .inr ⟨e, List.mem_cons_of_mem _ hmem, hcreation⟩
  | @created e _ _ _ hplace hkind _ _ _ =>
      exact .inr ⟨e, List.mem_cons_self, hplace, hkind⟩
  | updated =>
      cases hdoc
  | deleted =>
      cases hdoc

/--
A document was left alone, has a later version, was deleted, or was deleted and
created again.
-/
theorem cases_of_some
    {seen : Document}
    (h : Leads key doc entries doc')
    (hdoc : doc = some seen) :
    Untouched key entries ∧ doc' = some seen ∨
      (∃ current, doc' = some current ∧ seen.version < current.version) ∨
      Deleted key entries ∧ doc' = none ∨
      Recreated key entries := by
  induction h generalizing seen with
  | nil =>
      exact .inl ⟨fun e he => absurd he List.not_mem_nil, hdoc⟩
  | @other e _ _ _ hplace _ ih =>
      rcases ih hdoc with ⟨huntouched, hsame⟩ | hlater | ⟨⟨d, hmem, hdeletion⟩, hnone⟩ | hagain
      · refine .inl ⟨fun e' he' => ?_, hsame⟩
        rcases List.mem_cons.1 he' with rfl | hrest
        · exact hplace
        · exact huntouched e' hrest
      · exact .inr (.inl hlater)
      · exact .inr (.inr (.inl ⟨⟨d, List.mem_cons_of_mem _ hmem, hdeletion⟩, hnone⟩))
      · exact .inr (.inr (.inr (hagain.cons e)))
  | created =>
      cases hdoc
  | @updated e _ before after _ _ _ hversion _ ih =>
      cases hdoc
      rcases ih rfl with ⟨-, hsame⟩ | ⟨current, hcurrent, hlt⟩ | ⟨⟨d, hmem, hdeletion⟩, hnone⟩ | hagain
      · exact .inr (.inl ⟨after, hsame, by omega⟩)
      · exact .inr (.inl ⟨current, hcurrent, by omega⟩)
      · exact .inr (.inr (.inl ⟨⟨d, List.mem_cons_of_mem _ hmem, hdeletion⟩, hnone⟩))
      · exact .inr (.inr (.inr (hagain.cons e)))
  | @deleted e rest _ _ hplace hkind h _ =>
      have hdeleted : ∀ more, Deleted key (e :: more) := fun more =>
        ⟨e, List.mem_cons_self, hplace, hkind⟩
      rcases h.eq_none_or_created rfl with hnone | hcreated
      · exact .inr (.inr (.inl ⟨hdeleted rest, hnone⟩))
      · exact .inr (.inr (.inr ⟨[e], rest, rfl, hdeleted [], hcreated⟩))

/--
If the document has the version that was seen, then it was left alone since, or
was deleted and created again.
-/
theorem untouched_or_recreated
    {seen current : Document}
    (h : Leads key (some seen) entries (some current))
    (hversion : current.version = seen.version) :
    Untouched key entries ∧ current = seen ∨ Recreated key entries := by
  rcases h.cases_of_some rfl with ⟨huntouched, hsame⟩ | ⟨later, hlater, hlt⟩ | ⟨-, hnone⟩ | hagain
  · exact .inl ⟨huntouched, Option.some.inj hsame⟩
  · cases hlater
    omega
  · cases hnone
  · exact .inr hagain

theorem deleted_of_none
    {seen : Document}
    (h : Leads key (some seen) entries none) :
    Deleted key entries := by
  rcases h.cases_of_some rfl with ⟨-, hsame⟩ | ⟨later, hlater, -⟩ | ⟨hdeleted, -⟩ | hagain
  · cases hsame
  · cases hlater
  · exact hdeleted
  · exact hagain.deleted

end Leads

/-- The place of the entry that a write leaves. -/
theorem LogEntry.place_entryOf
    {docs docs' : Documents}
    {tenant : String}
    {write : Write}
    {now : Timestamp}
    {change : Change}
    (h : Documents.Applied docs tenant now write (some change) docs')
    (sequence : Nat)
    (origin : Origin) :
    (ChangeLog.entryOf sequence change origin now).place = ⟨tenant, write.path⟩ := by
  have htells := LogEntry.tells_entryOf h sequence origin
  unfold LogEntry.place
  rw [htells.tenant, htells.path]

/-- The entry of a change leads from the document before it to the one after it. -/
theorem Leads.of_applied
    {docs docs' : Documents}
    {tenant : String}
    {write : Write}
    {now : Timestamp}
    {change : Change}
    (h : Documents.Applied docs tenant now write (some change) docs')
    (sequence : Nat)
    (origin : Origin)
    (key : DocumentKey) :
    Leads key (docs.get? key) [ChangeLog.entryOf sequence change origin now] (docs'.get? key) := by
  have hplace := LogEntry.place_entryOf h sequence origin
  by_cases hkey : key = ⟨tenant, write.path⟩
  · subst hkey
    cases h with
    | @create path data hnone =>
        have hafter := OrderedMap.get?_insert docs ⟨tenant, path⟩ ⟨tenant, path⟩
          (Document.new path data tenant now)
        rw [if_pos rfl] at hafter
        simp only [Write.path]
        rw [hnone, hafter]
        exact .created hplace rfl rfl (.nil _)
    | @update path data _ merge before hsome hguard =>
        have hafter := OrderedMap.get?_insert docs ⟨tenant, path⟩ ⟨tenant, path⟩
          (before.revise data merge now)
        rw [if_pos rfl] at hafter
        simp only [Write.path]
        rw [hsome, hafter]
        exact .updated hplace rfl rfl (.nil _)
    | @delete path _ before hsome hguard =>
        have hafter := OrderedMap.get?_erase docs ⟨tenant, path⟩ ⟨tenant, path⟩
        rw [if_pos rfl] at hafter
        simp only [Write.path]
        rw [hsome, hafter]
        exact .deleted hplace rfl (.nil _)
  · rw [Documents.get?_of_applied_of_ne h hkey]
    exact .other (fun h => hkey (h.symm.trans hplace)) (.nil _)

/-- The entries that writes leave lead from each document to the one after them. -/
theorem Left.leads
    {tenant : String}
    {writes : List (Write × Origin)}
    {docs docs' : Documents}
    {entries : List LogEntry}
    (h : Left tenant writes docs entries docs')
    (key : DocumentKey) :
    Leads key (docs.get? key) entries (docs'.get? key) := by
  induction h with
  | nil docs =>
      exact .nil _
  | silent _ ih =>
      exact ih
  | entry sequence happlied _ ih =>
      exact (Leads.of_applied happlied sequence _ key).trans ih

/-- Whenever a write left an entry, it was applied to what the entries before had made. -/
theorem Left.exists_applied
    {tenant : String}
    {writes : List (Write × Origin)}
    {docs docs' : Documents}
    {first rest : List LogEntry}
    {e : LogEntry}
    (h : Left tenant writes docs (first ++ e :: rest) docs') :
    ∃ write change now between after, (write, e.origin) ∈ writes ∧
      Documents.Applied between tenant now write (some change) after ∧
      ∀ key, Leads key (docs.get? key) first (between.get? key) := by
  generalize hentries : first ++ e :: rest = entries at h
  induction h generalizing first with
  | nil docs =>
      exact absurd hentries (by simp)
  | silent _ ih =>
      obtain ⟨write, change, now, between, after, hmem, happlied, hleads⟩ := ih hentries
      exact ⟨write, change, now, between, after, List.mem_cons_of_mem _ hmem, happlied, hleads⟩
  | entry sequence happlied h ih =>
      cases first with
      | nil =>
          obtain ⟨rfl, rfl⟩ := List.cons.inj hentries
          exact ⟨_, _, _, _, _, List.mem_cons_self, happlied, fun key => .nil _⟩
      | cons head first =>
          obtain ⟨rfl, hrest⟩ := List.cons.inj hentries
          obtain ⟨write, change, now, between, after, hmem, happlied', hleads⟩ := ih hrest
          exact ⟨write, change, now, between, after, List.mem_cons_of_mem _ hmem, happlied',
            fun key => (Leads.of_applied happlied sequence _ key).trans (hleads key)⟩

namespace Store

/-- The entries that calls add lead from each document to the one after the calls. -/
theorem leads_afterCalls
    (s : Store)
    (calls : List (Moment × Call))
    (key : DocumentKey) :
    ∃ entries, (s.afterCalls calls).log.entries = s.log.entries ++ entries ∧
      Leads key (s.documents.get? key) entries ((s.afterCalls calls).documents.get? key) := by
  induction calls generalizing s with
  | nil =>
      exact ⟨[], (List.append_nil _).symm, .nil _⟩
  | cons call rest ih =>
      obtain ⟨tenant, entries, hlog, hleft⟩ := s.exists_logs_serve call.1 call.2
      obtain ⟨entries', hlog', hleads⟩ := ih (s.serve call.1 call.2).2
      refine ⟨entries ++ entries', ?_, (hleft.leads key).trans hleads⟩
      rw [← List.append_assoc, ← hlog, ← hlog']
      rfl

end Store
end DocumentStore
