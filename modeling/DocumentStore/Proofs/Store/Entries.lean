import DocumentStore.Proofs.Store.Outcomes

/-!
# What writes leave in the log

A write that succeeds leaves one entry in the log, or none if it deletes what
is not there.  The entry tells the tenant, the path and the kind of the write,
and the payload that the write makes of the one before.  The writes of a
commit leave their entries in order, each under the key derived for its
position.
-/

namespace DocumentStore

/-- The payload after a write, given the one before it. -/
def Write.payloadAfter : Write → (before : Option Json) → Option Json
  | create _ data, _ => some data
  | update _ data _ merge, before =>
      before.map fun base => if merge then Document.overlay base data else data
  | delete .., _ => none

/-- An entry tells of a write in a tenant. -/
structure LogEntry.Tells
    (e : LogEntry)
    (tenant : String)
    (write : Write) :
    Prop where
  tenant : e.tenant = tenant
  path : e.path = write.path
  kind : e.kind = write.kind
  after : e.after = write.payloadAfter e.before

/-- The entry of a change tells of the write that made it. -/
theorem LogEntry.tells_entryOf
    {docs docs' : Documents}
    {tenant : String}
    {write : Write}
    {now : Timestamp}
    {change : Change}
    (h : Documents.Applied docs tenant now write (some change) docs')
    (sequence : Nat)
    (origin : Origin) :
    (ChangeLog.entryOf sequence change origin now).Tells tenant write := by
  cases h with
  | create hnone =>
      exact ⟨rfl, rfl, rfl, rfl⟩
  | update hsome hguard =>
      exact ⟨rfl, rfl, rfl, rfl⟩
  | delete hsome hguard =>
      exact ⟨rfl, rfl, rfl, rfl⟩

/--
Entries that writes have left in order, each under the origin of its write, on
the way from some documents to others.  A write may have left none.
-/
inductive Left
    (tenant : String) :
    List (Write × Origin) → Documents → List LogEntry → Documents → Prop
  | nil
      (docs : Documents) :
      Left tenant [] docs [] docs
  | silent
      {write : Write}
      {origin : Origin}
      {rest : List (Write × Origin)}
      {docs docs' : Documents}
      {entries : List LogEntry}
      (h : Left tenant rest docs entries docs') :
      Left tenant ((write, origin) :: rest) docs entries docs'
  | entry
      {write : Write}
      {origin : Origin}
      {rest : List (Write × Origin)}
      {docs docs' docs'' : Documents}
      {entries : List LogEntry}
      {now : Timestamp}
      {change : Change}
      (sequence : Nat)
      (happlied : Documents.Applied docs tenant now write (some change) docs')
      (h : Left tenant rest docs' entries docs'') :
      Left tenant ((write, origin) :: rest) docs
        (ChangeLog.entryOf sequence change origin now :: entries) docs''

namespace Left

variable
  {tenant : String}
  {writes : List (Write × Origin)}
  {docs docs' : Documents}
  {entries : List LogEntry}

theorem none
    (tenant : String)
    (writes : List (Write × Origin))
    (docs : Documents) :
    Left tenant writes docs [] docs := by
  induction writes with
  | nil =>
      exact .nil docs
  | cons head rest ih =>
      exact .silent ih

/-- Every entry tells of one of the writes, and has its origin. -/
theorem exists_write
    (h : Left tenant writes docs entries docs') :
    ∀ e ∈ entries, ∃ write, (write, e.origin) ∈ writes ∧ e.Tells tenant write := by
  induction h with
  | nil =>
      intro e he
      cases he
  | silent _ ih =>
      intro e he
      obtain ⟨write, hmem, htells⟩ := ih e he
      exact ⟨write, List.mem_cons_of_mem _ hmem, htells⟩
  | entry sequence happlied _ ih =>
      intro e he
      rcases List.mem_cons.1 he with rfl | hrest
      · exact ⟨_, List.mem_cons_self, LogEntry.tells_entryOf happlied sequence _⟩
      · obtain ⟨write, hmem, htells⟩ := ih e hrest
        exact ⟨write, List.mem_cons_of_mem _ hmem, htells⟩

/-- One write and then others leave their entries one after the other. -/
theorem cons
    {write : Write}
    {origin : Origin}
    {docs'' : Documents}
    {entries' : List LogEntry}
    (h : Left tenant [(write, origin)] docs entries docs')
    (hrest : Left tenant writes docs' entries' docs'') :
    Left tenant ((write, origin) :: writes) docs (entries ++ entries') docs'' := by
  cases h with
  | silent hnil =>
      cases hnil
      exact .silent hrest
  | entry sequence happlied hnil =>
      cases hnil
      exact .entry sequence happlied hrest

end Left

/-- A single write to the path that a request names, with the origin of its entry. -/
def Write.requested
    (actor raw : String)
    (key : Option String)
    (writeTo : DocumentPath → Write) :
    List (Write × Origin) :=
  match readPath raw with
  | .ok path => [(writeTo path, ⟨actor, key, none⟩)]
  | .error _ => []

theorem Write.of_mem_requested
    {actor raw : String}
    {key : Option String}
    {writeTo : DocumentPath → Write}
    {write : Write}
    {origin : Origin}
    (h : (write, origin) ∈ requested actor raw key writeTo) :
    ∃ path, readPath raw = .ok path ∧ write = writeTo path := by
  unfold requested at h
  split at h
  · next path hpath =>
      exact ⟨path, hpath, (Prod.mk.inj (List.mem_singleton.1 h)).1⟩
  · cases h

/-- The origin of the entry that a write of a transaction leaves. -/
def Origin.ofMember
    (id actor : String)
    (position : Nat) :
    Origin :=
  ⟨actor, some (id ++ "#" ++ toString position), some id⟩

/-- Writes of a transaction, from a position on, with the origins of their entries. -/
def Write.originated
    (id actor : String) :
    (position : Nat) → List Write → List (Write × Origin)
  | _, [] => []
  | position, write :: rest =>
      (write, Origin.ofMember id actor position) :: originated id actor (position + 1) rest

theorem Write.mem_of_mem_originated
    {id actor : String}
    {position : Nat}
    {writes : List Write}
    {write : Write}
    {origin : Origin}
    (h : (write, origin) ∈ originated id actor position writes) :
    write ∈ writes := by
  induction writes generalizing position with
  | nil =>
      cases h
  | cons first rest ih =>
      rcases List.mem_cons.1 h with heq | hrest
      · cases heq
        exact List.mem_cons_self
      · exact List.mem_cons_of_mem _ (ih hrest)

namespace Store

/-- The log and the documents went on as some writes have left them. -/
def Logs
    (tenant : String)
    (writes : List (Write × Origin))
    (s s' : Store) :
    Prop :=
  ∃ entries, s'.log.entries = s.log.entries ++ entries ∧
    Left tenant writes s.documents entries s'.documents

namespace Logs

variable
  {s s' s'' : Store}
  {tenant : String}
  {writes : List (Write × Origin)}

theorem of_consulted
    (h : Consulted s s')
    (tenant : String)
    (writes : List (Write × Origin)) :
    Logs tenant writes s s' := by
  refine ⟨[], by rw [h.log_eq, List.append_nil], ?_⟩
  rw [h.documents_eq]
  exact .none tenant writes s.documents

theorem of_consulted_left
    (h : Consulted s s')
    (hlogs : Logs tenant writes s' s'') :
    Logs tenant writes s s'' := by
  unfold Logs at hlogs ⊢
  rw [← h.log_eq, ← h.documents_eq]
  exact hlogs

theorem record
    (h : Logs tenant writes s s')
    (tenant' key : String)
    (reply : Reply)
    (instant : Nat) :
    Logs tenant writes s (s'.record tenant' key reply instant) :=
  h

theorem cons
    {write : Write}
    {origin : Origin}
    {rest : List (Write × Origin)}
    (h : Logs tenant [(write, origin)] s s')
    (hrest : Logs tenant rest s' s'') :
    Logs tenant ((write, origin) :: rest) s s'' := by
  obtain ⟨entries, hlog, hleft⟩ := h
  obtain ⟨entries', hlog', hleft'⟩ := hrest
  exact ⟨entries ++ entries', by rw [hlog', hlog, List.append_assoc], hleft.cons hleft'⟩

end Logs

/-- A write leaves its entry. -/
theorem Performed.logs
    {s s' : Store}
    {tenant : String}
    {write : Write}
    {origin : Origin}
    {now : Timestamp}
    {result : WriteResult}
    (h : Performed s tenant write origin now result s') :
    Logs tenant [(write, origin)] s s' := by
  cases h with
  | changed happlied =>
      exact ⟨[_], rfl, .entry _ happlied (.nil _)⟩
  | absent hkind hnone =>
      exact .of_consulted (.refl s) _ _

/-- A write carried out at once leaves its entry. -/
theorem WrittenNow.logs
    {s s' : Store}
    {tenant actor : String}
    {write : Write}
    {key : Option String}
    {answer : Except StoreError WriteResult}
    (h : WrittenNow s tenant actor write key answer s') :
    Logs tenant [(write, ⟨actor, key, none⟩)] s s' := by
  cases h with
  | failed e clock =>
      exact Logs.of_consulted (.refl s) _ _
  | performed hperformed =>
      -- the clock is not among what writes leave
      exact hperformed.logs
  | absent hkind hnone =>
      exact .of_consulted (.refl s) _ _

/-- A single write leaves its entry. -/
theorem logs_write
    (s : Store)
    (moment : Moment)
    (tenant actor : String)
    (write : Write)
    (key : Option String) :
    Logs tenant [(write, ⟨actor, key, none⟩)] s
      (s.write moment tenant actor write key).2 := by
  cases key with
  | none =>
      exact (s.writtenNow_writeNow moment tenant actor write none).logs
  | some k =>
      have hlookup := s.consulted_lookupReply tenant k moment.instant
      have hwritten := s.written_write moment tenant actor write k
      generalize s.write moment tenant actor write (some k) = response at hwritten ⊢
      obtain ⟨answer, final⟩ := response
      cases hwritten with
      | answered heq =>
          rw [heq] at hlookup
          exact .of_consulted hlookup _ _
      | refused heq hkind =>
          rw [heq] at hlookup
          exact .of_consulted hlookup _ _
      | failed heq hrun =>
          rw [heq] at hlookup
          exact hrun.logs.of_consulted_left hlookup
      | carriedOut heq hrun =>
          rw [heq] at hlookup
          exact (hrun.logs.of_consulted_left hlookup).record _ _ _ _

/-- A creation leaves its entry. -/
theorem logs_create
    (s : Store)
    (moment : Moment)
    (tenant actor raw : String)
    (data : Json)
    (key : Option String) :
    Logs tenant (Write.requested actor raw key fun path => .create path data) s
      (s.create moment tenant actor raw data key).2 := by
  unfold Store.create Write.requested
  cases readPath raw with
  | error e =>
      exact .of_consulted (.refl s) _ _
  | ok path =>
      exact s.logs_write moment tenant actor _ key

/-- An update leaves its entry. -/
theorem logs_update
    (s : Store)
    (moment : Moment)
    (tenant actor raw : String)
    (data : Json)
    (ifVersion : Option UInt64)
    (merge : Bool)
    (key : Option String) :
    Logs tenant (Write.requested actor raw key fun path => .update path data ifVersion merge) s
      (s.update moment tenant actor raw data ifVersion merge key).2 := by
  unfold Store.update Write.requested
  cases readPath raw with
  | error e =>
      exact .of_consulted (.refl s) _ _
  | ok path =>
      exact s.logs_write moment tenant actor _ key

/-- A deletion leaves its entry. -/
theorem logs_delete
    (s : Store)
    (moment : Moment)
    (tenant actor raw : String)
    (ifVersion : Option UInt64)
    (key : Option String) :
    Logs tenant (Write.requested actor raw key fun path => .delete path ifVersion) s
      (s.delete moment tenant actor raw ifVersion key).2 := by
  unfold Store.delete Write.requested
  cases readPath raw with
  | error e =>
      exact .of_consulted (.refl s) _ _
  | ok path =>
      exact s.logs_write moment tenant actor _ key

/-- The writes of a commit that are carried out leave their entries. -/
theorem logs_performAll
    (tx : Transaction)
    (moment : Moment)
    (actor : String)
    (pending : List (Write × Option WriteResult)) :
    ∀ (position : Nat) (s : Store),
      Logs tx.tenant (Write.originated tx.id actor position (pending.map Prod.fst)) s
        (performAll tx moment actor position pending s).2 := by
  induction pending with
  | nil =>
      intro position s
      exact .of_consulted (.refl s) _ _
  | cons head rest ih =>
      intro position s
      obtain ⟨write, prior⟩ := head
      cases prior with
      | some prior =>
          obtain ⟨entries, hlog, hleft⟩ := ih (position + 1) s
          unfold performAll
          split <;> rename_i h <;> rw [h] at hlog hleft <;> exact ⟨entries, hlog, .silent hleft⟩
      | none =>
          unfold performAll
          dsimp only
          split
          · exact Logs.of_consulted (.refl s) _ _
          · next result s' hperform =>
              have hfirst := (performed_of_perform hperform).logs
              have hrest := ih (position + 1)
                (s'.record tx.tenant (tx.derivedKey position) (.member result) moment.instant)
              split <;> rename_i h <;> rw [h] at hrest <;> exact Logs.cons hfirst hrest

/-- A commit leaves entries of its writes. -/
theorem logs_commit
    (s : Store)
    (moment : Moment)
    (tx : Transaction)
    (actor : String) :
    Logs tx.tenant (Write.originated tx.id actor 0 tx.writes) s (s.commit moment tx actor).2 := by
  have hlookup := s.consulted_lookupReply tx.tenant tx.id moment.instant
  have hderived := fun s' => consulted_derivedReplies tx moment.instant 0 tx.writes s'
  have hcommitted := s.committed_commit moment tx actor
  generalize s.commit moment tx actor = response at hcommitted ⊢
  obtain ⟨answer, final⟩ := response
  cases hcommitted with
  | answered heq =>
      rw [heq] at hlookup
      exact .of_consulted hlookup _ _
  | refused heq hkind =>
      rw [heq] at hlookup
      exact .of_consulted hlookup _ _
  | @memberRefused _ s' _ heq hfound =>
      have hmore := hderived s'
      rw [heq] at hlookup
      rw [hfound] at hmore
      exact .of_consulted (hlookup.trans hmore) _ _
  | @failed _ s' _ _ heq hfound hrefusal =>
      have hmore := hderived s'
      rw [heq] at hlookup
      rw [hfound] at hmore
      exact .of_consulted (hlookup.trans hmore) _ _
  | @carriedOut _ s' s'' _ priors heq hfound hchecked hrun =>
      have hmore := hderived s'
      have hlogs := logs_performAll tx moment actor (tx.writes.zip priors) 0 s''
      have hlength : tx.writes.length ≤ priors.length :=
        Nat.le_of_eq (length_of_derivedReplies hfound).symm
      rw [heq] at hlookup
      rw [hfound] at hmore
      rw [hrun, List.map_fst_zip hlength] at hlogs
      exact (hlogs.of_consulted_left (hlookup.trans hmore)).record _ _ _ _

end Store
end DocumentStore
