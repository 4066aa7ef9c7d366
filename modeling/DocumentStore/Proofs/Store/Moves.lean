import DocumentStore.Proofs.Store.Documents
import DocumentStore.Store.Basic
import Mathlib.Logic.Relation

/-!
# The moves that requests are made of

Whatever a single write or a commit does to a store, it does by three kinds of
moves: it changes the table of replies, takes a time, or takes a time and
carries out one change of a document.  What every move keeps, every request
keeps.
-/

namespace DocumentStore
namespace Store

open Relation (ReflTransGen)

/-- One move of a store. -/
inductive Move : Store → Store → Prop
  | replies
      (s : Store)
      (replies : Cache (String × String) Reply) :
      Move s { s with replies }
  | tick
      (s : Store)
      (reading : Timestamp) :
      Move s { s with clock := some (timeAfter s.clock reading) }
  | change
      (s : Store)
      (reading : Timestamp)
      {tenant : String}
      {write : Write}
      {change : Change}
      {documents : Documents}
      (happly :
        s.documents.apply tenant write (timeAfter s.clock reading) =
          .ok (some change, documents))
      (origin : Origin) :
      Move s
        ({ s with
            documents
            clock := some (timeAfter s.clock reading) }.publish
          change origin (timeAfter s.clock reading))

/-- Any number of moves. -/
abbrev Moves : Store → Store → Prop :=
  ReflTransGen Move

theorem moves_lookupReply
    (s : Store)
    (tenant key : String)
    (instant : Nat) :
    Moves s (s.lookupReply tenant key instant).2 :=
  .single (.replies s _)

theorem moves_record
    (s : Store)
    (tenant key : String)
    (reply : Reply)
    (instant : Nat) :
    Moves s (s.record tenant key reply instant) :=
  .single (.replies s _)

theorem moves_sweep
    (s : Store)
    (instant : Nat) :
    Moves s (s.sweep instant).2 :=
  .single (.replies s _)

/-- A write at the time that was just taken. -/
theorem moves_perform
    {s s' : Store}
    {reading : Timestamp}
    {tenant : String}
    {write : Write}
    {origin : Origin}
    {result : WriteResult}
    (h : ({ s with clock := some (timeAfter s.clock reading) } : Store).perform
      tenant write origin (timeAfter s.clock reading) = .ok (result, s')) :
    Moves s s' := by
  unfold perform at h
  split at h
  · cases h
  · cases h
    exact .single (.tick s reading)
  · next change documents happly =>
      cases h
      exact .single (.change s reading happly origin)

/-- A write carried out at once is made of moves. -/
theorem moves_writeNow
    (s : Store)
    (moment : Moment)
    (tenant actor : String)
    (write : Write)
    (key : Option String) :
    Moves s (s.writeNow moment tenant actor write key).2 := by
  unfold writeNow
  dsimp only
  split
  · split
    · exact .refl
    · exact .single (.tick s _)
  · exact .refl
  · next result s' _ hperform =>
      exact moves_perform hperform

/-- A single write is made of moves. -/
theorem moves_write
    (s : Store)
    (moment : Moment)
    (tenant actor : String)
    (write : Write)
    (key : Option String) :
    Moves s (s.write moment tenant actor write key).2 := by
  unfold Store.write
  cases key with
  | none =>
      exact s.moves_writeNow moment tenant actor write none
  | some k =>
      have hlookup := s.moves_lookupReply tenant k moment.instant
      dsimp only
      split <;> rename_i s' heq <;> rw [heq] at hlookup
      · split <;> exact hlookup
      · exact hlookup
      · have hwrite := hlookup.trans (s'.moves_writeNow moment tenant actor write (some k))
        split <;> rename_i h <;> rw [h] at hwrite
        · exact hwrite
        · exact hwrite.trans (moves_record _ _ _ _ _)

/-- What lookups keep is kept when the replies to the writes of a transaction are looked up. -/
theorem derivedReplies_preserves
    {motive : Store → Prop}
    {tx : Transaction}
    {instant : Nat}
    (writes : List Write) :
    ∀ (position : Nat) (s : Store),
      (∀ (t : Store) (i : Nat), position ≤ i → i < position + writes.length → motive t →
        motive (t.lookupReply tx.tenant (tx.derivedKey i) instant).2) →
      motive s → motive (derivedReplies tx instant position writes s).2 := by
  induction writes with
  | nil =>
      intro position s _ hs
      exact hs
  | cons write rest ih =>
      intro position s hlookup hs
      rw [List.length_cons] at hlookup
      have hnext := hlookup s position (Nat.le_refl _) (by omega) hs
      have hlater : ∀ s', motive s' →
          motive (derivedReplies tx instant (position + 1) rest s').2 := fun s' =>
        ih (position + 1) s' fun t i hlow hhigh => hlookup t i (by omega) (by omega)
      unfold derivedReplies
      split <;> rename_i s' heq <;> rw [heq] at hnext
      · have hrest := hlater s' hnext
        split <;> next h => rwa [h] at hrest
      · exact hnext
      · have hrest := hlater s' hnext
        split <;> next h => rwa [h] at hrest

/-- Looking up the replies to the writes of a transaction is made of moves. -/
theorem moves_derivedReplies
    (tx : Transaction)
    (instant : Nat)
    (writes : List Write)
    (position : Nat)
    (s : Store) :
    Moves s (derivedReplies tx instant position writes s).2 := by
  refine derivedReplies_preserves (motive := Moves s) writes position s ?_ .refl
  intro t i _ _ ht
  exact ht.trans (t.moves_lookupReply tx.tenant (tx.derivedKey i) instant)

/-- Carrying out the writes of a commit is made of moves. -/
theorem moves_performAll
    (tx : Transaction)
    (moment : Moment)
    (actor : String)
    (pending : List (Write × Option WriteResult)) :
    ∀ (position : Nat) (s : Store),
      Moves s (performAll tx moment actor position pending s).2 := by
  induction pending with
  | nil =>
      intro position s
      exact .refl
  | cons head rest ih =>
      intro position s
      obtain ⟨write, prior⟩ := head
      cases prior with
      | some prior =>
          have hrest := ih (position + 1) s
          unfold performAll
          split <;> next h => rwa [h] at hrest
      | none =>
          unfold performAll
          dsimp only
          split
          · exact .single (.tick s _)
          · next result s' hperform =>
              have hrest := ((moves_perform hperform).trans
                (moves_record s' tx.tenant (tx.derivedKey position) (.member result)
                  moment.instant)).trans (ih (position + 1) _)
              split <;> next h => rwa [h] at hrest

/-- A commit is made of moves. -/
theorem moves_commit
    (s : Store)
    (moment : Moment)
    (tx : Transaction)
    (actor : String) :
    Moves s (s.commit moment tx actor).2 := by
  have hlookup := s.moves_lookupReply tx.tenant tx.id moment.instant
  unfold commit
  split <;> rename_i s' heq <;> rw [heq] at hlookup
  · exact hlookup
  · exact hlookup
  · have hderived := hlookup.trans (moves_derivedReplies tx moment.instant tx.writes 0 s')
    split <;> rename_i found s'' heq' <;> rw [heq'] at hderived
    · exact hderived
    · dsimp only
      split
      · exact hderived
      · have hperform := hderived.trans
          (moves_performAll tx moment actor (tx.writes.zip found) 0 s'')
        split <;> rename_i s''' heq'' <;> rw [heq''] at hperform
        · exact hperform
        · exact hperform.trans (moves_record _ _ _ _ _)

theorem Moves.preserves
    {P : Store → Prop}
    (hstep : ∀ {s s'}, Move s s' → P s → P s')
    {s s' : Store}
    (h : Moves s s')
    (hs : P s) :
    P s' := by
  induction h with
  | refl =>
      exact hs
  | tail _ hmove ih =>
      exact hstep hmove ih

/-- The log only grows. -/
theorem Moves.log_prefix
    {s s' : Store}
    (h : Moves s s') :
    s.log.entries <+: s'.log.entries := by
  refine h.preserves (P := fun t => s.log.entries <+: t.log.entries) ?_ (List.prefix_refl _)
  intro t t' hmove ht
  cases hmove with
  | replies =>
      exact ht
  | tick =>
      exact ht
  | change =>
      exact ht.trans (List.prefix_append _ _)

/-! ### Indexes -/

theorem createIndex_with_catalog
    (s : Store)
    (definition : IndexDefinition) :
    ∃ catalog, (s.createIndex definition).2 = { s with catalog } := by
  unfold createIndex
  split <;> exact ⟨_, rfl⟩

theorem dropIndex_with_catalog
    (s : Store)
    (name : String) :
    ∃ catalog, (s.dropIndex name).2 = { s with catalog } := by
  unfold dropIndex
  split <;> exact ⟨_, rfl⟩

end Store
end DocumentStore
