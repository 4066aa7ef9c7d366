import DocumentStore.Proofs.Cache
import DocumentStore.Proofs.Store.Moves
import DocumentStore.Proofs.Store.Timeless

/-!
# Looking up recorded replies

A lookup of a reply changes nothing but the table of replies, and that only by
dropping or reordering entries.  A transaction none of whose keys has a reply
finds no results of earlier writes.
-/

namespace DocumentStore
namespace Store

/-- The reply that a key is answered with. -/
def reply?
    (s : Store)
    (tenant key : String)
    (instant : Nat) :
    Option Reply :=
  (s.lookupReply tenant key instant).1

/-- Nothing but replies was dropped or reordered. -/
structure Consulted (before after : Store) : Prop where
  /-- No reply was added. -/
  replies : ∀ e ∈ after.replies.entries, e ∈ before.replies.entries
  /-- All else is as before. -/
  rest : after = { before with replies := after.replies }

namespace Consulted

theorem refl
    (s : Store) :
    Consulted s s :=
  ⟨fun _ h => h, rfl⟩

theorem trans
    {s s' s'' : Store}
    (h : Consulted s s')
    (h' : Consulted s' s'') :
    Consulted s s'' where
  replies e he := h.replies e (h'.replies e he)
  rest := by
    rw [h'.rest, h.rest]

theorem timeless_eq
    {s s' : Store}
    (h : Consulted s s') :
    s'.timeless = s.timeless := by
  rw [h.rest]
  rfl

theorem documents_eq
    {s s' : Store}
    (h : Consulted s s') :
    s'.documents = s.documents := by
  rw [h.rest]

theorem log_eq
    {s s' : Store}
    (h : Consulted s s') :
    s'.log = s.log := by
  rw [h.rest]

end Consulted

theorem consulted_lookupReply
    (s : Store)
    (tenant key : String)
    (instant : Nat) :
    Consulted s (s.lookupReply tenant key instant).2 :=
  ⟨fun _ => Cache.mem_of_mem_get, rfl⟩

/-- After a lookup that found no reply, no other key has got one. -/
theorem reply?_lookupReply
    {s : Store}
    {tenant key other : String}
    {instant : Nat}
    (hkey : s.reply? tenant key instant = none)
    (hother : s.reply? tenant other instant = none) :
    (s.lookupReply tenant key instant).2.reply? tenant other instant = none :=
  Cache.get_fst_of_get_eq_none hkey _ _ hother

/-- Looking up the replies to the writes of a transaction adds none. -/
theorem consulted_derivedReplies
    (tx : Transaction)
    (instant : Nat)
    (position : Nat)
    (writes : List Write)
    (s : Store) :
    Consulted s (derivedReplies tx instant position writes s).2 := by
  refine derivedReplies_preserves (motive := Consulted s) writes position s ?_ (.refl s)
  intro t i _ _ ht
  exact ht.trans (t.consulted_lookupReply tx.tenant (tx.derivedKey i) instant)

/-- The writes of a transaction have no replies when none of their keys has one. -/
theorem derivedReplies_of_reply?_eq_none
    {tx : Transaction}
    {instant : Nat}
    {position : Nat}
    {writes : List Write}
    {s : Store}
    (h : ∀ i, position ≤ i → i < position + writes.length →
      s.reply? tx.tenant (tx.derivedKey i) instant = none) :
    (derivedReplies tx instant position writes s).1 = .ok (writes.map fun _ => none) := by
  induction writes generalizing position s with
  | nil =>
      rfl
  | cons write rest ih =>
      have hhere : s.reply? tx.tenant (tx.derivedKey position) instant = none :=
        h position (Nat.le_refl _) (by simp)
      have hrest : (derivedReplies tx instant (position + 1) rest
          (s.lookupReply tx.tenant (tx.derivedKey position) instant).2).1 =
            .ok (rest.map fun _ => none) :=
        ih fun i hlow hhigh =>
          reply?_lookupReply hhere (h i (by omega) (by simp only [List.length_cons]; omega))
      obtain ⟨r, s', hlookup⟩ :
          ∃ r s', s.lookupReply tx.tenant (tx.derivedKey position) instant = (r, s') :=
        ⟨_, _, rfl⟩
      have hr : r = none := by
        rw [reply?, hlookup] at hhere
        exact hhere
      subst hr
      rw [hlookup] at hrest
      unfold derivedReplies
      rw [hlookup]
      dsimp only at hrest ⊢
      cases hrun : derivedReplies tx instant (position + 1) rest s' with
      | mk answer s'' =>
          rw [hrun] at hrest
          cases hrest
          rfl

@[simp] theorem reply?_lookupReply_same
    (s : Store)
    (tenant key : String)
    (instant : Nat)
    (other : String) :
    (s.lookupReply tenant key instant).2.reply? tenant other instant =
      s.reply? tenant other instant :=
  Cache.get_fst_get s.replies (tenant, key) (tenant, other) instant

/-- The result recorded for the write at a position of a transaction. -/
def prior?
    (s : Store)
    (tx : Transaction)
    (instant : Nat)
    (position : Nat) :
    Option WriteResult :=
  match s.reply? tx.tenant (tx.derivedKey position) instant with
  | some (.member result) => some result
  | _ => none

/-- A lookup does not change the recorded results of its instant. -/
theorem prior?_lookupReply
    (s : Store)
    (tx : Transaction)
    (key : String)
    (instant : Nat) :
    (s.lookupReply tx.tenant key instant).2.prior? tx instant = s.prior? tx instant := by
  funext position
  unfold prior?
  rw [reply?_lookupReply_same]

/-- The first write of a transaction has a recorded result or no reply, and so have the rest. -/
theorem exists_of_derivedReplies_cons
    {tx : Transaction}
    {instant : Nat}
    {position : Nat}
    {write : Write}
    {rest : List Write}
    {s s' : Store}
    {priors : List (Option WriteResult)}
    (h : derivedReplies tx instant position (write :: rest) s = (.ok priors, s')) :
    ∃ first later between,
      s.lookupReply tx.tenant (tx.derivedKey position) instant =
        (Option.map Reply.member first, between) ∧
      derivedReplies tx instant (position + 1) rest between = (.ok later, s') ∧
      priors = first :: later := by
  unfold derivedReplies at h
  split at h
  · next result between hlookup =>
      split at h
      · next later _ hrest =>
          cases h
          exact ⟨some result, later, between, hlookup, hrest, rfl⟩
      · cases h
  · cases h
  · next between hlookup =>
      split at h
      · next later _ hrest =>
          cases h
          exact ⟨none, later, between, hlookup, hrest, rfl⟩
      · cases h

/-- The results found for the writes of a transaction are the recorded ones. -/
theorem priors_of_derivedReplies
    {tx : Transaction}
    {instant : Nat}
    {position : Nat}
    {writes : List Write}
    {s s' : Store}
    {priors : List (Option WriteResult)}
    (h : derivedReplies tx instant position writes s = (.ok priors, s')) :
    priors = (List.range' position writes.length).map (s.prior? tx instant) := by
  induction writes generalizing position s priors with
  | nil =>
      cases h
      rfl
  | cons write rest ih =>
      obtain ⟨first, later, between, hlookup, hrest, rfl⟩ := exists_of_derivedReplies_cons h
      have hsame := s.prior?_lookupReply tx (tx.derivedKey position) instant
      rw [hlookup] at hsame
      have hhere : s.prior? tx instant position = first := by
        unfold prior? reply?
        rw [hlookup]
        cases first <;> rfl
      rw [List.length_cons, List.range'_succ, List.map_cons, hhere, ih hrest, hsame]

theorem length_of_derivedReplies
    {tx : Transaction}
    {instant : Nat}
    {position : Nat}
    {writes : List Write}
    {s s' : Store}
    {priors : List (Option WriteResult)}
    (h : derivedReplies tx instant position writes s = (.ok priors, s')) :
    priors.length = writes.length := by
  rw [priors_of_derivedReplies h, List.length_map, List.length_range']

end Store
end DocumentStore
