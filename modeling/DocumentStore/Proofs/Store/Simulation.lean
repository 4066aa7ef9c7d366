import DocumentStore.Store.Basic

/-!
# Stores that answer a tenant alike

Two stores may differ in much and still answer every write of a tenant alike:
it is enough that they find the same replies under its keys, and then have the
same versions of its documents and take the same times, and that this stays so
while a write is carried out.  `FindsAlike` says what a relation of stores must
provide for the replies, `CarriesAlike` what it must provide for the writes.
From these it is shown once that single writes and commits agree.

What a single store keeps while it serves a tenant is the case of a store that
is related to itself.
-/

namespace DocumentStore

/-- The same result twice, with related states after it. -/
def AgreeIn
    {α σ : Type}
    (related : σ → σ → Prop)
    (a b : α × σ) :
    Prop :=
  ∃ result s t, a = (result, s) ∧ b = (result, t) ∧ related s t

namespace AgreeIn

variable {α σ : Type} {related related' : σ → σ → Prop} {a b : α × σ}

theorem imp
    (h : AgreeIn related a b)
    (himp : ∀ s t, related s t → related' s t) :
    AgreeIn related' a b := by
  obtain ⟨result, s, t, ha, hb, hst⟩ := h
  exact ⟨result, s, t, ha, hb, himp s t hst⟩

theorem of_fst_eq
    (hfst : b.1 = a.1)
    (hsnd : related a.2 b.2) :
    AgreeIn related a b :=
  ⟨a.1, a.2, b.2, rfl, Prod.ext hfst rfl, hsnd⟩

theorem fst_eq (h : AgreeIn related a b) :
    b.1 = a.1 := by
  obtain ⟨result, s, t, rfl, rfl, -⟩ := h
  rfl

theorem snd (h : AgreeIn related a b) :
    related a.2 b.2 := by
  obtain ⟨result, s, t, rfl, rfl, hst⟩ := h
  exact hst

end AgreeIn

namespace Store

/-- A relation of stores before the write at a position of a request. -/
abbrev Simulation := Nat → Store → Store → Prop

/-- The relation at some position. -/
def Simulation.AtSome
    (R : Simulation)
    (s t : Store) :
    Prop :=
  ∃ n, R n s t

theorem agreeIn_of_atSome
    {α : Type}
    {related : Store → Store → Prop}
    {a b : α × Store}
    (h : AgreeIn (Simulation.AtSome fun _ => related) a b) :
    AgreeIn related a b :=
  h.imp fun _ _ hsome => hsome.elim fun _ hrelated => hrelated

/--
Related stores carry out some number of writes of a tenant at a moment alike,
and stay related.
-/
structure CarriesAlike
    (tenant : String)
    (moment : Moment)
    (count : Nat)
    (R : Simulation) :
    Prop where
  /-- They have the same versions of documents. -/
  version? : ∀ {n s t}, R n s t → ∀ path,
    t.documents.version? tenant path = s.documents.version? tenant path
  /-- They take the same time. -/
  time : ∀ {n s t}, n < count → R n s t →
    timeAfter t.clock (moment.wall n) = timeAfter s.clock (moment.wall n)
  tick : ∀ {n s t}, n < count → R n s t →
    R (n + 1) { s with clock := some (timeAfter s.clock (moment.wall n)) }
      { t with clock := some (timeAfter s.clock (moment.wall n)) }
  /-- A reading need not be taken. -/
  skip : ∀ {n s t}, n < count → R n s t → R (n + 1) s t
  record : ∀ {n s t}, R n s t → ∀ key reply,
    R n (s.record tenant key reply moment.instant) (t.record tenant key reply moment.instant)
  perform : ∀ {n s t}, R n s t → ∀ write origin now,
    (∃ e, s.perform tenant write origin now = .error e ∧
        t.perform tenant write origin now = .error e) ∨
      ∃ result s' t', s.perform tenant write origin now = .ok (result, s') ∧
        t.perform tenant write origin now = .ok (result, t') ∧ R n s' t'

/-- Related stores find the same replies under the keys of a tenant, and stay related. -/
def FindsAlike
    (tenant : String)
    (moment : Moment)
    (Q : Store → Store → Prop) :
    Prop :=
  ∀ ⦃s t⦄, Q s t → ∀ key,
    AgreeIn Q (s.lookupReply tenant key moment.instant) (t.lookupReply tenant key moment.instant)

section

variable
  {Q : Store → Store → Prop}
  {R : Simulation}
  {tenant : String}
  {moment : Moment}
  {count n : Nat}
  {s t : Store}

/-- A write carried out at once. -/
theorem CarriesAlike.writeNow
    (hcarries : CarriesAlike tenant moment count R)
    (hcount : 0 < count)
    (h : R 0 s t)
    (actor : String)
    (write : Write)
    (key : Option String) :
    AgreeIn (R 1) (s.writeNow moment tenant actor write key)
      (t.writeNow moment tenant actor write key) := by
  unfold Store.writeNow
  rw [hcarries.time hcount h]
  have hticked := hcarries.tick hcount h
  rcases hcarries.perform hticked write ⟨actor, key, none⟩
      (timeAfter s.clock (moment.wall 0)) with ⟨e, hs, ht⟩ | ⟨result, s', t', hs, ht, h'⟩
  · simp only [hs, ht]
    by_cases hdelete : write.kind = .delete
    · rw [if_pos hdelete, if_pos hdelete]
      exact ⟨_, s, t, rfl, rfl, hcarries.skip hcount h⟩
    · rw [if_neg hdelete, if_neg hdelete]
      exact ⟨_, _, _, rfl, rfl, hticked⟩
  · simp only [hs, ht]
    cases result with
    | written doc =>
        exact ⟨_, s', t', rfl, rfl, h'⟩
    | deleted existed =>
        cases existed with
        | false =>
            exact ⟨_, s, t, rfl, rfl, hcarries.skip hcount h⟩
        | true =>
            exact ⟨_, s', t', rfl, rfl, h'⟩

/-- Carrying out the writes of a commit. -/
theorem CarriesAlike.performAll
    {tx : Transaction}
    (hcarries : CarriesAlike tx.tenant moment count R)
    (actor : String)
    (pending : List (Write × Option WriteResult))
    (hcount : n + pending.length ≤ count)
    (h : R n s t) :
    AgreeIn R.AtSome (Store.performAll tx moment actor n pending s)
      (Store.performAll tx moment actor n pending t) := by
  induction pending generalizing n s t with
  | nil =>
      exact ⟨_, s, t, rfl, rfl, n, h⟩
  | cons head rest ih =>
      obtain ⟨write, prior⟩ := head
      rw [List.length_cons] at hcount
      have hn : n < count := by omega
      have hrest : n + 1 + rest.length ≤ count := by omega
      cases prior with
      | some prior =>
          obtain ⟨results, s', t', hs, ht, h'⟩ := ih hrest (hcarries.skip hn h)
          unfold Store.performAll
          simp only [hs, ht]
          cases results <;> exact ⟨_, s', t', rfl, rfl, h'⟩
      | none =>
          unfold Store.performAll
          rw [hcarries.time hn h]
          have hticked := hcarries.tick hn h
          rcases hcarries.perform hticked write
              ⟨actor, some (tx.derivedKey n), some tx.id⟩
              (timeAfter s.clock (moment.wall n)) with
            ⟨e, hs, ht⟩ | ⟨result, s', t', hs, ht, h'⟩
          · simp only [hs, ht]
            exact ⟨_, _, _, rfl, rfl, n + 1, hticked⟩
          · obtain ⟨results, s'', t'', hs', ht', h''⟩ :=
              ih hrest (hcarries.record h' (tx.derivedKey n) (.member result))
            simp only [hs, ht, hs', ht']
            cases results <;> exact ⟨_, s'', t'', rfl, rfl, h''⟩

/-- Whether a transaction may be carried out depends on the versions of documents only. -/
theorem refusal?_congr
    {tx : Transaction}
    (h : ∀ path, t.documents.version? tx.tenant path = s.documents.version? tx.tenant path)
    (order : ReadOrder)
    (priors : List (Option WriteResult)) :
    t.refusal? tx order priors = s.refusal? tx order priors := by
  have hstale : t.staleRead? tx order = s.staleRead? tx order := by
    unfold staleRead?
    simp only [h]
  have hfailing : ∀ (pending : List (Write × Option WriteResult)) (position : Nat)
      (overlay : List (DocumentPath × Option Nat)),
      t.failingWrite? tx position overlay pending = s.failingWrite? tx position overlay pending := by
    intro pending
    induction pending with
    | nil =>
        intro position overlay
        rfl
    | cons head rest ih =>
        intro position overlay
        obtain ⟨write, prior⟩ := head
        cases prior with
        | some prior =>
            exact ih (position + 1) overlay
        | none =>
            unfold failingWrite?
            simp only [ih, h]
  unfold refusal?
  rw [hstale, hfailing]

/-- A single write. -/
theorem CarriesAlike.write
    (hcarries : CarriesAlike tenant moment count R)
    (hcount : 0 < count)
    (hfinds : FindsAlike tenant moment Q)
    (hrelated : ∀ s t, Q s t → R 0 s t)
    (h : Q s t)
    (actor : String)
    (write : Write)
    (key : Option String) :
    AgreeIn R.AtSome (s.write moment tenant actor write key)
      (t.write moment tenant actor write key) := by
  unfold Store.write
  cases key with
  | none =>
      exact (hcarries.writeNow hcount (hrelated s t h) actor write none).imp
        fun _ _ h' => ⟨1, h'⟩
  | some k =>
      obtain ⟨reply, s', t', hs, ht, h'⟩ := hfinds h k
      simp only [hs, ht]
      cases reply with
      | none =>
          obtain ⟨result, s'', t'', hs, ht, h''⟩ :=
            hcarries.writeNow hcount (hrelated s' t' h') actor write (some k)
          simp only [hs, ht]
          cases result with
          | error e =>
              exact ⟨_, s'', t'', rfl, rfl, 1, h''⟩
          | ok result =>
              exact ⟨_, _, _, rfl, rfl, 1, hcarries.record h'' _ _⟩
      | some reply =>
          cases reply with
          | single kind result =>
              by_cases hkind : kind = write.kind
              · simp only [if_pos hkind]
                exact ⟨_, s', t', rfl, rfl, 0, hrelated s' t' h'⟩
              · simp only [if_neg hkind]
                exact ⟨_, s', t', rfl, rfl, 0, hrelated s' t' h'⟩
          | member result =>
              exact ⟨_, s', t', rfl, rfl, 0, hrelated s' t' h'⟩
          | committed receipt =>
              exact ⟨_, s', t', rfl, rfl, 0, hrelated s' t' h'⟩

/-- A document created at a path named in a request. -/
theorem CarriesAlike.create
    (hcarries : CarriesAlike tenant moment count R)
    (hcount : 0 < count)
    (hfinds : FindsAlike tenant moment Q)
    (hrelated : ∀ s t, Q s t → R 0 s t)
    (h : Q s t)
    (actor raw : String)
    (data : Json)
    (key : Option String) :
    AgreeIn R.AtSome (s.create moment tenant actor raw data key)
      (t.create moment tenant actor raw data key) := by
  unfold Store.create
  cases readPath raw with
  | error e =>
      exact ⟨_, s, t, rfl, rfl, 0, hrelated s t h⟩
  | ok path =>
      exact hcarries.write hcount hfinds hrelated h actor (.create path data) key

/-- A document updated at a path named in a request. -/
theorem CarriesAlike.update
    (hcarries : CarriesAlike tenant moment count R)
    (hcount : 0 < count)
    (hfinds : FindsAlike tenant moment Q)
    (hrelated : ∀ s t, Q s t → R 0 s t)
    (h : Q s t)
    (actor raw : String)
    (data : Json)
    (ifVersion : Option UInt64)
    (merge : Bool)
    (key : Option String) :
    AgreeIn R.AtSome (s.update moment tenant actor raw data ifVersion merge key)
      (t.update moment tenant actor raw data ifVersion merge key) := by
  unfold Store.update
  cases readPath raw with
  | error e =>
      exact ⟨_, s, t, rfl, rfl, 0, hrelated s t h⟩
  | ok path =>
      exact hcarries.write hcount hfinds hrelated h actor (.update path data ifVersion merge) key

/-- A document deleted at a path named in a request. -/
theorem CarriesAlike.delete
    (hcarries : CarriesAlike tenant moment count R)
    (hcount : 0 < count)
    (hfinds : FindsAlike tenant moment Q)
    (hrelated : ∀ s t, Q s t → R 0 s t)
    (h : Q s t)
    (actor raw : String)
    (ifVersion : Option UInt64)
    (key : Option String) :
    AgreeIn R.AtSome (s.delete moment tenant actor raw ifVersion key)
      (t.delete moment tenant actor raw ifVersion key) := by
  unfold Store.delete
  cases readPath raw with
  | error e =>
      exact ⟨_, s, t, rfl, rfl, 0, hrelated s t h⟩
  | ok path =>
      exact hcarries.write hcount hfinds hrelated h actor (.delete path ifVersion) key

/-- Looking up the replies to the writes of a transaction. -/
theorem FindsAlike.derivedReplies
    {tx : Transaction}
    (hfinds : FindsAlike tx.tenant moment Q)
    (h : Q s t)
    (writes : List Write)
    (position : Nat) :
    AgreeIn Q (Store.derivedReplies tx moment.instant position writes s)
      (Store.derivedReplies tx moment.instant position writes t) := by
  induction writes generalizing position s t with
  | nil =>
      exact ⟨_, s, t, rfl, rfl, h⟩
  | cons write rest ih =>
      obtain ⟨reply, s', t', hs, ht, h'⟩ := hfinds h (tx.derivedKey position)
      obtain ⟨priors, s'', t'', hs', ht', h''⟩ := ih h' (position + 1)
      unfold Store.derivedReplies
      simp only [hs, ht]
      cases reply with
      | none =>
          simp only [hs', ht']
          cases priors <;> exact ⟨_, s'', t'', rfl, rfl, h''⟩
      | some reply =>
          cases reply with
          | single kind result =>
              exact ⟨_, s', t', rfl, rfl, h'⟩
          | member result =>
              simp only [hs', ht']
              cases priors <;> exact ⟨_, s'', t'', rfl, rfl, h''⟩
          | committed receipt =>
              exact ⟨_, s', t', rfl, rfl, h'⟩

/-- A commit. -/
theorem CarriesAlike.commit
    {tx : Transaction}
    (hcarries : CarriesAlike tx.tenant moment count R)
    (hcount : tx.writes.length ≤ count)
    (hfinds : FindsAlike tx.tenant moment Q)
    (hrelated : ∀ s t, Q s t → R 0 s t)
    (h : Q s t)
    (actor : String) :
    AgreeIn R.AtSome (s.commit moment tx actor) (t.commit moment tx actor) := by
  unfold Store.commit
  obtain ⟨reply, s', t', hs, ht, h'⟩ := hfinds h tx.id
  simp only [hs, ht]
  cases reply with
  | some reply =>
      cases reply <;> exact ⟨_, s', t', rfl, rfl, 0, hrelated s' t' h'⟩
  | none =>
      obtain ⟨priors, s'', t'', hs', ht', h''⟩ := hfinds.derivedReplies h' tx.writes 0
      simp only [hs', ht']
      cases priors with
      | error e =>
          exact ⟨_, s'', t'', rfl, rfl, 0, hrelated s'' t'' h''⟩
      | ok priors =>
          have hstart := hrelated s'' t'' h''
          simp only [refusal?_congr (hcarries.version? hstart) moment.order priors]
          split
          · exact ⟨_, s'', t'', rfl, rfl, 0, hrelated s'' t'' h''⟩
          · have hpending : 0 + (tx.writes.zip priors).length ≤ count := by
              rw [List.length_zip]
              omega
            obtain ⟨results, u, v, hu, hv, m, h⟩ :=
              hcarries.performAll actor (tx.writes.zip priors) hpending hstart
            simp only [hu, hv]
            cases results with
            | error e =>
                exact ⟨_, u, v, rfl, rfl, m, h⟩
            | ok results =>
                exact ⟨_, _, _, rfl, rfl, m, hcarries.record h _ _⟩

end

/-! ### What one store keeps -/

/-- A property of a store is kept while some number of writes of a tenant is carried out. -/
structure Keeps
    (tenant : String)
    (moment : Moment)
    (count : Nat)
    (P : Nat → Store → Prop) :
    Prop where
  tick : ∀ {n s}, n < count → P n s →
    P (n + 1) { s with clock := some (timeAfter s.clock (moment.wall n)) }
  /-- A reading need not be taken. -/
  skip : ∀ {n s}, n < count → P n s → P (n + 1) s
  lookup : ∀ {n s}, P n s → ∀ key, P n (s.lookupReply tenant key moment.instant).2
  record : ∀ {n s}, P n s → ∀ key reply, P n (s.record tenant key reply moment.instant)
  perform : ∀ {n s s' result}, P n s → ∀ write origin now,
    s.perform tenant write origin now = .ok (result, s') → P n s'

namespace Keeps

variable
  {tenant : String}
  {moment : Moment}
  {count : Nat}
  {P : Nat → Store → Prop}
  {s : Store}

/-- A store is related to itself if it has a property. -/
def Itself
    (P : Nat → Store → Prop) :
    Simulation :=
  fun n s t => s = t ∧ P n s

theorem carriesAlike (hkeeps : Keeps tenant moment count P) :
    CarriesAlike tenant moment count (Itself P) where
  version? := by
    rintro _ s _ ⟨rfl, -⟩ path
    rfl
  time := by
    rintro _ s _ - ⟨rfl, -⟩
    rfl
  tick := by
    rintro _ s _ hn ⟨rfl, h⟩
    exact ⟨rfl, hkeeps.tick hn h⟩
  skip := by
    rintro _ s _ hn ⟨rfl, h⟩
    exact ⟨rfl, hkeeps.skip hn h⟩
  record := by
    rintro _ s _ ⟨rfl, h⟩ key reply
    exact ⟨rfl, hkeeps.record h key reply⟩
  perform := by
    rintro _ s _ ⟨rfl, h⟩ write origin now
    cases hperform : s.perform tenant write origin now with
    | error e =>
        exact .inl ⟨e, rfl, rfl⟩
    | ok done =>
        obtain ⟨result, s'⟩ := done
        exact .inr ⟨result, s', s', rfl, rfl, rfl, hkeeps.perform h write origin now hperform⟩

theorem findsAlike (hkeeps : Keeps tenant moment count P) :
    FindsAlike tenant moment (Itself P 0) := by
  rintro s _ ⟨rfl, h⟩ key
  exact ⟨_, _, _, rfl, rfl, rfl, hkeeps.lookup h key⟩

theorem of_agreeIn
    {α : Type}
    {a b : α × Store}
    (h : AgreeIn (Simulation.AtSome (Itself P)) a b) :
    ∃ n, P n a.2 := by
  obtain ⟨n, -, hn⟩ := h.snd
  exact ⟨n, hn⟩

variable (hkeeps : Keeps tenant moment count P)

include hkeeps

theorem create
    (hcount : 0 < count)
    (h : P 0 s)
    (actor raw : String)
    (data : Json)
    (key : Option String) :
    ∃ n, P n (s.create moment tenant actor raw data key).2 :=
  of_agreeIn (hkeeps.carriesAlike.create hcount hkeeps.findsAlike (fun _ _ hst => hst) ⟨rfl, h⟩
    actor raw data key)

theorem update
    (hcount : 0 < count)
    (h : P 0 s)
    (actor raw : String)
    (data : Json)
    (ifVersion : Option UInt64)
    (merge : Bool)
    (key : Option String) :
    ∃ n, P n (s.update moment tenant actor raw data ifVersion merge key).2 :=
  of_agreeIn (hkeeps.carriesAlike.update hcount hkeeps.findsAlike (fun _ _ hst => hst) ⟨rfl, h⟩
    actor raw data ifVersion merge key)

theorem delete
    (hcount : 0 < count)
    (h : P 0 s)
    (actor raw : String)
    (ifVersion : Option UInt64)
    (key : Option String) :
    ∃ n, P n (s.delete moment tenant actor raw ifVersion key).2 :=
  of_agreeIn (hkeeps.carriesAlike.delete hcount hkeeps.findsAlike (fun _ _ hst => hst) ⟨rfl, h⟩
    actor raw ifVersion key)

theorem commit
    {tx : Transaction}
    (htenant : tx.tenant = tenant)
    (hcount : tx.writes.length ≤ count)
    (h : P 0 s)
    (actor : String) :
    ∃ n, P n (s.commit moment tx actor).2 := by
  subst htenant
  exact of_agreeIn (hkeeps.carriesAlike.commit hcount hkeeps.findsAlike (fun _ _ hst => hst)
    ⟨rfl, h⟩ actor)

end Keeps

end Store
end DocumentStore
