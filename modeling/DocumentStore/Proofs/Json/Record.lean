import DocumentStore.Json.Record
import DocumentStore.Proofs.Json.ReadBack

/-!
# Written forms that are read back

A written form is faithful when reading it gives back what was written.  A field
that is written faithfully is read back from a record, whether it has to be
there, has a default or may be absent, and so is a list of values that are
written faithfully.  The text of a written form is read back as well when the
values that are carried along in it are.
-/

namespace DocumentStore
namespace Json

/-- What is written is read back as it was. -/
def ReadsBack
    {α : Type}
    (write : α → Json)
    (read? : Json → Option α) :
    Prop :=
  ∀ a, read? (write a) = some a

section Fields

variable {α : Type}
variable {write : α → Json}
variable {read? : Json → Option α}

theorem ReadsBack.required
    (h : ReadsBack write read?)
    (a : α) :
    Json.required read? (some (write a)) = some a :=
  h a

theorem ReadsBack.withDefault
    (h : ReadsBack write read?)
    (default a : α) :
    Json.withDefault default read? (some (write a)) = some a :=
  h a

/-- A field that may be absent is read back, if nothing is written as null. -/
theorem ReadsBack.optional
    (h : ReadsBack write read?)
    (hnull : ∀ a, write a ≠ null)
    (a : Option α) :
    Json.optional read? (some (ofOption write a)) = some a := by
  cases a with
  | none =>
      rfl
  | some a =>
      have hread : Json.optional read? (some (write a)) = (read? (write a)).map some := by
        rw [Json.optional]
        exact fun h => hnull a h
      rw [ofOption, hread, h a, Option.map_some]

/-- A list is read back item by item. -/
theorem ReadsBack.list (h : ReadsBack write read?) :
    ReadsBack (fun l => .array (l.map write)) (asList? read?) := by
  intro l
  change (l.map write).mapM read? = some l
  induction l with
  | nil =>
      rfl
  | cons a l ih =>
      rw [List.map_cons, List.mapM_cons, h a, ih]
      rfl

end Fields

theorem readsBack_string : ReadsBack .string asString? :=
  fun _ => rfl

theorem readsBack_bool : ReadsBack .bool asBool? :=
  fun _ => rfl

theorem readsBack_ofWord : ReadsBack ofWord asWord? := by
  intro w
  have hword : Unsigned64 (w.toNat : Int) := by
    have hlt := w.toNat_lt
    exact ⟨Int.natCast_nonneg _, by omega⟩
  rw [ofWord, ofNat, asWord?, if_pos hword, Int.toNat_natCast, UInt64.ofNat_toNat]

theorem optional_string (s : Option String) :
    Json.optional asString? (some (ofOption .string s)) = some s :=
  readsBack_string.optional (fun _ => nofun) s

theorem optional_ofWord (w : Option UInt64) :
    Json.optional asWord? (some (ofOption ofWord w)) = some w :=
  readsBack_ofWord.optional (fun _ => nofun) w

/-! ### Legible fields -/

section Legible

variable {room : Nat}

@[simp]
theorem legible_string (s : String) :
    (string s).Legible room := by
  rw [Legible]
  exact trivial

@[simp]
theorem legible_bool (b : Bool) :
    (bool b).Legible room := by
  rw [Legible]
  exact trivial

@[simp]
theorem legible_ofWord (w : UInt64) :
    (ofWord w).Legible room := by
  have hlt := w.toNat_lt
  rw [ofWord, ofNat, Legible, Number.Legible]
  exact .inr ⟨Int.natCast_nonneg _, by omega⟩

/-- A value or its absence is legible if every such value is. -/
theorem legible_ofOption
    {α : Type}
    {write : α → Json}
    (h : ∀ a, (write a).Legible room)
    (a : Option α) :
    (ofOption write a).Legible room := by
  cases a with
  | none =>
      rw [ofOption, Legible]
      exact trivial
  | some a =>
      exact h a

@[simp]
theorem legible_ofOption_string (s : Option String) :
    (ofOption string s).Legible room :=
  legible_ofOption legible_string s

@[simp]
theorem legible_ofOption_ofWord (w : Option UInt64) :
    (ofOption ofWord w).Legible room :=
  legible_ofOption legible_ofWord w

/-- A list is legible if its items are where there is one array less around them. -/
theorem legible_map
    {α : Type}
    {write : α → Json}
    {l : List α}
    (h : ∀ a ∈ l, (write a).Legible room) :
    (array (l.map write)).Legible (room + 1) := by
  rw [Legible]
  induction l with
  | nil =>
      rw [List.map_nil, ItemsLegible]
      exact trivial
  | cons a l ih =>
      rw [List.map_cons, ItemsLegible]
      exact ⟨h a List.mem_cons_self, ih fun b hb => h b (List.mem_cons_of_mem a hb)⟩

@[simp]
theorem legible_map_string (l : List String) :
    (array (l.map string)).Legible (room + 1) :=
  legible_map fun s _ => legible_string s

/-- A record is legible if its fields are and stand in ascending order. -/
theorem legible_record
    {members : List (String × Json)}
    {names : List String}
    (hnames : members.map Prod.fst = names)
    (hascending : names.Pairwise (· < ·))
    (h : ∀ m ∈ members, m.2.Legible room) :
    (object members).Legible (room + 1) := by
  have hmembers : MembersLegible room members := by
    clear hnames
    induction members with
    | nil =>
        rw [MembersLegible]
        exact trivial
    | cons m members ih =>
        rw [MembersLegible]
        exact ⟨h m List.mem_cons_self, ih fun m' hm' => h m' (List.mem_cons_of_mem m hm')⟩
  rw [Legible, hnames]
  exact ⟨hascending, hmembers⟩

end Legible

/-! ### Round trips -/

/-- Values, each inside so many arrays and objects, are legible where they stand. -/
def CarriedLegibly
    (room : Nat)
    (carried : List (Nat × Json)) :
    Prop :=
  ∀ c ∈ carried, c.2.Legible (room - c.1)

/--
Writing and reading fit together: what is written is read back, and what can be
read is settled once it has been written again.  With texts for values it is the
same, if the values that are carried along are read back from where they stand in
the text.
-/
structure RoundTrips
    {α : Type}
    (carried : α → List (Nat × Json))
    (write : α → Json)
    (read? : Json → Option α) :
    Prop where
  reads_back : ∀ a, read? (write a) = some a
  settles : ∀ v w, (read? v).map write = some w → (read? w).map write = some w
  text_reads_back : ∀ a, CarriedLegibly nestingLimit (carried a) →
    (parse? (write a).compact).bind read? = some a
  text_settles : ∀ text a, (parse? text).bind read? = some a →
    CarriedLegibly nestingLimit (carried a) →
    ((parse? (write a).compact).bind read?).map (fun b => (write b).compact) =
      some (write a).compact

/-- A faithful written form makes the round trip, if it is as legible as what it carries. -/
theorem ReadsBack.roundTrips
    {α : Type}
    {carried : α → List (Nat × Json)}
    {write : α → Json}
    {read? : Json → Option α}
    (h : ReadsBack write read?)
    (hlegible : ∀ a, CarriedLegibly nestingLimit (carried a) → (write a).Legible nestingLimit) :
    RoundTrips carried write read? := by
  have htext : ∀ a, CarriedLegibly nestingLimit (carried a) →
      (parse? (write a).compact).bind read? = some a := by
    intro a ha
    rw [parse?_compact (hlegible a ha), Option.bind_some, h a]
  refine ⟨h, ?_, htext, ?_⟩
  · intro v w hw
    obtain ⟨a, -, rfl⟩ := Option.map_eq_some_iff.1 hw
    rw [h a, Option.map_some]
  · intro text a _ ha
    rw [htext a ha, Option.map_some]

end Json
end DocumentStore
