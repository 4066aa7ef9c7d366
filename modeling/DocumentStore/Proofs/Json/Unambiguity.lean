import DocumentStore.Proofs.Json.Literals

/-!
# One text, one value

The compact text of a value without binary64 numbers is the text of no other such
value.  More is proved by induction on the value: when two texts that begin with
values are the same, they begin with the same value.  The first character tells
the kind of the value, and what follows a value inside an array or an object is
never a digit, so integers end where they should.
-/

namespace DocumentStore
namespace Json

mutual

/-- All numbers in a value are integers. -/
def IntegersOnly : Json → Prop
  | number (.integer _) => True
  | number (.float _) => False
  | array items => ItemsIntegersOnly items
  | object members => MembersIntegersOnly members
  | _ => True

/-- All numbers in the items of an array are integers. -/
def ItemsIntegersOnly : List Json → Prop
  | [] => True
  | v :: rest => IntegersOnly v ∧ ItemsIntegersOnly rest

/-- All numbers in the members of an object are integers. -/
def MembersIntegersOnly : List (String × Json) → Prop
  | [] => True
  | (_, v) :: rest => IntegersOnly v ∧ MembersIntegersOnly rest

end

/-! ### Beginnings of texts -/

/-- The kinds of values, which their texts show in the first character. -/
inductive Kind where
  | null
  | bool
  | number
  | string
  | array
  | object
deriving DecidableEq

/-- The kind of a value. -/
def kind : Json → Kind
  | null => .null
  | bool _ => .bool
  | number _ => .number
  | string _ => .string
  | array _ => .array
  | object _ => .object

/-- The kind of the values whose texts begin with a character, if any do. -/
def kindOfLead? (c : Char) : Option Kind :=
  if c = 'n' then some .null
  else if c = 't' ∨ c = 'f' then some .bool
  else if c = '"' then some .string
  else if c = '[' then some .array
  else if c = '\x7b' then some .object
  else if c = '-' ∨ c.isDigit = true then some .number
  else none

theorem kindOfLead?_of_isDigit
    {c : Char}
    (h : c.isDigit = true) :
    kindOfLead? c = some .number := by
  have hne : ∀ d : Char, d.isDigit = false → c ≠ d := by
    rintro d hd rfl
    rw [h] at hd
    cases hd
  simp [kindOfLead?, h, hne 'n' (by decide), hne 't' (by decide), hne 'f' (by decide),
    hne '"' (by decide), hne '[' (by decide), hne '\x7b' (by decide)]

theorem renderInt_eq_cons (i : Int) :
    ∃ c rest, renderInt i = c :: rest ∧ kindOfLead? c = some .number := by
  unfold renderInt
  split
  · exact ⟨_, _, rfl, by decide⟩
  · obtain ⟨c, digits, hcons, hdigit⟩ := renderNat_eq_cons i.natAbs
    exact ⟨c, digits, hcons, kindOfLead?_of_isDigit hdigit⟩

/-- The text of a decimal begins with a digit. -/
theorem renderDecimal_eq_cons (d : Binary64.Decimal) :
    ∃ c rest, renderDecimal d = c :: rest ∧ c.isDigit = true := by
  obtain ⟨c, digits, hcons, hdigit⟩ := renderNat_eq_cons d.digits
  unfold renderDecimal
  rw [hcons]
  dsimp only
  split
  · exact ⟨c, _, rfl, hdigit⟩
  · split
    · next hpoint =>
        obtain ⟨point, htake⟩ := Nat.exists_eq_succ_of_ne_zero
          (n := (((c :: digits).length : Int) + d.exponent).toNat) (by omega)
        rw [htake, List.take_succ_cons]
        exact ⟨c, _, rfl, hdigit⟩
    · split
      · exact ⟨'0', _, rfl, by decide⟩
      · cases digits with
        | nil => exact ⟨c, _, rfl, hdigit⟩
        | cons c' digits => exact ⟨c, _, rfl, hdigit⟩

/-- The text of a binary64 number begins like a number. -/
theorem renderBinary64_eq_cons (x : Binary64) :
    ∃ c rest, renderBinary64 x = c :: rest ∧ kindOfLead? c = some .number := by
  have hbody : ∃ c rest, (if x.magnitude = 0 then ['0', '.', '0']
      else renderDecimal (Binary64.shortest x.magnitude)) = c :: rest ∧ c.isDigit = true := by
    split
    · exact ⟨'0', _, rfl, by decide⟩
    · exact renderDecimal_eq_cons _
  obtain ⟨c, rest, hcons, hdigit⟩ := hbody
  unfold renderBinary64
  rw [hcons]
  dsimp only
  split
  · exact ⟨'-', _, rfl, by decide⟩
  · exact ⟨c, rest, rfl, kindOfLead?_of_isDigit hdigit⟩

/-- The text of a value begins like its kind. -/
theorem render_eq_cons (v : Json) :
    ∃ c rest, render v = c :: rest ∧ kindOfLead? c = some v.kind := by
  cases v with
  | null =>
      exact ⟨_, _, by rw [render], rfl⟩
  | bool b =>
      cases b with
      | false => exact ⟨_, _, by rw [render], rfl⟩
      | true => exact ⟨_, _, by rw [render], rfl⟩
  | number n =>
      rw [render]
      cases n with
      | integer i => exact renderInt_eq_cons i
      | float x => exact renderBinary64_eq_cons x
  | string s =>
      exact ⟨_, _, by rw [render, renderString], rfl⟩
  | array items =>
      cases items with
      | nil => exact ⟨_, _, by rw [render], rfl⟩
      | cons v rest => exact ⟨_, _, by rw [render], rfl⟩
  | object members =>
      cases members with
      | nil => exact ⟨_, _, by rw [render], rfl⟩
      | cons m rest => exact ⟨_, _, by rw [render], rfl⟩

variable {v w : Json} {as bs : List Json} {ms ns : List (String × Json)} {rest more : List Char}

theorem kind_eq_of_render_append_eq
    (h : render v ++ rest = render w ++ more) :
    v.kind = w.kind := by
  obtain ⟨c, _, hc, hkind⟩ := render_eq_cons v
  obtain ⟨d, _, hd, hkind'⟩ := render_eq_cons w
  rw [hc, hd] at h
  obtain ⟨rfl, -⟩ := List.cons.inj h
  exact Option.some.inj (hkind.symm.trans hkind')

/-- The text of a value does not begin with a closing bracket, nor any character of that sort. -/
theorem render_append_ne_cons
    {c : Char}
    (hc : kindOfLead? c = none) :
    render v ++ rest ≠ c :: more := by
  intro h
  obtain ⟨d, _, hd, hkind⟩ := render_eq_cons v
  rw [hd] at h
  obtain ⟨rfl, -⟩ := List.cons.inj h
  rw [hc] at hkind
  cases hkind

/-- After an item an array goes on with a comma or a bracket. -/
theorem endsDigits_renderItems
    (items : List Json)
    (rest : List Char) :
    EndsDigits (renderItems items ++ rest) := by
  cases items with
  | nil =>
      rw [renderItems]
      exact endsDigits_cons (by decide) _
  | cons v items =>
      rw [renderItems]
      exact endsDigits_cons (by decide) _

/-- After a member an object goes on with a comma or a brace. -/
theorem endsDigits_renderMembers
    (members : List (String × Json))
    (rest : List Char) :
    EndsDigits (renderMembers members ++ rest) := by
  cases members with
  | nil =>
      rw [renderMembers]
      exact endsDigits_cons (by decide) _
  | cons m members =>
      rw [renderMembers]
      exact endsDigits_cons (by decide) _

/-! ### Unambiguity -/

theorem render_array_cons_append
    (v : Json)
    (items : List Json)
    (rest : List Char) :
    render (.array (v :: items)) ++ rest = '[' :: (render v ++ (renderItems items ++ rest)) := by
  simp [render]

theorem renderItems_cons_append
    (v : Json)
    (items : List Json)
    (rest : List Char) :
    renderItems (v :: items) ++ rest = ',' :: (render v ++ (renderItems items ++ rest)) := by
  simp [renderItems]

theorem render_object_cons_append
    (k : String)
    (v : Json)
    (members : List (String × Json))
    (rest : List Char) :
    render (.object ((k, v) :: members)) ++ rest =
      '\x7b' :: (renderString k ++ ':' :: (render v ++ (renderMembers members ++ rest))) := by
  simp [render]

theorem renderMembers_cons_append
    (k : String)
    (v : Json)
    (members : List (String × Json))
    (rest : List Char) :
    renderMembers ((k, v) :: members) ++ rest =
      ',' :: (renderString k ++ ':' :: (render v ++ (renderMembers members ++ rest))) := by
  simp [renderMembers]

mutual

/-- Texts that begin with values begin with the same one. -/
theorem render_append_inj :
    {v w : Json} → {rest more : List Char} →
    v.IntegersOnly → w.IntegersOnly → EndsDigits rest → EndsDigits more →
    render v ++ rest = render w ++ more → v = w ∧ rest = more
  | .null, w, rest, more, hv, hw, _, _, h => by
      cases w with
      | null => exact ⟨rfl, List.append_cancel_left h⟩
      | _ => cases kind_eq_of_render_append_eq h
  | .bool a, w, rest, more, hv, hw, _, _, h => by
      cases w with
      | bool b =>
          cases a <;> cases b <;> simp_all [render]
      | _ => cases kind_eq_of_render_append_eq h
  | .number (.integer i), w, rest, more, hv, hw, hrest, hmore, h => by
      cases w with
      | number n =>
          cases n with
          | integer j =>
              rw [render, render, renderNumber, renderNumber] at h
              obtain ⟨rfl, hsame⟩ := renderInt_append_inj hrest hmore h
              exact ⟨rfl, hsame⟩
          | float y =>
              rw [IntegersOnly] at hw
              cases hw
      | _ => cases kind_eq_of_render_append_eq h
  | .number (.float _), _, _, _, hv, _, _, _, _ => by
      rw [IntegersOnly] at hv
      cases hv
  | .string s, w, rest, more, hv, hw, _, _, h => by
      cases w with
      | string t =>
          rw [render, render] at h
          obtain ⟨rfl, hsame⟩ := renderString_inj h
          exact ⟨rfl, hsame⟩
      | _ => cases kind_eq_of_render_append_eq h
  | .array [], w, rest, more, hv, hw, _, _, h => by
      cases w with
      | array bs =>
          cases bs with
          | nil =>
              exact ⟨rfl, List.append_cancel_left h⟩
          | cons b bs =>
              rw [render_array_cons_append, render] at h
              exact absurd (List.cons.inj h).2.symm (render_append_ne_cons rfl)
      | _ => cases kind_eq_of_render_append_eq h
  | .array (a :: as), w, rest, more, hv, hw, _, _, h => by
      cases w with
      | array bs =>
          rw [IntegersOnly, ItemsIntegersOnly] at hv
          cases bs with
          | nil =>
              rw [render_array_cons_append, render] at h
              exact absurd (List.cons.inj h).2 (render_append_ne_cons rfl)
          | cons b bs =>
              rw [IntegersOnly, ItemsIntegersOnly] at hw
              rw [render_array_cons_append, render_array_cons_append] at h
              obtain ⟨rfl, htail⟩ := render_append_inj hv.1 hw.1 (endsDigits_renderItems as rest)
                (endsDigits_renderItems bs more) (List.cons.inj h).2
              obtain ⟨rfl, hsame⟩ := renderItems_append_inj hv.2 hw.2 htail
              exact ⟨rfl, hsame⟩
      | _ => cases kind_eq_of_render_append_eq h
  | .object [], w, rest, more, hv, hw, _, _, h => by
      cases w with
      | object ns =>
          cases ns with
          | nil =>
              exact ⟨rfl, List.append_cancel_left h⟩
          | cons n ns =>
              rw [render, render, renderString] at h
              cases (List.cons.inj (List.cons.inj h).2).1
      | _ => cases kind_eq_of_render_append_eq h
  | .object ((k, a) :: ms), w, rest, more, hv, hw, _, _, h => by
      cases w with
      | object ns =>
          cases ns with
          | nil =>
              rw [render, render, renderString] at h
              cases (List.cons.inj (List.cons.inj h).2).1
          | cons n ns =>
              obtain ⟨l, b⟩ := n
              rw [IntegersOnly, MembersIntegersOnly] at hv hw
              rw [render_object_cons_append, render_object_cons_append] at h
              obtain ⟨rfl, hvalue⟩ := renderString_inj (List.cons.inj h).2
              obtain ⟨rfl, htail⟩ := render_append_inj hv.1 hw.1
                (endsDigits_renderMembers ms rest) (endsDigits_renderMembers ns more)
                (List.cons.inj hvalue).2
              obtain ⟨rfl, hsame⟩ := renderMembers_append_inj hv.2 hw.2 htail
              exact ⟨rfl, hsame⟩
      | _ => cases kind_eq_of_render_append_eq h

/-- Texts in which arrays go on in one way go on with the same items. -/
theorem renderItems_append_inj :
    {as bs : List Json} → {rest more : List Char} →
    ItemsIntegersOnly as → ItemsIntegersOnly bs →
    renderItems as ++ rest = renderItems bs ++ more → as = bs ∧ rest = more
  | [], [], _, _, _, _, h => ⟨rfl, List.append_cancel_left h⟩
  | [], b :: bs, _, _, _, _, h => by
      rw [renderItems, renderItems] at h
      cases (List.cons.inj h).1
  | a :: as, [], _, _, _, _, h => by
      rw [renderItems, renderItems] at h
      cases (List.cons.inj h).1
  | a :: as, b :: bs, rest, more, hv, hw, h => by
      rw [ItemsIntegersOnly] at hv hw
      rw [renderItems_cons_append, renderItems_cons_append] at h
      obtain ⟨rfl, htail⟩ := render_append_inj hv.1 hw.1 (endsDigits_renderItems as rest)
        (endsDigits_renderItems bs more) (List.cons.inj h).2
      obtain ⟨rfl, hsame⟩ := renderItems_append_inj hv.2 hw.2 htail
      exact ⟨rfl, hsame⟩

/-- Texts in which objects go on in one way go on with the same members. -/
theorem renderMembers_append_inj :
    {ms ns : List (String × Json)} → {rest more : List Char} →
    MembersIntegersOnly ms → MembersIntegersOnly ns →
    renderMembers ms ++ rest = renderMembers ns ++ more → ms = ns ∧ rest = more
  | [], [], _, _, _, _, h => ⟨rfl, List.append_cancel_left h⟩
  | [], (l, b) :: ns, _, _, _, _, h => by
      rw [renderMembers, renderMembers] at h
      cases (List.cons.inj h).1
  | (k, a) :: ms, [], _, _, _, _, h => by
      rw [renderMembers, renderMembers] at h
      cases (List.cons.inj h).1
  | (k, a) :: ms, (l, b) :: ns, rest, more, hv, hw, h => by
      rw [MembersIntegersOnly] at hv hw
      rw [renderMembers_cons_append, renderMembers_cons_append] at h
      obtain ⟨rfl, hvalue⟩ := renderString_inj (List.cons.inj h).2
      obtain ⟨rfl, htail⟩ := render_append_inj hv.1 hw.1 (endsDigits_renderMembers ms rest)
        (endsDigits_renderMembers ns more) (List.cons.inj hvalue).2
      obtain ⟨rfl, hsame⟩ := renderMembers_append_inj hv.2 hw.2 htail
      exact ⟨rfl, hsame⟩

end

theorem render_inj
    (hv : v.IntegersOnly)
    (hw : w.IntegersOnly)
    (h : render v = render w) :
    v = w := by
  have hsame : render v ++ [] = render w ++ [] := by rw [h]
  exact (render_append_inj hv hw endsDigits_nil endsDigits_nil hsame).1

end Json
end DocumentStore
