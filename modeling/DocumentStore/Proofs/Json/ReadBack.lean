import DocumentStore.Proofs.Json.Unambiguity
import DocumentStore.Proofs.Text

/-!
# Text that is read back

The compact text of a value is read as that value, when the value lists its
members in ascending order and is not nested too deeply, its integers have 64 bits
and its binary64 numbers are read back from their digits.  An integer and a
binary64 number are never taken for each other.  A number is told from what
follows, since that is a comma or a closing bracket; so by induction on the value
its text is read as its tree, whatever follows, with the length of the text as fuel.
-/

namespace DocumentStore
namespace Json

/-! ### Numbers -/

/-- A text that cannot belong to the number before it. -/
def EndsNumber (rest : List Char) : Prop :=
  ∀ c more, rest = c :: more → c.isDigit = false ∧ c ≠ '.' ∧ c ≠ 'e' ∧ c ≠ 'E'

theorem EndsNumber.endsDigits
    {rest : List Char}
    (h : EndsNumber rest) :
    EndsDigits rest :=
  fun c more hrest => (h c more hrest).1

/-- The digits at the start of a text stay what they are when other text follows. -/
theorem takeWhile_isDigit_append
    (cs : List Char)
    {rest : List Char}
    (h : EndsDigits rest) :
    (cs ++ rest).takeWhile Char.isDigit = cs.takeWhile Char.isDigit := by
  induction cs with
  | nil =>
      cases rest with
      | nil =>
          rfl
      | cons c more =>
          exact List.takeWhile_cons_of_neg (by simp [h c more rfl])
  | cons c cs ih =>
      rw [List.cons_append, List.takeWhile_cons, List.takeWhile_cons, ih]

theorem drop_digits_append
    (cs rest : List Char) :
    (cs ++ rest).drop (cs.takeWhile Char.isDigit).length =
      cs.drop (cs.takeWhile Char.isDigit).length ++ rest :=
  List.drop_append_of_le_length (cs.takeWhile_sublist Char.isDigit).length_le

/-- A fraction, or its absence, is told from what follows. -/
theorem fraction?_append
    (cs : List Char)
    {rest left : List Char}
    {fraction : Option (List Char)}
    (h : Parser.fraction? cs = some (fraction, left))
    (hrest : EndsNumber rest) :
    Parser.fraction? (cs ++ rest) = some (fraction, left ++ rest) := by
  have hother : ∀ {text : List Char}, (∀ more, text ≠ '.' :: more) →
      Parser.fraction? text = some (none, text) := by
    intro text htext
    exact Parser.fraction?.eq_2 text htext
  match cs with
  | [] =>
      cases h
      exact hother fun more hmore => (hrest _ _ hmore).2.1 rfl
  | c :: cs =>
      by_cases hc : c = '.'
      · subst hc
        rw [List.cons_append, Parser.fraction?, takeWhile_isDigit_append cs hrest.endsDigits,
          drop_digits_append]
        rw [Parser.fraction?] at h
        split at h
        · cases h
        · next hdigits =>
            cases h
            rw [if_neg hdigits]
      · have hne : ∀ text more : List Char, c :: text ≠ '.' :: more :=
          fun text more heq => hc (List.cons.inj heq).1
        rw [hother (hne cs)] at h
        cases h
        exact hother (hne _)

/-- A power of ten without sign is told from what follows. -/
theorem power?_append
    {negative : Bool}
    {cs rest left : List Char}
    {e : Int}
    (h : Parser.power? negative cs = some (e, left))
    (hrest : EndsDigits rest) :
    Parser.power? negative (cs ++ rest) = some (e, left ++ rest) := by
  unfold Parser.power? at h ⊢
  dsimp only at h ⊢
  rw [takeWhile_isDigit_append cs hrest, drop_digits_append]
  split at h
  · cases h
  · next hdigits =>
      cases h
      rw [if_neg hdigits]

/-- A power of ten is told from what follows. -/
theorem signedPower?_append
    {cs rest left : List Char}
    {e : Int}
    (h : Parser.signedPower? cs = some (e, left))
    (hrest : EndsDigits rest) :
    Parser.signedPower? (cs ++ rest) = some (e, left ++ rest) := by
  match cs with
  | [] =>
      cases h
  | c :: cs =>
      by_cases hminus : c = '-'
      · subst hminus
        exact power?_append h hrest
      · by_cases hplus : c = '+'
        · subst hplus
          exact power?_append h hrest
        · have hother : ∀ text : List Char,
              Parser.signedPower? (c :: text) = Parser.power? false (c :: text) :=
            fun text => Parser.signedPower?.eq_3 _ (fun _ heq => hminus (List.cons.inj heq).1)
              fun _ heq => hplus (List.cons.inj heq).1
          rw [hother] at h
          rw [List.cons_append, hother]
          exact power?_append h hrest

/-- An exponent, or its absence, is told from what follows. -/
theorem exponent?_append
    (cs : List Char)
    {rest left : List Char}
    {exponent : Option Int}
    (h : Parser.exponent? cs = some (exponent, left))
    (hrest : EndsNumber rest) :
    Parser.exponent? (cs ++ rest) = some (exponent, left ++ rest) := by
  match cs with
  | [] =>
      cases h
      cases rest with
      | nil => rfl
      | cons c more =>
          obtain ⟨-, -, he, hE⟩ := hrest c more rfl
          exact if_neg (by simp [he, hE])
  | c :: cs =>
      by_cases hc : c = 'e' ∨ c = 'E'
      · rw [Parser.exponent?, if_pos hc] at h
        obtain ⟨⟨e, left'⟩, hpower, hleft⟩ := Option.map_eq_some_iff.1 h
        cases hleft
        rw [List.cons_append, Parser.exponent?, if_pos hc,
          signedPower?_append hpower hrest.endsDigits]
        rfl
      · rw [Parser.exponent?, if_neg hc] at h
        cases h
        exact if_neg hc

/-- A number without sign is told from what follows. -/
theorem unsigned?_append
    {negative : Bool}
    {cs rest left : List Char}
    {n : Option Number}
    (h : Parser.unsigned? negative cs = some (n, left))
    (hrest : EndsNumber rest) :
    Parser.unsigned? negative (cs ++ rest) = some (n, left ++ rest) := by
  unfold Parser.unsigned? at h ⊢
  dsimp only at h ⊢
  rw [takeWhile_isDigit_append cs hrest.endsDigits, drop_digits_append]
  split at h
  · cases h
  · next hdigits =>
      rw [if_neg hdigits]
      split at h
      · cases h
      · next fraction more hfraction =>
          rw [fraction?_append _ hfraction hrest]
          dsimp only
          split at h
          · cases h
          · next exponent left' hexponent =>
              cases h
              rw [exponent?_append _ hexponent hrest]

/-- A number is told from what follows. -/
theorem number?_append
    {cs rest left : List Char}
    {n : Option Number}
    (h : Parser.number? cs = some (n, left))
    (hrest : EndsNumber rest) :
    Parser.number? (cs ++ rest) = some (n, left ++ rest) := by
  match cs with
  | [] =>
      cases h
  | c :: cs =>
      by_cases hc : c = '-'
      · subst hc
        exact unsigned?_append h hrest
      · have hne : ∀ text more : List Char, c :: text = '-' :: more → False :=
          fun text more heq => hc (List.cons.inj heq).1
        rw [Parser.number?.eq_2 _ (hne cs)] at h
        rw [List.cons_append, Parser.number?.eq_2 _ (hne _)]
        exact unsigned?_append h hrest

theorem digitChar_ne_zero :
    ∀ d < 10, d ≠ 0 → Nat.digitChar d ≠ '0' := by
  decide

theorem renderNat_of_lt
    {n : Nat}
    (h : n < 10) :
    renderNat n = [Nat.digitChar n] :=
  Nat.toDigits_of_lt_base h

/-- A greater number is written with its last digit behind the others. -/
theorem renderNat_of_le
    {n : Nat}
    (h : 10 ≤ n) :
    renderNat n = renderNat (n / 10) ++ [Nat.digitChar (n % 10)] :=
  Nat.toDigits_of_base_le (by decide) h

/-- The digits of a number have its value. -/
theorem digitsValue_renderNat (n : Nat) :
    Text.digitsValue 10 (renderNat n) = n := by
  induction n using Nat.strongRecOn with
  | ind n ih =>
      rcases Nat.lt_or_ge n 10 with hn | hn
      · rw [renderNat_of_lt hn]
        exact (Text.digitsValue_append_digit [] hn).trans (Nat.zero_add n)
      · rw [renderNat_of_le hn, Text.digitsValue_append_digit _ (by omega), ih (n / 10) (by omega)]
        omega

theorem head?_renderNat
    {n : Nat}
    (h : n ≠ 0) :
    (renderNat n).head? ≠ some '0' := by
  induction n using Nat.strongRecOn with
  | ind n ih =>
      rcases Nat.lt_or_ge n 10 with hn | hn
      · rw [renderNat_of_lt hn]
        exact fun heq => digitChar_ne_zero n hn h (Option.some.inj heq)
      · have hrest := ih (n / 10) (by omega) (by omega)
        obtain ⟨c, digits, hcons, -⟩ := renderNat_eq_cons (n / 10)
        rw [hcons] at hrest
        rw [renderNat_of_le hn, hcons]
        exact hrest

/-- The digits of a number are read as a literal without fraction and exponent. -/
theorem unsigned?_renderNat
    (negative : Bool)
    (n : Nat)
    {rest : List Char}
    (hrest : EndsNumber rest) :
    Parser.unsigned? negative (renderNat n ++ rest) =
      some (Parser.literal? negative (renderNat n) none none, rest) := by
  have hzero : ((renderNat n).isEmpty ||
      ((renderNat n).length != 1 && (renderNat n).head? == some '0')) = false := by
    obtain ⟨c, digits, hcons, -⟩ := renderNat_eq_cons n
    by_cases hn : n = 0
    · subst hn
      decide
    · have hhead := head?_renderNat hn
      rw [hcons] at hhead ⊢
      simpa using fun _ => hhead
  have hfraction : Parser.fraction? rest = some (none, rest) :=
    fraction?_append [] rfl hrest
  have hexponent : Parser.exponent? rest = some (none, rest) :=
    exponent?_append [] rfl hrest
  unfold Parser.unsigned?
  dsimp only
  rw [takeWhile_renderNat n hrest.endsDigits, hzero, List.drop_left, hfraction]
  dsimp only
  rw [hexponent]
  rfl

/-- An integer of 64 bits is read back. -/
theorem number?_renderInt
    {i : Int}
    (hi : Signed64 i ∨ Unsigned64 i)
    {rest : List Char}
    (hrest : EndsNumber rest) :
    Parser.number? (renderInt i ++ rest) = some (some (.integer i), rest) := by
  unfold renderInt
  split
  · next hneg =>
      have hsigned : Signed64 i := by
        rcases hi with hi | hi
        · exact hi
        · exact absurd hi.1 (by omega)
      have hliteral :
          Parser.literal? true (renderNat i.natAbs) none none = some (.integer i) := by
        have hzero : i.natAbs ≠ 0 := by omega
        have habs : -(i.natAbs : Int) = i := by omega
        simp only [Parser.literal?, digitsValue_renderNat, Option.isSome_none, Bool.or_self,
          Bool.false_eq_true, if_false, if_true, if_neg hzero, habs, if_pos hsigned]
      change Parser.unsigned? true (renderNat i.natAbs ++ rest) = _
      rw [unsigned?_renderNat true _ hrest, hliteral]
  · next hneg =>
      have habs : (i.natAbs : Int) = i := by omega
      have hunsigned : Unsigned64 i := by
        rcases hi with ⟨-, hlt⟩ | hi
        · exact ⟨by omega, by omega⟩
        · exact hi
      have hliteral :
          Parser.literal? false (renderNat i.natAbs) none none = some (.integer i) := by
        simp only [Parser.literal?, digitsValue_renderNat, Option.isSome_none, Bool.or_self,
          Bool.false_eq_true, if_false, habs, if_pos hunsigned]
      obtain ⟨c, digits, hcons, hdigit⟩ := renderNat_eq_cons i.natAbs
      have hsign : ∀ more : List Char, renderNat i.natAbs ++ rest = '-' :: more → False := by
        intro more heq
        rw [hcons] at heq
        obtain ⟨rfl, -⟩ := List.cons.inj heq
        exact absurd hdigit (by decide)
      rw [Parser.number?.eq_2 _ hsign, unsigned?_renderNat false _ hrest, hliteral]

/-- A number that is read back from its text. -/
def Number.Legible : Number → Prop
  | .integer i => Signed64 i ∨ Unsigned64 i
  | .float x => Parser.number? (renderBinary64 x) = some (some (.float x), [])

/-- A legible number is read back, whatever follows. -/
theorem number?_renderNumber
    {n : Number}
    (hn : n.Legible)
    {rest : List Char}
    (hrest : EndsNumber rest) :
    Parser.number? (renderNumber n ++ rest) = some (some n, rest) := by
  cases n with
  | integer i =>
      exact number?_renderInt hn hrest
  | float x =>
      exact number?_append hn hrest

/-! ### Values -/

theorem isSpace_eq_false_of_lead
    {c : Char}
    {k : Kind}
    (h : kindOfLead? c = some k) :
    Parser.isSpace c = false := by
  have hne : ∀ d : Char, kindOfLead? d = none → c ≠ d := by
    rintro d hd rfl
    rw [h] at hd
    cases hd
  simp [Parser.isSpace, hne ' ' (by decide), hne '\t' (by decide), hne '\n' (by decide),
    hne '\r' (by decide)]

theorem skip_cons
    {c : Char}
    (h : Parser.isSpace c = false)
    (rest : List Char) :
    Parser.skip (c :: rest) = c :: rest :=
  List.dropWhile_cons_of_neg (by simp [h])

theorem skip_render
    (v : Json)
    (rest : List Char) :
    Parser.skip (render v ++ rest) = render v ++ rest := by
  obtain ⟨c, tail, hcons, hkind⟩ := render_eq_cons v
  rw [hcons]
  exact skip_cons (isSpace_eq_false_of_lead hkind) _

theorem skip_renderString
    (s : String)
    (rest : List Char) :
    Parser.skip (renderString s ++ rest) = renderString s ++ rest :=
  skip_cons (by decide) _

mutual

/-- The tree of the text of a value. -/
def toSource : Json → Source
  | null => .null
  | bool b => .bool b
  | number n => .number (some n)
  | string s => .string (some s)
  | array items => .array (itemsToSource items)
  | object members => .object (membersToSource members)

/-- The trees of the texts of the items of an array. -/
def itemsToSource : List Json → List Source
  | [] => []
  | v :: rest => toSource v :: itemsToSource rest

/-- The trees of the texts of the members of an object. -/
def membersToSource : List (String × Json) → List (Option String × Source)
  | [] => []
  | (k, v) :: rest => (some k, toSource v) :: membersToSource rest

end

mutual

/--
A value that is read back from its text where there is room for so many arrays and
objects inside each other.
-/
def Legible : (room : Nat) → Json → Prop
  | _, null | _, bool _ | _, string _ => True
  | _, number n => n.Legible
  | room + 1, array items => ItemsLegible room items
  | room + 1, object members =>
      (members.map Prod.fst).Pairwise (· < ·) ∧ MembersLegible room members
  | 0, array _ | 0, object _ => False

/-- All items of an array are read back. -/
def ItemsLegible : (room : Nat) → List Json → Prop
  | _, [] => True
  | room, v :: rest => Legible room v ∧ ItemsLegible room rest

/-- All values of the members of an object are read back. -/
def MembersLegible : (room : Nat) → List (String × Json) → Prop
  | _, [] => True
  | room, (_, v) :: rest => Legible room v ∧ MembersLegible room rest

end

/-- There is room for an array and for its items in it. -/
theorem legible_array
    {room : Nat}
    {items : List Json} :
    (array items).Legible room ↔ ∃ inner, room = inner + 1 ∧ ItemsLegible inner items := by
  cases room with
  | zero =>
      rw [Legible]
      exact ⟨False.elim, fun ⟨_, hroom, _⟩ => nomatch hroom⟩
  | succ room =>
      rw [Legible]
      exact ⟨fun h => ⟨room, rfl, h⟩, fun ⟨_, hroom, h⟩ => Nat.succ.inj hroom ▸ h⟩

/-- There is room for an object and for its members, which are in ascending order. -/
theorem legible_object
    {room : Nat}
    {members : List (String × Json)} :
    (object members).Legible room ↔
      ∃ inner, room = inner + 1 ∧ (members.map Prod.fst).Pairwise (· < ·) ∧
        MembersLegible inner members := by
  cases room with
  | zero =>
      rw [Legible]
      exact ⟨False.elim, fun ⟨_, hroom, _⟩ => nomatch hroom⟩
  | succ room =>
      rw [Legible]
      exact ⟨fun h => ⟨room, rfl, h⟩, fun ⟨_, hroom, h⟩ => Nat.succ.inj hroom ▸ h⟩

theorem value?_of_lead
    {fuel : Nat}
    {c : Char}
    {cs : List Char}
    (h : kindOfLead? c = some .number) :
    Parser.value? (fuel + 1) (c :: cs) =
      (Parser.number? (c :: cs)).map fun r => (.number r.1, r.2) := by
  have hne : ∀ {d : Char} {ds : List Char},
      c :: cs = d :: ds → kindOfLead? d ≠ some .number → False := by
    rintro d ds ⟨⟩ hd
    exact hd h
  rw [Parser.value?, skip_cons (isSpace_eq_false_of_lead h)]
  split
  all_goals first
    | rfl
    | next heq => exact (hne heq (by decide)).elim

/-- After an item an array goes on with what ends a number. -/
theorem endsNumber_renderItems
    (items : List Json)
    (rest : List Char) :
    EndsNumber (renderItems items ++ rest) := by
  intro c more h
  cases items with
  | nil =>
      rw [renderItems] at h
      cases h
      decide
  | cons v items =>
      rw [renderItems] at h
      cases h
      decide

/-- After a member an object goes on with what ends a number. -/
theorem endsNumber_renderMembers
    (members : List (String × Json))
    (rest : List Char) :
    EndsNumber (renderMembers members ++ rest) := by
  intro c more h
  cases members with
  | nil =>
      rw [renderMembers] at h
      cases h
      decide
  | cons m members =>
      rw [renderMembers] at h
      cases h
      decide

theorem length_render_pos (v : Json) :
    0 < (render v).length := by
  obtain ⟨c, rest, hcons, -⟩ := render_eq_cons v
  rw [hcons]
  exact Nat.succ_pos _

/-- An array that is not empty is read item by item. -/
theorem value?_array_cons
    (fuel : Nat)
    (v : Json)
    (text : List Char) :
    Parser.value? (fuel + 1) ('[' :: (render v ++ text)) =
      (Parser.items? fuel (render v ++ text)).map fun r => (.array r.1, r.2) := by
  have hopen : Parser.skip ('[' :: (render v ++ text)) = '[' :: (render v ++ text) :=
    skip_cons (by decide) _
  simp only [Parser.value?, hopen, skip_render]
  split
  · next heq => exact absurd heq (render_append_ne_cons rfl)
  · rfl

/-- An object that is not empty is read member by member. -/
theorem value?_object_cons
    (fuel : Nat)
    (k : String)
    (text : List Char) :
    Parser.value? (fuel + 1) ('\x7b' :: (renderString k ++ text)) =
      (Parser.members? fuel (renderString k ++ text)).map fun r => (.object r.1, r.2) := by
  have hopen : Parser.skip ('\x7b' :: (renderString k ++ text)) =
      '\x7b' :: (renderString k ++ text) := skip_cons (by decide) _
  have hname := skip_renderString k text
  rw [renderString_append] at hopen hname ⊢
  simp only [Parser.value?, hopen, hname]
  rfl

section Elements

variable {fuel : Nat} {k : String} {text rest more : List Char} {s : Source}

theorem items?_of_last
    (h : Parser.value? fuel text = some (s, rest))
    (hrest : Parser.skip rest = ']' :: more) :
    Parser.items? (fuel + 1) text = some ([s], more) := by
  simp only [Parser.items?, h, hrest]

theorem items?_of_more
    (h : Parser.value? fuel text = some (s, rest))
    (hrest : Parser.skip rest = ',' :: more) :
    Parser.items? (fuel + 1) text =
      (Parser.items? fuel more).map fun r => (s :: r.1, r.2) := by
  simp only [Parser.items?, h, hrest]

theorem members?_of_last
    (h : Parser.value? fuel text = some (s, rest))
    (hrest : Parser.skip rest = '\x7d' :: more) :
    Parser.members? (fuel + 1) (renderString k ++ ':' :: text) = some ([(some k, s)], more) := by
  have hname := string?_renderString k (':' :: text)
  have hcolon : Parser.skip (':' :: text) = ':' :: text := rfl
  have hskip := skip_renderString k (':' :: text)
  rw [renderString_append] at hskip ⊢
  simp only [Parser.members?, hskip, hname, hcolon, h, hrest]

theorem members?_of_more
    (h : Parser.value? fuel text = some (s, rest))
    (hrest : Parser.skip rest = ',' :: more) :
    Parser.members? (fuel + 1) (renderString k ++ ':' :: text) =
      (Parser.members? fuel more).map fun r => ((some k, s) :: r.1, r.2) := by
  have hname := string?_renderString k (':' :: text)
  have hcolon : Parser.skip (':' :: text) = ':' :: text := rfl
  have hskip := skip_renderString k (':' :: text)
  rw [renderString_append] at hskip ⊢
  simp only [Parser.members?, hskip, hname, hcolon, h, hrest]

end Elements

mutual

/-- The text of a value is read as its tree, whatever follows. -/
theorem value?_render :
    {v : Json} → {room : Nat} → (fuel : Nat) → {rest : List Char} →
    v.Legible room → (render v).length ≤ fuel + 1 → EndsNumber rest →
    Parser.value? (fuel + 1) (render v ++ rest) = some (v.toSource, rest)
  | .null, _, fuel, rest, _, _, _ => by
      rw [render, Parser.value?]
      rfl
  | .bool b, _, fuel, rest, _, _, _ => by
      cases b <;> (rw [render, Parser.value?]; rfl)
  | .number n, _, fuel, rest, hv, _, hrest => by
      rw [Legible] at hv
      obtain ⟨c, tail, hcons, hkind⟩ := render_eq_cons (.number n)
      have hread := number?_renderNumber hv hrest
      rw [render] at hcons ⊢
      rw [hcons] at hread ⊢
      rw [List.cons_append] at hread ⊢
      rw [value?_of_lead hkind, hread]
      rfl
  | .string s, _, fuel, rest, _, _, _ => by
      have hopen : ∀ inner : List Char, Parser.value? (fuel + 1) ('"' :: inner) =
          (Parser.string? inner).map fun r => (.string r.1, r.2) :=
        fun _ => rfl
      rw [render, renderString_append, hopen, string?_renderString]
      rfl
  | .array [], _, fuel, rest, _, _, _ => by
      rw [render, Parser.value?]
      rfl
  | .array (v :: items), _, fuel, rest, hv, hfuel, _ => by
      obtain ⟨_, -, hitems⟩ := legible_array.1 hv
      have hlength := length_render_pos v
      rw [render, List.length_cons, List.length_append] at hfuel
      obtain ⟨fuel, rfl⟩ := Nat.exists_eq_succ_of_ne_zero (n := fuel) (by omega)
      have hread := items?_render fuel hitems
        (by rw [renderItems, List.length_cons, List.length_append]; omega)
        (renderItems_cons_append v items rest)
      rw [render_array_cons_append, value?_array_cons, hread]
      rfl
  | .object [], _, fuel, rest, _, _, _ => by
      rw [render, Parser.value?]
      rfl
  | .object ((k, v) :: members), _, fuel, rest, hv, hfuel, _ => by
      obtain ⟨_, -, -, hmembers⟩ := legible_object.1 hv
      have hlength := length_render_pos v
      rw [render, List.length_cons, List.length_append, List.length_cons,
        List.length_append] at hfuel
      obtain ⟨fuel, rfl⟩ := Nat.exists_eq_succ_of_ne_zero (n := fuel) (by omega)
      have hread := members?_render fuel hmembers
        (by
          rw [renderMembers, List.length_cons, List.length_append, List.length_cons,
            List.length_append]
          omega)
        (renderMembers_cons_append k v members rest)
      rw [render_object_cons_append, value?_object_cons, hread]
      rfl

/-- The items of an array are read up to its end. -/
theorem items?_render :
    {items : List Json} → {room : Nat} → (fuel : Nat) → {text rest : List Char} →
    ItemsLegible room items → (renderItems items).length ≤ fuel + 2 →
    renderItems items ++ rest = ',' :: text →
    Parser.items? (fuel + 1) text = some (itemsToSource items, rest)
  | [], _, _, _, _, _, _, h => by
      rw [renderItems] at h
      cases (List.cons.inj h).1
  | v :: items, _, fuel, text, rest, hitems, hfuel, h => by
      rw [ItemsLegible] at hitems
      have hlength := length_render_pos v
      have hends := endsNumber_renderItems items rest
      rw [renderItems, List.length_cons, List.length_append] at hfuel
      rw [renderItems_cons_append] at h
      cases (List.cons.inj h).2
      cases items with
      | nil =>
          rw [renderItems, List.length_singleton] at hfuel
          obtain ⟨fuel, rfl⟩ := Nat.exists_eq_succ_of_ne_zero (n := fuel) (by omega)
          have hclose : Parser.skip (renderItems [] ++ rest) = ']' :: rest := rfl
          rw [items?_of_last (value?_render _ hitems.1 (by omega) hends) hclose]
          rfl
      | cons w items =>
          have hlength' := length_render_pos w
          rw [renderItems, List.length_cons, List.length_append] at hfuel
          obtain ⟨fuel, rfl⟩ := Nat.exists_eq_succ_of_ne_zero (n := fuel) (by omega)
          have hmore := items?_render fuel hitems.2
            (by rw [renderItems, List.length_cons, List.length_append]; omega)
            (renderItems_cons_append w items rest)
          have hcomma : Parser.skip (renderItems (w :: items) ++ rest) =
              ',' :: (render w ++ (renderItems items ++ rest)) := by
            rw [renderItems_cons_append]
            exact skip_cons (by decide) _
          rw [items?_of_more (value?_render _ hitems.1 (by omega) hends) hcomma, hmore]
          rfl

/-- The members of an object are read up to its end. -/
theorem members?_render :
    {members : List (String × Json)} → {room : Nat} → (fuel : Nat) → {text rest : List Char} →
    MembersLegible room members → (renderMembers members).length ≤ fuel + 2 →
    renderMembers members ++ rest = ',' :: text →
    Parser.members? (fuel + 1) text = some (membersToSource members, rest)
  | [], _, _, _, _, _, _, h => by
      rw [renderMembers] at h
      cases (List.cons.inj h).1
  | (k, v) :: members, _, fuel, text, rest, hmembers, hfuel, h => by
      rw [MembersLegible] at hmembers
      have hlength := length_render_pos v
      have hends := endsNumber_renderMembers members rest
      rw [renderMembers, List.length_cons, List.length_append, List.length_cons,
        List.length_append] at hfuel
      rw [renderMembers_cons_append] at h
      cases (List.cons.inj h).2
      cases members with
      | nil =>
          rw [renderMembers, List.length_singleton] at hfuel
          obtain ⟨fuel, rfl⟩ := Nat.exists_eq_succ_of_ne_zero (n := fuel) (by omega)
          have hclose : Parser.skip (renderMembers [] ++ rest) = '\x7d' :: rest := rfl
          rw [members?_of_last (value?_render _ hmembers.1 (by omega) hends) hclose]
          rfl
      | cons m members =>
          obtain ⟨l, w⟩ := m
          have hlength' := length_render_pos w
          rw [renderMembers, List.length_cons, List.length_append, List.length_cons,
            List.length_append] at hfuel
          obtain ⟨fuel, rfl⟩ := Nat.exists_eq_succ_of_ne_zero (n := fuel) (by omega)
          have hmore := members?_render fuel hmembers.2
            (by
              rw [renderMembers, List.length_cons, List.length_append, List.length_cons,
                List.length_append]
              omega)
            (renderMembers_cons_append l w members rest)
          have hcomma : Parser.skip (renderMembers ((l, w) :: members) ++ rest) =
              ',' :: (renderString l ++ ':' :: (render w ++ (renderMembers members ++ rest))) := by
            rw [renderMembers_cons_append]
            exact skip_cons (by decide) _
          rw [members?_of_more (value?_render _ hmembers.1 (by omega) hends) hcomma, hmore]
          rfl

end

theorem setMember_of_forall_lt
    {name : String}
    {value : Json}
    {members : List (String × Json)}
    (h : ∀ m ∈ members, m.1 < name) :
    setMember name value members = members ++ [(name, value)] := by
  induction members with
  | nil =>
      rfl
  | cons m members ih =>
      obtain ⟨k, v⟩ := m
      have hlt : k < name := h (k, v) List.mem_cons_self
      have hne : name ≠ k := by
        rintro rfl
        exact String.lt_irrefl name hlt
      rw [setMember, if_neg (String.lt_asymm hlt), if_neg hne,
        ih fun m hm => h m (List.mem_cons_of_mem _ hm), List.cons_append]

/-- Ascending members are put one behind the other. -/
theorem foldl_setMember_of_ascending
    {sofar members : List (String × Json)}
    (h : ((sofar ++ members).map Prod.fst).Pairwise (· < ·)) :
    members.foldl (fun acc m => setMember m.1 m.2 acc) sofar = sofar ++ members := by
  induction members generalizing sofar with
  | nil =>
      exact (List.append_nil sofar).symm
  | cons m members ih =>
      have hlast : ∀ m' ∈ sofar, m'.1 < m.1 := by
        intro m' hm'
        rw [List.map_append] at h
        exact (List.pairwise_append.1 h).2.2 _ (List.mem_map_of_mem hm') _
          (List.mem_map_of_mem List.mem_cons_self)
      rw [List.append_cons] at h ⊢
      rw [List.foldl_cons, setMember_of_forall_lt hlast, ih h]

theorem ofMembers_of_ascending
    {members : List (String × Json)}
    (h : (members.map Prod.fst).Pairwise (· < ·)) :
    ofMembers members = .object members := by
  have hfold : members.foldl (fun acc m => setMember m.1 m.2 acc) [] = [] ++ members :=
    foldl_setMember_of_ascending h
  rw [ofMembers, hfold, List.nil_append]

mutual

theorem depth_toSource_le :
    {v : Json} → {room : Nat} → v.Legible room → v.toSource.depth ≤ room
  | .null, room, _ | .bool _, room, _ | .number _, room, _ | .string _, room, _ =>
      Nat.zero_le room
  | .array items, room, h => by
      obtain ⟨inner, rfl, hitems⟩ := legible_array.1 h
      rw [toSource, Source.depth]
      exact Nat.succ_le_succ (itemsDepth_itemsToSource_le hitems)
  | .object members, room, h => by
      obtain ⟨inner, rfl, -, hmembers⟩ := legible_object.1 h
      rw [toSource, Source.depth]
      exact Nat.succ_le_succ (membersDepth_membersToSource_le hmembers)

theorem itemsDepth_itemsToSource_le :
    {items : List Json} → {room : Nat} → ItemsLegible room items →
    Source.itemsDepth (itemsToSource items) ≤ room
  | [], room, _ => by
      rw [itemsToSource, Source.itemsDepth]
      exact Nat.zero_le room
  | v :: items, room, h => by
      rw [ItemsLegible] at h
      rw [itemsToSource, Source.itemsDepth]
      exact Nat.max_le.2 ⟨depth_toSource_le h.1, itemsDepth_itemsToSource_le h.2⟩

theorem membersDepth_membersToSource_le :
    {members : List (String × Json)} → {room : Nat} → MembersLegible room members →
    Source.membersDepth (membersToSource members) ≤ room
  | [], room, _ => by
      rw [membersToSource, Source.membersDepth]
      exact Nat.zero_le room
  | (k, v) :: members, room, h => by
      rw [MembersLegible] at h
      rw [membersToSource, Source.membersDepth]
      exact Nat.max_le.2 ⟨depth_toSource_le h.1, membersDepth_membersToSource_le h.2⟩

end

mutual

/-- The value of the tree of a value is that value. -/
theorem toJson?_toSource :
    {v : Json} → {room : Nat} → v.Legible room → v.toSource.toJson? = some v
  | .null, _, _ | .bool _, _, _ | .number _, _, _ | .string _, _, _ => rfl
  | .array items, _, h => by
      obtain ⟨_, -, hitems⟩ := legible_array.1 h
      rw [toSource, Source.toJson?, itemsToJson?_itemsToSource hitems]
      rfl
  | .object members, _, h => by
      obtain ⟨_, -, hascending, hmembers⟩ := legible_object.1 h
      rw [toSource, Source.toJson?, membersToJson?_membersToSource hmembers, Option.map_some,
        ofMembers_of_ascending hascending]

/-- The values of the trees of items are those items. -/
theorem itemsToJson?_itemsToSource :
    {items : List Json} → {room : Nat} → ItemsLegible room items →
    Source.itemsToJson? (itemsToSource items) = some items
  | [], _, _ => by
      rw [itemsToSource, Source.itemsToJson?]
  | v :: items, _, h => by
      rw [ItemsLegible] at h
      rw [itemsToSource, Source.itemsToJson?, toJson?_toSource h.1,
        itemsToJson?_itemsToSource h.2]

/-- The values of the trees of members are those members. -/
theorem membersToJson?_membersToSource :
    {members : List (String × Json)} → {room : Nat} → MembersLegible room members →
    Source.membersToJson? (membersToSource members) = some members
  | [], _, _ => by
      rw [membersToSource, Source.membersToJson?]
  | (k, v) :: members, _, h => by
      rw [MembersLegible] at h
      simp only [membersToSource, Source.membersToJson?, toJson?_toSource h.1,
        membersToJson?_membersToSource h.2]

end

/-- The compact text of a legible value spells its tree, however deep it is. -/
theorem sourceOf_compact
    {v : Json}
    {room : Nat}
    (h : v.Legible room) :
    Source.parse? v.compact = some v.toSource := by
  have hread : Parser.value? ((render v).length + 1) (render v ++ []) = some (v.toSource, []) :=
    value?_render _ h (Nat.le_succ _) fun c more hnil => nomatch hnil
  rw [List.append_nil] at hread
  rw [Source.parse?, compact, String.toList_ofList, hread]
  rfl

theorem parse?_compact
    {v : Json}
    (h : v.Legible nestingLimit) :
    parse? v.compact = some v := by
  rw [parse?, sourceOf_compact h, Option.bind_some, if_pos (depth_toSource_le h),
    toJson?_toSource h]

theorem parse?_compact_eq_none
    {v : Json}
    {room : Nat}
    (h : v.Legible room)
    (hdeep : nestingLimit < v.toSource.depth) :
    parse? v.compact = none := by
  rw [parse?, sourceOf_compact h, Option.bind_some, if_neg (Nat.not_le.2 hdeep)]

end Json
end DocumentStore
