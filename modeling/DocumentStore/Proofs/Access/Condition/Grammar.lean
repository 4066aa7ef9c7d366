import DocumentStore.Access.Condition.Parser

/-!
# The grammar of conditions

The grammar as relations between lists of tokens and what they stand for, one
for each kind of phrase, lowest precedence first:

    disjunction := conjunction | disjunction "||" conjunction
    conjunction := negation | conjunction "&&" negation
    negation    := "!" negation | comparison
    comparison  := sum | sum sign sum | sum "in" sum
    sum         := primary | sum "+" primary
    primary     := literal | "-" number | "[" items "]" | "(" disjunction ")"
                 | name "(" items ")" | name ( "." word )*

The rules of `||`, `&&` and `+` begin with the phrase itself, so their trees
lean to the left.  Nothing is said about how tokens are read; that a text has
one tree at most is a consequence of how they can be.
-/

namespace DocumentStore
namespace Condition
namespace Grammar

/-- The mark of a comparison. -/
def signOf : CompareOp → Mark
  | .eq => .eqEq
  | .ne => .notEq
  | .lt => .lt
  | .le => .le
  | .gt => .gt
  | .ge => .ge

/-- The words that are literals, whatever the variables are called. -/
def literalWords : List (String × Json) :=
  [("true", .bool true), ("false", .bool false), ("null", .null)]

/-- Field names, each after a dot. -/
def dotted (names : List String) : List Token :=
  names.flatMap fun name => [.mark .dot, .word name]

mutual

/-- Conjunctions between `||`. -/
inductive Disjunction (bound : List String) : List Token → Condition → Prop where
  | single
      {ts : List Token} {e : Condition}
      (h : Conjunction bound ts e) :
      Disjunction bound ts e
  | or
      {ts us : List Token} {left right : Condition}
      (hleft : Disjunction bound ts left)
      (hright : Conjunction bound us right) :
      Disjunction bound (ts ++ .mark .orOr :: us) (.or left right)

/-- Negations and comparisons between `&&`. -/
inductive Conjunction (bound : List String) : List Token → Condition → Prop where
  | single
      {ts : List Token} {e : Condition}
      (h : Negation bound ts e) :
      Conjunction bound ts e
  | and
      {ts us : List Token} {left right : Condition}
      (hleft : Conjunction bound ts left)
      (hright : Negation bound us right) :
      Conjunction bound (ts ++ .mark .andAnd :: us) (.and left right)

/-- A comparison with any number of `!` before it. -/
inductive Negation (bound : List String) : List Token → Condition → Prop where
  | single
      {ts : List Token} {e : Condition}
      (h : Comparison bound ts e) :
      Negation bound ts e
  | not
      {ts : List Token} {inner : Condition}
      (h : Negation bound ts inner) :
      Negation bound (.mark .bang :: ts) (.not inner)

/-- A sum, or two with a comparison between them. -/
inductive Comparison (bound : List String) : List Token → Condition → Prop where
  | single
      {ts : List Token} {e : Condition}
      (h : Sum bound ts e) :
      Comparison bound ts e
  | compare
      {ts us : List Token} {left right : Condition}
      (op : CompareOp)
      (hleft : Sum bound ts left)
      (hright : Sum bound us right) :
      Comparison bound (ts ++ .mark (signOf op) :: us) (.compare op left right)
  | isIn
      {ts us : List Token} {left right : Condition}
      (hleft : Sum bound ts left)
      (hright : Sum bound us right) :
      Comparison bound (ts ++ .word "in" :: us) (.isIn left right)

/-- Primaries between `+`. -/
inductive Sum (bound : List String) : List Token → Condition → Prop where
  | single
      {ts : List Token} {e : Condition}
      (h : Primary bound ts e) :
      Sum bound ts e
  | add
      {ts us : List Token} {left right : Condition}
      (hleft : Sum bound ts left)
      (hright : Primary bound us right) :
      Sum bound (ts ++ .mark .plus :: us) (.add left right)

/-- A literal, a list, a parenthesis, a call or a variable. -/
inductive Primary (bound : List String) : List Token → Condition → Prop where
  | text (value : String) :
      Primary bound [.text value] (.literal (.string value))
  | number (n : Json.Number) :
      Primary bound [.number n] (.literal (.number n))
  | negativeInteger (i : Int) :
      Primary bound [.mark .minus, .number (.integer i)] (.literal (.number (.integer (-i))))
  | negativeFloat (x : Binary64) :
      Primary bound [.mark .minus, .number (.float x)]
        (.literal (.number (.float { x with negative := !x.negative })))
  | constant
      {word : String} {value : Json}
      (h : (word, value) ∈ literalWords) :
      Primary bound [.word word] (.literal value)
  | list
      {ts : List Token} {items : List Condition}
      (h : Items bound ts items) :
      Primary bound (.mark .openBracket :: (ts ++ [.mark .closeBracket])) (.list items)
  | parens
      {ts : List Token} {e : Condition}
      (h : Disjunction bound ts e) :
      Primary bound (.mark .openParen :: (ts ++ [.mark .closeParen])) e
  | call
      {word : String} {builtin : Builtin} {ts : List Token} {args : List Condition}
      (hname : Builtin.resolve? word = some builtin)
      (harity : args.length = builtin.arity)
      (h : Items bound ts args) :
      Primary bound (.word word :: .mark .openParen :: (ts ++ [.mark .closeParen]))
        (.call builtin args)
  | variable
      {root : String}
      (names : List String)
      (hword : root ∉ literalWords.map Prod.fst)
      (hroot : root ∈ roots ∨ root ∈ bound) :
      Primary bound (.word root :: dotted names) (.var root names)

/-- Conditions between commas, or none. -/
inductive Items (bound : List String) : List Token → List Condition → Prop where
  | none :
      Items bound [] []
  | some
      {ts : List Token} {items : List Condition}
      (h : Listing bound ts items) :
      Items bound ts items

/-- One condition or more, between commas. -/
inductive Listing (bound : List String) : List Token → List Condition → Prop where
  | one
      {ts : List Token} {e : Condition}
      (h : Disjunction bound ts e) :
      Listing bound ts [e]
  | more
      {ts us : List Token} {e : Condition} {items : List Condition}
      (h : Disjunction bound ts e)
      (hmore : Listing bound us items) :
      Listing bound (ts ++ .mark .comma :: us) (e :: items)

end

variable {bound : List String} {ts : List Token} {e : Condition} {items : List Condition}

/-! ### How phrases begin -/

/-- Whether a token begins a primary. -/
def beginsPrimary : Token → Bool
  | .text _ | .number _ | .word _ => true
  | .mark .minus | .mark .openBracket | .mark .openParen => true
  | .mark _ => false

/-- Whether a token begins a negation, and with it any phrase that is no sum. -/
def beginsNegation (t : Token) : Bool :=
  beginsPrimary t || t = .mark .bang

theorem Primary.exists_cons
    (h : Primary bound ts e) :
    ∃ t rest, ts = t :: rest ∧ beginsPrimary t = true := by
  cases h <;> exact ⟨_, _, rfl, rfl⟩

theorem Sum.exists_cons
    {ts : List Token} {e : Condition} :
    Sum bound ts e → ∃ t rest, ts = t :: rest ∧ beginsPrimary t = true
  | .single h => h.exists_cons
  | .add hleft _ => by
      obtain ⟨t, rest, rfl, ht⟩ := hleft.exists_cons
      exact ⟨t, _, rfl, ht⟩

theorem Comparison.exists_cons
    (h : Comparison bound ts e) :
    ∃ t rest, ts = t :: rest ∧ beginsPrimary t = true := by
  cases h with
  | single h =>
      exact h.exists_cons
  | compare op hleft _ =>
      obtain ⟨t, rest, rfl, ht⟩ := hleft.exists_cons
      exact ⟨t, _, rfl, ht⟩
  | isIn hleft _ =>
      obtain ⟨t, rest, rfl, ht⟩ := hleft.exists_cons
      exact ⟨t, _, rfl, ht⟩

theorem Negation.exists_cons
    (h : Negation bound ts e) :
    ∃ t rest, ts = t :: rest ∧ beginsNegation t = true := by
  cases h with
  | single h =>
      obtain ⟨t, rest, rfl, ht⟩ := h.exists_cons
      exact ⟨t, rest, rfl, by rw [beginsNegation, ht]; rfl⟩
  | not h =>
      exact ⟨_, _, rfl, rfl⟩

theorem Conjunction.exists_cons
    {ts : List Token} {e : Condition} :
    Conjunction bound ts e → ∃ t rest, ts = t :: rest ∧ beginsNegation t = true
  | .single h => h.exists_cons
  | .and hleft _ => by
      obtain ⟨t, rest, rfl, ht⟩ := hleft.exists_cons
      exact ⟨t, _, rfl, ht⟩

theorem Disjunction.exists_cons
    {ts : List Token} {e : Condition} :
    Disjunction bound ts e → ∃ t rest, ts = t :: rest ∧ beginsNegation t = true
  | .single h => h.exists_cons
  | .or hleft _ => by
      obtain ⟨t, rest, rfl, ht⟩ := hleft.exists_cons
      exact ⟨t, _, rfl, ht⟩

theorem Listing.exists_cons
    (h : Listing bound ts items) :
    ∃ t rest, ts = t :: rest ∧ beginsNegation t = true := by
  cases h with
  | one h =>
      exact h.exists_cons
  | more h _ =>
      obtain ⟨t, rest, rfl, ht⟩ := h.exists_cons
      exact ⟨t, _, rfl, ht⟩

/-! ### Words and signs -/

theorem literalWord?_eq_some_iff
    {word : String} {value : Json} :
    Parser.literalWord? word = some value ↔ (word, value) ∈ literalWords := by
  unfold Parser.literalWord? literalWords
  split <;> simp_all [eq_comm]

theorem literalWord?_eq_none_iff
    {word : String} :
    Parser.literalWord? word = none ↔ word ∉ literalWords.map Prod.fst := by
  rw [Option.eq_none_iff_forall_ne_some]
  simp only [ne_eq, literalWord?_eq_some_iff, List.mem_map, Prod.exists, exists_and_right,
    exists_eq_right, not_exists]

theorem literalWord?_of_resolve?
    {word : String} {builtin : Builtin}
    (h : Builtin.resolve? word = some builtin) :
    Parser.literalWord? word = none := by
  have hliterals : ∀ literal ∈ literalWords, Builtin.resolve? literal.1 = none := by decide
  cases hword : Parser.literalWord? word with
  | none =>
      rfl
  | some value =>
      rw [hliterals _ (literalWord?_eq_some_iff.1 hword)] at h
      cases h

/-- A minus before a number stands for the number with the other sign. -/
theorem Primary.negative (n : Json.Number) :
    Primary bound [.mark .minus, .number n] (.literal (.number (Parser.negate n))) :=
  match n with
  | .integer i => .negativeInteger i
  | .float x => .negativeFloat x

theorem compareOp?_eq_some_iff
    {t : Token} {op : CompareOp} :
    Parser.compareOp? t = some op ↔ t = .mark (signOf op) := by
  constructor
  · intro h
    unfold Parser.compareOp? at h
    split at h <;> cases h <;> rfl
  · rintro rfl
    cases op <;> rfl

end Grammar
end Condition
end DocumentStore
