import DocumentStore.Text.Blank

/-!
# Cutting text at a separator

A text is cut at every occurrence of a separator character.  The pieces are
never none: the empty text has one empty piece.  Joining puts the separators
back.  A text occurs in another when it is a run of consecutive characters
of it.
-/

namespace DocumentStore
namespace Text

/-- The pieces between the occurrences of a separator, in order. -/
def splitAt
    (sep : Char) :
    List Char → List (List Char)
  | [] => [[]]
  | c :: cs =>
      if c = sep then
        [] :: splitAt sep cs
      else
        match splitAt sep cs with
        | [] => [[c]]
        | piece :: rest => (c :: piece) :: rest

/-- The pieces with a separator between neighbours. -/
def joinWith
    (sep : Char) :
    List (List Char) → List Char
  | [] => []
  | [piece] => piece
  | piece :: rest => piece ++ sep :: joinWith sep rest

theorem splitAt_ne_nil
    (sep : Char)
    (cs : List Char) :
    splitAt sep cs ≠ [] := by
  cases cs with
  | nil => simp [splitAt]
  | cons c cs =>
      unfold splitAt
      split
      · simp
      · split <;> simp

/-- Joining undoes cutting. -/
theorem joinWith_splitAt
    (sep : Char)
    (cs : List Char) :
    joinWith sep (splitAt sep cs) = cs := by
  induction cs with
  | nil => rfl
  | cons c cs ih =>
      unfold splitAt
      by_cases h : c = sep
      · cases hs : splitAt sep cs with
        | nil => exact absurd hs (splitAt_ne_nil sep cs)
        | cons p ps => simp [h, hs ▸ ih, joinWith]
      · cases hs : splitAt sep cs with
        | nil => exact absurd hs (splitAt_ne_nil sep cs)
        | cons p ps =>
            rw [hs] at ih
            cases ps with
            | nil => simpa [h, joinWith] using ih
            | cons q qs => simpa [h, joinWith] using ih

/-- The pieces of a string between the occurrences of a separator. -/
def pieces
    (sep : Char)
    (s : String) :
    List String :=
  (splitAt sep s.toList).map String.ofList

/-- Whether one text is a run of consecutive characters of another. -/
def occursIn
    (part : List Char) :
    List Char → Bool
  | [] => part.isEmpty
  | c :: cs => part.isPrefixOf (c :: cs) || occursIn part cs

/-- The strings with a text between neighbours. -/
def joined
    (between : String) :
    List String → String
  | [] => ""
  | [s] => s
  | s :: rest => s ++ between ++ joined between rest

end Text
end DocumentStore
