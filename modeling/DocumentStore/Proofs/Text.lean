import DocumentStore.Text.Digits
import DocumentStore.Text.Pieces
import Mathlib.Data.List.Basic

/-!
# Texts that are cut and joined

What stands before a separator and what stands after it are cut on their own,
and a text without the separator is one piece.  So what was joined of pieces
without the separator is cut into these pieces again, and no two texts have the
same pieces.
-/

namespace DocumentStore
namespace Text

/-- Two lists cut at the last place of a mark are cut at the same place. -/
theorem append_cons_inj_of_notMem_right
    {α : Type}
    {mark : α}
    {xs ys as bs : List α}
    (has : mark ∉ as)
    (hbs : mark ∉ bs)
    (h : xs ++ mark :: as = ys ++ mark :: bs) :
    xs = ys ∧ as = bs := by
  -- one of the first parts goes on with some list, which is empty as it cannot hold the mark
  have hempty : ∀ {us vs ws : List α}, mark ∉ us → mark :: us = ws ++ mark :: vs → ws = [] := by
    intro us vs ws hus heq
    cases ws with
    | nil =>
        rfl
    | cons head ws =>
        obtain ⟨-, rfl⟩ := List.cons.inj heq
        exact absurd (List.mem_append_right ws List.mem_cons_self) hus
  rcases List.append_eq_append_iff.1 h with ⟨ws, rfl, heq⟩ | ⟨ws, rfl, heq⟩
  · obtain rfl := hempty has heq
    exact ⟨(List.append_nil xs).symm, (List.cons.inj heq).2⟩
  · obtain rfl := hempty hbs heq
    exact ⟨List.append_nil ys, (List.cons.inj heq).2.symm⟩

theorem splitAt_sep_cons
    (sep : Char)
    (cs : List Char) :
    splitAt sep (sep :: cs) = [] :: splitAt sep cs := by
  simp [splitAt]

/-- What stands before a separator and what stands after it are cut on their own. -/
theorem splitAt_append_sep
    (sep : Char)
    (before after : List Char) :
    splitAt sep (before ++ sep :: after) = splitAt sep before ++ splitAt sep after := by
  induction before with
  | nil =>
      exact splitAt_sep_cons sep after
  | cons c before ih =>
      simp only [List.cons_append, splitAt, ih]
      split
      · rfl
      · cases hs : splitAt sep before with
        | nil =>
            exact absurd hs (splitAt_ne_nil sep before)
        | cons piece rest =>
            rfl

theorem splitAt_of_notMem
    {sep : Char}
    {piece : List Char}
    (h : sep ∉ piece) :
    splitAt sep piece = [piece] := by
  induction piece with
  | nil =>
      rfl
  | cons c piece ih =>
      obtain ⟨hc, hpiece⟩ := List.ne_and_not_mem_of_not_mem_cons h
      rw [splitAt, if_neg hc.symm, ih hpiece]

/-- Cutting undoes joining when no piece has the separator. -/
theorem splitAt_joinWith
    {sep : Char}
    {pieces : List (List Char)}
    (hne : pieces ≠ [])
    (hsep : ∀ piece ∈ pieces, sep ∉ piece) :
    splitAt sep (joinWith sep pieces) = pieces := by
  induction pieces with
  | nil =>
      exact absurd rfl hne
  | cons piece rest ih =>
      have hpiece := hsep piece List.mem_cons_self
      cases rest with
      | nil =>
          exact splitAt_of_notMem hpiece
      | cons next rest =>
          have hrest := ih (List.cons_ne_nil _ _) fun p hp => hsep p (List.mem_cons_of_mem _ hp)
          change splitAt sep (piece ++ sep :: joinWith sep (next :: rest)) = _
          rw [splitAt_append_sep, splitAt_of_notMem hpiece, hrest]
          rfl

/-- Pieces that are put behind a text, each after a separator, are cut off again. -/
theorem splitAt_append_flatMap
    {sep : Char}
    {pieces : List (List Char)}
    (hsep : ∀ piece ∈ pieces, sep ∉ piece)
    (cs : List Char) :
    splitAt sep (cs ++ pieces.flatMap (sep :: ·)) = splitAt sep cs ++ pieces := by
  induction pieces generalizing cs with
  | nil =>
      simp
  | cons piece rest ih =>
      obtain ⟨hpiece, hrest⟩ := List.forall_mem_cons.1 hsep
      rw [List.flatMap_cons, ← List.append_assoc, ih hrest, splitAt_append_sep,
        splitAt_of_notMem hpiece, List.append_assoc]
      rfl

theorem splitAt_inj
    {sep : Char}
    {cs ds : List Char}
    (h : splitAt sep cs = splitAt sep ds) :
    cs = ds := by
  rw [← joinWith_splitAt sep cs, h, joinWith_splitAt]

/-- The characters of strings that are put together. -/
theorem toList_joined (strings : List String) :
    (joined "" strings).toList = strings.flatMap String.toList := by
  induction strings with
  | nil =>
      rfl
  | cons s rest ih =>
      cases rest with
      | nil =>
          simp [joined]
      | cons t rest =>
          change (s ++ "" ++ joined "" (t :: rest)).toList = _
          rw [String.toList_append, String.toList_append, ih]
          simp

/-! ### Digits -/

theorem hexValue?_digitChar :
    ∀ d < 10, hexValue? (Nat.digitChar d) = some d := by
  decide

/-- A digit at the end of others counts once, and they count ten times as much as before. -/
theorem digitsValue_append_digit
    (cs : List Char)
    {d : Nat}
    (hd : d < 10) :
    digitsValue 10 (cs ++ [Nat.digitChar d]) = digitsValue 10 cs * 10 + d := by
  rw [digitsValue, List.foldl_append, List.foldl_cons, List.foldl_nil, hexValue?_digitChar d hd,
    Option.getD_some, digitsValue]

end Text
end DocumentStore
