import DocumentStore.Access.Pattern
import DocumentStore.Proofs.Text
import Mathlib.Data.List.Basic

/-!
# The texts of patterns

Every segment of a pattern has one text: a literal is its own text, a variable
stands in braces.  A text is read as a pattern if and only if it is, but for
the slashes at its ends, these texts with slashes between them, when every
segment is sound and no variable occurs twice.
-/

namespace DocumentStore

namespace Segment

/-- The text of a segment. -/
def written : Segment → List Char
  | literal text => text.toList
  | capture name => '\x7b' :: (name.toList ++ ['\x7d'])

/-- A literal has characters, none of them excluded; the name of a variable is a word. -/
def Sound : Segment → Prop
  | literal text => text ≠ "" ∧ text.toList.all isLiteralChar = true
  | capture name => isName name.toList = true

/-- The text between braces is what has one brace before it and one behind it. -/
theorem braced?_eq_some_iff
    {cs inner : List Char} :
    braced? cs = some inner ↔ cs = '\x7b' :: (inner ++ ['\x7d']) := by
  constructor
  · intro h
    unfold braced? at h
    split at h
    · next rest =>
        split at h
        · next reversed hreverse =>
            cases h
            rw [← List.reverse_cons, ← hreverse, List.reverse_reverse]
        · cases h
    · cases h
  · rintro rfl
    simp [braced?]

theorem braced?_of_literal
    {cs : List Char}
    (h : cs.all isLiteralChar = true) :
    braced? cs = none := by
  cases hbraced : braced? cs with
  | none =>
      rfl
  | some inner =>
      rw [braced?_eq_some_iff.1 hbraced, List.all_cons] at h
      exact absurd (Bool.and_eq_true_iff.1 h).1 (by decide)

/-- A text stands for the sound segment whose text it is. -/
theorem ofText?_eq_some_iff
    {cs : List Char}
    {s : Segment} :
    ofText? cs = some s ↔ cs = s.written ∧ s.Sound := by
  constructor
  · intro h
    unfold ofText? at h
    split at h
    · next name hname =>
        obtain ⟨hbraced, hword⟩ := Option.filter_eq_some_iff.1 hname
        cases h
        rw [written, Sound, String.toList_ofList]
        exact ⟨braced?_eq_some_iff.1 hbraced, hword⟩
    · split at h
      · next hliteral =>
          cases h
          obtain ⟨hne, hall⟩ := hliteral
          rw [written, Sound, String.toList_ofList]
          refine ⟨rfl, fun hempty => hne ?_, hall⟩
          rw [← String.toList_ofList (l := cs), hempty, String.toList_empty]
      · cases h
  · rintro ⟨rfl, hsound⟩
    cases s with
    | literal text =>
        obtain ⟨hne, hall⟩ := hsound
        have hchars : text.toList ≠ [] := fun h => hne (String.toList_eq_nil_iff.1 h)
        rw [ofText?, written, braced?_of_literal hall, Option.filter_none]
        dsimp only
        rw [if_pos ⟨hchars, hall⟩, String.ofList_toList]
    | capture name =>
        have hbraced : braced? (capture name).written = some name.toList :=
          braced?_eq_some_iff.2 rfl
        have hfilter : (braced? (capture name).written).filter isName = some name.toList :=
          Option.filter_eq_some_iff.2 ⟨hbraced, hsound⟩
        rw [ofText?, hfilter]
        dsimp only
        rw [String.ofList_toList]

theorem slash_notMem_of_isName
    {cs : List Char}
    (h : isName cs = true) :
    '/' ∉ cs := by
  intro hmem
  cases cs with
  | nil =>
      cases hmem
  | cons c rest =>
      obtain ⟨hstart, hrest⟩ := Bool.and_eq_true_iff.1 h
      rcases List.mem_cons.1 hmem with rfl | hmem
      · exact absurd hstart (by decide)
      · exact absurd (List.all_eq_true.1 hrest _ hmem) (by decide)

/-- The text of a sound segment has no slash. -/
theorem Sound.slash_notMem
    {s : Segment}
    (h : s.Sound) :
    '/' ∉ s.written := by
  intro hmem
  cases s with
  | literal text =>
      exact absurd (List.all_eq_true.1 h.2 _ hmem) (by decide)
  | capture name =>
      rcases List.mem_cons.1 hmem with hbrace | hmem
      · exact absurd hbrace (by decide)
      · rcases List.mem_append.1 hmem with hname | hbrace
        · exact slash_notMem_of_isName h hname
        · exact absurd (List.mem_singleton.1 hbrace) (by decide)

theorem Sound.written_ne_nil
    {s : Segment}
    (h : s.Sound) :
    s.written ≠ [] := by
  cases s with
  | literal text =>
      exact fun hnil => h.1 (String.toList_eq_nil_iff.1 hnil)
  | capture name =>
      exact List.cons_ne_nil _ _

end Segment

namespace Pattern

theorem captureNames_cons
    (s : Segment)
    (p : Pattern) :
    captureNames (s :: p) = s.name?.toList ++ p.captureNames := by
  cases s <;> rfl

/-- A text in front is read if it stands for a segment whose variable was not there before. -/
theorem ofTexts_cons_eq_ok_iff
    {seen : List String}
    {cs : List Char}
    {texts : List (List Char)}
    {p : Pattern} :
    ofTexts seen (cs :: texts) = .ok p ↔
      ∃ s rest, p = s :: rest ∧ Segment.ofText? cs = some s ∧
        (∀ name ∈ s.name?, name ∉ seen) ∧ ofTexts (s.name?.toList ++ seen) texts = .ok rest := by
  -- a failure further behind is passed on
  have hmap : ∀ (s : Segment) (r : Except PatternFault Pattern),
      r.map (s :: ·) = .ok p ↔ ∃ rest, p = s :: rest ∧ r = .ok rest := by
    intro s r
    cases r with
    | error fault => simp [Except.map]
    | ok rest => simp [Except.map, eq_comm]
  rw [ofTexts]
  cases Segment.ofText? cs with
  | none => simp
  | some s =>
      cases s with
      | literal text =>
          simp [Segment.name?, hmap]
      | capture name =>
          by_cases hseen : name ∈ seen
          · simp [Segment.name?, hseen]
          · simp [Segment.name?, hseen, hmap]

/--
Texts are read as the segments that they are the texts of, when these are
sound, no variable occurs twice and none was there before.
-/
theorem ofTexts_eq_ok_iff
    {seen : List String}
    {texts : List (List Char)}
    {p : Pattern} :
    ofTexts seen texts = .ok p ↔
      texts = p.map Segment.written ∧ (∀ s ∈ p, s.Sound) ∧
        p.captureNames.Nodup ∧ ∀ name ∈ p.captureNames, name ∉ seen := by
  induction texts generalizing seen p with
  | nil =>
      cases p with
      | nil => simp [ofTexts, captureNames]
      | cons s p => simp [ofTexts]
  | cons cs texts ih =>
      rw [ofTexts_cons_eq_ok_iff]
      constructor
      · rintro ⟨s, rest, rfl, hsegment, hfresh, hrest⟩
        obtain ⟨rfl, hsound⟩ := Segment.ofText?_eq_some_iff.1 hsegment
        obtain ⟨rfl, hsounds, hnodup, hunseen⟩ := ih.1 hrest
        refine ⟨rfl, List.forall_mem_cons.2 ⟨hsound, hsounds⟩, ?_, ?_⟩
        · rw [captureNames_cons, List.nodup_append]
          refine ⟨by cases s <;> simp [Segment.name?], hnodup, ?_⟩
          rintro name hname _ hmem rfl
          exact hunseen name hmem (List.mem_append_left _ hname)
        · intro name hname
          rw [captureNames_cons, List.mem_append] at hname
          rcases hname with hname | hname
          · exact hfresh name (Option.mem_toList.1 hname)
          · exact fun hmem => hunseen name hname (List.mem_append_right _ hmem)
      · rintro ⟨htexts, hsounds, hnodup, hunseen⟩
        cases p with
        | nil =>
            cases htexts
        | cons s rest =>
            obtain ⟨rfl, rfl⟩ := List.cons.inj htexts
            obtain ⟨hsound, hsounds⟩ := List.forall_mem_cons.1 hsounds
            rw [captureNames_cons] at hnodup hunseen
            obtain ⟨-, hnodup, hapart⟩ := List.nodup_append.1 hnodup
            refine ⟨s, rest, rfl, Segment.ofText?_eq_some_iff.2 ⟨rfl, hsound⟩, ?_, ?_⟩
            · intro name hname
              exact hunseen name (List.mem_append_left _ (Option.mem_toList.2 hname))
            · refine ih.2 ⟨rfl, hsounds, hnodup, fun name hname hmem => ?_⟩
              rcases List.mem_append.1 hmem with hfirst | hseen
              · exact hapart name hfirst name hname rfl
              · exact hunseen name (List.mem_append_right _ hname) hseen

/--
A text spells a pattern: but for the slashes at its ends it is the texts of the
segments with slashes between them.  The segments are sound and no variable is
bound twice.
-/
structure SpelledBy
    (p : Pattern)
    (text : String) :
    Prop where
  nonempty : p ≠ []
  text_eq : Text.trim isSlash text.toList = Text.joinWith '/' (p.map Segment.written)
  sound : ∀ s ∈ p, s.Sound
  once : p.captureNames.Nodup

/-- A text is read as the pattern that it spells. -/
theorem parse_eq_ok_iff
    {text : String}
    {p : Pattern} :
    parse text = .ok p ↔ p.SpelledBy text := by
  unfold parse
  dsimp only
  constructor
  · intro h
    split at h
    · cases h
    · obtain ⟨hpieces, hsound, hnodup, -⟩ := ofTexts_eq_ok_iff.1 h
      refine ⟨?_, ?_, hsound, hnodup⟩
      · rintro rfl
        exact Text.splitAt_ne_nil _ _ hpieces
      · rw [← hpieces, Text.joinWith_splitAt]
  · rintro ⟨hne, htext, hsound, hnodup⟩
    have hcut : Text.splitAt '/' (Text.trim isSlash text.toList) = p.map Segment.written := by
      rw [htext]
      refine Text.splitAt_joinWith (fun hnil => hne (List.map_eq_nil_iff.1 hnil)) ?_
      intro piece hpiece
      obtain ⟨s, hs, rfl⟩ := List.mem_map.1 hpiece
      exact (hsound s hs).slash_notMem
    have hchars : Text.trim isSlash text.toList ≠ [] := by
      intro hnil
      rw [hnil, Text.splitAt] at hcut
      obtain ⟨s, hs, hwritten⟩ := List.mem_map.1 (hcut ▸ List.mem_singleton_self [])
      exact (hsound s hs).written_ne_nil hwritten
    rw [if_neg hchars, hcut]
    exact ofTexts_eq_ok_iff.2 ⟨rfl, hsound, hnodup, fun _ _ => List.not_mem_nil⟩

theorem SpelledBy.unique
    {text : String}
    {p p' : Pattern}
    (h : p.SpelledBy text)
    (h' : p'.SpelledBy text) :
    p = p' := by
  have hsame := (parse_eq_ok_iff.2 h).symm.trans (parse_eq_ok_iff.2 h')
  exact Except.ok.inj hsame

end Pattern
end DocumentStore
