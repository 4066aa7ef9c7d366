import DocumentStore.Proofs.Text
import DocumentStore.Store.Error
import Mathlib.Data.List.TakeWhile

/-!
# Normal forms of paths

The text of a document path neither begins nor ends with a slash, so that
reading it again gives the same path.  Two texts are read as one path exactly if
they differ in nothing but the slashes at their ends.
-/

namespace DocumentStore

namespace Text

/-- Trimming keeps a text whose ends are not of the class. -/
theorem trim_eq_self
    {drop : Char → Bool}
    {cs : List Char}
    (hhead : ∀ c rest, cs = c :: rest → drop c = false)
    (hlast : ∀ rest c, cs = rest ++ [c] → drop c = false) :
    trim drop cs = cs := by
  have hfront : cs.dropWhile drop = cs := by
    cases cs with
    | nil =>
        rfl
    | cons c rest =>
        simp [hhead c rest rfl]
  have hback : cs.reverse.dropWhile drop = cs.reverse := by
    cases hrev : cs.reverse with
    | nil =>
        rfl
    | cons c rest =>
        have hcs : cs = rest.reverse ++ [c] := by
          rw [← List.reverse_reverse cs, hrev, List.reverse_cons]
        simp [hlast rest.reverse c hcs]
  simp [trim, trimEnd, hfront, hback]

/-- Trimming takes off what was put around a text, if it is all of the class. -/
theorem trim_append_append
    {drop : Char → Bool}
    {front back : List Char}
    (hfront : ∀ c ∈ front, drop c = true)
    (hback : ∀ c ∈ back, drop c = true)
    (cs : List Char) :
    trim drop (front ++ cs ++ back) = trim drop cs := by
  have hend : ∀ ds : List Char, trimEnd drop (ds ++ back) = trimEnd drop ds := by
    intro ds
    have hreverse : ∀ c ∈ back.reverse, drop c = true :=
      fun c hc => hback c (List.mem_reverse.1 hc)
    rw [trimEnd, trimEnd, List.reverse_append, List.dropWhile_append_of_pos hreverse]
  rw [trim, trim, List.append_assoc, List.dropWhile_append_of_pos hfront, List.dropWhile_append]
  split
  · next hempty =>
      rw [List.isEmpty_iff.1 hempty, List.dropWhile_eq_nil_iff.2 hback]
  · exact hend _

/-- A text is its trimmed part with characters of the class around it. -/
theorem exists_append_trim_append
    (drop : Char → Bool)
    (cs : List Char) :
    ∃ front back, (∀ c ∈ front, drop c = true) ∧ (∀ c ∈ back, drop c = true) ∧
      cs = front ++ trim drop cs ++ back := by
  let rest := cs.dropWhile drop
  refine ⟨cs.takeWhile drop, (rest.reverse.takeWhile drop).reverse,
    fun c hc => List.mem_takeWhile_imp hc,
    fun c hc => List.mem_takeWhile_imp (List.mem_reverse.1 hc), ?_⟩
  have hback : trim drop cs ++ (rest.reverse.takeWhile drop).reverse = rest := by
    rw [trim, trimEnd, ← List.reverse_append, List.takeWhile_append_dropWhile,
      List.reverse_reverse]
  rw [List.append_assoc, hback, List.takeWhile_append_dropWhile]

end Text

/-! ### Outer slashes -/

/-- A text with any number of slashes put before and behind it. -/
def IsSlashed (core raw : String) : Prop :=
  ∃ front back : Nat,
    raw.toList = List.replicate front '/' ++ core.toList ++ List.replicate back '/'

/-- Two texts that are one text with slashes put before and behind it. -/
def SameButOuterSlashes (r s : String) : Prop :=
  ∃ core, IsSlashed core r ∧ IsSlashed core s

theorem IsSlashed.withoutOuterSlashes_eq
    {core raw : String}
    (h : IsSlashed core raw) :
    withoutOuterSlashes raw = withoutOuterSlashes core := by
  obtain ⟨front, back, hraw⟩ := h
  have hslash : ∀ {n : Nat}, ∀ c ∈ List.replicate n '/', isSlash c = true :=
    fun c hc => decide_eq_true (List.eq_of_mem_replicate hc)
  rw [withoutOuterSlashes, hraw, Text.trim_append_append hslash hslash, ← withoutOuterSlashes]

theorem isSlashed_withoutOuterSlashes (raw : String) :
    IsSlashed (withoutOuterSlashes raw) raw := by
  have hreplicate : ∀ {cs : List Char}, (∀ c ∈ cs, isSlash c = true) →
      cs = List.replicate cs.length '/' :=
    fun h => List.eq_replicate_of_mem fun c hc => of_decide_eq_true (h c hc)
  obtain ⟨front, back, hfront, hback, hraw⟩ :=
    Text.exists_append_trim_append isSlash raw.toList
  refine ⟨front.length, back.length, ?_⟩
  rw [withoutOuterSlashes, String.toList_ofList, ← hreplicate hfront, ← hreplicate hback]
  exact hraw

/-- What differs in the outer slashes only is the same without them. -/
theorem sameButOuterSlashes_iff
    {r s : String} :
    SameButOuterSlashes r s ↔ withoutOuterSlashes r = withoutOuterSlashes s := by
  constructor
  · rintro ⟨core, hr, hs⟩
    rw [hr.withoutOuterSlashes_eq, hs.withoutOuterSlashes_eq]
  · intro h
    refine ⟨withoutOuterSlashes r, isSlashed_withoutOuterSlashes r, ?_⟩
    rw [h]
    exact isSlashed_withoutOuterSlashes s

namespace DocumentPath

/-- The segments of a sound text are not empty. -/
theorem nil_notMem_of_fault?_eq_none
    {text : String}
    (h : fault? text = none) :
    [] ∉ Text.splitAt '/' text.toList := by
  intro hmem
  have hsome :
      ((Text.splitAt '/' text.toList).findSome? segmentFault?).isSome = true :=
    List.findSome?_isSome_iff.2 ⟨[], hmem, rfl⟩
  unfold fault? at h
  split at h
  · cases h
  · dsimp only at h
    split at h
    · cases h
    · next hnone =>
        rw [hnone] at hsome
        cases hsome

/-- A sound text has no slashes at its ends. -/
theorem withoutOuterSlashes_eq_self
    {text : String}
    (h : fault? text = none) :
    withoutOuterSlashes text = text := by
  have hnil := nil_notMem_of_fault?_eq_none h
  have htrim : Text.trim isSlash text.toList = text.toList := by
    apply Text.trim_eq_self
    · intro c rest hcs
      refine decide_eq_false ?_
      rintro rfl
      rw [hcs, Text.splitAt_sep_cons] at hnil
      exact hnil List.mem_cons_self
    · intro rest c hcs
      refine decide_eq_false ?_
      rintro rfl
      rw [hcs, Text.splitAt_append_sep] at hnil
      exact hnil (List.mem_append_right _ List.mem_cons_self)
  rw [withoutOuterSlashes, htrim, String.ofList_toList]

/-- The text of a path is read as that path. -/
theorem parse_text
    (p : DocumentPath) :
    parse p.text = .ok p := by
  have hself := withoutOuterSlashes_eq_self p.sound
  unfold parse
  split
  · exact congrArg Except.ok (DocumentPath.ext hself)
  · next fault hfault =>
      rw [hself, p.sound] at hfault
      cases hfault

/-- The text of a path that was read is what was read without its outer slashes. -/
theorem text_of_parse
    {raw : String}
    {p : DocumentPath}
    (h : parse raw = .ok p) :
    p.text = withoutOuterSlashes raw := by
  unfold parse at h
  split at h
  · cases h
    rfl
  · cases h

theorem parse_of_withoutOuterSlashes_eq
    {r s : String}
    (h : withoutOuterSlashes r = withoutOuterSlashes s) :
    parse r = parse s := by
  unfold parse
  rw [h]

/-- A text is read as the path whose text is left of it without its outer slashes. -/
theorem parse_eq_ok_iff
    {raw : String}
    {p : DocumentPath} :
    parse raw = .ok p ↔ withoutOuterSlashes raw = p.text := by
  refine ⟨fun h => (text_of_parse h).symm, fun h => ?_⟩
  have hraw : withoutOuterSlashes raw = withoutOuterSlashes p.text :=
    h.trans (withoutOuterSlashes_eq_self p.sound).symm
  rw [parse_of_withoutOuterSlashes_eq hraw, parse_text]

theorem empty_notMem_segments (p : DocumentPath) :
    "" ∉ p.segments := by
  intro hmem
  obtain ⟨segment, hsegment, hempty⟩ := List.mem_map.1 hmem
  obtain rfl : segment = [] := String.ofList_injective hempty
  exact nil_notMem_of_fault?_eq_none p.sound hsegment

/-- A path has at least two segments. -/
theorem two_le_length_segments (p : DocumentPath) :
    2 ≤ p.segments.length := by
  have hsound := p.sound
  have hne : Text.splitAt '/' p.text.toList ≠ [] := Text.splitAt_ne_nil _ _
  have hpos : 0 < (Text.splitAt '/' p.text.toList).length := List.length_pos_iff.2 hne
  have heven : (Text.splitAt '/' p.text.toList).length % 2 = 0 := by
    unfold fault? at hsound
    split at hsound
    · cases hsound
    · dsimp only at hsound
      split at hsound
      · cases hsound
      · split at hsound
        · next h =>
            exact h
        · cases hsound
  unfold segments Text.pieces
  rw [List.length_map]
  omega

end DocumentPath

@[simp] theorem readPath_text
    (p : DocumentPath) :
    readPath p.text = .ok p := by
  simp [readPath, DocumentPath.parse_text]

end DocumentStore
