import DocumentStore.Proofs.Index.Tree
import Mathlib.Data.List.Induction

/-!
# A scan finds what is in its window

A scan skips the keys below its first possible key and stops at the first key
that is out of its window.  In an ascending tree nothing is lost by that: the
keys that begin with given parts stand together, and among them those within
the bounds do.  So a scan yields exactly the entries of the tree whose keys
are in the window, in order.  A tree that came about by putting paths in and
taking paths out has the entries that were last put in.
-/

namespace DocumentStore

universe u

/-! ### Skipping and stopping -/

/-- Skipping a beginning is filtering if what is kept once is kept from then on. -/
theorem dropWhile_eq_filter
    {α : Type u}
    {p : α → Bool}
    {xs : List α}
    (h : xs.Pairwise fun a b => p b = true → p a = true) :
    xs.dropWhile p = xs.filter fun a => !p a := by
  induction xs with
  | nil =>
      rfl
  | cons x rest ih =>
      obtain ⟨hx, hrest⟩ := List.pairwise_cons.1 h
      cases hp : p x with
      | true =>
          simp [hp, ih hrest]
      | false =>
          have hall : ∀ y ∈ rest, p y = false := by
            intro y hy
            cases hpy : p y with
            | false =>
                rfl
            | true =>
                rw [hx y hy hpy] at hp
                cases hp
          have hfilter : rest.filter (fun a => !p a) = rest :=
            List.filter_eq_self.2 fun y hy => by simp [hall y hy]
          simp [hp, hfilter]

/-- Stopping is filtering if what comes before something taken is taken. -/
theorem takeWhile_eq_filter
    {α : Type u}
    {p : α → Bool}
    {xs : List α}
    (h : xs.Pairwise fun a b => p b = true → p a = true) :
    xs.takeWhile p = xs.filter p := by
  induction xs with
  | nil =>
      rfl
  | cons x rest ih =>
      obtain ⟨hx, hrest⟩ := List.pairwise_cons.1 h
      cases hp : p x with
      | true =>
          simp [hp, ih hrest]
      | false =>
          have hnone : rest.filter p = [] := by
            refine List.filter_eq_nil_iff.2 fun y hy hpy => ?_
            rw [hx y hy hpy] at hp
            cases hp
          simp [hp, hnone]

/-! ### Keys that begin alike -/

namespace Key

theorem compare_append_left
    (start a b : Key) :
    compare (start ++ a) (start ++ b) = compare a b := by
  induction start with
  | nil =>
      rfl
  | cons part start ih =>
      rw [List.cons_append, List.cons_append, List.compare_cons_cons, Std.ReflOrd.compare_self]
      exact ih

theorem getElem?_append_length
    (start rest : Key) :
    (start ++ rest)[start.length]? = rest.head? := by
  rw [List.getElem?_append_right (Nat.le_refl _), Nat.sub_self, List.head?_eq_getElem?]

/-- A key between two keys that begin alike begins so too. -/
theorem prefix_of_between
    {start a b : Key}
    (ha : (compare start a).isLE = true)
    (hab : (compare a (start ++ b)).isLE = true) :
    start <+: a := by
  induction start generalizing a with
  | nil =>
      exact List.nil_prefix
  | cons part start ih =>
      cases a with
      | nil =>
          cases ha
      | cons p as =>
          rw [List.compare_cons_cons, Ordering.isLE_then_iff_and] at ha
          rw [List.cons_append, List.compare_cons_cons, Ordering.isLE_then_iff_and] at hab
          have heq : compare part p = .eq := Std.OrientedCmp.isLE_antisymm ha.1 hab.1
          have hpart : part = p := Std.LawfulEqOrd.eq_of_compare heq
          subst hpart
          have hstart := ha.2.resolve_left (by rw [heq]; decide)
          have hrest := hab.2.resolve_left (by rw [heq]; decide)
          exact List.cons_prefix_cons.2 ⟨rfl, ih hstart hrest⟩

end Key

namespace Tree

/-- Whether a part is not below a bound; a missing part is below every bound. -/
def notBelow
    (lower : Option KeyPart)
    (part : Option KeyPart) :
    Bool :=
  match lower, part with
  | none, _ => true
  | some bound, some part => bound.order part != .gt
  | some _, none => false

/-- Whether a key begins with given parts and its next part lies between two bounds. -/
def inWindow
    (start : Key)
    (lower upper : Option KeyPart)
    (key : Key) :
    Bool :=
  within start upper key && notBelow lower key[start.length]?

theorem bne_gt_eq_isLE (o : Ordering) :
    (o != .gt) = o.isLE := by
  cases o <;> rfl

/-- Taking the entries of some nodes is taking some entries of the nodes. -/
theorem entriesOf_filter
    (p : Key → Bool)
    (nodes : List (Key × List DocumentPath)) :
    entriesOf (nodes.filter fun n => p n.1) = (entriesOf nodes).filter fun e => p e.1 := by
  induction nodes with
  | nil =>
      rfl
  | cons n rest ih =>
      obtain ⟨k, paths⟩ := n
      have hcons : ∀ ns : List (Key × List DocumentPath),
          entriesOf ((k, paths) :: ns) = paths.map (fun path => (k, path)) ++ entriesOf ns :=
        fun _ => rfl
      rw [hcons, List.filter_append, ← ih]
      cases hp : p k with
      | true =>
          have hall : (paths.map fun path => (k, path)).filter (fun e => p e.1) =
              paths.map fun path => (k, path) :=
            List.filter_eq_self.2 fun e he => by
              obtain ⟨path, -, rfl⟩ := List.mem_map.1 he
              exact hp
          rw [hall, List.filter_cons_of_pos (by exact hp), hcons]
      | false =>
          have hnone : (paths.map fun path => (k, path)).filter (fun e => p e.1) = [] :=
            List.filter_eq_nil_iff.2 fun e he => by
              obtain ⟨path, -, rfl⟩ := List.mem_map.1 he
              simp [hp]
          rw [hnone, List.filter_cons_of_neg (by simp [hp]), List.nil_append]

section

variable {direction : Nat → Direction} {start : Key} {lower upper : Option KeyPart}

/-- The first possible key of a scan goes in the directions of the tree. -/
theorem follows_seek
    (hstart : Key.Follows direction start)
    (hlower : ∀ bound ∈ lower, bound.direction = direction start.length) :
    Key.Follows direction (start ++ lower.toList) := by
  refine hstart.append ?_
  cases lower with
  | none =>
      exact .nil _
  | some bound =>
      exact Key.follows_cons.2 ⟨hlower bound rfl, .nil _⟩

/-- A key with a given beginning is not below the first possible key if its next part is not. -/
theorem isLE_seek_iff
    {rest : Key}
    (hkey : Key.Follows direction (start ++ rest))
    (hlower : ∀ bound ∈ lower, bound.direction = direction start.length) :
    (compare (start ++ lower.toList) (start ++ rest)).isLE =
      notBelow lower (start ++ rest)[start.length]? := by
  rw [Key.compare_append_left]
  rw [Key.getElem?_append_length]
  cases lower with
  | none =>
      cases rest <;> rfl
  | some bound =>
      cases rest with
      | nil =>
          rfl
      | cons part rest =>
          have hpart : part.direction = direction start.length :=
            hkey start.length part (Key.getElem?_append_length _ _)
          rw [List.head?_cons, notBelow, bne_gt_eq_isLE,
            KeyPart.order_eq_compare ((hlower bound rfl).trans hpart.symm)]
          change (compare (bound :: []) (part :: rest)).isLE = (compare bound part).isLE
          rw [List.compare_cons_cons]
          cases compare bound part <;> cases rest <;> rfl

/-- A key between the first possible one and one within the window is within the window. -/
theorem within_of_between
    {a b : Key}
    (ha : Key.Follows direction a)
    (hb : Key.Follows direction b)
    (hupper : ∀ bound ∈ upper, bound.direction = direction start.length)
    (hseek : (compare (start ++ lower.toList) a).isLE = true)
    (hab : compare a b = .lt)
    (hwithin : within start upper b = true) :
    within start upper a = true := by
  simp only [within, Bool.and_eq_true, List.isPrefixOf_iff_prefix] at hwithin ⊢
  obtain ⟨⟨restb, rfl⟩, hbound⟩ := hwithin
  have hstart : (compare start (start ++ lower.toList)).isLE = true := by
    have happend := Key.compare_append_left start [] lower.toList
    rw [List.append_nil] at happend
    rw [happend]
    exact List.isLE_compare_nil_left
  have hprefix : start <+: a :=
    Key.prefix_of_between (Std.TransOrd.isLE_trans hstart hseek) (by rw [hab]; rfl)
  obtain ⟨resta, rfl⟩ := hprefix
  refine ⟨List.prefix_append _ _, ?_⟩
  rw [Key.compare_append_left] at hab
  cases upper with
  | none =>
      rfl
  | some bound =>
      cases resta with
      | nil =>
          rw [Key.getElem?_append_length]
          rfl
      | cons p as =>
          cases restb with
          | nil =>
              cases hab
          | cons q bs =>
              have hp : p.direction = bound.direction :=
                (ha start.length p (Key.getElem?_append_length _ _)).trans (hupper bound rfl).symm
              have hq : q.direction = bound.direction :=
                (hb start.length q (Key.getElem?_append_length _ _)).trans (hupper bound rfl).symm
              have hpq : (compare p q).isLE = true := by
                rw [List.compare_cons_cons] at hab
                have hle : ((compare p q).then (compare as bs)).isLE = true := by
                  rw [hab]
                  rfl
                exact Ordering.isLE_left_of_isLE_then hle
              simp only [Key.getElem?_append_length, List.head?_cons, bne_gt_eq_isLE] at hbound ⊢
              rw [KeyPart.order_eq_compare hq] at hbound
              rw [KeyPart.order_eq_compare hp]
              exact Std.TransOrd.isLE_trans hpq hbound

/-- A scan of a sound tree yields exactly the entries whose keys are in the window, in order. -/
theorem Sound.scan_eq_filter
    {t : Tree}
    (h : Sound direction t)
    (hstart : Key.Follows direction start)
    (hlower : ∀ bound ∈ lower, bound.direction = direction start.length)
    (hupper : ∀ bound ∈ upper, bound.direction = direction start.length) :
    t.scan start lower upper = t.toList.filter fun e => inWindow start lower upper e.1 := by
  obtain ⟨nodes⟩ := t
  obtain ⟨hfollows, hascending, -, -⟩ := h
  dsimp only at hfollows hascending
  have hseek : ∀ n ∈ nodes, (start ++ lower.toList).order n.1 =
      compare (start ++ lower.toList) n.1 := fun n hn =>
    Key.order_eq_compare (follows_seek hstart hlower) (hfollows n hn)
  have hkept : ∀ n ∈ nodes, (!((start ++ lower.toList).order n.1 == .gt)) =
      (compare (start ++ lower.toList) n.1).isLE := by
    intro n hn
    rw [hseek n hn]
    exact bne_gt_eq_isLE _
  -- what is above the first possible key stays above it
  have hdrop : nodes.dropWhile (fun n => (start ++ lower.toList).order n.1 == .gt) =
      nodes.filter fun n => !((start ++ lower.toList).order n.1 == .gt) := by
    refine dropWhile_eq_filter (hascending.imp_of_mem ?_)
    intro a b ha hb hab hgt
    rw [hseek b hb, beq_iff_eq] at hgt
    rw [hseek a ha, beq_iff_eq]
    exact Std.TransCmp.gt_trans hgt (Std.OrientedCmp.gt_of_lt hab)
  have htake : (nodes.filter fun n => !((start ++ lower.toList).order n.1 == .gt)).takeWhile
        (fun n => within start upper n.1) =
      (nodes.filter fun n => !((start ++ lower.toList).order n.1 == .gt)).filter
        fun n => within start upper n.1 := by
    refine takeWhile_eq_filter ((hascending.filter _).imp_of_mem ?_)
    intro a b ha hb hab hwithin
    obtain ⟨ha, hle⟩ := List.mem_filter.1 ha
    have hb := (List.mem_filter.1 hb).1
    rw [hkept a ha] at hle
    exact within_of_between (hfollows a ha) (hfollows b hb) hupper hle hab hwithin
  have hwindow : nodes.filter (fun n => within start upper n.1 &&
        !((start ++ lower.toList).order n.1 == .gt)) =
      nodes.filter fun n => inWindow start lower upper n.1 := by
    refine List.filter_congr fun n hn => ?_
    unfold inWindow
    cases hwithin : within start upper n.1 with
    | false =>
        rfl
    | true =>
        simp only [within, Bool.and_eq_true, List.isPrefixOf_iff_prefix] at hwithin
        obtain ⟨⟨rest, hrest⟩, -⟩ := hwithin
        have hfollows := hfollows n hn
        rw [hkept n hn]
        rw [← hrest] at hfollows ⊢
        exact congrArg _ (isLE_seek_iff hfollows hlower)
  change entriesOf ((nodes.dropWhile _).takeWhile _) = (entriesOf nodes).filter _
  rw [hdrop, htake, List.filter_filter, hwindow]
  exact entriesOf_filter (inWindow start lower upper) nodes

end

/-! ### Trees with a history -/

/-- A step in the history of a tree: a path is put in under a key, or taken out. -/
inductive Step where
  | insert (key : Key) (path : DocumentPath)
  | erase (key : Key) (path : DocumentPath)
deriving DecidableEq

/-- The entry that a step is about. -/
def Step.entry : Step → Key × DocumentPath
  | insert key path => (key, path)
  | erase key path => (key, path)

/-- The tree after a step. -/
def Step.applyTo (t : Tree) : Step → Tree
  | insert key path => t.insert key path
  | erase key path => t.erase key path

/-- The tree after some steps, the first of them on the tree without keys. -/
def afterSteps (steps : List Step) : Tree :=
  steps.foldl Step.applyTo empty

/-- An entry is present after some steps if the last step about it put it in. -/
def Present
    (steps : List Step)
    (e : Key × DocumentPath) :
    Prop :=
  (steps.filter fun s => s.entry = e).getLast? = some (.insert e.1 e.2)

/--
A key begins with given parts, and its next part is not below a lower bound and
not above an upper one.  A key without a next part is not below a missing bound.
-/
structure Bounded
    (start : Key)
    (lower upper : Option KeyPart)
    (key : Key) :
    Prop where
  begins : start <+: key
  notBelow : ∀ bound ∈ lower, ∃ part ∈ key[start.length]?, bound.order part ≠ .gt
  notAbove : ∀ bound ∈ upper, ∀ part ∈ key[start.length]?, part.order bound ≠ .gt

/-- The window of a scan has the keys within its bounds. -/
theorem inWindow_iff
    {start key : Key}
    {lower upper : Option KeyPart} :
    inWindow start lower upper key = true ↔ Bounded start lower upper key := by
  unfold inWindow within notBelow
  rw [Bool.and_eq_true, Bool.and_eq_true, List.isPrefixOf_iff_prefix, and_assoc]
  constructor
  · rintro ⟨hbegins, habove, hbelow⟩
    refine ⟨hbegins, ?_, ?_⟩
    · rintro bound ⟨⟩
      cases hpart : key[start.length]? with
      | none =>
          simp [hpart] at hbelow
      | some part =>
          exact ⟨part, rfl, by simpa [hpart] using hbelow⟩
    · rintro bound ⟨⟩ part hpart
      rw [Option.mem_def.1 hpart] at habove
      simpa using habove
  · rintro ⟨hbegins, hbelow, habove⟩
    refine ⟨hbegins, ?_, ?_⟩
    · cases upper with
      | none =>
          rfl
      | some bound =>
          cases hpart : key[start.length]? with
          | none =>
              rfl
          | some part =>
              simpa using habove bound rfl part hpart
    · cases lower with
      | none =>
          rfl
      | some bound =>
          obtain ⟨part, hpart, hle⟩ := hbelow bound rfl
          rw [Option.mem_def.1 hpart]
          simpa using hle

variable {direction : Nat → Direction} {steps : List Step}

theorem afterSteps_concat
    (steps : List Step)
    (s : Step) :
    afterSteps (steps ++ [s]) = s.applyTo (afterSteps steps) := by
  rw [afterSteps, List.foldl_append]
  rfl

/-- After one step more an entry is present if the step put it in, or was about another one. -/
theorem present_concat
    {s : Step}
    {e : Key × DocumentPath} :
    Present (steps ++ [s]) e ↔
      s = .insert e.1 e.2 ∨ s.entry ≠ e ∧ Present steps e := by
  unfold Present
  rw [List.filter_append]
  by_cases hentry : s.entry = e
  · have hlast : ([s].filter fun s => s.entry = e) = [s] :=
      List.filter_cons_of_pos (decide_eq_true hentry)
    rw [hlast, List.getLast?_concat]
    simp [hentry]
  · have hother : ([s].filter fun s => s.entry = e) = [] :=
      List.filter_cons_of_neg (by simpa using hentry)
    have hne : s ≠ .insert e.1 e.2 := by
      rintro rfl
      exact hentry rfl
    rw [hother, List.append_nil]
    simp [hentry, hne]

/-- A step under a key in the directions of a sound tree keeps it sound. -/
theorem Sound.applyTo
    {t : Tree}
    (h : Sound direction t)
    {s : Step}
    (hkey : Key.Follows direction s.entry.1) :
    Sound direction (s.applyTo t) := by
  cases s with
  | insert key path =>
      exact h.insert hkey path
  | erase key path =>
      exact h.erase key path

/-- The entries of a tree after a step. -/
theorem Sound.mem_applyTo
    {t : Tree}
    (h : Sound direction t)
    {s : Step}
    (hkey : Key.Follows direction s.entry.1)
    {e : Key × DocumentPath} :
    e ∈ (s.applyTo t).toList ↔ s = .insert e.1 e.2 ∨ s.entry ≠ e ∧ e ∈ t.toList := by
  cases s with
  | insert key path =>
      refine (h.mem_insert hkey).trans ?_
      have hsame : Step.insert key path = .insert e.1 e.2 ↔ e = (key, path) := by
        rw [Step.insert.injEq, Prod.ext_iff]
        exact and_congr eq_comm eq_comm
      rw [hsame]
      by_cases he : e = (key, path)
      · exact iff_of_true (.inl he) (.inl he)
      · exact or_congr_right (and_iff_right (Ne.symm he)).symm
  | erase key path =>
      refine (h.mem_erase hkey).trans ?_
      simp only [Step.entry, reduceCtorEq, false_or]
      exact and_congr_left' ne_comm

/-- A tree whose keys share one direction at each position is sound and has the present entries. -/
theorem sound_afterSteps
    (hsteps : ∀ s ∈ steps, Key.Follows direction s.entry.1) :
    Sound direction (afterSteps steps) ∧
      ∀ e, e ∈ (afterSteps steps).toList ↔ Present steps e := by
  induction steps using List.reverseRecOn with
  | nil =>
      refine ⟨Sound.empty direction, fun e => ?_⟩
      exact iff_of_false List.not_mem_nil (by simp [Present])
  | append_singleton steps s ih =>
      obtain ⟨hearlier, hs⟩ := List.forall_mem_append.1 hsteps
      obtain ⟨hsound, hpresent⟩ := ih hearlier
      have hkey : Key.Follows direction s.entry.1 := hs s List.mem_cons_self
      rw [afterSteps_concat]
      refine ⟨hsound.applyTo hkey, fun e => ?_⟩
      rw [hsound.mem_applyTo hkey, present_concat, hpresent]

/--
A scan is exact.  In a tree that came about by any steps with keys that share
one direction at each position, a scan with parts and bounds in these directions
yields the present entries whose keys are within the bounds, each once, in
ascending order of their keys and then of their paths.
-/
theorem scan_afterSteps
    (hsteps : ∀ s ∈ steps, Key.Follows direction s.entry.1)
    {start : Key}
    {lower upper : Option KeyPart}
    (hstart : Key.Follows direction start)
    (hlower : ∀ bound ∈ lower, bound.direction = direction start.length)
    (hupper : ∀ bound ∈ upper, bound.direction = direction start.length) :
    (∀ e, e ∈ (afterSteps steps).scan start lower upper ↔
      Present steps e ∧ Bounded start lower upper e.1) ∧
    ((afterSteps steps).scan start lower upper).Nodup ∧
    ((afterSteps steps).scan start lower upper).Pairwise fun a b =>
      (a.1.order b.1).then (compare a.2 b.2) = .lt := by
  obtain ⟨hsound, hpresent⟩ := sound_afterSteps hsteps
  rw [hsound.scan_eq_filter hstart hlower hupper]
  refine ⟨fun e => ?_, hsound.nodup_toList.filter _, ?_⟩
  · rw [List.mem_filter, hpresent, inWindow_iff]
  · refine (hsound.pairwise_toList.filter _).imp_of_mem ?_
    intro a b ha hb hlt
    have hfollows : ∀ e ∈ (afterSteps steps).toList, Key.Follows direction e.1 := by
      intro e he
      obtain ⟨paths, hnode, -⟩ := mem_entriesOf.1 he
      exact hsound.follows _ hnode
    rw [Key.order_eq_compare (hfollows a (List.mem_filter.1 ha).1)
      (hfollows b (List.mem_filter.1 hb).1)]
    exact hlt

/-- A bill. -/
def billOne : DocumentPath := ⟨"bills/1", by decide⟩

/-- Another bill. -/
def billTwo : DocumentPath := ⟨"bills/2", by decide⟩

/-- Keys of bills by tenant and by falling totals. -/
def totalKey (tenant : String) (total : Nat) : Key :=
  [⟨.string tenant, .asc⟩, ⟨.number total, .desc⟩]

/-- A history of bills: one total is corrected, and one bill has no total. -/
def billSteps : List Step :=
  [.insert (totalKey "acme" 7) billTwo,
   .insert (totalKey "acme" 5) billTwo,
   .insert (totalKey "zeta" 4) billOne,
   .insert [⟨.string "acme", .asc⟩] billOne,
   .erase (totalKey "acme" 7) billTwo,
   .insert (totalKey "acme" 2) billTwo,
   .insert (totalKey "acme" 5) billOne]

/-- The bills of a tenant with a total of at most five are found from the largest total down. -/
theorem scan_afterSteps_bills :
    (∀ s ∈ billSteps, Key.Follows (fun i => if i = 1 then .desc else .asc) s.entry.1) ∧
    (afterSteps billSteps).scan [⟨.string "acme", .asc⟩] (some ⟨.number 5, .desc⟩) none =
      [(totalKey "acme" 5, billOne), (totalKey "acme" 5, billTwo),
        (totalKey "acme" 2, billTwo)] ∧
    Present billSteps (totalKey "acme" 2, billTwo) ∧
    Bounded [⟨.string "acme", .asc⟩] (some ⟨.number 5, .desc⟩) none (totalKey "acme" 2) := by
  have htotal : ∀ tenant total,
      Key.Follows (fun i => if i = 1 then .desc else .asc) (totalKey tenant total) :=
    fun _ _ => Key.follows_cons.2 ⟨rfl, Key.follows_cons.2 ⟨rfl, .nil _⟩⟩
  have htenant : Key.Follows (fun i => if i = 1 then .desc else .asc)
      [⟨.string "acme", .asc⟩] :=
    Key.follows_cons.2 ⟨rfl, .nil _⟩
  have hsteps : ∀ s ∈ billSteps,
      Key.Follows (fun i => if i = 1 then .desc else .asc) s.entry.1 := by
    simp [billSteps, Step.entry, htotal, htenant]
  have hscan : (afterSteps billSteps).scan [⟨.string "acme", .asc⟩]
      (some ⟨.number 5, .desc⟩) none =
      [(totalKey "acme" 5, billOne), (totalKey "acme" 5, billTwo),
        (totalKey "acme" 2, billTwo)] := by
    decide +kernel
  have hlower : ∀ bound ∈ some (⟨.number 5, .desc⟩ : KeyPart), bound.direction = .desc := by
    rintro bound ⟨⟩
    rfl
  have hupper : ∀ bound ∈ (none : Option KeyPart), bound.direction = .desc := by
    rintro bound ⟨⟩
  obtain ⟨hmem, -⟩ := scan_afterSteps hsteps htenant hlower hupper
  exact ⟨hsteps, hscan, (hmem (totalKey "acme" 2, billTwo)).1 (by rw [hscan]; simp)⟩

end Tree
end DocumentStore
