import Mathlib.Data.List.Lex
import Mathlib.Data.Prod.Lex
import Mathlib.Order.Bounds.Basic
import ParamForm.Proofs.Parameter.Arranged

/-!
# Sorted siblings

Siblings are in order (`Parameter.InSiblingOrder`) if the required ones come first and the ranks
(`Parameter.rank`) ascend inside each of the two groups. Sorting brings siblings into this order and
counts them from the smallest positive integer among the sort values they had
(`Parameter.StartsAt`), on each level below sub-parameters (`Parameter.arranged_arrange`). What is
shown of all siblings goes by what is just below them (`Parameter.siblings_induction`).
-/

namespace ParamForm

namespace Text

theorem compareUnits_eq_lt_iff {a b : String} :
    compareUnits a b = .lt ↔ units a.toList < units b.toList := by
  rw [compareUnits]
  generalize units a.toList = us, units b.toList = vs
  induction us generalizing vs with
  | nil => cases vs <;> simp [List.compareLex]
  | cons u us ih =>
    cases vs with
    | nil => simp [List.compareLex]
    | cons v vs =>
      rw [List.compareLex, List.cons_lt_cons_iff, ← ih]
      rcases Nat.lt_trichotomy u v with h | rfl | h
      · simp [Nat.compare_eq_lt.mpr h, h]
      · simp
      · simp [Nat.compare_eq_gt.mpr h, h.ne', Nat.lt_asymm h]

theorem compareUnits_eq_eq_iff {a b : String} :
    compareUnits a b = .eq ↔ units a.toList = units b.toList := by
  rw [compareUnits, Std.LawfulEqCmp.compare_eq_iff_eq]

theorem isLE_compareUnits {a b : String} :
    (compareUnits a b).isLE = true ↔ units a.toList ≤ units b.toList := by
  rw [Ordering.isLE_iff_eq_lt_or_eq_eq, compareUnits_eq_lt_iff, compareUnits_eq_eq_iff,
    le_iff_lt_or_eq]

end Text

namespace Parameter

/-- What the order inside a group of siblings goes by: the number of sub-parameters, then the units
of the label, then those of the key. -/
def rank (p : Parameter) : Nat ×ₗ List Nat ×ₗ List Nat :=
  toLex (p.childCount, toLex (Text.units p.info.label.toList, Text.units p.jsonKey.toList))

theorem isLE_then {first second : Ordering} :
    (first.then second).isLE = true ↔ first = .lt ∨ first = .eq ∧ second.isLE = true := by
  cases first <;> simp

theorem isLE_compareSiblings {p q : Parameter} :
    (compareSiblings p q).isLE = true ↔ p.rank ≤ q.rank := by
  rw [compareSiblings, isLE_then, isLE_then, rank, rank, Prod.Lex.toLex_le_toLex,
    Prod.Lex.toLex_le_toLex, Nat.compare_eq_lt, Nat.compare_eq_eq, Text.compareUnits_eq_lt_iff,
    Text.compareUnits_eq_eq_iff, Text.isLE_compareUnits]

/-- Siblings in order: the required ones before all others, and by rank inside each group. -/
structure InSiblingOrder (ps : List Parameter) : Prop where
  requiredFirst : ps.Pairwise fun p q => q.required = true → p.required = true
  ascending : ps.Pairwise fun p q => p.required = q.required → p.rank ≤ q.rank

/-- Whether siblings are in order depends on nothing but which are required and what their ranks
are. -/
theorem InSiblingOrder.congr {ps qs : List Parameter} (h : InSiblingOrder ps)
    (hsame : qs.map (fun q => (q.required, q.rank)) = ps.map fun p => (p.required, p.rank)) :
    InSiblingOrder qs := by
  have transfer (R : Bool × (Nat ×ₗ List Nat ×ₗ List Nat) →
      Bool × (Nat ×ₗ List Nat ×ₗ List Nat) → Prop)
      (hps : ps.Pairwise fun p q => R (p.required, p.rank) (q.required, q.rank)) :
      qs.Pairwise fun p q => R (p.required, p.rank) (q.required, q.rank) :=
    List.pairwise_map.mp (hsame ▸ List.pairwise_map.mpr hps)
  exact ⟨transfer (fun a b => b.1 = true → a.1 = true) h.requiredFirst,
    transfer (fun a b => a.1 = b.1 → a.2 ≤ b.2) h.ascending⟩

theorem pairwise_rank_mergeSort (ps : List Parameter) :
    (ps.mergeSort fun a b => (compareSiblings a b).isLE).Pairwise fun p q => p.rank ≤ q.rank :=
  (pairwise_mergeSort_siblings ps).imp isLE_compareSiblings.mp

theorem inSiblingOrder_inOrder (ps : List Parameter) : InSiblingOrder (inOrder ps) := by
  have hrequired : ∀ p ∈ (ps.filter (·.required)).mergeSort
      (fun a b => (compareSiblings a b).isLE), p.required = true := by
    intro p hp
    exact (List.mem_filter.mp (List.mem_mergeSort.mp hp)).2
  have hoptional : ∀ p ∈ (ps.filter (! ·.required)).mergeSort
      (fun a b => (compareSiblings a b).isLE), p.required = false := by
    intro p hp
    simpa using (List.mem_filter.mp (List.mem_mergeSort.mp hp)).2
  have hgroup (qs : List Parameter) : (qs.mergeSort fun a b => (compareSiblings a b).isLE).Pairwise
      fun p q => p.required = q.required → p.rank ≤ q.rank := by
    refine (pairwise_rank_mergeSort qs).imp ?_
    intro p q h _
    exact h
  constructor
  · refine List.pairwise_append.mpr ⟨?_, ?_, ?_⟩
    · exact List.pairwise_of_forall_mem_list fun p hp _ _ _ => hrequired p hp
    · refine List.pairwise_of_forall_mem_list fun p _ q hq h => ?_
      exact absurd h (by simp [hoptional q hq])
    · exact fun p hp _ _ _ => hrequired p hp
  · refine List.pairwise_append.mpr ⟨?_, ?_, ?_⟩
    · exact hgroup _
    · exact hgroup _
    · intro p hp q hq h
      rw [hrequired p hp, hoptional q hq] at h
      exact absurd h (by decide)

/-- The positive integers among the sort values of siblings. -/
def positiveSorts (ps : List Parameter) : Set Int :=
  {n | 0 < n ∧ ∃ p ∈ ps, p.info.sort = .whole n}

/-- The number that siblings are counted from: the smallest positive integer among their sort
values, and the default where there is none. -/
inductive StartsAt (defaultSort : Number) (ps : List Parameter) : Number → Prop
  | least {n : Int} (h : IsLeast (positiveSorts ps) n) : StartsAt defaultSort ps (.whole n)
  | unset (h : positiveSorts ps = ∅) : StartsAt defaultSort ps defaultSort

/-- The least element of a set of integers, if there is one. -/
def LeastOf (s : Set Int) : Option Int → Prop
  | none => s = ∅
  | some n => IsLeast s n

theorem positiveSorts_singleton (p : Parameter) :
    positiveSorts [p] = {n | 0 < n ∧ p.info.sort = .whole n} := by
  simp [positiveSorts]

/-- One more sibling. -/
theorem leastOf_smallerSort {s : Set Int} {least : Option Int} (h : LeastOf s least)
    (p : Parameter) :
    LeastOf (s ∪ positiveSorts [p]) (smallerSort least p.info.sort) := by
  have hnone (hsort : ∀ n : Int, 0 < n → p.info.sort ≠ .whole n) :
      LeastOf (s ∪ positiveSorts [p]) least := by
    have hempty : positiveSorts [p] = ∅ := by
      rw [positiveSorts_singleton, Set.eq_empty_iff_forall_notMem]
      exact fun n hn => hsort n hn.1 hn.2
    rwa [hempty, Set.union_empty]
  cases hsort : p.info.sort with
  | whole n =>
    simp only [smallerSort]
    split_ifs with hpos
    · have hset : positiveSorts [p] = {n} := by
        ext m
        simp only [positiveSorts_singleton, hsort, Number.whole.injEq, Set.mem_ofPred_eq,
          Set.mem_singleton_iff]
        omega
      rw [hset]
      cases least with
      | none =>
        rw [show s = ∅ from h, Set.empty_union]
        exact isLeast_singleton
      | some m =>
        have hmin : (if n < m then n else m) = min m n := by omega
        simp only [hmin]
        exact h.union isLeast_singleton
    · refine hnone fun m hm hm' => hpos ?_
      rw [hsort, Number.whole.injEq] at hm'
      omega
  | _ => exact hnone fun n _ hn => by simp [hsort] at hn

theorem positiveSorts_cons (p : Parameter) (ps : List Parameter) :
    positiveSorts (p :: ps) = positiveSorts [p] ∪ positiveSorts ps := by
  ext n
  simp [positiveSorts, and_or_left]

theorem leastOf_foldl {s : Set Int} {least : Option Int} (h : LeastOf s least)
    (ps : List Parameter) : LeastOf (s ∪ positiveSorts ps)
      (ps.foldl (fun least p => smallerSort least p.info.sort) least) := by
  induction ps generalizing s least with
  | nil =>
    have hnone : positiveSorts [] = ∅ := by simp [positiveSorts]
    rwa [hnone, Set.union_empty]
  | cons p ps ih =>
    rw [positiveSorts_cons, ← Set.union_assoc, List.foldl_cons]
    exact ih (leastOf_smallerSort h p)

theorem startsAt_sortBase (defaultSort : Number) (ps : List Parameter) :
    StartsAt defaultSort ps (sortBase defaultSort ps) := by
  have hleast := leastOf_foldl (show LeastOf ∅ none from rfl) ps
  rw [Set.empty_union] at hleast
  rw [sortBase]
  split
  · rename_i n hn
    rw [hn] at hleast
    exact .least hleast
  · rename_i hn
    rw [hn] at hleast
    exact .unset hleast

section Arrange

variable (defaultSort : Number)

theorem arrangeSubs_eq_map (subs : Option (List Parameter)) :
    arrangeSubs defaultSort subs = subs.map (arrange defaultSort) := by
  cases subs with
  | none => rfl
  | some ps => rfl

/-- The parameter of further keys, its own sub-parameters arranged. -/
def arrangeValue (v : Parameter) : Parameter :=
  ⟨v.info, v.subParameters.map (arrange defaultSort), v.additionalParameter⟩

theorem arrangeBelow_eq (p : Parameter) : arrangeBelow defaultSort p
    = ⟨p.info, p.subParameters.map (arrange defaultSort),
      p.additionalParameter.map (arrangeValue defaultSort)⟩ := by
  obtain ⟨info, subs, extra⟩ := p
  cases extra with
  | none => rw [arrangeBelow, arrangeSubs_eq_map, arrangeExtra, Option.map_none]
  | some v =>
    obtain ⟨_, _, _⟩ := v
    rw [arrangeBelow, arrangeSubs_eq_map, arrangeExtra, arrangeSubs_eq_map]
    rfl

theorem length_arrange (ps : List Parameter) : (arrange defaultSort ps).length = ps.length := by
  rw [arrange, sortSiblings, numbered, List.length_map, List.length_zipIdx, arrangeEach_eq_map,
    (inOrder_perm _).length_eq, List.length_map]

theorem info_arrangeBelow (p : Parameter) : (arrangeBelow defaultSort p).info = p.info := by
  rw [arrangeBelow_eq]

theorem arrange_nil : arrange defaultSort [] = [] :=
  List.eq_nil_of_length_eq_zero (length_arrange defaultSort [])

theorem children_arrangeValue (p : Parameter) :
    (arrangeValue defaultSort p).children = arrange defaultSort p.children := by
  rw [children, children, arrangeValue]
  cases p.subParameters with
  | none => exact (arrange_nil defaultSort).symm
  | some ps => rfl

theorem children_arrangeBelow (p : Parameter) :
    (arrangeBelow defaultSort p).children = arrange defaultSort p.children := by
  rw [arrangeBelow_eq]
  exact children_arrangeValue defaultSort p

theorem childCount_arrangeBelow (p : Parameter) :
    (arrangeBelow defaultSort p).childCount = p.childCount := by
  rw [childCount, children_arrangeBelow, length_arrange, childCount]

/-- The siblings are put in order and counted, and then what is below each of them is arranged. -/
theorem arrange_eq (ps : List Parameter) : arrange defaultSort ps
    = numbered (sortBase defaultSort ps) ((inOrder ps).map (arrangeBelow defaultSort)) := by
  rw [arrange, sortSiblings, arrangeEach_eq_map, sortBase_map (info_arrangeBelow defaultSort),
    map_inOrder (info_arrangeBelow defaultSort) (childCount_arrangeBelow defaultSort)]

end Arrange

/-- The parameter with another sort number. -/
def withSort (number : Number) (p : Parameter) : Parameter :=
  { p with info := { p.info with sort := number } }

theorem getElem?_numbered (base : Number) (ps : List Parameter) (i : Nat) :
    (numbered base ps)[i]? = ps[i]?.map (withSort (base.plus i)) := by
  rw [numbered, List.getElem?_map, List.getElem?_zipIdx, Option.map_map, Nat.zero_add]
  rfl

theorem map_numbered {β : Type} {f : Parameter → β} (hf : ∀ number p, f (withSort number p) = f p)
    (base : Number) (ps : List Parameter) : (numbered base ps).map f = ps.map f := by
  refine List.ext_getElem? fun i => ?_
  rw [List.getElem?_map, getElem?_numbered, List.getElem?_map, Option.map_map]
  congr 1
  exact funext (hf _)

theorem sorts_numbered (base : Number) (ps : List Parameter) :
    (numbered base ps).map (·.info.sort) = (List.range ps.length).map base.plus := by
  rw [numbered, List.map_map, List.range_eq_range', ← List.zipIdx_map_snd 0 ps, List.map_map]
  rfl

theorem sorts_arrange (defaultSort : Number) (ps : List Parameter) :
    (arrange defaultSort ps).map (·.info.sort)
      = (List.range ps.length).map (sortBase defaultSort ps).plus := by
  rw [arrange_eq, sorts_numbered, List.length_map, (inOrder_perm ps).length_eq]

theorem getElem?_arrange (defaultSort : Number) (ps : List Parameter) (i : Nat) :
    (arrange defaultSort ps)[i]? = (inOrder ps)[i]?.map fun p =>
      (arrangeBelow defaultSort p).withSort ((sortBase defaultSort ps).plus i) := by
  rw [arrange_eq, getElem?_numbered, List.getElem?_map, Option.map_map]
  rfl

theorem exists_of_mem_arrange (defaultSort : Number) {q : Parameter} {ps : List Parameter}
    (h : q ∈ arrange defaultSort ps) :
    ∃ p ∈ ps, ∃ number, q = (arrangeBelow defaultSort p).withSort number := by
  obtain ⟨i, hi⟩ := List.mem_iff_getElem?.mp h
  rw [getElem?_arrange, Option.map_eq_some_iff] at hi
  obtain ⟨p, hp, rfl⟩ := hi
  exact ⟨p, (inOrder_perm ps).mem_iff.mp (List.mem_of_getElem? hp), _, rfl⟩

theorem keys_arrange_perm (defaultSort : Number) (ps : List Parameter) :
    ((arrange defaultSort ps).map (·.jsonKey)).Perm (ps.map (·.jsonKey)) := by
  have hbelow : (·.jsonKey) ∘ arrangeBelow defaultSort = (·.jsonKey) :=
    funext fun p => congrArg ParameterInfo.jsonKey (info_arrangeBelow defaultSort p)
  rw [arrange_eq, map_numbered fun _ _ => rfl, List.map_map, hbelow]
  exact (inOrder_perm ps).map _

/-- A sibling after sorting: it carries its number, and is otherwise as it was but for what is
inside its sub-parameters and its parameter of further keys. -/
structure Counted (number : Number) (p q : Parameter) : Prop where
  info : q.info = { p.info with sort := number }
  subParameters : q.subParameters.isSome = p.subParameters.isSome
  additionalParameter : q.additionalParameter.isSome = p.additionalParameter.isSome

/-- The siblings `sorted` are those of `ps`, put in order and counted; `moved` are the siblings of
`ps` as they were, in the new order. -/
structure SortedFrom (defaultSort : Number) (ps moved sorted : List Parameter) : Prop where
  perm : moved.Perm ps
  inOrder : InSiblingOrder sorted
  counted : ∃ base, StartsAt defaultSort ps base
    ∧ ∀ i, Option.Rel (Counted (base.plus i)) moved[i]? sorted[i]?

theorem sortedFrom_arrange (defaultSort : Number) (ps : List Parameter) :
    SortedFrom defaultSort ps (inOrder ps) (arrange defaultSort ps) where
  perm := inOrder_perm ps
  inOrder := by
    refine (inSiblingOrder_inOrder ps).congr ?_
    rw [arrange_eq, map_numbered fun _ _ => rfl, List.map_map]
    refine List.map_congr_left fun p _ => ?_
    simp [rank, required, jsonKey, info_arrangeBelow, childCount_arrangeBelow]
  counted := by
    refine ⟨_, startsAt_sortBase defaultSort ps, fun i => ?_⟩
    rw [getElem?_arrange]
    cases (inOrder ps)[i]? with
    | none => exact .none
    | some p =>
      refine .some ⟨?_, ?_, ?_⟩ <;> simp [withSort, arrangeBelow_eq]

theorem sizeOf_subParameters {p : Parameter} {below : List Parameter}
    (h : below ∈ p.subParameters) : sizeOf below < sizeOf p := by
  obtain ⟨info, subs, extra⟩ := p
  obtain rfl : subs = some below := h
  simp only [Parameter.mk.sizeOf_spec, Option.some.sizeOf_spec]
  omega

theorem sizeOf_additionalParameter {p v : Parameter} (h : v ∈ p.additionalParameter) :
    sizeOf v < sizeOf p := by
  obtain ⟨info, subs, extra⟩ := p
  obtain rfl : extra = some v := h
  simp only [Parameter.mk.sizeOf_spec, Option.some.sizeOf_spec]
  omega

/-- What holds of siblings whenever it holds of all lists of sub-parameters just below them, those
of their parameters of further keys included, holds of all siblings. -/
theorem siblings_induction {motive : List Parameter → Prop}
    (step : ∀ ps, (∀ p ∈ ps, (∀ below ∈ p.subParameters, motive below)
      ∧ ∀ v ∈ p.additionalParameter, ∀ below ∈ v.subParameters, motive below) → motive ps)
    (ps : List Parameter) : motive ps :=
  step ps fun _ _hp => ⟨fun below _h => siblings_induction step below,
    fun _ _hv below _h => siblings_induction step below⟩
termination_by sizeOf ps
decreasing_by
  · have := List.sizeOf_lt_of_mem _hp
    have := sizeOf_subParameters _h
    omega
  · have := List.sizeOf_lt_of_mem _hp
    have := sizeOf_additionalParameter _hv
    have := sizeOf_subParameters _h
    omega

/-- The same, where a parameter without a list of sub-parameters has none of them. -/
theorem children_induction {motive : List Parameter → Prop}
    (step : ∀ ps, (∀ p ∈ ps, motive p.children ∧ ∀ v ∈ p.additionalParameter, motive v.children) →
      motive ps) (ps : List Parameter) : motive ps := by
  have hchildren {p : Parameter} (h : ∀ below ∈ p.subParameters, motive below) :
      motive p.children := by
    rw [children]
    cases hsubs : p.subParameters with
    | none => exact step [] (List.forall_mem_nil _)
    | some below => exact h below hsubs
  induction ps using siblings_induction with
  | step ps ih =>
    exact step ps fun p hp => ⟨hchildren (ih p hp).1, fun v hv => hchildren ((ih p hp).2 v hv)⟩

/-- The tree `sorted` is the tree `ps` sorted on every level: its siblings are those of `ps`, put in
order and counted, and so are the sub-parameters of each of them. -/
inductive Arranged (defaultSort : Number) : List Parameter → List Parameter → Prop
  | intro {ps moved sorted : List Parameter} (level : SortedFrom defaultSort ps moved sorted)
      (below : ∀ (i : Nat) (p q : Parameter), moved[i]? = some p → sorted[i]? = some q →
        ∀ subs ∈ p.subParameters, ∀ sortedSubs ∈ q.subParameters,
          Arranged defaultSort subs sortedSubs) :
      Arranged defaultSort ps sorted

/-- Sorting arranges a tree. -/
theorem arranged_arrange (defaultSort : Number) (ps : List Parameter) :
    Arranged defaultSort ps (arrange defaultSort ps) := by
  induction ps using siblings_induction with
  | step ps ih =>
    refine .intro (sortedFrom_arrange defaultSort ps) ?_
    intro i p q hp hq subs hsubs sortedSubs hq'
    rw [getElem?_arrange, hp] at hq
    obtain rfl := Option.some.inj hq
    have hmem : p ∈ ps := (inOrder_perm ps).mem_iff.mp (List.mem_of_getElem? hp)
    rw [Option.mem_def] at hsubs
    have hsorted : sortedSubs = arrange defaultSort subs := by
      simpa [withSort, arrangeBelow_eq, hsubs, eq_comm] using hq'
    rw [hsorted]
    exact (ih p hmem).1 subs hsubs

end Parameter

end ParamForm
