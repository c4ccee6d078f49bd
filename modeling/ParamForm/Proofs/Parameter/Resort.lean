import ParamForm.Proofs.Options
import ParamForm.Proofs.Parameter.FurtherKeys

/-!
# Sorting again

Siblings in order stay where they are when they are sorted again (`Parameter.inOrder_eq_self`).
Their numbers stay as well, unless the count began at zero and so went on to a positive number,
which the second sorting counts from. With the options that are accepted, sorting twice is sorting
once exactly if this happens nowhere (`Parameter.arrange_arrange_iff`).
-/

namespace ParamForm.Parameter

theorem filter_append_filter {ps : List Parameter}
    (h : ps.Pairwise fun p q => q.required = true → p.required = true) :
    ps.filter (·.required) ++ ps.filter (! ·.required) = ps := by
  induction ps with
  | nil => rfl
  | cons p ps ih =>
    obtain ⟨hp, hps⟩ := List.pairwise_cons.mp h
    cases hrequired : p.required with
    | true =>
      rw [List.filter_cons_of_pos hrequired, List.filter_cons_of_neg (by simp [hrequired]),
        List.cons_append, ih hps]
    | false =>
      have hrest : ∀ q ∈ ps, q.required = false := fun q hq => by
        have := hp q hq
        simp_all
      rw [List.filter_cons_of_neg (by simp [hrequired]),
        List.filter_cons_of_pos (by simp [hrequired]),
        List.filter_eq_nil_iff.mpr fun q hq => by simp [hrest q hq],
        List.filter_eq_self.mpr fun q hq => by simp [hrest q hq], List.nil_append]

/-- Siblings in order stay as they are. -/
theorem inOrder_eq_self {ps : List Parameter} (h : InSiblingOrder ps) : inOrder ps = ps := by
  have hgroup (keep : Parameter → Bool)
      (hkeep : ∀ p q : Parameter, keep p = true → keep q = true → p.required = q.required) :
      (ps.filter keep).mergeSort (fun a b => (compareSiblings a b).isLE) = ps.filter keep := by
    refine List.mergeSort_of_pairwise ?_
    refine (h.ascending.filter keep).imp_of_mem fun hp hq hrank => ?_
    exact isLE_compareSiblings.mpr
      (hrank (hkeep _ _ (List.mem_filter.mp hp).2 (List.mem_filter.mp hq).2))
  have hsplit := filter_append_filter h.requiredFirst
  simp only [inOrder]
  rw [hgroup _ fun p q hp hq => hp.trans hq.symm, hgroup _ fun p q hp hq => by simp_all, hsplit]

variable {defaultSort : Number}

theorem inOrder_arrange (ps : List Parameter) :
    inOrder (arrange defaultSort ps) = arrange defaultSort ps :=
  inOrder_eq_self (sortedFrom_arrange defaultSort ps).inOrder

theorem mem_positiveSorts_arrange {ps : List Parameter} {n : Int} :
    n ∈ positiveSorts (arrange defaultSort ps)
      ↔ 0 < n ∧ ∃ i < ps.length, (sortBase defaultSort ps).plus i = .whole n := by
  have hsorts := sorts_arrange defaultSort ps
  refine and_congr_right fun _ => ?_
  rw [← List.mem_map (f := fun p : Parameter => p.info.sort), hsorts, List.mem_map]
  simp only [List.mem_range]

theorem StartsAt.unique {ps : List Parameter} {x y : Number} (hx : StartsAt defaultSort ps x)
    (hy : StartsAt defaultSort ps y) : x = y := by
  cases hx with
  | least h =>
    cases hy with
    | least h' => rw [h.unique h']
    | unset h' => exact absurd h.1 (by simp [h'])
  | unset h =>
    cases hy with
    | least h' => exact absurd h'.1 (by simp [h])
    | unset => rfl

/-- A count that begins with a positive integer is taken up again. -/
theorem sortBase_arrange_of_pos {ps : List Parameter} {n : Nat} (hne : ps ≠ []) (hn : 0 < n)
    (hrep : (Number.whole n).Representable) (hbase : sortBase defaultSort ps = .whole n) :
    sortBase defaultSort (arrange defaultSort ps) = .whole n := by
  have hcount (i : Nat) : (sortBase defaultSort ps).plus i = .ofInt (n + i : Nat) := by
    rw [hbase]
    rfl
  refine (startsAt_sortBase _ _).unique (.least ⟨?_, fun m hm => ?_⟩)
  · refine mem_positiveSorts_arrange.mpr
      ⟨by omega, 0, List.length_pos_iff.mpr hne, ?_⟩
    rw [hcount, Nat.add_zero, Number.ofInt_of_representable hrep]
  · obtain ⟨-, i, -, hi⟩ := mem_positiveSorts_arrange.mp hm
    rw [hcount] at hi
    exact Number.le_of_ofInt_eq_whole hrep (Nat.le_add_right n i) hi

/-- Whether siblings get the same numbers when they are sorted again. -/
def Recounts (defaultSort : Number) (ps : List Parameter) : Prop :=
  ∀ i < ps.length, (sortBase defaultSort (arrange defaultSort ps)).plus i
    = (sortBase defaultSort ps).plus i

theorem recounts_of_eq {ps : List Parameter}
    (h : sortBase defaultSort (arrange defaultSort ps) = sortBase defaultSort ps) :
    Recounts defaultSort ps := by
  intro i _
  rw [h]

theorem recounts_of_pos {ps : List Parameter} {n : Nat} (hn : 0 < n)
    (hrep : (Number.whole n).Representable) (hbase : sortBase defaultSort ps = .whole n) :
    Recounts defaultSort ps := by
  by_cases hne : ps = []
  · subst hne
    exact fun i hi => absurd hi (Nat.not_lt_zero i)
  · exact recounts_of_eq ((sortBase_arrange_of_pos hne hn hrep hbase).trans hbase.symm)

/-- A count that begins with zero is taken up at one, if it gets there. -/
theorem recounts_of_zero_iff {ps : List Parameter} (hzero : defaultSort.same (.whole 0) = true)
    (hbase : sortBase defaultSort ps = defaultSort) :
    Recounts defaultSort ps ↔ ps.length ≤ 1 := by
  have hcount (i : Nat) : (sortBase defaultSort ps).plus i = .ofInt (i : Nat) := by
    rw [hbase, Number.plus_of_same hzero, Nat.zero_add]
  have hof0 : Number.ofInt (0 : Nat) = .whole 0 := by decide
  have hof1 : Number.ofInt (1 : Nat) = .whole 1 := by decide
  constructor
  · intro h
    by_contra hlength
    have hleast : IsLeast (positiveSorts (arrange defaultSort ps)) 1 := by
      refine ⟨mem_positiveSorts_arrange.mpr ⟨by decide, 1, by omega, ?_⟩, fun m hm => hm.1⟩
      rw [hcount, hof1]
    have hnext := (startsAt_sortBase defaultSort (arrange defaultSort ps)).unique (.least hleast)
    have hfirst := h 0 (by omega)
    rw [hnext, hcount, hof0] at hfirst
    exact absurd hfirst (by decide)
  · intro hlength
    refine recounts_of_eq ?_
    rw [hbase]
    refine (startsAt_sortBase _ _).unique (.unset ?_)
    rw [Set.eq_empty_iff_forall_notMem]
    intro m hm
    obtain ⟨hpos, i, hi, hsort⟩ := mem_positiveSorts_arrange.mp hm
    obtain rfl : i = 0 := by omega
    rw [hcount, hof0, Number.whole.injEq] at hsort
    omega

theorem recounts_iff {n : Nat} (hsame : defaultSort.same (.whole n) = true)
    (hrep : (Number.whole n).Representable) {ps : List Parameter}
    (hsorts : ∀ p ∈ ps, p.info.sort.Representable) :
    Recounts defaultSort ps ↔ 0 < n ∨ ps.length ≤ 1 ∨ (positiveSorts ps).Nonempty := by
  have hstart := startsAt_sortBase defaultSort ps
  generalize hbase : sortBase defaultSort ps = base at hstart
  cases hstart with
  | @least k h =>
    obtain ⟨hk, p, hp, hsort⟩ := h.1
    obtain ⟨m, rfl⟩ := Int.eq_ofNat_of_zero_le hk.le
    have hrecounts := recounts_of_pos (by omega) (hsort ▸ hsorts p hp) hbase
    exact iff_of_true hrecounts (.inr (.inr ⟨m, h.1⟩))
  | unset h =>
    rw [h]
    rcases Nat.eq_zero_or_pos n with rfl | hn
    · simpa using recounts_of_zero_iff hsame hbase
    · have hdefault : defaultSort = .whole n :=
        (Number.eq_or_of_same hsame).resolve_right fun hzero => hn.ne' hzero.2
      exact iff_of_true (recounts_of_pos hn hrep (hbase.trans hdefault)) (.inl hn)

theorem map_map_eq_iff {α : Type} (f : α → α) (a? : Option α) :
    (a?.map f).map f = a?.map f ↔ ∀ a ∈ a?, f (f a) = f a := by
  cases a? <;> simp

theorem arrangeValue_twice_iff {v : Parameter} :
    arrangeValue defaultSort (arrangeValue defaultSort v) = arrangeValue defaultSort v
      ↔ ∀ below ∈ v.subParameters,
        arrange defaultSort (arrange defaultSort below) = arrange defaultSort below := by
  rw [← map_map_eq_iff]
  simp [arrangeValue]

theorem arrangeBelow_twice_iff {p : Parameter} :
    arrangeBelow defaultSort (arrangeBelow defaultSort p) = arrangeBelow defaultSort p
      ↔ (∀ below ∈ p.subParameters,
          arrange defaultSort (arrange defaultSort below) = arrange defaultSort below)
        ∧ ∀ v ∈ p.additionalParameter, ∀ below ∈ v.subParameters,
          arrange defaultSort (arrange defaultSort below) = arrange defaultSort below := by
  have hvalues := map_map_eq_iff (arrangeValue defaultSort) p.additionalParameter
  simp only [arrangeValue_twice_iff] at hvalues
  rw [← hvalues, ← map_map_eq_iff]
  simp [arrangeBelow_eq]

theorem getElem?_arrange_twice (ps : List Parameter) (i : Nat) :
    (arrange defaultSort (arrange defaultSort ps))[i]? = (inOrder ps)[i]?.map fun p =>
      (arrangeBelow defaultSort (arrangeBelow defaultSort p)).withSort
        ((sortBase defaultSort (arrange defaultSort ps)).plus i) := by
  rw [getElem?_arrange, inOrder_arrange, getElem?_arrange, Option.map_map]
  congr 1
  funext p
  simp [arrangeBelow_eq, withSort]

theorem withSort_eq_iff {p q : Parameter} (h : p.info = q.info) {a b : Number} :
    p.withSort a = q.withSort b ↔ a = b ∧ p = q := by
  obtain ⟨info, _, _⟩ := p
  obtain ⟨info', _, _⟩ := q
  obtain rfl : info = info' := h
  simp [withSort]

/-- Siblings are steady if their numbers are and what is below each of them is. -/
theorem arrange_twice_iff {ps : List Parameter} :
    arrange defaultSort (arrange defaultSort ps) = arrange defaultSort ps
      ↔ Recounts defaultSort ps ∧ ∀ p ∈ ps,
        arrangeBelow defaultSort (arrangeBelow defaultSort p) = arrangeBelow defaultSort p := by
  have hlength : (inOrder ps).length = ps.length := (inOrder_perm ps).length_eq
  have hentry (i : Nat) (p : Parameter) (hp : (inOrder ps)[i]? = some p) :
      (arrange defaultSort (arrange defaultSort ps))[i]? = (arrange defaultSort ps)[i]?
        ↔ (sortBase defaultSort (arrange defaultSort ps)).plus i = (sortBase defaultSort ps).plus i
          ∧ arrangeBelow defaultSort (arrangeBelow defaultSort p) = arrangeBelow defaultSort p := by
    rw [getElem?_arrange_twice, getElem?_arrange, hp, Option.map_some, Option.map_some,
      Option.some.injEq]
    exact withSort_eq_iff (by simp [info_arrangeBelow])
  constructor
  · intro h
    refine ⟨fun i hi => ?_, fun p hp => ?_⟩
    · have hget := List.getElem?_eq_getElem (hlength.symm ▸ hi : i < (inOrder ps).length)
      exact ((hentry i _ hget).mp (by rw [h])).1
    · obtain ⟨i, hi⟩ := List.mem_iff_getElem?.mp ((inOrder_perm ps).mem_iff.mpr hp)
      exact ((hentry i p hi).mp (by rw [h])).2
  · rintro ⟨hcounts, hbelow⟩
    refine List.ext_getElem? fun i => ?_
    cases hget : (inOrder ps)[i]? with
    | none => rw [getElem?_arrange_twice, getElem?_arrange, hget, Option.map_none, Option.map_none]
    | some p =>
      have hi : i < ps.length := hlength ▸ (List.getElem?_eq_some_iff.mp hget).1
      have hp : p ∈ ps := (inOrder_perm ps).mem_iff.mp (List.mem_of_getElem? hget)
      exact (hentry i p hget).mpr ⟨hcounts i hi, hbelow p hp⟩

/-- Sorting twice is sorting once exactly if the numbers stay wherever sorting comes to. -/
theorem arrange_twice_iff_allReached {n : Nat} (hsame : defaultSort.same (.whole n) = true)
    (hrep : (Number.whole n).Representable) (ps : List Parameter)
    (hsorts : AllReached (fun given => ∀ p ∈ given, p.info.sort.Representable) ps) :
    arrange defaultSort (arrange defaultSort ps) = arrange defaultSort ps
      ↔ AllReached (fun given => 0 < n ∨ given.length ≤ 1 ∨ (positiveSorts given).Nonempty) ps := by
  induction ps using siblings_induction with
  | step ps ih =>
    obtain ⟨hhere, hbelow⟩ := allReached_iff.mp hsorts
    rw [arrange_twice_iff, allReached_iff, recounts_iff hsame hrep hhere]
    refine and_congr_right fun _ => forall₂_congr fun p hp => ?_
    rw [arrangeBelow_twice_iff]
    refine and_congr (forall₂_congr fun below h => ?_) (forall₂_congr fun v hv =>
      forall₂_congr fun below h => ?_)
    · exact (ih p hp).1 below h ((hbelow p hp).1 below h)
    · exact (ih p hp).2 v hv below h ((hbelow p hp).2 v hv below h)

/-- With accepted options, sorting twice is sorting once exactly if the default that siblings are
counted from is positive, or all siblings that sorting comes to are at most one or have a positive
integer among their sort values. -/
theorem arrange_arrange_iff {fields : Fields} {options : Options}
    (hwell : Value.WellFormedFields fields) (h : Options.resolve fields = .ok options)
    {ps : List Parameter}
    (hsorts : AllReached (fun given => ∀ p ∈ given, p.info.sort.Representable) ps) :
    arrange options.defaultSort (arrange options.defaultSort ps) = arrange options.defaultSort ps
      ↔ options.defaultSort.isPositive = true
        ∨ AllReached (fun given => given.length ≤ 1 ∨ (positiveSorts given).Nonempty) ps := by
  obtain ⟨n, hsame, hrep⟩ := Options.exists_defaultSort hwell h
  rw [arrange_twice_iff_allReached hsame hrep ps hsorts, Number.isPositive_iff_of_same hsame]
  rcases Nat.eq_zero_or_pos n with rfl | hn
  · simp only [Nat.lt_irrefl, false_or]
  · exact iff_of_true (fun _ _ _ _ => .inl hn) (.inl hn)

/-- Two siblings without a number of their own, counted from the default zero: the second sorting
counts from one. -/
theorem arrange_arrange_iff_zero :
    let fields : Fields := [("defaultSort", .number (.whole 0))]
    let ps := ["b", "a"].map fun key => (group key []).withSort (.whole 0)
    let once := arrange (.whole 0) ps
    Options.resolve fields = .ok ⟨.whole 0, false⟩
      ∧ arrange (.whole 0) once ≠ once
      ∧ once.map (·.info.sort) = [.whole 0, .whole 1]
      ∧ (arrange (.whole 0) once).map (·.info.sort) = [.whole 1, .whole 2] := by
  intro fields ps once
  have hzero : (Number.whole 0).Representable := Number.representable_whole (by decide)
  have hwell : Value.WellFormedFields fields := ⟨hzero, trivial⟩
  have hresolve : Options.resolve fields = .ok ⟨.whole 0, false⟩ := rfl
  have hnothing : AllReached (fun given => ∀ p ∈ given, p.info.sort.Representable) [] :=
    allReached_iff.mpr ⟨List.forall_mem_nil _, List.forall_mem_nil _⟩
  have hsorts : AllReached (fun given => ∀ p ∈ given, p.info.sort.Representable) ps := by
    refine allReached_iff.mpr ⟨List.forall_mem_map.mpr fun _ _ => hzero,
      List.forall_mem_map.mpr fun key _ => ⟨fun below h => ?_, fun v hv => by cases hv⟩⟩
    obtain rfl : [] = below := Option.some.inj h
    exact hnothing
  have honce : once.map (·.info.sort) = [.whole 0, .whole 1] := by
    rw [sorts_arrange]
    decide +kernel
  have hbase : sortBase (.whole 0) once = .whole 1 := by
    rw [sortBase, ← List.foldl_map (f := fun p : Parameter => p.info.sort), honce]
    rfl
  refine ⟨hresolve, fun htwice => ?_, honce, ?_⟩
  · rcases (arrange_arrange_iff hwell hresolve hsorts).mp htwice with hpositive | hreached
    · exact absurd hpositive (by decide)
    · rcases hreached [] ps (List.forall_mem_nil _) (.here ps) with hlength | ⟨n, hn, p, hp, hsort⟩
      · exact absurd hlength (by decide)
      · obtain ⟨key, -, rfl⟩ := List.mem_map.mp hp
        have : (0 : Int) = n := Number.whole.inj hsort
        omega
  · rw [sorts_arrange, hbase, length_arrange]
    decide +kernel

end ParamForm.Parameter
