import ParamForm.Parameter.Patch
import ParamForm.Proofs.Parameter.Sort

/-!
# Copies of sorted and patched trees

Putting a tree in order changes no widget, so a sorted tree can be copied exactly if the tree itself
can (`Parameter.allCopyable_arrange`). Overrides put tags in the place of widgets, and a tag can
always be copied: a tree that can be copied still can be after overrides were laid over it
(`Parameter.allCopyable_patchList`).
-/

namespace ParamForm

theorem ParameterInfo.isCopyable_patched {base : ParameterInfo}
    (h : base.uiType.isCopyable = true) (o : Override) :
    (base.patched o).uiType.isCopyable = true := by
  unfold ParameterInfo.patched
  cases o.uiType with
  | none => exact h
  | some tag => rfl

namespace Parameter

theorem isCopyable_eq (p : Parameter) : isCopyable p
    = (p.info.uiType.isCopyable && optionsCopyable p.subParameters
      && extraCopyable p.additionalParameter) := by
  cases p with
  | mk info subs extra => rw [isCopyable]

theorem allCopyable_iff {ps : List Parameter} :
    allCopyable ps = true ↔ ∀ p ∈ ps, isCopyable p = true := by
  induction ps with
  | nil => simp [allCopyable]
  | cons p ps ih => rw [allCopyable, Bool.and_eq_true, ih, List.forall_mem_cons]

/-- Whether siblings can be copied depends neither on their order nor on their numbers. -/
theorem allCopyable_sortSiblings (defaultSort : Number) (ps : List Parameter) :
    allCopyable (sortSiblings defaultSort ps) = allCopyable ps := by
  have hnumber : ∀ (base : Number) (pair : Parameter × Nat),
      isCopyable { pair.1 with info := { pair.1.info with sort := base.plus pair.2 } }
        = isCopyable pair.1 := by
    intro base pair
    rw [isCopyable_eq, isCopyable_eq]
  rw [Bool.eq_iff_iff, allCopyable_iff, allCopyable_iff, sortSiblings, numbered,
    List.forall_mem_map]
  simp only [hnumber]
  rw [← List.forall_mem_map (f := Prod.fst) (P := fun p => isCopyable p = true),
    List.zipIdx_map_fst]
  exact forall_congr' fun p => imp_congr_left (inOrder_perm ps).mem_iff

mutual

theorem isCopyable_arrangeBelow (defaultSort : Number) :
    ∀ p : Parameter, isCopyable (arrangeBelow defaultSort p) = isCopyable p
  | ⟨info, subs, extra⟩ => by
    rw [arrangeBelow, isCopyable, isCopyable, optionsCopyable_arrangeSubs defaultSort subs,
      extraCopyable_arrangeExtra defaultSort extra]

theorem allCopyable_arrangeEach (defaultSort : Number) :
    ∀ ps : List Parameter, allCopyable (arrangeEach defaultSort ps) = allCopyable ps
  | [] => by rw [arrangeEach]
  | p :: ps => by
    rw [arrangeEach, allCopyable, allCopyable, isCopyable_arrangeBelow defaultSort p,
      allCopyable_arrangeEach defaultSort ps]

theorem optionsCopyable_arrangeSubs (defaultSort : Number) :
    ∀ subs : Option (List Parameter),
      optionsCopyable (arrangeSubs defaultSort subs) = optionsCopyable subs
  | none => by rw [arrangeSubs]
  | some ps => by
    rw [arrangeSubs, optionsCopyable, optionsCopyable, allCopyable_sortSiblings,
      allCopyable_arrangeEach defaultSort ps]

theorem extraCopyable_arrangeExtra (defaultSort : Number) :
    ∀ extra : Option Parameter,
      extraCopyable (arrangeExtra defaultSort extra) = extraCopyable extra
  | none => by rw [arrangeExtra]
  | some ⟨info, subs, extra⟩ => by
    rw [arrangeExtra, extraCopyable, extraCopyable, isCopyable, isCopyable,
      optionsCopyable_arrangeSubs defaultSort subs]

end

theorem allCopyable_arrange (defaultSort : Number) (ps : List Parameter) :
    allCopyable (arrange defaultSort ps) = allCopyable ps := by
  rw [arrange, allCopyable_sortSiblings, allCopyable_arrangeEach]

mutual

theorem isCopyable_patchOne :
    ∀ (p : Parameter) (o : Override), isCopyable p = true → isCopyable (patchOne p o).1 = true
  | ⟨info, subs, extra⟩, o, h => by
    simp only [isCopyable, Bool.and_eq_true] at h
    obtain ⟨⟨hinfo, hsubs⟩, hextra⟩ := h
    have hpatched := optionsCopyable_patchSubs info.jsonKey subs o.subParameters hsubs
    rw [patchOne]
    simp only [isCopyable, Bool.and_eq_true]
    exact ⟨⟨info.isCopyable_patched hinfo o, hpatched⟩, hextra⟩

theorem optionsCopyable_patchSubs :
    ∀ (key : String) (subs : Option (List Parameter)) (os : Option (List Override)),
      optionsCopyable subs = true → optionsCopyable (patchSubs key subs os).1 = true
  | _, subs, none, h => by
    rw [patchSubs]
    exact h
  | _, none, some os, h => by
    rw [patchSubs]
    · exact h
    · simp
  | _, some [], some os, h => by
    rw [patchSubs]
    · exact h
    · simp
  | _, some (p :: ps), some os, h => by
    rw [patchSubs]
    exact allCopyable_patchEach (p :: ps) (winners os) h

theorem allCopyable_patchEach :
    ∀ (ps : List Parameter) (os : List Override), allCopyable ps = true →
      allCopyable (patchEach ps os).1 = true
  | [], _, _ => by
    rw [patchEach]
    rfl
  | p :: ps, os, h => by
    simp only [allCopyable, Bool.and_eq_true] at h
    rw [patchEach]
    simp only [allCopyable, Bool.and_eq_true]
    refine ⟨?_, allCopyable_patchEach ps _ h.2⟩
    split
    · rename_i o _
      exact isCopyable_patchOne p o h.1
    · exact h.1

end

theorem allCopyable_patchList {ps : List Parameter} (h : allCopyable ps = true)
    (os : List Override) : allCopyable (patchList ps os).1 = true :=
  allCopyable_patchEach ps (winners os) h

end Parameter

end ParamForm
