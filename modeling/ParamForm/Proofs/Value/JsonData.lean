import Mathlib.Data.List.Nodup
import ParamForm.Override.Checked
import ParamForm.Proofs.Number.Digits
import ParamForm.Proofs.Value.WellFormed

/-!
# JSON data of well-formed values

Parts of a well-formed value are well-formed (`Value.WellFormed.member`), and so is the JSON data of
one, which has itself as its JSON data (`Value.jsonData?_spec`).
-/

namespace ParamForm

theorem digitValue?_of_isDigit {c : Char} (h : c.isDigit = true) :
    digitValue? c = some (c.toNat - '0'.toNat) := by
  have := of_isDigit (p := fun c => digitValue? c = some (c.toNat - '0'.toNat)) (by decide) h
  simpa using this

theorem foldl_digits {cs : List Char} (h : cs.all Char.isDigit = true) (acc : Nat) :
    cs.foldl (fun n d => n * 10 + (d.toNat - '0'.toNat)) acc = digitsValue 10 acc cs := by
  induction cs generalizing acc with
  | nil => rfl
  | cons c cs ih =>
    rw [List.all_cons, Bool.and_eq_true] at h
    rw [List.foldl_cons, digitsValue_cons, digitValue?_of_isDigit h.1, ih h.2]
    rfl

/-- The digits of a number have no zero before them. -/
theorem leading_toDigits {n : Nat} {c : Char} {cs : List Char} (h : Nat.toDigits 10 n = c :: cs) :
    c ≠ '0' ∨ cs = [] := by
  rcases Nat.eq_zero_or_pos n with rfl | hpos
  · rw [Nat.toDigits_zero] at h
    exact .inr (List.cons.inj h).2.symm
  · obtain ⟨d, ds, hds, hne, -⟩ := head_toDigits_ne_zero hpos
    rw [hds] at h
    exact .inl ((List.cons.inj h).1 ▸ hne)

theorem arrayIndex?_toString (n : Nat) :
    arrayIndex? (toString n) = if n < 4294967295 then some n else none := by
  have hdigits := all_isDigit_toDigits n
  have hvalue : digitsValue 10 0 (Nat.toDigits 10 n) = n :=
    digitsValue_toDigits (by decide) (by decide) n
  rw [← foldl_digits hdigits] at hvalue
  have hlength : n < 4294967295 → (Nat.toDigits 10 n).length ≤ 10 := fun h =>
    (Nat.length_toDigits_le_iff (by decide) (by decide)).mpr (by omega)
  unfold arrayIndex?
  rw [Nat.toString_eq_ofList_toDigits, String.toList_ofList]
  cases hcs : Nat.toDigits 10 n with
  | nil => exact absurd hcs Nat.toDigits_ne_nil
  | cons c cs =>
    rw [hcs] at hdigits hvalue hlength
    have hlead : (c ≠ '0' || cs.isEmpty) = true := by
      simpa using leading_toDigits hcs
    simp only [hdigits, hlead, hvalue, Bool.true_and, decide_eq_true_eq]
    split_ifs with hshort hlow hlow
    · rfl
    · rfl
    · exact absurd (hlength hlow) (by simp only [List.length_cons]; omega)
    · rfl

theorem Fields.before_toString {n m : Nat} (h : n < m) : Before (toString n) (toString m) := by
  unfold Before
  rw [arrayIndex?_toString, arrayIndex?_toString]
  split_ifs with hn hm
  · exact h
  · trivial
  · omega
  · intro heq
    have := congrArg (fun s : String => digitsValue 10 0 s.toList) heq
    simp only [Nat.toString_eq_ofList_toDigits, String.toList_ofList] at this
    rw [digitsValue_toDigits (by decide) (by decide), digitsValue_toDigits (by decide) (by decide)]
      at this
    omega

namespace Value

theorem wellFormedFields_iff {fields : Fields} :
    WellFormedFields fields ↔ ∀ f ∈ fields, f.2.WellFormed := by
  induction fields with
  | nil => simp [WellFormedFields]
  | cons f fields ih => simp [WellFormedFields, ih]

theorem wellFormedItems_iff {vs : List Value} : WellFormedItems vs ↔ ∀ v ∈ vs, v.WellFormed := by
  induction vs with
  | nil => simp [WellFormedItems]
  | cons v vs ih => simp [WellFormedItems, ih]

theorem fieldsAreData_iff {fields : Fields} : FieldsAreData fields ↔ ∀ f ∈ fields, f.2.IsData := by
  induction fields with
  | nil => simp [FieldsAreData]
  | cons f fields ih => simp [FieldsAreData, ih]

theorem areData_iff {vs : List Value} : AreData vs ↔ ∀ v ∈ vs, v.IsData := by
  induction vs with
  | nil => simp [AreData]
  | cons v vs ih => simp [AreData, ih]

theorem ordered_indexed (vs : List Value) : Fields.Ordered (indexed vs) := by
  have hrange : (vs.zipIdx.map Prod.snd).Pairwise (· < ·) := by
    rw [List.zipIdx_map_snd]
    exact List.pairwise_lt_range'
  unfold Fields.Ordered indexed
  rw [List.pairwise_map] at hrange ⊢
  exact hrange.imp Fields.before_toString

theorem mem_indexed {vs : List Value} {f : String × Value} (h : f ∈ indexed vs) :
    f.2 ∈ vs ∧ ∃ i : Nat, f.1 = toString i := by
  unfold indexed at h
  rw [List.mem_map] at h
  obtain ⟨⟨v, i⟩, hmem, rfl⟩ := h
  exact ⟨List.fst_mem_of_mem_zipIdx hmem, i, rfl⟩

theorem representable_byte (b : UInt8) : (Number.whole b.toNat).Representable := by
  have h : b.toNat < 256 := b.toNat_lt
  refine Number.representable_whole ?_
  rw [Int.natAbs_natCast]
  exact h.trans (by decide +kernel)

theorem mem_byteNumbers {bs : List UInt8} {v : Value} (h : v ∈ byteNumbers bs) :
    ∃ b : UInt8, v = .number (.whole b.toNat) := by
  unfold byteNumbers at h
  rw [List.mem_map] at h
  obtain ⟨b, -, rfl⟩ := h
  exact ⟨b, rfl⟩

theorem wellFormedFields_entries {v : Value} (h : v.WellFormed) : WellFormedFields v.entries := by
  cases v with
  | record fields => exact h.2
  | bytes bs =>
    rw [entries, wellFormedFields_iff]
    intro f hf
    obtain ⟨b, hb⟩ := mem_byteNumbers (mem_indexed hf).1
    rw [hb]
    exact representable_byte b
  | _ => trivial

theorem WellFormed.member {v : Value} (h : v.WellFormed) (name : String) :
    (v.member name).WellFormed := by
  rw [Value.member, Fields.get]
  cases hget : v.entries.get? name with
  | none => trivial
  | some w =>
    exact wellFormedFields_iff.mp (wellFormedFields_entries h) _ (Fields.mem_of_get? hget)

theorem toString_ne_proto (n : Nat) : toString n ≠ "__proto__" := by
  intro h
  have := all_isDigit_toDigits n
  rw [Nat.toString_eq_ofList_toDigits] at h
  rw [← String.toList_ofList (l := Nat.toDigits 10 n), h] at this
  exact absurd this (by decide)

theorem jsonFields?_self {fields : Fields}
    (h : ∀ f ∈ fields, jsonData? f.2 = some f.2 ∧ f.1 ≠ "__proto__") :
    jsonFields? fields = some fields := by
  induction fields with
  | nil => rfl
  | cons f fields ih =>
    obtain ⟨hvalue, hname⟩ := h f List.mem_cons_self
    rw [jsonFields?, hvalue, ih fun g hg => h g (List.mem_cons_of_mem _ hg)]
    simp [hname]

/-- Well-formed data that is its own JSON data. -/
structure IsJson (v : Value) : Prop where
  wellFormed : v.WellFormed
  isData : v.IsData
  again : jsonData? v = some v

theorem isJson_bytes (bs : List UInt8) : IsJson (.record (indexed (byteNumbers bs))) := by
  have hfields : ∀ f ∈ indexed (byteNumbers bs), ∃ b : UInt8, f.2 = .number (.whole b.toNat) :=
    fun f hf => mem_byteNumbers (mem_indexed hf).1
  refine ⟨⟨ordered_indexed _, wellFormedFields_entries (v := .bytes bs) trivial⟩,
    fieldsAreData_iff.mpr fun f hf => ?_, ?_⟩
  · obtain ⟨b, hb⟩ := hfields f hf
    rw [hb]
    trivial
  · have hself : ∀ f ∈ indexed (byteNumbers bs),
        jsonData? f.2 = some f.2 ∧ f.1 ≠ "__proto__" := by
      intro f hf
      obtain ⟨b, hb⟩ := hfields f hf
      obtain ⟨-, i, hi⟩ := mem_indexed hf
      refine ⟨?_, hi ▸ toString_ne_proto i⟩
      rw [hb]
      rfl
    rw [jsonData?, jsonFields?_self hself]
    rfl

mutual

theorem isJson_of_jsonData? :
    ∀ {v w : Value}, v.WellFormed → jsonData? v = some w → IsJson w
  | .absent, _, _, h => by simp [jsonData?] at h
  | .date _, _, _, h => by simp [jsonData?] at h
  | .null, _, _, h => by
    obtain rfl : Value.null = _ := by simpa [jsonData?] using h
    exact ⟨trivial, trivial, rfl⟩
  | .bool b, _, _, h => by
    obtain rfl : Value.bool b = _ := by simpa [jsonData?] using h
    exact ⟨trivial, trivial, rfl⟩
  | .text s, _, _, h => by
    obtain rfl : Value.text s = _ := by simpa [jsonData?] using h
    exact ⟨trivial, trivial, rfl⟩
  | .number x, _, hwf, h => by
    have hx := h
    rw [jsonData?] at h
    split_ifs at h with hnan
    obtain rfl : Value.number x = _ := by simpa using h
    exact ⟨hwf, trivial, hx⟩
  | .bytes bs, _, _, h => by
    obtain rfl : Value.record (indexed (byteNumbers bs)) = _ := by simpa [jsonData?] using h
    exact isJson_bytes bs
  | .list vs, _, hwf, h => by
    rw [jsonData?, Option.map_eq_some_iff] at h
    obtain ⟨ws, hws, rfl⟩ := h
    obtain ⟨hwell, hdata, hagain⟩ := items_of_jsonItems? hwf hws
    exact ⟨hwell, hdata, by rw [jsonData?, hagain]; rfl⟩
  | .record fields, _, hwf, h => by
    rw [jsonData?, Option.map_eq_some_iff] at h
    obtain ⟨gs, hgs, rfl⟩ := h
    obtain ⟨hwell, hdata, hagain, hnames⟩ := fields_of_jsonFields? hwf.2 hgs
    have hordered : Fields.Ordered gs := by
      have hordered := hwf.1
      unfold Fields.Ordered at hordered ⊢
      rw [← List.pairwise_map] at hordered ⊢
      exact hordered.sublist hnames
    exact ⟨⟨hordered, hwell⟩, hdata, by rw [jsonData?, hagain]; rfl⟩

theorem items_of_jsonItems? :
    ∀ {vs ws : List Value}, WellFormedItems vs → jsonItems? vs = some ws →
      WellFormedItems ws ∧ AreData ws ∧ jsonItems? ws = some ws
  | [], _, _, h => by
    obtain rfl : [] = _ := by simpa [jsonItems?] using h
    exact ⟨trivial, trivial, rfl⟩
  | v :: vs, _, hwf, h => by
    rw [jsonItems?, Option.bind_eq_some_iff] at h
    obtain ⟨w, hw, h⟩ := h
    rw [Option.map_eq_some_iff] at h
    obtain ⟨ws, hws, rfl⟩ := h
    obtain ⟨hwell, hdata, hagain⟩ := isJson_of_jsonData? hwf.1 hw
    obtain ⟨hwells, hdatas, hagains⟩ := items_of_jsonItems? hwf.2 hws
    exact ⟨⟨hwell, hwells⟩, ⟨hdata, hdatas⟩, by rw [jsonItems?, hagain, hagains]; rfl⟩

theorem fields_of_jsonFields? :
    ∀ {fields gs : List (String × Value)}, WellFormedFields fields → jsonFields? fields = some gs →
      WellFormedFields gs ∧ FieldsAreData gs ∧ jsonFields? gs = some gs
        ∧ (gs.map Prod.fst).Sublist (fields.map Prod.fst)
  | [], _, _, h => by
    obtain rfl : [] = _ := by simpa [jsonFields?] using h
    exact ⟨trivial, trivial, rfl, List.Sublist.refl _⟩
  | (name, v) :: fields, _, hwf, h => by
    rw [jsonFields?, Option.bind_eq_some_iff] at h
    obtain ⟨w, hw, h⟩ := h
    rw [Option.map_eq_some_iff] at h
    obtain ⟨gs, hgs, rfl⟩ := h
    obtain ⟨hwell, hdata, hagain⟩ := isJson_of_jsonData? hwf.1 hw
    obtain ⟨hwells, hdatas, hagains, hnames⟩ := fields_of_jsonFields? hwf.2 hgs
    split_ifs with hproto
    · exact ⟨hwells, hdatas, hagains, hnames.cons _⟩
    · refine ⟨⟨hwell, hwells⟩, ⟨hdata, hdatas⟩, ?_, hnames.cons_cons _⟩
      rw [jsonFields?, hagain, hagains]
      simp [hproto]

end

end Value

end ParamForm
