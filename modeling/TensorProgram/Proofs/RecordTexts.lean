import Mathlib.Data.List.Forall2
import TensorProgram.DimensionNumbers
import TensorProgram.Proofs.Enclosed

/-!
# Reading records

A record writes its fields one after the other with their names in front, and leaves out the
empty ones.  Since no two fields have one name, which fields were left out can be seen from those
that are there: `record_injective`.  So dimension numbers can be read off their texts:
`DotDimensions.render_injective`, `GatherDimensions.render_injective`,
`ScatterDimensions.render_injective`.
-/

namespace TensorProgram

/-! ## Numbers -/

theorem isPlain_of_isDigit {c : Char} (h : c.isDigit = true) : isPlain c = true := by
  simp only [Char.isDigit, Bool.and_eq_true, decide_eq_true_eq] at h
  simp only [isPlain, isOpening, isClosing, Bool.and_eq_true, Bool.not_eq_true', bne_iff_ne,
    Bool.or_eq_false_iff, beq_eq_false_iff_ne]
  refine ⟨⟨⟨?_, ?_⟩, ?_, ?_⟩, ?_⟩ <;> rintro rfl <;> revert h <;> decide

theorem isDigit_of_mem_toString {n : Nat} {c : Char} (h : c ∈ (toString n).toList) :
    c.isDigit = true := by
  refine Nat.isDigit_of_mem_toDigits (b := 10) (n := n) (by decide) (by decide) ?_
  simpa [Nat.toList_repr] using h

theorem toString_ne_empty (n : Nat) : toString n ≠ "" := by
  intro h
  have := startsWithDigit_toString n
  rw [h] at this
  exact absurd this (by decide)

theorem Enclosed.toString_nat (n : Nat) : Enclosed (toString n) :=
  .of_plain (List.all_eq_true.mpr fun _ hc => isPlain_of_isDigit (isDigit_of_mem_toString hc))

namespace IntText

/-- A number is negative if its text starts with a sign. -/
theorem toString_eq (x : Int) :
    toString x = if x < 0 then "-" ++ toString x.natAbs else toString x.natAbs := by
  cases x with
  | ofNat n => rfl
  | negSucc n =>
    rw [if_pos (Int.negSucc_lt_zero n)]
    rfl

theorem injective {x y : Int} (h : toString x = toString y) : x = y := by
  have hsign (m n : Nat) : toString m ≠ "-" ++ toString n := by
    intro h
    have := startsWithDigit_toString m
    simp [h, startsWithDigit] at this
  rw [toString_eq, toString_eq] at h
  split_ifs at h with hx hy hy
  · have := toString_injective ((String.append_right_inj "-").mp h)
    omega
  · exact absurd h.symm (hsign _ _)
  · exact absurd h (hsign _ _)
  · have := toString_injective h
    omega

theorem enclosed (x : Int) : Enclosed (toString x) := by
  rw [toString_eq]
  split_ifs
  · exact Enclosed.append (.of_plain (by decide)) (.toString_nat _)
  · exact .toString_nat _

theorem ne_empty (x : Int) : toString x ≠ "" := by
  rw [toString_eq]
  split_ifs
  · simp
  · exact toString_ne_empty _

end IntText

/-! ## Fields -/

namespace FieldText

theorem joined_injective {xs ys : List Int} (h : joined xs = joined ys) : xs = ys := by
  have htexts (zs : List Int) : ∀ text ∈ zs.map toString, Enclosed text ∧ text ≠ "" := by
    intro text htext
    obtain ⟨z, _, rfl⟩ := List.mem_map.mp htext
    exact ⟨IntText.enclosed z, IntText.ne_empty z⟩
  exact List.map_injective_iff.mpr (fun _ _ => IntText.injective)
    (intercalate_injective (htexts xs) (htexts ys) h)

/-- The texts are the field with its name in front, or nothing. -/
def IsField (field : String) (texts : List String) : Prop :=
  ∀ text ∈ texts, ∃ value, text = field ++ " = " ++ value ∧ Enclosed value

theorem isField_list (field : String) (xs : List Int) : IsField field (list field xs) := by
  intro text htext
  unfold list at htext
  split_ifs at htext with hxs
  · cases htext
  · refine ⟨"[" ++ joined xs ++ "]", ?_, Enclosed.bracketed ?_⟩
    · rw [List.mem_singleton.mp htext]
      apply String.toList_inj.mp
      simp
    · intro text htext
      obtain ⟨x, _, rfl⟩ := List.mem_map.mp htext
      exact IntText.enclosed x

theorem isField_int (field : String) (x : Int) : IsField field (int field x) := by
  intro text htext
  exact ⟨toString x, List.mem_singleton.mp htext, IntText.enclosed x⟩

theorem list_injective {field : String} {xs ys : List Int} (h : list field xs = list field ys) :
    xs = ys := by
  unfold list at h
  split_ifs at h with hxs hys
  · rw [List.isEmpty_iff.mp hxs, List.isEmpty_iff.mp hys]
  · simp only [List.cons.injEq, and_true, String.append_left_inj, String.append_right_inj] at h
    exact joined_injective h

theorem int_injective {field : String} {x y : Int} (h : int field x = int field y) : x = y := by
  simp only [int, List.cons.injEq, and_true, String.append_right_inj] at h
  exact IntText.injective h

/-! ## Records -/

/-- The name in front of a field. -/
def nameOf (text : String) : List Char :=
  text.toList.takeWhile (· != ' ')

/-- Names of fields have neither brackets nor blanks in them. -/
def isWord (name : String) : Bool :=
  name.toList.all fun c => isPlain c && c != ' '

/-- The fields are those of the names, in order. -/
def AreFields (names : List String) (fields : List (List String)) : Prop :=
  List.Forall₂ IsField names fields

section Records

variable {name : String} {names : List String} {fields others : List (List String)}

theorem nameOf_field {value : String} (hname : isWord name = true) :
    nameOf (name ++ " = " ++ value) = name.toList := by
  have hword : ∀ c ∈ name.toList, (c != ' ') = true := fun c hc =>
    (Bool.and_eq_true_iff.mp (List.all_eq_true.mp hname c hc)).2
  rw [nameOf, String.toList_append, String.toList_append, List.append_assoc,
    List.takeWhile_append_of_pos hword]
  simp

theorem AreFields.exists_field (h : AreFields names fields) {text : String}
    (htext : text ∈ fields.flatten) :
    ∃ name ∈ names, ∃ value, text = name ++ " = " ++ value ∧ Enclosed value := by
  induction h with
  | nil => simp at htext
  | @cons name field names fields hfield _ ih =>
    rcases List.mem_append.mp htext with htext | htext
    · exact ⟨name, List.mem_cons_self, hfield text htext⟩
    · obtain ⟨other, hother, hvalue⟩ := ih htext
      exact ⟨other, List.mem_cons_of_mem _ hother, hvalue⟩

/-- A field consists of the texts that start with its name. -/
theorem AreFields.map_filter (h : AreFields names fields)
    (hwords : ∀ name ∈ names, isWord name = true) (hnames : names.Nodup) :
    (names.map fun name => fields.flatten.filter fun text => nameOf text == name.toList) =
      fields := by
  induction h with
  | nil => rfl
  | @cons name field names fields hfield hfields ih =>
    obtain ⟨hword, hwords⟩ := List.forall_mem_cons.mp hwords
    obtain ⟨hfresh, hnames⟩ := List.nodup_cons.mp hnames
    have hown : ∀ text ∈ field, nameOf text = name.toList := by
      intro text htext
      obtain ⟨value, rfl, _⟩ := hfield text htext
      exact nameOf_field hword
    have hother : ∀ text ∈ fields.flatten, nameOf text ≠ name.toList := by
      intro text htext hname
      obtain ⟨other, hmem, value, rfl, _⟩ := AreFields.exists_field hfields htext
      rw [nameOf_field (hwords other hmem)] at hname
      exact hfresh (String.toList_inj.mp hname ▸ hmem)
    have hskip : ∀ other ∈ names,
        ((field ++ fields.flatten).filter fun text => nameOf text == other.toList) =
          fields.flatten.filter fun text => nameOf text == other.toList := by
      intro other hmem
      have hnone : (field.filter fun text => nameOf text == other.toList) = [] := by
        refine List.filter_eq_nil_iff.mpr fun text htext => ?_
        rw [hown text htext, beq_iff_eq, String.toList_inj]
        rintro rfl
        exact hfresh hmem
      rw [List.filter_append, hnone, List.nil_append]
    have hfield : (field ++ fields.flatten).filter (fun text => nameOf text == name.toList) =
        field := by
      rw [List.filter_append, List.filter_eq_self.mpr fun text htext => by simp [hown text htext],
        List.filter_eq_nil_iff.mpr fun text htext => by simp [hother text htext], List.append_nil]
    rw [List.map_cons, List.flatten_cons, hfield, List.map_congr_left hskip, ih hwords hnames]

/-- The fields of a record can be read off its text, those that are left out included. -/
theorem record_injective {title : String} (hwords : ∀ name ∈ names, isWord name = true)
    (hnames : names.Nodup) (hfields : AreFields names fields) (hothers : AreFields names others)
    (h : record title fields = record title others) : fields = others := by
  have htexts {fields : List (List String)} (hfields : AreFields names fields) :
      ∀ text ∈ fields.flatten, Enclosed text ∧ text ≠ "" := by
    intro text htext
    obtain ⟨name, hname, value, rfl, hvalue⟩ := hfields.exists_field htext
    have hplain : Enclosed name := .of_plain (List.all_eq_true.mpr fun c hc =>
      (Bool.and_eq_true_iff.mp (List.all_eq_true.mp (hwords name hname) c hc)).1)
    refine ⟨(hplain.append (.of_plain (by decide))).append hvalue, ?_⟩
    intro hempty
    simpa using congrArg String.toList hempty
  simp only [record, String.append_left_inj, String.append_right_inj] at h
  rw [← hfields.map_filter hwords hnames, ← hothers.map_filter hwords hnames,
    intercalate_injective (htexts hfields) (htexts hothers) h]

end Records

end FieldText

/-! ## Dimension numbers -/

open FieldText

theorem DotDimensions.render_injective : Function.Injective DotDimensions.render := by
  intro d e h
  have hfields (d : DotDimensions) : AreFields
      ["lhs_batching_dimensions", "rhs_batching_dimensions", "lhs_contracting_dimensions",
        "rhs_contracting_dimensions"] _ :=
    .cons (isField_list _ d.lhsBatching) (.cons (isField_list _ d.rhsBatching)
      (.cons (isField_list _ d.lhsContracting) (.cons (isField_list _ d.rhsContracting) .nil)))
  have := record_injective (by decide) (by decide) (hfields d) (hfields e) h
  simp only [List.cons.injEq, and_true] at this
  obtain ⟨hlb, hrb, hlc, hrc⟩ := this
  cases d
  cases e
  simp only [DotDimensions.mk.injEq]
  exact ⟨list_injective hlb, list_injective hrb, list_injective hlc, list_injective hrc⟩

theorem GatherDimensions.render_injective : Function.Injective GatherDimensions.render := by
  intro d e h
  have hfields (d : GatherDimensions) : AreFields
      ["offset_dims", "collapsed_slice_dims", "operand_batching_dims",
        "start_indices_batching_dims", "start_index_map", "index_vector_dim"] _ :=
    .cons (isField_list _ d.offset) (.cons (isField_list _ d.collapsed)
      (.cons (isField_list _ d.operandBatching) (.cons (isField_list _ d.indicesBatching)
        (.cons (isField_list _ d.indexMap) (.cons (isField_int _ d.indexVector) .nil)))))
  have := record_injective (by decide) (by decide) (hfields d) (hfields e) h
  simp only [List.cons.injEq, and_true] at this
  obtain ⟨hoffset, hcollapsed, hoperand, hindices, hmap, hvector⟩ := this
  cases d
  cases e
  simp only [GatherDimensions.mk.injEq]
  exact ⟨list_injective hoffset, list_injective hcollapsed, list_injective hoperand,
    list_injective hindices, list_injective hmap, int_injective hvector⟩

theorem ScatterDimensions.render_injective : Function.Injective ScatterDimensions.render := by
  intro d e h
  have hfields (d : ScatterDimensions) : AreFields
      ["update_window_dims", "inserted_window_dims", "input_batching_dims",
        "scatter_indices_batching_dims", "scatter_dims_to_operand_dims", "index_vector_dim"] _ :=
    .cons (isField_list _ d.updateWindow) (.cons (isField_list _ d.inserted)
      (.cons (isField_list _ d.inputBatching) (.cons (isField_list _ d.indicesBatching)
        (.cons (isField_list _ d.operandMap) (.cons (isField_int _ d.indexVector) .nil)))))
  have := record_injective (by decide) (by decide) (hfields d) (hfields e) h
  simp only [List.cons.injEq, and_true] at this
  obtain ⟨hwindow, hinserted, hinput, hindices, hmap, hvector⟩ := this
  cases d
  cases e
  simp only [ScatterDimensions.mk.injEq]
  exact ⟨list_injective hwindow, list_injective hinserted, list_injective hinput,
    list_injective hindices, list_injective hmap, int_injective hvector⟩

end TensorProgram
