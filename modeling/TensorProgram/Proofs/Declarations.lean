import TensorProgram.Proofs.ElementTexts
import TensorProgram.Proofs.FunctionNames
import TensorProgram.Proofs.Meshes

/-!
# Declarations of meshes

A mesh is declared with its name, its axes and the ids of its devices, which are left out when they
are the logical indices.  Meshes that have all three in common are `Mesh.Alike`, though one of them
may have been given ids that the other one has by default.

The names are identifiers, so that it can be seen where the name of the mesh and the list of axes
end.  Which ids are left out follows from the axes.  So meshes that are accepted have one
declaration exactly when they are alike: `Mesh.declaration_eq_iff`.
-/

namespace TensorProgram

/-! ## Quoted identifiers -/

theorem isPlain_of_isWordChar {c : Char} (h : Identifier.isWordChar c = true) :
    isPlain c = true := by
  simp only [isPlain, isOpening, isClosing, Bool.and_eq_true, Bool.not_eq_true', bne_iff_ne,
    Bool.or_eq_false_iff, beq_eq_false_iff_ne]
  refine ⟨⟨⟨?_, ?_⟩, ?_, ?_⟩, ?_⟩ <;> rintro rfl <;> revert h <;> decide

namespace Quoted

theorem escapeChars_of_isWordChar {cs : List Char}
    (h : ∀ c ∈ cs, Identifier.isWordChar c = true) : escapeChars cs = cs := by
  induction cs with
  | nil => rfl
  | cons c cs ih =>
    obtain ⟨hc, hcs⟩ := List.forall_mem_cons.mp h
    have hplain : ¬(c = '\\' ∨ c = '"') := by
      rintro (rfl | rfl) <;> revert hc <;> decide
    rw [escapeChars, if_neg hplain, ih hcs]

/-- Nothing in an identifier has to be escaped. -/
theorem quote_of_isIdentifier {name : String} (h : Identifier.isIdentifier name = true) :
    (quote name).toList = '"' :: (name.toList ++ ['"']) := by
  have hescape : escape name = name := by
    rw [escape, escapeChars_of_isWordChar fun c hc => Identifier.isWordChar_of_mem h hc,
      String.ofList_toList]
  simp [quote, hescape]

end Quoted

namespace Mesh

/-- The meshes have the same name, the same axes and the same devices in the same places. -/
structure Alike (m n : Mesh) : Prop where
  name : m.name = n.name
  axes : m.axes = n.axes
  deviceIds : m.deviceIds = n.deviceIds

variable {m n : Mesh}

/-! ## Names -/

/-- The name of the mesh and the names of its axes are identifiers. -/
structure NamedByIdentifiers (m : Mesh) : Prop where
  name : Identifier.isIdentifier m.name = true
  axes : ∀ axis ∈ m.axes, Identifier.isIdentifier axis.name = true

theorem Built.namedByIdentifiers (h : m.Built) : m.NamedByIdentifiers := by
  induction h with
  | ofAxes h =>
    obtain ⟨haxes, rfl⟩ := ofAxes_eq_ok_iff_acceptable.mp h
    refine ⟨haxes.name, fun axis haxis => haxes.names axis.name ?_⟩
    rw [← map_name_namedAxes_zip haxes.lengths]
    exact List.mem_map_of_mem haxis
  | withDeviceIds _ h ih =>
    obtain ⟨_, rfl⟩ := withDeviceIds_eq_ok.mp h
    exact ⟨ih.name, ih.axes⟩

/-! ## Axes -/

section Axes

variable {a b : MeshAxis}

theorem toList_axisText (ha : Identifier.isIdentifier a.name = true) :
    (axisText a).toList =
      '"' :: (a.name.toList ++ '"' :: '=' :: (toString a.size).toList) := by
  rw [axisText, String.toList_append, String.toList_append, Quoted.quote_of_isIdentifier ha]
  simp

theorem isPlain_of_mem_axisText (ha : Identifier.isIdentifier a.name = true) {c : Char}
    (hc : c ∈ (axisText a).toList) : isPlain c = true := by
  rw [toList_axisText ha, List.mem_cons, List.mem_append, List.mem_cons, List.mem_cons] at hc
  rcases hc with rfl | hc | rfl | rfl | hc
  · decide
  · exact isPlain_of_isWordChar (Identifier.isWordChar_of_mem ha hc)
  · decide
  · decide
  · exact isPlain_of_isDigit (isDigit_of_mem_toString hc)

/-- An axis can be read off its text. -/
theorem axisText_injective (ha : Identifier.isIdentifier a.name = true)
    (hb : Identifier.isIdentifier b.name = true) (h : axisText a = axisText b) : a = b := by
  have hquote {name : String} (hname : Identifier.isIdentifier name = true) :
      '"' ∉ name.toList := fun hmem =>
    absurd (Identifier.isWordChar_of_mem hname hmem) (by decide)
  have hlist := congrArg String.toList h
  rw [toList_axisText ha, toList_axisText hb, List.cons.injEq] at hlist
  obtain ⟨hname, hsize⟩ := append_inj_of_notMem (hquote ha) (hquote hb) hlist.2
  rw [List.cons.injEq] at hsize
  cases a
  cases b
  simp only [MeshAxis.mk.injEq]
  exact ⟨String.toList_inj.mp hname, toString_injective (String.toList_inj.mp hsize.2)⟩

end Axes

/-- The axes in a declaration. -/
def axesText (m : Mesh) : String :=
  ", ".intercalate (m.axes.map axisText)

/-- The list of axes ends at the first closing bracket. -/
theorem notMem_axesText (hm : m.NamedByIdentifiers) : ']' ∉ m.axesText.toList := by
  refine notMem_intercalate (by decide) (by decide) fun text htext hmem => ?_
  obtain ⟨axis, haxis, rfl⟩ := List.mem_map.mp htext
  exact absurd (isPlain_of_mem_axisText (hm.axes axis haxis) hmem) (by decide)

theorem axesText_injective (hm : m.NamedByIdentifiers) (hn : n.NamedByIdentifiers)
    (h : m.axesText = n.axesText) : m.axes = n.axes := by
  have htexts {m : Mesh} (hm : m.NamedByIdentifiers) :
      ∀ text ∈ m.axes.map axisText, Enclosed text ∧ text ≠ "" := by
    intro text htext
    obtain ⟨axis, haxis, rfl⟩ := List.mem_map.mp htext
    constructor
    · exact .of_plain (List.all_eq_true.mpr fun c hc =>
        isPlain_of_mem_axisText (hm.axes axis haxis) hc)
    · intro hempty
      have hlist := toList_axisText (hm.axes axis haxis)
      rw [hempty] at hlist
      cases hlist
  refine eq_of_map_eq (fun a ha b hb => axisText_injective (hm.axes a ha) (hn.axes b hb)) ?_
  exact intercalate_injective (htexts hm) (htexts hn) h

/-! ## Device ids -/

theorem hasIdentityAssignment_iff (hm : m.WellFormed) :
    m.hasIdentityAssignment = true ↔ m.deviceIds = List.range m.deviceCount := by
  unfold hasIdentityAssignment deviceIds
  cases hids : m.assignment? with
  | none => simp
  | some ids =>
    have hlength : ids.length = m.deviceCount := by
      rw [(hm.assignment ids hids).length_eq, List.length_range]
    simp [hlength]

/-- What stands after the axes in a declaration. -/
def idsText (m : Mesh) : String :=
  if m.hasIdentityAssignment then ""
  else ", device_ids=[" ++ ", ".intercalate (m.deviceIds.map toString) ++ "]"

theorem idsText_injective (hm : m.WellFormed) (hn : n.WellFormed)
    (hcount : m.deviceCount = n.deviceCount) (h : m.idsText = n.idsText) :
    m.deviceIds = n.deviceIds := by
  have hshown (ids : List Nat) :
      ", device_ids=[" ++ ", ".intercalate (ids.map toString) ++ "]" ≠ "" := by
    intro hempty
    simpa using congrArg String.toList hempty
  unfold idsText at h
  split_ifs at h with hmi hni hni
  · rw [(hasIdentityAssignment_iff hm).mp hmi, (hasIdentityAssignment_iff hn).mp hni, hcount]
  · exact absurd h.symm (hshown _)
  · exact absurd h (hshown _)
  · have htexts (ids : List Nat) : ∀ text ∈ ids.map toString, Enclosed text ∧ text ≠ "" := by
      intro text htext
      obtain ⟨id, _, rfl⟩ := List.mem_map.mp htext
      exact ⟨.toString_nat id, toString_ne_empty id⟩
    rw [String.append_left_inj, String.append_right_inj] at h
    exact eq_of_map_eq (fun _ _ _ _ => toString_injective)
      (intercalate_injective (htexts _) (htexts _) h)

/-! ## Alike meshes -/

theorem Alike.deviceCount_eq (h : m.Alike n) : m.deviceCount = n.deviceCount := by
  rw [deviceCount, deviceCount, h.axes]

theorem Alike.hasIdentityAssignment_eq (h : m.Alike n) (hm : m.WellFormed) (hn : n.WellFormed) :
    m.hasIdentityAssignment = n.hasIdentityAssignment := by
  rw [Bool.eq_iff_iff, hasIdentityAssignment_iff hm, hasIdentityAssignment_iff hn, h.deviceIds,
    h.deviceCount_eq]

theorem toList_declaration (m : Mesh) : m.declaration.toList =
    "sdy.mesh @".toList ++ (m.name.toList ++ ' ' :: ("= <[".toList ++
      (m.axesText.toList ++ ']' :: (m.idsText.toList ++ ['>'])))) := by
  simp [declaration, literal, axesText, idsText]

theorem alike_of_declaration_eq (hm : m.Built) (hn : n.Built)
    (h : m.declaration = n.declaration) : m.Alike n := by
  have hblank {m : Mesh} (hm : m.Built) : ' ' ∉ m.name.toList := fun hmem =>
    absurd (Identifier.isWordChar_of_mem hm.namedByIdentifiers.name hmem) (by decide)
  have hlist := congrArg String.toList h
  rw [toList_declaration, toList_declaration, List.append_cancel_left_eq] at hlist
  obtain ⟨hname, hrest⟩ := append_inj_of_notMem (hblank hm) (hblank hn) hlist
  rw [List.append_cancel_left_eq] at hrest
  obtain ⟨haxes, hids⟩ := append_inj_of_notMem (notMem_axesText hm.namedByIdentifiers)
    (notMem_axesText hn.namedByIdentifiers) hrest
  rw [List.append_cancel_right_eq, String.toList_inj] at hids
  have haxes : m.axes = n.axes :=
    axesText_injective hm.namedByIdentifiers hn.namedByIdentifiers (String.toList_inj.mp haxes)
  have hcount : m.deviceCount = n.deviceCount := by rw [deviceCount, deviceCount, haxes]
  exact ⟨String.toList_inj.mp hname, haxes,
    idsText_injective hm.wellFormed hn.wellFormed hcount hids⟩

theorem Alike.declaration_eq (h : m.Alike n) (hm : m.WellFormed) (hn : n.WellFormed) :
    m.declaration = n.declaration := by
  rw [declaration, declaration, literal, literal, h.name, h.axes,
    h.hasIdentityAssignment_eq hm hn, h.deviceIds]

/-- Meshes that are accepted have one declaration exactly when their names, their axes and the ids
of their devices agree. -/
theorem declaration_eq_iff (hm : m.Built) (hn : n.Built) :
    m.declaration = n.declaration ↔
      m.name = n.name ∧ m.axes = n.axes ∧ m.deviceIds = n.deviceIds := by
  constructor
  · intro h
    obtain ⟨hname, haxes, hids⟩ := alike_of_declaration_eq hm hn h
    exact ⟨hname, haxes, hids⟩
  · rintro ⟨hname, haxes, hids⟩
    exact Alike.declaration_eq ⟨hname, haxes, hids⟩ hm.wellFormed hn.wellFormed

/-- Four devices in a square.  Ids that are the logical indices make another mesh of it but are not
declared, and ids in another order are. -/
theorem declaration_eq_iff_square :
    let m : Mesh := ⟨"mesh", [⟨"x", 2⟩, ⟨"y", 2⟩], none⟩
    let same : Mesh := ⟨"mesh", [⟨"x", 2⟩, ⟨"y", 2⟩], some [0, 1, 2, 3]⟩
    let other : Mesh := ⟨"mesh", [⟨"x", 2⟩, ⟨"y", 2⟩], some [0, 2, 1, 3]⟩
    m.Built ∧ same.Built ∧ other.Built ∧ m ≠ same ∧ m.declaration = same.declaration ∧
      m.declaration ≠ other.declaration := by
  intro m same other
  have hofAxes : Mesh.ofAxes "mesh" ["x", "y"] [2, 2] = .ok m := by decide
  have hsameIds : m.withDeviceIds [0, 1, 2, 3] = .ok same := by decide
  have hotherIds : m.withDeviceIds [0, 2, 1, 3] = .ok other := by decide
  have hm : m.Built := .ofAxes hofAxes
  have hsame : same.Built := hm.withDeviceIds hsameIds
  have hother : other.Built := hm.withDeviceIds hotherIds
  refine ⟨hm, hsame, hother, by decide, (declaration_eq_iff hm hsame).mpr (by decide), ?_⟩
  rw [Ne, declaration_eq_iff hm hother]
  decide

end Mesh

end TensorProgram
