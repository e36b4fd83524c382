import Mathlib.Data.List.Perm.Subperm
import TensorProgram.Proofs.Explicit
import TensorProgram.Proofs.Extents
import TensorProgram.Proofs.Faults
import TensorProgram.Proofs.RecordTexts

/-!
# Reading convolutions

The layout of a tensor of a convolution is written as one row of letters, each at the place of
its axis.  Letters of axes that do not exist are dropped, and of two letters for one axis the
earlier one is lost.  Inference accepts only layouts in which the axes are those of the tensor,
each with one role: `ConvolutionLayout.Complete`.  Their rows are rearrangements of the letters,
`ConvolutionLayout.places_perm`, and the axes can be read off them,
`ConvolutionLayout.axes_of_places`.
-/

namespace TensorProgram

open Inference

namespace ConvolutionLayout

/-! ## Letters -/

/-- The letters of the roles, in the order in which `ConvolutionLayout.axes` lists the axes. -/
def letters (batchLetter featureLetter : String) (spatialRank : Nat) : List String :=
  batchLetter :: featureLetter :: (List.range spatialRank).map toString

section Letters

variable {b f : String} {spatialRank : Nat}

@[simp] theorem length_letters : (letters b f spatialRank).length = spatialRank + 2 := by
  simp [letters]

theorem roles_eq_zip (l : ConvolutionLayout) :
    l.roles b f = l.axes.zip (letters b f l.spatial.length) := by
  rw [roles, axes, letters, List.zip_cons_cons, List.zip_cons_cons, List.zipIdx_eq_zip_range',
    List.range_eq_range', List.zip_map_right]
  rfl

/-- The letters of the batch and the feature axis are two, and no digits. -/
def AreLetters (b f : String) : Prop :=
  b ≠ f ∧ ∀ letter ∈ [b, f], balanced 0 letter.toList = true ∧ startsWithDigit letter = false ∧
    letter ≠ "" ∧ letter.toList.all (fun c => c != '?' && c != ']') = true

instance (b f : String) : Decidable (AreLetters b f) :=
  inferInstanceAs (Decidable (b ≠ f ∧ ∀ letter ∈ [b, f], _ ∧ _ ∧ _ ∧ _))

theorem nodup_letters (h : AreLetters b f) : (letters b f spatialRank).Nodup := by
  obtain ⟨hne, hletters⟩ := h
  have hnumber : ∀ letter ∈ [b, f], letter ∉ (List.range spatialRank).map toString := by
    intro letter hletter hmem
    obtain ⟨n, _, rfl⟩ := List.mem_map.mp hmem
    have hdigit := (hletters _ hletter).2.1
    rw [startsWithDigit_toString] at hdigit
    cases hdigit
  refine List.nodup_cons.mpr ⟨?_, List.nodup_cons.mpr ⟨hnumber f (by simp), ?_⟩⟩
  · rw [List.mem_cons, not_or]
    exact ⟨hne, hnumber b (by simp)⟩
  · exact List.nodup_range.map fun _ _ => toString_injective

theorem mem_letters (h : AreLetters b f) {letter : String}
    (hmem : letter ∈ letters b f spatialRank) :
    (Enclosed letter ∧ letter ≠ "") ∧ ∀ c ∈ ['?', ']'], c ∉ letter.toList := by
  have hmem : letter ∈ [b, f] ++ (List.range spatialRank).map toString := hmem
  rcases List.mem_append.mp hmem with hmem | hmem
  · obtain ⟨henclosed, _, hne, hchars⟩ := h.2 letter hmem
    refine ⟨⟨henclosed, hne⟩, fun c hc hletter => ?_⟩
    have hchar := List.all_eq_true.mp hchars c hletter
    simp only [List.mem_cons, List.not_mem_nil, or_false] at hc
    rcases hc with rfl | rfl <;> exact absurd hchar (by decide)
  · obtain ⟨n, _, rfl⟩ := List.mem_map.mp hmem
    refine ⟨⟨.toString_nat n, toString_ne_empty n⟩, fun c hc hdigit => ?_⟩
    have hdigit := isDigit_of_mem_toString hdigit
    simp only [List.mem_cons, List.not_mem_nil, or_false] at hc
    rcases hc with rfl | rfl <;> exact absurd hdigit (by decide)

end Letters

/-! ## Places -/

/-- Places with one more letter. -/
def put (places : List String) (role : Int × String) : List String :=
  if role.1 < 0 then places else places.set role.1.toNat role.2

theorem places_eq_foldl (roles : List (Int × String)) :
    places roles = roles.foldl put (List.replicate roles.length "?") := rfl

theorem put_natCast (places : List String) (a : Nat) (letter : String) :
    put places ((a : Int), letter) = places.set a letter := by
  rw [put, if_neg (by omega), Int.toNat_natCast]

section Places

variable {as : List Nat} {ls start : List String}

/-- Letters are put at the axes. -/
def putAll (as : List Nat) (ls start : List String) : List String :=
  ((as.map Int.ofNat).zip ls).foldl put start

theorem putAll_eq_writeAll : putAll as ls start = writeAll start (as.zip ls) := by
  rw [putAll, writeAll, List.zip_map_left, List.foldl_map]
  simp only [id_eq, Int.ofNat_eq_natCast, put_natCast, Prod.map]

theorem length_putAll : (putAll as ls start).length = start.length := by
  rw [putAll_eq_writeAll, length_writeAll]

/-- The place of an axis has its letter, since no later letter overwrites it. -/
theorem getElem?_putAll {i a : Nat} {l : String} (hnodup : as.Nodup) (ha : as[i]? = some a)
    (hl : ls[i]? = some l) (hlt : a < start.length) : (putAll as ls start)[a]? = some l := by
  have hpositions : ((as.zip ls).map Prod.fst).Nodup := by
    rw [List.zip_eq_zip_take_min, List.map_fst_zip (by simp)]
    exact hnodup.sublist (List.take_sublist _ _)
  have hmem : (a, l) ∈ as.zip ls :=
    List.mem_of_getElem? (List.getElem?_zip_eq_some.mpr ⟨ha, hl⟩)
  rw [putAll_eq_writeAll]
  exact getElem?_writeAll hpositions hmem hlt

end Places

/-! ## Complete layouts -/

/-- The axes are those of a tensor of the rank, each with one role, and none counts from the
end. -/
def Complete (l : ConvolutionLayout) (rank : Nat) : Prop :=
  ∃ as : List Nat, l.axes = as.map Int.ofNat ∧ as.Perm (List.range rank)

section Complete

variable {b f : String} {as as' : List Nat} {ls : List String} {l m : ConvolutionLayout}
  {rank rank' : Nat}

theorem length_spatial (h : l.Complete rank) : l.spatial.length + 2 = rank := by
  obtain ⟨as, has, hperm⟩ := h
  have := congrArg List.length has
  simpa [axes, hperm.length_eq] using this

theorem places_roles (l : ConvolutionLayout) (h : l.axes = as.map Int.ofNat) :
    places (l.roles b f) =
      putAll as (letters b f l.spatial.length) (List.replicate as.length "?") := by
  have hlength : (l.roles b f).length = as.length := by
    rw [← List.length_map (f := Int.ofNat), ← h, roles_eq_zip, List.length_zip, length_letters]
    simp [axes]
  rw [places_eq_foldl, hlength, roles_eq_zip, h]
  rfl

/-- The place of every axis has its letter. -/
theorem getElem?_places (hperm : as.Perm (List.range rank)) {i a : Nat} {letter : String}
    (ha : as[i]? = some a) (hletter : ls[i]? = some letter) :
    (putAll as ls (List.replicate as.length "?"))[a]? = some letter := by
  refine getElem?_putAll (hperm.nodup_iff.mpr List.nodup_range) ha hletter ?_
  rw [List.length_replicate, hperm.length_eq]
  simpa using hperm.mem_iff.mp (List.mem_of_getElem? ha)

/-- The row of a complete layout has all the letters, each once. -/
theorem putAll_perm (hperm : as.Perm (List.range rank)) (hls : ls.length = rank) :
    (putAll as ls (List.replicate as.length "?")).Perm ls := by
  have hlength : (putAll as ls (List.replicate as.length "?")).length = rank := by
    rw [length_putAll, List.length_replicate, hperm.length_eq, List.length_range]
  have hrow : (List.range rank).map ((putAll as ls (List.replicate as.length "?")).getD · "") =
      putAll as ls (List.replicate as.length "?") := by
    apply List.ext_getElem
    · simp [hlength]
    · intro i hi hi'
      simp [List.getD_eq_getElem?_getD, hi']
  have hletters : as.map ((putAll as ls (List.replicate as.length "?")).getD · "") = ls := by
    have hlen : as.length = ls.length := by rw [hperm.length_eq, List.length_range, hls]
    apply List.ext_getElem
    · simpa using hlen
    · intro i hi hi'
      have hi : i < as.length := by simpa using hi
      rw [List.getElem_map, List.getD_eq_getElem?_getD,
        getElem?_places hperm (List.getElem?_eq_getElem hi) (List.getElem?_eq_getElem hi')]
      rfl
  rw [← hrow]
  conv_rhs => rw [← hletters]
  exact (hperm.map _).symm

theorem places_perm (h : l.Complete rank) :
    (places (l.roles b f)).Perm (letters b f (rank - 2)) := by
  have hlength := length_spatial h
  obtain ⟨as, has, hperm⟩ := h
  rw [places_roles l has, show l.spatial.length = rank - 2 by omega]
  refine putAll_perm hperm ?_
  rw [length_letters]
  omega

/-- The axes can be read off the places of their letters. -/
theorem putAll_injective (hls : ls.Nodup) (hlength : ls.length = rank)
    (hperm : as.Perm (List.range rank)) (hperm' : as'.Perm (List.range rank))
    (h : putAll as ls (List.replicate as.length "?") =
      putAll as' ls (List.replicate as'.length "?")) : as = as' := by
  have hrow : (putAll as ls (List.replicate as.length "?")).Nodup :=
    (putAll_perm hperm hlength).nodup_iff.mpr hls
  have hlen : as.length = rank := by rw [hperm.length_eq, List.length_range]
  have hlen' : as'.length = rank := by rw [hperm'.length_eq, List.length_range]
  apply List.ext_getElem (hlen.trans hlen'.symm)
  intro i hi hi'
  have hletter := List.getElem?_eq_getElem (show i < ls.length by omega)
  have hplace := getElem?_places hperm (List.getElem?_eq_getElem hi) hletter
  have hplace' := getElem?_places hperm' (List.getElem?_eq_getElem hi') hletter
  rw [← h, ← hplace] at hplace'
  exact ((List.getElem?_inj (List.getElem?_eq_some_iff.mp hplace).1 hrow).mp hplace'.symm)

theorem eq_of_axes (h : l.axes = m.axes) : l = m := by
  cases l
  cases m
  simp only [axes, List.cons.injEq] at h
  obtain ⟨rfl, rfl, rfl⟩ := h
  rfl

theorem eq_of_places (hletters : AreLetters b f) (hl : l.Complete rank) (hm : m.Complete rank')
    (h : places (l.roles b f) = places (m.roles b f)) : l = m := by
  have hrank : rank = rank' := by
    have := congrArg List.length h
    rw [(places_perm hl).length_eq, (places_perm hm).length_eq, length_letters,
      length_letters] at this
    have := length_spatial hl
    have := length_spatial hm
    omega
  subst hrank
  have hspatial := length_spatial hl
  have hspatial' := length_spatial hm
  obtain ⟨as, has, hperm⟩ := hl
  obtain ⟨as', has', hperm'⟩ := hm
  rw [places_roles l has, places_roles m has',
    show m.spatial.length = l.spatial.length by omega] at h
  refine eq_of_axes ?_
  rw [has, has', putAll_injective (nodup_letters hletters) (by rw [length_letters, hspatial]) hperm
    hperm' h]

end Complete

/-! ## Rows of letters -/

/-- A row of letters in brackets, in which every letter occurs once. -/
def LaidOut (b f : String) (spatialRank : Nat) (text : String) : Prop :=
  ∃ row : List String, row.Perm (letters b f spatialRank) ∧
    text = "[" ++ ", ".intercalate row ++ "]"

section Rows

variable {b f : String} {l m : ConvolutionLayout} {rank rank' : Nat}

theorem laidOut_render (h : l.Complete rank) : LaidOut b f (rank - 2) (l.render b f) :=
  ⟨places (l.roles b f), places_perm h, rfl⟩

/-- The row of letters between the brackets. -/
def row (b f : String) (l : ConvolutionLayout) : String :=
  ", ".intercalate (places (l.roles b f))

theorem toList_render_layout (b f : String) (l : ConvolutionLayout) :
    (l.render b f).toList = '[' :: ((l.row b f).toList ++ [']']) := by
  rw [render, String.toList_append, String.toList_append]
  rfl

theorem mem_places (hletters : AreLetters b f) (h : l.Complete rank) {letter : String}
    (hmem : letter ∈ places (l.roles b f)) :
    (Enclosed letter ∧ letter ≠ "") ∧ ∀ c ∈ ['?', ']'], c ∉ letter.toList :=
  mem_letters hletters ((places_perm h).mem_iff.mp hmem)

theorem notMem_row (hletters : AreLetters b f) (h : l.Complete rank) {c : Char}
    (hc : c ∈ ['?', ']']) : c ∉ (l.row b f).toList := by
  refine notMem_intercalate ?_ ?_ fun letter hmem => (mem_places hletters h hmem).2 c hc
  · rintro rfl
    exact absurd hc (by decide)
  · rintro rfl
    exact absurd hc (by decide)

theorem eq_of_row (hletters : AreLetters b f) (hl : l.Complete rank) (hm : m.Complete rank')
    (h : (l.row b f).toList = (m.row b f).toList) : l = m :=
  eq_of_places hletters hl hm (intercalate_injective
    (fun _ hmem => (mem_places hletters hl hmem).1) (fun _ hmem => (mem_places hletters hm hmem).1)
    (String.toList_inj.mp h))

end Rows

end ConvolutionLayout

namespace ConvolutionDimensions

open ConvolutionLayout

/-- All three layouts are complete. -/
structure Complete (d : ConvolutionDimensions) (rank : Nat) : Prop where
  input : d.input.Complete rank
  kernel : d.kernel.Complete rank
  output : d.output.Complete rank

variable {d e : ConvolutionDimensions} {rank rank' : Nat}

-- The texts around the rows are variables here, since `simp` takes long literals apart.
theorem toList_layouts (start between arrow stop b f i o : String)
    (input kernel output : ConvolutionLayout) :
    (start ++ input.render b f ++ between ++ kernel.render i o ++ arrow ++ output.render b f ++
        stop).toList =
      start.toList ++ ('[' :: ((input.row b f).toList ++
        ']' :: (between.toList ++ ('[' :: ((kernel.row i o).toList ++
          ']' :: (arrow.toList ++ ('[' :: ((output.row b f).toList ++
            ']' :: stop.toList)))))))) := by
  simp only [String.toList_append, toList_render_layout, List.append_assoc, List.cons_append,
    List.nil_append]

/-- The layouts as they stand in the text: the letters of input and output are `b` and `f`, those
of the kernel `i` and `o`. -/
theorem toList_render (d : ConvolutionDimensions) :
    d.render.toList = "#stablehlo.conv<".toList ++ ('[' :: ((d.input.row "b" "f").toList ++
      ']' :: ("x".toList ++ ('[' :: ((d.kernel.row "i" "o").toList ++
        ']' :: ("->".toList ++ ('[' :: ((d.output.row "b" "f").toList ++
          ']' :: ">".toList)))))))) :=
  toList_layouts _ _ _ _ _ _ _ _ d.input d.kernel d.output

theorem areLetters_image : AreLetters "b" "f" := by decide

theorem areLetters_kernel : AreLetters "i" "o" := by decide

/-- A question mark stands for an axis without a role. -/
theorem question_notMem_render (h : d.Complete rank) : '?' ∉ d.render.toList := by
  have hinput := notMem_row areLetters_image h.input (c := '?') (by decide)
  have hkernel := notMem_row areLetters_kernel h.kernel (c := '?') (by decide)
  have houtput := notMem_row areLetters_image h.output (c := '?') (by decide)
  rw [toList_render]
  simp only [List.mem_append, List.mem_cons, hinput, hkernel, houtput]
  decide

theorem render_injective (hd : d.Complete rank) (he : e.Complete rank')
    (h : d.render = e.render) : d = e := by
  have hclosed {b f : String} {l : ConvolutionLayout} {rank : Nat} (hletters : AreLetters b f)
      (hl : l.Complete rank) : ']' ∉ (l.row b f).toList :=
    notMem_row hletters hl (by decide)
  have hlist := congrArg String.toList h
  rw [toList_render, toList_render, List.append_cancel_left_eq, List.cons.injEq] at hlist
  obtain ⟨hinput, hlist⟩ := append_inj_of_notMem (hclosed areLetters_image hd.input)
    (hclosed areLetters_image he.input) hlist.2
  rw [List.append_cancel_left_eq, List.cons.injEq] at hlist
  obtain ⟨hkernel, hlist⟩ := append_inj_of_notMem (hclosed areLetters_kernel hd.kernel)
    (hclosed areLetters_kernel he.kernel) hlist.2
  rw [List.append_cancel_left_eq, List.cons.injEq] at hlist
  obtain ⟨houtput, _⟩ := append_inj_of_notMem (hclosed areLetters_image hd.output)
    (hclosed areLetters_image he.output) hlist.2
  cases d
  cases e
  simp only [mk.injEq]
  exact ⟨eq_of_row areLetters_image hd.input he.input hinput,
    eq_of_row areLetters_kernel hd.kernel he.kernel hkernel,
    eq_of_row areLetters_image hd.output he.output houtput⟩

end ConvolutionDimensions

/-! ## Accepted convolutions -/

namespace Inference

section Accepted

variable {lhs rhs s : Shape} {c : ConvolutionConfiguration}

/-- The axes in the order of their roles. -/
def AxisRoles.axes (roles : AxisRoles) : List Nat :=
  roles.batch :: roles.feature :: roles.spatial

/-- The roles are those of a layout, with all axes counted from the front, and every axis of a
tensor of the rank has one of them. -/
structure AxisRoles.Of (roles : AxisRoles) (l : ConvolutionLayout) (rank : Nat) : Prop where
  axes : (l.fromFront rank).axes = roles.axes.map Int.ofNat
  perm : roles.axes.Perm (List.range rank)

theorem AxisRoles.Of.complete {roles : AxisRoles} {l : ConvolutionLayout} {rank : Nat}
    (h : roles.Of l rank) : (l.fromFront rank).Complete rank :=
  ⟨roles.axes, h.axes, h.perm⟩

/-- Axes that are as many as those of a tensor and have distinct places in it are all its axes. -/
theorem axisRoles_eq_ok {parameter : String} {rank : Nat} {l : ConvolutionLayout}
    {roles : AxisRoles} : axisRoles parameter rank l = .ok roles ↔ roles.Of l rank := by
  have hnormalize : normalizeAxes parameter (l.batch :: l.feature :: l.spatial) rank =
        .ok roles.axes ↔
      (l.fromFront rank).axes = roles.axes.map Int.ofNat ∧ (∀ a ∈ roles.axes, a < rank) ∧
        roles.axes.Nodup := normalizeAxes_eq_ok_iff
  simp only [axisRoles, bind_eq_ok, Size.sub_eq_ok, requireLength_eq_ok, entry_eq_ok, pure_eq_ok,
    Except.ok.injEq]
  constructor
  · intro h
    obtain ⟨spatialRank, ⟨htwo, rfl⟩, _, hlength, as, has, b, hb, f, hf, rfl⟩ := h
    have hcount : as.length = rank := by
      have := length_of_normalizeAxes has
      simp only [List.length_cons] at this
      omega
    have hroles : as = b :: f :: as.drop 2 := by
      obtain ⟨hzero, rfl⟩ := List.getElem?_eq_some_iff.mp hb
      obtain ⟨hone, rfl⟩ := List.getElem?_eq_some_iff.mp hf
      rw [← List.drop_eq_getElem_cons hone, ← List.drop_eq_getElem_cons hzero, List.drop_zero]
    rw [hroles] at has hcount
    obtain ⟨haxes, hall, hnodup⟩ := hnormalize.mp has
    exact ⟨haxes, perm_range_iff.mpr ⟨hcount, hnodup, hall⟩⟩
  · intro h
    obtain ⟨_, hnodup, hall⟩ := perm_range_iff.mp h.perm
    have hspatial := ConvolutionLayout.length_spatial h.complete
    have hspatial : l.spatial.length + 2 = rank := by
      simpa [ConvolutionLayout.fromFront] using hspatial
    exact ⟨rank - 2, ⟨by omega, rfl⟩, (), by omega, roles.axes,
      hnormalize.mpr ⟨h.axes, hall, hnodup⟩, roles.batch, rfl, roles.feature, rfl, rfl⟩

theorem complete_of_convolution (h : convolution lhs rhs c = .ok s) :
    (c.dimensions.fromFront lhs.rank).Complete lhs.rank := by
  simp only [convolution, bind_eq_ok] at h
  obtain ⟨_, _, _, _, _, _, _, _, _, _, _, hinput, _, hkernel, _, houtput, _⟩ := h
  exact ⟨(axisRoles_eq_ok.mp hinput).complete, (axisRoles_eq_ok.mp hkernel).complete,
    (axisRoles_eq_ok.mp houtput).complete⟩

end Accepted

end Inference

/-- The text of a convolution has one row of letters for each tensor, in which every spatial
position stands once. -/
def ConvolutionDimensions.LaidOut (spatialRank : Nat) (text : String) : Prop :=
  ∃ input kernel output,
    text = "#stablehlo.conv<" ++ input ++ "x" ++ kernel ++ "->" ++ output ++ ">" ∧
    ConvolutionLayout.LaidOut "b" "f" spatialRank input ∧
    ConvolutionLayout.LaidOut "i" "o" spatialRank kernel ∧
    ConvolutionLayout.LaidOut "b" "f" spatialRank output

theorem ConvolutionDimensions.laidOut_render {d : ConvolutionDimensions} {rank : Nat}
    (h : d.Complete rank) : LaidOut (rank - 2) d.render :=
  ⟨_, _, _, rfl, ConvolutionLayout.laidOut_render h.input,
    ConvolutionLayout.laidOut_render h.kernel, ConvolutionLayout.laidOut_render h.output⟩

/-- Images with their features last, which are counted from the end. -/
def imageDimensions : ConvolutionDimensions where
  input := ⟨0, -1, [1, 2]⟩
  kernel := ⟨-2, -1, [0, 1]⟩
  output := ⟨0, -1, [1, 2]⟩

end TensorProgram
