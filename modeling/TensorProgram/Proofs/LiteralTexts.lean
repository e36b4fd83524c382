import Mathlib.Algebra.BigOperators.Group.List.Basic
import Mathlib.Data.List.OfFn
import TensorProgram.NearestConversions
import TensorProgram.Proofs.ElementTexts
import TensorProgram.Proofs.RemainingAxes
import TensorProgram.Proofs.TensorTypes

/-!
# Reading literals

A literal with elements is written as lists in lists.  Every element is read at the offset that the
strides of its axes add up to, and no offset is too large: `Literal.lists_eq` says that the lists
are those of consecutive blocks of the elements.  `Nested` is the type of lists with given extents,
and what stands in the blocks are the elements in order: `Literal.exists_nested`.  Since the texts
of elements are enclosed, so are lists of them, and elements can be read off:
`Nested.text_injective`.  A literal without elements has no text of its own but its type, which
tells its extents.

Together with the type this gives the shape and the elements of every literal that can be made:
`Literal.readable`.
-/

namespace TensorProgram

open Inference

/-! ## Nested lists -/

/-- Lists in lists with the given extents, outermost first. -/
inductive Nested (α : Type) : List Nat → Type
  | leaf (a : α) : Nested α []
  | row {extent : Nat} {dimensions : List Nat} (entries : Fin extent → Nested α dimensions) :
      Nested α (extent :: dimensions)

namespace Nested

variable {α β : Type} {dimensions : List Nat}

/-- What stands in the lists, from left to right. -/
def leaves {dimensions : List Nat} : Nested α dimensions → List α
  | leaf a => [a]
  | row entries => (List.ofFn fun i => (entries i).leaves).flatten

/-- The lists in brackets. -/
def text (write : α → String) {dimensions : List Nat} : Nested α dimensions → String
  | leaf a => write a
  | row entries => "[" ++ ", ".intercalate (List.ofFn fun i => (entries i).text write) ++ "]"

variable {write : α → String} {t : Nested α dimensions}

theorem mem_leaves_row {extent : Nat} {entries : Fin extent → Nested α dimensions} {i : Fin extent}
    {a : α} (h : a ∈ (entries i).leaves) : a ∈ (row entries).leaves :=
  List.mem_flatten_of_mem (List.mem_ofFn.mpr ⟨i, rfl⟩) h

theorem enclosed_text (h : ∀ a ∈ t.leaves, Enclosed (write a)) : Enclosed (t.text write) := by
  induction t with
  | leaf a => exact h a (List.mem_singleton_self a)
  | row entries ih =>
    refine Enclosed.bracketed fun text htext => ?_
    obtain ⟨i, rfl⟩ := List.mem_ofFn.mp htext
    exact ih i fun a ha => h a (mem_leaves_row ha)

/-- Around the leaves there are brackets, commas and blanks. -/
theorem notMem_text {c : Char} (hc : c ∉ ['[', ']', ',', ' '])
    (h : ∀ a ∈ t.leaves, c ∉ (write a).toList) : c ∉ (t.text write).toList := by
  simp only [List.mem_cons, List.not_mem_nil, or_false, not_or] at hc
  obtain ⟨hopening, hclosing, hcomma, hblank⟩ := hc
  induction t with
  | leaf a => exact h a (List.mem_singleton_self a)
  | row entries ih =>
    have hentries : c ∉ (", ".intercalate (List.ofFn fun i => (entries i).text write)).toList := by
      refine notMem_intercalate hcomma hblank fun text htext => ?_
      obtain ⟨i, rfl⟩ := List.mem_ofFn.mp htext
      exact ih i fun a ha => h a (mem_leaves_row ha)
    simp only [text, String.toList_append, List.mem_append, not_or]
    exact ⟨⟨by simpa using hopening, hentries⟩, by simpa using hclosing⟩

/-- What stands in the lists can be read off their text. -/
theorem text_injective {write' : β → String} {u : Nested β dimensions}
    (ht : ∀ a ∈ t.leaves, Enclosed (write a)) (hu : ∀ b ∈ u.leaves, Enclosed (write' b))
    (h : t.text write = u.text write') : t.leaves.map write = u.leaves.map write' := by
  induction t with
  | leaf a =>
    cases u with
    | leaf b => exact congrArg (fun text => [text]) h
  | @row extent dimensions entries ih =>
    cases u with
    | row entries' =>
      simp only [text, String.append_left_inj, String.append_right_inj] at h
      have hrows : (List.ofFn fun i => (entries i).text write) =
          List.ofFn fun i => (entries' i).text write' := by
        -- a list with one empty text and the empty list look alike, but the extent is known
        cases extent with
        | zero => simp
        | succ extent =>
          rw [List.ofFn_succ, List.ofFn_succ] at h ⊢
          refine intercalate_cons_injective ?_ ?_ h
          · rw [← List.ofFn_succ (f := fun i => (entries i).text write), List.forall_mem_ofFn_iff]
            exact fun i => enclosed_text fun a ha => ht a (mem_leaves_row ha)
          · rw [← List.ofFn_succ (f := fun i => (entries' i).text write'), List.forall_mem_ofFn_iff]
            exact fun i => enclosed_text fun b hb => hu b (mem_leaves_row hb)
      have hleaves (i : Fin extent) :
          (entries i).leaves.map write = (entries' i).leaves.map write' :=
        ih i (fun a ha => ht a (mem_leaves_row ha)) (fun b hb => hu b (mem_leaves_row hb))
          (congrFun (List.ofFn_injective hrows) i)
      simp only [leaves, List.map_flatten, List.map_ofFn, Function.comp_def, hleaves]

end Nested

/-! ## Blocks -/

namespace Literal

theorem size_eq_zero_iff {s : Shape} : s.size = 0 ↔ 0 ∈ s.dimensions := by
  rw [Shape.size_eq_prod, List.prod_eq_zero_iff]

/-- Consecutive blocks of a list. -/
def blocks {α : Type} (count length : Nat) (xs : List α) : List (List α) :=
  (List.range count).map fun i => (xs.drop (i * length)).take length

/-- Texts in brackets, one level for each axis. -/
def nested : (dimensions : List Nat) → (texts : List String) → String
  | [], texts => String.join texts
  | extent :: dimensions, texts =>
    "[" ++ ", ".intercalate ((blocks extent dimensions.prod texts).map (nested dimensions)) ++ "]"

section Blocks

variable {α : Type} {count length : Nat} {xs : List α}

theorem blocks_eq_ofFn : blocks count length xs =
    List.ofFn fun i : Fin count => (xs.drop (i * length)).take length := by
  rw [blocks, List.ofFn_eq_map, ← List.map_coe_finRange_eq_range, List.map_map]
  rfl

theorem length_block (h : xs.length = count * length) (i : Fin count) :
    ((xs.drop (i * length)).take length).length = length := by
  have : (i + 1) * length ≤ count * length := Nat.mul_le_mul_right _ i.isLt
  rw [Nat.succ_mul] at this
  rw [List.length_take, List.length_drop]
  omega

/-- Blocks that use up a list make up the list. -/
theorem flatten_blocks (h : xs.length = count * length) :
    (blocks count length xs).flatten = xs := by
  induction count generalizing xs with
  | zero =>
    rw [Nat.zero_mul] at h
    rw [List.length_eq_zero_iff.mp h]
    rfl
  | succ count ih =>
    have hlength : (xs.drop length).length = count * length := by
      rw [List.length_drop, h, Nat.succ_mul]
      omega
    have hblocks : blocks (count + 1) length xs =
        xs.take length :: blocks count length (xs.drop length) := by
      simp only [blocks, List.range_succ_eq_map, List.map_cons, List.map_map, Nat.zero_mul,
        List.drop_zero, Function.comp_def, List.drop_drop, Nat.succ_eq_add_one, Nat.succ_mul,
        Nat.add_comm length]
    rw [hblocks, List.flatten_cons, ih hlength, List.take_append_drop]

theorem map_blocks {β : Type} (f : α → β) :
    blocks count length (xs.map f) = (blocks count length xs).map (List.map f) := by
  simp [blocks, Function.comp_def, List.map_take, List.map_drop]

/-- The blocks of a part of a list that starts at an offset. -/
theorem blocks_take_drop (offset : Nat) :
    blocks count length ((xs.drop offset).take (count * length)) =
      (List.range count).map fun i => (xs.drop (offset + i * length)).take length := by
  refine List.map_congr_left fun i hi => ?_
  have hlast : (i + 1) * length ≤ count * length :=
    Nat.mul_le_mul_right _ (List.mem_range.mp hi)
  rw [Nat.succ_mul] at hlast
  rw [List.drop_take, List.drop_drop, List.take_take, Nat.min_eq_left (by omega)]

end Blocks

/-- The texts of elements that fill a tensor are written as lists with its extents, in which the
elements stand in order. -/
theorem exists_nested {α : Type} {dimensions : List Nat} {xs : List α}
    (h : xs.length = dimensions.prod) :
    ∃ t : Nested α dimensions, t.leaves = xs ∧
      ∀ write : α → String, nested dimensions (xs.map write) = t.text write := by
  induction dimensions generalizing xs with
  | nil =>
    obtain ⟨a, rfl⟩ := List.length_eq_one_iff.mp h
    exact ⟨.leaf a, rfl, fun write => by simp [nested, Nested.text]⟩
  | cons extent dimensions ih =>
    rw [List.prod_cons] at h
    choose entries hleaves htext using fun i : Fin extent => ih (length_block h i)
    refine ⟨.row entries, ?_, fun write => ?_⟩
    · simp only [Nested.leaves, hleaves]
      rw [← blocks_eq_ofFn, flatten_blocks h]
    · simp only [nested, map_blocks, Nested.text, ← htext]
      rw [blocks_eq_ofFn, List.map_ofFn, List.map_ofFn]
      rfl

/-! ## Strides and offsets -/

section Text

variable [NarrowConversions] {e : Elements} {dimensions : List Nat} {offset : Nat}

/-- The lists from an offset on are those of the blocks of the elements from there on.  No number on
the way is larger than the number of elements, and every offset is the position of one. -/
theorem lists_eq (hpos : 0 ∉ dimensions) (hfits : offset + dimensions.prod ≤ e.length)
    (hlimit : e.length < Size.limit) :
    e.lists dimensions offset =
      .ok (nested dimensions ((e.texts.drop offset).take dimensions.prod)) := by
  induction dimensions generalizing offset with
  | nil =>
    rw [List.prod_nil] at hfits ⊢
    have hoffset : offset < e.texts.length := by
      rw [e.length_texts]
      omega
    rw [Elements.lists, e.textAt_eq, entry_eq_ok.mpr (List.getElem?_eq_getElem hoffset),
      List.take_one_drop_eq_of_lt_length hoffset]
    simp [nested]
  | cons extent dimensions ih =>
    rw [List.mem_cons, not_or] at hpos
    rw [List.prod_cons] at hfits ⊢
    have hle : dimensions.prod ≤ extent * dimensions.prod :=
      Nat.le_mul_of_pos_left _ (Nat.pos_of_ne_zero (Ne.symm hpos.1))
    have hstride : Size.product dimensions = .ok dimensions.prod :=
      Size.product_of_pos hpos.2 (by omega)
    have hentry : ∀ index ∈ List.range extent,
        (do e.lists dimensions (← Size.add offset (← Size.mul index dimensions.prod))) =
          .ok (nested dimensions
            ((e.texts.drop (offset + index * dimensions.prod)).take dimensions.prod)) := by
      intro index hindex
      have hlast : (index + 1) * dimensions.prod ≤ extent * dimensions.prod :=
        Nat.mul_le_mul_right _ (List.mem_range.mp hindex)
      rw [Nat.succ_mul] at hlast
      rw [Size.mul, Size.bounded_eq_ok.mpr ⟨by omega, rfl⟩, ok_bind, Size.add,
        Size.bounded_eq_ok.mpr ⟨by omega, rfl⟩, ok_bind]
      exact ih hpos.2 (by omega)
    have hentries := mapM_eq_ok.mpr (List.forall₂_map_right_iff.mpr
      (List.forall₂_same.mpr hentry))
    rw [Elements.lists, hstride, ok_bind, hentries, ok_bind, nested, blocks_take_drop,
      List.map_map]
    rfl

/-! ## The body -/

variable {l m : Literal}

/-- What stands in front of the type. -/
def bodyText (l : Literal) : String :=
  if l.shape.size = 0 then "" else nested l.shape.dimensions l.elements.texts

theorem length_texts (hl : l.Sound) : l.elements.texts.length = l.shape.dimensions.prod := by
  rw [l.elements.length_texts, hl.filled, Shape.size_eq_prod]

/-- The body is written without a fault. -/
theorem body_eq (hl : l.Sound) : l.body = .ok l.bodyText := by
  rw [body, hl.counted, ok_bind, hl.filled, bodyText]
  split_ifs with hsize
  · rfl
  · have hprod : l.shape.dimensions.prod = l.elements.texts.length := (length_texts hl).symm
    have hpos : 0 ∉ l.shape.dimensions := size_eq_zero_iff.not.mp hsize
    rw [lists_eq hpos (by rw [hprod, l.elements.length_texts]; omega) (Size.product_lt hl.counted),
      hprod, List.drop_zero, List.take_length]

theorem text_eq (hl : l.Sound) :
    l.text = .ok ("dense<" ++ l.bodyText ++ "> : " ++ l.shape.wireType) := by
  rw [text, body_eq hl]
  rfl

theorem render_eq (hl : l.Sound) :
    l.render = "dense<" ++ l.bodyText ++ "> : " ++ l.shape.wireType := by
  rw [render, text_eq hl]

/-- The lists of a literal with elements. -/
theorem exists_body (hl : l.Sound) (hsize : l.shape.size ≠ 0) :
    ∃ t : Nested String l.shape.dimensions,
      t.leaves = l.elements.texts ∧ l.bodyText = t.text id := by
  obtain ⟨t, hleaves, htext⟩ := exists_nested (length_texts hl)
  refine ⟨t, hleaves, ?_⟩
  rw [bodyText, if_neg hsize, ← htext id, List.map_id]

/-- The body ends at the first angle bracket. -/
theorem notMem_body (hl : l.Sound) : '>' ∉ l.bodyText.toList := by
  by_cases hsize : l.shape.size = 0
  · rw [bodyText, if_pos hsize]
    decide
  · obtain ⟨t, hleaves, hbody⟩ := exists_body hl hsize
    rw [hbody]
    refine Nested.notMem_text (by decide) fun text htext => ?_
    exact (Elements.mem_texts (hleaves ▸ htext)).2

/-- Elements of one shape can be read off the body. -/
theorem texts_of_body (hl : l.Sound) (hm : m.Sound) (hshape : l.shape = m.shape)
    (h : l.bodyText = m.bodyText) : l.elements.texts = m.elements.texts := by
  by_cases hsize : l.shape.size = 0
  · have hnone {l : Literal} (hl : l.Sound) (hsize : l.shape.size = 0) : l.elements.texts = [] := by
      rw [← List.length_eq_zero_iff, l.elements.length_texts, hl.filled, hsize]
    rw [hnone hl hsize, hnone hm (hshape ▸ hsize)]
  · obtain ⟨t, ht, htbody⟩ := exists_body hl hsize
    obtain ⟨u, hu, hubody⟩ := exists_body hm (hshape ▸ hsize)
    -- the lists have the extents of two shapes, which have to be made one
    have hleaves (s : Shape) (hs : l.shape = s) (u : Nested String s.dimensions)
        (hu : ∀ text ∈ u.leaves, Enclosed text) (h : t.text id = u.text id) :
        t.leaves = u.leaves := by
      subst hs
      have := Nested.text_injective
        (fun text htext => (Elements.mem_texts (ht ▸ htext)).1) hu h
      simpa using this
    rw [← ht, ← hu]
    refine hleaves _ hshape u (fun text htext => (Elements.mem_texts (hu ▸ htext)).1) ?_
    rw [← htbody, h, hubody]

/-- The text of a literal determines its shape and, as far as the texts of real numbers tell their
bits, its elements. -/
theorem eq_of_render (hl : l.Sound) (hm : m.Sound)
    (htell : TextsTell (l.elements.reals ++ m.elements.reals)) (h : l.render = m.render) :
    l = m := by
  rw [render_eq hl, render_eq hm] at h
  obtain ⟨hbody, hshape⟩ := Shape.dense_inj (notMem_body hl) (notMem_body hm) h
  obtain ⟨t, ht, hlt⟩ := hl.stored
  obtain ⟨u, hu, hmu⟩ := hm.stored
  have helements : l.elements.type = m.elements.type := by
    rw [hshape, hu] at ht
    rw [hlt, hmu, Option.some.inj ht]
  have htexts := texts_of_body hl hm hshape hbody
  have helements := Elements.texts_injective helements htell htexts
  cases l
  cases m
  simp only [mk.injEq]
  exact ⟨hshape, helements⟩

/-- The text of a literal is its elements in order, as lists in lists with the extents of the
shape, and its type.  It is written without a fault, so that every element is found at its offset.
It determines the literal, as far as the texts of the real numbers that occur tell their bits. -/
theorem readable (hl : l.Made) :
    (l.elements.texts.length = l.elements.length ∧
      ∀ offset, l.elements.textAt offset = entry l.elements.texts offset) ∧
      (∃ body : String, l.body = .ok body ∧ l.text = .ok l.render ∧
        l.render = "dense<" ++ body ++ "> : " ++ l.shape.wireType ∧
        '>' ∉ body.toList ∧
        (0 ∈ l.shape.dimensions → body = "") ∧
        (0 ∉ l.shape.dimensions →
          ∃ t : Nested (Fin l.elements.texts.length) l.shape.dimensions,
            t.leaves = List.finRange l.elements.texts.length ∧
            body = t.text l.elements.texts.get)) ∧
      ∀ {m : Literal}, m.Made → TextsTell (l.elements.reals ++ m.elements.reals) →
        l.render = m.render → l = m := by
  have hsound := hl.sound
  have htext : l.text = .ok l.render := by rw [text_eq hsound, render_eq hsound]
  refine ⟨⟨l.elements.length_texts, l.elements.textAt_eq⟩,
    ⟨l.bodyText, body_eq hsound, htext, render_eq hsound, notMem_body hsound, ?_, ?_⟩, ?_⟩
  · intro hzero
    rw [bodyText, if_pos (size_eq_zero_iff.mpr hzero)]
  · intro hzero
    have hcount : (List.finRange l.elements.texts.length).length = l.shape.dimensions.prod := by
      rw [List.length_finRange, length_texts hsound]
    obtain ⟨t, hleaves, htext⟩ := exists_nested hcount
    refine ⟨t, hleaves, ?_⟩
    rw [bodyText, if_neg (size_eq_zero_iff.not.mpr hzero), ← htext, List.map_get_finRange]
  · intro m hm htell h
    exact eq_of_render hsound hm.sound htell h

end Text

/-- Half precision: the greatest number, a tenth, an infinity and a zero with a sign. -/
theorem readable_half :
    let numbers : List (BitVec 16) := [0x7BFF, 0x2E66, 0xFC00, 0x8000]
    let elements : Elements := .float16 numbers
    let shape : Shape := .of (.real .f16) [2, 2]
    ∃ l, ofElements shape elements = .ok l ∧
      TextsTell (l.elements.reals ++ l.elements.reals) ∧
      l.text = .ok "dense<[[65500.0, 0.1], [0xFC00, -0.0]]> : tensor<2x2xf16>" ∧
      ∃ m, ofNative .float16 [2, 2] numbers = .ok m ∧ l = m := by
  intro numbers elements shape
  have hl : ofElements shape elements = .ok ⟨shape, elements⟩ := by rfl
  have hm : ofNative .float16 [2, 2] numbers = .ok ⟨shape, elements⟩ := by rfl
  have htell : TextsTell (elements.reals ++ elements.reals) := by decide +kernel
  refine ⟨_, hl, htell, by decide +kernel, _, hm, ?_⟩
  exact (readable (.elements hl)).2.2 (.native _ hm) htell rfl

example :
    Literal.render ⟨.of (.complex .single) [2],
      .complex64 [(0x3F800000, 0xBF800000), (0x3F000000, 0x7F800000)]⟩ =
        "dense<[(1.0, -1.0), (0.5, 0x7F800000)]> : tensor<2xcomplex<f32>>" := by decide +kernel

end Literal

end TensorProgram
