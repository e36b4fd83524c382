import TensorProgram.Proofs.RecordTexts
import TensorProgram.Shape

/-!
# Reading tensor types

The type of a tensor is written as its extents, each with an `x` after it, and its element type.
An `x` may stand in the element type too, but no element type starts with a digit, so it can be
seen where the extents end: `extents_append_inj`.  Element types have different spellings, none of
which starts another one up to the bracket after it: `elementToken_append_inj`.  Hence the shape
can be read off the type, `Shape.wireType_unambiguous`, and what stands in front of it off a dense
literal, `Shape.dense_inj`.
-/

namespace TensorProgram

/-! ## Element types -/

namespace ElementType

def widths : List IntegerWidth :=
  [.w2, .w4, .w8, .w16, .w32, .w64]

def formats : List RealFormat :=
  [.f4E2M1FN, .f6E2M3FN, .f6E3M2FN, .f8E3M4, .f8E4M3, .f8E4M3FN, .f8E4M3FNUZ, .f8E4M3B11FNUZ,
    .f8E5M2, .f8E5M2FNUZ, .f8E8M0FNU, .bf16, .f16, .f32, .f64]

/-- All thirty element types. -/
def all : List ElementType :=
  .boolean :: widths.map .signed ++ widths.map .unsigned ++ formats.map .real ++
    [.complex .single, .complex .double]

theorem mem_all (t : ElementType) : t ∈ all := by
  cases t with
  | boolean => decide
  | signed w => cases w <;> decide
  | unsigned w => cases w <;> decide
  | real f => cases f <;> decide
  | complex p => cases p <;> decide

end ElementType

namespace Shape

/-- The spelling of the element type. -/
def elementToken (s : Shape) : String :=
  s.elementType?.elim "invalid" ElementType.token

def tokens : List String :=
  "invalid" :: ElementType.all.map ElementType.token

theorem nodup_tokens : tokens.Nodup := by decide

theorem elementToken_mem (s : Shape) : s.elementToken ∈ tokens := by
  unfold elementToken
  cases s.elementType? with
  | none => exact List.mem_cons_self
  | some t => exact List.mem_cons_of_mem _ (List.mem_map_of_mem t.mem_all)

/-- Element types have different spellings. -/
theorem elementType?_eq_of_token {s t : Shape} (h : s.elementToken = t.elementToken) :
    s.elementType? = t.elementType? := by
  obtain ⟨hinvalid, hnodup⟩ := List.nodup_cons.mp nodup_tokens
  have hmem (u : ElementType) : u.token ∈ ElementType.all.map ElementType.token :=
    List.mem_map_of_mem u.mem_all
  unfold elementToken at h
  cases hs : s.elementType? with
  | none =>
    cases ht : t.elementType? with
    | none => rfl
    | some u =>
      rw [hs, ht] at h
      have h : "invalid" = u.token := h
      exact absurd (h ▸ hmem u) hinvalid
  | some u =>
    cases ht : t.elementType? with
    | none =>
      rw [hs, ht] at h
      have h : u.token = "invalid" := h
      exact absurd (h ▸ hmem u) hinvalid
    | some v =>
      rw [hs, ht] at h
      rw [List.inj_on_of_nodup_map hnodup u.mem_all v.mem_all h]

theorem startsWithDigit_elementToken (s : Shape) : startsWithDigit s.elementToken = false := by
  have htokens : ∀ token ∈ tokens, startsWithDigit token = false := by decide
  exact htokens _ s.elementToken_mem

/-- No spelling goes on with a closing bracket where another one ends. -/
theorem eq_of_token_start :
    ∀ a ∈ tokens, ∀ b ∈ tokens, a.toList ++ ['>'] <+: b.toList ++ ['>'] → a = b := by
  decide +kernel

/-- In front of a closing bracket it can be seen where an element type ends. -/
theorem elementToken_append_inj {s t : Shape} {x y : List Char}
    (h : s.elementToken.toList ++ '>' :: x = t.elementToken.toList ++ '>' :: y) :
    s.elementType? = t.elementType? ∧ x = y := by
  have hfirst : s.elementToken.toList ++ ['>'] <+: s.elementToken.toList ++ '>' :: x :=
    ⟨x, by simp⟩
  have hsecond : t.elementToken.toList ++ ['>'] <+: s.elementToken.toList ++ '>' :: x :=
    ⟨y, by simp [h]⟩
  have htoken : s.elementToken = t.elementToken := by
    rcases List.prefix_or_prefix_of_prefix hfirst hsecond with hstart | hstart
    · exact eq_of_token_start _ s.elementToken_mem _ t.elementToken_mem hstart
    · exact (eq_of_token_start _ t.elementToken_mem _ s.elementToken_mem hstart).symm
  rw [htoken, List.append_cancel_left_eq, List.cons.injEq] at h
  exact ⟨elementType?_eq_of_token htoken, h.2⟩

/-! ## Extents -/

/-- The extents in the spelling of a tensor type. -/
def extents (dimensions : List Nat) : List Char :=
  dimensions.flatMap fun extent => (toString extent).toList ++ ['x']

theorem toList_wireType (s : Shape) :
    s.wireType.toList =
      "tensor<".toList ++ (extents s.dimensions ++ (s.elementToken.toList ++ ['>'])) := by
  have hjoin : (String.join (s.dimensions.map fun extent => toString extent ++ "x")).toList =
      extents s.dimensions := by
    rw [String.toList_join, List.flatMap_map]
    exact List.flatMap_congr fun extent _ => String.toList_append
  rw [wireType, String.toList_append, String.toList_append, String.toList_append, hjoin,
    List.append_assoc, List.append_assoc]
  rfl

theorem extents_cons_append (n : Nat) (ns : List Nat) (rest : List Char) :
    extents (n :: ns) ++ rest = (toString n).toList ++ 'x' :: (extents ns ++ rest) := by
  simp [extents]

/-- Extents that are not the empty list start with a digit. -/
theorem startsWithDigit_extents (n : Nat) (ns : List Nat) (rest : List Char) :
    (extents (n :: ns) ++ rest).head?.any Char.isDigit = true := by
  have hdigit := startsWithDigit_toString n
  unfold startsWithDigit at hdigit
  rw [extents_cons_append]
  generalize (toString n).toList = digits at hdigit ⊢
  cases digits with
  | nil => cases hdigit
  | cons c cs => exact hdigit

/-- Extents end where the text does not go on with a digit. -/
theorem extents_append_inj {ms ns : List Nat} {r s : List Char}
    (hr : r.head?.any Char.isDigit = false) (hs : s.head?.any Char.isDigit = false)
    (h : extents ms ++ r = extents ns ++ s) : ms = ns ∧ r = s := by
  have hletter (n : Nat) : 'x' ∉ (toString n).toList := fun hx =>
    absurd (isDigit_of_mem_toString hx) (by decide)
  induction ms generalizing ns with
  | nil =>
    cases ns with
    | nil => exact ⟨rfl, h⟩
    | cons n ns =>
      have hdigit := startsWithDigit_extents n ns s
      rw [← h] at hdigit
      exact absurd (hdigit.symm.trans hr) (by decide)
  | cons m ms ih =>
    cases ns with
    | nil =>
      have hdigit := startsWithDigit_extents m ms r
      rw [h] at hdigit
      exact absurd (hdigit.symm.trans hs) (by decide)
    | cons n ns =>
      rw [extents_cons_append, extents_cons_append] at h
      obtain ⟨htext, hrest⟩ := append_inj_of_notMem (hletter m) (hletter n) h
      obtain ⟨rfl, rfl⟩ := ih hrest
      rw [toString_injective (String.toList_inj.mp htext)]
      exact ⟨rfl, rfl⟩

/-! ## Tensor types -/

/-- A tensor type ends where it can be seen, whatever follows it. -/
theorem wireType_append_inj {s t : Shape} {x y : List Char}
    (h : s.wireType.toList ++ x = t.wireType.toList ++ y) : s = t ∧ x = y := by
  have hsplit (s : Shape) (x : List Char) : s.wireType.toList ++ x =
      "tensor<".toList ++ (extents s.dimensions ++ (s.elementToken.toList ++ '>' :: x)) := by
    simp [toList_wireType]
  have hhead (s : Shape) (x : List Char) :
      (s.elementToken.toList ++ '>' :: x).head?.any Char.isDigit = false := by
    have := s.startsWithDigit_elementToken
    unfold startsWithDigit at this
    generalize s.elementToken.toList = token at this ⊢
    cases token with
    | nil => rfl
    | cons c cs => exact this
  rw [hsplit, hsplit, List.append_cancel_left_eq] at h
  obtain ⟨hdimensions, htoken⟩ := extents_append_inj (hhead s x) (hhead t y) h
  obtain ⟨htype, hrest⟩ := elementToken_append_inj htoken
  cases s
  cases t
  simp only [mk.injEq]
  exact ⟨⟨htype, hdimensions⟩, hrest⟩

/-- Shapes with one spelling are one shape, also if they are invalid. -/
theorem wireType_inj {s t : Shape} (h : s.wireType = t.wireType) : s = t :=
  (wireType_append_inj (congrArg (fun text => text.toList ++ []) h)).1

/-- What is written in front of a type in angle brackets ends at the first closing one. -/
theorem dense_inj {x y : String} {s t : Shape} (hx : '>' ∉ x.toList) (hy : '>' ∉ y.toList)
    (h : "dense<" ++ x ++ "> : " ++ s.wireType = "dense<" ++ y ++ "> : " ++ t.wireType) :
    x = y ∧ s = t := by
  have hsplit (x : String) (s : Shape) : ("dense<" ++ x ++ "> : " ++ s.wireType).toList =
      "dense<".toList ++ (x.toList ++ '>' :: (" : ".toList ++ s.wireType.toList)) := by
    rw [String.toList_append, String.toList_append, String.toList_append, List.append_assoc,
      List.append_assoc]
    rfl
  have hlist := congrArg String.toList h
  rw [hsplit, hsplit, List.append_cancel_left_eq] at hlist
  obtain ⟨hbody, htype⟩ := append_inj_of_notMem hx hy hlist
  rw [List.append_cancel_left_eq, String.toList_inj] at htype
  exact ⟨String.toList_inj.mp hbody, wireType_inj htype⟩

/-- Tensor types are unambiguous, on their own and in front of any text.  The shapes are those of
all element types and extents, and the invalid ones with any extents. -/
theorem wireType_unambiguous (s t : Shape) :
    (s.wireType = t.wireType ↔ s = t) ∧
      ∀ x y : String, s.wireType ++ x = t.wireType ++ y ↔ s = t ∧ x = y := by
  constructor
  · exact ⟨wireType_inj, congrArg wireType⟩
  · intro x y
    constructor
    · intro h
      have hlist := congrArg String.toList h
      rw [String.toList_append, String.toList_append] at hlist
      obtain ⟨hshape, htext⟩ := wireType_append_inj hlist
      exact ⟨hshape, String.toList_inj.mp htext⟩
    · rintro ⟨rfl, rfl⟩
      rfl

end Shape

end TensorProgram
