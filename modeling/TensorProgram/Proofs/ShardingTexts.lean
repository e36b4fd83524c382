import TensorProgram.Proofs.AxisUse
import TensorProgram.Proofs.QuotedTexts
import TensorProgram.Proofs.WrittenNumbers

/-!
# Reading shardings

The text of a sharding lists its tensor axes, each with the mesh axes that it is spread over in
braces.  Names of mesh axes are quoted, so that braces and commas in them cannot be taken for those
of the lists.

Lists are read in two layers that have one shape: entries that can be told apart in front of what
may follow them, `EntryTexts`, can be read off a list of them, `EntryTexts.list_append_inj`.  This
holds of the mesh axes in an entry and of the entries: `AxisSharding.intercalate_render_injective`.
-/

namespace TensorProgram

/-! ## Lists of entries -/

/-- Text behind a list: nothing, or what closes it. -/
def Closes (text : List Char) : Prop :=
  ∀ c ∈ text.head?, c = '\x7d'

/-- Text behind an entry of a list. -/
def Follows (text : List Char) : Prop :=
  ∀ c ∈ text.head?, c = ',' ∨ c = '\x7d'

theorem Closes.follows {text : List Char} (h : Closes text) : Follows text :=
  fun c hc => .inr (h c hc)

theorem follows_comma (rest : List Char) : Follows (',' :: rest) :=
  fun c hc => .inl (by simpa using hc.symm)

theorem not_closes_comma (rest : List Char) : ¬Closes (',' :: rest) :=
  fun h => absurd (h ',' rfl) (by decide)

/-- No text of an entry starts where a list may be closed, and it can be seen where it ends. -/
structure EntryTexts {α : Type} (P : α → Prop) (text : α → String) : Prop where
  start : ∀ {a}, P a → ∀ r, ¬Closes ((text a).toList ++ r)
  append_inj : ∀ {a b}, P a → P b → ∀ {r s}, Follows r → Follows s →
    (text a).toList ++ r = (text b).toList ++ s → a = b ∧ r = s

namespace EntryTexts

variable {α : Type} {P : α → Prop} {text : α → String}

/-- The entries after the first one, each with a comma in front. -/
def rest (text : α → String) (as : List α) : List Char :=
  (as.map text).flatMap fun entry => ',' :: ' ' :: entry.toList

theorem rest_cons (a : α) (as : List α) (r : List Char) :
    rest text (a :: as) ++ r = ',' :: ' ' :: ((text a).toList ++ (rest text as ++ r)) := by
  simp [rest]

theorem follows_rest (as : List α) {r : List Char} (hr : Closes r) :
    Follows (rest text as ++ r) := by
  cases as with
  | nil => exact hr.follows
  | cons a as =>
    rw [rest_cons]
    exact follows_comma _

theorem rest_append_inj (h : EntryTexts P text) {as bs : List α} (has : ∀ a ∈ as, P a)
    (hbs : ∀ b ∈ bs, P b) {r s : List Char} (hr : Closes r) (hs : Closes s)
    (heq : rest text as ++ r = rest text bs ++ s) : as = bs ∧ r = s := by
  induction as generalizing bs with
  | nil =>
    cases bs with
    | nil => exact ⟨rfl, heq⟩
    | cons b bs =>
      rw [rest_cons] at heq
      obtain rfl : r = _ := heq
      exact absurd hr (not_closes_comma _)
  | cons a as ih =>
    cases bs with
    | nil =>
      rw [rest_cons] at heq
      obtain rfl : _ = s := heq
      exact absurd hs (not_closes_comma _)
    | cons b bs =>
      obtain ⟨ha, hasRest⟩ := List.forall_mem_cons.mp has
      obtain ⟨hb, hbsRest⟩ := List.forall_mem_cons.mp hbs
      simp only [rest_cons, List.cons.injEq, true_and] at heq
      obtain ⟨rfl, hrest⟩ :=
        h.append_inj ha hb (follows_rest as hr) (follows_rest bs hs) heq
      obtain ⟨rfl, rfl⟩ := ih hasRest hbsRest hrest
      exact ⟨rfl, rfl⟩

/-- A list can be read in front of what closes it. -/
theorem list_append_inj (h : EntryTexts P text) {as bs : List α} (has : ∀ a ∈ as, P a)
    (hbs : ∀ b ∈ bs, P b) {r s : List Char} (hr : Closes r) (hs : Closes s)
    (heq : (", ".intercalate (as.map text)).toList ++ r =
      (", ".intercalate (bs.map text)).toList ++ s) : as = bs ∧ r = s := by
  have hcons (a : α) (as : List α) (r : List Char) :
      (", ".intercalate ((a :: as).map text)).toList ++ r =
        (text a).toList ++ (rest text as ++ r) := by
    rw [List.map_cons, intercalate_cons, List.append_assoc]
    rfl
  cases as with
  | nil =>
    cases bs with
    | nil => exact ⟨rfl, by simpa using heq⟩
    | cons b bs =>
      rw [hcons] at heq
      obtain rfl : r = _ := by simpa using heq
      exact absurd hr (h.start (hbs b List.mem_cons_self) _)
  | cons a as =>
    cases bs with
    | nil =>
      rw [hcons] at heq
      obtain rfl : _ = s := by simpa using heq
      exact absurd hs (h.start (has a List.mem_cons_self) _)
    | cons b bs =>
      obtain ⟨ha, hasRest⟩ := List.forall_mem_cons.mp has
      obtain ⟨hb, hbsRest⟩ := List.forall_mem_cons.mp hbs
      rw [hcons, hcons] at heq
      obtain ⟨rfl, hrest⟩ :=
        h.append_inj ha hb (follows_rest as hr) (follows_rest bs hs) heq
      obtain ⟨rfl, rfl⟩ := h.rest_append_inj hasRest hbsRest hr hs hrest
      exact ⟨rfl, rfl⟩

end EntryTexts

/-! ## Mesh axes -/

/-- A quoted text ends where it can be seen, whatever follows it. -/
theorem Quoted.quote_append_inj {x y : String} {r s : List Char}
    (h : (quote x).toList ++ r = (quote y).toList ++ s) : x = y ∧ r = s := by
  have hscan := congrArg scan? h
  rw [scan?_quote_append, scan?_quote_append, Option.some.injEq, Prod.mk.injEq,
    String.toList_inj] at hscan
  exact hscan

namespace AxisReference

/-- The part of the axis that is used, behind the name. -/
def partText : AxisReference → List Char
  | whole _ => []
  | part _ preSize size =>
    ':' :: '(' :: ((toString preSize).toList ++ ')' :: (toString size).toList)

theorem toList_render (a : AxisReference) :
    a.render.toList = (Quoted.quote a.name).toList ++ a.partText := by
  cases a with
  | whole name => simp [render, AxisReference.name, partText]
  | part name preSize size =>
    show (Quoted.quote name ++ (":(" ++ toString preSize ++ ")" ++ toString size)).toList = _
    simp [AxisReference.name, partText]

theorem exists_quote (a : AxisReference) : ∃ following, a.render.toList = '"' :: following := by
  rw [toList_render]
  exact ⟨(Quoted.escape a.name).toList ++ ['"'] ++ a.partText, by simp [Quoted.quote]⟩

theorem partText_append_inj {a b : AxisReference} (hname : a.name = b.name) {r s : List Char}
    (hr : Follows r) (hs : Follows s) (h : a.partText ++ r = b.partText ++ s) :
    a = b ∧ r = s := by
  have hcolon (rest : List Char) : ¬Follows (':' :: rest) := fun h =>
    absurd (h ':' rfl) (by decide)
  cases a with
  | whole name =>
    cases b with
    | whole other =>
      obtain rfl : name = other := hname
      exact ⟨rfl, h⟩
    | part other preSize size =>
      obtain rfl : r = _ := h
      exact absurd hr (hcolon _)
  | part name preSize size =>
    cases b with
    | whole other =>
      obtain rfl : _ = s := h
      exact absurd hs (hcolon _)
    | part other preSize' size' =>
      obtain rfl : name = other := hname
      have hclosing (n : Nat) : ')' ∉ (toString n).toList := fun hmem =>
        absurd (isDigit_of_mem_toString hmem) (by decide)
      have hdigit {rest : List Char} (h : Follows rest) : ∀ c ∈ rest.head?, c.isDigit = false := by
        intro c hc
        rcases h c hc with rfl | rfl <;> decide
      simp only [partText, List.cons_append, List.append_assoc, List.cons.injEq, true_and] at h
      obtain ⟨hpre, hrest⟩ := append_inj_of_notMem (hclosing preSize) (hclosing preSize') h
      have hrest : (Digits.ofNat size).chars ++ r = (Digits.ofNat size').chars ++ s := by
        simpa [Digits.ofNat] using hrest
      obtain ⟨hsize, rfl⟩ := Digits.append_inj (hdigit hr) (hdigit hs) hrest
      obtain rfl := toString_injective (String.toList_inj.mp hpre)
      obtain rfl : size = size' := by
        rw [← Digits.number_ofNat size, hsize, Digits.number_ofNat]
      exact ⟨rfl, rfl⟩

/-- Mesh axes can be told apart in a list. -/
theorem entryTexts : EntryTexts (fun _ => True) render where
  start {a} _ r h := by
    obtain ⟨following, hfollowing⟩ := a.exists_quote
    rw [hfollowing] at h
    exact absurd (h '"' rfl) (by decide)
  append_inj {a b} _ _ r s hr hs h := by
    rw [toList_render, toList_render, List.append_assoc, List.append_assoc] at h
    obtain ⟨hname, hrest⟩ := Quoted.quote_append_inj h
    exact partText_append_inj hname hr hs hrest

end AxisReference

/-! ## Tensor axes -/

namespace AxisSharding

/-- What stands in the braces. -/
def body : AxisSharding → List Char
  | replicated => []
  | undecided => ['?']
  | sharded references => (", ".intercalate (references.map AxisReference.render)).toList

/-- The text of an axis stands in braces. -/
theorem toList_render (a : AxisSharding) : a.render.toList = '\x7b' :: (a.body ++ ['\x7d']) := by
  cases a with
  | replicated => rfl
  | undecided => rfl
  | sharded references => simp [render, body]

/-- A list of mesh axes starts with the quote of its first name. -/
theorem exists_body_sharded {references : List AxisReference}
    (h : .sharded [] ≠ sharded references) (r : List Char) :
    ∃ following, (sharded references).body ++ r = '"' :: following := by
  cases references with
  | nil => exact absurd rfl h
  | cons reference references =>
    obtain ⟨following, hfollowing⟩ := reference.exists_quote
    rw [body, List.map_cons, intercalate_cons, hfollowing]
    exact ⟨_, rfl⟩

/-- Which of the three ways to spread an axis it is can be seen from what stands in the braces. -/
theorem body_append_inj {a b : AxisSharding} (ha : .sharded [] ≠ a) (hb : .sharded [] ≠ b)
    {r s : List Char} (h : a.body ++ '\x7d' :: r = b.body ++ '\x7d' :: s) : a = b ∧ r = s := by
  cases a with
  | replicated =>
    cases b with
    | replicated => exact ⟨rfl, (List.cons.inj h).2⟩
    | undecided => exact absurd (List.cons.inj h).1 (by decide)
    | sharded references =>
      obtain ⟨following, hfollowing⟩ := exists_body_sharded hb ('\x7d' :: s)
      exact absurd (List.cons.inj (h.trans hfollowing)).1 (by decide)
  | undecided =>
    cases b with
    | replicated => exact absurd (List.cons.inj h).1 (by decide)
    | undecided => exact ⟨rfl, (List.cons.inj (List.cons.inj h).2).2⟩
    | sharded references =>
      obtain ⟨following, hfollowing⟩ := exists_body_sharded hb ('\x7d' :: s)
      exact absurd (List.cons.inj (h.trans hfollowing)).1 (by decide)
  | sharded references =>
    obtain ⟨following, hfollowing⟩ := exists_body_sharded ha ('\x7d' :: r)
    cases b with
    | replicated => exact absurd (List.cons.inj (hfollowing.symm.trans h)).1 (by decide)
    | undecided => exact absurd (List.cons.inj (hfollowing.symm.trans h)).1 (by decide)
    | sharded others =>
      have hclosed (rest : List Char) : Closes ('\x7d' :: rest) :=
        fun c hc => by simpa using hc.symm
      obtain ⟨rfl, hrest⟩ := AxisReference.entryTexts.list_append_inj
        (fun _ _ => trivial) (fun _ _ => trivial) (hclosed r) (hclosed s) h
      exact ⟨rfl, (List.cons.inj hrest).2⟩

/-- Tensor axes can be told apart in a list, if none of them is spread over nothing. -/
theorem entryTexts : EntryTexts (.sharded [] ≠ ·) render where
  start {a} _ r h := by
    rw [toList_render] at h
    exact absurd (h '\x7b' rfl) (by decide)
  append_inj {a b} ha hb r s _ _ h := by
    simp only [toList_render, List.cons_append, List.append_assoc, List.cons.injEq, true_and,
      List.nil_append] at h
    exact body_append_inj ha hb h

/-- The tensor axes can be read off their list. -/
theorem intercalate_render_injective {axes others : List AxisSharding}
    (haxes : .sharded [] ∉ axes) (hothers : .sharded [] ∉ others)
    (h : ", ".intercalate (axes.map render) = ", ".intercalate (others.map render)) :
    axes = others := by
  have hnone : Closes [] := fun c hc => nomatch hc
  exact (entryTexts.list_append_inj (fun _ ha hempty => haxes (hempty ▸ ha))
    (fun _ hb hempty => hothers (hempty ▸ hb)) hnone hnone (by rw [h])).1

end AxisSharding

end TensorProgram
