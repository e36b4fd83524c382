import Mathlib.Data.List.Basic
import TensorProgram.Proofs.Naming

/-!
# Texts that can be told apart in a list

Lists are written with a comma between their entries, and the entries may be lists themselves.  An
entry is enclosed when every comma in it stands in brackets: where it ends can be seen from the
text after it, `append_inj_of_balanced`, so that the entries of a list can be read off its text,
`intercalate_injective`.  A list in brackets is enclosed again, `Enclosed.bracketed`.
-/

namespace TensorProgram

/-! ## Brackets -/

def isOpening (c : Char) : Bool :=
  c == '[' || c == '('

def isClosing (c : Char) : Bool :=
  c == ']' || c == ')'

/-- The number of open brackets after a character.  There is none after a comma outside of brackets
and after a bracket that closes nothing. -/
def depthAfter? (depth : Nat) (c : Char) : Option Nat :=
  if isOpening c then some (depth + 1)
  else if isClosing c then (if depth = 0 then none else some (depth - 1))
  else if c = ',' ∧ depth = 0 then none
  else some depth

/-- The text closes the brackets that are open, and nothing else. -/
def balanced : (depth : Nat) → List Char → Bool
  | depth, [] => depth == 0
  | depth, c :: cs => (depthAfter? depth c).any (balanced · cs)

/-- Text that may follow an entry. -/
def Stops (text : List Char) : Prop :=
  ∀ c ∈ text.head?, c = ',' ∨ isClosing c = true

section Balanced

variable {depth : Nat} {x y r s : List Char}

theorem depthAfter?_of_stops {c : Char} (h : Stops (c :: r)) : depthAfter? 0 c = none := by
  rcases h c rfl with rfl | hc
  · decide
  · have hopening : isOpening c = false := by
      simp only [isClosing, Bool.or_eq_true, beq_iff_eq] at hc
      rcases hc with rfl | rfl <;> decide
    simp [depthAfter?, hopening, hc]

/-- Open brackets around a text make no difference to what it closes. -/
theorem depthAfter?_add {c : Char} {after : Nat} (outer : Nat)
    (h : depthAfter? depth c = some after) :
    depthAfter? (depth + outer) c = some (after + outer) := by
  unfold depthAfter? at *
  split_ifs at h ⊢ <;> simp_all <;> omega

theorem balanced_append (outer : Nat) (h : balanced depth x = true) :
    balanced (depth + outer) (x ++ y) = balanced outer y := by
  induction x generalizing depth with
  | nil =>
    obtain rfl : depth = 0 := by simpa [balanced] using h
    simp
  | cons c x ih =>
    simp only [balanced] at h
    cases hafter : depthAfter? depth c with
    | none => simp [hafter] at h
    | some after =>
      simp only [hafter, Option.any_some] at h
      rw [List.cons_append, balanced, depthAfter?_add outer hafter, Option.any_some, ih h]

/-- Where a balanced text ends can be seen from the text after it. -/
theorem append_inj_of_balanced (hx : balanced depth x = true) (hy : balanced depth y = true)
    (hr : Stops r) (hs : Stops s) (h : x ++ r = y ++ s) : x = y ∧ r = s := by
  induction x generalizing depth y with
  | nil =>
    cases y with
    | nil => exact ⟨rfl, h⟩
    | cons c y =>
      -- all brackets are closed, and what stops the one text would go on in the other
      obtain rfl : depth = 0 := by simpa [balanced] using hx
      rw [List.nil_append] at h
      subst h
      simp [balanced, depthAfter?_of_stops hr] at hy
  | cons c x ih =>
    cases y with
    | nil =>
      obtain rfl : depth = 0 := by simpa [balanced] using hy
      rw [List.nil_append] at h
      subst h
      simp [balanced, depthAfter?_of_stops hs] at hx
    | cons c' y =>
      obtain ⟨rfl, htail⟩ := List.cons.inj h
      simp only [balanced] at hx hy
      cases hafter : depthAfter? depth c with
      | none => simp [hafter] at hx
      | some after =>
        simp only [hafter, Option.any_some] at hx hy
        obtain ⟨rfl, hrest⟩ := ih hx hy htail
        exact ⟨rfl, hrest⟩

end Balanced

/-! ## Enclosed texts -/

/-- Every bracket in the text is closed in it, and all commas stand in brackets. -/
def Enclosed (text : String) : Prop :=
  balanced 0 text.toList = true

/-- A character that stands neither for a bracket nor for a comma. -/
def isPlain (c : Char) : Bool :=
  !isOpening c && !isClosing c && c != ','

theorem balanced_plain {depth : Nat} {c : Char} (cs : List Char) (hc : isPlain c = true) :
    balanced depth (c :: cs) = balanced depth cs := by
  simp only [isPlain, Bool.and_eq_true, Bool.not_eq_true', bne_iff_ne, ne_eq] at hc
  obtain ⟨⟨hopening, hclosing⟩, hcomma⟩ := hc
  simp [balanced, depthAfter?, hopening, hclosing, hcomma]

/-- In brackets commas may stand anywhere. -/
theorem balanced_comma {depth : Nat} (cs : List Char) :
    balanced (depth + 1) (',' :: cs) = balanced (depth + 1) cs := by
  simp [balanced, depthAfter?, isOpening, isClosing]

namespace Enclosed

variable {x y : String}

theorem of_plain {text : String} (h : text.toList.all isPlain = true) : Enclosed text := by
  unfold Enclosed
  generalize text.toList = cs at h
  induction cs with
  | nil => rfl
  | cons c cs ih =>
    obtain ⟨hc, hcs⟩ := Bool.and_eq_true_iff.mp h
    rw [balanced_plain cs hc]
    exact ih hcs

theorem append (hx : Enclosed x) (hy : Enclosed y) : Enclosed (x ++ y) := by
  unfold Enclosed at *
  rw [String.toList_append, ← Nat.zero_add 0, balanced_append 0 hx, hy]

/-- Texts with commas between them are balanced in brackets. -/
theorem balanced_intercalate {xs : List String} (hxs : ∀ x ∈ xs, Enclosed x) (rest : List Char) :
    balanced 1 ((", ".intercalate xs).toList ++ rest) = balanced 1 rest := by
  induction xs with
  | nil => rfl
  | cons x xs ih =>
    have hx := hxs x List.mem_cons_self
    have hrest := ih fun y hy => hxs y (List.mem_cons_of_mem _ hy)
    cases xs with
    | nil => simpa using balanced_append 1 hx
    | cons y ys =>
      rw [String.intercalate_cons_cons, String.toList_append, String.toList_append,
        List.append_assoc, List.append_assoc, ← Nat.zero_add 1, balanced_append 1 hx, Nat.zero_add]
      rw [show ", ".toList = [',', ' '] from rfl, List.cons_append, List.cons_append,
        List.nil_append, balanced_comma, balanced_plain _ (by decide), hrest]

/-- A list in brackets. -/
theorem bracketed {xs : List String} (hxs : ∀ x ∈ xs, Enclosed x) :
    Enclosed ("[" ++ ", ".intercalate xs ++ "]") := by
  have hlist : ("[" ++ ", ".intercalate xs ++ "]").toList =
      '[' :: ((", ".intercalate xs).toList ++ [']']) := by
    simp
  unfold Enclosed
  rw [hlist]
  show balanced 1 _ = true
  rw [balanced_intercalate hxs]
  rfl

/-- A pair in parentheses. -/
theorem parenthesized (hx : Enclosed x) (hy : Enclosed y) :
    Enclosed ("(" ++ x ++ ", " ++ y ++ ")") := by
  have hxs : ∀ z ∈ [x, y], Enclosed z := by simp [hx, hy]
  unfold Enclosed
  have hlist : ("(" ++ x ++ ", " ++ y ++ ")").toList =
      '(' :: ((", ".intercalate [x, y]).toList ++ [')']) := by
    simp
  rw [hlist]
  show balanced 1 _ = true
  rw [balanced_intercalate hxs]
  rfl

end Enclosed

/-! ## Reading a list -/

/-- The entries of a list after the first one. -/
theorem intercalate_cons (x : String) (xs : List String) :
    (", ".intercalate (x :: xs)).toList =
      x.toList ++ xs.flatMap fun y => ',' :: ' ' :: y.toList := by
  induction xs generalizing x with
  | nil => simp
  | cons y ys ih =>
    rw [String.intercalate_cons_cons, String.toList_append, String.toList_append, ih]
    simp

theorem stops_flatMap (xs : List String) :
    Stops (xs.flatMap fun y => ',' :: ' ' :: y.toList) := by
  cases xs with
  | nil => exact fun c hc => by simp at hc
  | cons y ys => exact fun c hc => .inl (by simpa using hc.symm)

theorem flatMap_injective {xs ys : List String} (hxs : ∀ x ∈ xs, Enclosed x)
    (hys : ∀ y ∈ ys, Enclosed y)
    (h : (xs.flatMap fun x => ',' :: ' ' :: x.toList) =
      ys.flatMap fun y => ',' :: ' ' :: y.toList) :
    xs = ys := by
  induction xs generalizing ys with
  | nil =>
    cases ys with
    | nil => rfl
    | cons y ys => simp at h
  | cons x xs ih =>
    cases ys with
    | nil => simp at h
    | cons y ys =>
      simp only [List.flatMap_cons, List.cons_append, List.cons.injEq, true_and] at h
      obtain ⟨hxy, hrest⟩ := append_inj_of_balanced (hxs x List.mem_cons_self)
        (hys y List.mem_cons_self) (stops_flatMap xs) (stops_flatMap ys) h
      rw [String.toList_inj.mp hxy, ih (fun x hx => hxs x (List.mem_cons_of_mem _ hx))
        (fun y hy => hys y (List.mem_cons_of_mem _ hy)) hrest]

/-- The entries of a list that has some can be read off its text. -/
theorem intercalate_cons_injective {x y : String} {xs ys : List String}
    (hxs : ∀ z ∈ x :: xs, Enclosed z) (hys : ∀ z ∈ y :: ys, Enclosed z)
    (h : ", ".intercalate (x :: xs) = ", ".intercalate (y :: ys)) : x :: xs = y :: ys := by
  obtain ⟨hx, hxs⟩ := List.forall_mem_cons.mp hxs
  obtain ⟨hy, hys⟩ := List.forall_mem_cons.mp hys
  have hlist := congrArg String.toList h
  rw [intercalate_cons, intercalate_cons] at hlist
  obtain ⟨hhead, htail⟩ :=
    append_inj_of_balanced hx hy (stops_flatMap xs) (stops_flatMap ys) hlist
  rw [String.toList_inj.mp hhead, flatMap_injective hxs hys htail]

theorem intercalate_cons_ne_empty {x : String} (hx : x ≠ "") (xs : List String) :
    ", ".intercalate (x :: xs) ≠ "" := by
  intro h
  have hlist := congrArg String.toList h
  rw [intercalate_cons] at hlist
  exact hx (String.toList_inj.mp (List.append_eq_nil_iff.mp hlist).1)

/-- The entries of a list can be read off its text if none of them is empty. -/
theorem intercalate_injective {xs ys : List String} (hxs : ∀ x ∈ xs, Enclosed x ∧ x ≠ "")
    (hys : ∀ y ∈ ys, Enclosed y ∧ y ≠ "") (h : ", ".intercalate xs = ", ".intercalate ys) :
    xs = ys := by
  cases xs with
  | nil =>
    cases ys with
    | nil => rfl
    | cons y ys => exact absurd h.symm (intercalate_cons_ne_empty (hys y List.mem_cons_self).2 ys)
  | cons x xs =>
    cases ys with
    | nil => exact absurd h (intercalate_cons_ne_empty (hxs x List.mem_cons_self).2 xs)
    | cons y ys =>
      exact intercalate_cons_injective (fun z hz => (hxs z hz).1) (fun z hz => (hys z hz).1) h

/-! ## Text up to a character -/

/-- A text can be read up to a character that does not occur in it. -/
theorem append_inj_of_notMem {α : Type} {a : α} {x y r s : List α} (hx : a ∉ x) (hy : a ∉ y)
    (h : x ++ a :: r = y ++ a :: s) : x = y ∧ r = s := by
  induction x generalizing y with
  | nil =>
    cases y with
    | nil => exact ⟨rfl, (List.cons.inj h).2⟩
    | cons b y => exact absurd ((List.cons.inj h).1 ▸ List.mem_cons_self) hy
  | cons b x ih =>
    cases y with
    | nil => exact absurd ((List.cons.inj h).1 ▸ List.mem_cons_self) hx
    | cons c y =>
      obtain ⟨rfl, htail⟩ := List.cons.inj h
      obtain ⟨rfl, hrest⟩ := ih (fun h => hx (List.mem_cons_of_mem _ h))
        (fun h => hy (List.mem_cons_of_mem _ h)) htail
      exact ⟨rfl, hrest⟩

/-- A list of texts is written in the characters of its entries, commas and blanks. -/
theorem notMem_intercalate {c : Char} {xs : List String} (hcomma : c ≠ ',') (hblank : c ≠ ' ')
    (hxs : ∀ x ∈ xs, c ∉ x.toList) : c ∉ (", ".intercalate xs).toList := by
  cases xs with
  | nil => simp
  | cons x xs =>
    obtain ⟨hx, hxs⟩ := List.forall_mem_cons.mp hxs
    rw [intercalate_cons, List.mem_append, List.mem_flatMap]
    rintro (h | ⟨y, hy, h⟩)
    · exact hx h
    · simp only [List.mem_cons, hcomma, hblank, false_or] at h
      exact hxs y hy h

end TensorProgram
