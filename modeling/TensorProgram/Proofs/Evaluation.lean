import TensorProgram.Proofs.Outcomes

/-!
# Evaluation of closures

What the statements of a closure compute when its inputs are integers and booleans.  An `Element`
is a number with its type.  `Statement.result?` is the meaning of a recorded statement: a comparison
is the one that its attributes name, in the order that they name.  `Program.call?` runs the
statements of a closure on elements for its inputs.

A comparison in the default order of an integer type compares the numbers themselves, because
reading the bits of a number in that order gives the number back: `reading?_defaultFor`.
-/

namespace TensorProgram

namespace ElementType

/-- The numbers that a type holds.  The truth values are zero and one. -/
def holds (t : ElementType) (x : Int) : Prop :=
  match t with
  | .boolean => x = 0 ∨ x = 1
  | .signed w => -(1 <<< (w.bits - 1) : Nat) ≤ x ∧ x < (1 <<< (w.bits - 1) : Nat)
  | .unsigned w => 0 ≤ x ∧ x < (1 <<< w.bits : Nat)
  | _ => False

instance (t : ElementType) (x : Int) : Decidable (t.holds x) :=
  match t with
  | .boolean => inferInstanceAs (Decidable (_ ∨ _))
  | .signed _ => inferInstanceAs (Decidable (_ ∧ _))
  | .unsigned _ => inferInstanceAs (Decidable (_ ∧ _))
  | .real _ => .isFalse id
  | .complex _ => .isFalse id

/-- The bound of the numbers with some bits is positive. -/
theorem shiftLeft_pos (n : Nat) : 0 < 1 <<< n := by
  rw [Nat.one_shiftLeft]
  exact Nat.two_pow_pos n

theorem holds_zero {t : ElementType} (ht : t.isInteger = true) : t.holds 0 := by
  cases t with
  | signed w =>
    have := shiftLeft_pos (w.bits - 1)
    simp only [holds]
    omega
  | unsigned w =>
    have := shiftLeft_pos w.bits
    simp only [holds]
    omega
  | _ => cases ht

/-- An integer type that holds a number holds all from zero up to it. -/
theorem holds.of_le {t : ElementType} {x y : Int} (hy : t.holds y)
    (ht : t.isInteger = true) (hx : 0 ≤ x) (hxy : x ≤ y) : t.holds x := by
  cases t with
  | signed w =>
    simp only [holds] at hy ⊢
    omega
  | unsigned w =>
    simp only [holds] at hy ⊢
    omega
  | _ => cases ht

end ElementType

/-- An element of a tensor: a type and a number, which the type should hold. -/
structure Element where
  type : ElementType
  value : Int
  deriving DecidableEq, Repr

def Element.IsHeld (x : Element) : Prop :=
  x.type.holds x.value

instance (x : Element) : Decidable x.IsHeld :=
  inferInstanceAs (Decidable (x.type.holds x.value))

/-! ## Choices that a statement records -/

/-- The choice whose text is recorded under a name. -/
def AttributeTable.choice? (table : AttributeTable) (name : String) (choices : List α)
    (render : α → String) : Option α :=
  choices.find? fun c => table.find? name = some (.verbatim (render c))

namespace ComparisonDirection

def all : List ComparisonDirection :=
  [equal, notEqual, greaterThanOrEqual, greaterThan, lessThanOrEqual, lessThan]

/-- Whether two numbers compare in a direction. -/
def compares (d : ComparisonDirection) (x y : Int) : Bool :=
  match d with
  | equal => x = y
  | notEqual => x ≠ y
  | greaterThanOrEqual => y ≤ x
  | greaterThan => y < x
  | lessThanOrEqual => x ≤ y
  | lessThan => x < y

end ComparisonDirection

namespace ComparisonType

def all : List ComparisonType :=
  [float, totalOrder, signed, unsigned]

/-- The number that the bits of an integer stand for in an order on integers. -/
def reading? (c : ComparisonType) (bits : Nat) (x : Int) : Option Int :=
  match c with
  | signed => some (x.bmod (1 <<< bits))
  | unsigned => some (x % (1 <<< bits : Nat))
  | _ => none

/-- In the order of its type a number is read as itself. -/
theorem reading?_defaultFor {t : ElementType} (ht : t.isInteger = true) {x : Int}
    (hx : t.holds x) : (defaultFor t).reading? t.bits x = some x := by
  cases t with
  | signed w =>
    have hbits : (1 <<< w.bits : Nat) = 2 * (1 <<< (w.bits - 1)) := by
      cases w <;> rfl
    obtain ⟨hlow, hhigh⟩ := hx
    refine congrArg some (Int.bmod_eq_of_le ?_ ?_)
    · rw [ElementType.bits, hbits]
      omega
    · rw [ElementType.bits, hbits]
      omega
  | unsigned w =>
    obtain ⟨hlow, hhigh⟩ := hx
    exact congrArg some (Int.emod_eq_of_lt hlow hhigh)
  | _ => cases ht

end ComparisonType

/-! ## Statements -/

/-- The element of a literal that is a single integer. -/
def Literal.element? (l : Literal) : Option Element :=
  match l.shape.elementType?, l.shape.dimensions, l.elements with
  | some t, [], .signed [x] => some ⟨t, x⟩
  | some t, [], .unsigned [n] => some ⟨t, n⟩
  | _, _, _ => none

/-- What a statement computes from elements. -/
def Statement.result? (s : Statement) (operands : List Element) : Option Element :=
  match s.op, operands with
  | .constant, [] =>
    match s.attributes.find? "value" with
    | some (.tensor literal) => literal.element?
    | _ => none
  | .compare, [lhs, rhs] =>
    if lhs.type = rhs.type then do
      let direction ← s.attributes.choice? "comparison_direction" ComparisonDirection.all
        ComparisonDirection.render
      let order ← s.attributes.choice? "compare_type" ComparisonType.all ComparisonType.render
      let x ← order.reading? lhs.type.bits lhs.value
      let y ← order.reading? rhs.type.bits rhs.value
      return ⟨.boolean, if direction.compares x y then 1 else 0⟩
    else none
  | .select, [predicate, onTrue, onFalse] =>
    if predicate.type = .boolean ∧ onTrue.type = onFalse.type then
      some (if predicate.value = 1 then onTrue else onFalse)
    else none
  | .binary .minimum, [lhs, rhs] =>
    if lhs.type = rhs.type then some ⟨lhs.type, min lhs.value rhs.value⟩ else none
  | _, _ => none

/-- The elements that a list of statements returns, when the elements of some values are known. -/
def evaluate? : (statements : List Statement) → (known : Value → Option Element) →
    Option (List Element)
  | [], _ => none
  | s :: statements, known =>
    if s.op = .regionReturn then s.inputs.mapM known
    else do
      let operands ← s.inputs.mapM known
      let result ← s.result? operands
      evaluate? statements fun v => if s.outputs = [v] then some result else known v

/-- The elements that a closure returns for elements of its inputs. -/
def Program.call? (p : Program) (closure : FunctionId) (arguments : List Element) :
    Option (List Element) := do
  let f ← p.function? closure
  if f.inputs.map p.shape? = arguments.map (fun x => some (.scalar x.type)) ∧
      ∀ x ∈ arguments, x.IsHeld then
    evaluate? f.statements fun v => (f.inputs.zip arguments).lookup v
  else none

end TensorProgram
