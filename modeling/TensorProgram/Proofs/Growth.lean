import Mathlib.Data.List.Infix
import TensorProgram.Proofs.Effects

/-!
# Programs only grow

`Program.Extends` relates a program to what may become of it: functions keep their places,
their inputs, values and statements only get longer, and a function that has returned keeps
all of them.  Steps extend a program, `Step.extends`.
-/

namespace TensorProgram

/-- What may become of a function. -/
structure Function.Extends (f g : Function) : Prop where
  role : g.role = f.role
  inputs : f.inputs <+: g.inputs
  values : f.values <+: g.values
  statements : f.statements <+: g.statements
  frozen : f.isReturned = true → g.inputs = f.inputs ∧ g.values = f.values ∧
    g.statements = f.statements ∧ g.returned? = f.returned?

namespace Function.Extends

variable {f g h : Function}

theorem refl (f : Function) : f.Extends f :=
  ⟨rfl, List.prefix_rfl, List.prefix_rfl, List.prefix_rfl, fun _ => ⟨rfl, rfl, rfl, rfl⟩⟩

theorem trans (hfg : f.Extends g) (hgh : g.Extends h) : f.Extends h where
  role := hgh.role.trans hfg.role
  inputs := hfg.inputs.trans hgh.inputs
  values := hfg.values.trans hgh.values
  statements := hfg.statements.trans hgh.statements
  frozen hf := by
    obtain ⟨hinputs, hvalues, hstatements, hreturned⟩ := hfg.frozen hf
    have hg : g.isReturned = true := by rwa [isReturned, hreturned]
    obtain ⟨hinputs', hvalues', hstatements', hreturned'⟩ := hgh.frozen hg
    exact ⟨hinputs'.trans hinputs, hvalues'.trans hvalues, hstatements'.trans hstatements,
      hreturned'.trans hreturned⟩

end Function.Extends

namespace Program

/-- What may become of a program. -/
def Extends (p q : Program) : Prop :=
  ∀ id f, p.function? id = some f → ∃ g, q.function? id = some g ∧ f.Extends g

theorem Extends.refl (p : Program) : p.Extends p :=
  fun _ f hf => ⟨f, hf, .refl f⟩

theorem Extends.trans {p q r : Program} (hpq : p.Extends q) (hqr : q.Extends r) :
    p.Extends r := by
  intro id f hf
  obtain ⟨g, hg, hfg⟩ := hpq id f hf
  obtain ⟨h, hh, hgh⟩ := hqr id g hg
  exact ⟨h, hh, hfg.trans hgh⟩

/-- A function stays in its tree. -/
theorem Extends.root_eq {p q : Program} (h : p.Extends q) {id : FunctionId} {f : Function}
    (hf : p.function? id = some f) : q.root id = p.root id := by
  obtain ⟨g, hg, hfg⟩ := h id f hf
  apply root_eq_of_role
  rw [hf, hg, Option.map_some, Option.map_some, hfg.role]

/-- Changes of one function at a time. -/
theorem extends_of_map {p q : Program} {change : FunctionId → Function → Function}
    (hq : ∀ j, q.function? j = (p.function? j).map (change j))
    (hchange : ∀ j f, p.function? j = some f → f.Extends (change j f)) : p.Extends q := by
  intro j f hf
  exact ⟨change j f, by rw [hq, hf, Option.map_some], hchange j f hf⟩

/-- A step only adds to functions, and only to those that have not returned. -/
theorem Step.extends {p q : Program} (h : Step p q) : p.Extends q := by
  cases h.effect with
  | unchanged hq => exact fun id f hf => ⟨f, by rw [hq, hf], .refl f⟩
  | function hrole hq =>
    intro id f hf
    refine ⟨f, ?_, .refl f⟩
    rw [hq, if_neg (Nat.ne_of_lt (lt_of_function? hf)), hf]
  | @input id f data hf hopen hname hq =>
    refine extends_of_map hq fun j g hg => ?_
    by_cases h : id = j
    · subst h
      obtain rfl : f = g := by simpa [hf] using hg
      constructor <;> simp [Function.isReturned, hopen]
    · constructor <;> simp [h]
  | @statement id f s shapes hf hopen hs returned? hq =>
    refine extends_of_map hq fun j g hg => ?_
    by_cases h : id = j
    · subst h
      obtain rfl : f = g := by simpa [hf] using hg
      constructor <;> simp [Function.isReturned, hopen]
    · constructor <;> simp [h]

theorem Steps.extends {p q : Program} (h : Steps p q) : p.Extends q := by
  induction h with
  | refl => exact .refl p
  | tail _ hstep ih => exact ih.trans hstep.extends

end Program

end TensorProgram
