import Mathlib.Data.List.Basic
import TensorProgram.Attribute
import TensorProgram.NearestConversions

/-!
# Quoted texts read back

What is quoted can be read back in front of any text, `Quoted.scan?_quote_append`.  Reading ends
with the closing quote and has no use for the text after it, `Quoted.scan?_append`, so that no
quote before the closing one can be taken for it, `Quoted.scan?_start_eq_none`.

Quotes and backslashes are protected in one go.  Protecting all backslashes and then all quotes
comes to the same, `Quoted.escapeChars_eq_replaceEach`: the second replacement adds backslashes but
meets only the quotes that were there from the start.
-/

namespace TensorProgram

namespace Quoted

variable {c : Char} {text body tail : List Char}

/-! ## Reading -/

theorem scanBody?_protected (c : Char) (rest : List Char) :
    scanBody? ('\\' :: c :: rest) =
      (scanBody? rest).map fun (body, tail) => (c :: body, tail) := by
  rw [scanBody?]

theorem scanBody?_plain (h : ¬(c = '\\' ∨ c = '"')) (rest : List Char) :
    scanBody? (c :: rest) = (scanBody? rest).map fun (body, tail) => (c :: body, tail) := by
  rw [not_or] at h
  rw [scanBody?.eq_def]
  split <;> simp_all

theorem scanBody?_escapeChars (cs rest : List Char) :
    scanBody? (escapeChars cs ++ '"' :: rest) = some (cs, rest) := by
  induction cs with
  | nil => rfl
  | cons c cs ih =>
    rw [escapeChars]
    split_ifs with h
    · rw [List.cons_append, List.cons_append, scanBody?_protected, ih]
      rfl
    · rw [List.cons_append, scanBody?_plain h, ih]
      rfl

theorem scan?_quote_append (text : String) (rest : List Char) :
    scan? ((quote text).toList ++ rest) = some (text.toList, rest) := by
  have hquote : (quote text).toList ++ rest =
      '"' :: (escapeChars text.toList ++ '"' :: rest) := by
    simp [quote, escape]
  rw [hquote, scan?, scanBody?_escapeChars]

/-! ## Where reading ends -/

theorem scanBody?_append (h : scanBody? text = some (body, tail)) (rest : List Char) :
    scanBody? (text ++ rest) = some (body, tail ++ rest) := by
  fun_induction scanBody? text generalizing body tail with
  | case1 => cases h
  | case2 following =>
    cases h
    rfl
  | case3 => cases h
  | case4 c following ih =>
    obtain ⟨⟨body, tail⟩, hrest, heq⟩ := Option.map_eq_some_iff.mp h
    cases heq
    rw [List.cons_append, List.cons_append, scanBody?_protected, ih hrest]
    rfl
  | case5 c following hquote hlast hprotected ih =>
    obtain ⟨⟨body, tail⟩, hrest, heq⟩ := Option.map_eq_some_iff.mp h
    cases heq
    have hplain : ¬(c = '\\' ∨ c = '"') := by
      rintro (rfl | rfl)
      · cases following with
        | nil => exact hlast rfl rfl
        | cons d ds => exact hprotected d ds rfl rfl
      · exact hquote rfl
    rw [List.cons_append, scanBody?_plain hplain, ih hrest]
    rfl

/-- What follows the closing quote is left alone. -/
theorem scan?_append (h : scan? text = some (body, tail)) (rest : List Char) :
    scan? (text ++ rest) = some (body, tail ++ rest) := by
  unfold scan? at h
  split at h
  · exact scanBody?_append h rest
  · cases h

/-- A quoted text does not end early. -/
theorem scan?_start_eq_none {text : String} {start : List Char}
    (h : start <+: (quote text).toList) (hne : start ≠ (quote text).toList) :
    scan? start = none := by
  obtain ⟨missing, hmissing⟩ := h
  cases hscan : scan? start with
  | none => rfl
  | some found =>
    obtain ⟨body, tail⟩ := found
    have hwhole := scan?_append hscan missing
    rw [hmissing, ← List.append_nil (quote text).toList, scan?_quote_append] at hwhole
    obtain ⟨_, htail⟩ := Prod.mk.inj (Option.some.inj hwhole)
    -- the quote that was read is the closing one, after which nothing is missing
    obtain ⟨_, rfl⟩ := List.append_eq_nil_iff.mp htail.symm
    exact absurd ((List.append_nil start).symm.trans hmissing) hne

/-! ## One character after the other -/

/-- The text with each occurrence of a character replaced. -/
def replaceEach (c : Char) (replacement text : List Char) : List Char :=
  text.flatMap fun d => if d = c then replacement else [d]

/-- Protecting the backslashes and then the quotes protects each of them once. -/
theorem escapeChars_eq_replaceEach (cs : List Char) :
    escapeChars cs = replaceEach '"' ['\\', '"'] (replaceEach '\\' ['\\', '\\'] cs) := by
  induction cs with
  | nil => rfl
  | cons c cs ih =>
    rw [escapeChars, ih]
    simp only [replaceEach, List.flatMap_cons, List.flatMap_append]
    by_cases hbackslash : c = '\\'
    · subst hbackslash
      rfl
    · by_cases hquote : c = '"'
      · subst hquote
        rfl
      · simp [hbackslash, hquote]

/-- In the other order the backslash in front of a quote is protected from it, and the text ends
early. -/
example : scan? ('"' :: replaceEach '\\' ['\\', '\\'] (replaceEach '"' ['\\', '"'] ['"']) ++ ['"']) =
    some (['\\'], ['"']) := by
  decide

end Quoted

namespace Attribute

/-- A text is quoted with its backslashes and then its quotes protected.  It is read back in front
of any other text, and no part of it that lacks the closing quote can be read. -/
theorem string_reads_back [NarrowConversions] (text following : String) :
    (string text).render.toList =
        '"' :: Quoted.replaceEach '"' ['\\', '"']
          (Quoted.replaceEach '\\' ['\\', '\\'] text.toList) ++ ['"'] ∧
      Quoted.scan? ((string text).render ++ following).toList =
        some (text.toList, following.toList) ∧
      ∀ start : List Char, start <+: (string text).render.toList →
        start ≠ (string text).render.toList → Quoted.scan? start = none := by
  have hrender : (string text).render = Quoted.quote text := rfl
  rw [hrender]
  refine ⟨?_, ?_, fun start hstart hne => Quoted.scan?_start_eq_none hstart hne⟩
  · rw [← Quoted.escapeChars_eq_replaceEach]
    simp [Quoted.quote, Quoted.escape]
  · rw [String.toList_append]
    exact Quoted.scan?_quote_append text following.toList

/-- A text that ends with a backslash, in front of a quote.  Without its closing quote it cannot be
read, though it has a quote as its last character but two. -/
theorem string_reads_back_backslashes :
    let text := "\\\"\\"
    (string text).render = "\"\\\\\\\"\\\\\"" ∧
      Quoted.scan? ((string text).render ++ "\"").toList = some (text.toList, ['"']) ∧
      Quoted.scan? "\"\\\\\\\"\\\\".toList = none := by
  intro text
  have hrender : (string text).render = "\"\\\\\\\"\\\\\"" := by decide
  obtain ⟨_, hread, hstart⟩ := string_reads_back text "\""
  exact ⟨hrender, hread, hstart _ ⟨['"'], by rw [hrender]; decide⟩ (by rw [hrender]; decide)⟩

end Attribute

end TensorProgram
