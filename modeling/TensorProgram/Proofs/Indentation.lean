import Mathlib.Logic.Function.Iterate
import TensorProgram.NearestConversions
import TensorProgram.Proofs.OneLine
import TensorProgram.Proofs.Walk

/-!
# Statements at different depths

The lines of a statement are the same at all depths, each with its own depth added to that of the
statement: `statementLinesUpTo_succ`.  The lines of a text, though, are what stands between line
breaks, so the text of a deeper statement is the indented text only if no line has a line break of
its own.  Attributes that stand on one line are enough for that, `statement_indented`; then the
body of a closure is the text of its statements, shifted by the depth.
-/

namespace TensorProgram

/-! ## Indented text -/

/-- The characters with the indentation in front of every line, where a line may start at the
first character. -/
def indentedChars : (starting : Bool) → List Char → List Char
  | _, [] => []
  | true, c :: cs => Line.indentation.toList ++ c :: indentedChars (c == '\n') cs
  | false, c :: cs => c :: indentedChars (c == '\n') cs

/-- The text with the indentation in front of every line. -/
def indented (text : String) : String :=
  .ofList (indentedChars true text.toList)

section IndentedChars

variable {cs rest : List Char}

/-- Nothing is put in the middle of a line. -/
theorem indentedChars_false (h : '\n' ∉ cs) :
    indentedChars false (cs ++ '\n' :: rest) = cs ++ '\n' :: indentedChars true rest := by
  induction cs with
  | nil => rfl
  | cons c cs ih =>
    obtain ⟨hc, hcs⟩ := List.ne_and_not_mem_of_not_mem_cons h
    rw [List.cons_append, indentedChars, beq_false_of_ne hc.symm, ih hcs, List.cons_append]

theorem indentedChars_true (h : '\n' ∉ cs) :
    indentedChars true (cs ++ '\n' :: rest) =
      Line.indentation.toList ++ (cs ++ '\n' :: indentedChars true rest) := by
  rw [← indentedChars_false h]
  -- there is a first character, if only the line break
  cases cs <;> rfl

end IndentedChars

namespace Line

/-- The line one level deeper. -/
def deeper (l : Line) : Line :=
  { l with depth := l.depth + 1 }

def textOf (lines : List Line) : String :=
  String.join (lines.map render)

/-- The blanks in front of a line. -/
def margin (depth : Nat) : List Char :=
  (List.replicate depth indentation).flatMap String.toList

theorem toList_render (l : Line) :
    l.render.toList = margin l.depth ++ l.text.toList ++ ['\n'] := by
  rw [render, String.toList_append, String.toList_append, String.toList_join, margin]
  rfl

theorem margin_succ (depth : Nat) : margin (depth + 1) = indentation.toList ++ margin depth := by
  rw [margin, List.replicate_succ, List.flatMap_cons, margin]

theorem newline_notMem_margin (depth : Nat) : '\n' ∉ margin depth := by
  intro h
  obtain ⟨blanks, hblanks, h⟩ := List.mem_flatMap.mp h
  rw [List.eq_of_mem_replicate hblanks] at h
  exact absurd h (by decide)

theorem textOf_append (lines others : List Line) :
    textOf (lines ++ others) = textOf lines ++ textOf others := by
  rw [textOf, List.map_append, String.join_append, textOf, textOf]

/-- Lines that are lines of the text are put one level deeper when the text is indented. -/
theorem indented_textOf {lines : List Line} (h : ∀ l ∈ lines, OneLine l.text) :
    indented (textOf lines) = textOf (lines.map deeper) := by
  have hjoin (lines : List Line) : (textOf lines).toList = lines.flatMap (·.render.toList) := by
    rw [textOf, String.toList_join, List.flatMap_map]
  apply String.toList_inj.mp
  rw [indented, String.toList_ofList, hjoin, hjoin]
  induction lines with
  | nil => rfl
  | cons l lines ih =>
    obtain ⟨hl, hlines⟩ := List.forall_mem_cons.mp h
    have hline : '\n' ∉ margin l.depth ++ l.text.toList :=
      List.not_mem_append (newline_notMem_margin l.depth) hl
    rw [List.flatMap_cons, toList_render, List.append_assoc, List.singleton_append,
      indentedChars_true hline, ih hlines, List.map_cons, List.flatMap_cons, toList_render,
      deeper, margin_succ]
    simp

end Line

namespace Program

open Line (deeper textOf)

variable {p : Program} {s : Statement} {depth : Nat}

/-! ## Lines one level deeper -/

theorem listLines_cons_cons (depth : Nat) (text next : String) (texts : List String) :
    listLines depth (text :: next :: texts) =
      ⟨depth, text ++ ","⟩ :: listLines depth (next :: texts) := rfl

theorem listLines_succ (depth : Nat) (texts : List String) :
    listLines (depth + 1) texts = (listLines depth texts).map deeper := by
  induction texts with
  | nil => rfl
  | cons text texts ih =>
    cases texts with
    | nil => rfl
    | cons next texts => rw [listLines_cons_cons, ih, listLines_cons_cons, List.map_cons, deeper]

theorem attributeLines_succ (depth : Nat) (first : String) (attributes : List String)
    (rest : String) :
    attributeLines (depth + 1) first attributes rest =
      (attributeLines depth first attributes rest).map deeper := by
  unfold attributeLines
  split_ifs
  · rfl
  · rfl
  · simp only [listLines_succ, List.cons_append, List.map_cons, List.map_append, List.map_nil]
    rfl

theorem blockLines_succ {nested nested' : Statement → List Line}
    (h : ∀ t, nested' t = (nested t).map deeper) (depth : Nat) (use : ClosureUse) :
    p.blockLines nested' (depth + 1) use = (p.blockLines nested depth use).map deeper := by
  unfold blockLines
  cases p.function? use.function with
  | none => rfl
  | some c =>
    have hbody : c.statements.flatMap nested' = (c.statements.flatMap nested).map deeper := by
      rw [List.map_flatMap]
      exact List.flatMap_congr fun t _ => h t
    simp only [hbody, List.map_cons]
    rfl

theorem statementLinesWith_succ [NarrowConversions] {nested nested' : Statement → List Line}
    (h : ∀ t, nested' t = (nested t).map deeper) (depth : Nat) (s : Statement) :
    p.statementLinesWith nested' (depth + 1) s =
      (p.statementLinesWith nested depth s).map deeper := by
  unfold statementLinesWith
  cases s.closure? with
  | none => exact attributeLines_succ depth _ _ _
  | some use =>
    simp only [blockLines_succ h, attributeLines_succ, List.cons_append, List.map_cons,
      List.map_append]
    rfl

/-- However deep closures are nested, a statement has the same lines one level deeper. -/
theorem statementLinesUpTo_succ [NarrowConversions] (nesting depth : Nat) (s : Statement) :
    p.statementLinesUpTo nesting (depth + 1) s =
      (p.statementLinesUpTo nesting depth s).map deeper := by
  induction nesting generalizing depth s with
  | zero =>
    have hnone : ∀ _ : Statement, ([] : List Line) = [].map deeper := fun _ => rfl
    exact statementLinesWith_succ hnone depth s
  | succ nesting ih => exact statementLinesWith_succ (fun t => ih (depth + 1) t) depth s

/-! ## Statements in statements -/

/-- The statements of a statement: itself, and those in its closure, at any depth. -/
inductive Encloses (p : Program) : Statement → Statement → Prop
  | self (s : Statement) : Encloses p s s
  | nested {s t u : Statement} {use : ClosureUse} (huse : s.closure? = some use)
      (ht : t ∈ p.body use.function) (hu : Encloses p t u) : Encloses p s u

/-- What a statement of a function encloses are statements of functions. -/
theorem Encloses.exists_function {id : FunctionId} {t : Statement} (hs : s ∈ p.body id)
    (h : p.Encloses s t) : ∃ f ∈ p.functions, t ∈ f.statements := by
  induction h generalizing id with
  | self s =>
    obtain ⟨f, hf, hs⟩ := exists_function?_of_mem_body hs
    exact ⟨f, List.mem_of_getElem? hf, hs⟩
  | nested huse ht _ ih => exact ih ht

end Program

/-- No name and no value of an attribute has a line break. -/
def Statement.AttributesOnLine [NarrowConversions] (s : Statement) : Prop :=
  ∀ a ∈ s.attributes, OneLine a.1 ∧ OneLine a.2.render

instance [NarrowConversions] (s : Statement) : Decidable s.AttributesOnLine :=
  inferInstanceAs (Decidable (∀ a ∈ s.attributes, OneLine a.1 ∧ OneLine a.2.render))

namespace Program

open Line (deeper textOf)

variable {p : Program} {s : Statement} {depth : Nat}

/-! ## Lines of the text -/

theorem oneLine_listLines {texts : List String} (h : ∀ text ∈ texts, OneLine text) :
    ∀ l ∈ listLines depth texts, OneLine l.text := by
  induction texts with
  | nil => exact fun _ hl => nomatch hl
  | cons text texts ih =>
    obtain ⟨htext, htexts⟩ := List.forall_mem_cons.mp h
    cases texts with
    | nil => simpa [listLines] using htext
    | cons next texts =>
      rw [listLines_cons_cons]
      exact List.forall_mem_cons.mpr ⟨htext.append (by decide), ih htexts⟩

theorem oneLine_attributeLines {first rest : String} {attributes : List String}
    (hfirst : OneLine first) (hattributes : ∀ text ∈ attributes, OneLine text)
    (hrest : OneLine rest) : ∀ l ∈ attributeLines depth first attributes rest, OneLine l.text := by
  unfold attributeLines
  split_ifs
  · exact List.forall_mem_singleton.mpr (hfirst.append hrest)
  · have hbraces : OneLine (braced (" " ++ commaSeparated attributes ++ " ")) :=
      .append (.append (by decide)
        (.append (.append (by decide) (.commaSeparated hattributes)) (by decide))) (by decide)
    exact List.forall_mem_singleton.mpr (((hfirst.append (by decide)).append hbraces).append hrest)
  · rw [List.cons_append, List.forall_mem_cons, List.forall_mem_append, List.forall_mem_singleton]
    exact ⟨hfirst.append (by decide), oneLine_listLines hattributes, .append (by decide) hrest⟩

theorem oneLine_blockLines (hp : p.Unbroken) {nested : Statement → List Line} {use : ClosureUse}
    (hlabel : OneLine use.label)
    (h : ∀ t ∈ p.body use.function, ∀ l ∈ nested t, OneLine l.text) :
    ∀ l ∈ p.blockLines nested depth use, OneLine l.text := by
  unfold blockLines
  cases hc : p.function? use.function with
  | none => exact fun _ hl => nomatch hl
  | some c =>
    have hbody : p.body use.function = c.statements := by
      rw [body, hc, Option.map_some, Option.getD_some]
    refine List.forall_mem_cons.mpr ⟨oneLine_blockLabel hp hlabel c.inputs, fun l hl => ?_⟩
    obtain ⟨t, ht, hl⟩ := List.mem_flatMap.mp hl
    exact h t (hbody ▸ ht) l hl

section Text

variable [NarrowConversions]

/-- The lines of a statement are lines of its text if those of the statements in it are. -/
theorem oneLine_statementLinesWith (hp : p.Unbroken) {id : FunctionId} (hs : s ∈ p.body id)
    (hattributes : s.AttributesOnLine) {nested : Statement → List Line}
    (h : ∀ use, s.closure? = some use →
      ∀ t ∈ p.body use.function, ∀ l ∈ nested t, OneLine l.text) :
    ∀ l ∈ p.statementLinesWith nested depth s, OneLine l.text := by
  have htexts : ∀ text ∈ s.attributes.map attributeText, OneLine text :=
    List.forall_mem_map.mpr fun a ha =>
      .append (.append (hattributes a ha).1 (by decide)) (hattributes a ha).2
  have hhead := oneLine_statementHead hp s
  have htype := p.oneLine_statementType s
  unfold statementLinesWith
  cases huse : s.closure? with
  | none => exact oneLine_attributeLines hhead htexts htype
  | some use =>
    obtain ⟨f, hf, hsf⟩ := exists_function?_of_mem_body hs
    have hlabel : OneLine use.label := (hp id f hf).labels s hsf use huse
    simp only [List.cons_append, List.forall_mem_cons, List.forall_mem_append]
    exact ⟨hhead.append (by decide), oneLine_blockLines hp hlabel (h use huse),
      oneLine_attributeLines (by decide) htexts htype⟩

theorem oneLine_statementLinesUpTo (hp : p.Unbroken) (nesting depth : Nat) {id : FunctionId}
    (hs : s ∈ p.body id) (hattributes : ∀ t, p.Encloses s t → t.AttributesOnLine) :
    ∀ l ∈ p.statementLinesUpTo nesting depth s, OneLine l.text := by
  have hself : s.AttributesOnLine := hattributes s (.self s)
  induction nesting generalizing depth id s with
  | zero => exact oneLine_statementLinesWith hp hs hself fun _ _ _ _ _ hl => nomatch hl
  | succ nesting ih =>
    refine oneLine_statementLinesWith hp hs hself fun use huse t ht => ?_
    have hinner : ∀ u, p.Encloses t u → u.AttributesOnLine :=
      fun u hu => hattributes u (.nested huse ht hu)
    exact ih (depth + 1) ht hinner (hinner t (.self t))

/-! ## Text at a depth -/

theorem statementLines_succ (p : Program) (depth : Nat) (s : Statement) :
    p.statementLines (depth + 1) s = (p.statementLines depth s).map deeper :=
  statementLinesUpTo_succ p.functions.length depth s

theorem oneLine_statementLines (hp : p.Unbroken) (depth : Nat) {id : FunctionId}
    (hs : s ∈ p.body id) (hattributes : ∀ t, p.Encloses s t → t.AttributesOnLine) :
    ∀ l ∈ p.statementLines depth s, OneLine l.text :=
  oneLine_statementLinesUpTo hp p.functions.length depth hs hattributes

/-- The text of a statement at a depth. -/
def statementText (p : Program) (depth : Nat) (s : Statement) : String :=
  textOf (p.statementLines depth s)

/-- The text of the statements of a function at a depth. -/
def bodyText (p : Program) (depth : Nat) (id : FunctionId) : String :=
  textOf ((p.body id).flatMap (p.statementLines depth))

/-- The body of a closure at a depth is the body without a depth, indented as often. -/
theorem bodyText_eq_iterate (hp : p.Unbroken) {id : FunctionId}
    (hattributes : ∀ s ∈ p.body id, ∀ t, p.Encloses s t → t.AttributesOnLine) (depth : Nat) :
    p.bodyText depth id = indented^[depth] (p.bodyText 0 id) := by
  induction depth with
  | zero => rfl
  | succ depth ih =>
    have hlines : ∀ l ∈ (p.body id).flatMap (p.statementLines depth), OneLine l.text := by
      intro l hl
      obtain ⟨s, hs, hl⟩ := List.mem_flatMap.mp hl
      exact oneLine_statementLines hp depth hs (hattributes s hs) l hl
    have hdeeper : (p.body id).flatMap (p.statementLines (depth + 1)) =
        ((p.body id).flatMap (p.statementLines depth)).map deeper := by
      rw [List.map_flatMap]
      exact List.flatMap_congr fun s _ => p.statementLines_succ depth s
    rw [Function.iterate_succ_apply', ← ih, bodyText, bodyText, hdeeper,
      Line.indented_textOf hlines]

/-- The text of a statement with a closure: what stands in front of the body of the closure, the
body one level deeper, and what comes after it. -/
theorem statementLines_of_some (hp : p.Forest) {id : FunctionId} (hs : s ∈ p.body id)
    {use : ClosureUse} (huse : s.closure? = some use) (depth : Nat) :
    p.statementLines depth s = p.visitLines (.enter depth s use) ++
      (p.body use.function).flatMap (p.statementLines (depth + 1)) ++
        p.visitLines (.leave depth s) := by
  have hunfold : p.statementLines depth s =
      p.statementLinesWith (p.statementLines (depth + 1)) depth s := by
    rw [← hp.statementLinesUpTo_eq hs depth (Nat.le_succ _)]
    rfl
  rw [hunfold]
  simp only [statementLinesWith, huse, blockLines_eq p (p.statementLines (depth + 1)), visitLines,
    List.cons_append, List.append_assoc]

/-- A statement whose attributes stand on one line, as do those of all statements in it, has the
same text at all depths up to indentation.  In the text of a statement with a closure the body of
the closure stands one level deeper than the statement, and is the text of its statements with the
indentation put in front of every line as often. -/
theorem statement_indented (name : String) (calls : List Call) {id : FunctionId} {s : Statement}
    (hs : s ∈ (Program.ofCalls name calls).body id)
    (hattributes : ∀ t, (Program.ofCalls name calls).Encloses s t → t.AttributesOnLine) :
    let p := Program.ofCalls name calls
    (∀ depth, p.statementText (depth + 1) s = indented (p.statementText depth s)) ∧
      ∀ use, s.closure? = some use →
        (∀ depth, p.bodyText depth use.function = indented^[depth] (p.bodyText 0 use.function)) ∧
        ∀ depth, p.statementText depth s =
          textOf (p.visitLines (.enter depth s use)) ++
            indented^[depth + 1] (p.bodyText 0 use.function) ++
              textOf (p.visitLines (.leave depth s)) := by
  intro p
  have hforest : p.Forest := ofCalls_forest name calls
  have hunbroken : p.Unbroken := ofCalls_unbroken name calls
  refine ⟨fun depth => ?_, fun use huse => ?_⟩
  · have hlines := oneLine_statementLines hunbroken depth hs hattributes
    rw [statementText, statementText, Line.indented_textOf hlines, statementLines_succ]
  · have hinner : ∀ t ∈ p.body use.function, ∀ u, p.Encloses t u → u.AttributesOnLine :=
      fun t ht u hu => hattributes u (.nested huse ht hu)
    have hbody := bodyText_eq_iterate hunbroken hinner
    refine ⟨hbody, fun depth => ?_⟩
    rw [statementText, statementLines_of_some hforest hs huse, Line.textOf_append,
      Line.textOf_append, ← hbody, bodyText]

end Text

/-- A maximum is taken along an axis by a closure that takes the maximum of two numbers in a
closure of its own. -/
def nestedReduction : Program :=
  .ofCalls "example"
    [.function "main" [.of (.real .f32) [2], .scalar (.real .f32)],
      .closure 0,
      .input 1 (.scalar (.real .f32)),
      .input 1 (.scalar (.real .f32)),
      .closure 1,
      .input 2 (.scalar (.real .f32)),
      .input 2 (.scalar (.real .f32)),
      .append 2 (.binary (.binary .maximum) ⟨2, 0⟩ ⟨2, 1⟩),
      .returnValues 2 [⟨2, 2⟩],
      .append 1 (.reduce [⟨1, 0⟩] [⟨1, 1⟩] [] 2),
      .returnValues 1 [⟨1, 2⟩],
      .append 0 (.reduce [⟨0, 0⟩] [⟨0, 1⟩] [0] 1),
      .returnValues 0 [⟨0, 2⟩]]

/-- The reduction along the axis stands at depth two in the text of the program, and could stand
anywhere else. -/
theorem statement_indented_nestedReduction :
    ∃ s ∈ nestedReduction.body 0, s.closure? = some ⟨"body", 1⟩ ∧
      (∀ t, nestedReduction.Encloses s t → t.AttributesOnLine) ∧
      nestedReduction.statementText 3 s = indented (nestedReduction.statementText 2 s) ∧
      nestedReduction.bodyText 3 1 = indented^[3] (nestedReduction.bodyText 0 1) := by
  obtain ⟨s, hs, huse⟩ : ∃ s ∈ nestedReduction.body 0, s.closure? = some ⟨"body", 1⟩ := by
    decide +kernel
  have hall : ∀ f ∈ nestedReduction.functions, ∀ t ∈ f.statements, t.AttributesOnLine := by
    decide +kernel
  have hattributes : ∀ t, nestedReduction.Encloses s t → t.AttributesOnLine := by
    intro t ht
    obtain ⟨f, hf, ht⟩ := ht.exists_function hs
    exact hall f hf t ht
  obtain ⟨hdeeper, hbody⟩ := statement_indented "example" _ hs hattributes
  exact ⟨s, hs, huse, hattributes, hdeeper 2, (hbody _ huse).1 3⟩

end Program

end TensorProgram
