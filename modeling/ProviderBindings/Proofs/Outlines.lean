import ProviderBindings.Proofs.Emitting

/-!
# Outlines

A text of lines and nested blocks is an outline. It can be printed by recursion on its nodes, with the depth of nesting
handed down (`Outline.printed`), and it can be written to an emitter, which counts the blocks that are open
(`Outline.write`). Both come to the same text (`Outline.run_writeFile`): whatever is written for a node, the emitter is
as deep afterwards as it was before, and has taken the lines that are printed for the node at that depth.
-/

namespace ProviderBindings

/-- A node of an outline. -/
inductive Outline where
  | line (text : String)
  | block (head : String) (inside : List Outline) (closing : String)

namespace Outline

/-! ## Printing -/

/-- A text with the spaces in front of it that its depth asks for; the empty text stays empty. -/
def indented (indentation : Int) (depth : Nat) (text : String) : String :=
  if text = "" then "" else String.ofList (List.replicate (indentation * depth).toNat ' ') ++ text

mutual

/-- The lines of a node at a depth. -/
def lines (indentation : Int) (depth : Nat) : Outline → List String
  | line text => [indented indentation depth text]
  | block head inside closing =>
    indented indentation depth (head ++ " \x7b") ::
      (linesOfAll indentation (depth + 1) inside ++ [indented indentation depth closing])

/-- The lines of nodes at a depth. -/
def linesOfAll (indentation : Int) (depth : Nat) : List Outline → List String
  | [] => []
  | node :: rest => lines indentation depth node ++ linesOfAll indentation depth rest

end

/-- The text of nodes that stand in no block: their lines, joined by line feeds, with one more at the end. -/
def printed (indentation : Int) (nodes : List Outline) : String :=
  "\n".intercalate (linesOfAll indentation 0 nodes) ++ "\n"

/-! ## Writing -/

mutual

/-- Write a node. -/
def write : Outline → Emission Unit
  | line text => Emission.step (·.line text)
  | block head inside closing => do
    Emission.step (·.openBlock head)
    writeAll inside
    Emission.step (·.closeBlock closing)

/-- Write nodes one after another. -/
def writeAll : List Outline → Emission Unit
  | [] => pure ()
  | node :: rest => do
    write node
    writeAll rest

end

/-- Write nodes to a file of their own. -/
def writeFile (path : String) (nodes : List Outline) : Emission Unit := do
  Emission.step (·.openFile path)
  writeAll nodes
  Emission.step (·.closeFile path)

/-! ## Both come to the same -/

/-- The emitter indents a line as it is printed. -/
theorem indented_eq (indentation : Int) (depth : Nat) (text : String) :
    Emitter.indented indentation depth text = indented indentation depth text := by
  unfold Emitter.indented indented
  by_cases h : text = ""
  · subst h
    rfl
  · rw [if_neg (by simpa using h), if_neg h]

mutual

/-- A node that is written to an open file adds its lines, and leaves the depth as it was. -/
theorem run_write (node : Outline) {e : Emitter} {path : String} (h : e.current = some path) :
    node.write.run e = (.ok (), { e with lines := e.lines ++ lines e.indentation e.depth node }) := by
  cases node with
  | line text =>
    rw [write, Emission.run_line h, indented_eq, lines]
  | block head inside closing =>
    -- inside the block the emitter is one deeper, and so it is again when the block ends
    let opened : Emitter := { e with
      lines := e.lines ++ [Emitter.indented e.indentation e.depth (head ++ " \x7b")], depth := e.depth + 1 }
    have hinside := run_writeAll inside (e := opened) h
    have hclosing := Emission.run_closeBlock
      (e := { opened with lines := opened.lines ++ linesOfAll e.indentation (e.depth + 1) inside }) h rfl closing
    rw [write, run_bind_of_ok (Emission.run_openBlock h head), run_bind_of_ok hinside, hclosing]
    simp only [opened, indented_eq, lines, List.append_assoc, List.cons_append, List.nil_append]

/-- Nodes that are written to an open file add their lines, and leave the depth as it was. -/
theorem run_writeAll (nodes : List Outline) {e : Emitter} {path : String} (h : e.current = some path) :
    (writeAll nodes).run e = (.ok (), { e with lines := e.lines ++ linesOfAll e.indentation e.depth nodes }) := by
  cases nodes with
  | nil => simp [writeAll, linesOfAll]
  | cons node rest =>
    have hrest := run_writeAll rest
      (e := { e with lines := e.lines ++ lines e.indentation e.depth node }) h
    rw [writeAll, run_bind_of_ok (run_write node h), hrest]
    simp only [linesOfAll, List.append_assoc]

end

/-- **An outline is written as it is printed.** On an emitter on which no file is open, whatever its indentation, a file
is opened, the outline written to it, and the file closed, without a failure. What is then collected under the path is
the printed outline, and under every other path what was collected before. -/
theorem run_writeFile {e : Emitter} (h : e.current = none) (path : String) (nodes : List Outline) :
    ∃ e', (writeFile path nodes).run e = (.ok (), e') ∧
      e' = { e with files := Assoc.set path (printed e.indentation nodes) e.files, lines := [], depth := 0 } ∧
      Assoc.get? path e'.files = some (printed e.indentation nodes) ∧
      ∀ other, other ≠ path → Assoc.get? other e'.files = Assoc.get? other e.files := by
  have hwritten := run_writeAll nodes (e := { e with current := some path, lines := [], depth := 0 }) rfl
  have hclosed := Emission.run_closeFile
    (e := { e with current := some path, lines := [] ++ linesOfAll e.indentation 0 nodes, depth := 0 }) rfl rfl
  refine ⟨_, ?_, rfl, ?_, fun other hother => ?_⟩
  · rw [writeFile, run_bind_of_ok (Emission.run_openFile h path), run_bind_of_ok hwritten, hclosed]
    rw [h]
    rfl
  · rw [Assoc.get?_set, if_pos BEq.rfl]
  · rw [Assoc.get?_set, if_neg (by simpa using hother.symm)]

/-- A block with an empty line and a block that ends with an empty text in it, as it is written to an emitter that holds
another file. -/
theorem run_writeFile_nested :
    let nodes := [block "a" [line "b", line "", block "c" [] ""] "\x7d;", line "d"]
    ∃ e', (writeFile "x" nodes).run { files := [("y", "kept\n")] } = (.ok (), e') ∧
      e'.files = [("y", "kept\n"), ("x", "a \x7b\n  b\n\n  c \x7b\n\n\x7d;\nd\n")] := by
  intro nodes
  obtain ⟨e', hrun, rfl, -⟩ := run_writeFile (e := { files := [("y", "kept\n")] }) rfl "x" nodes
  exact ⟨_, hrun, by decide +kernel⟩

end Outline

end ProviderBindings
