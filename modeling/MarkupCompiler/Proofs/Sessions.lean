import Mathlib.Logic.Equiv.Defs
import MarkupCompiler.Compile.Compiler

/-!
# Files compiled in turn

A compiler keeps the templates of the file that it compiled last: those of a whole file, those that
were there when an error came up, or none if the file did not parse. A file that cannot hold markup
leaves them as they are. No later file sees any of this, since a file that may hold markup starts
with no templates. So one step depends on the options alone (`Compiler.compile_fst`), which no step
changes (`Compiler.compile_snd_options`), and files compiled in turn have the outcomes that they
have by themselves, in whatever order they come (`Compiler.outcomes_of_fresh_compilers`).
-/

namespace MarkupCompiler.Compiler

/-- The outcome of a file does not depend on the templates that a compiler has kept. -/
theorem compile_fst (compiler : Compiler) (source fileId : String) :
    (compiler.compile source fileId).1 =
      MarkupCompiler.compile source fileId compiler.options := by
  unfold MarkupCompiler.compile Compiler.compile TemplateTable.reset
  dsimp only
  by_cases hmay : containsMarkup source.toList = true
  · rw [if_pos hmay, if_pos hmay]
  · rw [if_neg hmay, if_neg hmay]

-- The templates are kept after the call: here they are those of the file.
example : (Compiler.compile ⟨{}, {}⟩ "<p/>" "a.jsx").2.templates.texts = ["<p></p>"] := by
  decide +kernel

/-- No file changes the options of a compiler, however it ends. -/
theorem compile_snd_options (compiler : Compiler) (source fileId : String) :
    (compiler.compile source fileId).2.options = compiler.options := by
  unfold Compiler.compile
  dsimp only
  split
  · split
    · rfl
    · split <;> rfl
  · rfl

/-- Files compiled in turn have the outcomes that they have by themselves. -/
theorem compileAll_eq_map (compiler : Compiler) (files : List (String × String)) :
    compiler.compileAll files =
      files.map fun file => MarkupCompiler.compile file.1 file.2 compiler.options := by
  -- The compiler changes from file to file, but its options do not.
  induction files generalizing compiler with
  | nil => rfl
  | cons file files ih =>
    obtain ⟨source, fileId⟩ := file
    have hrest := ih (compiler.compile source fileId).2
    rw [compile_snd_options] at hrest
    have hstep : compiler.compileAll ((source, fileId) :: files) =
        (compiler.compile source fileId).1 ::
          (compiler.compile source fileId).2.compileAll files := rfl
    rw [hstep, List.map_cons, compile_fst, hrest]

/-- Whatever a compiler was used for before, each of the files that are compiled in turn has the
outcome that it has with a new compiler, and in another order the files have the same outcomes in
that order. -/
theorem outcomes_of_fresh_compilers (compiler : Compiler) (files : List (String × String)) :
    (∀ i : Nat, (compiler.compileAll files)[i]? =
      files[i]?.map fun file => (Compiler.compile ⟨compiler.options, {}⟩ file.1 file.2).1) ∧
      ∀ (order : Equiv.Perm (Fin files.length)) (i : Fin files.length),
        (compiler.compileAll (List.ofFn fun k => files.get (order k)))[i.val]? =
          (compiler.compileAll files)[(order i).val]? := by
  refine ⟨fun i => ?_, fun order i => ?_⟩
  · rw [compileAll_eq_map, List.getElem?_map]
    rfl
  · have hpermuted : (List.ofFn fun k => files.get (order k))[i.val]? =
        some (files.get (order i)) := by
      rw [List.getElem?_ofFn, dif_pos i.isLt]
    have hplace : files[(order i).val]? = some (files.get (order i)) :=
      List.getElem?_eq_getElem (order i).isLt
    rw [compileAll_eq_map, compileAll_eq_map, List.getElem?_map, List.getElem?_map, hpermuted,
      hplace]

end MarkupCompiler.Compiler
