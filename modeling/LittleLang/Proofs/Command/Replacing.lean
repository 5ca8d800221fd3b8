import LittleLang.Proofs.Command.Folder

/-!
# Results that replace files

The result for an input may replace a later input, or the result for an earlier one. An input that
neither happens to has its own result in the folder after the run. Inputs that fail replace nothing.
-/

namespace LittleLang.Command

variable {o : Options} {folder path : String} {paths : List String} {w w' : World}
  {out : List UInt8} {failures : Nat}

/-! ## Results -/

/-- When its turn is over, the result for an input stands at its target. -/
theorem read_passed (into : o.output = some folder)
    (result : (Input.mk path (w.disk.read path)).result? = some out)
    (passes : compileFiles (m := StateM World) o [path] w = (.ok failures, w')) :
    w'.disk.read (outputPath folder path) = .ok out := by
  obtain ⟨w₁, -, none, -⟩ | ⟨out', w₁, done, some, written⟩ | ⟨-, -, w₁, message, aborted, -, -⟩ :=
    compileFile_cases into path w
  · rw [result] at none
    cases none
  · rw [result] at some
    cases some
    rw [compileFiles_of_done done] at passes
    cases passes
    exact Disk.read_written written
  · rw [compileFiles_of_aborted aborted] at passes
    cases passes

/-- A result stays until another input with the same target compiles. -/
theorem read_target_compileFiles (into : o.output = some folder)
    (last : ∀ input result, CompiledAs o paths w input result →
      outputPath folder input ≠ outputPath folder path)
    (stands : w.disk.read (outputPath folder path) = .ok out) :
    (compileFiles (m := StateM World) o paths w).2.disk.read (outputPath folder path) = .ok out := by
  obtain ⟨place, led, -⟩ := Disk.read_eq_ok_iff.mp stands
  refine read_compileFiles into (fun input result compiled collide => ?_) stands
  -- Two targets at one place are one target.
  exact last input result compiled (outputPath_eq_of_place? (collide.trans led) led)

/-! ## Whole runs -/

/-- After a run the folder has what the input `p` is compiled to, from the bytes that it had at the
start of the run. For this the folder can be made, and no write fails up to that for `p` (`passes`).
Of the inputs that compile when it is their turn, none before `p` has its target at `p` itself
(`kept`), and none behind `p` has the target of `p` (`last`). The disk has no links, so that a file is
known by its place. -/
theorem keeps_unreplaced_outputs {arguments : List String} {made passed : World} {p : String}
    {before after : List String} {source : List UInt8}
    (accepted : Options.read arguments = .ok o) (into : o.output = some folder)
    (makes : makeOutput (m := StateM World) o w = (.ok (), made))
    (listed : o.files = before ++ p :: after)
    (passes : compileFiles (m := StateM World) o (before ++ [p]) made = (.ok failures, passed))
    (read : w.disk.read p = .ok source) (compiled : Decl.compile source = .ok out)
    (kept : ∀ q result, CompiledAs o before made q result →
      made.disk.place? (outputPath folder q) ≠ made.disk.place? p)
    (last : ∀ q result, CompiledAs o after passed q result →
      outputPath folder q ≠ outputPath folder p) :
    (World.run arguments w).2.disk.read (outputPath folder p) = .ok out := by
  obtain ⟨early, late, reached, ranBefore, ranHere⟩ := exists_of_compileFiles_append passes
  have readThen : reached.disk.read p = .ok source := by
    have grows := Disk.grows_makeFolders folder w.disk
    rw [← disk_of_made into makes] at grows
    have unreplaced := read_compileFiles into kept (grows.read read)
    rwa [ranBefore] at unreplaced
  have stands : passed.disk.read (outputPath folder p) = .ok out :=
    read_passed into (Input.result?_eq_some_iff.mpr ⟨source, readThen, compiled⟩) ranHere
  have split : o.files = (before ++ [p]) ++ after := by simp [listed]
  rw [run_disk_of_made accepted makes, split, compileFiles_append, passes]
  exact read_target_compileFiles into last stands

/-- Inputs that fail are no matter, before `b/x.decl` or behind it, though one has the same target and
another a folder for its target. The result for `a/x.decl` is replaced. -/
theorem keeps_unreplaced_outputs_past_failures :
    let arguments := ["-o", "out", "bad.decl", "a/x.decl", "b/x.decl", "c/x.decl"]
    let o : Options := ⟨false, false, some "out", ["bad.decl", "a/x.decl", "b/x.decl", "c/x.decl"]⟩
    let w : World := ⟨[], ⟨[(["bad.decl"], .file (ascii "let")), (["out"], .folder),
      (["out", "bad.py"], .folder), (["a"], .folder), (["a", "x.decl"], .file (ascii "let v = 1")),
      (["b"], .folder), (["b", "x.decl"], .file (ascii "let v = 2")),
      (["c"], .folder), (["c", "x.decl"], .file (ascii "let"))], []⟩, [], ""⟩
    let made := (makeOutput (m := StateM World) o w).2
    let passes := compileFiles (m := StateM World) o ["bad.decl", "a/x.decl", "b/x.decl"] made
    Options.read arguments = .ok o ∧
      (makeOutput (m := StateM World) o w).1 = .ok () ∧ passes.1 = .ok 1 ∧
      w.disk.read "b/x.decl" = .ok (ascii "let v = 2") ∧
      Decl.compile (ascii "let v = 2") = .ok (ascii "v = 2\n") ∧
      (∀ q result, CompiledAs o ["bad.decl", "a/x.decl"] made q result →
        made.disk.place? (outputPath "out" q) ≠ made.disk.place? "b/x.decl") ∧
      (∀ q result, CompiledAs o ["c/x.decl"] passes.2 q result →
        outputPath "out" q ≠ outputPath "out" "b/x.decl") ∧
      outputPath "out" "c/x.decl" = outputPath "out" "b/x.decl" ∧
      (World.run arguments w).1 = 1 ∧
      (World.run arguments w).2.disk.read (outputPath "out" "b/x.decl") =
        .ok (ascii "v = 2\n") := by
  intro arguments o w made passes
  have accepted : Options.read arguments = .ok o := by decide +kernel
  have done : (makeOutput (m := StateM World) o w).1 = .ok () := by decide +kernel
  have ran : passes.1 = .ok 1 := by decide +kernel
  have read : w.disk.read "b/x.decl" = .ok (ascii "let v = 2") := by decide +kernel
  have compiled : Decl.compile (ascii "let v = 2") = .ok (ascii "v = 2\n") := by decide +kernel
  have apart : ∀ q ∈ ["bad.decl", "a/x.decl"],
      made.disk.place? (outputPath "out" q) ≠ made.disk.place? "b/x.decl" := by decide +kernel
  have fails : (Input.mk "c/x.decl" (passes.2.disk.read "c/x.decl")).result? = none := by
    decide +kernel
  have kept : ∀ q result, CompiledAs o ["bad.decl", "a/x.decl"] made q result →
      made.disk.place? (outputPath "out" q) ≠ made.disk.place? "b/x.decl" :=
    fun q result h => apart q h.mem
  have last : ∀ q result, CompiledAs o ["c/x.decl"] passes.2 q result →
      outputPath "out" q ≠ outputPath "out" "b/x.decl" := by
    intro q result h
    rw [compiledAs_singleton_iff] at h
    obtain ⟨rfl, compiles⟩ := h
    rw [fails] at compiles
    cases compiles
  have listed : o.files = ["bad.decl", "a/x.decl"] ++ "b/x.decl" :: ["c/x.decl"] := rfl
  exact ⟨accepted, done, ran, read, compiled, kept, last, by decide +kernel, by decide +kernel,
    keeps_unreplaced_outputs accepted rfl (Prod.ext done rfl) listed (Prod.ext ran rfl) read compiled
      kept last⟩

/-- Two inputs of one name have one target, though they are in different folders: the result for the
first is lost. Where results go to the folder of the inputs, one may be written to an input whose turn
has not come: the result for that input is lost. -/
theorem output_is_overwritten :
    (let w : World := ⟨[], ⟨[(["a"], .folder), (["a", "x.decl"], .file (ascii "let v = 1")),
      (["b"], .folder), (["b", "x.decl"], .file (ascii "let v = 2"))], []⟩, [], ""⟩
    let ended := World.run ["-o", "out", "a/x.decl", "b/x.decl"] w
    Options.read ["-o", "out", "a/x.decl", "b/x.decl"] =
        .ok ⟨false, false, some "out", ["a/x.decl", "b/x.decl"]⟩ ∧
      w.disk.read "a/x.decl" = .ok (ascii "let v = 1") ∧
      w.disk.read "b/x.decl" = .ok (ascii "let v = 2") ∧
      Decl.compile (ascii "let v = 1") = .ok (ascii "v = 1\n") ∧
      Decl.compile (ascii "let v = 2") = .ok (ascii "v = 2\n") ∧
      ended.1 = 0 ∧
      ended.2.disk.read (outputPath "out" "a/x.decl") ≠ .ok (ascii "v = 1\n")) ∧
    let w : World := ⟨[], ⟨[(["a.decl"], .file (ascii "let y = 1")),
      (["a.py"], .file (ascii "let y = 2"))], []⟩, [], ""⟩
    let ended := World.run ["-o", ".", "a.decl", "a.py"] w
    Options.read ["-o", ".", "a.decl", "a.py"] =
        .ok ⟨false, false, some ".", ["a.decl", "a.py"]⟩ ∧
      w.disk.read "a.decl" = .ok (ascii "let y = 1") ∧
      w.disk.read "a.py" = .ok (ascii "let y = 2") ∧
      Decl.compile (ascii "let y = 1") = .ok (ascii "y = 1\n") ∧
      Decl.compile (ascii "let y = 2") = .ok (ascii "y = 2\n") ∧
      ended.2.log = "a.decl: wrote ./a.py\n" ++
        "a.py: Parse Error: the syntax is invalid\n  at line 1 column 1: Word(\"y\")\n" ++
        "decl2py: 1 input(s) failed\n" ∧
      ended.2.disk.read (outputPath "." "a.py") ≠ .ok (ascii "y = 2\n") := by
  decide +kernel

end LittleLang.Command
