import LittleLang.Proofs.Command.Inputs
import LittleLang.Proofs.Files.Targets

/-!
# Results in a folder

With a folder for the results, what an input is read from is what the inputs before it have left.
Inputs that compile leave their results, and nothing else on the disk changes.
-/

namespace LittleLang.Command

variable {o : Options} {folder path input : String} {paths rest : List String} {w w' : World}
  {place : Place} {d' : Disk} {out content : List UInt8}

/-! ## One input -/

theorem toFolder_of_write (written : w.disk.write (outputPath folder path) out = .ok d') :
    toFolder (m := StateM World) folder path out w =
      (.done, (Host.report (m := StateM World) s!"{path}: wrote {outputPath folder path}\n"
        { w with disk := d' }).2) := by
  have wrote : Host.writeFile (m := StateM World) (outputPath folder path) out w =
      (.ok (), { w with disk := d' }) := by
    simp only [Host.writeFile, written]
  simp only [toFolder, bind_apply, wrote]
  rfl

theorem toFolder_of_error {fault : FileFault}
    (unwritten : w.disk.write (outputPath folder path) out = .error fault) :
    toFolder (m := StateM World) folder path out w =
      (.aborted (fatalAt "writing" (outputPath folder path) fault), w) := by
  have wrote : Host.writeFile (m := StateM World) (outputPath folder path) out w =
      (.error fault, w) := by
    simp only [Host.writeFile, unwritten]
  simp only [toFolder, bind_apply, wrote]
  rfl

/-- What the work on an input can come to: there is no result and the disk stays as it is, or the
result is written, or it cannot be written and the run ends. -/
theorem compileFile_cases (into : o.output = some folder) (path : String) (w : World) :
    (∃ w', compileFile (m := StateM World) o path w = (.failed, w') ∧
      (Input.mk path (w.disk.read path)).result? = none ∧ w'.disk = w.disk) ∨
    (∃ out w', compileFile (m := StateM World) o path w = (.done, w') ∧
      (Input.mk path (w.disk.read path)).result? = some out ∧
        w.disk.write (outputPath folder path) out = .ok w'.disk) ∨
    ∃ out fault w' message, compileFile (m := StateM World) o path w = (.aborted message, w') ∧
      w.disk.write (outputPath folder path) out = .error fault ∧ w'.disk = w.disk := by
  cases found : w.disk.read path with
  | error fault =>
      have read : Host.readFile (m := StateM World) path w = (.error fault, w) := by
        rw [← found]
        rfl
      exact .inl ⟨_, compileFile_of_error read, rfl, rfl⟩
  | ok source =>
      have read : Host.readFile (m := StateM World) path w = (.ok source, w) := by
        rw [← found]
        rfl
      rw [compileFile_into into read, Input.result?_source o path source]
      rcases translated : translate o path source with ⟨listing, message | out⟩
      · exact .inl ⟨_, compileInput_of_error translated, rfl, rfl⟩
      · rw [compileInput_of_ok translated]
        cases written : w.disk.write (outputPath folder path) out with
        | ok d' => exact .inr (.inl ⟨out, _, toFolder_of_write written, rfl, written⟩)
        | error fault => exact .inr (.inr ⟨out, fault, _, _, toFolder_of_error written, written, rfl⟩)

/-! ## Inputs that compile -/

/-- In a run over the paths from `w`, the turn of `input` comes, and what it then holds is compiled to
`out`. -/
def CompiledAs (o : Options) (paths : List String) (w : World) (input : String)
    (out : List UInt8) : Prop :=
  ∃ before after failures w' source, paths = before ++ input :: after ∧
    compileFiles (m := StateM World) o before w = (.ok failures, w') ∧
      w'.disk.read input = .ok source ∧ Decl.compile source = .ok out

theorem compiledAs_head (result : (Input.mk path (w.disk.read path)).result? = some out) :
    CompiledAs o (path :: rest) w path out := by
  obtain ⟨source, read, compiled⟩ := Input.result?_eq_some_iff.mp result
  exact ⟨[], rest, 0, w, source, rfl, rfl, read, compiled⟩

theorem CompiledAs.mem (h : CompiledAs o paths w input out) : input ∈ paths := by
  obtain ⟨before, after, -, -, -, rfl, -, -, -⟩ := h
  exact List.mem_append_right before List.mem_cons_self

theorem CompiledAs.behind_done
    (done : compileFile (m := StateM World) o path w = (.done, w'))
    (h : CompiledAs o rest w' input out) : CompiledAs o (path :: rest) w input out := by
  obtain ⟨before, after, failures, w₁, source, rfl, ran, read, compiled⟩ := h
  refine ⟨path :: before, after, failures, w₁, source, rfl, ?_, read, compiled⟩
  rw [compileFiles_of_done done, ran]

theorem CompiledAs.behind_failed
    (failed : compileFile (m := StateM World) o path w = (.failed, w'))
    (h : CompiledAs o rest w' input out) : CompiledAs o (path :: rest) w input out := by
  obtain ⟨before, after, failures, w₁, source, rfl, ran, read, compiled⟩ := h
  refine ⟨path :: before, after, failures + 1, w₁, source, rfl, ?_, read, compiled⟩
  rw [compileFiles_of_failed failed, ran]
  rfl

theorem compiledAs_singleton_iff : CompiledAs o [path] w input out ↔
    input = path ∧ (Input.mk path (w.disk.read path)).result? = some out := by
  constructor
  · rintro ⟨before, after, failures, w', source, listed, ran, read, compiled⟩
    obtain ⟨rfl, here⟩ | ⟨rfl, none⟩ := List.singleton_eq_append_iff.mp listed
    · cases here
      cases ran
      exact ⟨rfl, Input.result?_eq_some_iff.mpr ⟨source, read, compiled⟩⟩
    · cases none
  · rintro ⟨rfl, result⟩
    exact compiledAs_head result

/-! ## Inputs one after the other -/

theorem sameFolders_compileFiles (into : o.output = some folder) (paths : List String) (w : World) :
    w.disk.SameFolders (compileFiles (m := StateM World) o paths w).2.disk := by
  induction paths generalizing w with
  | nil => exact .refl w.disk
  | cons path rest ih =>
      obtain ⟨w', failed, -, same⟩ | ⟨out, w', done, -, written⟩ |
        ⟨out, fault, w', message, aborted, -, same⟩ := compileFile_cases into path w
      · rw [compileFiles_of_failed failed, ← same]
        exact ih w'
      · rw [compileFiles_of_done done]
        exact (Disk.sameFolders_of_write written).trans (ih w')
      · rw [compileFiles_of_aborted aborted, same]
        exact .refl w.disk

/-- A place that is not as it was holds the result for an input whose target leads there. -/
theorem compileFiles_changed (into : o.output = some folder)
    (changed : Disk.entry? (compileFiles (m := StateM World) o paths w).2.disk place ≠
      w.disk.entry? place) :
    ∃ input out, CompiledAs o paths w input out ∧
      w.disk.place? (outputPath folder input) = some place ∧
        Disk.entry? (compileFiles (m := StateM World) o paths w).2.disk place = some (.file out) := by
  induction paths generalizing w with
  | nil => exact absurd rfl changed
  | cons path rest ih =>
      obtain ⟨w', failed, -, same⟩ | ⟨out, w', done, result, written⟩ |
        ⟨out, fault, w', message, aborted, -, same⟩ := compileFile_cases into path w
      · rw [compileFiles_of_failed failed] at changed ⊢
        rw [← same] at changed ⊢
        obtain ⟨input, out, compiled, led, stands⟩ := ih changed
        exact ⟨input, out, compiled.behind_failed failed, led, stands⟩
      · rw [compileFiles_of_done done] at changed ⊢
        by_cases later : Disk.entry? (compileFiles (m := StateM World) o rest w').2.disk place =
            w'.disk.entry? place
        -- No later input has changed the place, so this one has.
        · rw [later] at changed ⊢
          obtain ⟨target, led, free, -, written⟩ := Disk.write_eq_ok_iff.mp written
          rw [written] at changed ⊢
          by_cases here : place = target
          · subst here
            exact ⟨path, out, compiledAs_head result, led,
              Disk.entry_put_self _ _ (Disk.ne_root_of_free free)⟩
          · exact absurd (Disk.entry_put_of_ne _ _ here) changed
        · obtain ⟨input, out, compiled, led, stands⟩ := ih later
          rw [(Disk.sameFolders_of_write written).place?_eq] at led
          exact ⟨input, out, compiled.behind_done done, led, stands⟩
      · rw [compileFiles_of_aborted aborted, same] at changed
        exact absurd rfl changed

/-- A file is read as before if no input that compiles has its result there. -/
theorem read_compileFiles {other : String} (into : o.output = some folder)
    (apart : ∀ input out, CompiledAs o paths w input out →
      w.disk.place? (outputPath folder input) ≠ w.disk.place? other)
    (before : w.disk.read other = .ok content) :
    (compileFiles (m := StateM World) o paths w).2.disk.read other = .ok content := by
  have same := sameFolders_compileFiles into paths w
  obtain ⟨place, led, there, slash⟩ := Disk.read_eq_ok_iff.mp before
  have kept : Disk.entry? (compileFiles (m := StateM World) o paths w).2.disk place =
      w.disk.entry? place := by
    by_contra changed
    obtain ⟨input, out, compiled, led', -⟩ := compileFiles_changed into changed
    exact apart input out compiled (led'.trans led.symm)
  exact Disk.read_eq_ok_iff.mpr ⟨place, (same.place?_eq other).trans led, kept.trans there, slash⟩

/-! ## Whole runs -/

theorem finish_disk (result : Except String Nat) (w : World) :
    (finish (m := StateM World) result w).2.disk = w.disk := by
  rcases result with message | _ | failures <;> rfl

theorem makeOutput_into (into : o.output = some folder) (w : World) :
    makeOutput (m := StateM World) o w =
      ((w.disk.makeFolders folder).1.mapError (fatalAt "creating" folder),
        { w with disk := (w.disk.makeFolders folder).2 }) := by
  simp only [makeOutput, into]
  rfl

theorem disk_of_made (into : o.output = some folder)
    (makes : makeOutput (m := StateM World) o w = (.ok (), w')) :
    w'.disk = (w.disk.makeFolders folder).2 := by
  rw [makeOutput_into into] at makes
  injection makes with done same
  rw [← same]

theorem compileInput_toOutput_disk (o : Options) (name : String) (source : List UInt8) (w : World) :
    (compileInput (m := StateM World) o name source toOutput w).2.disk = w.disk := by
  rcases translated : translate o name source with ⟨listing, message | out⟩
  · rw [compileInput_of_error translated]
    rfl
  · rw [compileInput_of_ok translated]
    rfl

/-- Results that do not come from files do not go to files. -/
theorem compileAll_disk (o : Options) (w : World) :
    (compileAll (m := StateM World) o w).2.disk =
      (compileFiles (m := StateM World) o o.files w).2.disk := by
  by_cases empty : o.files = []
  · rw [compileAll_input empty rfl, empty]
    exact compileInput_toOutput_disk o _ _ w
  · rw [compileAll_files empty]

/-- The disk after a run that can make its folder. -/
theorem run_disk_of_made {arguments : List String} (accepted : Options.read arguments = .ok o)
    (makes : makeOutput (m := StateM World) o w = (.ok (), w')) :
    (World.run arguments w).2.disk =
      (compileFiles (m := StateM World) o o.files w').2.disk := by
  rw [World.run, run_of_made accepted makes, finish_disk, compileAll_disk]

end LittleLang.Command
