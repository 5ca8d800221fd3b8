import LittleLang.Command.Run

/-!
# The steps of a run

What a run comes to from a state of its host, one input after another.
-/

namespace LittleLang.Command

variable {σ α β : Type}

theorem bind_apply (a : StateM σ α) (f : α → StateM σ β) (s : σ) :
    (a >>= f) s = f (a s).1 (a s).2 := rfl

variable [Host (StateM σ)] {o : Options} {name path : String} {rest arguments : List String}
  {source out : List UInt8} {listing message : String} {deliver : List UInt8 → StateM σ Verdict}
  {s s' : σ}

theorem compileInput_of_ok (h : translate o name source = (listing, .ok out)) :
    compileInput o name source deliver s =
      deliver out (Host.report (m := StateM σ) listing s).2 := by
  simp only [compileInput, h]
  rfl

theorem compileInput_of_error (h : translate o name source = (listing, .error message)) :
    compileInput o name source deliver s =
      (.failed, (Host.report (m := StateM σ) s!"{name}: {message}\n"
        (Host.report (m := StateM σ) listing s).2).2) := by
  simp only [compileInput, h]
  rfl

theorem compileFile_of_error {fault : FileFault}
    (read : Host.readFile (m := StateM σ) path s = (.error fault, s)) :
    compileFile (m := StateM σ) o path s =
      (.failed, (Host.report (m := StateM σ) s!"{path}: {fault.message}\n" s).2) := by
  simp only [compileFile, bind_apply, read]
  rfl

theorem compileFile_into {folder : String} (into : o.output = some folder)
    (read : Host.readFile (m := StateM σ) path s = (.ok source, s)) :
    compileFile (m := StateM σ) o path s =
      compileInput (m := StateM σ) o path source (toFolder folder path) s := by
  simp only [compileFile, bind_apply, read, into]

theorem compileFiles_of_done (h : compileFile (m := StateM σ) o path s = (.done, s')) :
    compileFiles (m := StateM σ) o (path :: rest) s = compileFiles (m := StateM σ) o rest s' := by
  simp only [compileFiles, bind_apply, h]

theorem compileFiles_of_failed (h : compileFile (m := StateM σ) o path s = (.failed, s')) :
    compileFiles (m := StateM σ) o (path :: rest) s =
      ((· + 1) <$> (compileFiles (m := StateM σ) o rest s').1,
        (compileFiles (m := StateM σ) o rest s').2) := by
  simp only [compileFiles, bind_apply, h]
  rfl

theorem compileFiles_of_aborted (h : compileFile (m := StateM σ) o path s = (.aborted message, s')) :
    compileFiles (m := StateM σ) o (path :: rest) s = (.error message, s') := by
  simp only [compileFiles, bind_apply, h]
  rfl

theorem compileFiles_append (o : Options) (before after : List String) (s : σ) :
    compileFiles (m := StateM σ) o (before ++ after) s =
      match compileFiles (m := StateM σ) o before s with
      | (.error message, t) => (.error message, t)
      | (.ok failures, t) =>
        ((· + failures) <$> (compileFiles (m := StateM σ) o after t).1,
          (compileFiles (m := StateM σ) o after t).2) := by
  induction before generalizing s with
  | nil => exact Prod.ext (id_map (compileFiles (m := StateM σ) o after s).1).symm rfl
  | cons path rest ih =>
      rcases ran : compileFile (m := StateM σ) o path s with ⟨done | failed | message, s'⟩
      · rw [List.cons_append, compileFiles_of_done ran, compileFiles_of_done ran, ih]
      · rw [List.cons_append, compileFiles_of_failed ran, compileFiles_of_failed ran, ih]
        rcases compileFiles (m := StateM σ) o rest s' with ⟨message | failures, t⟩
        · rfl
        · exact Prod.ext (Functor.map_map _ _ _) rfl
      · rw [List.cons_append, compileFiles_of_aborted ran, compileFiles_of_aborted ran]

/-- A run that comes to its end has come to the end of its first part. -/
theorem exists_of_compileFiles_append {before after : List String} {failures : Nat}
    (ran : compileFiles (m := StateM σ) o (before ++ after) s = (.ok failures, s')) :
    ∃ early late t, compileFiles (m := StateM σ) o before s = (.ok early, t) ∧
      compileFiles (m := StateM σ) o after t = (.ok late, s') := by
  rw [compileFiles_append] at ran
  rcases first : compileFiles (m := StateM σ) o before s with ⟨message | early, t⟩
  · rw [first] at ran
    cases ran
  · rw [first] at ran
    rcases second : compileFiles (m := StateM σ) o after t with ⟨message | late, t'⟩
    · simp only [second] at ran
      cases ran
    · simp only [second] at ran
      cases ran
      exact ⟨early, late, t, rfl, second⟩

theorem compileAll_files (h : o.files ≠ []) :
    compileAll (m := StateM σ) o = compileFiles o o.files := by
  simp [compileAll, h]

theorem compileAll_input (h : o.files = [])
    (read : Host.readInput (m := StateM σ) s = (source, s)) :
    compileAll (m := StateM σ) o s =
      (match (compileInput (m := StateM σ) o "<stdin>" source toOutput s).1 with
        | .aborted message => .error message
        | .failed => .ok 1
        | .done => .ok 0, (compileInput (m := StateM σ) o "<stdin>" source toOutput s).2) := by
  simp only [compileAll, h, List.isEmpty_nil, if_true, bind_apply, read]
  cases (compileInput (m := StateM σ) o "<stdin>" source toOutput s).1 <;> rfl

theorem run_of_unmade (accepted : Options.read arguments = .ok o)
    (unmade : makeOutput (m := StateM σ) o s = (.error message, s')) :
    run (m := StateM σ) arguments s = finish (m := StateM σ) (.error message) s' := by
  simp only [run, accepted, bind_apply, unmade]

theorem run_of_made (accepted : Options.read arguments = .ok o)
    (made : makeOutput (m := StateM σ) o s = (.ok (), s')) :
    run (m := StateM σ) arguments s =
      finish (m := StateM σ) (compileAll (m := StateM σ) o s').1
        (compileAll (m := StateM σ) o s').2 := by
  simp only [run, accepted, bind_apply, made]

end LittleLang.Command
