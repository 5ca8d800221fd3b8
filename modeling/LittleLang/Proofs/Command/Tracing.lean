import LittleLang.Command.World
import LittleLang.Proofs.Command.Arguments
import LittleLang.Proofs.Command.Translation
import Mathlib.Control.Monad.Basic

/-!
# Listings only observe

A run that lists tokens or trees on the way differs from one that does not in nothing but its log.
-/

namespace LittleLang.Command

variable {α β : Type} {o o' : Options}

/-- The worlds differ in their logs at most. -/
structure World.Alike (w w' : World) : Prop where
  input_eq : w.input = w'.input
  disk_eq : w.disk = w'.disk
  output_eq : w.output = w'.output

/-- Run where the logs alone differ, the two actions give one answer, and the logs alone differ after
them. -/
def Agree (a b : StateM World α) : Prop :=
  ∀ w w', w.Alike w' → (a w).1 = (b w').1 ∧ (a w).2.Alike (b w').2

/-! ## What the command asks of its host -/

theorem agree_pure (x : α) : Agree (pure x) (pure x) := fun _ _ h => ⟨rfl, h⟩

theorem Agree.bind {a b : StateM World α} {f g : α → StateM World β} (h : Agree a b)
    (later : ∀ x, Agree (f x) (g x)) : Agree (a >>= f) (b >>= g) := by
  intro w w' alike
  obtain ⟨same, alike⟩ := h w w' alike
  show (f (a w).1 (a w).2).1 = (g (b w').1 (b w').2).1 ∧
    (f (a w).1 (a w).2).2.Alike (g (b w').1 (b w').2).2
  rw [same]
  exact later _ _ _ alike

theorem agree_report (text text' : String) :
    Agree (Host.report text : StateM World Unit) (Host.report text') :=
  fun _ _ h => ⟨rfl, h.input_eq, h.disk_eq, h.output_eq⟩

theorem agree_emit (bytes : List UInt8) :
    Agree (Host.emit bytes : StateM World Unit) (Host.emit bytes) :=
  fun _ _ h => ⟨rfl, h.input_eq, h.disk_eq, congrArg (· ++ bytes) h.output_eq⟩

theorem agree_readInput : Agree (Host.readInput : StateM World (List UInt8)) Host.readInput :=
  fun _ _ h => ⟨h.input_eq, h⟩

theorem agree_readFile (path : String) :
    Agree (Host.readFile path : StateM World (Except FileFault (List UInt8)))
      (Host.readFile path) :=
  fun _ _ h => ⟨congrArg (·.read path) h.disk_eq, h⟩

theorem agree_makeFolders (path : String) :
    Agree (Host.makeFolders path : StateM World (Except FileFault Unit))
      (Host.makeFolders path) :=
  fun _ _ h => ⟨congrArg (fun d => (d.makeFolders path).1) h.disk_eq, h.input_eq,
    congrArg (fun d => (d.makeFolders path).2) h.disk_eq, h.output_eq⟩

theorem writeFile_eq (path : String) (content : List UInt8) (w : World) :
    (Host.writeFile path content : StateM World (Except FileFault Unit)) w =
      match w.disk.write path content with
      | .ok disk => (.ok (), { w with disk := disk })
      | .error fault => (.error fault, w) := rfl

theorem agree_writeFile (path : String) (content : List UInt8) :
    Agree (Host.writeFile path content : StateM World (Except FileFault Unit))
      (Host.writeFile path content) := by
  intro w w' h
  rw [writeFile_eq, writeFile_eq, ← h.disk_eq]
  cases w.disk.write path content with
  | ok disk => exact ⟨rfl, h.input_eq, rfl, h.output_eq⟩
  | error fault => exact ⟨rfl, h⟩

/-! ## Inputs -/

theorem translate_result_eq (o o' : Options) (name : String) (source : List UInt8) :
    (translate o name source).2 = (translate o' name source).2 := by
  cases lexed : Decl.tokenize source with
  | error fault => simp only [translate, lexed]
  | ok tokens => cases read : Decl.parse tokens <;> simp only [translate, lexed, read]

theorem agree_compileInput (name : String) (source : List UInt8)
    {deliver deliver' : List UInt8 → StateM World Verdict}
    (delivered : ∀ output, Agree (deliver output) (deliver' output)) :
    Agree (compileInput o name source deliver) (compileInput o' name source deliver') := by
  simp only [compileInput, translate_result_eq o' o]
  refine (agree_report _ _).bind fun _ => ?_
  cases (translate o name source).2 with
  | ok output => exact delivered output
  | error message => exact (agree_report _ _).bind fun _ => agree_pure _

theorem agree_toOutput (output : List UInt8) :
    Agree (toOutput output : StateM World Verdict) (toOutput output) :=
  (agree_emit output).bind fun _ => agree_pure _

theorem agree_toFolder (folder input : String) (output : List UInt8) :
    Agree (toFolder folder input output : StateM World Verdict) (toFolder folder input output) := by
  refine (agree_writeFile _ output).bind fun result => ?_
  cases result with
  | ok done => exact (agree_report _ _).bind fun _ => agree_pure _
  | error fault => exact agree_pure _

theorem agree_compileFile (output : o.output = o'.output) (path : String) :
    Agree (compileFile o path : StateM World Verdict) (compileFile o' path) := by
  refine (agree_readFile path).bind fun result => ?_
  cases result with
  | error fault => exact (agree_report _ _).bind fun _ => agree_pure _
  | ok source =>
      refine agree_compileInput path source fun bytes => ?_
      rw [← output]
      cases o.output with
      | none => exact agree_toOutput bytes
      | some folder => exact agree_toFolder folder path bytes

theorem agree_compileFiles (output : o.output = o'.output) (paths : List String) :
    Agree (compileFiles o paths : StateM World (Except String Nat)) (compileFiles o' paths) := by
  induction paths with
  | nil => exact agree_pure _
  | cons path rest ih =>
      refine (agree_compileFile output path).bind fun verdict => ?_
      cases verdict with
      | done => exact ih
      | failed => exact ih.bind fun _ => agree_pure _
      | aborted message => exact agree_pure _

/-! ## Whole runs -/

theorem agree_compileAll (output : o.output = o'.output) (files : o.files = o'.files) :
    Agree (compileAll o : StateM World (Except String Nat)) (compileAll o') := by
  simp only [compileAll, ← files]
  cases o.files.isEmpty with
  | false => exact agree_compileFiles output o.files
  | true =>
      refine agree_readInput.bind fun source => ?_
      refine (agree_compileInput _ source agree_toOutput).bind fun verdict => ?_
      cases verdict <;> exact agree_pure _

theorem agree_makeOutput (output : o.output = o'.output) :
    Agree (makeOutput o : StateM World (Except String Unit)) (makeOutput o') := by
  simp only [makeOutput, ← output]
  cases o.output with
  | none => exact agree_pure _
  | some folder => exact (agree_makeFolders folder).bind fun _ => agree_pure _

theorem agree_finish (result : Except String Nat) :
    Agree (finish result : StateM World UInt8) (finish result) := by
  rcases result with message | _ | failures
  · exact (agree_report _ _).bind fun _ => agree_pure _
  · exact agree_pure _
  · exact (agree_report _ _).bind fun _ => agree_pure _

theorem agree_run {arguments arguments' : List String}
    (same : Options.quiet <$> Options.read arguments = Options.quiet <$> Options.read arguments') :
    Agree (run arguments : StateM World UInt8) (run arguments') := by
  simp only [run]
  cases read : Options.read arguments with
  | error fault =>
      cases read' : Options.read arguments' with
      | error fault' =>
          rw [read, read'] at same
          cases same
          exact agree_finish _
      | ok o' =>
          rw [read, read'] at same
          cases same
  | ok o =>
      cases read' : Options.read arguments' with
      | error fault =>
          rw [read, read'] at same
          cases same
      | ok o' =>
          rw [read, read'] at same
          obtain ⟨output, files⟩ := Options.quiet_eq_iff.mp (Except.ok.inj same)
          refine (agree_makeOutput output).bind fun made => ?_
          cases made with
          | error message => exact agree_finish _
          | ok done => exact (agree_compileAll output files).bind agree_finish

/-- The command comes to the same end as the compilation, whatever it lists: it has the same output,
or its report is that of the compilation, with the place as one more line if the fault is one of the
grammar. An argument that asks for a listing changes neither the exit code nor the output nor the
disk, wherever it stands as an option of its own. The log takes every listing, as it does in a world
(`World`). -/
theorem listings_only_observe :
    (∀ (options : Options) (name : String) (source : List UInt8),
      (∀ out, (translate options name source).2 = .ok out ↔ Decl.compile source = .ok out) ∧
        (∀ fault, Decl.compile source = .error fault → (∀ e k, fault ≠ .syntactic e k) →
          (translate options name source).2 = .error fault.message) ∧
        ∀ e k, Decl.compile source = .error (.syntactic e k) →
          ∃ tokens, Decl.tokenize source = .ok tokens ∧ (translate options name source).2 =
            .error ((Fault.syntactic e k).message ++ placeLine tokens[k]?)) ∧
    ∀ before listing after, listing ∈ Options.listings →
      Options.read before ≠ .error .missingFolder → ∀ w : World,
        (World.run (before ++ listing :: after) w).1 = (World.run (before ++ after) w).1 ∧
          (World.run (before ++ listing :: after) w).2.output =
            (World.run (before ++ after) w).2.output ∧
          (World.run (before ++ listing :: after) w).2.disk =
            (World.run (before ++ after) w).2.disk := by
  constructor
  · intro options name source
    obtain ⟨out, compiled, translated⟩ | ⟨fault, compiled, translated⟩ |
      ⟨tokens, fault, k, lexed, compiled, translated⟩ := translate_cases options name source
    · simp [compiled, translated]
    · simp [compiled, translated]
    · simp [compiled, translated, lexed]
  · intro before listing after mem complete w
    obtain ⟨code, alike⟩ :=
      agree_run (Options.quiet_read_insert mem complete after) w w ⟨rfl, rfl, rfl⟩
    exact ⟨code, alike.output_eq, alike.disk_eq⟩

/-- The folder `-t` is not an option, and the tree that is asked for behind it changes nothing. A
number in the place of a name is reported with one more line. -/
theorem listings_only_observe_behind_folder :
    Options.read ["-o", "-t"] ≠ .error .missingFolder ∧
      (World.run ["-o", "-t", "--tree", "a.decl"]
          ⟨[], ⟨[(["a.decl"], .file (ascii "let x = 1"))], []⟩, [], ""⟩).2.disk =
        (World.run ["-o", "-t", "a.decl"]
          ⟨[], ⟨[(["a.decl"], .file (ascii "let x = 1"))], []⟩, [], ""⟩).2.disk ∧
      Decl.compile (ascii "let 3") = .error (.syntactic .invalidSyntax 1) ∧
      ∃ tokens, Decl.tokenize (ascii "let 3") = .ok tokens ∧
        (translate .none "<stdin>" (ascii "let 3")).2 =
          .error ((Fault.syntactic .invalidSyntax 1).message ++ placeLine tokens[1]?) := by
  obtain ⟨same, inserted⟩ := listings_only_observe
  have complete : Options.read ["-o", "-t"] ≠ .error .missingFolder := by decide +kernel
  have failed : Decl.compile (ascii "let 3") = .error (.syntactic .invalidSyntax 1) := by
    decide +kernel
  obtain ⟨-, -, located⟩ := same .none "<stdin>" (ascii "let 3")
  obtain ⟨-, -, disk⟩ := inserted ["-o", "-t"] "--tree" ["a.decl"] (by decide) complete
    ⟨[], ⟨[(["a.decl"], .file (ascii "let x = 1"))], []⟩, [], ""⟩
  exact ⟨complete, disk, failed, located _ _ failed⟩

end LittleLang.Command
