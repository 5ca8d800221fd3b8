import Mathlib.Control.Monad.Basic
import LittleLang.Command.World
import LittleLang.Proofs.Command.Steps
import LittleLang.Proofs.Command.Translation

/-!
# Inputs are compiled one by one

Without a folder for the results, the output of a run is that of its inputs, one after the other. It
does not matter what the host is otherwise, if reading is all it does to files.
-/

namespace LittleLang.Command

/-! ## Inputs -/

/-- An input: its name, and what reading it gives. -/
structure Input where
  name : String
  content : Except FileFault (List UInt8)

/-- What the input is compiled to. There is nothing if it cannot be read, or not be compiled. -/
def Input.result? (i : Input) : Option (List UInt8) :=
  i.content.toOption.bind fun source => (Decl.compile source).toOption

theorem Input.result?_source (options : Options) (name : String) (source : List UInt8) :
    (Input.mk name (.ok source)).result? = (translate options name source).2.toOption := by
  obtain ⟨out, compiled, translated⟩ | ⟨fault, compiled, translated⟩ |
    ⟨tokens, fault, k, -, compiled, translated⟩ := translate_cases options name source <;>
  simp [Input.result?, compiled, translated, Except.toOption]

theorem Input.result?_eq_some_iff {i : Input} {out : List UInt8} :
    i.result? = some out ↔ ∃ source, i.content = .ok source ∧ Decl.compile source = .ok out := by
  rcases i with ⟨name, fault | source⟩
  · simp [Input.result?, Except.toOption]
  · cases compiled : Decl.compile source <;> simp [Input.result?, Except.toOption, compiled]

/-- What is reported on the input: the listings, and then the fault. -/
def Input.report (options : Options) (i : Input) : String :=
  match i.content with
  | .error fault => s!"{i.name}: {fault.message}\n"
  | .ok source =>
    let (listing, result) := translate options i.name source
    match result with
    | .ok _ => listing
    | .error message => listing ++ s!"{i.name}: {message}\n"

/-- How the work on the input ends, if no file is written. -/
def Input.verdict (i : Input) : Verdict := if i.result?.isSome then .done else .failed

/-! ## Hosts -/

/-- What is seen of the state of a host. -/
structure View (σ : Type) where
  input : σ → List UInt8
  /-- What reading a file gives. -/
  files : σ → String → Except FileFault (List UInt8)
  output : σ → List UInt8
  log : σ → String

namespace View

variable {σ : Type}

/-- Bytes are added to the output and a text to the log, and nothing else is seen to change. -/
structure Adds (v : View σ) (before after : σ) (bytes : List UInt8) (text : String) : Prop where
  input_eq : v.input after = v.input before
  files_eq : v.files after = v.files before
  output_eq : v.output after = v.output before ++ bytes
  log_eq : v.log after = v.log before ++ text

/-- The inputs of a run: the files, or else the standard input. -/
def inputs (v : View σ) (options : Options) (s : σ) : List Input :=
  if options.files.isEmpty then [⟨"<stdin>", .ok (v.input s)⟩]
  else options.files.map fun path => ⟨path, v.files s path⟩

variable {v : View σ} {s s' s'' : σ} {bytes bytes' : List UInt8} {text text' : String}

theorem Adds.trans (h : v.Adds s s' bytes text) (h' : v.Adds s' s'' bytes' text') :
    v.Adds s s'' (bytes ++ bytes') (text ++ text') where
  input_eq := h'.input_eq.trans h.input_eq
  files_eq := h'.files_eq.trans h.files_eq
  output_eq := by rw [h'.output_eq, h.output_eq, List.append_assoc]
  log_eq := by rw [h'.log_eq, h.log_eq, String.append_assoc]

end View

section

variable {σ : Type} {v : View σ} {o : Options} {i : Input} {action : StateM σ Verdict} {s s' : σ}

/-! ## One input -/

/-- From the state, the action does the work on the input: it ends as it should, and adds the result
to the output and the report to the log. -/
structure Handles (v : View σ) (o : Options) (i : Input) (action : StateM σ Verdict) (s : σ) :
    Prop where
  verdict_eq : (action s).1 = i.verdict
  adds : v.Adds s (action s).2 (i.result?.getD []) (i.report o)

/-- What is added, by whether there is a result. -/
theorem Handles.cases (h : Handles v o i action s) :
    (i.result? = none ∧ ∃ s', action s = (.failed, s') ∧ v.Adds s s' [] (i.report o)) ∨
      ∃ out s', i.result? = some out ∧ action s = (.done, s') ∧ v.Adds s s' out (i.report o) := by
  obtain ⟨verdict, added⟩ := h
  rw [Input.verdict] at verdict
  cases result : i.result? with
  | none =>
      rw [result] at verdict added
      exact .inl ⟨rfl, (action s).2, Prod.ext verdict rfl, added⟩
  | some out =>
      rw [result] at verdict added
      exact .inr ⟨out, (action s).2, rfl, Prod.ext verdict rfl, added⟩

variable [Host (StateM σ)]

end

end LittleLang.Command
