import BoardSchema.Command.Run
import BoardSchema.Proofs.Files.Adding
import BoardSchema.Proofs.Files.Documents
/-!
What a run of the command does to a tree of files, with nobody there to answer. Rules and description
are only read, and all documents are looked up before the first is written.
-/
namespace BoardSchema

open Path FileProgram

namespace Compilation

variable {rules : Rules} {tree after : FileTree} {compilation : Compilation}

/-- A file is compiled by reading it. -/
theorem run_ofFile (rules : Rules) (path : String) (tree : FileTree) :
    (run tree (ofFile rules path)).2 = tree ∧
      ∀ compilation, (run tree (ofFile rules path)).1.outcome = .ok compilation →
        ∃ text, (ofText rules path text).outcome = .ok compilation := by
  unfold ofFile
  split
  · refine ⟨rfl, fun compilation h => ?_⟩
    simp only [run] at h
    split at h
    · next text _ => exact ⟨text, h⟩
    · cases h
  · exact ⟨rfl, fun compilation h => by cases h⟩

end Compilation

namespace Command

variable {options : Options} {tree : FileTree} {compilation : Compilation}

/-! ## Reading -/

theorem run_ofFile_rules (path : String) (tree : FileTree) :
    (FileProgram.run tree (Rules.ofFile path)).2 = tree := rfl

theorem run_loadRules (options : Options) (tree : FileTree) :
    (FileProgram.run tree (loadRules options)).2 = tree := by
  cases rules : options.rules with
  | none => simp [loadRules, rules, FileProgram.run_bind, FileProgram.run_pure]
  | some path =>
    simp [loadRules, rules, FileProgram.run_bind, FileProgram.run_pure, run_ofFile_rules]

/-- What the command compiles, if rules and description can be read and have no fault. -/
def compiled? (options : Options) (tree : FileTree) : Option Compilation :=
  match (FileProgram.run tree (loadRules options)).1 with
  | .ok rules => (FileProgram.run tree (Compilation.ofFile rules options.input)).1.outcome.toOption
  | .error _ => none

/-- How the command goes on from what it has read: it fails and leaves everything alone, or it delivers
what it has compiled. -/
inductive CompileRun (options : Options) (tree : FileTree) : Prop
  | fails {outcome : Outcome} (none : compiled? options tree = none)
      (ran : FileProgram.run tree (compile options) = (outcome, tree))
      (exit : outcome.exitCode = 1) : CompileRun options tree
  | delivers {rules : Rules} {compilation : Compilation} {printed : Printed}
      (compiled : compiled? options tree = some compilation)
      (read : (FileProgram.run tree (Compilation.ofFile rules options.input)).1.outcome =
        .ok compilation)
      (ran : FileProgram.run tree (compile options) =
        FileProgram.run tree (deliver options compilation printed)) : CompileRun options tree

theorem compileRun (options : Options) (tree : FileTree) : CompileRun options tree := by
  cases loaded : (FileProgram.run tree (loadRules options)).1 with
  | error error =>
    obtain ⟨outcome, ran, exit⟩ : ∃ outcome,
        FileProgram.run tree (compile options) = (outcome, tree) ∧ outcome.exitCode = 1 := by
      simp only [compile, FileProgram.run_bind, run_loadRules, loaded]
      exact ⟨_, rfl, rfl⟩
    exact .fails (by simp only [compiled?, loaded]) ran exit
  | ok rules =>
    have untouched := (Compilation.run_ofFile rules options.input tree).1
    cases read : (FileProgram.run tree (Compilation.ofFile rules options.input)).1.outcome with
    | error error =>
      obtain ⟨outcome, ran, exit⟩ : ∃ outcome,
          FileProgram.run tree (compile options) = (outcome, tree) ∧ outcome.exitCode = 1 := by
        simp only [compile, FileProgram.run_bind, run_loadRules, loaded, untouched, read]
        exact ⟨_, rfl, rfl⟩
      exact .fails (by simp only [compiled?, loaded, read, Except.toOption]) ran exit
    | ok compilation =>
      obtain ⟨printed, ran⟩ : ∃ printed, FileProgram.run tree (compile options) =
          FileProgram.run tree (deliver options compilation printed) := by
        simp only [compile, FileProgram.run_bind, run_loadRules, loaded, untouched, read]
        exact ⟨_, rfl⟩
      exact .delivers (by simp only [compiled?, loaded, read, Except.toOption]) read ran

/-- Where nothing compiles the command fails and leaves everything alone. -/
theorem run_compile_none (h : compiled? options tree = none) :
    (FileProgram.run tree (compile options)).1.exitCode = 1 ∧
      (FileProgram.run tree (compile options)).2 = tree := by
  cases compileRun options tree with
  | fails _ ran exit =>
    rw [ran]
    exact ⟨exit, rfl⟩
  | delivers compiled _ _ =>
    rw [h] at compiled
    cases compiled

/-- What was compiled was read from a text, and it is delivered. -/
theorem run_compile_some (h : compiled? options tree = some compilation) :
    (∃ rules text, (Compilation.ofText rules options.input text).outcome = .ok compilation) ∧
    ∃ printed, FileProgram.run tree (compile options) =
      FileProgram.run tree (deliver options compilation printed) := by
  cases compileRun options tree with
  | fails none _ _ =>
    rw [h] at none
    cases none
  | @delivers rules _ printed compiled read ran =>
    obtain rfl := Option.some.inj (compiled.symm.trans h)
    exact ⟨⟨rules, (Compilation.run_ofFile rules options.input tree).2 _ read⟩, printed, ran⟩

/-! ## Asking -/

/-- Nobody agrees to replace a document, so none may be in the way. -/
theorem run_confirmOverwrite (paths : List String) (tree : FileTree) :
    FileProgram.run tree (confirmOverwrite false paths) =
      (if paths.any tree.contains then .error .unanswered else .ok (), tree) := by
  induction paths with
  | nil => rfl
  | cons path rest ih =>
    simp only [confirmOverwrite, FileProgram.run, Bool.not_false, Bool.and_true, List.any_cons]
    by_cases there : tree.contains path = true
    · simp [there, FileProgram.run]
    · simpa [there] using ih

/-- Without asking every document may be replaced. -/
theorem run_confirmOverwrite_unasked (paths : List String) (tree : FileTree) :
    FileProgram.run tree (confirmOverwrite true paths) = (.ok (), tree) := by
  induction paths with
  | nil => rfl
  | cons path rest ih => simpa [confirmOverwrite, FileProgram.run] using ih

/-! ## Delivering -/

variable (printed : Printed)

/-- Documents that may not be replaced stay as they are. -/
theorem run_deliver_refused {refusal : Refusal}
    (refused : FileProgram.run tree
      (confirmOverwrite options.noConfirmOverwrite (compilation.paths options.output)) =
        (.error refusal, tree)) :
    (FileProgram.run tree (deliver options compilation printed)).1.exitCode = 1 ∧
      (FileProgram.run tree (deliver options compilation printed)).2 = tree := by
  simp only [deliver, FileProgram.run_bind, refused]
  cases refusal <;> exact ⟨rfl, rfl⟩

/-- Documents that may be replaced are written, and the command succeeds if they all are. -/
theorem run_deliver_agreed
    (agreed : FileProgram.run tree
      (confirmOverwrite options.noConfirmOverwrite (compilation.paths options.output)) =
        (.ok (), tree)) :
    (FileProgram.run tree (deliver options compilation printed)).2 =
        (FileProgram.run tree (compilation.writeTo options.output)).2 ∧
      (FileProgram.run tree (deliver options compilation printed)).1.exitCode =
        if (FileProgram.run tree (compilation.writeTo options.output)).1.isOk then 0 else 1 := by
  simp only [deliver, FileProgram.run_bind, agreed]
  cases (FileProgram.run tree (compilation.writeTo options.output)).1 <;> exact ⟨rfl, rfl⟩

/-! ## Runs -/

/-- Without leave to replace documents, and with nobody to ask: where nothing compiles, or where any of
the documents is in the way, the command fails and leaves the whole tree of files as it was. Otherwise
the documents are written, and if all of them are, the command succeeds. All files and directories
that were there are then as they were and the new files are the documents, unless the way to their
directory has a step up out of a directory that was missing. -/
theorem run_keepsFiles {after : FileTree} {arguments : List String} {outcome : Outcome}
    (request : Request.ofArguments arguments = .compile options)
    (asks : options.noConfirmOverwrite = false)
    (ran : FileProgram.run tree (run arguments) = (outcome, after)) :
    (compiled? options tree = none → outcome.exitCode = 1 ∧ after = tree) ∧
    ∀ compilation, compiled? options tree = some compilation →
      ((∃ path ∈ compilation.paths options.output, tree.contains path) →
        outcome.exitCode = 1 ∧ after = tree) ∧
      ((∀ path ∈ compilation.paths options.output, ¬tree.contains path) → ∀ written left,
        FileProgram.run tree (compilation.writeTo options.output) = (.ok written, left) →
          outcome.exitCode = 0 ∧ after = left ∧ ∃ around,
            Compilation.Written tree after options.output around compilation.documents ∧
            (tree.Rooted →
              tree.leadsOn (FileTree.startOf options.output) (steps options.output) →
                Compilation.Added tree after options.output around compilation.documents)) := by
  have compiles : FileProgram.run tree (compile options) = (outcome, after) := by
    rwa [run, request] at ran
  refine ⟨fun none => ?_, fun compilation compiled => ?_⟩
  · simpa [compiles] using run_compile_none none
  obtain ⟨⟨rules, text, read⟩, printed, delivers⟩ := run_compile_some compiled
  rw [delivers] at compiles
  have confirmed := run_confirmOverwrite (compilation.paths options.output) tree
  rw [← asks] at confirmed
  refine ⟨fun inTheWay => ?_, fun free written left wrote => ?_⟩
  · rw [if_pos (List.any_eq_true.2 inTheWay)] at confirmed
    simpa [compiles] using run_deliver_refused printed confirmed
  · rw [if_neg (by simpa using free)] at confirmed
    have delivered := run_deliver_agreed printed confirmed
    simp only [compiles, wrote, Except.isOk, Except.toBool, if_true] at delivered
    obtain ⟨rfl, success⟩ := delivered
    obtain ⟨some, plain, distinct⟩ := Compilation.plain_of_ofText read
    obtain ⟨-, around, stored⟩ := Compilation.writeTo_ok some plain distinct wrote
    refine ⟨success, rfl, around, stored, fun rooted on => ?_⟩
    refine stored.added rooted on plain fun document mem => ?_
    simpa using free _ (List.mem_map_of_mem mem)

/-- A description with an include file, beside a file that has the name of its document. -/
def boardFiles : FileTree :=
  (({} : FileTree).add "Board.dsc" (.text ("\n".intercalate
    ["[PcdsDynamicVpd.Upd]", "A|*|1|0", "# !< include cfg/Uart.dlt", "B|*|1|0", "# !>"]))).add
      "Uart.yaml" (.text "kept")

/-- The document of the include file is in the way, though it is the last one; in a directory that is
missing nothing is. -/
theorem boardFiles_kept :
    (∃ outcome, FileProgram.run boardFiles (run ["-i", "Board.dsc", "-a"]) =
      (outcome, boardFiles) ∧ outcome.exitCode = 1) ∧
    ∃ outcome after around, ∃ compilation : Compilation,
      FileProgram.run boardFiles (run ["-i", "Board.dsc", "-a", "-o", "../out"]) =
        (outcome, after) ∧ outcome.exitCode = 0 ∧
      compilation.documents.map OutputDocument.file = ["Board.yaml", "Uart.yaml"] ∧
      Compilation.Added boardFiles after "../out" around compilation.documents := by
  let here : Options := { input := "Board.dsc", all := true }
  let beside : Options := { input := "Board.dsc", all := true, output := "../out" }
  constructor
  · have request : Request.ofArguments ["-i", "Board.dsc", "-a"] = .compile here := by
      decide +kernel
    have known : (compiled? here boardFiles).map (fun compilation =>
        (compilation.paths ".").any boardFiles.contains) = some true := by
      decide +kernel
    obtain ⟨compilation, compiled, inTheWay⟩ := Option.map_eq_some_iff.1 known
    have kept := (run_keepsFiles request rfl (Prod.eta _).symm).2 compilation compiled
    obtain ⟨failed, same⟩ := kept.1 (List.any_eq_true.1 inTheWay)
    exact ⟨_, Prod.ext rfl same, failed⟩
  · have request : Request.ofArguments ["-i", "Board.dsc", "-a", "-o", "../out"] =
        .compile beside := by
      decide +kernel
    have known : (compiled? beside boardFiles).map (fun compilation =>
        (compilation.documents.map OutputDocument.file,
          (compilation.paths "../out").any boardFiles.contains,
          (FileProgram.run boardFiles (compilation.writeTo "../out")).1.toOption)) =
        some (["Board.yaml", "Uart.yaml"], false,
          some ["../out/Board.yaml", "../out/Uart.yaml"]) := by
      decide +kernel
    obtain ⟨compilation, compiled, facts⟩ := Option.map_eq_some_iff.1 known
    simp only [Prod.mk.injEq] at facts
    obtain ⟨files, free, written⟩ := facts
    cases wrote : FileProgram.run boardFiles (compilation.writeTo "../out") with
    | mk answer left =>
      rw [wrote] at written
      cases answer with
      | error cause => cases written
      | ok paths =>
        have kept := (run_keepsFiles request rfl (Prod.eta _).symm).2 compilation compiled
        obtain ⟨success, -, around, -, added⟩ := kept.2 (by simpa using free) paths left wrote
        exact ⟨_, _, around, compilation, (Prod.eta _).symm, success, files,
          added (by decide +kernel) (by decide +kernel)⟩

/-- A file with the name of the first document, too. -/
def replacedFiles : FileTree := boardFiles.add "Board.yaml" (.text "kept")

/-- The way goes up out of a directory that is made only for the document. Nothing was found to be in
the way of the document, but it is written over a file that was there. -/
theorem stepUp_replaces_file :
    replacedFiles.Rooted ∧
    Request.ofArguments ["-i", "Board.dsc", "-o", "new/.."] =
      .compile { input := "Board.dsc", output := "new/.." } ∧
    (compiled? { input := "Board.dsc", output := "new/.." } replacedFiles).map (fun compilation =>
      (compilation.paths "new/..", (compilation.paths "new/..").any replacedFiles.contains,
        (FileProgram.run replacedFiles (compilation.writeTo "new/..")).1.toOption)) =
      some (["new/../Board.yaml"], false, some ["new/../Board.yaml"]) ∧
    replacedFiles.readText "Board.yaml" = .ok "kept" ∧
    (FileProgram.run replacedFiles (run ["-i", "Board.dsc", "-o", "new/.."])).1.exitCode = 0 ∧
    (FileProgram.run replacedFiles (run ["-i", "Board.dsc", "-o", "new/.."])).2.readText
      "Board.yaml" ≠ .ok "kept" := by
  decide +kernel

end Command
end BoardSchema
