import BoardSchema.Proofs.Command.Running
/-!
The rules that the command compiles with. They are those of the rule file, but whether include targets
get documents of their own is left to the flag alone, also where the file says that they do.
-/
namespace BoardSchema.Command

variable {options : Options} {tree after : FileTree} {file : String} {rules : Rules}

/-- The arguments that name a description and a rule file. -/
theorem ofArguments_ruleFile {input : String} (all : Bool) (plain : isOptionLike input = false)
    (plain_file : isOptionLike file = false) :
    Request.ofArguments (["-i", input, "--rules", file, "--no-confirm-overwrite"] ++
      if all then ["-a"] else []) =
        .compile { input, all, rules := some file, noConfirmOverwrite := true } := by
  cases all <;>
  simp [Request.ofArguments, readAll, readShort, readLong, shortName?, longName?, attached?,
    Text.cutAt?, Given.setValue, Given.setFlag, Given.request, ok_bind, plain, plain_file]

/-- The rules of a file are used as they are, apart from what the flag says. -/
theorem compiled?_ruleFile (given : options.rules = some file)
    (loaded : (FileProgram.run tree (Rules.ofFile file)).1 = .ok rules) :
    compiled? options tree = (FileProgram.run tree
      (Compilation.ofFile { rules with emitAll := options.all } options.input)).1.outcome.toOption := by
  have loads : (FileProgram.run tree (loadRules options)).1 =
      .ok { rules with emitAll := options.all } := by
    simp [loadRules, given, FileProgram.run_bind, FileProgram.run_pure, loaded, Except.map]
  simp only [compiled?, loads]

/-- The command with a rule file, and with leave to replace documents. It writes the documents that
the rules of the file give, with a document for each include target just if the flag is there. Those
are the very rules of the file if these say the same as the flag. -/
theorem run_ruleFile {arguments : List String} {outcome : Outcome}
    (request : Request.ofArguments arguments = .compile options)
    (given : options.rules = some file) (unasked : options.noConfirmOverwrite = true)
    (loaded : (FileProgram.run tree (Rules.ofFile file)).1 = .ok rules)
    (ran : FileProgram.run tree (run arguments) = (outcome, after)) :
    (∀ error, (FileProgram.run tree (Compilation.ofFile { rules with emitAll := options.all }
        options.input)).1.outcome = .error error → outcome.exitCode = 1 ∧ after = tree) ∧
    (∀ compilation, (FileProgram.run tree (Compilation.ofFile { rules with emitAll := options.all }
        options.input)).1.outcome = .ok compilation →
      after = (FileProgram.run tree (compilation.writeTo options.output)).2 ∧
      (outcome.exitCode = 0 ↔ ∃ written,
        (FileProgram.run tree (compilation.writeTo options.output)).1 = .ok written) ∧
      (outcome.exitCode = 0 → ∃ around,
        Compilation.Written tree after options.output around compilation.documents)) ∧
    (rules.emitAll = options.all → { rules with emitAll := options.all } = rules) := by
  have compiles : FileProgram.run tree (compile options) = (outcome, after) := by
    rwa [run, request] at ran
  have compiled := compiled?_ruleFile given loaded
  refine ⟨fun error failed => ?_, fun compilation succeeded => ?_, ?_⟩
  · rw [failed] at compiled
    simpa [compiles] using run_compile_none compiled
  · rw [succeeded] at compiled
    obtain ⟨⟨_, text, read⟩, printed, delivers⟩ := run_compile_some compiled
    have confirmed := run_confirmOverwrite_unasked (compilation.paths options.output) tree
    rw [← unasked] at confirmed
    have delivered := run_deliver_agreed printed confirmed
    rw [← delivers, compiles] at delivered
    obtain ⟨rfl, exit⟩ := delivered
    cases wrote : FileProgram.run tree (compilation.writeTo options.output) with
    | mk answer left =>
      rw [wrote] at exit
      cases answer with
      | error cause =>
        have failed : outcome.exitCode = 1 := exit
        simp [failed]
      | ok written =>
        obtain ⟨some, plain, distinct⟩ := Compilation.plain_of_ofText read
        obtain ⟨-, stored⟩ := Compilation.writeTo_ok some plain distinct wrote
        exact ⟨rfl, ⟨fun _ => ⟨written, rfl⟩, fun _ => exit⟩, fun _ => stored⟩
  · intro same
    rw [← same]

/-- A description with an include file, and rules under which it has a document of its own. -/
def ruledFiles : FileTree :=
  (({} : FileTree).add "Board.dsc" (.text ("\n".intercalate
    ["[PcdsDynamicVpd.Upd]", "A|*|1|0", "# !< include cfg/Uart.dlt", "B|*|1|0", "# !>"]))).add
      "rules.json" (.text "\x7b\"emit_all\": true, \"padding_prefix\": \"Pad\"\x7d")

/-- The rules of the file give two documents. Without the flag the command writes no second one. -/
theorem ruledFiles_evaluated :
    (FileProgram.run ruledFiles (Rules.ofFile "rules.json")).1 =
      .ok { emitAll := true, paddingPrefix := "Pad" } ∧
    (FileProgram.run ruledFiles (Compilation.ofFile
      { emitAll := true, paddingPrefix := "Pad" } "Board.dsc")).1.outcome.toOption.map
        (fun compilation => (compilation.documents.map OutputDocument.file,
          (FileProgram.run ruledFiles (compilation.writeTo ".")).1.toOption,
          (FileProgram.run ruledFiles (compilation.writeTo ".")).2.contains "Uart.yaml")) =
      some (["Board.yaml", "Uart.yaml"], some ["./Board.yaml", "./Uart.yaml"], true) ∧
    (FileProgram.run ruledFiles
      (run ["-i", "Board.dsc", "--rules", "rules.json", "--no-confirm-overwrite"])).1.exitCode = 0 ∧
    (FileProgram.run ruledFiles
      (run ["-i", "Board.dsc", "--rules", "rules.json", "--no-confirm-overwrite"])).2.contains
        "Uart.yaml" = false := by
  decide +kernel

/-- With the flag the command compiles with all that the file says. -/
theorem ruledFiles_flagged : ∃ outcome after around, ∃ compilation : Compilation,
    (FileProgram.run ruledFiles (Rules.ofFile "rules.json")).1 =
      .ok { emitAll := true, paddingPrefix := "Pad" } ∧
    FileProgram.run ruledFiles
      (run ["-i", "Board.dsc", "--rules", "rules.json", "--no-confirm-overwrite", "-a"]) =
        (outcome, after) ∧ outcome.exitCode = 0 ∧
    compilation.documents.map OutputDocument.file = ["Board.yaml", "Uart.yaml"] ∧
    Compilation.Written ruledFiles after "." around compilation.documents := by
  have request : Request.ofArguments
      ["-i", "Board.dsc", "--rules", "rules.json", "--no-confirm-overwrite", "-a"] =
        .compile { input := "Board.dsc", all := true, rules := some "rules.json"
                   noConfirmOverwrite := true } :=
    ofArguments_ruleFile true (by decide) (by decide)
  obtain ⟨loaded, known, -⟩ := ruledFiles_evaluated
  obtain ⟨compilation, compiled, facts⟩ := exists_eq_ok known
  simp only [Prod.mk.injEq] at facts
  obtain ⟨files, written, -⟩ := facts
  obtain ⟨-, writes, -⟩ := run_ruleFile request rfl rfl loaded (Prod.eta _).symm
  obtain ⟨-, success, stored⟩ := writes compilation compiled
  obtain ⟨paths, wrote, -⟩ := exists_eq_ok (Option.map_id'.trans written)
  have exit := success.2 ⟨paths, wrote⟩
  obtain ⟨around, stored⟩ := stored exit
  exact ⟨_, _, around, compilation, loaded, (Prod.eta _).symm, exit, files, stored⟩

/-- Without the flag what the file says about include targets is lost: the command writes one document,
where the rules of the file give two. -/
theorem ruledFiles_unflagged :
    (FileProgram.run ruledFiles (Rules.ofFile "rules.json")).1 =
      .ok { emitAll := true, paddingPrefix := "Pad" } ∧
    (FileProgram.run ruledFiles (Compilation.ofFile
      { emitAll := true, paddingPrefix := "Pad" } "Board.dsc")).1.outcome.toOption.map
        (fun compilation =>
          (FileProgram.run ruledFiles (compilation.writeTo ".")).2.contains "Uart.yaml") =
      some true ∧
    (FileProgram.run ruledFiles
      (run ["-i", "Board.dsc", "--rules", "rules.json", "--no-confirm-overwrite"])).1.exitCode = 0 ∧
    (FileProgram.run ruledFiles
      (run ["-i", "Board.dsc", "--rules", "rules.json", "--no-confirm-overwrite"])).2.contains
        "Uart.yaml" = false := by
  obtain ⟨loaded, known, written⟩ := ruledFiles_evaluated
  refine ⟨loaded, ?_, written⟩
  obtain ⟨compilation, compiled, facts⟩ := exists_eq_ok known
  simp only [Prod.mk.injEq] at facts
  rw [compiled]
  exact congrArg some facts.2.2

end BoardSchema.Command
