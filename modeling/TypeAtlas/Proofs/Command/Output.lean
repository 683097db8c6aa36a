import Mathlib
import TypeAtlas.Command.Line
import TypeAtlas.Proofs.Command.Options
import TypeAtlas.Proofs.Files.Writing

namespace TypeAtlas

open Command

namespace Program

variable {α β : Type}

/-- A program leaves all files as they are. -/
def KeepsDisk (x : Program α) : Prop :=
  ∀ w, (x.run.run w).2.disk = w.disk

theorem KeepsDisk.bind {x : Program α} {f : α → Program β} (hx : KeepsDisk x)
    (hf : ∀ a, KeepsDisk (f a)) : KeepsDisk (x >>= f) := by
  intro w
  have hfirst := hx w
  rw [ExceptT.run_bind, StateT.run_bind]
  rcases hrun : x.run.run w with ⟨result, w'⟩
  rw [hrun] at hfirst
  cases result with
  | error e => exact hfirst
  | ok a => exact (hf a w').trans hfirst

theorem run_look (a : Disk → Analysis α) (w : World) :
    (look a).run.run w =
      (match (a w.disk).outcome.1 with
        | .ok v => (pure v : Program α)
        | .error e => throw e).run.run { w with notes := w.notes ++ (a w.disk).outcome.2 } :=
  rfl

theorem keepsDisk_look (a : Disk → Analysis α) : KeepsDisk (look a) := by
  intro w
  rw [run_look]
  cases (a w.disk).outcome.1 <;> rfl

theorem keepsDisk_note (n : Note) : KeepsDisk (note n) :=
  fun _ => rfl

theorem keepsDisk_pure (v : α) : KeepsDisk (pure v) :=
  fun _ => rfl

theorem keepsDisk_throw (e : Failure) : KeepsDisk (throw e : Program α) :=
  fun _ => rfl

theorem keepsDisk_liftM (x : Except Failure α) : KeepsDisk (liftM x : Program α) := by
  cases x <;> exact fun _ => rfl

theorem run_write (w : World) (file : Path) (text : Text) :
    (write file text).run.run w =
      (match (w.disk.deliver file ((Text.encode (text ++ "\n")).toOption.getD [])).1,
          Text.encode (text ++ "\n") with
        | .error e, _ => (throw (Failure.cannotWrite e) : Program Unit)
        | .ok (), .error fault => throw (Failure.notEncodable fault)
        | .ok (), .ok _ => pure ()).run.run
          { w with
            disk := (w.disk.deliver file ((Text.encode (text ++ "\n")).toOption.getD [])).2 } :=
  rfl

/-- A text that can be encoded is written with a line end, if its file can be. -/
theorem run_write_of_deliver {w : World} {file : Path} {text : Text} {bytes : List UInt8}
    (hbytes : Text.encode (text ++ "\n") = .ok bytes) {d : Disk}
    (hdeliver : w.disk.deliver file bytes = (.ok (), d)) :
    (write file text).run.run w = (.ok (), { w with disk := d }) := by
  have hdeliver' : w.disk.deliver file ((Text.encode (text ++ "\n")).toOption.getD []) =
      (.ok (), d) := by
    rw [hbytes]
    exact hdeliver
  rw [run_write, hdeliver', hbytes]
  rfl

end Program

/-- What a run does with an output file comes after all that it does without one. -/
theorem run_output (r : Request) (file : Path) :
    run { r with output := some (.value file) } = (do
      let text ← run { r with output := none }
      Program.write file text
      Program.note (.wrote file)
      return text) := by
  obtain ⟨path, mode, format, output, config, configPath⟩ := r
  simp only [run]
  cases format.value?.bind Format.ofName? with
  | none => rfl
  | some f =>
    cases config with
    | some config => simp only [bind_assoc, pure_bind]
    | none => simp only [bind_assoc, pure_bind]; rfl

theorem keepsDisk_run {r : Request} (h : r.output = none) : (run r).KeepsDisk := by
  obtain ⟨path, mode, format, output, config, configPath⟩ := r
  obtain rfl : output = none := h
  simp only [run]
  cases format.value?.bind Format.ofName? with
  | none => exact Program.keepsDisk_throw _
  | some f =>
    have hreport (config : Config) : Program.KeepsDisk (do
        Program.note (.analyzing mode path config.toSettings)
        let report ← Program.look fun d => analyze d config.toSettings path mode
        return report.render f) :=
      .bind (Program.keepsDisk_note _) fun _ =>
        .bind (Program.keepsDisk_look _) fun _ => Program.keepsDisk_pure _
    cases config with
    | none => exact .bind (Program.keepsDisk_look _) hreport
    | some config => exact .bind (Program.keepsDisk_pure _) hreport

namespace Command

variable {path : Path} {a : Arguments}

theorem execute_output (path : Path) (h : a.output = none) (file : Path) :
    execute path { a with output := some (.value file) } = (do
      let text ← execute path a
      Program.write file text
      Program.note (.wrote file)
      return text) := by
  unfold execute
  simp only [bind_assoc, h]
  exact bind_congr fun _ => bind_congr fun _ => bind_congr fun _ => bind_congr fun config =>
    run_output
      { path, mode := a.mode.map fun m => m.name, format := a.format.map fun f => f.name
        config := some config } file

theorem keepsDisk_execute (path : Path) (h : a.output = none) : (execute path a).KeepsDisk := by
  unfold execute
  refine .bind (Program.keepsDisk_liftM _) fun _ => .bind (Program.keepsDisk_look _) fun _ =>
    .bind (Program.keepsDisk_liftM _) fun _ => .bind (Program.keepsDisk_liftM _) fun _ => ?_
  exact keepsDisk_run h

/-- A command that ends well has made a text. -/
theorem exists_text_of_perform {d : Disk} (h : (perform d path a).ending = .status 0) :
    ∃ text w, (execute path a).run.run { disk := d, notes := [] } = (.ok text, w) ∧
      (perform d path a).output = printed a text ∧ (perform d path a).disk = w.disk := by
  unfold perform at h ⊢
  rcases hrun : (execute path a).run.run { disk := d, notes := [] } with ⟨result, w⟩
  simp only [hrun] at h ⊢
  cases result with
  | ok text => exact ⟨text, w, rfl, rfl, rfl⟩
  | error failure =>
    cases hreport : failure.diagnostic? with
    | none =>
      simp only [hreport] at h
      cases h
    | some report =>
      simp only [hreport] at h
      cases h

/-- The file that is named for a report can be written; two hyphens name none. -/
structure CanWrite (d : Disk) (name : Text) (file : Path) (bytes : List UInt8) : Prop where
  named : Arguments.given name (fun value => .ok (Path.ofText value)) = .ok (.value file)
  delivered : (d.deliver file bytes).1 = .ok ()

end Command

/-- A command that prints a report writes the same to a file, and nothing else to any other file, if
a file is named for it. The file is no link; for this its folder must be there. -/
theorem isWritten_carryOut {d : Disk} {arguments : List Text} {path : Path} {a : Arguments}
    {name : Text} {file : Path} {bytes : List UInt8}
    (hargs : Arguments.ofList arguments = .ok (.run path a)) (hnone : a.output = none)
    (hstatus : (carryOut d arguments).ending = .status 0)
    (hbytes : Text.encode (carryOut d arguments).output = .ok bytes)
    (hwrite : CanWrite d name file bytes)
    (hlink : ∀ place target,
      (d.makeFolders file.parent).2.locate false file ≠ .ok (.taken place (.link target))) :
    (carryOut d (outputArgument name :: arguments)).ending = .status 0 ∧
      (carryOut d (outputArgument name :: arguments)).output = [] ∧
      ∃ place, d.IsWritten (carryOut d (outputArgument name :: arguments)).disk file place bytes := by
  have hrun : carryOut d arguments = perform d path a := by rw [carryOut, hargs]
  rw [hrun] at hstatus hbytes
  obtain ⟨text, w, hexecute, hprinted, -⟩ := exists_text_of_perform hstatus
  -- A report is made without touching a file, so that it is written to the disk that was there.
  have hdisk : w.disk = d := by
    have hkept := keepsDisk_execute path hnone { disk := d, notes := [] }
    rwa [hexecute] at hkept
  rw [hprinted, printed, hnone] at hbytes
  rcases hdeliver : d.deliver file bytes with ⟨result, d'⟩
  obtain rfl : result = .ok () := by
    have hdelivered := hwrite.delivered
    rwa [hdeliver] at hdelivered
  have hexecute' : (execute path { a with output := some (.value file) }).run.run
      { disk := d, notes := [] } =
        (.ok text, { disk := d', notes := w.notes ++ [.wrote file] }) := by
    rw [execute_output path hnone, ExceptT.run_bind, StateT.run_bind, hexecute]
    change ((Program.write file text >>= fun _ => do
      Program.note (.wrote file)
      return text).run.run w) = _
    rw [ExceptT.run_bind, StateT.run_bind, Program.run_write_of_deliver hbytes (hdisk ▸ hdeliver)]
    rfl
  have hperform : carryOut d (outputArgument name :: arguments) =
      { ending := .status 0, output := []
        errors := shownNotes a.isVerbose (w.notes ++ [.wrote file]), disk := d' } := by
    rw [carryOut, ofList_outputArgument hargs hwrite.named]
    simp only [Arguments.withOutput, hnone, Option.none_or, perform, hexecute']
    rfl
  rw [hperform]
  refine ⟨rfl, rfl, ?_⟩
  have hwritten := Disk.exists_isWritten_deliver hwrite.delivered hlink
  rwa [hdeliver] at hwritten

/-- A source file, and nothing else. -/
def sourceDisk : Disk where
  root := .folder [("A.java", .file [])]
  here := []

/-- What is printed about the source file. -/
def sourceReport : Text :=
  "A (java)\n"

theorem ending_carryOut_sourceDisk :
    (carryOut sourceDisk ["-m", "class", "A.java"]).ending = .status 0 := by
  cbv

theorem output_carryOut_sourceDisk :
    (carryOut sourceDisk ["-m", "class", "A.java"]).output = sourceReport := by
  cbv

theorem locate_makeFolders_sourceDisk :
    (sourceDisk.makeFolders (Path.ofText "out/a.txt").parent).2.locate false
      (Path.ofText "out/a.txt") = .ok (.vacant ["out"] "a.txt") := by
  cbv

theorem isWritten_carryOut_sourceDisk :
    Arguments.ofList ["-m", "class", "A.java"] =
      .ok (.run (.ofText "A.java") { mode := .value .sourceFile }) ∧
    (carryOut sourceDisk ["-m", "class", "A.java"]).ending = .status 0 ∧
    Text.encode (carryOut sourceDisk ["-m", "class", "A.java"]).output =
      .ok [65, 32, 40, 106, 97, 118, 97, 41, 10] ∧
    CanWrite sourceDisk "out/a.txt" (.ofText "out/a.txt") [65, 32, 40, 106, 97, 118, 97, 41, 10] ∧
    (∀ place target, (sourceDisk.makeFolders (Path.ofText "out/a.txt").parent).2.locate false
      (.ofText "out/a.txt") ≠ .ok (.taken place (.link target))) ∧
    (carryOut sourceDisk [outputArgument "out/a.txt", "-m", "class", "A.java"]).ending =
      .status 0 ∧
    (carryOut sourceDisk [outputArgument "out/a.txt", "-m", "class", "A.java"]).output = [] ∧
    ∃ place, sourceDisk.IsWritten
      (carryOut sourceDisk [outputArgument "out/a.txt", "-m", "class", "A.java"]).disk
      (.ofText "out/a.txt") place [65, 32, 40, 106, 97, 118, 97, 41, 10] := by
  have hargs : Arguments.ofList ["-m", "class", "A.java"] =
      .ok (.run (.ofText "A.java") { mode := .value .sourceFile }) := by cbv
  have hbytes : Text.encode (carryOut sourceDisk ["-m", "class", "A.java"]).output =
      .ok [65, 32, 40, 106, 97, 118, 97, 41, 10] := by
    rw [output_carryOut_sourceDisk]
    decide
  have hwrite : CanWrite sourceDisk "out/a.txt" (.ofText "out/a.txt")
      [65, 32, 40, 106, 97, 118, 97, 41, 10] := ⟨by cbv, by cbv⟩
  have hlink (place : Place) (target : Text) :
      (sourceDisk.makeFolders (Path.ofText "out/a.txt").parent).2.locate false
        (.ofText "out/a.txt") ≠ .ok (.taken place (.link target)) := by
    rw [locate_makeFolders_sourceDisk]
    simp
  exact ⟨hargs, ending_carryOut_sourceDisk, hbytes, hwrite, hlink,
    isWritten_carryOut hargs rfl ending_carryOut_sourceDisk hbytes hwrite hlink⟩

end TypeAtlas
