import TypeAtlas.Proofs.Command.Failures

namespace TypeAtlas

open Command

namespace Command

variable {d : Disk} {path : Path} {a : Arguments} {r : Report} {text : Text} {e : Failure}
  {output : Option (Given Path)}

/-- There is somewhere to put a text: it is printed, or it can be encoded and its file can be
written. -/
inductive HandsOver (d : Disk) (text : Text) : Option (Given Path) → Prop
  /-- Standard output is taken to accept every text, one with lone surrogates too. -/
  | printed : HandsOver d text none
  | written {file : Path} {bytes : List UInt8} :
      Text.encode (text ++ "\n") = .ok bytes → (d.deliver file bytes).1 = .ok () →
        HandsOver d text (some (.value file))

/-- Why a text cannot be put where it should be. What cannot be encoded leaves an empty file. -/
inductive CannotHandOver (d : Disk) (text : Text) : Option (Given Path) → Failure → Prop
  | noPath : CannotHandOver d text (some .nothing) (.noValue .outputPath)
  | notWritten {file : Path} {fault : ChangeFault} :
      (d.deliver file ((Text.encode (text ++ "\n")).toOption.getD [])).1 = .error fault →
        CannotHandOver d text (some (.value file)) (.cannotWrite fault)
  | notEncodable {file : Path} {fault : Text.EncodingFault} :
      Text.encode (text ++ "\n") = .error fault → (d.deliver file []).1 = .ok () →
        CannotHandOver d text (some (.value file)) (.notEncodable fault)

/-- All that is expected of a command that has a text to put somewhere: it ends with status zero and
the text is there, or with status one and a report on what failed. -/
inductive Aftermath.IsInOrder (d : Disk) (text : Text) (w : Aftermath) :
    Option (Given Path) → Prop
  /-- Standard output is taken to accept every text, one with lone surrogates too. -/
  | printed : w.ending = .status 0 → w.output = text ++ "\n" → w.disk = d → IsInOrder d text w none
  | written {file : Path} {bytes : List UInt8} :
      w.ending = .status 0 → w.output = [] → Text.encode (text ++ "\n") = .ok bytes →
        w.disk.contents file = .ok bytes → IsInOrder d text w (some (.value file))
  | reported {output : Option (Given Path)} {report : Diagnostic} {line : Text} :
      w.ending = .status 1 → (Note.failed report).text? = some line → line <:+: w.errors →
        IsInOrder d text w output

theorem handsOver_or_exists_cannotHandOver (d : Disk) (text : Text)
    (output : Option (Given Path)) :
    HandsOver d text output ∨ ∃ e, CannotHandOver d text output e := by
  cases output with
  | none => exact .inl .printed
  | some given =>
    cases given with
    | nothing => exact .inr ⟨_, .noPath⟩
    | value file =>
      cases hdeliver : (d.deliver file ((Text.encode (text ++ "\n")).toOption.getD [])).1 with
      | error fault => exact .inr ⟨_, .notWritten hdeliver⟩
      | ok _ =>
        cases hbytes : Text.encode (text ++ "\n") with
        | error fault =>
          rw [hbytes] at hdeliver
          exact .inr ⟨_, .notEncodable hbytes hdeliver⟩
        | ok bytes =>
          rw [hbytes] at hdeliver
          exact .inl (.written hbytes hdeliver)

/-- Nobody expects that a text cannot be put where it should be. -/
theorem CannotHandOver.diagnostic?_eq_none (h : CannotHandOver d text output e) :
    e.diagnostic? = none := by
  cases h <;> rfl

theorem perform_of_ok {w : World}
    (h : (execute path a).run.run { disk := d, notes := [] } = (.ok text, w)) :
    (perform d path a).ending = .status 0 ∧ (perform d path a).output = printed a text ∧
      (perform d path a).disk = w.disk := by
  rw [perform, h]
  exact ⟨rfl, rfl, rfl⟩

theorem ending_perform_of_error {w : World}
    (h : (execute path a).run.run { disk := d, notes := [] } = (.error e, w))
    (hnone : e.diagnostic? = none) : (perform d path a).ending = .unforeseen e := by
  rw [perform, h]
  simp only [hnone]

end Command

theorem run_handOver_of_write (request : Request) {file : Path} (text : Text) {w : World}
    (houtput : request.output = some (.value file)) :
    (handOver request text).run.run w =
      (Program.write file text >>= fun _ => do
        Program.note (.wrote file)
        return text).run.run w := by
  rw [handOver, houtput]

/-- A text for which there is a place is put there. -/
theorem exists_run_handOver {request : Request} {d : Disk} {text : Text}
    (h : HandsOver d text request.output) (notes : List Note) :
    ∃ w, (handOver request text).run.run { disk := d, notes } = (.ok text, w) ∧
      (request.output = none → w.disk = d) ∧
        ∀ file, request.output = some (.value file) →
          ∃ bytes, Text.encode (text ++ "\n") = .ok bytes ∧ w.disk.contents file = .ok bytes := by
  generalize houtput : request.output = output at h
  cases h with
  | printed =>
    refine ⟨{ disk := d, notes }, ?_, fun _ => rfl, nofun⟩
    rw [handOver, houtput]
    rfl
  | @written file bytes hbytes hdeliver =>
    have hwrite := Program.run_write_of_deliver (w := { disk := d, notes }) hbytes
      (Prod.ext hdeliver rfl)
    refine ⟨{ disk := (d.deliver file bytes).2, notes := notes ++ [.wrote file] }, ?_, nofun, ?_⟩
    · rw [run_handOver_of_write request text houtput, ExceptT.run_bind, StateT.run_bind, hwrite]
      rfl
    · rintro _ ⟨⟩
      exact ⟨bytes, hbytes, Disk.contents_deliver hdeliver⟩

/-- A text for which there is no place ends in the failure that says why. -/
theorem exists_run_handOver_of_cannot {request : Request} {d : Disk} {text : Text} {e : Failure}
    (h : CannotHandOver d text request.output e) (notes : List Note) :
    ∃ w, (handOver request text).run.run { disk := d, notes } = (.error e, w) := by
  generalize houtput : request.output = output at h
  cases h with
  | noPath =>
    rw [handOver, houtput]
    exact ⟨_, rfl⟩
  | notWritten hdeliver =>
    rw [run_handOver_of_write request text houtput, ExceptT.run_bind, StateT.run_bind,
      Program.run_write, hdeliver]
    exact ⟨_, rfl⟩
  | notEncodable hbytes hdeliver =>
    rw [run_handOver_of_write request text houtput, ExceptT.run_bind, StateT.run_bind,
      Program.run_write, hbytes]
    simp only [Except.toOption, Option.getD_none, hdeliver]
    exact ⟨_, rfl⟩

namespace Command

variable {d : Disk} {path : Path} {a : Arguments} {r : Report} {text : Text} {e : Failure}

theorem isInOrder_perform {config : Config} {notes : List Note}
    (hexecute : (execute path a).run.run { disk := d, notes := [] } =
      (handOver (a.request path config) text).run.run { disk := d, notes })
    (h : HandsOver d text a.output) : (perform d path a).IsInOrder d text a.output := by
  have hasked : HandsOver d text (a.request path config).output := h
  obtain ⟨w, hrun, hkept, hwritten⟩ := exists_run_handOver hasked notes
  obtain ⟨hending, houtput, hdisk⟩ := perform_of_ok (hexecute.trans hrun)
  generalize hnamed : a.output = output at h
  cases h with
  | printed =>
    refine .printed hending ?_ (hdisk.trans (hkept hnamed))
    rw [houtput, printed, hnamed]
    rfl
  | @written file bytes _ _ =>
    obtain ⟨bytes, hbytes, hcontents⟩ := hwritten file hnamed
    refine .written hending ?_ hbytes (hdisk ▸ hcontents)
    rw [houtput, printed, hnamed]
    rfl

theorem ending_perform_of_cannot {config : Config} {notes : List Note}
    (hexecute : (execute path a).run.run { disk := d, notes := [] } =
      (handOver (a.request path config) text).run.run { disk := d, notes })
    (h : CannotHandOver d text a.output e) : (perform d path a).ending = .unforeseen e := by
  have hasked : CannotHandOver d text (a.request path config).output e := h
  obtain ⟨w, hrun⟩ := exists_run_handOver_of_cannot hasked notes
  exact ending_perform_of_error (hexecute.trans hrun) h.diagnostic?_eq_none

/-- A command that ends with a failure which nobody expects is not in order. -/
theorem not_isInOrder_of_unforeseen {w : Aftermath} {output : Option (Given Path)}
    (h : w.ending = .unforeseen e) : ¬ w.IsInOrder d text output := by
  intro horder
  cases horder with
  | printed hending | written hending | reported hending => cases hending.symm.trans h

end Command

/-- A command that has its report is in order just if the report can be printed or written: then it
ends with status zero, and else with a failure that nobody expects, and never with a status. -/
theorem isInOrder_carryOut_iff {d : Disk} {arguments : List Text} {path : Path} {a : Arguments}
    {r : Report} (hargs : Arguments.ofList arguments = .ok (.run path a))
    (hreport : a.report path d = .ok r) :
    ∃ format, a.format = .value format ∧
      ((carryOut d arguments).IsInOrder d (r.render format) a.output ↔
        HandsOver d (r.render format) a.output) ∧
      (¬ HandsOver d (r.render format) a.output →
        ∃ e, CannotHandOver d (r.render format) a.output e ∧
          (carryOut d arguments).ending = .unforeseen e) := by
  obtain ⟨config, format, notes, hformat, hexecute⟩ := exists_run_execute hreport
  have hrun : carryOut d arguments = perform d path a := by rw [carryOut, hargs]
  have hcannot (hnot : ¬ HandsOver d (r.render format) a.output) :
      ∃ e, CannotHandOver d (r.render format) a.output e ∧
        (carryOut d arguments).ending = .unforeseen e := by
    obtain hcan | ⟨e, he⟩ := handsOver_or_exists_cannotHandOver d (r.render format) a.output
    · exact absurd hcan hnot
    · exact ⟨e, he, hrun ▸ ending_perform_of_cannot hexecute he⟩
  refine ⟨format, hformat, ⟨fun horder => ?_, fun hcan => ?_⟩, hcannot⟩
  · by_contra hnot
    obtain ⟨e, _, hending⟩ := hcannot hnot
    exact not_isInOrder_of_unforeseen hending horder
  · rw [hrun]
    exact isInOrder_perform hexecute hcan

/-- A source file, and a folder where a report may be wanted. -/
def folderInTheWay : Disk where
  root := .folder [("A.java", .file []), ("o", .folder [])]
  here := []

/-- A command that is to write its report where the folder is. -/
def intoFolder : Arguments where
  mode := .value .sourceFile
  output := some (.value (.ofText "o"))

/-- The report on an empty source file. -/
def emptyReport : ClassReport where
  className := "A"
  packageName := "java"
  declaredPackage := none
  dependencies := .ofList []

theorem ofList_intoFolder :
    Arguments.ofList ["-m", "class", "-o", "o", "A.java"] =
      .ok (.run (.ofText "A.java") intoFolder) := by
  cbv

theorem report_intoFolder :
    intoFolder.report (.ofText "A.java") folderInTheWay = .ok (.ofClass emptyReport) := by
  cbv

theorem ending_intoFolder :
    (carryOut folderInTheWay ["-m", "class", "-o", "o", "A.java"]).ending =
      .unforeseen (.cannotWrite { fault := .isAFolder, path := .ofText "o" }) := by
  cbv

theorem isInOrder_carryOut_intoFolder_iff :
    Arguments.ofList ["-m", "class", "-o", "o", "A.java"] =
      .ok (.run (.ofText "A.java") intoFolder) ∧
    intoFolder.report (.ofText "A.java") folderInTheWay = .ok (.ofClass emptyReport) ∧
    ∃ format, intoFolder.format = .value format ∧
      ((carryOut folderInTheWay ["-m", "class", "-o", "o", "A.java"]).IsInOrder folderInTheWay
          ((Report.ofClass emptyReport).render format) intoFolder.output ↔
        HandsOver folderInTheWay ((Report.ofClass emptyReport).render format)
          intoFolder.output) ∧
      (¬ HandsOver folderInTheWay ((Report.ofClass emptyReport).render format)
          intoFolder.output →
        ∃ e, CannotHandOver folderInTheWay ((Report.ofClass emptyReport).render format)
            intoFolder.output e ∧
          (carryOut folderInTheWay ["-m", "class", "-o", "o", "A.java"]).ending =
            .unforeseen e) :=
  ⟨ofList_intoFolder, report_intoFolder,
    isInOrder_carryOut_iff ofList_intoFolder report_intoFolder⟩

/-- Where a folder is in the way of the report, a command ends without a status. -/
theorem not_isInOrder_intoFolder :
    Arguments.ofList ["-m", "class", "-o", "o", "A.java"] =
      .ok (.run (.ofText "A.java") intoFolder) ∧
    intoFolder.report (.ofText "A.java") folderInTheWay = .ok (.ofClass emptyReport) ∧
    ¬ (carryOut folderInTheWay ["-m", "class", "-o", "o", "A.java"]).IsInOrder folderInTheWay
      ((Report.ofClass emptyReport).render .text) intoFolder.output :=
  ⟨ofList_intoFolder, report_intoFolder, not_isInOrder_of_unforeseen ending_intoFolder⟩

end TypeAtlas
