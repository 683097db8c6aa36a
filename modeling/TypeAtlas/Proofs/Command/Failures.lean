import TypeAtlas.Proofs.Command.Output

namespace TypeAtlas

open Command

namespace Program

variable {α β : Type} {x : Program α} {f : Disk → Except Failure α} {d : Disk} {e : Failure}

/-- A program only looks at the files, and comes to what `f` makes of them. -/
def Reads (x : Program α) (f : Disk → Except Failure α) : Prop :=
  ∀ w, ∃ later, x.run.run w = (f w.disk, { w with notes := w.notes ++ later })

theorem reads_pure (v : α) : Reads (pure v) fun _ => .ok v :=
  fun w => ⟨[], by rw [List.append_nil]; rfl⟩

theorem reads_liftM (r : Except Failure α) : Reads (liftM r) fun _ => r := by
  intro w
  refine ⟨[], ?_⟩
  rw [List.append_nil]
  cases r <;> rfl

theorem reads_note (n : Note) : Reads (note n) fun _ => .ok () :=
  fun _ => ⟨[n], rfl⟩

theorem reads_look (a : Disk → Analysis α) : Reads (look a) fun d => (a d).outcome.1 := by
  intro w
  refine ⟨(a w.disk).outcome.2, ?_⟩
  rw [run_look]
  beta_reduce
  cases (a w.disk).outcome.1 <;> rfl

theorem Reads.bind {y : α → Program β} {g : α → Disk → Except Failure β} (hx : Reads x f)
    (hy : ∀ v, Reads (y v) (g v)) : Reads (x >>= y) fun d => f d >>= fun v => g v d := by
  intro w
  obtain ⟨first, hfirst⟩ := hx w
  rw [ExceptT.run_bind, StateT.run_bind, hfirst]
  beta_reduce
  cases f w.disk with
  | error e => exact ⟨first, rfl⟩
  | ok v =>
    obtain ⟨later, hlater⟩ := hy v { w with notes := w.notes ++ first }
    refine ⟨first ++ later, ?_⟩
    rw [← List.append_assoc]
    exact hlater

/-- A program fails, and leaves all files as they are. -/
def Stops (x : Program α) (d : Disk) (e : Failure) : Prop :=
  ∀ notes, ∃ later,
    x.run.run { disk := d, notes } = (.error e, { disk := d, notes := notes ++ later })

/-- What comes after a failure is not done. -/
theorem Reads.stops (hx : Reads x f) (h : f d = .error e) (y : α → Program β) :
    Stops (x >>= y) d e := by
  intro notes
  obtain ⟨later, hlater⟩ := hx { disk := d, notes }
  refine ⟨later, ?_⟩
  rw [ExceptT.run_bind, StateT.run_bind, hlater]
  simp only [h]
  rfl

theorem Reads.run_bind {v : α} (hx : Reads x f) (h : f d = .ok v) (y : α → Program β)
    (notes : List Note) :
    ∃ later, (x >>= y).run.run { disk := d, notes } =
      (y v).run.run { disk := d, notes := notes ++ later } := by
  obtain ⟨later, hlater⟩ := hx { disk := d, notes }
  refine ⟨later, ?_⟩
  rw [ExceptT.run_bind, StateT.run_bind, hlater]
  simp only [h]
  rfl

theorem Stops.of_reads {v : α} {y : α → Program β} (hy : Stops (y v) d e) (hx : Reads x f)
    (h : f d = .ok v) : Stops (x >>= y) d e := by
  intro notes
  obtain ⟨first, hfirst⟩ := hx.run_bind h y notes
  obtain ⟨later, hlater⟩ := hy (notes ++ first)
  exact ⟨first ++ later, by rw [hfirst, hlater, List.append_assoc]⟩

/-- Nobody expects that a text cannot be written. -/
theorem diagnostic?_of_write {file : Path} {text : Text} {w w' : World}
    (h : (write file text).run.run w = (.error e, w')) : e.diagnostic? = none := by
  rw [run_write] at h
  split at h
  · obtain rfl := Except.error.inj (Prod.mk.inj h).1
    rfl
  · obtain rfl := Except.error.inj (Prod.mk.inj h).1
    rfl
  · cases h

end Program

/-- The part of a run that makes its report. -/
def makeReport (r : Request) : Program Report := do
  let config ← match r.config with
    | some config => pure config
    | none => Program.look fun d => loadConfig d (configProject r) r.configPath
  Program.note (.analyzing r.mode r.path config.toSettings)
  Program.look fun d => analyze d config.toSettings r.path r.mode

/-- The part of a run that writes what it has made. -/
def handOver (r : Request) (text : Text) : Program Text :=
  match r.output with
  | none => return text
  | some .nothing => throw (.noValue .outputPath)
  | some (.value output) => do
    Program.write output text
    Program.note (.wrote output)
    return text

theorem run_eq (r : Request) :
    run r = match r.format.value?.bind Format.ofName? with
      | none => throw (.unknownFormat r.format)
      | some format => makeReport r >>= fun report => handOver r (report.render format) := by
  rw [run]
  cases r.format.value?.bind Format.ofName? with
  | none => rfl
  | some format =>
    unfold makeReport handOver
    cases r.config <;> exact ((bind_assoc ..).trans (bind_congr fun _ => bind_assoc ..)).symm

namespace Request

/-- The configuration of a run. -/
def configured (r : Request) (d : Disk) : Except Failure Config :=
  match r.config with
  | some config => .ok config
  | none => (loadConfig d (configProject r) r.configPath).outcome.1

/-- What a run comes to before it writes anything. -/
def report (r : Request) (d : Disk) : Except Failure Report :=
  match r.format.value?.bind Format.ofName? with
  | none => .error (.unknownFormat r.format)
  | some _ => do
    let config ← r.configured d
    (analyze d config.toSettings r.path r.mode).outcome.1

end Request

theorem reads_makeReport (r : Request) :
    (makeReport r).Reads fun d => r.configured d >>= fun config =>
      (analyze d config.toSettings r.path r.mode).outcome.1 := by
  have hanalysis (config : Config) : Program.Reads (do
      Program.note (.analyzing r.mode r.path config.toSettings)
      Program.look fun d => analyze d config.toSettings r.path r.mode) fun d =>
        (analyze d config.toSettings r.path r.mode).outcome.1 :=
    (Program.reads_note _).bind fun _ => Program.reads_look _
  unfold makeReport Request.configured
  cases r.config with
  | some config => exact (Program.reads_pure config).bind hanalysis
  | none => exact (Program.reads_look _).bind hanalysis

/-- A run that comes to no report fails for that reason. -/
theorem stops_run {r : Request} {d : Disk} {e : Failure} (h : r.report d = .error e) :
    (run r).Stops d e := by
  rw [run_eq]
  rw [Request.report] at h
  cases hformat : r.format.value?.bind Format.ofName? with
  | none =>
    rw [hformat] at h
    obtain rfl := Except.error.inj h
    exact fun notes => ⟨[], by rw [List.append_nil]; rfl⟩
  | some format =>
    rw [hformat] at h
    exact (reads_makeReport r).stops h _

/-- A run that comes to a report hands it over. -/
theorem exists_run_of_report {r : Request} {d : Disk} {report : Report}
    (h : r.report d = .ok report) (notes : List Note) :
    ∃ format later, r.format.value?.bind Format.ofName? = some format ∧
      (run r).run.run { disk := d, notes } =
        (handOver r (report.render format)).run.run { disk := d, notes := notes ++ later } := by
  rw [run_eq]
  rw [Request.report] at h
  cases hformat : r.format.value?.bind Format.ofName? with
  | none =>
    rw [hformat] at h
    cases h
  | some format =>
    rw [hformat] at h
    obtain ⟨later, hlater⟩ := (reads_makeReport r).run_bind h
      (fun report => handOver r (report.render format)) notes
    exact ⟨format, later, rfl, hlater⟩

theorem diagnostic?_of_handOver {r : Request} {text : Text} {w w' : World} {e : Failure}
    (h : (handOver r text).run.run w = (.error e, w')) : e.diagnostic? = none := by
  unfold handOver at h
  cases houtput : r.output with
  | none =>
    rw [houtput] at h
    cases h
  | some output =>
    rw [houtput] at h
    cases output with
    | nothing =>
      obtain rfl := Except.error.inj (Prod.mk.inj h).1
      rfl
    | value file =>
      have hwrite : (Program.write file text >>= fun _ => do
          Program.note (.wrote file)
          return text).run.run w = (.error e, w') := h
      rw [ExceptT.run_bind, StateT.run_bind] at hwrite
      rcases hwritten : (Program.write file text).run.run w with ⟨result, u⟩
      rw [hwritten] at hwrite
      cases result with
      | ok _ => cases hwrite
      | error fault =>
        obtain rfl := Except.error.inj (Prod.mk.inj hwrite).1
        exact Program.diagnostic?_of_write hwritten

namespace Command

variable {path : Path} {a : Arguments} {d : Disk} {e : Failure} {r : Report}

/-- What a command asks of a run. -/
def Arguments.request (a : Arguments) (path : Path) (config : Config) : Request :=
  { path, mode := a.mode.map fun m => m.name, format := a.format.map fun f => f.name
    output := a.output, config := some config }

/-- The configuration of a command. -/
def Arguments.configured (a : Arguments) (path : Path) (d : Disk) : Except Failure Config := do
  let project := if a.mode = .value .project then some path else none
  let named ← valueOf .configPath a.config
  let loaded ← (loadConfig d project named).outcome.1
  (loaded.replace (← a.overrides)).mapError Failure.badSettings

/-- What a command comes to before it writes anything. -/
def Arguments.report (a : Arguments) (path : Path) (d : Disk) : Except Failure Report := do
  (a.request path (← a.configured path d)).report d

/-- The part of a command that looks for the configuration. -/
def configure (path : Path) (a : Arguments) : Program Config := do
  let project := if a.mode = .value .project then some path else none
  let named ← valueOf .configPath a.config
  let loaded ← Program.look fun d => loadConfig d project named
  (loaded.replace (← a.overrides)).mapError Failure.badSettings

theorem execute_eq (path : Path) (a : Arguments) :
    execute path a = configure path a >>= fun config => run (a.request path config) := by
  unfold execute configure
  simp only [bind_assoc]
  rfl

theorem reads_configure (path : Path) (a : Arguments) :
    (configure path a).Reads (a.configured path) :=
  (Program.reads_liftM _).bind fun _ => (Program.reads_look _).bind fun _ =>
    (Program.reads_liftM _).bind fun _ => Program.reads_liftM _

/-- A command that comes to no report fails for that reason. -/
theorem stops_execute (h : a.report path d = .error e) : (execute path a).Stops d e := by
  rw [execute_eq]
  cases hconfig : a.configured path d with
  | error fault =>
    rw [Arguments.report, hconfig] at h
    obtain rfl := Except.error.inj h
    exact (reads_configure path a).stops hconfig _
  | ok config =>
    rw [Arguments.report, hconfig] at h
    exact Program.Stops.of_reads (y := fun config => run (a.request path config)) (stops_run h)
      (reads_configure path a) hconfig

/-- How a command ends that fails. -/
def endingOf (e : Failure) : Ending :=
  if e.diagnostic?.isSome then .status 1 else .unforeseen e

theorem perform_of_stops (h : (execute path a).Stops d e) :
    (perform d path a).ending = endingOf e ∧ (perform d path a).output = [] ∧
      (perform d path a).disk = d := by
  obtain ⟨later, hexecute⟩ := h []
  unfold perform endingOf
  simp only [hexecute]
  cases e.diagnostic? <;> exact ⟨rfl, rfl, rfl⟩

theorem format_eq_of_ofName? {g : Given Format} {format : Format}
    (h : (g.map fun f => (f.name : Text)).value?.bind Format.ofName? = some format) :
    g = .value format := by
  cases g with
  | nothing => cases h
  | value f =>
    have hname : Format.ofName? f.name = some f := by cases f <;> decide
    exact congrArg Given.value (Option.some.inj (hname.symm.trans h))

/-- A command that has its report hands it over in the format that is asked for. -/
theorem exists_run_execute (h : a.report path d = .ok r) :
    ∃ config format later, a.format = .value format ∧
      (execute path a).run.run { disk := d, notes := [] } =
        (handOver (a.request path config) (r.render format)).run.run
          { disk := d, notes := later } := by
  rw [execute_eq]
  cases hconfig : a.configured path d with
  | error fault =>
    rw [Arguments.report, hconfig] at h
    cases h
  | ok config =>
    rw [Arguments.report, hconfig] at h
    obtain ⟨first, hfirst⟩ := (reads_configure path a).run_bind hconfig
      (fun config => run (a.request path config)) []
    obtain ⟨format, later, hformat, hlater⟩ := exists_run_of_report h ([] ++ first)
    exact ⟨config, format, _, format_eq_of_ofName? hformat, hfirst.trans hlater⟩

theorem disk_perform_of_status_one (h : (perform d path a).ending = .status 1) :
    (perform d path a).disk = d ∧ (perform d path a).output = [] := by
  cases hreport : a.report path d with
  | error e =>
    obtain ⟨-, houtput, hdisk⟩ := perform_of_stops (stops_execute hreport)
    exact ⟨hdisk, houtput⟩
  | ok report =>
    obtain ⟨config, format, later, -, hexecute⟩ := exists_run_execute hreport
    unfold perform at h
    rw [hexecute] at h
    rcases hrun : (handOver (a.request path config) (report.render format)).run.run
      { disk := d, notes := later } with ⟨result, w⟩
    rw [hrun] at h
    cases result with
    | ok text => cases h
    | error e =>
      have hnone := diagnostic?_of_handOver hrun
      simp only [hnone] at h
      cases h

/-- A command that ends with status one has written nothing. -/
theorem disk_carryOut_of_status_one {arguments : List Text}
    (h : (carryOut d arguments).ending = .status 1) :
    (carryOut d arguments).disk = d ∧ (carryOut d arguments).output = [] := by
  rw [carryOut] at h ⊢
  cases hargs : Arguments.ofList arguments with
  | error fault =>
    rw [hargs] at h
    cases h
  | ok wish =>
    rw [hargs] at h
    cases wish with
    | help => cases h
    | run path a => exact disk_perform_of_status_one h

end Command

/-- What fails before it has a report leaves all files as they are, whatever it was to write where,
and prints nothing; a command reports what it can, and ends with status one. -/
theorem keepsAll_of_report_eq_error (d : Disk) (e : Failure) :
    (∀ r : Request, r.report d = .error e → (run r).Stops d e) ∧
    ∀ arguments path a, Arguments.ofList arguments = .ok (.run path a) →
      a.report path d = .error e →
        (carryOut d arguments).disk = d ∧ (carryOut d arguments).output = [] ∧
          (carryOut d arguments).ending = endingOf e := by
  refine ⟨fun r => stops_run, fun arguments path a hargs hreport => ?_⟩
  rw [carryOut, hargs]
  obtain ⟨hending, houtput, hdisk⟩ := perform_of_stops (stops_execute hreport)
  exact ⟨hdisk, houtput, hending⟩

/-- A command about a file that is missing, with one that is there for its output. -/
def missingFile : Arguments where
  mode := .value .sourceFile
  output := some (.value (.ofText "A.java"))

theorem ofList_missingFile :
    Arguments.ofList ["-m", "class", "-o", "A.java", "B.java"] =
      .ok (.run (.ofText "B.java") missingFile) := by
  cbv

theorem analyze_missingFile :
    (analyze sourceDisk {} (.ofText "B.java") (.value "class")).outcome.1 =
      .error (.cannotRead (.ofText "B.java") .notFound) := by
  cbv

theorem report_missingFile :
    (missingFile.request (.ofText "B.java") default).report sourceDisk =
      .error (.cannotRead (.ofText "B.java") .notFound) :=
  analyze_missingFile

theorem configured_missingFile :
    missingFile.configured (.ofText "B.java") sourceDisk = .ok default :=
  rfl

theorem keepsAll_of_missingFile :
    (missingFile.request (.ofText "B.java") default).report sourceDisk =
      .error (.cannotRead (.ofText "B.java") .notFound) ∧
    (run (missingFile.request (.ofText "B.java") default)).Stops sourceDisk
      (.cannotRead (.ofText "B.java") .notFound) ∧
    Arguments.ofList ["-m", "class", "-o", "A.java", "B.java"] =
      .ok (.run (.ofText "B.java") missingFile) ∧
    missingFile.report (.ofText "B.java") sourceDisk =
      .error (.cannotRead (.ofText "B.java") .notFound) ∧
    (carryOut sourceDisk ["-m", "class", "-o", "A.java", "B.java"]).disk = sourceDisk ∧
    (carryOut sourceDisk ["-m", "class", "-o", "A.java", "B.java"]).output = [] ∧
    (carryOut sourceDisk ["-m", "class", "-o", "A.java", "B.java"]).ending = .status 1 := by
  have hcommand : missingFile.report (.ofText "B.java") sourceDisk =
      .error (.cannotRead (.ofText "B.java") .notFound) := by
    rw [Arguments.report, configured_missingFile]
    exact report_missingFile
  have hkept := keepsAll_of_report_eq_error sourceDisk (.cannotRead (.ofText "B.java") .notFound)
  exact ⟨report_missingFile, hkept.1 _ report_missingFile, ofList_missingFile, hcommand,
    hkept.2 _ _ _ ofList_missingFile hcommand⟩

end TypeAtlas
