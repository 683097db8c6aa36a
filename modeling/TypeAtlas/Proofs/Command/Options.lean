import TypeAtlas.Command.Arguments
import TypeAtlas.Proofs.Except

namespace TypeAtlas.Command

theorem splitAtEquals_append {spelling value : Text} (h : '='.toNat ∉ spelling) :
    Word.splitAtEquals (spelling ++ '='.toNat :: value) = (spelling, some value) := by
  have hne : ∀ c ∈ spelling, decide (c ≠ '='.toNat) = true := fun c hc =>
    decide_eq_true fun heq => h (heq ▸ hc)
  unfold Word.splitAtEquals
  rw [List.dropWhile_append_of_pos hne, List.takeWhile_append_of_pos hne,
    List.dropWhile_cons_of_neg (by simp), List.takeWhile_cons_of_neg (by simp), List.append_nil]

theorem equals_not_mem_of_ofSpelling? {spelling : Text} {s : Switch}
    (h : Switch.ofSpelling? spelling = some s) : '='.toNat ∉ spelling := by
  have htable : ∀ entry ∈ Switch.table, '='.toNat ∉ (entry.1 : Text) := by decide
  rw [Switch.ofSpelling?, Option.map_eq_some_iff] at h
  obtain ⟨entry, hfind, _⟩ := h
  obtain rfl : (entry.1 : Text) = spelling := by simpa using List.find?_some hfind
  exact htable entry (List.mem_of_find?_eq_some hfind)

/-- An option with its value after an equals sign. -/
theorem ofArgument_append {spelling : Text} {s : Switch} (value : Text)
    (h : Switch.ofSpelling? spelling = some s) (hhead : spelling.head? = some '-'.toNat) :
    Word.ofArgument (spelling ++ '='.toNat :: value) = .ok (.option s spelling (some value)) := by
  have hnone : Switch.ofSpelling? (spelling ++ '='.toNat :: value) = none := by
    rw [Option.eq_none_iff_forall_ne_some]
    intro s' hs'
    exact equals_not_mem_of_ofSpelling? hs' (by simp)
  have hlength : (spelling ++ '='.toNat :: value).length ≠ 1 := by
    obtain ⟨rest, rfl⟩ := List.head?_eq_some_iff.mp hhead
    simp
  have hoption : (spelling ++ '='.toNat :: value).head? = some '-'.toNat := by
    rw [List.head?_append, hhead, Option.some_or]
  unfold Word.ofArgument
  rw [hnone, splitAtEquals_append (equals_not_mem_of_ofSpelling? h)]
  simp only [h, hlength, hoption, ne_eq, not_true_eq_false, decide_false, Bool.or_false,
    Bool.false_eq_true, if_false]

/-- An option for the output file that stands before the others counts unless one of them names
another file. -/
def Arguments.withOutput (output : Given Path) (a : Arguments) : Arguments :=
  { a with output := a.output.or (some output) }

def Wish.withOutput (output : Given Path) : Wish → Wish
  | .run path a => .run path (a.withOutput output)
  | .help => .help

theorem setFlag_withOutput (output : Given Path) (a : Arguments) (s : Switch) :
    (a.withOutput output).setFlag s = (a.setFlag s).map (·.withOutput output) := by
  cases s <;> rfl

theorem setFlags_withOutput (output : Given Path) (a : Arguments) (flags : List Switch) :
    (a.withOutput output).setFlags flags = (a.setFlags flags).map (·.withOutput output) := by
  induction flags generalizing a with
  | nil => rfl
  | cons s flags ih =>
    rw [Arguments.setFlags, Arguments.setFlags, setFlag_withOutput]
    cases a.setFlag s with
    | none => rfl
    | some a => exact ih a

theorem setValue_withOutput (output : Given Path) (a : Arguments) (s : Switch) (value : Text) :
    (a.withOutput output).setValue s value = (a.setValue s value).map (·.withOutput output) := by
  cases s with
  | help | noCancel | verbose => rfl
  | mode =>
    simp only [Arguments.setValue]
    cases Arguments.given value (Arguments.choice .mode Mode.all Mode.name) <;> rfl
  | format =>
    simp only [Arguments.setValue]
    cases Arguments.given value (Arguments.choice .format Format.all Format.name) <;> rfl
  | output =>
    simp only [Arguments.setValue]
    cases Arguments.given value fun v => .ok (Path.ofText v) <;> rfl
  | config =>
    simp only [Arguments.setValue]
    cases Arguments.given value fun v => .ok (Path.ofText v) <;> rfl
  | maxConcurrency =>
    simp only [Arguments.setValue]
    cases Arguments.given value (Arguments.integer .maxConcurrency) <;> rfl

/-- A plain argument is the path, or it is left over. -/
theorem read_plain (a : Arguments) (path : Option Path) (extras : List Text) (argument : Text)
    {rest : List Word} (h : ∀ more, rest ≠ .separator :: more) :
    a.read path extras (.plain argument :: rest) =
      if path.isNone then a.read (some (.ofText argument)) extras rest
      else a.read path (extras ++ [argument]) rest := by
  cases rest with
  | nil => rfl
  | cons word rest =>
    cases word with
    | option | unknown | plain => rfl
    | separator => exact absurd rfl (h rest)

theorem read_withOutput (output : Given Path) (a : Arguments) (path : Option Path)
    (extras : List Text) (words : List Word) :
    (a.withOutput output).read path extras words =
      (a.read path extras words).map (·.withOutput output) := by
  match words with
  | [] =>
    cases path with
    | none => rfl
    | some path => cases extras <;> rfl
  | .unknown argument :: rest =>
    rw [Arguments.read, Arguments.read]
    exact read_withOutput output a path _ rest
  | .separator :: rest =>
    rw [Arguments.read, Arguments.read]
    split <;> exact read_withOutput output a path _ rest
  | .plain argument :: rest =>
    by_cases hseparator : ∃ more, rest = .separator :: more
    · obtain ⟨more, rfl⟩ := hseparator
      rw [Arguments.read, Arguments.read]
      split <;> exact read_withOutput output a _ _ more
    · rw [not_exists] at hseparator
      rw [read_plain _ _ _ _ hseparator, read_plain _ _ _ _ hseparator]
      split <;> exact read_withOutput output a _ _ rest
  | .option s spelling value :: rest =>
    rw [Arguments.read, Arguments.read]
    cases Arguments.readOption s spelling value with
    | error fault => rfl
    | ok cluster =>
      rw [ok_bind, ok_bind]
      cases cluster with
      | flags flags =>
        simp only [setFlags_withOutput]
        cases a.setFlags flags with
        | none => rfl
        | some a => exact read_withOutput output a path extras rest
      | valued flags s value =>
        simp only [setFlags_withOutput]
        cases a.setFlags flags with
        | none => rfl
        | some a =>
          simp only [Option.map_some, setValue_withOutput]
          cases a.setValue s value with
          | error fault => rfl
          | ok a => exact read_withOutput output a path extras rest
      | pending flags s =>
        cases rest with
        | nil => rfl
        | cons word rest =>
          cases word with
          | option | unknown | separator => rfl
          | plain value =>
            simp only [setFlags_withOutput]
            cases a.setFlags flags with
            | none => rfl
            | some a =>
              simp only [Option.map_some, setValue_withOutput]
              cases a.setValue s value with
              | error fault => rfl
              | ok a => exact read_withOutput output a path extras rest
termination_by words.length

/-- The argument that names the file for the report. -/
def outputArgument (file : Text) : Text :=
  "--output=" ++ file

/-- What is asked for does not change when a file for the report is named before. -/
theorem ofList_outputArgument {arguments : List Text} {path : Path} {a : Arguments} {file : Text}
    {output : Given Path} (h : Arguments.ofList arguments = .ok (.run path a))
    (hfile : Arguments.given file (fun value => .ok (Path.ofText value)) = .ok output) :
    Arguments.ofList (outputArgument file :: arguments) = .ok (.run path (a.withOutput output)) := by
  obtain ⟨words, hwords, hread⟩ := bind_eq_ok_iff.mp h
  have hspelled : outputArgument file = ("--output" : Text) ++ '='.toNat :: file := by
    have hstart : ("--output=" : Text) = ("--output" : Text) ++ ['='.toNat] := by decide
    rw [outputArgument, hstart, List.append_assoc, List.singleton_append]
  have hword : Word.ofArgument (outputArgument file) =
      .ok (.option .output "--output" (some file)) := by
    rw [hspelled]
    exact ofArgument_append file (by decide) (by decide)
  have hne : outputArgument file ≠ "--" := by
    intro heq
    have hmem : '='.toNat ∈ outputArgument file := by simp [hspelled]
    rw [heq] at hmem
    revert hmem
    decide
  have hset : Arguments.setValue {} .output file = .ok (Arguments.withOutput output {}) := by
    rw [Arguments.setValue, hfile]
    rfl
  rw [Arguments.ofList, Word.ofArguments, if_neg hne, hword, ok_bind, hwords, ok_bind]
  change Arguments.read {} none [] (.option .output "--output" (some file) :: words) = _
  rw [Arguments.read]
  change (Arguments.setValue {} .output file >>= fun a => a.read none [] words) = _
  rw [hset, ok_bind, read_withOutput, hread]
  rfl

end TypeAtlas.Command
