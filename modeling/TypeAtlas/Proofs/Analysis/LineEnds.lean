import Mathlib
import TypeAtlas.Analysis.Basic
import TypeAtlas.Proofs.Except
import TypeAtlas.Proofs.Text.LineEnds

namespace TypeAtlas

variable {d d' : Disk} {path : Path} {bytes : List UInt8}

theorem Disk.readSource_of_contents (h : d.contents path = .ok bytes) :
    d.readSource path = .ok (Text.ofBytes bytes) := by
  rw [readSource, h]
  rfl

/-- The analysis of a source file looks at nothing but its text. -/
theorem analyzeClass_congr (h : d'.readSource path = d.readSource path) (c : Settings) :
    analyzeClass d' c path = analyzeClass d c path ∧ classJob d' c path = classJob d c path := by
  constructor
  · rw [analyzeClass, analyzeClass, Disk.reportOnClass, Disk.reportOnClass, h]
  · rw [classJob, classJob, h]

/-- A source file is read as the same text, and its analysis comes to the same report or the same
failure, however its lines end, and whatever in it is no character. -/
theorem analyzeClass_eq_of_lineEnd (e : LineEnd) (hreturn : 0x0D ∉ bytes)
    (h : d.contents path = .ok bytes)
    (h' : d'.contents path = .ok (replaceEach 0x0A e.bytes bytes)) :
    (∃ source, d.readSource path = .ok source ∧ d'.readSource path = .ok source) ∧
      ∀ c : Settings, analyzeClass d' c path = analyzeClass d c path ∧
        classJob d' c path = classJob d c path := by
  have hread := Disk.readSource_of_contents h
  have hread' := Disk.readSource_of_contents h'
  have hsame : Text.ofBytes (replaceEach 0x0A e.bytes bytes) = Text.ofBytes bytes := by
    rw [Text.ofBytes_replaceEach e hreturn, Text.ofBytes_of_notMem hreturn]
  rw [hsame] at hread'
  exact ⟨⟨_, hread, hread'⟩, analyzeClass_congr (hread'.trans hread.symm)⟩

/-- A source file with the given bytes, and nothing else. -/
def onlySource (bytes : List UInt8) : Disk where
  root := .folder [("A.java", .file bytes)]
  here := []

/-- An import whose last character breaks off at the end of the line, and another line. -/
def brokenImport : List UInt8 :=
  [0x69, 0x6D, 0x70, 0x6F, 0x72, 0x74, 0x20, 0x61, 0x2E, 0xE2, 0x82, 0x0A, 0x3B, 0x0A]

theorem analyzeClass_eq_brokenImport :
    0x0D ∉ brokenImport ∧
      (onlySource brokenImport).contents (.ofText "A.java") = .ok brokenImport ∧
      (onlySource (replaceEach 0x0A LineEnd.both.bytes brokenImport)).contents (.ofText "A.java") =
        .ok (replaceEach 0x0A LineEnd.both.bytes brokenImport) ∧
      (∃ source, (onlySource brokenImport).readSource (.ofText "A.java") = .ok source ∧
        (onlySource (replaceEach 0x0A LineEnd.both.bytes brokenImport)).readSource
          (.ofText "A.java") = .ok source) ∧
      ∀ c : Settings,
        analyzeClass (onlySource (replaceEach 0x0A LineEnd.both.bytes brokenImport)) c
            (.ofText "A.java") = analyzeClass (onlySource brokenImport) c (.ofText "A.java") ∧
          classJob (onlySource (replaceEach 0x0A LineEnd.both.bytes brokenImport)) c
            (.ofText "A.java") = classJob (onlySource brokenImport) c (.ofText "A.java") := by
  have hreturn : 0x0D ∉ brokenImport := by decide
  have hcontents (bytes : List UInt8) :
      (onlySource bytes).contents (.ofText "A.java") = .ok bytes := by
    cbv
  exact ⟨hreturn, hcontents _, hcontents _,
    analyzeClass_eq_of_lineEnd .both hreturn (hcontents _) (hcontents _)⟩

end TypeAtlas
