import TypeAtlas.Proofs.Report.Sorted

namespace TypeAtlas

/-- What is said of a class, both in an outline and in a JSON value. -/
structure ClassEntry where
  className : Text
  packageName : Text
  dependencies : List Text
  deriving DecidableEq

def ClassReport.entry (c : ClassReport) : ClassEntry where
  className := c.className
  packageName := c.packageName
  dependencies := c.dependencies.toList

namespace Json

mutual

/-- All objects in a value, in the order in which they begin. -/
def objects : Json → List Json
  | .object members => .object members :: objectsOfMembers members
  | .array items => objectsOfItems items
  | _ => []

def objectsOfItems : List Json → List Json
  | [] => []
  | j :: js => objects j ++ objectsOfItems js

def objectsOfMembers : List (Text × Json) → List Json
  | [] => []
  | (_, j) :: ms => objects j ++ objectsOfMembers ms

end

theorem objectsOfItems_eq (js : List Json) : objectsOfItems js = js.flatMap objects := by
  induction js with
  | nil => rfl
  | cons j js ih => rw [objectsOfItems, ih, List.flatMap_cons]

def text? : Json → Option Text
  | .text t => some t
  | _ => none

def texts? : Json → Option (List Text)
  | .array items => items.mapM text?
  | _ => none

theorem texts?_map_text (ts : List Text) : texts? (.array (ts.map .text)) = some ts := by
  rw [texts?]
  induction ts with
  | nil => rfl
  | cons t ts ih => simp [text?, ih]

/-- What an object says of a class, if it is about one. -/
def classEntry? (j : Json) : Option ClassEntry := do
  let className ← (← j.get? "class_name").text?
  let packageName ← (← j.get? "package_name").text?
  let dependencies ← (← j.get? "dependencies").texts?
  return { className, packageName, dependencies }

/-- What a value says of classes, from its beginning to its end. -/
def classEntries (j : Json) : List ClassEntry :=
  j.objects.filterMap classEntry?

theorem classEntries_array (js : List Json) :
    (array js).classEntries = js.flatMap classEntries := by
  rw [classEntries, objects, objectsOfItems_eq, List.filterMap_flatMap]
  rfl

end Json

theorem ClassReport.classEntries_json (c : ClassReport) : c.json.classEntries = [c.entry] := by
  have hdeclared : (c.declaredPackage.elim Json.null .text).objects = [] := by
    cases c.declaredPackage <;> rfl
  have hnames : Json.objectsOfItems (c.dependencies.toList.map .text) = [] := by
    rw [Json.objectsOfItems_eq, List.flatMap_eq_nil_iff]
    intro j hj
    obtain ⟨t, _, rfl⟩ := List.mem_map.mp hj
    rfl
  have hentry : c.json.classEntry? = some c.entry := by
    simp [Json.classEntry?, json, Json.get?, Json.text?, Json.texts?_map_text, entry,
      Text.ofString]
  have hobjects : c.json.objects = [c.json] := by
    simp [json, Json.objects, Json.objectsOfMembers, hdeclared, hnames]
  rw [Json.classEntries, hobjects, List.filterMap_cons_some hentry, List.filterMap_nil]

/-- A part of an outline: the heading of a package, or a class with what it depends on. -/
inductive OutlineItem
  | heading (depth : Nat) (name : Text)
  | ofClass (depth : Nat) (entry : ClassEntry)

namespace OutlineItem

def lines : OutlineItem → List Text
  | .heading depth name => [outlineLine depth ("[" ++ name ++ "]")]
  | .ofClass depth entry =>
    outlineLine depth (entry.className ++ " (" ++ entry.packageName ++ ")") ::
      entry.dependencies.map fun name => outlineLine (depth + 1) ("-> " ++ name)

def entry? : OutlineItem → Option ClassEntry
  | .heading .. => none
  | .ofClass _ entry => some entry

end OutlineItem

namespace PackageReport

/-- The parts of the outline of a package. -/
def items (depth : Nat) (p : PackageReport) : List OutlineItem :=
  .heading depth p.packageName ::
    p.sortedClasses.map (fun c => .ofClass (depth + 1) c.entry) ++
      (sorted p.subpackages).attach.flatMap fun ⟨q, h⟩ =>
        have := sizeOf_lt_of_mem_subpackages (mem_sorted.mp h)
        items (depth + 1) q
termination_by sizeOf p

theorem items_eq (depth : Nat) (p : PackageReport) :
    p.items depth = .heading depth p.packageName ::
      (p.sortedClasses.map (fun c => .ofClass (depth + 1) c.entry) ++
        (sorted p.subpackages).flatMap (items (depth + 1))) := by
  rw [items]
  simp only [List.flatMap_subtype, List.unattach_attach, List.cons_append]

theorem outline_eq_flatMap_items (depth : Nat) (p : PackageReport) :
    p.outline depth = (p.items depth).flatMap OutlineItem.lines := by
  induction p using induction_subpackages generalizing depth with
  | step p ih =>
    have hinner : (sorted p.subpackages).flatMap (outline (depth + 1)) =
        ((sorted p.subpackages).flatMap (items (depth + 1))).flatMap OutlineItem.lines := by
      rw [List.flatMap_assoc]
      exact List.flatMap_congr fun q hq => ih q (mem_of_mem_sorted hq) (depth + 1)
    rw [outline_eq, items_eq, List.flatMap_cons, List.flatMap_append, List.flatMap_map, hinner]
    rfl

/-- The classes of a package come before those of the packages in it. -/
theorem classEntries_json (p : PackageReport) :
    p.json.classEntries = p.sortedClasses.map ClassReport.entry ++
      (sorted p.subpackages).flatMap fun q => q.json.classEntries := by
  have hclasses : (Json.array (p.sortedClasses.map ClassReport.json)).classEntries =
      p.sortedClasses.map ClassReport.entry := by
    rw [Json.classEntries_array, List.flatMap_map]
    simp only [ClassReport.classEntries_json]
    exact List.map_eq_flatMap.symm
  have hsubpackages : (Json.array ((sorted p.subpackages).map json)).classEntries =
      (sorted p.subpackages).flatMap fun q => q.json.classEntries := by
    rw [Json.classEntries_array, List.flatMap_map]
  have hnone : p.json.classEntry? = none := by
    rw [json_eq]
    rfl
  rw [← hclasses, ← hsubpackages, Json.classEntries, Json.classEntries, Json.classEntries,
    ← List.filterMap_append]
  rw [json_eq] at hnone ⊢
  rw [Json.objects, List.filterMap_cons_none hnone]
  simp [Json.objectsOfMembers, Json.objects]

/-- The outline and the JSON value of a package say the same of its classes, in the same order. -/
theorem filterMap_entry?_items (depth : Nat) (p : PackageReport) :
    (p.items depth).filterMap OutlineItem.entry? = p.json.classEntries := by
  induction p using induction_subpackages generalizing depth with
  | step p ih =>
    have hinner : ((sorted p.subpackages).flatMap (items (depth + 1))).filterMap
        OutlineItem.entry? = (sorted p.subpackages).flatMap fun q => q.json.classEntries := by
      rw [List.filterMap_flatMap]
      exact List.flatMap_congr fun q hq => ih q (mem_of_mem_sorted hq) (depth + 1)
    rw [items_eq, List.filterMap_cons_none rfl, List.filterMap_append, hinner, classEntries_json,
      List.filterMap_map]
    congr 1
    exact congrFun (List.filterMap_eq_map (f := ClassReport.entry)) p.sortedClasses

/-- As many classes are shown as are counted. -/
theorem length_classEntries_json (p : PackageReport) :
    p.json.classEntries.length = p.classCount := by
  induction p using induction_subpackages with
  | step p ih =>
    have hinner : (sorted p.subpackages).map (fun q => q.json.classEntries.length) =
        (sorted p.subpackages).map classCount :=
      List.map_congr_left fun q hq => ih q (mem_of_mem_sorted hq)
    rw [classEntries_json, List.length_append, List.length_map, List.length_flatMap, hinner,
      classCount_eq_sum_sorted]

end PackageReport

namespace ProjectReport

/-- The parts of the outline of a project below its first line. -/
def items (p : ProjectReport) : List OutlineItem :=
  (PackageReport.sorted p.packages).flatMap (PackageReport.items 1)

/-- All classes of the packages, as they are gone through one by one. -/
def allClasses (p : ProjectReport) : List ClassReport :=
  (PackageReport.distinct p.packages).flatMap PackageReport.allClasses

theorem classEntries_json (p : ProjectReport) :
    p.json.classEntries =
      (PackageReport.sorted p.packages).flatMap fun q => q.json.classEntries := by
  have hpackages :
      (Json.array ((PackageReport.sorted p.packages).map PackageReport.json)).classEntries =
        (PackageReport.sorted p.packages).flatMap fun q => q.json.classEntries := by
    rw [Json.classEntries_array, List.flatMap_map]
  rw [← hpackages, json, Json.classEntries, Json.objects, List.filterMap_cons_none rfl]
  simp [Json.classEntries, Json.objectsOfMembers, Json.objects]

theorem outline_eq_cons_items (p : ProjectReport) :
    p.outline = (p.projectName ++ " (" ++ toString p.classCount ++ " classes)") ::
      p.items.flatMap OutlineItem.lines := by
  rw [outline, items, List.flatMap_assoc]
  exact congrArg _ (List.flatMap_congr fun q _ => q.outline_eq_flatMap_items 1)

theorem filterMap_entry?_items (p : ProjectReport) :
    p.items.filterMap OutlineItem.entry? = p.json.classEntries := by
  rw [items, List.filterMap_flatMap, classEntries_json]
  exact List.flatMap_congr fun q _ => q.filterMap_entry?_items 1

theorem length_classEntries_json (p : ProjectReport) :
    p.json.classEntries.length = p.classCount := by
  rw [classEntries_json, List.length_flatMap, classCount_eq]
  simp only [PackageReport.length_classEntries_json]

theorem length_allClasses (p : ProjectReport) : p.allClasses.length = p.classCount := by
  rw [allClasses, List.length_flatMap, classCount, List.sum_eq_foldl, List.foldl_map]
  rfl

end ProjectReport

end TypeAtlas
