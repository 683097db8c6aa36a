import Mathlib.Data.List.Basic
import TypeAtlas.Config.Table

namespace TypeAtlas

namespace Text

/-- An integer is short if base ten takes no more digits for it than may be written. -/
theorem isShort_iff (n : Int) :
    isShort n = true ↔ (Nat.toDigits 10 n.natAbs).length ≤ digitLimit := by
  rw [isShort, decide_eq_true_eq, Nat.length_toDigits_le_iff (by decide) (by decide), Nat.pow_eq]

theorem isSome_ofInt?_iff (n : Int) : (ofInt? n).isSome = true ↔ isShort n = true := by
  rw [ofInt?]
  split <;> simp_all

end Text

namespace Data

mutual

/-- The integers that a value holds, at any depth. -/
def integers : Data → List Int
  | .integer n => [n]
  | .list items => integersOfItems items
  | .table entries => integersOfEntries entries
  | _ => []

def integersOfItems : List Data → List Int
  | [] => []
  | d :: ds => integers d ++ integersOfItems ds

def integersOfEntries : List (Text × Data) → List Int
  | [] => []
  | (_, d) :: es => integers d ++ integersOfEntries es

end

/-- A value that holds no integer with too many digits. -/
def IsShowable (d : Data) : Prop :=
  ∀ n ∈ d.integers, Text.isShort n = true

mutual

/-- A value is shown just if all integers in it can be. -/
theorem isSome_quoted?_iff : ∀ d : Data, d.quoted?.isSome = true ↔ d.IsShowable
  | .integer n => by simp [quoted?, IsShowable, integers, Text.isSome_ofInt?_iff]
  | .list items => by
    have hitems := isSome_quotedItems?_iff items
    rw [quoted?, IsShowable, integers, ← hitems]
    cases quotedItems? items <;> rfl
  | .table entries => by
    have hentries := isSome_quotedEntries?_iff entries
    rw [quoted?, IsShowable, integers, ← hentries]
    cases quotedEntries? entries <;> rfl
  | .bool true | .bool false => by simp [quoted?, IsShowable, integers]
  | .null | .real _ | .text _ | .date _ | .time _ | .moment _ => by
    simp [quoted?, IsShowable, integers]

theorem isSome_quotedItems?_iff : ∀ items : List Data,
    (quotedItems? items).isSome = true ↔ ∀ n ∈ integersOfItems items, Text.isShort n = true
  | [] => by simp [quotedItems?, integersOfItems]
  | d :: ds => by
    have hfirst := isSome_quoted?_iff d
    have hrest := isSome_quotedItems?_iff ds
    rw [quotedItems?, integersOfItems, List.forall_mem_append, ← hrest]
    rw [IsShowable] at hfirst
    rw [← hfirst]
    cases quoted? d <;> cases quotedItems? ds <;> simp

theorem isSome_quotedEntries?_iff : ∀ entries : List (Text × Data),
    (quotedEntries? entries).isSome = true ↔
      ∀ n ∈ integersOfEntries entries, Text.isShort n = true
  | [] => by simp [quotedEntries?, integersOfEntries]
  | (key, d) :: es => by
    have hfirst := isSome_quoted?_iff d
    have hrest := isSome_quotedEntries?_iff es
    rw [quotedEntries?, integersOfEntries, List.forall_mem_append, ← hrest]
    rw [IsShowable] at hfirst
    rw [← hfirst]
    cases quoted? d <;> cases quotedEntries? es <;> simp

end

end Data

/-- What is reported of settings names no integer with too many digits. -/
def SettingsFault.IsShowable : SettingsFault → Prop
  | .notPositive n => Text.isShort n = true
  | .noPoint _ => True

theorem SettingsFault.isSome_message?_iff (fault : SettingsFault) :
    fault.message?.isSome = true ↔ fault.IsShowable := by
  cases fault with
  | notPositive n =>
    rw [message?, IsShowable, ← Text.isSome_ofInt?_iff]
    cases Text.ofInt? n <;> rfl
  | noPoint extension => exact iff_of_true rfl trivial

/-- What is reported of a table names no integer with too many digits. -/
def TableFault.IsShowable : TableFault → Prop
  | .unknownKey _ => True
  | .badValue _ value => value.IsShowable
  | .invalid fault => fault.IsShowable

/-- There is a report on a table just if what it names can be shown. -/
theorem TableFault.isSome_message?_iff (fault : TableFault) :
    fault.message?.isSome = true ↔ fault.IsShowable := by
  cases fault with
  | unknownKey key => exact iff_of_true rfl trivial
  | badValue key value =>
    rw [message?, IsShowable, ← Data.isSome_quoted?_iff]
    cases value.quoted? <;> rfl
  | invalid fault => exact fault.isSome_message?_iff

end TypeAtlas
