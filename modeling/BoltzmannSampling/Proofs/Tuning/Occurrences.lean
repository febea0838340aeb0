import Mathlib
import BoltzmannSampling.Proofs.Table.Column
import BoltzmannSampling.Proofs.Tuning.Data

/-!
The names of constructors in a tuning file. Whether they are the names of an object, stand in a list of types or in the
rows of a table: the data read from the file have a probability under every name that occurs, and report exactly the
names that occur more than once.
-/

namespace BoltzmannSampling

namespace TuningData

open Numbers

variable {numbers : Numbers} {duplicated : List Json} {names : List String} {c c' : Contents} {doc entry : Json}

-- The names of the constructors of an entry, those of a document, and those of the column of a table.
def nameOf (entry : Json) : List String := ((entry.get? "name").bind Json.text?).toList

def namesOfType (entry : Json) : List String :=
  (((entry.get? "constructors").bind Json.array?).getD []).flatMap nameOf

def namesOfDocument (doc : Json) : List String :=
  match doc.get? "probabilities" with
  | some (.object fields) => fields.map (·.1)
  | some _                => []
  | none                  => (((doc.get? "types").bind Json.array?).getD []).flatMap namesOfType

def namesOfTable (t : Table) : List String := (t.column? "constructor").getD []

-- The names of constructors in a text, each as often as it stands there.
def namesOfText : Format → String → List String
  | .json, text => ((Json.read? text).map namesOfDocument).getD []
  | .csv, text  => ((Table.read? text).map namesOfTable).getD []

def namesInFile (files : Files) (path : String) (asked : Option String) : List String :=
  match Format.ofFile (FilePath.normalize path) asked, files (FilePath.normalize path) with
  | .ok format, .ok text => namesOfText format text
  | _, _                 => []

-- Numbers, and names reported as repeated, from a place where these names stand.
structure Tracks (numbers : Numbers) (duplicated : List Json) (names : List String) : Prop where
  distinct : numbers.Distinct
  found    : ∀ n, .text n ∈ numbers.map (·.1) ↔ n ∈ names
  repeats  : ∀ n, .text n ∈ duplicated ↔ 2 ≤ names.count n

theorem tracks_nil : Tracks [] [] [] where
  distinct  := .nil
  found _   := by simp
  repeats _ := by simp

theorem sameName_text {name : Json} {n : String} : sameName name (.text n) = true ↔ name = .text n := by
  cases name <;> simp [sameName]

theorem has_text {n : String} : numbers.has (.text n) = true ↔ .text n ∈ numbers.map (·.1) := by
  simp [has, sameName_text]

theorem mem_put_names {name : Json} {x : Float} {n : String} :
    .text n ∈ (numbers.put name x).map (·.1) ↔ .text n ∈ numbers.map (·.1) ∨ .text n = name := by
  rw [put_names]
  split
  case isFalse => rw [List.mem_append, List.mem_singleton]
  case isTrue known =>
    refine (or_iff_left_of_imp ?_).symm
    rintro rfl
    exact has_text.mp known

theorem Tracks.put (h : Tracks numbers duplicated names) (name : Json) (x : Float) :
    Tracks (numbers.put name x) (if numbers.has name then duplicated ++ [name] else duplicated)
      (names ++ name.text?.toList) where
  distinct  := h.distinct.put name x
  found n   := by
    rw [mem_put_names, h.found, List.mem_append]
    cases name <;> simp [Json.text?]
  repeats n := by
    have again : .text n ∈ (if numbers.has name then duplicated ++ [name] else duplicated) ↔
        .text n ∈ duplicated ∨ n ∈ names ∧ .text n = name := by
      rw [← h.found, ← has_text]
      split
      case isTrue known  =>
        rw [List.mem_append, List.mem_singleton]
        refine or_congr_right ⟨?_, And.right⟩
        rintro rfl
        exact ⟨known, rfl⟩
      case isFalse fresh =>
        refine (or_iff_left_of_imp ?_).symm
        rintro ⟨known, rfl⟩
        exact absurd known fresh
    rw [again, h.repeats, List.count_append, ← List.one_le_count_iff]
    cases name
    case text m =>
      by_cases he : m = n
      case pos =>
        have one : [n].count n = 1 := List.count_singleton_self
        simp only [he, Json.text?, Option.toList_some, one, and_true]
        omega
      case neg => simp [he, Ne.symm he, Json.text?]
    all_goals simp [Json.text?]

theorem addConstructor_put (h : addConstructor c entry = .ok c') : ∃ name x, entry.get? "name" = some name ∧
    c'.probabilities = c.probabilities.put name x ∧
    c'.duplicated = if c.probabilities.has name then c.duplicated ++ [name] else c.duplicated := by
  simp only [addConstructor] at h
  split at h
  case h_2 => cases h
  case h_1 name _ found _ =>
    split at h
    case isTrue  => cases h
    case isFalse =>
      obtain ⟨x, -, h⟩ := Checks.bind_eq_ok.mp h
      cases h
      exact ⟨name, x, found, rfl, rfl⟩

def Contents.Tracks (c : Contents) (names : List String) : Prop :=
  TuningData.Tracks c.probabilities c.duplicated names

theorem Contents.Tracks.addConstructor (tracks : c.Tracks names) (h : addConstructor c entry = .ok c') :
    c'.Tracks (names ++ nameOf entry) := by
  have ⟨name, x, found, probabilities, duplicated⟩ := addConstructor_put h
  rw [Tracks, probabilities, duplicated, nameOf, found, Option.bind_some]
  exact tracks.put name x

theorem Contents.Tracks.addValue {name : Json} {found : Option Json} (tracks : c.Tracks names)
    (h : addValue c name found = .ok c') : c'.Tracks names := by
  obtain ⟨v, -, h⟩ := Checks.bind_eq_ok.mp h
  split at h
  case h_1 =>
    cases h
    exact tracks
  case h_2 =>
    split at h
    case isFalse => cases h
    case isTrue  =>
      cases h
      exact tracks

-- What stands in the place of a list of constructors and is no list has no names.
theorem namesOfType_eq {parts : List Json} (h : Specification.partsOf entry "constructors" = .ok parts) :
    parts.flatMap nameOf = namesOfType entry := by
  have texts {α : Type} (f : α → String) (xs : List α) : (xs.map fun x => Json.text (f x)).flatMap nameOf = [] := by
    rw [List.flatMap_map]
    exact List.flatMap_eq_nil_iff.mpr fun _ _ => rfl
  rw [namesOfType]
  simp only [Specification.partsOf] at h
  split at h
  case h_1 found =>
    cases h
    rw [found]
    rfl
  case h_2 doc found =>
    rw [found, Option.bind_some]
    cases doc <;> simp only [Json.elements?, Except.ok.injEq, reduceCtorEq] at h <;> subst h
    case array items   => rfl
    case text s        => exact texts String.singleton s.toList
    case object fields => exact texts (·.1) (Assoc.ofFields fields)

-- Entries read one after the other are tracked when each of them is.
theorem Contents.Tracks.foldlM {add : Contents → Json → Except Failure Contents} {namesIn : Json → List String}
    (each : ∀ {c c' : Contents} {names entry}, c.Tracks names → add c entry = .ok c' → c'.Tracks (names ++ namesIn entry))
    {entries : List Json} (tracks : c.Tracks names) (h : entries.foldlM add c = .ok c') :
    c'.Tracks (names ++ entries.flatMap namesIn) := by
  induction entries generalizing c names
  case nil =>
    cases h
    simpa using tracks
  case cons entry entries hi =>
    obtain ⟨next, he, h⟩ := Checks.bind_eq_ok.mp h
    rw [List.flatMap_cons, ← List.append_assoc]
    exact hi (each tracks he) h

theorem Contents.Tracks.addType (tracks : c.Tracks names) (h : addType c entry = .ok c') :
    c'.Tracks (names ++ namesOfType entry) := by
  simp only [TuningData.addType] at h
  split at h
  case h_1 => cases h
  case h_2 =>
    obtain ⟨_, hv, h⟩ := Checks.bind_eq_ok.mp h
    obtain ⟨parts, hp, h⟩ := Checks.bind_eq_ok.mp h
    rw [← namesOfType_eq hp]
    exact (tracks.addValue hv).foldlM (fun tracks h => tracks.addConstructor h) h

theorem tracks_numbersOf {place : Json → Quantity} {fields : List (String × Json)}
    (h : numbersOf place (Assoc.ofFields fields) = .ok numbers) :
    Tracks numbers ((Assoc.repeated (fields.map (·.1))).map .text) (fields.map (·.1)) where
  distinct  := distinct_numbersOf (Assoc.ofFields_nodup fields) h
  found n   := by
    have names : numbers.map (·.1) = ((Assoc.ofFields fields).map (·.1)).map Json.text := names_numbersOf h
    rw [names, List.mem_map_of_injective fun _ _ => Json.text.inj, Assoc.mem_ofFields_names]
  repeats n := by rw [List.mem_map_of_injective fun _ _ => Json.text.inj, Assoc.mem_repeated]

theorem tracks_contentsOf (h : contentsOf doc = .ok c) : c.Tracks (namesOfDocument doc) := by
  simp only [contentsOf] at h
  rw [namesOfDocument]
  split at h
  case h_1 probabilities found =>
    rw [found]
    simp only [ofNames] at h
    split at h
    case h_2 => cases h
    case h_1 =>
      obtain ⟨ps, hp, h⟩ := Checks.bind_eq_ok.mp h
      obtain ⟨_, _, h⟩ := Checks.bind_eq_ok.mp h
      cases h
      exact tracks_numbersOf hp
  case h_2 missing =>
    rw [missing]
    split at h
    case h_2 => cases h
    case h_1 types found =>
      rw [found]
      have start : Contents.Tracks ⟨[], [], []⟩ [] := tracks_nil
      exact start.foldlM (fun tracks h => tracks.addType h) h

theorem tracks_ofJson {data : TuningData} (h : ofJson doc = .ok data) :
    Tracks data.probabilities data.duplicated (namesOfDocument doc) := by
  obtain ⟨_, -, h⟩ := Checks.bind_eq_ok.mp h
  obtain ⟨c, hc, h⟩ := Checks.bind_eq_ok.mp h
  obtain ⟨_, -, h⟩ := Checks.bind_eq_ok.mp h
  obtain ⟨_, -, h⟩ := Checks.bind_eq_ok.mp h
  cases h
  exact tracks_contentsOf hc

theorem required_eq_ok {path name : String} {t : Table} {column : List String} :
    required path t name = .ok column ↔ t.column? name = some column := by
  rw [required]
  cases t.column? name <;> simp

theorem length_column {t : Table} {name : String} {column : List String} (h : t.column? name = some column) :
    column.length = t.rows.length := by
  obtain ⟨_, _, rfl⟩ := Option.map_eq_some_iff.mp h
  exact List.length_map _

-- Where every cell is a number, dropping those that are none keeps all names beside their own cells.
theorem map_fst_zip_numbers {names : List String} {cells : List (Option Cell)} (length : cells.length = names.length)
    (numeric : (names.zip cells).filter (·.2.isNone) = []) : (names.zip (cells.filterMap id)).map (·.1) = names := by
  have all : ∀ cell ∈ cells, (id cell).isSome := by
    intro cell hm
    rw [← List.map_snd_zip length.le] at hm
    obtain ⟨e, he, rfl⟩ := List.mem_map.mp hm
    exact Option.isSome_iff_ne_none.mpr (by simpa using List.filter_eq_nil_iff.mp numeric e he)
  refine List.map_fst_zip ?_
  rw [List.filterMap_length_eq_length.mpr all, length]

theorem foldl_put_cells (found : List (String × Cell)) :
    found.foldl (fun (ps : Numbers) e => ps.put (.text e.1) e.2.toFloat) [] =
      ofTexts (Assoc.ofFields (found.map fun e => (e.1, e.2.toFloat))) := by
  have general (entries : List (String × Float)) :
      found.foldl (fun (ps : Numbers) e => ps.put (.text e.1) e.2.toFloat) (ofTexts entries) =
        ofTexts ((found.map fun e => (e.1, e.2.toFloat)).foldl (fun es e => Assoc.put es e.1 e.2) entries) := by
    induction found generalizing entries
    case nil             => rfl
    case cons e found hi => rw [List.foldl_cons, put_ofTexts, hi, List.map_cons, List.foldl_cons]
  exact general []

theorem tracks_ofTable {path : String} {t : Table} {data : TuningData} (h : ofTable path t = .ok data) :
    Tracks data.probabilities data.duplicated (namesOfTable t) := by
  obtain ⟨names, hn, h⟩ := Checks.bind_eq_ok.mp h
  obtain ⟨column, hc, h⟩ := Checks.bind_eq_ok.mp h
  obtain ⟨_, -, h⟩ := Checks.bind_eq_ok.mp h
  dsimp only at h
  split at h
  case isTrue => cases h
  case isFalse numeric =>
    obtain ⟨_, -, h⟩ := Checks.bind_eq_ok.mp h
    obtain ⟨_, -, h⟩ := Checks.bind_eq_ok.mp h
    cases h
    have hn := required_eq_ok.mp hn
    have length : (Column.cells column).length = names.length := by
      rw [Column.length_cells, length_column hn, length_column (required_eq_ok.mp hc)]
    rw [Bool.not_eq_true', Bool.not_eq_false, List.isEmpty_iff] at numeric
    have kept := map_fst_zip_numbers length numeric
    rw [foldl_put_cells, namesOfTable, hn, Option.getD_some]
    exact {
      distinct := distinct_ofTexts.mpr (Assoc.ofFields_nodup _)
      found    := fun n => by
        rw [← has_text, has_ofTexts, Assoc.mem_ofFields_names, List.map_map]
        exact iff_of_eq (congrArg (n ∈ ·) kept)
      repeats  := fun n => by rw [List.mem_map_of_injective fun _ _ => Json.text.inj, Assoc.mem_repeated] }

theorem tracks_ofText {path text : String} {format : Format} {data : TuningData}
    (h : ofText path format text = .ok data) :
    Tracks data.probabilities data.duplicated (namesOfText format text) := by
  cases format
  case csv =>
    simp only [ofText] at h
    split at h
    case h_2       => cases h
    case h_1 found =>
      rw [namesOfText, found]
      exact tracks_ofTable h
  case json =>
    simp only [ofText] at h
    split at h
    case h_1 | h_3 => cases h
    case h_2 found =>
      rw [namesOfText, found]
      exact tracks_ofJson h

theorem tracks_read {files : Files} {path : String} {asked : Option String} {data : TuningData}
    (h : read files path asked = .ok data) :
    Tracks data.probabilities data.duplicated (namesInFile files path asked) := by
  obtain ⟨format, hf, h⟩ := Checks.bind_eq_ok.mp h
  split at h
  case h_2       => cases h
  case h_1 found =>
    simp only [namesInFile, hf, found]
    exact tracks_ofText h

end TuningData

end BoltzmannSampling
