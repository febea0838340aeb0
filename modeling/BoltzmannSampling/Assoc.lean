/-!
Lists of named values in the order in which the names came, each name standing once.
-/

namespace BoltzmannSampling

namespace Assoc

variable {κ β : Type} [BEq κ]

def get? (entries : List (κ × β)) (name : κ) : Option β :=
  (entries.find? (·.1 == name)).map (·.2)

-- A new name goes to the end; a known one keeps its place and takes the new value.
def put : List (κ × β) → κ → β → List (κ × β)
  | [], name, value => [(name, value)]
  | (n, v) :: rest, name, value => if n == name then (n, value) :: rest else (n, v) :: put rest name value

-- Fields with repeated names, reduced to entries: the first place, the last value.
def ofFields (fields : List (κ × β)) : List (κ × β) :=
  fields.foldl (fun entries (name, value) => put entries name value) []

theorem mem_of_mem_put [LawfulBEq κ] {x : κ × β} {entries : List (κ × β)} {name : κ} {value : β}
    (h : x ∈ put entries name value) : x ∈ entries ∨ x = (name, value) := by
  induction entries with
  | nil => exact .inr (by simpa [put] using h)
  | cons e rest ih =>
    simp only [put] at h
    split at h
    case isTrue same =>
      have : e.1 = name := by simpa using same
      rcases List.mem_cons.1 h with h | h
      · exact .inr (by simp [h, this])
      · exact .inl (by simp [h])
    case isFalse =>
      rcases List.mem_cons.1 h with h | h
      · exact .inl (by simp [h])
      · exact (ih h).imp (by simp +contextual) id

theorem mem_of_mem_ofFields [LawfulBEq κ] {x : κ × β} {fields : List (κ × β)} (h : x ∈ ofFields fields) :
    x ∈ fields := by
  have general : ∀ (fields acc : List (κ × β)),
      x ∈ fields.foldl (fun entries (name, value) => put entries name value) acc → x ∈ acc ∨ x ∈ fields := by
    intro fields
    induction fields with
    | nil => exact fun _ h => .inl h
    | cons f rest ih =>
      intro acc h
      rcases ih _ h with h | h
      · exact (mem_of_mem_put h).imp id (fun h => by simp [h])
      · exact .inr (by simp [h])
  simpa using general fields [] h

def repeated (names : List String) : List String :=
  (names.foldl (fun (seen, again) n => if seen.contains n then (seen, n :: again) else (n :: seen, again))
    (([] : List String), ([] : List String))).2.reverse

end Assoc

end BoltzmannSampling
