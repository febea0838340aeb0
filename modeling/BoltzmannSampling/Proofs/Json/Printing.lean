import Mathlib
import BoltzmannSampling.Proofs.Assoc
import BoltzmannSampling.Proofs.Json.Numerals
import BoltzmannSampling.Proofs.Json.Quoting

/-!
What is printed is read back: a document whose numbers the reader takes from their texts, and whose objects give every
name once.
-/

namespace BoltzmannSampling

namespace Json

open Printer Reader

variable {doc : Json}

inductive Faithful : Json → Prop
  | null : Faithful .null
  | bool (b : Bool) : Faithful (.bool b)
  | text (s : String) : Faithful (.text s)
  | number {n : Number} (reads : ReadsBack n) : Faithful (.number n)
  | array {items : List Json} (all : ∀ item ∈ items, Faithful item) : Faithful (.array items)
  | object {fields : List (String × Json)} (distinct : (fields.map (·.1)).Nodup)
      (all : ∀ field ∈ fields, Faithful field.2) : Faithful (.object fields)

namespace Reader

variable {fuel level : Nat} {cs rest gap : List Char} {found : List Json}

theorem skipSpace_append (blank : ∀ c ∈ gap, isSpace c) (cs : List Char) : skipSpace (gap ++ cs) = skipSpace cs := by
  induction gap
  case nil => rfl
  case cons c gap hi =>
    have ⟨hc, blank⟩ := List.forall_mem_cons.mp blank
    simp only [skipSpace, List.cons_append, List.dropWhile_cons, hc, if_true]
    exact hi blank

theorem skipSpace_skipSpace (cs : List Char) : skipSpace (skipSpace cs) = skipSpace cs := by
  simp [skipSpace, List.dropWhile_idempotent]

theorem value?_congr {cs' : List Char} (h : skipSpace cs = skipSpace cs') (fuel : Nat) :
    value? fuel cs = value? fuel cs' := by
  cases fuel
  case zero => rw [value?, value?]
  case succ => rw [value?, value?, h]

-- A number is not taken for anything else.
theorem value?_number {n : Number} (h : number? cs = some (n, rest)) (fuel : Nat) :
    value? (fuel + 1) cs = some (.number n, rest) := by
  cases cs
  case nil => cases h
  case cons c cs =>
    have none {d : Char} (minus : d ≠ '-') (infinite : d ≠ 'I') (digit : ¬Reader.isDigit d) : c ≠ d := by
      rintro rfl
      exact nomatch (number?_head minus infinite digit).symm.trans h
    have space : isSpace c = false := by
      simp only [isSpace, Bool.or_eq_false_iff, beq_eq_false_iff_ne]
      refine ⟨⟨⟨?_, ?_⟩, ?_⟩, ?_⟩
      all_goals exact none (by decide) (by decide) (by decide)
    have skip : skipSpace (c :: cs) = c :: cs := by simp [skipSpace, space]
    rw [value?, skip]
    dsimp only
    rw [if_neg, if_neg, if_neg, if_neg, if_neg, if_neg, if_neg, h]
    · rfl
    all_goals exact none (by decide) (by decide) (by decide)

theorem length_le_flatMap (cs : List Char) : cs.length ≤ (cs.flatMap escape).length := by
  have units (n : Nat) : 1 ≤ (unit n).length := Nat.succ_le_succ (Nat.zero_le _)
  have one (c : Char) : 1 ≤ (escape c).length := by
    simp only [escape]
    split_ifs
    case pos | pos | pos | pos | pos | pos | pos => exact Nat.succ_le_succ (Nat.zero_le _)
    case pos => exact units _
    case neg =>
      rw [List.length_append]
      exact Nat.le_add_right_of_le (units _)
  induction cs
  case nil => exact le_rfl
  case cons c cs hi =>
    have := one c
    simp only [List.flatMap_cons, List.length_append, List.length_cons]
    omega

theorem quoted?_quoted (s : String) (rest : List Char) :
    ∃ cs, (quoted s).toList ++ rest = Text.doubleQuote :: cs ∧ quoted? (cs.length + 1) [] cs = some (s, rest) := by
  refine ⟨s.toList.flatMap escape ++ Text.doubleQuote :: rest, by simp [quoted], ?_⟩
  have length : s.toList.length < (s.toList.flatMap escape ++ Text.doubleQuote :: rest).length + 1 := by
    have := length_le_flatMap s.toList
    simp only [List.length_append]
    omega
  rw [quoted?_flatMap _ length]
  simp

theorem value?_quoted (s : String) (fuel : Nat) (rest : List Char) :
    value? (fuel + 1) ((quoted s).toList ++ rest) = some (.text s, rest) := by
  have ⟨cs, hs, hq⟩ := quoted?_quoted s rest
  have skip : skipSpace (Text.doubleQuote :: cs) = Text.doubleQuote :: cs := by simp [skipSpace, isSpace, Text.doubleQuote]
  rw [hs, value?, skip]
  dsimp only
  rw [if_pos rfl, hq]
  rfl

theorem value?_closing (h : skipSpace cs = ']' :: rest) (fuel : Nat) : value? fuel cs = none := by
  cases fuel
  case zero => rw [value?]
  case succ =>
    have none : number? (']' :: rest) = none := number?_head (by decide) (by decide) (by decide)
    rw [value?, h]
    simp [none, Text.doubleQuote]

theorem items?_skipSpace (fuel : Nat) (found : List Json) (cs : List Char) :
    items? fuel found (skipSpace cs) = items? fuel found cs := by
  cases fuel
  case zero => rw [items?, items?]
  case succ => rw [items?, items?, value?_congr (skipSpace_skipSpace cs)]

theorem fields?_skipSpace (fuel : Nat) (found : List (String × Json)) (cs : List Char) :
    fields? fuel found (skipSpace cs) = fields? fuel found cs := by
  cases fuel
  case zero => rw [fields?, fields?]
  case succ => rw [fields?, fields?, skipSpace_skipSpace]

-- The text of a document on a line of some level is read, up to what follows it.
def Reads (level : Nat) (doc : Json) : Prop :=
  ∀ fuel rest, (render level doc).toList.length ≤ fuel → Stops rest →
    value? fuel ((render level doc).toList ++ rest) = some (doc, rest)

theorem blank_newline (level : Nat) : ∀ c ∈ (newline level).toList, isSpace c := by
  simp [newline, isSpace]

theorem stops_newline (level : Nat) (rest : List Char) : Stops ((newline level).toList ++ rest) := by
  simp [newline, Stops]

theorem stops_comma (rest : List Char) : Stops (",".toList ++ rest) := .inl rfl

theorem skipSpace_comma (rest : List Char) : skipSpace (",".toList ++ rest) = ',' :: rest := rfl

theorem items?_comma {item : Json} {tail : List Char} (h : value? fuel cs = some (item, tail))
    (next : skipSpace tail = ',' :: rest) (found : List Json) :
    items? (fuel + 1) found cs = items? fuel (item :: found) rest := by
  simp [items?, h, next]

theorem items?_close {item : Json} {tail : List Char} (h : value? fuel cs = some (item, tail))
    (next : skipSpace tail = ']' :: rest) (found : List Json) :
    items? (fuel + 1) found cs = some (.array (found.reverse ++ [item]), rest) := by
  simp [items?, h, next]

theorem value?_items {result : Json × List Char} (h : items? fuel [] cs = some result) (level : Nat) :
    value? (fuel + 1) ("[".toList ++ ((newline level).toList ++ cs)) = some result := by
  change value? (fuel + 1) ('[' :: ((newline level).toList ++ cs)) = _
  have skip (cs : List Char) : skipSpace ('[' :: cs) = '[' :: cs := rfl
  rw [value?, skip]
  dsimp only
  rw [if_neg (by decide), if_pos rfl, skipSpace_append (blank_newline level)]
  split
  case h_1 closed =>
    cases fuel
    case zero => cases h
    case succ => simp [items?, value?_closing closed] at h
  case h_2 => rw [items?_skipSpace, h]

theorem value?_fields {result : Json × List Char} (h : fields? fuel [] cs = some result) (level : Nat) :
    value? (fuel + 1) ("\x7b".toList ++ ((newline level).toList ++ cs)) = some result := by
  change value? (fuel + 1) ('\x7b' :: ((newline level).toList ++ cs)) = _
  have skip (cs : List Char) : skipSpace ('\x7b' :: cs) = '\x7b' :: cs := rfl
  rw [value?, skip]
  dsimp only
  rw [if_neg (by decide), if_neg (by decide), if_pos rfl, skipSpace_append (blank_newline level)]
  split
  case h_1 closed =>
    cases fuel
    case zero => cases h
    case succ => simp [fields?, closed, Text.doubleQuote] at h
  case h_2 => rw [fields?_skipSpace, h]

theorem items?_rendered {items : List Json} (reads : ∀ item ∈ items, Reads (level + 1) item) (nonempty : items ≠ [])
    (length : (Text.joined ("," ++ newline (level + 1)) (items.map (render (level + 1)))).toList.length < fuel)
    (found : List Json) (rest : List Char) :
    items? fuel found ((Text.joined ("," ++ newline (level + 1)) (items.map (render (level + 1)))).toList ++
      ((newline level).toList ++ ']' :: rest)) = some (.array (found.reverse ++ items), rest) := by
  induction items generalizing fuel found
  case nil => exact absurd rfl nonempty
  case cons item items hi =>
    obtain ⟨fuel, rfl⟩ := Nat.exists_eq_succ_of_ne_zero (Nat.ne_zero_of_lt length)
    have ⟨read, reads⟩ := List.forall_mem_cons.mp reads
    cases items
    case nil =>
      rw [List.map_singleton, Text.joined_singleton] at length ⊢
      exact items?_close (read fuel _ (Nat.le_of_lt_succ length) (stops_newline level _))
        (skipSpace_append (blank_newline level) _) found
    case cons next items =>
      have hi := @hi fuel reads (List.cons_ne_nil _ _)
      simp only [List.map_cons, Text.toList_joined, String.toList_append, List.append_assoc, List.length_append]
        at length hi ⊢
      have comma : ",".toList.length = 1 := rfl
      rw [items?_comma (read fuel _ (by omega) (stops_comma _)) (skipSpace_comma _), ← items?_skipSpace,
        skipSpace_append (blank_newline _), items?_skipSpace, hi (by omega), List.reverse_cons, List.append_assoc,
        List.singleton_append]

def fieldText (level : Nat) (field : String × Json) : String := quoted field.1 ++ ": " ++ render level field.2

-- What the reader has found once it has read a field.
theorem fields?_read {field : String × Json} {tail : List Char}
    (h : value? fuel ((render level field.2).toList ++ tail) = some (field.2, tail)) :
    ∃ cs, skipSpace ((fieldText level field).toList ++ tail) = Text.doubleQuote :: cs ∧
      ∃ name, quoted? (cs.length + 1) [] cs = some (field.1, name) ∧
        ∃ value, skipSpace name = ':' :: value ∧ value? fuel value = some (field.2, tail) := by
  have ⟨cs, hs, hq⟩ := quoted?_quoted field.1 (": ".toList ++ ((render level field.2).toList ++ tail))
  refine ⟨cs, ?_, _, hq, ' ' :: ((render level field.2).toList ++ tail), rfl, ?_⟩
  · simp only [fieldText, String.toList_append, List.append_assoc, hs]
    rfl
  · have blank (cs : List Char) : skipSpace (' ' :: cs) = skipSpace cs := rfl
    exact (value?_congr (blank _) fuel).trans h

theorem fields?_comma {field : String × Json} {tail : List Char}
    (h : value? fuel ((render level field.2).toList ++ tail) = some (field.2, tail))
    (next : skipSpace tail = ',' :: rest) (found : List (String × Json)) :
    fields? (fuel + 1) found ((fieldText level field).toList ++ tail) = fields? fuel (field :: found) rest := by
  obtain ⟨cs, hs, name, hq, value, hc, hv⟩ := fields?_read h
  simp [fields?, hs, hq, hc, hv, next]

theorem fields?_close {field : String × Json} {tail : List Char}
    (h : value? fuel ((render level field.2).toList ++ tail) = some (field.2, tail))
    (next : skipSpace tail = '\x7d' :: rest) (found : List (String × Json)) :
    fields? (fuel + 1) found ((fieldText level field).toList ++ tail) =
      some (.object (found.reverse ++ [field]), rest) := by
  obtain ⟨cs, hs, name, hq, value, hc, hv⟩ := fields?_read h
  simp [fields?, hs, hq, hc, hv, next]

theorem fields?_rendered {fields : List (String × Json)} (reads : ∀ field ∈ fields, Reads (level + 1) field.2)
    (nonempty : fields ≠ [])
    (length : (Text.joined ("," ++ newline (level + 1)) (fields.map (fieldText (level + 1)))).toList.length < fuel)
    (found : List (String × Json)) (rest : List Char) :
    fields? fuel found ((Text.joined ("," ++ newline (level + 1)) (fields.map (fieldText (level + 1)))).toList ++
      ((newline level).toList ++ '\x7d' :: rest)) = some (.object (found.reverse ++ fields), rest) := by
  have shorter (field : String × Json) :
      (render (level + 1) field.2).toList.length ≤ (fieldText (level + 1) field).toList.length := by
    simp only [fieldText, String.toList_append, List.length_append]
    omega
  induction fields generalizing fuel found
  case nil => exact absurd rfl nonempty
  case cons field fields hi =>
    obtain ⟨fuel, rfl⟩ := Nat.exists_eq_succ_of_ne_zero (Nat.ne_zero_of_lt length)
    have ⟨read, reads⟩ := List.forall_mem_cons.mp reads
    have shorter := shorter field
    cases fields
    case nil =>
      rw [List.map_singleton, Text.joined_singleton] at length ⊢
      exact fields?_close (read fuel _ (shorter.trans (Nat.le_of_lt_succ length)) (stops_newline level _))
        (skipSpace_append (blank_newline level) _) found
    case cons next fields =>
      have hi := @hi fuel reads (List.cons_ne_nil _ _)
      simp only [List.map_cons, Text.toList_joined, String.toList_append, List.append_assoc, List.length_append]
        at length hi ⊢
      have comma : ",".toList.length = 1 := rfl
      rw [fields?_comma (read fuel _ (by omega) (stops_comma _)) (skipSpace_comma _), ← fields?_skipSpace,
        skipSpace_append (blank_newline _), fields?_skipSpace, hi (by omega), List.reverse_cons, List.append_assoc,
        List.singleton_append]

theorem render_array (level : Nat) (items : List Json) :
    render level (.array items) = block level "[" "]" (items.map (render (level + 1))) := by
  rw [render]
  conv_rhs => rw [← List.attach_map_subtype_val items, List.map_map]
  rfl

theorem render_object (level : Nat) {fields : List (String × Json)} (distinct : (fields.map (·.1)).Nodup) :
    render level (.object fields) = block level "\x7b" "\x7d" (fields.map (fieldText (level + 1))) := by
  have shown : (fields.attach.map fun f => (f.1.1, fieldText (level + 1) f.1)) =
      fields.map fun f => (f.1, fieldText (level + 1) f) := by
    conv_rhs => rw [← List.attach_map_subtype_val fields, List.map_map]
    rfl
  rw [render]
  change block level _ _ ((Assoc.ofFields (fields.attach.map fun f => (f.1.1, fieldText (level + 1) f.1))).map (·.2)) = _
  rw [shown, Assoc.ofFields_of_nodup (by rwa [List.map_map]), List.map_map]
  rfl

-- A list between brackets: nothing, or the parts on lines of their own.
theorem toList_block {first last : String} {parts : List String} (nonempty : parts ≠ []) :
    (block level first last parts).toList = first.toList ++ ((newline (level + 1)).toList ++
      ((Text.joined ("," ++ newline (level + 1)) parts).toList ++ ((newline level).toList ++ last.toList))) := by
  have present : parts.isEmpty = false := by simpa using nonempty
  simp [block, present]

end Reader

theorem ReadsBack.nonempty {n : Number} (h : ReadsBack n) : (Printer.number n).toList ≠ [] := by
  intro empty
  have none : number? [','] = none := number?_head (by decide) (by decide) (by decide)
  have read := h [','] (.inl rfl)
  rw [empty, List.nil_append, none] at read
  cases read

-- A text has a first character, so that there is fuel for it.
theorem Reader.Reads.of_succ {level : Nat} (text : String) (written : render level doc = text)
    (nonempty : text.toList ≠ [])
    (read : ∀ fuel rest, Stops rest → value? (fuel + 1) (text.toList ++ rest) = some (doc, rest)) : Reads level doc := by
  intro fuel rest length stops
  rw [written] at length ⊢
  obtain ⟨fuel, rfl⟩ := Nat.exists_eq_succ_of_ne_zero ((List.length_pos_iff.mpr nonempty).trans_le length).ne'
  exact read fuel rest stops

theorem reads_array {level : Nat} {items : List Json} (reads : ∀ item ∈ items, Reads (level + 1) item) :
    Reads level (.array items) := by
  by_cases empty : items = []
  case pos =>
    subst empty
    exact .of_succ "[]" (render_array level []) (by decide) fun _ _ _ => rfl
  case neg =>
    intro fuel rest length _
    rw [render_array, toList_block (by simpa using empty)] at length ⊢
    simp only [List.length_append, List.append_assoc] at length ⊢
    have first : "[".toList.length = 1 := rfl
    have last : "]".toList.length = 1 := rfl
    obtain ⟨fuel, rfl⟩ := Nat.exists_eq_succ_of_ne_zero (n := fuel) (by omega)
    exact value?_items (items?_rendered reads empty (by omega) [] rest) (level + 1)

theorem reads_object {level : Nat} {fields : List (String × Json)} (distinct : (fields.map (·.1)).Nodup)
    (reads : ∀ field ∈ fields, Reads (level + 1) field.2) : Reads level (.object fields) := by
  by_cases empty : fields = []
  case pos =>
    subst empty
    exact .of_succ "\x7b\x7d" (render_object level distinct) (by decide) fun _ _ _ => rfl
  case neg =>
    intro fuel rest length _
    rw [render_object level distinct, toList_block (by simpa using empty)] at length ⊢
    simp only [List.length_append, List.append_assoc] at length ⊢
    have first : "\x7b".toList.length = 1 := rfl
    have last : "\x7d".toList.length = 1 := rfl
    obtain ⟨fuel, rfl⟩ := Nat.exists_eq_succ_of_ne_zero (n := fuel) (by omega)
    exact value?_fields (fields?_rendered reads empty (by omega) [] rest) (level + 1)

-- The texts of the parts of an array or an object are shorter than its own, so that no part runs out of fuel.
theorem Faithful.reads (h : doc.Faithful) (level : Nat) : Reads level doc := by
  induction h generalizing level
  case null => exact .of_succ "null" (by rw [render]) (by decide) fun _ _ _ => rfl
  case bool b =>
    cases b
    case true  => exact .of_succ "true" (by rw [render]; rfl) (by decide) fun _ _ _ => rfl
    case false => exact .of_succ "false" (by rw [render]; rfl) (by decide) fun _ _ _ => rfl
  case text s =>
    exact .of_succ (quoted s) (by rw [render]) (by simp [quoted]) fun fuel rest _ => value?_quoted s fuel rest
  case number n reads =>
    exact .of_succ (Printer.number n) (by rw [render]) reads.nonempty fun fuel rest stops =>
      value?_number (reads rest stops) fuel
  case array items all hi => exact reads_array fun item hm => hi item hm (level + 1)
  case object fields distinct all hi => exact reads_object distinct fun field hm => hi field hm (level + 1)

theorem read?_print (h : doc.Faithful) : read? doc.print = some doc := by
  have length : (render 0 doc).toList.length ≤ doc.print.toList.length + 1 := by
    simp only [print, String.toList_append, List.length_append]
    omega
  have read := h.reads 0 _ "\n".toList length (.inr rfl)
  rw [← String.toList_append] at read
  simp only [read?]
  rw [print] at *
  simp only [read]
  rfl

end Json

end BoltzmannSampling
