import Mathlib
import BoltzmannSampling.Proofs.Structure.Basic

/-!
Documents of structures. Every node that waits has a blank document of its own, and those of its children are added
behind all others when it is filled in. So places lead on, other documents are left alone, and when everything is
filled in the documents are put together from the last to the first: each is the nested one of its node.
-/

namespace BoltzmannSampling

namespace Structure

-- The document with the documents of the children inside.
def nested : Structure → Json
  | node _ n t w cs =>
    .object [("name", .text n), ("type", .text t), ("weight", .nat w), ("children", .array (cs.map nested))]

variable {s : Structure} {drafts : Array Draft} {waiting : List (Structure × Nat)} {place p : Nat} {document : Nat → Json}

-- The documents after that of one node is filled in, and the nodes that wait then.
def filledIn (drafts : Array Draft) (place : Nat) (s : Structure) : Array Draft :=
  drafts.setIfInBounds place (.filled s.name s.typeName s.weight (List.range' drafts.size s.children.length)) ++
    Array.replicate s.children.length .blank

def waitingNext (drafts : Array Draft) (s : Structure) (rest : List (Structure × Nat)) : List (Structure × Nat) :=
  (s.children.zip (List.range' drafts.size s.children.length)).reverse ++ rest

theorem fill_cons (s : Structure) (place : Nat) (rest : List (Structure × Nat)) (drafts : Array Draft) :
    fill ((s, place) :: rest) drafts = fill (waitingNext drafts s rest) (filledIn drafts place s) := by
  cases s
  rw [fill]
  rfl

theorem fill_induction {motive : List (Structure × Nat) → Array Draft → Prop} (nil : ∀ drafts, motive [] drafts)
    (cons : ∀ s place rest drafts, motive (waitingNext drafts s rest) (filledIn drafts place s) →
      motive ((s, place) :: rest) drafts) (waiting : List (Structure × Nat)) (drafts : Array Draft) :
    motive waiting drafts :=
  fill.induct motive nil (fun m n t w cs place rest drafts hi => cons (node m n t w cs) place rest drafts hi)
    waiting drafts

theorem size_filledIn : (filledIn drafts place s).size = drafts.size + s.children.length := by
  simp [filledIn]

theorem getElem?_filledIn (within : place < drafts.size) : (filledIn drafts place s)[place]? =
    some (.filled s.name s.typeName s.weight (List.range' drafts.size s.children.length)) := by
  rw [filledIn, Array.getElem?_append_left (by simpa)]
  simp [within]

theorem getElem?_filledIn_of_ne (within : p < drafts.size) (ne : place ≠ p) :
    (filledIn drafts place s)[p]? = drafts[p]? := by
  rw [filledIn, Array.getElem?_append_left (by simpa), Array.getElem?_setIfInBounds_ne ne]

-- Behind the documents that there were, all are blank.
theorem blank_of_getElem?_filledIn {d : Draft} (beyond : drafts.size ≤ p) (h : (filledIn drafts place s)[p]? = some d) :
    d = .blank := by
  rw [filledIn, Array.getElem?_append_right (by simpa)] at h
  obtain ⟨_, rfl⟩ := Array.getElem?_eq_some_iff.mp h
  simp

theorem places_waitingNext (rest : List (Structure × Nat)) : (waitingNext drafts s rest).map (·.2) =
    (List.range' drafts.size s.children.length).reverse ++ rest.map (·.2) := by
  rw [waitingNext, List.map_append, List.map_reverse, List.map_snd_zip (by simp)]

theorem not_mem_waitingNext {rest : List (Structure × Nat)} (within : p < drafts.size) (settled : p ∉ rest.map (·.2)) :
    p ∉ (waitingNext drafts s rest).map (·.2) := by
  rw [places_waitingNext, List.mem_append, List.mem_reverse, List.mem_range'_1]
  exact not_or.mpr ⟨fun h => by omega, settled⟩

-- Each node that waits has a document of its own.
structure Waits (waiting : List (Structure × Nat)) (drafts : Array Draft) : Prop where
  distinct : (waiting.map (·.2)).Nodup
  within   : ∀ p ∈ waiting.map (·.2), p < drafts.size

theorem Waits.next {rest : List (Structure × Nat)} (h : Waits ((s, place) :: rest) drafts) :
    Waits (waitingNext drafts s rest) (filledIn drafts place s) := by
  have ⟨_, distinct⟩ := List.nodup_cons.mp h.distinct
  have ⟨_, within⟩ := List.forall_mem_cons.mp h.within
  constructor
  · rw [places_waitingNext, List.nodup_append', List.nodup_reverse]
    refine ⟨List.nodup_range', distinct, fun p hp hr => ?_⟩
    have := within p hr
    simp only [List.mem_reverse, List.mem_range'_1] at hp
    omega
  · rw [places_waitingNext, size_filledIn]
    refine List.forall_mem_append.mpr ⟨fun p hp => ?_, fun p hp => ?_⟩
    · simp only [List.mem_reverse, List.mem_range'_1] at hp
      omega
    · exact Nat.lt_add_right _ (within p hp)

theorem getElem?_fill (h : Waits waiting drafts) (settled : p ∉ waiting.map (·.2)) (within : p < drafts.size) :
    (fill waiting drafts)[p]? = drafts[p]? := by
  induction waiting, drafts using fill_induction
  case nil drafts => rw [fill]
  case cons s place rest drafts hi =>
    obtain ⟨ne, settled⟩ : p ≠ place ∧ p ∉ rest.map (·.2) := by simpa using settled
    have known : p < (filledIn drafts place s).size := size_filledIn ▸ Nat.lt_add_right _ within
    rw [fill_cons, hi h.next (not_mem_waitingNext within settled) known, getElem?_filledIn_of_ne within ne.symm]

-- The documents of children come later.
def Ordered (drafts : Array Draft) : Prop :=
  ∀ ⦃p n t w places⦄, drafts[p]? = some (.filled n t w places) → ∀ q ∈ places, p < q ∧ q < drafts.size

theorem Ordered.filledIn (ordered : Ordered drafts) (within : place < drafts.size) :
    Ordered (filledIn drafts place s) := by
  intro p n t w places h q hq
  rw [size_filledIn]
  rcases lt_or_ge p drafts.size with hp | hp
  case inr => cases blank_of_getElem?_filledIn hp h
  case inl =>
    by_cases he : place = p
    case pos =>
      subst he
      rw [getElem?_filledIn within, Option.some.injEq] at h
      cases h
      rw [List.mem_range'_1] at hq
      omega
    case neg =>
      rw [getElem?_filledIn_of_ne hp he] at h
      have := ordered h q hq
      omega

theorem Ordered.fill (ordered : Ordered drafts) (h : Waits waiting drafts) : Ordered (fill waiting drafts) := by
  induction waiting, drafts using fill_induction
  case nil drafts => rwa [Structure.fill]
  case cons s place rest drafts hi =>
    rw [fill_cons]
    exact hi (ordered.filledIn (h.within place (by simp))) h.next

-- Documents by their places, put together from what is filled in.
def Assembled (document : Nat → Json) (drafts : Array Draft) : Prop :=
  ∀ ⦃p n t w places⦄, drafts[p]? = some (.filled n t w places) →
    document p = Draft.toJson document (.filled n t w places)

theorem map_eq_of_zip {α β γ : Type} {xs : List α} {ys : List β} {f : α → γ} {g : β → γ} (same : xs.length = ys.length)
    (h : ∀ x ∈ xs.zip ys, g x.2 = f x.1) : ys.map g = xs.map f :=
  calc ys.map g = ((xs.zip ys).map (·.2)).map g := by rw [List.map_snd_zip same.ge]
    _ = ((xs.zip ys).map (·.1)).map f := by
      rw [List.map_map, List.map_map]
      exact List.map_congr_left h
    _ = xs.map f := by rw [List.map_fst_zip same.le]

-- The documents of all nodes that wait are the nested ones, once everything is filled in.
theorem document_fill (assembled : Assembled document (fill waiting drafts)) (h : Waits waiting drafts) :
    ∀ x ∈ waiting, document x.2 = x.1.nested := by
  induction waiting, drafts using fill_induction
  case nil drafts => simp
  case cons s place rest drafts hi =>
    rw [fill_cons] at assembled
    have shown := hi assembled h.next
    refine List.forall_mem_cons.mpr ⟨?_, fun x hx => shown x (List.mem_append_right _ hx)⟩
    have within : place < drafts.size := h.within place List.mem_cons_self
    have settled := not_mem_waitingNext (s := s) within (List.nodup_cons.mp h.distinct).1
    have here := getElem?_fill h.next settled (size_filledIn ▸ Nat.lt_add_right _ within)
    rw [getElem?_filledIn within] at here
    have children : (List.range' drafts.size s.children.length).map document = s.children.map nested := by
      refine map_eq_of_zip (by simp) fun x hx => ?_
      exact shown x (List.mem_append_left _ (List.mem_reverse.mpr hx))
    rw [assembled here, Draft.toJson, children]
    cases s
    rw [nested]
    rfl

section Assembly

-- The documents of the last drafts, with the very last first.
def lateDocuments (size : Nat) (drafts : List Draft) : Array Json :=
  drafts.foldr (fun draft later => later.push (draft.toJson fun p => later.getD (size - 1 - p) .null)) #[]

theorem lateDocuments_cons (size : Nat) (d : Draft) (late : List Draft) : lateDocuments size (d :: late) =
    (lateDocuments size late).push (d.toJson fun p => (lateDocuments size late).getD (size - 1 - p) .null) :=
  rfl

theorem size_lateDocuments (size : Nat) (late : List Draft) : (lateDocuments size late).size = late.length := by
  induction late
  case nil => rfl
  case cons d late hi =>
    rw [lateDocuments_cons, Array.size_push, hi, List.length_cons]

theorem getD_lateDocuments (size : Nat) (early late : List Draft) {k : Nat} (hk : k < late.length) :
    (lateDocuments size (early ++ late)).getD k .null = (lateDocuments size late).getD k .null := by
  induction early
  case nil => rfl
  case cons d early hi =>
    have known : k < (lateDocuments size (early ++ late)).size := by
      rw [size_lateDocuments, List.length_append]
      omega
    rw [← hi, List.cons_append, lateDocuments_cons, Array.getD_eq_getD_getElem?, Array.getD_eq_getD_getElem?,
      Array.getElem?_push_lt known, Array.getElem?_eq_getElem known]

theorem documents_eq (drafts : Array Draft) : documents drafts = lateDocuments drafts.size drafts.toList :=
  (Array.foldr_toList ..).symm

end Assembly

-- A document is put together from the draft at its place, and from the documents of later places.
theorem documents_assembled (ordered : Ordered drafts) :
    Assembled (fun p => (documents drafts).getD (drafts.size - 1 - p) .null) drafts := by
  intro p n t w places h
  have later := ordered h
  obtain ⟨hp, he⟩ := Array.getElem?_eq_some_iff.mp h
  generalize hd : Draft.filled n t w places = d at he
  generalize hl : drafts.toList.drop (p + 1) = late
  have split : drafts.toList = drafts.toList.take p ++ d :: late := by
    rw [← hl, ← he, ← Array.getElem_toList, List.getElem_cons_drop, List.take_append_drop]
  have length : late.length = drafts.size - 1 - p := by
    rw [← hl, List.length_drop, Array.length_toList]
    omega
  have own : (lateDocuments drafts.size (d :: late)).getD late.length .null =
      d.toJson fun q => (lateDocuments drafts.size late).getD (drafts.size - 1 - q) .null := by
    rw [lateDocuments_cons, ← size_lateDocuments drafts.size late, Array.getD_eq_getD_getElem?, Array.getElem?_push_size,
      Option.getD_some]
  have rest (q : Nat) (hq : p < q ∧ q < drafts.size) :
      (lateDocuments drafts.size late).getD (drafts.size - 1 - q) .null =
        (documents drafts).getD (drafts.size - 1 - q) .null := by
    rw [documents_eq, split, List.append_cons, getD_lateDocuments _ _ _ (by omega)]
  calc (documents drafts).getD (drafts.size - 1 - p) .null
    _ = (lateDocuments drafts.size (d :: late)).getD late.length .null := by
      rw [documents_eq, split, ← length, getD_lateDocuments _ _ _ (by simp)]
    _ = d.toJson fun q => (documents drafts).getD (drafts.size - 1 - q) .null := by
      rw [own, ← hd, Draft.toJson, Draft.toJson, List.map_congr_left fun q hq => rest q (later q hq)]

theorem toJson_eq_nested (s : Structure) : s.toJson = s.nested := by
  have waits : Waits [(s, 0)] #[.blank] := ⟨List.nodup_singleton _, by simp⟩
  have ordered : Ordered #[.blank] := by
    intro p n t w places h
    obtain ⟨hp, he⟩ := Array.getElem?_eq_some_iff.mp h
    simp at he
  have root := document_fill (documents_assembled (ordered.fill waits)) waits (s, 0) List.mem_cons_self
  generalize he : Structure.fill [(s, 0)] #[.blank] = drafts at root
  have size : (documents drafts).size = drafts.size := by rw [documents_eq, size_lateDocuments, Array.length_toList]
  rw [toJson, he, ← root, Array.back?_eq_getElem?, Array.getD_eq_getD_getElem?, size, Nat.sub_zero]

end Structure

end BoltzmannSampling
