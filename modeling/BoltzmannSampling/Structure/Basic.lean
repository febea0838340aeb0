import BoltzmannSampling.Failure

/-!
Structures: trees of constructor nodes. A node has the name of its constructor, its type, the atoms of its own, and
children in order. Its mark tells nodes apart: a node that is a child more than once has one mark in all places.
Traversals go through a list of what is still to be visited, so that depth does not matter.
-/

namespace BoltzmannSampling

inductive Structure where
  | node (mark : Nat) (name typeName : String) (weight : Nat) (children : List Structure)

namespace Structure

instance : Inhabited Structure := ⟨.node 0 "" "" 0 []⟩

def mark : Structure → Nat
  | node m _ _ _ _ => m

def name : Structure → String
  | node _ n _ _ _ => n

def typeName : Structure → String
  | node _ _ t _ _ => t

def weight : Structure → Nat
  | node _ _ _ w _ => w

def children : Structure → List Structure
  | node _ _ _ _ cs => cs

theorem sizeOf_append {α : Type} [SizeOf α] (xs ys : List α) :
    sizeOf (xs ++ ys) + 1 = sizeOf xs + sizeOf ys := by
  induction xs with
  | nil => simp [Nat.add_comm]
  | cons x xs ih =>
    simp only [List.cons_append, List.cons.sizeOf_spec]
    omega

-- The nodes of some trees behind those already visited, the last first.
def visit : List Structure → List Structure → List Structure
  | [], visited => visited
  | node m n t w cs :: rest, visited => visit (cs ++ rest) (node m n t w cs :: visited)
termination_by pending => sizeOf pending
decreasing_by
  have := sizeOf_append cs rest
  simp
  omega

def walk (s : Structure) : List Structure := (visit [s] []).reverse

def size (s : Structure) : Nat := s.walk.foldl (fun n node => n + node.weight) 0

def length (s : Structure) : Nat := s.walk.length

-- How often names occur, in the order of their first occurrence.
def tally (names : List String) : List (String × Nat) :=
  names.foldl (fun counts n => Assoc.put counts n ((Assoc.get? counts n).getD 0 + 1)) []

def counts (s : Structure) : List (String × Nat) := tally (s.walk.map name)

-- A document in the making: blank, or with the labels of a node and the places of the documents of its children.
inductive Draft where
  | blank
  | filled (name typeName : String) (weight : Nat) (children : List Nat)

def Draft.toJson (document : Nat → Json) : Draft → Json
  | blank => .object []
  | filled n t w places =>
    .object [("name", .text n), ("type", .text t), ("weight", .nat w), ("children", .array (places.map document))]

theorem sizeOf_reverse {α : Type} [SizeOf α] (xs : List α) : sizeOf xs.reverse = sizeOf xs := by
  induction xs with
  | nil => rfl
  | cons x xs ih =>
    have := sizeOf_append xs.reverse [x]
    simp only [List.cons.sizeOf_spec, List.nil.sizeOf_spec] at this
    rw [List.reverse_cons, List.cons.sizeOf_spec]
    omega

-- Fills in the documents that wait for their nodes. Blank ones for the children of a node come behind all others, and
-- that of the last child is filled in first.
def fill : List (Structure × Nat) → Array Draft → Array Draft
  | [], drafts => drafts
  | (node _ n t w cs, place) :: rest, drafts =>
    let places := List.range' drafts.size cs.length
    fill ((cs.zip places).reverse ++ rest)
      (drafts.setIfInBounds place (.filled n t w places) ++ Array.replicate cs.length .blank)
termination_by waiting => sizeOf (waiting.map Prod.fst)
decreasing_by
  have children : (cs.zip (List.range' drafts.size cs.length)).map Prod.fst = cs := List.map_fst_zip (by simp)
  have := sizeOf_append cs.reverse (rest.map Prod.fst)
  have := sizeOf_reverse cs
  simp [children]
  omega

-- The documents from the last to the first, so that those of its children are there when a document is put together.
def documents (drafts : Array Draft) : Array Json :=
  drafts.foldr (fun draft later => later.push (draft.toJson fun place => later.getD (drafts.size - 1 - place) .null)) #[]

-- The document of a tree, with the documents of the children inside.
def toJson (s : Structure) : Json := (documents (fill [(s, 0)] #[.blank])).back?.getD .null

def literal (s : Structure) : String :=
  "Structure(name=" ++ Text.quoted s.name ++ ", type=" ++ Text.quoted s.typeName ++ ", size=" ++ toString s.size ++ ")"

end Structure

end BoltzmannSampling
