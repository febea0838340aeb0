import BoltzmannSampling.Assoc
import BoltzmannSampling.Failure
import BoltzmannSampling.FilePath

/-!
A folder of text files as a value. A name leads from the folder through its components; a folder inside exists if
a file is in it. Nothing outside can be read or written.
-/

namespace BoltzmannSampling

abbrev Files := String → Except FileFault String

structure Folder where
  files : List (List String × String)

namespace Folder

def ofList (files : List (String × String)) : Folder :=
  ⟨files.map fun (name, text) => (FilePath.components name, text)⟩

def isFile (f : Folder) (place : List String) : Bool := (Assoc.get? f.files place).isSome

def isFolder (f : Folder) (place : List String) : Bool :=
  place.isEmpty || f.files.any fun (name, _) => place.length < name.length && place.isPrefixOf name

def follow (f : Folder) : List String → List String → Except FileFault (List String)
  | place, [] => .ok place
  | place, c :: rest =>
    if f.isFile place then .error .notFolder
    else if !f.isFolder place then .error .missing
    else if c = ".." then if place.isEmpty then .error .missing else follow f place.dropLast rest
    else follow f (place ++ [c]) rest

def locate (f : Folder) (name : String) : Except FileFault (List String) :=
  if name.isEmpty || !(FilePath.root name).isEmpty then .error .missing else follow f [] (FilePath.components name)

-- Whether a name can only be that of a folder.
def namesFolder (name : String) : Bool :=
  match (name.splitOn "/").getLast? with
  | some c => c.isEmpty || c == "."
  | none => false

def read (f : Folder) : Files := fun name => do
  let place ← f.locate name
  match Assoc.get? f.files place with
  | some text => if namesFolder name then .error .notFolder else .ok text
  | none => .error (if f.isFolder place then .folder else .missing)

def write (f : Folder) (name text : String) : Except FileFault Folder := do
  let place ← f.locate name
  if f.isFolder place then .error .folder
  else if namesFolder name then .error (if f.isFile place then .notFolder else .folder)
  else .ok ⟨Assoc.put f.files place text⟩

end Folder

end BoltzmannSampling
