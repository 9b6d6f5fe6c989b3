/-
A project under construction.

Parts are added to a project one by one, and each file, class, method and attribute is
found again by the name that it was last added with.  A part is remembered by its place,
so that what is changed later shows in everything that holds it; parts are only ever added
behind those that are there, so that places stay what they are.
-/
import ApiClientGen.Code.Model
import ApiClientGen.Document.Fields

namespace ApiClientGen.Code

/-- The place of a class: its file, and its place among the classes of the file. -/
structure ClassPlace where
  file : Nat
  index : Nat
  deriving DecidableEq, Repr

/-- The place of a function: its file or its class, and its place among the functions there. -/
inductive FunctionPlace where
  | inFile (file index : Nat)
  | inClass (owner : ClassPlace) (index : Nat)
  deriving DecidableEq, Repr

/-- The place of an attribute: its class, and its place among the attributes there. -/
structure AttributePlace where
  owner : ClassPlace
  index : Nat
  deriving DecidableEq, Repr

/-- A project with the places of its parts by their names. -/
structure Draft where
  project : Project
  files : Fields Nat := []
  classes : Fields ClassPlace := []
  functions : Fields FunctionPlace := []
  attributes : Fields AttributePlace := []
  deriving Repr

namespace Draft

/-! ### Finding parts -/

/-- The file at a place. -/
def fileAt? (d : Draft) (place : Nat) : Option CodeFile := d.project.files[place]?

/-- The class at a place. -/
def classAt? (d : Draft) (p : ClassPlace) : Option ClassDef :=
  (d.fileAt? p.file).bind fun f => f.classes[p.index]?

/-- The function at a place. -/
def functionAt? (d : Draft) : FunctionPlace → Option FunctionDef
  | .inFile file index => (d.fileAt? file).bind fun f => f.functions[index]?
  | .inClass owner index => (d.classAt? owner).bind fun c => c.functions[index]?

/-- The attribute at a place. -/
def attributeAt? (d : Draft) (p : AttributePlace) : Option Parameter :=
  (d.classAt? p.owner).bind fun c => c.parameters[p.index]?

/-- The file that was last added with a name. -/
def file? (d : Draft) (name : String) : Option CodeFile := (Fields.get? d.files name).bind d.fileAt?

/-- The class that was last added with a name. -/
def class? (d : Draft) (name : String) : Option ClassDef :=
  (Fields.get? d.classes name).bind d.classAt?

/-- The function that was last added with a name. -/
def function? (d : Draft) (name : String) : Option FunctionDef :=
  (Fields.get? d.functions name).bind d.functionAt?

/-- The attribute that was last added with a name. -/
def attribute? (d : Draft) (name : String) : Option Parameter :=
  (Fields.get? d.attributes name).bind d.attributeAt?

/-! ### Changing parts -/

/-- Changes the file at a place. -/
def changeFileAt (d : Draft) (place : Nat) (f : CodeFile → CodeFile) : Draft :=
  { d with project.files := d.project.files.modify place f }

/-- Changes the class at a place. -/
def changeClassAt (d : Draft) (p : ClassPlace) (f : ClassDef → ClassDef) : Draft :=
  d.changeFileAt p.file fun file => { file with classes := file.classes.modify p.index f }

/-- Changes the function at a place. -/
def changeFunctionAt (d : Draft) (f : FunctionDef → FunctionDef) : FunctionPlace → Draft
  | .inFile file index =>
    d.changeFileAt file fun x => { x with functions := x.functions.modify index f }
  | .inClass owner index =>
    d.changeClassAt owner fun x => { x with functions := x.functions.modify index f }

/-- Changes the attribute at a place. -/
def changeAttributeAt (d : Draft) (p : AttributePlace) (f : Parameter → Parameter) : Draft :=
  d.changeClassAt p.owner fun x => { x with parameters := x.parameters.modify p.index f }

/-- Changes the file that was last added with a name. -/
def changeFile (d : Draft) (name : String) (f : CodeFile → CodeFile) : Draft :=
  ((Fields.get? d.files name).map fun place => d.changeFileAt place f).getD d

/-- Changes the class that was last added with a name. -/
def changeClass (d : Draft) (name : String) (f : ClassDef → ClassDef) : Draft :=
  ((Fields.get? d.classes name).map fun place => d.changeClassAt place f).getD d

/-- Changes the function that was last added with a name. -/
def changeFunction (d : Draft) (name : String) (f : FunctionDef → FunctionDef) : Draft :=
  ((Fields.get? d.functions name).map fun place => d.changeFunctionAt f place).getD d

/-- Changes the attribute that was last added with a name. -/
def changeAttribute (d : Draft) (name : String) (f : Parameter → Parameter) : Draft :=
  ((Fields.get? d.attributes name).map fun place => d.changeAttributeAt place f).getD d

/-! ### Adding parts -/

/-- Adds a file. -/
def addFile (d : Draft) (f : CodeFile) : Draft :=
  { d with
    project.files := d.project.files ++ [f]
    files := Fields.set d.files f.path d.project.files.length }

/-- Adds a class to a file. -/
def addClass (d : Draft) (file : String) (c : ClassDef) : Draft :=
  match Fields.get? d.files file with
  | none => d
  | some place =>
    let index := ((d.fileAt? place).map (·.classes.length)).getD 0
    { d.changeFileAt place fun f => { f with classes := f.classes ++ [c] } with
      classes := Fields.set d.classes c.name ⟨place, index⟩ }

/-- Adds a function to a file. -/
def addFunction (d : Draft) (file : String) (x : FunctionDef) : Draft :=
  match Fields.get? d.files file with
  | none => d
  | some place =>
    let index := ((d.fileAt? place).map (·.functions.length)).getD 0
    { d.changeFileAt place fun f => { f with functions := f.functions ++ [x] } with
      functions := Fields.set d.functions x.name (.inFile place index) }

/-- Adds a method to a class. -/
def addMethod (d : Draft) (owner : String) (x : FunctionDef) : Draft :=
  match Fields.get? d.classes owner with
  | none => d
  | some place =>
    let index := ((d.classAt? place).map (·.functions.length)).getD 0
    { d.changeClassAt place fun c => { c with functions := c.functions ++ [x] } with
      functions := Fields.set d.functions x.name (.inClass place index) }

/-- Adds an attribute to a class. -/
def addAttribute (d : Draft) (owner : String) (x : Parameter) : Draft :=
  match Fields.get? d.classes owner with
  | none => d
  | some place =>
    let index := ((d.classAt? place).map (·.parameters.length)).getD 0
    { d.changeClassAt place fun c => { c with parameters := c.parameters ++ [x] } with
      attributes := Fields.set d.attributes x.name ⟨place, index⟩ }

/-- Adds a block of code to a file. -/
def addBlock (d : Draft) (file : String) (b : Block) : Draft :=
  d.changeFile file fun f => { f with blocks := f.blocks ++ [b] }

/-- Adds a block of code to a class. -/
def addClassBlock (d : Draft) (owner : String) (b : Block) : Draft :=
  d.changeClass owner fun c => { c with blocks := c.blocks ++ [b] }

end Draft

end ApiClientGen.Code
