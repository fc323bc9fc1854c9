import Arcal.Schema.Model

/-! What the schema compiler looks for in an XSD: declarations of elements, complex types and
simple types. An attribute that is not there is `none`. -/

namespace Arcal.Schema

inductive Occurs
  | count (n : Nat)
  | unbounded
  deriving DecidableEq, Repr

structure ElementDecl where
  name : Option String
  ref : Option String
  type : Option String
  minOccurs : Option Nat
  maxOccurs : Option Occurs
  deriving DecidableEq, Repr

/-- A content model. `other` stands for what the compiler never looks for. -/
inductive Particle
  | element (decl : ElementDecl)
  | sequence (children : List Particle)
  | choice (children : List Particle)
  | other

structure Extension where
  base : Option String
  children : List Particle

/-- `xs:complexType`; the extensions are those under `xs:complexContent` and
`xs:simpleContent`. -/
structure ComplexType where
  name : Option String
  complexContent : List Extension
  simpleContent : List Extension
  children : List Particle

structure Restriction where
  base : Option String
  enumerations : List String
  deriving DecidableEq, Repr

structure SimpleType where
  name : Option String
  restriction : Option Restriction
  deriving DecidableEq, Repr

structure Document where
  elements : List ElementDecl
  complexTypes : List ComplexType
  simpleTypes : List SimpleType

def elementsOf (children : List Particle) : List ElementDecl :=
  children.filterMap fun child =>
    match child with
    | .element decl => some decl
    | _ => none

def sequencesOf (children : List Particle) : List (List Particle) :=
  children.filterMap fun child =>
    match child with
    | .sequence inner => some inner
    | _ => none

def choicesIn (children : List Particle) : List (List Particle) :=
  children.filterMap fun child =>
    match child with
    | .choice inner => some inner
    | _ => none

mutual
/-- The elements a content model declares, however deep they stand. -/
def Particle.declared : Particle → List ElementDecl
  | .element decl => [decl]
  | .sequence children => declaredIn children
  | .choice children => declaredIn children
  | .other => []

def declaredIn : List Particle → List ElementDecl
  | [] => []
  | child :: rest => child.declared ++ declaredIn rest
end

namespace ComplexType

/-- The outermost sequences and choices: direct ones and those under an extension. -/
def groups (ct : ComplexType) : List (List Particle) :=
  ((ct.complexContent ++ ct.simpleContent).map Extension.children ++ [ct.children]).flatMap
    fun children => sequencesOf children ++ choicesIn children

def declared (ct : ComplexType) : List ElementDecl := ct.groups.flatMap declaredIn

/-- The elements that stand directly in an outermost sequence or choice. -/
def outermost (ct : ComplexType) : List ElementDecl := ct.groups.flatMap elementsOf

end ComplexType

end Arcal.Schema
