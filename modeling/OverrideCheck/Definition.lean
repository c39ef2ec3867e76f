import OverrideCheck.TypeRef.Basic

/-!
# `OverrideCheck.Definition`: the definitions of an API

A definition is a class, an interface or an enumeration. Classes and
interfaces declare members: properties and methods. A definition knows
its own fully qualified name (`fqn`) and names what it inherits from;
it never holds the inherited definitions themselves, so a definition
can be read without the assemblies it refers to.

Member lookup has one rule that everything else relies on: within one
definition a property hides a method of the same name, and the first
of several properties (or methods) of one name hides the later ones.
-/

set_option autoImplicit false

namespace OverrideCheck

/-- A value that an object holds under a name. -/
structure Property where
  name : String
  type : TypeRef
  /-- The property can be read only. -/
  immutable : Bool := false
  isStatic : Bool := false
  /-- The property may be absent. -/
  optional : Bool := false
  isAbstract : Bool := false
  deriving DecidableEq, Repr, Inhabited

/-- A parameter of a method. -/
structure Parameter where
  name : String
  type : TypeRef
  optional : Bool := false
  /-- The parameter takes all remaining arguments. -/
  variadic : Bool := false
  deriving DecidableEq, Repr, Inhabited

/-- What a method gives back. A method without one is void. -/
structure ReturnValue where
  type : TypeRef
  optional : Bool := false
  deriving DecidableEq, Repr, Inhabited

/-- An operation that an object offers. -/
structure Method where
  name : String
  returns : Option ReturnValue := none
  parameters : List Parameter := []
  isStatic : Bool := false
  isAbstract : Bool := false
  deriving DecidableEq, Repr, Inhabited

/-- The type of a method's result, absent for a void method. -/
def Method.returnType (m : Method) : Option TypeRef := m.returns.map (·.type)

/-- What a class or an interface declares under a name. -/
inductive Member where
  | property (p : Property)
  | method (m : Method)
  deriving DecidableEq, Repr, Inhabited

namespace Member

/-- The declared name. -/
def name : Member → String
  | property p => p.name
  | method m => m.name

/-- Whether the member belongs to the type and not to its values. -/
def isStatic : Member → Bool
  | property p => p.isStatic
  | method m => m.isStatic

/-- The word for the member's kind in messages. -/
def kindName : Member → String
  | property _ => "property"
  | method _ => "method"

/-- The references that the member mentions, in the order in which they
are examined: a method's result comes before its parameters. -/
def typeRefs : Member → List TypeRef
  | property p => [p.type]
  | method m => m.returnType.toList ++ m.parameters.map (·.type)

/-- The first property of the name, else the first method of it. -/
def find? (properties : List Property) (methods : List Method) (name : String) :
    Option Member :=
  match properties.find? (·.name = name) with
  | some p => some (property p)
  | none => (methods.find? (·.name = name)).map method

/-- Properties in their order, then methods in theirs. -/
def listOf (properties : List Property) (methods : List Method) : List Member :=
  properties.map property ++ methods.map method

/-- What is found under a name is one of the members and has the
name. -/
theorem mem_listOf_of_find? {properties : List Property} {methods : List Method} {name : String}
    {m : Member} (h : find? properties methods name = some m) :
    m ∈ listOf properties methods ∧ m.name = name := by
  unfold find? at h
  split at h
  · next p hp =>
    cases h
    have hname := List.find?_some hp
    exact ⟨List.mem_append_left _ (List.mem_map_of_mem (List.mem_of_find?_eq_some hp)),
      of_decide_eq_true hname⟩
  · obtain ⟨k, hk, rfl⟩ := Option.map_eq_some_iff.1 h
    have hname := List.find?_some hk
    exact ⟨List.mem_append_right _ (List.mem_map_of_mem (List.mem_of_find?_eq_some hk)),
      of_decide_eq_true hname⟩

end Member

/-- A class: at most one base, and any number of interfaces. -/
structure ClassDef where
  fqn : String
  base : Option String := none
  interfaces : List String := []
  isAbstract : Bool := false
  properties : List Property := []
  methods : List Method := []
  deriving DecidableEq, Repr, Inhabited

/-- The member that the class itself declares under the name. -/
def ClassDef.member? (c : ClassDef) (name : String) : Option Member :=
  Member.find? c.properties c.methods name

/-- An interface: it may extend any number of others. -/
structure InterfaceDef where
  fqn : String
  interfaces : List String := []
  properties : List Property := []
  methods : List Method := []
  deriving DecidableEq, Repr, Inhabited

/-- The member that the interface itself declares under the name. -/
def InterfaceDef.member? (i : InterfaceDef) (name : String) : Option Member :=
  Member.find? i.properties i.methods name

/-- One constant of an enumeration. -/
structure EnumMember where
  name : String
  deriving DecidableEq, Repr, Inhabited

/-- An enumeration. It inherits nothing and overrides nothing. -/
structure EnumDef where
  fqn : String
  members : List EnumMember := []
  deriving DecidableEq, Repr, Inhabited

/-- The three kinds of definition. -/
inductive TypeKind where
  | classKind
  | interfaceKind
  | enumKind
  deriving DecidableEq, Repr, Inhabited

namespace TypeKind

/-- The word for the kind in texts and files. -/
def name : TypeKind → String
  | classKind => "class"
  | interfaceKind => "interface"
  | enumKind => "enum"

/-- Every kind, in the order in which messages list them. -/
def all : List TypeKind := [classKind, interfaceKind, enumKind]

end TypeKind

/-- A definition of an assembly. -/
inductive TypeDef where
  | class (c : ClassDef)
  | interface (i : InterfaceDef)
  | enum (e : EnumDef)
  deriving DecidableEq, Repr, Inhabited

namespace TypeDef

/-- The name that the definition gives itself. It need not be the name
under which an assembly stores it. -/
def fqn : TypeDef → String
  | .class c => c.fqn
  | .interface i => i.fqn
  | .enum e => e.fqn

/-- Which of the three kinds it is. -/
def kind : TypeDef → TypeKind
  | .class _ => .classKind
  | .interface _ => .interfaceKind
  | .enum _ => .enumKind

/-- The base that a class names. -/
def base? : TypeDef → Option String
  | .class c => c.base
  | _ => none

/-- The interfaces that the definition lists. -/
def interfaces : TypeDef → List String
  | .class c => c.interfaces
  | .interface i => i.interfaces
  | .enum _ => []

/-- The definition as a class. -/
def class? : TypeDef → Option ClassDef
  | .class c => some c
  | _ => none

/-- The definition as an interface. -/
def interface? : TypeDef → Option InterfaceDef
  | .interface i => some i
  | _ => none

/-- The members that the definition itself declares. The constants of
an enumeration are no members. -/
def members : TypeDef → List Member
  | .class c => Member.listOf c.properties c.methods
  | .interface i => Member.listOf i.properties i.methods
  | .enum _ => []

/-- The member that the definition itself declares under the name. -/
def member? : TypeDef → String → Option Member
  | .class c, name => c.member? name
  | .interface i, name => i.member? name
  | .enum _, _ => none

end TypeDef

end OverrideCheck
