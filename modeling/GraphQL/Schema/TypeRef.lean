import GraphQL.Document.Literal

/-!
References to types. A reference names a type, or means one instance of it: two types may have one
name, and then only one of them can belong to a schema.
-/

namespace GraphQL

/-- What tells type instances apart, whatever their names. -/
inductive TypeKey where
  | builtIn (name : String)
  | custom (index : Nat)
deriving DecidableEq, Repr

structure Instance where
  key : TypeKey
  name : String
deriving DecidableEq, Repr

inductive TypeRef where
  /-- By name. The registry must know the name. -/
  | named (name : String)
  /-- To an instance, which is registered along with what refers to it. -/
  | direct (target : Instance)
  /-- To an instance that is looked up when the registry is built. -/
  | deferred (target : Instance)
  | list (item : TypeRef)
  | nonNull (inner : TypeRef)
deriving DecidableEq, Repr

namespace TypeRef

instance : Inhabited TypeRef := ⟨.named ""⟩

def ofExpr : TypeExpr → TypeRef
  | .named name => .named name
  | .list item => .list (ofExpr item)
  | .nonNull inner => .nonNull (ofExpr inner)

def required : TypeRef → TypeRef
  | .nonNull inner => .nonNull inner
  | type => .nonNull type

def isNonNull : TypeRef → Bool
  | .nonNull _ => true
  | _ => false

def nullable : TypeRef → TypeRef
  | .nonNull inner => inner
  | type => type

/-- The item type of a list, null or not. -/
def listItem? (type : TypeRef) : Option TypeRef :=
  match type.nullable with
  | .list item => some item
  | _ => none

def isList (type : TypeRef) : Bool := type.listItem?.isSome

def typeName : TypeRef → String
  | .named name => name
  | .direct target => target.name
  | .deferred target => target.name
  | .list item => item.typeName
  | .nonNull inner => inner.typeName

def innermost : TypeRef → TypeRef
  | .list item => item.innermost
  | .nonNull inner => inner.innermost
  | type => type

def text : TypeRef → String
  | .list item => "[" ++ item.text ++ "]"
  | .nonNull inner => inner.text ++ "!"
  | .named name => name
  | .direct target => target.name
  | .deferred target => target.name

def same : TypeRef → TypeRef → Bool
  | .list left, .list right => left.same right
  | .nonNull left, .nonNull right => left.same right
  | .list _, _ => false
  | .nonNull _, _ => false
  | _, .list _ => false
  | _, .nonNull _ => false
  | left, right => left.typeName == right.typeName

theorem typeName_innermost (type : TypeRef) : type.innermost.typeName = type.typeName := by
  induction type with
  | list item induction => simpa [innermost, typeName] using induction
  | nonNull inner induction => simpa [innermost, typeName] using induction
  | named name => rfl
  | direct target => rfl
  | deferred target => rfl

end TypeRef

end GraphQL
