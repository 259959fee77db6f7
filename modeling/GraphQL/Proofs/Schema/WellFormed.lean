import GraphQL.Proofs.Schema.Registration
import Mathlib.Data.List.Nodup
import Mathlib.Logic.Relation

/-!
Well-formed schemas. A schema consists of the types that it starts from and of all types that they
lead to by instance. It is well-formed if names tell these types apart, no type leads back to
itself, and every reference stands for a type of the kind that its place asks for.
-/

namespace GraphQL

/-- The instances that a type refers to. -/
def NamedType.targets (type : NamedType) : List Instance :=
  type.references.filterMap fun entry => entry.1.target?

theorem NamedType.mem_targets {type : NamedType} {target : Instance} :
    target ∈ type.targets ↔ ∃ entry ∈ type.references, entry.1.target? = some target :=
  List.mem_filterMap

namespace Schema

variable (schema : Schema)

/-! ## The types of a schema -/

/-- The references that the arguments of directives make. -/
def directiveReferences : List TypeRef :=
  schema.allDirectives.flatMap fun directive => directive.arguments.map InputValueDefinition.type

/-- The instances that a schema mentions itself. -/
def starts : List Instance :=
  schema.registered ++ schema.directiveReferences.filterMap TypeRef.target?

/-- A type refers to another one by instance. -/
def LeadsTo (type next : NamedType) : Prop :=
  ∃ target ∈ type.targets, schema.instance? target = some next

/-- What the schema mentions belongs to it, and so does whatever that leads to. -/
inductive Member : NamedType → Prop
  | start {target : Instance} {type : NamedType} (listed : target ∈ schema.starts)
      (found : schema.instance? target = some type) : Member type
  | next {type next : NamedType} (member : Member type) (leads : schema.LeadsTo type next) :
      Member next

/-- Instances are told apart by their keys, and every reference by instance means one of them. -/
structure Pooled : Prop where
  distinct : (schema.instances.map NamedType.key).Nodup
  starts : ∀ target ∈ schema.starts, (schema.instance? target).isSome
  targets : ∀ type ∈ schema.instances, ∀ target ∈ type.targets, (schema.instance? target).isSome

/-! ## What references stand for -/

/-- A reference that a type of the schema makes, or an argument of a directive. -/
inductive Makes (reference : TypeRef) : Prop
  | directive (listed : reference ∈ schema.directiveReferences)
  | type {type : NamedType} {place : String} (member : schema.Member type)
      (listed : (reference, place) ∈ type.references)

/-- By name a reference stands for the type of the schema that has the name, by instance for the
instance. -/
inductive Stands (reference : TypeRef) (type : NamedType) : Prop
  | name (isName : reference.innermost = .named type.name) (member : schema.Member type)
  | target {target : Instance} (isTarget : reference.target? = some target)
      (found : schema.instance? target = some type)

/-- A reference stands for a type of some kind. -/
def Fits (kind : NamedType → Prop) (reference : TypeRef) : Prop :=
  ∃ type, schema.Stands reference type ∧ kind type

/-- The references of a type stand for types of the kinds that their places ask for. -/
@[mk_iff]
structure KindsFit (type : NamedType) : Prop where
  interfaces : ∀ references ∈ type.interfaces?, ∀ reference ∈ references,
    schema.Fits (fun interface => interface.kind = .interface) reference
  members : ∀ shape, type.shape = .union shape → ∀ reference ∈ shape.members,
    schema.Fits (fun object => object.isObject = true) reference
  fields : ∀ fields ∈ type.fields?, ∀ field ∈ fields,
    schema.Fits (fun output => output.isOutput = true) field.type
  arguments : ∀ fields ∈ type.fields?, ∀ field ∈ fields, ∀ argument ∈ field.arguments,
    schema.Fits (fun input => input.isInput = true) argument.type
  inputFields : ∀ fields ∈ type.inputFields?, ∀ field ∈ fields,
    schema.Fits (fun input => input.isInput = true) field.type

/-- The root types. -/
def roots : List Instance :=
  schema.query :: schema.mutation.toList ++ schema.subscription.toList

structure WellFormed : Prop where
  /-- Different types have different names. -/
  apart : ∀ type other, schema.Member type → schema.Member other → type.name = other.name →
    type = other
  acyclic : ∀ type, schema.Member type → ¬Relation.TransGen schema.LeadsTo type type
  /-- Every name that is referred to is the name of a type. -/
  named : ∀ reference name, schema.Makes reference → reference.innermost = .named name →
    ∃ type, schema.Member type ∧ type.name = name
  kinds : ∀ type, schema.Member type → schema.KindsFit type
  roots : ∀ root ∈ schema.roots, ∃ type, schema.instance? root = some type ∧ type.isObject = true
  directives : (Named.names schema.allDirectives).Nodup

/-! ## Instances -/

variable {schema}

theorem mem_instances {target : Instance} {type : NamedType}
    (found : schema.instance? target = some type) : type ∈ schema.instances :=
  List.mem_of_find?_eq_some found

private theorem means_of_instance? {target : Instance} {type : NamedType}
    (found : schema.instance? target = some type) : schema.Means type := by
  rw [Means, instance?_eq found]
  exact found

theorem Member.means {type : NamedType} (member : schema.Member type) : schema.Means type := by
  cases member with
  | start listed found => exact means_of_instance? found
  | next member leads =>
      rcases leads with ⟨target, listed, found⟩
      exact means_of_instance? found

theorem Pooled.eq_of_key (pooled : schema.Pooled) {type other : NamedType}
    (means : schema.Means type) (otherMeans : schema.Means other) (sameKey : type.key = other.key) :
    type = other :=
  List.inj_on_of_nodup_map pooled.distinct (mem_instances means) (mem_instances otherMeans) sameKey

/-- Being of the schema does not depend on the order in which it mentions types. -/
theorem Member.mono {other : Schema} (samePool : other.pool = schema.pool)
    (starts : ∀ target ∈ schema.starts, target ∈ other.starts) {type : NamedType}
    (member : schema.Member type) : other.Member type := by
  have sameInstances : other.instance? = schema.instance? := by
    funext target
    rw [instance?, instance?, instances, instances, samePool]
  induction member with
  | start listed found => exact .start (starts _ listed) (sameInstances ▸ found)
  | next member leads induction =>
      rcases leads with ⟨target, listed, found⟩
      exact .next induction ⟨target, listed, sameInstances ▸ found⟩

end Schema

end GraphQL
