import Eligibility.Loading.Basic
import Eligibility.Schema

/-!
# Schema — schemas in JSON

A schema is an object with the field `attributes`, or an array of that field.  The attributes are
an object; of a repeated key the last member counts.  A type is its name, or an object whose only
member has that name as its key and null as its value.

* `Loading.valueType` — the type of an attribute;
* `Loading.attributes` — the attributes;
* `Loading.schema` — a schema.
-/

namespace Eligibility
namespace Loading

/-- The type of the given name. -/
def typeOfName (name : String) : Except Error ValueType :=
  match ValueType.ofName? name with
  | some type => .ok type
  | none => .error .wrongShape

/-- The type that is the first member of an object, which has to be its last one. -/
def typeTail (type : ValueType) : Json.Members → Except Error ValueType
  | .done => .ok type
  | _ => .error .malformed

/-- The type of an attribute; what is neither a string nor an object cannot start a type. -/
def valueType : Json → Except Error ValueType
  | .string (some name) => typeOfName name
  | .object (.member (some name) .null tail) =>
    match typeOfName name with
    | .error e => .error e
    | .ok type => typeTail type tail
  | .object (.member (some name) value _) =>
    match typeOfName name with
    | .error e => .error e
    | .ok _ => .error (unexpected value)
  | .object (.stray (some name)) =>
    match typeOfName name with
    | .error e => .error e
    | .ok _ => .error .malformed
  | _ => .error .malformed

/-- The schema with the members of an object added. -/
def attributeMembers (schema : Schema) : Json.Members → Except Error Schema
  | .done => .ok schema
  | .member (some key) json tail =>
    match valueType json with
    | .error e => .error e
    | .ok type => attributeMembers (schema.insert key type) tail
  | _ => .error .malformed

/-- The attributes of a schema. -/
def attributes : Json → Except Error Schema
  | .object members => attributeMembers .empty members
  | json => .error (unexpected json)

/-- The schema of the members of an object, where `found` are the attributes read so far. -/
def schemaMembers (found : Option Schema) : Json.Members → Except Error Schema
  | .done =>
    match found with
    | none => .error (.missingField "attributes")
    | some schema => .ok schema
  | .broken => .error .malformed
  | .stray (some key) =>
    if key = "attributes" ∧ found.isSome then .error (.duplicateField key)
    else .error .malformed
  | .stray none => .error .malformed
  | .member none _ _ => .error .malformed
  | .member (some key) json tail =>
    if key = "attributes" then
      if found.isSome then .error (.duplicateField key)
      else
        match attributes json with
        | .error e => .error e
        | .ok schema => schemaMembers (some schema) tail
    else if json.isComplete then schemaMembers found tail
    else .error .malformed

/-- The schema that is the first item of an array, which has to be its last one. -/
def schemaTail (schema : Schema) : Json.Items → Except Error Schema
  | .done => .ok schema
  | _ => .error .malformed

/-- The schema of a document. -/
def schema : Json → Except Error Schema
  | .object members => schemaMembers none members
  | .array .done => .error .wrongShape
  | .array .broken => .error .malformed
  | .array (.item head tail) =>
    match attributes head with
    | .error e => .error e
    | .ok schema => schemaTail schema tail
  | json => .error (unexpected json)

end Loading

namespace Schema

/-- A reason why there is no schema. -/
inductive Error where
  /-- There is no text to read. -/
  | unreadable
  | loading (e : Loading.Error)
deriving DecidableEq, Repr

/-- The schema that a JSON text stands for. -/
def ofJsonText (text : String) : Except Error Schema :=
  match Loading.load Loading.schema text with
  | .ok schema => .ok schema
  | .error e => .error (.loading e)

/-- The schema that the bytes of a file stand for, if there is one. -/
def ofFile (contents : Option (List UInt8)) : Except Error Schema :=
  match contents with
  | none => .error .unreadable
  | some bytes =>
    match String.fromUTF8? ⟨bytes.toArray⟩ with
    | none => .error .unreadable
    | some text => ofJsonText text

end Schema
end Eligibility
