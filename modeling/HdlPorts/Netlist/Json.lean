import HdlPorts.Bits.Json
import HdlPorts.Names.Json
import HdlPorts.Netlist.Entity
import HdlPorts.Source.Json

/-! Entities as documents.

Slots and names are written as numbers. An entity is read as it is written; whether it keeps the
rules of an entity is not looked at.
-/

set_option autoImplicit false

namespace HdlPorts

namespace Slot

variable {α : Type}

def toJson (slot : Slot α) : Json := .natural slot.index

def ofJson? (json : Json) : Option (Slot α) := (json.below? UInt32.size).map Slot.mk

end Slot

namespace Arena

variable {α : Type}

def toJson (encode : α → Json) (arena : Arena α) : Json :=
  .fields [("items", .ofList encode arena.items)]

def ofJson? (decode : Nat → Json → Option α) (depth : Nat) (json : Json) : Option (Arena α) := do
  let (depth, [items]) ← json.record? ["items"] depth | none
  let items ← items >>= Json.list? decode depth
  return ⟨items⟩

end Arena

namespace Digest

def toJson (digest : Digest) : Json :=
  .ofList (fun byte : UInt8 => .natural byte.toNat) digest.bytes

def ofJson? (depth : Nat) (json : Json) : Option Digest := do
  let bytes ← Json.list? (fun _ => Json.uint8?) depth json
  if length_eq : bytes.length = 16 then some ⟨bytes, length_eq⟩ else none

end Digest

namespace SignalType

def toJson (type : SignalType) : Json :=
  .fields [("width", .natural type.width.toNat), ("signed", .bool type.signed)]

def ofJson? (depth : Nat) (json : Json) : Option SignalType := do
  let (_, [width, signed]) ← json.record? ["width", "signed"] depth | none
  let width ← width >>= Json.uint32?
  let signed ← signed >>= Json.bool?
  return ⟨width, signed⟩

end SignalType

namespace Role

def tag : Role → String
  | input => "Input"
  | output => "Output"

def ofTag? : String → Option Role
  | "Input" => some input
  | "Output" => some output
  | _ => none

def toJson (role : Role) : Json := .text role.tag

def ofJson? (depth : Nat) (json : Json) : Option Role := json.tag? depth >>= ofTag?

end Role

namespace Signal

def toJson (signal : Signal) : Json :=
  .fields [
    ("name", signal.name.toJson),
    ("ty", signal.type.toJson),
    ("role", signal.role.toJson),
    ("companion_of", .orNull Name.toJson signal.companionOf),
    ("span", signal.span.toJson)]

def ofJson? (depth : Nat) (json : Json) : Option Signal := do
  let (depth, [name, type, role, companionOf, span]) ←
    json.record? ["name", "ty", "role", "companion_of", "span"] depth | none
  let name ← name >>= Name.ofJson?
  let type ← type >>= SignalType.ofJson? depth
  let role ← role >>= Role.ofJson? depth
  let companionOf ← Json.optional? (fun _ => Name.ofJson?) depth companionOf
  let span ← span >>= Span.ofJson? depth
  return ⟨name, type, role, companionOf, span⟩

end Signal

namespace Drive

def toJson (drive : Drive) : Json :=
  .fields [
    ("target", drive.target.toJson),
    ("value", drive.value.toJson),
    ("span", drive.span.toJson)]

def ofJson? (depth : Nat) (json : Json) : Option Drive := do
  let (depth, [target, value, span]) ← json.record? ["target", "value", "span"] depth | none
  let target ← target >>= Slot.ofJson?
  let value ← value >>= LogicVector.ofJson? depth
  let span ← span >>= Span.ofJson? depth
  return ⟨target, value, span⟩

end Drive

namespace Entity

def toJson (entity : Entity) : Json :=
  .fields [
    ("name", entity.name.toJson),
    ("signals", entity.signals.toJson Signal.toJson),
    ("inputs", .ofList Slot.toJson entity.inputs),
    ("outputs", .ofList Slot.toJson entity.outputs),
    ("body", .ofList Drive.toJson entity.body),
    ("content_hash", entity.digest.toJson),
    ("span", entity.span.toJson)]

def ofJson? (depth : Nat) (json : Json) : Option Entity := do
  let (depth, [name, signals, inputs, outputs, body, digest, span]) ←
    json.record? ["name", "signals", "inputs", "outputs", "body", "content_hash", "span"] depth
    | none
  let name ← name >>= Name.ofJson?
  let signals ← signals >>= Arena.ofJson? Signal.ofJson? depth
  let inputs ← inputs >>= Json.list? (fun _ => Slot.ofJson?) depth
  let outputs ← outputs >>= Json.list? (fun _ => Slot.ofJson?) depth
  let body ← body >>= Json.list? Drive.ofJson? depth
  let digest ← digest >>= Digest.ofJson? depth
  let span ← span >>= Span.ofJson? depth
  return ⟨name, signals, inputs, outputs, body, digest, span⟩

end Entity

end HdlPorts
