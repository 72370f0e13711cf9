import RefCache.Json.Value
import RefCache.Json.Read

/-! Types with a JSON form: how a value is written and how it is read back. -/

namespace RefCache

class Wire (α : Type) where
  encode : α → Json
  reader : Json.Read α

namespace Wire

variable {α : Type} [Wire α]

def toText (a : α) : String := (encode a).render

def ofText (text : String) : Except Fault α := Json.read reader text

/-- A required field of a record. -/
def field (name : String) (β : Type) [Wire β] : Json.Slot :=
  Json.slot name .always (reader (α := β))

end Wire

instance : Wire String := ⟨.text, Json.readText⟩

instance : Wire Bool := ⟨.bool, Json.readBool⟩

instance : Wire Int32 := ⟨fun i => .int i.toInt, fun t => (Json.readInt32 t).map Int32.ofInt⟩

instance : Wire Int64 := ⟨fun i => .int i.toInt, fun t => (Json.readInt64 t).map Int64.ofInt⟩

instance : Wire Uuid := ⟨fun u => .text u.text, Json.readUuid⟩

instance {α : Type} [Wire α] : Wire (List α) :=
  ⟨fun as => .array (as.map Wire.encode), Json.readList Wire.reader⟩

instance {α : Type} [Wire α] : Wire (Option α) :=
  ⟨Json.orNull Wire.encode, Json.readOption Wire.reader⟩

end RefCache
