import HdlPorts.Json.Shape
import HdlPorts.Names

/-! Name keys as documents. A key stands for its text only beside the table it comes from. -/

set_option autoImplicit false

namespace HdlPorts.Name

def toJson (name : Name) : Json := .natural name.key

def ofJson? (json : Json) : Option Name := (json.below? UInt32.size).map Name.mk

end HdlPorts.Name
