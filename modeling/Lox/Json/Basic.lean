/-!
JSON values as this library writes them. Members of an object keep their order.
-/

namespace Lox

inductive Json
  | null
  | boolean (b : Bool)
  | integer (n : Nat)
  | float (x : Float)
  | text (s : String)
  | list (items : List Json)
  | object (members : List (String × Json))
deriving Inhabited

namespace Json

def ofOption {α : Type} (f : α → Json) (a? : Option α) : Json :=
  (a?.map f).getD null

end Json

end Lox
