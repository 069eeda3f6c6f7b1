/-! JSON values. -/

namespace EntityClasses.Json

inductive Value where
  | null
  | bool (value : Bool)
  /-- Some number. No document says anything with one, so its value is not kept. -/
  | number
  | string (text : String)
  | array (items : List Value)
  /-- The members in their order. A key can stand in several of them. -/
  | object (members : List (String × Value))

end EntityClasses.Json
