/-!
Messages: as they are handed to a broker, as a broker keeps them, and what is reported of them.
-/

/-!
What a broker says became of a message.
-/

namespace Rehearsal

inductive DeliveryStatus where
  | persisted
  | possiblyPersisted
  | notPersisted
  deriving DecidableEq, Repr, Inhabited

namespace DeliveryStatus

def all : List DeliveryStatus := [.persisted, .possiblyPersisted, .notPersisted]

def text : DeliveryStatus → String
  | .persisted => "persisted"
  | .possiblyPersisted => "possibly_persisted"
  | .notPersisted => "not_persisted"

def name : DeliveryStatus → String
  | .persisted => "PERSISTED"
  | .possiblyPersisted => "POSSIBLY_PERSISTED"
  | .notPersisted => "NOT_PERSISTED"

def ofText? (s : String) : Option DeliveryStatus := all.find? (·.text == s)

end DeliveryStatus

/-! Messages and reports. -/

abbrev MessageHeaders := List (String × Option (List UInt8))

/-- A message on its way to a broker. Without a partition the broker chooses one, without a
timestamp it is the time of arrival. -/
structure Outgoing where
  topic : String
  key : Option (List UInt8)
  value : Option (List UInt8)
  headers : MessageHeaders
  partition : Option Int
  timestamp : Option Int
  deriving DecidableEq, Repr, Inhabited

structure Message where
  topic : String
  partition : Nat
  offset : Nat
  key : Option (List UInt8)
  value : Option (List UInt8)
  headers : MessageHeaders
  timestamp : Int
  deriving DecidableEq, Repr, Inhabited

/-- What a broker reports of a message; the offset is -1 if the message was not kept. -/
structure DeliveryReport where
  topic : String
  partition : Nat
  offset : Int
  timestamp : Int
  status : DeliveryStatus
  key : Option (List UInt8)
  deriving DecidableEq, Repr, Inhabited

end Rehearsal
