import Telemetry.Text

namespace Telemetry

inductive Reply
  | unit
  | flag (b : Bool)
  | number (n : Int)
  | bytes (bs : List Byte)
  | text (t : Text)
  deriving DecidableEq, Repr

end Telemetry
