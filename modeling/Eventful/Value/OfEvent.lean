import Eventful.Value.Basic
import Eventful.Page.Event

/-
  Eventful.Value.OfEvent — an event as expressions see it under `$event`.
-/

namespace Eventful.Value

open Page

def buttonNumber : Button → Float
  | .primary => 0
  | .auxiliary => 1
  | .secondary => 2

/-- The properties that depend on what the event carries. -/
def detailFields : Detail → List (String × Value)
  | .keyboard k => [("key", .text k.key), ("code", .text k.code), ("repeat", .boolean k.repeated)]
  | .mouse m => [("clientX", .number m.x), ("clientY", .number m.y), ("button", .number (buttonNumber m.button))]
  | .input value => [("value", .text value)]
  | .custom detail => [("detail", detail.elim .null .text)]
  | .plain => []

def ofEvent (e : Event) : Value :=
  let held := e.held
  ofPairs ([
    ("type", .text e.name),
    ("bubbles", .boolean e.bubbles),
    ("cancelable", .boolean e.cancelable),
    ("defaultPrevented", .boolean e.prevented),
    ("timeStamp", .number e.time),
    ("ctrlKey", .boolean held.ctrl),
    ("shiftKey", .boolean held.shift),
    ("altKey", .boolean held.alt),
    ("metaKey", .boolean held.super)] ++ detailFields e.detail)

end Eventful.Value
