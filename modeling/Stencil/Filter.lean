import Stencil.Calendar.Read
import Stencil.Context
import Stencil.Value.Json

/-! Filters: functions from values to values that expressions chain. They never fail; what a filter
cannot use it hands back. -/

namespace Stencil.Filter

open Calendar (Instant)

def default (v : Value) (fallback : Option Value) : Value :=
  if v.isBlank then fallback.getD .nil else v

/-- Leaves one slash of a run, or two right after a colon. `prev` is the last character kept, and
`closed` says that no further slash of the run is. -/
def collapseFrom (prev : Option Char) (closed : Bool) : List Char → List Char
  | [] => []
  | c :: cs =>
    if c == '/' then
      if closed then collapseFrom prev closed cs else c :: collapseFrom (some c) (prev != some ':') cs
    else c :: collapseFrom (some c) false cs

def collapseSlashes (cs : List Char) : List Char := collapseFrom none false cs

/-- a base, without one slash at its end, and a path, with one at its start -/
def joinPath (base path : List Char) : List Char :=
  let base := if base.getLast? == some '/' then base.dropLast else base
  if path.head? == some '/' then base ++ path else base ++ '/' :: path

def isAbsoluteUrl (path : List Char) : Bool :=
  "http://".toList.isPrefixOf path || "https://".toList.isPrefixOf path

/-- A path under the base of the site. Absolute addresses stay. -/
def relativeUrl (v base : Value) : Value :=
  let path := v.display.toList
  if isAbsoluteUrl path then .text v.display
  else .text (.ofList (collapseSlashes (joinPath base.display.toList path)))

def argumentText (arg : Option Value) : String := arg.elim "" Value.display

def replace (v : Value) (old new : Option Value) : Value :=
  .text (.ofList (Text.replaceAll (argumentText old).toList (argumentText new).toList
    v.display.toList))

def join (v : Value) (separator : Option Value) : Value :=
  .text ((separator.elim ", " Value.display).intercalate (v.toItems.map Value.display))

def jsonify (v : Value) : Value := .text v.json

/-- The point in time of a value: a text that says one, or seconds since 1970. -/
def instant? : Value → Option Instant
  | .text s => Instant.read? s
  | .int n => Instant.ofSeconds? n.toInt 0
  | .float x =>
    if x.isFinite then
      Instant.ofSeconds? x.floor.toInt64.toInt ((x - x.floor) * 1e9).toUInt32.toNat
    else none
  | _ => none

/-- The time of a value in a pattern, or as a stamp without one. A value that is no time stands for
the time `now`. -/
def date (now : Instant) (v : Value) (pattern : Option Value) : Value :=
  let t := (instant? v).getD now
  let pattern := argumentText pattern
  .text (if pattern.isEmpty then t.stamp else t.format pattern)

/-- the attribute that items are sorted by; nil if it is missing -/
def sortKey (key : String) (v : Value) : Value := (v.attr? key).getD .nil

/-- sorts a sequence by an attribute of its items -/
def sort (v : Value) (key : Option Value) : Value :=
  match v, key with
  | v, none => v
  | v, some .nil => v
  | .seq items, some key =>
    .seq (Value.sortBy (fun a b => (sortKey key.display a).order (sortKey key.display b)) items)
  | v, _ => v

def reverse : Value → Value
  | .seq items => .seq items.reverse
  | .text s => .text (.ofList s.toList.reverse)
  | v => v

/-- the size of a text or collection, zero for other values -/
def size (v : Value) : Value := .ofNat (v.size?.getD 0)

/-- Applies a filter by its name. A name that is none changes nothing. -/
def apply (now : Instant) (ctx : Context) (name : String) (v : Value) (args : List Value) : Value :=
  match name with
  | "default" => default v args[0]?
  | "relative_url" => relativeUrl v (ctx.lookup "site.baseurl")
  | "replace" => replace v args[0]? args[1]?
  | "join" => join v args[0]?
  | "jsonify" => jsonify v
  | "date" => date now v args[0]?
  | "sort" => sort v args[0]?
  | "reverse" => reverse v
  | "size" => size v
  | _ => v

end Stencil.Filter
