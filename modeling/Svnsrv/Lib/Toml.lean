import Svnsrv.Lib.CText

/-!
# TOML documents

What cpptoml.h hands to a configuration loader: values of a few types, keyed
tables and arrays of tables in file order. A qualified key is the path of a
value, its parts separated by dots. Payloads that no loader reads are left out.
-/

namespace Toml

open CText
set_option autoImplicit false

inductive Base where
  | string (data : Bytes)
  | int64 (data : Int64)
  | double
  | bool (data : Bool)
  | datetime
  | array
  | table (map : List (Bytes × Base))
  | tableArray (tables : List (List (Bytes × Base)))

abbrev Table := List (Bytes × Base)

namespace Base

/-- `as<std::string>()`, null for a value of another type. -/
def asString : Base → Option Bytes
  | string data => some data
  | _ => none

/-- `as<int64_t>()` -/
def asInt64 : Base → Option Int64
  | int64 data => some data
  | _ => none

/-- `as<bool>()` -/
def asBool : Base → Option Bool
  | bool data => some data
  | _ => none

def asTable : Base → Option Table
  | table map => some map
  | _ => none

def asTableArray : Base → Option (List Table)
  | tableArray tables => some tables
  | _ => none

end Base

namespace Table

def get (t : Table) (key : Bytes) : Option Base := List.lookup key t

/-- The table that a path of keys leads to. -/
def descend (t : Table) : List Bytes → Option Table
  | [] => some t
  | part :: parts => ((t.get part).bind Base.asTable).bind fun u => descend u parts

/-- `get_qualified`; none where `contains_qualified` is false. -/
def getQualified (t : Table) (key : Bytes) : Option Base :=
  let parts := key.splitOn 46
  (t.descend parts.dropLast).bind fun u => u.get (parts.getLastD [])

def getTableArrayQualified (t : Table) (key : Bytes) : Option (List Table) :=
  (t.getQualified key).bind Base.asTableArray

end Table

end Toml
