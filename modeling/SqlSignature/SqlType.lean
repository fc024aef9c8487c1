import SqlSignature.Text.Blank
import SqlSignature.Text.Case
/-!
# SqlSignature.SqlType

The types of columns, parameters and expressions, with their names and their families.
-/

namespace SqlSignature

/-- A type. `null` is the type of the literal `NULL`, and `unknown` the type of an expression that
no rule gives a type to. -/
inductive SqlType where
  | null
  | tinyInt | smallInt | mediumInt | int | bigInt | decimal | float | double
  | bit
  | year | date | time | dateTime | timestamp
  | char | varchar | tinyText | text | mediumText | longText
  | binary | varBinary | blob | enum | set
  | json
  | geometry
  | unknown
  deriving Repr, DecidableEq, Inhabited

/-- The families of types that promotion tells apart. -/
inductive TypeFamily where
  | numeric | temporal | textual | bit | json | geometry | null | unknown
  deriving Repr, DecidableEq

namespace SqlType

/-- The family of a type. -/
def family : SqlType → TypeFamily
  | tinyInt | smallInt | mediumInt | int | bigInt | decimal | float | double => .numeric
  | year | date | time | dateTime | timestamp => .temporal
  | char | varchar | tinyText | text | mediumText | longText
  | binary | varBinary | blob | enum | set => .textual
  | bit => .bit
  | json => .json
  | geometry => .geometry
  | null => .null
  | unknown => .unknown

def isNumeric (t : SqlType) : Bool := t.family == .numeric

def isTemporal (t : SqlType) : Bool := t.family == .temporal

def isTextual (t : SqlType) : Bool := t.family == .textual

/-- Whether the values of the type are whole numbers. -/
def isInteger : SqlType → Bool
  | tinyInt | smallInt | mediumInt | int | bigInt | bit | year => true
  | _ => false

/-- Whether the values of the type are floating-point numbers. -/
def isApproximate : SqlType → Bool
  | float | double => true
  | _ => false

def isUnknown (t : SqlType) : Bool := t == .unknown

/-- The name under which a type is reported. -/
def name : SqlType → String
  | null => "null"
  | tinyInt => "tinyint"
  | smallInt => "smallint"
  | mediumInt => "mediumint"
  | int => "int"
  | bigInt => "bigint"
  | decimal => "decimal"
  | float => "float"
  | double => "double"
  | bit => "bit"
  | year => "year"
  | date => "date"
  | time => "time"
  | dateTime => "datetime"
  | timestamp => "timestamp"
  | char => "char"
  | varchar => "varchar"
  | tinyText => "tinytext"
  | text => "text"
  | mediumText => "mediumtext"
  | longText => "longtext"
  | binary => "binary"
  | varBinary => "varbinary"
  | blob => "blob"
  | enum => "enum"
  | set => "set"
  | json => "json"
  | geometry => "geometry"
  | unknown => "?"

/-- The names that a column can be declared with. -/
def declaredNames : List (String × SqlType) :=
  [("null", null),
    ("tinyint", tinyInt), ("bool", tinyInt), ("boolean", tinyInt),
    ("smallint", smallInt), ("mediumint", mediumInt),
    ("int", int), ("integer", int), ("bigint", bigInt),
    ("decimal", decimal), ("dec", decimal), ("numeric", decimal), ("fixed", decimal),
    ("float", float), ("double", double), ("real", double),
    ("bit", bit),
    ("year", year), ("date", date), ("time", time), ("datetime", dateTime),
    ("timestamp", timestamp),
    ("char", char), ("nchar", char),
    ("varchar", varchar), ("nvarchar", varchar), ("string", varchar),
    ("tinytext", tinyText), ("text", text), ("clob", text), ("mediumtext", mediumText),
    ("longtext", longText),
    ("binary", binary), ("varbinary", varBinary),
    ("blob", blob), ("tinyblob", blob), ("mediumblob", blob), ("longblob", blob),
    ("enum", enum), ("set", set),
    ("json", json),
    ("geometry", geometry), ("point", geometry), ("linestring", geometry), ("polygon", geometry)]

/-- The first word of a declaration such as `VARCHAR(255)` or `int unsigned`, in small letters. -/
def declaredWord (declaration : String) : String :=
  let endsWord (c : Char) : Bool := c == '(' || Text.isBlank c
  String.ofList ((Text.lower (Text.trim declaration)).toList.takeWhile fun c => !endsWord c)

/-- The type of a declaration; a name that is not known declares the type `unknown`. -/
def ofDeclaration (declaration : String) : SqlType :=
  (declaredNames.lookup (declaredWord declaration)).getD .unknown

end SqlType

end SqlSignature
