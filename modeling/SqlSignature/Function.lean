import SqlSignature.SqlType
import SqlSignature.Text.Case
/-!
# SqlSignature.Function

The functions whose calls can be typed: what they return, what they expect of their arguments, and
when they return null.
-/

namespace SqlSignature

/-- What a function returns. -/
inductive ReturnRule where
  | fixed (type : SqlType)
  | sameAsArg (position : Nat)
  /-- The least common type of all arguments. -/
  | widen
  /-- The least common type of the arguments from a position on. -/
  | widenFrom (position : Nat)
  /-- The type of a sum. -/
  | sum
  deriving Repr, DecidableEq

/-- What a function expects of its arguments. -/
inductive ArgRule where
  | any
  /-- Every argument is expected to have one type. -/
  | all (type : SqlType)
  /-- Arguments are expected to have types by position. -/
  | positional (types : List (Option SqlType))
  deriving Repr, DecidableEq

/-- The type expected of the argument at a position. -/
def ArgRule.expected (rule : ArgRule) (position : Nat) : Option SqlType :=
  match rule with
  | any => none
  | all type => some type
  | positional types => (types[position]?).bind id

/-- When the value of a call is certainly not null. -/
inductive NullRule where
  /-- When no argument is null. -/
  | allArgs
  | always
  | never
  /-- When some argument is not null. -/
  | anyArg
  /-- When the arguments at some positions are not null. -/
  | argsAt (positions : List Nat)
  deriving Repr, DecidableEq

/-- Whether the value of a call is certainly not null, given the same of its arguments. -/
def NullRule.evaluate (rule : NullRule) (notNull : List Bool) : Bool :=
  match rule with
  | allArgs => notNull.all id
  | always => true
  | never => false
  | anyArg => notNull.any id
  | argsAt positions => positions.all fun i => notNull[i]?.getD true

/-- What is known of a function. -/
structure FunctionSignature where
  returns : ReturnRule
  args : ArgRule
  notNull : NullRule
  aggregate : Bool := false
  /-- Whether a bound value that is an argument may be null. -/
  nullableArgs : Bool := false
  deriving Repr, DecidableEq

namespace Function

/-- Functions with one signature. -/
abbrev Family := List String × FunctionSignature

/-- Functions of whole groups of rows. -/
def aggregates : List Family :=
  [(["count"], { returns := .fixed .bigInt, args := .any, notNull := .always, aggregate := true }),
    (["sum", "avg"],
      { returns := .sum, args := .all .double, notNull := .never, aggregate := true }),
    (["min", "max"],
      { returns := .sameAsArg 0, args := .any, notNull := .never, aggregate := true }),
    (["group_concat"],
      { returns := .fixed .text, args := .any, notNull := .never, aggregate := true }),
    (["std", "stddev", "stddev_pop", "stddev_samp", "variance", "var_pop", "var_samp"],
      { returns := .fixed .double, args := .all .double, notNull := .never, aggregate := true }),
    (["bit_and", "bit_or", "bit_xor"],
      { returns := .fixed .bigInt, args := .all .bigInt, notNull := .always, aggregate := true }),
    (["json_arrayagg", "json_objectagg"],
      { returns := .fixed .json, args := .any, notNull := .never, aggregate := true })]

/-- Functions of texts. -/
def textual : List Family :=
  [(["concat"], { returns := .fixed .varchar, args := .all .varchar, notNull := .allArgs }),
    (["concat_ws"],
      { returns := .fixed .varchar, args := .all .varchar, notNull := .argsAt [0] }),
    (["upper", "lower", "ucase", "lcase", "trim", "ltrim", "rtrim", "reverse", "replace", "quote",
        "soundex"],
      { returns := .fixed .varchar, args := .all .varchar, notNull := .allArgs }),
    (["substring", "substr", "mid"],
      { returns := .fixed .varchar
        args := .positional [some .varchar, some .bigInt, some .bigInt], notNull := .allArgs }),
    (["left", "right", "repeat"],
      { returns := .fixed .varchar, args := .positional [some .varchar, some .bigInt]
        notNull := .allArgs }),
    (["lpad", "rpad"],
      { returns := .fixed .varchar
        args := .positional [some .varchar, some .bigInt, some .varchar], notNull := .allArgs }),
    (["length", "char_length", "character_length", "octet_length", "bit_length", "ascii", "ord"],
      { returns := .fixed .bigInt, args := .all .varchar, notNull := .allArgs }),
    (["locate", "instr", "position"],
      { returns := .fixed .bigInt
        args := .positional [some .varchar, some .varchar, some .bigInt], notNull := .allArgs }),
    (["format"],
      { returns := .fixed .varchar, args := .positional [some .double, some .bigInt]
        notNull := .allArgs }),
    (["md5", "sha1", "sha2", "hex", "to_base64", "uuid_to_bin"],
      { returns := .fixed .varchar, args := .any, notNull := .allArgs }),
    (["uuid", "database", "user", "current_user", "version"],
      { returns := .fixed .varchar, args := .any, notNull := .always })]

/-- Functions of numbers. -/
def numeric : List Family :=
  [(["abs", "sign"], { returns := .sameAsArg 0, args := .all .double, notNull := .allArgs }),
    (["round", "truncate"],
      { returns := .sameAsArg 0, args := .positional [some .double, some .bigInt]
        notNull := .allArgs }),
    (["ceil", "ceiling", "floor"],
      { returns := .fixed .bigInt, args := .all .double, notNull := .allArgs }),
    (["mod"], { returns := .widen, args := .all .double, notNull := .allArgs }),
    (["sqrt", "exp", "ln", "log", "log2", "log10", "pow", "power", "sin", "cos", "tan", "asin",
        "acos", "atan", "degrees", "radians"],
      { returns := .fixed .double, args := .all .double, notNull := .allArgs }),
    (["rand", "pi"], { returns := .fixed .double, args := .all .bigInt, notNull := .always }),
    (["greatest", "least"], { returns := .widen, args := .any, notNull := .allArgs })]

/-- Functions of dates and times. -/
def temporal : List Family :=
  [(["now", "current_timestamp", "localtime", "localtimestamp", "sysdate", "utc_timestamp"],
      { returns := .fixed .dateTime, args := .any, notNull := .always }),
    (["curdate", "current_date", "utc_date"],
      { returns := .fixed .date, args := .any, notNull := .always }),
    (["curtime", "current_time", "utc_time"],
      { returns := .fixed .time, args := .any, notNull := .always }),
    (["date"], { returns := .fixed .date, args := .all .dateTime, notNull := .allArgs }),
    (["year", "month", "day", "dayofmonth", "dayofweek", "dayofyear", "week", "weekday", "quarter",
        "hour", "minute", "second"],
      { returns := .fixed .int, args := .all .dateTime, notNull := .allArgs }),
    (["datediff"], { returns := .fixed .bigInt, args := .all .date, notNull := .allArgs }),
    (["timestampdiff"],
      { returns := .fixed .bigInt, args := .positional [none, some .dateTime, some .dateTime]
        notNull := .allArgs }),
    (["timestampadd"],
      { returns := .fixed .dateTime, args := .positional [none, some .bigInt, some .dateTime]
        notNull := .allArgs }),
    (["date_add", "date_sub", "adddate", "subdate"],
      { returns := .sameAsArg 0, args := .positional [some .dateTime], notNull := .allArgs }),
    (["date_format"],
      { returns := .fixed .varchar, args := .positional [some .dateTime, some .varchar]
        notNull := .allArgs }),
    (["str_to_date"], { returns := .fixed .date, args := .all .varchar, notNull := .never }),
    (["last_day"], { returns := .fixed .date, args := .all .date, notNull := .never }),
    (["unix_timestamp"],
      { returns := .fixed .bigInt, args := .all .dateTime, notNull := .allArgs }),
    (["from_unixtime"],
      { returns := .fixed .dateTime, args := .all .bigInt, notNull := .allArgs }),
    (["extract"],
      { returns := .fixed .bigInt, args := .positional [none, some .dateTime]
        notNull := .allArgs })]

/-- Functions that choose between arguments. -/
def conditional : List Family :=
  [(["ifnull", "coalesce"],
      { returns := .widen, args := .any, notNull := .anyArg, nullableArgs := true }),
    (["nullif"],
      { returns := .sameAsArg 0, args := .any, notNull := .never, nullableArgs := true }),
    (["if"], { returns := .widenFrom 1, args := .any, notNull := .argsAt [1, 2] })]

/-- Functions of documents and of the session. -/
def miscellaneous : List Family :=
  [(["json_extract"],
      { returns := .fixed .json, args := .positional [some .json, some .varchar]
        notNull := .never }),
    (["json_object", "json_array"],
      { returns := .fixed .json, args := .any, notNull := .always }),
    (["json_unquote"], { returns := .fixed .varchar, args := .all .varchar, notNull := .allArgs }),
    (["last_insert_id", "row_count", "found_rows"],
      { returns := .fixed .bigInt, args := .any, notNull := .always }),
    (["values"], { returns := .sameAsArg 0, args := .any, notNull := .allArgs })]

/-- All functions with their signatures. -/
def table : List (String × FunctionSignature) :=
  (aggregates ++ textual ++ numeric ++ temporal ++ conditional ++ miscellaneous).flatMap
    fun (names, signature) => names.map (·, signature)

/-- The names of all functions. -/
def names : List String := table.map Prod.fst

/-- The signature of a function, up to the case of its name. -/
def signature? (name : String) : Option FunctionSignature := table.lookup (Text.lower name)

/-- Whether a name is that of an aggregate function. -/
def isAggregate (name : String) : Bool := (signature? name).any FunctionSignature.aggregate

end Function

end SqlSignature
