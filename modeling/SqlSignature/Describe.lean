import SqlSignature.Analysis.Report
import SqlSignature.BoundText
import SqlSignature.Grammar.Statement
/-!
# SqlSignature.Describe

The signature of a statement text: names of bound values are taken out, the text is read, the
statement is analysed, and nested results and optional parts are described if that is asked for.
-/

namespace SqlSignature

/-- Why a statement text has no signature. -/
inductive DescribeFault where
  | parse (e : ParseError)
  | catalog (e : CatalogError)
  | analysis (e : AnalysisError)

def DescribeFault.message : DescribeFault → String
  | parse e => e.message
  | catalog e => e.message
  | analysis e => e.message

/-- A fault together with the statement text. -/
structure DescribeError where
  text : String
  fault : DescribeFault

def DescribeError.message (e : DescribeError) : String := e.fault.message ++ "\n  in: " ++ e.text

/-- What can be asked for. Remarks in the text ask for nested results and optional parts, too. -/
structure DescribeOptions where
  config : Config := {}
  resolver : Option Resolver := none
  nested : Bool := false
  dynamic : Bool := false

namespace BoundText

/-- What an analysis of the text is given. -/
def analysisInput (bound : BoundText) (catalog : Catalog) (config : Config)
    (resolver : Option Resolver) : AnalysisInput :=
  { text := bound.text, catalog, config, resolver, names := bound.parameters }

/-- The names of the bound values of optional parts. -/
def fragmentNames (bound : BoundText) (placeholders : Nat) : List String :=
  (List.range placeholders).map fun ordinal =>
    ((bound.parameters[ordinal]?).bind id).getD ("param" ++ toString (ordinal + 1))

/-- Reads and analyses a text. -/
def analyze (bound : BoundText) (catalog : Catalog) (config : Config)
    (resolver : Option Resolver) : Except DescribeFault (Statement × AnalysisResult) :=
  match Statement.parse bound.text with
  | .error e => .error (.parse e)
  | .ok statement =>
    match statement.analyze (bound.analysisInput catalog config resolver) with
    | .error e => .error (.analysis e)
    | .ok result => .ok (statement, result)

end BoundText

namespace Signature

/-- Adds the description of nested results. -/
def addNested (s : Signature) (layout : Layout) (catalog : Catalog) : Signature :=
  { s with nested := some (Nested.decompose s.columns layout catalog.foreignKeys) }

/-- Adds the description of optional parts. -/
def addDynamic (s : Signature) (layout : Layout) (names : List String) : Signature :=
  { s with dynamic := some ((Fragments.ofLayout layout s.columns).describe names) }

/-- The signature of a statement text. -/
def describe (text : String) (catalog : Catalog) (options : DescribeOptions) :
    Except DescribeError Signature :=
  let bound := BoundText.ofText text
  match bound.analyze catalog options.config options.resolver with
  | .error fault => .error { text, fault }
  | .ok (statement, result) =>
    match result.layout with
    | none => .ok result.signature
    | some layout =>
      let signature := result.signature
      let signature :=
        if options.nested || bound.nested then signature.addNested layout catalog else signature
      .ok (if options.dynamic || bound.dynamic then
          signature.addDynamic layout (bound.fragmentNames statement.placeholders)
        else signature)

end Signature

end SqlSignature
