import Mathlib.Data.Fintype.Card
import SqlSignature.SqlType.Promotion
/-!
# SqlSignature.Proofs.TypePromotion

Promotion is the join of a semilattice. A type has a place among the numbers, a place among the long
textual types, and for each of the other types it does or does not fit into that. The type that two
types are promoted to has the higher places and fits where both fit; so the order in which types are
promoted does not matter.
-/

namespace SqlSignature

namespace SqlType

/-- All types. -/
def all : List SqlType :=
  [null, tinyInt, smallInt, mediumInt, int, bigInt, decimal, float, double, bit, year, date, time,
    dateTime, timestamp, char, varchar, tinyText, text, mediumText, longText, binary, varBinary,
    blob, enum, set, json, geometry, unknown]

instance : Fintype SqlType := Fintype.ofList all fun t => by cases t <;> decide

theorem card_eq : Fintype.card SqlType = 29 := by decide

/-- The place of a type among the numbers, below all of them or above all of them. -/
def numberPlace (t : SqlType) : Nat :=
  match t.family with
  | .null | .unknown => 0
  | .numeric => t.numericRank
  | _ => 9

/-- The place of a type among the textual types above `varchar`, into which all others fit. -/
def textPlace (t : SqlType) : Nat :=
  if varchar.textualRank < t.textualRank then t.textualRank else 0

/-- The place of a type that is in neither of these two rows. -/
def apartPlace : SqlType → Nat
  | null => 0
  | year => 1
  | date => 2
  | time => 3
  | timestamp => 4
  | dateTime => 5
  | char => 6
  | binary => 7
  | enum => 8
  | set => 9
  | bit => 10
  | json => 11
  | geometry => 12
  | _ => 13

/-- The types in neither row that do not hold the values of a type. -/
def misfits (t : SqlType) : BitVec 13 :=
  match t.family with
  | .null => 0
  | .unknown => 1 <<< null.apartPlace
  | .temporal => ~~~(1 <<< t.apartPlace ||| 1 <<< dateTime.apartPlace)
  | _ => ~~~(1 <<< t.apartPlace)

/-- What promotion depends on. -/
def marks (t : SqlType) : Nat × Nat × BitVec 13 := (t.numberPlace, t.textPlace, t.misfits)

/-- The higher places of two, and what does not hold the values of both. -/
def joinMarks (m n : Nat × Nat × BitVec 13) : Nat × Nat × BitVec 13 :=
  (max m.1 n.1, max m.2.1 n.2.1, m.2.2 ||| n.2.2)

theorem marks_injective : Function.Injective marks := by
  have h : ∀ a b : SqlType, a.marks = b.marks → a = b := by decide +kernel
  exact fun a b => h a b

theorem marks_promote : ∀ a b : SqlType, (a.promote b).marks = joinMarks a.marks b.marks := by
  decide +kernel

theorem promote_comm (a b : SqlType) : a.promote b = b.promote a := by
  apply marks_injective
  simp only [marks_promote, joinMarks, Nat.max_comm, BitVec.or_comm]

theorem promote_assoc (a b c : SqlType) : (a.promote b).promote c = a.promote (b.promote c) := by
  apply marks_injective
  simp only [marks_promote, joinMarks, Nat.max_assoc, BitVec.or_assoc]

theorem promote_right_comm (a b c : SqlType) :
    (a.promote b).promote c = (a.promote c).promote b := by
  rw [promote_assoc, promote_comm b, ← promote_assoc]

end SqlType

end SqlSignature
