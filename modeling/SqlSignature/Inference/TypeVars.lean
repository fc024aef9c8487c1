import SqlSignature.SqlType.Promotion
/-!
# SqlSignature.Inference.TypeVars

Type variables in classes of equal variables. A class is a tree of parent links; its root knows the
type found for the class so far and whether the class is free, that is, whether all its members are
variables of bound values. Classes are joined by rank, so trees stay shallow.
-/

namespace SqlSignature

/-- A type variable, by its index. -/
structure TypeVar where
  index : Nat
  deriving Repr, DecidableEq, Inhabited

/-- The name of a type variable. -/
def TypeVar.display (v : TypeVar) : String := "t" ++ toString v.index

/-- What is known of one variable. The free flag and the type count at the root of a class only. -/
structure VarEntry where
  parent : Nat
  rank : Nat
  free : Bool
  type : Option SqlType
  deriving Repr, DecidableEq

/-- The type variables of a statement. -/
structure TypeVars where
  entries : Array VarEntry
  deriving Repr, DecidableEq

namespace TypeVars

def empty : TypeVars := ⟨#[]⟩

def size (vs : TypeVars) : Nat := vs.entries.size

/-- Adds a variable in a class of its own. -/
def fresh (vs : TypeVars) (free : Bool) : TypeVar × TypeVars :=
  (⟨vs.size⟩, ⟨vs.entries.push { parent := vs.size, rank := 0, free, type := none }⟩)

/-! ### Classes -/

/-- The parent of a variable. -/
def parent (vs : TypeVars) (i : Nat) : Nat := (vs.entries[i]?.map VarEntry.parent).getD i

/-- Follows parent links, at most a number of times. -/
def rootFrom (vs : TypeVars) : (fuel i : Nat) → Nat
  | 0, i => i
  | fuel + 1, i => if vs.parent i = i then i else vs.rootFrom fuel (vs.parent i)

/-- The root of the class of a variable. Links lead to higher ranks, so they never return and there
are fewer of them than variables. -/
def root (vs : TypeVars) (v : TypeVar) : Nat := vs.rootFrom vs.size v.index

/-- Whether two variables are in one class. -/
def same (vs : TypeVars) (a b : TypeVar) : Bool := vs.root a == vs.root b

def rank (vs : TypeVars) (i : Nat) : Nat := (vs.entries[i]?.map VarEntry.rank).getD 0

/-- Whether the class of a variable is free. -/
def isFree (vs : TypeVars) (v : TypeVar) : Bool :=
  (vs.entries[vs.root v]?.map VarEntry.free).getD false

/-- The type found for the class of a variable. -/
def type? (vs : TypeVars) (v : TypeVar) : Option SqlType :=
  vs.entries[vs.root v]?.bind VarEntry.type

/-- Changes the entry of a variable. -/
def adjust (vs : TypeVars) (i : Nat) (f : VarEntry → VarEntry) : TypeVars :=
  ⟨vs.entries.modify i f⟩

/-- The type of two joined classes. -/
def joinTypes : Option SqlType → Option SqlType → Option SqlType
  | some x, some y => some (x.promote y)
  | x, y => x.or y

/-- Puts a class under the root of another class. -/
def link (vs : TypeVars) (root child : Nat) : TypeVars :=
  match vs.entries[root]?, vs.entries[child]? with
  | some r, some c =>
    let rank := if r.rank = c.rank then r.rank + 1 else r.rank
    (vs.adjust child ({ · with parent := root })).adjust root
      ({ · with rank, free := r.free && c.free, type := joinTypes r.type c.type })
  | _, _ => vs

/-- Joins the classes of two variables. The root of higher rank stays a root, and on a tie the
first. -/
def union (vs : TypeVars) (a b : TypeVar) : TypeVars :=
  let ra := vs.root a
  let rb := vs.root b
  if ra = rb then vs
  else if vs.rank rb ≤ vs.rank ra then vs.link ra rb
  else vs.link rb ra

/-! ### Types -/

/-- Sets the type of a class, and tells whether that changed anything. -/
def set (vs : TypeVars) (v : TypeVar) (type : SqlType) : TypeVars × Bool :=
  if vs.type? v = some type then (vs, false)
  else (vs.adjust (vs.root v) ({ · with type := some type }), true)

/-- Widens the type of a class, and tells whether that changed anything. -/
def widen (vs : TypeVars) (v : TypeVar) (type : SqlType) : TypeVars × Bool :=
  vs.set v (((vs.type? v).map (·.promote type)).getD type)

/-- Whether a variable is the root of a class without a type. -/
def isUntypedRoot (vs : TypeVars) (i : Nat) : Bool :=
  vs.parent i == i && (vs.type? ⟨i⟩).isNone

/-- The roots of the classes without a type. -/
def untyped (vs : TypeVars) : List TypeVar :=
  ((List.range vs.size).filter vs.isUntypedRoot).map TypeVar.mk

/-- The roots of the free classes without a type. -/
def untypedFree (vs : TypeVars) : List TypeVar := vs.untyped.filter vs.isFree

end TypeVars

end SqlSignature
