import SetPipeline.Datum.Equality

/-! The order of dynamic values. Numbers are ordered by value, texts by code points, bytes byte by byte, and
lists and tuples by the first items that differ. Values of other kinds, and of two different kinds, have
no order. -/
namespace SetPipeline.Datum

def lessAtom? : Datum → Datum → Option Bool
  | text s, text t => some (decide (s < t))
  | bytes a, bytes b | bytes a, byteArray b | byteArray a, bytes b | byteArray a, byteArray b =>
    some (decide (a < b))
  | a, b =>
    match a.number?, b.number? with
    | some m, some n => some (m.lt n)
    | _, _ => Option.none

mutual

/-- Whether the first value is less than the second; nothing if the two have no order. -/
def less? : Datum → Datum → Option Bool
  | list xs, list ys | tuple xs, tuple ys => lessItems? xs ys
  | a, b => lessAtom? a b

def lessItems? : List Datum → List Datum → Option Bool
  | [], ys => some (!ys.isEmpty)
  | _ :: _, [] => some false
  | x :: xs, y :: ys => if same x y then lessItems? xs ys else less? x y

end

def isChain : List Datum → Bool
  | x :: y :: rest => (less? x y).isSome && isChain (y :: rest)
  | _ => true

/-- Items by the increasing order of their values, those of equal values in the order they came in; nothing if
some values have no order. -/
def sortedOn? (value : α → Datum) (xs : List α) : Option (List α) :=
  let ys := xs.mergeSort fun a b => less? (value b) (value a) != some true
  if isChain (ys.map value) then some ys else Option.none

def sorted? (xs : List Datum) : Option (List Datum) := sortedOn? id xs

/-- What values of any types are ordered by: the name of the type, then the value. -/
def byType (d : Datum) : Datum := tuple [text d.typeName, d]

end SetPipeline.Datum
