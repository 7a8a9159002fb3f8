import SetPipeline.Proofs.Client.Admission

/-! The commands that scalar calls make. A call whose arguments are byte strings, collections of byte strings and
integers makes the command of its operation with just these arguments, in their order and with their
repetitions. -/
namespace SetPipeline

open Fields

/-- A value that can be iterated and gives just these byte strings. -/
structure Datum.Collects (d : Datum) (bs : List Bytes) : Prop where
  notSingle : d.isSingle = false
  collects : d.collect = .ok (bs.map .bytes)

inductive Datum.Supplies : Datum → List Bytes → Prop where
  | one (b : Bytes) : Supplies (.bytes b) [b]
  | many {d : Datum} {bs : List Bytes} : d.Collects bs → Supplies d bs

/-- The operation that a valid call asks for, and its command. -/
inductive Scalar.Asks : Scalar → Operation → Command → Prop where
  | add {k : Bytes} {values : Datum} {bs : List Bytes} : values.Supplies bs →
    Asks (.add (.bytes k) values) .add (.add (some k) bs)
  | remove {k : Bytes} {values : Datum} {bs : List Bytes} : values.Supplies bs →
    Asks (.remove (.bytes k) values) .remove (.remove (some k) bs)
  | pop (k : Bytes) : Asks (.pop (.bytes k)) .pop (.key (some k))
  | move (s d v : Bytes) : Asks (.move (.bytes s) (.bytes d) (.bytes v)) .move (.move (some s) (some d) v)
  | card (k : Bytes) : Asks (.card (.bytes k)) .card (.key (some k))
  | isMember (k v : Bytes) : Asks (.isMember (.bytes k) (.bytes v)) .isMember (.isMember (some k) v)
  | members (k : Bytes) : Asks (.members (.bytes k)) .members (.key (some k))
  | randomMember (k : Bytes) : Asks (.randomMember (.bytes k)) .randomMembers (.randomMembers (some k) (some 1))
  | randomMembers (k : Bytes) (n : Int) :
    Asks (.randomMembers (.bytes k) (.int n)) .randomMembers (.randomMembers (some k) (some n))
  | combine (how : Combination) {keys : Datum} {ks : List Bytes} : keys.Collects ks →
    Asks (.combine how keys) (.combine how) (.combine how ks)
  | combineStore (how : Combination) (d : Bytes) {keys : Datum} {ks : List Bytes} : keys.Collects ks →
    Asks (.combineStore how (.bytes d) keys) (.combineStore how) (.combineStore how ks (some d))

theorem Datum.Collects.readAll {d : Datum} {bs : List Bytes} (h : d.Collects bs) :
    d.collect = .ok (bs.map .bytes) ∧ ReadAll (bs.map .bytes) bs := ⟨h.collects, readAll_bytes.2 rfl⟩

theorem Datum.Supplies.readAll {d : Datum} {bs : List Bytes} (h : d.Supplies bs) :
    Role.values.elements d = .ok (bs.map .bytes) ∧ ReadAll (bs.map .bytes) bs := by
  refine ⟨?_, readAll_bytes.2 rfl⟩
  cases h with
  | one b => rfl
  | many h => simp [Role.elements, Role.collects, h.notSingle, h.collects]

namespace Scalar.Asks
variable {m : Scalar} {op : Operation} {c : Command}

theorem makes (h : m.Asks op c) : m.Makes op c := by
  cases h with
  | add hvalues => exact .add rfl hvalues.readAll.1 hvalues.readAll.2
  | remove hvalues => exact .remove rfl hvalues.readAll.1 hvalues.readAll.2
  | pop k => exact .pop rfl
  | move s d v => exact .move rfl rfl rfl
  | card k => exact .card rfl
  | isMember k v => exact .isMember rfl rfl
  | members k => exact .members rfl
  | randomMember k => exact .randomMember rfl
  | randomMembers k n => exact .randomMembers rfl rfl
  | combine how hkeys => exact .combine how hkeys.notSingle hkeys.readAll.1 hkeys.readAll.2
  | combineStore how d hkeys => exact .combineStore how rfl hkeys.notSingle hkeys.readAll.1 hkeys.readAll.2

theorem fits (h : m.Asks op c) : op.unfit? c = none := h.makes.fits

end Scalar.Asks
end SetPipeline
