import Rstmdb.Lib.Bytes

/-! JSON values as `serde_json` holds them: numbers by their representation,
objects as maps listed in the order of their keys. -/
namespace Rstmdb.Json

/-- `serde_json::Number`. A negative integer is held as the `n` of `-1 - n`, and
a float by the bits of its `f64`: every number has one representation. Without its feature
`float_roundtrip` the crate does not read every float back from the text it writes. Those
that it does are the floats here; values with others are outside the model. -/
inductive Number
  | posInt (n : UInt64)
  | negInt (n : Fin (2 ^ 63))
  | float (bits : UInt64)
  deriving DecidableEq, Repr

/-- The number an `i64` is serialized as. -/
def Number.ofI64 (t : Int64) : Number :=
  match t.toInt with
  | .ofNat n => .posInt (UInt64.ofNat n)
  | .negSucc n => .negInt (Fin.ofNat _ n)

/-- `Number::as_f64`. -/
def Number.asF64 : Number → Float
  | .posInt n => Float.ofNat n.toNat
  | .negInt n => Float.ofInt (Int.negSucc n)
  | .float bits => Float.ofBits bits

/-- An `f64`, by its bits. -/
structure F64 where
  bits : UInt64
  deriving DecidableEq, Repr

def F64.toFloat (f : F64) : Float := Float.ofBits f.bits

/-- The exponent of an infinity and of a NaN is all ones. -/
def F64.isFinite (f : F64) : Bool := (f.bits >>> 52) &&& 0x7FF != 0x7FF

/-- `Number::from_f64`: no JSON number is infinite or not a number. -/
def Number.fromF64 (f : F64) : Option Number :=
  if f.isFinite then some (.float f.bits) else none

inductive Value
  | null
  | bool (b : Bool)
  | number (n : Number)
  | string (s : String)
  | array (xs : List Value)
  | object (fields : List (String × Value))
  deriving Repr

instance : Inhabited Value := ⟨.null⟩

/-- The entries of an object, a `BTreeMap` listed in key order. -/
abbrev Fields := List (String × Value)

namespace Fields

def get? (fs : Fields) (k : String) : Option Value := (fs.find? (·.1 = k)).map (·.2)

/-- `Map::insert`: an existing key keeps its place and takes the new value. -/
def insert (k : String) (v : Value) : Fields → Fields
  | [] => [(k, v)]
  | (k', v') :: fs =>
    if k = k' then (k, v) :: fs
    else if k < k' then (k, v) :: (k', v') :: fs
    else (k', v') :: insert k v fs

theorem get?_cons (p : String × Value) (fs : Fields) (k : String) :
    get? (p :: fs) k = if p.1 = k then some p.2 else get? fs k := by
  unfold get?
  by_cases h : p.1 = k
  · simp [h]
  · simp [h]

theorem get?_insert (k : String) (v : Value) (fs : Fields) (k' : String) :
    get? (insert k v fs) k' = if k = k' then some v else get? fs k' := by
  induction fs with
  | nil => simp [insert, get?_cons]
  | cons p fs ih =>
    obtain ⟨kp, vp⟩ := p
    rw [insert]
    split
    · rename_i hk
      subst hk
      simp only [get?_cons]
      split <;> rfl
    · rename_i hk
      split
      · rw [get?_cons]
      rw [get?_cons, get?_cons, ih]
      by_cases hp : kp = k'
      · subst hp
        simp [hk]
      · simp [hp]

theorem mem_of_get? {fs : Fields} {k : String} {v : Value} (h : get? fs k = some v) :
    k ∈ fs.map Prod.fst := by
  obtain ⟨p, hp, -⟩ := Option.map_eq_some_iff.mp h
  have hk : p.1 = k := by simpa using List.find?_some hp
  exact hk ▸ List.mem_map_of_mem (List.mem_of_find?_eq_some hp)

/-- Inserting all fields of an object over another: its own fields come first. -/
theorem get?_foldl_insert {fields : Fields} (h : (fields.map Prod.fst).Nodup) (base : Fields)
    (k : String) :
    get? (fields.foldl (fun acc p => insert p.1 p.2 acc) base) k =
      (get? fields k).or (get? base k) := by
  induction fields generalizing base with
  | nil => rfl
  | cons p fields ih =>
    obtain ⟨hp, hrest⟩ := List.nodup_cons.mp h
    rw [List.foldl_cons, ih hrest, get?_insert, get?_cons]
    by_cases hk : p.1 = k
    · have hnone : get? fields k = none := by
        by_contra hsome
        obtain ⟨v, hv⟩ := Option.ne_none_iff_exists'.mp hsome
        exact hp (hk ▸ mem_of_get? hv)
      simp [hk, hnone]
    · simp [hk]

/-- The object a `json!` literal or a derived serializer builds from its fields. -/
def ofList (fs : List (String × Value)) : Fields := fs.foldl (fun acc p => insert p.1 p.2 acc) []

end Fields

namespace Value

def obj (fs : List (String × Value)) : Value := .object (Fields.ofList fs)

def nat (n : Nat) : Value := .number (.posInt (UInt64.ofNat n))

def isNull : Value → Bool
  | .null => true
  | _ => false

/-- `value["key"]`: null where there is no such field. -/
def index (v : Value) (k : String) : Value :=
  match v with
  | .object fs => (Fields.get? fs k).getD .null
  | _ => .null

def asStr : Value → Option String
  | .string s => some s
  | _ => none

def asBool : Value → Option Bool
  | .bool b => some b
  | _ => none

def asU64 : Value → Option UInt64
  | .number (.posInt n) => some n
  | _ => none

def asArray : Value → Option (List Value)
  | .array xs => some xs
  | _ => none

end Value

end Rstmdb.Json
