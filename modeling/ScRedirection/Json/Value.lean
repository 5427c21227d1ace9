import ScRedirection.Basic
import Mathlib.Data.List.Lex

/-! # Json::Value

The values of the bundled jsoncpp with the operations the server applies to them. An object is
its `std::map` as a list in key order. A double is kept abstract: `D` is its type and `Doubles`
the two conversions of the C++ library, stream extraction and `%.17g`. An assertion of jsoncpp
that fails throws.
-/

namespace ScRedirection.Json

inductive Value (D : Type)
  | null
  | int (i : Int)
  | uint (n : Nat)
  | real (d : D)
  | string (s : Bytes)
  | boolean (b : Bool)
  | array (elements : List (Value D))
  | object (members : List (Bytes × Value D))
  deriving Repr, Inhabited

inductive JsonError
  | logicError (msg : String)
  | runtimeError (msg : String)
  deriving DecidableEq, Repr

structure Doubles (D : Type) where
  extract : Bytes → Option D
  toText : D → Bytes
  toText_ascii : ∀ d, ∀ c ∈ toText d, c < 128

def Doubles.absent : Doubles Empty := ⟨fun _ => none, Empty.elim, fun d => d.elim⟩

variable {D : Type}

abbrev Members (D : Type) := List (Bytes × Value D)

/-- Assignment through `operator[]`: the element at the key, or a new one at its lower bound. -/
def setMember (key : Bytes) (x : Value D) : Members D → Members D
  | [] => [(key, x)]
  | (k, y) :: ms =>
    if k = key then (key, x) :: ms
    else if k < key then (k, y) :: setMember key x ms
    else (key, x) :: (k, y) :: ms

def eraseMember (key : Bytes) (ms : Members D) : Members D := ms.eraseP fun m => m.1 == key

/-! Equality, for what a test evaluates. -/

namespace Value

variable [DecidableEq D]

mutual
def beq : Value D → Value D → Bool
  | null, null => true
  | int i, int j => i == j
  | uint m, uint n => m == n
  | real d, real e => d == e
  | string s, string t => s == t
  | boolean a, boolean b => a == b
  | array xs, array ys => beqElements xs ys
  | object ms, object ns => beqMembers ms ns
  | _, _ => false

def beqElements : List (Value D) → List (Value D) → Bool
  | [], [] => true
  | x :: xs, y :: ys => x.beq y && beqElements xs ys
  | _, _ => false

def beqMembers : Members D → Members D → Bool
  | [], [] => true
  | (k, x) :: ms, (l, y) :: ns => k == l && x.beq y && beqMembers ms ns
  | _, _ => false
end

mutual
theorem beq_iff : ∀ x y : Value D, x.beq y = true ↔ x = y
  | null, y | int _, y | uint _, y | real _, y | string _, y | boolean _, y => by
    cases y <;> simp [beq]
  | array xs, y => by cases y <;> simp [beq, beqElements_iff xs]
  | object ms, y => by cases y <;> simp [beq, beqMembers_iff ms]

theorem beqElements_iff : ∀ xs ys : List (Value D), beqElements xs ys = true ↔ xs = ys
  | [], ys => by cases ys <;> simp [beqElements]
  | x :: xs, ys => by cases ys <;> simp [beqElements, beq_iff x, beqElements_iff xs]

theorem beqMembers_iff : ∀ ms ns : Members D, beqMembers ms ns = true ↔ ms = ns
  | [], ns => by cases ns <;> simp [beqMembers]
  | (k, x) :: ms, ns => by
    cases ns <;> simp [beqMembers, beq_iff x, beqMembers_iff ms, Prod.ext_iff]
end

instance : DecidableEq (Value D) := fun x y => decidable_of_iff (x.beq y = true) (beq_iff x y)

end Value

/-! The order of the map. -/

def Ordered (ms : Members D) : Prop := (ms.map Prod.fst).Pairwise (· < ·)

theorem mem_keys_setMember {key k : Bytes} {x : Value D} {ms : Members D} :
    k ∈ (setMember key x ms).map Prod.fst ↔ k = key ∨ k ∈ ms.map Prod.fst := by
  induction ms with
  | nil => simp [setMember]
  | cons m ms ih =>
    obtain ⟨k', y⟩ := m
    rw [setMember]
    split_ifs with hKey
    · simp [hKey]
    · rw [List.map_cons, List.mem_cons, ih, List.map_cons, List.mem_cons]
      exact or_left_comm
    · simp

theorem ordered_setMember {key : Bytes} {x : Value D} {ms : Members D} (h : Ordered ms) :
    Ordered (setMember key x ms) := by
  induction ms with
  | nil => exact List.pairwise_singleton _ _
  | cons m ms ih =>
    obtain ⟨k, y⟩ := m
    obtain ⟨hFirst, hRest⟩ := List.pairwise_cons.mp h
    rw [setMember]
    split_ifs with hKey hLess
    · subst hKey
      exact h
    · refine List.pairwise_cons.mpr ⟨fun k' hk' => ?_, ih hRest⟩
      rcases mem_keys_setMember.mp hk' with rfl | hk'
      · exact hLess
      · exact hFirst k' hk'
    · have hGreater : key < k := Std.lt_of_le_of_ne (List.not_lt.mp hLess) (Ne.symm hKey)
      refine List.pairwise_cons.mpr ⟨fun k' hk' => ?_, h⟩
      rcases List.mem_cons.mp hk' with rfl | hk'
      · exact hGreater
      · exact List.lt_trans hGreater (hFirst k' hk')

theorem ordered_eraseMember {key : Bytes} {ms : Members D} (h : Ordered ms) :
    Ordered (eraseMember key ms) :=
  h.sublist (List.eraseP_sublist.map _)

theorem key_not_mem_eraseMember {key : Bytes} {ms : Members D} (h : Ordered ms) :
    key ∉ (eraseMember key ms).map Prod.fst := by
  induction ms with
  | nil => exact List.not_mem_nil
  | cons m ms ih =>
    obtain ⟨hFirst, hRest⟩ := List.pairwise_cons.mp h
    rw [eraseMember, List.eraseP_cons]
    by_cases hKey : m.1 = key
    · rw [beq_iff_eq.mpr hKey, cond_true]
      intro hMem
      exact List.lt_irrefl key (hKey ▸ hFirst key hMem)
    · rw [beq_eq_false_iff_ne.mpr hKey, cond_false, List.map_cons, List.mem_cons, not_or]
      exact ⟨Ne.symm hKey, ih hRest⟩

theorem lookup_of_mem {ms : Members D} (h : Ordered ms) {m : Bytes × Value D} (hMem : m ∈ ms) :
    ms.lookup m.1 = some m.2 := by
  induction ms with
  | nil => cases hMem
  | cons m' ms ih =>
    obtain ⟨hFirst, hRest⟩ := List.pairwise_cons.mp h
    rw [List.lookup_cons]
    rcases List.mem_cons.mp hMem with rfl | hMem
    · simp
    · have hKey : m.1 ≠ m'.1 := by
        intro hKey
        exact List.lt_irrefl m'.1 (hKey ▸ hFirst m.1 (List.mem_map_of_mem hMem))
      rw [beq_eq_false_iff_ne.mpr hKey]
      exact ih hRest hMem

theorem mem_setMember_of_new {key : Bytes} {x : Value D} {ms : Members D}
    (hNew : key ∉ ms.map Prod.fst) {m : Bytes × Value D} :
    m ∈ setMember key x ms ↔ m = (key, x) ∨ m ∈ ms := by
  induction ms with
  | nil => simp [setMember]
  | cons m' ms ih =>
    obtain ⟨k, y⟩ := m'
    simp only [List.map_cons, List.mem_cons, not_or] at hNew
    rw [setMember, if_neg (Ne.symm hNew.1)]
    split_ifs
    · rw [List.mem_cons, ih hNew.2, List.mem_cons]
      exact or_left_comm
    · rw [List.mem_cons]

theorem setMember_concat {key : Bytes} {x : Value D} {ms : Members D}
    (hLast : ∀ k ∈ ms.map Prod.fst, k < key) : setMember key x ms = ms ++ [(key, x)] := by
  induction ms with
  | nil => rfl
  | cons m ms ih =>
    obtain ⟨k, y⟩ := m
    rw [List.map_cons, List.forall_mem_cons] at hLast
    have hNe : k ≠ key := by
      rintro rfl
      exact List.lt_irrefl k hLast.1
    rw [setMember, if_neg hNe, if_pos hLast.1, ih hLast.2]
    rfl

namespace Value

def isNull : Value D → Bool
  | null => true
  | _ => false

def isContainer : Value D → Bool
  | array _ => true
  | object _ => true
  | _ => false

def find (value : Value D) (key : Bytes) : Except JsonError (Option (Value D)) :=
  match value with
  | null => .ok none
  | object ms => .ok (ms.lookup key)
  | _ => .error (.logicError
      "in Json::Value::find(key, end, found): requires objectValue or nullValue")

def isMember (value : Value D) (key : Bytes) : Except JsonError Bool :=
  return (← value.find key).isSome

/-- `value[key]` read through a non-const reference: a missing member is created as null. -/
def resolveReference (value : Value D) (key : Bytes) : Except JsonError (Value D × Value D) :=
  match value with
  | null => .ok (object [(key, null)], null)
  | object ms =>
    match ms.lookup key with
    | some x => .ok (object ms, x)
    | none => .ok (object (setMember key null ms), null)
  | _ => .error (.logicError
      "in Json::Value::resolveReference(key, end): requires objectValue")

/-- `value[key] = x`. -/
def assign (value : Value D) (key : Bytes) (x : Value D) : Except JsonError (Value D) :=
  match value with
  | null => .ok (object [(key, x)])
  | object ms => .ok (object (setMember key x ms))
  | _ => .error (.logicError
      "in Json::Value::resolveReference(key, end): requires objectValue")

def removeMember (value : Value D) (key : Bytes) : Except JsonError (Value D) :=
  match value with
  | null => .ok null
  | object ms => .ok (object (eraseMember key ms))
  | _ => .error (.logicError "in Json::Value::removeMember(): requires objectValue")

def getMemberNames (value : Value D) : Except JsonError (List Bytes) :=
  match value with
  | null => .ok []
  | object ms => .ok (ms.map Prod.fst)
  | _ => .error (.logicError
      "in Json::Value::getMemberNames(), value must be objectValue")

def asString (doubles : Doubles D) (value : Value D) : Except JsonError Bytes :=
  match value with
  | null => .ok []
  | string s => .ok s
  | boolean b => .ok (if b then bytes "true" else bytes "false")
  | int i => .ok (bytes (toString i))
  | uint n => .ok (bytes (toString n))
  | real d => .ok (doubles.toText d)
  | array _ | object _ => .error (.logicError "Type is not convertible to string")

end Value

end ScRedirection.Json
