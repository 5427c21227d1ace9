import ScRedirection.Json.RoundTrip

/-! # What the reader returns

Whatever the text, and also where it is rejected, the reader leaves a value that its own writer and
itself carry over unchanged.
-/

namespace ScRedirection.Json

variable {D : Type} {doubles : Doubles D}

/-- No double is read that its text would lose: one that is too large for a double is not read. -/
def Doubles.Exact (doubles : Doubles D) : Prop :=
  ∀ text d, doubles.extract text = some d → doubles.ReadsBack d

/-- A value that comes back unchanged when it is read at some depth. -/
structure Returned (doubles : Doubles D) (depth : Nat) (x : Value D) : Prop where
  wellFormed : WellFormed doubles x
  canonical : canonical x = x
  height : depth + height x ≤ stackLimit

/-! ## Elements and members -/

theorem wellFormedElements_iff {xs : List (Value D)} :
    WellFormedElements doubles xs ↔ ∀ x ∈ xs, WellFormed doubles x := by
  induction xs with
  | nil => simp [WellFormedElements]
  | cons x xs ih => rw [WellFormedElements, ih, List.forall_mem_cons]

theorem wellFormedMembers_iff {ms : Members D} :
    WellFormedMembers doubles ms ↔ ∀ m ∈ ms, WellFormed doubles m.2 := by
  induction ms with
  | nil => simp [WellFormedMembers]
  | cons m ms ih => rw [WellFormedMembers, ih, List.forall_mem_cons]

theorem canonicalElements_eq_map (xs : List (Value D)) :
    canonicalElements xs = xs.map canonical := by
  induction xs with
  | nil => rfl
  | cons x xs ih => rw [canonicalElements, ih, List.map_cons]

theorem canonicalMembers_eq_map (ms : Members D) :
    canonicalMembers ms = ms.map fun m => (m.1, canonical m.2) := by
  induction ms with
  | nil => rfl
  | cons m ms ih => rw [canonicalMembers, ih, List.map_cons]

theorem heightElements_le {xs : List (Value D)} {n : Nat} :
    heightElements xs ≤ n ↔ ∀ x ∈ xs, height x ≤ n := by
  induction xs with
  | nil => simp [heightElements]
  | cons x xs ih => rw [heightElements, Nat.max_le, ih, List.forall_mem_cons]

theorem heightMembers_le {ms : Members D} {n : Nat} :
    heightMembers ms ≤ n ↔ ∀ m ∈ ms, height m.2 ≤ n := by
  induction ms with
  | nil => simp [heightMembers]
  | cons m ms ih => rw [heightMembers, Nat.max_le, ih, List.forall_mem_cons]

theorem mem_setMember {key : Bytes} {x : Value D} {ms : Members D} {m : Bytes × Value D}
    (h : m ∈ setMember key x ms) : m = (key, x) ∨ m ∈ ms := by
  induction ms with
  | nil => exact .inl (List.mem_singleton.mp h)
  | cons m' ms ih =>
    obtain ⟨k, y⟩ := m'
    rw [setMember] at h
    split_ifs at h with hKey hLess
    · rcases List.mem_cons.mp h with rfl | h
      · exact .inl rfl
      · exact .inr (List.mem_cons_of_mem _ h)
    · rcases List.mem_cons.mp h with rfl | h
      · exact .inr List.mem_cons_self
      · exact (ih h).imp_right (List.mem_cons_of_mem _)
    · rcases List.mem_cons.mp h with rfl | h
      · exact .inl rfl
      · exact .inr h

namespace Returned

variable {depth : Nat}

theorem array {xs : List (Value D)} (hDepth : depth < stackLimit)
    (h : ∀ x ∈ xs, Returned doubles (depth + 1) x) : Returned doubles depth (.array xs) where
  wellFormed := wellFormedElements_iff.mpr fun x hx => (h x hx).wellFormed
  canonical := by
    rw [Json.canonical, canonicalElements_eq_map,
      List.map_congr_left fun x hx => (h x hx).canonical, List.map_id']
  height := by
    have hHeight : heightElements xs ≤ stackLimit - (depth + 1) := by
      rw [heightElements_le]
      intro x hx
      have hElement := (h x hx).height
      omega
    rw [Json.height]
    omega

theorem object {ms : Members D} (hDepth : depth < stackLimit) (hOrdered : Ordered ms)
    (h : ∀ m ∈ ms, Returned doubles (depth + 1) m.2) : Returned doubles depth (.object ms) where
  wellFormed := ⟨hOrdered, wellFormedMembers_iff.mpr fun m hm => (h m hm).wellFormed⟩
  canonical := by
    have hSame : ms.map (fun m => (m.1, Json.canonical m.2)) = ms := by
      rw [List.map_congr_left fun m hm => by rw [(h m hm).canonical], List.map_id']
    rw [Json.canonical, canonicalMembers_eq_map, hSame]
  height := by
    have hHeight : heightMembers ms ≤ stackLimit - (depth + 1) := by
      rw [heightMembers_le]
      intro m hm
      have hMember := (h m hm).height
      omega
    rw [Json.height]
    omega

theorem of_object {ms : Members D} (h : Returned doubles depth (.object ms)) :
    Ordered ms ∧ ∀ m ∈ ms, Returned doubles (depth + 1) m.2 := by
  obtain ⟨⟨hOrdered, hMembers⟩, hCanonical, hHeight⟩ := h
  refine ⟨hOrdered, fun m hm => ⟨wellFormedMembers_iff.mp hMembers m hm, ?_, ?_⟩⟩
  · rw [Json.canonical, canonicalMembers_eq_map, Value.object.injEq] at hCanonical
    have hMap : ∀ m ∈ ms, (m.1, Json.canonical m.2) = m := by
      apply List.map_inj_left.mp
      rw [hCanonical, List.map_id']
    exact congrArg Prod.snd (hMap m hm)
  · have hMember := heightMembers_le.mp (Nat.le_refl _) m hm
    rw [Json.height] at hHeight
    omega

end Returned

/-! ## Numbers -/

theorem canonical_int (i : Int) :
    canonical (.int i : Value D) = if i ≤ maxInt then .int i else .uint i.toNat := by
  cases i with
  | ofNat n =>
    rw [canonical, classify, Int.ofNat_eq_natCast, Int.toNat_natCast]
    split_ifs <;> first | rfl | omega
  | negSucc n => rw [canonical, if_pos (by omega)]

theorem returned_decodeNumber (hExact : doubles.Exact) {text : Bytes} {value : Value D}
    (h : decodeNumber doubles text = some value) {depth : Nat} (hDepth : depth < stackLimit) :
    Returned doubles depth value := by
  have hScalar : value.isContainer = false := decodeNumber_scalar h
  rw [decodeNumber] at h
  split at h
  case h_2 =>
    obtain ⟨d, hd, rfl⟩ := Option.map_eq_some_iff.mp h
    exact ⟨hExact text d hd, rfl, hDepth⟩
  case h_1 n hDigits =>
    have hRange := decodeDigits_le (Nat.zero_le _) hDigits
    split_ifs at h hRange with hNegative hSmall
    · cases h
      refine ⟨?_, ?_, hDepth⟩
      · rw [WellFormed, maxLargestInt] at *
        omega
      · rw [canonical_int, if_pos (by omega)]
    · cases h
      refine ⟨?_, ?_, hDepth⟩
      · rw [WellFormed, maxLargestInt]
        rw [maxInt] at hSmall
        omega
      · rw [canonical_int, if_pos (by omega)]
    · cases h
      refine ⟨hRange, ?_, hDepth⟩
      rw [canonical, classify, if_neg hSmall]

/-! ## The reader -/

structure ReturnedMembers (doubles : Doubles D) (depth : Nat) (ms : Members D) : Prop where
  ordered : Ordered ms
  members : ∀ m ∈ ms, Returned doubles depth m.2

theorem ReturnedMembers.nil {depth : Nat} : ReturnedMembers doubles depth [] where
  ordered := List.Pairwise.nil
  members m hm := by cases hm

theorem ReturnedMembers.set {depth : Nat} {key : Bytes} {x : Value D} {ms : Members D}
    (h : ReturnedMembers doubles depth ms) (hx : Returned doubles depth x) :
    ReturnedMembers doubles depth (setMember key x ms) where
  ordered := ordered_setMember h.ordered
  members m hm := by
    rcases mem_setMember hm with rfl | hm
    · exact hx
    · exact h.members m hm

structure ReadsReturned (doubles : Doubles D) (fuel : Nat) : Prop where
  value : ∀ {depth : Nat} {current : Value D} {s : Bytes} {outcome : Outcome D},
    (depth < stackLimit → Returned doubles depth current) →
    readValue doubles fuel depth current s = .ok outcome → Returned doubles depth outcome.value
  object : ∀ {depth : Nat} {members : Members D} {name s : Bytes} {outcome : Outcome D},
    depth ≤ stackLimit → ReturnedMembers doubles depth members →
    readObject doubles fuel depth members name s = .ok outcome →
    ∃ ms, outcome.value = .object ms ∧ ReturnedMembers doubles depth ms
  array : ∀ {depth : Nat} {elements : List (Value D)} {s : Bytes} {outcome : Outcome D},
    depth ≤ stackLimit → (∀ x ∈ elements, Returned doubles depth x) →
    readArray doubles fuel depth elements s = .ok outcome →
    ∃ xs, outcome.value = .array xs ∧ ∀ x ∈ xs, Returned doubles depth x

theorem Returned.null {depth : Nat} (hDepth : depth < stackLimit) :
    Returned doubles depth .null :=
  ⟨trivial, rfl, hDepth⟩

theorem Returned.text {depth : Nat} (s : Bytes) (hDepth : depth < stackLimit) :
    Returned doubles depth (.string s) :=
  ⟨trivial, rfl, hDepth⟩

theorem Returned.boolean {depth : Nat} (b : Bool) (hDepth : depth < stackLimit) :
    Returned doubles depth (.boolean b) :=
  ⟨trivial, rfl, hDepth⟩

theorem ReturnedMembers.current {depth : Nat} {ms : Members D}
    (h : ReturnedMembers doubles depth ms) (name : Bytes) (hDepth : depth < stackLimit) :
    Returned doubles depth ((ms.lookup name).getD .null) := by
  cases hLookup : ms.lookup name with
  | none => exact Returned.null hDepth
  | some x =>
    obtain ⟨before, after, rfl, -⟩ := List.lookup_eq_some_iff.mp hLookup
    exact h.members (name, x) (List.mem_append_right _ List.mem_cons_self)

theorem readValue_returned (hExact : doubles.Exact) {fuel : Nat} (ih : ReadsReturned doubles fuel)
    {depth : Nat} {current : Value D} {s : Bytes} {outcome : Outcome D}
    (hCurrent : depth < stackLimit → Returned doubles depth current)
    (h : readValue doubles (fuel + 1) depth current s = .ok outcome) :
    Returned doubles depth outcome.value := by
  have hArray : ∀ {t}, depth < stackLimit →
      readArray doubles fuel (depth + 1) [] t = .ok outcome →
      Returned doubles depth outcome.value := by
    intro t hDepth hRead
    obtain ⟨xs, hValue, hElements⟩ := ih.array hDepth (by simp) hRead
    rw [hValue]
    exact Returned.array hDepth hElements
  rw [readValue] at h
  split_ifs at h with hLimit
  have hDepth : depth < stackLimit := Nat.lt_of_not_le hLimit
  have hCurrent := hCurrent hDepth
  dsimp only at h
  split at h
  case h_1 =>
    obtain ⟨ms, hValue, hMembers⟩ := ih.object hDepth .nil h
    rw [hValue]
    exact Returned.object hDepth hMembers.ordered hMembers.members
  case h_2 =>
    split at h
    · split_ifs at h
      · cases h
        exact Returned.array hDepth (by simp)
      · exact hArray hDepth h
    · exact hArray hDepth h
  case h_3 =>
    split at h
    · rename_i value hNumber
      cases h
      exact returned_decodeNumber hExact hNumber hDepth
    · cases h
      exact hCurrent
  case h_4 =>
    split at h
    · rename_i decoded _
      cases h
      exact Returned.text decoded hDepth
    · cases h
      exact hCurrent
  case h_5 | h_6 =>
    cases h
    exact Returned.boolean _ hDepth
  case h_7 =>
    cases h
    exact Returned.null hDepth
  case h_8 =>
    cases h
    exact hCurrent

theorem readObject_returned {fuel : Nat} (ih : ReadsReturned doubles fuel) {depth : Nat}
    {members : Members D} {name s : Bytes} {outcome : Outcome D} (hDepth : depth ≤ stackLimit)
    (hMembers : ReturnedMembers doubles depth members)
    (h : readObject doubles (fuel + 1) depth members name s = .ok outcome) :
    ∃ ms, outcome.value = .object ms ∧ ReturnedMembers doubles depth ms := by
  -- The value of a member is read into the value the member has so far.
  have hRead : ∀ {name t result}, readValue doubles fuel depth
      ((members.lookup name).getD .null) t = .ok result → Returned doubles depth result.value :=
    fun hValue => ih.value (hMembers.current _) hValue
  have hTurn := readObject_turn doubles fuel depth members name s
  generalize readObject doubles (fuel + 1) depth members name s = result at hTurn h
  cases hTurn with
  | closed | failed =>
    cases h
    exact ⟨members, rfl, hMembers⟩
  | valueFault => cases h
  | memberFailed hValue | commaMissing hValue | memberClosed _ hValue =>
    cases h
    exact ⟨_, rfl, hMembers.set (hRead hValue)⟩
  | next _ hValue => exact ih.object hDepth (hMembers.set (hRead hValue)) h

theorem readArray_returned {fuel : Nat} (ih : ReadsReturned doubles fuel) {depth : Nat}
    {elements : List (Value D)} {s : Bytes} {outcome : Outcome D} (hDepth : depth ≤ stackLimit)
    (hElements : ∀ x ∈ elements, Returned doubles depth x)
    (h : readArray doubles (fuel + 1) depth elements s = .ok outcome) :
    ∃ xs, outcome.value = .array xs ∧ ∀ x ∈ xs, Returned doubles depth x := by
  have hAppend : ∀ {t : Bytes} {result : Outcome D},
      readValue doubles fuel depth .null t = .ok result →
      ∀ x ∈ elements ++ [result.value], Returned doubles depth x := by
    intro t result hValue x hx
    rcases List.mem_append.mp hx with hx | hx
    · exact hElements x hx
    · rw [List.mem_singleton.mp hx]
      exact ih.value Returned.null hValue
  rw [readArray] at h
  split at h
  · cases h
  · rename_i hFailed
    cases h
    exact ⟨_, rfl, hAppend hFailed⟩
  · rename_i hDone
    dsimp only at h
    split_ifs at h
    · cases h
      exact ⟨_, rfl, hAppend hDone⟩
    · exact ih.array hDepth (hAppend hDone) h
    · cases h
      exact ⟨_, rfl, hAppend hDone⟩

theorem readsReturned (hExact : doubles.Exact) (fuel : Nat) : ReadsReturned doubles fuel := by
  induction fuel with
  | zero =>
    constructor
    · intro depth current s outcome _ h
      cases h
    · intro depth members name s outcome _ _ h
      cases h
    · intro depth elements s outcome _ _ h
      cases h
  | succ fuel ih =>
    exact ⟨readValue_returned hExact ih, readObject_returned ih, readArray_returned ih⟩

theorem parse_returned (hExact : doubles.Exact) {json : Bytes} {outcome : Outcome D}
    (h : parse doubles json = .ok outcome) : Returned doubles 0 outcome.value :=
  (readsReturned hExact _).value Returned.null h

theorem Returned.parse_writeValue {depth : Nat} {x : Value D} (h : Returned doubles depth x) :
    parse doubles (writeValue doubles x) = .ok (.done x []) := by
  have hHeight : Json.height x ≤ stackLimit := (Nat.le_add_left _ _).trans h.height
  rw [Json.parse_writeValue doubles h.wellFormed, if_pos hHeight, h.canonical]

/-- What the reader leaves of a text, or of the start of a text it rejects, is printed by the writer
and read again without any change. -/
theorem parse_again (hExact : doubles.Exact) {json : Bytes} {outcome : Outcome D}
    (h : parse doubles json = .ok outcome) :
    parse doubles (writeValue doubles outcome.value) = .ok (.done outcome.value []) :=
  (parse_returned hExact h).parse_writeValue

/-! Two doubles and their texts -/

def exampleDoubles : Doubles Bool where
  extract text :=
    if text = bytes "0.5" then some false else if text = bytes "-1.5" then some true else none
  toText d := if d then bytes "-1.5" else bytes "0.5"
  toText_ascii d := by cases d <;> decide +kernel

theorem exact_exampleDoubles : exampleDoubles.Exact := by
  intro text d _
  have hFive : ∀ c ∈ bytes "5", isDigit c = true := by decide +kernel
  cases d with
  | false =>
    exact ⟨⟨⟨ch '0', rfl, by decide⟩, fun rest => readNumber_fraction [] (by simp) hFive⟩,
      by decide +kernel⟩
  | true =>
    exact ⟨⟨⟨ch '-', rfl, by decide⟩,
      fun rest => readNumber_fraction (bytes "1") (by decide +kernel) hFive⟩,
      by decide +kernel⟩

theorem parse_again_example : parse exampleDoubles
    (writeValue exampleDoubles (.array [.real true, .int 7, .null])) =
      .ok (.done (.array [.real true, .int 7, .null]) []) := by
  have hRead : parse exampleDoubles (bytes "[-1.5, 7, ") =
      .ok (.failed (.array [.real true, .int 7, .null])) := by
    decide +kernel
  exact parse_again exact_exampleDoubles hRead

end ScRedirection.Json
