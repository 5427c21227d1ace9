import ScRedirection.Json.Token

/-! # Json::Reader

The recursive reader of the bundled jsoncpp. The value read so far is passed along, because the
reader fills it while it reads and leaves it as it is at an error. After an error the reader only
skips tokens; the value is not touched again, so a failed read carries no position. Comments are
recorded by the reader and used by nobody here.
-/

namespace ScRedirection.Json

variable {D : Type}

/-- What a read leaves in its value, and where it stands if it succeeded. -/
inductive Outcome (D : Type)
  | done (value : Value D) (rest : Bytes)
  | failed (value : Value D)
  deriving DecidableEq

inductive ReadFault
  | stackLimit
  | outOfFuel
  deriving DecidableEq, Repr

def stackLimit : Nat := 1000

section Read

variable (doubles : Doubles D)

mutual
/-- `readValue` on a value that holds `current`, at stack depth `depth`. -/
def readValue : Nat → Nat → Value D → Bytes → Except ReadFault (Outcome D)
  | 0, _, _, _ => .error .outOfFuel
  | fuel + 1, depth, current, s =>
    if depth ≥ stackLimit then .error .stackLimit
    else
      let (token, s) := skipCommentTokens s
      match token.type with
      | .objectBegin => readObject fuel (depth + 1) [] [] s
      | .arrayBegin =>
        match skipSpaces s with
        | c :: rest =>
          if c = ch ']' then .ok (.done (.array []) rest) else readArray fuel (depth + 1) [] s
        | [] => readArray fuel (depth + 1) [] s
      | .number =>
        match decodeNumber doubles token.text with
        | some value => .ok (.done value s)
        | none => .ok (.failed current)
      | .string =>
        match decodeString token.text with
        | some decoded => .ok (.done (.string decoded) s)
        | none => .ok (.failed current)
      | .true => .ok (.done (.boolean true) s)
      | .false => .ok (.done (.boolean false) s)
      | .null => .ok (.done .null s)
      | _ => .ok (.failed current)

/-- One turn of the loop of `readObject`; `name` is the name of the member before. -/
def readObject : Nat → Nat → Members D → Bytes → Bytes → Except ReadFault (Outcome D)
  | 0, _, _, _, _ => .error .outOfFuel
  | fuel + 1, depth, members, name, s =>
    let (tokenName, s) := skipCommentTokens s
    if tokenName.type = .objectEnd ∧ name = [] then .ok (.done (.object members) s)
    else if tokenName.type = .string then
      match decodeString tokenName.text with
      | none => .ok (.failed (.object members))
      | some name =>
        let (colon, s) := readToken s
        if colon.type ≠ .memberSeparator then .ok (.failed (.object members))
        else
          let current := (members.lookup name).getD .null
          match readValue fuel depth current s with
          | .error fault => .error fault
          | .ok (.failed value) => .ok (.failed (.object (setMember name value members)))
          | .ok (.done value s) =>
            let members := setMember name value members
            let (comma, s) := readToken s
            if comma.type ≠ .objectEnd ∧ comma.type ≠ .arraySeparator ∧
                comma.type ≠ .comment then
              .ok (.failed (.object members))
            else
              let (comma, s) := if comma.type = .comment then skipCommentTokens s else (comma, s)
              if comma.type = .objectEnd then .ok (.done (.object members) s)
              else readObject fuel depth members name s
    else .ok (.failed (.object members))

def readArray : Nat → Nat → List (Value D) → Bytes → Except ReadFault (Outcome D)
  | 0, _, _, _ => .error .outOfFuel
  | fuel + 1, depth, elements, s =>
    match readValue fuel depth .null s with
    | .error fault => .error fault
    | .ok (.failed value) => .ok (.failed (.array (elements ++ [value])))
    | .ok (.done value s) =>
      let elements := elements ++ [value]
      let (token, s) := skipCommentTokens s
      if token.type = .arrayEnd then .ok (.done (.array elements) s)
      else if token.type = .arraySeparator then readArray fuel depth elements s
      else .ok (.failed (.array elements))
end

/-! The turns a read can take are bounded by the text it has: every value, member and element
starts with a token of its own. -/

def Enough (s : Bytes) (result : Except ReadFault (Outcome D)) : Prop :=
  result ≠ .error .outOfFuel ∧
    ∀ value rest, result = .ok (.done value rest) → rest.length < s.length

theorem enough_failed (s : Bytes) (value : Value D) : Enough s (.ok (.failed value)) :=
  ⟨by simp, by simp⟩

theorem enough_done {s rest : Bytes} (value : Value D) (h : rest.length < s.length) :
    Enough s (.ok (.done value rest)) := by
  refine ⟨by simp, fun value' rest' hDone => ?_⟩
  simp only [Except.ok.injEq, Outcome.done.injEq] at hDone
  exact hDone.2 ▸ h

theorem Enough.mono {s t : Bytes} {result : Except ReadFault (Outcome D)} (h : Enough t result)
    (hLength : t.length ≤ s.length) : Enough s result :=
  ⟨h.1, fun value rest hDone => (h.2 value rest hDone).trans_le hLength⟩

theorem Enough.error {s t : Bytes} {fault : ReadFault}
    (h : Enough t (.error fault : Except ReadFault (Outcome D))) :
    Enough s (.error fault : Except ReadFault (Outcome D)) :=
  ⟨h.1, by simp⟩

structure ReadsEnough (fuel : Nat) : Prop where
  value : ∀ depth (current : Value D) s, 2 * s.length + 1 ≤ fuel →
    Enough s (readValue doubles fuel depth current s)
  object : ∀ depth (members : Members D) name s, 2 * s.length + 2 ≤ fuel →
    Enough s (readObject doubles fuel depth members name s)
  array : ∀ depth (elements : List (Value D)) s, 2 * s.length + 2 ≤ fuel →
    Enough s (readArray doubles fuel depth elements s)

/-- What one turn of `readObject` comes to: a result of its own, what the value of the member comes
to, or the next turn. -/
inductive ObjectTurn (fuel depth : Nat) (members : Members D) (s : Bytes) :
    Except ReadFault (Outcome D) → Prop
  | closed {rest : Bytes} (hRest : rest.length < s.length) :
      ObjectTurn fuel depth members s (.ok (.done (.object members) rest))
  | failed : ObjectTurn fuel depth members s (.ok (.failed (.object members)))
  | valueFault {name t : Bytes} {fault : ReadFault} (hText : t.length + 1 < s.length)
      (hValue : readValue doubles fuel depth ((members.lookup name).getD .null) t = .error fault) :
      ObjectTurn fuel depth members s (.error fault)
  | memberFailed {name t : Bytes} {value : Value D}
      (hValue : readValue doubles fuel depth ((members.lookup name).getD .null) t =
        .ok (.failed value)) :
      ObjectTurn fuel depth members s (.ok (.failed (.object (setMember name value members))))
  | commaMissing {name t u : Bytes} {value : Value D}
      (hValue : readValue doubles fuel depth ((members.lookup name).getD .null) t =
        .ok (.done value u)) :
      ObjectTurn fuel depth members s (.ok (.failed (.object (setMember name value members))))
  | memberClosed {name t u rest : Bytes} {value : Value D} (hText : t.length + 1 < s.length)
      (hValue : readValue doubles fuel depth ((members.lookup name).getD .null) t =
        .ok (.done value u)) (hRest : rest.length ≤ u.length) :
      ObjectTurn fuel depth members s (.ok (.done (.object (setMember name value members)) rest))
  | next {name t u rest : Bytes} {value : Value D} (hText : t.length + 1 < s.length)
      (hValue : readValue doubles fuel depth ((members.lookup name).getD .null) t =
        .ok (.done value u)) (hRest : rest.length ≤ u.length) :
      ObjectTurn fuel depth members s
        (readObject doubles fuel depth (setMember name value members) name rest)

theorem readObject_turn (fuel depth : Nat) (members : Members D) (name s : Bytes) :
    ObjectTurn doubles fuel depth members s
      (readObject doubles (fuel + 1) depth members name s) := by
  rw [readObject]
  have hName := skipCommentTokens_length (s := s)
  generalize skipCommentTokens s = result at hName ⊢
  obtain ⟨tokenName, s₁⟩ := result
  dsimp only at hName ⊢
  split
  case isTrue hEnd => exact .closed (hName (by rw [hEnd.1]; decide))
  split
  case isFalse => exact .failed
  rename_i hString
  have hName := hName (by rw [hString]; decide)
  split
  · exact .failed
  rename_i name' _
  have hColon := readToken_length (s := s₁)
  generalize readToken s₁ = result at hColon ⊢
  obtain ⟨colon, s₂⟩ := result
  dsimp only at hColon ⊢
  split
  case isTrue => exact .failed
  rename_i hType
  have hColon := hColon (by rw [not_not.mp hType]; decide)
  split
  · rename_i fault hFault
    exact .valueFault (by omega) hFault
  · rename_i value hFailed
    exact .memberFailed hFailed
  rename_i value s₃ hDone
  have hComma := readToken_le s₃
  generalize readToken s₃ = result at hComma ⊢
  obtain ⟨comma, s₄⟩ := result
  dsimp only at hComma ⊢
  have hNext : (if comma.type = .comment then skipCommentTokens s₄
      else (comma, s₄)).2.length ≤ s₄.length := by
    split_ifs
    · exact skipComments_le s₄.length s₄
    · exact Nat.le_refl _
  generalize (if comma.type = .comment then skipCommentTokens s₄ else (comma, s₄)) = next
    at hNext ⊢
  split_ifs
  · exact .commaMissing hDone
  · exact .memberClosed (by omega) hDone (by omega)
  · exact .next (by omega) hDone (by omega)

variable {doubles}

theorem readValue_enough {fuel : Nat} (ih : ReadsEnough doubles fuel) (depth : Nat)
    (current : Value D) (s : Bytes) (hFuel : 2 * s.length + 1 ≤ fuel + 1) :
    Enough s (readValue doubles (fuel + 1) depth current s) := by
  rw [readValue]
  split_ifs
  · exact ⟨by simp, by simp⟩
  have hToken := skipCommentTokens_length (s := s)
  generalize skipCommentTokens s = result at hToken ⊢
  obtain ⟨token, rest⟩ := result
  dsimp only at hToken ⊢
  split
  case h_1 hType =>
    have hRest := hToken (by rw [hType]; decide)
    exact (ih.object _ _ _ rest (by omega)).mono hRest.le
  case h_2 hType =>
    have hRest := hToken (by rw [hType]; decide)
    have hSpaces := skipSpaces_length rest
    have hElements := (ih.array (depth + 1) [] rest (by omega)).mono hRest.le
    split
    · rename_i c after hAfter
      rw [hAfter, List.length_cons] at hSpaces
      split_ifs
      · exact enough_done _ (by omega)
      · exact hElements
    · exact hElements
  case h_3 hType =>
    split
    · exact enough_done _ (hToken (by rw [hType]; decide))
    · exact enough_failed _ _
  case h_4 hType =>
    split
    · exact enough_done _ (hToken (by rw [hType]; decide))
    · exact enough_failed _ _
  case h_5 hType => exact enough_done _ (hToken (by rw [hType]; decide))
  case h_6 hType => exact enough_done _ (hToken (by rw [hType]; decide))
  case h_7 hType => exact enough_done _ (hToken (by rw [hType]; decide))
  case h_8 => exact enough_failed _ _

theorem readObject_enough {fuel : Nat} (ih : ReadsEnough doubles fuel) (depth : Nat)
    (members : Members D) (name s : Bytes) (hFuel : 2 * s.length + 2 ≤ fuel + 1) :
    Enough s (readObject doubles (fuel + 1) depth members name s) := by
  have hTurn := readObject_turn doubles fuel depth members name s
  generalize readObject doubles (fuel + 1) depth members name s = result at hTurn ⊢
  cases hTurn with
  | closed hRest => exact enough_done _ hRest
  | failed => exact enough_failed _ _
  | @valueFault name' t _ hText hValue =>
    have hEnough := ih.value depth ((members.lookup name').getD .null) t (by omega)
    rw [hValue] at hEnough
    exact hEnough.error
  | memberFailed => exact enough_failed _ _
  | commaMissing => exact enough_failed _ _
  | @memberClosed name' t u rest _ hText hValue hRest =>
    have hLength := (ih.value depth _ t (by omega)).2 _ u hValue
    exact enough_done _ (by omega)
  | @next name' t u rest _ hText hValue hRest =>
    have hLength := (ih.value depth _ t (by omega)).2 _ u hValue
    exact (ih.object _ _ _ _ (by omega)).mono (by omega)

theorem readArray_enough {fuel : Nat} (ih : ReadsEnough doubles fuel) (depth : Nat)
    (elements : List (Value D)) (s : Bytes) (hFuel : 2 * s.length + 2 ≤ fuel + 1) :
    Enough s (readArray doubles (fuel + 1) depth elements s) := by
  rw [readArray]
  have hValue := ih.value depth .null s (by omega)
  split
  · rename_i fault hFault
    rw [hFault] at hValue
    exact hValue.error
  · exact enough_failed _ _
  rename_i value s₁ hDone
  have hValue := hValue.2 value s₁ hDone
  have hSkip := skipComments_le s₁.length s₁
  rw [← skipCommentTokens] at hSkip
  generalize skipCommentTokens s₁ = result at hSkip ⊢
  obtain ⟨token, s₂⟩ := result
  dsimp only at hSkip ⊢
  split_ifs
  · exact enough_done _ (by omega)
  · exact (ih.array _ _ _ (by omega)).mono (by omega)
  · exact enough_failed _ _

theorem readsEnough (fuel : Nat) : ReadsEnough doubles fuel := by
  induction fuel with
  | zero =>
    constructor
    · intro depth current s hFuel
      omega
    · intro depth members name s hFuel
      omega
    · intro depth elements s hFuel
      omega
  | succ fuel ih => exact ⟨readValue_enough ih, readObject_enough ih, readArray_enough ih⟩

variable (doubles)

/-- `reader.parse(json, root)` on a fresh root, with turns enough for every text. -/
def parse (json : Bytes) : Except ReadFault (Outcome D) :=
  readValue doubles (2 * json.length + 1) 0 .null json

theorem parse_ne_outOfFuel (json : Bytes) : parse doubles json ≠ .error .outOfFuel :=
  ((readsEnough _).value 0 .null json (Nat.le_refl _)).1

end Read

def Outcome.value : Outcome D → Value D
  | .done value _ => value
  | .failed value => value

/-! Read to its end or not, an object has its members in order. -/

section Order

variable {doubles : Doubles D}

theorem readObject_ordered {fuel : Nat} :
    ∀ {depth : Nat} {members : Members D} {name s : Bytes} {outcome : Outcome D},
      Ordered members → readObject doubles fuel depth members name s = .ok outcome →
      ∃ ms, outcome.value = .object ms ∧ Ordered ms := by
  induction fuel with
  | zero => intro depth members name s outcome _ h; cases h
  | succ fuel ih =>
    intro depth members name s outcome hOrdered h
    have hTurn := readObject_turn doubles fuel depth members name s
    generalize readObject doubles (fuel + 1) depth members name s = result at hTurn h
    cases hTurn with
    | closed =>
      cases h
      exact ⟨members, rfl, hOrdered⟩
    | failed =>
      cases h
      exact ⟨members, rfl, hOrdered⟩
    | valueFault => cases h
    | memberFailed =>
      cases h
      exact ⟨_, rfl, ordered_setMember hOrdered⟩
    | commaMissing =>
      cases h
      exact ⟨_, rfl, ordered_setMember hOrdered⟩
    | memberClosed =>
      cases h
      exact ⟨_, rfl, ordered_setMember hOrdered⟩
    | next => exact ih (ordered_setMember hOrdered) h

theorem readArray_array {fuel : Nat} :
    ∀ {depth : Nat} {elements : List (Value D)} {s : Bytes} {outcome : Outcome D},
      readArray doubles fuel depth elements s = .ok outcome →
      ∃ xs, outcome.value = .array xs := by
  induction fuel with
  | zero => intro depth elements s outcome h; cases h
  | succ fuel ih =>
    intro depth elements s outcome h
    rw [readArray] at h
    split at h
    · cases h
    · cases h
      exact ⟨_, rfl⟩
    · dsimp only at h
      split_ifs at h
      · cases h
        exact ⟨_, rfl⟩
      · exact ih h
      · cases h
        exact ⟨_, rfl⟩

theorem parse_ordered {json : Bytes} {outcome : Outcome D} (h : parse doubles json = .ok outcome)
    {ms : Members D} (hValue : outcome.value = .object ms) : Ordered ms := by
  have hArray : ∀ {fuel depth elements s},
      readArray doubles fuel depth elements s = .ok outcome → Ordered ms := by
    intro fuel depth elements s hRead
    obtain ⟨xs, hOutcome⟩ := readArray_array hRead
    cases hValue.symm.trans hOutcome
  rw [parse, readValue] at h
  split_ifs at h
  dsimp only at h
  split at h
  case h_1 =>
    have hEmpty : Ordered ([] : Members D) := List.Pairwise.nil
    obtain ⟨ms', hObject, hOrdered⟩ := readObject_ordered hEmpty h
    cases hValue.symm.trans hObject
    exact hOrdered
  case h_2 =>
    split at h
    · split_ifs at h
      · cases h
        cases hValue
      · exact hArray h
    · exact hArray h
  case h_3 =>
    split at h
    · rename_i value hNumber
      cases h
      have hScalar := decodeNumber_scalar hNumber
      rw [show value = .object ms from hValue] at hScalar
      cases hScalar
    · cases h
      cases hValue
  case h_4 => split at h <;> cases h <;> cases hValue
  all_goals cases h; cases hValue

end Order

end ScRedirection.Json
