import ScRedirection.Library.Separator
import ScRedirection.WebsocketServer

/-! # `split` against joining

The loop of `split` appends the pieces between the separators, one a turn and two in the last. A
text without a separator has one piece, and that one it leaves out.
-/

namespace ScRedirection.WebsocketServer

open Json Separator

variable {s : Bytes} {c : UInt8}

/-- A text is its first piece and each other piece behind a separator. -/
theorem exists_fields (s : Bytes) (c : UInt8) :
    ∃ (p : Bytes) (fields : List Bytes), s.splitOn c = p :: fields ∧ c ∉ p ∧
      (∀ q ∈ fields, c ∉ q) ∧ s = p ++ fields.flatMap fun q => c :: q := by
  obtain ⟨p, fields, hSplit⟩ := List.exists_cons_of_ne_nil (List.splitOn_ne_nil c s)
  have hNone : ∀ q ∈ p :: fields, c ∉ q := fun q hq => not_mem_of_mem_splitOn (hSplit ▸ hq)
  refine ⟨p, fields, hSplit, (List.forall_mem_cons.mp hNone).1, (List.forall_mem_cons.mp hNone).2,
    ?_⟩
  rw [← intercalate_cons, ← hSplit, List.intercalate_splitOn]

/-! ## The loop -/

/-- One turn for each separator is enough, and the loop ends there: more turns change nothing. -/
theorem splitLoop_splitOn (h : c ∈ s) {fuel : Nat} (hFuel : s.count c ≤ fuel) (v : List Bytes) :
    splitLoop s c fuel 0 (find s c 0) v = v ++ s.splitOn c := by
  obtain ⟨p, fields, hSplit, hp, hFields, hJoin⟩ := exists_fields s c
  have hCount : fields.length = s.count c := by
    have hLength := length_splitOn c s
    rw [hSplit, List.length_cons] at hLength
    exact Nat.succ_inj.mp hLength
  have hSome : fields ≠ [] := by
    rintro rfl
    exact (List.count_pos_iff.mpr h).ne hCount
  rw [hSplit]
  apply splitLoop_fields fields p fuel 0 v hSome hp hFields
  · rw [List.drop_zero]
    exact hJoin
  · exact hCount.trans_le hFuel

theorem splitLoop_none (h : c ∉ s) (fuel : Nat) (v : List Bytes) :
    splitLoop s c fuel 0 (find s c 0) v = v := by
  rw [find_last (List.drop_zero) h]
  cases fuel <;> rfl

theorem split_of_mem (h : c ∈ s) (v : List Bytes) : split s c v = v ++ s.splitOn c :=
  splitLoop_splitOn h (List.count_le_length.trans (Nat.le_succ _)) v

theorem split_of_not_mem (h : c ∉ s) (v : List Bytes) : split s c v = v :=
  splitLoop_none h _ v

theorem splitLoop_ends {fuel : Nat} (hFuel : s.count c ≤ fuel) (v : List Bytes) :
    splitLoop s c fuel 0 (find s c 0) v = split s c v := by
  by_cases h : c ∈ s
  · rw [splitLoop_splitOn h hFuel, split_of_mem h]
  · rw [splitLoop_none h, split_of_not_mem h]

/-! ## The fields -/

theorem split_intercalate {fields : List Bytes} (hTwo : 2 ≤ fields.length)
    (hFields : ∀ p ∈ fields, c ∉ p) (v : List Bytes) :
    split ([c].intercalate fields) c v = v ++ fields := by
  have hSome : fields ≠ [] := List.ne_nil_of_length_pos (by omega)
  have hSplit := List.splitOn_intercalate c hFields hSome
  have hCount := length_splitOn c ([c].intercalate fields)
  rw [hSplit] at hCount
  rw [split_of_mem (List.count_pos_iff.mp (by omega)), hSplit]

theorem length_split (s : Bytes) (c : UInt8) :
    (split s c []).length = if c ∈ s then s.count c + 1 else 0 := by
  split_ifs with h
  · rw [split_of_mem h, List.nil_append, length_splitOn]
  · rw [split_of_not_mem h, List.length_nil]

/-- The test `msg.size() != 2` of `messageParse` lets exactly one colon through. -/
theorem length_split_eq_two (s : Bytes) (c : UInt8) :
    (split s c []).length = 2 ↔ s.count c = 1 := by
  rw [length_split]
  split_ifs with h
  · exact Nat.succ_inj
  · simp [List.count_eq_zero.mpr h]

theorem messageParse_of_length {server : Server} {message : Bytes}
    (h : (split message (ch ':') []).length ≠ 2) : messageParse server message = .unknown := by
  unfold messageParse
  split
  · rename_i hPair
    rw [hPair] at h
    exact absurd rfl h
  · rfl

/-- `split` undoes joining, in a number of turns that is the number of separators, and only a text
with one colon is taken for a command and its data. -/
theorem split_inverts_join (s : Bytes) (c : UInt8) (v : List Bytes) :
    (∀ fuel, s.count c ≤ fuel → splitLoop s c fuel 0 (find s c 0) v = split s c v) ∧
    (c ∈ s → ∃ fields, split s c v = v ++ fields ∧ fields.length = s.count c + 1 ∧
      (∀ p ∈ fields, c ∉ p) ∧ [c].intercalate fields = s) ∧
    (c ∉ s → split s c v = v) ∧
    (∀ fields : List Bytes, 2 ≤ fields.length → (∀ p ∈ fields, c ∉ p) →
      split ([c].intercalate fields) c v = v ++ fields) ∧
    ((∃ code data, split s (ch ':') [] = [code, data]) ↔ s.count (ch ':') = 1) ∧
    (s.count (ch ':') ≠ 1 → ∀ server, messageParse server s = .unknown) := by
  refine ⟨fun fuel hFuel => splitLoop_ends hFuel v, fun h => ?_, fun h => split_of_not_mem h v,
    fun fields hTwo hFields => split_intercalate hTwo hFields v, ?_, fun hCount server => ?_⟩
  · exact ⟨s.splitOn c, split_of_mem h v, length_splitOn c s,
      fun p hp => not_mem_of_mem_splitOn hp, List.intercalate_splitOn c⟩
  · rw [← List.length_eq_two, length_split_eq_two]
  · exact messageParse_of_length (mt (length_split_eq_two s (ch ':')).mp hCount)

example : split (bytes ":a::") (ch ':') [] = [[], bytes "a", [], []] := by decide

end ScRedirection.WebsocketServer
