import Mathlib.Data.List.Nodup
import Mathlib.Data.List.Dedup

/-! # Group membership and multicast, as a history

Members join once and leave after they joined. What a member should receive is read off the
history: the messages cast while it was in the group. An implementation is compared with these
functions event by event, through the lemmas for a history with one more event at its end.
-/

universe u v

namespace Multicast

variable {H : Type u} {M : Type v}

inductive Event (H : Type u) (M : Type v)
  | join (h : H)
  | leave (h : H)
  | cast (m : M)

def joins : List (Event H M) → List H :=
  List.filterMap fun | .join h => some h | _ => none

def leaves : List (Event H M) → List H :=
  List.filterMap fun | .leave h => some h | _ => none

section Snoc

variable (es : List (Event H M)) (h : H) (m : M)

@[simp] theorem joins_join : joins (es ++ [.join h]) = joins es ++ [h] := by simp [joins]

@[simp] theorem joins_leave : joins (es ++ [.leave h]) = joins es := by simp [joins]

@[simp] theorem joins_cast : joins (es ++ [.cast m]) = joins es := by simp [joins]

@[simp] theorem leaves_join : leaves (es ++ [.join h]) = leaves es := by simp [leaves]

@[simp] theorem leaves_leave : leaves (es ++ [.leave h]) = leaves es ++ [h] := by simp [leaves]

@[simp] theorem leaves_cast : leaves (es ++ [.cast m]) = leaves es := by simp [leaves]

end Snoc

inductive Orderly : List (Event H M) → Prop
  | nil : Orderly []
  | join {es : List (Event H M)} {h : H} (hes : Orderly es) (hFresh : h ∉ joins es) :
      Orderly (es ++ [.join h])
  | leave {es : List (Event H M)} {h : H} (hes : Orderly es) (hJoined : h ∈ joins es) :
      Orderly (es ++ [.leave h])
  | cast {es : List (Event H M)} {m : M} (hes : Orderly es) : Orderly (es ++ [.cast m])

theorem Orderly.nodup_joins {es : List (Event H M)} (hes : Orderly es) : (joins es).Nodup := by
  induction hes with
  | nil => exact List.nodup_nil
  | join _ hFresh ih =>
    rw [joins_join, ← List.concat_eq_append]
    exact ih.concat hFresh
  | leave _ _ ih => rwa [joins_leave]
  | cast _ ih => rwa [joins_cast]

theorem Orderly.leaves_subset {es : List (Event H M)} (hes : Orderly es) :
    leaves es ⊆ joins es := by
  induction hes with
  | nil => exact List.Subset.refl _
  | join _ _ ih =>
    rw [leaves_join, joins_join]
    exact List.subset_append_of_subset_left _ ih
  | leave _ hJoined ih =>
    rw [leaves_leave, joins_leave]
    exact List.append_subset.mpr ⟨ih, by simpa using hJoined⟩
  | cast _ ih => rwa [leaves_cast, joins_cast]

variable [DecidableEq H]

def members (es : List (Event H M)) : List H := (joins es).filter (· ∉ leaves es)

theorem mem_members {es : List (Event H M)} {h : H} :
    h ∈ members es ↔ h ∈ joins es ∧ h ∉ leaves es := by
  simp [members]

theorem members_join {es : List (Event H M)} {h : H} (hes : Orderly es) (hFresh : h ∉ joins es) :
    members (es ++ [.join h]) = members es ++ [h] := by
  have hLeft : h ∉ leaves es := fun hLeft => hFresh (hes.leaves_subset hLeft)
  simp [members, hLeft]

theorem members_leave (es : List (Event H M)) (h : H) :
    members (es ++ [.leave h]) = (members es).filter (· ≠ h) := by
  simp only [members, joins_leave, leaves_leave, List.filter_filter, List.mem_append,
    List.mem_singleton, not_or, ← Bool.decide_and]
  exact List.filter_congr fun k _ => by simp [and_comm]

@[simp] theorem members_cast (es : List (Event H M)) (m : M) :
    members (es ++ [.cast m]) = members es := by
  simp [members]

theorem Orderly.nodup_members {es : List (Event H M)} (hes : Orderly es) : (members es).Nodup :=
  hes.nodup_joins.filter _

theorem Orderly.length_members {es : List (Event H M)} (hes : Orderly es) :
    (members es).length + (leaves es).dedup.length = (joins es).length := by
  have hSplit := (joins es).length_eq_length_filter_add (· ∉ leaves es)
  have hPerm : ((joins es).filter fun h => !decide (h ∉ leaves es)).Perm (leaves es).dedup := by
    apply (List.perm_ext_iff_of_nodup (hes.nodup_joins.filter _) (List.nodup_dedup _)).mpr
    intro h
    simp only [decide_not, Bool.not_not, List.mem_filter, decide_eq_true_eq, List.mem_dedup]
    exact ⟨fun hMem => hMem.2, fun hMem => ⟨hes.leaves_subset hMem, hMem⟩⟩
  rw [hSplit, members, hPerm.length_eq]

/-- The messages cast while `h` is in the group, for a history that begins with it in or out. -/
def inboxFrom (h : H) : Bool → List (Event H M) → List M
  | _, [] => []
  | present, .join k :: es => inboxFrom h (present || h == k) es
  | present, .leave k :: es => inboxFrom h (present && h != k) es
  | present, .cast m :: es => if present then m :: inboxFrom h present es
      else inboxFrom h present es

def inbox (h : H) (es : List (Event H M)) : List M := inboxFrom h false es

def presentAfter (h : H) : Bool → List (Event H M) → Bool
  | present, [] => present
  | present, .join k :: es => presentAfter h (present || h == k) es
  | present, .leave k :: es => presentAfter h (present && h != k) es
  | present, .cast _ :: es => presentAfter h present es

theorem inboxFrom_append (h : H) (present : Bool) (es fs : List (Event H M)) :
    inboxFrom h present (es ++ fs) =
      inboxFrom h present es ++ inboxFrom h (presentAfter h present es) fs := by
  induction es generalizing present with
  | nil => rfl
  | cons e es ih =>
    cases e with
    | join k => exact ih _
    | leave k => exact ih _
    | cast m =>
      rw [List.cons_append, inboxFrom, inboxFrom, presentAfter, ih]
      split <;> rfl

theorem presentAfter_append (h : H) (present : Bool) (es fs : List (Event H M)) :
    presentAfter h present (es ++ fs) = presentAfter h (presentAfter h present es) fs := by
  induction es generalizing present with
  | nil => rfl
  | cons e es ih => cases e <;> exact ih _

theorem Orderly.presentAfter_iff {es : List (Event H M)} (hes : Orderly es) (h : H) :
    presentAfter h false es = true ↔ h ∈ members es := by
  induction hes with
  | nil => simp [presentAfter, members, joins]
  | join hes hFresh ih =>
    rw [presentAfter_append, members_join hes hFresh, List.mem_append, List.mem_singleton, ← ih]
    simp [presentAfter]
  | leave _ _ ih =>
    rw [presentAfter_append, members_leave, List.mem_filter, ← ih]
    simp [presentAfter]
  | cast _ ih =>
    rw [presentAfter_append, members_cast]
    exact ih

@[simp] theorem inbox_join (es : List (Event H M)) (h k : H) :
    inbox h (es ++ [.join k]) = inbox h es := by
  simp [inbox, inboxFrom_append, inboxFrom]

@[simp] theorem inbox_leave (es : List (Event H M)) (h k : H) :
    inbox h (es ++ [.leave k]) = inbox h es := by
  simp [inbox, inboxFrom_append, inboxFrom]

theorem Orderly.inbox_cast {es : List (Event H M)} (hes : Orderly es) (h : H) (m : M) :
    inbox h (es ++ [.cast m]) = if h ∈ members es then inbox h es ++ [m] else inbox h es := by
  rw [inbox, inboxFrom_append]
  simp only [inboxFrom, hes.presentAfter_iff]
  split
  · rfl
  · exact List.append_nil _

theorem Orderly.inbox_of_not_joined {es : List (Event H M)} (hes : Orderly es) {h : H}
    (hNew : h ∉ joins es) : inbox h es = [] := by
  induction hes with
  | nil => rfl
  | join _ _ ih =>
    rw [inbox_join]
    exact ih fun hMem => hNew (by simp [hMem])
  | leave _ _ ih =>
    rw [inbox_leave]
    exact ih (by simpa using hNew)
  | cast hes ih =>
    rw [joins_cast] at hNew
    rw [hes.inbox_cast, if_neg fun hMem => hNew (mem_members.mp hMem).1]
    exact ih hNew

end Multicast
