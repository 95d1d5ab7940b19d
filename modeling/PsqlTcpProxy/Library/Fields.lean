import Mathlib.Data.List.Basic

/-!
# Terminated fields

A text made of fields, each ended by a separator.  `fields` splits it and drops
what is behind the last separator, which nothing ends.

`fields_terminated_iff` says for which lists of fields this undoes the writing:
for those in which no field contains the separator.  Of what is cut short
`fields_prefix` and `length_fields_lt` say that its fields are the first ones, and
not all of them.  `pairUp` reads the fields
two by two; `pairUp_flatMap` undoes the writing of pairs, whatever single field
is behind them.
-/

namespace PsqlTcpProxy
namespace Library

variable {α β : Type*}

/-! ## Fields -/

/-- The fields that a separator ends. -/
def fields [BEq α] (sep : α) (xs : List α) : List (List α) := (xs.splitOn sep).dropLast

/-- The fields with a separator behind each. -/
def terminated (sep : α) (texts : List (List α)) : List α := texts.flatMap fun text => text ++ [sep]

theorem terminated_append (sep : α) (texts texts' : List (List α)) :
    terminated sep (texts ++ texts') = terminated sep texts ++ terminated sep texts' :=
  List.flatMap_append

theorem terminated_cons (sep : α) (text : List α) (texts : List (List α)) :
    terminated sep (text :: texts) = text ++ sep :: terminated sep texts := by
  rw [terminated, List.flatMap_cons, List.append_assoc, List.singleton_append, terminated]

/-- Between its fields a text has separators; one more is at the end. -/
theorem terminated_eq_intercalate {sep : α} {texts : List (List α)} (h : texts ≠ []) :
    terminated sep texts = [sep].intercalate texts ++ [sep] := by
  induction texts with
  | nil => exact absurd rfl h
  | cons text texts ih =>
    rw [terminated_cons]
    rcases texts with _ | ⟨text', texts⟩
    · rw [List.intercalate_singleton]
      rfl
    · rw [ih (List.cons_ne_nil _ _), List.intercalate_cons_cons, List.append_assoc,
        List.append_assoc]
      rfl

/-- There is a field for every separator. -/
theorem length_fields [BEq α] (sep : α) (xs : List α) : (fields sep xs).length = xs.count sep := by
  rw [fields, List.length_dropLast]
  induction xs with
  | nil => rfl
  | cons x xs ih =>
    obtain ⟨first, others, hsplit⟩ := List.exists_cons_of_ne_nil (List.splitOn_ne_nil sep xs)
    rw [List.splitOn_cons_eq_if_modifyHead, List.count_cons, ← ih, hsplit]
    by_cases hsep : (x == sep) = true
    · rw [if_pos hsep, if_pos hsep]
      rfl
    · rw [if_neg hsep, if_neg hsep]
      rfl

/-- A separator ends a field, anything else goes to the field it is in front of. -/
theorem fields_cons [BEq α] (sep x : α) (xs : List α) : fields sep (x :: xs) =
    if x == sep then [] :: fields sep xs else (fields sep xs).modifyHead (x :: ·) := by
  obtain ⟨first, others, hsplit⟩ := List.exists_cons_of_ne_nil (List.splitOn_ne_nil sep xs)
  rw [fields, fields, List.splitOn_cons_eq_if_modifyHead, hsplit]
  split
  · rfl
  · cases others with
    | nil => rfl
    | cons second others => rfl

/-- **What is read first stays**, whatever comes behind it. -/
theorem fields_prefix [BEq α] (sep : α) {xs ys : List α} (h : xs <+: ys) :
    fields sep xs <+: fields sep ys := by
  obtain ⟨zs, rfl⟩ := h
  induction xs with
  | nil => exact List.nil_prefix
  | cons x xs ih =>
    rw [List.cons_append, fields_cons, fields_cons]
    split
    · exact (List.prefix_cons_inj []).mpr ih
    · obtain ⟨rest, hrest⟩ := ih
      rw [← hrest]
      cases fields sep xs with
      | nil => exact List.nil_prefix
      | cons first others => exact ⟨rest, rfl⟩

section

variable [BEq α] [LawfulBEq α] {sep : α}

theorem fields_of_notMem {xs : List α} (h : sep ∉ xs) : fields sep xs = [] := by
  rw [fields, List.splitOn_eq_singleton h]
  rfl

/-- The field at the front is ended by the first separator. -/
theorem fields_append_cons {xs : List α} (h : sep ∉ xs) (ys : List α) :
    fields sep (xs ++ sep :: ys) = xs :: fields sep ys := by
  rw [fields, List.splitOn_append_cons_self_of_not_mem h,
    List.dropLast_cons_of_ne_nil (List.splitOn_ne_nil sep ys), fields]

/-- Splitting undoes the writing of fields, and goes on with what is behind
them. -/
theorem fields_terminated_append {texts : List (List α)} (h : ∀ text ∈ texts, sep ∉ text)
    (ys : List α) : fields sep (terminated sep texts ++ ys) = texts ++ fields sep ys := by
  induction texts with
  | nil => rfl
  | cons text texts ih =>
    rw [terminated_cons, List.append_assoc, List.cons_append,
      fields_append_cons (h text List.mem_cons_self),
      ih fun t ht => h t (List.mem_cons_of_mem text ht), List.cons_append]

/-- No part of a split contains the separator. -/
theorem notMem_of_mem_splitOn {xs part : List α} (h : part ∈ xs.splitOn sep) : sep ∉ part := by
  induction xs generalizing part with
  | nil =>
    rw [List.splitOn_nil, List.mem_singleton] at h
    rw [h]
    exact List.not_mem_nil
  | cons x xs ih =>
    rw [List.splitOn_cons_eq_if_modifyHead] at h
    split at h
    · rcases List.mem_cons.mp h with rfl | h
      · exact List.not_mem_nil
      · exact ih h
    · rename_i hne
      obtain ⟨first, others, hsplit⟩ := List.exists_cons_of_ne_nil (List.splitOn_ne_nil sep xs)
      rw [hsplit, List.modifyHead_cons] at h
      rw [hsplit] at ih
      rcases List.mem_cons.mp h with rfl | h
      · rw [List.mem_cons, not_or]
        refine ⟨fun heq => hne ?_, ih List.mem_cons_self⟩
        rw [heq]
        exact beq_self_eq_true x
      · exact ih (List.mem_cons_of_mem first h)

theorem notMem_of_mem_fields {xs text : List α} (h : text ∈ fields sep xs) : sep ∉ text :=
  notMem_of_mem_splitOn ((List.dropLast_sublist _).mem h)

/-- What has been written with separators is its fields, written with separators,
also when the separator is inside what has been written. -/
theorem terminated_fields_terminated (sep : α) (texts : List (List α)) :
    terminated sep (fields sep (terminated sep texts)) = terminated sep texts := by
  induction texts with
  | nil => rfl
  | cons text texts ih =>
    have hfields : fields sep (text ++ sep :: terminated sep texts) =
        text.splitOn sep ++ fields sep (terminated sep texts) := by
      rw [fields, List.splitOn_append_cons_self,
        List.dropLast_append_of_ne_nil (List.splitOn_ne_nil _ _), fields]
    rw [terminated_cons, hfields, terminated_append, ih,
      terminated_eq_intercalate (List.splitOn_ne_nil _ _), List.intercalate_splitOn,
      List.append_assoc]
    rfl

/-- **When fields are read back.**  A list of fields is recovered from its writing
if and only if no field contains the separator. -/
theorem fields_terminated_iff {texts : List (List α)} :
    fields sep (terminated sep texts) = texts ↔ ∀ text ∈ texts, sep ∉ text := by
  constructor
  · intro h text htext
    rw [← h] at htext
    exact notMem_of_mem_fields htext
  · intro h
    have hread := fields_terminated_append h []
    rwa [List.append_nil, fields_of_notMem List.not_mem_nil, List.append_nil] at hread

/-- **A part of what has been written** has fewer fields than the whole. -/
theorem length_fields_lt {texts : List (List α)} {xs : List α} (h : xs <+: terminated sep texts)
    (hlt : xs.length < (terminated sep texts).length) :
    (fields sep xs).length < (fields sep (terminated sep texts)).length := by
  obtain ⟨ys, hys⟩ := h
  have hne : texts ≠ [] := by
    rintro rfl
    exact Nat.not_lt_zero _ hlt
  have hrest : ys ≠ [] := by
    rintro rfl
    rw [List.append_nil] at hys
    exact absurd (congrArg List.length hys) (Nat.ne_of_lt hlt)
  have hlast : ys.getLast hrest = sep := by
    have heq : (xs ++ ys).getLast? = ([sep].intercalate texts ++ [sep]).getLast? := by
      rw [hys, terminated_eq_intercalate hne]
    rw [List.getLast?_append_of_ne_nil _ hrest, List.getLast?_concat,
      List.getLast?_eq_some_getLast hrest] at heq
    exact Option.some.inj heq
  have hmem : sep ∈ ys := hlast ▸ List.getLast_mem hrest
  rw [length_fields, length_fields, ← hys, List.count_append]
  exact Nat.lt_add_of_pos_right (List.count_pos_iff.mpr hmem)

end

/-! ## Pairs of fields -/

/-- The fields two by two; an odd last one is dropped. -/
def pairUp (pair : α → α → β) : List α → List β
  | a :: b :: rest => pair a b :: pairUp pair rest
  | _ => []

theorem length_pairUp (pair : α → α → β) :
    ∀ xs : List α, (pairUp pair xs).length = xs.length / 2
  | [] => by simp [pairUp]
  | [_] => by simp [pairUp]
  | _ :: _ :: rest => by
    rw [pairUp, List.length_cons, length_pairUp pair rest, List.length_cons, List.length_cons,
      Nat.add_div_right _ Nat.zero_lt_two]

/-- Pairs are read back, and then what is behind them. -/
theorem pairUp_flatMap_append {pair : α → α → β} {first second : β → α}
    (h : ∀ p, pair (first p) (second p) = p) (tail : List α) (pairs : List β) :
    pairUp pair (pairs.flatMap (fun p => [first p, second p]) ++ tail) =
      pairs ++ pairUp pair tail := by
  induction pairs with
  | nil => rfl
  | cons p pairs ih =>
    show pair (first p) (second p) ::
      pairUp pair (pairs.flatMap (fun p => [first p, second p]) ++ tail) =
        p :: (pairs ++ pairUp pair tail)
    rw [h, ih]

/-- Pairs are read back, whatever single field is behind them. -/
theorem pairUp_flatMap {pair : α → α → β} {first second : β → α}
    (h : ∀ p, pair (first p) (second p) = p) {tail : List α} (htail : tail.length ≤ 1)
    (pairs : List β) :
    pairUp pair (pairs.flatMap (fun p => [first p, second p]) ++ tail) = pairs := by
  have hnone : pairUp pair tail = [] := by
    rw [← List.length_eq_zero_iff, length_pairUp]
    omega
  rw [pairUp_flatMap_append h, hnone, List.append_nil]

end Library
end PsqlTcpProxy
