import Mathlib.Logic.Function.Basic
import Mathlib.Data.List.Basic

/-! # A directory of files

The part of a file system that an atomic replacement rests on, over any type of names and any
alphabet.  A name leads to a file; a process that has opened a file keeps it, also when its
name is given to another file.  Opening a file for writing empties it, `write` adds to its end,
and `rename` gives it another name in one step.

No file has two names (`dir_inj`), so writing to the file of one name never shows in the file of
another (`content_truncate_of_ne`, `content_write_of_ne`).
-/
namespace OmniCare

/-- A directory and its files. -/
structure Disk (N A : Type) where
  /-- The contents of the files, also of those without a name. -/
  files : List (List A) := []
  dir : N → Option Nat := fun _ => none
  dir_lt : ∀ {n i}, dir n = some i → i < files.length := by simp
  dir_inj : ∀ {n m i}, dir n = some i → dir m = some i → n = m := by simp

namespace Disk

variable {N A : Type} (d : Disk N A)

/-- The content of a file. -/
def content (i : Nat) : List A := (d.files[i]?).getD []

/-- What a reader finds under a name. -/
def text? (n : N) : Option (List A) := (d.dir n).map d.content

/-- Adds to the end of a file. -/
def write (i : Nat) (s : List A) : Disk N A :=
  { d with
    files := d.files.modify i (· ++ s)
    dir_lt := fun h => by
      rw [List.length_modify]
      exact d.dir_lt h }

@[simp] theorem dir_write (i : Nat) (s : List A) (n : N) : (d.write i s).dir n = d.dir n := rfl

@[simp] theorem length_write (i : Nat) (s : List A) :
    (d.write i s).files.length = d.files.length := List.length_modify ..

theorem content_write_of_ne {i j : Nat} (h : j ≠ i) (s : List A) :
    (d.write i s).content j = d.content j := by
  show ((d.files.modify i (· ++ s))[j]?).getD [] = _
  rw [List.getElem?_modify_ne _ _ (Ne.symm h)]
  rfl

theorem content_write_self {i : Nat} (h : i < d.files.length) (s : List A) :
    (d.write i s).content i = d.content i ++ s := by
  rw [content, write, List.getElem?_modify, content, List.getElem?_eq_getElem h]
  simp

section Names

variable [DecidableEq N]

/-- The file that opening a name for writing gives: its own, or a new one. -/
def opened (n : N) : Nat := (d.dir n).getD d.files.length

/-- Opens a name for writing. -/
def truncate (n : N) : Disk N A :=
  match h : d.dir n with
  | some i =>
      { d with
        files := d.files.set i []
        dir_lt := fun h => by
          rw [List.length_set]
          exact d.dir_lt h }
  | none =>
      { files := d.files ++ [[]]
        dir := Function.update d.dir n (some d.files.length)
        dir_lt := by
          intro m j hj
          rw [List.length_append]
          by_cases hm : m = n
          · rw [hm, Function.update_self] at hj
            cases hj
            exact Nat.lt_succ_self _
          · rw [Function.update_of_ne hm] at hj
            exact Nat.lt_add_right _ (d.dir_lt hj)
        dir_inj := by
          intro m m' j hj hj'
          by_cases hm : m = n <;> by_cases hm' : m' = n
          · rw [hm, hm']
          · rw [hm, Function.update_self] at hj
            rw [Function.update_of_ne hm'] at hj'
            cases hj
            exact absurd (d.dir_lt hj') (Nat.lt_irrefl _)
          · rw [hm', Function.update_self] at hj'
            rw [Function.update_of_ne hm] at hj
            cases hj'
            exact absurd (d.dir_lt hj) (Nat.lt_irrefl _)
          · rw [Function.update_of_ne hm] at hj
            rw [Function.update_of_ne hm'] at hj'
            exact d.dir_inj hj hj' }

theorem dir_truncate_self (n : N) : (d.truncate n).dir n = some (d.opened n) := by
  unfold truncate opened
  split
  · rename_i i h
    rw [h]
    rfl
  · rename_i h
    rw [h]
    exact Function.update_self ..

theorem dir_truncate_of_ne {n m : N} (h : m ≠ n) : (d.truncate n).dir m = d.dir m := by
  unfold truncate
  split
  · rfl
  · exact Function.update_of_ne h ..

theorem length_le_truncate (n : N) : d.files.length ≤ (d.truncate n).files.length := by
  unfold truncate
  split
  · exact Nat.le_of_eq (List.length_set ..).symm
  · exact List.length_append ▸ Nat.le_add_right ..

theorem opened_lt (n : N) : d.opened n < (d.truncate n).files.length :=
  (d.truncate n).dir_lt (d.dir_truncate_self n)

theorem content_truncate_self (n : N) : (d.truncate n).content (d.opened n) = [] := by
  unfold truncate opened content
  split
  · rename_i i h
    rw [h]
    show ((d.files.set i [])[i]?).getD [] = []
    rw [List.getElem?_set_self (d.dir_lt h)]
    rfl
  · rename_i h
    rw [h]
    show ((d.files ++ [[]])[d.files.length]?).getD [] = []
    rw [List.getElem?_concat_length]
    rfl

/-- Opening a name for writing changes no other file. -/
theorem content_truncate_of_ne {n : N} {j : Nat} (h : j ≠ d.opened n) :
    (d.truncate n).content j = d.content j := by
  unfold truncate content
  unfold opened at h
  split
  · rename_i i hi
    rw [hi, Option.getD_some] at h
    show ((d.files.set i [])[j]?).getD [] = _
    rw [List.getElem?_set_ne (Ne.symm h)]
  · rename_i hi
    rw [hi] at h
    show ((d.files ++ [[]])[j]?).getD [] = _
    rcases Nat.lt_or_gt_of_ne h with hlt | hgt
    · rw [List.getElem?_append_left hlt]
    · rw [List.getElem?_eq_none (by rw [List.length_append]; exact hgt),
        List.getElem?_eq_none (Nat.le_of_lt hgt)]

omit [DecidableEq N] in
/-- The file of another name is not the one that is opened. -/
theorem ne_opened {n m : N} {i : Nat} (hm : m ≠ n) (h : d.dir m = some i) : i ≠ d.opened n := by
  rintro rfl
  unfold opened at h
  cases hn : d.dir n with
  | some j =>
    rw [hn] at h
    exact hm (d.dir_inj h hn)
  | none =>
    rw [hn] at h
    exact Nat.lt_irrefl _ (d.dir_lt h)

/-- `rename(n, m)`, if there is a file of the first name. -/
def rename (n m : N) : Option (Disk N A) :=
  match h : d.dir n with
  | none => none
  | some i => some
      { d with
        dir := fun x => if x = m then some i else if x = n then none else d.dir x
        dir_lt := by
          intro x j hj
          split at hj
          · cases hj
            exact d.dir_lt h
          · split at hj
            · cases hj
            · exact d.dir_lt hj
        dir_inj := by
          -- the only name of the file is now the second one
          have hold : ∀ {x j}, (if x = m then some i else if x = n then none else d.dir x) =
              some j → x = m ∧ j = i ∨ x ≠ m ∧ j ≠ i ∧ d.dir x = some j := by
            intro x j hj
            split at hj
            · rename_i hx
              cases hj
              exact .inl ⟨hx, rfl⟩
            · rename_i hxm
              split at hj
              · cases hj
              · rename_i hxn
                refine .inr ⟨hxm, ?_, hj⟩
                rintro rfl
                exact hxn (d.dir_inj hj h)
          intro x y j hx hy
          rcases hold hx with ⟨rfl, rfl⟩ | ⟨-, hx, hdx⟩
          · rcases hold hy with ⟨rfl, -⟩ | ⟨-, hy, -⟩
            · rfl
            · exact absurd rfl hy
          · rcases hold hy with ⟨-, hy⟩ | ⟨-, -, hdy⟩
            · exact absurd hy hx
            · exact d.dir_inj hdx hdy }

/-- What a rename does. -/
theorem rename_eq_some {n m : N} {d' : Disk N A} (h : d.rename n m = some d') :
    ∃ i, d.dir n = some i ∧ d'.files = d.files ∧
      d'.dir = fun x => if x = m then some i else if x = n then none else d.dir x := by
  unfold rename at h
  split at h
  · cases h
  · rename_i i hi
    cases h
    exact ⟨i, hi, rfl, rfl⟩

end Names

end Disk

end OmniCare
