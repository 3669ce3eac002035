import OmniCare.Fronts

/-! # Texts woven of characters and tags

A text is woven of tags if it is made of these and of characters that are no angle brackets
(`Woven`).  Such a text is not cut in a tag by a character that no tag has (`Woven.cut`), nor where
a blank is taken off an end; and when every tag is deleted, in whatever order, **no angle bracket is
left** (`Woven.deleteAll`).
-/
namespace OmniCare

/-- A tag has an angle bracket at each end, and none between. -/
def IsTag (t : Text) : Prop :=
  t = '<' :: (t.tail.dropLast ++ ['>']) ∧ '<' ∉ t.tail.dropLast ∧ '>' ∉ t.tail.dropLast

instance : DecidablePred IsTag := fun t =>
  inferInstanceAs (Decidable (t = '<' :: (t.tail.dropLast ++ ['>']) ∧ '<' ∉ t.tail.dropLast ∧
    '>' ∉ t.tail.dropLast))

theorem IsTag.exists_name {t : Text} (h : IsTag t) :
    ∃ name, t = '<' :: (name ++ ['>']) ∧ '<' ∉ name ∧ '>' ∉ name := ⟨_, h⟩

/-- Neither of the angle brackets. -/
def isPlainChar (c : Char) : Bool := c != '<' && c != '>'

/-- A text is made of plain characters and of tags. -/
inductive Woven (tags : List Text) : Text → Prop
  | nil : Woven tags []
  | char {c : Char} {s : Text} (plain : isPlainChar c = true) (rest : Woven tags s) :
      Woven tags (c :: s)
  | tag {t s : Text} (mem : t ∈ tags) (rest : Woven tags s) : Woven tags (t ++ s)

/-- Every one of the tags is deleted from a text, one after another. -/
def deleteAll (tags : List Text) (s : Text) : Text :=
  tags.foldl (fun s tag => Text.replace s tag []) s

/-! ## One tag deleted -/

variable {t : Text}

theorem replaceFrom_append (old new u x : Text) :
    Text.replaceFrom old new u.length (u ++ x) = Text.replace x old new := by
  induction u with
  | nil => rfl
  | cons d u ih => exact ih

/-- A tag is deleted where it stands. -/
theorem replace_self (ht : t ≠ []) (x : Text) :
    Text.replace (t ++ x) t [] = Text.replace x t [] := by
  obtain ⟨d, u, rfl⟩ := List.exists_cons_of_ne_nil ht
  have hstarts : Text.startsWith (d :: (u ++ x)) (d :: u) = true := by
    rw [Text.startsWith, ← List.cons_append, Text.dropPrefix?_append]
    rfl
  show Text.replaceFrom (d :: u) [] 0 (d :: (u ++ x)) = _
  rw [Text.replaceFrom, if_pos hstarts]
  exact replaceFrom_append (d :: u) [] u x

theorem takeWhile_name {name : Text} (h : '>' ∉ name) (x : Text) :
    (name ++ '>' :: x).takeWhile (· != '>') = name := by
  have hall : ∀ c ∈ name, (c != '>') = true := by
    intro c hc
    refine bne_iff_ne.mpr ?_
    rintro rfl
    exact h hc
  rw [List.takeWhile_append_of_pos hall, List.takeWhile_cons_of_neg (by decide), List.append_nil]

/-- Another tag stays where it stands. -/
theorem replace_other {old : Text} (hold : IsTag old) (ht : IsTag t) (hne : t ≠ old) (x : Text) :
    Text.replace (t ++ x) old [] = t ++ Text.replace x old [] := by
  obtain ⟨name, rfl, -, hend⟩ := hold.exists_name
  obtain ⟨name', rfl, hbegin', hend'⟩ := ht.exists_name
  have hstarts : Text.startsWith ('<' :: (name' ++ ['>'] ++ x)) ('<' :: (name ++ ['>'])) =
      false := by
    rw [Text.startsWith, Option.isSome_eq_false_iff, Option.isNone_iff_eq_none,
      Option.eq_none_iff_forall_ne_some]
    intro rest hrest
    have hsame : name' ++ '>' :: x = name ++ '>' :: rest := by
      simpa using Regex.dropPrefix?_eq_some hrest
    have hname : name' = name := by
      rw [← takeWhile_name hend' x, hsame, takeWhile_name hend rest]
    exact hne (by rw [hname])
  have hstays : '<' ∉ name' ++ ['>'] := by
    rw [List.mem_append, not_or]
    exact ⟨hbegin', by decide⟩
  have hbehind := @replace_front (name' ++ ['>']) ('<' :: (name ++ ['>'])) [] x '<' rfl hstays
  show Text.replaceFrom _ [] 0 ('<' :: (name' ++ ['>'] ++ x)) = _
  rw [Text.replaceFrom, if_neg (by rw [hstarts]; decide)]
  exact congrArg ('<' :: ·) hbehind

namespace Woven

variable {tags : List Text} {a b s : Text} {c : Char}

/-! ## Putting together -/

theorem of_plain (h : s.all isPlainChar = true) : Woven tags s := by
  induction s with
  | nil => exact .nil
  | cons c s ih =>
    obtain ⟨hc, hs⟩ := Bool.and_eq_true_iff.mp h
    exact .char hc (ih hs)

theorem of_mem (h : t ∈ tags) : Woven tags t := by
  have hsingle := tag h .nil
  rwa [List.append_nil] at hsingle

theorem append (ha : Woven tags a) (hb : Woven tags b) : Woven tags (a ++ b) := by
  induction ha with
  | nil => exact hb
  | char plain _ ih => exact .char plain ih
  | tag mem _ ih =>
    rw [List.append_assoc]
    exact .tag mem ih

theorem flatten {parts : List Text} (h : ∀ p ∈ parts, Woven tags p) : Woven tags parts.flatten := by
  induction parts with
  | nil => exact .nil
  | cons p parts ih =>
    obtain ⟨hp, hparts⟩ := List.forall_mem_cons.mp h
    exact hp.append (ih hparts)

theorem join {parts : List Text} {sep : Text} (hsep : Woven tags sep)
    (h : ∀ p ∈ parts, Woven tags p) : Woven tags (Text.join sep parts) := by
  induction parts with
  | nil => exact .nil
  | cons p parts ih =>
    obtain ⟨hp, hparts⟩ := List.forall_mem_cons.mp h
    cases parts with
    | nil => simpa [Text.join] using hp
    | cons q parts =>
      have hjoin : Text.join sep (p :: q :: parts) = p ++ (sep ++ Text.join sep (q :: parts)) := by
        simp [Text.join, List.intercalate]
      rw [hjoin]
      exact hp.append (hsep.append (ih hparts))

/-! ## Taking apart -/

/-- **A text is cut where a character stands that no tag has.** -/
theorem cut (h : Woven tags (a ++ c :: b)) (hc : ∀ t ∈ tags, c ∉ t) :
    Woven tags a ∧ Woven tags b := by
  generalize hs : a ++ c :: b = s at h
  induction h generalizing a with
  | nil => simp at hs
  | @char d s plain rest ih =>
    cases a with
    | nil =>
      obtain ⟨-, rfl⟩ := List.cons.inj hs
      exact ⟨.nil, rest⟩
    | cons e a =>
      obtain ⟨rfl, hbehind⟩ := List.cons.inj hs
      obtain ⟨ha, hb⟩ := ih hbehind
      exact ⟨.char plain ha, hb⟩
  | @tag t s mem rest ih =>
    rcases List.append_eq_append_iff.mp hs with ⟨u, rfl, hu⟩ | ⟨u, rfl, hu⟩
    · -- the character would stand in the tag
      cases u with
      | nil =>
        rw [List.append_nil] at mem
        exact ⟨of_mem mem, (ih (a := []) hu).2⟩
      | cons d u =>
        obtain ⟨rfl, -⟩ := List.cons.inj hu
        exact absurd (by simp) (hc _ mem)
    · obtain ⟨ha, hb⟩ := ih hu.symm
      exact ⟨.tag mem ha, hb⟩

/-- A text of such characters is taken out of the middle. -/
theorem cutText {m : Text} (h : Woven tags (a ++ (m ++ b))) (hne : m ≠ [])
    (hm : ∀ c ∈ m, ∀ t ∈ tags, c ∉ t) : Woven tags a ∧ Woven tags b := by
  induction m generalizing a with
  | nil => exact absurd rfl hne
  | cons c m ih =>
    obtain ⟨hc, hm⟩ := List.forall_mem_cons.mp hm
    obtain ⟨ha, hrest⟩ := h.cut hc
    cases m with
    | nil => exact ⟨ha, hrest⟩
    | cons d m => exact ⟨ha, (ih (a := []) hrest (List.cons_ne_nil d m) hm).2⟩

variable (htags : ∀ t ∈ tags, IsTag t)
include htags

/-- A first character that begins no tag is taken off. -/
theorem uncons (h : Woven tags (c :: s)) (hc : c ≠ '<') : Woven tags s := by
  generalize hs : c :: s = x at h
  cases h with
  | nil => cases hs
  | char _ rest =>
    obtain ⟨-, rfl⟩ := List.cons.inj hs
    exact rest
  | tag mem rest =>
    obtain ⟨name, rfl, -⟩ := (htags _ mem).exists_name
    exact absurd (List.cons.inj hs).1 hc

/-- A last character that ends no tag is taken off. -/
theorem unsnoc (h : Woven tags (s ++ [c])) (hc : c ≠ '>') : Woven tags s := by
  generalize hx : s ++ [c] = x at h
  induction h generalizing s with
  | nil => simp at hx
  | @char d x plain rest ih =>
    cases s with
    | nil => exact .nil
    | cons e s =>
      obtain ⟨rfl, hbehind⟩ := List.cons.inj hx
      exact .char plain (ih hbehind)
  | @tag t x mem rest ih =>
    rcases List.eq_nil_or_concat x with rfl | ⟨x, d, rfl⟩
    · obtain ⟨name, rfl, -⟩ := (htags _ mem).exists_name
      rw [List.append_nil, ← List.cons_append] at hx
      exact absurd (List.append_inj_right' hx rfl) (by simpa using hc)
    · rw [List.concat_eq_append, ← List.append_assoc] at hx
      obtain ⟨rfl, hd⟩ := List.append_inj' hx rfl
      exact .tag mem (ih (by rw [List.concat_eq_append, hd]))

/-- A text that ends no tag is taken off the end. -/
theorem left (h : Woven tags (s ++ t)) (ht : '>' ∉ t) : Woven tags s := by
  induction t using List.reverseRecOn with
  | nil => rwa [List.append_nil] at h
  | append_singleton t c ih =>
    rw [List.mem_append, not_or, List.mem_singleton] at ht
    rw [← List.append_assoc] at h
    exact ih (h.unsnoc htags (Ne.symm ht.2)) ht.1

theorem dropWhile {p : Char → Bool} (h : Woven tags s) (hp : p '<' = false) :
    Woven tags (s.dropWhile p) := by
  induction s with
  | nil => exact h
  | cons c s ih =>
    rw [List.dropWhile_cons]
    split
    · rename_i hc
      refine ih (h.uncons htags ?_)
      rintro rfl
      rw [hp] at hc
      cases hc
    · exact h

theorem rdropWhile {p : Char → Bool} (h : Woven tags s) (hp : p '>' = false) :
    Woven tags (s.rdropWhile p) := by
  induction s using List.reverseRecOn with
  | nil => exact h
  | append_singleton s c ih =>
    by_cases hc : p c = true
    · rw [List.rdropWhile_concat_pos p s c hc]
      refine ih (h.unsnoc htags ?_)
      rintro rfl
      rw [hp] at hc
      cases hc
    · rw [List.rdropWhile_concat_neg p s c hc]
      exact h

/-! ## Deleting the tags -/

/-- **A tag that is deleted is not there any more**, and the others are. -/
theorem delete (h : Woven tags s) (ht : IsTag t) :
    Woven (tags.filter (· ≠ t)) (Text.replace s t []) := by
  induction h with
  | nil => exact .nil
  | @char c s plain rest ih =>
    have hc : '<' ∉ [c] := by
      rw [List.mem_singleton]
      rintro rfl
      cases plain
    obtain ⟨name, rfl, -⟩ := ht.exists_name
    have hbehind := @replace_front [c] ('<' :: (name ++ ['>'])) [] s '<' rfl hc
    rw [List.singleton_append, List.singleton_append] at hbehind
    rw [hbehind]
    exact .char plain ih
  | @tag u s mem rest ih =>
    by_cases hu : u = t
    · subst hu
      obtain ⟨name, hname, -⟩ := (htags u mem).exists_name
      rw [replace_self (by rw [hname]; exact List.cons_ne_nil _ _)]
      exact ih
    · rw [replace_other ht (htags u mem) hu]
      exact .tag (List.mem_filter.mpr ⟨mem, by simpa using hu⟩) ih

/-- **When every tag is deleted, no angle bracket is left.** -/
theorem all_deleteAll {order : List Text} (h : Woven tags s) (horder : ∀ t ∈ order, IsTag t)
    (hall : ∀ t ∈ tags, t ∈ order) : (deleteAll order s).all isPlainChar = true := by
  induction order generalizing tags s with
  | nil =>
    induction h with
    | nil => rfl
    | char plain _ ih => exact Bool.and_eq_true_iff.mpr ⟨plain, ih⟩
    | tag mem _ _ => cases hall _ mem
  | cons t order ih =>
    obtain ⟨ht, horder⟩ := List.forall_mem_cons.mp horder
    refine ih (fun u hu => htags u (List.mem_filter.mp hu).1) (h.delete htags ht) horder ?_
    intro u hu
    obtain ⟨hu, hne⟩ := List.mem_filter.mp hu
    exact (List.mem_cons.mp (hall u hu)).resolve_left (by simpa using hne)

end Woven

end OmniCare
