import Mathlib.Data.List.Basic
import Mathlib.Data.List.Induction
import Mathlib.Data.List.Nodup
import Mathlib.Data.List.Perm.Basic

/-! # Lists of entries with a key

Two ways to write a batch of entries into a list of them.  `upsertIndexed` computes once where each
key stands and replaces what stands there; an entry with a new key is added, and so is a second one
with the same new key.  `upsertAll` replaces or adds one entry after the other.

What has become of a key is read off the entries that have it (`withKey`).  `upserts_perm_iff` says
after which batches the list holds exactly the entries of the last one, for either way.
-/
namespace OmniCare.Keyed

variable {α κ : Type*} [DecidableEq κ] (key : α → κ)

/-! ## Entries with a key -/

/-- The entries that have a key. -/
def withKey (k : κ) (l : List α) : List α := l.filter fun e => key e = k

/-- The index of the last entry that has a key. -/
def lastIndex (k : κ) : List α → Option Nat
  | [] => none
  | e :: l =>
      match lastIndex k l with
      | some i => some (i + 1)
      | none => if key e = k then some 0 else none

/-- Puts an entry where its key stands, or at the end. -/
def place (index : κ → Option Nat) (l : List α) (e : α) : List α :=
  match index (key e) with
  | some i => l.set i e
  | none => l ++ [e]

/-- Writes a batch, by an index of the keys that is computed once. -/
def upsertIndexed (l batch : List α) : List α :=
  batch.foldl (place key fun k => lastIndex key k l) l

/-- Writes an entry: those with its key are replaced, or it is added. -/
def put (l : List α) (e : α) : List α :=
  if l.any fun x => key x = key e then l.map fun x => if key x = key e then e else x
  else l ++ [e]

/-- Writes a batch, one entry after the other. -/
def upsertAll (l batch : List α) : List α := batch.foldl (put key) l

variable {key}

@[simp] theorem withKey_nil (k : κ) : withKey key k [] = [] := rfl

@[simp] theorem withKey_append (k : κ) (l l' : List α) :
    withKey key k (l ++ l') = withKey key k l ++ withKey key k l' := List.filter_append ..

theorem withKey_cons_self {e : α} (l : List α) :
    withKey key (key e) (e :: l) = e :: withKey key (key e) l := by simp [withKey]

theorem withKey_cons_ne {k : κ} {e : α} (h : key e ≠ k) (l : List α) :
    withKey key k (e :: l) = withKey key k l := by simp [withKey, h]

theorem withKey_eq_nil {k : κ} {l : List α} : withKey key k l = [] ↔ ∀ e ∈ l, key e ≠ k := by
  simp [withKey]

theorem mem_of_mem_withKey {k : κ} {l : List α} {e : α} (h : e ∈ withKey key k l) : e ∈ l :=
  (List.mem_filter.mp h).1

theorem withKey_map {β : Type*} (f : β → α) (k : κ) (l : List β) :
    withKey key k (l.map f) = (withKey (key ∘ f) k l).map f := List.filter_map ..

variable (key) in
/-- Two lists are permutations of each other if they are so key by key. -/
theorem perm_iff_withKey {l l' : List α} :
    l.Perm l' ↔ ∀ k, (withKey key k l).Perm (withKey key k l') := by
  classical
  constructor
  · exact fun h k => h.filter _
  · intro h
    rw [List.perm_iff_count]
    intro e
    have hcount := (h (key e)).count_eq e
    have hfilter : ∀ l : List α, (withKey key (key e) l).count e = l.count e :=
      fun l => List.count_filter (by simp)
    rwa [hfilter, hfilter] at hcount

/-! ## Writing by an index -/

theorem lastIndex_eq_none {k : κ} {l : List α} :
    lastIndex key k l = none ↔ withKey key k l = [] := by
  induction l with
  | nil => simp [lastIndex]
  | cons e l ih =>
    rw [lastIndex]
    by_cases he : key e = k
    · subst he
      rw [withKey_cons_self]
      cases lastIndex key (key e) l <;> simp
    · rw [withKey_cons_ne he, ← ih]
      cases lastIndex key k l <;> simp [he]

/-- The entry at the last index of a key has it, and none after it does. -/
theorem exists_of_lastIndex {k : κ} {l : List α} {i : Nat} (h : lastIndex key k l = some i) :
    ∃ before e after, l = before ++ e :: after ∧ before.length = i ∧ key e = k ∧
      withKey key k after = [] := by
  induction l generalizing i with
  | nil => cases h
  | cons e l ih =>
    rw [lastIndex] at h
    cases hrest : lastIndex key k l with
    | some j =>
      rw [hrest] at h
      cases h
      obtain ⟨before, x, after, rfl, rfl, hx, hafter⟩ := ih hrest
      exact ⟨e :: before, x, after, rfl, rfl, hx, hafter⟩
    | none =>
      rw [hrest] at h
      dsimp only at h
      split at h
      · rename_i he
        cases h
        exact ⟨[], e, l, rfl, rfl, he, lastIndex_eq_none.mp hrest⟩
      · cases h

/-- What an index of the keys of `l` makes of a key: an old one has its last entry replaced, a new
one has the entries of the batch. -/
def updated (old new : List α) : List α :=
  if old = [] then new
  else
    match new.getLast? with
    | none => old
    | some e => old.dropLast ++ [e]

theorem updated_nil_right (old : List α) : updated old [] = old := by
  unfold updated
  split
  · rename_i h
    exact h.symm
  · rfl

theorem dropLast_updated {old : List α} (h : old ≠ []) (new : List α) :
    (updated old new).dropLast = old.dropLast := by
  unfold updated
  rw [if_neg h]
  cases new.getLast? with
  | none => rfl
  | some e => exact List.dropLast_concat

theorem updated_concat {old : List α} (h : old ≠ []) (new : List α) (e : α) :
    updated old (new ++ [e]) = old.dropLast ++ [e] := by
  unfold updated
  rw [if_neg h, List.getLast?_concat]

/-- The list while a batch is being written by an index of the keys of `l`. -/
structure Indexed (key : α → κ) (l written s : List α) : Prop where
  parts : ∃ old new, s = old ++ new ∧ old.map key = l.map key ∧
    ∀ e ∈ new, withKey key (key e) l = []
  entries : ∀ k, withKey key k s = updated (withKey key k l) (withKey key k written)

theorem withKey_eq_nil_of_map {k : κ} {l l' : List α} (h : l.map key = l'.map key)
    (hnil : withKey key k l' = []) : withKey key k l = [] := by
  rw [withKey_eq_nil] at hnil ⊢
  intro e he hk
  have hmem : key e ∈ l'.map key := h ▸ List.mem_map_of_mem he
  obtain ⟨e', he', heq⟩ := List.mem_map.mp hmem
  exact hnil e' he' (heq.trans hk)

/-- **Writing one more entry.** -/
theorem Indexed.place {l written s : List α} (h : Indexed key l written s) (e : α) :
    Indexed key l (written ++ [e]) (place key (fun k => lastIndex key k l) s e) := by
  obtain ⟨old, new, rfl, hold, hnew⟩ := h.parts
  unfold Keyed.place
  dsimp only
  cases hindex : lastIndex key (key e) l with
  | none =>
    -- a new key: the entry is added
    have hnil := lastIndex_eq_none.mp hindex
    refine ⟨⟨old, new ++ [e], List.append_assoc .., hold, fun x hx => ?_⟩, fun k => ?_⟩
    · rcases List.mem_append.mp hx with hx | hx
      · exact hnew x hx
      · rw [List.mem_singleton.mp hx]
        exact hnil
    · dsimp only
      rw [withKey_append, h.entries, withKey_append]
      by_cases hk : key e = k
      · subst hk
        rw [hnil]
        rfl
      · rw [withKey_cons_ne hk, withKey_nil, List.append_nil, List.append_nil]
  | some i =>
    -- an old key: its last entry is replaced
    obtain ⟨before, x, after, hl, rfl, hx, hafter⟩ := exists_of_lastIndex hindex
    rw [hl, List.map_append] at hold
    obtain ⟨before', rest', rfl, hbefore, hrest⟩ := List.map_eq_append_iff.mp hold
    obtain ⟨x', after', rfl, hx', hafter'⟩ := List.map_eq_cons_iff.mp hrest
    have hx' : key x' = key e := hx'.trans hx
    have hlength : before'.length = before.length := by
      simpa using congrArg List.length hbefore
    have hset : (before' ++ x' :: after' ++ new).set before.length e =
        before' ++ e :: (after' ++ new) := by
      rw [List.append_assoc, ← hlength, List.set_append_right _ _ (Nat.le_refl _), Nat.sub_self]
      rfl
    have hold' : withKey key (key e) l ≠ [] := by
      rw [hl, withKey_append, ← hx, withKey_cons_self]
      simp
    have hrest : withKey key (key e) (after' ++ new) = [] := by
      rw [withKey_append, withKey_eq_nil_of_map hafter' hafter, List.nil_append, withKey_eq_nil]
      intro y hy hk
      exact hold' (hk ▸ hnew y hy)
    dsimp only
    rw [hset]
    refine ⟨⟨before' ++ e :: after', new, by simp, ?_, hnew⟩, fun k => ?_⟩
    · simp only [hl, List.map_append, List.map_cons, hbefore, hafter', hx]
    · have hentries := h.entries k
      rw [List.append_assoc, List.cons_append, withKey_append] at hentries
      rw [withKey_append _ before', withKey_append _ written]
      by_cases hk : key e = k
      · subst hk
        have hlast : withKey key (key e) (x' :: (after' ++ new)) = [x'] := by
          have hself : withKey key (key x') (x' :: (after' ++ new)) = _ := withKey_cons_self _
          rwa [hx', hrest] at hself
        have hfirst : withKey key (key e) before' = (withKey key (key e) l).dropLast := by
          rw [hlast] at hentries
          rw [← dropLast_updated hold', ← hentries, List.dropLast_concat]
        rw [withKey_cons_self, hrest, withKey_cons_self, withKey_nil, updated_concat hold', hfirst]
      · have hne : key x' ≠ k := by
          rw [hx']
          exact hk
        rw [withKey_cons_ne hk, withKey_cons_ne hk, withKey_nil, List.append_nil, ← hentries,
          withKey_cons_ne hne]

/-- **What a batch that is written by an index leaves of a key.** -/
theorem withKey_upsertIndexed (k : κ) (l batch : List α) :
    withKey key k (upsertIndexed key l batch) =
      updated (withKey key k l) (withKey key k batch) := by
  have indexed : ∀ rest written s, Indexed key l written s →
      Indexed key l (written ++ rest) (rest.foldl (place key fun k => lastIndex key k l) s) := by
    intro rest
    induction rest with
    | nil => exact fun written s h => (List.append_nil written).symm ▸ h
    | cons e rest ih =>
      intro written s h
      have hrest := ih _ _ (h.place e)
      rwa [List.append_assoc] at hrest
  have initial : Indexed key l [] l :=
    ⟨⟨l, [], (List.append_nil l).symm, rfl, nofun⟩, fun k => (updated_nil_right _).symm⟩
  exact (indexed batch [] l initial).entries k

/-! ## Writing one entry after the other -/

theorem withKey_put {l : List α} (hl : ∀ k, (withKey key k l).length ≤ 1) (e : α) (k : κ) :
    withKey key k (put key l e) = if key e = k then [e] else withKey key k l := by
  -- what is written over keeps its key
  have hmap : ∀ l : List α, withKey key k (l.map fun x => if key x = key e then e else x) =
      (withKey key k l).map fun x => if key x = key e then e else x := by
    intro l
    unfold withKey
    rw [List.filter_map]
    congr 1
    refine List.filter_congr fun x _ => ?_
    by_cases hx : key x = key e
    · simp [hx]
    · simp [hx]
  unfold put
  split
  · rename_i hany
    rw [hmap]
    by_cases hk : key e = k
    · subst hk
      rw [if_pos rfl]
      obtain ⟨x, hx, hkey⟩ := List.any_eq_true.mp hany
      have hkey : key x = key e := by simpa using hkey
      have hmem : x ∈ withKey key (key e) l := List.mem_filter.mpr ⟨hx, by simpa using hkey⟩
      obtain ⟨y, hy⟩ := List.length_eq_one_iff.mp
        (Nat.le_antisymm (hl (key e)) (List.length_pos_of_mem hmem))
      rw [hy, List.mem_singleton] at hmem
      rw [hy, ← hmem, List.map_singleton, if_pos hkey]
    · rw [if_neg hk]
      refine (List.map_congr_left fun x hx => if_neg fun hxe => hk ?_).trans (List.map_id _)
      have hxk : key x = k := by simpa using (List.mem_filter.mp hx).2
      rw [← hxe, hxk]
  · rename_i hany
    have hnone : withKey key (key e) l = [] := by
      rw [withKey_eq_nil]
      intro x hx hxe
      exact hany (List.any_eq_true.mpr ⟨x, hx, by simpa using hxe⟩)
    rw [withKey_append]
    by_cases hk : key e = k
    · subst hk
      rw [if_pos rfl, hnone, withKey_cons_self]
      rfl
    · rw [if_neg hk, withKey_cons_ne hk, withKey_nil, List.append_nil]

theorem withKey_put_length {l : List α} (hl : ∀ k, (withKey key k l).length ≤ 1) (e : α) (k : κ) :
    (withKey key k (put key l e)).length ≤ 1 := by
  rw [withKey_put hl]
  split
  · exact Nat.le_refl 1
  · exact hl k

/-- **What a batch that is written entry by entry leaves of a key**: the last entry that has it. -/
theorem withKey_upsertAll {l : List α} (hl : ∀ k, (withKey key k l).length ≤ 1) (batch : List α)
    (k : κ) :
    withKey key k (upsertAll key l batch) =
      ((withKey key k batch).getLast?.map ([·])).getD (withKey key k l) := by
  unfold upsertAll
  induction batch generalizing l with
  | nil => rfl
  | cons e batch ih =>
    rw [List.foldl_cons, ih (withKey_put_length hl e), withKey_put hl]
    by_cases hk : key e = k
    · subst hk
      rw [if_pos rfl, withKey_cons_self]
      cases hbatch : withKey key (key e) batch with
      | nil => rfl
      | cons x xs =>
        rw [List.getLast?_cons_cons, List.getLast?_cons]
        rfl
    · rw [if_neg hk, withKey_cons_ne hk]

/-- Entries written as they are, or with a key of their own beside them. -/
theorem upsertAll_map {β : Type*} (f : β → α) (l batch : List β) :
    upsertAll key (l.map f) (batch.map f) = (upsertAll (key ∘ f) l batch).map f := by
  have hput : ∀ (l : List β) e, put key (l.map f) (f e) = (put (key ∘ f) l e).map f := by
    intro l e
    unfold put
    simp only [List.any_map, List.map_map, Function.comp_def]
    split
    · rw [List.map_map]
      refine List.map_congr_left fun x _ => ?_
      simp only [Function.comp_apply]
      split <;> rfl
    · rw [List.map_append, List.map_singleton]
  unfold upsertAll
  induction batch generalizing l with
  | nil => rfl
  | cons e batch ih => rw [List.map_cons, List.foldl_cons, List.foldl_cons, hput, ih]

/-! ## Batch after batch -/

variable (key) in
/-- What batches written by an index have left of a key: of the first batch that has it, all entries
but the last. -/
theorem withKey_indexed (k : κ) (batches : List (List α)) :
    match batches.find? fun b => withKey key k b ≠ [] with
    | none => withKey key k (batches.foldl (upsertIndexed key) []) = []
    | some first => ∃ e,
        withKey key k (batches.foldl (upsertIndexed key) []) =
          (withKey key k first).dropLast ++ [e] := by
  induction batches using List.reverseRecOn with
  | nil => rfl
  | append_singleton batches b ih =>
    rw [List.find?_append, List.foldl_append, List.foldl_cons, List.foldl_nil]
    cases hfirst : batches.find? fun b => withKey key k b ≠ [] with
    | none =>
      rw [hfirst] at ih
      dsimp only at ih
      rw [Option.none_or, List.find?_singleton]
      by_cases hb : withKey key k b = []
      · simp [hb, withKey_upsertIndexed, ih, updated]
      · simp only [hb, ne_eq, not_false_iff, decide_true, if_true]
        refine ⟨(withKey key k b).getLast hb, ?_⟩
        rw [withKey_upsertIndexed, ih, List.dropLast_concat_getLast]
        rfl
    | some first =>
      rw [hfirst] at ih
      dsimp only at ih
      obtain ⟨e, he⟩ := ih
      rw [Option.some_or]
      dsimp only
      have hne : (withKey key k first).dropLast ++ [e] ≠ [] := by simp
      rw [withKey_upsertIndexed, he]
      rcases List.eq_nil_or_concat (withKey key k b) with hb | ⟨before, x, hb⟩
      · rw [hb, updated_nil_right]
        exact ⟨e, rfl⟩
      · rw [hb, List.concat_eq_append, updated_concat hne, List.dropLast_concat]
        exact ⟨x, rfl⟩

/-- **When batches written by an index leave exactly the last one**: no key of an earlier batch is
missing from it, and of the entries that share a key, all but the last are those of the first batch
that had the key. -/
theorem indexed_perm_iff (earlier : List (List α)) (last : List α) :
    ((earlier ++ [last]).foldl (upsertIndexed key) []).Perm last ↔
      ∀ k first, earlier.find? (fun b => withKey key k b ≠ []) = some first →
        withKey key k last ≠ [] ∧
          (withKey key k first).dropLast.Perm (withKey key k last).dropLast := by
  rw [perm_iff_withKey key, List.foldl_append, List.foldl_cons, List.foldl_nil]
  refine forall_congr' fun k => ?_
  have hearlier := withKey_indexed key k earlier
  rw [withKey_upsertIndexed]
  cases hfirst : earlier.find? fun b => withKey key k b ≠ [] with
  | none =>
    rw [hfirst] at hearlier
    dsimp only at hearlier
    rw [hearlier]
    exact ⟨fun _ => nofun, fun _ => List.Perm.refl _⟩
  | some first =>
    rw [hfirst] at hearlier
    obtain ⟨e, he⟩ := hearlier
    have hne : (withKey key k first).dropLast ++ [e] ≠ [] := by simp
    rw [he]
    rcases List.eq_nil_or_concat (withKey key k last) with hlast | ⟨before, x, hlast⟩
    · rw [hlast, updated_nil_right]
      constructor
      · exact fun h => absurd h.length_eq (by simp)
      · exact fun h => absurd rfl (h first rfl).1
    · rw [hlast, List.concat_eq_append, updated_concat hne, List.dropLast_concat,
        List.dropLast_concat, List.perm_append_right_iff]
      constructor
      · rintro h _ ⟨⟩
        exact ⟨by simp, h⟩
      · exact fun h => (h first rfl).2

/-- The last entry of a key, after batches written by an index, is the last one written. -/
theorem getLast?_indexed (k : κ) (batches : List (List α)) :
    (withKey key k (batches.foldl (upsertIndexed key) [])).getLast? =
      (withKey key k batches.flatten).getLast? := by
  induction batches using List.reverseRecOn with
  | nil => rfl
  | append_singleton batches b ih =>
    rw [List.foldl_append, List.foldl_cons, List.foldl_nil, withKey_upsertIndexed,
      List.flatten_append, List.flatten_singleton, withKey_append, List.getLast?_append, ← ih]
    unfold updated
    split
    · rename_i hnil
      rw [hnil, List.getLast?_nil, Option.or_none]
    · cases (withKey key k b).getLast? with
      | none => rfl
      | some e => exact List.getLast?_concat ..

/-- **When batches written by an index leave the last entry of each key**: the first batch that has
a key has it once. -/
theorem indexed_last_iff (batches : List (List α)) :
    (∀ k, withKey key k (batches.foldl (upsertIndexed key) []) =
        (withKey key k batches.flatten).getLast?.toList) ↔
      ∀ k first, batches.find? (fun b => withKey key k b ≠ []) = some first →
        (withKey key k first).length = 1 := by
  refine forall_congr' fun k => ?_
  have hleft := withKey_indexed key k batches
  have hlast : (withKey key k (batches.foldl (upsertIndexed key) [])).getLast? = _ :=
    getLast?_indexed k batches
  cases hfirst : batches.find? fun b => withKey key k b ≠ [] with
  | none =>
    rw [hfirst] at hleft
    dsimp only at hleft
    rw [hleft] at hlast ⊢
    rw [← hlast]
    exact ⟨fun _ => nofun, fun _ => rfl⟩
  | some first =>
    rw [hfirst] at hleft
    obtain ⟨e, he⟩ := hleft
    have hne : withKey key k first ≠ [] := by
      simpa using List.find?_some hfirst
    rw [he] at hlast ⊢
    rw [← hlast, List.getLast?_concat]
    -- one entry is left if the first batch has no other
    have hpos := List.length_pos_iff.mpr hne
    constructor
    · rintro h _ ⟨⟩
      have hlength := congrArg List.length h
      simp only [List.length_append, List.length_dropLast, List.length_singleton,
        Option.toList_some] at hlength
      omega
    · intro h
      have hnil : (withKey key k first).dropLast = [] :=
        List.length_eq_zero_iff.mp (by rw [List.length_dropLast, h first rfl])
      rw [hnil]
      rfl

/-- What batches written entry by entry have left of a key: one entry, if some batch has it. -/
theorem withKey_all (k : κ) (batches : List (List α)) :
    (withKey key k (batches.foldl (upsertAll key) [])).length ≤ 1 ∧
      (withKey key k (batches.foldl (upsertAll key) []) = [] ↔
        ∀ b ∈ batches, withKey key k b = []) := by
  have each : ∀ batches : List (List α), ∀ k,
      (withKey key k (batches.foldl (upsertAll key) [])).length ≤ 1 := by
    intro batches
    induction batches using List.reverseRecOn with
    | nil => exact fun _ => Nat.zero_le 1
    | append_singleton batches b ih =>
      intro k
      rw [List.foldl_append, List.foldl_cons, List.foldl_nil, withKey_upsertAll ih]
      cases (withKey key k b).getLast? with
      | none => exact ih k
      | some e => exact Nat.le_refl 1
  refine ⟨each batches k, ?_⟩
  induction batches using List.reverseRecOn with
  | nil => simp
  | append_singleton batches b ih =>
    rw [List.foldl_append, List.foldl_cons, List.foldl_nil, withKey_upsertAll (each batches)]
    rcases List.eq_nil_or_concat (withKey key k b) with hb | ⟨before, x, hb⟩
    · rw [hb]
      simp only [List.getLast?_nil, Option.map_none, Option.getD_none, ih, List.mem_append,
        List.mem_singleton, or_imp, forall_and, forall_eq, hb, and_true]
    · rw [hb, List.concat_eq_append, List.getLast?_concat]
      simp [hb]

theorem nodup_map_iff {l : List α} :
    (l.map key).Nodup ↔ ∀ k, (withKey key k l).length ≤ 1 := by
  rw [List.nodup_iff_count_le_one]
  refine forall_congr' fun k => ?_
  have hcount : (l.map key).count k = (withKey key k l).length := by
    rw [List.count_eq_length_filter, List.filter_map, List.length_map]
    rfl
  rw [hcount]

variable (key) in
/-- **When batches written entry by entry leave exactly the last one**: its keys are distinct, and
no key of an earlier batch is missing from it. -/
theorem all_perm_iff (earlier : List (List α)) (last : List α) :
    ((earlier ++ [last]).foldl (upsertAll key) []).Perm last ↔
      (last.map key).Nodup ∧ ∀ b ∈ earlier, ∀ e ∈ b, key e ∈ last.map key := by
  have hkept : (∀ b ∈ earlier, ∀ e ∈ b, key e ∈ last.map key) ↔
      ∀ k, withKey key k last = [] → withKey key k (earlier.foldl (upsertAll key) []) = [] := by
    constructor
    · intro h k hlast
      rw [(withKey_all k earlier).2]
      intro b hb
      rw [withKey_eq_nil]
      intro e he hk
      obtain ⟨e', he', heq⟩ := List.mem_map.mp (h b hb e he)
      exact withKey_eq_nil.mp hlast e' he' (heq.trans hk)
    · intro h b hb e he
      by_contra hmem
      have hlast : withKey key (key e) last = [] := by
        rw [withKey_eq_nil]
        exact fun e' he' heq => hmem (List.mem_map.mpr ⟨e', he', heq⟩)
      have hnone := (withKey_all (key e) earlier).2.mp (h _ hlast) b hb
      exact withKey_eq_nil.mp hnone e he rfl
  rw [perm_iff_withKey key, hkept, nodup_map_iff, ← forall_and, List.foldl_append,
    List.foldl_cons, List.foldl_nil]
  refine forall_congr' fun k => ?_
  rw [withKey_upsertAll fun k => (withKey_all k earlier).1]
  rcases List.eq_nil_or_concat (withKey key k last) with hlast | ⟨before, x, hlast⟩
  · rw [hlast]
    simp
  · rw [hlast, List.concat_eq_append, List.getLast?_concat]
    have hright : ([] ++ [x]).Perm (before ++ [x]) ↔ List.Perm [] before :=
      List.perm_append_right_iff [x]
    have hperm : [x].Perm (before ++ [x]) ↔ before = [] := hright.trans List.nil_perm
    show [x].Perm (before ++ [x]) ↔ _
    rw [hperm]
    simp

/-! ## By another key -/

theorem length_withKey_nil (k : κ) : (withKey key k []).length ≤ 1 := Nat.zero_le 1

/-- The last entry that has a key. -/
theorem getLast?_withKey {k : κ} {l : List α} {e : α} :
    (withKey key k l).getLast? = some e ↔
      key e = k ∧ ∃ before after, l = before ++ e :: after ∧ ∀ x ∈ after, key x ≠ k := by
  unfold withKey
  rw [List.getLast?_eq_head?_reverse, ← List.filter_reverse, List.head?_filter,
    List.find?_eq_some_iff_append]
  simp only [decide_eq_true_eq, Bool.not_eq_true', decide_eq_false_iff_not]
  refine and_congr_right fun _ => ⟨?_, ?_⟩
  · rintro ⟨after, before, hl, hafter⟩
    refine ⟨before.reverse, after.reverse, ?_, fun x hx => hafter x (List.mem_reverse.mp hx)⟩
    rw [← List.reverse_reverse l, hl, List.reverse_append, List.reverse_cons, List.append_assoc]
    rfl
  · rintro ⟨before, after, rfl, hafter⟩
    exact ⟨after.reverse, before.reverse, by simp, fun x hx => hafter x (List.mem_reverse.mp hx)⟩

/-- What entry after entry has left: the last of each key. -/
theorem mem_upsertAll_nil {l : List α} {e : α} :
    e ∈ upsertAll key [] l ↔
      ∃ before after, l = before ++ e :: after ∧ ∀ x ∈ after, key x ≠ key e := by
  have hkey : withKey key (key e) (upsertAll key [] l) = _ :=
    withKey_upsertAll length_withKey_nil l (key e)
  have hlast : (withKey key (key e) l).getLast? = some e ↔ _ := getLast?_withKey
  rw [and_iff_right rfl] at hlast
  have hmem : e ∈ upsertAll key [] l ↔ e ∈ withKey key (key e) (upsertAll key [] l) := by
    simp [withKey]
  rw [← hlast, hmem, hkey]
  cases (withKey key (key e) l).getLast? with
  | none => exact ⟨nofun, nofun⟩
  | some x => exact List.mem_singleton.trans ⟨fun h => h ▸ rfl, fun h => (Option.some.inj h).symm⟩

theorem mem_of_mem_upsertAll_nil {l : List α} {e : α} (h : e ∈ upsertAll key [] l) : e ∈ l := by
  obtain ⟨before, after, rfl, -⟩ := mem_upsertAll_nil.mp h
  exact List.mem_append_right _ List.mem_cons_self

theorem length_withKey_upsertAll_nil (l : List α) (k : κ) :
    (withKey key k (upsertAll key [] l)).length ≤ 1 := by
  rw [withKey_upsertAll length_withKey_nil]
  cases (withKey key k l).getLast? with
  | none => exact Nat.zero_le 1
  | some e => exact Nat.le_refl 1

variable {κ' : Type*} [DecidableEq κ'] {key' : α → κ'}

variable (key key') in
/-- An entry is the last of its one key exactly if it is the last of its other one. -/
def LastAlike (l : List α) : Prop :=
  ∀ before e after, l = before ++ e :: after →
    ((∀ x ∈ after, key x ≠ key e) ↔ ∀ x ∈ after, key' x ≠ key' e)

omit [DecidableEq κ] [DecidableEq κ'] in
theorem lastAlike_map {β : Type*} (f : β → α) (l : List β) :
    LastAlike key key' (l.map f) ↔ LastAlike (key ∘ f) (key' ∘ f) l := by
  constructor
  · intro h before e after hl
    have := h (before.map f) (f e) (after.map f) (by rw [hl, List.map_append, List.map_cons])
    simpa only [List.forall_mem_map, Function.comp_apply] using this
  · intro h before e after hl
    obtain ⟨before, rest, rfl, rfl, hrest⟩ := List.map_eq_append_iff.mp hl
    obtain ⟨e, after, rfl, rfl, rfl⟩ := List.map_eq_cons_iff.mp hrest
    simpa only [List.forall_mem_map, Function.comp_apply] using h before e after rfl

omit [DecidableEq κ] [DecidableEq κ'] in
/-- Keys that go together. -/
theorem lastAlike_of_iff {l : List α} (h : ∀ x ∈ l, ∀ y ∈ l, key x = key y ↔ key' x = key' y) :
    LastAlike key key' l := by
  rintro before e after rfl
  have he : e ∈ before ++ e :: after := List.mem_append_right _ List.mem_cons_self
  refine forall₂_congr fun x hx => not_congr (h x ?_ e he)
  exact List.mem_append_right _ (List.mem_cons_of_mem _ hx)

/-- **Written by one key, the list has the last entry of each other key**, if the last entries are
the same. -/
theorem withKey_of_lastAlike {l : List α} (h : LastAlike key key' l) (k : κ') :
    withKey key' k (upsertAll key [] l) = (withKey key' k l).getLast?.toList := by
  -- what is left is the last entry of its other key
  have hleft : ∀ e ∈ withKey key' k (upsertAll key [] l),
      (withKey key' k l).getLast? = some e := by
    intro e he
    obtain ⟨hmem, hk⟩ := List.mem_filter.mp he
    have hk : key' e = k := of_decide_eq_true hk
    obtain ⟨before, after, hl, hafter⟩ := mem_upsertAll_nil.mp hmem
    rw [getLast?_withKey, ← hk]
    exact ⟨rfl, before, after, hl, (h before e after hl).mp hafter⟩
  cases hlast : (withKey key' k l).getLast? with
  | none =>
    refine List.eq_nil_iff_forall_not_mem.mpr fun e he => ?_
    have := hleft e he
    rw [hlast] at this
    cases this
  | some e =>
    obtain ⟨hk, before, after, hl, hafter⟩ := getLast?_withKey.mp hlast
    have hmem : e ∈ upsertAll key [] l :=
      mem_upsertAll_nil.mpr ⟨before, after, hl, (h before e after hl).mpr (hk ▸ hafter)⟩
    have hall : ∀ x ∈ withKey key' k (upsertAll key [] l), x = e := by
      intro x hx
      have := hleft x hx
      rw [hlast] at this
      exact (Option.some.inj this).symm
    -- and it is there once
    have hsub : (withKey key' k (upsertAll key [] l)).Sublist
        (withKey key (key e) (upsertAll key [] l)) := by
      have hself : (withKey key' k (upsertAll key [] l)).filter (fun x => key x = key e) =
          withKey key' k (upsertAll key [] l) :=
        List.filter_eq_self.mpr fun x hx => by simp [hall x hx]
      rw [← hself]
      exact List.filter_sublist.filter _
    have hone : (withKey key' k (upsertAll key [] l)).length ≤ 1 :=
      Nat.le_trans hsub.length_le (length_withKey_upsertAll_nil l (key e))
    have hin : e ∈ withKey key' k (upsertAll key [] l) :=
      List.mem_filter.mpr ⟨hmem, decide_eq_true hk⟩
    obtain ⟨x, hx⟩ := List.length_eq_one_iff.mp
      (Nat.le_antisymm hone (List.length_pos_of_mem hin))
    rw [hx, List.mem_singleton] at hin
    rw [hx, ← hin]
    rfl

/-- **And only then**, for entries that all differ. -/
theorem lastAlike_of_withKey {l : List α} (hl : l.Nodup)
    (h : ∀ k, withKey key' k (upsertAll key [] l) = (withKey key' k l).getLast?.toList) :
    LastAlike key key' l := by
  -- an entry stands in one place only
  have place : ∀ {before after before' after' : List α} {e : α},
      l = before ++ e :: after → l = before' ++ e :: after' → after = after' := by
    intro before after before' after' e h h'
    have apart : ∀ {b a : List α}, l = b ++ e :: a → e ∉ b ∧ e ∉ a := by
      intro b a hsplit
      rw [hsplit, List.nodup_append, List.nodup_cons] at hl
      exact ⟨fun he => hl.2.2 e he e List.mem_cons_self rfl, hl.2.1.1⟩
    exact ((List.append_cons_inj_of_notMem (apart h').1 (apart h').2).mp (h'.symm.trans h)).2.2.symm
  intro before e after hsplit
  have hmem : e ∈ upsertAll key [] l ↔ (withKey key' (key' e) l).getLast? = some e := by
    rw [← Option.mem_toList, ← h (key' e)]
    simp [withKey]
  rw [mem_upsertAll_nil, getLast?_withKey, and_iff_right rfl] at hmem
  constructor
  · intro hafter
    obtain ⟨_, _, hsplit', hafter'⟩ := hmem.mp ⟨before, after, hsplit, hafter⟩
    rwa [place hsplit hsplit']
  · intro hafter
    obtain ⟨_, _, hsplit', hafter'⟩ := hmem.mpr ⟨before, after, hsplit, hafter⟩
    rwa [place hsplit hsplit']

end OmniCare.Keyed
