import OmniCare.Preferring

/-! # Runs of a character class

A scan for `[...]+` finds the runs of the class, each as long as it goes.  `outline` is what such a
scan makes of a text: the characters outside the class, and one mark for each run.  `re.split` and
`re.sub` are read off it, a word and a run at a time.
-/
namespace OmniCare.Regex

variable {p : Char → Bool}

/-! ## The scan -/

theorem solid_plus_char (p : Char → Bool) : (plus (char p)).Solid := by
  intro w v hv
  obtain ⟨t, ht, hpasses, -⟩ := mem_run_rep_char.mp hv
  have hlength : w.cursor.after.length = t.length + v.cursor.after.length := by
    rw [hpasses.1, List.length_append]
  have hpos : 1 ≤ t.length := ht.1
  omega

/-- A run is matched as a whole. -/
theorem matchAt_plus_char {x : Char} (hx : p x = true) (before rest : Text) :
    ∃ m, (plus (char p)).matchAt ⟨before, x :: rest⟩ = some m ∧
      m.way.cursor.after = rest.dropWhile p := by
  have hmatch := Prefers.plus (t := x :: rest.takeWhile p) (List.cons_ne_nil _ _)
    (by rw [List.all_cons, hx, Bool.true_and]; exact List.all_takeWhile)
    (head_dropWhile p rest) |>.matchAt before
  rw [List.cons_append, List.takeWhile_append_dropWhile] at hmatch
  exact ⟨_, hmatch, rfl⟩

/-- Nothing is matched outside a run. -/
theorem matchAt_plus_char_none {c : Cursor} (hc : c.after.head?.any p = false) :
    (plus (char p)).matchAt c = none := by
  by_contra hsome
  obtain ⟨m, hm⟩ := Option.ne_none_iff_exists'.mp hsome
  obtain ⟨t, ht, hpasses, -⟩ := mem_run_rep_char.mp (matchAt_mem hm)
  cases t with
  | nil => exact absurd ht.1 (by decide)
  | cons x t =>
    rw [hpasses.1, List.cons_append, List.head?_cons, Option.any_some,
      List.all_eq_true.mp ht.all x List.mem_cons_self] at hc
    cases hc

/-- What a scan for `p+` makes of a text, with a mark for each run; `inside` is whether the run
before is still going on. -/
def outline (p : Char → Bool) (inside : Bool) : Text → List (Option Char)
  | [] => []
  | c :: s =>
      if p c then (if inside then outline p true s else none :: outline p true s)
      else some c :: outline p false s

/-- The character of a gap, or the mark of a match. -/
def Piece.mark : Piece → Option Char
  | .gap c => some c
  | .hit _ => none

/-- Behind a run it does not matter that there was one. -/
theorem outline_dropWhile (s : Text) :
    outline p true s = outline p false (s.dropWhile p) := by
  induction s with
  | nil => rfl
  | cons c s ih =>
    cases hc : p c with
    | true => simp [outline, hc, ih]
    | false => simp [outline, hc]

theorem scanFrom_plus_char {fuel : Nat} {fresh : Bool} {c : Cursor}
    (h : c.after.length < fuel) :
    ((plus (char p)).scanFrom fuel fresh c).map Piece.mark = outline p false c.after := by
  induction fuel generalizing fresh c with
  | zero => exact absurd h (Nat.not_lt_zero _)
  | succ fuel ih =>
    obtain ⟨before, after⟩ := c
    rw [(solid_plus_char p).scanFrom_succ]
    cases after with
    | nil => rw [matchAt_plus_char_none rfl]; rfl
    | cons x rest =>
      have hlength : rest.length < fuel := Nat.lt_of_succ_lt_succ h
      cases hx : p x with
      | true =>
        obtain ⟨m, hm, hrest⟩ := matchAt_plus_char hx before rest
        have hdrop := (List.dropWhile_sublist (l := rest) p).length_le
        have hlater : ((plus (char p)).scanFrom fuel true m.way.cursor).map Piece.mark =
            outline p false m.way.cursor.after := ih (by rw [hrest]; omega)
        rw [hm, List.map_cons, hlater, hrest, outline, hx, ← outline_dropWhile]
        rfl
      | false =>
        have hlater : ((plus (char p)).scanFrom fuel true ⟨x :: before, rest⟩).map Piece.mark =
            outline p false rest := ih hlength
        have hnone := matchAt_plus_char_none (c := ⟨before, x :: rest⟩) hx
        rw [hnone, outline, hx, ← hlater]
        rfl

theorem scan_plus_char (s : Text) :
    ((plus (char p)).scan s).map Piece.mark = outline p false s :=
  scanFrom_plus_char (by show s.length < 2 * s.length + 2; omega)

/-! ## A word and a run at a time -/

theorem outline_of_none {w : Text} (hw : w.any p = false) (inside : Bool) :
    outline p inside w = w.map some := by
  induction w generalizing inside with
  | nil => rfl
  | cons c w ih =>
    rw [List.any_cons, Bool.or_eq_false_iff] at hw
    simp [outline, hw.1, ih hw.2]

/-- **A word, a run and the rest**, which does not go on with the run. -/
theorem outline_append {w g s : Text} (hw : w.any p = false) (hne : g ≠ []) (hg : g.all p = true)
    (hs : s.head?.any p = false) :
    outline p false (w ++ (g ++ s)) = w.map some ++ none :: outline p false s := by
  have hend : outline p true s = outline p false s := by
    cases s with
    | nil => rfl
    | cons c s =>
      have hc : p c = false := hs
      simp [outline, hc]
  have hrun : outline p true (g ++ s) = outline p true s := by
    clear hne
    induction g with
    | nil => rfl
    | cons c g ih =>
      rw [List.all_cons, Bool.and_eq_true] at hg
      simp [outline, hg.1, ih hg.2]
  induction w with
  | nil =>
    obtain ⟨c, g, rfl⟩ := List.exists_cons_of_ne_nil hne
    rw [List.all_cons, Bool.and_eq_true] at hg
    have htail : outline p true (g ++ s) = outline p true s := by
      simpa [outline, hg.1] using hrun
    simp [outline, hg.1, htail, hend]
  | cons c w ih =>
    rw [List.any_cons, Bool.or_eq_false_iff] at hw
    simp [outline, hw.1, ih hw.2]

/-- What `re.split` makes of an outline. -/
def splitOutline (marks : List (Option Char)) : List Text :=
  marks.foldr (fun mark acc =>
      match mark, acc with
      | none, acc => [] :: acc
      | some c, w :: ws => (c :: w) :: ws
      | some c, [] => [[c]]) [[]]

theorem split_eq_splitOutline (r : Regex) (s : Text) :
    r.split s = splitOutline ((r.scan s).map Piece.mark) := by
  unfold split splitOutline
  rw [List.foldr_map]
  congr 1
  funext x acc
  cases x with
  | gap c => cases acc <;> rfl
  | hit m => rfl

theorem splitOutline_ne_nil (marks : List (Option Char)) : splitOutline marks ≠ [] := by
  cases marks with
  | nil => exact List.cons_ne_nil _ _
  | cons mark marks =>
    unfold splitOutline
    rw [List.foldr_cons]
    split <;> exact List.cons_ne_nil _ _

theorem splitOutline_append (w : Text) (marks : List (Option Char)) {v : Text} {vs : List Text}
    (h : splitOutline marks = v :: vs) :
    splitOutline (w.map some ++ marks) = (w ++ v) :: vs := by
  induction w with
  | nil => exact h
  | cons c w ih =>
    show List.foldr _ _ (some c :: (w.map some ++ marks)) = _
    rw [List.foldr_cons]
    show (match some c, splitOutline (w.map some ++ marks) with
      | none, acc => [] :: acc
      | some c, w :: ws => (c :: w) :: ws
      | some c, [] => [[c]]) = _
    rw [ih]
    rfl

/-- A text without a run is one word. -/
theorem split_of_none {w : Text} (hw : w.any p = false) : (plus (char p)).split w = [w] := by
  rw [split_eq_splitOutline, scan_plus_char, outline_of_none hw, ← List.append_nil (w.map some)]
  exact (splitOutline_append w [] rfl).trans (by rw [List.append_nil])

/-- **`re.split` cuts at a run.** -/
theorem split_append {w g s : Text} (hw : w.any p = false) (hne : g ≠ []) (hg : g.all p = true)
    (hs : s.head?.any p = false) :
    (plus (char p)).split (w ++ (g ++ s)) = w :: (plus (char p)).split s := by
  rw [split_eq_splitOutline, split_eq_splitOutline, scan_plus_char, scan_plus_char,
    outline_append hw hne hg hs, splitOutline_append w _ rfl, List.append_nil]
  rfl

theorem subText_eq (r : Regex) (new s : Text) :
    r.subText new s = ((r.scan s).map Piece.mark).flatMap fun mark =>
      match mark with
      | none => new
      | some c => [c] := by
  unfold subText sub
  rw [List.flatMap_map]
  congr 1
  funext x
  cases x <;> rfl

/-- A text without a run stays as it is. -/
theorem subText_of_none {w : Text} (hw : w.any p = false) (new : Text) :
    (plus (char p)).subText new w = w := by
  rw [subText_eq, scan_plus_char, outline_of_none hw, List.flatMap_map]
  exact List.flatMap_singleton' w

theorem subText_cons {c : Char} (hc : p c = false) (new s : Text) :
    (plus (char p)).subText new (c :: s) = c :: (plus (char p)).subText new s := by
  rw [subText_eq, subText_eq, scan_plus_char, scan_plus_char, outline, hc]
  rfl

/-- **`re.sub` replaces a run.** -/
theorem subText_append {w g s : Text} (hw : w.any p = false) (hne : g ≠ []) (hg : g.all p = true)
    (hs : s.head?.any p = false) (new : Text) :
    (plus (char p)).subText new (w ++ (g ++ s)) = w ++ (new ++ (plus (char p)).subText new s) := by
  rw [subText_eq, subText_eq, scan_plus_char, scan_plus_char, outline_append hw hne hg hs,
    List.flatMap_append, List.flatMap_cons, List.flatMap_map]
  exact congrArg (· ++ _) (List.flatMap_singleton' w)

end OmniCare.Regex

namespace OmniCare.Text

/-! ## Texts, a run at a time -/

/-- **Induction on the runs of a text**: a text without a run, or a word, a run and a text that does
not go on with the run. -/
theorem runs_induction (p : Char → Bool) {motive : Text → Prop}
    (word : ∀ w : Text, w.any p = false → motive w)
    (run : ∀ w g s : Text, w.any p = false → g ≠ [] → g.all p = true → s.head?.any p = false →
      motive s → motive (w ++ (g ++ s))) (s : Text) : motive s := by
  induction hn : s.length using Nat.strong_induction_on generalizing s with
  | _ n ih =>
    have hword : ∀ t : Text, (t.takeWhile (!p ·)).any p = false := by
      intro t
      rw [← Bool.not_eq_true, List.any_eq_true]
      rintro ⟨c, hc, hpc⟩
      have hnot := List.mem_takeWhile_imp hc
      rw [hpc] at hnot
      cases hnot
    have hsplit := List.takeWhile_append_dropWhile (p := (!p ·)) (l := s)
    cases hrest : s.dropWhile (!p ·) with
    | nil =>
      rw [hrest, List.append_nil] at hsplit
      rw [← hsplit]
      exact word _ (hword s)
    | cons c t =>
      have hc : p c = true := by
        have hhead := List.head?_dropWhile_not (!p ·) s
        rw [hrest] at hhead
        simpa using hhead
      have htail := List.takeWhile_append_dropWhile (p := p) (l := c :: t)
      rw [← hsplit, hrest, ← htail]
      refine run _ _ _ (hword s) ?_ List.all_takeWhile (head_dropWhile p _)
        (ih _ ?_ _ rfl)
      · rw [List.takeWhile_cons_of_pos hc]
        exact List.cons_ne_nil _ _
      · have hshort := (List.dropWhile_sublist (l := t) p).length_le
        have hlong := (List.dropWhile_sublist (l := s) (!p ·)).length_le
        rw [hrest, List.length_cons] at hlong
        rw [List.dropWhile_cons_of_pos hc]
        omega

/-! ## `str.split` -/

/-- The pieces between the blanks of a text, empty ones included. -/
def pieces (s : Text) : List Text :=
  s.foldr (fun c acc =>
      if isSpace c then [] :: acc
      else match acc with
        | [] => [[c]]
        | w :: ws => (c :: w) :: ws) [[]]

theorem words_eq_filter_pieces (s : Text) : words s = (pieces s).filter (!·.isEmpty) := rfl

theorem pieces_append {w : Text} (hw : w.any isSpace = false) {s v : Text} {vs : List Text}
    (hs : pieces s = v :: vs) : pieces (w ++ s) = (w ++ v) :: vs := by
  induction w with
  | nil => exact hs
  | cons c w ih =>
    rw [List.any_cons, Bool.or_eq_false_iff] at hw
    have hrest := ih hw.2
    unfold pieces at hrest ⊢
    rw [List.cons_append, List.foldr_cons, hrest, hw.1]
    rfl

theorem words_run {g : Text} (hg : g.all isSpace = true) (s : Text) : words (g ++ s) = words s := by
  induction g with
  | nil => rfl
  | cons c g ih =>
    rw [List.all_cons, Bool.and_eq_true] at hg
    have hpieces : pieces (c :: (g ++ s)) = [] :: pieces (g ++ s) := by
      simp [pieces, hg.1]
    rw [List.cons_append, words_eq_filter_pieces, hpieces, List.filter_cons_of_neg (by simp),
      ← words_eq_filter_pieces, ih hg.2]

/-- A text without blanks is one word, if it is any. -/
theorem words_of_none {w : Text} (hw : w.any isSpace = false) :
    words w = [w].filter (!·.isEmpty) := by
  have hpieces := pieces_append hw (s := []) rfl
  rw [List.append_nil] at hpieces
  rw [words_eq_filter_pieces, hpieces]

/-- **`str.split` cuts at a run of blanks.** -/
theorem words_append {w g : Text} (hw : w.any isSpace = false) (hne : g ≠ [])
    (hg : g.all isSpace = true) (s : Text) :
    words (w ++ (g ++ s)) = [w].filter (!·.isEmpty) ++ words s := by
  obtain ⟨c, g, rfl⟩ := List.exists_cons_of_ne_nil hne
  rw [List.all_cons, Bool.and_eq_true] at hg
  have hpieces : pieces (c :: (g ++ s)) = [] :: pieces (g ++ s) := by
    simp [pieces, hg.1]
  rw [List.cons_append, words_eq_filter_pieces, pieces_append hw hpieces, List.append_nil,
    ← List.singleton_append, List.filter_append, ← words_eq_filter_pieces, words_run hg.2]

/-- The words of a text and of another that begins with a blank. -/
theorem words_append_blank (x : Text) {y : Text} (hy : y.head?.all isSpace = true) :
    words (x ++ y) = words x ++ words y := by
  induction x using runs_induction isSpace with
  | word w hw =>
    cases y with
    | nil =>
      rw [List.append_nil]
      exact (List.append_nil _).symm
    | cons c y =>
      have hblank : isSpace c = true := hy
      have hc : [c].all isSpace = true := by rw [List.all_cons, hblank]; rfl
      have hcut := words_append hw (List.cons_ne_nil c []) hc y
      have hrun := words_run hc y
      rw [List.singleton_append] at hcut hrun
      rw [hcut, hrun, words_of_none hw]
  | run w g s hw hne hg _ ih =>
    rw [List.append_assoc, List.append_assoc, words_append hw hne hg, words_append hw hne hg, ih,
      List.append_assoc]

/-- The words of a text that ends in a blank and of another. -/
theorem words_blank_append {x : Text} (hx : x.getLast?.all isSpace = true) (y : Text) :
    words (x ++ y) = words x ++ words y := by
  cases hlast : x.getLast? with
  | none => rw [List.getLast?_eq_none_iff.mp hlast]; rfl
  | some c =>
    obtain ⟨init, rfl⟩ : ∃ init, x = init ++ [c] :=
      ⟨_, (List.dropLast_append_getLast? c hlast).symm⟩
    rw [hlast, Option.all_some] at hx
    have hall : [c].all isSpace = true := by rw [List.all_cons, hx]; rfl
    have hblank : words [c] = [] := words_run hall []
    rw [List.append_assoc, words_append_blank init (by exact hx), words_run hall,
      words_append_blank init (by exact hx), hblank, List.append_nil]

/-- Words, with a blank before each, are the words of the text. -/
theorem words_spread {ws : List Text} (h : ∀ w ∈ ws, w ≠ [] ∧ w.any isSpace = false) :
    words (ws.flatMap (' ' :: ·)) = ws := by
  have blank : [' '].all isSpace = true := by decide
  induction ws with
  | nil => rfl
  | cons w ws ih =>
    obtain ⟨⟨hne, hw⟩, hws⟩ := List.forall_mem_cons.mp h
    have hnext : (ws.flatMap (' ' :: ·)).head?.all isSpace = true := by
      cases ws with
      | nil => rfl
      | cons v ws => rfl
    have hfirst : words w = [w] := by
      rw [words_of_none hw, List.filter_cons_of_pos (by simpa using hne)]
      rfl
    rw [List.flatMap_cons, List.cons_append, ← List.singleton_append, words_run blank,
      words_append_blank w hnext, ih hws, hfirst]
    rfl

theorem mem_words {s w : Text} (h : w ∈ words s) :
    w ≠ [] ∧ ∀ c ∈ w, c ∈ s ∧ isSpace c = false := by
  induction s using runs_induction isSpace with
  | word s hs =>
    rw [words_of_none hs] at h
    obtain ⟨hmem, hne⟩ := List.mem_filter.mp h
    obtain rfl := List.mem_singleton.mp hmem
    exact ⟨by simpa using hne, fun c hc => ⟨hc, by simpa using List.any_eq_false.mp hs c hc⟩⟩
  | run v g s hv hne hg _ ih =>
    rw [words_append hv hne hg, List.mem_append] at h
    rcases h with h | h
    · obtain ⟨hmem, hne⟩ := List.mem_filter.mp h
      obtain rfl := List.mem_singleton.mp hmem
      exact ⟨by simpa using hne, fun c hc =>
        ⟨List.mem_append_left _ hc, by simpa using List.any_eq_false.mp hv c hc⟩⟩
    · obtain ⟨hne, hall⟩ := ih h
      exact ⟨hne, fun c hc => ⟨by simp [(hall c hc).1], (hall c hc).2⟩⟩

end OmniCare.Text

namespace OmniCare.Regex

variable {p : Char → Bool}

/-! ## `re.split` between two texts -/

theorem split_ne_nil (r : Regex) (s : Text) : r.split s ≠ [] := by
  rw [split_eq_splitOutline]
  exact splitOutline_ne_nil _

/-- **A text behind a run**: the last word of what ends in the run is empty, and is no word of the
whole. -/
theorem split_behind {x y : Text} (hx : x.getLast?.all p = true) (hy : y.head?.any p = false) :
    (plus (char p)).split (x ++ y) =
      ((plus (char p)).split x).dropLast ++ (plus (char p)).split y := by
  induction x using Text.runs_induction p with
  | word w hw =>
    -- it has no run at its end, so it is empty
    cases hlast : w.getLast? with
    | none =>
      have hnil : (plus (char p)).split ([] : Text) = [[]] := split_of_none rfl
      rw [List.getLast?_eq_none_iff.mp hlast, hnil]
      rfl
    | some c =>
      rw [hlast, Option.all_some] at hx
      have hnone := List.any_eq_false.mp hw c (List.mem_of_getLast? hlast)
      exact absurd hx hnone
  | run w g s hw hne hg hs ih =>
    cases s with
    | nil =>
      have hnil : (plus (char p)).split ([] : Text) = [[]] := split_of_none rfl
      rw [List.append_nil, List.append_assoc, split_append hw hne hg hy,
        ← List.append_nil g, split_append hw hne hg rfl, hnil]
      rfl
    | cons c s =>
      have hlast : (c :: s).getLast?.all p = true := by
        rw [← List.append_assoc, List.getLast?_append_of_ne_nil _ (List.cons_ne_nil c s)] at hx
        exact hx
      rw [List.append_assoc, List.append_assoc, split_append hw hne hg (s := c :: s ++ y) hs,
        split_append hw hne hg hs, ih hlast, List.dropLast_cons_of_ne_nil (split_ne_nil _ _)]
      rfl

/-- **A text before a run**: the first word of what begins with the run is empty, and is no word of
the whole. -/
theorem split_before {x y : Text} (hx : x.getLast?.any p = false) (hy : y.head?.all p = true) :
    (plus (char p)).split (x ++ y) =
      (plus (char p)).split x ++ ((plus (char p)).split y).tail := by
  induction x using Text.runs_induction p with
  | word w hw =>
    cases y with
    | nil =>
      have hnil : (plus (char p)).split ([] : Text) = [[]] := split_of_none rfl
      rw [List.append_nil, hnil]
      exact (List.append_nil _).symm
    | cons c y =>
      have hc : p c = true := hy
      have hrun := List.takeWhile_append_dropWhile (p := p) (l := c :: y)
      have hne : (c :: y).takeWhile p ≠ [] := by
        rw [List.takeWhile_cons_of_pos hc]
        exact List.cons_ne_nil _ _
      have htail : (plus (char p)).split (c :: y) =
          [] :: (plus (char p)).split ((c :: y).dropWhile p) := by
        have hcut := split_append (p := p) (w := []) rfl hne List.all_takeWhile
          (head_dropWhile p (c :: y))
        rw [List.nil_append, hrun] at hcut
        exact hcut
      rw [htail, List.tail_cons, split_of_none hw]
      conv_lhs => rw [← hrun]
      exact split_append hw hne List.all_takeWhile (head_dropWhile p (c :: y))
  | run w g s hw hne hg hs ih =>
    cases s with
    | nil =>
      -- it would end in the run
      obtain ⟨c, hlast⟩ := Option.ne_none_iff_exists'.mp (mt List.getLast?_eq_none_iff.mp hne)
      rw [List.append_nil, List.getLast?_append_of_ne_nil _ hne, hlast, Option.any_some,
        List.all_eq_true.mp hg c (List.mem_of_getLast? hlast)] at hx
      cases hx
    | cons c s =>
      have hlast : (c :: s).getLast?.any p = false := by
        rw [← List.append_assoc, List.getLast?_append_of_ne_nil _ (List.cons_ne_nil c s)] at hx
        exact hx
      rw [List.append_assoc, List.append_assoc, split_append hw hne hg (s := c :: s ++ y) hs,
        split_append hw hne hg hs, ih hlast]
      rfl

/-- A text none of whose words is empty stands clear of the runs. -/
theorem ends_of_split {y : Text} (h : [] ∉ (plus (char p)).split y) :
    y ≠ [] ∧ y.head?.any p = false ∧ y.getLast?.any p = false := by
  have hnil : (plus (char p)).split ([] : Text) = [[]] := split_of_none rfl
  refine ⟨?_, ?_, ?_⟩
  · rintro rfl
    rw [hnil] at h
    exact h (List.mem_singleton_self _)
  · by_contra hhead
    have hall : y.head?.all p = true := by
      cases hy : y.head? with
      | none => rfl
      | some c => simpa [hy] using hhead
    have hsplit := split_before (p := p) (x := []) rfl hall
    rw [hnil, List.nil_append] at hsplit
    rw [hsplit] at h
    exact h List.mem_cons_self
  · by_contra hlast
    have hall : y.getLast?.all p = true := by
      cases hy : y.getLast? with
      | none => rfl
      | some c => simpa [hy] using hlast
    have hsplit := split_behind (p := p) (y := []) hall rfl
    rw [hnil, List.append_nil] at hsplit
    rw [hsplit] at h
    exact h (List.mem_append_right _ (List.mem_singleton_self _))

end OmniCare.Regex
