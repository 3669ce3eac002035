import OmniCare.PyText

/-! # Backtracking regular expressions

Python's `re` is a backtracking matcher: a pattern is tried at a position, its
alternatives and repetitions in a fixed order of preference, and the first way to
match is the match.  The semantics here lists **all** ways, most preferred first
(`Regex.run`); the match is the head of that list, and what follows in a sequence
is tried on every element in turn, which is backtracking.

A position is a `Cursor`: the text already passed, reversed, and the text ahead.
Anchors, word boundaries and one-character look-arounds are predicates on it.

`scan` cuts a text into matches and the characters between them, as `re.finditer`
does from left to right; `findall` and `sub` are read off it.  The library states
what a consumer of `scan` needs: every way to match consumes a prefix of the text
ahead (`run_consumes`), the pieces of a scan tile the text (`scan_text`), and a text
without a character that the pattern cannot do without has no match (`Needs`).
-/
namespace OmniCare

/-- A position in a text. -/
structure Cursor where
  /-- The text before the position, reversed. -/
  before : Text
  /-- The text from the position on. -/
  after : Text
  deriving DecidableEq, Repr

namespace Cursor

/-- The position at the start of a text. -/
def start (s : Text) : Cursor := ⟨[], s⟩

/-- The position one character on. -/
def next (c : Cursor) : Cursor :=
  match c.after with
  | [] => c
  | x :: rest => ⟨x :: c.before, rest⟩

/-- The number of characters before the position. -/
def offset (c : Cursor) : Nat := c.before.length

/-- The text between `c` and a later position `d` of the same text. -/
def upTo (c d : Cursor) : Text := c.after.take (d.before.length - c.before.length)

/-- `d` is reached from `c` by passing `w`. -/
def Passes (c d : Cursor) (w : Text) : Prop :=
  c.after = w ++ d.after ∧ d.before = w.reverse ++ c.before

theorem Passes.refl (c : Cursor) : c.Passes c [] := ⟨rfl, rfl⟩

theorem Passes.trans {c d e : Cursor} {v w : Text} (h : c.Passes d v) (h' : d.Passes e w) :
    c.Passes e (v ++ w) := by
  obtain ⟨hca, hdb⟩ := h
  obtain ⟨hda, heb⟩ := h'
  exact ⟨by rw [hca, hda, List.append_assoc], by rw [heb, hdb, List.reverse_append,
    List.append_assoc]⟩

theorem Passes.upTo {c d : Cursor} {w : Text} (h : c.Passes d w) : c.upTo d = w := by
  obtain ⟨hca, hdb⟩ := h
  simp [Cursor.upTo, hca, hdb]

end Cursor

/-- A regular expression, with a character class for its atoms. -/
inductive Regex
  /-- The empty pattern. -/
  | eps
  /-- One character of a class. -/
  | char (p : Char → Bool)
  /-- A zero-width assertion. -/
  | assert (p : Cursor → Bool)
  | seq (a b : Regex)
  | alt (a b : Regex)
  /-- `lo` to `hi` copies, as many as possible when `greedy`, else as few. -/
  | rep (greedy : Bool) (lo : Nat) (hi : Option Nat) (r : Regex)
  /-- A capturing group. -/
  | group (i : Nat) (r : Regex)
  /-- The text an earlier group captured. -/
  | backref (i : Nat)

namespace Regex

/-- A way to have matched so far: the position reached and the groups captured,
the latest first. -/
structure Way where
  cursor : Cursor
  groups : List (Nat × Text)
  deriving Repr

/-- The text captured by group `i`, empty if it took no part in the match. -/
def Way.group (w : Way) (i : Nat) : Text := (w.groups.lookup i).getD []

/-- The ways to repeat a step.  `fuel` bounds the number of copies; a copy beyond
the mandatory ones must consume something. -/
def repeatRun (step : Way → List Way) (greedy : Bool) : Nat → Nat → Option Nat → Way → List Way
  | 0, lo, _, w => if lo = 0 then [w] else []
  | fuel + 1, lo, hi, w =>
      let more :=
        if hi = some 0 then []
        else (step w).flatMap fun v =>
          if 0 < lo ∨ v.cursor.after.length < w.cursor.after.length then
            repeatRun step greedy fuel (lo - 1) (hi.map (· - 1)) v
          else []
      if 0 < lo then more else if greedy then more ++ [w] else w :: more

/-- All ways to match a pattern from a position, most preferred first. -/
def run : Regex → Way → List Way
  | eps, w => [w]
  | char p, w =>
      match w.cursor.after with
      | [] => []
      | c :: _ => if p c then [{ w with cursor := w.cursor.next }] else []
  | assert p, w => if p w.cursor then [w] else []
  | seq a b, w => (run a w).flatMap (run b)
  | alt a b, w => run a w ++ run b w
  | rep greedy lo hi r, w =>
      repeatRun (fun v => run r v) greedy (lo + w.cursor.after.length) lo hi w
  | group i r, w =>
      (run r w).map fun v => { v with groups := (i, w.cursor.upTo v.cursor) :: v.groups }
  | backref i, w =>
      match Text.dropPrefix? (w.group i) w.cursor.after with
      | none => []
      | some rest => [{ w with cursor := ⟨(w.group i).reverse ++ w.cursor.before, rest⟩ }]

/-! ## Every way consumes a prefix -/

theorem dropPrefix?_eq_some {p s rest : Text} (h : Text.dropPrefix? p s = some rest) :
    s = p ++ rest := by
  induction p generalizing s with
  | nil => simpa [Text.dropPrefix?] using h
  | cons a p ih =>
    cases s with
    | nil => simp [Text.dropPrefix?] at h
    | cons b s =>
      simp only [Text.dropPrefix?] at h
      split at h
      · rename_i hab
        rw [ih h, eq_of_beq hab, List.cons_append]
      · cases h

theorem repeatRun_consumes {step : Way → List Way}
    (hstep : ∀ w, ∀ v ∈ step w, ∃ t, w.cursor.Passes v.cursor t) {greedy : Bool}
    {fuel lo : Nat} {hi : Option Nat} {w v : Way}
    (h : v ∈ repeatRun step greedy fuel lo hi w) : ∃ t, w.cursor.Passes v.cursor t := by
  induction fuel generalizing lo hi w v with
  | zero =>
    simp only [repeatRun] at h
    split at h
    · rw [List.mem_singleton.mp h]
      exact ⟨[], .refl _⟩
    · cases h
  | succ fuel ih =>
    have more : ∀ v ∈ (if hi = some 0 then [] else (step w).flatMap fun u =>
          if 0 < lo ∨ u.cursor.after.length < w.cursor.after.length then
            repeatRun step greedy fuel (lo - 1) (hi.map (· - 1)) u else []),
        ∃ t, w.cursor.Passes v.cursor t := by
      intro v hv
      split at hv
      · cases hv
      · obtain ⟨u, hu, hv⟩ := List.mem_flatMap.mp hv
        split at hv
        · obtain ⟨t, ht⟩ := hstep w u hu
          obtain ⟨t', ht'⟩ := ih hv
          exact ⟨_, ht.trans ht'⟩
        · cases hv
    simp only [repeatRun] at h
    split at h
    · exact more v h
    · have stay : v = w → ∃ t, w.cursor.Passes v.cursor t := by
        rintro rfl
        exact ⟨[], .refl _⟩
      split at h
      · exact (List.mem_append.mp h).elim (more v) fun hv => stay (List.mem_singleton.mp hv)
      · exact (List.mem_cons.mp h).elim stay (more v)

/-- **A way to match passes a prefix of the text ahead.** -/
theorem run_consumes (r : Regex) {w v : Way} (h : v ∈ r.run w) :
    ∃ t, w.cursor.Passes v.cursor t := by
  induction r generalizing w v with
  | eps =>
    rw [List.mem_singleton.mp h]
    exact ⟨[], .refl _⟩
  | char p =>
    simp only [run] at h
    split at h
    · cases h
    · rename_i c rest hafter
      split at h
      · rw [List.mem_singleton.mp h]
        exact ⟨[c], by simp [Cursor.Passes, Cursor.next, hafter]⟩
      · cases h
  | assert p =>
    simp only [run] at h
    split at h
    · rw [List.mem_singleton.mp h]
      exact ⟨[], .refl _⟩
    · cases h
  | seq a b iha ihb =>
    obtain ⟨u, hu, hv⟩ := List.mem_flatMap.mp h
    obtain ⟨t, ht⟩ := iha hu
    obtain ⟨t', ht'⟩ := ihb hv
    exact ⟨_, ht.trans ht'⟩
  | alt a b iha ihb => exact (List.mem_append.mp h).elim iha ihb
  | rep greedy lo hi r ih => exact repeatRun_consumes (fun w v hv => ih hv) h
  | group i r ih =>
    obtain ⟨u, hu, rfl⟩ := List.mem_map.mp h
    have passes : ∃ t, w.cursor.Passes u.cursor t := ih hu
    exact passes
  | backref i =>
    simp only [run] at h
    split at h
    · cases h
    · rename_i rest hrest
      rw [List.mem_singleton.mp h]
      exact ⟨w.group i, dropPrefix?_eq_some hrest, rfl⟩

/-! ## Matching and scanning -/

/-- A match: where it starts, and the way it was made. -/
structure Match where
  from_ : Cursor
  way : Way
  deriving Repr

/-- `m.start()`. -/
def Match.start (m : Match) : Nat := m.from_.offset

/-- `m.end()`. -/
def Match.stop (m : Match) : Nat := m.way.cursor.offset

/-- `m.group()`. -/
def Match.text (m : Match) : Text := m.from_.upTo m.way.cursor

/-- `m.group(i)`. -/
def Match.group (m : Match) (i : Nat) : Text := m.way.group i

/-- The match of a pattern at a position. -/
def matchAt (r : Regex) (c : Cursor) : Option Match :=
  (r.run ⟨c, []⟩).head?.map (⟨c, ·⟩)

/-- `re.match(r, s)`. -/
def matchStart (r : Regex) (s : Text) : Option Match := r.matchAt (.start s)

/-- `re.search` from a position, over the next `fuel` positions. -/
def searchFrom (r : Regex) : Nat → Cursor → Option Match
  | 0, c => r.matchAt c
  | fuel + 1, c =>
      match r.matchAt c with
      | some m => some m
      | none => if c.after.isEmpty then none else searchFrom r fuel c.next

/-- `re.search(r, s)`. -/
def search (r : Regex) (s : Text) : Option Match := r.searchFrom s.length (.start s)

/-- `bool(re.search(r, s))`. -/
def found (r : Regex) (s : Text) : Bool := (r.search s).isSome

/-- A piece of a scanned text: a match, or one character outside every match. -/
inductive Piece
  | gap (c : Char)
  | hit (m : Match)

/-- The text of a piece. -/
def Piece.text : Piece → Text
  | .gap c => [c]
  | .hit m => m.text

/-- The matches from a position on, with the characters between them.  A match may
be empty only if the match before it was not an empty one at the same position
(`fresh`). -/
def scanFrom (r : Regex) : Nat → Bool → Cursor → List Piece
  | 0, _, c => c.after.map .gap
  | fuel + 1, fresh, c =>
      match (r.run ⟨c, []⟩).find? fun w => fresh || w.cursor.after.length < c.after.length with
      | some w =>
          .hit ⟨c, w⟩ :: scanFrom r fuel (w.cursor.after.length < c.after.length) w.cursor
      | none =>
          match c.after with
          | [] => []
          | x :: _ => .gap x :: scanFrom r fuel true c.next

/-- The pieces of a text: its matches from left to right, none overlapping, and the
characters between them. -/
def scan (r : Regex) (s : Text) : List Piece :=
  r.scanFrom (2 * s.length + 2) true (.start s)

/-- `list(re.finditer(r, s))`. -/
def finditer (r : Regex) (s : Text) : List Match :=
  (r.scan s).filterMap fun
    | .gap _ => none
    | .hit m => some m

/-- `re.findall(r, s)` of a pattern without groups. -/
def findall (r : Regex) (s : Text) : List Text := (r.finditer s).map (·.text)

/-- `re.sub(r, f, s)`. -/
def sub (r : Regex) (f : Match → Text) (s : Text) : Text :=
  (r.scan s).flatMap fun
    | .gap c => [c]
    | .hit m => f m

/-- `re.sub(r, new, s)` for a text without group references. -/
def subText (r : Regex) (new : Text) (s : Text) : Text := r.sub (fun _ => new) s

/-- `re.split(r, s)` of a pattern without groups. -/
def split (r : Regex) (s : Text) : List Text :=
  (r.scan s).foldr (fun piece acc =>
      match piece, acc with
      | .hit _, acc => [] :: acc
      | .gap c, w :: ws => (c :: w) :: ws
      | .gap c, [] => [[c]]) [[]]

/-- **The pieces of a scan tile the text**: joined in order they give it back. -/
theorem scanFrom_text (r : Regex) (fuel : Nat) (fresh : Bool) (c : Cursor) :
    (r.scanFrom fuel fresh c).flatMap Piece.text = c.after := by
  induction fuel generalizing fresh c with
  | zero =>
    simp only [scanFrom, List.flatMap_map]
    show c.after.flatMap (fun x => [x]) = c.after
    simp
  | succ fuel ih =>
    simp only [scanFrom]
    split
    · rename_i w hw
      obtain ⟨t, ht⟩ := r.run_consumes (List.mem_of_find?_eq_some hw)
      rw [List.flatMap_cons, ih, Piece.text, Match.text, ht.upTo, ht.1]
    · split
      · rename_i h
        rw [h]; rfl
      · rename_i x rest h
        rw [List.flatMap_cons, ih, Cursor.next, h]; rfl

theorem scan_text (r : Regex) (s : Text) : (r.scan s).flatMap Piece.text = s :=
  r.scanFrom_text _ _ _

/-- A piece of a text has only characters that the text has. -/
theorem mem_of_mem_scan {r : Regex} {s : Text} {x : Piece} (hx : x ∈ r.scan s) {c : Char}
    (hc : c ∈ x.text) : c ∈ s := by
  rw [← r.scan_text s]
  exact List.mem_flatMap.mpr ⟨x, hx, hc⟩

/-- What holds of every character of a text holds of every character of its matches. -/
theorem all_findall {r : Regex} {s : Text} {p : Char → Bool} (hs : s.all p = true) {t : Text}
    (ht : t ∈ r.findall s) : t.all p = true := by
  obtain ⟨m, hm, rfl⟩ := List.mem_map.mp ht
  obtain ⟨x, hx, hxm⟩ := List.mem_filterMap.mp hm
  cases x with
  | gap c => cases hxm
  | hit m' =>
    cases hxm
    rw [List.all_eq_true] at hs ⊢
    exact fun c hc => hs c (mem_of_mem_scan hx hc)

/-- What holds of every character of a text and of what is put into it holds of every
character of the outcome. -/
theorem all_sub {r : Regex} {f : Match → Text} {s : Text} {p : Char → Bool}
    (hs : s.all p = true) (hf : ∀ m, (f m).all p = true) : (r.sub f s).all p = true := by
  rw [List.all_eq_true] at hs ⊢
  intro c hc
  obtain ⟨x, hx, hcx⟩ := List.mem_flatMap.mp hc
  cases x with
  | gap d => exact hs c (mem_of_mem_scan hx hcx)
  | hit m => exact List.all_eq_true.mp (hf m) c hcx

/-! ## What a match cannot do without -/

/-- Wherever the pattern matches, the text ahead has a character of a class. -/
def Needs (r : Regex) (p : Char → Bool) : Prop :=
  ∀ w v, v ∈ r.run w → w.cursor.after.any p = true

theorem needs_char {p q : Char → Bool} (h : ∀ c, q c = true → p c = true) :
    (char q).Needs p := by
  intro w v hv
  rw [run] at hv
  split at hv
  · cases hv
  · rename_i c rest hafter
    split at hv
    · rename_i hc
      rw [hafter, List.any_cons, h c hc, Bool.true_or]
    · cases hv

namespace Needs

variable {a b r : Regex} {p : Char → Bool}

theorem first (h : a.Needs p) : (seq a b).Needs p := by
  intro w v hv
  obtain ⟨u, hu, -⟩ := List.mem_flatMap.mp hv
  exact h w u hu

theorem second (h : b.Needs p) : (seq a b).Needs p := by
  intro w v hv
  obtain ⟨u, hu, hv⟩ := List.mem_flatMap.mp hv
  obtain ⟨t, ht, -⟩ := a.run_consumes hu
  rw [ht, List.any_append, h u v hv, Bool.or_true]

theorem either (ha : a.Needs p) (hb : b.Needs p) : (alt a b).Needs p := fun w v hv =>
  (List.mem_append.mp hv).elim (ha w v) (hb w v)

/-- There is no way to match where the text ahead lacks the class. -/
theorem run_eq_nil (h : r.Needs p) {w : Way} (hw : w.cursor.after.any p = false) :
    r.run w = [] := by
  rw [List.eq_nil_iff_forall_not_mem]
  intro v hv
  rw [h w v hv] at hw
  cases hw

theorem matchStart_eq_none (h : r.Needs p) {s : Text} (hs : s.any p = false) :
    r.matchStart s = none := by
  rw [matchStart, matchAt, h.run_eq_nil hs]
  rfl

theorem next_lacks {c : Cursor} (hc : c.after.any p = false) : c.next.after.any p = false := by
  unfold Cursor.next
  split
  · exact hc
  · rename_i hafter
    rw [hafter, List.any_cons, Bool.or_eq_false_iff] at hc
    exact hc.2

theorem searchFrom_eq_none (h : r.Needs p) (fuel : Nat) {c : Cursor}
    (hc : c.after.any p = false) : r.searchFrom fuel c = none := by
  have hhere : r.matchAt c = none := by
    rw [matchAt, h.run_eq_nil hc]
    rfl
  induction fuel generalizing c with
  | zero => exact hhere
  | succ fuel ih =>
    rw [searchFrom, hhere]
    dsimp only
    split
    · rfl
    · have hnext := next_lacks hc
      exact ih hnext (by rw [matchAt, h.run_eq_nil hnext]; rfl)

theorem found_eq_false (h : r.Needs p) {s : Text} (hs : s.any p = false) : r.found s = false := by
  rw [found, search, h.searchFrom_eq_none _ hs]
  rfl

theorem scanFrom_gap (h : r.Needs p) (fuel : Nat) (fresh : Bool) {c : Cursor}
    (hc : c.after.any p = false) : ∀ x ∈ r.scanFrom fuel fresh c, ∃ d, x = .gap d := by
  induction fuel generalizing fresh c with
  | zero =>
    intro x hx
    obtain ⟨d, -, rfl⟩ := List.mem_map.mp hx
    exact ⟨d, rfl⟩
  | succ fuel ih =>
    rw [scanFrom, h.run_eq_nil hc, List.find?_nil]
    dsimp only
    split
    · exact nofun
    · intro x hx
      rcases List.mem_cons.mp hx with rfl | hx
      · exact ⟨_, rfl⟩
      · exact ih true (next_lacks hc) x hx

/-- A text that lacks the class has no match. -/
theorem finditer_eq_nil (h : r.Needs p) {s : Text} (hs : s.any p = false) : r.finditer s = [] := by
  rw [finditer, List.filterMap_eq_nil_iff]
  intro x hx
  obtain ⟨d, rfl⟩ := h.scanFrom_gap _ _ hs x hx
  rfl

end Needs

/-! ## Pattern syntax -/

/-- A literal text. -/
def lit : Text → Regex
  | [] => eps
  | [c] => char (· == c)
  | c :: s => seq (char (· == c)) (lit s)

/-- A literal text under `re.IGNORECASE`. -/
def litI : Text → Regex
  | [] => eps
  | [c] => char (sameLetter c)
  | c :: s => seq (char (sameLetter c)) (litI s)

/-- A sequence of patterns. -/
def cat : List Regex → Regex
  | [] => eps
  | [r] => r
  | r :: rs => seq r (cat rs)

/-- Alternatives, the preferred one first. -/
def oneOf : List Regex → Regex
  | [] => assert fun _ => false
  | [r] => r
  | r :: rs => alt r (oneOf rs)

/-- The alternatives of a list of literal texts under `re.IGNORECASE`. -/
def wordsI (ws : List Text) : Regex := oneOf (ws.map litI)

/-- `r*`. -/
def star (r : Regex) : Regex := rep true 0 none r

/-- `r+`. -/
def plus (r : Regex) : Regex := rep true 1 none r

/-- `r?`. -/
def opt (r : Regex) : Regex := rep true 0 (some 1) r

/-- `r{lo,hi}`. -/
def between (lo hi : Nat) (r : Regex) : Regex := rep true lo (some hi) r

/-- `r{n}`. -/
def times (n : Nat) (r : Regex) : Regex := rep true n (some n) r

/-- `r{n,}`. -/
def atLeast (n : Nat) (r : Regex) : Regex := rep true n none r

/-- `[...]`, a class given by its characters. -/
def anyOf (cs : Text) : Regex := char fun c => cs.elem c

/-- `[^...]`. -/
def noneOf (cs : Text) : Regex := char fun c => !cs.elem c

/-- `.`: any character but a line feed. -/
def dot : Regex := char (· != '\n')

/-- `\s`. -/
def space : Regex := char isSpace

/-- `\s+`. -/
def gap : Regex := plus space

/-- `\d`. -/
def digit : Regex := char isDigit

/-- `^` without `re.MULTILINE`. -/
def atStart : Regex := assert fun c => c.before.isEmpty

/-- `^` under `re.MULTILINE`. -/
def lineStart : Regex := assert fun c => c.before.head?.all (· == '\n')

/-- `$` without `re.MULTILINE`: the end, or a line feed before the end. -/
def atEnd : Regex := assert fun c => c.after.isEmpty || c.after == ['\n']

/-- `$` under `re.MULTILINE`. -/
def lineEnd : Regex := assert fun c => c.after.head?.all (· == '\n')

/-- `\b`. -/
def wordEdge : Regex :=
  assert fun c => c.before.head?.any isWord != c.after.head?.any isWord

/-- A one-character negative look-behind. -/
def notBehind (p : Char → Bool) : Regex := assert fun c => !c.before.head?.any p

/-- A one-character look-behind. -/
def behind (p : Char → Bool) : Regex := assert fun c => c.before.head?.any p

/-- A one-character negative look-ahead. -/
def notAhead (p : Char → Bool) : Regex := assert fun c => !c.after.head?.any p

/-- A literal text needs its first character. -/
theorem needs_lit {s : Text} {p : Char → Bool} (hs : s ≠ []) (h : s.all p = true) :
    (lit s).Needs p := by
  have literal : ∀ c ∈ s, (char (· == c)).Needs p := fun c hc =>
    needs_char fun d hd => eq_of_beq hd ▸ List.all_eq_true.mp h c hc
  match s, hs with
  | [c], _ => exact literal c List.mem_cons_self
  | c :: d :: s, _ => exact (literal c List.mem_cons_self).first

theorem needs_litI {s : Text} {p : Char → Bool} (hs : s ≠ [])
    (h : ∀ c ∈ s, ∀ d, sameLetter c d = true → p d = true) : (litI s).Needs p := by
  match s, hs with
  | [c], _ => exact needs_char (h c List.mem_cons_self)
  | c :: d :: s, _ => exact (needs_char (h c List.mem_cons_self)).first

end Regex
end OmniCare
