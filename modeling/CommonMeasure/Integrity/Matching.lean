import CommonMeasure.Integrity.Release

namespace CommonMeasure.Integrity

structure Letters where
  isAlphanumeric : Char → Bool
  isUppercase : Char → Bool
  toLowercase : List Char → List Char

def Letters.ascii : Letters where
  isAlphanumeric c := c.isAlphanum
  isUppercase c := c.isUpper
  toLowercase text := text.map Char.toLower

/-- `trim_matches`, of what is not alphanumeric. -/
def Letters.bare (letters : Letters) (word : List Char) : List Char :=
  (word.dropWhile fun c => !letters.isAlphanumeric c).rdropWhile fun c => !letters.isAlphanumeric c

def fold (c : Char) : Char :=
  if c.toNat = 0x2018 ∨ c.toNat = 0x2019 then '\''
  else if c.toNat = 0x201C ∨ c.toNat = 0x201D then '"'
  else if c.toNat = 0x2013 ∨ c.toNat = 0x2014 then '-'
  else c.toLower

def key (letters : Letters) (word : List Char) : List Char := (letters.bare word).map fold

def keys (letters : Letters) (ws : List Word) : List (List Char) := ws.map fun w => key letters w.text

def findRun (letters : Letters) (needle haystack : List Word) : Option Nat :=
  if needle = [] then none
  else
    let n := keys letters needle
    let h := keys letters haystack
    if h.length < n.length then none
    else (List.range (h.length - n.length + 1)).find? fun start => (h.drop start).take n.length = n

def nextRow (nw : List Char) (h : List (List Char)) (previous : List Nat) : List Nat :=
  0 :: List.zipWith (fun hw held => if nw ≠ [] ∧ nw = hw then held + 1 else 0) h previous

abbrev Run := Nat × Nat × Nat

def longer (i : Nat) (best : Run) (cell : Nat × Nat) : Run :=
  if best.1 < cell.1 then (cell.1, i + 1 - cell.1, cell.2 + 1 - cell.1) else best

def runsFrom (h : List (List Char)) : Nat → List Nat → Run → List (List Char) → Run
  | _, _, best, [] => best
  | i, previous, best, nw :: rest =>
    let current := nextRow nw h previous
    runsFrom h (i + 1) current (current.tail.zipIdx.foldl (longer i) best) rest

def longestCommonRun (letters : Letters) (needle haystack : List Word) : Run :=
  let h := keys letters haystack
  runsFrom h 0 (List.replicate (h.length + 1) 0) (0, 0, 0) (keys letters needle)

/-- The bytes of words `from` up to `to`. -/
def spanOf (ws : List Word) (first stop : Nat) : Span :=
  ⟨(ws[first]?.map Word.start).getD 0, (ws[stop - 1]?.map Word.stop).getD 0⟩

section

variable {letters : Letters} {needle haystack : List Word} {h : List (List Char)}

theorem findRun_some {place : Nat} (found : findRun letters needle haystack = some place) :
    needle ≠ [] ∧ place + needle.length ≤ haystack.length ∧
      ((keys letters haystack).drop place).take needle.length = keys letters needle := by
  rw [findRun] at found
  split at found
  · cases found
  rename_i some_
  dsimp only at found
  split at found
  · cases found
  rename_i fits
  have held := List.find?_some found
  have listed := List.mem_range.mp (List.mem_of_find?_eq_some found)
  simp only [keys, List.length_map, decide_eq_true_eq] at held listed fits ⊢
  exact ⟨some_, by omega, held⟩

theorem findRun_isSome : (findRun letters needle haystack).isSome = true ↔
    needle ≠ [] ∧ ∃ before after, keys letters haystack = before ++ keys letters needle ++ after := by
  constructor
  · intro found
    obtain ⟨place, found⟩ := Option.isSome_iff_exists.mp found
    obtain ⟨some_, _, held⟩ := findRun_some found
    refine ⟨some_, (keys letters haystack).take place, ((keys letters haystack).drop place).drop needle.length, ?_⟩
    rw [List.append_assoc, ← held, List.take_append_drop, List.take_append_drop]
  · rintro ⟨some_, before, after, split_⟩
    have lengths := congrArg List.length split_
    simp only [keys, List.length_map, List.length_append] at lengths
    rw [findRun, if_neg some_]
    dsimp only
    rw [if_neg (by simp only [keys, List.length_map]; omega), List.find?_isSome]
    refine ⟨before.length, List.mem_range.mpr (by simp only [keys, List.length_map]; omega), decide_eq_true ?_⟩
    rw [split_, List.append_assoc, List.drop_left, List.take_left]

theorem spanOf_lies {text : List Char} {first count : Nat} (some_ : 0 < count) (fits : first + count ≤ (words text).length) :
    ∃ part, Lies text (spanOf (words text) first (first + count)).start
      (spanOf (words text) first (first + count)).stop part := by
  have laid := words_laid text
  generalize words text = ws at laid fits ⊢
  have cut : ws = ws.take first ++ (ws.drop first).take count ++ (ws.drop first).drop count := by
    rw [List.append_assoc, List.take_append_drop, List.take_append_drop]
  have length : ((ws.drop first).take count).length = count := by
    rw [List.length_take, List.length_drop]
    omega
  have nonempty : (ws.drop first).take count ≠ [] := List.ne_nil_of_length_pos (by omega)
  rw [cut] at laid
  obtain ⟨before, gap, body, after, rfl, begins, _, opens, ends, _⟩ := laid.run nonempty
  obtain ⟨w, here⟩ : ∃ w, ws[first]? = some w := ⟨_, List.getElem?_eq_getElem (by omega)⟩
  obtain ⟨v, last⟩ : ∃ v, ws[first + count - 1]? = some v := ⟨_, List.getElem?_eq_getElem (by omega)⟩
  have head : ((ws.drop first).take count).head nonempty = w := by
    rw [List.head_eq_iff_head?_eq_some, List.head?_take, if_neg (by omega), List.head?_drop, here]
  have stop : endOf 0 (ws.take first ++ (ws.drop first).take count) = v.stop := by
    have joined : ws.take first ++ (ws.drop first).take count = ws.take (first + count) := by rw [List.take_add]
    rw [joined, endOf, List.getLast?_take, if_neg (by omega), last]
    rfl
  rw [head] at opens ends
  rw [stop] at ends
  rw [spanOf, here, last]
  refine ⟨body, before ++ gap, after, rfl, ?_, ends⟩
  rw [byteLen_append]
  simp only [Option.map_some, Option.getD_some]
  omega

/-- Each place holds the length of every run of words with a key that ends there, and at the end of the needle so far. -/
def Covers (h done : List (List Char)) (row : List Nat) : Prop :=
  ∀ a run c d, done = a ++ run → h = c ++ run ++ d → (∀ word ∈ run, word ≠ []) →
    run.length ≤ row.getD (c.length + run.length) 0

theorem covers_next {done : List (List Char)} {row : List Nat} {nw : List Char} (covers : Covers h done row)
    (wide : row.length = h.length + 1) : Covers h (done ++ [nw]) (nextRow nw h row) := by
  intro a run c d needle hay nonempty
  rcases List.eq_nil_or_concat run with rfl | ⟨front, last, rfl⟩
  · exact Nat.zero_le _
  rw [List.concat_eq_append, ← List.append_assoc] at needle
  obtain ⟨rfl, single⟩ := List.append_inj' needle rfl
  obtain rfl : nw = last := by simpa using single
  have before := covers a front c ([nw] ++ d) rfl (by simpa using hay) fun word listed =>
    nonempty word (by simp [listed])
  have here : h[c.length + front.length]? = some nw := by
    rw [hay]
    simp
  have inside : c.length + front.length < row.length := by
    have := congrArg List.length hay
    simp only [List.length_append, List.length_concat] at this
    omega
  have held : row[c.length + front.length]? = some (row.getD (c.length + front.length) 0) := by
    rw [List.getD_eq_getElem?_getD, List.getElem?_eq_getElem inside, Option.getD_some]
  have place : c.length + (front.concat nw).length = c.length + front.length + 1 := by
    rw [List.length_concat]
    omega
  have kept : nw ≠ [] := nonempty nw (by simp)
  rw [place, nextRow, List.getD_cons_succ, List.getD_eq_getElem?_getD, List.getElem?_zipWith, here, held]
  simp only [Option.getD_some]
  rw [if_pos ⟨kept, trivial⟩, List.length_concat]
  omega

theorem nextRow_length {row : List Nat} {nw : List Char} (wide : row.length = h.length + 1) :
    (nextRow nw h row).length = h.length + 1 := by
  rw [nextRow, List.length_cons, List.length_zipWith, wide]
  omega

theorem longest_cells (i : Nat) (best : Run) (cells : List (Nat × Nat)) :
    best.1 ≤ (cells.foldl (longer i) best).1 ∧ ∀ cell ∈ cells, cell.1 ≤ (cells.foldl (longer i) best).1 := by
  induction cells generalizing best with
  | nil => simp
  | cons cell cells ih =>
    have step : best.1 ≤ (longer i best cell).1 ∧ cell.1 ≤ (longer i best cell).1 := by
      rw [longer]
      split <;> omega
    obtain ⟨kept, later⟩ := ih (longer i best cell)
    rw [List.foldl_cons]
    refine ⟨Nat.le_trans step.1 kept, fun other listed => ?_⟩
    rcases List.mem_cons.mp listed with rfl | listed
    · exact Nat.le_trans step.2 kept
    · exact later other listed

theorem longest_row (i : Nat) (best : Run) (row : List Nat) (place : Nat) :
    row.tail.getD place 0 ≤ (row.tail.zipIdx.foldl (longer i) best).1 := by
  rw [List.getD_eq_getElem?_getD]
  cases held : row.tail[place]? with
  | none => exact Nat.zero_le _
  | some value =>
    have listed : (value, place) ∈ row.tail.zipIdx := List.mem_zipIdx_iff_getElem?.mpr held
    exact (longest_cells i best row.tail.zipIdx).2 _ listed

theorem runsFrom_covers (rest done : List (List Char)) (i : Nat) (row : List Nat) (best : Run) (covers : Covers h done row)
    (wide : row.length = h.length + 1) :
    best.1 ≤ (runsFrom h i row best rest).1 ∧ ∀ a run b c d, done ++ rest = a ++ run ++ b → h = c ++ run ++ d →
      (∀ word ∈ run, word ≠ []) → done.length < (a ++ run).length → run.length ≤ (runsFrom h i row best rest).1 := by
  induction rest generalizing done i row best with
  | nil =>
    refine ⟨Nat.le_refl _, fun a run b c d needle hay nonempty ends => ?_⟩
    have := congrArg List.length needle
    simp only [List.length_append, List.length_nil] at this ends
    omega
  | cons nw rest ih =>
    have next : Covers h (done ++ [nw]) (nextRow nw h row) := covers_next covers wide
    rw [runsFrom]
    obtain ⟨kept, later⟩ := ih (done ++ [nw]) (i + 1) (nextRow nw h row) _ next (nextRow_length wide)
    refine ⟨Nat.le_trans (longest_cells _ _ _).1 kept, fun a run b c d needle hay nonempty ends => ?_⟩
    rw [List.append_cons] at needle
    by_cases here : (a ++ run).length = (done ++ [nw]).length
    · -- The run ends with this word: the row just made holds it.
      obtain ⟨same, _⟩ := List.append_inj needle here.symm
      have held := next a run c d same hay nonempty
      refine Nat.le_trans ?_ kept
      cases run with
      | nil => exact Nat.zero_le _
      | cons word run =>
        rw [List.length_cons, ← Nat.add_assoc] at held
        refine Nat.le_trans held (Nat.le_trans ?_ (longest_row i best (nextRow nw h row) (c.length + run.length)))
        rw [nextRow, List.getD_cons_succ, List.tail_cons]
    · refine later a run b c d needle hay nonempty ?_
      simp only [List.length_append, List.length_singleton] at here ends ⊢
      omega

theorem longestCommonRun_longest {a b c d run : List (List Char)} (inNeedle : keys letters needle = a ++ run ++ b)
    (inHaystack : keys letters haystack = c ++ run ++ d) (nonempty : ∀ word ∈ run, word ≠ []) :
    run.length ≤ (longestCommonRun letters needle haystack).1 := by
  have covers : Covers (keys letters haystack) [] (List.replicate ((keys letters haystack).length + 1) 0) := by
    intro a run c d needle _ _
    obtain ⟨_, rfl⟩ := List.append_eq_nil_iff.mp needle.symm
    exact Nat.zero_le _
  obtain ⟨_, each⟩ := runsFrom_covers (keys letters needle) [] 0 _ (0, 0, 0) covers List.length_replicate
  rcases run with _ | ⟨word, run⟩
  · exact Nat.zero_le _
  · exact each a (word :: run) b c d (by simpa using inNeedle) inHaystack nonempty
      (by simp only [List.length_append, List.length_cons, List.length_nil]; omega)

end

end CommonMeasure.Integrity
