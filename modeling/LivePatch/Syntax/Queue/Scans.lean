import LivePatch.Syntax.Queue.Positions

/-!
# Scans through the queue

The scans of `Words` as they run over the places of a queue with trivia in it: the scans over type
arguments, types, parenthesised groups and designations.  A scan is given the place where it starts
and finds the place behind what it has passed.  A loop may go round only behind the place where it
stands, so a scan that others go on from carries the proof that it does not move back.

Each scan agrees with the scan over words: it finds a place just when that one has an answer, and
then the words from that place on are the answer.
-/

namespace LivePatch

namespace Queue

open Words (front)

variable {queue : List Token} {i j : Nat}

/-! ## The scans -/

/-- A place that is not in front of `i`. -/
structure From (i : Nat) where
  place : Nat
  le : i ≤ place

/-- The same place, seen from further in front. -/
def From.ofLe (h : i ≤ j) (p : From j) : From i := ⟨p.place, Nat.le_trans h p.le⟩

/-- The next place. -/
def From.next (p : From i) : From i := ⟨p.place + 1, Nat.le_succ_of_le p.le⟩

/-- The next place where no trivia stands. -/
def From.word (queue : List Token) (p : From i) : From i :=
  ⟨skipTrivia queue p.place, Nat.le_trans p.le le_skipTrivia⟩

theorem lt_length_of_kindAt (h : kindAt queue i ≠ .eof) : i < queue.length := by
  refine Nat.lt_of_not_le fun hle => h ?_
  rw [kindAt, List.getElem?_eq_none hle]
  rfl

theorem lt_length_of_beq {k : Kind} (h : (kindAt queue i == k) = true) (hk : k ≠ .eof) :
    i < queue.length :=
  lt_length_of_kindAt (beq_iff_eq.mp h ▸ hk)

/-- The place behind a word that is passed together with the trivia in front of it. -/
theorem le_skipTrivia_succ : i ≤ skipTrivia queue i + 1 := Nat.le_succ_of_le le_skipTrivia

/-- How many angle brackets are open behind a token, when `depth` are open in front of it; there is
no answer for a word that cannot stand in a type argument list. -/
def anglesBehind (kind : Kind) (depth : Int) : Option Int :=
  if kind.isTrivia then some depth
  else match kind with
    | .less => some (depth + 1)
    | .greater => some (depth - 1)
    | .rightShift => some (depth - 2)
    | kind => if Words.isTypeArgumentWord kind then some depth else none

theorem lt_length_of_anglesBehind {depth d : Int} (h : anglesBehind (kindAt queue i) depth = some d) :
    i < queue.length :=
  lt_length_of_kindAt fun heof => by
    rw [heof] at h
    cases h

/-- The place behind a type argument list, when `depth` angle brackets are open at `i`. -/
def scanAngles (queue : List Token) (i : Nat) (depth : Int) : Option Nat :=
  match _h : anglesBehind (kindAt queue i) depth with
  | none => none
  | some depth =>
    if 0 < depth then scanAngles queue (i + 1) depth
    else if depth = 0 then some (i + 1)
    else none
termination_by queue.length - i
decreasing_by
  have := lt_length_of_anglesBehind _h
  omega

theorem scanAngles_eq (queue : List Token) (i : Nat) (depth : Int) : scanAngles queue i depth =
    match anglesBehind (kindAt queue i) depth with
    | none => none
    | some depth =>
      if 0 < depth then scanAngles queue (i + 1) depth
      else if depth = 0 then some (i + 1)
      else none := by
  rw [scanAngles]
  split <;> rename_i h <;> rw [h]

theorem le_scanAngles {depth : Int} (h : scanAngles queue i depth = some j) : i ≤ j := by
  fun_induction scanAngles queue i depth with
  | case1 => cases h
  | case2 i _ _ _ _ ih => exact Nat.le_of_succ_le (ih h)
  | case3 =>
    cases h
    exact Nat.le_succ _
  | case4 => cases h

/-- The place behind the type argument list that starts at `i`. -/
def scanTypeArguments (queue : List Token) (i : Nat) : Option Nat := scanAngles queue i 0

/-- The place behind the type arguments at `i`, where there may be none.  An angle bracket that
opens no type arguments has no place behind it. -/
def scanAnyTypeArguments (queue : List Token) (i : Nat) : Option Nat :=
  let next := skipTrivia queue i
  if kindAt queue next == .less then scanTypeArguments queue next else some i

theorem le_scanAnyTypeArguments (h : scanAnyTypeArguments queue i = some j) : i ≤ j := by
  rw [scanAnyTypeArguments] at h
  split at h
  · exact Nat.le_trans le_skipTrivia (le_scanAngles h)
  · cases h
    exact Nat.le_refl i

/-- The place behind the segments of a type name, when an identifier has just been passed. -/
def scanNameTail (queue : List Token) (i : Nat) : Nat :=
  match _h : scanAnyTypeArguments queue i with
  | none => i
  | some j =>
    let separator := skipTrivia queue j
    let segment := skipTrivia queue (separator + 1)
    if Words.isNameSeparator (kindAt queue separator) && kindAt queue segment == .identifier then
      scanNameTail queue (segment + 1)
    else j
termination_by queue.length - i
decreasing_by
  have hij := le_scanAnyTypeArguments _h
  have hsegment : skipTrivia queue (skipTrivia queue j + 1) < queue.length :=
    lt_length_of_beq (k := .identifier) (Bool.and_eq_true_iff.mp ‹_›).2 (by decide)
  have : skipTrivia queue j + 1 ≤ skipTrivia queue (skipTrivia queue j + 1) := le_skipTrivia
  have : j ≤ skipTrivia queue j := le_skipTrivia
  omega

theorem scanNameTail_eq (queue : List Token) (i : Nat) : scanNameTail queue i =
    match scanAnyTypeArguments queue i with
    | none => i
    | some j =>
      let separator := skipTrivia queue j
      let segment := skipTrivia queue (separator + 1)
      if Words.isNameSeparator (kindAt queue separator) && kindAt queue segment == .identifier then
        scanNameTail queue (segment + 1)
      else j := by
  rw [scanNameTail]
  split <;> rename_i h <;> rw [h]

/-- The first place from `i` on where a word other than a comma stands. -/
def scanCommas (queue : List Token) (i : Nat) : Nat :=
  let next := skipTrivia queue i
  if kindAt queue next == .comma then scanCommas queue (next + 1) else next
termination_by queue.length - i
decreasing_by
  have hnext : skipTrivia queue i < queue.length := lt_length_of_beq (k := .comma) ‹_› (by decide)
  have : i ≤ skipTrivia queue i := le_skipTrivia
  omega

theorem le_scanCommas (queue : List Token) (i : Nat) : i ≤ scanCommas queue i := by
  fun_induction scanCommas queue i with
  | case1 i next _ ih => exact Nat.le_trans le_skipTrivia_succ ih
  | case2 => exact le_skipTrivia

/-- The place behind the suffixes of a type. -/
def scanTypeSuffixes (queue : List Token) (i : Nat) : Nat :=
  let next := skipTrivia queue i
  if kindAt queue next == .question || kindAt queue next == .star then
    scanTypeSuffixes queue (next + 1)
  else if kindAt queue next == .lBracket then
    let close := scanCommas queue (next + 1)
    if kindAt queue close == .rBracket then scanTypeSuffixes queue (close + 1) else i
  else i
termination_by queue.length - i
decreasing_by
  all_goals have : i ≤ skipTrivia queue i := le_skipTrivia
  · have hnext : skipTrivia queue i < queue.length := by
      rcases Bool.or_eq_true_iff.mp ‹_› with h | h
      · exact lt_length_of_beq h (by decide)
      · exact lt_length_of_beq h (by decide)
    omega
  · have hclose : scanCommas queue (skipTrivia queue i + 1) < queue.length :=
      lt_length_of_beq (k := .rBracket) ‹_› (by decide)
    have := le_scanCommas queue (skipTrivia queue i + 1)
    omega

theorem le_scanTypeSuffixes (queue : List Token) (i : Nat) : i ≤ scanTypeSuffixes queue i := by
  fun_induction scanTypeSuffixes queue i with
  | case1 i next _ ih => exact Nat.le_trans le_skipTrivia_succ ih
  | case2 i next _ _ close _ ih =>
    exact Nat.le_trans le_skipTrivia_succ
      (Nat.le_trans (le_scanCommas queue (next + 1)) (Nat.le_of_succ_le ih))
  | case3 | case4 => exact Nat.le_refl _

theorem le_scanNameTail (queue : List Token) (i : Nat) : i ≤ scanNameTail queue i := by
  fun_induction scanNameTail queue i with
  | case1 => exact Nat.le_refl _
  | case2 i j hj separator segment _ ih =>
    exact Nat.le_trans (le_scanAnyTypeArguments hj)
      (Nat.le_trans le_skipTrivia_succ (Nat.le_trans le_skipTrivia_succ ih))
  | case3 i j hj => exact le_scanAnyTypeArguments hj

/-- The place behind the suffixes at a place. -/
def From.suffixes (queue : List Token) (p : From i) : From i :=
  ⟨scanTypeSuffixes queue p.place, Nat.le_trans p.le (le_scanTypeSuffixes queue p.place)⟩

/-- The place behind the segments of a type name at a place. -/
def From.nameTail (queue : List Token) (p : From i) : From i :=
  ⟨scanNameTail queue p.place, Nat.le_trans p.le (le_scanNameTail queue p.place)⟩

/-- The place of the next word that is not a name in front of it. -/
def From.unnamed (queue : List Token) (p : From i) : From i :=
  let name := p.word queue
  if kindAt queue name.place == .identifier then name.next.word queue else name

mutual

/-- The place behind the type that starts at `i`. -/
def scanTypeFrom (queue : List Token) (i : Nat) : Option (From i) :=
  let first : From i := ⟨skipTrivia queue i, le_skipTrivia⟩
  let kind := kindAt queue first.place
  if kind.isPredefinedType || kind == .voidKw then some (first.next.suffixes queue)
  else if kind == .lParen then
    (scanElementsFrom queue first.next.place 0).map fun behind =>
      (behind.ofLe first.next.le).suffixes queue
  else if kind == .identifier then some ((first.next.nameTail queue).suffixes queue)
  else none
termination_by 2 * (queue.length - i)
decreasing_by
  have hfirst : skipTrivia queue i < queue.length := lt_length_of_beq (k := .lParen) ‹_› (by decide)
  have : i ≤ skipTrivia queue i := le_skipTrivia
  simp only [From.next]
  omega

/-- The place behind the elements of a tuple type and its closing parenthesis, when `count` elements
have been passed. -/
def scanElementsFrom (queue : List Token) (i count : Nat) : Option (From i) :=
  match scanTypeFrom queue i with
  | none => none
  | some behind =>
    let next := behind.unnamed queue
    if kindAt queue next.place == .comma then
      (scanElementsFrom queue next.next.place (count + 1)).map (.ofLe next.next.le)
    else if kindAt queue next.place == .rParen && 2 ≤ count + 1 then some next.next
    else none
termination_by 2 * (queue.length - i) + 1
decreasing_by
  · omega
  · have hnext := lt_length_of_beq (k := .comma) ‹_› (by decide)
    have := next.le
    change 2 * (queue.length - (next.place + 1)) + 1 < _
    omega

end

/-- The place behind the type that starts at `i`. -/
def scanType (queue : List Token) (i : Nat) : Option Nat := (scanTypeFrom queue i).map From.place

/-- The place behind the parenthesis that closes the group at `i`, when `depth` are open there; or
the end of the text. -/
def skipBalanced (queue : List Token) (i depth : Nat) : Nat :=
  match _h : queue[i]? with
  | none => i
  | some t =>
    match t.kind with
    | .lParen => skipBalanced queue (i + 1) (depth + 1)
    | .rParen => if depth - 1 = 0 then i + 1 else skipBalanced queue (i + 1) (depth - 1)
    | .eof => i
    | _ => skipBalanced queue (i + 1) depth
termination_by queue.length - i
decreasing_by
  all_goals
    have := (List.getElem?_eq_some_iff.mp _h).1
    omega

theorem skipBalanced_eq (queue : List Token) (i depth : Nat) : skipBalanced queue i depth =
    match queue[i]? with
    | none => i
    | some t =>
      match t.kind with
      | .lParen => skipBalanced queue (i + 1) (depth + 1)
      | .rParen => if depth - 1 = 0 then i + 1 else skipBalanced queue (i + 1) (depth - 1)
      | .eof => i
      | _ => skipBalanced queue (i + 1) depth := by
  rw [skipBalanced]
  split <;> rename_i h <;> rw [h]

/-- The place behind a designation, when its parenthesis has just been passed. -/
def scanDesignationFrom (queue : List Token) (i : Nat) : Option (From i) :=
  let first : From i := ⟨skipTrivia queue i, le_skipTrivia⟩
  let behind : Option (From i) :=
    if kindAt queue first.place == .identifier then some first.next
    else if kindAt queue first.place == .lParen then
      (scanDesignationFrom queue first.next.place).map (.ofLe first.next.le)
    else none
  match behind with
  | none => none
  | some behind =>
    let next := behind.word queue
    if kindAt queue next.place == .comma then
      (scanDesignationFrom queue next.next.place).map (.ofLe next.next.le)
    else if kindAt queue next.place == .rParen then some next.next
    else none
termination_by queue.length - i
decreasing_by
  · have hfirst : skipTrivia queue i < queue.length :=
      lt_length_of_beq (k := .lParen) ‹_› (by decide)
    have : i ≤ skipTrivia queue i := le_skipTrivia
    simp only [From.next]
    omega
  · have hnext := lt_length_of_beq (k := .comma) ‹_› (by decide)
    have := next.le
    change queue.length - (next.place + 1) < _
    omega

/-- The place behind a designation, when its parenthesis has just been passed. -/
def scanDesignation (queue : List Token) (i : Nat) : Option Nat :=
  (scanDesignationFrom queue i).map From.place

/-! ## Agreement with the scans over words -/

/-- The scan over words, with the angle brackets counted as the scan over places does. -/
theorem closeAngles_cons {depth : Nat} (hd : 0 < depth) {w : Token} (hw : w.isTrivia = false)
    (ws : List Token) : Words.closeAngles depth (w :: ws) =
      match anglesBehind w.kind depth with
      | none => none
      | some d =>
        if 0 < d then Words.closeAngles d.toNat ws else if d = 0 then some ws else none := by
  have hk : w.kind.isTrivia = false := hw
  unfold anglesBehind
  rw [Words.closeAngles, hk, if_neg Bool.false_ne_true]
  split
  · rename_i h
    simp only [h]
    rw [if_pos (by omega)]
    rfl
  · rename_i h
    simp only [h]
    by_cases hone : depth = 1
    · subst hone
      rfl
    · rw [if_neg (by omega), if_pos (by omega), show ((depth : Int) - 1).toNat = depth - 1 by omega]
  · rename_i h
    simp only [h]
    by_cases hone : depth = 1
    · subst hone
      rfl
    by_cases htwo : depth = 2
    · subst htwo
      rfl
    · rw [if_neg (by omega), if_neg htwo, if_pos (by omega),
        show ((depth : Int) - 2).toNat = depth - 2 by omega]
  · split
    · rename_i hargument
      simp [hargument, hd]
    · rename_i hargument
      simp [hargument]

theorem map_scanAngles (queue : List Token) (i : Nat) {depth : Nat} (hd : 0 < depth) :
    (scanAngles queue i depth).map (wordsFrom queue) =
      Words.closeAngles depth (wordsFrom queue i) := by
  rw [scanAngles_eq]
  cases hi : queue[i]? with
  | none =>
    rw [wordsFrom_none hi, show kindAt queue i = .eof by rw [kindAt, hi]; rfl]
    rfl
  | some t =>
    have hlt := (List.getElem?_eq_some_iff.mp hi).1
    have goOn {d : Nat} (hd : 0 < d) := map_scanAngles queue (i + 1) hd
    rw [show kindAt queue i = t.kind by rw [kindAt, hi]; rfl]
    by_cases ht : t.isTrivia = true
    · have htrivia : anglesBehind t.kind depth = some (depth : Int) := if_pos ht
      rw [wordsFrom_trivia hi ht, htrivia]
      simpa [hd] using goOn hd
    · have hsig := Bool.eq_false_iff.mpr ht
      rw [wordsFrom_word hi hsig, closeAngles_cons hd hsig]
      cases anglesBehind t.kind depth with
      | none => rfl
      | some d =>
        by_cases hpos : 0 < d
        · obtain ⟨n, rfl⟩ := Int.eq_ofNat_of_zero_le (Int.le_of_lt hpos)
          have hn := goOn (d := n) (by omega)
          show Option.map _ (if _ then _ else _) = (if _ then _ else _)
          rw [if_pos hpos, if_pos hpos]
          exact hn
        · by_cases hzero : d = 0
          · subst hzero
            rfl
          · simp [hpos, hzero]
termination_by queue.length - i

theorem map_scanTypeArguments (queue : List Token) (i : Nat) (h : kindAt queue i = .less) :
    (scanTypeArguments queue i).map (wordsFrom queue) =
      Words.scanTypeArguments (wordsFrom queue i) := by
  cases hi : queue[i]? with
  | none =>
    rw [kindAt, hi] at h
    cases h
  | some t =>
    have hkind : t.kind = .less := by simpa [kindAt, hi] using h
    have hsig : t.isTrivia = false := by rw [Token.isTrivia, hkind]; rfl
    have hangles : anglesBehind .less 0 = some 1 := rfl
    rw [scanTypeArguments, scanAngles_eq, h, hangles, wordsFrom_word hi hsig,
      Words.scanTypeArguments, hkind]
    exact map_scanAngles queue (i + 1) Nat.zero_lt_one

theorem map_scanAnyTypeArguments (queue : List Token) (i : Nat) :
    (scanAnyTypeArguments queue i).map (wordsFrom queue) =
      Words.afterTypeArguments (wordsFrom queue i) := by
  rw [scanAnyTypeArguments, Words.afterTypeArguments]
  simp only [kindAt_skipTrivia]
  split
  · rename_i h
    rw [map_scanTypeArguments queue _ (by simpa using h), wordsFrom_skipTrivia]
  · rfl

theorem wordsFrom_scanNameTail (queue : List Token) (i : Nat) :
    wordsFrom queue (scanNameTail queue i) = Words.skipNameTail (wordsFrom queue i) := by
  fun_induction scanNameTail queue i with
  | case1 i hnone =>
    rw [Words.skipNameTail_eq, ← map_scanAnyTypeArguments, hnone, Option.map_none]
  | case2 i j hj separator segment hsegment ih =>
    rw [ih, Words.skipNameTail_eq (wordsFrom queue i), ← map_scanAnyTypeArguments, hj,
      Option.map_some]
    simp only [separator, segment, kindAt_skipTrivia, wordsFrom_skipTrivia_succ,
      List.drop_drop] at hsegment ⊢
    rw [if_pos hsegment]
  | case3 i j hj separator segment hsegment =>
    rw [Words.skipNameTail_eq, ← map_scanAnyTypeArguments, hj, Option.map_some]
    simp only [separator, segment, kindAt_skipTrivia, wordsFrom_skipTrivia_succ] at hsegment ⊢
    rw [if_neg hsegment]

/-- No trivia stands behind the commas. -/
theorem scanCommas_spec (queue : List Token) (i : Nat) :
    ∃ j, scanCommas queue i = skipTrivia queue j ∧
      wordsFrom queue j = (wordsFrom queue i).dropWhile (·.kind == .comma) := by
  fun_induction scanCommas queue i with
  | case1 i next hcomma ih =>
    obtain ⟨j, hscan, hwords⟩ := ih
    refine ⟨j, hscan, ?_⟩
    rw [hwords, wordsFrom_skipTrivia_succ]
    rw [kindAt_skipTrivia] at hcomma
    cases hws : wordsFrom queue i with
    | nil => rfl
    | cons w ws =>
      rw [hws] at hcomma
      rw [List.dropWhile_cons]
      exact (if_pos hcomma).symm
  | case2 i next hcomma =>
    refine ⟨i, rfl, ?_⟩
    rw [kindAt_skipTrivia] at hcomma
    cases hws : wordsFrom queue i with
    | nil => rfl
    | cons w ws =>
      rw [hws] at hcomma
      rw [List.dropWhile_cons]
      exact (if_neg hcomma).symm

theorem wordsFrom_scanTypeSuffixes (queue : List Token) (i : Nat) :
    wordsFrom queue (scanTypeSuffixes queue i) = Words.skipTypeSuffixes (wordsFrom queue i) := by
  induction hn : (wordsFrom queue i).length using Nat.strongRecOn generalizing i with
  | _ n ih =>
  rw [scanTypeSuffixes]
  simp only [kindAt_skipTrivia]
  cases hws : wordsFrom queue i with
  | nil => simpa [hws] using (Words.skipTypeSuffixes.eq_1).symm
  | cons w ws =>
    have hrest : wordsFrom queue (skipTrivia queue i + 1) = ws := by simp [hws]
    rw [hws, List.length_cons] at hn
    rw [Words.skipTypeSuffixes_cons_eq, Words.front_cons]
    by_cases hmark : w.kind = .question ∨ w.kind = .star
    · rw [if_pos (by simpa using hmark), if_pos hmark, ← hrest]
      exact ih _ (by rw [hrest]; omega) _ rfl
    rw [if_neg (by simpa using hmark), if_neg hmark]
    by_cases hopen : w.kind = .lBracket
    · obtain ⟨j, hcommas, hwords⟩ := scanCommas_spec queue (skipTrivia queue i + 1)
      rw [hrest] at hwords
      rw [if_pos (by simpa using hopen), hcommas, kindAt_skipTrivia, hwords]
      by_cases hclose : front (ws.dropWhile (·.kind == .comma)) = .rBracket
      · rw [if_pos (by simpa using hclose), if_pos ⟨hopen, hclose⟩, ← hwords,
          ← wordsFrom_skipTrivia_succ]
        have hlength := (List.dropWhile_suffix (l := ws) (·.kind == .comma)).length_le
        refine ih _ ?_ _ rfl
        rw [wordsFrom_skipTrivia_succ, hwords, List.length_drop]
        omega
      · rw [if_neg (by simpa using hclose), if_neg fun h => hclose h.2, hws]
    · rw [if_neg (by simpa using hopen), if_neg fun h => hopen h.1, hws]

/-- No trivia stands behind the name. -/
theorem unnamed_spec (queue : List Token) (p : From i) :
    ∃ j, (p.unnamed queue).place = skipTrivia queue j ∧
      wordsFrom queue j = Words.skipIdentifier (wordsFrom queue p.place) := by
  rw [From.unnamed]
  simp only [From.word, From.next, kindAt_skipTrivia]
  split
  · rename_i hname
    refine ⟨skipTrivia queue p.place + 1, rfl, ?_⟩
    rw [wordsFrom_skipTrivia_succ]
    cases hws : wordsFrom queue p.place with
    | nil => rfl
    | cons w ws =>
      rw [hws] at hname
      exact (if_pos hname).symm
  · rename_i hname
    refine ⟨p.place, rfl, ?_⟩
    cases hws : wordsFrom queue p.place with
    | nil => rfl
    | cons w ws =>
      rw [hws] at hname
      exact (if_neg hname).symm

/-- The words behind a place that a scan has found. -/
def From.words (queue : List Token) (p : From i) : List Token := wordsFrom queue p.place

@[simp] theorem map_words_ofLe (h : i ≤ j) (found : Option (From j)) :
    (found.map (From.ofLe h)).map (From.words queue) = found.map (From.words queue) :=
  Option.map_map _ _ _

/-- A type and the elements of a tuple type.  The induction is on the number of words ahead: the
elements of a tuple stand behind its parenthesis, and a type that is an element holds a word. -/
theorem map_scanTypeFrom (queue : List Token) (i : Nat) :
    (scanTypeFrom queue i).map (From.words queue) = Words.afterType (wordsFrom queue i) ∧
      ∀ count, (scanElementsFrom queue i count).map (From.words queue) =
        Words.afterElements count (wordsFrom queue i) := by
  induction hn : (wordsFrom queue i).length using Nat.strongRecOn generalizing i with
  | _ n ih =>
  have htype : (scanTypeFrom queue i).map (From.words queue) =
      Words.afterType (wordsFrom queue i) := by
    rw [scanTypeFrom]
    simp only [kindAt_skipTrivia]
    cases hws : wordsFrom queue i with
    | nil =>
      rw [Words.afterType, Words.scanType]
      rfl
    | cons w ws =>
      have hrest : wordsFrom queue (skipTrivia queue i + 1) = ws := by simp [hws]
      rw [hws, List.length_cons] at hn
      rw [Words.afterType_cons, Words.front_cons, ← hrest]
      by_cases hbuiltIn : (w.kind.isPredefinedType || w.kind == .voidKw) = true
      · rw [if_pos hbuiltIn, if_pos hbuiltIn]
        exact congrArg some (wordsFrom_scanTypeSuffixes queue _)
      rw [if_neg hbuiltIn, if_neg hbuiltIn]
      by_cases hname : w.kind = .identifier
      · rw [if_neg (by simp [hname]), if_pos (by simp [hname]), if_pos hname,
          ← wordsFrom_scanNameTail]
        exact congrArg some (wordsFrom_scanTypeSuffixes queue _)
      rw [if_neg hname]
      by_cases hopen : w.kind = .lParen
      · have helements := (ih _ (by rw [hrest]; omega) _ rfl).2 0
        rw [if_pos (by simp [hopen]), if_pos hopen, ← helements]
        simp only [From.next, Option.map_map]
        exact congrArg (Option.map · _) (funext fun p => wordsFrom_scanTypeSuffixes queue p.place)
      · rw [if_neg (by simpa using hopen), if_neg (by simpa using hname), if_neg hopen]
        rfl
  refine ⟨htype, fun count => ?_⟩
  rw [scanElementsFrom, Words.afterElements_eq, ← htype]
  cases hscan : scanTypeFrom queue i with
  | none => rfl
  | some behind =>
    have hlength := Words.length_afterType (htype.symm.trans (congrArg _ hscan))
    obtain ⟨k, hnext, hwords⟩ := unnamed_spec queue behind
    have hle := Words.length_skipIdentifier (wordsFrom queue behind.place)
    have hlength' : (wordsFrom queue behind.place).length < n := hn ▸ hlength
    simp only [Option.map_some, Option.bind_some, apply_ite (Option.map (From.words queue)),
      map_words_ofLe, Option.map_none]
    generalize behind.unnamed queue = next at hnext ⊢
    obtain ⟨_, hplace⟩ := next
    cases hnext
    simp only [From.next, kindAt_skipTrivia]
    rw [From.words, From.words, ← hwords]
    rw [← hwords] at hle
    cases hrest : wordsFrom queue k with
    | nil => rfl
    | cons w ws =>
      have hws : wordsFrom queue (skipTrivia queue k + 1) = ws := by simp [hrest]
      rw [hrest, List.length_cons] at hle
      have hcount : decide (2 ≤ count + 1) = decide (1 ≤ count) :=
        decide_eq_decide.mpr (by omega)
      simp only [Words.front_cons, hcount]
      by_cases hcomma : (w.kind == .comma) = true
      · rw [if_pos hcomma, if_pos hcomma, ← hws]
        exact (ih _ (by rw [hws]; omega) _ rfl).2 (count + 1)
      rw [if_neg hcomma, if_neg hcomma]
      by_cases hclose : (w.kind == .rParen && decide (1 ≤ count)) = true
      · rw [if_pos hclose, if_pos hclose, ← hws]
      · rw [if_neg hclose, if_neg hclose]

theorem map_scanType (queue : List Token) (i : Nat) :
    (scanType queue i).map (wordsFrom queue) = Words.afterType (wordsFrom queue i) :=
  (Option.map_map _ _ _).trans (map_scanTypeFrom queue i).1

theorem le_scanType (h : scanType queue i = some j) : i ≤ j := by
  obtain ⟨p, -, rfl⟩ := Option.map_eq_some_iff.mp h
  exact p.le

theorem wordsFrom_skipBalanced (queue : List Token) (i : Nat) {depth : Nat} (hd : 0 < depth) :
    wordsFrom queue (skipBalanced queue i depth) = Words.skipParens depth (wordsFrom queue i) := by
  induction hn : queue.length - i using Nat.strongRecOn generalizing i depth with
  | _ n ih =>
  rw [skipBalanced_eq]
  cases hi : queue[i]? with
  | none => rw [wordsFrom_none hi, Words.skipParens]
  | some t =>
    have hlt := (List.getElem?_eq_some_iff.mp hi).1
    have goOn {d : Nat} (hd : 0 < d) := ih (queue.length - (i + 1)) (by omega) (i + 1) hd rfl
    have word {k : Kind} (hk : t.kind = k) (ht : k.isTrivia = false) :
        wordsFrom queue i = t :: wordsFrom queue (i + 1) :=
      wordsFrom_word hi (by rw [Token.isTrivia, hk, ht])
    simp only
    split
    · rename_i hk
      rw [word hk rfl, Words.skipParens, hk]
      exact goOn (Nat.succ_pos depth)
    · rename_i hk
      rw [word hk rfl, Words.skipParens, hk]
      by_cases hone : depth = 1
      · subst hone
        rfl
      · rw [if_neg (by omega)]
        simp only [show ¬ depth ≤ 1 by omega, if_false]
        exact goOn (by omega)
    · rename_i hk
      rw [word hk rfl, Words.skipParens, hk]
    · rename_i hopen hclose heof
      by_cases ht : t.isTrivia = true
      · rw [wordsFrom_trivia hi ht]
        exact goOn hd
      · rw [wordsFrom_word hi (Bool.eq_false_iff.mpr ht), Words.skipParens]
        split
        · exact absurd ‹_› hopen
        · exact absurd ‹_› hclose
        · exact absurd ‹_› heof
        · exact goOn hd

/-- Behind a name or a designation inside: a comma, or the parenthesis that closes the designation. -/
def From.afterDesignated (queue : List Token) (p : From i) : Option (From i) :=
  let next := p.word queue
  if kindAt queue next.place == .comma then
    (scanDesignationFrom queue next.next.place).map (.ofLe next.next.le)
  else if kindAt queue next.place == .rParen then some next.next
  else none

theorem scanDesignationFrom_eq (queue : List Token) (i : Nat) : scanDesignationFrom queue i =
    let first : From i := ⟨skipTrivia queue i, le_skipTrivia⟩
    if kindAt queue first.place == .identifier then first.next.afterDesignated queue
    else if kindAt queue first.place == .lParen then
      ((scanDesignationFrom queue first.next.place).map (.ofLe first.next.le)).bind
        (From.afterDesignated queue)
    else none := by
  rw [scanDesignationFrom]
  by_cases hname : (kindAt queue (skipTrivia queue i) == .identifier) = true
  · simp only [hname, ↓reduceIte]
    rfl
  by_cases hopen : (kindAt queue (skipTrivia queue i) == .lParen) = true
  · simp only [hname, hopen, ↓reduceIte]
    cases scanDesignationFrom queue (From.next ⟨skipTrivia queue i, le_skipTrivia⟩).place <;> rfl
  · simp only [hname, hopen]
    rfl

/-- The scan over words counts the parentheses that it opens, so behind a designation that it opened
it goes on. -/
theorem skipDesignation_eq (queue : List Token) (i depth : Nat) :
    (∀ p ∈ scanDesignationFrom queue i, (p.words queue).length < (wordsFrom queue i).length) ∧
      Words.skipDesignation (depth + 1) (wordsFrom queue i) =
        (scanDesignationFrom queue i).bind fun p => if depth = 0 then some (p.words queue)
          else Words.skipDesignation.afterDesignated depth (p.words queue) := by
  induction hn : (wordsFrom queue i).length using Nat.strongRecOn generalizing i depth with
  | _ n ih =>
  -- What is common to a name and to a designation inside: a comma or a closing parenthesis.
  have behind (p : From i) (hlt : (p.words queue).length < n) :
      (∀ q ∈ p.afterDesignated queue, (q.words queue).length < n) ∧
        Words.skipDesignation.afterDesignated (depth + 1) (p.words queue) =
          (p.afterDesignated queue).bind fun q => if depth = 0 then some (q.words queue)
            else Words.skipDesignation.afterDesignated depth (q.words queue) := by
    rw [From.afterDesignated]
    simp only [From.word, From.next, kindAt_skipTrivia]
    cases hws : wordsFrom queue p.place with
    | nil =>
      rw [From.words, hws]
      exact ⟨nofun, rfl⟩
    | cons w ws =>
      have hrest : wordsFrom queue (skipTrivia queue p.place + 1) = ws := by simp [hws]
      rw [From.words, hws] at hlt ⊢
      rw [List.length_cons] at hlt
      rw [Words.front_cons, Words.skipDesignation.afterDesignated]
      by_cases hcomma : w.kind = .comma
      · obtain ⟨hshort, heq⟩ := ih ws.length (by omega) (skipTrivia queue p.place + 1) depth
          (by rw [hrest])
        rw [hrest] at heq
        simp only [hcomma, beq_self_eq_true, ↓reduceIte]
        refine ⟨fun q hq => ?_, ?_⟩
        · obtain ⟨q', hq', rfl⟩ := Option.map_eq_some_iff.mp hq
          have : (q'.words queue).length < ws.length := hshort q' hq'
          exact Nat.lt_trans this (by omega)
        · rw [heq, Option.bind_map]
          rfl
      by_cases hclose : w.kind = .rParen
      · simp only [hclose]
        refine ⟨fun q hq => ?_, ?_⟩
        · cases hq
          rw [From.words, hrest]
          omega
        · rw [← hrest]
          simp [From.words]
      · simp [hcomma, hclose]
  rw [scanDesignationFrom_eq]
  simp only [kindAt_skipTrivia]
  cases hws : wordsFrom queue i with
  | nil => exact ⟨nofun, rfl⟩
  | cons w ws =>
    have hrest : wordsFrom queue (skipTrivia queue i + 1) = ws := by simp [hws]
    rw [hws, List.length_cons] at hn
    rw [Words.front_cons, Words.skipDesignation]
    by_cases hname : w.kind = .identifier
    · simp only [hname, beq_self_eq_true, ↓reduceIte]
      have h := behind (From.next ⟨skipTrivia queue i, le_skipTrivia⟩)
        (by rw [From.words, From.next, hrest]; omega)
      rw [From.words, From.next, hrest] at h
      exact hn ▸ h
    by_cases hopen : w.kind = .lParen
    · obtain ⟨hshort, heq⟩ := ih ws.length (by omega) (skipTrivia queue i + 1) (depth + 1)
        (by rw [hrest])
      rw [hrest] at heq
      simp only [hopen]
      rw [heq, if_neg (by decide), if_pos (by decide), From.next]
      cases hinner : scanDesignationFrom queue (skipTrivia queue i + 1) with
      | none => exact ⟨nofun, rfl⟩
      | some p =>
        have hlt : (p.words queue).length < ws.length := hshort p hinner
        exact hn ▸ behind (p.ofLe le_skipTrivia_succ) (Nat.lt_trans hlt (by omega))
    · simp [hname, hopen]
theorem map_scanDesignation (queue : List Token) (i : Nat) :
    (scanDesignation queue i).map (wordsFrom queue) =
      Words.skipDesignation 1 (wordsFrom queue i) := by
  rw [(skipDesignation_eq queue i 0).2, scanDesignation, Option.map_map,
    Option.map_eq_bind]
  rfl

end Queue

end LivePatch
