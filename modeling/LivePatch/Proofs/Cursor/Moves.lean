import LivePatch.Syntax.Cursor
import LivePatch.Proofs.Cutting.Numbers
import LivePatch.Proofs.Scripts

/-!
# How far the cursor moves

A move that notes no fault is described by what it answers and how many characters it takes when a
text `cs` is ahead (`Cursor.Takes`).  The scanners of the cursor take just as many as the reaches
and lengths of the lexer say, which count the same characters without moving over them.
-/

namespace LivePatch

namespace Cursor

open Lexer

variable {α β : Type} {cs : List Char} {c : Char}

/-! ## Where a cursor stands -/

/-- The cursor stands in front of `cs`, between two characters. -/
def At (s : Cursor) (cs : List Char) : Prop :=
  ∃ front, s.input = front ++ cs ∧ s.pos = byteLength front

/-- The cursor behind `piece`. -/
def past (s : Cursor) (piece : List Char) : Cursor := { s with pos := s.pos + byteLength piece }

theorem past_nil (s : Cursor) : s.past [] = s := rfl

theorem past_append (s : Cursor) (cs ds : List Char) : (s.past cs).past ds = s.past (cs ++ ds) := by
  simp only [past, byteLength_append, Nat.add_assoc]

theorem At.past {s : Cursor} {piece rest : List Char} (h : s.At (piece ++ rest)) :
    (s.past piece).At rest := by
  obtain ⟨front, hinput, hpos⟩ := h
  refine ⟨front ++ piece, ?_, ?_⟩
  · rw [List.append_assoc]
    exact hinput
  · rw [byteLength_append, ← hpos]
    rfl

theorem At.take {s : Cursor} (h : s.At cs) (n : Nat) : (s.past (cs.take n)).At (cs.drop n) :=
  At.past (by rwa [List.take_append_drop])

theorem At.ahead {s : Cursor} (h : s.At cs) : ahead s = some (cs, s) := by
  obtain ⟨front, hinput, hpos⟩ := h
  rw [Cursor.ahead, hinput, hpos, splitAtByte?_append]
  rfl

/-- The end of the text is where all that is ahead has been passed. -/
theorem At.end_eq {s : Cursor} (h : s.At cs) :
    { s with pos := byteLength s.input } = s.past cs := by
  obtain ⟨front, hinput, hpos⟩ := h
  rw [Cursor.past, hinput, byteLength_append, ← hpos]

/-! ## Going round a loop -/

theorem add_byteLength_of_splitAtByte? {n : Nat} {cs front back : List Char}
    (h : splitAtByte? n cs = some (front, back)) : n + byteLength back = byteLength cs := by
  induction cs generalizing n front with
  | nil =>
    rw [splitAtByte?] at h
    split at h <;> cases h
    simp_all [byteLength]
  | cons c cs ih =>
    rw [splitAtByte?] at h
    split at h
    · cases h
      simp_all
    split at h
    · obtain ⟨⟨front', back'⟩, hrest, heq⟩ := Option.map_eq_some_iff.mp h
      cases heq
      have := ih hrest
      rw [byteLength]
      omega
    · cases h

theorem of_peek {s t : Cursor} {o : Option Char} (h : peek s = some (o, t)) :
    t = s ∧ ∀ c ∈ o, c.utf8Size ≤ s.left := by
  obtain ⟨⟨cs, u⟩, hahead, hpure⟩ := Option.bind_eq_some_iff.mp h
  obtain ⟨⟨front, back⟩, hsplit, heq⟩ := Option.map_eq_some_iff.mp hahead
  cases heq
  cases hpure
  refine ⟨rfl, fun c hc => ?_⟩
  have hwidth := add_byteLength_of_splitAtByte? hsplit
  obtain ⟨rest, rfl⟩ := List.head?_eq_some_iff.mp hc
  rw [byteLength] at hwidth
  rw [left]
  omega

theorem bump_of_peek {s : Cursor} {c : Char} (h : peek s = some (some c, s)) :
    bump s = some (some c, { s with pos := s.pos + c.utf8Size }) := by
  show (peek s).bind _ = _
  rw [h]
  rfl

theorem of_bump {s t : Cursor} {o : Option Char} (h : bump s = some (o, t)) :
    t.left ≤ s.left ∧ ∀ c ∈ o, t.left < s.left := by
  obtain ⟨⟨p, u⟩, hpeek, hrest⟩ := Option.bind_eq_some_iff.mp h
  obtain ⟨rfl, hfits⟩ := of_peek hpeek
  cases p with
  | none =>
    cases hrest
    exact ⟨Nat.le_refl _, nofun⟩
  | some c =>
    cases hrest
    have hpos := c.utf8Size_pos
    have hfits := hfits c rfl
    have hlt : byteLength u.input - (u.pos + c.utf8Size) < u.left := by
      rw [left] at hfits ⊢
      omega
    exact ⟨Nat.le_of_lt hlt, fun _ _ => hlt⟩

/-- What is ahead behind the move was ahead in front of it. -/
def Onward (m : Move α) : Prop := ∀ s a t, m s = some (a, t) → t.left ≤ s.left

theorem onward_peek : Onward peek := fun _ _ _ h => Nat.le_of_eq (by rw [(of_peek h).1])

theorem onward_bump : Onward bump := fun _ _ _ h => (of_bump h).1

theorem onward_pure (a : α) : Onward (pure a) := fun _ _ _ h => by
  cases h
  exact Nat.le_refl _

theorem Onward.bind {m : Move α} {f : α → Move β} (hm : Onward m) (hf : ∀ a, Onward (f a)) :
    Onward (m >>= f) := by
  intro s b t h
  obtain ⟨⟨a, u⟩, hfirst, hnext⟩ := Option.bind_eq_some_iff.mp h
  exact Nat.le_trans (hf a u b t hnext) (hm s a u hfirst)

theorem Onward.ite {p : Prop} [Decidable p] {m m' : Move α} (h : Onward m) (h' : Onward m') :
    Onward (if p then m else m') := by
  split <;> assumption

theorem onward_loop {σ : Type} {round : (σ → Move α) → σ → Move α}
    (h : ∀ again, (∀ y, Onward (again y)) → ∀ x, Onward (round again x)) (x : σ) :
    Onward (loop round x) := by
  intro s
  induction hn : s.left using Nat.strongRecOn generalizing s x with
  | _ n ih =>
  intro a t hloop
  rw [loop] at hloop
  refine hn ▸ h _ (fun y u b v hagain => ?_) x s a t hloop
  split at hagain
  · rename_i hlt
    exact ih u.left (hn ▸ hlt) y u rfl b v hagain
  · cases hagain

/-- The two moves do the same wherever fewer than `n` bytes are ahead. -/
def SameBelow (n : Nat) (m m' : Move α) : Prop := ∀ s : Cursor, s.left < n → m s = m' s

theorem SameBelow.refl (n : Nat) (m : Move α) : SameBelow n m m := fun _ _ => rfl

theorem SameBelow.ite {n : Nat} {p : Prop} [Decidable p] {m₁ m₂ m₁' m₂' : Move α}
    (h : SameBelow n m₁ m₁') (h' : SameBelow n m₂ m₂') :
    SameBelow n (if p then m₁ else m₂) (if p then m₁' else m₂') := by
  split <;> assumption

theorem SameBelow.bind {n : Nat} {m : Move α} {f g : α → Move β} (hm : Onward m)
    (h : ∀ a, SameBelow n (f a) (g a)) : SameBelow n (m >>= f) (m >>= g) := by
  intro s hs
  refine Option.bind_congr fun p hp => ?_
  exact h p.1 p.2 (Nat.lt_of_le_of_lt (hm s p.1 p.2 hp) hs)

theorem SameBelow.bump {n : Nat} {f g : Option Char → Move β} (hnone : f none = g none)
    (h : ∀ c, SameBelow n (f (some c)) (g (some c))) :
    SameBelow (n + 1) (Cursor.bump >>= f) (Cursor.bump >>= g) := by
  intro s hs
  refine Option.bind_congr fun p hp => ?_
  obtain ⟨o, t⟩ := p
  cases o with
  | none => exact congrFun hnone t
  | some c =>
    exact h c t (Nat.lt_of_lt_of_le ((of_bump hp).2 c rfl) (Nat.le_of_lt_succ hs))

/-- **A loop goes round**, if each round moves the cursor on before the next one. -/
theorem loop_eq {σ : Type} {round : (σ → Move α) → σ → Move α}
    (h : ∀ n f g, (∀ y, SameBelow n (f y) (g y)) → ∀ x, SameBelow (n + 1) (round f x) (round g x))
    (x : σ) : loop round x = round (loop round) x := by
  funext s
  rw [loop]
  exact h s.left _ _ (fun y t ht => if_pos ht) x s (Nat.lt_succ_self _)

theorem eatWhile_eq (p : Char → Bool) : eatWhile p = (do
    if (← peek).any p then
      let _ ← bump
      eatWhile p) := by
  refine loop_eq (fun n f g hfg _ s hs => ?_) ()
  refine Option.bind_congr fun q hq => ?_
  obtain ⟨o, t⟩ := q
  obtain ⟨rfl, -⟩ := of_peek hq
  cases o with
  | none => rfl
  | some c =>
    show (if _ then _ else _ : Move Unit) t = (if _ then _ else _ : Move Unit) t
    split
    · have hbump := bump_of_peek hq
      show (bump t).bind _ = (bump t).bind _
      rw [hbump]
      exact hfg () _ (Nat.lt_of_lt_of_le ((of_bump hbump).2 c rfl) (Nat.le_of_lt_succ hs))
    · rfl

theorem scanString_eq (verbatim : Bool) : scanString verbatim = (do
    match ← bump with
    | none => return false
    | some c =>
      if c == '"' && verbatim && (← peek) == some '"' then
        let _ ← bump
        scanString verbatim
      else if c == '"' then return true
      else if c == '\\' && !verbatim then
        let _ ← bump
        scanString verbatim
      else if c == '\n' && !verbatim then return false
      else scanString verbatim) := by
  refine loop_eq (fun n f g hfg _ => .bump rfl fun c => .bind onward_peek fun o => ?_) ()
  have hnext := SameBelow.bind onward_bump fun _ => hfg ()
  exact .ite hnext (.ite (.refl _ _) (.ite hnext (.ite (.refl _ _) (hfg ()))))

theorem onward_scanString (verbatim : Bool) : Onward (scanString verbatim) := by
  refine onward_loop (fun again hagain _ => onward_bump.bind fun o => ?_) ()
  have hnext := onward_bump.bind fun _ => hagain ()
  cases o with
  | none => exact onward_pure _
  | some c =>
    exact onward_peek.bind fun _ => .ite hnext
      (.ite (onward_pure _) (.ite hnext (.ite (onward_pure _) (hagain ()))))

theorem scanCharacter_eq : scanCharacter = (do
    match ← bump with
    | none => return false
    | some c =>
      if c == '\'' then return true
      else if c == '\\' then
        let _ ← bump
        scanCharacter
      else if c == '\n' then return false
      else scanCharacter) := by
  refine loop_eq (fun n f g hfg _ => .bump rfl fun c => ?_) ()
  have hnext := SameBelow.bind onward_bump fun _ => hfg ()
  exact .ite (.refl _ _) (.ite hnext (.ite (.refl _ _) (hfg ())))

theorem scanInterpolated_eq (verbatim : Bool) (depth : Nat) : scanInterpolated verbatim depth = (do
    match ← bump with
    | none => return false
    | some c =>
      if c == '\x7b' && depth == 0 && (← peek) == some '\x7b' then
        let _ ← bump
        scanInterpolated verbatim depth
      else if c == '\x7d' && depth == 0 && (← peek) == some '\x7d' then
        let _ ← bump
        scanInterpolated verbatim depth
      else if c == '\x7b' then scanInterpolated verbatim (depth + 1)
      else if c == '\x7d' then scanInterpolated verbatim (depth - 1)
      else if c == '"' && 0 < depth then
        if ← scanString false then scanInterpolated verbatim depth else return false
      else if c == '"' && verbatim && (← peek) == some '"' then
        let _ ← bump
        scanInterpolated verbatim depth
      else if c == '"' then return true
      else if c == '\\' && !verbatim then
        let _ ← bump
        scanInterpolated verbatim depth
      else if c == '\n' && !verbatim && depth == 0 then return false
      else scanInterpolated verbatim depth) := by
  refine loop_eq (fun n f g hfg depth => .bump rfl fun c => ?_) depth
  have hnext := SameBelow.bind onward_bump fun _ => hfg depth
  have hquoted := SameBelow.bind (onward_scanString false) fun closed =>
    SameBelow.ite (p := closed = true) (hfg depth) (.refl _ (pure false))
  refine .bind onward_peek fun _ => .ite hnext (.bind onward_peek fun _ => .ite hnext ?_)
  refine .ite (hfg _) (.ite (hfg _) (.ite hquoted (.bind onward_peek fun _ => .ite hnext ?_)))
  exact .ite (.refl _ _) (.ite hnext (.ite (.refl _ _) (hfg depth)))

/-! ## Moves without a fault -/

/-- With `cs` ahead, `m` answers `a` and takes the first `n` characters. -/
def Takes (m : Move α) (cs : List Char) (a : α) (n : Nat) : Prop :=
  ∀ s : Cursor, s.At cs → m s = some (a, s.past (cs.take n))

theorem takes_pure (a : α) (cs : List Char) : Takes (pure a) cs a 0 := fun _ _ => rfl

theorem Takes.bind {m : Move α} {f : α → Move β} {a : α} {b : β} {n k : Nat}
    (hm : Takes m cs a n) (hf : Takes (f a) (cs.drop n) b k) : Takes (m >>= f) cs b (n + k) := by
  intro s hs
  show (m s).bind (fun p => f p.1 p.2) = _
  rw [hm s hs, Option.bind_some, hf _ (hs.take n), past_append, List.take_add]

/-- A move that only looks. -/
theorem Takes.look {m : Move α} {f : α → Move β} {a : α} {b : β} {k : Nat}
    (hm : Takes m cs a 0) (hf : Takes (f a) cs b k) : Takes (m >>= f) cs b k := by
  have h := hm.bind hf
  rwa [Nat.zero_add] at h

theorem takes_peek (cs : List Char) : Takes peek cs cs.head? 0 := by
  intro s hs
  rw [peek]
  show (Cursor.ahead s).bind _ = _
  rw [hs.ahead]
  rfl

theorem takes_peekNth (n : Nat) (cs : List Char) : Takes (peekNth n) cs cs[n]? 0 := by
  intro s hs
  rw [peekNth]
  show (Cursor.ahead s).bind _ = _
  rw [hs.ahead]
  rfl

theorem takes_advance (c : Char) (cs : List Char) : Takes (advance c.utf8Size) (c :: cs) () 1 :=
  fun _ _ => rfl

theorem takes_bump_nil : Takes bump [] none 0 := (takes_peek []).look (takes_pure _ _)

theorem takes_bump_cons (c : Char) (cs : List Char) : Takes bump (c :: cs) (some c) 1 :=
  (takes_peek _).look ((takes_advance c cs).bind (f := fun _ => pure (some c)) (takes_pure _ _))

theorem Takes.bump {f : Option Char → Move β} {b : β} {k : Nat} (h : Takes (f (some c)) cs b k) :
    Takes (Cursor.bump >>= f) (c :: cs) b (1 + k) :=
  (takes_bump_cons c cs).bind h

theorem takes_eat_cons (c : Char) (cs : List Char) : Takes (eat c) (c :: cs) true 1 := by
  refine (takes_peek _).look ?_
  rw [List.head?_cons, beq_self_eq_true, if_pos rfl]
  exact (takes_advance c cs).bind (f := fun _ => pure true) (takes_pure _ _)

theorem takes_eat_of_ne (h : cs.head? ≠ some c) : Takes (eat c) cs false 0 := by
  refine (takes_peek _).look ?_
  rw [if_neg (by simpa using h)]
  exact takes_pure _ _

/-- Characters are taken as far as `p` holds. -/
theorem takes_eatWhile (p : Char → Bool) (cs : List Char) :
    Takes (eatWhile p) cs () (runLength p cs) := by
  induction cs with
  | nil =>
    rw [eatWhile_eq]
    exact (takes_peek _).look (takes_pure _ _)
  | cons c cs ih =>
    rw [eatWhile_eq, runLength_cons]
    refine (takes_peek _).look ?_
    rw [List.head?_cons, Option.any_some]
    split
    · rw [Nat.add_comm]
      exact .bump ih
    · exact takes_pure _ _

/-! ## Strings and characters -/

/-- With `cs` ahead, `m` takes what `r` reaches over and answers whether the end was found. -/
def Reaches (m : Move Bool) (cs : List Char) (r : Reach) : Prop := Takes m cs r.closed r.length

theorem after_one_after_one (r : Reach) : (r.after 1).after 1 = r.after 2 := by
  simp only [Reach.after, Reach.mk.injEq, and_true]
  omega

theorem Reaches.bump {f : Option Char → Move Bool} {r : Reach} (h : Reaches (f (some c)) cs r) :
    Reaches (Cursor.bump >>= f) (c :: cs) (r.after 1) :=
  Takes.bump h

@[simp] theorem reaches_peek {f : Option Char → Move Bool} {r : Reach} :
    Reaches (peek >>= f) cs r ↔ Reaches (f cs.head?) cs r := by
  refine forall₂_congr fun s hs => ?_
  show (peek s).bind (fun p => f p.1 p.2) = _ ↔ _
  rw [takes_peek cs s hs, List.take_zero, past_nil, Option.bind_some]

@[simp] theorem reaches_pure (b : Bool) (cs : List Char) : Reaches (pure b) cs ⟨0, b⟩ :=
  takes_pure b cs

theorem reaches_bump_nil {f : Option Char → Move Bool} (h : f none = pure false) :
    Reaches (Cursor.bump >>= f) [] ⟨0, false⟩ :=
  takes_bump_nil.look (h ▸ takes_pure false [])

/-- What a backslash takes along is missing at the end of the text. -/
theorem Reaches.bump_end {m : Move Bool} {r : Reach} (h : Reaches m [] r) :
    Reaches (Cursor.bump >>= fun _ => m) [] r :=
  takes_bump_nil.look h

theorem head?_ne_of_forall {d : Char} (h : ∀ rest, cs = d :: rest → False) :
    cs.head? ≠ some d := by
  intro hd
  obtain ⟨rest, hrest⟩ := List.head?_eq_some_iff.mp hd
  exact h rest hrest

theorem eq_nil_of_forall (h : ∀ d ds, cs = d :: ds → False) : cs = [] := by
  cases cs with
  | nil => rfl
  | cons d ds => exact (h d ds rfl).elim

theorem reaches_scanString (verbatim : Bool) (cs : List Char) :
    Reaches (scanString verbatim) cs (stringReach verbatim cs) := by
  fun_induction stringReach verbatim cs with
  | case1 =>
    rw [scanString_eq]
    exact reaches_bump_nil rfl
  | case2 cs hv ih =>
    rw [scanString_eq, ← after_one_after_one]
    refine .bump (reaches_peek.mpr ?_)
    simpa [hv] using ih.bump (f := fun _ => scanString verbatim)
  | case3 cs hv =>
    rw [scanString_eq]
    refine .bump (r := ⟨0, true⟩) (reaches_peek.mpr ?_)
    simp [hv]
  | case4 cs hne =>
    rw [scanString_eq]
    refine .bump (r := ⟨0, true⟩) (reaches_peek.mpr ?_)
    rw [beq_false_of_ne (head?_ne_of_forall hne)]
    simp
  | case5 c cs hv ih =>
    rw [scanString_eq]
    refine .bump (reaches_peek.mpr ?_)
    simpa [hv] using ih
  | case6 c cs hv ih =>
    rw [scanString_eq, ← after_one_after_one]
    refine .bump (reaches_peek.mpr ?_)
    simpa [hv] using ih.bump (f := fun _ => scanString verbatim)
  | case7 cs hv ih =>
    rw [scanString_eq]
    refine .bump (reaches_peek.mpr ?_)
    simpa [hv] using ih
  | case8 cs hv =>
    rw [scanString_eq]
    refine .bump (r := ⟨0, false⟩) (reaches_peek.mpr ?_)
    simp [hv]
  | case9 c cs _ hquote hslash hline ih =>
    rw [scanString_eq]
    refine .bump (reaches_peek.mpr ?_)
    by_cases hend : c = '\\'
    · -- A backslash at the end of the text takes nothing along.
      have hnil : cs = [] := eq_nil_of_forall fun d ds => hslash d ds hend
      subst hnil hend
      cases verbatim
      · simpa using ih.bump_end
      · simpa using ih
    · simpa [show c ≠ '"' from hquote, show c ≠ '\n' from hline, hend] using ih

theorem reaches_scanCharacter (cs : List Char) :
    Reaches scanCharacter cs (characterReach cs) := by
  fun_induction characterReach cs with
  | case1 =>
    rw [scanCharacter_eq]
    exact reaches_bump_nil rfl
  | case2 cs =>
    rw [scanCharacter_eq]
    exact .bump (r := ⟨0, true⟩) (reaches_pure true cs)
  | case3 c cs ih =>
    rw [scanCharacter_eq, ← after_one_after_one]
    exact .bump (ih.bump (f := fun _ => scanCharacter))
  | case4 cs =>
    rw [scanCharacter_eq]
    exact .bump (r := ⟨0, false⟩) (reaches_pure false cs)
  | case5 c cs hquote hslash hline ih =>
    rw [scanCharacter_eq]
    refine .bump ?_
    by_cases hend : c = '\\'
    · -- A backslash at the end of the text takes nothing along.
      have hnil : cs = [] := eq_nil_of_forall fun d ds => hslash d ds hend
      subst hnil hend
      exact ih.bump_end
    · simpa [show c ≠ '\'' from hquote, show c ≠ '\n' from hline, hend] using ih

/-- What is left of an interpolated string inside a string of a hole: first that string, and if it
ends what is left of the hole. -/
def scanQuoted (verbatim : Bool) (depth : Nat) : Move Bool := do
  if ← scanString false then scanInterpolated verbatim depth else return false

/-- The move that is at work where the reach of an interpolated string stands. -/
def interpolation (verbatim : Bool) : Interpolation → Move Bool
  | .text depth => scanInterpolated verbatim depth
  | .quoted depth => scanQuoted verbatim depth

theorem reaches_interpolation (verbatim : Bool) (place : Interpolation) (cs : List Char) :
    Reaches (interpolation verbatim place) cs (interpolatedReach verbatim place cs) := by
  fun_induction interpolatedReach verbatim place cs with
  | case1 place =>
    cases place with
    | text depth =>
      rw [interpolation, scanInterpolated_eq]
      exact reaches_bump_nil rfl
    | quoted depth =>
      rw [interpolation, scanQuoted, scanString_eq, bind_assoc]
      exact reaches_bump_nil rfl
  | case2 depth cs ih =>
    rw [interpolation, scanQuoted, scanString_eq, bind_assoc]
    refine .bump ?_
    simpa [interpolation] using ih
  | case3 depth cs =>
    rw [interpolation, scanQuoted, scanString_eq, bind_assoc]
    refine .bump (r := ⟨0, false⟩) ?_
    simp [-bind_pure_comp]
  | case4 depth c cs ih =>
    rw [interpolation, scanQuoted, scanString_eq, bind_assoc, ← after_one_after_one]
    refine .bump ?_
    simpa [interpolation, scanQuoted] using ih.bump
  | case5 depth c cs hquote hline hslash ih =>
    rw [interpolation, scanQuoted, scanString_eq, bind_assoc]
    refine .bump ?_
    by_cases hend : c = '\\'
    · have hnil : cs = [] := eq_nil_of_forall fun d ds => hslash d ds hend
      subst hnil hend
      simpa [interpolation, scanQuoted] using ih.bump_end
    · simpa [interpolation, scanQuoted, show c ≠ '"' from hquote, show c ≠ '\n' from hline, hend]
        using ih
  | case6 cs ih =>
    rw [interpolation, scanInterpolated_eq, ← after_one_after_one]
    refine .bump (reaches_peek.mpr ?_)
    simpa [interpolation] using ih.bump
  | case7 cs ih =>
    rw [interpolation, scanInterpolated_eq, ← after_one_after_one]
    refine .bump (reaches_peek.mpr ?_)
    simpa [interpolation] using ih.bump
  | case8 depth cs hne ih =>
    rw [interpolation, scanInterpolated_eq]
    refine .bump (reaches_peek.mpr ?_)
    cases depth with
    | zero => simpa [interpolation, head?_ne_of_forall (hne · rfl)] using ih
    | succ depth => simpa [interpolation] using ih
  | case9 depth cs hne ih =>
    rw [interpolation, scanInterpolated_eq]
    refine .bump (reaches_peek.mpr ?_)
    cases depth with
    | zero => simpa [interpolation, head?_ne_of_forall (hne · rfl)] using ih
    | succ depth => simpa [interpolation] using ih
  | case10 depth cs ih =>
    rw [interpolation, scanInterpolated_eq]
    refine .bump (reaches_peek.mpr ?_)
    simpa [interpolation, scanQuoted] using ih
  | case11 cs hv ih =>
    rw [interpolation, scanInterpolated_eq, ← after_one_after_one]
    refine .bump (reaches_peek.mpr ?_)
    simpa [interpolation, hv] using ih.bump (f := fun _ => interpolation verbatim (.text 0))
  | case12 cs hv =>
    rw [interpolation, scanInterpolated_eq]
    refine .bump (r := ⟨0, true⟩) (reaches_peek.mpr ?_)
    simp [hv, -bind_pure_comp]
  | case13 cs hne =>
    rw [interpolation, scanInterpolated_eq]
    refine .bump (r := ⟨0, true⟩) (reaches_peek.mpr ?_)
    simp [head?_ne_of_forall hne]
  | case14 depth c cs hv ih =>
    rw [interpolation, scanInterpolated_eq]
    refine .bump (reaches_peek.mpr ?_)
    simpa [interpolation, hv] using ih
  | case15 depth c cs hv ih =>
    rw [interpolation, scanInterpolated_eq, ← after_one_after_one]
    refine .bump (reaches_peek.mpr ?_)
    simpa [interpolation, hv] using ih.bump (f := fun _ => interpolation verbatim (.text depth))
  | case16 cs hv ih =>
    rw [interpolation, scanInterpolated_eq]
    refine .bump (reaches_peek.mpr ?_)
    simpa [interpolation, hv] using ih
  | case17 cs hv =>
    rw [interpolation, scanInterpolated_eq]
    refine .bump (r := ⟨0, false⟩) (reaches_peek.mpr ?_)
    simp [hv, -bind_pure_comp]
  | case18 depth c cs _ _ hopen hclose hinner _ hquote hslash hline ih =>
    rw [interpolation, scanInterpolated_eq]
    refine .bump (reaches_peek.mpr ?_)
    have hq : c ≠ '"' := fun hc => by
      cases depth with
      | zero => exact hquote rfl hc
      | succ depth => exact hinner depth rfl hc
    have hl : ¬((c = '\n' ∧ verbatim = false) ∧ depth = 0) := fun h => hline h.2 h.1.1
    by_cases hend : c = '\\'
    · have hnil : cs = [] := eq_nil_of_forall fun d ds => hslash d ds hend
      subst hnil hend
      cases verbatim
      · simpa [interpolation] using ih.bump_end
      · simpa [interpolation] using ih
    · simpa [interpolation, show c ≠ '\x7b' from hopen, show c ≠ '\x7d' from hclose, hq, hend, hl]
        using ih

end Cursor

end LivePatch
