import LivePatch.Syntax.Parse
import LivePatch.Proofs.Contract

/-!
# What the productions agree on

The contract of the grammar, and the rules by which its small steps are followed.

Nearly all productions promise the same: their trees are sound and of a certain level.  The few
that promise more are those that expressions hang on.  An expression leaves one value behind,
operators need one in front, and a type, a designation or a declaration takes a word when the right
one comes first, which is what keeps the repetitions going.
-/

namespace LivePatch

open Token (closingAngle)
open Words (front Ended Reaches)

namespace Rule

/-- What a production needs in front. -/
def Needs (r : Rule) (ws : List Token) (x : Frame) : Prop :=
  match r with
  | .designation => front ws ≠ .eof
  | .operators _ => x.shape = .value
  | _ => True

/-- What a production makes of the shape of its frame. -/
def shape (r : Rule) (s : Shape) : Shape :=
  match r with
  | .expression _ => s.merge .value
  | .operators _ => .value
  | _ => .mixed

/-- The level of what a production builds. -/
def level : Rule → Level
  | .namespaceMembers _ | .namespaceDeclaration | .typeDeclaration | .declaredType | .typeMembers
  | .member => .free
  | .block | .statements | .statement | .switchSections | .sectionStatements | .catchClauses
  | .accessors => .plain
  | _ => .quiet

/-- Does a production surely take a word? -/
def moves (r : Rule) (ws : List Token) : Bool :=
  match r with
  | .type _ => Words.canStartType (front ws)
  | .designation => true
  | .declaredType => front ws != .eof && front ws != .rBrace
  | .typeDeclaration => Words.atTypeDeclaration ws
  | .namespaceDeclaration => front ws == .namespaceKw
  | .switchLabels => Words.atSwitchLabel ws
  | _ => false

/-- Does a production leave nothing but the end of the text? -/
def exhausts : Rule → Bool
  | .namespaceMembers false | .skipTo .endOfText => true
  | _ => false

/-- How many calls may come between a production and the first word it takes. -/
def rank (r : Rule) (ws : List Token) : Nat :=
  match r with
  | .type _ | .attributes | .designated => 1
  | .typeArguments | .tupleElements | .baseTypes | .constraints | .typeParameters | .enumMembers
  | .parameters _ | .lambdaParameters | .expression _ => 2
  | .arguments _ | .expressionList | .initializerElements | .primaryPattern => 3
  | .initializer => if front ws = .lBrace then 0 else 4
  | .pattern | .statement => 4
  | .switchArms | .statements | .sectionStatements => 5
  | .block => if front ws = .lBrace then 0 else 6
  | .accessors | .declaredType | .switchSections => 6
  | .member | .typeDeclaration => 7
  | .typeMembers | .namespaceMembers _ => 8
  | .namespaceDeclaration => if front ws = .namespaceKw then 0 else 9
  | _ => 0

theorem rank_lt (r : Rule) (ws : List Token) : r.rank ws < Grammar.callsPerByte := by
  unfold rank Grammar.callsPerByte
  split <;> first | omega | (split <;> omega)

end Rule

namespace Grammar

/-- The contract of the grammar. -/
def contract : Contract Rule where
  needs := Rule.Needs
  shape := Rule.shape
  level := Rule.level
  moves := Rule.moves
  exhausts := Rule.exhausts
  rank := Rule.rank
  bound := callsPerByte
  rank_lt := Rule.rank_lt

end Grammar

/-! ## Shapes -/

namespace Shape

variable {s t : Shape} {k : Kind}

@[simp] theorem take_trivia : take k .trivia = .word k := rfl

@[simp] theorem merge_trivia_left : merge .trivia s = s := by cases s <;> rfl

@[simp] theorem merge_trivia_right : merge s .trivia = s := by cases s <;> rfl

@[simp] theorem merge_word_name : merge (.word .identifier) .name = .name := rfl

@[simp] theorem enclosed_typeArgumentList {solid : Bool} :
    enclosed .typeArgumentList solid = .name := rfl

@[simp] theorem isLight_take : (s.take k).isLight = s.isLight := by cases s <;> rfl

@[simp] theorem isLight_merge : (s.merge t).isLight = (s.isLight && t.isLight) := by
  unfold merge
  split
  · rfl
  · simp [isLight]
  · rfl
  · cases s <;> cases t <;> rfl

@[simp] theorem isLight_trivia : trivia.isLight = true := rfl

@[simp] theorem isLight_word : (word k).isLight = true := rfl

@[simp] theorem isLight_value : value.isLight = true := rfl

theorem enclosed_eq_value {solid : Bool} :
    enclosed k solid = .value ↔ k.isExpression = true ∧ solid = true ∨ k = .error := by
  unfold enclosed
  split
  · simp_all
  · split <;> simp_all

end Shape

/-! ## Frames below a level -/

namespace Frame

/-- Is all that the frame has built of at most the level `l`?  The condition `P` carries what is
known of the frames around. -/
def Below (P : Prop) (l : Level) (x : Frame) : Prop := P ∧ x.level ≤ l

variable {P : Prop} {l : Level} {k : Kind} {x y : Frame}

@[simp] theorem below_take : (x.take k).Below P l ↔ x.Below P l := Iff.rfl

@[simp] theorem below_note : x.note.Below P l ↔ x.Below P l := Iff.rfl

@[simp] theorem below_inner : x.inner.Below P l ↔ P := by simp [Below, inner]

@[simp] theorem below_merge : (x.merge y).Below P l ↔ y.Below (x.Below P l) l := by
  simp [Below, merge, and_assoc]

@[simp] theorem below_enclose (h : k ≠ .lambdaExpression) :
    (x.enclose k).Below P l ↔ x.Below (P ∧ Level.ofKind k ≤ l) l := by
  simp only [Below, enclose, Level.around, h, false_and, if_false, max_le_iff]
  tauto

@[simp] theorem below_gives {r : Rule} {ws : List Token} :
    (Grammar.contract.gives r ws x).Below P l ↔ x.Below (P ∧ r.level ≤ l) l := by
  simp only [Below, Contract.gives, Grammar.contract, max_le_iff]
  tauto

@[simp] theorem shape_take : (x.take k).shape = x.shape.take k := rfl

@[simp] theorem shape_note : x.note.shape = x.shape := rfl

@[simp] theorem shape_inner : x.inner.shape = .trivia := rfl

@[simp] theorem shape_merge : (x.merge y).shape = x.shape.merge y.shape := rfl

@[simp] theorem shape_enclose : (x.enclose k).shape = .enclosed k x.solid := rfl

@[simp] theorem shape_gives {r : Rule} {ws : List Token} :
    (Grammar.contract.gives r ws x).shape = r.shape x.shape := rfl

@[simp] theorem level_take : (x.take k).level = x.level := rfl

@[simp] theorem level_note : x.note.level = x.level := rfl

@[simp] theorem level_inner : x.inner.level = .quiet := rfl

@[simp] theorem level_gives {r : Rule} {ws : List Token} :
    (Grammar.contract.gives r ws x).level = max x.level r.level := rfl

@[simp] theorem solid_take : (x.take k).solid = true := (rfl)

@[simp] theorem solid_note : x.note.solid = x.solid := rfl

@[simp] theorem solid_merge : (x.merge y).solid = (x.solid || y.solid) := rfl

@[simp] theorem solid_enclose : (x.enclose k).solid = x.solid := rfl

@[simp] theorem solid_inner : x.inner.solid = false := rfl

@[simp] theorem solid_gives {r : Rule} {ws : List Token} :
    (Grammar.contract.gives r ws x).solid = (x.solid || r.moves ws) := rfl

@[simp] theorem noted_take : (x.take k).noted = x.noted := rfl

@[simp] theorem noted_note : x.note.noted = true := rfl

@[simp] theorem noted_merge : (x.merge y).noted = y.noted := rfl

@[simp] theorem noted_enclose : (x.enclose k).noted = x.noted := rfl

@[simp] theorem noted_inner : x.inner.noted = x.noted := rfl

@[simp] theorem noted_gives {r : Rule} {ws : List Token} :
    (Grammar.contract.gives r ws x).noted = x.noted := rfl

end Frame

/-! ## Words that are no end of text -/

namespace Words

variable {ws : List Token} {k : Kind}

@[simp] theorem isAt_zero (h : k ≠ .eof) : isAt 0 k ws = true ↔ front ws = k := by
  cases ws with
  | nil => simp [isAt, kindAt, h.symm]
  | cons w ws => simp [isAt, kindAt]

@[simp] theorem isAt_one (h : k ≠ .eof) : isAt 1 k ws = true ↔ front ws.tail = k := by
  rcases ws with _ | ⟨w, _ | ⟨w', ws⟩⟩
  · simp [isAt, kindAt, h.symm]
  · simp [isAt, kindAt, h.symm]
  · simp [isAt, kindAt]

@[simp] theorem eq_eof_of_isNameSeparator (h : isNameSeparator k = true) : k = .eof ↔ False := by
  refine ⟨?_, False.elim⟩
  rintro rfl
  cases h

@[simp] theorem eq_eof_of_isPredefinedType (h : k.isPredefinedType = true) : k = .eof ↔ False := by
  refine ⟨?_, False.elim⟩
  rintro rfl
  cases h

@[simp] theorem eq_eof_of_isLiteral (h : k.isLiteral = true) : k = .eof ↔ False := by
  refine ⟨?_, False.elim⟩
  rintro rfl
  cases h

@[simp] theorem eq_eof_of_isRelational (h : isRelational k = true) : k = .eof ↔ False := by
  refine ⟨?_, False.elim⟩
  rintro rfl
  cases h

end Words

/-! ## Following the small steps -/

namespace Grammar

attribute [simp] Rule.Needs Rule.shape Rule.level Rule.exhausts Rule.rank Rule.moves Level.ofKind
  Frame.Allows Kind.isExpression

open LivePatch.Action (Safe Leads)

section Safe

variable {α β : Type} {l : Level} {ws : List Token} {x : Frame}
  {Q : α → List Token → Frame → Prop} {U : Unit → List Token → Frame → Prop}

@[simp ↓] theorem safe_pure (a : α) : Safe contract (pure a : Step α) Q ws x ↔ Q a ws x := Iff.rfl

@[simp ↓] theorem safe_bind (a : Step β) (f : β → Step α) :
    Safe contract (a >>= f) Q ws x ↔
      Safe contract a (fun b ws x => Safe contract (f b) Q ws x) ws x := Iff.rfl

@[simp ↓] theorem safe_skipTrivia :
    Safe contract (Action.skipTrivia : Step _) U ws x ↔ U () ws x := Iff.rfl

@[simp ↓] theorem safe_take : Safe contract (Action.take : Step _) U ws x ↔
    front ws ≠ .eof ∧ U () ws.tail (x.take (front ws)) := Iff.rfl

@[simp ↓] theorem safe_takeHalf : Safe contract (Action.takeHalf : Step _) U ws x ↔
    front ws = .rightShift ∧ U () (closingAngle :: ws.tail) (x.take .greater) := Iff.rfl

@[simp ↓] theorem safe_report (problem : Problem) :
    Safe contract (Action.report problem : Step _) U ws x ↔ U () ws x.note := Iff.rfl

@[simp ↓] theorem safe_missing (what : String) :
    Safe contract (missing what) U ws x ↔ U () ws x.note := Iff.rfl

@[simp ↓] theorem safe_opening (out : Nat) (k : Kind) :
    Safe contract (Action.opening out k : Step _) U ws x ↔ U () ws x := Iff.rfl

@[simp ↓] theorem safe_begins (k : Kind) : Safe contract (begins k) U ws x ↔ U () ws x := Iff.rfl

@[simp ↓] theorem safe_enclose (k : Kind) :
    Safe contract (Action.enclose k : Step _) U ws x ↔ x.Allows k ∧ U () ws (x.enclose k) := Iff.rfl

@[simp ↓ high] theorem safe_enclose_ite (p : Prop) [Decidable p] (j k : Kind) :
    Safe contract (Action.enclose (if p then j else k) : Step _) U ws x ↔
      if p then Safe contract (Action.enclose j : Step _) U ws x
      else Safe contract (Action.enclose k : Step _) U ws x := by
  split <;> rfl

@[simp ↓] theorem safe_frame (body : Step α) : Safe contract (Action.frame body) Q ws x ↔
    Safe contract body (fun a ws y => Q a ws (x.merge y)) ws x.inner := Iff.rfl

@[simp ↓] theorem safe_idle {Q : Bool → List Token → Frame → Prop} (body : Step Unit) :
    Safe contract (Action.idle body) Q ws x ↔
      Safe contract body (fun _ ws' y => Q (ws'.length == ws.length) ws' y) ws x := Iff.rfl

@[simp ↓] theorem safe_node (k : Kind) (body : Step Unit) :
    Safe contract (node k body) U ws x ↔
      Safe contract body (fun _ ws y => y.Allows k ∧ U () ws (x.merge (y.enclose k))) ws x.inner :=
  Iff.rfl

@[simp ↓] theorem safe_ite (p : Prop) [Decidable p] (a b : Step α) :
    Safe contract (if p then a else b) Q ws x ↔
      if p then Safe contract a Q ws x else Safe contract b Q ws x := by
  split <;> rfl

@[simp ↓] theorem safe_ahead (d : List Token → α) [Scanned d] :
    Safe contract (ahead d) Q ws x ↔ Q (d ws) ws x := Iff.rfl

@[simp ↓] theorem safe_current {Q : Kind → List Token → Frame → Prop} :
    Safe contract current Q ws x ↔ Q (front ws) ws x := Iff.rfl

@[simp ↓] theorem safe_sees {Q : Bool → List Token → Frame → Prop} (k : Kind) :
    Safe contract (sees k) Q ws x ↔ Q (front ws == k) ws x := Iff.rfl

@[simp ↓] theorem safe_seesWord {Q : Bool → List Token → Frame → Prop} (text : String) :
    Safe contract (seesWord text) Q ws x ↔
      Q (front ws == .identifier && Words.frontText ws == text) ws x := Iff.rfl

@[simp ↓] theorem safe_eat {Q : Bool → List Token → Frame → Prop} {k : Kind} (hk : k ≠ .eof) :
    Safe contract (eat k) Q ws x ↔
      if front ws = k then Q true ws.tail (x.take k) else Q false ws x := by
  simp only [eat, safe_bind, safe_sees, safe_ite, safe_take, safe_pure, beq_iff_eq]
  split
  · rename_i h
    simp [h, hk]
  · rfl

@[simp ↓] theorem safe_takeIf {k : Kind} (hk : k ≠ .eof) :
    Safe contract (takeIf k) U ws x ↔
      if front ws = k then U () ws.tail (x.take k) else U () ws x := by
  simp only [takeIf, safe_bind, safe_sees, safe_ite, safe_take, safe_pure, beq_iff_eq]
  split
  · rename_i h
    simp [h, hk]
  · rfl

@[simp ↓] theorem safe_expect {k : Kind} (hk : k ≠ .eof) (what : String) :
    Safe contract (expect k what) U ws x ↔
      if front ws = k then U () ws.tail (x.take k) else U () ws x.note := by
  simp only [expect, safe_bind, safe_sees, safe_ite, safe_take, safe_missing, beq_iff_eq]
  split
  · rename_i h
    simp [h, hk]
  · rfl

@[simp ↓] theorem safe_expectIdentifier (what : String) :
    Safe contract (expectIdentifier what) U ws x ↔
      if front ws = .identifier then U () ws.tail (x.take .identifier) else U () ws x.note :=
  safe_expect (by decide) what

@[simp ↓] theorem safe_call {Q : Bool → List Token → Frame → Prop} (r : Rule) :
    Safe contract (Action.call r : Step _) Q ws x ↔
      r.Needs ws x ∧ ∀ b ws', Reaches ws ws' → (r.exhausts = true → front ws' = .eof) →
        Q b ws' (contract.gives r ws x) := Iff.rfl

@[simp ↓] theorem safe_read (r : Rule) :
    Safe contract (read r) U ws x ↔
      r.Needs ws x ∧ ∀ ws', Reaches ws ws' → (r.exhausts = true → front ws' = .eof) →
        U () ws' (contract.gives r ws x) := by
  simp [read]

/-- Where the words behind a call do not matter they need not be named. -/
@[simp] theorem forall_reaches (P : Prop) : (∀ ws', Reaches ws ws' → P) ↔ P :=
  ⟨fun h => h ws (.refl ws), fun h _ _ => h⟩

end Safe

section Leads

variable {α β : Type} {n : Nat} {ws : List Token} {P : α → Prop} {U : Unit → Prop}

@[simp ↓] theorem leads_pure (a : α) : Leads contract n ws (pure a : Step α) P ↔ P a := Iff.rfl

@[simp ↓] theorem leads_bind (a : Step β) (f : β → Step α) :
    Leads contract n ws (a >>= f) P ↔
      Leads contract n ws a (fun b => Leads contract n ws (f b) P) := Iff.rfl

@[simp ↓] theorem leads_skipTrivia :
    Leads contract n ws (Action.skipTrivia : Step _) U ↔ U () := Iff.rfl

@[simp ↓] theorem leads_take : Leads contract n ws (Action.take : Step _) U ↔ True := Iff.rfl

@[simp ↓] theorem leads_takeHalf : Leads contract n ws (Action.takeHalf : Step _) U ↔ True :=
  Iff.rfl

@[simp ↓] theorem leads_report (problem : Problem) :
    Leads contract n ws (Action.report problem : Step _) U ↔ U () := Iff.rfl

@[simp ↓] theorem leads_missing (what : String) :
    Leads contract n ws (missing what) U ↔ U () := Iff.rfl

@[simp ↓] theorem leads_opening (out : Nat) (k : Kind) :
    Leads contract n ws (Action.opening out k : Step _) U ↔ U () := Iff.rfl

@[simp ↓] theorem leads_begins (k : Kind) : Leads contract n ws (begins k) U ↔ U () := Iff.rfl

@[simp ↓] theorem leads_enclose (k : Kind) :
    Leads contract n ws (Action.enclose k : Step _) U ↔ U () := Iff.rfl

@[simp ↓] theorem leads_frame (body : Step α) :
    Leads contract n ws (Action.frame body) P ↔ Leads contract n ws body P := Iff.rfl

@[simp ↓] theorem leads_idle {P : Bool → Prop} (body : Step Unit) :
    Leads contract n ws (Action.idle body) P ↔ Leads contract n ws body fun _ => P true := Iff.rfl

@[simp ↓] theorem leads_node (k : Kind) (body : Step Unit) :
    Leads contract n ws (node k body) U ↔ Leads contract n ws body U := Iff.rfl

@[simp ↓] theorem leads_ite (p : Prop) [Decidable p] (a b : Step α) :
    Leads contract n ws (if p then a else b) P ↔
      if p then Leads contract n ws a P else Leads contract n ws b P := by
  split <;> rfl

@[simp ↓] theorem leads_ahead (d : List Token → α) [Scanned d] :
    Leads contract n ws (ahead d) P ↔ P (d ws) := Iff.rfl

@[simp ↓] theorem leads_current {P : Kind → Prop} :
    Leads contract n ws current P ↔ P (front ws) := Iff.rfl

@[simp ↓] theorem leads_sees {P : Bool → Prop} (k : Kind) :
    Leads contract n ws (sees k) P ↔ P (front ws == k) := Iff.rfl

@[simp ↓] theorem leads_seesWord {P : Bool → Prop} (text : String) :
    Leads contract n ws (seesWord text) P ↔
      P (front ws == .identifier && Words.frontText ws == text) := Iff.rfl

@[simp ↓] theorem leads_eat {P : Bool → Prop} (k : Kind) :
    Leads contract n ws (eat k) P ↔ (front ws ≠ k → P false) := by
  simp only [eat, leads_bind, leads_sees, leads_ite, leads_take, leads_pure, beq_iff_eq]
  split <;> simp [*]

@[simp ↓] theorem leads_takeIf (k : Kind) :
    Leads contract n ws (takeIf k) U ↔ (front ws ≠ k → U ()) := by
  simp only [takeIf, leads_bind, leads_sees, leads_ite, leads_take, leads_pure, beq_iff_eq]
  split <;> simp [*]

@[simp ↓] theorem leads_expect (k : Kind) (what : String) :
    Leads contract n ws (expect k what) U ↔ (front ws ≠ k → U ()) := by
  simp only [expect, leads_bind, leads_sees, leads_ite, leads_take, leads_missing, beq_iff_eq]
  split <;> simp [*]

@[simp ↓] theorem leads_expectIdentifier (what : String) :
    Leads contract n ws (expectIdentifier what) U ↔ (front ws ≠ .identifier → U ()) :=
  leads_expect _ what

@[simp ↓] theorem leads_call {P : Bool → Prop} (r : Rule) :
    Leads contract n ws (Action.call r : Step _) P ↔
      r.rank ws < n ∧ (r.moves ws = true ∨ ∀ b, P b) := Iff.rfl

@[simp ↓] theorem leads_read (r : Rule) :
    Leads contract n ws (read r) U ↔ r.rank ws < n ∧ (r.moves ws = true ∨ U ()) := by
  simp [read]

end Leads

end Grammar

end LivePatch
