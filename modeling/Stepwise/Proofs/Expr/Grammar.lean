import Stepwise.Expr.Postfix

/-!
# The infix grammar

A `Formula` is an arithmetic expression as a tree.  `Derives` is the grammar of its infix forms: an
expression is a sum of terms, a term a product of factors, both associating to the left, and a
factor is a number or an expression in parentheses.  The main result, `derivable_iff`, says that a
token list has a derivation exactly when its parentheses match (`nests`) and every token stands
where one of its kind may stand (`alternates`).
-/

namespace Stepwise

/-- An arithmetic expression: a number text, or an operation on two expressions. -/
inductive Formula where
  | number (text : String)
  | node (op : Operation) (left right : Formula)

/-- The token of an operation. -/
def Operation.token (op : Operation) : Token := ⟨.operator, op.symbol⟩

namespace Token

/-- The token of a number. -/
def ofNumber (text : String) : Token := ⟨.number, text⟩

/-- The opening parenthesis. -/
def opening : Token := ⟨.leftParen, "("⟩

/-- The closing parenthesis. -/
def closing : Token := ⟨.rightParen, ")"⟩

end Token

namespace Formula

open Token

/-- The tokens of a formula with every operator after its operands. -/
def postorder : Formula → List Token
  | number text => [ofNumber text]
  | node op l r => l.postorder ++ r.postorder ++ [op.token]

/-- The number texts of a formula from left to right. -/
def numbers : Formula → List String
  | number text => [text]
  | node _ l r => l.numbers ++ r.numbers

/-- The operations of a formula in post-order. -/
def operations : Formula → List Operation
  | number _ => []
  | node op l r => l.operations ++ r.operations ++ [op]

/-- The value of a formula under an interpretation of number texts and operations. -/
def eval {V : Type} (value : String → V) (apply : Operation → V → V → V) : Formula → V
  | number text => value text
  | node op l r => apply op (l.eval value apply) (r.eval value apply)

end Formula

/-- The categories of the grammar. -/
inductive Category where
  | expression
  | term
  | factor

open Token in
/-- A token list is an infix form of a formula in a category. -/
inductive Derives : Category → List Token → Formula → Prop
  | term {ts f} : Derives .term ts f → Derives .expression ts f
  | sum {ls rs l r op} : Derives .expression ls l → op = .add ∨ op = .subtract →
      Derives .term rs r → Derives .expression (ls ++ op.token :: rs) (.node op l r)
  | factor {ts f} : Derives .factor ts f → Derives .term ts f
  | product {ls rs l r op} : Derives .term ls l → op = .multiply ∨ op = .divide →
      Derives .factor rs r → Derives .term (ls ++ op.token :: rs) (.node op l r)
  | number (text) : Derives .factor [ofNumber text] (.number text)
  | group {ts f} : Derives .expression ts f → Derives .factor (opening :: (ts ++ [closing])) f

/-- A token list is the infix form of some formula. -/
def Derivable (ts : List Token) : Prop := ∃ f, Derives .expression ts f

namespace Token

/-- A token that a text can contain: the text of an operator or a parenthesis is fixed. -/
inductive Proper : Token → Prop
  | number (text) : Proper (ofNumber text)
  | operator (op : Operation) : Proper op.token
  | opening : Proper opening
  | closing : Proper closing

/-- Whether the tokens stand where an expression may have them, before an operand (`true`) or after
one (`false`): numbers and opening parentheses stand before, the other tokens after. -/
def alternates : Bool → List Token → Bool
  | awaiting, [] => !awaiting
  | awaiting, t :: rest =>
    match t.kind with
    | .number => awaiting && alternates false rest
    | .leftParen => awaiting && alternates true rest
    | .operator => !awaiting && alternates true rest
    | .rightParen => !awaiting && alternates false rest

/-- Whether every parenthesis has a partner, some being open already. -/
def nests : Nat → List Token → Bool
  | depth, [] => depth == 0
  | depth, t :: rest =>
    match t.kind, depth with
    | .leftParen, depth => nests (depth + 1) rest
    | .rightParen, 0 => false
    | .rightParen, depth + 1 => nests depth rest
    | _, depth => nests depth rest

variable {awaiting : Bool} {depth : Nat} {ts us : List Token}

@[simp] theorem alternates_ofNumber (text : String) :
    alternates awaiting (ofNumber text :: ts) = (awaiting && alternates false ts) := rfl

@[simp] theorem alternates_opening :
    alternates awaiting (opening :: ts) = (awaiting && alternates true ts) := rfl

@[simp] theorem alternates_closing :
    alternates awaiting (closing :: ts) = (!awaiting && alternates false ts) := rfl

@[simp] theorem alternates_operator (op : Operation) :
    alternates awaiting (op.token :: ts) = (!awaiting && alternates true ts) := rfl

@[simp] theorem nests_ofNumber (text : String) :
    nests depth (ofNumber text :: ts) = nests depth ts := by
  cases depth <;> rfl

@[simp] theorem nests_operator (op : Operation) :
    nests depth (op.token :: ts) = nests depth ts := by
  cases depth <;> rfl

@[simp] theorem nests_opening : nests depth (opening :: ts) = nests (depth + 1) ts := by
  cases depth <;> rfl

@[simp] theorem nests_closing_zero : nests 0 (closing :: ts) = false := rfl

@[simp] theorem nests_closing_succ : nests (depth + 1) (closing :: ts) = nests depth ts := rfl

end Token

/-! ## Derivations alternate and nest -/

open Token

theorem Derives.alternates_append {c : Category} {ts : List Token} {f : Formula}
    (d : Derives c ts f) (rest : List Token) :
    alternates true (ts ++ rest) = alternates false rest := by
  induction d generalizing rest with
  | term _ ih => exact ih rest
  | factor _ ih => exact ih rest
  | sum _ _ _ ihl ihr =>
    rw [List.append_assoc, ihl, List.cons_append, alternates_operator, ihr]
    rfl
  | product _ _ _ ihl ihr =>
    rw [List.append_assoc, ihl, List.cons_append, alternates_operator, ihr]
    rfl
  | number text => rfl
  | group _ ih =>
    rw [List.cons_append, alternates_opening, List.append_assoc, ih]
    rfl

theorem Derives.nests_append {c : Category} {ts : List Token} {f : Formula}
    (d : Derives c ts f) (depth : Nat) (rest : List Token) :
    nests depth (ts ++ rest) = nests depth rest := by
  induction d generalizing depth rest with
  | term _ ih => exact ih depth rest
  | factor _ ih => exact ih depth rest
  | sum _ _ _ ihl ihr => rw [List.append_assoc, ihl, List.cons_append, nests_operator, ihr]
  | product _ _ _ ihl ihr => rw [List.append_assoc, ihl, List.cons_append, nests_operator, ihr]
  | number text => rw [List.singleton_append, nests_ofNumber]
  | group _ ih =>
    rw [List.cons_append, nests_opening, List.append_assoc, ih, List.singleton_append,
      nests_closing_succ]

theorem Derives.proper {c : Category} {ts : List Token} {f : Formula} (d : Derives c ts f) :
    ∀ t ∈ ts, Proper t := by
  induction d with
  | term _ ih => exact ih
  | factor _ ih => exact ih
  | sum _ _ _ ihl ihr | product _ _ _ ihl ihr =>
    intro t ht
    rcases List.mem_append.1 ht with h | h
    · exact ihl t h
    · rcases List.mem_cons.1 h with rfl | h
      · exact Proper.operator _
      · exact ihr t h
  | number text =>
    intro t ht
    rw [List.mem_singleton.1 ht]
    exact Proper.number text
  | group _ ih =>
    intro t ht
    rcases List.mem_cons.1 ht with rfl | h
    · exact Proper.opening
    · rcases List.mem_append.1 h with h | h
      · exact ih t h
      · rw [List.mem_singleton.1 h]
        exact Proper.closing

/-! ## Lists that alternate and nest have a derivation -/

/-- The tokens up to the parenthesis that closes one of the open ones, and the tokens after it. -/
theorem exists_closing {ts : List Token} (proper : ∀ t ∈ ts, Proper t) {inner outer : Nat}
    (h : nests (inner + outer + 1) ts = true) :
    ∃ us rest, ts = us ++ closing :: rest ∧ nests inner us = true ∧ nests outer rest = true := by
  induction ts generalizing inner with
  | nil => simp [nests] at h
  | cons t ts ih =>
    have proper' : ∀ t ∈ ts, Proper t := fun t ht => proper t (List.mem_cons_of_mem _ ht)
    cases proper t List.mem_cons_self with
    | number text =>
      rw [nests_ofNumber] at h
      obtain ⟨us, rest, rfl, hu, hr⟩ := ih proper' h
      exact ⟨ofNumber text :: us, rest, rfl, by rw [nests_ofNumber, hu], hr⟩
    | operator op =>
      rw [nests_operator] at h
      obtain ⟨us, rest, rfl, hu, hr⟩ := ih proper' h
      exact ⟨op.token :: us, rest, rfl, by rw [nests_operator, hu], hr⟩
    | opening =>
      rw [nests_opening, show inner + outer + 1 + 1 = (inner + 1) + outer + 1 by omega] at h
      obtain ⟨us, rest, rfl, hu, hr⟩ := ih proper' h
      exact ⟨opening :: us, rest, rfl, by rw [nests_opening, hu], hr⟩
    | closing =>
      rw [nests_closing_succ] at h
      cases inner with
      | zero => exact ⟨[], ts, rfl, rfl, by rwa [Nat.zero_add] at h⟩
      | succ inner =>
        rw [show inner + 1 + outer = inner + outer + 1 by omega] at h
        obtain ⟨us, rest, rfl, hu, hr⟩ := ih proper' h
        exact ⟨closing :: us, rest, rfl, by rw [nests_closing_succ, hu], hr⟩

/-- A closing parenthesis stands after an operand, whatever is before it. -/
theorem alternates_append_closing {us : List Token} (proper : ∀ t ∈ us, Proper t)
    (awaiting : Bool) (rest : List Token) :
    alternates awaiting (us ++ closing :: rest) =
      (alternates awaiting us && alternates false rest) := by
  induction us generalizing awaiting with
  | nil => rfl
  | cons t us ih =>
    have ih := ih fun t ht => proper t (List.mem_cons_of_mem _ ht)
    cases proper t List.mem_cons_self with
    | number text =>
      rw [List.cons_append, alternates_ofNumber, alternates_ofNumber, ih, Bool.and_assoc]
    | operator op =>
      rw [List.cons_append, alternates_operator, alternates_operator, ih, Bool.and_assoc]
    | opening => rw [List.cons_append, alternates_opening, alternates_opening, ih, Bool.and_assoc]
    | closing => rw [List.cons_append, alternates_closing, alternates_closing, ih, Bool.and_assoc]

/-- A factor and a product operator may be put in front of a term. -/
theorem Derives.cons_term {fs ts : List Token} {f g : Formula} {op : Operation}
    (front : Derives .factor fs f) (hop : op = .multiply ∨ op = .divide) (d : Derives .term ts g) :
    ∃ h, Derives .term (fs ++ op.token :: ts) h := by
  generalize hc : Category.term = c at d
  induction d with
  | term => cases hc
  | sum => cases hc
  | factor d _ => exact ⟨_, .product (.factor front) hop d⟩
  | product _ hop' r ih _ =>
    obtain ⟨h, dh⟩ := ih hc
    have := Derives.product dh hop' r
    rw [List.append_assoc, List.cons_append] at this
    exact ⟨_, this⟩
  | number => cases hc
  | group => cases hc

/-- A factor and an operator may be put in front of an expression. -/
theorem Derives.cons_expression {fs ts : List Token} {f g : Formula} (op : Operation)
    (front : Derives .factor fs f) (d : Derives .expression ts g) :
    Derivable (fs ++ op.token :: ts) := by
  generalize hc : Category.expression = c at d
  induction d with
  | term d _ =>
    by_cases hop : op = .add ∨ op = .subtract
    · exact ⟨_, .sum (.term (.factor front)) hop d⟩
    · have hop : op = .multiply ∨ op = .divide := by cases op <;> simp at hop ⊢
      obtain ⟨h, dh⟩ := front.cons_term hop d
      exact ⟨h, .term dh⟩
  | sum _ hop' r ih _ =>
    obtain ⟨h, dh⟩ := ih hc
    have := Derives.sum dh hop' r
    rw [List.append_assoc, List.cons_append] at this
    exact ⟨_, this⟩
  | factor => cases hc
  | product => cases hc
  | number => cases hc
  | group => cases hc

/-- What may follow a factor: nothing, or an operator and an expression. -/
theorem derivable_of_factor {fs rest : List Token} {f : Formula} (front : Derives .factor fs f)
    (proper : ∀ t ∈ rest, Proper t) (halt : alternates false rest = true)
    (hnest : nests 0 rest = true)
    (ih : ∀ ts, ts.length < rest.length → (∀ t ∈ ts, Proper t) → alternates true ts = true →
      nests 0 ts = true → Derivable ts) : Derivable (fs ++ rest) := by
  cases rest with
  | nil => exact ⟨f, by simpa using Derives.term (.factor front)⟩
  | cons t ts =>
    have proper' : ∀ t ∈ ts, Proper t := fun t ht => proper t (List.mem_cons_of_mem _ ht)
    cases proper t List.mem_cons_self with
    | number text => simp at halt
    | opening => simp at halt
    | closing => simp at hnest
    | operator op =>
      rw [alternates_operator] at halt
      rw [nests_operator] at hnest
      obtain ⟨g, d⟩ := ih ts (by simp) proper' (by simpa using halt) hnest
      exact front.cons_expression op d

theorem derivable_of_alternates {ts : List Token} (proper : ∀ t ∈ ts, Proper t)
    (halt : alternates true ts = true) (hnest : nests 0 ts = true) : Derivable ts := by
  -- Induction on the length: a group in parentheses and what follows an operator are both shorter.
  induction hn : ts.length using Nat.strongRecOn generalizing ts with
  | ind n ih =>
    subst hn
    cases ts with
    | nil => simp [alternates] at halt
    | cons t ts =>
      have proper' : ∀ t ∈ ts, Proper t := fun t ht => proper t (List.mem_cons_of_mem _ ht)
      cases proper t List.mem_cons_self with
      | operator op => simp at halt
      | closing => simp at halt
      | number text =>
        rw [alternates_ofNumber, Bool.true_and] at halt
        rw [nests_ofNumber] at hnest
        refine derivable_of_factor (.number text) proper' halt hnest fun us hl hp ha hn => ?_
        exact ih us.length (Nat.lt_trans hl (Nat.lt_succ_self _)) hp ha hn rfl
      | opening =>
        rw [alternates_opening, Bool.true_and] at halt
        rw [nests_opening] at hnest
        obtain ⟨us, rest, rfl, hu, hr⟩ := @exists_closing _ proper' 0 0 hnest
        have properU : ∀ t ∈ us, Proper t := fun t ht => proper' t (List.mem_append_left _ ht)
        have properR : ∀ t ∈ rest, Proper t := fun t ht =>
          proper' t (List.mem_append_right _ (List.mem_cons_of_mem _ ht))
        rw [alternates_append_closing properU, Bool.and_eq_true] at halt
        have shorter : us.length + rest.length < (opening :: (us ++ closing :: rest)).length := by
          simp only [List.length_append, List.length_cons]
          omega
        obtain ⟨g, d⟩ := ih us.length (by omega) properU halt.1 hu rfl
        have := derivable_of_factor (.group d) properR halt.2 hr fun vs hl hp ha hn =>
          ih vs.length (by omega) hp ha hn rfl
        simpa using this

/-- A token list is an infix expression exactly when its tokens are proper, alternate and nest. -/
theorem derivable_iff {ts : List Token} :
    Derivable ts ↔ (∀ t ∈ ts, Proper t) ∧ alternates true ts = true ∧ nests 0 ts = true := by
  constructor
  · rintro ⟨f, d⟩
    refine ⟨d.proper, ?_, ?_⟩
    · have := d.alternates_append []
      rwa [List.append_nil] at this
    · have := d.nests_append 0 []
      rwa [List.append_nil] at this
  · rintro ⟨proper, halt, hnest⟩
    exact derivable_of_alternates proper halt hnest

end Stepwise
