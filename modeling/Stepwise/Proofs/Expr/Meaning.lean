import Mathlib.Algebra.Order.Ring.Int
import Stepwise.Expr.Plan
import Stepwise.Proofs.Expr.Grammar

/-!
# The meaning of a plan

`toPostfix` turns the infix form of a formula into its post-order, `ofPostfix` cuts the post-order
into the steps of the formula, and executing the steps in order gives the value of the formula.
The three facts are `toPostfix_of_derives`, `ofPostfix_postorder` and `execute_steps`; the main
result, `plan_of_derives`, puts them together for every derivation, with any interpretation of the
operations.
-/

namespace Stepwise

open Token

/-! ## Infix to post-order -/

/-- The least precedence of the operators that a category joins. -/
def Category.precedence : Category → Nat
  | .expression => 1
  | .term => 2
  | .factor => 3

/-- No operator that waits on top of the stack leaves it for an operator of a category. -/
def Rests (c : Category) (stack : List Token) : Prop :=
  ∀ p, c.precedence ≤ p → ∀ t ∈ stack.head?, yields p t = false

theorem precedence?_token (op : Operation) : op.token.precedence? = some op.precedence := by
  unfold precedence? Operation.token
  rw [Operation.ofSymbol?_symbol]
  rfl

theorem yields_token (p : Nat) (op : Operation) :
    yields p op.token = decide (p ≤ op.precedence) := by
  unfold yields
  rw [precedence?_token]
  rfl

theorem yields_opening (p : Nat) : yields p opening = false := rfl

theorem Rests.mono {c d : Category} {stack : List Token} (h : Rests c stack)
    (hcd : c.precedence ≤ d.precedence) : Rests d stack :=
  fun p hp => h p (hcd.trans hp)

theorem rests_nil (c : Category) : Rests c [] := by
  intro p _ t ht
  simp at ht

theorem rests_opening (c : Category) (stack : List Token) : Rests c (opening :: stack) := by
  intro p _ t ht
  simp only [List.head?_cons, Option.mem_def, Option.some.injEq] at ht
  rw [← ht, yields_opening]

theorem rests_token {c : Category} {op : Operation} (h : op.precedence < c.precedence)
    (stack : List Token) : Rests c (op.token :: stack) := by
  intro p hp t ht
  simp only [List.head?_cons, Option.mem_def, Option.some.injEq] at ht
  rw [← ht, yields_token, decide_eq_false_iff_not]
  omega

theorem Rests.takeWhile_append {c : Category} {stack : List Token} (h : Rests c stack)
    {waiting : List Token} (hw : ∀ t ∈ waiting, yields c.precedence t = true) :
    (waiting ++ stack).takeWhile (yields c.precedence) = waiting := by
  rw [List.takeWhile_append_of_pos hw]
  cases stack with
  | nil => simp
  | cons t stack =>
    rw [List.takeWhile_cons_of_neg (by simp [h _ le_rfl t rfl]), List.append_nil]

theorem Rests.dropWhile_append {c : Category} {stack : List Token} (h : Rests c stack)
    {waiting : List Token} (hw : ∀ t ∈ waiting, yields c.precedence t = true) :
    (waiting ++ stack).dropWhile (yields c.precedence) = stack := by
  rw [List.dropWhile_append_of_pos hw]
  cases stack with
  | nil => rfl
  | cons t stack => rw [List.dropWhile_cons_of_neg (by simp [h _ le_rfl t rfl])]

theorem yields_mono {p q : Nat} (hpq : p ≤ q) {t : Token} (h : yields q t = true) :
    yields p t = true := by
  simp only [yields, Bool.and_eq_true, decide_eq_true_eq] at h ⊢
  exact ⟨h.1, hpq.trans h.2⟩

theorem kind_of_yields {p : Nat} {t : Token} (h : yields p t = true) : t.kind = .operator := by
  unfold yields at h
  rw [Bool.and_eq_true] at h
  exact beq_iff_eq.1 h.1

theorem closeParen_append {waiting : List Token} (hw : ∀ t ∈ waiting, t.kind = .operator)
    (stack : List Token) : closeParen (waiting ++ opening :: stack) = .ok (waiting, stack) := by
  induction waiting with
  | nil => rfl
  | cons t waiting ih =>
    rw [List.cons_append, closeParen, hw t List.mem_cons_self,
      ih fun t ht => hw t (List.mem_cons_of_mem _ ht)]
    rfl

theorem flush_operators {waiting : List Token} (hw : ∀ t ∈ waiting, t.kind = .operator) :
    flush waiting = .ok waiting := by
  induction waiting with
  | nil => rfl
  | cons t waiting ih =>
    rw [flush, hw t List.mem_cons_self, ih fun t ht => hw t (List.mem_cons_of_mem _ ht)]
    rfl

theorem map_map_append (r : Except CompileFault (List Token)) (us vs : List Token) :
    (r.map (vs ++ ·)).map (us ++ ·) = r.map (us ++ vs ++ ·) := by
  cases r with
  | error fault => rfl
  | ok ts => simp [Except.map]

theorem reorder_ofNumber (stack : List Token) (text : String) (rest : List Token) :
    reorder stack (ofNumber text :: rest) = (reorder stack rest).map (ofNumber text :: ·) := by
  rw [reorder]
  rfl

theorem reorder_token (stack : List Token) (op : Operation) (rest : List Token) :
    reorder stack (op.token :: rest) =
      (reorder (op.token :: stack.dropWhile (yields op.precedence)) rest).map
        (stack.takeWhile (yields op.precedence) ++ ·) := by
  have hk : op.token.kind = .operator := rfl
  rw [reorder, hk]
  simp only [precedence?_token]

theorem reorder_opening (stack rest : List Token) :
    reorder stack (opening :: rest) = reorder (opening :: stack) rest := by
  rw [reorder]
  rfl

theorem reorder_closing (stack rest : List Token) :
    reorder stack (closing :: rest) =
      (closeParen stack).bind fun r => (reorder r.2 rest).map (r.1 ++ ·) := by
  have hk : closing.kind = .rightParen := rfl
  rw [reorder, hk]
  cases closeParen stack <;> rfl

/-- Reading tokens after a stack sends out a part of the post-order of a formula and leaves the rest
of it, operators of a category alone, on top of the stack. -/
def Sends (c : Category) (stack ts : List Token) (f : Formula) : Prop :=
  ∃ out waiting, out ++ waiting = f.postorder ∧
    (∀ t ∈ waiting, yields c.precedence t = true) ∧
    ∀ rest, reorder stack (ts ++ rest) = (reorder (waiting ++ stack) rest).map (out ++ ·)

theorem Sends.mono {c d : Category} {stack ts : List Token} {f : Formula} (h : Sends d stack ts f)
    (hcd : c.precedence ≤ d.precedence) : Sends c stack ts f := by
  obtain ⟨out, waiting, hp, hw, hr⟩ := h
  exact ⟨out, waiting, hp, fun t ht => yields_mono hcd (hw t ht), hr⟩

/-- An operator of a category between its operands; the right one is of a tighter category. -/
theorem Sends.join {c d : Category} {op : Operation} (hc : op.precedence = c.precedence)
    (hcd : c.precedence < d.precedence) {stack ls rs : List Token} {l r : Formula}
    (rests : Rests c stack) (hl : Sends c stack ls l) (hr : Sends d (op.token :: stack) rs r) :
    Sends c stack (ls ++ op.token :: rs) (.node op l r) := by
  obtain ⟨out, waiting, hp, hw, hl⟩ := hl
  obtain ⟨out', waiting', hp', hw', hr⟩ := hr
  refine ⟨out ++ waiting ++ out', waiting' ++ [op.token], ?_, ?_, fun rest => ?_⟩
  · rw [hp, Formula.postorder, ← hp', List.append_assoc, List.append_assoc, List.append_assoc]
  · intro t ht
    rcases List.mem_append.1 ht with ht | ht
    · exact yields_mono hcd.le (hw' t ht)
    · rw [List.mem_singleton.1 ht, yields_token, hc, decide_eq_true_eq]
  · rw [List.append_assoc, hl, List.cons_append, reorder_token, hc, rests.takeWhile_append hw,
      rests.dropWhile_append hw, hr, map_map_append, map_map_append, List.append_assoc waiting',
      List.singleton_append, List.append_assoc]

theorem Sends.number (stack : List Token) (text : String) :
    Sends .factor stack [ofNumber text] (.number text) := by
  refine ⟨[ofNumber text], [], rfl, by simp, fun rest => ?_⟩
  rw [List.singleton_append, reorder_ofNumber]
  rfl

theorem Sends.group {stack ts : List Token} {f : Formula}
    (h : Sends .expression (opening :: stack) ts f) :
    Sends .factor stack (opening :: (ts ++ [closing])) f := by
  obtain ⟨out, waiting, hp, hw, hr⟩ := h
  refine ⟨out ++ waiting, [], by rw [List.append_nil, hp], by simp, fun rest => ?_⟩
  rw [List.cons_append, reorder_opening, List.append_assoc, hr, List.singleton_append,
    reorder_closing, closeParen_append fun t ht => kind_of_yields (hw t ht)]
  exact map_map_append _ _ _

theorem sends_of_derives {c : Category} {ts : List Token} {f : Formula} (d : Derives c ts f)
    (stack : List Token) (rests : Rests c stack) : Sends c stack ts f := by
  induction d generalizing stack with
  | term _ ih => exact (ih stack (rests.mono (by decide))).mono (by decide)
  | factor _ ih => exact (ih stack (rests.mono (by decide))).mono (by decide)
  | @sum _ _ _ _ op _ hop _ ihl ihr =>
    have hc : op.precedence = Category.expression.precedence := by rcases hop with rfl | rfl <;> rfl
    exact .join hc (by decide) rests (ihl stack rests)
      (ihr _ (rests_token (by rw [hc]; decide) stack))
  | @product _ _ _ _ op _ hop _ ihl ihr =>
    have hc : op.precedence = Category.term.precedence := by rcases hop with rfl | rfl <;> rfl
    exact .join hc (by decide) rests (ihl stack rests)
      (ihr _ (rests_token (by rw [hc]; decide) stack))
  | number text => exact .number stack text
  | group _ ih => exact .group (ih _ (rests_opening _ stack))

theorem toPostfix_of_derives {ts : List Token} {f : Formula} (d : Derives .expression ts f) :
    toPostfix ts = .ok f.postorder := by
  obtain ⟨out, waiting, hp, hw, hr⟩ := sends_of_derives d [] (rests_nil _)
  have h := hr []
  rw [List.append_nil, List.append_nil, reorder,
    flush_operators fun t ht => kind_of_yields (hw t ht)] at h
  rw [toPostfix, h, ← hp]
  rfl

/-! ## Post-order to steps -/

/-- The steps of a formula, numbered in post-order from `first` on, and the operand that stands for
its value. -/
def Formula.steps (value : String → Float) (first : Nat) : Formula → List Step × Operand
  | number text => ([], .value (value text))
  | node op l r =>
    let left := l.steps value first
    let right := r.steps value (first + left.1.length)
    let id : Int := (first + left.1.length + right.1.length : Nat)
    (left.1 ++ right.1 ++ [⟨id, op, left.2, right.2⟩], .result id)

namespace Formula

variable {value : String → Float}

theorem steps_operations (f : Formula) (first : Nat) :
    (f.steps value first).1.map (·.operation) = f.operations := by
  induction f generalizing first with
  | number text => rfl
  | node op l r ihl ihr => simp only [steps, operations, List.map_append, ihl, ihr]; rfl

theorem length_steps (f : Formula) (first : Nat) :
    (f.steps value first).1.length = f.operations.length := by
  rw [← steps_operations f first, List.length_map]

theorem steps_ids (f : Formula) (first : Nat) :
    (f.steps value first).1.map (·.id) = (List.range' first f.operations.length).map Int.ofNat := by
  induction f generalizing first with
  | number text => rfl
  | node op l r ihl ihr =>
    simp only [steps, operations, List.map_append, ihl, ihr, length_steps, List.length_append,
      List.length_cons, List.length_nil, List.map_cons, List.map_nil]
    rw [← List.range'_append_1, ← List.range'_append_1, List.map_append, List.map_append,
      Nat.add_assoc]
    rfl

/-- A formula without operations is a number. -/
theorem eq_number_of_operations_eq_nil {f : Formula} (h : f.operations = []) :
    ∃ text, f = number text := by
  cases f with
  | number text => exact ⟨text, rfl⟩
  | node op l r => simp [operations] at h

end Formula

theorem run_number {text : String} {x : Float} (h : Plan.number text = .ok x) (steps : List Step)
    (stack : List Operand) (rest : List Token) :
    Plan.run steps stack (ofNumber text :: rest) = Plan.run steps (.value x :: stack) rest := by
  have hk : (ofNumber text).kind == .number := rfl
  have ht : (ofNumber text).text = text := rfl
  rw [Plan.run.eq_def]
  simp only [hk, ht, h, if_true]

theorem run_operator (op : Operation) (steps : List Step) (left right : Operand)
    (stack : List Operand) (rest : List Token) :
    Plan.run steps (right :: left :: stack) (op.token :: rest) =
      Plan.run (steps ++ [⟨steps.length, op, left, right⟩]) (.result steps.length :: stack)
        rest := by
  have hk : ¬ (op.token.kind == .number) = true := by simp [Operation.token]
  have ht : op.token.text = op.symbol := rfl
  rw [Plan.run.eq_def]
  simp only [if_neg hk, ht, Operation.ofSymbol?_symbol]

/-- Reading a post-order appends the steps of the formula and pushes its value. -/
theorem run_postorder {value : String → Float} (f : Formula)
    (finite : ∀ text ∈ f.numbers, Plan.number text = .ok (value text)) (steps : List Step)
    (stack : List Operand) (rest : List Token) :
    Plan.run steps stack (f.postorder ++ rest) =
      Plan.run (steps ++ (f.steps value steps.length).1) ((f.steps value steps.length).2 :: stack)
        rest := by
  induction f generalizing steps stack rest with
  | number text =>
    rw [Formula.postorder, List.singleton_append,
      run_number (finite text (by simp [Formula.numbers]))]
    simp [Formula.steps]
  | node op l r ihl ihr =>
    rw [Formula.postorder, List.append_assoc, List.append_assoc,
      ihl fun text ht => finite text (List.mem_append_left _ ht),
      ihr fun text ht => finite text (List.mem_append_right _ ht), List.singleton_append,
      run_operator]
    simp only [Formula.steps, List.length_append, List.append_assoc, Nat.add_assoc]

theorem ofPostfix_postorder {value : String → Float} (f : Formula)
    (finite : ∀ text ∈ f.numbers, Plan.number text = .ok (value text)) :
    Plan.ofPostfix f.postorder = .ok (f.steps value 0) := by
  have h := run_postorder f finite [] [] []
  rw [List.append_nil, Plan.run, List.nil_append, List.length_nil] at h
  rw [Plan.ofPostfix, h]

/-! ## Executing steps -/

section Execution

variable {V : Type} (literal : Float → V) (apply : Operation → V → V → V)

/-- What an operand stands for: a literal, or the recorded result of a step. -/
def Operand.find? (results : List (Int × V)) : Operand → Option V
  | .value x => some (literal x)
  | .result step => results.lookup step

/-- Executes steps in order, recording each result under the id of its step. -/
def execute (results : List (Int × V)) : List Step → Option (List (Int × V))
  | [] => some results
  | s :: rest =>
    match s.left.find? literal results, s.right.find? literal results with
    | some a, some b => execute (results ++ [(s.id, apply s.operation a b)]) rest
    | _, _ => none

theorem execute_append (results : List (Int × V)) (ss ts : List Step) :
    execute literal apply results (ss ++ ts) =
      (execute literal apply results ss).bind fun r => execute literal apply r ts := by
  induction ss generalizing results with
  | nil => rfl
  | cons s ss ih =>
    rw [List.cons_append, execute, execute]
    split
    · exact ih _
    · rfl

theorem lookup_append_of_ne {results : List (Int × V)} {id : Int} (h : ∀ r ∈ results, r.1 ≠ id)
    (more : List (Int × V)) : (results ++ more).lookup id = more.lookup id := by
  induction results with
  | nil => rfl
  | cons r results ih =>
    have hr : (id == r.1) = false := beq_eq_false_iff_ne.2 (h r List.mem_cons_self).symm
    rw [List.cons_append, List.lookup_cons, hr]
    exact ih fun r hr => h r (List.mem_cons_of_mem _ hr)

/-- Executing the steps of a formula records one result per step, and the operand of the formula
then stands for the value of the formula. -/
theorem execute_steps (value : String → Float) (f : Formula) (first : Nat)
    {results : List (Int × V)} (old : ∀ r ∈ results, r.1 < first) :
    ∃ new, execute literal apply results (f.steps value first).1 = some (results ++ new) ∧
      (∀ r ∈ new, r.1 < (first + f.operations.length : Nat)) ∧
      ∀ more, (f.steps value first).2.find? literal (results ++ new ++ more) =
        some (f.eval (fun text => literal (value text)) apply) := by
  induction f generalizing first results with
  | number text => exact ⟨[], by simp [Formula.steps, execute], by simp, fun more => rfl⟩
  | node op l r ihl ihr =>
    obtain ⟨new, hl, hn, hv⟩ := ihl first old
    have old' : ∀ r ∈ results ++ new, r.1 < (first + l.operations.length : Nat) := by
      intro r hr
      rcases List.mem_append.1 hr with h | h
      · have := old r h
        omega
      · exact hn r h
    obtain ⟨new', hr, hn', hv'⟩ := ihr (first + l.operations.length) old'
    have below : ∀ r' ∈ results ++ new ++ new',
        r'.1 < (first + l.operations.length + r.operations.length : Nat) := by
      intro r' h
      rcases List.mem_append.1 h with h | h
      · have := old' r' h
        omega
      · exact hn' r' h
    have left := hv new'
    have right := hv' []
    rw [List.append_nil] at right
    let own : Int × V := ((first + l.operations.length + r.operations.length : Nat),
      apply op (l.eval (fun text => literal (value text)) apply)
        (r.eval (fun text => literal (value text)) apply))
    refine ⟨new ++ new' ++ [own], ?_, ?_, fun more => ?_⟩
    · simp only [Formula.steps, Formula.length_steps, execute_append, hl, hr, Option.bind_some]
      rw [execute, left, right]
      simp [execute, List.append_assoc, own]
    · intro r' h
      simp only [Formula.operations, List.length_append, List.length_singleton]
      rcases List.mem_append.1 h with h | h
      · have := below r' (by
          rw [List.append_assoc]
          exact List.mem_append_right _ h)
        omega
      · rw [List.mem_singleton.1 h]
        show ((first + l.operations.length + r.operations.length : Nat) : Int) < _
        omega
    · simp only [Formula.steps, Formula.length_steps, Operand.find?]
      rw [← List.append_assoc, ← List.append_assoc, List.append_assoc _ _ more,
        lookup_append_of_ne fun r' h => (below r' h).ne]
      simp [Formula.eval, own]

end Execution

/-- The literal of a plan whose value is an operand. -/
def Operand.literal? : Operand → Option Float
  | .value x => some x
  | .result _ => none

theorem compile_of_stray {text : String} {stray : StrayCharacter}
    (h : tokenize text = .error stray) : Plan.compile text = .error (.strayCharacter stray) := by
  rw [Plan.compile, h]

/-- Tokens are put into postfix order and then cut into steps. -/
theorem compile_of_tokenize {text : String} {ts : List Token} (h : tokenize text = .ok ts) :
    Plan.compile text = (toPostfix ts).bind fun out =>
      (Plan.ofPostfix out).map fun r => ⟨text, out, r.1, r.2.literal?⟩ := by
  rw [Plan.compile, h]
  cases ts with
  | nil => rfl
  | cons t ts =>
    simp only
    cases toPostfix (t :: ts) with
    | error fault => rfl
    | ok out =>
      simp only [Except.bind]
      rcases Plan.ofPostfix out with fault | ⟨steps, _ | _⟩ <;> rfl

theorem compile_of_derives {text : String} {ts : List Token} {f : Formula}
    (scanned : tokenize text = .ok ts) (d : Derives .expression ts f) {value : String → Float}
    (finite : ∀ text ∈ f.numbers, Plan.number text = .ok (value text)) :
    Plan.compile text =
      .ok ⟨text, f.postorder, (f.steps value 0).1, (f.steps value 0).2.literal?⟩ := by
  rw [compile_of_tokenize scanned, toPostfix_of_derives d, Except.bind,
    ofPostfix_postorder f finite]
  rfl

/-- Compiling an infix form yields the post-order of its formula and one step per operator, in
post-order and with the operands in their order; executing the steps, under any interpretation of
literals and operations, yields the value of the formula. -/
theorem plan_of_derives {ts : List Token} {f : Formula} (d : Derives .expression ts f)
    (value : String → Float) (finite : ∀ text ∈ f.numbers, Plan.number text = .ok (value text)) :
    toPostfix ts = .ok f.postorder ∧
    Plan.ofPostfix f.postorder = .ok (f.steps value 0) ∧
    (f.steps value 0).1.map (·.operation) = f.operations ∧
    (f.steps value 0).1.map (·.id) = (List.range f.operations.length).map Int.ofNat ∧
    (f.operations = [] → ∃ text, f = .number text ∧ f.steps value 0 = ([], .value (value text))) ∧
    (∀ (V : Type) (literal : Float → V) (apply : Operation → V → V → V),
      ∃ results, execute literal apply [] (f.steps value 0).1 = some results ∧
        (f.steps value 0).2.find? literal results =
          some (f.eval (fun text => literal (value text)) apply)) ∧
    ∀ text, tokenize text = .ok ts → Plan.compile text =
      .ok ⟨text, f.postorder, (f.steps value 0).1, (f.steps value 0).2.literal?⟩ := by
  refine ⟨toPostfix_of_derives d, ofPostfix_postorder f finite, f.steps_operations 0, ?_, ?_, ?_,
    ?_⟩
  · rw [f.steps_ids 0, List.range_eq_range']
  · intro h
    obtain ⟨text, rfl⟩ := Formula.eq_number_of_operations_eq_nil h
    exact ⟨text, rfl, rfl⟩
  · intro V literal apply
    obtain ⟨new, h, -, hv⟩ := execute_steps literal apply value f 0 (List.forall_mem_nil _)
    refine ⟨new, by simpa using h, ?_⟩
    have := hv []
    rwa [List.append_nil, List.nil_append] at this
  · exact fun text scanned => compile_of_derives scanned d finite

/-- The plan of `(10+20)*3`, whose last step takes the result of the first. -/
theorem plan_of_group_times_three :
    let ts := [opening, ofNumber "10", Operation.add.token, ofNumber "20", closing,
      Operation.multiply.token, ofNumber "3"]
    let f : Formula := .node .multiply (.node .add (.number "10") (.number "20")) (.number "3")
    let value := fun text => (Plan.number text).toOption.getD 0
    Derives .expression ts f ∧ (∀ text ∈ f.numbers, Plan.number text = .ok (value text)) ∧
      toPostfix ts = .ok [ofNumber "10", ofNumber "20", Operation.add.token, ofNumber "3",
        Operation.multiply.token] ∧
      Plan.ofPostfix f.postorder = .ok
        ([⟨0, .add, .value (value "10"), .value (value "20")⟩,
          ⟨1, .multiply, .result 0, .value (value "3")⟩], .result 1) := by
  intro ts f value
  have d : Derives .expression ts f :=
    .term (.product (.factor (.group (.sum (.term (.factor (.number "10"))) (Or.inl rfl)
      (.factor (.number "20"))))) (Or.inl rfl) (.number "3"))
  have finite : ∀ text ∈ f.numbers, Plan.number text = .ok (value text) := by
    intro text ht
    simp only [f, Formula.numbers, List.cons_append, List.nil_append, List.mem_cons,
      List.not_mem_nil, or_false] at ht
    rcases ht with rfl | rfl | rfl <;> rfl
  have h := plan_of_derives d value finite
  exact ⟨d, finite, h.1, h.2.1⟩

end Stepwise
